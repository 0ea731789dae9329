import NanoTrade.Exchange.ClientView
import NanoTrade.Exchange.Ownership

/-!
# The id table for one client

Other clients may use their ids as they like. A client that never uses the id of an order of
its own that rests finds all its orders through `cid_oid_to_order_` (`Refines.findable`), so
that none of its cancels of a resting order is rejected (`Refines.not_rejected`).
-/

namespace NanoTrade

/-- The ids of the orders of a client in a list. -/
def idsOf (clientId : ClientId) (xs : List MEResting) : List OrderId :=
  (held clientId xs).map (·.1)

section Ids

variable {clientId : ClientId} {xs ys : List MEResting} {o : MEResting}

theorem idsOf_cons_self (own : o.key.clientId = clientId) :
    idsOf clientId (o :: xs) = o.key.clientOrderId :: idsOf clientId xs := by
  rw [idsOf, held_cons_self own]
  rfl

theorem idsOf_cons_of_ne (foreign : o.key.clientId ≠ clientId) :
    idsOf clientId (o :: xs) = idsOf clientId xs := by
  rw [idsOf, held_cons_of_ne foreign]
  rfl

theorem idsOf_perm (perm : xs.Perm ys) : (idsOf clientId xs).Perm (idsOf clientId ys) :=
  ((perm.filter _).map _).map _

theorem mem_idsOf {id : OrderId} : id ∈ idsOf clientId xs ↔
    ∃ o ∈ xs, RefBook.Addresses clientId id o := by
  rw [idsOf, List.mem_map]
  constructor
  · rintro ⟨a, mem, rfl⟩
    obtain ⟨o, oMem, own, rfl⟩ := mem_held.mp mem
    exact ⟨o, oMem, own, rfl⟩
  · rintro ⟨o, oMem, own, rfl⟩
    exact ⟨_, mem_held.mpr ⟨o, oMem, own, rfl⟩, rfl⟩

/-- The ids only depend on the tags. -/
theorem idsOf_congr (same : xs.map Resting.tag = ys.map Resting.tag) :
    idsOf clientId xs = idsOf clientId ys := by
  have read : ∀ zs : List MEResting, idsOf clientId zs =
      ((zs.map Resting.tag).filter fun t => t.1.clientId = clientId).map (·.1.clientOrderId) := by
    intro zs
    rw [idsOf, held, List.filter_map, List.map_map, List.map_map]
    rfl
  rw [read, read, same]

end Ids

/-- The ids of a client are distinct, and the table knows them all. -/
structure Findable (clientId : ClientId) (table : MESlot → Option Ptr) (xs : List MEResting) :
    Prop where
  nodup : (idsOf clientId xs).Nodup
  found : ∀ id ∈ idsOf clientId xs, table (clientId, id) ≠ none

namespace Findable

variable {clientId : ClientId} {table : MESlot → Option Ptr} {xs ys : List MEResting}
  {o : MEResting}

theorem perm (findable : Findable clientId table xs)
    (perm : (idsOf clientId xs).Perm (idsOf clientId ys)) : Findable clientId table ys :=
  ⟨perm.nodup_iff.mp findable.nodup, fun id mem => findable.found id (perm.mem_iff.mpr mem)⟩

/-- An order leaves the list and the table. -/
theorem remove (findable : Findable clientId table (o :: xs)) :
    Findable clientId
      (Function.update table (o.key.clientId, o.key.clientOrderId) none) xs := by
  by_cases own : o.key.clientId = clientId
  · have nodup := findable.nodup
    rw [idsOf_cons_self own, List.nodup_cons] at nodup
    refine ⟨nodup.2, fun id mem => ?_⟩
    rw [Function.update_of_ne]
    · refine findable.found id ?_
      rw [idsOf_cons_self own]
      exact List.mem_cons_of_mem _ mem
    · intro same
      rw [Prod.mk.injEq] at same
      exact nodup.1 (same.2 ▸ mem)
  · have nodup := findable.nodup
    rw [idsOf_cons_of_ne own] at nodup
    refine ⟨nodup, fun id mem => ?_⟩
    rw [Function.update_of_ne]
    · refine findable.found id ?_
      rw [idsOf_cons_of_ne own]
      exact mem
    · intro same
      rw [Prod.mk.injEq] at same
      exact own same.1.symm

/-- An order enters the list and the table. -/
theorem insert (findable : Findable clientId table xs) (ptr : Ptr)
    (fresh : o.key.clientId = clientId → o.key.clientOrderId ∉ idsOf clientId xs) :
    Findable clientId
      (Function.update table (o.key.clientId, o.key.clientOrderId) (some ptr)) (o :: xs) := by
  have kept : ∀ id, table (clientId, id) ≠ none → Function.update table
      (o.key.clientId, o.key.clientOrderId) (some ptr) (clientId, id) ≠ none := by
    intro id known
    by_cases same : (clientId, id) = (o.key.clientId, o.key.clientOrderId)
    · rw [same, Function.update_self]
      exact Option.some_ne_none ptr
    · rw [Function.update_of_ne same]
      exact known
  by_cases own : o.key.clientId = clientId
  · constructor
    · rw [idsOf_cons_self own, List.nodup_cons]
      exact ⟨fresh own, findable.nodup⟩
    · intro id mem
      rw [idsOf_cons_self own] at mem
      rcases List.mem_cons.mp mem with rfl | mem
      · rw [own, Function.update_self]
        exact Option.some_ne_none ptr
      · exact kept id (findable.found id mem)
  · constructor
    · rw [idsOf_cons_of_ne own]
      exact findable.nodup
    · intro id mem
      rw [idsOf_cons_of_ne own] at mem
      exact kept id (findable.found id mem)

end Findable

/-! ## One fill -/

theorem meLayout_slot {key : MEOrderKey} {slot : MESlot} (isSlot : meLayout.slot key = .ok slot) :
    slot = (key.clientId, key.clientOrderId) :=
  (meSlot_eq_ok.mp isSlot).2.2

/-- A book whose table leads to the orders of a client. -/
def SimFindable (basePrice : Price) (clientId : ClientId) (s : LevelBook MEOrderKey MESlot)
    (orders : BookSide → List MEResting) : Prop :=
  Sim basePrice False s orders ∧ Findable clientId s.oidToOrder (both orders)

theorem SimFindable.oneFill (basePrice : Price) (clientId : ClientId) (a : Aggressor)
    (passive : BookSide) : Sim.OneFill (SimFindable basePrice clientId) a passive := by
  rintro s orders o rest ⟨sim, findable⟩ front leaves
  obtain ⟨best, itr, head, first, content, fill⟩ := Matching.matchOrder_table sim front a leaves
  refine ⟨best, itr, head, first, congrArg (·.2.2.1) content, ?_⟩
  have before := perm_both orders passive
  rw [front] at before
  split
  · rename_i full
    rw [if_pos full] at fill
    obtain ⟨s', run, sim', slot, isSlot, table⟩ := fill
    refine ⟨s', run, sim', ?_⟩
    rw [table, meLayout_slot isSlot]
    have taken := (findable.perm (idsOf_perm before)).remove
    exact taken.perm (idsOf_perm (perm_both_update orders passive rest).symm)
  · rename_i part
    rw [if_neg part] at fill
    obtain ⟨s', run, sim', table⟩ := fill
    refine ⟨s', run, sim', ?_⟩
    rw [table]
    have same : idsOf clientId (o :: rest ++ orders passive.opposite) =
        idsOf clientId ({ o with qty := o.qty - min leaves o.qty } :: rest ++
          orders passive.opposite) := idsOf_congr rfl
    have kept := findable.perm (idsOf_perm before)
    exact (kept.perm (.of_eq same)).perm (idsOf_perm (perm_both_update orders passive _).symm)

/-! ## Requests -/

/-- The ids of the orders of a client that the walks of the book find. -/
def MEOrderBook.idsOf (s : MEOrderBook) (clientId : ClientId) : List OrderId :=
  (s.restingOf clientId .bid ++ s.restingOf clientId .ask).map fun o => o.1.clientOrderId

/-- The ids of a client are distinct, and the table leads to an order for each. -/
def MEOrderBook.Findable (s : MEOrderBook) (clientId : ClientId) : Prop :=
  (s.idsOf clientId).Nodup ∧ ∀ id ∈ s.idsOf clientId, s.oidToOrder (clientId, id) ≠ none

namespace Refines

variable {basePrice : Price} {s s' : MEOrderBook} {ref : RefBook} {r : MEClientRequest}
  {out : List MEMessage}

theorem idsOf_eq (refines : Refines basePrice False s ref) (clientId : ClientId) :
    s.idsOf clientId = NanoTrade.idsOf clientId (both ref.orders) := by
  rw [MEOrderBook.idsOf, refines.restingOf_eq, refines.restingOf_eq, NanoTrade.idsOf, both,
    held_append, held, held]
  simp only [List.map_append, List.map_map]
  rfl

theorem findable_iff (refines : Refines basePrice False s ref) (clientId : ClientId) :
    s.Findable clientId ↔ NanoTrade.Findable clientId s.oidToOrder (both ref.orders) := by
  rw [MEOrderBook.Findable, refines.idsOf_eq]
  exact ⟨fun h => ⟨h.1, h.2⟩, fun h => ⟨h.nodup, h.found⟩⟩

/-- A NEW, with an id that is not that of an order of the client. -/
theorem findable_add {side : BookSide} {clientId : ClientId}
    (refines : Refines basePrice False s ref) (findable : s.Findable clientId)
    (rSide : r.side = side.toSide) (fresh : r.clientId = clientId → r.orderId ∉ s.idsOf clientId)
    (ran : s.add r.clientId r.orderId r.tickerId r.side r.price r.qty = .ok (s', out)) :
    s'.Findable clientId := by
  obtain ⟨takes, -, refines'⟩ := refines.add_ran rSide ran
  rw [refines'.findable_iff]
  have start : SimFindable basePrice clientId s.toLevelBook ref.orders :=
    ⟨refines.sim, (refines.findable_iff clientId).mp findable⟩
  obtain ⟨t, swept, simT, findableT⟩ := Sim.checkForMatch_keeps And.left
    (SimFindable.oneFill basePrice clientId _ side.opposite) start r.clientId r.orderId r.tickerId
    r.price r.qty ref.nextMarketOrderId rfl
  -- No order with the ids of the request is left behind the sweep.
  have free : r.clientId = clientId →
      r.orderId ∉ idsOf clientId (both (RefBook.swept .machine ref side r)) := by
    intro own mem
    have isFresh : Fresh ref r := by
      intro side' o oMem addresses
      refine fresh own ?_
      rw [refines.idsOf_eq]
      exact mem_idsOf.mpr ⟨o, (mem_both _).mpr ⟨side', oMem⟩, own ▸ addresses⟩
    obtain ⟨o, oMem, addresses⟩ := mem_idsOf.mp mem
    obtain ⟨side', oMem⟩ := (mem_both _).mp oMem
    exact isFresh.swept side' o oMem (own ▸ addresses)
  rw [rSide, MEOrderBook.add, refines.next, swept] at ran
  by_cases filled : (RefBook.matched .machine ref side r).2.1 = 0
  · have filled' := filled
    unfold RefBook.matched at filled'
    simp only [bind, Except.bind, pure, Except.pure, Width.machine] at ran filled'
    rw [if_pos filled'] at ran
    cases ran
    rw [RefBook.add_filled filled]
    exact findableT
  · have taken := takes filled
    have left := filled
    unfold RefBook.matched at left
    simp only [bind, Except.bind, pure, Except.pure, Width.machine] at ran left
    rw [if_neg left] at ran
    have room : (RefBook.swept .machine ref side r side).length +
        (RefBook.swept .machine ref side r side.opposite).length + 1 < ME_MAX_ORDER_IDS := by
      rw [RefBook.swept_own, RefBook.swept_opposite]
      exact taken.room
    obtain ⟨u, rested, -, ptr, table⟩ := Matching.rest_table simT r.tickerId
      (RefBook.matched .machine ref side r).2.1 ref.nextMarketOrderId taken.inside meLayout_slot
      (meSlot_eq_ok.mpr ⟨taken.client, taken.order, rfl⟩)
      room (refines.apart filled) False.elim
    have rests : MEOrderBook.rest t r.clientId r.orderId r.tickerId side.toSide r.price
        (RefBook.matched .machine ref side r).2.1 ref.nextMarketOrderId = .ok (u, _) := rested
    unfold RefBook.matched at rests
    simp only [Width.machine] at rests
    rw [rests] at ran
    cases ran
    rw [RefBook.add_left filled]
    have entered := findableT.insert
      (o := RefBook.remainder .machine ref side r (RefBook.matched .machine ref side r).2.1) ptr
      fun own => free own
    rw [table]
    refine entered.perm (idsOf_perm ?_)
    refine (perm_both_grown ?_).symm
    rw [Function.update_of_ne BookSide.opposite_ne.symm]
    exact List.perm_orderedInsert _ _ _

/-- A CANCEL takes one order out of the list and the table, or leaves both. -/
theorem findable_cancel {clientId : ClientId} (refines : Refines basePrice False s ref)
    (findable : s.Findable clientId)
    (ran : s.cancel r.clientId r.orderId r.tickerId = .ok (s', out)) : s'.Findable clientId := by
  obtain ⟨base, book, rep, views⟩ := refines.sim
  unfold MEOrderBook.cancel at ran
  by_cases client : r.clientId < ME_MAX_NUM_CLIENTS
  · by_cases order : r.orderId < ME_MAX_ORDER_IDS
    · have slotOk : meSlot r.clientId r.orderId = .ok (r.clientId, r.orderId) :=
        meSlot_eq_ok.mpr ⟨client, order, rfl⟩
      cases entry : s.oidToOrder (r.clientId, r.orderId) with
      | none =>
          simp only [client, slotOk, entry, bind, Except.bind, pure, Except.pure, if_true] at ran
          cases ran
          exact findable
      | some ptr =>
          obtain ⟨x, mem, rfl, xSlot⟩ := rep.ids.sound entry
          obtain ⟨side, o, xs, ys, t, shape, key, -, removed, simT, slot, isSlot, table⟩ :=
            LevelBook.Lists.removeOrder_table base rep views mem
          simp only [client, slotOk, entry, removed, bind, Except.bind, pure, Except.pure,
            if_true] at ran
          cases ran
          have refines' : Refines basePrice False ⟨t, s.nextMarketOrderId⟩
              { ref with orders := Function.update ref.orders side (xs ++ ys) } :=
            ⟨simT, refines.next, refines.sound.withdraw shape⟩
          rw [refines'.findable_iff]
          have before := perm_both ref.orders side
          rw [shape] at before
          have split : (xs ++ o :: ys ++ ref.orders side.opposite).Perm
              (o :: (xs ++ ys ++ ref.orders side.opposite)) :=
            List.perm_middle.append_right _
          have taken := (((refines.findable_iff clientId).mp findable).perm
            (idsOf_perm (before.trans split))).remove
          rw [key, ← meLayout_slot isSlot, ← table] at taken
          exact taken.perm (idsOf_perm (perm_both_update ref.orders side _).symm)
    · simp only [client, meSlot, Nat.not_le.mpr client, Nat.not_lt.mp order, bind, Except.bind,
        if_true, if_false] at ran
      cases ran
  · simp only [client, bind, Except.bind, pure, Except.pure, if_false] at ran
    cases ran
    exact findable

/-- One request keeps what a client can find, if its NEWs have ids that none of its orders
has. -/
theorem findable {clientId : ClientId} (refines : Refines basePrice False s ref) (sided : Sided r)
    (fresh : r.type = .NEW → r.clientId = clientId → r.orderId ∉ s.idsOf clientId)
    (ran : s.processClientRequest r = .ok (s', out)) (findable : s.Findable clientId) :
    s'.Findable clientId := by
  unfold MEOrderBook.processClientRequest at ran
  cases isType : r.type with
  | INVALID =>
      rw [isType] at ran
      cases ran
  | NEW =>
      rw [isType] at ran
      obtain ⟨side, rSide⟩ := sided.exists_side isType
      exact refines.findable_add findable rSide (fresh isType) ran
  | CANCEL =>
      rw [isType] at ran
      exact refines.findable_cancel findable ran

/-- A CANCEL that is rejected names no order of the client. -/
theorem not_rejected {clientId : ClientId} {orderId : OrderId} {tickerId : TickerId}
    (refines : Refines basePrice False s ref) (findable : s.Findable clientId)
    (rejected : s.cancel clientId orderId tickerId =
      .ok (s', [MEOrderBook.rejectedResponse clientId orderId tickerId])) :
    orderId ∉ s.idsOf clientId := by
  intro mem
  have known := findable.2 orderId mem
  rw [refines.idsOf_eq] at mem
  obtain ⟨o, oMem, own, named⟩ := mem_idsOf.mp mem
  obtain ⟨side, oMem⟩ := (mem_both _).mp oMem
  -- The ids of an order that rests are inside the table.
  obtain ⟨-, book, rep, views⟩ := refines.sim
  rw [← views] at oMem
  obtain ⟨⟨p, x⟩, xMem, rfl⟩ := List.mem_map.mp oMem
  have resting : x ∈ book.orders := Book.mem_orders_flat.mpr ⟨side, p, xMem⟩
  obtain ⟨slot, xSlot⟩ := rep.ids.slotted x resting
  obtain ⟨client, order, -⟩ := meSlot_eq_ok.mp xSlot
  have clientOk : clientId < ME_MAX_NUM_CLIENTS := own ▸ client
  have orderOk : orderId < ME_MAX_ORDER_IDS := named ▸ order
  have slotOk : meSlot clientId orderId = .ok (clientId, orderId) :=
    meSlot_eq_ok.mpr ⟨clientOk, orderOk, rfl⟩
  unfold MEOrderBook.cancel at rejected
  cases entry : s.oidToOrder (clientId, orderId) with
  | none => exact known entry
  | some ptr =>
      simp only [clientOk, slotOk, entry, bind, Except.bind, pure, Except.pure, if_true]
        at rejected
      cases removed : s.toLevelBook.removeOrder meLayout ptr with
      | error fault =>
          rw [removed] at rejected
          cases rejected
      | ok t =>
          rw [removed] at rejected
          simp only [Except.ok.injEq, Prod.mk.injEq] at rejected
          cases rejected.2

end Refines

end NanoTrade
