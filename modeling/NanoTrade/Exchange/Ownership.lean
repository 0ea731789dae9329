import NanoTrade.Exchange.WellBehaved

/-!
# Orders and their owners

A client addresses its orders through `cid_oid_to_order_`, and nothing between the socket
and the book rejects ids that are in use. `run_owned_iff`: the table leads to every resting
order, and every CANCEL of one succeeds, exactly along runs in which no remainder enters
the book while an order with its ids still rests.
-/

namespace NanoTrade

namespace MEOrderBook

/-- The orders that the walks reach. -/
def restingPtrs (s : MEOrderBook) : List Ptr :=
  (s.sideLevels .BUY ++ s.sideLevels .SELL).flatMap s.levelOrders

/-- The id table holds the resting orders, each at its own ids, and no others. -/
structure Owned (s : MEOrderBook) : Prop where
  stored : ∀ p ∈ s.restingPtrs,
    s.oidToOrder ((s.order p).key.clientId, (s.order p).key.clientOrderId) = some p
  resting : ∀ slot p, s.oidToOrder slot = some p → p ∈ s.restingPtrs

/-- A CANCEL that names the ids of a resting order takes it out. -/
def Cancellable (s : MEOrderBook) : Prop :=
  ∀ p ∈ s.restingPtrs, ∀ tickerId, ∃ s',
    s.cancel (s.order p).key.clientId (s.order p).key.clientOrderId tickerId =
      .ok (s', canceledMessages (s.order p).key.clientId (s.order p).key.clientOrderId tickerId
        (s.order p)) ∧
    s.restingPtrs.Perm (p :: s'.restingPtrs)

section Rep

variable {s : MEOrderBook} {book : Book MEOrderKey} {W stale : Price → Prop} {exact : Prop}

theorem restingPtrs_eq
    (rep : LevelBook.Rep meLayout W stale exact s.toLevelBook book) :
    s.restingPtrs = book.orderPtrs := by
  have bids := rep.sideLevels_eq .bid
  have asks := rep.sideLevels_eq .ask
  have walked : ∀ levels : List (RestingLevel MEOrderKey), (∀ l ∈ levels, ∃ side, l ∈ book side) →
      (levels.map fun l => l.ptr).flatMap s.levelOrders =
        (levels.flatMap RestingLevel.orders).map RestingOrder.ptr := by
    intro levels
    induction levels with
    | nil => exact fun _ => rfl
    | cons l levels ih =>
        intro known
        obtain ⟨side, mem⟩ := known l List.mem_cons_self
        rw [List.map_cons, List.flatMap_cons, List.flatMap_cons, List.map_append,
          ih fun m mMem => known m (List.mem_cons_of_mem _ mMem), rep.levelOrders_eq mem]
  have both_eq : both book = book .bid ++ book .ask := rfl
  rw [restingPtrs, show Side.BUY = BookSide.bid.toSide from rfl,
    show Side.SELL = BookSide.ask.toSide from rfl, bids, asks, ← List.map_append, ← both_eq,
    walked _ fun l mem => (mem_both _).mp mem]
  rfl

theorem mem_restingPtrs (rep : LevelBook.Rep meLayout W stale exact s.toLevelBook book) {p : Ptr} :
    p ∈ s.restingPtrs ↔ ∃ o ∈ book.orders, o.ptr = p := by
  rw [restingPtrs_eq rep, Book.orderPtrs, List.mem_map]

/-- Every resting order has a slot, that of its ids. -/
theorem slot_eq (rep : LevelBook.Rep meLayout W stale exact s.toLevelBook book)
    {o : RestingOrder MEOrderKey} (mem : o ∈ book.orders) :
    meLayout.slot o.key = .ok (o.key.clientId, o.key.clientOrderId) := by
  obtain ⟨slot, oSlot⟩ := rep.ids.slotted o mem
  obtain ⟨client, order, rfl⟩ := meSlot_eq_ok.mp oSlot
  exact oSlot

/-- The table is exact where every order is stored at its ids. -/
theorem owned_iff (rep : LevelBook.Rep meLayout W stale False s.toLevelBook book) :
    s.Owned ↔ LevelBook.Rep meLayout W stale True s.toLevelBook book := by
  constructor
  · intro owned
    refine ⟨rep.placed, rep.ids.slotted, rep.ids.sound, fun _ o mem slot oSlot => ?_⟩
    have stored := owned.stored o.ptr ((mem_restingPtrs rep).mpr ⟨o, mem, rfl⟩)
    rw [rep.placed.key mem] at stored
    rw [slot_eq rep mem] at oSlot
    cases oSlot
    exact stored
  · intro rep'
    constructor
    · intro p mem
      obtain ⟨o, oMem, rfl⟩ := (mem_restingPtrs rep).mp mem
      rw [rep.placed.key oMem]
      exact rep'.ids.complete trivial o oMem (slot_eq rep oMem)
    · intro slot p stored
      obtain ⟨o, oMem, rfl, -⟩ := rep.ids.sound stored
      exact (mem_restingPtrs rep).mpr ⟨o, oMem, rfl⟩

/-- Through an exact table every resting order can be cancelled. -/
theorem cancellable (rep : LevelBook.Rep meLayout W stale True s.toLevelBook book) :
    s.Cancellable := by
  intro p mem tickerId
  obtain ⟨o, oMem, rfl⟩ := (mem_restingPtrs rep).mp mem
  obtain ⟨side, l, lMem, split⟩ := Book.mem_orders.mp oMem
  obtain ⟨l₁, l₂, shape⟩ := List.append_of_mem lMem
  obtain ⟨o₁, o₂, queue⟩ := List.append_of_mem split
  have slot := slot_eq rep oMem
  obtain ⟨client, order, -⟩ := meSlot_eq_ok.mp slot
  have stored := rep.ids.complete trivial o oMem slot
  obtain ⟨t, removed, rep', -, -⟩ := rep.removeOrder_spec shape queue slot
  refine ⟨⟨t, s.nextMarketOrderId⟩, ?_, ?_⟩
  · have known : meSlot o.key.clientId o.key.clientOrderId =
        .ok (o.key.clientId, o.key.clientOrderId) := slot
    rw [rep.placed.key oMem]
    simp only [cancel, client, known, stored, removed, bind, Except.bind, pure, Except.pure,
      if_true]
  · have left : MEOrderBook.restingPtrs ⟨t, s.nextMarketOrderId⟩ =
        Book.orderPtrs (Function.update book side (Book.requeue l₁ l (o₁ ++ o₂) l₂)) :=
      restingPtrs_eq (s := ⟨t, s.nextMarketOrderId⟩) rep'
    rw [restingPtrs_eq rep, left]
    exact (LevelBook.Book.requeue_perm shape queue).map RestingOrder.ptr

end Rep

end MEOrderBook

/-! ## Requests of any client -/

/-- The fields are in range. -/
structure InRange (basePrice : Price) (r : MEClientRequest) : Prop where
  client : r.clientId < ME_MAX_NUM_CLIENTS
  order : r.orderId < ME_MAX_ORDER_IDS
  request : r.type = .CANCEL ∨
    r.type = .NEW ∧ (r.side = .BUY ∨ r.side = .SELL) ∧ InWindow basePrice r.price

instance (basePrice : Price) (r : MEClientRequest) : Decidable (InRange basePrice r) :=
  decidable_of_iff
    (r.clientId < ME_MAX_NUM_CLIENTS ∧ r.orderId < ME_MAX_ORDER_IDS ∧ (r.type = .CANCEL ∨
      r.type = .NEW ∧ (r.side = .BUY ∨ r.side = .SELL) ∧ InWindow basePrice r.price))
    ⟨fun h => ⟨h.1, h.2.1, h.2.2⟩, fun h => ⟨h.client, h.order, h.request⟩⟩

theorem InRange.sided {basePrice : Price} {r : MEClientRequest} (inRange : InRange basePrice r)
    (isNew : r.type = .NEW) : ∃ side : BookSide, r.side = side.toSide := by
  rcases inRange.request with isCancel | ⟨-, buy | sell, -⟩
  · cases isNew.symm.trans isCancel
  · exact ⟨.bid, buy⟩
  · exact ⟨.ask, sell⟩

/-- What remains of a NEW does not enter a book in which, behind its sweep, an order with
its ids rests. -/
def KeepsIds (ref : RefBook) (r : MEClientRequest) : Prop :=
  r.type = .NEW → ∀ side : BookSide, r.side = side.toSide →
    (RefBook.matched .machine ref side r).2.1 ≠ 0 →
      ∀ side', ∀ o ∈ RefBook.swept .machine ref side r side',
        ¬ RefBook.Addresses r.clientId r.orderId o

namespace Refines

variable {basePrice : Price} {s s' : MEOrderBook} {ref : RefBook} {r : MEClientRequest}
  {out : List MEMessage}

theorem weaken (refines : Refines basePrice True s ref) : Refines basePrice False s ref := by
  obtain ⟨base, book, rep, views⟩ := refines.sim
  exact ⟨⟨base, book, ⟨rep.placed, rep.ids.slotted, rep.ids.sound, False.elim⟩, views⟩,
    refines.next, refines.sound⟩

theorem owned (refines : Refines basePrice True s ref) : s.Owned ∧ s.Cancellable := by
  obtain ⟨-, book, rep, -⟩ := refines.weaken.sim
  obtain ⟨-, exactBook, exactRep, -⟩ := refines.sim
  exact ⟨(MEOrderBook.owned_iff ⟨exactRep.placed, exactRep.ids.slotted, exactRep.ids.sound,
    False.elim⟩).mpr exactRep, MEOrderBook.cancellable exactRep⟩

theorem of_owned (refines : Refines basePrice False s ref) (owned : s.Owned) :
    Refines basePrice True s ref := by
  obtain ⟨base, book, rep, views⟩ := refines.sim
  exact ⟨⟨base, book, (MEOrderBook.owned_iff rep).mp owned, views⟩, refines.next,
    refines.sound⟩

/-- An in-range request exhausts the pool or is handled. -/
theorem request (refines : Refines basePrice False s ref) (inRange : InRange basePrice r) :
    s.processClientRequest r = .error .outOfSpace ∨
      ∃ s' out ref', s.processClientRequest r = .ok (s', out) ∧
        Refines basePrice False s' ref' := by
  rcases inRange.request with isCancel | ⟨isNew, -, inside⟩
  · rw [MEOrderBook.processClientRequest, isCancel]
    rcases refines.cancel_spec r with ⟨-, outside, -⟩ | ⟨-, rejected⟩ |
      ⟨side, o, xs, ys, t, -, -, taken, refines'⟩
    · exact absurd inRange.order (Nat.not_lt.mpr outside)
    · exact .inr ⟨s, _, ref, rejected, refines⟩
    · exact .inr ⟨t, _, _, taken, refines'⟩
  · obtain ⟨side, rSide⟩ := inRange.sided isNew
    rw [MEOrderBook.processClientRequest, isNew]
    rcases Nat.eq_zero_or_pos (RefBook.matched .machine ref side r).2.1 with filled | left
    · obtain ⟨t, added, refines'⟩ :=
        refines.add_spec rSide (fun left => absurd filled left) False.elim
      exact .inr ⟨t, _, _, added, refines'⟩
    · rcases Nat.lt_or_ge ((ref.orders side).length +
          (RefBook.matched .machine ref side r).1.length + 1) ME_MAX_ORDER_IDS with room | full
      · obtain ⟨t, added, refines'⟩ := refines.add_spec rSide
          (fun _ => ⟨inside, inRange.client, inRange.order, room⟩) False.elim
        exact .inr ⟨t, _, _, added, refines'⟩
      · left
        obtain ⟨t, run, simT⟩ := refines.checkForMatch side r
        have stopped := simT.rest_full r.clientId r.orderId r.tickerId
          (RefBook.matched .machine ref side r).2.1 ref.nextMarketOrderId inside
          (refines.apart (Nat.pos_iff_ne_zero.mp left)) (by
            rw [RefBook.swept_own, RefBook.swept_opposite]
            omega)
        rw [rSide]
        simp only [MEOrderBook.add, refines.next, run, Nat.pos_iff_ne_zero.mp left, stopped,
          bind, Except.bind, if_false]

/-- A request that keeps the ids apart keeps the table exact. -/
theorem kept (refines : Refines basePrice True s ref) (inRange : InRange basePrice r)
    (keeps : KeepsIds ref r) (ran : s.processClientRequest r = .ok (s', out)) :
    Refines basePrice True s' (ref.step .machine r).1 := by
  rcases inRange.request with isCancel | ⟨isNew, -, -⟩
  · rw [RefBook.step_cancel isCancel]
    rw [MEOrderBook.processClientRequest, isCancel] at ran
    obtain ⟨t, canceled, refines'⟩ := refines.cancel_exact inRange.order
    cases ran.symm.trans canceled
    exact refines'
  · obtain ⟨side, rSide⟩ := inRange.sided isNew
    rw [RefBook.step_new isNew rSide]
    rw [MEOrderBook.processClientRequest, isNew] at ran
    obtain ⟨t, added, refines'⟩ := refines.add_kept rSide
      (refines.weaken.takes_of_ok rSide ran) fun _ => keeps isNew side rSide
    cases ran.symm.trans added
    exact refines'

/-- A remainder with the ids of a resting order hides one of the two. -/
theorem keepsIds_of_owned (refines : Refines basePrice True s ref)
    (ran : s.processClientRequest r = .ok (s', out)) (owned : s'.Owned) : KeepsIds ref r := by
  intro isNew side rSide left side' o mem addresses
  rw [MEOrderBook.processClientRequest, isNew] at ran
  obtain ⟨t, added, refines'⟩ := refines.weaken.add_spec rSide
    (refines.weaken.takes_of_ok rSide ran) False.elim
  cases ran.symm.trans added
  have distinct := (refines'.of_owned owned).sim.distinct
  rw [RefBook.add_left left] at distinct
  -- the remainder in front of all that was swept
  have front : (both (Function.update (RefBook.swept .machine ref side r) side
        ((ref.orders side).orderedInsert (Resting.Ahead side)
          (RefBook.remainder .machine ref side r (RefBook.matched .machine ref side r).2.1)))).Perm
      (RefBook.remainder .machine ref side r (RefBook.matched .machine ref side r).2.1 ::
        both (RefBook.swept .machine ref side r)) := by
    refine perm_both_grown ?_
    rw [RefBook.swept_own]
    exact List.perm_orderedInsert _ _ _
  have apart := front.pairwise_iff
    (R := fun a b : MEResting =>
      ¬ (a.key.clientId = b.key.clientId ∧ a.key.clientOrderId = b.key.clientOrderId))
    (fun ne e => ne ⟨e.1.symm, e.2.symm⟩) |>.mp distinct
  exact (List.pairwise_cons.mp apart).1 o ((mem_both _).mpr ⟨side', mem⟩)
    ⟨addresses.1.symm, addresses.2.symm⟩

end Refines

/-! ## Runs -/

section Runs

variable {basePrice : Price} {rs : List MEClientRequest} {s : MEOrderBook}
  {out : List MEMessage}

/-- A run of in-range requests exhausts the pool or returns. -/
theorem run_request (inRange : ∀ r ∈ rs, InRange basePrice r) :
    run MEOrderBook.processClientRequest (MEOrderBook.new basePrice) rs = .error .outOfSpace ∨
      ∃ s out, run MEOrderBook.processClientRequest (MEOrderBook.new basePrice) rs =
        .ok (s, out) := by
  have fromHere : ∀ {s ref}, Refines basePrice False s ref →
      run MEOrderBook.processClientRequest s rs = .error .outOfSpace ∨
        ∃ t out, run MEOrderBook.processClientRequest s rs = .ok (t, out) := by
    induction rs with
    | nil => exact fun {s _} _ => .inr ⟨s, [], rfl⟩
    | cons r rs ih =>
        intro s ref refines
        rcases refines.request (inRange r List.mem_cons_self) with full |
          ⟨u, now, ref', first, refines'⟩
        · left
          rw [run, full]
          rfl
        · rcases ih (fun x mem => inRange x (List.mem_cons_of_mem _ mem)) refines' with full |
            ⟨t, later, rest⟩
          · left
            rw [run, first]
            show (run _ u rs >>= _) = _
            rw [full]
            rfl
          · exact .inr ⟨t, now ++ later, run_cons_eq_ok first rest⟩
  exact fromHere (Refines.new basePrice False)

/-- While ids are kept apart, the book refines the reference through an exact table. -/
theorem run_kept (inRange : ∀ r ∈ rs, InRange basePrice r)
    (keeps : Along KeepsIds (RefBook.step .machine) RefBook.new rs)
    (ran : run MEOrderBook.processClientRequest (MEOrderBook.new basePrice) rs = .ok (s, out)) :
    Refines basePrice True s (runTotal (RefBook.step .machine) RefBook.new rs).1 := by
  induction rs using List.reverseRecOn generalizing s out with
  | nil =>
      cases ran
      exact Refines.new basePrice True
  | append_singleton rs r ih =>
      obtain ⟨t, before, now, first, last, rfl⟩ := run_concat.mp ran
      obtain ⟨keepsBefore, keepsLast, -⟩ := along_append.mp keeps
      have refines := ih (fun x mem => inRange x (List.mem_append_left _ mem)) keepsBefore first
      rw [runTotal_concat]
      exact refines.kept (inRange r (List.mem_append_right _ List.mem_cons_self)) keepsLast last

/-- Where every order stays with its owner, ids were kept apart. -/
theorem run_keepsIds (inRange : ∀ r ∈ rs, InRange basePrice r)
    (owned : ∀ p, p <+: rs → ∃ t sent,
      run MEOrderBook.processClientRequest (MEOrderBook.new basePrice) p = .ok (t, sent) ∧
        t.Owned) :
    Along KeepsIds (RefBook.step .machine) RefBook.new rs := by
  induction rs using List.reverseRecOn with
  | nil => trivial
  | append_singleton rs r ih =>
      have before : ∀ x ∈ rs, InRange basePrice x :=
        fun x mem => inRange x (List.mem_append_left _ mem)
      have keeps := ih before fun p prefixed =>
        owned p (prefixed.trans (List.prefix_append _ _))
      obtain ⟨u, sent, ran, ownedU⟩ := owned _ (List.prefix_refl _)
      obtain ⟨t, first, now, head, last, rfl⟩ := run_concat.mp ran
      have refines := run_kept before keeps head
      exact along_append.mpr ⟨keeps, refines.keepsIds_of_owned last ownedU, trivial⟩

end Runs

/-- **Orders stay with their owners exactly while ids are kept apart.** For every sequence
of in-range requests that does not exhaust the order pool: after each of them the id table
holds the resting orders, each at its own ids, and no others, and a CANCEL of any of them
takes it out, if and only if no NEW of the sequence leaves a remainder while, behind its
sweep, an order with its ids rests. -/
theorem run_owned_iff (basePrice : Price) (rs : List MEClientRequest)
    (inRange : ∀ r ∈ rs, InRange basePrice r) :
    run MEOrderBook.processClientRequest (MEOrderBook.new basePrice) rs = .error .outOfSpace ∨
      ((∀ p, p <+: rs → ∃ t sent,
        run MEOrderBook.processClientRequest (MEOrderBook.new basePrice) p = .ok (t, sent) ∧
          t.Owned ∧ t.Cancellable) ↔
        Along KeepsIds (RefBook.step .machine) RefBook.new rs) := by
  rcases run_request inRange with full | ⟨s, out, ran⟩
  · exact .inl full
  · right
    constructor
    · intro owned
      refine run_keepsIds inRange fun p prefixed => ?_
      obtain ⟨t, sent, ranP, ownedP, -⟩ := owned p prefixed
      exact ⟨t, sent, ranP, ownedP⟩
    · rintro keeps p ⟨rest, rfl⟩
      obtain ⟨t, sent, later, ranP, -, -⟩ := run_append.mp ran
      exact ⟨t, sent, ranP, (run_kept
        (fun x mem => inRange x (List.mem_append_left _ mem))
        (along_prefixed (List.prefix_append _ _) keeps) ranP).owned⟩

/-- An order whose ids are used again by the order that fills it. -/
theorem run_owned_iff_refill :
    run MEOrderBook.processClientRequest (MEOrderBook.new 100)
        [⟨.NEW, 1, 0, 1, .SELL, 105, 4⟩, ⟨.NEW, 1, 0, 1, .BUY, 105, 6⟩,
          ⟨.CANCEL, 1, 0, 1, .BUY, 105, 6⟩] = .error .outOfSpace ∨
      ((∀ p, p <+: [⟨.NEW, 1, 0, 1, .SELL, 105, 4⟩, ⟨.NEW, 1, 0, 1, .BUY, 105, 6⟩,
          ⟨.CANCEL, 1, 0, 1, .BUY, 105, 6⟩] → ∃ t sent,
        run MEOrderBook.processClientRequest (MEOrderBook.new 100) p = .ok (t, sent) ∧
          t.Owned ∧ t.Cancellable) ↔
        Along KeepsIds (RefBook.step .machine) RefBook.new
          [⟨.NEW, 1, 0, 1, .SELL, 105, 4⟩, ⟨.NEW, 1, 0, 1, .BUY, 105, 6⟩,
            ⟨.CANCEL, 1, 0, 1, .BUY, 105, 6⟩]) :=
  run_owned_iff 100 _ (by decide)

/-- An order that nobody can cancel: the second bid takes over the ids of the first, and
when it is cancelled the first rests on, out of reach. -/
theorem not_owned_reused_ids :
    ∃ s out, run MEOrderBook.processClientRequest (MEOrderBook.new 100)
        [⟨.NEW, 1, 0, 1, .BUY, 105, 4⟩, ⟨.NEW, 1, 0, 1, .BUY, 104, 6⟩,
          ⟨.CANCEL, 1, 0, 1, .BUY, 104, 6⟩, ⟨.CANCEL, 1, 0, 1, .BUY, 105, 4⟩] = .ok (s, out) ∧
      (∃ p ∈ s.restingPtrs, (s.order p).key.clientId = 1 ∧ (s.order p).key.clientOrderId = 1 ∧
        s.oidToOrder (1, 1) = none) ∧
      out.getLast? = some (MEOrderBook.rejectedResponse 1 1 0) := by
  obtain ⟨s, out, ran, read⟩ := run_of_read MEOrderBook.processClientRequest
    (MEOrderBook.new 100)
    [⟨.NEW, 1, 0, 1, .BUY, 105, 4⟩, ⟨.NEW, 1, 0, 1, .BUY, 104, 6⟩,
      ⟨.CANCEL, 1, 0, 1, .BUY, 104, 6⟩, ⟨.CANCEL, 1, 0, 1, .BUY, 105, 4⟩]
    (fun result => decide
      ((∃ p ∈ result.1.restingPtrs, (result.1.order p).key.clientId = 1 ∧
        (result.1.order p).key.clientOrderId = 1 ∧ result.1.oidToOrder (1, 1) = none) ∧
      result.2.getLast? = some (MEOrderBook.rejectedResponse 1 1 0)))
    true (by decide +kernel)
  obtain ⟨hidden, rejected⟩ := of_decide_eq_true read
  exact ⟨s, out, ran, hidden, rejected⟩

end NanoTrade
