import NanoTrade.Exchange.Numbering
import NanoTrade.Exchange.Refinement

/-!
# Runs of well-behaved clients

`WellBehaved` is what the callers of the matching engine keep to: ids inside the
tables, a side, a price inside the window, no id of a resting order for a new one, and
no more resting orders than the pool has room for.

* `Refines.cancel_exact`: the order that the id table names is the one that the
  reference book takes out.
* `Refines.step`, `Refines.run`: well-behaved requests are handled as the reference
  book does it, one and a whole run.
* `run_priceTime`: after every request of a well-behaved run the walks of the book read the
  reference lists, and what has been sent is what the reference book sends. The reference
  counts without bound; `Refines.run_unbounded` says that the counters of the source do so,
  too, for fewer than `2 ^ 32` new orders.
-/

namespace NanoTrade

instance (ref : RefBook) (r : MEClientRequest) : Decidable (Fresh ref r) :=
  decidable_of_iff (∀ o ∈ both ref.orders, ¬ RefBook.Addresses r.clientId r.orderId o) <| by
    simp only [mem_both]
    exact ⟨fun h side o mem => h o ⟨side, mem⟩, fun h o ⟨side, mem⟩ => h side o mem⟩

/-- A new order that a well-behaved client may send when the book is `ref`. -/
structure WellBehavedNew (basePrice : Price) (w : Width) (ref : RefBook) (side : BookSide)
    (r : MEClientRequest) : Prop where
  sided : r.side = side.toSide
  inside : InWindow basePrice r.price
  fresh : Fresh ref r
  room : (both (ref.add w side r).1.orders).length < ME_MAX_ORDER_IDS

/-- A request that a well-behaved client may send when the book is `ref`. -/
structure WellBehaved (basePrice : Price) (w : Width) (ref : RefBook) (r : MEClientRequest) :
    Prop where
  client : r.clientId < ME_MAX_NUM_CLIENTS
  order : r.orderId < ME_MAX_ORDER_IDS
  request : r.type = .CANCEL ∨
    r.type = .NEW ∧ (WellBehavedNew basePrice w ref .bid r ∨ WellBehavedNew basePrice w ref .ask r)

instance (basePrice : Price) (w : Width) (ref : RefBook) (side : BookSide) (r : MEClientRequest) :
    Decidable (WellBehavedNew basePrice w ref side r) :=
  decidable_of_iff
    (r.side = side.toSide ∧ InWindow basePrice r.price ∧ Fresh ref r ∧
      (both (ref.add w side r).1.orders).length < ME_MAX_ORDER_IDS)
    ⟨fun h => ⟨h.1, h.2.1, h.2.2.1, h.2.2.2⟩, fun h => ⟨h.sided, h.inside, h.fresh, h.room⟩⟩

instance (basePrice : Price) (w : Width) (ref : RefBook) (r : MEClientRequest) :
    Decidable (WellBehaved basePrice w ref r) :=
  decidable_of_iff
    (r.clientId < ME_MAX_NUM_CLIENTS ∧ r.orderId < ME_MAX_ORDER_IDS ∧ (r.type = .CANCEL ∨
      r.type = .NEW ∧
        (WellBehavedNew basePrice w ref .bid r ∨ WellBehavedNew basePrice w ref .ask r)))
    ⟨fun h => ⟨h.1, h.2.1, h.2.2⟩, fun h => ⟨h.client, h.order, h.request⟩⟩

/-- The counters count only through the room that the request leaves. -/
theorem WellBehaved.machine {basePrice : Price} {ref : RefBook} {r : MEClientRequest}
    (same : ref.step .machine r = ref.step .unbounded r)
    (wellBehaved : WellBehaved basePrice .unbounded ref r) :
    WellBehaved basePrice .machine ref r := by
  refine ⟨wellBehaved.client, wellBehaved.order, ?_⟩
  rcases wellBehaved.request with isCancel | ⟨isNew, new⟩
  · exact .inl isCancel
  · have carry : ∀ side, WellBehavedNew basePrice .unbounded ref side r →
        WellBehavedNew basePrice .machine ref side r := by
      intro side new
      rw [RefBook.step_new isNew new.sided, RefBook.step_new isNew new.sided] at same
      exact ⟨new.sided, new.inside, new.fresh, by rw [same]; exact new.room⟩
    exact .inr ⟨isNew, new.imp (carry _) (carry _)⟩

namespace RefBook

/-- No two resting orders have the same client and client order id. -/
def Distinct (orders : BookSide → List MEResting) : Prop :=
  (both orders).Pairwise fun a b =>
    ¬ (a.key.clientId = b.key.clientId ∧ a.key.clientOrderId = b.key.clientOrderId)

theorem not_addressed {xs : List MEResting} {clientId : ClientId} {orderId : OrderId}
    (fresh : ∀ o ∈ xs, ¬ Addresses clientId orderId o) :
    xs.find? (fun o => Addresses clientId orderId o) = none := by
  rw [List.find?_eq_none]
  intro o mem
  simpa using fresh o mem

theorem find_addressed {xs ys : List MEResting} {o : MEResting} {clientId : ClientId}
    {orderId : OrderId} (fresh : ∀ x ∈ xs, ¬ Addresses clientId orderId x)
    (own : Addresses clientId orderId o) :
    (xs ++ o :: ys).find? (fun o => Addresses clientId orderId o) = some o := by
  rw [List.find?_append, not_addressed fresh, Option.none_or, List.find?_cons_of_pos]
  exact decide_eq_true own

theorem erase_addressed {xs ys : List MEResting} {o : MEResting} {clientId : ClientId}
    {orderId : OrderId} (fresh : ∀ x ∈ xs, ¬ Addresses clientId orderId x)
    (own : Addresses clientId orderId o) :
    (xs ++ o :: ys).eraseP (fun o => Addresses clientId orderId o) = xs ++ ys := by
  rw [List.eraseP_append_right, List.eraseP_cons_of_pos]
  · exact decide_eq_true own
  · intro x mem
    simpa using fresh x mem

/-- Only one order of a book with distinct ids is addressed. -/
theorem Distinct.others {orders : BookSide → List MEResting} (distinct : Distinct orders)
    {side : BookSide} {xs ys : List MEResting} {o : MEResting} (shape : orders side = xs ++ o :: ys)
    {clientId : ClientId} {orderId : OrderId} (own : Addresses clientId orderId o) :
    (∀ x ∈ xs, ¬ Addresses clientId orderId x) ∧
      ∀ x ∈ orders side.opposite, ¬ Addresses clientId orderId x := by
  have whole := (perm_both orders side).pairwise_iff
    (R := fun a b : MEResting =>
      ¬ (a.key.clientId = b.key.clientId ∧ a.key.clientOrderId = b.key.clientOrderId))
    (fun ne e => ne ⟨e.1.symm, e.2.symm⟩) |>.mp distinct
  rw [shape, List.append_assoc, List.cons_append, List.pairwise_append, List.pairwise_cons] at whole
  obtain ⟨-, ⟨after, -⟩, before⟩ := whole
  constructor
  · intro x mem addresses
    exact before x mem o List.mem_cons_self
      ⟨addresses.1.trans own.1.symm, addresses.2.trans own.2.symm⟩
  · intro x mem addresses
    exact after x (List.mem_append_right _ mem)
      ⟨own.1.trans addresses.1.symm, own.2.trans addresses.2.symm⟩

/-- A CANCEL takes out the order that is addressed. -/
theorem Distinct.cancel_eq {ref : RefBook} (distinct : Distinct ref.orders) {side : BookSide}
    {xs ys : List MEResting} {o : MEResting} (shape : ref.orders side = xs ++ o :: ys)
    {r : MEClientRequest} (own : Addresses r.clientId r.orderId o) :
    ref.cancel r = ({ ref with orders := Function.update ref.orders side (xs ++ ys) },
      canceled r side o) := by
  obtain ⟨before, opposite⟩ := distinct.others shape own
  have found : ref.addressed side r = some o := by
    rw [addressed, shape]
    exact find_addressed before own
  have taken : ref.withdraw side r =
      { ref with orders := Function.update ref.orders side (xs ++ ys) } := by
    rw [withdraw, shape, erase_addressed before own]
  cases side with
  | bid => rw [cancel, found, taken]
  | ask =>
      have unaddressed : ref.addressed .bid r = none := not_addressed opposite
      rw [cancel, found, unaddressed, taken]

/-- A CANCEL that addresses no resting order is rejected. -/
theorem cancel_fresh {ref : RefBook} {r : MEClientRequest} (fresh : Fresh ref r) :
    ref.cancel r = (ref, [MEOrderBook.rejectedResponse r.clientId r.orderId r.tickerId]) := by
  have unaddressed : ∀ side, ref.addressed side r = none := fun side => not_addressed (fresh side)
  rw [cancel, unaddressed, unaddressed]

end RefBook

/-- Through an exact table every resting order has ids of its own. -/
theorem Sim.distinct {basePrice : Price} {s : LevelBook MEOrderKey MESlot}
    {orders : BookSide → List MEResting} (sim : Sim basePrice True s orders) :
    RefBook.Distinct orders := by
  refine sim.distinct_slots.imp fun {a b} ne same => ne ?_
  simp only [meLayout, same.1, same.2]

namespace Refines

variable {basePrice : Price} {s : MEOrderBook} {ref : RefBook} {r : MEClientRequest}

/-- A CANCEL on a book with an exact table is that of the reference book. -/
theorem cancel_exact (refines : Refines basePrice True s ref)
    (order : r.orderId < ME_MAX_ORDER_IDS) :
    ∃ s', s.cancel r.clientId r.orderId r.tickerId = .ok (s', (ref.cancel r).2) ∧
      Refines basePrice True s' (ref.cancel r).1 := by
  rcases refines.cancel_spec r with ⟨-, outside, -⟩ | ⟨fresh, run⟩ |
    ⟨side, o, xs, ys, s', shape, own, run, refines'⟩
  · exact (Nat.not_le.mpr order outside).elim
  · rw [RefBook.cancel_fresh (fresh trivial)]
    exact ⟨s, run, refines⟩
  · rw [refines.sim.distinct.cancel_eq shape own]
    exact ⟨s', run, refines'⟩

/-- A book that has room behind the request has room for what remains of it. -/
theorem takes {side : BookSide} (new : WellBehavedNew basePrice .machine ref side r)
    (client : r.clientId < ME_MAX_NUM_CLIENTS) (order : r.orderId < ME_MAX_ORDER_IDS)
    (left : (RefBook.matched .machine ref side r).2.1 ≠ 0) : Takes basePrice ref side r := by
  refine ⟨new.inside, client, order, ?_⟩
  have room := new.room
  rw [RefBook.add_left left, (perm_both_update _ side _).length_eq, List.length_append,
    List.orderedInsert_length, RefBook.swept_opposite] at room
  omega

/-- One well-behaved request. -/
theorem step (refines : Refines basePrice True s ref)
    (wellBehaved : WellBehaved basePrice .machine ref r) :
    ∃ s', s.processClientRequest r = .ok (s', (RefBook.step .machine ref r).2) ∧
      Refines basePrice True s' (RefBook.step .machine ref r).1 := by
  rcases wellBehaved.request with isCancel | ⟨isNew, new⟩
  · rw [RefBook.step_cancel isCancel, MEOrderBook.processClientRequest, isCancel]
    exact refines.cancel_exact wellBehaved.order
  · obtain ⟨side, new⟩ : ∃ side, WellBehavedNew basePrice .machine ref side r := by
      rcases new with new | new
      · exact ⟨_, new⟩
      · exact ⟨_, new⟩
    rw [RefBook.step_new isNew new.sided, MEOrderBook.processClientRequest, isNew]
    exact refines.add_spec new.sided (takes new wellBehaved.client wellBehaved.order)
      fun _ => new.fresh

/-- A run of well-behaved requests. -/
theorem run {rs : List MEClientRequest} (refines : Refines basePrice True s ref)
    (wellBehaved : Along (WellBehaved basePrice .machine) (RefBook.step .machine) ref rs) :
    ∃ s', NanoTrade.run MEOrderBook.processClientRequest s rs =
        .ok (s', (runTotal (RefBook.step .machine) ref rs).2) ∧
      Refines basePrice True s' (runTotal (RefBook.step .machine) ref rs).1 :=
  simulates (fun refines pre => refines.step pre) refines wellBehaved

/-- A run of fewer than `2 ^ 32` new orders, against counters without bound. -/
theorem run_unbounded {rs : List MEClientRequest}
    (wellBehaved : Along (WellBehaved basePrice .unbounded) (RefBook.step .unbounded)
      RefBook.new rs)
    (few : RefBook.news rs < 2 ^ 32) :
    ∃ s, NanoTrade.run MEOrderBook.processClientRequest (MEOrderBook.new basePrice) rs =
        .ok (s, (runTotal (RefBook.step .unbounded) RefBook.new rs).2) ∧
      Refines basePrice True s (runTotal (RefBook.step .unbounded) RefBook.new rs).1 := by
  obtain ⟨same, along⟩ :=
    RefBook.run_machine (RefBook.Regular.new .unbounded rfl) rs (by lia)
  have machine : Along (WellBehaved basePrice .machine) (RefBook.step .machine) RefBook.new rs :=
    along (WellBehaved basePrice) WellBehaved.machine wellBehaved
  obtain ⟨s, ran, refines⟩ := (Refines.new basePrice True).run machine
  rw [same] at ran refines
  exact ⟨s, ran, refines⟩

end Refines

/-! ## Price-time priority -/

/-- The lists of a side, cut where the price changes. -/
def RefBook.sideQueues (ref : RefBook) (side : BookSide) :
    List (Price × List (MEOrderKey × Side × Price × Qty × Priority)) :=
  groups ((ref.orders side).map fun o => (o.price, o.content side))

/-- **The order book refines the reference book** over every well-behaved run: after each
request the messages and the lists are those of the reference. -/
theorem run_priceTime (basePrice : Price) (rs : List MEClientRequest)
    (wellBehaved : Along (WellBehaved basePrice .unbounded) (RefBook.step .unbounded)
      RefBook.new rs)
    (few : RefBook.news rs < 2 ^ 32) (p : List MEClientRequest) (prefixed : p <+: rs) :
    ∃ s, run MEOrderBook.processClientRequest (MEOrderBook.new basePrice) p =
        .ok (s, (runTotal (RefBook.step .unbounded) RefBook.new p).2) ∧
      ∀ side : BookSide, s.sideQueues side.toSide =
        (runTotal (RefBook.step .unbounded) RefBook.new p).1.sideQueues side := by
  have fewer : RefBook.news p ≤ RefBook.news rs := prefixed.sublist.countP_le
  obtain ⟨s, ran, refines⟩ :=
    Refines.run_unbounded (along_prefixed prefixed wellBehaved) (by lia)
  exact ⟨s, ran, refines.sim.sideQueues_eq⟩

/-- Two resting sells, a buy that takes the first and part of the second, a cancel. -/
theorem run_priceTime_sweep :
    ∃ s, run MEOrderBook.processClientRequest (MEOrderBook.new 100)
        [⟨.NEW, 1, 0, 1, .SELL, 105, 4⟩, ⟨.NEW, 1, 0, 2, .SELL, 106, 4⟩,
          ⟨.NEW, 2, 0, 1, .BUY, 107, 6⟩, ⟨.CANCEL, 1, 0, 2, .SELL, 106, 4⟩] =
        .ok (s, (runTotal (RefBook.step .unbounded) RefBook.new
          [⟨.NEW, 1, 0, 1, .SELL, 105, 4⟩, ⟨.NEW, 1, 0, 2, .SELL, 106, 4⟩,
            ⟨.NEW, 2, 0, 1, .BUY, 107, 6⟩, ⟨.CANCEL, 1, 0, 2, .SELL, 106, 4⟩]).2) ∧
      ∀ side : BookSide, s.sideQueues side.toSide =
        (runTotal (RefBook.step .unbounded) RefBook.new
          [⟨.NEW, 1, 0, 1, .SELL, 105, 4⟩, ⟨.NEW, 1, 0, 2, .SELL, 106, 4⟩,
            ⟨.NEW, 2, 0, 1, .BUY, 107, 6⟩, ⟨.CANCEL, 1, 0, 2, .SELL, 106, 4⟩]).1.sideQueues side :=
  run_priceTime 100 _ (by decide) (by decide) _ (List.prefix_refl _)

end NanoTrade
