import NanoTrade.Exchange.Snapshot

/-!
# Clients that never use an id twice

Requests in range, of known tickers, with an id of its own for every new order of a client, and no
more new orders than a pool has room for.

* `Held.step`: every resting order comes from a new order, and there are no more of them.
* `MatchingEngine.run_freshIds`: so a matching engine handles all requests, and each of its books is
  the reference book of the requests of its ticker.
-/

namespace NanoTrade

/-- Each new order of a client has an id that no earlier one has. -/
def NewIdsApart (a b : MEClientRequest) : Prop :=
  a.type = .NEW → b.type = .NEW → a.clientId = b.clientId → a.orderId ≠ b.orderId

/-- What clients keep to that never use an id twice. -/
structure FreshIds (tickerBasePrices : TickerId → Price) (rs : List MEClientRequest) : Prop where
  inRange : ∀ r ∈ rs, InRange (tickerBasePrices r.tickerId) r
  known : ∀ r ∈ rs, r.tickerId < ME_MAX_TICKERS
  apart : rs.Pairwise NewIdsApart
  few : RefBook.news rs < ME_MAX_ORDER_IDS

theorem FreshIds.of_append {tickerBasePrices : TickerId → Price} {rs rs' : List MEClientRequest}
    (fresh : FreshIds tickerBasePrices (rs ++ rs')) : FreshIds tickerBasePrices rs where
  inRange r mem := fresh.inRange r (List.mem_append_left _ mem)
  known r mem := fresh.known r (List.mem_append_left _ mem)
  apart := (List.pairwise_append.mp fresh.apart).1
  few := (List.Sublist.countP_le (List.sublist_append_left _ _)).trans_lt fresh.few

/-! ## What rests -/

/-- Every resting order comes from a new order, and there are no more of them. -/
structure Held (rs : List MEClientRequest) (orders : BookSide → List MEResting) : Prop where
  comes : ∀ side, ∀ o ∈ orders side, ∃ r ∈ rs, r.type = .NEW ∧
    RefBook.Addresses r.clientId r.orderId o
  few : (both orders).length ≤ RefBook.news rs

namespace Held

variable {w : Width} {rs : List MEClientRequest} {ref : RefBook} {r : MEClientRequest}
  {side : BookSide} {orders orders' : BookSide → List MEResting}

theorem sublist (held : Held rs orders)
    (part : ∀ side, ((orders' side).map Resting.tag).Sublist ((orders side).map Resting.tag)) :
    Held rs orders' := by
  refine ⟨fun side o mem => ?_, ?_⟩
  · obtain ⟨o', mem', same⟩ := List.mem_map.mp ((part side).subset (List.mem_map_of_mem mem))
    obtain ⟨r, rMem, isNew, client, id⟩ := held.comes side o' mem'
    have key : o'.key = o.key := congrArg Prod.fst same
    exact ⟨r, rMem, isNew, key ▸ client, key ▸ id⟩
  · have shorter : ∀ side, (orders' side).length ≤ (orders side).length := fun side => by
      have le := (part side).length_le
      rwa [List.length_map, List.length_map] at le
    have bids := shorter .bid
    have asks := shorter .ask
    have few := held.few
    rw [both, List.length_append] at few ⊢
    omega

theorem weaken (held : Held rs orders) (rs' : List MEClientRequest) : Held (rs ++ rs') orders := by
  refine ⟨fun side o mem => ?_, held.few.trans ?_⟩
  · obtain ⟨r, rMem, own⟩ := held.comes side o mem
    exact ⟨r, List.mem_append_left _ rMem, own⟩
  · exact List.Sublist.countP_le (List.sublist_append_left _ _)

/-- A new order takes from the other side, and at most itself comes to rest. -/
theorem add (held : Held rs ref.orders) (isNew : r.type = .NEW) :
    Held (rs ++ [r]) (ref.add w side r).1.orders := by
  have swept : Held rs (RefBook.swept w ref side r) := held.sublist RefBook.swept_sublist
  rcases eq_or_ne (RefBook.matched w ref side r).2.1 0 with filled | left
  · rw [RefBook.add_filled filled]
    exact swept.weaken [r]
  · have grown : ((ref.orders side).orderedInsert (Resting.Ahead side)
        (RefBook.remainder w ref side r (RefBook.matched w ref side r).2.1)).Perm
        (RefBook.remainder w ref side r (RefBook.matched w ref side r).2.1 ::
          RefBook.swept w ref side r side) := by
      rw [RefBook.swept_own]
      exact List.perm_orderedInsert _ _ _
    rw [RefBook.add_left left]
    refine ⟨fun side' o mem => ?_, ?_⟩
    · rcases (mem_grown grown).mp mem with ⟨-, rfl⟩ | old
      · exact ⟨r, List.mem_append_right _ (List.mem_singleton_self r), isNew, rfl, rfl⟩
      · exact (swept.weaken [r]).comes side' o old
    · rw [(perm_both_grown grown).length_eq, List.length_cons, RefBook.news, List.countP_append]
      have one : RefBook.news [r] = 1 := RefBook.news_new isNew
      have few := swept.few
      rw [RefBook.news] at one few
      omega

theorem cancel (held : Held rs ref.orders) : Held (rs ++ [r]) (ref.cancel r).1.orders := by
  have cancels := RefBook.cancel_cases ref r
  generalize ref.cancel r = result at cancels
  cases cancels with
  | rejected fresh => exact held.weaken [r]
  | @taken side o xs ys shape own =>
      refine (held.sublist fun side' => ?_).weaken [r]
      rcases eq_or_ne side' side with rfl | ne
      · simp only [Function.update_self]
        rw [shape, List.map_append, List.map_append, List.map_cons]
        exact (List.sublist_cons_self _ _).append_left _
      · simp only [Function.update_of_ne ne]
        exact List.Sublist.refl _

/-- One request. -/
theorem step {basePrice : Price} (held : Held rs ref.orders) (inRange : InRange basePrice r) :
    Held (rs ++ [r]) (ref.step w r).1.orders := by
  rcases inRange.request with isCancel | ⟨isNew, -, -⟩
  · rw [RefBook.step_cancel isCancel]
    exact held.cancel
  · obtain ⟨side, rSide⟩ := inRange.sided isNew
    rw [RefBook.step_new isNew rSide]
    exact held.add isNew

/-- A request with an id of its own is well-behaved. -/
theorem wellBehaved {basePrice : Price} (held : Held rs ref.orders)
    (inRange : InRange basePrice r) (apart : ∀ a ∈ rs, NewIdsApart a r)
    (few : RefBook.news (rs ++ [r]) < ME_MAX_ORDER_IDS) : WellBehaved basePrice w ref r := by
  refine ⟨inRange.client, inRange.order, ?_⟩
  rcases inRange.request with isCancel | ⟨isNew, -, inside⟩
  · exact .inl isCancel
  · obtain ⟨side, rSide⟩ := inRange.sided isNew
    have fresh : Fresh ref r := by
      intro side' o mem ⟨client, id⟩
      obtain ⟨a, aMem, aNew, aClient, aId⟩ := held.comes side' o mem
      exact apart a aMem aNew isNew (aClient.symm.trans client) (aId.symm.trans id)
    have new : WellBehavedNew basePrice w ref side r :=
      ⟨rSide, inside, fresh, (held.add isNew).few.trans_lt few⟩
    cases side with
    | bid => exact .inr ⟨isNew, .inl new⟩
    | ask => exact .inr ⟨isNew, .inr new⟩

end Held

/-! ## The engine -/

namespace MatchingEngine

variable {tickerBasePrices : TickerId → Price} {rs : List MEClientRequest}

/-- Clients that never use an id twice are served, in whatever order their requests come. -/
theorem run_freshIds (fresh : FreshIds tickerBasePrices rs) :
    ∃ s out, run processClientRequest (new tickerBasePrices) rs = .ok (s, out) ∧
      ∀ ticker, Refines (tickerBasePrices ticker) True (s.tickerOrderBook ticker)
          (runTotal (RefBook.step .machine) RefBook.new (ofTicker ticker rs)).1 ∧
        Held (ofTicker ticker rs)
          (runTotal (RefBook.step .machine) RefBook.new (ofTicker ticker rs)).1.orders := by
  induction rs using List.reverseRecOn with
  | nil =>
      refine ⟨_, [], rfl, fun ticker => ⟨Refines.new _ True, fun side o mem => ?_, Nat.le_refl _⟩⟩
      cases mem
  | append_singleton rs r ih =>
      obtain ⟨s, out, ran, books⟩ := ih fresh.of_append
      have last : r ∈ rs ++ [r] := List.mem_append_right _ (List.mem_singleton_self r)
      have inRange := fresh.inRange r last
      obtain ⟨refines, held⟩ := books r.tickerId
      have mine : ofTicker r.tickerId (rs ++ [r]) = ofTicker r.tickerId rs ++ [r] := by
        simp [ofTicker]
      have apart : ∀ a ∈ ofTicker r.tickerId rs, NewIdsApart a r := fun a mem =>
        (List.pairwise_append.mp fresh.apart).2.2 a (List.mem_of_mem_filter mem) r
          (List.mem_singleton_self r)
      have few : RefBook.news (ofTicker r.tickerId rs ++ [r]) < ME_MAX_ORDER_IDS := by
        rw [← mine]
        exact (List.Sublist.countP_le List.filter_sublist).trans_lt fresh.few
      obtain ⟨book, answered, refines'⟩ := refines.step (held.wellBehaved inRange apart few)
      refine ⟨_, out ++ _, run_concat.mpr ⟨s, out, _, ran, processClientRequest_eq_ok.mpr
        ⟨fresh.known r last, book, answered, rfl⟩, rfl⟩, fun ticker => ?_⟩
      rcases eq_or_ne ticker r.tickerId with rfl | other
      · rw [mine, runTotal_concat]
        simp only [Function.update_self]
        exact ⟨refines', held.step inRange⟩
      · have theirs : ofTicker ticker (rs ++ [r]) = ofTicker ticker rs := by
          simp [ofTicker, other.symm]
        rw [theirs]
        simp only [Function.update_of_ne other]
        exact books ticker

end MatchingEngine

end NanoTrade
