import NanoTrade.Exchange.ClientView
import NanoTrade.Exchange.MEOrderBook

/-!
# What is bought is sold

Quantities of a matching engine, by tickers and sides, over the messages that it sends and the
requests that it reads. A sweep takes from the book what it gives to the new order
(`RefBook.sweep_conserves`), so a request of anyone, with any ids, keeps the account of its ticker
(`Refines.request_clears`).

`run_clearing`: on either side the quantity that was submitted has been traded, been canceled or
rests, and what is traded is what the market data tells of.
-/

namespace NanoTrade

/-! ## Quantities of messages -/

/-- What responses execute on a side of a ticker. -/
def executedOn (tickerId : TickerId) (side : BookSide) (xs : List MEClientResponse) : Qty :=
  (xs.map fun x =>
    if x.type = .FILLED ∧ x.tickerId = tickerId ∧ x.side = side.toSide then x.execQty else 0).sum

/-- What responses cancel on a side of a ticker. -/
def canceledOn (tickerId : TickerId) (side : BookSide) (xs : List MEClientResponse) : Qty :=
  (xs.map fun x =>
    if x.type = .CANCELED ∧ x.tickerId = tickerId ∧ x.side = side.toSide then x.leavesQty
    else 0).sum

/-- What the market data tells of trades of a ticker. -/
def tradedQty (tickerId : TickerId) (us : List MEMarketUpdate) : Qty :=
  (us.map fun u => if u.type = .TRADE ∧ u.tickerId = tickerId then u.qty else 0).sum

/-- The quantities of the new orders for a side of a ticker. -/
def submittedOn (tickerId : TickerId) (side : BookSide) (rs : List MEClientRequest) : Qty :=
  (rs.map fun r =>
    if r.type = .NEW ∧ r.tickerId = tickerId ∧ r.side = side.toSide then r.qty else 0).sum

/-- What responses execute of a ticker: bought is positive, sold is negative. -/
def netExecuted (tickerId : TickerId) (xs : List MEClientResponse) : Int :=
  (xs.map fun x =>
    if x.type = .FILLED ∧ x.tickerId = tickerId then x.execQty * sideToValue x.side else 0).sum

/-- All that responses execute of a ticker. -/
def totalExecuted (tickerId : TickerId) (xs : List MEClientResponse) : Qty :=
  (xs.map fun x => if x.type = .FILLED ∧ x.tickerId = tickerId then x.execQty else 0).sum

section Sums

variable {tickerId : TickerId} {side : BookSide} {xs ys : List MEClientResponse}

@[simp] theorem executedOn_append (xs ys : List MEClientResponse) :
    executedOn tickerId side (xs ++ ys) =
      executedOn tickerId side xs + executedOn tickerId side ys := by
  rw [executedOn, List.map_append, List.sum_append]
  rfl

@[simp] theorem canceledOn_append (xs ys : List MEClientResponse) :
    canceledOn tickerId side (xs ++ ys) =
      canceledOn tickerId side xs + canceledOn tickerId side ys := by
  rw [canceledOn, List.map_append, List.sum_append]
  rfl

@[simp] theorem tradedQty_append (us vs : List MEMarketUpdate) :
    tradedQty tickerId (us ++ vs) = tradedQty tickerId us + tradedQty tickerId vs := by
  rw [tradedQty, List.map_append, List.sum_append]
  rfl

theorem submittedOn_append (rs rs' : List MEClientRequest) :
    submittedOn tickerId side (rs ++ rs') =
      submittedOn tickerId side rs + submittedOn tickerId side rs' := by
  rw [submittedOn, List.map_append, List.sum_append]
  rfl

theorem netExecuted_append (tickerId : TickerId) (xs ys : List MEClientResponse) :
    netExecuted tickerId (xs ++ ys) = netExecuted tickerId xs + netExecuted tickerId ys := by
  rw [netExecuted, List.map_append, List.sum_append]
  rfl

theorem totalExecuted_append (tickerId : TickerId) (xs ys : List MEClientResponse) :
    totalExecuted tickerId (xs ++ ys) = totalExecuted tickerId xs + totalExecuted tickerId ys := by
  rw [totalExecuted, List.map_append, List.sum_append]
  rfl

@[simp] theorem executedOn_cons (x : MEClientResponse) (xs : List MEClientResponse) :
    executedOn tickerId side (x :: xs) =
      (if x.type = .FILLED ∧ x.tickerId = tickerId ∧ x.side = side.toSide then x.execQty else 0) +
        executedOn tickerId side xs := rfl

@[simp] theorem canceledOn_cons (x : MEClientResponse) (xs : List MEClientResponse) :
    canceledOn tickerId side (x :: xs) =
      (if x.type = .CANCELED ∧ x.tickerId = tickerId ∧ x.side = side.toSide then x.leavesQty
        else 0) + canceledOn tickerId side xs := rfl

@[simp] theorem tradedQty_cons (u : MEMarketUpdate) (us : List MEMarketUpdate) :
    tradedQty tickerId (u :: us) =
      (if u.type = .TRADE ∧ u.tickerId = tickerId then u.qty else 0) + tradedQty tickerId us := rfl

@[simp] theorem executedOn_nil : executedOn tickerId side [] = 0 := rfl

@[simp] theorem canceledOn_nil : canceledOn tickerId side [] = 0 := rfl

@[simp] theorem tradedQty_nil : tradedQty tickerId [] = 0 := rfl

/-- Responses for other tickers count for nothing. -/
theorem executedOn_elsewhere (side : BookSide) (apart : ∀ x ∈ xs, x.tickerId ≠ tickerId) :
    executedOn tickerId side xs = 0 ∧ canceledOn tickerId side xs = 0 := by
  induction xs with
  | nil => exact ⟨rfl, rfl⟩
  | cons x xs ih =>
      obtain ⟨executed, canceled⟩ := ih fun y mem => apart y (List.mem_cons_of_mem _ mem)
      have other := apart x List.mem_cons_self
      simp [executed, canceled, other]

/-- Bought less sold, where every execution is on a side. -/
theorem netExecuted_eq (tickerId : TickerId)
    (sided : ∀ x ∈ xs, x.type = .FILLED → ∃ side : BookSide, x.side = side.toSide) :
    netExecuted tickerId xs =
      executedOn tickerId .bid xs - (executedOn tickerId .ask xs : Int) := by
  induction xs with
  | nil => rfl
  | cons x xs ih =>
      have later := ih fun y mem => sided y (List.mem_cons_of_mem _ mem)
      rw [← List.singleton_append, netExecuted_append, later, executedOn_append, executedOn_append]
      have first : netExecuted tickerId [x] =
          executedOn tickerId .bid [x] - (executedOn tickerId .ask [x] : Int) := by
        by_cases counts : x.type = .FILLED ∧ x.tickerId = tickerId
        · obtain ⟨side, isSide⟩ := sided x List.mem_cons_self counts.1
          cases side <;> simp [netExecuted, counts, isSide, BookSide.toSide, sideToValue]
        · have uncounted : ∀ side : BookSide, ¬ (x.type = .FILLED ∧ x.tickerId = tickerId ∧
              x.side = side.toSide) := fun side here => counts ⟨here.1, here.2.1⟩
          simp [netExecuted, counts, uncounted]
      rw [first]
      push_cast
      lia

end Sums

/-! ## A sweep -/

/-- All that orders want. -/
def openQty (orders : List MEResting) : Qty :=
  (orders.map (·.qty)).sum

theorem openQty_append (xs ys : List MEResting) :
    openQty (xs ++ ys) = openQty xs + openQty ys := by
  rw [openQty, List.map_append, List.sum_append]
  rfl

theorem openQty_cons (o : MEResting) (xs : List MEResting) :
    openQty (o :: xs) = o.qty + openQty xs := rfl

theorem openQty_insert (side : BookSide) (o : MEResting) (xs : List MEResting) :
    openQty (xs.orderedInsert (Resting.Ahead side) o) = o.qty + openQty xs := by
  have perm := (List.perm_orderedInsert (Resting.Ahead side) o xs).map fun x => x.qty
  rw [openQty, perm.sum_eq]
  rfl

namespace RefBook

variable {a : Aggressor} {side : BookSide} {tickerId : TickerId}

/-- What leaves the book goes to the new order. -/
theorem sweep_conserves (a : Aggressor) (passive : BookSide) (xs : List MEResting) (leaves : Qty) :
    openQty xs + (sweep a passive xs leaves).2.1 =
      openQty (sweep a passive xs leaves).1 + leaves := by
  induction xs generalizing leaves with
  | nil => rfl
  | cons o rest ih =>
      rw [sweep]
      split
      · rfl
      · split
        · rename_i full
          have later := ih (leaves - min leaves o.qty)
          rw [openQty_cons]
          simp only
          lia
        · simp only [openQty_cons]
          lia

/-- A fill counts on both sides, and as one trade. -/
theorem fill_counts (aSide : a.side = side.toSide) (tickerId : TickerId) (d : BookSide)
    (o : MEResting) (fillQty leavesQty : Qty) :
    executedOn tickerId d (responses (fill a side.opposite o fillQty leavesQty)) =
        (if a.tickerId = tickerId then fillQty else 0) ∧
      tradedQty tickerId (updates (fill a side.opposite o fillQty leavesQty)) =
        (if a.tickerId = tickerId then fillQty else 0) ∧
      canceledOn tickerId d (responses (fill a side.opposite o fillQty leavesQty)) = 0 := by
  rw [fill, MEOrderBook.fillMessages]
  refine ⟨?_, by simp, by simp⟩
  cases side <;> cases d <;> simp [aSide, BookSide.toSide, BookSide.opposite]

/-- A sweep executes on both sides what the new order gets, trades it and cancels nothing. -/
theorem sweep_counts (aSide : a.side = side.toSide) (tickerId : TickerId) (d : BookSide)
    (xs : List MEResting) (leaves : Qty) :
    executedOn tickerId d (responses (sweep a side.opposite xs leaves).2.2) =
        (if a.tickerId = tickerId then leaves - (sweep a side.opposite xs leaves).2.1 else 0) ∧
      tradedQty tickerId (updates (sweep a side.opposite xs leaves).2.2) =
        (if a.tickerId = tickerId then leaves - (sweep a side.opposite xs leaves).2.1 else 0) ∧
      canceledOn tickerId d (responses (sweep a side.opposite xs leaves).2.2) = 0 ∧
      (sweep a side.opposite xs leaves).2.1 ≤ leaves := by
  induction xs generalizing leaves with
  | nil => simp [sweep]
  | cons o rest ih =>
      rw [sweep]
      split
      · simp
      · obtain ⟨executed, traded, canceled⟩ := fill_counts aSide tickerId d o (min leaves o.qty)
          (leaves - min leaves o.qty)
        split
        · obtain ⟨executed', traded', canceled', fewer⟩ := ih (leaves - min leaves o.qty)
          simp only [responses_append, updates_append, executedOn_append, tradedQty_append,
            canceledOn_append, executed, traded, canceled, executed', traded', canceled', filled,
            responses_update, responses_nil, updates_update, updates_nil, executedOn_nil,
            canceledOn_nil, tradedQty_cons, tradedQty_nil]
          refine ⟨?_, ?_, trivial, by lia⟩
          · split
            · lia
            · rfl
          · split
            · simp only [reduceCtorEq, false_and, if_false]
              lia
            · simp
        · simp only [responses_append, updates_append, executedOn_append, tradedQty_append,
            canceledOn_append, executed, traded, canceled, modified, responses_update,
            responses_nil, updates_update, updates_nil, executedOn_nil, canceledOn_nil,
            tradedQty_cons, tradedQty_nil]
          refine ⟨?_, ?_, trivial, by lia⟩
          · split
            · lia
            · rfl
          · split
            · simp only [reduceCtorEq, false_and, if_false]
              lia
            · simp

/-- The sweep of a NEW. -/
theorem matched_counts (ref : RefBook) (side : BookSide) (r : MEClientRequest)
    (tickerId : TickerId) (d : BookSide) :
    executedOn tickerId d (responses (matched .machine ref side r).2.2) =
        (if r.tickerId = tickerId then r.qty - (matched .machine ref side r).2.1 else 0) ∧
      tradedQty tickerId (updates (matched .machine ref side r).2.2) =
        (if r.tickerId = tickerId then r.qty - (matched .machine ref side r).2.1 else 0) ∧
      canceledOn tickerId d (responses (matched .machine ref side r).2.2) = 0 ∧
      (matched .machine ref side r).2.1 ≤ r.qty :=
  sweep_counts (show side.toSide = side.toSide from rfl) tickerId d (ref.orders side.opposite) r.qty

/-- All messages of a NEW count as those of its sweep. -/
theorem add_counts (ref : RefBook) (side : BookSide) (r : MEClientRequest) (tickerId : TickerId)
    (d : BookSide) :
    executedOn tickerId d (responses (add .machine ref side r).2) =
        executedOn tickerId d (responses (matched .machine ref side r).2.2) ∧
      tradedQty tickerId (updates (add .machine ref side r).2) =
        tradedQty tickerId (updates (matched .machine ref side r).2.2) ∧
      canceledOn tickerId d (responses (add .machine ref side r).2) =
        canceledOn tickerId d (responses (matched .machine ref side r).2.2) := by
  unfold add
  simp only
  split
  · simp [MEOrderBook.acceptedResponse]
  · simp [MEOrderBook.acceptedResponse, MEOrderBook.addUpdate]

/-- The side of a NEW gets what is left of it. -/
theorem openQty_add_own (ref : RefBook) (side : BookSide) (r : MEClientRequest) :
    openQty ((add .machine ref side r).1.orders side) =
      openQty (ref.orders side) + (matched .machine ref side r).2.1 := by
  rcases eq_or_ne (matched .machine ref side r).2.1 0 with filled | remains
  · rw [add_filled filled, swept_own, filled, add_zero]
  · rw [add_left remains, Function.update_self, openQty_insert, Nat.add_comm]
    rfl

/-- The other side gives what the NEW gets. -/
theorem openQty_add_opposite (ref : RefBook) (side : BookSide) (r : MEClientRequest) :
    openQty (ref.orders side.opposite) + (matched .machine ref side r).2.1 =
      openQty ((add .machine ref side r).1.orders side.opposite) + r.qty := by
  have swept : (add .machine ref side r).1.orders side.opposite =
      (matched .machine ref side r).1 := by
    rcases eq_or_ne (matched .machine ref side r).2.1 0 with filled | remains
    · rw [add_filled filled, swept_opposite]
    · rw [add_left remains, Function.update_of_ne BookSide.opposite_ne, swept_opposite]
  rw [swept]
  exact sweep_conserves _ _ _ _

end RefBook

/-! ## Requests -/

/-- The account of a request: what it submits and what rested before is traded, canceled or
rests behind it. -/
structure Clears (r : MEClientRequest) (out : List MEMessage) (before after : RefBook) : Prop where
  tape : ∀ tickerId side,
    executedOn tickerId side (responses out) = tradedQty tickerId (updates out)
  balance : ∀ side, openQty (before.orders side) + submittedOn r.tickerId side [r] =
    openQty (after.orders side) + executedOn r.tickerId side (responses out) +
      canceledOn r.tickerId side (responses out)

/-- A NEW clears. -/
theorem RefBook.add_clears {ref : RefBook} {side : BookSide} {r : MEClientRequest}
    (isNew : r.type = .NEW) (rSide : r.side = side.toSide) :
    Clears r (RefBook.add .machine ref side r).2 ref (RefBook.add .machine ref side r).1 := by
  refine ⟨fun tickerId d => ?_, fun d => ?_⟩
  · obtain ⟨executed, traded, -⟩ := RefBook.add_counts ref side r tickerId d
    obtain ⟨executed', traded', -⟩ := RefBook.matched_counts ref side r tickerId d
    rw [executed, traded, executed', traded']
  · obtain ⟨executed, -, canceled⟩ := RefBook.add_counts ref side r r.tickerId d
    obtain ⟨executed', -, canceled', fewer⟩ := RefBook.matched_counts ref side r r.tickerId d
    rw [executed, canceled, executed', canceled', if_pos rfl]
    rcases eq_or_ne d side with rfl | ne
    · have wanted : submittedOn r.tickerId d [r] = r.qty := by
        simp [submittedOn, isNew, rSide]
      have rests := RefBook.openQty_add_own ref d r
      lia
    · obtain rfl := BookSide.eq_opposite_of_ne ne
      have wanted : submittedOn r.tickerId side.opposite [r] = 0 := by
        simp [submittedOn, rSide, BookSide.toSide_inj, BookSide.opposite_ne.symm]
      have given := RefBook.openQty_add_opposite ref side r
      lia

/-- A CANCEL clears that takes an order out. -/
theorem RefBook.canceled_clears {ref : RefBook} {side : BookSide} {r : MEClientRequest}
    {o : MEResting} {xs ys : List MEResting} (isCancel : r.type = .CANCEL)
    (shape : ref.orders side = xs ++ o :: ys) :
    Clears r (RefBook.canceled r side o) ref
      { ref with orders := Function.update ref.orders side (xs ++ ys) } := by
  refine ⟨fun tickerId d => by simp [RefBook.canceled], fun d => ?_⟩
  have wanted : submittedOn r.tickerId d [r] = 0 := by
    simp [submittedOn, isCancel]
  rcases eq_or_ne d side with rfl | ne
  · have gone : canceledOn r.tickerId d (responses (RefBook.canceled r d o)) = o.qty := by
      simp [RefBook.canceled]
    have unexecuted : executedOn r.tickerId d (responses (RefBook.canceled r d o)) = 0 := by
      simp [RefBook.canceled]
    simp only [wanted, gone, unexecuted, Function.update_self, shape, openQty_append, openQty_cons]
    lia
  · have uncanceled : canceledOn r.tickerId d (responses (RefBook.canceled r side o)) = 0 := by
      simp [RefBook.canceled, BookSide.toSide_inj, ne.symm]
    have unexecuted : executedOn r.tickerId d (responses (RefBook.canceled r side o)) = 0 := by
      simp [RefBook.canceled]
    simp only [wanted, uncanceled, unexecuted, Function.update_of_ne ne, add_zero]

/-- Every request clears, whatever its ids. -/
theorem Refines.request_clears {basePrice : Price} {s s' : MEOrderBook} {ref : RefBook}
    {r : MEClientRequest} {out : List MEMessage} (refines : Refines basePrice False s ref)
    (sided : Sided r) (ran : s.processClientRequest r = .ok (s', out)) :
    ∃ ref', Refines basePrice False s' ref' ∧ Clears r out ref ref' ∧ Replies r out := by
  rcases refines.request_cases sided ran with
    ⟨side, isNew, rSide, -, rfl, refines'⟩ | ⟨isCancel, rfl, rfl⟩ |
    ⟨side, o, xs, ys, isCancel, shape, -, rfl, refines'⟩
  · exact ⟨_, refines', RefBook.add_clears isNew rSide, replies_add⟩
  · refine ⟨ref, refines, ⟨?_, ?_⟩, ?_⟩
    · simp [MEOrderBook.rejectedResponse]
    · simp [MEOrderBook.rejectedResponse, submittedOn, isCancel]
    · simp [Replies, MEOrderBook.rejectedResponse]
  · refine ⟨_, refines', RefBook.canceled_clears isCancel shape, ?_⟩
    intro x mem
    rw [RefBook.canceled, responses_update, responses_response, responses_nil,
      List.mem_singleton] at mem
    subst mem
    exact ⟨rfl, .inr ⟨side, rfl⟩⟩

/-! ## Whom a request concerns -/

section Clients

variable {P : ClientId → Prop}

/-- The orders belong to clients as `P` says. -/
def RefBook.OwnedBy (P : ClientId → Prop) (ref : RefBook) : Prop :=
  ∀ side, ∀ o ∈ ref.orders side, P o.key.clientId

/-- A sweep answers the client of the new order and the owners of what it fills. -/
theorem RefBook.sweep_clients {a : Aggressor} {passive : BookSide} (own : P a.clientId)
    {xs : List MEResting} (owned : ∀ o ∈ xs, P o.key.clientId) (leaves : Qty) :
    ∀ x ∈ responses (sweep a passive xs leaves).2.2, P x.clientId := by
  induction xs generalizing leaves with
  | nil => exact fun x mem => absurd mem List.not_mem_nil
  | cons o rest ih =>
      have first : ∀ fillQty leavesQty,
          ∀ x ∈ responses (fill a passive o fillQty leavesQty), P x.clientId := by
        intro fillQty leavesQty x mem
        simp only [fill, MEOrderBook.fillMessages, responses_response, responses_update,
          responses_nil, List.mem_cons, List.not_mem_nil, or_false] at mem
        rcases mem with rfl | rfl
        · exact own
        · exact owned o List.mem_cons_self
      rw [sweep]
      split
      · exact fun x mem => absurd mem List.not_mem_nil
      · split
        · intro x mem
          simp only [responses_append, List.mem_append, filled, responses_update, responses_nil,
            List.not_mem_nil, or_false] at mem
          rcases mem with now | later
          · exact first _ _ x now
          · exact ih (fun y yMem => owned y (List.mem_cons_of_mem _ yMem)) _ x later
        · intro x mem
          simp only [responses_append, List.mem_append, modified, responses_update, responses_nil,
            List.not_mem_nil, or_false] at mem
          exact first _ _ x mem

/-- What a NEW leaves is its own or rested before. -/
theorem RefBook.OwnedBy.add {ref : RefBook} {side : BookSide} {r : MEClientRequest}
    (owned : ref.OwnedBy P) (own : P r.clientId) :
    (RefBook.add .machine ref side r).1.OwnedBy P := by
  have swept : ∀ d, ∀ o ∈ RefBook.swept .machine ref side r d, P o.key.clientId := by
    intro d o mem
    rcases eq_or_ne d side.opposite with rfl | ne
    · rw [RefBook.swept_opposite] at mem
      obtain ⟨x, xMem, tag⟩ := RefBook.sweep_mem _ _ mem
      have key : x.key = o.key := congrArg (·.1) tag
      rw [← key]
      exact owned _ x xMem
    · rw [RefBook.swept, Function.update_of_ne ne] at mem
      exact owned d o mem
  intro d o mem
  rcases eq_or_ne (RefBook.matched .machine ref side r).2.1 0 with filled | remains
  · rw [RefBook.add_filled filled] at mem
    exact swept d o mem
  · rw [RefBook.add_left remains] at mem
    rcases eq_or_ne d side with rfl | ne
    · rw [Function.update_self, List.mem_orderedInsert] at mem
      rcases mem with rfl | old
      · exact own
      · exact owned d o old
    · rw [Function.update_of_ne ne] at mem
      exact swept d o mem

/-- A request of one of the clients is answered to them, and leaves orders of theirs. -/
theorem Refines.request_owned {basePrice : Price} {s s' : MEOrderBook} {ref : RefBook}
    {r : MEClientRequest} {out : List MEMessage} (refines : Refines basePrice False s ref)
    (owned : ref.OwnedBy P) (own : P r.clientId) (sided : Sided r)
    (ran : s.processClientRequest r = .ok (s', out)) :
    ∃ ref', Refines basePrice False s' ref' ∧ ref'.OwnedBy P ∧
      ∀ x ∈ responses out, P x.clientId := by
  rcases refines.request_cases sided ran with
    ⟨side, -, -, -, rfl, refines'⟩ | ⟨-, rfl, rfl⟩ | ⟨side, o, xs, ys, -, shape, -, rfl, refines'⟩
  · refine ⟨_, refines', owned.add own, ?_⟩
    have swept : ∀ x ∈ responses (RefBook.matched .machine ref side r).2.2, P x.clientId :=
      RefBook.sweep_clients own (owned side.opposite) r.qty
    intro x mem
    rw [RefBook.add] at mem
    simp only at mem
    split at mem
    · rw [MEOrderBook.acceptedResponse, responses_response, List.mem_cons] at mem
      rcases mem with rfl | later
      · exact own
      · exact swept x later
    · rw [MEOrderBook.acceptedResponse, List.cons_append, responses_response, responses_append,
        MEOrderBook.addUpdate, responses_update, responses_nil, List.append_nil,
        List.mem_cons] at mem
      rcases mem with rfl | later
      · exact own
      · exact swept x later
  · refine ⟨ref, refines, owned, fun x mem => ?_⟩
    rw [MEOrderBook.rejectedResponse, responses_response, responses_nil,
      List.mem_singleton] at mem
    rw [mem]
    exact own
  · refine ⟨_, refines', fun d x mem => ?_, fun x mem => ?_⟩
    · simp only at mem
      rcases eq_or_ne d side with rfl | ne
      · rw [Function.update_self] at mem
        refine owned d x ?_
        rw [shape]
        exact (List.sublist_cons_self o ys).append_left xs |>.subset mem
      · rw [Function.update_of_ne ne] at mem
        exact owned d x mem
    · rw [RefBook.canceled, responses_update, responses_response, responses_nil,
        List.mem_singleton] at mem
      rw [mem]
      exact own

end Clients

/-! ## Whole runs -/

/-- All that the orders of a side want, by the walk of the book. -/
def MEOrderBook.restingQty (s : MEOrderBook) (side : BookSide) : Qty :=
  (((s.sideQueues side.toSide).flatMap (·.2)).map fun o => o.2.2.2.1).sum

theorem Refines.restingQty_eq {basePrice : Price} {exact : Prop} {s : MEOrderBook} {ref : RefBook}
    (refines : Refines basePrice exact s ref) (side : BookSide) :
    s.restingQty side = openQty (ref.orders side) := by
  rw [MEOrderBook.restingQty, refines.sim.sideQueues_eq, flatMap_snd_groups, List.map_map,
    List.map_map]
  rfl

namespace MatchingEngine

variable {tickerBasePrices : TickerId → Price}

/-- The accounts of all tickers behind a run. -/
structure Cleared (tickerBasePrices : TickerId → Price) (refs : TickerId → RefBook)
    (s : MatchingEngine) (rs : List MEClientRequest) (out : List MEMessage) : Prop where
  refines : ∀ tickerId, Refines (tickerBasePrices tickerId) False (s.tickerOrderBook tickerId)
    (refs tickerId)
  tape : ∀ tickerId side,
    executedOn tickerId side (responses out) = tradedQty tickerId (updates out)
  balance : ∀ tickerId side, submittedOn tickerId side rs =
    openQty ((refs tickerId).orders side) + executedOn tickerId side (responses out) +
      canceledOn tickerId side (responses out)

/-- One request keeps the accounts of all tickers. -/
theorem Cleared.step {refs : TickerId → RefBook} {s s' : MatchingEngine}
    {rs : List MEClientRequest} {r : MEClientRequest} {out now : List MEMessage}
    (cleared : Cleared tickerBasePrices refs s rs out) (sided : Sided r)
    (processed : s.processClientRequest r = .ok (s', now)) :
    ∃ refs', Cleared tickerBasePrices refs' s' (rs ++ [r]) (out ++ now) := by
  obtain ⟨-, book, answered, rfl⟩ := processClientRequest_eq_ok.mp processed
  obtain ⟨ref', refines', clears, replies⟩ :=
    (cleared.refines r.tickerId).request_clears sided answered
  refine ⟨Function.update refs r.tickerId ref', fun tickerId => ?_, fun tickerId side => ?_,
    fun tickerId side => ?_⟩
  · rcases eq_or_ne tickerId r.tickerId with rfl | ne
    · simp only [Function.update_self]
      exact refines'
    · simp only [Function.update_of_ne ne]
      exact cleared.refines tickerId
  · rw [responses_append, updates_append, executedOn_append, tradedQty_append,
      cleared.tape, clears.tape]
  · have before := cleared.balance tickerId side
    rw [submittedOn_append, responses_append, executedOn_append, canceledOn_append]
    rcases eq_or_ne tickerId r.tickerId with rfl | ne
    · have here := clears.balance side
      rw [Function.update_self]
      lia
    · have apart : ∀ x ∈ responses now, x.tickerId ≠ tickerId :=
        fun x mem same => ne (same.symm.trans (replies x mem).1)
      obtain ⟨executed, canceled⟩ := executedOn_elsewhere side apart
      have unsubmitted : submittedOn tickerId side [r] = 0 := by
        simp [submittedOn, ne.symm]
      rw [executed, canceled, unsubmitted, Function.update_of_ne ne]
      lia

/-- **Clearing.** Along every run of the matching engine in which the new orders are for BUY or
SELL, whatever ids the clients use, what is bought of a ticker is sold, and is the quantity of the
trades that the market data tells of; and on either side the quantity that was submitted has been
executed, has been canceled or rests. -/
theorem run_clearing (tickerBasePrices : TickerId → Price) (rs : List MEClientRequest)
    (s : MatchingEngine) (out : List MEMessage) (sided : ∀ r ∈ rs, Sided r)
    (ran : run processClientRequest (new tickerBasePrices) rs = .ok (s, out))
    (tickerId : TickerId) (side : BookSide) :
    executedOn tickerId side (responses out) = tradedQty tickerId (updates out) ∧
      submittedOn tickerId side rs = (s.tickerOrderBook tickerId).restingQty side +
        tradedQty tickerId (updates out) + canceledOn tickerId side (responses out) := by
  obtain ⟨refs, cleared⟩ := run_invariant
    (P := fun s rs out => (∀ r ∈ rs, Sided r) → ∃ refs, Cleared tickerBasePrices refs s rs out)
    (fun _ => ⟨fun _ => RefBook.new, fun _ => Refines.new _ False, fun _ _ => rfl, fun _ _ => rfl⟩)
    (fun {t rs out r u now} before _ processed sided => by
      obtain ⟨refs, cleared⟩ := before fun x mem => sided x (List.mem_append_left _ mem)
      exact cleared.step (sided r (List.mem_append_right _ List.mem_cons_self)) processed)
    ran sided
  rw [(cleared.refines tickerId).restingQty_eq, ← cleared.tape tickerId side]
  exact ⟨rfl, cleared.balance tickerId side⟩

/-- Two sells with one id, one of which a buy takes in part, and a cancel. -/
theorem run_clearing_doubled :
    ∃ s out, run processClientRequest (new fun _ => 100)
        [⟨.NEW, 1, 0, 1, .SELL, 105, 4⟩, ⟨.NEW, 1, 0, 1, .SELL, 106, 3⟩,
          ⟨.NEW, 2, 0, 1, .BUY, 105, 1⟩, ⟨.CANCEL, 1, 0, 1, .SELL, 106, 3⟩] = .ok (s, out) ∧
      executedOn 0 .ask (responses out) = tradedQty 0 (updates out) ∧
      submittedOn 0 .ask [⟨.NEW, 1, 0, 1, .SELL, 105, 4⟩, ⟨.NEW, 1, 0, 1, .SELL, 106, 3⟩,
          ⟨.NEW, 2, 0, 1, .BUY, 105, 1⟩, ⟨.CANCEL, 1, 0, 1, .SELL, 106, 3⟩] =
        (s.tickerOrderBook 0).restingQty .ask + tradedQty 0 (updates out) +
          canceledOn 0 .ask (responses out) := by
  obtain ⟨s, out, ran, -⟩ := run_of_map processClientRequest (new fun _ => 100)
    [⟨.NEW, 1, 0, 1, .SELL, 105, 4⟩, ⟨.NEW, 1, 0, 1, .SELL, 106, 3⟩,
      ⟨.NEW, 2, 0, 1, .BUY, 105, 1⟩, ⟨.CANCEL, 1, 0, 1, .SELL, 106, 3⟩]
    (fun out => tradedQty 0 (updates out)) 1 (by decide +kernel)
  exact ⟨s, out, ran, run_clearing _ _ s out (by decide) ran 0 .ask⟩

end MatchingEngine

end NanoTrade
