import NanoTrade.Exchange.Events

/-!
# What one client sees of a book

For one client: the orders that it has in a book (`held`) and the responses that it gets for a
side (`answers`). A NEW of the client is answered by an ACCEPTED and a row of fills, down to
what rests of it (`held_add`); an order that rests is filled by the orders of anyone
(`filled_add`). `Fills` is such a row.
-/

namespace NanoTrade

/-- A row of FILLED responses that takes an order from one quantity to another. -/
inductive Fills : Qty → List MEClientResponse → Qty → Prop
  | done (qty) : Fills qty [] qty
  | fill {qty x xs leaves} (wants : qty ≠ 0) (filled : x.type = .FILLED)
      (conserves : x.execQty + x.leavesQty = qty) (later : Fills x.leavesQty xs leaves) :
      Fills qty (x :: xs) leaves

namespace Fills

variable {q m l : Qty} {xs ys : List MEClientResponse}

theorem append (first : Fills q xs m) (second : Fills m ys l) : Fills q (xs ++ ys) l := by
  induction first with
  | done => exact second
  | fill wants filled conserves later ih => exact .fill wants filled conserves (ih second)

/-- Nothing fills an order of which nothing is left. -/
theorem of_zero (fills : Fills 0 xs l) : xs = [] ∧ l = 0 := by
  cases fills with
  | done => exact ⟨rfl, rfl⟩
  | fill wants => exact (wants rfl).elim

theorem filled (fills : Fills q xs l) : ∀ x ∈ xs, x.type = .FILLED := by
  induction fills with
  | done => exact fun x mem => absurd mem List.not_mem_nil
  | fill wants isFilled conserves later ih =>
      intro x mem
      rcases List.mem_cons.mp mem with rfl | mem
      · exact isFilled
      · exact ih x mem

end Fills

/-- What the book shows of the order with this id and price when `qty` is left of it. -/
def leftOf (o : OrderId × Price) (qty : Qty) : List (OrderId × Price × Qty) :=
  if qty = 0 then [] else [(o.1, o.2, qty)]

@[simp] theorem leftOf_zero (o : OrderId × Price) : leftOf o 0 = [] := rfl

theorem leftOf_of_ne {o : OrderId × Price} {qty : Qty} (wants : qty ≠ 0) :
    leftOf o qty = [(o.1, o.2, qty)] := by
  rw [leftOf, if_neg wants]

theorem length_leftOf_le (o : OrderId × Price) (qty : Qty) : (leftOf o qty).length ≤ 1 := by
  unfold leftOf
  split
  · exact Nat.zero_le 1
  · exact Nat.le_refl 1

/-- The orders of a client in a list, by what the client knows of them. -/
def held (clientId : ClientId) (xs : List MEResting) : List (OrderId × Price × Qty) :=
  (xs.filter fun o => o.key.clientId = clientId).map fun o =>
    (o.key.clientOrderId, o.price, o.qty)

/-- The responses for the orders of a client on one side. -/
def answers (clientId : ClientId) (side : Side) (out : List MEMessage) : List MEClientResponse :=
  (responses out).filter fun x => x.clientId = clientId ∧ x.side = side

section

variable {clientId : ClientId} {side : Side} {xs ys : List MEResting} {o : MEResting}

@[simp] theorem held_nil : held clientId [] = [] := rfl

theorem held_cons_self (own : o.key.clientId = clientId) :
    held clientId (o :: xs) = (o.key.clientOrderId, o.price, o.qty) :: held clientId xs := by
  rw [held, List.filter_cons_of_pos (by simpa using own)]
  rfl

theorem held_cons_of_ne (foreign : o.key.clientId ≠ clientId) :
    held clientId (o :: xs) = held clientId xs := by
  rw [held, List.filter_cons_of_neg (by simpa using foreign)]
  rfl

theorem held_append : held clientId (xs ++ ys) = held clientId xs ++ held clientId ys := by
  simp only [held, List.filter_append, List.map_append]

theorem mem_held {a : OrderId × Price × Qty} : a ∈ held clientId xs ↔
    ∃ o ∈ xs, o.key.clientId = clientId ∧ (o.key.clientOrderId, o.price, o.qty) = a := by
  simp only [held, List.mem_map, List.mem_filter, decide_eq_true_eq, and_assoc]

/-- A list in which another client's order is put in. -/
theorem held_insert_of_ne (d : BookSide) (foreign : o.key.clientId ≠ clientId) :
    held clientId (xs.orderedInsert (Resting.Ahead d) o) = held clientId xs := by
  induction xs with
  | nil => exact held_cons_of_ne foreign
  | cons x xs ih =>
      by_cases ahead : Resting.Ahead d o x
      · rw [List.orderedInsert_cons_of_le _ _ ahead, held_cons_of_ne foreign]
      · rw [List.orderedInsert_of_not_le _ _ ahead]
        by_cases own : x.key.clientId = clientId
        · rw [held_cons_self own, held_cons_self own, ih]
        · rw [held_cons_of_ne own, held_cons_of_ne own, ih]

/-- A list of others' orders in which an order of the client is put in. -/
theorem held_insert_self (d : BookSide) (own : o.key.clientId = clientId)
    (empty : held clientId xs = []) :
    held clientId (xs.orderedInsert (Resting.Ahead d) o) =
      [(o.key.clientOrderId, o.price, o.qty)] := by
  have perm := ((List.perm_orderedInsert (Resting.Ahead d) o xs).filter
    fun x => decide (x.key.clientId = clientId)).map
      fun x => (x.key.clientOrderId, x.price, x.qty)
  have whole : held clientId (o :: xs) = [(o.key.clientOrderId, o.price, o.qty)] := by
    rw [held_cons_self own, empty]
  have single : (held clientId (xs.orderedInsert (Resting.Ahead d) o)).Perm
      (held clientId (o :: xs)) := perm
  rw [whole] at single
  exact List.perm_singleton.mp single

variable {m n : List MEMessage}

@[simp] theorem answers_nil : answers clientId side [] = [] := rfl

@[simp] theorem answers_append :
    answers clientId side (m ++ n) = answers clientId side m ++ answers clientId side n := by
  rw [answers, responses_append, List.filter_append]
  rfl

@[simp] theorem answers_update (u : MEMarketUpdate) :
    answers clientId side (.update u :: m) = answers clientId side m := rfl

theorem answers_response (x : MEClientResponse) :
    answers clientId side (.response x :: m) =
      if x.clientId = clientId ∧ x.side = side then x :: answers clientId side m
      else answers clientId side m := by
  rw [answers, responses_response, List.filter_cons]
  simp only [decide_eq_true_eq]
  rfl

end

/-! ## A sweep -/

namespace RefBook

section Sweep

variable {clientId : ClientId} {a : Aggressor} {passive : BookSide}

/-- The fill of a new order on the other side. -/
theorem answers_fill_aggressor (own : a.clientId = clientId) (apart : a.side ≠ passive.toSide)
    (o : MEResting) (fillQty leavesQty : Qty) :
    ∃ x, answers clientId a.side (fill a passive o fillQty leavesQty) = [x] ∧
      x.type = .FILLED ∧ x.execQty = fillQty ∧ x.leavesQty = leavesQty := by
  rw [fill, MEOrderBook.fillMessages, answers_response, if_pos ⟨own, rfl⟩, answers_response,
    if_neg fun same => apart same.2.symm]
  exact ⟨_, rfl, rfl, rfl, rfl⟩

theorem answers_fill_foreign (foreign : a.clientId ≠ clientId) (apart : a.side ≠ passive.toSide)
    (o : MEResting) (fillQty leavesQty : Qty) :
    answers clientId a.side (fill a passive o fillQty leavesQty) = [] := by
  rw [fill, MEOrderBook.fillMessages, answers_response, if_neg fun same => foreign same.1,
    answers_response, if_neg fun same => apart same.2.symm]
  rfl

/-- The fill of an order that rests. -/
theorem answers_fill_passive {o : MEResting} (own : o.key.clientId = clientId)
    (apart : a.side ≠ passive.toSide) (fillQty leavesQty : Qty) :
    ∃ x, answers clientId passive.toSide (fill a passive o fillQty leavesQty) = [x] ∧
      x.type = .FILLED ∧ x.execQty = fillQty ∧ x.leavesQty = o.qty - fillQty := by
  rw [fill, MEOrderBook.fillMessages, answers_response, if_neg fun same => apart same.2,
    answers_response, if_pos ⟨own, rfl⟩]
  exact ⟨_, rfl, rfl, rfl, rfl⟩

theorem answers_fill_other {o : MEResting} (foreign : o.key.clientId ≠ clientId)
    (apart : a.side ≠ passive.toSide) (fillQty leavesQty : Qty) :
    answers clientId passive.toSide (fill a passive o fillQty leavesQty) = [] := by
  rw [fill, MEOrderBook.fillMessages, answers_response, if_neg fun same => apart same.2,
    answers_response, if_neg fun same => foreign same.1]
  rfl

/-- The new order is filled down to what the sweep leaves of it. -/
theorem fills_aggressor (own : a.clientId = clientId) (apart : a.side ≠ passive.toSide)
    (xs : List MEResting) (leaves : Qty) :
    Fills leaves (answers clientId a.side (sweep a passive xs leaves).2.2)
      (sweep a passive xs leaves).2.1 := by
  induction xs generalizing leaves with
  | nil => exact .done leaves
  | cons o rest ih =>
      rw [sweep]
      split
      · exact .done leaves
      · rename_i goesOn
        have wants : leaves ≠ 0 := fun zero => goesOn (.inl zero)
        split
        · obtain ⟨x, shape, isFilled, exec, left⟩ := answers_fill_aggressor own apart o
            (min leaves o.qty) (leaves - min leaves o.qty)
          simp only [answers_append, filled, answers_update, answers_nil, List.append_nil, shape,
            List.singleton_append]
          refine .fill wants isFilled ?_ ?_
          · rw [exec, left]
            lia
          · rw [left]
            exact ih _
        · obtain ⟨x, shape, isFilled, exec, left⟩ := answers_fill_aggressor own apart o
            (min leaves o.qty) (leaves - min leaves o.qty)
          simp only [answers_append, modified, answers_update, answers_nil, List.append_nil, shape]
          refine .fill wants isFilled ?_ ?_
          · rw [exec, left]
            lia
          · rw [left]
            exact .done _

/-- The new order of another client brings nothing for its own side. -/
theorem answers_sweep_foreign (foreign : a.clientId ≠ clientId) (apart : a.side ≠ passive.toSide)
    (xs : List MEResting) (leaves : Qty) :
    answers clientId a.side (sweep a passive xs leaves).2.2 = [] := by
  induction xs generalizing leaves with
  | nil => rfl
  | cons o rest ih =>
      rw [sweep]
      split
      · rfl
      · split
        · simp only [answers_append, answers_fill_foreign foreign apart, filled, answers_update,
            answers_nil, List.append_nil, ih]
        · simp only [answers_append, answers_fill_foreign foreign apart, modified,
            answers_update, answers_nil, List.append_nil]

/-- The only order of a client on the other side is filled down to what the sweep leaves
of it. The induction is on the orders of that side. -/
theorem fills_passive (apart : a.side ≠ passive.toSide) {xs : List MEResting}
    (positive : ∀ o ∈ xs, 0 < o.qty) {terms : OrderId × Price} {q : Qty}
    (only : held clientId xs = leftOf terms q) (leaves : Qty) :
    ∃ q', Fills q (answers clientId passive.toSide (sweep a passive xs leaves).2.2) q' ∧
      held clientId (sweep a passive xs leaves).1 = leftOf terms q' := by
  induction xs generalizing q leaves with
  | nil => exact ⟨q, .done q, only⟩
  | cons o rest ih =>
      have positiveRest : ∀ x ∈ rest, 0 < x.qty := fun x mem =>
        positive x (List.mem_cons_of_mem _ mem)
      rw [sweep]
      split
      · exact ⟨q, .done q, only⟩
      · by_cases own : o.key.clientId = clientId
        · -- The order of the client is this one, and the rest holds none.
          have wants : q ≠ 0 := by
            intro zero
            rw [held_cons_self own, zero, leftOf_zero] at only
            cases only
          rw [held_cons_self own, leftOf_of_ne wants, List.cons.injEq, Prod.mk.injEq,
            Prod.mk.injEq] at only
          obtain ⟨⟨id, price, qty⟩, noMore⟩ := only
          have named : terms = (o.key.clientOrderId, o.price) := by
            rw [id, price]
          split
          · obtain ⟨x, shape, isFilled, exec, left⟩ := answers_fill_passive own apart
              (min leaves o.qty) (leaves - min leaves o.qty)
            obtain ⟨q', fills, later⟩ := ih positiveRest (q := 0)
              (by rw [noMore, leftOf_zero]) (leaves - min leaves o.qty)
            have noLeaves : x.leavesQty = 0 := by
              rw [left]
              lia
            refine ⟨q', ?_, later⟩
            simp only [answers_append, filled, answers_update, answers_nil, List.append_nil, shape,
              List.singleton_append]
            refine .fill wants isFilled ?_ ?_
            · rw [exec, left, ← qty]
              lia
            · rw [noLeaves]
              exact fills
          · rename_i partly
            obtain ⟨x, shape, isFilled, exec, left⟩ := answers_fill_passive own apart
              (min leaves o.qty) (leaves - min leaves o.qty)
            have remains : o.qty - min leaves o.qty ≠ 0 := by lia
            refine ⟨o.qty - min leaves o.qty, ?_, ?_⟩
            · simp only [answers_append, modified, answers_update, answers_nil, List.append_nil,
                shape]
              refine .fill wants isFilled ?_ ?_
              · rw [exec, left, ← qty]
                lia
              · rw [left]
                exact .done _
            · have kept : held clientId ({ o with qty := o.qty - min leaves o.qty } :: rest) =
                  leftOf terms (o.qty - min leaves o.qty) := by
                rw [held_cons_self (o := { o with qty := o.qty - min leaves o.qty }) own, noMore,
                  leftOf_of_ne remains, named]
              exact kept
        · rw [held_cons_of_ne own] at only
          split
          · obtain ⟨q', fills, later⟩ := ih positiveRest only (leaves - min leaves o.qty)
            refine ⟨q', ?_, later⟩
            simp only [answers_append, answers_fill_other own apart, filled, answers_update,
              answers_nil, List.nil_append]
            exact fills
          · refine ⟨q, ?_, ?_⟩
            · simp only [answers_append, answers_fill_other own apart, modified, answers_update,
                answers_nil, List.append_nil]
              exact .done q
            · have kept : held clientId ({ o with qty := o.qty - min leaves o.qty } :: rest) =
                  leftOf terms q := by
                rw [held_cons_of_ne (o := { o with qty := o.qty - min leaves o.qty }) own]
                exact only
              exact kept

end Sweep

/-! ## Requests -/

variable {clientId : ClientId} {ref : RefBook} {side : BookSide} {r : MEClientRequest}

theorem answers_add (clientId : ClientId) (ref : RefBook) (side : BookSide) (r : MEClientRequest)
    (d : Side) : answers clientId d (add .machine ref side r).2 =
      answers clientId d [MEOrderBook.acceptedResponse r.clientId r.orderId r.tickerId side.toSide
        r.price r.qty ref.nextMarketOrderId] ++
      answers clientId d (matched .machine ref side r).2.2 := by
  have first : ∀ m : List MEMessage, answers clientId d
      (MEOrderBook.acceptedResponse r.clientId r.orderId r.tickerId side.toSide r.price r.qty
        ref.nextMarketOrderId :: m) =
      answers clientId d [MEOrderBook.acceptedResponse r.clientId r.orderId r.tickerId side.toSide
        r.price r.qty ref.nextMarketOrderId] ++ answers clientId d m :=
    fun m => answers_append (m := [_])
  rw [add]
  simp only
  split
  · exact first _
  · rw [List.cons_append, first, answers_append, MEOrderBook.addUpdate, answers_update,
      answers_nil, List.append_nil]

/-- The order of a client on the other side of a NEW of anyone. -/
theorem filled_add (sound : Sound ref.orders) {terms : OrderId × Price} {q : Qty}
    (only : held clientId (ref.orders side.opposite) = leftOf terms q) :
    ∃ q', Fills q (answers clientId side.opposite.toSide (add .machine ref side r).2) q' ∧
      held clientId ((add .machine ref side r).1.orders side.opposite) = leftOf terms q' := by
  have apart : side.toSide ≠ side.opposite.toSide := by
    rw [Ne, BookSide.toSide_inj]
    exact BookSide.opposite_ne.symm
  obtain ⟨q', fills, left⟩ := fills_passive
    (a := { tickerId := r.tickerId, clientId := r.clientId, side := side.toSide,
            clientOrderId := r.orderId,
            newMarketOrderId := Width.machine.fillId ref.nextMarketOrderId, price := r.price })
    apart (sound.positive side.opposite) only r.qty
  refine ⟨q', ?_, ?_⟩
  · rw [answers_add clientId ref side r, MEOrderBook.acceptedResponse, answers_response,
      if_neg fun same => apart same.2]
    exact fills
  · rcases eq_or_ne (matched .machine ref side r).2.1 0 with filled | remains
    · rw [add_filled filled, swept_opposite]
      exact left
    · rw [add_left remains, Function.update_of_ne BookSide.opposite_ne, swept_opposite]
      exact left

/-- A NEW of the client is accepted and filled, and what is left of it rests. -/
theorem held_add (own : r.clientId = clientId) (free : held clientId (ref.orders side) = []) :
    ∃ x fills leaves, answers clientId side.toSide (add .machine ref side r).2 = x :: fills ∧
      x.type = .ACCEPTED ∧ Fills r.qty fills leaves ∧
      held clientId ((add .machine ref side r).1.orders side) =
        leftOf (r.orderId, r.price) leaves := by
  have apart : side.toSide ≠ side.opposite.toSide := by
    rw [Ne, BookSide.toSide_inj]
    exact BookSide.opposite_ne.symm
  have fills := fills_aggressor
    (a := { tickerId := r.tickerId, clientId := r.clientId, side := side.toSide,
            clientOrderId := r.orderId,
            newMarketOrderId := Width.machine.fillId ref.nextMarketOrderId, price := r.price })
    own apart (ref.orders side.opposite) r.qty
  have accepted := answers_add clientId ref side r side.toSide
  rw [MEOrderBook.acceptedResponse, answers_response, if_pos ⟨own, rfl⟩] at accepted
  refine ⟨_, _, (matched .machine ref side r).2.1, accepted, rfl, fills, ?_⟩
  · rcases eq_or_ne (matched .machine ref side r).2.1 0 with filled | remains
    · rw [add_filled filled, swept_own, free, filled, leftOf_zero]
    · rw [add_left remains, Function.update_self, leftOf_of_ne remains]
      exact held_insert_self side own free

/-- A NEW of another client leaves the side that it is for as it was. -/
theorem held_add_foreign (foreign : r.clientId ≠ clientId) :
    answers clientId side.toSide (add .machine ref side r).2 = [] ∧
      held clientId ((add .machine ref side r).1.orders side) =
        held clientId (ref.orders side) := by
  have apart : side.toSide ≠ side.opposite.toSide := by
    rw [Ne, BookSide.toSide_inj]
    exact BookSide.opposite_ne.symm
  have silent := answers_sweep_foreign
    (a := { tickerId := r.tickerId, clientId := r.clientId, side := side.toSide,
            clientOrderId := r.orderId,
            newMarketOrderId := Width.machine.fillId ref.nextMarketOrderId, price := r.price })
    foreign apart (ref.orders side.opposite) r.qty
  refine ⟨?_, ?_⟩
  · rw [answers_add clientId ref side r, MEOrderBook.acceptedResponse, answers_response,
      if_neg fun same => foreign same.1]
    exact silent
  · rcases eq_or_ne (matched .machine ref side r).2.1 0 with filled | remains
    · rw [add_filled filled, swept_own]
    · rw [add_left remains, Function.update_self]
      exact held_insert_of_ne side foreign

end RefBook

/-! ## Requests of the book -/

/-- What fills do to a side on which a client has at most one order. -/
def Traded (before : List (OrderId × Price × Qty)) (answer : List MEClientResponse)
    (after : List (OrderId × Price × Qty)) : Prop :=
  ∀ terms q, before = leftOf terms q → ∃ q', Fills q answer q' ∧ after = leftOf terms q'

/-- What a request of anyone does to the orders of a client: `before` and `after` are its
orders on the two sides of the book, `out` what the book sends. -/
inductive Reaction (clientId : ClientId) (r : MEClientRequest) (out : List MEMessage)
    (before after : BookSide → List (OrderId × Price × Qty)) : Prop
  | new (d : BookSide) (isNew : r.type = .NEW) (side : r.side = d.toSide)
      (entered : r.clientId = clientId → before d = [] → ∃ x fills leaves,
        answers clientId d.toSide out = x :: fills ∧ x.type = .ACCEPTED ∧
          Fills r.qty fills leaves ∧ after d = leftOf (r.orderId, r.price) leaves)
      (foreign : r.clientId ≠ clientId → answers clientId d.toSide out = [] ∧ after d = before d)
      (traded : Traded (before d.opposite) (answers clientId d.opposite.toSide out)
        (after d.opposite))
  | rejected (isCancel : r.type = .CANCEL)
      (sent : out = [MEOrderBook.rejectedResponse r.clientId r.orderId r.tickerId])
      (silent : ∀ d : BookSide, answers clientId d.toSide out = []) (same : after = before)
  | elsewhere (isCancel : r.type = .CANCEL) (foreign : r.clientId ≠ clientId)
      (silent : ∀ d : BookSide, answers clientId d.toSide out = []) (same : after = before)
  | withdrawn (d : BookSide) (xs ys : List (OrderId × Price × Qty)) (terms : OrderId × Price × Qty)
      (isCancel : r.type = .CANCEL) (own : r.clientId = clientId) (named : terms.1 = r.orderId)
      (split : before d = xs ++ terms :: ys) (left : after d = xs ++ ys)
      (sent : ∃ x, answers clientId d.toSide out = [x] ∧ x.type = .CANCELED)
      (opposite : answers clientId d.opposite.toSide out = [] ∧
        after d.opposite = before d.opposite)

/-- Responses carry the ticker of the request, and those for no side are rejections. -/
def Replies (r : MEClientRequest) (out : List MEMessage) : Prop :=
  ∀ x ∈ responses out, x.tickerId = r.tickerId ∧
    (x.type = .CANCEL_REJECTED ∨ ∃ d : BookSide, x.side = d.toSide)

theorem replies_sweep {r : MEClientRequest} {a : Aggressor} {side passive : BookSide}
    (ticker : a.tickerId = r.tickerId) (aSide : a.side = side.toSide) (xs : List MEResting)
    (leaves : Qty) : Replies r (RefBook.sweep a passive xs leaves).2.2 := by
  have fill : ∀ (o : MEResting) (fillQty leavesQty : Qty),
      Replies r (RefBook.fill a passive o fillQty leavesQty) := by
    intro o fillQty leavesQty x mem
    rw [RefBook.fill, MEOrderBook.fillMessages] at mem
    simp only [responses_response, responses_update, responses_nil, List.mem_cons,
      List.not_mem_nil, or_false] at mem
    rcases mem with rfl | rfl
    · exact ⟨ticker, .inr ⟨side, aSide⟩⟩
    · exact ⟨ticker, .inr ⟨passive, rfl⟩⟩
  induction xs generalizing leaves with
  | nil => exact fun x mem => absurd mem List.not_mem_nil
  | cons o rest ih =>
      rw [RefBook.sweep]
      split
      · exact fun x mem => absurd mem List.not_mem_nil
      · split
        · intro x mem
          simp only [responses_append, List.mem_append, RefBook.filled, responses_update,
            responses_nil, List.not_mem_nil, or_false] at mem
          rcases mem with now | later
          · exact fill o _ _ x now
          · exact ih _ x later
        · intro x mem
          simp only [responses_append, List.mem_append, RefBook.modified, responses_update,
            responses_nil, List.not_mem_nil, or_false] at mem
          exact fill o _ _ x mem

theorem replies_add {ref : RefBook} {side : BookSide} {r : MEClientRequest} :
    Replies r (RefBook.add .machine ref side r).2 := by
  intro x mem
  have swept : Replies r (RefBook.matched .machine ref side r).2.2 :=
    replies_sweep rfl (show side.toSide = side.toSide from rfl) _ _
  have either : (x.tickerId = r.tickerId ∧ x.side = side.toSide) ∨
      x ∈ responses (RefBook.matched .machine ref side r).2.2 := by
    rw [RefBook.add] at mem
    simp only at mem
    split at mem
    · rw [MEOrderBook.acceptedResponse, responses_response, List.mem_cons] at mem
      rcases mem with rfl | later
      · exact .inl ⟨rfl, rfl⟩
      · exact .inr later
    · rw [MEOrderBook.acceptedResponse, List.cons_append, responses_response, responses_append,
        MEOrderBook.addUpdate, responses_update, responses_nil, List.append_nil,
        List.mem_cons] at mem
      rcases mem with rfl | later
      · exact .inl ⟨rfl, rfl⟩
      · exact .inr later
  rcases either with ⟨ticker, xSide⟩ | later
  · exact ⟨ticker, .inr ⟨side, xSide⟩⟩
  · exact swept x later

/-- One request of the book, as a client sees it. -/
theorem Refines.reaction {basePrice : Price} {s s' : MEOrderBook} {ref : RefBook}
    {r : MEClientRequest} {out : List MEMessage} (clientId : ClientId)
    (refines : Refines basePrice False s ref) (sided : Sided r)
    (ran : s.processClientRequest r = .ok (s', out)) :
    ∃ ref', Refines basePrice False s' ref' ∧ Replies r out ∧
      Reaction clientId r out (fun d => held clientId (ref.orders d))
        (fun d => held clientId (ref'.orders d)) := by
  rcases refines.request_cases sided ran with
    ⟨side, isNew, rSide, -, rfl, refines'⟩ | ⟨isCancel, rfl, rfl⟩ |
    ⟨side, o, xs, ys, isCancel, shape, addresses, rfl, refines'⟩
  · refine ⟨_, refines', replies_add, .new side isNew rSide ?_ ?_ ?_⟩
    · exact fun own free => RefBook.held_add own free
    · exact fun foreign => RefBook.held_add_foreign foreign
    · exact fun terms q only => RefBook.filled_add refines.sound only
  · refine ⟨ref, refines, ?_, .rejected isCancel rfl ?_ rfl⟩
    · intro x mem
      rw [MEOrderBook.rejectedResponse, responses_response, responses_nil,
        List.mem_singleton] at mem
      subst mem
      exact ⟨rfl, .inl rfl⟩
    · intro d
      rw [MEOrderBook.rejectedResponse, answers_response, if_neg]
      · rfl
      · cases d <;> exact fun same => by cases same.2
  · refine ⟨_, refines', ?_, ?_⟩
    · intro x mem
      rw [RefBook.canceled, responses_update, responses_response, responses_nil,
        List.mem_singleton] at mem
      subst mem
      exact ⟨rfl, .inr ⟨side, rfl⟩⟩
    · have apart : ∀ d : BookSide, d ≠ side →
          answers clientId d.toSide (RefBook.canceled r side o) = [] := by
        intro d ne
        rw [RefBook.canceled, answers_update, answers_response, if_neg]
        · rfl
        · exact fun same => ne (BookSide.toSide_inj.mp same.2).symm
      by_cases own : r.clientId = clientId
      · have client : o.key.clientId = clientId := addresses.1.trans own
        refine .withdrawn side (held clientId xs) (held clientId ys)
          (o.key.clientOrderId, o.price, o.qty) isCancel own addresses.2 ?_ ?_ ?_ ?_
        · rw [shape, held_append, held_cons_self client]
        · simp only [Function.update_self, held_append]
        · rw [RefBook.canceled, answers_update, answers_response, if_pos ⟨own, rfl⟩]
          exact ⟨_, rfl, rfl⟩
        · refine ⟨apart _ BookSide.opposite_ne, ?_⟩
          simp only [Function.update_of_ne BookSide.opposite_ne]
      · have client : o.key.clientId ≠ clientId := fun same => own (addresses.1.symm.trans same)
        refine .elsewhere isCancel own ?_ ?_
        · intro d
          rcases eq_or_ne d side with rfl | ne
          · rw [RefBook.canceled, answers_update, answers_response, if_neg]
            · rfl
            · exact fun same => own same.1
          · exact apart d ne
        · funext d
          rcases eq_or_ne d side with rfl | ne
          · simp only [Function.update_self]
            rw [shape, held_append, held_append, held_cons_of_ne client]
          · simp only [Function.update_of_ne ne]

/-! ## Reading the book -/

/-- The orders of a client that the walk of a side finds. -/
def MEOrderBook.restingOf (s : MEOrderBook) (clientId : ClientId) (side : BookSide) :
    List (MEOrderKey × Side × Price × Qty × Priority) :=
  ((s.sideQueues side.toSide).flatMap (·.2)).filter fun o => o.1.clientId = clientId

theorem Refines.restingOf_eq {basePrice : Price} {exact : Prop} {s : MEOrderBook} {ref : RefBook}
    (refines : Refines basePrice exact s ref) (clientId : ClientId) (side : BookSide) :
    s.restingOf clientId side =
      ((ref.orders side).filter fun o => o.key.clientId = clientId).map fun o =>
        o.content side := by
  rw [MEOrderBook.restingOf, refines.sim.sideQueues_eq, flatMap_snd_groups, List.map_map,
    List.filter_map]
  rfl

theorem Refines.length_restingOf {basePrice : Price} {exact : Prop} {s : MEOrderBook}
    {ref : RefBook} (refines : Refines basePrice exact s ref) (clientId : ClientId)
    (side : BookSide) :
    (s.restingOf clientId side).length = (held clientId (ref.orders side)).length := by
  rw [refines.restingOf_eq, held, List.length_map, List.length_map]

end NanoTrade
