import NanoTrade.Exchange.ClientView
import NanoTrade.Trading.OrderManager

/-!
# The phases of an order

An order of the order manager, the NEW for it that is on its way, the responses that it has not
seen and what rests of it in the market: `OrderPhase` lists how these four can stand. Each event
of the order takes one phase to another.

The market is any to which a client can send its orders (`OrderMarket`): the exchange, of which
the section at the end is, or the fill simulator of a backtest.
-/

namespace NanoTrade

/-- A market to which orders are sent: how it executes a quantity, with what that leaves, and what
it keeps of an order of which this is left. -/
structure OrderMarket (Left Kept : Type) where
  Executes : Qty → List MEClientResponse → Left → Prop
  Keeps : OMOrder → Left → List Kept → Prop
  /-- There is something left for a CANCEL. -/
  Open : Left → Prop
  /-- An execution is the last one, or leaves a quantity for the others. -/
  cons : ∀ {qty x xs left}, Executes qty (x :: xs) left → x.type = .FILLED ∧
    (x.leavesQty = 0 ∧ x.execQty ≤ qty ∧ xs = [] ∧ ¬ Open left ∨
      x.leavesQty ≠ 0 ∧ x.execQty + x.leavesQty = qty ∧ Executes x.leavesQty xs left)
  closed : ∀ {o left kept}, Keeps o left kept → ¬ Open left → kept = []
  single : ∀ {o left kept}, Keeps o left kept → kept.length ≤ 1
  /-- The market does not see what its client has learned. -/
  unseen : ∀ {o left kept} state qty, Keeps o left kept →
    Keeps { o with orderState := state, qty } left kept

/-- How an order `o` of a client stands, with its NEWs on their way to the market, the responses
on their way back, and what the market keeps on its side. -/
inductive OrderPhase {Left Kept : Type} (market : OrderMarket Left Kept) (clientId : ClientId)
    (o : OMOrder) : List MEClientRequest → List MEClientResponse → List Kept → Prop
  | idle (free : o.orderState = .INVALID ∨ o.orderState = .DEAD) :
      OrderPhase market clientId o [] [] []
  | sent (pending : o.orderState = .PENDING_NEW) :
      OrderPhase market clientId o [OrderManager.newRequest clientId o] [] []
  | accepted {x fills left rest} (pending : o.orderState = .PENDING_NEW) (ack : x.type = .ACCEPTED)
      (executes : market.Executes o.qty fills left) (keeps : market.Keeps o left rest) :
      OrderPhase market clientId o [] (x :: fills) rest
  | working {fills left rest} (known : o.orderState = .LIVE ∨ o.orderState = .PENDING_CANCEL)
      (executes : market.Executes o.qty fills left) (keeps : market.Keeps o left rest) :
      OrderPhase market clientId o [] fills rest
  | canceled {fills x left} (pending : o.orderState = .PENDING_CANCEL)
      (executes : market.Executes o.qty fills left) (wants : market.Open left)
      (gone : x.type = .CANCELED) : OrderPhase market clientId o [] (fills ++ [x]) []

/-- What an order can still be filled, as far as the order manager knows. -/
def OMOrder.outstanding (o : OMOrder) : Qty :=
  match o.orderState with
  | .PENDING_NEW | .LIVE | .PENDING_CANCEL => o.qty
  | .INVALID | .DEAD => 0

namespace OrderPhase

section Market

variable {Left Kept : Type} {market : OrderMarket Left Kept} {clientId : ClientId} {o : OMOrder}
  {news : List MEClientRequest} {answer more : List MEClientResponse} {rest after : List Kept}
  {r : MEClientRequest} {x : MEClientResponse}

/-- A free slot has nothing on the way and nothing in the market. -/
theorem of_free (phase : OrderPhase market clientId o news answer rest)
    (free : o.orderState = .INVALID ∨ o.orderState = .DEAD) :
    news = [] ∧ answer = [] ∧ rest = [] := by
  cases phase with
  | idle => exact ⟨rfl, rfl, rfl⟩
  | sent pending => simp [pending] at free
  | accepted pending => simp [pending] at free
  | working known => rcases known with live | pending <;> simp [*] at free
  | canceled pending => simp [pending] at free

/-- What the market keeps is of the order of the slot. -/
theorem keeps_of_ne_nil (phase : OrderPhase market clientId o news answer rest)
    (rests : rest ≠ []) : news = [] ∧ o.orderState ≠ .INVALID ∧ o.orderState ≠ .DEAD ∧
      ∃ left, market.Keeps o left rest := by
  have used : ∀ {state}, state = .INVALID ∨ state = .DEAD → o.orderState ≠ state := by
    rintro state free rfl
    exact rests (phase.of_free free).2.2
  cases phase with
  | idle => exact absurd rfl rests
  | sent => exact absurd rfl rests
  | canceled => exact absurd rfl rests
  | accepted pending ack executes keeps =>
      exact ⟨rfl, used (.inl rfl), used (.inr rfl), _, keeps⟩
  | working known executes keeps => exact ⟨rfl, used (.inl rfl), used (.inr rfl), _, keeps⟩

/-- At most one order is on its way or rests. -/
theorem single (phase : OrderPhase market clientId o news answer rest) :
    news.length + rest.length ≤ 1 := by
  cases phase with
  | idle => exact Nat.zero_le 1
  | sent => exact Nat.le_refl 1
  | accepted pending ack executes keeps =>
      rw [List.length_nil, Nat.zero_add]
      exact market.single keeps
  | working known executes keeps =>
      rw [List.length_nil, Nat.zero_add]
      exact market.single keeps
  | canceled => exact Nat.zero_le 1

/-- A new order in a free slot. -/
theorem newOrder {o' : OMOrder} (phase : OrderPhase market clientId o news answer rest)
    (free : o.orderState = .INVALID ∨ o.orderState = .DEAD)
    (pending : o'.orderState = .PENDING_NEW) :
    OrderPhase market clientId o' (news ++ [OrderManager.newRequest clientId o']) answer rest := by
  obtain ⟨rfl, rfl, rfl⟩ := phase.of_free free
  exact .sent pending

/-- A live order that is to be cancelled. -/
theorem cancelOrder (phase : OrderPhase market clientId o news answer rest)
    (live : o.orderState = .LIVE) :
    OrderPhase market clientId { o with orderState := .PENDING_CANCEL } news answer rest := by
  cases phase with
  | idle free => simp [live] at free
  | sent pending => simp [live] at pending
  | accepted pending => simp [live] at pending
  | working known executes keeps =>
      exact .working (o := { o with orderState := _ }) (.inr rfl) executes
        (market.unseen .PENDING_CANCEL o.qty keeps)
  | canceled pending => simp [live] at pending

/-- What a response that is delivered can be. -/
theorem head (phase : OrderPhase market clientId o news (x :: more) rest) :
    (o.orderState = .PENDING_NEW ∧ x.type = .ACCEPTED) ∨
    ((o.orderState = .LIVE ∨ o.orderState = .PENDING_CANCEL) ∧ x.type = .FILLED ∧
      (x.leavesQty = 0 ∧ x.execQty ≤ o.qty ∨
        x.leavesQty ≠ 0 ∧ x.execQty + x.leavesQty = o.qty)) ∨
    (o.orderState = .PENDING_CANCEL ∧ x.type = .CANCELED) := by
  have fill : ∀ {xs left}, market.Executes o.qty (x :: xs) left → x.type = .FILLED ∧
      (x.leavesQty = 0 ∧ x.execQty ≤ o.qty ∨
        x.leavesQty ≠ 0 ∧ x.execQty + x.leavesQty = o.qty) := by
    intro xs left executes
    obtain ⟨filled, ⟨done, most, -⟩ | ⟨wants, conserves, -⟩⟩ := market.cons executes
    · exact ⟨filled, .inl ⟨done, most⟩⟩
    · exact ⟨filled, .inr ⟨wants, conserves⟩⟩
  generalize shape : x :: more = answer at phase
  cases phase with
  | idle => cases shape
  | sent => cases shape
  | accepted pending ack =>
      cases shape
      exact .inl ⟨pending, ack⟩
  | working known executes =>
      subst shape
      exact .inr (.inl ⟨known, fill executes⟩)
  | @canceled fills y left pending executes wants gone =>
      cases fills with
      | nil =>
          cases shape
          exact .inr (.inr ⟨pending, gone⟩)
      | cons z fills =>
          cases shape
          exact .inr (.inl ⟨.inr pending, fill executes⟩)

/-- A delivered response takes the order to its next phase. -/
theorem deliver (phase : OrderPhase market clientId o news (x :: more) rest) :
    OrderPhase market clientId (OrderManager.updated x o) news more rest := by
  generalize shape : x :: more = answer at phase
  cases phase with
  | idle => cases shape
  | sent => cases shape
  | accepted pending ack executes keeps =>
      cases shape
      rw [OrderManager.updated, ack]
      exact .working (o := { o with orderState := _ }) (.inl rfl) executes
        (market.unseen .LIVE o.qty keeps)
  | working known executes keeps =>
      subst shape
      obtain ⟨filled, ⟨done, -, rfl, closed⟩ | ⟨wants, -, later⟩⟩ := market.cons executes
      · obtain rfl := market.closed keeps closed
        rw [OrderManager.updated, filled]
        simp only [done, if_true]
        exact .idle (.inr rfl)
      · rw [OrderManager.updated, filled]
        simp only [wants, if_false]
        exact .working (o := { o with qty := _ }) known later
          (market.unseen o.orderState x.leavesQty keeps)
  | @canceled fills y left pending executes wants gone =>
      cases fills with
      | nil =>
          cases shape
          rw [OrderManager.updated, gone]
          exact .idle (.inr rfl)
      | cons z fills =>
          cases shape
          obtain ⟨filled, ⟨-, -, -, closed⟩ | ⟨goesOn, -, later⟩⟩ := market.cons executes
          · exact absurd wants closed
          · rw [OrderManager.updated, filled]
            simp only [goesOn, if_false]
            exact .canceled (o := { o with qty := _ }) pending later wants gone

/-- What a response takes from an order, at least what it fills. -/
theorem outstanding_updated (phase : OrderPhase market clientId o news (x :: more) rest) :
    (OrderManager.updated x o).outstanding + (if x.type = .FILLED then x.execQty else 0) ≤
      o.outstanding := by
  rcases phase.head with ⟨pending, accepted⟩ | ⟨known, filled, conserves⟩ | ⟨pending, canceled⟩
  · simp [OMOrder.outstanding, OrderManager.updated, accepted, pending]
  · have whole : o.outstanding = o.qty := by
      rcases known with live | pending <;> simp [OMOrder.outstanding, *]
    rw [whole, if_pos filled, OrderManager.updated, filled]
    rcases conserves with ⟨done, most⟩ | ⟨wants, conserves⟩
    · simpa [done, OMOrder.outstanding] using most
    · rcases known with live | pending <;> simp [OMOrder.outstanding, *] <;> lia
  · simp [OMOrder.outstanding, OrderManager.updated, canceled]

/-- The market executes more of what it keeps. -/
theorem executed (phase : OrderPhase market clientId o news answer rest)
    (quiet : rest = [] → more = [] ∧ after = [])
    (goesOn : ∀ {fills left}, market.Executes o.qty fills left → market.Keeps o left rest →
      ∃ left', market.Executes o.qty (fills ++ more) left' ∧ market.Keeps o left' after) :
    OrderPhase market clientId o news (answer ++ more) after := by
  cases phase with
  | idle free =>
      obtain ⟨rfl, rfl⟩ := quiet rfl
      exact .idle free
  | sent pending =>
      obtain ⟨rfl, rfl⟩ := quiet rfl
      exact .sent pending
  | accepted pending ack executes keeps =>
      obtain ⟨left, executes, keeps⟩ := goesOn executes keeps
      exact .accepted pending ack executes keeps
  | working known executes keeps =>
      obtain ⟨left, executes, keeps⟩ := goesOn executes keeps
      exact .working known executes keeps
  | canceled pending executes wants gone =>
      obtain ⟨rfl, rfl⟩ := quiet rfl
      rw [List.append_nil]
      exact .canceled pending executes wants gone

/-- A NEW on its way is that of the order, and the only message about it. -/
theorem of_news (phase : OrderPhase market clientId o (r :: news) answer rest) :
    o.orderState = .PENDING_NEW ∧ r = OrderManager.newRequest clientId o ∧ news = [] ∧
      answer = [] ∧ rest = [] := by
  generalize shape : r :: news = all at phase
  cases phase with
  | sent pending =>
      cases shape
      exact ⟨pending, rfl, rfl, rfl, rfl⟩
  | idle => cases shape
  | accepted => cases shape
  | working => cases shape
  | canceled => cases shape

/-- The NEW reaches the market. -/
theorem enter {fills : List MEClientResponse} {left : Left}
    (phase : OrderPhase market clientId o (r :: news) answer rest) (ack : x.type = .ACCEPTED)
    (executes : market.Executes r.qty fills left)
    (keeps : r = OrderManager.newRequest clientId o → market.Keeps o left after) :
    OrderPhase market clientId o news (answer ++ x :: fills) after := by
  obtain ⟨pending, rfl, rfl, rfl, rfl⟩ := phase.of_news
  exact .accepted pending ack executes (keeps rfl)

/-- The order that rests is taken out of the market by a CANCEL. -/
theorem withdraw (phase : OrderPhase market clientId o news answer rest) (rests : rest ≠ [])
    (asked : o.orderState = .PENDING_CANCEL ∨ o.orderState = .DEAD) (gone : x.type = .CANCELED) :
    OrderPhase market clientId o news (answer ++ [x]) [] := by
  have canceling : o.orderState = .PENDING_CANCEL :=
    asked.resolve_right (phase.keeps_of_ne_nil rests).2.2.1
  cases phase with
  | idle => exact absurd rfl rests
  | sent => exact absurd rfl rests
  | canceled => exact absurd rfl rests
  | accepted pending => simp [canceling] at pending
  | working known executes keeps =>
      refine .canceled canceling executes ?_ gone
      by_contra closed
      exact rests (market.closed keeps closed)

end Market

end OrderPhase

/-! ## The exchange -/

/-- The exchange fills an order by quantities that add up, and what is left of it rests. -/
def exchangeMarket : OrderMarket Qty (OrderId × Price × Qty) where
  Executes := Fills
  Keeps o leaves rest := rest = leftOf (o.orderId, o.price) leaves
  Open leaves := leaves ≠ 0
  cons := by
    intro qty x xs leaves fills
    cases fills with
    | fill wants filled conserves later =>
        refine ⟨filled, ?_⟩
        by_cases done : x.leavesQty = 0
        · rw [done] at later conserves
          obtain ⟨rfl, rfl⟩ := later.of_zero
          exact .inl ⟨done, Nat.le_of_eq conserves, rfl, fun wants => wants rfl⟩
        · exact .inr ⟨done, conserves, later⟩
  closed := by
    intro o leaves rest keeps done
    rw [keeps, not_ne_iff.mp done, leftOf_zero]
  single := by
    intro o leaves rest keeps
    rw [keeps]
    exact length_leftOf_le _ _
  unseen := fun _ _ keeps => keeps

namespace OrderPhase

variable {clientId : ClientId} {o : OMOrder} {news : List MEClientRequest}
  {answer more : List MEClientResponse} {rest after : List (OrderId × Price × Qty)}

/-- What rests at the exchange is the order of the slot. -/
theorem mem_rest (phase : OrderPhase exchangeMarket clientId o news answer rest)
    {a : OrderId × Price × Qty} (mem : a ∈ rest) :
    o.orderState ≠ .INVALID ∧ a.1 = o.orderId := by
  obtain ⟨-, used, -, leaves, keeps⟩ := phase.keeps_of_ne_nil (List.ne_nil_of_mem mem)
  rw [show rest = leftOf (o.orderId, o.price) leaves from keeps] at mem
  unfold leftOf at mem
  split at mem
  · cases mem
  · rw [List.mem_singleton] at mem
    exact ⟨used, by rw [mem]⟩

/-- An order about which nothing is on its way. -/
theorem of_quiet (phase : OrderPhase exchangeMarket clientId o [] [] rest) :
    ((o.orderState = .INVALID ∨ o.orderState = .DEAD) ∧ rest = []) ∨
    ((o.orderState = .LIVE ∨ o.orderState = .PENDING_CANCEL) ∧
      rest = leftOf (o.orderId, o.price) o.qty) := by
  generalize quiet : ([] : List MEClientResponse) = answer at phase
  cases phase with
  | idle free => exact .inl ⟨free, rfl⟩
  | accepted => cases quiet
  | working known executes keeps =>
      subst quiet
      cases executes
      exact .inr ⟨known, keeps⟩
  | @canceled fills x leaves => cases fills <;> cases quiet

/-- The order is filled by other orders. -/
theorem traded (phase : OrderPhase exchangeMarket clientId o news answer rest)
    (trades : Traded rest more after) :
    OrderPhase exchangeMarket clientId o news (answer ++ more) after := by
  refine phase.executed (fun empty => ?_) fun {fills left} executes keeps => ?_
  · -- Nothing happens to a side on which nothing rests.
    obtain ⟨q', fills, left⟩ := trades (o.orderId, o.price) 0 empty
    obtain ⟨rfl, rfl⟩ := fills.of_zero
    exact ⟨rfl, left⟩
  · obtain ⟨q', fills, left⟩ := trades _ _ keeps
    exact ⟨q', executes.append fills, left⟩

end OrderPhase

end NanoTrade
