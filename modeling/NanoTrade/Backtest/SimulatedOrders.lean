import NanoTrade.Backtest.FillSimulator
import NanoTrade.Trading.OrderPhase

/-!
# The phases of an order at the fill simulator

The fill simulator is a market (`simulatorMarket`) in which an aggressive fill ends an order, also
where the best prices had less than the order wanted; a CANCEL of an order that is gone is
rejected, which the order manager does not look at.

* `walk_slot`: a walk over the pending orders, as the orders of one side of one ticker see it.
* `SimPhase.walked`, `SimPhase.enter`, `SimPhase.withdraw`: what a walk and a request do to the
  phase of an order.
-/

namespace NanoTrade

/-- The fills of an order that wants `qty`, and what is left of it at the simulator, if it is
still pending. The last fill may be for less than what was left. -/
inductive Executes : Qty → List MEClientResponse → Option Qty → Prop
  | pending (qty) : Executes qty [] (some qty)
  | part {qty x xs left} (filled : x.type = .FILLED) (more : x.leavesQty ≠ 0)
      (conserves : x.execQty + x.leavesQty = qty) (later : Executes x.leavesQty xs left) :
      Executes qty (x :: xs) left
  | last {qty x} (filled : x.type = .FILLED) (gone : x.leavesQty = 0) (most : x.execQty ≤ qty) :
      Executes qty [x] none

theorem Executes.append {q m : Qty} {xs ys : List MEClientResponse} {left : Option Qty}
    (first : Executes q xs (some m)) (second : Executes m ys left) :
    Executes q (xs ++ ys) left := by
  generalize still : some m = front at first
  induction first with
  | pending =>
      cases still
      exact second
  | part filled more conserves later ih => exact .part filled more conserves (ih still)
  | last => cases still

/-- What a visit makes of a pending order: it keeps it, fills a part of it, or fills it for the
last time. -/
inductive FillSimulator.Executed (po : PendingOrder) :
    Option PendingOrder × Option MEClientResponse → Prop
  | keeps {po' : PendingOrder} (req : po'.req = po.req) (leaves : po'.leavesQty = po.leavesQty) :
      Executed po (some po', none)
  | part {po' : PendingOrder} {x : MEClientResponse} (req : po'.req = po.req)
      (ticker : x.tickerId = po.req.tickerId) (side : x.side = po.req.side)
      (filled : x.type = .FILLED) (more : x.leavesQty ≠ 0) (left : x.leavesQty = po'.leavesQty)
      (conserves : x.execQty + x.leavesQty = po.leavesQty) : Executed po (some po', some x)
  | last {x : MEClientResponse} (ticker : x.tickerId = po.req.tickerId)
      (side : x.side = po.req.side) (filled : x.type = .FILLED) (gone : x.leavesQty = 0)
      (most : x.execQty ≤ po.leavesQty) : Executed po (none, some x)

namespace FillSimulator

/-! ## Visits -/

/-- A market event at the simulator. -/
theorem visitMarketEvent_executed (ev : MEMarketUpdate) (po : PendingOrder) (id : OrderId) :
    Executed po (visitMarketEvent ev po id) := by
  unfold visitMarketEvent
  split
  · split
    · unfold onTrade
      simp only
      generalize (if ev.priority ≤ po.priorityWatermark then min ev.qty po.queueAheadQty else 0)
        = consumedAhead
      split
      · have most := Nat.min_le_left po.leavesQty (ev.qty - consumedAhead)
        by_cases last : po.leavesQty - min po.leavesQty (ev.qty - consumedAhead) = 0
        · rw [if_pos last]
          exact .last rfl rfl rfl last most
        · rw [if_neg last]
          refine .part rfl rfl rfl rfl last rfl ?_
          exact Nat.add_sub_cancel' most
      · exact .keeps rfl rfl
    · unfold onCancel
      split
      · exact .keeps rfl rfl
      · exact .keeps rfl rfl
    · exact .keeps rfl rfl
  · exact .keeps rfl rfl

/-- An aggressive fill is the last one of its order. -/
theorem tryAggressiveFill_executed {po : PendingOrder} {cur : BBO} {id : OrderId}
    {x : MEClientResponse} (filled : tryAggressiveFill po.req cur po.leavesQty id = some x) :
    Executed po (none, some x) := by
  unfold tryAggressiveFill at filled
  simp only at filled
  split at filled
  · split at filled
    · cases filled
    · cases filled
      exact .last rfl rfl rfl rfl (Nat.min_le_left _ _)
  · split at filled
    · split at filled
      · cases filled
      · cases filled
        exact .last rfl rfl rfl rfl (Nat.min_le_left _ _)
    · cases filled

/-- A pass over the best prices at the simulator. -/
theorem visitBbo_executed (mode : FillMode) (watermark : Priority) (cur : BBO)
    (seen : OrderId → BBO) (po : PendingOrder) (id : OrderId) :
    Executed po (visitBbo mode watermark cur seen po id) := by
  unfold visitBbo
  split
  · split
    · rename_i x filled
      exact tryAggressiveFill_executed filled
    · unfold takePosition
      split
      · exact .keeps rfl rfl
      · exact .keeps rfl rfl
  · exact .keeps rfl rfl

/-! ## One side of one ticker -/

/-- The pending orders of a side of a ticker. -/
def pendingOf (pending : List PendingOrder) (tickerId : TickerId) (side : Side) :
    List PendingOrder :=
  pending.filter fun po => po.req.tickerId = tickerId ∧ po.req.side = side

/-- The responses for a side of a ticker that the order manager looks at. -/
def toldOf (answers : List MEClientResponse) (tickerId : TickerId) (side : Side) :
    List MEClientResponse :=
  answers.filter fun x => x.type ≠ .CANCEL_REJECTED ∧ x.tickerId = tickerId ∧ x.side = side

theorem toldOf_append (answers more : List MEClientResponse) (tickerId : TickerId) (side : Side) :
    toldOf (answers ++ more) tickerId side =
      toldOf answers tickerId side ++ toldOf more tickerId side :=
  List.filter_append ..

/-- What a visit makes of an order stays with its side and ticker. -/
theorem Executed.filter {po : PendingOrder} {made : Option PendingOrder × Option MEClientResponse}
    (executed : Executed po made) (tickerId : TickerId) (side : Side) :
    pendingOf made.1.toList tickerId side =
        (if po.req.tickerId = tickerId ∧ po.req.side = side then made.1.toList else []) ∧
      toldOf made.2.toList tickerId side =
        if po.req.tickerId = tickerId ∧ po.req.side = side then made.2.toList else [] := by
  have kept : ∀ {po' : PendingOrder}, po'.req = po.req →
      pendingOf [po'] tickerId side =
        if po.req.tickerId = tickerId ∧ po.req.side = side then [po'] else [] := by
    intro po' req
    rw [pendingOf, List.filter_singleton, req, Bool.cond_decide]
  have told : ∀ {x : MEClientResponse}, x.tickerId = po.req.tickerId → x.side = po.req.side →
      x.type = .FILLED → toldOf [x] tickerId side =
        if po.req.tickerId = tickerId ∧ po.req.side = side then [x] else [] := by
    intro x ticker sided filled
    rw [toldOf, List.filter_singleton, ticker, sided, filled]
    simp
  cases executed with
  | keeps req => exact ⟨kept req, (ite_self _).symm⟩
  | part req ticker sided filled => exact ⟨kept req, told ticker sided filled⟩
  | last ticker sided filled => exact ⟨(ite_self _).symm, told ticker sided filled⟩

/-- A walk, as one side of one ticker sees it: a walk over its own orders. -/
theorem walk_slot {visit : Visit} (executes : ∀ po id, Executed po (visit po id))
    (pending : List PendingOrder) (id : OrderId) (tickerId : TickerId) (side : Side) :
    ∃ visits : List (PendingOrder × OrderId),
      visits.map Prod.fst = pendingOf pending tickerId side ∧
      pendingOf (walk visit pending id).1 tickerId side =
        (visits.flatMap fun v => (visit v.1 v.2).1.toList) ∧
      toldOf (walk visit pending id).2 tickerId side =
        visits.flatMap fun v => (visit v.1 v.2).2.toList := by
  induction pending generalizing id with
  | nil => exact ⟨[], rfl, rfl, rfl⟩
  | cons po rest ih =>
      obtain ⟨visits, among, kept, told⟩ := ih (advance id (visit po id).2.toList.length)
      obtain ⟨keptHere, toldHere⟩ := (executes po id).filter tickerId side
      rw [walk_cons]
      have split : ∀ first later, pendingOf (first ++ later) tickerId side =
          pendingOf first tickerId side ++ pendingOf later tickerId side :=
        fun first later => List.filter_append ..
      by_cases here : po.req.tickerId = tickerId ∧ po.req.side = side
      · rw [if_pos here] at keptHere toldHere
        refine ⟨(po, id) :: visits, ?_, ?_, ?_⟩
        · rw [pendingOf, List.filter_cons_of_pos (by simpa using here), List.map_cons, among]
          rfl
        · rw [split, keptHere, kept, List.flatMap_cons]
        · rw [toldOf_append, toldHere, told, List.flatMap_cons]
      · rw [if_neg here] at keptHere toldHere
        refine ⟨visits, ?_, ?_, ?_⟩
        · rw [pendingOf, List.filter_cons_of_neg (by simpa using here), among]
          rfl
        · rw [split, keptHere, kept, List.nil_append]
        · rw [toldOf_append, toldHere, told, List.nil_append]

/-- What a walk makes of at most one order. -/
inductive Walked : List PendingOrder → List PendingOrder × List MEClientResponse → Prop
  | empty : Walked [] ([], [])
  | one {po made} (executed : Executed po made) : Walked [po] (made.1.toList, made.2.toList)

theorem walked_slot {visit : Visit} (executes : ∀ po id, Executed po (visit po id))
    (pending : List PendingOrder) (id : OrderId) {tickerId : TickerId} {side : Side}
    (few : (pendingOf pending tickerId side).length ≤ 1) :
    Walked (pendingOf pending tickerId side)
      (pendingOf (walk visit pending id).1 tickerId side,
        toldOf (walk visit pending id).2 tickerId side) := by
  obtain ⟨visits, among, kept, told⟩ := walk_slot executes pending id tickerId side
  rw [kept, told]
  rw [← among] at few ⊢
  match visits with
  | [] => exact .empty
  | [v] =>
      simp only [List.flatMap_cons, List.flatMap_nil, List.append_nil]
      exact .one (executes v.1 v.2)
  | v :: v' :: more => simp at few

end FillSimulator

/-! ## Phases -/

/-- What the simulator keeps of an order of which this is left: nothing, or the NEW that was sent
for it with the rest of its quantity. -/
def SimKeeps (clientId : ClientId) (o : OMOrder) : Option Qty → List PendingOrder → Prop
  | none, rest => rest = []
  | some qty, rest => ∃ po sent, rest = [po] ∧ po.leavesQty = qty ∧
      po.req = OrderManager.newRequest clientId { o with qty := sent }

/-- The fill simulator as a market. -/
def simulatorMarket (clientId : ClientId) : OrderMarket (Option Qty) PendingOrder where
  Executes := Executes
  Keeps := SimKeeps clientId
  Open left := left ≠ none
  cons := by
    intro qty x xs left executes
    cases executes with
    | part filled more conserves later => exact ⟨filled, .inr ⟨more, conserves, later⟩⟩
    | last filled gone most => exact ⟨filled, .inl ⟨gone, most, rfl, fun wants => wants rfl⟩⟩
  closed := by
    intro o left rest keeps done
    rw [not_ne_iff.mp done] at keeps
    exact keeps
  single := by
    intro o left rest keeps
    cases left with
    | none =>
        rw [show rest = [] from keeps]
        exact Nat.zero_le 1
    | some qty =>
        obtain ⟨po, sent, rfl, -⟩ := keeps
        exact Nat.le_refl 1
  unseen := by
    intro o left rest state qty keeps
    cases left with
    | none => exact keeps
    | some rests =>
        obtain ⟨po, sent, one, leaves, req⟩ := keeps
        exact ⟨po, sent, one, leaves, req⟩

/-- How an order of a client stands at the simulator. -/
abbrev SimPhase (clientId : ClientId) (o : OMOrder) : List MEClientRequest →
    List MEClientResponse → List PendingOrder → Prop :=
  OrderPhase (simulatorMarket clientId) clientId o

namespace SimPhase

variable {clientId : ClientId} {o : OMOrder} {news : List MEClientRequest}
  {told more : List MEClientResponse} {rest after : List PendingOrder} {r : MEClientRequest}
  {x : MEClientResponse}

/-- What is pending is the order of the slot. -/
theorem mem_rest (phase : SimPhase clientId o news told rest) {po : PendingOrder}
    (mem : po ∈ rest) : rest = [po] ∧ o.orderState ≠ .INVALID ∧ o.orderState ≠ .DEAD ∧
      ∃ sent, po.req = OrderManager.newRequest clientId { o with qty := sent } := by
  obtain ⟨-, used, alive, left, keeps⟩ := phase.keeps_of_ne_nil (List.ne_nil_of_mem mem)
  cases left with
  | none =>
      rw [show rest = [] from keeps] at mem
      cases mem
  | some qty =>
      obtain ⟨po', sent, rfl, -, req⟩ := keeps
      cases List.mem_singleton.mp mem
      exact ⟨rfl, used, alive, sent, req⟩

/-- At most one order is pending. -/
theorem length_rest (phase : SimPhase clientId o news told rest) : rest.length ≤ 1 :=
  (Nat.le_add_left _ _).trans phase.single

/-- A walk over the order that is pending. -/
theorem walked (phase : SimPhase clientId o news told rest)
    (walk : FillSimulator.Walked rest (after, more)) :
    SimPhase clientId o news (told ++ more) after := by
  refine phase.executed ?_ fun {fills left} executes keeps => ?_
  · rintro rfl
    cases walk
    exact ⟨rfl, rfl⟩
  · -- The fills of an order that is still pending go on.
    cases left with
    | none =>
        obtain rfl : rest = [] := keeps
        cases walk
        rw [List.append_nil]
        exact ⟨none, executes, rfl⟩
    | some left =>
        obtain ⟨po, sent, rfl, leaves, req⟩ := keeps
        cases walk with
        | one executed =>
            cases executed with
            | @keeps po' same left =>
                rw [Option.toList_none, List.append_nil]
                exact ⟨_, executes, po', sent, rfl, left.trans leaves, same.trans req⟩
            | @part po' x same ticker side filled more leavesNow conserves =>
                refine ⟨some x.leavesQty, Executes.append executes ?_, po', sent, rfl,
                  leavesNow.symm, same.trans req⟩
                exact .part filled more (conserves.trans leaves) (.pending _)
            | last ticker side filled gone most =>
                refine ⟨none, Executes.append executes (.last filled gone ?_), rfl⟩
                exact most.trans (Nat.le_of_eq leaves)

/-- The NEW reaches the simulator. -/
theorem enter (phase : SimPhase clientId o (r :: news) told rest) (ack : x.type = .ACCEPTED)
    (bbo : BBO) : SimPhase clientId o news (told ++ [x])
      (rest ++ [{ req := r, bboAtSubmit := bbo, leavesQty := r.qty }]) := by
  obtain ⟨-, -, -, -, rfl⟩ := phase.of_news
  refine OrderPhase.enter phase ack (.pending r.qty) fun named => ?_
  exact ⟨_, o.qty, rfl, rfl, named⟩

end SimPhase

end NanoTrade
