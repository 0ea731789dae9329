import Mathlib.Algebra.Order.Group.Abs
import Mathlib.Algebra.Order.Group.Int
import NanoTrade.Trading.Session

/-!
# Positions stay within their limits

The risk check only looks at the position that has been filled. It is enough because a side has
one order at a time: what its order can still be filled counts against the limit (`Limited`).

* `run_position_limit`: one order a side, no order and no fill behind a free slot, and positions
  within the limit, in every reachable state.
-/

namespace NanoTrade

/-- An allowed order fits the limit. -/
theorem RiskCfg.fits_of_allowed {cfg : RiskCfg} {p : PositionInfo} {lossTooLarge : Bool}
    {side : Side} {qty : Qty} (size : cfg.maxOrderSize < 2 ^ 30) (limit : cfg.maxPosition < 2 ^ 30)
    (allowed : cfg.checkPreTradeRisk p lossTooLarge side qty = .ALLOWED) :
    |p.position + sideToValue side * qty| ≤ cfg.maxPosition := by
  have narrow : ∀ q : Qty, q < 2 ^ 30 → Int.bmod q (2 ^ 32) = q := by
    intro q small
    exact Int.bmod_eq_of_le (by lia) (by lia)
  unfold checkPreTradeRisk at allowed
  split at allowed
  · cases allowed
  · rename_i fits
    rw [narrow cfg.maxPosition limit, narrow qty (by lia)] at allowed
    split at allowed
    · cases allowed
    · rename_i within
      exact Int.not_lt.mp within

/-! ## The trade engine -/

namespace TradeEngine

def position (e : TradeEngine) (tickerId : TickerId) : Int :=
  (e.positionKeeper tickerId).position

/-- The order slot of a side. -/
def slot (e : TradeEngine) (tickerId : TickerId) (side : BookSide) : OMOrder :=
  e.orderManager.tickerSideOrder tickerId side.toSide

/-- The position with all that the order of a side can still be filled is within the limit,
in the direction of the side. -/
structure Limited (riskCfg : TickerId → RiskCfg) (e : TradeEngine) : Prop where
  cfg : e.riskCfg = riskCfg
  within : ∀ tickerId (side : BookSide), sideToValue side.toSide * e.position tickerId +
    (e.slot tickerId side).outstanding ≤ (riskCfg tickerId).maxPosition

variable {riskCfg : TickerId → RiskCfg} {e : TradeEngine} {tickerId : TickerId} {side : BookSide}
  {x : MEClientResponse}

theorem Limited.new (clientId : ClientId) (riskCfg : TickerId → RiskCfg) :
    (TradeEngine.new clientId riskCfg).Limited riskCfg := by
  refine ⟨rfl, fun tickerId side => ?_⟩
  have flat : (TradeEngine.new clientId riskCfg).position tickerId = 0 := rfl
  have free : ((TradeEngine.new clientId riskCfg).slot tickerId side).outstanding = 0 := rfl
  rw [flat, free, mul_zero, Nat.cast_zero, add_zero]
  exact Int.natCast_nonneg _

theorem Limited.long (limited : e.Limited riskCfg) (tickerId : TickerId) :
    e.position tickerId + (e.slot tickerId .bid).outstanding ≤ (riskCfg tickerId).maxPosition := by
  have within := limited.within tickerId .bid
  rwa [BookSide.toSide, sideToValue, one_mul] at within

theorem Limited.short (limited : e.Limited riskCfg) (tickerId : TickerId) :
    -((riskCfg tickerId).maxPosition : Int) ≤
      e.position tickerId - (e.slot tickerId .ask).outstanding := by
  have within := limited.within tickerId .ask
  simp only [BookSide.toSide, sideToValue] at within
  lia

theorem Limited.limit (limited : e.Limited riskCfg) (tickerId : TickerId) :
    |e.position tickerId| ≤ (riskCfg tickerId).maxPosition := by
  have long := limited.long tickerId
  have short := limited.short tickerId
  exact abs_le.mpr ⟨by lia, by lia⟩

/-- The slot of one side is set to an order that fits. -/
theorem Limited.setOrder {manager : OrderManager} {o : OMOrder} (limited : e.Limited riskCfg)
    (writes : manager.tickerSideOrder =
      (e.orderManager.setOrder tickerId side.toSide o).tickerSideOrder)
    (fits : sideToValue side.toSide * e.position tickerId + o.outstanding ≤
      (riskCfg tickerId).maxPosition) :
    Limited riskCfg { e with orderManager := manager } := by
  refine ⟨limited.cfg, fun t side' => ?_⟩
  have slot : ({ e with orderManager := manager } : TradeEngine).slot t side' =
      (e.orderManager.setOrder tickerId side.toSide o).tickerSideOrder t side'.toSide :=
    congrFun (congrFun writes t) side'.toSide
  rw [slot]
  rcases Session.slot_cases t tickerId side' side with ⟨rfl, rfl⟩ | apart
  · rw [OrderManager.setOrder_self]
    exact fits
  · rw [OrderManager.setOrder_of_ne o apart]
    exact limited.within t side'

/-- A move of one order. -/
theorem Limited.moveOrder (limited : e.Limited riskCfg)
    (limits : ∀ tickerId, (riskCfg tickerId).maxOrderSize < 2 ^ 30 ∧
      (riskCfg tickerId).maxPosition < 2 ^ 30) (tickerId : TickerId) (side : BookSide)
    (lossTooLarge : Bool) (price : Price) (qty : Qty) :
    Limited riskCfg { e with orderManager := (e.orderManager.moveOrder e.clientId tickerId
      side.toSide (e.checkPreTradeRisk tickerId lossTooLarge) price qty).1 } := by
  rcases OrderManager.moveOrder_cases e.orderManager e.clientId tickerId side.toSide
    (e.checkPreTradeRisk tickerId lossTooLarge) price qty with
    nothing | ⟨live, cancels⟩ | ⟨free, -, allowed, sends⟩
  · rw [nothing]
    exact limited
  · rw [cancels]
    have same :
        ({ e.slot tickerId side with orderState := .PENDING_CANCEL } : OMOrder).outstanding =
          (e.slot tickerId side).outstanding := by
      simp [OMOrder.outstanding, show (e.slot tickerId side).orderState = .LIVE from live]
    refine limited.setOrder (o := { e.slot tickerId side with orderState := .PENDING_CANCEL })
      rfl ?_
    rw [same]
    exact limited.within tickerId side
  · rw [sends]
    unfold checkPreTradeRisk at allowed
    rw [limited.cfg] at allowed
    have fits := RiskCfg.fits_of_allowed (limits tickerId).1 (limits tickerId).2 allowed
    refine limited.setOrder rfl ?_
    obtain ⟨low, high⟩ := abs_le.mp fits
    have wants : (e.orderManager.pendingNew tickerId side.toSide price qty).outstanding = qty := rfl
    rw [wants, position]
    cases side with
    | bid =>
        simp only [BookSide.toSide, sideToValue] at high ⊢
        lia
    | ask =>
        simp only [BookSide.toSide, sideToValue] at low ⊢
        lia

theorem updated_position (e : TradeEngine) (x : MEClientResponse) (tickerId : TickerId) :
    (e.updated x).position tickerId = if x.type = .FILLED ∧ tickerId = x.tickerId then
      Int.bmod (e.position tickerId + x.execQty * sideToValue x.side) (2 ^ 32)
    else e.position tickerId := by
  unfold position TradeEngine.updated
  by_cases filled : x.type = .FILLED
  · by_cases here : tickerId = x.tickerId
    · subst here
      simp only [filled, true_and, if_true, Function.update_self, PositionInfo.addFill]
    · simp only [filled, here, and_false, if_true, if_false, Function.update_of_ne here]
  · simp only [filled, false_and, if_false]

/-- A fill of an order within the limit does not take the position out of its type. -/
theorem Limited.fill_exact (limited : e.Limited riskCfg)
    (limit : (riskCfg x.tickerId).maxPosition < 2 ^ 30) (sided : x.side = side.toSide)
    (most : x.execQty ≤ (e.slot x.tickerId side).outstanding) :
    Int.bmod (e.position x.tickerId + x.execQty * sideToValue x.side) (2 ^ 32) =
      e.position x.tickerId + x.execQty * sideToValue x.side := by
  have long := limited.long x.tickerId
  have short := limited.short x.tickerId
  cases side with
  | bid =>
      simp only [sided, BookSide.toSide, sideToValue, Int.mul_one]
      exact Int.bmod_eq_of_le (by lia) (by lia)
  | ask =>
      simp only [sided, BookSide.toSide, sideToValue, Int.mul_neg, Int.mul_one]
      exact Int.bmod_eq_of_le (by lia) (by lia)

/-- A response of an order: what it fills moves from the order to the position. -/
theorem Limited.updated (limited : e.Limited riskCfg)
    (limits : ∀ tickerId, (riskCfg tickerId).maxPosition < 2 ^ 30) (sided : x.side = side.toSide)
    (taken : (OrderManager.updated x (e.slot x.tickerId side)).outstanding +
      (if x.type = .FILLED then x.execQty else 0) ≤ (e.slot x.tickerId side).outstanding) :
    (e.updated x).Limited riskCfg := by
  have read : (e.updated x).slot x.tickerId side =
      OrderManager.updated x (e.slot x.tickerId side) := by
    simp only [slot, TradeEngine.updated, ← sided]
    exact OrderManager.setOrder_self _
  have other : ∀ {t : TickerId} {side' : BookSide}, ¬ (t = x.tickerId ∧ side' = side) →
      (e.updated x).slot t side' = e.slot t side' := by
    intro t side' apart
    refine OrderManager.setOrder_of_ne _ fun here => apart ⟨here.1, ?_⟩
    exact BookSide.toSide_inj.mp (here.2.trans sided)
  have position : (e.updated x).position x.tickerId = e.position x.tickerId +
      sideToValue side.toSide * (if x.type = .FILLED then x.execQty else 0 : Qty) := by
    rw [updated_position]
    by_cases filled : x.type = .FILLED
    · rw [if_pos filled] at taken
      rw [if_pos ⟨filled, rfl⟩, if_pos filled,
        limited.fill_exact (limits x.tickerId) sided ((Nat.le_add_left _ _).trans taken), sided,
        mul_comm]
    · rw [if_neg fun now => filled now.1, if_neg filled, Nat.cast_zero, mul_zero, add_zero]
  generalize (if x.type = .FILLED then x.execQty else 0) = fill at taken position
  refine ⟨limited.cfg, fun t side' => ?_⟩
  rcases eq_or_ne t x.tickerId with rfl | ne
  · rw [position]
    rcases eq_or_ne side' side with rfl | apart
    · rw [read]
      have here := limited.within x.tickerId side'
      cases side' with
      | bid =>
          simp only [BookSide.toSide, sideToValue] at here ⊢
          lia
      | ask =>
          simp only [BookSide.toSide, sideToValue] at here ⊢
          lia
    · obtain rfl := BookSide.eq_opposite_of_ne apart
      rw [other fun now => apart now.2]
      have across := limited.within x.tickerId side.opposite
      cases side with
      | bid =>
          simp only [BookSide.toSide, BookSide.opposite, sideToValue] at across ⊢
          lia
      | ask =>
          simp only [BookSide.toSide, BookSide.opposite, sideToValue] at across ⊢
          lia
  · rw [updated_position, if_neg fun now => ne now.2, other fun now => ne now.1]
    exact limited.within t side'

/-- A rejected CANCEL changes neither a position nor an order. -/
theorem Limited.rejected (limited : e.Limited riskCfg) (rejected : x.type = .CANCEL_REJECTED) :
    (e.updated x).Limited riskCfg := by
  refine ⟨limited.cfg, fun t side => ?_⟩
  have same : (e.updated x).slot t side = e.slot t side := by
    by_cases here : t = x.tickerId ∧ side.toSide = x.side
    · obtain ⟨rfl, sided⟩ := here
      simp only [slot, TradeEngine.updated, sided, OrderManager.setOrder_self,
        OrderManager.updated, rejected]
    · exact OrderManager.setOrder_of_ne _ here
  rw [updated_position, if_neg (by simp [rejected]), same]
  exact limited.within t side

end TradeEngine

namespace Session

def position (s : Session) (tickerId : TickerId) : Int :=
  (s.tradeEngine.positionKeeper tickerId).position

variable {clientId : ClientId} {riskCfg : TickerId → RiskCfg}
  {tickerBasePrices : TickerId → Price} {refs : TickerId → RefBook} {s s' : Session}
  {out : List MEMessage}

/-- What the next response of an order takes from it. -/
theorem Joint.taken {x : MEClientResponse} {rest : List MEClientResponse} {side : BookSide}
    (joint : Joint clientId tickerBasePrices refs s) (front : s.clientResponses = x :: rest)
    (sided : x.side = side.toSide) :
    (OrderManager.updated x (s.slot x.tickerId side)).outstanding +
      (if x.type = .FILLED then x.execQty else 0) ≤ (s.slot x.tickerId side).outstanding := by
  have phase := joint.phase x.tickerId side
  rw [undelivered_self front side sided] at phase
  exact phase.outstanding_updated

/-- One step. -/
theorem limited_step {i : SessionInput} (limited : s.tradeEngine.Limited riskCfg)
    (joint : Joint clientId tickerBasePrices refs s)
    (limits : ∀ tickerId, (riskCfg tickerId).maxOrderSize < 2 ^ 30 ∧
      (riskCfg tickerId).maxPosition < 2 ^ 30)
    (stepped : s.step i = .ok (s', out)) : s'.tradeEngine.Limited riskCfg := by
  -- A request does not touch the trade engine.
  have serve : ∀ {r requests},
      { s with clientRequests := requests }.serve r = .ok (s', out) →
      s'.tradeEngine.Limited riskCfg := by
    intro r requests served
    obtain ⟨book, -, rfl⟩ := serve_eq_ok served
    exact limited
  cases i with
  | moveOrders tickerId bidPrice askPrice clip lossTooLarge =>
      obtain rfl := step_moveOrders stepped
      exact (limited.moveOrder limits tickerId .bid lossTooLarge bidPrice clip).moveOrder limits
        tickerId .ask lossTooLarge askPrice clip
  | deliver =>
      rcases step_deliver stepped with rfl | ⟨x, rest, front, rfl⟩
      · exact limited
      · rcases joint.responses x (by rw [front]; exact List.mem_cons_self) with
          rejected | ⟨side, sided⟩
        · exact limited.rejected rejected
        · exact limited.updated (fun tickerId => (limits tickerId).2) sided
            (joint.taken front sided)
  | process =>
      rcases step_process stepped with rfl | ⟨r, rest, -, served⟩
      · exact limited
      · exact serve served
  | foreign r => exact serve stepped

/-! ## Whole runs -/

/-- **Position limit safety** of a strategy client, in every state that is reached in any
interleaving of its calls of `moveOrders`, of its requests, of the requests of others, whose
orders are for BUY or SELL, and of the deliveries of responses. -/
theorem run_position_limit (clientId : ClientId) (riskCfg : TickerId → RiskCfg)
    (tickerBasePrices : TickerId → Price)
    (limits : ∀ tickerId, (riskCfg tickerId).maxOrderSize < 2 ^ 30 ∧
      (riskCfg tickerId).maxPosition < 2 ^ 30) (inputs : List SessionInput)
    (admits : Admits (Admissible clientId) step (Session.new clientId riskCfg tickerBasePrices)
      inputs)
    (s : Session) (out : List MEMessage)
    (ran : run step (Session.new clientId riskCfg tickerBasePrices) inputs = .ok (s, out))
    (tickerId : TickerId) :
    (∀ side, (s.newsInFlight tickerId side).length +
        ((s.exchange.tickerOrderBook tickerId).restingOf clientId side).length ≤ 1 ∧
      ((s.slot tickerId side).orderState = .INVALID ∨ (s.slot tickerId side).orderState = .DEAD →
        (s.exchange.tickerOrderBook tickerId).restingOf clientId side = [] ∧
          ∀ x ∈ s.undelivered tickerId side, x.type ≠ .FILLED)) ∧
      |s.position tickerId| ≤ (riskCfg tickerId).maxPosition := by
  obtain ⟨⟨refs, joint⟩, limited⟩ := admits_invariant
    (P := fun s => (∃ refs, Joint clientId tickerBasePrices refs s) ∧
      s.tradeEngine.Limited riskCfg)
    ⟨⟨_, Joint.new clientId riskCfg tickerBasePrices⟩, .new clientId riskCfg⟩
    (fun {t i u now} before admissible stepped => by
      obtain ⟨⟨refs, joint⟩, limited⟩ := before
      exact ⟨joint.step admissible stepped, limited_step limited joint limits stepped⟩)
    admits ran
  refine ⟨fun side => ?_, limited.limit tickerId⟩
  have phase := joint.phase tickerId side
  have count := (joint.refines tickerId).length_restingOf clientId side
  refine ⟨?_, fun free => ?_⟩
  · rw [count]
    exact phase.single
  · obtain ⟨-, silent, noOrder⟩ := phase.of_free free
    rw [noOrder] at count
    rw [silent]
    exact ⟨List.eq_nil_of_length_eq_zero count, fun x mem => absurd mem List.not_mem_nil⟩

/-- A bid that is filled in part while it is being cancelled, and an offer at another price. -/
theorem run_position_limit_racing :
    ∃ s out, run step (Session.new 1 (fun _ => ⟨10, 20⟩) fun _ => 0)
        [.moveOrders 0 100 105 10 false, .process, .process, .deliver, .deliver,
          .moveOrders 0 99 105 10 false, .foreign ⟨.NEW, 2, 0, 1, .SELL, 100, 4⟩, .process,
          .deliver, .deliver, .moveOrders 0 99 105 10 false] = .ok (s, out) ∧
      (∀ side, (s.newsInFlight 0 side).length +
          ((s.exchange.tickerOrderBook 0).restingOf 1 side).length ≤ 1 ∧
        ((s.slot 0 side).orderState = .INVALID ∨ (s.slot 0 side).orderState = .DEAD →
          (s.exchange.tickerOrderBook 0).restingOf 1 side = [] ∧
            ∀ x ∈ s.undelivered 0 side, x.type ≠ .FILLED)) ∧
        |s.position 0| ≤ 20 := by
  obtain ⟨s, out, ran, -⟩ := run_of_read step (Session.new 1 (fun _ => ⟨10, 20⟩) fun _ => 0)
    [.moveOrders 0 100 105 10 false, .process, .process, .deliver, .deliver,
      .moveOrders 0 99 105 10 false, .foreign ⟨.NEW, 2, 0, 1, .SELL, 100, 4⟩, .process,
      .deliver, .deliver, .moveOrders 0 99 105 10 false] (fun _ => ()) () (by decide +kernel)
  exact ⟨s, out, ran, run_position_limit 1 (fun _ => ⟨10, 20⟩) (fun _ => 0)
    (fun _ => ⟨by decide, by decide⟩) _ (by decide +kernel) s out ran 0⟩

/-- A bid of the client joins the order of side INVALID of another one among the asks. Where it is
cancelled as the last of them it stays their best order, and fills once more. -/
def unsided : List SessionInput :=
  [.foreign ⟨.NEW, 2, 0, 1, .SELL, 105, 1⟩, .foreign ⟨.NEW, 2, 0, 2, .INVALID, 100, 1⟩,
    .moveOrders 0 100 Price_INVALID 10 false, .process, .deliver,
    .foreign ⟨.CANCEL, 2, 0, 1, .SELL, 105, 1⟩, .foreign ⟨.CANCEL, 2, 0, 2, .SELL, 100, 1⟩,
    .moveOrders 0 99 Price_INVALID 10 false, .process, .deliver,
    .moveOrders 0 99 Price_INVALID 10 false, .process, .deliver,
    .foreign ⟨.NEW, 2, 0, 3, .SELL, 99, 10⟩, .deliver, .foreign ⟨.NEW, 2, 0, 4, .BUY, 100, 4⟩,
    .deliver]

/-- With an order of another client that is neither for BUY nor for SELL the position passes its
limit: it is 14 where 10 is the most. -/
theorem not_run_position_limit_unsided :
    ¬ ∀ inputs : List SessionInput,
      (∀ r, .foreign r ∈ inputs → r.clientId ≠ 1 ∧ r.clientId < ME_MAX_NUM_CLIENTS ∧
        r.orderId < ME_MAX_ORDER_IDS ∧ r.tickerId < ME_MAX_TICKERS ∧ InWindow 0 r.price) →
      Admits (fun s _ => s.tradeEngine.orderManager.nextOrderId ≤ ME_MAX_ORDER_IDS) step
        (Session.new 1 (fun _ => ⟨10, 10⟩) fun _ => 0) inputs →
      ∀ s out, run step (Session.new 1 (fun _ => ⟨10, 10⟩) fun _ => 0) inputs = .ok (s, out) →
        |s.position 0| ≤ 10 := by
  intro always
  obtain ⟨s, out, ran, position⟩ := run_of_read step (Session.new 1 (fun _ => ⟨10, 10⟩) fun _ => 0)
    unsided (fun result => result.1.position 0) 14 (by decide +kernel)
  have inTables : ∀ r, .foreign r ∈ unsided → r.clientId ≠ 1 ∧ r.clientId < ME_MAX_NUM_CLIENTS ∧
      r.orderId < ME_MAX_ORDER_IDS ∧ r.tickerId < ME_MAX_TICKERS ∧ InWindow 0 r.price := by
    intro r mem
    simp only [unsided, List.mem_cons, SessionInput.foreign.injEq, reduceCtorEq, List.not_mem_nil,
      false_or, or_false] at mem
    rcases mem with rfl | rfl | rfl | rfl | rfl | rfl <;> decide
  have limit := always unsided inTables (by decide +kernel) s out ran
  rw [position] at limit
  exact absurd limit (by decide)

end Session

end NanoTrade
