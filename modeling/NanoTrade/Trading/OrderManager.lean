import Mathlib.Algebra.Order.Group.Unbundled.Int
import NanoTrade.Exchange.Messages

/-!
# The order manager

`trading/strategy/order_manager.{h,cpp}`, with the risk check in front of it and the position
keeper beside it: one order a ticker and side, which the strategy moves from price to price.

Profits are `double`s. Whether the total of a ticker is below `max_loss_` is an input of the
risk check.
-/

namespace NanoTrade

inductive OMOrderState
  | INVALID
  | PENDING_NEW
  | LIVE
  | PENDING_CANCEL
  | DEAD
  deriving DecidableEq, Repr

structure OMOrder where
  tickerId : TickerId := TickerId_INVALID
  orderId : OrderId := OrderId_INVALID
  side : Side := .INVALID
  price : Price := Price_INVALID
  qty : Qty := Qty_INVALID
  orderState : OMOrderState := .INVALID
  deriving DecidableEq, Repr

/-! ## Positions and risk -/

structure PositionInfo where
  position : Int := 0
  volume : Qty := 0

/-- Process an execution: `position_` is an `int32_t`. -/
def PositionInfo.addFill (p : PositionInfo) (x : MEClientResponse) : PositionInfo :=
  { position := Int.bmod (p.position + x.execQty * sideToValue x.side) (2 ^ 32)
    volume := (p.volume + x.execQty) % 2 ^ 32 }

structure RiskCfg where
  maxOrderSize : Qty := 0
  maxPosition : Qty := 0

inductive RiskCheckResult
  | INVALID
  | ORDER_TOO_LARGE
  | POSITION_TOO_LARGE
  | LOSS_TOO_LARGE
  | ALLOWED
  deriving DecidableEq, Repr

/-- Check risk to see if we are allowed to send an order of the specified quantity on the
specified side. -/
def RiskCfg.checkPreTradeRisk (cfg : RiskCfg) (p : PositionInfo) (lossTooLarge : Bool)
    (side : Side) (qty : Qty) : RiskCheckResult :=
  if qty > cfg.maxOrderSize then .ORDER_TOO_LARGE
  else if |p.position + sideToValue side * Int.bmod qty (2 ^ 32)| >
      Int.bmod cfg.maxPosition (2 ^ 32) then .POSITION_TOO_LARGE
  else if lossTooLarge then .LOSS_TOO_LARGE
  else .ALLOWED

/-! ## Orders -/

structure OrderManager where
  tickerSideOrder : TickerId → Side → OMOrder
  nextOrderId : OrderId

namespace OrderManager

def new : OrderManager :=
  { tickerSideOrder := fun _ _ => {}, nextOrderId := 1 }

/-- Write the order of a ticker and side. -/
def setOrder (s : OrderManager) (tickerId : TickerId) (side : Side) (o : OMOrder) :
    OrderManager :=
  { s with
    tickerSideOrder := Function.update s.tickerSideOrder tickerId
      (Function.update (s.tickerSideOrder tickerId) side o) }

def newRequest (clientId : ClientId) (o : OMOrder) : MEClientRequest :=
  { type := .NEW, clientId, tickerId := o.tickerId, orderId := o.orderId, side := o.side,
    price := o.price, qty := o.qty }

def cancelRequest (clientId : ClientId) (o : OMOrder) : MEClientRequest :=
  { newRequest clientId o with type := .CANCEL }

variable (s : OrderManager) (clientId : ClientId) (tickerId : TickerId) (side : Side)

/-- The order that `newOrder` puts into its slot. -/
def pendingNew (price : Price) (qty : Qty) : OMOrder :=
  { tickerId, orderId := s.nextOrderId, side, price, qty, orderState := .PENDING_NEW }

/-- Send a new order with specified attribute. -/
def newOrder (price : Price) (qty : Qty) : OrderManager × List MEClientRequest :=
  let order := s.pendingNew tickerId side price qty
  ({ s.setOrder tickerId side order with nextOrderId := (s.nextOrderId + 1) % 2 ^ 64 },
    [newRequest clientId order])

/-- Send a cancel for the specified order. -/
def cancelOrder : OrderManager × List MEClientRequest :=
  let order := s.tickerSideOrder tickerId side
  (s.setOrder tickerId side { order with orderState := .PENDING_CANCEL },
    [cancelRequest clientId order])

/-- Move a single order on the specified side so that it has the specified price and quantity.
`check` is the risk check of the ticker. -/
def moveOrder (check : Side → Qty → RiskCheckResult) (price : Price) (qty : Qty) :
    OrderManager × List MEClientRequest :=
  match (s.tickerSideOrder tickerId side).orderState with
  | .LIVE =>
    if (s.tickerSideOrder tickerId side).price ≠ price then s.cancelOrder clientId tickerId side
    else (s, [])
  | .INVALID | .DEAD =>
    if price ≠ Price_INVALID then
      if check side qty = .ALLOWED then s.newOrder clientId tickerId side price qty
      else (s, [])
    else (s, [])
  | .PENDING_NEW | .PENDING_CANCEL => (s, [])

/-- Have orders of quantity clip at the specified buy and sell prices. -/
def moveOrders (check : Side → Qty → RiskCheckResult) (bidPrice askPrice : Price) (clip : Qty) :
    Except Fault (OrderManager × List MEClientRequest) :=
  if tickerId < ME_MAX_TICKERS then
    let (s, bid) := s.moveOrder clientId tickerId .BUY check bidPrice clip
    let (s, ask) := s.moveOrder clientId tickerId .SELL check askPrice clip
    .ok (s, bid ++ ask)
  else .error (.outOfRange tickerId)

/-- What a response makes of an order. -/
def updated (x : MEClientResponse) (o : OMOrder) : OMOrder :=
  match x.type with
  | .ACCEPTED => { o with orderState := .LIVE }
  | .CANCELED => { o with orderState := .DEAD }
  | .FILLED =>
    { o with qty := x.leavesQty, orderState := if x.leavesQty = 0 then .DEAD else o.orderState }
  | .CANCEL_REJECTED | .INVALID => o

/-- Process an order update from a client response and update the state of the orders being
managed. -/
def onOrderUpdate (x : MEClientResponse) : Except Fault OrderManager :=
  if x.tickerId < ME_MAX_TICKERS then
    .ok (s.setOrder x.tickerId x.side (updated x (s.tickerSideOrder x.tickerId x.side)))
  else .error (.outOfRange x.tickerId)

variable {s clientId tickerId side}

theorem setOrder_self (o : OMOrder) :
    (s.setOrder tickerId side o).tickerSideOrder tickerId side = o := by
  simp only [setOrder, Function.update_self]

theorem setOrder_of_ne {ticker : TickerId} {side' : Side} (o : OMOrder)
    (other : ¬ (ticker = tickerId ∧ side' = side)) :
    (s.setOrder tickerId side o).tickerSideOrder ticker side' = s.tickerSideOrder ticker side' := by
  unfold setOrder
  rcases eq_or_ne ticker tickerId with rfl | ne
  · have apart : side' ≠ side := fun same => other ⟨rfl, same⟩
    simp only [Function.update_self, Function.update_of_ne apart]
  · simp only [Function.update_of_ne ne]

section Updated

variable (x : MEClientResponse) (o : OMOrder)

@[simp] theorem updated_orderId : (updated x o).orderId = o.orderId := by
  unfold updated
  split <;> rfl

@[simp] theorem updated_tickerId : (updated x o).tickerId = o.tickerId := by
  unfold updated
  split <;> rfl

@[simp] theorem updated_side : (updated x o).side = o.side := by
  unfold updated
  split <;> rfl

/-- Only an ACCEPTED makes an order live again. -/
theorem updated_asked {x : MEClientResponse} {o : OMOrder}
    (asked : o.orderState = .PENDING_CANCEL ∨ o.orderState = .DEAD) (late : x.type ≠ .ACCEPTED) :
    (updated x o).orderState = .PENDING_CANCEL ∨ (updated x o).orderState = .DEAD := by
  unfold updated
  split
  · rename_i accepted
    exact (late accepted).elim
  · exact .inr rfl
  · by_cases zero : x.leavesQty = 0
    · rw [if_pos zero]
      exact .inr rfl
    · rw [if_neg zero]
      exact asked
  · exact asked
  · exact asked

end Updated

/-- All that a move does: nothing, a cancel of a live order at another price, or a new
order in a free slot behind the risk check. -/
theorem moveOrder_cases (s : OrderManager) (clientId : ClientId) (tickerId : TickerId)
    (side : Side) (check : Side → Qty → RiskCheckResult) (price : Price) (qty : Qty) :
    s.moveOrder clientId tickerId side check price qty = (s, []) ∨
    ((s.tickerSideOrder tickerId side).orderState = .LIVE ∧
      s.moveOrder clientId tickerId side check price qty =
        s.cancelOrder clientId tickerId side) ∨
    (((s.tickerSideOrder tickerId side).orderState = .INVALID ∨
        (s.tickerSideOrder tickerId side).orderState = .DEAD) ∧
      price ≠ Price_INVALID ∧ check side qty = .ALLOWED ∧
      s.moveOrder clientId tickerId side check price qty =
        s.newOrder clientId tickerId side price qty) := by
  unfold moveOrder
  cases state : (s.tickerSideOrder tickerId side).orderState with
  | PENDING_NEW => exact .inl rfl
  | PENDING_CANCEL => exact .inl rfl
  | LIVE =>
      simp only
      split
      · exact .inr (.inl ⟨trivial, rfl⟩)
      · exact .inl rfl
  | INVALID =>
      simp only
      split
      · rename_i wanted
        split
        · rename_i allowed
          exact .inr (.inr ⟨.inl trivial, wanted, allowed, rfl⟩)
        · exact .inl rfl
      · exact .inl rfl
  | DEAD =>
      simp only
      split
      · rename_i wanted
        split
        · rename_i allowed
          exact .inr (.inr ⟨.inr trivial, wanted, allowed, rfl⟩)
        · exact .inl rfl
      · exact .inl rfl

end OrderManager

/-! ## The trade engine -/

/-- The parts of a trade engine through which orders pass. -/
structure TradeEngine where
  clientId : ClientId
  riskCfg : TickerId → RiskCfg
  positionKeeper : TickerId → PositionInfo
  orderManager : OrderManager

namespace TradeEngine

def new (clientId : ClientId) (riskCfg : TickerId → RiskCfg) : TradeEngine :=
  { clientId, riskCfg, positionKeeper := fun _ => {}, orderManager := .new }

/-- `RiskManager::checkPreTradeRisk`. -/
def checkPreTradeRisk (s : TradeEngine) (tickerId : TickerId) (lossTooLarge : Bool) :
    Side → Qty → RiskCheckResult :=
  (s.riskCfg tickerId).checkPreTradeRisk (s.positionKeeper tickerId) lossTooLarge

/-- A call of `moveOrders` by the algorithm, with the requests that it sends. -/
def moveOrders (s : TradeEngine) (tickerId : TickerId) (bidPrice askPrice : Price) (clip : Qty)
    (lossTooLarge : Bool) : Except Fault (TradeEngine × List MEClientRequest) := do
  let (orderManager, sent) ← s.orderManager.moveOrders s.clientId tickerId
    (s.checkPreTradeRisk tickerId lossTooLarge) bidPrice askPrice clip
  pure ({ s with orderManager }, sent)

/-- `PositionKeeper::addFill`. -/
def addFill (s : TradeEngine) (x : MEClientResponse) : Except Fault TradeEngine :=
  if x.tickerId < ME_MAX_TICKERS then
    .ok { s with
      positionKeeper := Function.update s.positionKeeper x.tickerId
        ((s.positionKeeper x.tickerId).addFill x) }
  else .error (.outOfRange x.tickerId)

/-- Process client responses: updates the position keeper and informs the order manager about
the response. -/
def onOrderUpdate (s : TradeEngine) (x : MEClientResponse) : Except Fault TradeEngine := do
  let s ← if x.type = .FILLED then s.addFill x else pure s
  let orderManager ← s.orderManager.onOrderUpdate x
  pure { s with orderManager }

/-- What a response leaves of a trade engine that takes it. -/
def updated (s : TradeEngine) (x : MEClientResponse) : TradeEngine :=
  { s with
    positionKeeper := if x.type = .FILLED then
        Function.update s.positionKeeper x.tickerId ((s.positionKeeper x.tickerId).addFill x)
      else s.positionKeeper
    orderManager := s.orderManager.setOrder x.tickerId x.side
      (OrderManager.updated x (s.orderManager.tickerSideOrder x.tickerId x.side)) }

theorem onOrderUpdate_eq_ok {s s' : TradeEngine} {x : MEClientResponse}
    (updates : s.onOrderUpdate x = .ok s') : s' = s.updated x := by
  unfold onOrderUpdate addFill OrderManager.onOrderUpdate at updates
  by_cases known : x.tickerId < ME_MAX_TICKERS
  · by_cases filled : x.type = .FILLED
    · simp only [known, filled, if_true, bind, Except.bind, pure, Except.pure,
        Except.ok.injEq] at updates
      rw [← updates, updated, if_pos filled]
    · simp only [known, filled, if_true, if_false, bind, Except.bind, pure, Except.pure,
        Except.ok.injEq] at updates
      rw [← updates, updated, if_neg filled]
  · by_cases filled : x.type = .FILLED
    · simp [known, filled, bind, Except.bind] at updates
    · simp [known, filled, bind, Except.bind, pure, Except.pure] at updates

theorem moveOrders_eq_ok {s s' : TradeEngine} {tickerId : TickerId} {bidPrice askPrice : Price}
    {clip : Qty} {lossTooLarge : Bool} {sent : List MEClientRequest}
    (moved : s.moveOrders tickerId bidPrice askPrice clip lossTooLarge = .ok (s', sent)) :
    ∃ bid ask, s.orderManager.moveOrder s.clientId tickerId .BUY
        (s.checkPreTradeRisk tickerId lossTooLarge) bidPrice clip = bid ∧
      bid.1.moveOrder s.clientId tickerId .SELL (s.checkPreTradeRisk tickerId lossTooLarge)
        askPrice clip = ask ∧
      s' = { s with orderManager := ask.1 } ∧ sent = bid.2 ++ ask.2 := by
  unfold moveOrders OrderManager.moveOrders at moved
  by_cases known : tickerId < ME_MAX_TICKERS
  · simp only [known, if_true, bind, Except.bind, pure, Except.pure, Except.ok.injEq,
      Prod.mk.injEq] at moved
    obtain ⟨rfl, rfl⟩ := moved
    exact ⟨_, _, rfl, rfl, rfl, rfl⟩
  · simp [known, bind, Except.bind] at moved

end TradeEngine

end NanoTrade
