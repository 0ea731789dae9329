import NanoTrade.Exchange.Messages
import NanoTrade.LevelBook

/-!
# The order book of a trading client

`trading/strategy/market_order_book.h` and `.cpp`: the book that a client builds from
the market updates, with its best prices. A call returns what it hands on to the
trade engine.
-/

namespace NanoTrade

/-- `BBO`, with the quantities at the best prices. -/
structure BBO where
  bidPrice : Price
  askPrice : Price
  bidQty : Qty
  askQty : Qty
  deriving DecidableEq, Repr

/-- `BBO()`. -/
def BBO.default : BBO :=
  { bidPrice := Price_INVALID, askPrice := Price_INVALID, bidQty := Qty_INVALID,
    askQty := Qty_INVALID }

/-- `oid_to_order_.at(order_id)`. -/
def marketSlot (orderId : OrderId) : Except Fault OrderId :=
  if orderId < ME_MAX_ORDER_IDS then .ok orderId else .error (.outOfRange orderId)

def marketLayout : BookLayout OrderId OrderId :=
  { slot := marketSlot
    inWindow := priceInWindow
    index := windowIndex
    guardsNullLinks := true
    nullsLoneLinks := true }

structure MarketOrderBook extends LevelBook OrderId OrderId where
  bbo : BBO

/-- A call to the trade engine. `onOrderBookUpdate` goes with the best prices of the
book that it is handed. -/
inductive BookNotice
  | onTradeUpdate (u : MEMarketUpdate)
  | onOrderBookUpdate (tickerId : TickerId) (price : Price) (side : Side) (bbo : BBO)
  deriving DecidableEq, Repr

namespace MarketOrderBook

def new (basePrice : Price) : MarketOrderBook :=
  { LevelBook.new OrderId_INVALID basePrice with bbo := .default }

variable (s : LevelBook OrderId OrderId)

/-- The loop of `updateBBO` over the orders behind the first one, from `order` on. -/
def sumQtys (first : Ptr) : Nat → Option Ptr → Qty → Except Fault Qty
  | 0, _, _ => .error .diverges
  | fuel + 1, order, qty =>
    if order = some first then .ok qty
    else do
      let order ← deref order
      sumQtys first fuel (s.order order).nextOrder ((qty + (s.order order).qty) % 2 ^ 32)

/-- The best price of a side and the quantity there. -/
def topOfSide (side : Side) : Except Fault (Price × Qty) :=
  match s.best side with
  | none => .ok (Price_INVALID, Qty_INVALID)
  | some best => do
    let first ← deref (s.level best).firstOrder
    let qty ← sumQtys s first s.orderPool.size (s.order first).nextOrder (s.order first).qty
    pure ((s.level best).price, qty)

/-- Update the best prices of the sides that need it. -/
def updateBBO (s : MarketOrderBook) (updateBid updateAsk : Bool) : Except Fault MarketOrderBook := do
  let bbo ←
    if updateBid then do
      let (price, qty) ← topOfSide s.toLevelBook .BUY
      pure { s.bbo with bidPrice := price, bidQty := qty }
    else pure s.bbo
  let bbo ←
    if updateAsk then do
      let (price, qty) ← topOfSide s.toLevelBook .SELL
      pure { bbo with askPrice := price, askQty := qty }
    else pure bbo
  pure { s with bbo := bbo }

/-- `bid_updated`. -/
def bidUpdated (u : MEMarketUpdate) : Bool :=
  match s.bidsByPrice with
  | none => false
  | some best => u.side == .BUY && decide (u.price ≥ (s.level best).price)

/-- `ask_updated`. -/
def askUpdated (u : MEMarketUpdate) : Bool :=
  match s.asksByPrice with
  | none => false
  | some best => u.side == .SELL && decide (u.price ≤ (s.level best).price)

/-- ADD. -/
def addQuote (u : MEMarketUpdate) : Except Fault (LevelBook OrderId OrderId) := do
  let (order, pool) ← s.orderPool.allocate
    { key := u.orderId, side := u.side, price := u.price, qty := u.qty, priority := u.priority,
      prevOrder := none, nextOrder := none }
  LevelBook.addOrder marketLayout { s with orderPool := pool } order

/-- `oid_to_order_.at(order_id)`, dereferenced. -/
def lookup (orderId : OrderId) : Except Fault Ptr := do
  let slot ← marketSlot orderId
  deref (s.oidToOrder slot)

/-- MODIFY. -/
def modifyQuote (u : MEMarketUpdate) : Except Fault (LevelBook OrderId OrderId) := do
  let order ← lookup s u.orderId
  pure (s.writeOrder order fun n => { n with qty := u.qty })

/-- CANCEL. -/
def cancelQuote (u : MEMarketUpdate) : Except Fault (LevelBook OrderId OrderId) := do
  let order ← lookup s u.orderId
  LevelBook.removeOrder marketLayout s order

/-- CLEAR, one entry of the id table. -/
def clearEntry (pool : MemPool (Order OrderId)) :
    Option Ptr → Except Fault (MemPool (Order OrderId))
  | some order => pool.deallocate order
  | none => .ok pool

/-- CLEAR, the orders: all that the id table leads to. -/
def clearOrders : Except Fault (MemPool (Order OrderId)) :=
  (List.range ME_MAX_ORDER_IDS).foldlM (fun pool id => clearEntry pool (s.oidToOrder id))
    s.orderPool

/-- CLEAR, the levels of a side: from `level` on to the best one, which comes last. -/
def clearLevels (best : Ptr) : Nat → Option Ptr → MemPool OrdersAtPrice →
    Except Fault (MemPool OrdersAtPrice)
  | 0, _, _ => .error .diverges
  | fuel + 1, level, pool =>
    if level = some best then pool.deallocate best
    else match level with
      | none => .error .foreignElement
      | some level => do
        let pool ← pool.deallocate level
        clearLevels best fuel (pool.get level).nextEntry pool

def clearSide (best : Option Ptr) (pool : MemPool OrdersAtPrice) :
    Except Fault (MemPool OrdersAtPrice) :=
  match best with
  | none => .ok pool
  | some best => clearLevels best pool.size (pool.get best).nextEntry pool

/-- CLEAR: deallocate all orders and levels. The price table keeps its entries. -/
def clear : Except Fault (LevelBook OrderId OrderId) := do
  let orders ← clearOrders s
  let levels ← clearSide s.bidsByPrice s.ordersAtPricePool
  let levels ← clearSide s.asksByPrice levels
  pure
    { s with
      oidToOrder := fun _ => none
      ordersAtPricePool := levels
      bidsByPrice := none
      asksByPrice := none
      orderPool := orders }

/-- What an update does to the orders. -/
def applyUpdate (u : MEMarketUpdate) : Except Fault (LevelBook OrderId OrderId) :=
  match u.type with
  | .ADD => addQuote s u
  | .MODIFY => modifyQuote s u
  | .CANCEL => cancelQuote s u
  | .CLEAR => clear s
  | .TRADE | .INVALID | .SNAPSHOT_START | .SNAPSHOT_END => .ok s

/-- Process market data update and update the limit order book. -/
def onMarketUpdate (s : MarketOrderBook) (u : MEMarketUpdate) :
    Except Fault (MarketOrderBook × List BookNotice) :=
  let bidUpdated := bidUpdated s.toLevelBook u
  let askUpdated := askUpdated s.toLevelBook u
  if u.type = .TRADE then .ok (s, [.onTradeUpdate u])
  else do
    let book ← applyUpdate s.toLevelBook u
    let s ← updateBBO { s with toLevelBook := book } bidUpdated askUpdated
    pure (s, [.onOrderBookUpdate u.tickerId u.price u.side s.bbo])

end MarketOrderBook

end NanoTrade
