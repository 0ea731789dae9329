import NanoTrade.MemPool
import NanoTrade.Ring

/-!
# The two-level limit order book

`exchange/matcher/me_order_book.h` and `trading/strategy/market_order_book.h` hold
the same structure, function for function: a circular list of price levels per
side, a circular FIFO of orders per level, a price table that both sides share, an
id table, and two memory pools. It is written here once. `κ` is the record of ids
an order carries, `σ` indexes the id table, and a `BookLayout` says where the
books differ.

Every assignment of the source is one write to the heap, in the source's order, so
that aliasing (a level that is its own neighbour) is resolved as it is there.
-/

namespace NanoTrade

/-- `MEOrder` and `MarketOrder`: the ids are in `key`. -/
structure Order (κ : Type) where
  key : κ
  side : Side
  price : Price
  qty : Qty
  priority : Priority
  prevOrder : Option Ptr
  nextOrder : Option Ptr

/-- All of an order but its links. -/
def Order.content {κ : Type} (o : Order κ) : κ × Side × Price × Qty × Priority :=
  (o.key, o.side, o.price, o.qty, o.priority)

/-- `MEOrdersAtPrice` and `MarketOrdersAtPrice`. -/
structure OrdersAtPrice where
  side : Side
  price : Price
  firstOrder : Option Ptr
  prevEntry : Option Ptr
  nextEntry : Option Ptr

/-- `MEOrdersAtPrice()` and `MarketOrdersAtPrice()`. -/
def OrdersAtPrice.default : OrdersAtPrice :=
  { side := .INVALID, price := Price_INVALID, firstOrder := none, prevEntry := none,
    nextEntry := none }

/-- A level as `addOrder` constructs it, with null links. -/
def OrdersAtPrice.unlinked (side : Side) (price : Price) (firstOrder : Option Ptr) :
    OrdersAtPrice :=
  { side, price, firstOrder, prevEntry := none, nextEntry := none }

/-- `MEOrder()` and `MarketOrder()`, with the ids of `key`. -/
def Order.default {κ : Type} (key : κ) : Order κ :=
  { key, side := .INVALID, price := Price_INVALID, qty := Qty_INVALID,
    priority := Priority_INVALID, prevOrder := none, nextOrder := none }

/-- What the instances of the book do not share. The window and the index take the
`base_price_` of the book first. -/
structure BookLayout (κ σ : Type) where
  /-- The `.at()` subscripts of the id table. -/
  slot : κ → Except Fault σ
  inWindow : Price → Price → Bool
  index : Price → Price → Nat
  /-- `addOrdersAtPrice` also takes a head with null links for an empty side. -/
  guardsNullLinks : Bool
  /-- `removeOrdersAtPrice` nulls the links of the last level of a side, too. -/
  nullsLoneLinks : Bool

/-- The window test of `MEOrderBook` and `MarketOrderBook`. -/
def priceInWindow (basePrice price : Price) : Bool :=
  decide (0 ≤ price - basePrice) && decide (price - basePrice < ME_MAX_PRICE_LEVELS)

/-- The index of `MEOrderBook` and `MarketOrderBook`. -/
def windowIndex (basePrice price : Price) : Nat :=
  (price - basePrice).toNat

/-- `priceToIndex`. -/
def BookLayout.priceToIndex {κ σ : Type} (L : BookLayout κ σ) (basePrice price : Price) :
    Except Fault Nat :=
  if L.inWindow basePrice price then .ok (L.index basePrice price)
  else .error (.outsideWindow price)

structure LevelBook (κ σ : Type) where
  /-- `cid_oid_to_order_` and `oid_to_order_`. -/
  oidToOrder : σ → Option Ptr
  ordersAtPricePool : MemPool OrdersAtPrice
  bidsByPrice : Option Ptr
  asksByPrice : Option Ptr
  priceOrdersAtPrice : Nat → Option Ptr
  orderPool : MemPool (Order κ)
  basePrice : Price

namespace LevelBook

variable {κ σ : Type}

/-- The constructor, over tables that are all null. -/
def new (noKey : κ) (basePrice : Price) : LevelBook κ σ :=
  { oidToOrder := fun _ => none
    ordersAtPricePool := .new ME_MAX_PRICE_LEVELS .default
    bidsByPrice := none
    asksByPrice := none
    priceOrdersAtPrice := fun _ => none
    orderPool := .new ME_MAX_ORDER_IDS (.default noKey)
    basePrice }

/-! ## Heap access -/

def level (s : LevelBook κ σ) (p : Ptr) : OrdersAtPrice :=
  s.ordersAtPricePool.get p

def order (s : LevelBook κ σ) (p : Ptr) : Order κ :=
  s.orderPool.get p

def writeLevel (s : LevelBook κ σ) (p : Ptr) (f : OrdersAtPrice → OrdersAtPrice) :
    LevelBook κ σ :=
  { s with ordersAtPricePool := s.ordersAtPricePool.modify p f }

def writeOrder (s : LevelBook κ σ) (p : Ptr) (f : Order κ → Order κ) : LevelBook κ σ :=
  { s with orderPool := s.orderPool.modify p f }

/-- `(side == Side::BUY ? bids_by_price_ : asks_by_price_)`. -/
def best (s : LevelBook κ σ) (side : Side) : Option Ptr :=
  if side = .BUY then s.bidsByPrice else s.asksByPrice

/-- Assign to `(side == Side::BUY ? bids_by_price_ : asks_by_price_)`. -/
def setBest (s : LevelBook κ σ) (side : Side) (p : Option Ptr) : LevelBook κ σ :=
  if side = .BUY then { s with bidsByPrice := p } else { s with asksByPrice := p }

def setSlot (s : LevelBook κ σ) (index : Nat) (p : Option Ptr) : LevelBook κ σ :=
  { s with priceOrdersAtPrice := Function.update s.priceOrdersAtPrice index p }

def setOid [DecidableEq σ] (s : LevelBook κ σ) (slot : σ) (p : Option Ptr) : LevelBook κ σ :=
  { s with oidToOrder := Function.update s.oidToOrder slot p }

section Access

variable (s : LevelBook κ σ) (p q : Ptr) (side : Side)

@[simp] theorem level_writeLevel (f : OrdersAtPrice → OrdersAtPrice) :
    (s.writeLevel p f).level q = if q = p then f (s.level p) else s.level q :=
  MemPool.get_modify _ _ _ _

@[simp] theorem order_writeLevel (f : OrdersAtPrice → OrdersAtPrice) :
    (s.writeLevel p f).order q = s.order q := rfl

@[simp] theorem best_writeLevel (f : OrdersAtPrice → OrdersAtPrice) :
    (s.writeLevel p f).best side = s.best side := rfl

@[simp] theorem level_writeOrder (f : Order κ → Order κ) :
    (s.writeOrder p f).level q = s.level q := rfl

@[simp] theorem order_writeOrder (f : Order κ → Order κ) :
    (s.writeOrder p f).order q = if q = p then f (s.order p) else s.order q :=
  MemPool.get_modify _ _ _ _

@[simp] theorem best_writeOrder (f : Order κ → Order κ) :
    (s.writeOrder p f).best side = s.best side := rfl

@[simp] theorem level_setBest (best : Option Ptr) :
    (s.setBest side best).level q = s.level q := by
  unfold setBest
  split <;> rfl

@[simp] theorem order_setBest (best : Option Ptr) :
    (s.setBest side best).order q = s.order q := by
  unfold setBest
  split <;> rfl

@[simp] theorem level_setSlot (index : Nat) (new : Option Ptr) :
    (s.setSlot index new).level q = s.level q := rfl

@[simp] theorem best_setSlot (index : Nat) (new : Option Ptr) :
    (s.setSlot index new).best side = s.best side := rfl

end Access

/-! ## Levels -/

variable (L : BookLayout κ σ)

/-- Fetch and return the level corresponding to the provided price. -/
def getOrdersAtPrice (s : LevelBook κ σ) (price : Price) : Except Fault (Option Ptr) := do
  let index ← L.priceToIndex s.basePrice price
  pure (s.priceOrdersAtPrice index)

/-- The `add_after` test: the new level ranks behind `target`. -/
def addsAfter (s : LevelBook κ σ) (new target : Ptr) : Bool :=
  ((s.level new).side == .SELL && decide ((s.level new).price > (s.level target).price)) ||
    ((s.level new).side == .BUY && decide ((s.level new).price < (s.level target).price))

/-- The test for a new best level. -/
def ranksBefore (s : LevelBook κ σ) (new target : Ptr) : Bool :=
  ((s.level new).side == .BUY && decide ((s.level new).price > (s.level target).price)) ||
    ((s.level new).side == .SELL && decide ((s.level new).price < (s.level target).price))

/-- The `while (add_after && target != best)` loop of `addOrdersAtPrice`. -/
def scanLevels (s : LevelBook κ σ) (new best : Ptr) :
    Nat → Bool → Ptr → Except Fault (Bool × Ptr)
  | 0, _, _ => .error .diverges
  | fuel + 1, addAfter, target =>
    if addAfter && target != best then
      if s.addsAfter new target then do
        let target ← deref (s.level target).nextEntry
        s.scanLevels new best fuel true target
      else s.scanLevels new best fuel false target
    else .ok (addAfter, target)

/-- Where the new level goes: after or before `target`. -/
def findTarget (s : LevelBook κ σ) (new best : Ptr) : Except Fault (Bool × Ptr) := do
  if s.addsAfter new best then
    let target ← deref (s.level best).nextEntry
    s.scanLevels new best s.ordersAtPricePool.size (s.addsAfter new target) target
  else s.scanLevels new best s.ordersAtPricePool.size false best

/-- Add the new level after `target`. -/
def linkAfter (s : LevelBook κ σ) (new target : Ptr) : Except Fault (LevelBook κ σ) := do
  let s := s.writeLevel new fun n => { n with prevEntry := some target }
  let after ← deref (s.level target).nextEntry
  let s := s.writeLevel after fun n => { n with prevEntry := some new }
  let next := (s.level target).nextEntry
  let s := s.writeLevel new fun n => { n with nextEntry := next }
  pure (s.writeLevel target fun n => { n with nextEntry := some new })

/-- Add the new level before `target`. -/
def linkBefore (s : LevelBook κ σ) (new target : Ptr) : Except Fault (LevelBook κ σ) := do
  let prev := (s.level target).prevEntry
  let s := s.writeLevel new fun n => { n with prevEntry := prev }
  let s := s.writeLevel new fun n => { n with nextEntry := some target }
  let before ← deref (s.level target).prevEntry
  let s := s.writeLevel before fun n => { n with nextEntry := some new }
  pure (s.writeLevel target fun n => { n with prevEntry := some new })

/-- The new level becomes the only one of its side. -/
def linkAlone (s : LevelBook κ σ) (new : Ptr) : LevelBook κ σ :=
  (s.setBest (s.level new).side (some new)).writeLevel new fun n =>
    { n with prevEntry := some new, nextEntry := some new }

/-- The new level, linked in before `target`, becomes the best one of its side. -/
def promote (s : LevelBook κ σ) (new target best : Ptr) : LevelBook κ σ :=
  let next := (s.level target).nextEntry
  let s := s.writeLevel target fun n =>
    { n with nextEntry := if next = some best then some new else next }
  s.setBest (s.level new).side (some new)

/-- The splice of the new level into a side that is not empty. -/
def spliceLevel (s : LevelBook κ σ) (new best : Ptr) : Except Fault (LevelBook κ σ) := do
  let (addAfter, target) ← s.findTarget new best
  if addAfter then
    let target ← if target = best then deref (s.level best).prevEntry else pure target
    s.linkAfter new target
  else
    let s ← s.linkBefore new target
    pure (if s.ranksBefore new best then s.promote new target best else s)

/-- Add a new level at the correct price into the containers: the price table and
the doubly linked list of price levels. -/
def addOrdersAtPrice (s : LevelBook κ σ) (new : Ptr) : Except Fault (LevelBook κ σ) := do
  let index ← L.priceToIndex s.basePrice (s.level new).price
  let s := s.setSlot index (some new)
  match s.best (s.level new).side with
  | none => pure (s.linkAlone new)
  | some best =>
    if L.guardsNullLinks && (s.level best).nextEntry.isNone then pure (s.linkAlone new)
    else s.spliceLevel new best

/-- Unlink `level` from the circular list of its side. -/
def unlinkLevel (s : LevelBook κ σ) (side : Side) (level : Ptr) :
    Except Fault (LevelBook κ σ) := do
  let best := s.best side
  let before ← deref (s.level level).prevEntry
  let next := (s.level level).nextEntry
  let s := s.writeLevel before fun n => { n with nextEntry := next }
  let after ← deref (s.level level).nextEntry
  let prev := (s.level level).prevEntry
  let s := s.writeLevel after fun n => { n with prevEntry := prev }
  pure (if some level = best then s.setBest side (s.level level).nextEntry else s)

/-- Take `level`, perhaps the only one of its side, out of the list. -/
def detachLevel (s : LevelBook κ σ) (side : Side) (level : Ptr) :
    Except Fault (LevelBook κ σ) :=
  if (s.level level).nextEntry = some level then .ok (s.setBest side none)
  else s.unlinkLevel side level

/-- Remove the level from the containers: the price table and the doubly linked list
of price levels. -/
def removeOrdersAtPrice (s : LevelBook κ σ) (side : Side) (price : Price) :
    Except Fault (LevelBook κ σ) := do
  let level ← deref (← s.getOrdersAtPrice L price)
  let lone := decide ((s.level level).nextEntry = some level)
  let s ← s.detachLevel side level
  let s := if L.nullsLoneLinks || !lone then
      s.writeLevel level fun n => { n with prevEntry := none, nextEntry := none }
    else s
  let index ← L.priceToIndex s.basePrice price
  let s := s.setSlot index none
  let pool ← s.ordersAtPricePool.deallocate level
  pure { s with ordersAtPricePool := pool }

/-- The priority of the next order at `price`: one more than that of the last one. -/
def getNextPriority (s : LevelBook κ σ) (price : Price) : Except Fault Priority := do
  match ← s.getOrdersAtPrice L price with
  | none => pure 1
  | some level => do
    let first ← deref (s.level level).firstOrder
    let last ← deref (s.order first).prevOrder
    pure (((s.order last).priority + 1) % 2 ^ 64)

/-! ## Orders -/

/-- Unlink `order` from the FIFO of its level, which holds other orders too. -/
def unlinkOrder (s : LevelBook κ σ) (ordersAtPrice : Option Ptr) (order : Ptr) :
    Except Fault (LevelBook κ σ) := do
  let orderBefore := (s.order order).prevOrder
  let orderAfter := (s.order order).nextOrder
  let before ← deref orderBefore
  let s := s.writeOrder before fun n => { n with nextOrder := orderAfter }
  let after ← deref orderAfter
  let s := s.writeOrder after fun n => { n with prevOrder := orderBefore }
  let level ← deref ordersAtPrice
  let s := if (s.level level).firstOrder = some order then
      s.writeLevel level fun n => { n with firstOrder := orderAfter }
    else s
  pure (s.writeOrder order fun n => { n with prevOrder := none, nextOrder := none })

/-- Take `order`, perhaps the only one of its level, out of the FIFO. -/
def detachOrder (s : LevelBook κ σ) (order : Ptr) : Except Fault (LevelBook κ σ) := do
  let ordersAtPrice ← s.getOrdersAtPrice L (s.order order).price
  if (s.order order).prevOrder = some order then
    s.removeOrdersAtPrice L (s.order order).side (s.order order).price
  else s.unlinkOrder ordersAtPrice order

/-- Remove and de-allocate the provided order from the containers. -/
def removeOrder [DecidableEq σ] (s : LevelBook κ σ) (order : Ptr) :
    Except Fault (LevelBook κ σ) := do
  let s ← s.detachOrder L order
  let slot ← L.slot (s.order order).key
  let s := s.setOid slot none
  let pool ← s.orderPool.deallocate order
  pure { s with orderPool := pool }

/-- Link `order` at the end of the FIFO that starts with `first`. -/
def linkLast (s : LevelBook κ σ) (first order : Ptr) : Except Fault (LevelBook κ σ) := do
  let last ← deref (s.order first).prevOrder
  let s := s.writeOrder last fun n => { n with nextOrder := some order }
  let prev := (s.order first).prevOrder
  let s := s.writeOrder order fun n => { n with prevOrder := prev }
  let s := s.writeOrder order fun n => { n with nextOrder := some first }
  pure (s.writeOrder first fun n => { n with prevOrder := some order })

/-- Link `order` into the level of its price, a new one if there is none. -/
def attachOrder (s : LevelBook κ σ) (order : Ptr) : Except Fault (LevelBook κ σ) := do
  match ← s.getOrdersAtPrice L (s.order order).price with
  | none => do
    let s := s.writeOrder order fun n =>
      { n with prevOrder := some order, nextOrder := some order }
    let (new, pool) ← s.ordersAtPricePool.allocate
      (.unlinked (s.order order).side (s.order order).price (some order))
    addOrdersAtPrice L { s with ordersAtPricePool := pool } new
  | some level => do
    let first ← deref (s.level level).firstOrder
    s.linkLast first order

/-- Add a single order at the end of the FIFO queue at the price level that this
order belongs in. -/
def addOrder [DecidableEq σ] (s : LevelBook κ σ) (order : Ptr) :
    Except Fault (LevelBook κ σ) := do
  let s ← s.attachOrder L order
  let slot ← L.slot (s.order order).key
  pure (s.setOid slot (some order))

/-! ## Reading the book -/

/-- The orders of a level, from the first one around the FIFO. -/
def levelOrders (s : LevelBook κ σ) (level : Ptr) : List Ptr :=
  match (s.level level).firstOrder with
  | none => []
  | some first => walk (fun p => (s.order p).nextOrder) first s.orderPool.size first

/-- The levels of a side, from the best one around the list. -/
def sideLevels (s : LevelBook κ σ) (side : Side) : List Ptr :=
  match s.best side with
  | none => []
  | some best => walk (fun p => (s.level p).nextEntry) best s.ordersAtPricePool.size best

/-- The price of every level of a side, with the orders of its FIFO. -/
def sideQueues (s : LevelBook κ σ) (side : Side) :
    List (Price × List (κ × Side × Price × Qty × Priority)) :=
  (s.sideLevels side).map fun p =>
    ((s.level p).price, (s.levelOrders p).map fun q => (s.order q).content)

end LevelBook

end NanoTrade
