import NanoTrade.Exchange.Ownership

/-!
# The order book over hash maps

`exchange/matcher/unordered_map_me_order_book.h` and `.cpp`. The two tables are hash maps:
an absent key and a null pointer read alike, and what tells them apart is the number of
clients in the map, which the guard of `cancel` compares with the client id.

`run_interchangeable_iff`: it answers like `MEOrderBook` exactly along runs in which every
CANCEL of a resting order passes that guard.
-/

namespace NanoTrade

/-- `price % ME_MAX_PRICE_LEVELS` is taken in `size_t`. -/
def unorderedMapLayout : BookLayout MEOrderKey MESlot :=
  { slot := fun key => .ok (key.clientId, key.clientOrderId)
    inWindow := fun _ _ => true
    index := fun _ price => (price % ME_MAX_PRICE_LEVELS).toNat
    guardsNullLinks := false
    nullsLoneLinks := false }

structure UnorderedMapMEOrderBook extends LevelBook MEOrderKey MESlot where
  /-- The keys of `cid_oid_to_order_`. -/
  clients : List ClientId
  nextMarketOrderId : OrderId

namespace UnorderedMapMEOrderBook

/-- The book has no base price; this one is never read. -/
def new (basePrice : Price) : UnorderedMapMEOrderBook :=
  { LevelBook.new .invalid basePrice with clients := [], nextMarketOrderId := 1 }

/-- `cid_oid_to_order_[client_id]` adds a key that is not there. -/
def subscript (s : UnorderedMapMEOrderBook) (clientId : ClientId) : UnorderedMapMEOrderBook :=
  { s with clients := s.clients.insert clientId }

/-- `match`. An order with nothing left is removed, for which the map is subscripted. -/
def matchOrder (s : UnorderedMapMEOrderBook) (a : Aggressor) (itr : Ptr) (leavesQty : Qty) :
    Except Fault (UnorderedMapMEOrderBook × Qty × List MEMessage) := do
  let order := s.order itr
  let (book, leaves, messages) ←
    Matching.matchOrder unorderedMapLayout s.toLevelBook a itr leavesQty
  let s := { s with toLevelBook := book }
  pure (if order.qty ≤ leavesQty then s.subscript order.key.clientId else s, leaves, messages)

/-- The loops of `checkForMatch`. -/
def matchLoop (a : Aggressor) (passive : Side) (stops : Price → Bool) (fuel : Nat)
    (s : UnorderedMapMEOrderBook) (leavesQty : Qty) :
    Except Fault (UnorderedMapMEOrderBook × Qty × List MEMessage) :=
  Matching.matchLoop toLevelBook (fun s itr leaves => s.matchOrder a itr leaves) passive stops
    fuel s leavesQty

def checkForMatch (s : UnorderedMapMEOrderBook) (clientId : ClientId) (clientOrderId : OrderId)
    (tickerId : TickerId) (side : Side) (price : Price) (qty : Qty)
    (newMarketOrderId : OrderId) :
    Except Fault (UnorderedMapMEOrderBook × Qty × List MEMessage) := do
  let a : Aggressor :=
    { tickerId, clientId, side, clientOrderId, newMarketOrderId := newMarketOrderId % 2 ^ 32,
      price }
  let fuel := s.orderPool.size + 1
  match side with
  | .BUY => matchLoop a .SELL (fun resting => decide (price < resting)) fuel s qty
  | .SELL => matchLoop a .BUY (fun resting => decide (price > resting)) fuel s qty
  | _ => pure (s, qty, [])

/-- The part of `add` behind the match. -/
def rest (s : UnorderedMapMEOrderBook) (clientId : ClientId) (clientOrderId : OrderId)
    (tickerId : TickerId) (side : Side) (price : Price) (leavesQty : Qty)
    (newMarketOrderId : OrderId) : Except Fault (UnorderedMapMEOrderBook × List MEMessage) := do
  let (book, messages) ← Matching.rest unorderedMapLayout s.toLevelBook clientId clientOrderId
    tickerId side price leavesQty newMarketOrderId
  let s := { s with toLevelBook := book }
  pure (s.subscript clientId, messages)

def add (s : UnorderedMapMEOrderBook) (clientId : ClientId) (clientOrderId : OrderId)
    (tickerId : TickerId) (side : Side) (price : Price) (qty : Qty) :
    Except Fault (UnorderedMapMEOrderBook × List MEMessage) := do
  let newMarketOrderId := s.nextMarketOrderId
  let s := { s with nextMarketOrderId := (newMarketOrderId + 1) % 2 ^ 64 }
  let accepted := MEOrderBook.acceptedResponse clientId clientOrderId tickerId side price qty
    newMarketOrderId
  let (s, leavesQty, matched) ←
    s.checkForMatch clientId clientOrderId tickerId side price qty newMarketOrderId
  if leavesQty = 0 then pure (s, accepted :: matched)
  else
    let (s, added) ← s.rest clientId clientOrderId tickerId side price leavesQty newMarketOrderId
    pure (s, accepted :: matched ++ added)

/-- The guard compares the client id with the number of clients in the map. -/
def cancel (s : UnorderedMapMEOrderBook) (clientId : ClientId) (orderId : OrderId)
    (tickerId : TickerId) : Except Fault (UnorderedMapMEOrderBook × List MEMessage) :=
  let (s, exchangeOrder) :=
    if clientId < s.clients.length then
      (s.subscript clientId, s.oidToOrder (clientId, orderId))
    else (s, none)
  match exchangeOrder with
  | none => .ok (s, [MEOrderBook.rejectedResponse clientId orderId tickerId])
  | some order => do
    let messages := MEOrderBook.canceledMessages clientId orderId tickerId (s.order order)
    let owner := (s.order order).key.clientId
    let book ← s.removeOrder unorderedMapLayout order
    let s := { s with toLevelBook := book }
    pure (s.subscript owner, messages)

/-- The calls that a request stands for. -/
def processClientRequest (s : UnorderedMapMEOrderBook) (r : MEClientRequest) :
    Except Fault (UnorderedMapMEOrderBook × List MEMessage) :=
  match r.type with
  | .NEW => s.add r.clientId r.orderId r.tickerId r.side r.price r.qty
  | .CANCEL => s.cancel r.clientId r.orderId r.tickerId
  | .INVALID => .error .invalidRequestType

end UnorderedMapMEOrderBook

theorem unorderedMapLayout_admits (basePrice : Price) :
    unorderedMapLayout.Admits basePrice (InWindow basePrice) := by
  refine ⟨fun _ => rfl, fun {p q} insideP insideQ same => ?_⟩
  obtain ⟨lowP, highP⟩ := inWindow_iff.mp insideP
  obtain ⟨lowQ, highQ⟩ := inWindow_iff.mp insideQ
  simp only [unorderedMapLayout, ME_MAX_PRICE_LEVELS] at same lowP highP lowQ highQ
  lia

end NanoTrade
