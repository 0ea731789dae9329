import NanoTrade.Ends
import NanoTrade.Exchange.Messages
import NanoTrade.LevelBook

/-!
# The order books of the matching engine

`exchange/matcher/me_order_book.h` and `.cpp`: one book, its matching loop and the
two requests. A function returns what it sends, in the order of the calls; where the
source stops the process, nothing is returned.

`exchange/matcher/matching_engine.h`: the books of all tickers, and what a request makes
them send.
-/

namespace NanoTrade

/-- The ids of an `MEOrder`. -/
structure MEOrderKey where
  tickerId : TickerId
  clientId : ClientId
  clientOrderId : OrderId
  marketOrderId : OrderId
  deriving DecidableEq, Repr

/-- The subscripts of `cid_oid_to_order_`. -/
abbrev MESlot := ClientId × OrderId

/-- The ids of `MEOrder()`. -/
def MEOrderKey.invalid : MEOrderKey :=
  { tickerId := TickerId_INVALID, clientId := ClientId_INVALID,
    clientOrderId := OrderId_INVALID, marketOrderId := OrderId_INVALID }

/-- `cid_oid_to_order_.at(client_id).at(client_order_id)`. -/
def meSlot (clientId : ClientId) (orderId : OrderId) : Except Fault MESlot :=
  if ME_MAX_NUM_CLIENTS ≤ clientId then .error (.outOfRange clientId)
  else if ME_MAX_ORDER_IDS ≤ orderId then .error (.outOfRange orderId)
  else .ok (clientId, orderId)

theorem meSlot_eq_ok {clientId : ClientId} {orderId : OrderId} {slot : MESlot} :
    meSlot clientId orderId = .ok slot ↔
      clientId < ME_MAX_NUM_CLIENTS ∧ orderId < ME_MAX_ORDER_IDS ∧ slot = (clientId, orderId) := by
  by_cases client : ME_MAX_NUM_CLIENTS ≤ clientId
  · simp [meSlot, client, Nat.not_lt.mpr client]
  · by_cases order : ME_MAX_ORDER_IDS ≤ orderId
    · simp [meSlot, client, order, Nat.not_lt.mpr order]
    · simp [meSlot, client, order, Nat.not_le.mp client, Nat.not_le.mp order, eq_comm]

theorem meSlot_eq_error {clientId : ClientId} {orderId : OrderId}
    (outside : ¬ (clientId < ME_MAX_NUM_CLIENTS ∧ orderId < ME_MAX_ORDER_IDS)) :
    ∃ i, meSlot clientId orderId = .error (.outOfRange i) := by
  unfold meSlot
  split
  · exact ⟨clientId, rfl⟩
  · split
    · exact ⟨orderId, rfl⟩
    · rename_i client order
      exact (outside ⟨Nat.not_le.mp client, Nat.not_le.mp order⟩).elim

def meLayout : BookLayout MEOrderKey MESlot :=
  { slot := fun key => meSlot key.clientId key.clientOrderId
    inWindow := priceInWindow
    index := windowIndex
    guardsNullLinks := false
    nullsLoneLinks := true }

structure MEOrderBook extends LevelBook MEOrderKey MESlot where
  nextMarketOrderId : OrderId

/-- What `checkForMatch` hands on to `match`. -/
structure Aggressor where
  tickerId : TickerId
  clientId : ClientId
  side : Side
  clientOrderId : OrderId
  newMarketOrderId : OrderId
  price : Price

namespace MEOrderBook

def new (basePrice : Price) : MEOrderBook :=
  { LevelBook.new .invalid basePrice with nextMarketOrderId := 1 }

/-- The two responses and the trade of a fill. `passive` and `passiveLeaves` are the
order that rested and what is left of it. -/
def fillMessages (a : Aggressor) (passive : MEOrderKey) (passiveSide : Side) (price : Price)
    (fillQty leavesQty passiveLeaves : Qty) : List MEMessage :=
  [.response
    { type := .FILLED, clientId := a.clientId, tickerId := a.tickerId,
      clientOrderId := a.clientOrderId, marketOrderId := a.newMarketOrderId, side := a.side,
      price, execQty := fillQty, leavesQty },
   .response
    { type := .FILLED, clientId := passive.clientId, tickerId := a.tickerId,
      clientOrderId := passive.clientOrderId, marketOrderId := passive.marketOrderId,
      side := passiveSide, price, execQty := fillQty, leavesQty := passiveLeaves },
   .update
    { type := .TRADE, orderId := OrderId_INVALID, tickerId := a.tickerId, side := a.side, price,
      qty := fillQty, priority := Priority_INVALID }]

/-- The update on the passive order when nothing is left of it. -/
def filledUpdate (tickerId : TickerId) (order : Order MEOrderKey) (orderQty : Qty) : MEMessage :=
  .update
    { type := .CANCEL, orderId := order.key.marketOrderId, tickerId, side := order.side,
      price := order.price, qty := orderQty, priority := Priority_INVALID }

/-- The update on the passive order when something is left of it. -/
def modifyUpdate (tickerId : TickerId) (order : Order MEOrderKey) : MEMessage :=
  .update
    { type := .MODIFY, orderId := order.key.marketOrderId, tickerId, side := order.side,
      price := order.price, qty := order.qty, priority := order.priority }

variable (s : LevelBook MEOrderKey MESlot)

/-- `match`: fill the new order against the passive one at `itr`. -/
def matchOrder (a : Aggressor) (itr : Ptr) (leavesQty : Qty) :
    Except Fault (LevelBook MEOrderKey MESlot × Qty × List MEMessage) := do
  let orderQty := (s.order itr).qty
  let fillQty := min leavesQty orderQty
  let leavesQty := leavesQty - fillQty
  let s := s.writeOrder itr fun n => { n with qty := n.qty - fillQty }
  let order := s.order itr
  let fill := fillMessages a order.key order.side order.price fillQty leavesQty order.qty
  if order.qty = 0 then
    let s ← s.removeOrder meLayout itr
    pure (s, leavesQty, fill ++ [filledUpdate a.tickerId order orderQty])
  else pure (s, leavesQty, fill ++ [modifyUpdate a.tickerId order])

/-- The two `while (leaves_qty && best)` loops of `checkForMatch`: `passive` is the side
they look at and `stops` the test that breaks them. -/
def matchLoop (a : Aggressor) (passive : Side) (stops : Price → Bool) :
    Nat → LevelBook MEOrderKey MESlot → Qty →
      Except Fault (LevelBook MEOrderKey MESlot × Qty × List MEMessage)
  | 0, _, _ => .error .diverges
  | fuel + 1, s, leavesQty =>
    if leavesQty = 0 then .ok (s, leavesQty, [])
    else match s.best passive with
      | none => .ok (s, leavesQty, [])
      | some best => do
        let itr ← deref (s.level best).firstOrder
        if stops (s.order itr).price then pure (s, leavesQty, [])
        else
          let (s, leavesQty, messages) ← matchOrder s a itr leavesQty
          let (s, leavesQty, rest) ← matchLoop a passive stops fuel s leavesQty
          pure (s, leavesQty, messages ++ rest)

/-- Check if a new order would match against existing passive orders on the other side
of the order book, and return what remains of it. The id is narrowed to the `Qty` that
the parameter of the source is. -/
def checkForMatch (clientId : ClientId) (clientOrderId : OrderId) (tickerId : TickerId)
    (side : Side) (price : Price) (qty : Qty) (newMarketOrderId : OrderId) :
    Except Fault (LevelBook MEOrderKey MESlot × Qty × List MEMessage) := do
  let a : Aggressor :=
    { tickerId, clientId, side, clientOrderId, newMarketOrderId := newMarketOrderId % 2 ^ 32,
      price }
  let fuel := s.orderPool.size + 1
  match side with
  | .BUY => matchLoop a .SELL (fun resting => decide (price < resting)) fuel s qty
  | .SELL => matchLoop a .BUY (fun resting => decide (price > resting)) fuel s qty
  | _ => pure (s, qty, [])

/-- The response to a NEW. -/
def acceptedResponse (clientId : ClientId) (clientOrderId : OrderId) (tickerId : TickerId)
    (side : Side) (price : Price) (qty : Qty) (newMarketOrderId : OrderId) : MEMessage :=
  .response
    { type := .ACCEPTED, clientId, tickerId, clientOrderId, marketOrderId := newMarketOrderId,
      side, price, execQty := 0, leavesQty := qty }

/-- The update for the part of a new order that rests. -/
def addUpdate (tickerId : TickerId) (side : Side) (price : Price) (leavesQty : Qty)
    (priority : Priority) (newMarketOrderId : OrderId) : MEMessage :=
  .update
    { type := .ADD, orderId := newMarketOrderId, tickerId, side, price, qty := leavesQty,
      priority }

/-- The part of `add` behind the match: what remains of the order is put into the book. -/
def rest (clientId : ClientId) (clientOrderId : OrderId) (tickerId : TickerId) (side : Side)
    (price : Price) (leavesQty : Qty) (newMarketOrderId : OrderId) :
    Except Fault (LevelBook MEOrderKey MESlot × List MEMessage) := do
  let priority ← s.getNextPriority meLayout price
  let (order, pool) ← s.orderPool.allocate
    { key := { tickerId, clientId, clientOrderId, marketOrderId := newMarketOrderId }
      side, price, qty := leavesQty, priority, prevOrder := none, nextOrder := none }
  let s ← LevelBook.addOrder meLayout { s with orderPool := pool } order
  pure (s, [addUpdate tickerId side price leavesQty priority newMarketOrderId])

/-- Create and add a new order in the order book with provided attributes. -/
def add (s : MEOrderBook) (clientId : ClientId) (clientOrderId : OrderId) (tickerId : TickerId)
    (side : Side) (price : Price) (qty : Qty) : Except Fault (MEOrderBook × List MEMessage) := do
  let newMarketOrderId := s.nextMarketOrderId
  let nextMarketOrderId := (newMarketOrderId + 1) % 2 ^ 64
  let accepted := acceptedResponse clientId clientOrderId tickerId side price qty newMarketOrderId
  let (book, leavesQty, matched) ←
    checkForMatch s.toLevelBook clientId clientOrderId tickerId side price qty newMarketOrderId
  if leavesQty = 0 then pure (⟨book, nextMarketOrderId⟩, accepted :: matched)
  else
    let (book, added) ←
      rest book clientId clientOrderId tickerId side price leavesQty newMarketOrderId
    pure (⟨book, nextMarketOrderId⟩, accepted :: matched ++ added)

/-- The response to a CANCEL of an order that does not exist. -/
def rejectedResponse (clientId : ClientId) (orderId : OrderId) (tickerId : TickerId) :
    MEMessage :=
  .response
    { type := .CANCEL_REJECTED, clientId, tickerId, clientOrderId := orderId,
      marketOrderId := OrderId_INVALID, side := .INVALID, price := Price_INVALID,
      execQty := Qty_INVALID, leavesQty := Qty_INVALID }

/-- The update and the response to a CANCEL. -/
def canceledMessages (clientId : ClientId) (orderId : OrderId) (tickerId : TickerId)
    (order : Order MEOrderKey) : List MEMessage :=
  [.update
    { type := .CANCEL, orderId := order.key.marketOrderId, tickerId, side := order.side,
      price := order.price, qty := 0, priority := order.priority },
   .response
    { type := .CANCELED, clientId, tickerId, clientOrderId := orderId,
      marketOrderId := order.key.marketOrderId, side := order.side, price := order.price,
      execQty := Qty_INVALID, leavesQty := order.qty }]

/-- Attempt to cancel an order in the order book, issue a cancel-rejection if order does
not exist. -/
def cancel (s : MEOrderBook) (clientId : ClientId) (orderId : OrderId) (tickerId : TickerId) :
    Except Fault (MEOrderBook × List MEMessage) := do
  let exchangeOrder ←
    if clientId < ME_MAX_NUM_CLIENTS then do
      let slot ← meSlot clientId orderId
      pure (s.oidToOrder slot)
    else pure none
  match exchangeOrder with
  | none => pure (s, [rejectedResponse clientId orderId tickerId])
  | some order => do
    let messages := canceledMessages clientId orderId tickerId (s.order order)
    let book ← s.removeOrder meLayout order
    pure (⟨book, s.nextMarketOrderId⟩, messages)

/-- `MatchingEngine::processClientRequest`, on the book of the ticker. -/
def processClientRequest (s : MEOrderBook) (r : MEClientRequest) :
    Except Fault (MEOrderBook × List MEMessage) :=
  match r.type with
  | .NEW => s.add r.clientId r.orderId r.tickerId r.side r.price r.qty
  | .CANCEL => s.cancel r.clientId r.orderId r.tickerId
  | .INVALID => .error .invalidRequestType

/-! ## What a call that returned has done -/

section Returned

variable {s t : LevelBook MEOrderKey MESlot} {b b' : MEOrderBook} {clientId : ClientId}
  {orderId : OrderId} {tickerId : TickerId} {side : Side} {price : Price} {qty left : Qty}
  {newMarketOrderId : OrderId} {out : List MEMessage}

/-- A fill sends its two responses, the trade and an update on the passive order. -/
theorem matchOrder_eq_ok {a : Aggressor} {itr : Ptr}
    (returned : matchOrder s a itr qty = .ok (t, left, out)) :
    ∃ order fillQty update,
      out = fillMessages a order.key order.side order.price fillQty left order.qty ++ [update] ∧
      (update = filledUpdate a.tickerId order (s.order itr).qty ∨
        update = modifyUpdate a.tickerId order) := by
  unfold matchOrder at returned
  simp only at returned
  split at returned
  · obtain ⟨removed, -, returned⟩ := bind_eq_ok.mp returned
    cases returned
    exact ⟨_, _, _, rfl, .inl rfl⟩
  · cases returned
    exact ⟨_, _, _, rfl, .inr rfl⟩

/-- One turn of the loop ends it, or it is one fill and the turns behind it. -/
theorem matchLoop_eq_ok {a : Aggressor} {passive : Side} {stops : Price → Bool} {fuel : Nat}
    (returned : matchLoop a passive stops (fuel + 1) s qty = .ok (t, left, out)) :
    out = [] ∨ ∃ itr u leaves now later, matchOrder s a itr qty = .ok (u, leaves, now) ∧
      matchLoop a passive stops fuel u leaves = .ok (t, left, later) ∧ out = now ++ later := by
  unfold matchLoop at returned
  split at returned
  · cases returned
    exact .inl rfl
  · split at returned
    · cases returned
      exact .inl rfl
    · obtain ⟨itr, -, returned⟩ := bind_eq_ok.mp returned
      split at returned
      · cases returned
        exact .inl rfl
      · obtain ⟨⟨u, leaves, now⟩, filled, returned⟩ := bind_eq_ok.mp returned
        obtain ⟨⟨v, left', later⟩, looped, returned⟩ := bind_eq_ok.mp returned
        cases returned
        exact .inr ⟨itr, u, leaves, now, later, filled, looped, rfl⟩

theorem rest_eq_ok
    (returned : rest s clientId orderId tickerId side price qty newMarketOrderId = .ok (t, out)) :
    ∃ priority, out = [addUpdate tickerId side price qty priority newMarketOrderId] := by
  unfold rest at returned
  obtain ⟨priority, -, returned⟩ := bind_eq_ok.mp returned
  obtain ⟨⟨order, pool⟩, -, returned⟩ := bind_eq_ok.mp returned
  obtain ⟨u, -, returned⟩ := bind_eq_ok.mp returned
  cases returned
  exact ⟨priority, rfl⟩

/-- A NEW is accepted and matched, and the rest of it, if any, is put into the book. -/
theorem add_eq_ok (returned : b.add clientId orderId tickerId side price qty = .ok (b', out)) :
    ∃ s leavesQty matched added,
      checkForMatch b.toLevelBook clientId orderId tickerId side price qty b.nextMarketOrderId =
        .ok (s, leavesQty, matched) ∧
      (added = [] ∨ ∃ priority,
        added = [addUpdate tickerId side price leavesQty priority b.nextMarketOrderId]) ∧
      out = acceptedResponse clientId orderId tickerId side price qty b.nextMarketOrderId ::
        matched ++ added := by
  unfold add at returned
  obtain ⟨⟨s, leavesQty, matched⟩, swept, returned⟩ := bind_eq_ok.mp returned
  refine ⟨s, leavesQty, matched, ?_⟩
  dsimp only at returned
  split at returned
  · cases returned
    exact ⟨[], swept, .inl rfl, (List.append_nil _).symm⟩
  · obtain ⟨⟨t, added⟩, rested, returned⟩ := bind_eq_ok.mp returned
    cases returned
    exact ⟨added, swept, .inr (rest_eq_ok rested), rfl⟩

/-- A CANCEL is rejected, or its order is removed. -/
theorem cancel_eq_ok (returned : b.cancel clientId orderId tickerId = .ok (b', out)) :
    b'.nextMarketOrderId = b.nextMarketOrderId ∧
      (out = [rejectedResponse clientId orderId tickerId] ∨
        ∃ order, out = canceledMessages clientId orderId tickerId (b.order order)) := by
  unfold cancel at returned
  split at returned
  · obtain ⟨slot, -, returned⟩ := bind_eq_ok.mp returned
    simp only [pure_bind] at returned
    split at returned
    · cases returned
      exact ⟨rfl, .inl rfl⟩
    · rename_i order _
      obtain ⟨book, -, returned⟩ := bind_eq_ok.mp returned
      cases returned
      exact ⟨rfl, .inr ⟨order, rfl⟩⟩
  · cases returned
    exact ⟨rfl, .inl rfl⟩

end Returned

end MEOrderBook

/-! ## The matching engine -/

/-- One order book a ticker. -/
structure MatchingEngine where
  tickerOrderBook : TickerId → MEOrderBook

namespace MatchingEngine

def new (tickerBasePrices : TickerId → Price) : MatchingEngine :=
  { tickerOrderBook := fun ticker => MEOrderBook.new (tickerBasePrices ticker) }

/-- `ticker_order_book_` has `ME_MAX_TICKERS` elements. -/
def processClientRequest (s : MatchingEngine) (r : MEClientRequest) :
    Except Fault (MatchingEngine × List MEMessage) :=
  if r.tickerId < ME_MAX_TICKERS then do
    let (book, messages) ← (s.tickerOrderBook r.tickerId).processClientRequest r
    pure ({ tickerOrderBook := Function.update s.tickerOrderBook r.tickerId book }, messages)
  else .error (.outOfRange r.tickerId)

theorem processClientRequest_eq_ok {s s' : MatchingEngine} {r : MEClientRequest}
    {out : List MEMessage} :
    s.processClientRequest r = .ok (s', out) ↔
      r.tickerId < ME_MAX_TICKERS ∧ ∃ book,
        (s.tickerOrderBook r.tickerId).processClientRequest r = .ok (book, out) ∧
        s' = ⟨Function.update s.tickerOrderBook r.tickerId book⟩ := by
  unfold processClientRequest
  split
  · rename_i known
    cases answered : (s.tickerOrderBook r.tickerId).processClientRequest r with
    | error fault => simp [bind, Except.bind]
    | ok result =>
        obtain ⟨book, messages⟩ := result
        simp only [bind, Except.bind, pure, Except.pure, Except.ok.injEq, Prod.mk.injEq, known,
          true_and]
        constructor
        · rintro ⟨rfl, rfl⟩
          exact ⟨book, ⟨rfl, rfl⟩, rfl⟩
        · rintro ⟨_, ⟨rfl, rfl⟩, rfl⟩
          exact ⟨rfl, rfl⟩
  · rename_i unknown
    simp [unknown]

end MatchingEngine

end NanoTrade
