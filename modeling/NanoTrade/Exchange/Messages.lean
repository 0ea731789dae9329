import NanoTrade.Types

/-!
# Messages of the exchange

`MEClientRequest`, `MEClientResponse` and `MEMarketUpdate` with all the fields of the
packed structures. `MEMessage` is what a matching engine sends: the two queues it
writes to, merged in the order of the writes.
-/

namespace NanoTrade

inductive ClientRequestType
  | INVALID
  | NEW
  | CANCEL
  deriving DecidableEq, Repr

structure MEClientRequest where
  type : ClientRequestType
  clientId : ClientId
  tickerId : TickerId
  orderId : OrderId
  side : Side
  price : Price
  qty : Qty
  deriving DecidableEq, Repr

/-- A request as it is constructed. -/
def MEClientRequest.new : MEClientRequest :=
  { type := .INVALID, clientId := ClientId_INVALID, tickerId := TickerId_INVALID
    orderId := OrderId_INVALID, side := .INVALID, price := Price_INVALID, qty := Qty_INVALID }

inductive ClientResponseType
  | INVALID
  | ACCEPTED
  | CANCELED
  | FILLED
  | CANCEL_REJECTED
  deriving DecidableEq, Repr

structure MEClientResponse where
  type : ClientResponseType
  clientId : ClientId
  tickerId : TickerId
  clientOrderId : OrderId
  marketOrderId : OrderId
  side : Side
  price : Price
  execQty : Qty
  leavesQty : Qty
  deriving DecidableEq, Repr

/-- A response as it is constructed. -/
def MEClientResponse.new : MEClientResponse :=
  { type := .INVALID, clientId := ClientId_INVALID, tickerId := TickerId_INVALID
    clientOrderId := OrderId_INVALID, marketOrderId := OrderId_INVALID, side := .INVALID
    price := Price_INVALID, execQty := Qty_INVALID, leavesQty := Qty_INVALID }

inductive MarketUpdateType
  | INVALID
  | CLEAR
  | ADD
  | MODIFY
  | CANCEL
  | TRADE
  | SNAPSHOT_START
  | SNAPSHOT_END
  deriving DecidableEq, Repr

structure MEMarketUpdate where
  type : MarketUpdateType
  orderId : OrderId
  tickerId : TickerId
  side : Side
  price : Price
  qty : Qty
  priority : Priority
  deriving DecidableEq, Repr

/-- A market update on a multicast stream. -/
structure MDPMarketUpdate where
  seqNum : Nat
  meMarketUpdate : MEMarketUpdate
  deriving DecidableEq, Repr

/-- One call of `sendClientResponse` or of `sendMarketUpdate`. -/
inductive MEMessage
  | response (r : MEClientResponse)
  | update (u : MEMarketUpdate)
  deriving DecidableEq, Repr

/-- The client responses among the messages. -/
def responses : List MEMessage → List MEClientResponse :=
  List.filterMap fun
    | .response r => some r
    | .update _ => none

/-- The market updates among the messages. -/
def updates : List MEMessage → List MEMarketUpdate :=
  List.filterMap fun
    | .response _ => none
    | .update u => some u

section Channels

variable (m n : List MEMessage)

@[simp] theorem responses_nil : responses [] = [] := rfl

@[simp] theorem updates_nil : updates [] = [] := rfl

@[simp] theorem responses_response (r : MEClientResponse) :
    responses (.response r :: m) = r :: responses m := rfl

@[simp] theorem responses_update (u : MEMarketUpdate) :
    responses (.update u :: m) = responses m := rfl

@[simp] theorem updates_response (r : MEClientResponse) :
    updates (.response r :: m) = updates m := rfl

@[simp] theorem updates_update (u : MEMarketUpdate) :
    updates (.update u :: m) = u :: updates m := rfl

@[simp] theorem responses_append : responses (m ++ n) = responses m ++ responses n :=
  List.filterMap_append

@[simp] theorem updates_append : updates (m ++ n) = updates m ++ updates n :=
  List.filterMap_append

end Channels

end NanoTrade
