import NanoTrade.Exchange.Messages
import NanoTrade.Packed

/-!
# The packed structures on the wire

The layouts of `MEClientRequest`, `MEClientResponse`, `MEMarketUpdate` and of the numbered
packets `OMClientRequest`, `OMClientResponse` and `MDPMarketUpdate`, field by field in the order
of the source. A byte outside an enumeration is read as its `INVALID`.
-/

namespace NanoTrade

def ClientRequestType.code : ClientRequestType → UInt8
  | .INVALID => 0
  | .NEW => 1
  | .CANCEL => 2

def ClientRequestType.ofCode (b : UInt8) : ClientRequestType :=
  if b = 1 then .NEW else if b = 2 then .CANCEL else .INVALID

def ClientResponseType.code : ClientResponseType → UInt8
  | .INVALID => 0
  | .ACCEPTED => 1
  | .CANCELED => 2
  | .FILLED => 3
  | .CANCEL_REJECTED => 4

def ClientResponseType.ofCode (b : UInt8) : ClientResponseType :=
  if b = 1 then .ACCEPTED else if b = 2 then .CANCELED else if b = 3 then .FILLED
  else if b = 4 then .CANCEL_REJECTED else .INVALID

def MarketUpdateType.code : MarketUpdateType → UInt8
  | .INVALID => 0
  | .CLEAR => 1
  | .ADD => 2
  | .MODIFY => 3
  | .CANCEL => 4
  | .TRADE => 5
  | .SNAPSHOT_START => 6
  | .SNAPSHOT_END => 7

def MarketUpdateType.ofCode (b : UInt8) : MarketUpdateType :=
  if b = 1 then .CLEAR else if b = 2 then .ADD else if b = 3 then .MODIFY
  else if b = 4 then .CANCEL else if b = 5 then .TRADE else if b = 6 then .SNAPSHOT_START
  else if b = 7 then .SNAPSHOT_END else .INVALID

/-- `SELL` is the byte of `-1`. -/
def Side.code : Side → UInt8
  | .INVALID => 0
  | .BUY => 1
  | .SELL => 255
  | .MAX => 2

def Side.ofCode (b : UInt8) : Side :=
  if b = 1 then .BUY else if b = 255 then .SELL else if b = 2 then .MAX else .INVALID

namespace Packed

def uint32 : Packed Nat := unsigned 4

def uint64 : Packed Nat := unsigned 8

def int64 : Packed Int := signed 8 (2 ^ 63) (by decide)

def side : Packed Side := code Side.code Side.ofCode fun a => by cases a <;> rfl

/-- The sequence numbers, of type `size_t`. -/
def seqNum : Packed UInt64 :=
  uint64.via UInt64.toNat UInt64.ofNat fun _ => UInt64.ofNat_toNat

/-- `type_`, `client_id_`, `ticker_id_`, `order_id_`, `side_`, `price_`, `qty_`. -/
def clientRequest : Packed MEClientRequest :=
  ((code ClientRequestType.code ClientRequestType.ofCode fun a => by cases a <;> rfl).pair
    (uint32.pair (uint32.pair (uint64.pair (side.pair (int64.pair uint32)))))).via
    (fun r => (r.type, r.clientId, r.tickerId, r.orderId, r.side, r.price, r.qty))
    (fun f => ⟨f.1, f.2.1, f.2.2.1, f.2.2.2.1, f.2.2.2.2.1, f.2.2.2.2.2.1, f.2.2.2.2.2.2⟩)
    fun _ => rfl

/-- `type_`, `client_id_`, `ticker_id_`, `client_order_id_`, `market_order_id_`, `side_`,
`price_`, `exec_qty_`, `leaves_qty_`. -/
def clientResponse : Packed MEClientResponse :=
  ((code ClientResponseType.code ClientResponseType.ofCode fun a => by cases a <;> rfl).pair
    (uint32.pair (uint32.pair (uint64.pair (uint64.pair (side.pair
      (int64.pair (uint32.pair uint32)))))))).via
    (fun r => (r.type, r.clientId, r.tickerId, r.clientOrderId, r.marketOrderId, r.side,
      r.price, r.execQty, r.leavesQty))
    (fun f => ⟨f.1, f.2.1, f.2.2.1, f.2.2.2.1, f.2.2.2.2.1, f.2.2.2.2.2.1, f.2.2.2.2.2.2.1,
      f.2.2.2.2.2.2.2.1, f.2.2.2.2.2.2.2.2⟩)
    fun _ => rfl

/-- `type_`, `order_id_`, `ticker_id_`, `side_`, `price_`, `qty_`, `priority_`. -/
def marketUpdate : Packed MEMarketUpdate :=
  ((code MarketUpdateType.code MarketUpdateType.ofCode fun a => by cases a <;> rfl).pair
    (uint64.pair (uint32.pair (side.pair (int64.pair (uint32.pair uint64)))))).via
    (fun u => (u.type, u.orderId, u.tickerId, u.side, u.price, u.qty, u.priority))
    (fun f => ⟨f.1, f.2.1, f.2.2.1, f.2.2.2.1, f.2.2.2.2.1, f.2.2.2.2.2.1, f.2.2.2.2.2.2⟩)
    fun _ => rfl

end Packed

/-- The fields fit their C++ types. -/
def MEClientRequest.InRange (r : MEClientRequest) : Prop :=
  r.clientId < 2 ^ 32 ∧ r.tickerId < 2 ^ 32 ∧ r.orderId < 2 ^ 64 ∧
    (-2 ^ 63 ≤ r.price ∧ r.price < 2 ^ 63) ∧ r.qty < 2 ^ 32

instance : DecidablePred MEClientRequest.InRange := fun r =>
  inferInstanceAs (Decidable (r.clientId < 2 ^ 32 ∧ r.tickerId < 2 ^ 32 ∧ r.orderId < 2 ^ 64 ∧
    (-2 ^ 63 ≤ r.price ∧ r.price < 2 ^ 63) ∧ r.qty < 2 ^ 32))

def MEClientResponse.InRange (r : MEClientResponse) : Prop :=
  r.clientId < 2 ^ 32 ∧ r.tickerId < 2 ^ 32 ∧ r.clientOrderId < 2 ^ 64 ∧
    r.marketOrderId < 2 ^ 64 ∧ (-2 ^ 63 ≤ r.price ∧ r.price < 2 ^ 63) ∧
    r.execQty < 2 ^ 32 ∧ r.leavesQty < 2 ^ 32

instance : DecidablePred MEClientResponse.InRange := fun r =>
  inferInstanceAs (Decidable (r.clientId < 2 ^ 32 ∧ r.tickerId < 2 ^ 32 ∧
    r.clientOrderId < 2 ^ 64 ∧ r.marketOrderId < 2 ^ 64 ∧
    (-2 ^ 63 ≤ r.price ∧ r.price < 2 ^ 63) ∧ r.execQty < 2 ^ 32 ∧ r.leavesQty < 2 ^ 32))

/-- Client request structure published over the network by the order gateway client. -/
structure OMClientRequest where
  seqNum : UInt64
  meClientRequest : MEClientRequest
  deriving DecidableEq, Repr

/-- Client response structure published over the network by the order server. -/
structure OMClientResponse where
  seqNum : UInt64
  meClientResponse : MEClientResponse
  deriving DecidableEq, Repr

namespace Packed

def omClientRequest : Packed OMClientRequest :=
  (seqNum.pair clientRequest).via (fun m => (m.seqNum, m.meClientRequest))
    (fun f => ⟨f.1, f.2⟩) fun _ => rfl

def omClientResponse : Packed OMClientResponse :=
  (seqNum.pair clientResponse).via (fun m => (m.seqNum, m.meClientResponse))
    (fun f => ⟨f.1, f.2⟩) fun _ => rfl

def mdpMarketUpdate : Packed MDPMarketUpdate :=
  (uint64.pair marketUpdate).via (fun m => (m.seqNum, m.meMarketUpdate)) (fun f => ⟨f.1, f.2⟩)
    fun _ => rfl

/-- What the publisher writes in two calls of `send` is one record of the stream. -/
theorem pack_mdpMarketUpdate (m : MDPMarketUpdate) :
    mdpMarketUpdate.pack m = uint64.pack m.seqNum ++ marketUpdate.pack m.meMarketUpdate :=
  rfl

theorem size_mdpMarketUpdate : mdpMarketUpdate.size = 42 := rfl

/-- What the gateway writes in two calls of `send` is the packet that the server reads. -/
theorem pack_omClientRequest (m : OMClientRequest) :
    omClientRequest.pack m = seqNum.pack m.seqNum ++ clientRequest.pack m.meClientRequest :=
  rfl

theorem pack_omClientResponse (m : OMClientResponse) :
    omClientResponse.pack m =
      seqNum.pack m.seqNum ++ clientResponse.pack m.meClientResponse := rfl

theorem holds_seqNum (n : UInt64) : seqNum.Holds n := by
  have := n.toNat_lt
  exact this

theorem holds_omClientRequest {m : OMClientRequest} (fits : m.meClientRequest.InRange) :
    omClientRequest.Holds m := by
  obtain ⟨client, ticker, order, price, qty⟩ := fits
  exact ⟨holds_seqNum _, trivial, client, ticker, order, trivial, price, qty⟩

theorem holds_omClientResponse {m : OMClientResponse} (fits : m.meClientResponse.InRange) :
    omClientResponse.Holds m := by
  obtain ⟨client, ticker, order, market, price, exec, leaves⟩ := fits
  exact ⟨holds_seqNum _, trivial, client, ticker, order, market, trivial, price, exec, leaves⟩

end Packed

/-- `sizeof(OMClientRequest)` and `sizeof(OMClientResponse)`. -/
example : Packed.omClientRequest.size = 38 ∧ Packed.omClientResponse.size = 50 := ⟨rfl, rfl⟩

end NanoTrade
