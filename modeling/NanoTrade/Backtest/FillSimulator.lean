import NanoTrade.Machine
import NanoTrade.Trading.MarketOrderBook

/-!
# The fill simulator

`backtest/fill_simulator.{h,cpp}`: what stands in for the exchange in a backtest. `run` goes
round its three phases; here each request, each market event and each pass over the best prices
is an input of its own. Every copy of the shared `BBO` is a part of the input, so that it may be
any, also a torn one.
-/

namespace NanoTrade

inductive FillMode
  | AGGRESSIVE_ONLY
  | QUEUE_AWARE
  deriving DecidableEq, Repr

structure PendingOrder where
  req : MEClientRequest
  bboAtSubmit : BBO
  /-- Remaining qty after any fills so far. -/
  leavesQty : Qty
  /-- Qty ahead of us at our price/side. -/
  queueAheadQty : Qty := 0
  /-- Max priority known at submit. -/
  priorityWatermark : Priority := 0
  /-- Queue snapshot taken & passive fills enabled. -/
  queueAware : Bool := false
  deriving DecidableEq, Repr

structure FillSimulator where
  mode : FillMode
  globalPriorityWatermark : Priority
  /-- `pending_`, in the order in which it is walked. -/
  pending : List PendingOrder
  nextMarketOrderId : OrderId
  fillsEmitted : Nat
  passiveFillsEmitted : Nat

/-- What the loop of `run` meets. -/
inductive FillInput
  /-- A request, with the best prices that a NEW copies. -/
  | request (r : MEClientRequest) (bbo : BBO)
  | marketEvent (ev : MEMarketUpdate)
  /-- The walk over the pending orders, with the best prices that it copies first and those that
  `snapshotQueueAhead` copies for each order. -/
  | bboPass (cur : BBO) (seen : OrderId → BBO)
  /-- The hash table of the pending orders changes the order in which it is walked. -/
  | rehash (order : List OrderId)

/-- What comes of it. -/
inductive FillEvent
  | answered (r : MEClientRequest) (answers : List MEClientResponse)
  | passiveFill (x : MEClientResponse)
  | aggressiveFill (x : MEClientResponse)
  deriving DecidableEq, Repr

namespace FillSimulator

def new (mode : FillMode) : FillSimulator :=
  { mode, globalPriorityWatermark := 0, pending := [], nextMarketOrderId := 1, fillsEmitted := 0
    passiveFillsEmitted := 0 }

/-- The response that `emitResponse` writes. -/
def emitResponse (req : MEClientRequest) (type : ClientResponseType) (execQty leavesQty : Qty)
    (fillPrice : Price) (marketOrderId : OrderId) : MEClientResponse :=
  { type, clientId := req.clientId, tickerId := req.tickerId, clientOrderId := req.orderId
    marketOrderId, side := req.side, price := fillPrice, execQty, leavesQty }

/-- A quantity of the best prices, 0 where it is invalid. -/
def avail (qty : Qty) : Qty :=
  if qty = Qty_INVALID then 0 else qty

/-- Aggressive fill against the current BBO snapshot. `min` truncates fill qty to available
opposite-side qty. -/
def tryAggressiveFill (req : MEClientRequest) (cur : BBO) (leavesQty : Qty)
    (marketOrderId : OrderId) : Option MEClientResponse :=
  if req.side = .BUY ∧ cur.askPrice ≠ Price_INVALID ∧ req.price ≥ cur.askPrice then
    let fillQty := min leavesQty (avail cur.askQty)
    if fillQty = 0 then none
    else some (emitResponse req .FILLED fillQty 0 cur.askPrice marketOrderId)
  else if req.side = .SELL ∧ cur.bidPrice ≠ Price_INVALID ∧ req.price ≤ cur.bidPrice then
    let fillQty := min leavesQty (avail cur.bidQty)
    if fillQty = 0 then none
    else some (emitResponse req .FILLED fillQty 0 cur.bidPrice marketOrderId)
  else none

/-- The side's total resting qty at the best price, 0 at another price. -/
def snapshotQueueAhead (cur : BBO) (price : Price) (side : Side) : Qty :=
  if side = .BUY ∧ price = cur.bidPrice ∧ cur.bidQty ≠ Qty_INVALID then cur.bidQty
  else if side = .SELL ∧ price = cur.askPrice ∧ cur.askQty ≠ Qty_INVALID then cur.askQty
  else 0

/-! ## The walks over the pending orders -/

/-- What a walk makes of an order: what stays of it, if anything, and a fill. -/
abbrev Visit :=
  PendingOrder → OrderId → Option PendingOrder × Option MEClientResponse

/-- `next_market_order_id_` behind these responses. -/
def advance (nextMarketOrderId : OrderId) (responses : Nat) : OrderId :=
  (nextMarketOrderId + responses) % 2 ^ 64

/-- Walk by iterator so we can erase filled orders safely. -/
def walk (visit : Visit) : List PendingOrder → OrderId → List PendingOrder × List MEClientResponse
  | [], _ => ([], [])
  | po :: rest, nextMarketOrderId =>
    let (kept, fill) := visit po nextMarketOrderId
    let (pending, fills) := walk visit rest (advance nextMarketOrderId fill.toList.length)
    (kept.toList ++ pending, fill.toList ++ fills)

section Walk

variable {visit : Visit} {pending : List PendingOrder}

theorem walk_cons (visit : Visit) (po : PendingOrder) (rest : List PendingOrder) (id : OrderId) :
    walk visit (po :: rest) id =
      ((visit po id).1.toList ++ (walk visit rest (advance id (visit po id).2.toList.length)).1,
        (visit po id).2.toList ++
          (walk visit rest (advance id (visit po id).2.toList.length)).2) :=
  rfl

/-- A walk visits every order with some id, and collects what the visits make. -/
theorem walk_visits (visit : Visit) (pending : List PendingOrder) (id : OrderId) :
    ∃ visits : List (PendingOrder × OrderId), visits.map Prod.fst = pending ∧
      walk visit pending id = (visits.flatMap fun v => (visit v.1 v.2).1.toList,
        visits.flatMap fun v => (visit v.1 v.2).2.toList) := by
  induction pending generalizing id with
  | nil => exact ⟨[], rfl, rfl⟩
  | cons po rest ih =>
      obtain ⟨visits, among, walked⟩ := ih (advance id (visit po id).2.toList.length)
      refine ⟨(po, id) :: visits, by rw [List.map_cons, among], ?_⟩
      rw [walk_cons, walked]
      rfl

/-- What a walk keeps comes of an order that it visited. -/
theorem mem_walk {po' : PendingOrder} {id : OrderId} (mem : po' ∈ (walk visit pending id).1) :
    ∃ po ∈ pending, ∃ id', (visit po id').1 = some po' := by
  obtain ⟨visits, rfl, walked⟩ := walk_visits visit pending id
  rw [walked] at mem
  obtain ⟨v, among, made⟩ := List.mem_flatMap.mp mem
  exact ⟨v.1, List.mem_map_of_mem among, v.2, Option.mem_toList.mp made⟩

/-- What a walk fills comes of an order that it visited. -/
theorem mem_walk_fills {x : MEClientResponse} {id : OrderId}
    (mem : x ∈ (walk visit pending id).2) :
    ∃ po ∈ pending, ∃ id', (visit po id').2 = some x := by
  obtain ⟨visits, rfl, walked⟩ := walk_visits visit pending id
  rw [walked] at mem
  obtain ⟨v, among, made⟩ := List.mem_flatMap.mp mem
  exact ⟨v.1, List.mem_map_of_mem among, v.2, Option.mem_toList.mp made⟩

/-- The orders keep their ids and their order in a walk. -/
theorem walk_sublist (keeps : ∀ po id po', (visit po id).1 = some po' → po'.req = po.req)
    (pending : List PendingOrder) (id : OrderId) :
    ((walk visit pending id).1.map fun po => po.req.orderId).Sublist
      (pending.map fun po => po.req.orderId) := by
  induction pending generalizing id with
  | nil => exact List.Sublist.refl _
  | cons po rest ih =>
      rw [walk_cons, List.map_cons]
      cases kept : (visit po id).1 with
      | none => exact (ih _).cons _
      | some po' =>
          rw [Option.toList_some, List.singleton_append, List.map_cons, keeps po id po' kept]
          exact (ih _).cons_cons _

end Walk

/-- A TRADE at the price and side of a pending order. -/
def onTrade (ev : MEMarketUpdate) : Visit := fun po nextMarketOrderId =>
  let consumedAhead :=
    if ev.priority ≤ po.priorityWatermark then min ev.qty po.queueAheadQty else 0
  let queueAheadQty := po.queueAheadQty - consumedAhead
  -- Any trade qty left over after clearing the queue ahead hits us.
  let tradeLeft := ev.qty - consumedAhead
  if queueAheadQty = 0 ∧ tradeLeft > 0 ∧ po.leavesQty > 0 then
    let fillQty := min po.leavesQty tradeLeft
    let leavesQty := po.leavesQty - fillQty
    (if leavesQty = 0 then none else some { po with queueAheadQty, leavesQty },
      some (emitResponse po.req .FILLED fillQty leavesQty po.req.price nextMarketOrderId))
  else (some { po with queueAheadQty }, none)

/-- A CANCEL at the price and side of a pending order: an order ahead of us left the queue. -/
def onCancel (ev : MEMarketUpdate) (po : PendingOrder) : PendingOrder :=
  if ev.priority ≤ po.priorityWatermark then
    { po with queueAheadQty := po.queueAheadQty - min ev.qty po.queueAheadQty }
  else po

/-- The order is in the queue that a market event is about. -/
def Matches (ev : MEMarketUpdate) (po : PendingOrder) : Prop :=
  po.queueAware = true ∧ po.req.price = ev.price ∧ po.req.side = ev.side

instance (ev : MEMarketUpdate) (po : PendingOrder) : Decidable (Matches ev po) :=
  inferInstanceAs (Decidable (_ ∧ _))

/-- Queue decrements and passive fills. -/
def visitMarketEvent (ev : MEMarketUpdate) : Visit := fun po nextMarketOrderId =>
  if Matches ev po then
    match ev.type with
    | .TRADE => onTrade ev po nextMarketOrderId
    | .CANCEL => (some (onCancel ev po), none)
    | _ => (some po, none)
  else (some po, none)

/-- Track the running priority watermark. -/
def watermark (globalPriorityWatermark : Priority) (ev : MEMarketUpdate) : Priority :=
  if ev.priority ≠ Priority_INVALID ∧ ev.priority > globalPriorityWatermark then ev.priority
  else globalPriorityWatermark

def bboChanged (a b : BBO) : Prop :=
  a.bidPrice ≠ b.bidPrice ∨ a.askPrice ≠ b.askPrice ∨ a.bidQty ≠ b.bidQty ∨ a.askQty ≠ b.askQty

instance (a b : BBO) : Decidable (bboChanged a b) :=
  inferInstanceAs (Decidable (_ ∨ _))

/-- Passive — hand off to queue tracking if we're in queue-aware mode and haven't snapshotted
yet. -/
def takePosition (mode : FillMode) (globalPriorityWatermark : Priority) (seen : BBO)
    (po : PendingOrder) : PendingOrder :=
  if mode = .QUEUE_AWARE ∧ po.queueAware = false then
    { po with
      queueAheadQty := snapshotQueueAhead seen po.req.price po.req.side
      priorityWatermark := globalPriorityWatermark
      queueAware := true }
  else po

/-- Attempt aggressive fills and the lazy queue snapshot: only orders whose submit-BBO differs
from the current BBO are eligible. -/
def visitBbo (mode : FillMode) (globalPriorityWatermark : Priority) (cur : BBO)
    (seen : OrderId → BBO) : Visit := fun po nextMarketOrderId =>
  if bboChanged cur po.bboAtSubmit then
    match tryAggressiveFill po.req cur po.leavesQty nextMarketOrderId with
    | some fill => (none, some fill)
    | none =>
      (some { takePosition mode globalPriorityWatermark (seen po.req.orderId) po with
        bboAtSubmit := cur }, none)
  else (some po, none)

/-! ## The three phases -/

variable (s : FillSimulator)

/-- `pending_.find`. -/
def find (orderId : OrderId) : Option PendingOrder :=
  s.pending.find? fun po => po.req.orderId = orderId

/-- One request. A NEW of an id that is pending is accepted, but not inserted. -/
def onRequest (r : MEClientRequest) (bbo : BBO) : FillSimulator × List FillEvent :=
  match r.type with
  | .NEW =>
    ({ s with
        nextMarketOrderId := advance s.nextMarketOrderId 1
        pending := if (s.find r.orderId).isSome then s.pending
          else s.pending ++ [{ req := r, bboAtSubmit := bbo, leavesQty := r.qty }] },
      [.answered r [emitResponse r .ACCEPTED 0 r.qty r.price s.nextMarketOrderId]])
  | .CANCEL =>
    if (s.find r.orderId).isSome then
      ({ s with
          nextMarketOrderId := advance s.nextMarketOrderId 1
          pending := s.pending.filter fun po => po.req.orderId ≠ r.orderId },
        [.answered r [emitResponse r .CANCELED 0 0 r.price s.nextMarketOrderId]])
    else
      ({ s with nextMarketOrderId := advance s.nextMarketOrderId 1 },
        [.answered r [emitResponse r .CANCEL_REJECTED 0 0 r.price s.nextMarketOrderId]])
  | .INVALID => (s, [.answered r []])

/-- Apply a single market event to all pending orders. -/
def onSimMarketEvent (ev : MEMarketUpdate) : FillSimulator × List FillEvent :=
  let (pending, fills) := walk (visitMarketEvent ev) s.pending s.nextMarketOrderId
  ({ s with
      globalPriorityWatermark := watermark s.globalPriorityWatermark ev
      pending
      nextMarketOrderId := advance s.nextMarketOrderId fills.length
      fillsEmitted := s.fillsEmitted + fills.length
      passiveFillsEmitted := s.passiveFillsEmitted + fills.length },
    fills.map .passiveFill)

/-- The third phase. -/
def onBbo (cur : BBO) (seen : OrderId → BBO) : FillSimulator × List FillEvent :=
  let (pending, fills) :=
    walk (visitBbo s.mode s.globalPriorityWatermark cur seen) s.pending s.nextMarketOrderId
  ({ s with
      pending
      nextMarketOrderId := advance s.nextMarketOrderId fills.length
      fillsEmitted := s.fillsEmitted + fills.length },
    fills.map .aggressiveFill)

/-- The pending orders in another order, if it is one of them all. -/
def rehash (order : List OrderId) : FillSimulator :=
  if (order.filterMap s.find).Perm s.pending then { s with pending := order.filterMap s.find }
  else s

/-- One input; the market events are only read in QUEUE_AWARE mode. -/
def step : FillInput → FillSimulator × List FillEvent
  | .request r bbo => s.onRequest r bbo
  | .marketEvent ev =>
    match s.mode with
    | .QUEUE_AWARE => s.onSimMarketEvent ev
    | .AGGRESSIVE_ONLY => (s, [])
  | .bboPass cur seen => s.onBbo cur seen
  | .rehash order => (s.rehash order, [])

end FillSimulator

end NanoTrade
