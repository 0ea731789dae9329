import NanoTrade.Backtest.FillProtocol
import NanoTrade.Backtest.SimulatedOrders
import NanoTrade.Trading.PositionLimit

/-!
# A strategy and the fill simulator

`backtest/backtest_main.cpp` puts the fill simulator in the place of the exchange: one trade
engine, the simulator, and the requests and responses on their way between them. The algorithm
may call `moveOrders` at any time; the market may show the simulator any events and any best
prices.

`SimJoint` is the invariant of the whole: the order slots, both channels and the pending orders
agree on every order (`SimPhase`). `SimJoint.step` carries it over one step.
-/

namespace NanoTrade

/-- The channels hold their messages in the order in which they were sent. -/
structure BacktestSession where
  tradeEngine : TradeEngine
  fillSimulator : FillSimulator
  clientRequests : List MEClientRequest
  clientResponses : List MEClientResponse

inductive BacktestInput
  /-- The algorithm calls `moveOrders`. -/
  | moveOrders (tickerId : TickerId) (bidPrice askPrice : Price) (clip : Qty)
      (lossTooLarge : Bool)
  /-- The trade engine reads its next response. -/
  | deliver
  /-- The simulator reads the next request, and copies these best prices. -/
  | process (bbo : BBO)
  /-- The simulator reads a market event. -/
  | marketEvent (ev : MEMarketUpdate)
  /-- The simulator walks over the pending orders. -/
  | bboPass (cur : BBO) (seen : OrderId → BBO)
  /-- The hash table of the pending orders changes its order. -/
  | rehash (order : List OrderId)

namespace BacktestSession

def new (clientId : ClientId) (riskCfg : TickerId → RiskCfg) (mode : FillMode) :
    BacktestSession :=
  { tradeEngine := .new clientId riskCfg, fillSimulator := .new mode
    clientRequests := [], clientResponses := [] }

/-- The simulator takes an input, and its responses are on their way. -/
def simulate (s : BacktestSession) (i : FillInput) : BacktestSession × List FillEvent :=
  let (fillSimulator, events) := s.fillSimulator.step i
  ({ s with
    fillSimulator
    clientResponses := s.clientResponses ++ events.flatMap FillEvent.responses }, events)

def step (s : BacktestSession) : BacktestInput → Except Fault (BacktestSession × List FillEvent)
  | .moveOrders tickerId bidPrice askPrice clip lossTooLarge => do
    let (tradeEngine, sent) ←
      s.tradeEngine.moveOrders tickerId bidPrice askPrice clip lossTooLarge
    pure ({ s with tradeEngine, clientRequests := s.clientRequests ++ sent }, [])
  | .deliver =>
    match s.clientResponses with
    | [] => .ok (s, [])
    | x :: rest => do
      let tradeEngine ← s.tradeEngine.onOrderUpdate x
      pure ({ s with tradeEngine, clientResponses := rest }, [])
  | .process bbo =>
    match s.clientRequests with
    | [] => .ok (s, [])
    | r :: rest => .ok ({ s with clientRequests := rest }.simulate (.request r bbo))
  | .marketEvent ev => .ok (s.simulate (.marketEvent ev))
  | .bboPass cur seen => .ok (s.simulate (.bboPass cur seen))
  | .rehash order => .ok (s.simulate (.rehash order))

/-- The engine's end of the session. Behind it is an exchange to which nobody talks. -/
def toSession (s : BacktestSession) : Session :=
  { tradeEngine := s.tradeEngine, exchange := .new fun _ => 0
    clientRequests := s.clientRequests, clientResponses := s.clientResponses }

/-- The order slot of a side. -/
def slot (s : BacktestSession) (tickerId : TickerId) (side : BookSide) : OMOrder :=
  s.toSession.slot tickerId side

/-- The responses for a side that the order manager has not seen. -/
def told (s : BacktestSession) (tickerId : TickerId) (side : BookSide) : List MEClientResponse :=
  FillSimulator.toldOf s.clientResponses tickerId side.toSide

/-- The orders of a side that are pending at the simulator. -/
def pendingOf (s : BacktestSession) (tickerId : TickerId) (side : BookSide) :
    List PendingOrder :=
  FillSimulator.pendingOf s.fillSimulator.pending tickerId side.toSide

/-- Order ids have not come round. -/
def Admissible (s : BacktestSession) (_ : BacktestInput) : Prop :=
  s.tradeEngine.orderManager.nextOrderId + 2 < 2 ^ 64

instance (s : BacktestSession) : DecidablePred (Admissible s) :=
  fun _ => inferInstanceAs (Decidable (_ < _))

/-! ## The invariant -/

/-- The joint invariant of the order manager, the channels and the simulator. -/
structure SimJoint (clientId : ClientId) (s : BacktestSession) : Prop where
  client : s.tradeEngine.clientId = clientId
  phase : ∀ tickerId side, SimPhase clientId (s.slot tickerId side)
    (s.toSession.newsInFlight tickerId side) (s.told tickerId side) (s.pendingOf tickerId side)
  requests : ∀ r ∈ s.clientRequests, ∃ side : BookSide, r.side = side.toSide
  responses : ∀ x ∈ s.clientResponses, ∃ side : BookSide, x.side = side.toSide
  pending : ∀ po ∈ s.fillSimulator.pending, ∃ side : BookSide, po.req.side = side.toSide
  placed : ∀ tickerId side, (s.slot tickerId side).orderState ≠ .INVALID →
    (s.slot tickerId side).tickerId = tickerId ∧ (s.slot tickerId side).side = side.toSide
  numbered : s.toSession.Numbered
  /-- A CANCEL is addressed to the slot of its order. -/
  addressed : ∀ r ∈ s.clientRequests, r.type = .CANCEL → ∀ tickerId side,
    (s.slot tickerId side).orderState ≠ .INVALID → (s.slot tickerId side).orderId = r.orderId →
    r.tickerId = tickerId ∧ r.side = side.toSide
  /-- An order that waits to be cancelled has its CANCEL on the way. -/
  asked : ∀ tickerId side, (s.slot tickerId side).orderState = .PENDING_CANCEL →
    s.pendingOf tickerId side ≠ [] →
    ∃ r ∈ s.clientRequests, r.type = .CANCEL ∧ r.orderId = (s.slot tickerId side).orderId

variable {clientId : ClientId} {s s' : BacktestSession} {r : MEClientRequest}
  {out : List FillEvent}

theorem SimJoint.new (clientId : ClientId) (riskCfg : TickerId → RiskCfg) (mode : FillMode) :
    SimJoint clientId (new clientId riskCfg mode) := by
  have free : ∀ tickerId side,
      ((BacktestSession.new clientId riskCfg mode).slot tickerId side).orderState = .INVALID :=
    fun _ _ => rfl
  refine ⟨rfl, ?_, ?_, ?_, ?_, ?_, ⟨?_, ?_, ?_⟩, ?_, ?_⟩
  · exact fun tickerId side => .idle (.inl rfl)
  · exact fun r mem => absurd mem List.not_mem_nil
  · exact fun x mem => absurd mem List.not_mem_nil
  · exact fun po mem => absurd mem List.not_mem_nil
  · exact fun tickerId side used => (used (free tickerId side)).elim
  · exact fun tickerId side used => (used (free tickerId side)).elim
  · exact fun t side t' side' used => (used (free t side)).elim
  · exact fun r mem => absurd mem List.not_mem_nil
  · exact fun r mem => absurd mem List.not_mem_nil
  · intro tickerId side waits
    rw [free] at waits
    cases waits

/-- A pending order is the one of its slot. -/
theorem SimJoint.slot_of_pending (joint : SimJoint clientId s) {po : PendingOrder}
    (mem : po ∈ s.fillSimulator.pending) : ∃ side : BookSide, po.req.side = side.toSide ∧
      s.pendingOf po.req.tickerId side = [po] ∧
      (s.slot po.req.tickerId side).orderState ≠ .INVALID ∧
      (s.slot po.req.tickerId side).orderId = po.req.orderId := by
  obtain ⟨side, sided⟩ := joint.pending po mem
  have inside : po ∈ s.pendingOf po.req.tickerId side :=
    List.mem_filter.mpr ⟨mem, by simp [sided]⟩
  obtain ⟨only, used, -, sent, req⟩ := (joint.phase po.req.tickerId side).mem_rest inside
  exact ⟨side, sided, only, used, (congrArg MEClientRequest.orderId req).symm⟩

/-! ## The algorithm moves an order -/

/-- What a move of one order leaves behind. -/
def moved (s : BacktestSession) (result : OrderManager × List MEClientRequest) :
    BacktestSession :=
  { s with
    tradeEngine := { s.tradeEngine with orderManager := result.1 }
    clientRequests := s.clientRequests ++ result.2 }

section Slots

variable {tickerId : TickerId} {side : BookSide}

/-- A cancel of a live order. -/
theorem SimJoint.cancelOrder (joint : SimJoint clientId s)
    (live : (s.slot tickerId side).orderState = .LIVE) :
    SimJoint clientId
      (s.moved (s.tradeEngine.orderManager.cancelOrder clientId tickerId side.toSide)) := by
  have used : (s.slot tickerId side).orderState ≠ .INVALID := by
    rw [live]
    exact fun same => by cases same
  obtain ⟨here, sided⟩ := joint.placed tickerId side used
  have numbered := joint.numbered.cancelOrder used clientId
  obtain ⟨self, other⟩ : (s.moved (s.tradeEngine.orderManager.cancelOrder clientId tickerId
        side.toSide)).slot tickerId side =
          { s.slot tickerId side with orderState := .PENDING_CANCEL } ∧ _ :=
    Session.moved_set (s := s.toSession) rfl
  have same : ∀ {t side'}, ¬ (t = tickerId ∧ side'.toSide = side.toSide) →
      (s.moved (s.tradeEngine.orderManager.cancelOrder clientId tickerId side.toSide)).slot t
        side' = s.slot t side' := other
  have noNew : ∀ t side', (s.moved (s.tradeEngine.orderManager.cancelOrder clientId tickerId
      side.toSide)).toSession.newsInFlight t side' = s.toSession.newsInFlight t side' := by
    intro t side'
    have added := Session.moved_newsInFlight (s := s.toSession)
      (s.tradeEngine.orderManager.cancelOrder clientId tickerId side.toSide) t side'
    exact added.trans (List.append_nil _)
  have request : ∀ r ∈ (s.moved (s.tradeEngine.orderManager.cancelOrder clientId tickerId
      side.toSide)).clientRequests, r ∈ s.clientRequests ∨
        r = OrderManager.cancelRequest clientId (s.slot tickerId side) := by
    intro r mem
    rcases List.mem_append.mp mem with old | new
    · exact .inl old
    · exact .inr (List.mem_singleton.mp new)
  refine ⟨joint.client, ?_, ?_, joint.responses, joint.pending, ?_, numbered, ?_, ?_⟩
  · intro t side'
    rw [noNew]
    rcases Session.slot_cases t tickerId side' side with ⟨rfl, rfl⟩ | apart
    · rw [self]
      exact (joint.phase t side').cancelOrder live
    · rw [same apart]
      exact joint.phase t side'
  · intro r mem
    rcases request r mem with old | rfl
    · exact joint.requests r old
    · exact ⟨side, sided⟩
  · intro t side' now
    rcases Session.slot_cases t tickerId side' side with ⟨rfl, rfl⟩ | apart
    · rw [self]
      exact joint.placed t side' used
    · rw [same apart] at now ⊢
      exact joint.placed t side' now
  · intro r mem isCancel t side' now sameId
    have before : (s.slot t side').orderState ≠ .INVALID ∧
        (s.slot t side').orderId = r.orderId := by
      rcases Session.slot_cases t tickerId side' side with ⟨rfl, rfl⟩ | apart
      · rw [self] at sameId
        exact ⟨used, sameId⟩
      · rw [same apart] at now sameId
        exact ⟨now, sameId⟩
    rcases request r mem with old | rfl
    · exact joint.addressed r old isCancel t side' before.1 before.2
    · obtain ⟨rfl, rfl⟩ := joint.numbered.distinct t side' tickerId side before.1 used before.2
      exact ⟨here, sided⟩
  · intro t side' waits rests
    rcases Session.slot_cases t tickerId side' side with ⟨rfl, rfl⟩ | apart
    · rw [self]
      exact ⟨_, List.mem_append_right _ List.mem_cons_self, rfl, rfl⟩
    · rw [same apart] at waits ⊢
      obtain ⟨x, mem, rest⟩ := joint.asked t side' waits rests
      exact ⟨x, List.mem_append_left _ mem, rest⟩

/-- A new order in a free slot. -/
theorem SimJoint.newOrder (joint : SimJoint clientId s)
    (free : (s.slot tickerId side).orderState = .INVALID ∨
      (s.slot tickerId side).orderState = .DEAD)
    (narrow : s.tradeEngine.orderManager.nextOrderId + 1 < 2 ^ 64) (price : Price) (qty : Qty) :
    SimJoint clientId
      (s.moved (s.tradeEngine.orderManager.newOrder clientId tickerId side.toSide price qty)) := by
  have numbered : (s.moved (s.tradeEngine.orderManager.newOrder clientId tickerId side.toSide price
    qty)).toSession.Numbered := joint.numbered.newOrder narrow clientId price qty
  obtain ⟨self, other⟩ : (s.moved (s.tradeEngine.orderManager.newOrder clientId tickerId
        side.toSide price qty)).slot tickerId side =
          s.tradeEngine.orderManager.pendingNew tickerId side.toSide price qty ∧ _ :=
    Session.moved_set (s := s.toSession) rfl
  have request : ∀ r ∈ (s.moved (s.tradeEngine.orderManager.newOrder clientId tickerId
      side.toSide price qty)).clientRequests, r ∈ s.clientRequests ∨
        r = OrderManager.newRequest clientId
          (s.tradeEngine.orderManager.pendingNew tickerId side.toSide price qty) := by
    intro r mem
    rcases List.mem_append.mp mem with old | new
    · exact .inl old
    · exact .inr (List.mem_singleton.mp new)
  have same : ∀ {t side'}, ¬ (t = tickerId ∧ side'.toSide = side.toSide) →
      (s.moved (s.tradeEngine.orderManager.newOrder clientId tickerId side.toSide price
        qty)).slot t side' = s.slot t side' := other
  refine ⟨joint.client, ?_, ?_, joint.responses, joint.pending, ?_, numbered, ?_, ?_⟩
  · intro t side'
    have news : (s.moved (s.tradeEngine.orderManager.newOrder clientId tickerId side.toSide price
        qty)).toSession.newsInFlight t side' = s.toSession.newsInFlight t side' ++
        [OrderManager.newRequest clientId (s.tradeEngine.orderManager.pendingNew tickerId
          side.toSide price qty)].filter fun r =>
            r.type = .NEW ∧ r.tickerId = t ∧ r.side = side'.toSide :=
      Session.moved_newsInFlight (s := s.toSession) _ t side'
    rw [news]
    rcases Session.slot_cases t tickerId side' side with ⟨rfl, rfl⟩ | apart
    · rw [self, List.filter_cons_of_pos (by simp [OrderManager.newRequest,
        OrderManager.pendingNew])]
      exact (joint.phase t side').newOrder free rfl
    · rw [same apart, List.filter_cons_of_neg, List.filter_nil, List.append_nil]
      · exact joint.phase t side'
      · rw [decide_eq_true_eq]
        exact fun here => apart ⟨here.2.1.symm, here.2.2.symm⟩
  · intro r mem
    rcases request r mem with old | rfl
    · exact joint.requests r old
    · exact ⟨side, rfl⟩
  · intro t side' used
    rcases Session.slot_cases t tickerId side' side with ⟨rfl, rfl⟩ | apart
    · rw [self]
      exact ⟨rfl, rfl⟩
    · rw [same apart] at used ⊢
      exact joint.placed t side' used
  · intro r mem isCancel t side' used sameId
    rcases request r mem with old | rfl
    · obtain ⟨bound, -⟩ := joint.numbered.canceling r old isCancel
      rcases Session.slot_cases t tickerId side' side with ⟨rfl, rfl⟩ | apart
      · rw [self] at sameId
        exact (Nat.ne_of_gt bound sameId).elim
      · rw [same apart] at used sameId
        exact joint.addressed r old isCancel t side' used sameId
    · cases isCancel
  · intro t side' waits rests
    rcases Session.slot_cases t tickerId side' side with ⟨rfl, rfl⟩ | apart
    · rw [self] at waits
      cases waits
    · rw [same apart] at waits ⊢
      obtain ⟨x, mem, rest⟩ := joint.asked t side' waits rests
      exact ⟨x, List.mem_append_left _ mem, rest⟩

end Slots

/-- A move of one order, with the risk check in front of it. -/
def moveOrder (s : BacktestSession) (tickerId : TickerId) (side : BookSide) (lossTooLarge : Bool)
    (price : Price) (qty : Qty) : BacktestSession :=
  s.moved (s.tradeEngine.orderManager.moveOrder s.tradeEngine.clientId tickerId side.toSide
    (s.tradeEngine.checkPreTradeRisk tickerId lossTooLarge) price qty)

theorem SimJoint.moveOrder (joint : SimJoint clientId s)
    (narrow : s.tradeEngine.orderManager.nextOrderId + 1 < 2 ^ 64) (tickerId : TickerId)
    (side : BookSide) (lossTooLarge : Bool) (price : Price) (qty : Qty) :
    SimJoint clientId (s.moveOrder tickerId side lossTooLarge price qty) ∧
      (s.moveOrder tickerId side lossTooLarge price qty).tradeEngine.orderManager.nextOrderId ≤
        s.tradeEngine.orderManager.nextOrderId + 1 := by
  unfold BacktestSession.moveOrder
  rw [joint.client]
  rcases OrderManager.moveOrder_cases s.tradeEngine.orderManager clientId tickerId side.toSide
    (s.tradeEngine.checkPreTradeRisk tickerId lossTooLarge) price qty with
    nothing | ⟨live, cancels⟩ | ⟨free, -, -, sends⟩
  · rw [nothing, moved, List.append_nil]
    exact ⟨joint, Nat.le_succ _⟩
  · rw [cancels]
    exact ⟨joint.cancelOrder live, Nat.le_succ _⟩
  · rw [sends]
    exact ⟨joint.newOrder free narrow price qty, Nat.mod_le _ _⟩

/-- `moveOrders` moves the bid, then the ask. -/
theorem step_moveOrders {tickerId : TickerId} {bidPrice askPrice : Price} {clip : Qty}
    {lossTooLarge : Bool}
    (stepped : s.step (.moveOrders tickerId bidPrice askPrice clip lossTooLarge) = .ok (s', out)) :
    s' = (s.moveOrder tickerId .bid lossTooLarge bidPrice clip).moveOrder tickerId .ask lossTooLarge
      askPrice clip ∧ out = [] := by
  obtain ⟨⟨tradeEngine, sent⟩, moves, last⟩ := bind_eq_ok.mp stepped
  cases last
  obtain ⟨bid, ask, rfl, rfl, rfl, rfl⟩ := TradeEngine.moveOrders_eq_ok moves
  rw [← List.append_assoc]
  exact ⟨rfl, rfl⟩

/-! ## The trade engine reads a response -/

/-- What the next response leaves behind. -/
def delivered (s : BacktestSession) (x : MEClientResponse) (rest : List MEClientResponse) :
    BacktestSession :=
  { s with tradeEngine := s.tradeEngine.updated x, clientResponses := rest }

section Deliver

variable {x : MEClientResponse} {rest : List MEClientResponse}

/-- The responses for a slot behind the one at the front of the channel. -/
theorem told_front (front : s.clientResponses = x :: rest) (tickerId : TickerId)
    (side : BookSide) : s.told tickerId side =
      (if x.type ≠ .CANCEL_REJECTED ∧ x.tickerId = tickerId ∧ x.side = side.toSide then [x]
        else []) ++ (s.delivered x rest).told tickerId side := by
  have split : FillSimulator.toldOf (x :: rest) tickerId side.toSide =
      FillSimulator.toldOf [x] tickerId side.toSide ++
        FillSimulator.toldOf rest tickerId side.toSide :=
    FillSimulator.toldOf_append [x] rest tickerId side.toSide
  rw [told, front, split, told, delivered, FillSimulator.toldOf, List.filter_singleton,
    Bool.cond_decide]

/-- A slot that reads its next response, or none. -/
theorem SimJoint.phase_delivered (joint : SimJoint clientId s)
    (front : s.clientResponses = x :: rest) (tickerId : TickerId) (side : BookSide) :
    SimPhase clientId ((s.delivered x rest).slot tickerId side)
      (s.toSession.newsInFlight tickerId side) ((s.delivered x rest).told tickerId side)
      (s.pendingOf tickerId side) := by
  have phase := joint.phase tickerId side
  rw [told_front front] at phase
  by_cases here : tickerId = x.tickerId ∧ side.toSide = x.side
  · obtain ⟨rfl, sided⟩ := here
    have read : (s.delivered x rest).slot x.tickerId side =
        OrderManager.updated x (s.slot x.tickerId side) :=
      Session.delivered_slot_self (s := s.toSession) x rest side sided.symm
    rw [read]
    by_cases rejected : x.type = .CANCEL_REJECTED
    · rw [if_neg (fun now => now.1 rejected), List.nil_append] at phase
      rw [OrderManager.updated, rejected]
      exact phase
    · rw [if_pos ⟨rejected, rfl, sided.symm⟩] at phase
      exact phase.deliver
  · rw [if_neg (fun now => here ⟨now.2.1.symm, now.2.2.symm⟩), List.nil_append] at phase
    have same : (s.delivered x rest).slot tickerId side = s.slot tickerId side :=
      Session.delivered_slot_of_ne (s := s.toSession) here
    rw [same]
    exact phase

/-- A response changes nothing of a slot but its state and its quantity. It makes a slot neither
used nor wait, and does not stop it from waiting except for good. -/
theorem SimJoint.slot_delivered (joint : SimJoint clientId s)
    (front : s.clientResponses = x :: rest) (tickerId : TickerId) (side : BookSide) :
    ((s.delivered x rest).slot tickerId side).orderId = (s.slot tickerId side).orderId ∧
      ((s.delivered x rest).slot tickerId side).tickerId = (s.slot tickerId side).tickerId ∧
      ((s.delivered x rest).slot tickerId side).side = (s.slot tickerId side).side ∧
      (((s.delivered x rest).slot tickerId side).orderState ≠ .INVALID →
        (s.slot tickerId side).orderState ≠ .INVALID) ∧
      ((s.slot tickerId side).orderState = .PENDING_CANCEL ∨
          (s.slot tickerId side).orderState = .DEAD →
        ((s.delivered x rest).slot tickerId side).orderState = .PENDING_CANCEL ∨
          ((s.delivered x rest).slot tickerId side).orderState = .DEAD) ∧
      (((s.delivered x rest).slot tickerId side).orderState = .PENDING_CANCEL →
        (s.slot tickerId side).orderState = .PENDING_CANCEL) := by
  by_cases here : tickerId = x.tickerId ∧ side.toSide = x.side
  · obtain ⟨rfl, sided⟩ := here
    have read : (s.delivered x rest).slot x.tickerId side =
        OrderManager.updated x (s.slot x.tickerId side) :=
      Session.delivered_slot_self (s := s.toSession) x rest side sided.symm
    have phase := joint.phase x.tickerId side
    rw [told_front front] at phase
    rw [read]
    refine ⟨OrderManager.updated_orderId x _, OrderManager.updated_tickerId x _,
      OrderManager.updated_side x _, ?_⟩
    by_cases rejected : x.type = .CANCEL_REJECTED
    · rw [OrderManager.updated, rejected]
      exact ⟨id, id, id⟩
    · rw [if_pos ⟨rejected, rfl, sided.symm⟩] at phase
      rcases phase.head with ⟨pending, accepted⟩ | ⟨known, filled, -⟩ | ⟨pending, canceled⟩
      · rw [OrderManager.updated, accepted]
        simp [pending]
      · rw [OrderManager.updated, filled]
        rcases known with live | pending
        · simp only [live]
          split <;> simp
        · simp only [pending]
          split <;> simp
      · rw [OrderManager.updated, canceled]
        simp [pending]
  · have same : (s.delivered x rest).slot tickerId side = s.slot tickerId side :=
      Session.delivered_slot_of_ne (s := s.toSession) here
    rw [same]
    exact ⟨rfl, rfl, rfl, id, id, id⟩

/-- The next response. -/
theorem SimJoint.deliver (joint : SimJoint clientId s) (front : s.clientResponses = x :: rest) :
    SimJoint clientId (s.delivered x rest) := by
  have slot := joint.slot_delivered front
  refine ⟨joint.client, joint.phase_delivered front, joint.requests, ?_, joint.pending, ?_,
    ⟨?_, ?_, ?_⟩, ?_, ?_⟩
  · intro y mem
    exact joint.responses y (by rw [front]; exact List.mem_cons_of_mem _ mem)
  · intro t side used
    obtain ⟨-, ticker, sided, before, -⟩ := slot t side
    rw [ticker, sided]
    exact joint.placed t side (before used)
  · intro t side used
    obtain ⟨id, -, -, before, -⟩ := slot t side
    exact Nat.lt_of_le_of_lt (Nat.le_of_eq id) (joint.numbered.below t side (before used))
  · intro t side t' side' used used' sameId
    obtain ⟨id, -, -, before, -⟩ := slot t side
    obtain ⟨id', -, -, before', -⟩ := slot t' side'
    refine joint.numbered.distinct t side t' side' (before used) (before' used') ?_
    exact (id.symm.trans sameId).trans id'
  · intro r mem isCancel
    obtain ⟨bound, asked⟩ := joint.numbered.canceling r mem isCancel
    refine ⟨bound, fun t side used sameId => ?_⟩
    obtain ⟨id, -, -, before, waits, -⟩ := slot t side
    exact waits (asked t side (before used) (id.symm.trans sameId))
  · intro r mem isCancel t side used sameId
    obtain ⟨id, -, -, before, -⟩ := slot t side
    exact joint.addressed r mem isCancel t side (before used) (id.symm.trans sameId)
  · intro t side waits rests
    obtain ⟨id, -, -, -, -, before⟩ := slot t side
    rw [id]
    exact joint.asked t side (before waits) rests

end Deliver

/-! ## The simulator -/

/-- What the simulator may do where no request is read: it walks over the orders of every slot,
and answers on the side of a pending order. -/
theorem SimJoint.walked {fillSimulator : FillSimulator} {answers : List MEClientResponse}
    (joint : SimJoint clientId s)
    (walks : ∀ tickerId side, (s.pendingOf tickerId side).length ≤ 1 →
      FillSimulator.Walked (s.pendingOf tickerId side)
        (FillSimulator.pendingOf fillSimulator.pending tickerId side.toSide,
          FillSimulator.toldOf answers tickerId side.toSide))
    (pending : ∀ po ∈ fillSimulator.pending, ∃ po' ∈ s.fillSimulator.pending,
      po.req = po'.req)
    (responses : ∀ x ∈ answers, ∃ po ∈ s.fillSimulator.pending, x.side = po.req.side) :
    SimJoint clientId { s with
      fillSimulator, clientResponses := s.clientResponses ++ answers } := by
  refine ⟨joint.client, ?_, joint.requests, ?_, ?_, joint.placed,
    ⟨joint.numbered.below, joint.numbered.distinct, joint.numbered.canceling⟩,
    joint.addressed, ?_⟩
  · intro tickerId side
    have phase := joint.phase tickerId side
    have split : FillSimulator.toldOf (s.clientResponses ++ answers) tickerId side.toSide =
        s.told tickerId side ++ FillSimulator.toldOf answers tickerId side.toSide :=
      FillSimulator.toldOf_append ..
    show SimPhase clientId (s.slot tickerId side) (s.toSession.newsInFlight tickerId side)
      (FillSimulator.toldOf (s.clientResponses ++ answers) tickerId side.toSide) _
    rw [split]
    exact phase.walked (walks tickerId side phase.length_rest)
  · intro x mem
    rcases List.mem_append.mp mem with old | new
    · exact joint.responses x old
    · obtain ⟨po, inside, sided⟩ := responses x new
      rw [sided]
      exact joint.pending po inside
  · intro po mem
    obtain ⟨po', inside, req⟩ := pending po mem
    rw [req]
    exact joint.pending po' inside
  · intro tickerId side waits rests
    refine joint.asked tickerId side waits fun noNews => ?_
    have walk := walks tickerId side (joint.phase tickerId side).length_rest
    rw [noNews] at walk
    generalize made : (FillSimulator.pendingOf fillSimulator.pending tickerId side.toSide,
      FillSimulator.toldOf answers tickerId side.toSide) = result at walk
    cases walk
    exact rests (congrArg Prod.fst made)

/-- A walk over the pending orders. -/
theorem SimJoint.walk {visit : FillSimulator.Visit} {f : MEClientResponse → FillEvent}
    {fillSimulator : FillSimulator} (joint : SimJoint clientId s)
    (one : ∀ x, (f x).responses = [x])
    (executes : ∀ po id, FillSimulator.Executed po (visit po id)) (id : OrderId)
    (left : fillSimulator.pending = (FillSimulator.walk visit s.fillSimulator.pending id).1) :
    SimJoint clientId { s with
      fillSimulator
      clientResponses := s.clientResponses ++
        ((FillSimulator.walk visit s.fillSimulator.pending id).2.map f).flatMap
          FillEvent.responses } := by
  have answers : ∀ fills : List MEClientResponse,
      (fills.map f).flatMap FillEvent.responses = fills := by
    intro fills
    induction fills with
    | nil => rfl
    | cons x fills ih => rw [List.map_cons, List.flatMap_cons, one, ih, List.singleton_append]
  rw [answers]
  refine joint.walked ?_ ?_ ?_
  · intro tickerId side few
    rw [left]
    exact FillSimulator.walked_slot executes s.fillSimulator.pending id few
  · intro po mem
    rw [left] at mem
    obtain ⟨po', inside, id', kept⟩ := FillSimulator.mem_walk mem
    refine ⟨po', inside, ?_⟩
    have executed := executes po' id'
    generalize visit po' id' = made at kept executed
    cases executed with
    | keeps req =>
        cases kept
        exact req
    | part req =>
        cases kept
        exact req
    | last => cases kept
  · intro x mem
    obtain ⟨po, inside, id', fill⟩ := FillSimulator.mem_walk_fills mem
    refine ⟨po, inside, ?_⟩
    have executed := executes po id'
    generalize visit po id' = made at fill executed
    cases executed with
    | keeps => cases fill
    | part req ticker side =>
        cases fill
        exact side
    | last ticker side =>
        cases fill
        exact side

/-- The order in which the pending orders are walked is of no matter. -/
theorem SimJoint.rehash (joint : SimJoint clientId s) (order : List OrderId) :
    SimJoint clientId (s.simulate (.rehash order)).1 := by
  have same : (s.simulate (.rehash order)).1 = { s with
      fillSimulator := s.fillSimulator.rehash order
      clientResponses := s.clientResponses ++ [] } := rfl
  rw [same]
  have perm : (s.fillSimulator.rehash order).pending.Perm s.fillSimulator.pending := by
    unfold FillSimulator.rehash
    split
    · rename_i perm
      exact perm
    · exact List.Perm.refl _
  refine joint.walked ?_ ?_ (fun x mem => absurd mem List.not_mem_nil)
  · intro tickerId side few
    have slots : (FillSimulator.pendingOf (s.fillSimulator.rehash order).pending tickerId
        side.toSide).Perm (s.pendingOf tickerId side) := perm.filter _
    match shape : s.pendingOf tickerId side with
    | [] =>
        rw [shape] at slots
        rw [slots.eq_nil]
        exact .empty
    | [po] =>
        rw [shape] at slots
        rw [List.perm_singleton.mp slots]
        exact .one (.keeps rfl rfl)
    | po :: po' :: more => simp [shape] at few
  · exact fun po mem => ⟨po, perm.mem_iff.mp mem, rfl⟩

/-! ## The simulator reads a request -/

section Requests

variable {rest : List MEClientRequest}

/-- The NEWs for a slot behind the request at the front of the channel. -/
theorem newsInFlight_front (front : s.clientRequests = r :: rest) (tickerId : TickerId)
    (side : BookSide) : s.toSession.newsInFlight tickerId side =
      (if r.type = .NEW ∧ r.tickerId = tickerId ∧ r.side = side.toSide then [r] else []) ++
        rest.filter fun r => r.type = .NEW ∧ r.tickerId = tickerId ∧ r.side = side.toSide := by
  show s.clientRequests.filter _ = _
  rw [front, ← List.singleton_append, List.filter_append, List.filter_singleton, Bool.cond_decide]

/-- A slot that reads no NEW of its own. -/
theorem newsInFlight_other (front : s.clientRequests = r :: rest) {tickerId : TickerId}
    {side : BookSide} (other : ¬ (r.type = .NEW ∧ r.tickerId = tickerId ∧ r.side = side.toSide)) :
    s.toSession.newsInFlight tickerId side = rest.filter fun r =>
      r.type = .NEW ∧ r.tickerId = tickerId ∧ r.side = side.toSide := by
  rw [newsInFlight_front front, if_neg other, List.nil_append]

/-- The next request leaves the channel, and its slot goes to its next phase. -/
theorem SimJoint.read {fillSimulator : FillSimulator} {answers : List MEClientResponse}
    (joint : SimJoint clientId s) (front : s.clientRequests = r :: rest)
    (phase : ∀ tickerId side, SimPhase clientId (s.slot tickerId side)
      (rest.filter fun r => r.type = .NEW ∧ r.tickerId = tickerId ∧ r.side = side.toSide)
      (s.told tickerId side ++ FillSimulator.toldOf answers tickerId side.toSide)
      (FillSimulator.pendingOf fillSimulator.pending tickerId side.toSide))
    (responses : ∀ x ∈ answers, x.side = r.side)
    (pending : ∀ po ∈ fillSimulator.pending, po.req = r ∨ po ∈ s.fillSimulator.pending)
    (still : ∀ tickerId side, (s.slot tickerId side).orderState = .PENDING_CANCEL →
      FillSimulator.pendingOf fillSimulator.pending tickerId side.toSide ≠ [] →
      s.pendingOf tickerId side ≠ [] ∧
        (r.type = .CANCEL → (s.slot tickerId side).orderId ≠ r.orderId)) :
    SimJoint clientId { s with
      fillSimulator
      clientRequests := rest
      clientResponses := s.clientResponses ++ answers } := by
  have mem : r ∈ s.clientRequests := by
    rw [front]
    exact List.mem_cons_self
  have fewer : ∀ q ∈ rest, q ∈ s.clientRequests := by
    intro q later
    rw [front]
    exact List.mem_cons_of_mem _ later
  refine ⟨joint.client, ?_, fun q later => joint.requests q (fewer q later), ?_, ?_, joint.placed,
    ⟨joint.numbered.below, joint.numbered.distinct,
      fun q later => joint.numbered.canceling q (fewer q later)⟩,
    fun q later => joint.addressed q (fewer q later), ?_⟩
  · intro tickerId side
    show SimPhase clientId (s.slot tickerId side) _
      (FillSimulator.toldOf (s.clientResponses ++ answers) tickerId side.toSide) _
    rw [FillSimulator.toldOf_append]
    exact phase tickerId side
  · intro x inside
    rcases List.mem_append.mp inside with old | new
    · exact joint.responses x old
    · rw [responses x new]
      exact joint.requests r mem
  · intro po inside
    rcases pending po inside with new | old
    · rw [new]
      exact joint.requests r mem
    · exact joint.pending po old
  · intro tickerId side waits rests
    obtain ⟨before, other⟩ := still tickerId side waits rests
    obtain ⟨q, inside, isCancel, named⟩ := joint.asked tickerId side waits before
    rw [front] at inside
    rcases List.mem_cons.mp inside with rfl | later
    · exact (other isCancel named.symm).elim
    · exact ⟨q, later, isCancel, named⟩

/-- The responses for a slot, when the simulator answers a request. -/
theorem toldOf_answer (r : MEClientRequest) (type : ClientResponseType) (execQty leavesQty : Qty)
    (fillPrice : Price) (marketOrderId : OrderId) (tickerId : TickerId) (side : Side) :
    FillSimulator.toldOf [FillSimulator.emitResponse r type execQty leavesQty fillPrice
        marketOrderId] tickerId side =
      if type ≠ .CANCEL_REJECTED ∧ r.tickerId = tickerId ∧ r.side = side then
        [FillSimulator.emitResponse r type execQty leavesQty fillPrice marketOrderId]
      else [] := by
  rw [FillSimulator.toldOf, List.filter_singleton, Bool.cond_decide]
  rfl

/-- A NEW. Its id is not pending: the slot that it is for has nothing pending, and ids are
those of their slots. -/
theorem SimJoint.readNew (joint : SimJoint clientId s) (front : s.clientRequests = r :: rest)
    (isNew : r.type = .NEW) (bbo : BBO) :
    SimJoint clientId ({ s with clientRequests := rest }.simulate (.request r bbo)).1 := by
  obtain ⟨side, sided⟩ := joint.requests r (by rw [front]; exact List.mem_cons_self)
  have phase := joint.phase r.tickerId side
  rw [newsInFlight_front front, if_pos ⟨isNew, rfl, sided⟩, List.singleton_append] at phase
  obtain ⟨pending, named, noNews, noneTold, nothing⟩ := phase.of_news
  have absent : ¬ (s.fillSimulator.find r.orderId).isSome := by
    rw [FillSimulator.find, List.find?_isSome]
    rintro ⟨po, mem, isSame⟩
    obtain ⟨side', sided', only, used, id⟩ := joint.slot_of_pending mem
    have slotId : (s.slot r.tickerId side).orderId = r.orderId :=
      (congrArg MEClientRequest.orderId named).symm
    have sameId : (s.slot po.req.tickerId side').orderId = (s.slot r.tickerId side).orderId := by
      rw [id, slotId]
      exact of_decide_eq_true isSame
    obtain ⟨ticker, rfl⟩ := joint.numbered.distinct po.req.tickerId side' r.tickerId side used
      (by rw [show (s.toSession.slot r.tickerId side).orderState = .PENDING_NEW from pending]
          simp) sameId
    rw [ticker] at only
    rw [nothing] at only
    cases only
  have stepped : ({ s with clientRequests := rest }.simulate (.request r bbo)).1 = { s with
      fillSimulator := { s.fillSimulator with
        nextMarketOrderId := FillSimulator.advance s.fillSimulator.nextMarketOrderId 1
        pending := s.fillSimulator.pending ++
          [{ req := r, bboAtSubmit := bbo, leavesQty := r.qty }] }
      clientRequests := rest
      clientResponses := s.clientResponses ++ [FillSimulator.emitResponse r .ACCEPTED 0 r.qty
        r.price s.fillSimulator.nextMarketOrderId] } := by
    simp [simulate, FillSimulator.step, FillSimulator.onRequest, isNew, absent,
      FillEvent.responses]
  rw [stepped]
  refine joint.read front ?_ ?_ ?_ ?_
  · intro tickerId side'
    have split : FillSimulator.pendingOf (s.fillSimulator.pending ++
          [{ req := r, bboAtSubmit := bbo, leavesQty := r.qty }]) tickerId side'.toSide =
        s.pendingOf tickerId side' ++
          if r.tickerId = tickerId ∧ r.side = side'.toSide then
            [{ req := r, bboAtSubmit := bbo, leavesQty := r.qty }] else [] := by
      rw [FillSimulator.pendingOf, List.filter_append, List.filter_singleton, Bool.cond_decide]
      rfl
    rw [toldOf_answer, split]
    by_cases here : r.tickerId = tickerId ∧ r.side = side'.toSide
    · obtain ⟨rfl, same⟩ := here
      obtain rfl := BookSide.toSide_inj.mp (sided.symm.trans same)
      rw [if_pos ⟨by simp, rfl, same⟩, if_pos ⟨rfl, same⟩]
      exact phase.enter rfl bbo
    · rw [if_neg fun now => here now.2, if_neg here, List.append_nil, List.append_nil,
        ← newsInFlight_other front fun now => here now.2]
      exact joint.phase tickerId side'
  · intro x mem
    rw [List.mem_singleton.mp mem]
    rfl
  · intro po mem
    rcases List.mem_append.mp mem with old | new
    · exact .inr old
    · rw [List.mem_singleton.mp new]
      exact .inl rfl
  · intro tickerId side' waits rests
    refine ⟨fun alone => ?_, fun isCancel => by simp [isNew] at isCancel⟩
    have here : r.tickerId = tickerId ∧ r.side = side'.toSide := by
      by_contra other
      apply rests
      rw [FillSimulator.pendingOf, List.filter_append,
        List.filter_cons_of_neg (by simpa using other)]
      exact (List.append_nil _).trans alone
    obtain ⟨rfl, same⟩ := here
    obtain rfl := BookSide.toSide_inj.mp (sided.symm.trans same)
    rw [pending] at waits
    cases waits

/-- A CANCEL takes out the order of its slot, if it is pending. -/
theorem SimJoint.readCancel (joint : SimJoint clientId s) (front : s.clientRequests = r :: rest)
    (isCancel : r.type = .CANCEL) (bbo : BBO) :
    SimJoint clientId ({ s with clientRequests := rest }.simulate (.request r bbo)).1 := by
  have mem : r ∈ s.clientRequests := by
    rw [front]
    exact List.mem_cons_self
  have notNew : ∀ {P : Prop}, ¬ (r.type = .NEW ∧ P) := fun now => by simp [isCancel] at now
  by_cases found : (s.fillSimulator.find r.orderId).isSome
  · have stepped : ({ s with clientRequests := rest }.simulate (.request r bbo)).1 = { s with
        fillSimulator := { s.fillSimulator with
          nextMarketOrderId := FillSimulator.advance s.fillSimulator.nextMarketOrderId 1
          pending := s.fillSimulator.pending.filter fun po => po.req.orderId ≠ r.orderId }
        clientRequests := rest
        clientResponses := s.clientResponses ++ [FillSimulator.emitResponse r .CANCELED 0 0
          r.price s.fillSimulator.nextMarketOrderId] } := by
      simp [simulate, FillSimulator.step, FillSimulator.onRequest, isCancel, found,
        FillEvent.responses]
    -- The order that is found is the one of the slot to which the CANCEL is addressed.
    have atSlot : ∃ side : BookSide, r.side = side.toSide ∧ ∃ po, po.req.orderId = r.orderId ∧
        s.pendingOf r.tickerId side = [po] ∧
        ((s.slot r.tickerId side).orderState = .PENDING_CANCEL ∨
          (s.slot r.tickerId side).orderState = .DEAD) := by
      rw [FillSimulator.find, List.find?_isSome] at found
      obtain ⟨po, inside, isSame⟩ := found
      have sameId := of_decide_eq_true isSame
      obtain ⟨side, -, only, used, id⟩ := joint.slot_of_pending inside
      have named := id.trans sameId
      obtain ⟨ticker, sided⟩ := joint.addressed r mem isCancel _ side used named
      rw [ticker]
      exact ⟨side, sided, po, sameId, only,
        (joint.numbered.canceling r mem isCancel).2 _ side used named⟩
    obtain ⟨side, sided, po, sameId, only, waits⟩ := atSlot
    rw [stepped]
    have apart : ∀ tickerId (side' : BookSide),
        ¬ (r.tickerId = tickerId ∧ r.side = side'.toSide) →
        ∀ q ∈ s.pendingOf tickerId side', q.req.orderId ≠ r.orderId := by
      intro tickerId side' other q inside same
      obtain ⟨-, used, -, sent, req⟩ := (joint.phase tickerId side').mem_rest inside
      have named : (s.slot tickerId side').orderId = r.orderId := by
        rw [← same, req]
        rfl
      exact other (joint.addressed r mem isCancel tickerId side' used named)
    have left : ∀ tickerId (side' : BookSide),
        FillSimulator.pendingOf (s.fillSimulator.pending.filter fun po =>
            po.req.orderId ≠ r.orderId) tickerId side'.toSide =
          (s.pendingOf tickerId side').filter fun po => po.req.orderId ≠ r.orderId := by
      intro tickerId side'
      unfold FillSimulator.pendingOf pendingOf
      exact List.filter_comm ..
    refine joint.read front ?_ ?_ ?_ ?_
    · intro tickerId side'
      rw [toldOf_answer, left, ← newsInFlight_other front notNew]
      by_cases here : r.tickerId = tickerId ∧ r.side = side'.toSide
      · obtain ⟨rfl, same⟩ := here
        obtain rfl := BookSide.toSide_inj.mp (sided.symm.trans same)
        have phase := joint.phase r.tickerId side
        rw [only] at phase ⊢
        rw [if_pos ⟨by simp, rfl, same⟩,
          List.filter_cons_of_neg (by simp [sameId]), List.filter_nil]
        exact phase.withdraw (List.cons_ne_nil _ _) waits rfl
      · rw [if_neg fun now => here now.2, List.append_nil,
          List.filter_eq_self.mpr fun q inside =>
            decide_eq_true (apart tickerId side' here q inside)]
        exact joint.phase tickerId side'
    · intro x inside
      rw [List.mem_singleton.mp inside]
      rfl
    · exact fun q inside => .inr (List.mem_filter.mp inside).1
    · intro tickerId side' _ rests
      rw [left] at rests
      refine ⟨fun empty => rests (by rw [empty, List.filter_nil]), fun _ named => ?_⟩
      obtain ⟨q, inside⟩ := List.exists_mem_of_ne_nil _ rests
      obtain ⟨before, other⟩ := List.mem_filter.mp inside
      obtain ⟨-, -, -, sent, req⟩ := (joint.phase tickerId side').mem_rest before
      refine of_decide_eq_true other ?_
      rw [req]
      exact named
  · have stepped : ({ s with clientRequests := rest }.simulate (.request r bbo)).1 = { s with
        fillSimulator := { s.fillSimulator with
          nextMarketOrderId := FillSimulator.advance s.fillSimulator.nextMarketOrderId 1 }
        clientRequests := rest
        clientResponses := s.clientResponses ++ [FillSimulator.emitResponse r .CANCEL_REJECTED 0 0
          r.price s.fillSimulator.nextMarketOrderId] } := by
      simp [simulate, FillSimulator.step, FillSimulator.onRequest, isCancel, found,
        FillEvent.responses]
    rw [stepped]
    refine joint.read front ?_ ?_ (fun q inside => .inr inside) ?_
    · intro tickerId side
      rw [toldOf_answer, if_neg fun now => now.1 rfl, List.append_nil,
        ← newsInFlight_other front notNew]
      exact joint.phase tickerId side
    · intro x inside
      rw [List.mem_singleton.mp inside]
      rfl
    · intro tickerId side _ rests
      refine ⟨rests, fun _ named => found ?_⟩
      obtain ⟨q, inside⟩ := List.exists_mem_of_ne_nil _ rests
      have phase := joint.phase tickerId side
      obtain ⟨-, -, -, sent, req⟩ := phase.mem_rest inside
      rw [FillSimulator.find, List.find?_isSome]
      refine ⟨q, (List.mem_filter.mp inside).1, decide_eq_true ?_⟩
      rw [req]
      exact named

/-- The next request. -/
theorem SimJoint.process (joint : SimJoint clientId s) (front : s.clientRequests = r :: rest)
    (bbo : BBO) :
    SimJoint clientId ({ s with clientRequests := rest }.simulate (.request r bbo)).1 := by
  cases type : r.type with
  | NEW => exact joint.readNew front type bbo
  | CANCEL => exact joint.readCancel front type bbo
  | INVALID =>
      have stepped : ({ s with clientRequests := rest }.simulate (.request r bbo)).1 = { s with
          fillSimulator := s.fillSimulator
          clientRequests := rest
          clientResponses := s.clientResponses ++ [] } := by
        simp [simulate, FillSimulator.step, FillSimulator.onRequest, type, FillEvent.responses]
      rw [stepped]
      refine joint.read front ?_ (fun x inside => absurd inside List.not_mem_nil)
        (fun q inside => .inr inside) ?_
      · intro tickerId side
        rw [FillSimulator.toldOf, List.filter_nil, List.append_nil,
          ← newsInFlight_other front fun now => by simp [type] at now]
        exact joint.phase tickerId side
      · exact fun tickerId side _ rests => ⟨rests, fun isCancel => by simp [type] at isCancel⟩

end Requests

/-! ## Steps -/

/-- The trade engine reads nothing, or its next response. -/
theorem step_deliver (stepped : s.step .deliver = .ok (s', out)) :
    out = [] ∧ (s' = s ∨ ∃ x rest, s.clientResponses = x :: rest ∧ s' = s.delivered x rest) := by
  unfold step at stepped
  cases front : s.clientResponses with
  | nil =>
      rw [front] at stepped
      cases stepped
      exact ⟨rfl, .inl rfl⟩
  | cons x rest =>
      rw [front] at stepped
      obtain ⟨tradeEngine, updated, last⟩ := bind_eq_ok.mp stepped
      cases last
      obtain rfl := TradeEngine.onOrderUpdate_eq_ok updated
      exact ⟨rfl, .inr ⟨x, rest, rfl, rfl⟩⟩

/-- The simulator reads nothing, or the next request. -/
theorem step_process {bbo : BBO} (stepped : s.step (.process bbo) = .ok (s', out)) :
    s' = s ∧ out = [] ∨ ∃ r rest, s.clientRequests = r :: rest ∧
      (s', out) = { s with clientRequests := rest }.simulate (.request r bbo) := by
  unfold step at stepped
  cases front : s.clientRequests with
  | nil =>
      rw [front] at stepped
      cases stepped
      exact .inl ⟨rfl, rfl⟩
  | cons r rest =>
      rw [front] at stepped
      cases stepped
      exact .inr ⟨r, rest, rfl, rfl⟩

/-- One step. -/
theorem SimJoint.step {i : BacktestInput} (joint : SimJoint clientId s)
    (admissible : Admissible s i) (stepped : s.step i = .ok (s', out)) : SimJoint clientId s' := by
  have narrow : s.tradeEngine.orderManager.nextOrderId + 2 < 2 ^ 64 := admissible
  cases i with
  | moveOrders tickerId bidPrice askPrice clip lossTooLarge =>
      obtain ⟨rfl, -⟩ := step_moveOrders stepped
      obtain ⟨bid, second⟩ := joint.moveOrder (by lia) tickerId .bid lossTooLarge bidPrice clip
      obtain ⟨ask, -⟩ := bid.moveOrder (by lia) tickerId .ask lossTooLarge askPrice clip
      exact ask
  | deliver =>
      rcases step_deliver stepped with ⟨-, rfl | ⟨x, rest, front, rfl⟩⟩
      · exact joint
      · exact joint.deliver front
  | process bbo =>
      rcases step_process stepped with ⟨rfl, -⟩ | ⟨r, rest, front, made⟩
      · exact joint
      · obtain rfl := congrArg Prod.fst made
        exact joint.process front bbo
  | marketEvent ev =>
      obtain rfl : (s.simulate (.marketEvent ev)).1 = s' :=
        congrArg Prod.fst (Except.ok.inj stepped)
      cases mode : s.fillSimulator.mode with
      | AGGRESSIVE_ONLY =>
          have same : (s.simulate (.marketEvent ev)).1 = s := by
            simp [simulate, FillSimulator.step, mode]
          rw [same]
          exact joint
      | QUEUE_AWARE =>
          have made : (s.simulate (.marketEvent ev)).1 = { s with
              fillSimulator := (s.fillSimulator.onSimMarketEvent ev).1
              clientResponses := s.clientResponses ++
                (s.fillSimulator.onSimMarketEvent ev).2.flatMap FillEvent.responses } := by
            simp [simulate, FillSimulator.step, mode]
          rw [made]
          exact joint.walk (fun _ => rfl) (FillSimulator.visitMarketEvent_executed ev)
            s.fillSimulator.nextMarketOrderId rfl
  | bboPass cur seen =>
      cases stepped
      exact joint.walk (fun _ => rfl) (FillSimulator.visitBbo_executed s.fillSimulator.mode
        s.fillSimulator.globalPriorityWatermark cur seen) s.fillSimulator.nextMarketOrderId rfl
  | rehash order =>
      cases stepped
      exact joint.rehash order

end BacktestSession

end NanoTrade
