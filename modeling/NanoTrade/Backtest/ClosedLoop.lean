import NanoTrade.Backtest.SimulatedPositions
import NanoTrade.LFQueue
import NanoTrade.Trading.TradingSystem

/-!
# A backtest

The whole trade engine against the fill simulator, as `backtest/backtest_main.cpp` connects them:
the engine reads market updates of the replay, the simulator reads the events of its own queue and
the best prices, each at its own pace. Any updates, events and best prices are allowed here. The
requests and the responses go through queues of `ME_MAX_CLIENT_UPDATES` slots, in which a writer
that is too fast overwrites what was not read.

`step_session`: while the queues have room, a step of the whole is one of `BacktestSession`, whose
channels are what is unread.

* `run_backtest_at_rest`: where nothing is on its way, a live order is pending with all its
  terms, a free slot has none, and no slot waits. Orders of quantity zero are no exception.
* `run_backtest_limit`: positions within the limits of the risk check in every reachable state.
* `run_backtest_positions`: positions and volumes are the sums of the executions of the simulator.
-/

namespace NanoTrade

/-- The whole engine, the simulator, and the queues between them. -/
structure ClosedLoop (F : Type) where
  strategyEngine : StrategyEngine F
  fillSimulator : FillSimulator
  clientRequests : LFQueue MEClientRequest
  clientResponses : LFQueue MEClientResponse

inductive ClosedLoopInput
  /-- The trade engine reads a market update of the replay. -/
  | marketUpdate (u : MEMarketUpdate)
  /-- The trade engine reads its next response. -/
  | deliver
  /-- The simulator reads the next request, and copies these best prices. -/
  | process (bbo : BBO)
  /-- The simulator reads a market event. -/
  | marketEvent (ev : MEMarketUpdate)
  /-- The simulator walks over the pending orders. -/
  | bboPass (cur : BBO) (seen : OrderId → BBO)
  /-- The hash table of the pending orders changes its order. -/
  | rehash (order : List OrderId)

namespace ClosedLoop

variable {F : Type} {s s' : ClosedLoop F} {out : List FillEvent}

def new (strategyEngine : StrategyEngine F) (mode : FillMode) : ClosedLoop F :=
  { strategyEngine, fillSimulator := .new mode
    clientRequests := .new ME_MAX_CLIENT_UPDATES .new
    clientResponses := .new ME_MAX_CLIENT_UPDATES .new }

/-- The session of the orders. -/
def toBacktestSession (s : ClosedLoop F) : BacktestSession :=
  { tradeEngine := s.strategyEngine.toTradeEngine, fillSimulator := s.fillSimulator
    clientRequests := s.clientRequests.unread, clientResponses := s.clientResponses.unread }

/-- The simulator takes an input, and writes its responses. -/
def simulate (s : ClosedLoop F) (i : FillInput) : ClosedLoop F × List FillEvent :=
  let (fillSimulator, events) := s.fillSimulator.step i
  ({ s with
    fillSimulator
    clientResponses := s.clientResponses.pushAll (events.flatMap FillEvent.responses) }, events)

/-- Neither queue has more unread elements than slots. -/
def HasRoom (s : ClosedLoop F) : Prop :=
  s.clientRequests.HasRoom ∧ s.clientResponses.HasRoom

instance : DecidablePred (HasRoom (F := F)) :=
  fun _ => inferInstanceAs (Decidable (_ ∧ _))

/-- The threads are between their pushes and pops. -/
def Queued (s : ClosedLoop F) : Prop :=
  s.clientRequests.AtRest (fun _ => True) ∧ s.clientResponses.AtRest fun _ => True

theorem Queued.new (strategyEngine : StrategyEngine F) (mode : FillMode) :
    (new strategyEngine mode).Queued :=
  ⟨.new (by decide) _ _, .new (by decide) _ _⟩

/-- The responses of the simulator come behind those that are unread. -/
theorem simulate_session {i : FillInput} (queued : s.Queued) (room : s'.HasRoom)
    (made : s.simulate i = (s', out)) :
    s'.strategyEngine = s.strategyEngine ∧ s'.Queued ∧
      s.toBacktestSession.simulate i = (s'.toBacktestSession, out) := by
  unfold simulate at made
  unfold BacktestSession.simulate
  rw [show s.toBacktestSession.fillSimulator = s.fillSimulator from rfl]
  generalize s.fillSimulator.step i = result at made ⊢
  obtain ⟨fillSimulator, events⟩ := result
  cases made
  have pushed := queued.2.unread_pushAll room.2
  refine ⟨rfl, ⟨queued.1, queued.2.pushAll fun _ _ => trivial⟩, ?_⟩
  simp only [toBacktestSession, pushed]

section Step

variable [Double F]

def step (s : ClosedLoop F) : ClosedLoopInput → Except Fault (ClosedLoop F × List FillEvent)
  | .marketUpdate u => do
    let (strategyEngine, sent) ← s.strategyEngine.step (.marketUpdate u)
    pure ({ s with strategyEngine, clientRequests := s.clientRequests.pushAll sent }, [])
  | .deliver =>
    match s.clientResponses.getNextToRead with
    | none => .ok (s, [])
    | some slot => do
      let (strategyEngine, sent) ←
        s.strategyEngine.step (.clientResponse (s.clientResponses.store slot))
      let clientResponses ← s.clientResponses.updateReadIndex
      pure ({ s with
        strategyEngine
        clientRequests := s.clientRequests.pushAll sent
        clientResponses }, [])
  | .process bbo =>
    match s.clientRequests.getNextToRead with
    | none => .ok (s, [])
    | some slot => do
      let clientRequests ← s.clientRequests.updateReadIndex
      pure ({ s with clientRequests }.simulate (.request (s.clientRequests.store slot) bbo))
  | .marketEvent ev => .ok (s.simulate (.marketEvent ev))
  | .bboPass cur seen => .ok (s.simulate (.bboPass cur seen))
  | .rehash order => .ok (s.simulate (.rehash order))

/-- Order ids have not come round. -/
def Admissible (s : ClosedLoop F) (_ : ClosedLoopInput) : Prop :=
  s.strategyEngine.orderManager.nextOrderId + 2 < 2 ^ 64

instance (s : ClosedLoop F) : DecidablePred (Admissible s) :=
  fun _ => inferInstanceAs (Decidable (_ < _))

/-- A step of the whole is at most one step of the session, while the queues have room. -/
theorem step_session {i : ClosedLoopInput}
    (algo : s.strategyEngine.algoType = .MAKER ∨ s.strategyEngine.algoType = .TAKER)
    (queued : s.Queued) (room : s.HasRoom) (room' : s'.HasRoom)
    (stepped : s.step i = .ok (s', out)) :
    StrategyEngine.SameSettings s.strategyEngine s'.strategyEngine ∧ s'.Queued ∧
      (s'.toBacktestSession = s.toBacktestSession ∧ out = [] ∨
        ∃ j, s.toBacktestSession.step j = .ok (s'.toBacktestSession, out)) := by
  have same : StrategyEngine.SameSettings s.strategyEngine s.strategyEngine := ⟨rfl, rfl, rfl⟩
  cases i with
  | marketUpdate u =>
      obtain ⟨⟨strategyEngine, sent⟩, moved, last⟩ := bind_eq_ok.mp stepped
      cases last
      obtain ⟨settings, moves⟩ := StrategyEngine.step_marketUpdate moved
      refine ⟨settings, ⟨queued.1.pushAll fun _ _ => trivial, queued.2⟩, ?_⟩
      rcases moves with ⟨engine, nothing⟩ | ⟨move, loss, -, made⟩
      · subst nothing
        exact .inl ⟨by simp only [toBacktestSession, engine, LFQueue.pushAll, List.foldl_nil], rfl⟩
      · refine .inr ⟨.moveOrders move.tickerId move.bidPrice move.askPrice move.clip loss,
          bind_eq_ok.mpr ⟨_, made, ?_⟩⟩
        have pushed := queued.1.unread_pushAll room'.1
        simp only [toBacktestSession, pushed]
        rfl
  | deliver =>
      unfold step at stepped
      cases head : s.clientResponses.getNextToRead with
      | none =>
          rw [head] at stepped
          cases stepped
          exact ⟨same, queued, .inl ⟨rfl, rfl⟩⟩
      | some slot =>
          rw [head] at stepped
          obtain ⟨⟨strategyEngine, sent⟩, answered, popping⟩ := bind_eq_ok.mp stepped
          obtain ⟨clientResponses, popped, last⟩ := bind_eq_ok.mp popping
          cases last
          obtain ⟨settings, updated⟩ := StrategyEngine.step_clientResponse algo answered
          obtain rfl : sent = [] := by
            obtain ⟨u, -, last⟩ := bind_eq_ok.mp answered
            cases last
            rfl
          obtain ⟨-, left, counted, -, rest, roomy⟩ := queued.2.pop head
          obtain rfl := Except.ok.inj (counted.symm.trans popped)
          refine ⟨settings, ⟨queued.1, rest⟩, .inr ⟨.deliver, ?_⟩⟩
          unfold BacktestSession.step
          rw [show s.toBacktestSession.clientResponses = _ from (roomy room.2).2]
          exact bind_eq_ok.mpr ⟨_, updated, rfl⟩
  | process bbo =>
      unfold step at stepped
      cases head : s.clientRequests.getNextToRead with
      | none =>
          rw [head] at stepped
          cases stepped
          exact ⟨same, queued, .inl ⟨rfl, rfl⟩⟩
      | some slot =>
          rw [head] at stepped
          obtain ⟨clientRequests, popped, last⟩ := bind_eq_ok.mp stepped
          obtain ⟨-, left, counted, -, rest, roomy⟩ := queued.1.pop head
          obtain rfl := Except.ok.inj (counted.symm.trans popped)
          have taken : ({ s with clientRequests := left } : ClosedLoop F).Queued :=
            ⟨rest, queued.2⟩
          obtain ⟨still, simulated, made⟩ := simulate_session taken room' (Except.ok.inj last)
          refine ⟨still ▸ same, simulated, .inr ⟨.process bbo, ?_⟩⟩
          unfold BacktestSession.step
          rw [show s.toBacktestSession.clientRequests = _ from (roomy room.1).2]
          exact congrArg Except.ok made
  | marketEvent ev =>
      obtain ⟨still, simulated, made⟩ := simulate_session queued room' (Except.ok.inj stepped)
      exact ⟨still ▸ same, simulated, .inr ⟨.marketEvent ev, congrArg Except.ok made⟩⟩
  | bboPass cur seen =>
      obtain ⟨still, simulated, made⟩ := simulate_session queued room' (Except.ok.inj stepped)
      exact ⟨still ▸ same, simulated, .inr ⟨.bboPass cur seen, congrArg Except.ok made⟩⟩
  | rehash order =>
      obtain ⟨still, simulated, made⟩ := simulate_session queued room' (Except.ok.inj stepped)
      exact ⟨still ▸ same, simulated, .inr ⟨.rehash order, congrArg Except.ok made⟩⟩

/-- What the steps of the session carry, the whole carries while its queues have room. -/
theorem run_carried {P : BacktestSession → List FillEvent → Prop}
    {tickerCfg : TickerId → TradeEngineCfg F} {clientId : ClientId} {algoType : AlgoType}
    {bookPrices : TickerId → Price} {mode : FillMode}
    (algo : algoType = .MAKER ∨ algoType = .TAKER)
    (start : P (.new clientId (fun tickerId => (tickerCfg tickerId).riskCfg) mode) [])
    {pre : ClosedLoop F → ClosedLoopInput → Prop}
    (carried : ∀ {t : ClosedLoop F} {i} {s' : BacktestSession} {j log out}, pre t i →
      P t.toBacktestSession log → t.toBacktestSession.step j = .ok (s', out) → P s' (log ++ out))
    {inputs : List ClosedLoopInput}
    (admits : Admits pre step (new (.new clientId algoType tickerCfg bookPrices) mode) inputs)
    (room : Throughout HasRoom step (new (.new clientId algoType tickerCfg bookPrices) mode) inputs)
    (ran : run step (new (.new clientId algoType tickerCfg bookPrices) mode) inputs =
      .ok (s, out)) :
    P s.toBacktestSession out := by
  have begun : (algoType = .MAKER ∨ algoType = .TAKER) ∧
      (new (.new clientId algoType tickerCfg bookPrices) mode).Queued ∧
      P (new (.new clientId algoType tickerCfg bookPrices) mode).toBacktestSession [] :=
    ⟨algo, Queued.new _ _, start⟩
  have held := admits_throughout (P := fun (s : ClosedLoop F) log =>
      (s.strategyEngine.algoType = .MAKER ∨ s.strategyEngine.algoType = .TAKER) ∧ s.Queued ∧
        P s.toBacktestSession log) begun (fun {t log i u now} before here room room' stepped => by
    obtain ⟨algo, queued, holds⟩ := before
    obtain ⟨settings, queued', followed⟩ := step_session algo queued room room' stepped
    refine ⟨by rw [settings.algoType]; exact algo, queued', ?_⟩
    rcases followed with ⟨still, rfl⟩ | ⟨j, moved⟩
    · rw [still, List.append_nil]
      exact holds
    · exact carried here holds moved) admits room ran
  exact held.2.2

/-- What every reachable state of the session keeps. -/
structure Safe (clientId : ClientId) (riskCfg : TickerId → RiskCfg) (s : BacktestSession) :
    Prop where
  joint : BacktestSession.SimJoint clientId s
  limited : (∀ tickerId, (riskCfg tickerId).maxOrderSize < 2 ^ 30 ∧
    (riskCfg tickerId).maxPosition < 2 ^ 30) → s.tradeEngine.Limited riskCfg

theorem run_safe {clientId : ClientId} {algoType : AlgoType}
    {tickerCfg : TickerId → TradeEngineCfg F} {bookPrices : TickerId → Price} {mode : FillMode}
    (algo : algoType = .MAKER ∨ algoType = .TAKER) {inputs : List ClosedLoopInput}
    (admits : Admits Admissible step (new (.new clientId algoType tickerCfg bookPrices) mode)
      inputs)
    (room : Throughout HasRoom step (new (.new clientId algoType tickerCfg bookPrices) mode) inputs)
    (ran : run step (new (.new clientId algoType tickerCfg bookPrices) mode) inputs =
      .ok (s, out)) :
    Safe clientId (fun tickerId => (tickerCfg tickerId).riskCfg) s.toBacktestSession := by
  refine run_carried (P := fun s _ =>
    Safe clientId (fun tickerId => (tickerCfg tickerId).riskCfg) s) algo ?_ ?_ admits room ran
  · exact ⟨BacktestSession.SimJoint.new clientId _ mode,
      fun _ => .new clientId _⟩
  · intro t i s' j log out admissible safe moved
    exact ⟨safe.joint.step admissible moved,
      fun limits => BacktestSession.limited_step (safe.limited limits) safe.joint limits moved⟩

/-- A live slot has its order pending at the simulator with what is left of it, a free slot has
none, no slot waits, and every pending order is for a side. -/
def Agrees (clientId : ClientId) (s : BacktestSession) : Prop :=
  (∀ tickerId side,
    ((s.slot tickerId side).orderState = .LIVE ∧ ∃ po, s.pendingOf tickerId side = [po] ∧
      po.leavesQty = (s.slot tickerId side).qty ∧ ∃ sent,
        po.req = OrderManager.newRequest clientId { s.slot tickerId side with qty := sent }) ∨
    (((s.slot tickerId side).orderState = .INVALID ∨ (s.slot tickerId side).orderState = .DEAD) ∧
      s.pendingOf tickerId side = [])) ∧
  ∀ po ∈ s.fillSimulator.pending, ∃ side, po ∈ s.pendingOf po.req.tickerId side

/-- The maker quotes 102 and 104, a TRADE fills a part of its offer, its bid is cancelled. -/
def quoted : List ClosedLoopInput :=
  let shown (orderId : OrderId) (side : Side) (price : Price) : ClosedLoopInput :=
    .marketUpdate { type := .ADD, orderId, tickerId := 0, side, price, qty := 10, priority := 1 }
  let bbo (bidQty : Qty) : BBO := { bidPrice := 102, askPrice := 104, bidQty, askQty := 1 }
  [shown 1 .BUY 101, shown 2 .BUY 102, shown 3 .SELL 105, shown 4 .SELL 104, .process (bbo 10),
    .process (bbo 10), .bboPass (bbo 9) fun _ => bbo 9,
    .marketEvent ⟨.TRADE, 4, 0, .SELL, 104, 3, 0⟩, .deliver, .deliver, .deliver,
    shown 5 .BUY 103, .process (bbo 9), .deliver]

/-- **The order manager and the simulator agree at rest**, in either mode and for every clip, along
every run in which the queues have room. -/
theorem run_backtest_at_rest (clientId : ClientId) (algoType : AlgoType)
    (tickerCfg : TickerId → TradeEngineCfg F) (bookPrices : TickerId → Price) (mode : FillMode)
    (algo : algoType = .MAKER ∨ algoType = .TAKER) (inputs : List ClosedLoopInput)
    (admits : Admits Admissible step (new (.new clientId algoType tickerCfg bookPrices) mode)
      inputs)
    (s : ClosedLoop F) (out : List FillEvent)
    (room : Throughout HasRoom step (new (.new clientId algoType tickerCfg bookPrices) mode) inputs)
    (ran : run step (new (.new clientId algoType tickerCfg bookPrices) mode) inputs =
      .ok (s, out))
    (noRequest : s.clientRequests.size = 0) (noResponse : s.clientResponses.size = 0) :
    Agrees clientId s.toBacktestSession := by
  have joint := (run_safe algo admits room ran).joint
  have requested : s.toBacktestSession.clientRequests = [] := LFQueue.unread_eq_nil noRequest
  have responded : s.toBacktestSession.clientResponses = [] := LFQueue.unread_eq_nil noResponse
  refine ⟨fun tickerId side => ?_, fun po mem => ?_⟩
  · have phase := joint.phase tickerId side
    have noNews : s.toBacktestSession.toSession.newsInFlight tickerId side = [] := by
      show s.toBacktestSession.clientRequests.filter _ = []
      rw [requested, List.filter_nil]
    have silent : s.toBacktestSession.told tickerId side = [] := by
      show s.toBacktestSession.clientResponses.filter _ = []
      rw [responded, List.filter_nil]
    rw [noNews, silent] at phase
    have waits := joint.asked tickerId side
    rw [requested] at waits
    generalize s.toBacktestSession.pendingOf tickerId side = rest at phase waits ⊢
    generalize quiet : ([] : List MEClientResponse) = told at phase
    cases phase with
    | idle free => exact .inr ⟨free, rfl⟩
    | accepted => cases quiet
    | @canceled fills => cases fills <;> cases quiet
    | working known executes keeps =>
        subst quiet
        cases executes
        obtain ⟨po, sent, rfl, leaves, req⟩ := keeps
        refine .inl ⟨known.resolve_right fun pending => ?_, po, rfl, leaves, sent, req⟩
        obtain ⟨r, mem, -⟩ := waits pending (List.cons_ne_nil _ _)
        cases mem
  · obtain ⟨side, -, only, -⟩ := joint.slot_of_pending mem
    refine ⟨side, ?_⟩
    rw [only]
    exact List.mem_singleton_self po

theorem run_backtest_at_rest_quoted :
    ∃ s out, run step (new TradingSystem.maker .QUEUE_AWARE) quoted = .ok (s, out) ∧
      (s.toBacktestSession.slot 0 .ask).orderState = .LIVE ∧
      (s.toBacktestSession.slot 0 .bid).orderState = .DEAD ∧ Agrees 1 s.toBacktestSession := by
  obtain ⟨s, out, ran, read⟩ := run_of_read step (new TradingSystem.maker .QUEUE_AWARE) quoted
    (fun result => decide (result.1.clientRequests.size = 0 ∧ result.1.clientResponses.size = 0 ∧
      (result.1.toBacktestSession.slot 0 .ask).orderState = .LIVE ∧
      (result.1.toBacktestSession.slot 0 .bid).orderState = .DEAD)) true (by decide +kernel)
  obtain ⟨noRequest, noResponse, live, dead⟩ := of_decide_eq_true read
  exact ⟨s, out, ran, live, dead, run_backtest_at_rest 1 .MAKER _ _ .QUEUE_AWARE (.inl rfl) quoted
    (by decide +kernel) s out (by decide +kernel) ran noRequest noResponse⟩

/-- **Position limit safety of a backtest**: in every state that is reached with room in the queues
a side has one order at most, a free slot has none and nothing to read but rejected cancels, and
positions are within their limits. -/
theorem run_backtest_limit (clientId : ClientId) (algoType : AlgoType)
    (tickerCfg : TickerId → TradeEngineCfg F) (bookPrices : TickerId → Price) (mode : FillMode)
    (algo : algoType = .MAKER ∨ algoType = .TAKER)
    (limits : ∀ tickerId, (tickerCfg tickerId).riskCfg.maxOrderSize < 2 ^ 30 ∧
      (tickerCfg tickerId).riskCfg.maxPosition < 2 ^ 30) (inputs : List ClosedLoopInput)
    (admits : Admits Admissible step (new (.new clientId algoType tickerCfg bookPrices) mode)
      inputs)
    (s : ClosedLoop F) (out : List FillEvent)
    (room : Throughout HasRoom step (new (.new clientId algoType tickerCfg bookPrices) mode) inputs)
    (ran : run step (new (.new clientId algoType tickerCfg bookPrices) mode) inputs =
      .ok (s, out))
    (tickerId : TickerId) :
    (∀ side, (s.toBacktestSession.pendingOf tickerId side).length ≤ 1 ∧
      ((s.toBacktestSession.slot tickerId side).orderState = .INVALID ∨
          (s.toBacktestSession.slot tickerId side).orderState = .DEAD →
        s.toBacktestSession.pendingOf tickerId side = [] ∧
          s.toBacktestSession.told tickerId side = [])) ∧
      |(s.strategyEngine.positionKeeper tickerId).position| ≤
        (tickerCfg tickerId).riskCfg.maxPosition := by
  have safe := run_safe algo admits room ran
  refine ⟨fun side => ?_, (safe.limited limits).limit tickerId⟩
  have phase := safe.joint.phase tickerId side
  refine ⟨phase.length_rest, fun free => ?_⟩
  obtain ⟨-, silent, nothing⟩ := phase.of_free free
  exact ⟨nothing, silent⟩

theorem run_backtest_limit_quoted :
    ∃ s out, run step (new TradingSystem.maker .QUEUE_AWARE) quoted = .ok (s, out) ∧
      (∀ side, (s.toBacktestSession.pendingOf 0 side).length ≤ 1 ∧
        ((s.toBacktestSession.slot 0 side).orderState = .INVALID ∨
            (s.toBacktestSession.slot 0 side).orderState = .DEAD →
          s.toBacktestSession.pendingOf 0 side = [] ∧ s.toBacktestSession.told 0 side = [])) ∧
        |(s.strategyEngine.positionKeeper 0).position| ≤ 10 := by
  obtain ⟨s, out, ran, -⟩ := run_of_read step (new TradingSystem.maker .QUEUE_AWARE) quoted
    (fun _ => ()) () (by decide +kernel)
  exact ⟨s, out, ran, run_backtest_limit 1 .MAKER _ _ .QUEUE_AWARE (.inl rfl)
    (fun _ => ⟨by decide, by decide⟩) quoted (by decide +kernel) s out (by decide +kernel)
    ran 0⟩

/-- **The books of a backtest**: while the queues have room, the engine has read a front of what
the simulator wrote, in its order, and its positions and volumes are the executions in it. -/
theorem run_backtest_positions (clientId : ClientId) (algoType : AlgoType)
    (tickerCfg : TickerId → TradeEngineCfg F) (bookPrices : TickerId → Price) (mode : FillMode)
    (algo : algoType = .MAKER ∨ algoType = .TAKER) (inputs : List ClosedLoopInput)
    (s : ClosedLoop F) (out : List FillEvent)
    (room : Throughout HasRoom step (new (.new clientId algoType tickerCfg bookPrices) mode) inputs)
    (ran : run step (new (.new clientId algoType tickerCfg bookPrices) mode) inputs =
      .ok (s, out)) :
    ∃ read, FillProtocol.responded out = read ++ s.clientResponses.unread ∧ ∀ tickerId,
      (s.strategyEngine.positionKeeper tickerId).position =
          Int.bmod (netExecuted tickerId read) (2 ^ 32) ∧
        (s.strategyEngine.positionKeeper tickerId).volume =
          totalExecuted tickerId read % 2 ^ 32 := by
  have admits : Admits (fun _ _ => True) step
      (new (.new clientId algoType tickerCfg bookPrices) mode) inputs :=
    admits_of_forall (fun _ _ => trivial) _ inputs
  obtain ⟨read, booked⟩ := run_carried (P := fun s log => ∃ read, s.Booked log read) algo
    ⟨[], BacktestSession.Booked.new clientId _ mode⟩
    (fun _ ⟨read, booked⟩ moved => booked.step moved) admits room ran
  exact ⟨read, booked.order, fun tickerId => ⟨booked.position tickerId, booked.volume tickerId⟩⟩

theorem run_backtest_positions_quoted :
    ∃ s out, run step (new TradingSystem.maker .QUEUE_AWARE) quoted = .ok (s, out) ∧
      ∃ read, FillProtocol.responded out = read ++ s.clientResponses.unread ∧ ∀ tickerId,
        (s.strategyEngine.positionKeeper tickerId).position =
            Int.bmod (netExecuted tickerId read) (2 ^ 32) ∧
          (s.strategyEngine.positionKeeper tickerId).volume =
            totalExecuted tickerId read % 2 ^ 32 := by
  obtain ⟨s, out, ran, -⟩ := run_of_read step (new TradingSystem.maker .QUEUE_AWARE) quoted
    (fun _ => ()) () (by decide +kernel)
  exact ⟨s, out, ran, run_backtest_positions 1 .MAKER _ _ .QUEUE_AWARE (.inl rfl) quoted s out
    (by decide +kernel) ran⟩

end Step

end ClosedLoop

end NanoTrade
