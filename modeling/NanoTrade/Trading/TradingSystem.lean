import NanoTrade.Trading.AtRest
import NanoTrade.Trading.PositionLimit
import NanoTrade.Trading.TickerIndependence

/-!
# The whole engine and the exchange

The trade engine with its books, its features and its algorithm in the place of one whose
algorithm calls `moveOrders` as it likes. Whatever market updates it reads, also late, doubled or
wrong ones, its requests are those of a `Session`.

* `StrategyEngine.step_marketUpdate`: a market update makes at most one call of `moveOrders`.
* `TradingSystem.step_session`: a step of the whole is at most one step of the session.
* `run_trading_safe`: positions within their limits in every reachable state, and agreement of
  orders and books where nothing is on its way.
-/

namespace NanoTrade

namespace StrategyEngine

variable {F : Type} [Double F] {s t : StrategyEngine F} {sent : List MEClientRequest}

/-- What a step leaves of the settings of an engine. -/
structure SameSettings (s t : StrategyEngine F) : Prop where
  clientId : t.clientId = s.clientId
  algoType : t.algoType = s.algoType
  tickerCfg : t.tickerCfg = s.tickerCfg

/-- A call of `moveOrders` on the orders, or none. -/
def Moves (s t : StrategyEngine F) (sent : List MEClientRequest) : Prop :=
  (t.toTradeEngine = s.toTradeEngine ∧ sent = []) ∨
    ∃ (move : Move) (lossTooLarge : Bool), move.clip = (s.tickerCfg move.tickerId).clip ∧
      s.toTradeEngine.moveOrders move.tickerId move.bidPrice move.askPrice move.clip
        lossTooLarge = .ok (t.toTradeEngine, sent)

/-- A decision of the algorithm is carried out. -/
theorem moveOrders_moves {decision : Option Move}
    (clips : ∀ move, decision = some move → move.clip = (s.tickerCfg move.tickerId).clip)
    (moved : s.moveOrders decision = .ok (t, sent)) : SameSettings s t ∧ s.Moves t sent := by
  cases decision with
  | none =>
      cases moved
      exact ⟨⟨rfl, rfl, rfl⟩, .inl ⟨rfl, rfl⟩⟩
  | some move =>
      have moves := moveOrders_toTradeEngine moved
      obtain ⟨result, -, last⟩ := bind_eq_ok.mp moved
      cases last
      exact ⟨⟨rfl, rfl, rfl⟩, .inr ⟨move, _, clips move rfl, moves⟩⟩

/-- Both algorithms trade the clip of the ticker that they move. -/
theorem algoOnOrderBookUpdate_clip {tickerId : TickerId} {bbo : BBO} {move : Move}
    (decided : s.algoOnOrderBookUpdate tickerId bbo = some move) :
    move.clip = (s.tickerCfg move.tickerId).clip := by
  unfold algoOnOrderBookUpdate at decided
  split at decided
  · unfold MarketMaker.onOrderBookUpdate at decided
    simp only at decided
    split at decided
    · cases decided
      rfl
    · cases decided
  · cases decided
  · cases decided
  · cases decided

theorem algoOnTradeUpdate_clip {u : MEMarketUpdate} {bbo : BBO} {move : Move}
    (decided : s.algoOnTradeUpdate u bbo = some move) :
    move.clip = (s.tickerCfg move.tickerId).clip := by
  unfold algoOnTradeUpdate at decided
  split at decided
  · unfold LiquidityTaker.onTradeUpdate at decided
    simp only at decided
    split at decided
    · split at decided
      · split at decided
        · cases decided
          rfl
        · cases decided
          rfl
      · cases decided
    · cases decided
  · cases decided
  · cases decided
  · cases decided

/-- A call of the book moves the orders of one ticker, or none. -/
theorem onNotice_moves {book : MarketOrderBook} {notice : BookNotice}
    (noticed : s.onNotice book notice = .ok (t, sent)) : SameSettings s t ∧ s.Moves t sent := by
  cases notice with
  | onTradeUpdate u =>
      have moved : ({ s with
          featureEngine := s.featureEngine.onTradeUpdate u book.bbo } : StrategyEngine F).moveOrders
            (algoOnTradeUpdate { s with
              featureEngine := s.featureEngine.onTradeUpdate u book.bbo } u book.bbo) =
            .ok (t, sent) := noticed
      obtain ⟨same, moves⟩ := moveOrders_moves (fun move decided => algoOnTradeUpdate_clip decided)
        moved
      exact ⟨⟨same.clientId, same.algoType, same.tickerCfg⟩, moves⟩
  | onOrderBookUpdate tickerId price side bbo =>
      obtain ⟨u, updated, moved⟩ := bind_eq_ok.mp noticed
      have orders := toTradeEngine_updateBBO updated
      obtain ⟨same, moves⟩ := moveOrders_moves
        (fun move decided => algoOnOrderBookUpdate_clip decided) moved
      have before : SameSettings s u := by
        unfold updateBBO at updated
        split at updated
        · cases updated
          exact ⟨rfl, rfl, rfl⟩
        · cases updated
      refine ⟨⟨same.clientId.trans before.clientId, same.algoType.trans before.algoType,
        same.tickerCfg.trans before.tickerCfg⟩, ?_⟩
      rcases moves with ⟨engine, nothing⟩ | ⟨move, loss, clip, made⟩
      · exact .inl ⟨engine.trans orders, nothing⟩
      · refine .inr ⟨move, loss, ?_, ?_⟩
        · rw [← before.tickerCfg]
          exact clip
        · rw [← orders]
          exact made

/-- A market update makes at most one call of `moveOrders`. -/
theorem step_marketUpdate {u : MEMarketUpdate}
    (stepped : s.step (.marketUpdate u) = .ok (t, sent)) : SameSettings s t ∧ s.Moves t sent := by
  unfold step at stepped
  simp only at stepped
  split at stepped
  · obtain ⟨⟨book, notices⟩, updated, ran⟩ := bind_eq_ok.mp stepped
    obtain ⟨notice, rfl, -⟩ := MarketOrderBook.onMarketUpdate_notice updated
    rw [run_singleton] at ran
    obtain ⟨same, moves⟩ := onNotice_moves ran
    exact ⟨⟨same.clientId, same.algoType, same.tickerCfg⟩, moves⟩
  · cases stepped

/-- A response is the response of the order manager's engine. -/
theorem step_clientResponse {x : MEClientResponse}
    (algo : s.algoType = .MAKER ∨ s.algoType = .TAKER)
    (stepped : s.step (.clientResponse x) = .ok (t, sent)) :
    SameSettings s t ∧ s.toTradeEngine.onOrderUpdate x = .ok t.toTradeEngine := by
  obtain ⟨u, updated, last⟩ := bind_eq_ok.mp stepped
  cases last
  refine ⟨?_, onOrderUpdate_toTradeEngine algo updated⟩
  obtain ⟨v, filled, dispatched⟩ := bind_eq_ok.mp updated
  have first : SameSettings s v := by
    split at filled
    · unfold addFill at filled
      split at filled
      · cases filled
        exact ⟨rfl, rfl, rfl⟩
      · cases filled
    · cases filled
      exact ⟨rfl, rfl, rfl⟩
  have managed : ∀ {w : StrategyEngine F}, (v.orderManager.onOrderUpdate x >>= fun orderManager =>
      pure { v with orderManager }) = .ok w → SameSettings v w := by
    intro w returned
    obtain ⟨orderManager, -, last⟩ := bind_eq_ok.mp returned
    cases last
    exact ⟨rfl, rfl, rfl⟩
  have second : SameSettings v t := by
    unfold algoOnOrderUpdate at dispatched
    split at dispatched
    · exact managed dispatched
    · exact managed dispatched
    · cases dispatched
      exact ⟨rfl, rfl, rfl⟩
    · cases dispatched
      exact ⟨rfl, rfl, rfl⟩
  exact ⟨second.clientId.trans first.clientId, second.algoType.trans first.algoType,
    second.tickerCfg.trans first.tickerCfg⟩

end StrategyEngine

/-! ## The engine at the exchange -/

/-- The whole engine, the exchange, and the requests and responses on their way. -/
structure TradingSystem (F : Type) where
  strategyEngine : StrategyEngine F
  exchange : MatchingEngine
  clientRequests : List MEClientRequest
  clientResponses : List MEClientResponse

inductive TradingInput
  /-- The trade engine reads a market update. -/
  | marketUpdate (u : MEMarketUpdate)
  /-- The trade engine reads its next response. -/
  | deliver
  /-- The matching engine reads the next request of the client. -/
  | process
  /-- The matching engine reads a request of another client. -/
  | foreign (r : MEClientRequest)

namespace TradingSystem

variable {F : Type} [Double F]

def new (strategyEngine : StrategyEngine F) (tickerBasePrices : TickerId → Price) :
    TradingSystem F :=
  { strategyEngine, exchange := .new tickerBasePrices, clientRequests := []
    clientResponses := [] }

/-- The session of the orders. -/
def toSession (s : TradingSystem F) : Session :=
  { tradeEngine := s.strategyEngine.toTradeEngine, exchange := s.exchange
    clientRequests := s.clientRequests, clientResponses := s.clientResponses }

/-- The matching engine handles a request, and its responses to the client are on their way. -/
def serve (s : TradingSystem F) (r : MEClientRequest) :
    Except Fault (TradingSystem F × List MEMessage) := do
  let (exchange, out) ← s.exchange.processClientRequest r
  pure ({ s with
    exchange
    clientResponses := s.clientResponses ++
      (responses out).filter fun x => x.clientId = s.strategyEngine.clientId }, out)

def step (s : TradingSystem F) : TradingInput → Except Fault (TradingSystem F × List MEMessage)
  | .marketUpdate u => do
    let (strategyEngine, sent) ← s.strategyEngine.step (.marketUpdate u)
    pure ({ s with strategyEngine, clientRequests := s.clientRequests ++ sent }, [])
  | .deliver =>
    match s.clientResponses with
    | [] => .ok (s, [])
    | x :: rest => do
      let (strategyEngine, sent) ← s.strategyEngine.step (.clientResponse x)
      pure ({ s with
        strategyEngine
        clientRequests := s.clientRequests ++ sent
        clientResponses := rest }, [])
  | .process =>
    match s.clientRequests with
    | [] => .ok (s, [])
    | r :: rest => { s with clientRequests := rest }.serve r
  | .foreign r => s.serve r

/-- Requests of others carry other client ids, and their new orders are for BUY or SELL. -/
def OfOthers (clientId : ClientId) : TradingInput → Prop
  | .foreign r => r.clientId ≠ clientId ∧ Sided r
  | .marketUpdate _ | .deliver | .process => True

instance (clientId : ClientId) : DecidablePred (OfOthers clientId)
  | .foreign _ => inferInstanceAs (Decidable (_ ∧ _))
  | .marketUpdate _ | .deliver | .process => isTrue trivial

/-- The ids that have been given out are inside the tables of the exchange, and so much is known
of the requests of others. -/
def Admissible (clientId : ClientId) (s : TradingSystem F) (i : TradingInput) : Prop :=
  s.strategyEngine.orderManager.nextOrderId ≤ ME_MAX_ORDER_IDS ∧ OfOthers clientId i

instance (clientId : ClientId) (s : TradingSystem F) : DecidablePred (Admissible clientId s) :=
  fun _ => inferInstanceAs (Decidable (_ ∧ _))

variable {s s' : TradingSystem F} {out : List MEMessage}

omit [Double F] in
theorem serve_toSession {requests : List MEClientRequest} {r : MEClientRequest}
    (served : { s with clientRequests := requests }.serve r = .ok (s', out)) :
    s'.strategyEngine = s.strategyEngine ∧
      { s.toSession with clientRequests := requests }.serve r = .ok (s'.toSession, out) := by
  obtain ⟨⟨exchange, sent⟩, processed, last⟩ := bind_eq_ok.mp served
  cases last
  exact ⟨rfl, bind_eq_ok.mpr ⟨(exchange, out), processed, rfl⟩⟩

/-- A step of the whole is at most one step of the session, and an admissible one. -/
theorem step_session {clientId : ClientId} {i : TradingInput}
    (algo : s.strategyEngine.algoType = .MAKER ∨ s.strategyEngine.algoType = .TAKER)
    (admissible : Admissible clientId s i) (stepped : s.step i = .ok (s', out)) :
    StrategyEngine.SameSettings s.strategyEngine s'.strategyEngine ∧
      (s'.toSession = s.toSession ∨
        ∃ j, Session.Admissible clientId s.toSession j ∧
          s.toSession.step j = .ok (s'.toSession, out) ∧
          ((∀ tickerId, (s.strategyEngine.tickerCfg tickerId).clip ≠ 0) →
            s.toSession.SendsNoEmptyOrder j)) := by
  cases i with
  | marketUpdate u =>
      obtain ⟨⟨strategyEngine, sent⟩, moved, last⟩ := bind_eq_ok.mp stepped
      cases last
      obtain ⟨same, moves⟩ := StrategyEngine.step_marketUpdate moved
      refine ⟨same, ?_⟩
      rcases moves with ⟨engine, nothing⟩ | ⟨move, loss, clip, made⟩
      · left
        unfold toSession
        rw [engine, nothing, List.append_nil]
      · right
        refine ⟨.moveOrders move.tickerId move.bidPrice move.askPrice move.clip loss,
          ⟨admissible.1, trivial⟩, bind_eq_ok.mpr ⟨_, made, rfl⟩, ?_⟩
        intro clips zero
        rw [clip] at zero
        exact (clips _ zero).elim
  | deliver =>
      unfold step at stepped
      cases front : s.clientResponses with
      | nil =>
          rw [front] at stepped
          cases stepped
          exact ⟨⟨rfl, rfl, rfl⟩, .inl rfl⟩
      | cons x rest =>
          rw [front] at stepped
          obtain ⟨⟨strategyEngine, sent⟩, answered, last⟩ := bind_eq_ok.mp stepped
          cases last
          obtain ⟨same, updated⟩ := StrategyEngine.step_clientResponse algo answered
          have silent : sent = [] := by
            obtain ⟨u, -, last⟩ := bind_eq_ok.mp answered
            cases last
            rfl
          refine ⟨same, .inr ⟨.deliver, ⟨admissible.1, trivial⟩, ?_, fun _ => trivial⟩⟩
          unfold Session.step
          rw [show s.toSession.clientResponses = x :: rest from front]
          refine bind_eq_ok.mpr ⟨_, updated, ?_⟩
          rw [silent, List.append_nil]
          rfl
  | process =>
      unfold step at stepped
      cases front : s.clientRequests with
      | nil =>
          rw [front] at stepped
          cases stepped
          exact ⟨⟨rfl, rfl, rfl⟩, .inl rfl⟩
      | cons r rest =>
          rw [front] at stepped
          obtain ⟨same, served⟩ := serve_toSession stepped
          refine ⟨⟨by rw [same], by rw [same], by rw [same]⟩,
            .inr ⟨.process, ⟨admissible.1, trivial⟩, ?_, fun _ => trivial⟩⟩
          unfold Session.step
          rw [show s.toSession.clientRequests = r :: rest from front]
          exact served
  | foreign r =>
      obtain ⟨same, served⟩ := serve_toSession stepped
      exact ⟨⟨by rw [same], by rw [same], by rw [same]⟩,
        .inr ⟨.foreign r, ⟨admissible.1, admissible.2⟩, served, fun _ => trivial⟩⟩

/-- What every reachable state of the whole keeps. -/
structure Safe (clientId : ClientId) (tickerBasePrices : TickerId → Price)
    (tickerCfg : TickerId → TradeEngineCfg F) (s : TradingSystem F) : Prop where
  algo : s.strategyEngine.algoType = .MAKER ∨ s.strategyEngine.algoType = .TAKER
  cfg : s.strategyEngine.tickerCfg = tickerCfg
  joint : ∃ refs, Session.Joint clientId tickerBasePrices refs s.toSession
  limited : s.toSession.tradeEngine.Limited fun tickerId => (tickerCfg tickerId).riskCfg
  settled : (∀ tickerId, (tickerCfg tickerId).clip ≠ 0) → s.toSession.Settled clientId

theorem Safe.step {clientId : ClientId} {tickerBasePrices : TickerId → Price}
    {tickerCfg : TickerId → TradeEngineCfg F} {i : TradingInput}
    (safe : Safe clientId tickerBasePrices tickerCfg s)
    (limits : ∀ tickerId, (tickerCfg tickerId).riskCfg.maxOrderSize < 2 ^ 30 ∧
      (tickerCfg tickerId).riskCfg.maxPosition < 2 ^ 30)
    (admissible : Admissible clientId s i) (stepped : s.step i = .ok (s', out)) :
    Safe clientId tickerBasePrices tickerCfg s' := by
  obtain ⟨same, followed⟩ := step_session safe.algo admissible stepped
  have algo : s'.strategyEngine.algoType = .MAKER ∨ s'.strategyEngine.algoType = .TAKER := by
    rw [same.algoType]
    exact safe.algo
  have cfg : s'.strategyEngine.tickerCfg = tickerCfg := same.tickerCfg.trans safe.cfg
  rcases followed with still | ⟨j, allowed, moved, filled⟩
  · refine ⟨algo, cfg, ?_, ?_, ?_⟩
    · rw [still]
      exact safe.joint
    · rw [still]
      exact safe.limited
    · rw [still]
      exact safe.settled
  · obtain ⟨refs, joint⟩ := safe.joint
    refine ⟨algo, cfg, joint.step allowed moved,
      Session.limited_step safe.limited joint limits moved, ?_⟩
    intro clips
    refine (safe.settled clips).step joint allowed (filled fun tickerId => ?_) moved
    rw [safe.cfg]
    exact clips tickerId

/-- **A market maker or a liquidity taker at the exchange**, whatever market data it reads and
whatever orders for BUY or SELL others send: in every reachable state a side has one order at most
and the positions are within their limits, which are below `2 ^ 30`; with no clip of zero, the
order manager shows what rests wherever nothing is on its way. -/
theorem run_trading_safe (clientId : ClientId) (algoType : AlgoType)
    (tickerCfg : TickerId → TradeEngineCfg F) (bookPrices tickerBasePrices : TickerId → Price)
    (algo : algoType = .MAKER ∨ algoType = .TAKER)
    (limits : ∀ tickerId, (tickerCfg tickerId).riskCfg.maxOrderSize < 2 ^ 30 ∧
      (tickerCfg tickerId).riskCfg.maxPosition < 2 ^ 30) (inputs : List TradingInput)
    (admits : Admits (Admissible clientId) step
      (new (.new clientId algoType tickerCfg bookPrices) tickerBasePrices) inputs)
    (s : TradingSystem F) (out : List MEMessage)
    (ran : run step (new (.new clientId algoType tickerCfg bookPrices) tickerBasePrices) inputs =
      .ok (s, out)) :
    (∀ tickerId, (∀ side, (s.toSession.newsInFlight tickerId side).length +
        ((s.exchange.tickerOrderBook tickerId).restingOf clientId side).length ≤ 1) ∧
      |(s.strategyEngine.positionKeeper tickerId).position| ≤
        (tickerCfg tickerId).riskCfg.maxPosition) ∧
    ((∀ tickerId, (tickerCfg tickerId).clip ≠ 0) → s.clientRequests = [] →
      s.clientResponses = [] → s.toSession.Agrees clientId) := by
  have start : Safe clientId tickerBasePrices tickerCfg
      (new (.new clientId algoType tickerCfg bookPrices) tickerBasePrices) :=
    ⟨algo, rfl, ⟨_, Session.Joint.new clientId _ tickerBasePrices⟩, .new clientId _,
      fun _ => Session.Settled.new clientId _ tickerBasePrices⟩
  have safe : Safe clientId tickerBasePrices tickerCfg s := admits_invariant start
    (fun before admissible stepped => before.step limits admissible stepped) admits ran
  obtain ⟨refs, joint⟩ := safe.joint
  refine ⟨fun tickerId => ⟨fun side => ?_, safe.limited.limit tickerId⟩, ?_⟩
  · have count := (joint.refines tickerId).length_restingOf clientId side
    rw [show (s.exchange.tickerOrderBook tickerId) = s.toSession.exchange.tickerOrderBook tickerId
      from rfl, count]
    exact (joint.phase tickerId side).single
  · exact fun clips noRequest noResponse =>
      (safe.settled clips).agrees joint noRequest noResponse

/-- A market maker with clips of 5. -/
def maker : StrategyEngine ExactDouble :=
  .new 1 .MAKER
    (fun _ => { clip := 5, threshold := some 0, riskCfg := ⟨10, 10⟩, maxLoss := some (-100) })
    fun _ => 100

/-- An order of another client is added to the book of ticker 0. -/
def shown (orderId : OrderId) (side : Side) (price : Price) : TradingInput :=
  .marketUpdate { type := .ADD, orderId, tickerId := 0, side, price, qty := 10, priority := 1 }

/-- The maker quotes 102 and 104, sells 5, and is at rest. -/
def makerInputs : List TradingInput :=
  [shown 1 .BUY 101, shown 2 .BUY 102, shown 3 .SELL 105, shown 4 .SELL 104, .process, .process,
    .deliver, .deliver, .foreign ⟨.NEW, 2, 0, 1, .BUY, 104, 5⟩, .deliver]

theorem run_trading_safe_maker :
    ∃ s out, run step (new maker fun _ => 0) makerInputs = .ok (s, out) ∧
      (s.strategyEngine.positionKeeper 0).position = -5 ∧
      (∀ tickerId, (∀ side, (s.toSession.newsInFlight tickerId side).length +
          ((s.exchange.tickerOrderBook tickerId).restingOf 1 side).length ≤ 1) ∧
        |(s.strategyEngine.positionKeeper tickerId).position| ≤ 10) ∧
      s.toSession.Agrees 1 := by
  obtain ⟨s, out, ran, read⟩ := run_of_read step (new maker fun _ => 0) makerInputs
    (fun result => decide (result.1.clientRequests = [] ∧ result.1.clientResponses = [] ∧
      (result.1.strategyEngine.positionKeeper 0).position = -5)) true (by decide +kernel)
  obtain ⟨noRequest, noResponse, sold⟩ := of_decide_eq_true read
  obtain ⟨limits, rest⟩ := run_trading_safe 1 .MAKER _ _ (fun _ => 0) (.inl rfl)
    (fun _ => ⟨by decide, by decide⟩) makerInputs (by decide +kernel) s out ran
  exact ⟨s, out, ran, sold, limits, rest (fun _ => by decide) noRequest noResponse⟩

end TradingSystem

end NanoTrade
