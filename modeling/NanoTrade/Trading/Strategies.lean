import Mathlib.Data.Rat.Defs
import NanoTrade.Ends
import NanoTrade.Trading.PositionKeeper

/-!
# The strategies

`trading/strategy/trade_engine.{h,cpp}` with `feature_engine.h`, `market_maker.h` and
`liquidity_taker.h`: what the trade engine makes of a market update or a client response, down
to the requests that its algorithm sends. The features and the profits are computed with
whatever operations stand for those of `double`.

* `moveOrders_toTradeEngine`, `onOrderUpdate_toTradeEngine`: on the orders, the engine is the
  `TradeEngine` of the order manager, with the risk check's verdict on the losses filled in.
-/

namespace NanoTrade

/-- What the strategies use of `double`. -/
class Double (F : Type) extends Add F, Sub F, Mul F, Div F, IntCast F, LE F, LT F where
  quietNaN : F
  /-- `!=`. -/
  differs : F → F → Bool
  decidableLE : DecidableLE F
  decidableLT : DecidableLT F

attribute [reducible, instance] Double.decidableLE Double.decidableLT

/-- A `double` that does not round: a rational number, or NaN. -/
def ExactDouble : Type :=
  Option ℚ

namespace ExactDouble

def lift (f : ℚ → ℚ → ℚ) : ExactDouble → ExactDouble → ExactDouble
  | some a, some b => some (f a b)
  | _, _ => none

/-- NaN compares with nothing. -/
def Compares (P : ℚ → ℚ → Prop) : ExactDouble → ExactDouble → Prop
  | some a, some b => P a b
  | _, _ => False

instance (P : ℚ → ℚ → Prop) [∀ a b, Decidable (P a b)] :
    ∀ x y : ExactDouble, Decidable (Compares P x y)
  | some a, some b => inferInstanceAs (Decidable (P a b))
  | some _, none => isFalse id
  | none, _ => isFalse id

instance : Double ExactDouble where
  add := lift (· + ·)
  sub := lift (· - ·)
  mul := lift (· * ·)
  div
    | some a, some b => if b = 0 then none else some (a / b)
    | _, _ => none
  intCast n := some (n : ℚ)
  le := Compares (· ≤ ·)
  lt := Compares (· < ·)
  quietNaN := none
  differs
    | some a, some b => a != b
    | _, _ => true
  decidableLE := fun x y => inferInstanceAs (Decidable (Compares (· ≤ ·) x y))
  decidableLT := fun x y => inferInstanceAs (Decidable (Compares (· < ·) x y))

end ExactDouble

/-- Sentinel value to represent invalid / uninitialized feature value. -/
def Feature_INVALID {F : Type} [Double F] : F :=
  Double.quietNaN

/-- Type of trading algorithm. -/
inductive AlgoType
  | INVALID
  | RANDOM
  | MAKER
  | TAKER
  deriving DecidableEq, Repr

/-- `TradeEngineCfg`, with the `max_loss_` of its `risk_cfg_` beside it. -/
structure TradeEngineCfg (F : Type) where
  clip : Qty
  threshold : F
  riskCfg : RiskCfg
  maxLoss : F

/-- `bid_price_ != Price_INVALID && ask_price_ != Price_INVALID`. -/
def BBO.TwoSided (bbo : BBO) : Prop :=
  bbo.bidPrice ≠ Price_INVALID ∧ bbo.askPrice ≠ Price_INVALID

instance (bbo : BBO) : Decidable bbo.TwoSided :=
  inferInstanceAs (Decidable (_ ∧ _))

/-- The two features, of all tickers together. -/
structure FeatureEngine (F : Type) where
  mktPrice : F
  aggTradeQtyRatio : F

namespace FeatureEngine

variable {F : Type} [Double F]

def new : FeatureEngine F :=
  { mktPrice := Feature_INVALID, aggTradeQtyRatio := Feature_INVALID }

/-- The fair market price between the best ones. -/
def fairPrice (bbo : BBO) : F :=
  (IntWidths.machine.int64 (bbo.bidPrice * bbo.askQty + bbo.askPrice * bbo.bidQty) : F) /
    ((IntWidths.machine.uint32 (bbo.bidQty + bbo.askQty) : Int) : F)

/-- The quantity of a trade against that on the other side of the book. -/
def tradeRatio (u : MEMarketUpdate) (bbo : BBO) : F :=
  ((u.qty : Int) : F) / (((if u.side = .BUY then bbo.askQty else bbo.bidQty) : Int) : F)

/-- Process a change in order book and in this case compute the fair market price. -/
def onOrderBookUpdate (s : FeatureEngine F) (bbo : BBO) : FeatureEngine F :=
  if bbo.TwoSided then { s with mktPrice := fairPrice bbo } else s

/-- Process a trade event and in this case compute the feature to capture aggressive trade
quantity ratio against the BBO quantity. -/
def onTradeUpdate (s : FeatureEngine F) (u : MEMarketUpdate) (bbo : BBO) : FeatureEngine F :=
  if bbo.TwoSided then { s with aggTradeQtyRatio := tradeRatio u bbo } else s

end FeatureEngine

/-- A call of `moveOrders` that an algorithm decides on. -/
structure Move where
  tickerId : TickerId
  bidPrice : Price
  askPrice : Price
  clip : Qty
  deriving DecidableEq, Repr

section Algorithms

variable {F : Type} [Double F]

/-- Process order book updates, fetch the fair market price from the feature engine, check
against the trading threshold and modify the passive orders. -/
def MarketMaker.onOrderBookUpdate (tickerCfg : TickerId → TradeEngineCfg F)
    (featureEngine : FeatureEngine F) (tickerId : TickerId) (bbo : BBO) : Option Move :=
  let fairPrice := featureEngine.mktPrice
  if bbo.TwoSided ∧ Double.differs fairPrice Feature_INVALID then
    let threshold := (tickerCfg tickerId).threshold
    some {
      tickerId
      bidPrice := bbo.bidPrice - if fairPrice - (bbo.bidPrice : F) ≥ threshold then 0 else 1
      askPrice := bbo.askPrice + if (bbo.askPrice : F) - fairPrice ≥ threshold then 0 else 1
      clip := (tickerCfg tickerId).clip }
  else none

/-- Process trade events, fetch the aggressive trade ratio from the feature engine, check
against the trading threshold and send aggressive orders. -/
def LiquidityTaker.onTradeUpdate (tickerCfg : TickerId → TradeEngineCfg F)
    (featureEngine : FeatureEngine F) (u : MEMarketUpdate) (bbo : BBO) : Option Move :=
  let aggQtyRatio := featureEngine.aggTradeQtyRatio
  if bbo.TwoSided ∧ Double.differs aggQtyRatio Feature_INVALID then
    if aggQtyRatio ≥ (tickerCfg u.tickerId).threshold then
      if u.side = .BUY then
        some ⟨u.tickerId, bbo.askPrice, Price_INVALID, (tickerCfg u.tickerId).clip⟩
      else
        some ⟨u.tickerId, Price_INVALID, bbo.bidPrice, (tickerCfg u.tickerId).clip⟩
    else none
  else none

end Algorithms

/-- A trade engine with its books, its features and its algorithm. -/
structure StrategyEngine (F : Type) where
  clientId : ClientId
  algoType : AlgoType
  tickerCfg : TickerId → TradeEngineCfg F
  tickerOrderBook : TickerId → MarketOrderBook
  featureEngine : FeatureEngine F
  positionKeeper : TickerId → PositionPnl F
  orderManager : OrderManager

/-- What `TradeEngine::run` reads from its two queues. -/
inductive EngineInput
  | clientResponse (x : MEClientResponse)
  | marketUpdate (u : MEMarketUpdate)
  deriving DecidableEq, Repr

def EngineInput.tickerId : EngineInput → TickerId
  | .clientResponse x => x.tickerId
  | .marketUpdate u => u.tickerId

namespace StrategyEngine

variable {F : Type} [Double F]

def new (clientId : ClientId) (algoType : AlgoType) (tickerCfg : TickerId → TradeEngineCfg F)
    (tickerBasePrices : TickerId → Price) : StrategyEngine F :=
  { clientId, algoType, tickerCfg
    tickerOrderBook := fun ticker => .new (tickerBasePrices ticker)
    featureEngine := .new
    positionKeeper := fun _ => .new
    orderManager := .new }

variable (s : StrategyEngine F)

/-- `total_pnl_ < max_loss_`. -/
def lossTooLarge (tickerId : TickerId) : Bool :=
  decide ((s.positionKeeper tickerId).totalPnl < (s.tickerCfg tickerId).maxLoss)

/-- `RiskManager::checkPreTradeRisk`. -/
def checkPreTradeRisk (tickerId : TickerId) : Side → Qty → RiskCheckResult :=
  (s.tickerCfg tickerId).riskCfg.checkPreTradeRisk (s.positionKeeper tickerId).toPositionInfo
    (s.lossTooLarge tickerId)

/-- What the order manager makes of the algorithm's decision. -/
def moveOrders : Option Move → Except Fault (StrategyEngine F × List MEClientRequest)
  | none => .ok (s, [])
  | some move => do
    let (orderManager, sent) ← s.orderManager.moveOrders s.clientId move.tickerId
      (s.checkPreTradeRisk move.tickerId) move.bidPrice move.askPrice move.clip
    pure ({ s with orderManager }, sent)

/-- `algoOnOrderBookUpdate_`. -/
def algoOnOrderBookUpdate (tickerId : TickerId) (bbo : BBO) : Option Move :=
  match s.algoType with
  | .MAKER => MarketMaker.onOrderBookUpdate s.tickerCfg s.featureEngine tickerId bbo
  | .TAKER | .INVALID | .RANDOM => none

/-- `algoOnTradeUpdate_`. -/
def algoOnTradeUpdate (u : MEMarketUpdate) (bbo : BBO) : Option Move :=
  match s.algoType with
  | .TAKER => LiquidityTaker.onTradeUpdate s.tickerCfg s.featureEngine u bbo
  | .MAKER | .INVALID | .RANDOM => none

/-- `PositionKeeper::updateBBO`. -/
def updateBBO (tickerId : TickerId) (bbo : BBO) : Except Fault (StrategyEngine F) :=
  if tickerId < ME_MAX_TICKERS then
    .ok { s with
      positionKeeper := Function.update s.positionKeeper tickerId
        ((s.positionKeeper tickerId).updateBBO .machine bbo) }
  else .error (.outOfRange tickerId)

/-- Process changes to the order book - updates the position keeper, feature engine and informs
the trading algorithm about the update. -/
def onOrderBookUpdate (tickerId : TickerId) (bbo : BBO) :
    Except Fault (StrategyEngine F × List MEClientRequest) := do
  let s ← s.updateBBO tickerId bbo
  let s := { s with featureEngine := s.featureEngine.onOrderBookUpdate bbo }
  s.moveOrders (s.algoOnOrderBookUpdate tickerId bbo)

/-- Process trade events - updates the feature engine and informs the trading algorithm about
the trade event. -/
def onTradeUpdate (u : MEMarketUpdate) (bbo : BBO) :
    Except Fault (StrategyEngine F × List MEClientRequest) :=
  let s := { s with featureEngine := s.featureEngine.onTradeUpdate u bbo }
  s.moveOrders (s.algoOnTradeUpdate u bbo)

/-- A call from the book of a ticker. -/
def onNotice (book : MarketOrderBook) :
    BookNotice → Except Fault (StrategyEngine F × List MEClientRequest)
  | .onTradeUpdate u => s.onTradeUpdate u book.bbo
  | .onOrderBookUpdate tickerId _ _ bbo => s.onOrderBookUpdate tickerId bbo

/-- `PositionKeeper::addFill`. -/
def addFill (x : MEClientResponse) : Except Fault (StrategyEngine F) :=
  if x.tickerId < ME_MAX_TICKERS then
    .ok { s with
      positionKeeper := Function.update s.positionKeeper x.tickerId
        ((s.positionKeeper x.tickerId).addFill .machine x) }
  else .error (.outOfRange x.tickerId)

/-- `algoOnOrderUpdate_`. -/
def algoOnOrderUpdate (x : MEClientResponse) : Except Fault (StrategyEngine F) :=
  match s.algoType with
  | .MAKER | .TAKER => do
    let orderManager ← s.orderManager.onOrderUpdate x
    pure { s with orderManager }
  | .INVALID | .RANDOM => .ok s

/-- Process client responses - updates the position keeper and informs the trading algorithm
about the response. -/
def onOrderUpdate (x : MEClientResponse) : Except Fault (StrategyEngine F) := do
  let s ← (if x.type = .FILLED then s.addFill x else pure s)
  s.algoOnOrderUpdate x

/-- Main loop: one response or one update. -/
def step : EngineInput → Except Fault (StrategyEngine F × List MEClientRequest)
  | .clientResponse x => do
    let s ← s.onOrderUpdate x
    pure (s, [])
  | .marketUpdate u =>
    if u.tickerId < ME_MAX_TICKERS then do
      let (book, notices) ← (s.tickerOrderBook u.tickerId).onMarketUpdate u
      let s := { s with tickerOrderBook := Function.update s.tickerOrderBook u.tickerId book }
      run (fun s notice => s.onNotice book notice) s notices
    else .error (.outOfRange u.tickerId)

/-! ## The orders alone -/

/-- The parts of the engine through which orders pass. -/
def toTradeEngine : TradeEngine :=
  { clientId := s.clientId
    riskCfg := fun ticker => (s.tickerCfg ticker).riskCfg
    positionKeeper := fun ticker => (s.positionKeeper ticker).toPositionInfo
    orderManager := s.orderManager }

theorem toTradeEngine_updateBBO {s t : StrategyEngine F} {tickerId : TickerId} {bbo : BBO}
    (updated : s.updateBBO tickerId bbo = .ok t) : t.toTradeEngine = s.toTradeEngine := by
  unfold updateBBO at updated
  split at updated
  · cases updated
    unfold toTradeEngine
    rw [TradeEngine.mk.injEq]
    refine ⟨rfl, rfl, ?_, rfl⟩
    funext ticker
    rcases eq_or_ne ticker tickerId with rfl | other
    · simp only [Function.update_self, PositionPnl.updateBBO_toPositionInfo]
    · simp only [Function.update_of_ne other]
  · cases updated

/-- A decision of the algorithm is one of the calls that the order manager is modelled with. -/
theorem moveOrders_toTradeEngine {s t : StrategyEngine F} {move : Move}
    {sent : List MEClientRequest} (moved : s.moveOrders (some move) = .ok (t, sent)) :
    s.toTradeEngine.moveOrders move.tickerId move.bidPrice move.askPrice move.clip
      (s.lossTooLarge move.tickerId) = .ok (t.toTradeEngine, sent) := by
  obtain ⟨⟨orderManager, requests⟩, returned, last⟩ := bind_eq_ok.mp moved
  cases last
  exact bind_eq_ok.mpr ⟨(orderManager, sent), returned, rfl⟩

theorem toTradeEngine_addFill {s t : StrategyEngine F} {x : MEClientResponse}
    (filled : s.addFill x = .ok t) : s.toTradeEngine.addFill x = .ok t.toTradeEngine := by
  unfold addFill at filled
  unfold TradeEngine.addFill
  split at filled
  · rename_i known
    cases filled
    rw [if_pos known]
    unfold toTradeEngine
    rw [Except.ok.injEq, TradeEngine.mk.injEq]
    refine ⟨rfl, rfl, ?_, rfl⟩
    funext ticker
    rcases eq_or_ne ticker x.tickerId with rfl | other
    · simp only [Function.update_self, PositionPnl.addFill_toPositionInfo]
    · simp only [Function.update_of_ne other]
  · cases filled

/-- A response reaches the orders of either algorithm. -/
theorem onOrderUpdate_toTradeEngine {s t : StrategyEngine F} {x : MEClientResponse}
    (algo : s.algoType = .MAKER ∨ s.algoType = .TAKER) (updated : s.onOrderUpdate x = .ok t) :
    s.toTradeEngine.onOrderUpdate x = .ok t.toTradeEngine := by
  have managed : ∀ u : StrategyEngine F, u.algoType = s.algoType → u.algoOnOrderUpdate x = .ok t →
      (u.toTradeEngine.orderManager.onOrderUpdate x >>= fun orderManager =>
        pure { u.toTradeEngine with orderManager }) = .ok t.toTradeEngine := by
    intro u same dispatched
    rw [← same] at algo
    have dispatched : (u.orderManager.onOrderUpdate x >>= fun orderManager =>
        pure { u with orderManager }) = .ok t := by
      unfold algoOnOrderUpdate at dispatched
      split at dispatched
      · exact dispatched
      · exact dispatched
      · rename_i kind
        simp [kind] at algo
      · rename_i kind
        simp [kind] at algo
    obtain ⟨orderManager, returned, last⟩ := bind_eq_ok.mp dispatched
    cases last
    exact bind_eq_ok.mpr ⟨orderManager, returned, rfl⟩
  obtain ⟨u, filled, dispatched⟩ := bind_eq_ok.mp updated
  unfold TradeEngine.onOrderUpdate
  split at filled
  · rename_i fills
    have same : u.algoType = s.algoType := by
      unfold addFill at filled
      split at filled
      · cases filled
        rfl
      · cases filled
    rw [if_pos fills]
    exact bind_eq_ok.mpr ⟨u.toTradeEngine, toTradeEngine_addFill filled, managed u same dispatched⟩
  · rename_i other
    cases filled
    rw [if_neg other]
    exact managed s rfl dispatched

end StrategyEngine

end NanoTrade
