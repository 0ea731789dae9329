import NanoTrade.Backtest.BinanceReplay
import NanoTrade.Backtest.FillSimulator
import NanoTrade.Backtest.LobsterReplay
import NanoTrade.Exchange.MEOrderBook
import NanoTrade.Trading.Strategies

/-!
# The side of a TRADE

Three components emit TRADEs and three read their side. The matching engine and the Binance replay
write the side of the aggressor, and the strategies read it as that; the LOBSTER replay writes the
side of the resting order, and the fill simulator reads that.

* `not_agree`: no TRADE means the same side of the book to the simulator and to the strategies.
* `replay_agrees_iff`: so a tape is read alike exactly where none of its executions is replayed.
* `matched_trade`, `binance_trade`: the other two producers write the aggressor.
-/

namespace NanoTrade

namespace TradeSides

/-! ## What the readers take the side for -/

/-- The simulator takes the trade off the queue of this side. -/
def SimulatorConsumes (u : MEMarketUpdate) (side : BookSide) : Prop :=
  ∃ po, FillSimulator.Matches u po ∧ po.req.side = side.toSide

/-- The feature engine divides by the quantity at the best price of this side. -/
def EngineDividesBy (u : MEMarketUpdate) (side : BookSide) : Prop :=
  ∀ (F : Type) [Double F] (bbo : BBO),
    (FeatureEngine.tradeRatio u bbo : F) = ((u.qty : Int) : F) / (((bbo.of side).2 : Int) : F)

/-- An order that takes the best price of this side. -/
def Hits (move : Move) (bbo : BBO) : BookSide → Prop
  | .bid => move.askPrice = bbo.bidPrice ∧ move.bidPrice = Price_INVALID
  | .ask => move.bidPrice = bbo.askPrice ∧ move.askPrice = Price_INVALID

/-- The taker trades against this side. -/
def TakerTradesAgainst (u : MEMarketUpdate) (side : BookSide) : Prop :=
  ∀ (F : Type) [Double F] (tickerCfg : TickerId → TradeEngineCfg F) (features : FeatureEngine F)
    (bbo : BBO) (move : Move),
    LiquidityTaker.onTradeUpdate tickerCfg features u bbo = some move → Hits move bbo side

/-- The readers agree on the side of the book that was consumed. -/
def Agree (u : MEMarketUpdate) : Prop :=
  ∃ side, SimulatorConsumes u side ∧ EngineDividesBy u side ∧ TakerTradesAgainst u side

/-- The TRADE has the side of the aggressor, where the order that rested is of this side. -/
def HasAggressor (u : MEMarketUpdate) (resting : BookSide) : Prop :=
  u.side = resting.opposite.toSide

/-- The TRADEs that are replayed for a row of a tape are read alike, and as those of the other
producers. -/
def ReadAlike (tickerId : TickerId) (s : LobsterReplay) (row : LobsterRow) : Prop :=
  ∀ u ∈ (LobsterReplay.step tickerId s row).2, u.type = .TRADE →
    Agree u ∧ HasAggressor u (Tape.side row)

/-- A row is no execution, or none of an order that the replay has mapped. -/
def Silent (s : LobsterReplay) (row : LobsterRow) : Prop :=
  row.type = 4 ∨ row.type = 5 → s.stopped = true ∨ s.lobsterIdToSlot row.orderId = none

instance (s : LobsterReplay) (row : LobsterRow) : Decidable (Silent s row) :=
  inferInstanceAs (Decidable (_ → _))

variable {u : MEMarketUpdate} {side : BookSide}

theorem simulatorConsumes_iff : SimulatorConsumes u side ↔ u.side = side.toSide := by
  constructor
  · intro ⟨po, here, sided⟩
    rw [← here.2.2, sided]
  · intro sided
    let req : MEClientRequest :=
      { type := .NEW, clientId := 0, tickerId := u.tickerId, orderId := 0, side := u.side
        price := u.price, qty := 0 }
    exact ⟨{ req, bboAtSubmit := .default, leavesQty := 0, queueAware := true }, ⟨rfl, rfl, rfl⟩,
      sided⟩

/-- The features of an aggressor's TRADE are those of the other side. -/
theorem engineDividesBy_opposite (sided : u.side = side.toSide) :
    EngineDividesBy u side.opposite := by
  intro F _ bbo
  rw [FeatureEngine.tradeRatio, sided]
  cases side with
  | bid => rfl
  | ask => rfl

theorem takerTradesAgainst_opposite (sided : u.side = side.toSide) :
    TakerTradesAgainst u side.opposite := by
  intro F _ tickerCfg features bbo move decided
  unfold LiquidityTaker.onTradeUpdate at decided
  simp only at decided
  split at decided
  · split at decided
    · rw [sided] at decided
      cases side with
      | bid =>
          cases decided
          exact ⟨rfl, rfl⟩
      | ask =>
          cases decided
          exact ⟨rfl, rfl⟩
    · cases decided
  · cases decided

/-- It divides by one side only: there are best prices with nothing on the other. -/
theorem not_engineDividesBy (sided : u.side = side.toSide) : ¬ EngineDividesBy u side := by
  intro divides
  have other := engineDividesBy_opposite sided
  cases side with
  | bid =>
      have here := divides ExactDouble ⟨0, 0, 1, 0⟩
      rw [other ExactDouble ⟨0, 0, 1, 0⟩] at here
      cases here
  | ask =>
      have here := divides ExactDouble ⟨0, 0, 0, 1⟩
      rw [other ExactDouble ⟨0, 0, 0, 1⟩] at here
      cases here

/-- No TRADE is read alike: where the simulator consumes a side, the feature engine divides by
the other. -/
theorem not_agree (u : MEMarketUpdate) : ¬ Agree u := by
  intro ⟨side, consumes, divides, _⟩
  exact not_engineDividesBy (simulatorConsumes_iff.mp consumes) divides

/-! ## What the producers write -/

/-- The LOBSTER replay writes the side of the order that rested, which the simulator consumes,
and against which neither the features nor the taker are. -/
theorem replayed_trade {tickerId : TickerId} {s : LobsterReplay} {row : LobsterRow}
    (mem : u ∈ (LobsterReplay.step tickerId s row).2) :
    u.side = (Tape.side row).toSide ∧ SimulatorConsumes u (Tape.side row) ∧
      EngineDividesBy u (Tape.side row).opposite ∧
        TakerTradesAgainst u (Tape.side row).opposite := by
  obtain ⟨-, slot, rfl, -⟩ := LobsterReplay.mem_step mem
  have sided := LobsterReplay.update_side tickerId row slot
  exact ⟨sided, simulatorConsumes_iff.mpr sided, engineDividesBy_opposite sided,
    takerTradesAgainst_opposite sided⟩

/-- The Binance replay writes the aggressor: the side whose best price the trade is at is the
one that it consumed. -/
theorem binance_trade (tickerId : TickerId) (t : AggTrade) :
    HasAggressor (BinanceAggTradesReplay.trade tickerId t)
        (BinanceAggTradesReplay.sideOf t.isBuyerMaker) ∧
      EngineDividesBy (BinanceAggTradesReplay.trade tickerId t)
        (BinanceAggTradesReplay.sideOf t.isBuyerMaker) := by
  have aggressor : HasAggressor (BinanceAggTradesReplay.trade tickerId t)
      (BinanceAggTradesReplay.sideOf t.isBuyerMaker) := by
    unfold HasAggressor BinanceAggTradesReplay.trade BinanceAggTradesReplay.sideOf
    cases t.isBuyerMaker with
    | true => rfl
    | false => rfl
  refine ⟨aggressor, ?_⟩
  have divides := engineDividesBy_opposite aggressor
  rw [BookSide.opposite_opposite] at divides
  exact divides

/-- The matching engine writes the aggressor. -/
theorem matched_trade {s t : LevelBook MEOrderKey MESlot} {a : Aggressor} {itr : Ptr}
    {leavesQty left : Qty} {out : List MEMessage}
    (filled : MEOrderBook.matchOrder s a itr leavesQty = .ok (t, left, out))
    (mem : .update u ∈ out) (trade : u.type = .TRADE) : u.side = a.side := by
  obtain ⟨order, fillQty, update, rfl, isUpdate⟩ := MEOrderBook.matchOrder_eq_ok filled
  simp only [MEOrderBook.fillMessages, List.cons_append, List.nil_append, List.mem_cons,
    reduceCtorEq, false_or, MEMessage.update.injEq, List.not_mem_nil, or_false] at mem
  rcases mem with rfl | rfl
  · rfl
  · rcases isUpdate with impossible | impossible
    · cases impossible
      cases trade
    · cases impossible
      cases trade

/-! ## Tapes -/

/-- A row is read alike exactly where no TRADE is replayed for it. -/
theorem readAlike_iff (tickerId : TickerId) (s : LobsterReplay) (row : LobsterRow) :
    ReadAlike tickerId s row ↔ Silent s row := by
  constructor
  · intro alike execution
    have trade : LobsterReplay.mapType row.type = .TRADE := by
      rcases execution with isFour | isFive
      · rw [isFour]
        rfl
      · rw [isFive]
        rfl
    by_contra replayed
    rw [not_or] at replayed
    obtain ⟨slot, mapped⟩ := Option.ne_none_iff_exists'.mp replayed.2
    have emitted : LobsterReplay.step tickerId s row = LobsterReplay.emit tickerId s row slot :=
      LobsterReplay.step_mapped (Bool.eq_false_iff.mpr replayed.1)
        (by rw [trade]; intro same; cases same) mapped
    refine not_agree _ (alike (LobsterReplay.update tickerId row slot) ?_ trade).1
    rw [emitted]
    exact List.mem_singleton_self _
  · intro silent u mem trade
    obtain ⟨running, slot, rfl, known⟩ := LobsterReplay.mem_step mem
    have type : LobsterReplay.mapType row.type = .TRADE := trade
    exfalso
    rcases silent (LobsterReplay.execution_of_trade type) with stopped | unmapped
    · rw [stopped] at running
      cases running
    · rcases known with mapped | ⟨-, isAdd, -⟩
      · rw [unmapped] at mapped
        cases mapped
      · rw [type] at isAdd
        cases isAdd

/-- **A tape is read alike** by the strategies and the simulator, and as the TRADEs of the other
producers, exactly where no execution of an order that the replay has mapped is in it. -/
theorem replay_agrees_iff (tickerId : TickerId) (rows : List LobsterRow) :
    Along (ReadAlike tickerId) (LobsterReplay.step tickerId) .new rows ↔
      Along Silent (LobsterReplay.step tickerId) .new rows := by
  constructor
  · intro alike
    exact alike.imp fun here => (readAlike_iff tickerId _ _).mp here
  · intro silent
    exact silent.imp fun here => (readAlike_iff tickerId _ _).mpr here

/-- A bid of 10, of which 5 are executed. -/
def executedBid : List LobsterRow :=
  [{ type := 1, orderId := 7, size := 10, price := 100, direction := 1 },
    { type := 4, orderId := 7, size := 5, price := 100, direction := 1 }]

/-- An executed bid is read both ways: the simulator takes it off the bids, the feature engine
divides by the asks and the taker buys at the ask. -/
theorem not_read_alike :
    (LobsterReplay.updates 0 executedBid).map (fun u => (u.type, u.side)) =
        [(.ADD, .BUY), (.TRADE, .BUY)] ∧
      ¬ Along (ReadAlike 0) (LobsterReplay.step 0) .new executedBid := by
  refine ⟨by decide, fun alike => ?_⟩
  have trade : LobsterReplay.update 0 ⟨4, 7, 5, 100, 1⟩ 0 ∈
      (LobsterReplay.step 0 (LobsterReplay.step 0 .new ⟨1, 7, 10, 100, 1⟩).1
        ⟨4, 7, 5, 100, 1⟩).2 := by decide
  have read := (alike.2.1 _ trade rfl).1
  exact not_agree _ read

end TradeSides

end NanoTrade
