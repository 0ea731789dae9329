import NanoTrade.Trading.Strategies
import NanoTrade.Unwinding

/-!
# The tickers of a trade engine

The tickers share the features and the counter of the order ids. A feature is read only where
it has just been written for the same ticker, and the ids go into the requests and nowhere
else: up to the ids, what an engine sends for a ticker depends on the inputs of that ticker.

* `OrderManager.moveOrder_alike`, `OrderManager.moveOrder_frame`: a move under another counter,
  and all that it leaves alone.
* `agreeOn_unwinds`: the state of one ticker unwinds over its inputs.
* `run_tickerIndependence`: two histories that agree on a ticker send the same for it.
-/

namespace NanoTrade

/-! ## Up to the order ids -/

def OMOrder.erased (o : OMOrder) : OMOrder :=
  { o with orderId := 0 }

def MEClientRequest.erased (r : MEClientRequest) : MEClientRequest :=
  { r with orderId := 0 }

def MEClientResponse.erased (x : MEClientResponse) : MEClientResponse :=
  { x with clientOrderId := 0 }

def EngineInput.erased : EngineInput → EngineInput
  | .clientResponse x => .clientResponse x.erased
  | .marketUpdate u => .marketUpdate u

/-- A request for the ticker, up to its order id. -/
def MEClientRequest.forTicker (tickerId : TickerId) (r : MEClientRequest) :
    Option MEClientRequest :=
  if r.tickerId = tickerId then some r.erased else none

namespace OrderManager

/-- Every order is of the ticker of its slot, or was never placed. -/
def OwnTickers (s : OrderManager) : Prop :=
  ∀ ticker side, (s.tickerSideOrder ticker side).tickerId = ticker ∨
    (s.tickerSideOrder ticker side).tickerId = TickerId_INVALID

theorem OwnTickers.new : OrderManager.new.OwnTickers :=
  fun _ _ => .inr rfl

variable {s s' : OrderManager} {tickerId : TickerId} {side : Side}

theorem OwnTickers.setOrder (own : s.OwnTickers) {o : OMOrder}
    (here : o.tickerId = tickerId ∨ o.tickerId = TickerId_INVALID) :
    (s.setOrder tickerId side o).OwnTickers := by
  intro ticker side'
  by_cases same : ticker = tickerId ∧ side' = side
  · obtain ⟨rfl, rfl⟩ := same
    rw [setOrder_self]
    exact here
  · rw [setOrder_of_ne o same]
    exact own ticker side'

theorem OwnTickers.updated (own : s.OwnTickers) (x : MEClientResponse) :
    (s.setOrder x.tickerId x.side
      (updated x (s.tickerSideOrder x.tickerId x.side))).OwnTickers := by
  refine own.setOrder ?_
  rw [updated_tickerId]
  exact own x.tickerId x.side

/-- A response does the same to two orders that differ in their ids. -/
theorem updated_alike {x : MEClientResponse}
    (same : ∀ side, (s.tickerSideOrder x.tickerId side).erased =
      (s'.tickerSideOrder x.tickerId side).erased) (side : Side) :
    ((s.setOrder x.tickerId x.side
        (updated x (s.tickerSideOrder x.tickerId x.side))).tickerSideOrder x.tickerId side).erased =
      ((s'.setOrder x.tickerId x.side
        (updated x (s'.tickerSideOrder x.tickerId x.side))).tickerSideOrder
          x.tickerId side).erased := by
  have erased : ∀ o, (updated x o).erased = updated x o.erased := by
    intro o
    unfold updated
    split <;> rfl
  by_cases here : side = x.side
  · rw [here, setOrder_self, setOrder_self, erased, erased, same x.side]
  · rw [setOrder_of_ne _ (fun both => here both.2), setOrder_of_ne _ (fun both => here both.2)]
    exact same side

/-- A move leaves the other slots alone, and its requests are for the ticker of its own. -/
theorem moveOrder_frame (own : s.OwnTickers) (clientId : ClientId) (tickerId : TickerId)
    (side : Side) (check : Side → Qty → RiskCheckResult) (price : Price) (qty : Qty) :
    (s.moveOrder clientId tickerId side check price qty).1.OwnTickers ∧
      (∀ ticker side', ¬ (ticker = tickerId ∧ side' = side) →
        (s.moveOrder clientId tickerId side check price qty).1.tickerSideOrder ticker side' =
          s.tickerSideOrder ticker side') ∧
      ∀ r ∈ (s.moveOrder clientId tickerId side check price qty).2,
        r.tickerId = tickerId ∨ r.tickerId = TickerId_INVALID := by
  rcases moveOrder_cases s clientId tickerId side check price qty with
    nothing | ⟨-, cancels⟩ | ⟨-, -, -, places⟩
  · rw [nothing]
    exact ⟨own, fun _ _ _ => rfl, fun r mem => absurd mem List.not_mem_nil⟩
  · rw [cancels]
    refine ⟨own.setOrder (own tickerId side), fun ticker side' other => setOrder_of_ne _ other, ?_⟩
    intro r mem
    rw [List.mem_singleton.mp mem]
    exact own tickerId side
  · rw [places]
    refine ⟨own.setOrder (.inl rfl), fun ticker side' other => setOrder_of_ne _ other, ?_⟩
    intro r mem
    rw [List.mem_singleton.mp mem]
    exact .inl rfl

/-- A move under another counter sends the same and leaves the same, up to the order ids. -/
theorem moveOrder_alike
    (same : (s.tickerSideOrder tickerId side).erased = (s'.tickerSideOrder tickerId side).erased)
    (clientId : ClientId) (check : Side → Qty → RiskCheckResult) (price : Price) (qty : Qty) :
    (s.moveOrder clientId tickerId side check price qty).2.map MEClientRequest.erased =
        (s'.moveOrder clientId tickerId side check price qty).2.map MEClientRequest.erased ∧
      ((s.moveOrder clientId tickerId side check price qty).1.tickerSideOrder
          tickerId side).erased =
        ((s'.moveOrder clientId tickerId side check price qty).1.tickerSideOrder
          tickerId side).erased := by
  have state : (s.tickerSideOrder tickerId side).orderState =
      (s'.tickerSideOrder tickerId side).orderState := by
    have eq := congrArg OMOrder.orderState same
    exact eq
  have priced : (s.tickerSideOrder tickerId side).price =
      (s'.tickerSideOrder tickerId side).price := by
    have eq := congrArg OMOrder.price same
    exact eq
  have placed : (s.newOrder clientId tickerId side price qty).2.map MEClientRequest.erased =
        (s'.newOrder clientId tickerId side price qty).2.map MEClientRequest.erased ∧
      ((s.newOrder clientId tickerId side price qty).1.tickerSideOrder tickerId side).erased =
        ((s'.newOrder clientId tickerId side price qty).1.tickerSideOrder tickerId side).erased := by
    refine ⟨rfl, ?_⟩
    unfold newOrder
    simp only [setOrder_self]
    rfl
  have cancelled : (s.cancelOrder clientId tickerId side).2.map MEClientRequest.erased =
        (s'.cancelOrder clientId tickerId side).2.map MEClientRequest.erased ∧
      ((s.cancelOrder clientId tickerId side).1.tickerSideOrder tickerId side).erased =
        ((s'.cancelOrder clientId tickerId side).1.tickerSideOrder tickerId side).erased := by
    unfold cancelOrder
    simp only [setOrder_self]
    constructor
    · have eq := congrArg (fun o => [(cancelRequest clientId o).erased]) same
      exact eq
    · exact congrArg (fun o => { o with orderState := .PENDING_CANCEL }) same
  unfold moveOrder
  rw [state, priced]
  split
  · split
    · exact cancelled
    · exact ⟨rfl, same⟩
  · split
    · split
      · exact placed
      · exact ⟨rfl, same⟩
    · exact ⟨rfl, same⟩
  · split
    · split
      · exact placed
      · exact ⟨rfl, same⟩
    · exact ⟨rfl, same⟩
  · exact ⟨rfl, same⟩
  · exact ⟨rfl, same⟩

theorem moveOrders_of_known (known : tickerId < ME_MAX_TICKERS) (clientId : ClientId)
    (check : Side → Qty → RiskCheckResult) (bidPrice askPrice : Price) (clip : Qty) :
    s.moveOrders clientId tickerId check bidPrice askPrice clip =
      .ok (((s.moveOrder clientId tickerId .BUY check bidPrice clip).1.moveOrder clientId tickerId
          .SELL check askPrice clip).1,
        (s.moveOrder clientId tickerId .BUY check bidPrice clip).2 ++
          ((s.moveOrder clientId tickerId .BUY check bidPrice clip).1.moveOrder clientId tickerId
            .SELL check askPrice clip).2) :=
  if_pos known

/-- A move of both sides, seen from the other tickers. -/
theorem ends_moveOrders_frame (own : s.OwnTickers) (clientId : ClientId)
    (check : Side → Qty → RiskCheckResult) (bidPrice askPrice : Price) (clip : Qty) :
    Ends (fun _ => True) (s.moveOrders clientId tickerId check bidPrice askPrice clip)
      (fun moved => moved.1.OwnTickers ∧
        (∀ ticker, ticker ≠ tickerId → moved.1.tickerSideOrder ticker = s.tickerSideOrder ticker) ∧
        ∀ r ∈ moved.2, r.tickerId = tickerId ∨ r.tickerId = TickerId_INVALID) := by
  by_cases known : tickerId < ME_MAX_TICKERS
  · rw [moveOrders_of_known known]
    obtain ⟨ownBid, frameBid, sentBid⟩ := moveOrder_frame own clientId tickerId .BUY check bidPrice
      clip
    generalize s.moveOrder clientId tickerId .BUY check bidPrice clip = bid at *
    obtain ⟨ownAsk, frameAsk, sentAsk⟩ := moveOrder_frame ownBid clientId tickerId .SELL check
      askPrice clip
    generalize bid.1.moveOrder clientId tickerId .SELL check askPrice clip = ask at *
    refine Ends.ok ⟨ownAsk, fun ticker other => ?_, fun r mem => ?_⟩
    · funext side
      rw [frameAsk ticker side (fun same => other same.1),
        frameBid ticker side (fun same => other same.1)]
    · rcases List.mem_append.mp mem with early | late
      · exact sentBid r early
      · exact sentAsk r late
  · have unknown : s.moveOrders clientId tickerId check bidPrice askPrice clip =
        .error (.outOfRange tickerId) := if_neg known
    rw [unknown]
    exact Ends.error trivial

/-- A move of both sides under another counter. -/
theorem moveOrders_alike (known : tickerId < ME_MAX_TICKERS) (own : s.OwnTickers)
    (own' : s'.OwnTickers) (same : ∀ side, (s.tickerSideOrder tickerId side).erased =
      (s'.tickerSideOrder tickerId side).erased)
    (clientId : ClientId) (check : Side → Qty → RiskCheckResult) (bidPrice askPrice : Price)
    (clip : Qty) :
    ∃ t t' out out', s.moveOrders clientId tickerId check bidPrice askPrice clip = .ok (t, out) ∧
      s'.moveOrders clientId tickerId check bidPrice askPrice clip = .ok (t', out') ∧
      out.map MEClientRequest.erased = out'.map MEClientRequest.erased ∧
      (∀ side, (t.tickerSideOrder tickerId side).erased =
        (t'.tickerSideOrder tickerId side).erased) ∧ t.OwnTickers ∧ t'.OwnTickers := by
  rw [moveOrders_of_known known, moveOrders_of_known known]
  obtain ⟨ownBid, frameBid, -⟩ := moveOrder_frame own clientId tickerId .BUY check bidPrice clip
  obtain ⟨ownBid', frameBid', -⟩ := moveOrder_frame own' clientId tickerId .BUY check bidPrice clip
  obtain ⟨sentBid, bid⟩ := moveOrder_alike (same .BUY) clientId check bidPrice clip
  generalize s.moveOrder clientId tickerId .BUY check bidPrice clip = moved at *
  generalize s'.moveOrder clientId tickerId .BUY check bidPrice clip = moved' at *
  have sameBid : ∀ side, (moved.1.tickerSideOrder tickerId side).erased =
      (moved'.1.tickerSideOrder tickerId side).erased := by
    intro side
    by_cases buy : side = .BUY
    · rw [buy]
      exact bid
    · rw [frameBid tickerId side (fun both => buy both.2),
        frameBid' tickerId side (fun both => buy both.2)]
      exact same side
  obtain ⟨ownAsk, frameAsk, -⟩ := moveOrder_frame ownBid clientId tickerId .SELL check askPrice clip
  obtain ⟨ownAsk', frameAsk', -⟩ := moveOrder_frame ownBid' clientId tickerId .SELL check askPrice
    clip
  obtain ⟨sentAsk, ask⟩ := moveOrder_alike (sameBid .SELL) clientId check askPrice clip
  generalize moved.1.moveOrder clientId tickerId .SELL check askPrice clip = last at *
  generalize moved'.1.moveOrder clientId tickerId .SELL check askPrice clip = last' at *
  refine ⟨_, _, _, _, rfl, rfl, ?_, fun side => ?_, ownAsk, ownAsk'⟩
  · rw [List.map_append, List.map_append, sentBid, sentAsk]
  · by_cases sell : side = .SELL
    · rw [sell]
      exact ask
    · rw [frameAsk tickerId side (fun both => sell both.2),
        frameAsk' tickerId side (fun both => sell both.2)]
      exact sameBid side

end OrderManager

/-- A book calls the trade engine once for each update. -/
theorem MarketOrderBook.onMarketUpdate_notice {s book : MarketOrderBook} {u : MEMarketUpdate}
    {notices : List BookNotice} (updated : s.onMarketUpdate u = .ok (book, notices)) :
    ∃ notice, notices = [notice] ∧
      (notice = .onTradeUpdate u ∨
        notice = .onOrderBookUpdate u.tickerId u.price u.side book.bbo) := by
  unfold MarketOrderBook.onMarketUpdate at updated
  simp only at updated
  split at updated
  · cases updated
    exact ⟨_, rfl, .inl rfl⟩
  · obtain ⟨applied, -, rest⟩ := bind_eq_ok.mp updated
    obtain ⟨shown, -, last⟩ := bind_eq_ok.mp rest
    cases last
    exact ⟨_, rfl, .inr rfl⟩

namespace StrategyEngine

variable {F : Type} {A tickerId : TickerId} {s s' t : StrategyEngine F}

/-! ## Inputs of another ticker -/

/-- `t` is `s` as far as ticker `A` is concerned. -/
structure Keeps (A : TickerId) (s t : StrategyEngine F) : Prop where
  clientId : t.clientId = s.clientId
  algoType : t.algoType = s.algoType
  tickerCfg : t.tickerCfg = s.tickerCfg
  book : t.tickerOrderBook A = s.tickerOrderBook A
  position : t.positionKeeper A = s.positionKeeper A
  orders : t.orderManager.tickerSideOrder A = s.orderManager.tickerSideOrder A
  own : t.orderManager.OwnTickers

/-- What a step for another ticker may do. -/
def Hidden (A : TickerId) (s : StrategyEngine F)
    (r : StrategyEngine F × List MEClientRequest) : Prop :=
  Keeps A s r.1 ∧ r.2.filterMap (MEClientRequest.forTicker A) = []

theorem filterMap_forTicker {out : List MEClientRequest} (other : ∀ r ∈ out, r.tickerId ≠ A) :
    out.filterMap (MEClientRequest.forTicker A) = [] :=
  List.filterMap_eq_nil_iff.mpr fun r mem => if_neg (other r mem)

theorem Keeps.refl (own : s.orderManager.OwnTickers) : Keeps A s s :=
  ⟨rfl, rfl, rfl, rfl, rfl, rfl, own⟩

theorem Keeps.trans {u : StrategyEngine F} (first : Keeps A s t) (second : Keeps A t u) :
    Keeps A s u :=
  ⟨second.clientId.trans first.clientId, second.algoType.trans first.algoType,
    second.tickerCfg.trans first.tickerCfg, second.book.trans first.book,
    second.position.trans first.position, second.orders.trans first.orders, second.own⟩

variable [Double F]

/-- The algorithm moves the orders of the ticker that it hears about. -/
theorem algoOnOrderBookUpdate_tickerId {bbo : BBO} {move : Move}
    (decided : s.algoOnOrderBookUpdate tickerId bbo = some move) : move.tickerId = tickerId := by
  unfold algoOnOrderBookUpdate MarketMaker.onOrderBookUpdate at decided
  split at decided
  · simp only at decided
    split at decided
    · cases decided
      rfl
    · cases decided
  · cases decided
  · cases decided
  · cases decided

theorem algoOnTradeUpdate_tickerId {u : MEMarketUpdate} {bbo : BBO} {move : Move}
    (decided : s.algoOnTradeUpdate u bbo = some move) : move.tickerId = u.tickerId := by
  unfold algoOnTradeUpdate LiquidityTaker.onTradeUpdate at decided
  split at decided
  · simp only at decided
    split at decided
    · split at decided
      · split at decided
        · cases decided
          rfl
        · cases decided
          rfl
      · cases decided
    · cases decided
  · cases decided
  · cases decided
  · cases decided

theorem ends_moveOrders_hidden (known : A < ME_MAX_TICKERS) (own : s.orderManager.OwnTickers)
    {move : Option Move} (other : ∀ m, move = some m → m.tickerId ≠ A) :
    Ends (fun _ => True) (s.moveOrders move) (Hidden A s) := by
  cases move with
  | none => exact Ends.ok ⟨.refl own, rfl⟩
  | some move =>
      have ne := other move rfl
      have unplaced : TickerId_INVALID ≠ A := by
        unfold TickerId_INVALID
        unfold ME_MAX_TICKERS at known
        lia
      refine Ends.bind (s.orderManager.ends_moveOrders_frame own ..)
        fun ⟨orderManager, sent⟩ ⟨ownNow, frame, told⟩ => Ends.pure ⟨?_, filterMap_forTicker ?_⟩
      · exact ⟨rfl, rfl, rfl, rfl, rfl, frame A ne.symm, ownNow⟩
      · intro r mem
        rcases told r mem with here | never
        · rw [here]
          exact ne
        · rw [never]
          exact unplaced

theorem ends_onOrderBookUpdate_hidden (known : A < ME_MAX_TICKERS)
    (own : s.orderManager.OwnTickers) (other : tickerId ≠ A) (bbo : BBO) :
    Ends (fun _ => True) (s.onOrderBookUpdate tickerId bbo) (Hidden A s) := by
  have position : Ends (fun _ => True) (s.updateBBO tickerId bbo) (Keeps A s) := by
    unfold updateBBO
    split
    · exact Ends.ok ⟨rfl, rfl, rfl, rfl, Function.update_of_ne other.symm _ _, rfl, own⟩
    · exact Ends.error trivial
  refine position.bind fun t keeps => ?_
  have noted : Keeps A s { t with featureEngine := t.featureEngine.onOrderBookUpdate bbo } :=
    ⟨keeps.clientId, keeps.algoType, keeps.tickerCfg, keeps.book, keeps.position, keeps.orders,
      keeps.own⟩
  refine (ends_moveOrders_hidden known noted.own ?_).imp fun moved hidden =>
    ⟨noted.trans hidden.1, hidden.2⟩
  intro move decided
  rw [algoOnOrderBookUpdate_tickerId decided]
  exact other

theorem ends_onTradeUpdate_hidden (known : A < ME_MAX_TICKERS)
    (own : s.orderManager.OwnTickers) {u : MEMarketUpdate} (other : u.tickerId ≠ A) (bbo : BBO) :
    Ends (fun _ => True) (s.onTradeUpdate u bbo) (Hidden A s) := by
  have noted : Keeps A s { s with featureEngine := s.featureEngine.onTradeUpdate u bbo } :=
    ⟨rfl, rfl, rfl, rfl, rfl, rfl, own⟩
  refine (ends_moveOrders_hidden known noted.own ?_).imp fun moved hidden =>
    ⟨noted.trans hidden.1, hidden.2⟩
  intro move decided
  rw [algoOnTradeUpdate_tickerId decided]
  exact other

theorem ends_onOrderUpdate_hidden (own : s.orderManager.OwnTickers) {x : MEClientResponse}
    (other : x.tickerId ≠ A) : Ends (fun _ => True) (s.onOrderUpdate x) (Keeps A s) := by
  have filled : Ends (fun _ => True) (if x.type = .FILLED then s.addFill x else pure s)
      (Keeps A s) := by
    split
    · unfold addFill
      split
      · exact Ends.ok ⟨rfl, rfl, rfl, rfl, Function.update_of_ne other.symm _ _, rfl, own⟩
      · exact Ends.error trivial
    · exact Ends.pure (.refl own)
  refine filled.bind fun t keeps => ?_
  have managed : Ends (fun _ => True) (t.orderManager.onOrderUpdate x) (fun orderManager =>
      orderManager.tickerSideOrder A = t.orderManager.tickerSideOrder A ∧
        orderManager.OwnTickers) := by
    unfold OrderManager.onOrderUpdate
    split
    · exact Ends.ok ⟨Function.update_of_ne other.symm _ _, keeps.own.updated x⟩
    · exact Ends.error trivial
  have dispatched : Ends (fun _ => True) (t.orderManager.onOrderUpdate x >>= fun orderManager =>
      pure { t with orderManager }) (Keeps A s) :=
    managed.bind fun orderManager ⟨frame, ownNow⟩ => Ends.pure
      ⟨keeps.clientId, keeps.algoType, keeps.tickerCfg, keeps.book, keeps.position,
        frame.trans keeps.orders, ownNow⟩
  unfold algoOnOrderUpdate
  split
  · exact dispatched
  · exact dispatched
  · exact Ends.ok keeps
  · exact Ends.ok keeps

/-- An input of another ticker changes nothing for this one, and sends nothing for it. -/
theorem ends_step_hidden (known : A < ME_MAX_TICKERS) (own : s.orderManager.OwnTickers)
    {input : EngineInput} (other : input.tickerId ≠ A) :
    Ends (fun _ => True) (s.step input) (Hidden A s) := by
  cases input with
  | clientResponse x =>
      exact (ends_onOrderUpdate_hidden own other).bind fun t keeps => Ends.pure ⟨keeps, rfl⟩
  | marketUpdate u =>
      unfold step
      simp only
      split
      · refine Ends.bind_of_eq (Q := fun _ => True) ?_ fun ⟨book, notices⟩ updated _ => ?_
        · cases (s.tickerOrderBook u.tickerId).onMarketUpdate u with
          | error f => trivial
          | ok result => trivial
        · have booked : Keeps A s { s with
              tickerOrderBook := Function.update s.tickerOrderBook u.tickerId book } :=
            ⟨rfl, rfl, rfl, Function.update_of_ne other.symm _ _, rfl, rfl, own⟩
          obtain ⟨notice, rfl, cases⟩ := MarketOrderBook.onMarketUpdate_notice updated
          simp only [run_singleton]
          rcases cases with rfl | rfl
          · exact (ends_onTradeUpdate_hidden known booked.own other book.bbo).imp
              fun moved hidden => ⟨booked.trans hidden.1, hidden.2⟩
          · exact (ends_onOrderBookUpdate_hidden known booked.own other book.bbo).imp
              fun moved hidden => ⟨booked.trans hidden.1, hidden.2⟩
      · exact Ends.error trivial

/-! ## Inputs of the ticker -/

/-- Two engines that are the same for ticker `A`, whatever their features and counters. -/
structure AgreeOn (A : TickerId) (s s' : StrategyEngine F) : Prop where
  clientId : s.clientId = s'.clientId
  algoType : s.algoType = s'.algoType
  tickerCfg : s.tickerCfg = s'.tickerCfg
  book : s.tickerOrderBook A = s'.tickerOrderBook A
  position : s.positionKeeper A = s'.positionKeeper A
  orders : ∀ side, (s.orderManager.tickerSideOrder A side).erased =
    (s'.orderManager.tickerSideOrder A side).erased
  own : s.orderManager.OwnTickers
  own' : s'.orderManager.OwnTickers

omit [Double F] in
theorem AgreeOn.keeps (agree : AgreeOn A s s') (keeps : Keeps A s t) : AgreeOn A t s' :=
  ⟨keeps.clientId.trans agree.clientId, keeps.algoType.trans agree.algoType,
    keeps.tickerCfg.trans agree.tickerCfg, keeps.book.trans agree.book,
    keeps.position.trans agree.position, fun side => by rw [keeps.orders, agree.orders side],
    keeps.own, agree.own'⟩

/-- The fair price is fresh where the maker reads it. -/
theorem onOrderBookUpdate_fresh (tickerCfg : TickerId → TradeEngineCfg F)
    (features features' : FeatureEngine F) (tickerId : TickerId) (bbo : BBO) :
    MarketMaker.onOrderBookUpdate tickerCfg (features.onOrderBookUpdate bbo) tickerId bbo =
      MarketMaker.onOrderBookUpdate tickerCfg (features'.onOrderBookUpdate bbo) tickerId bbo := by
  unfold MarketMaker.onOrderBookUpdate FeatureEngine.onOrderBookUpdate
  by_cases twoSided : bbo.TwoSided
  · simp only [if_pos twoSided]
  · simp only [twoSided, false_and, if_false]

/-- The trade ratio is fresh where the taker reads it. -/
theorem onTradeUpdate_fresh (tickerCfg : TickerId → TradeEngineCfg F)
    (features features' : FeatureEngine F) (u : MEMarketUpdate) (bbo : BBO) :
    LiquidityTaker.onTradeUpdate tickerCfg (features.onTradeUpdate u bbo) u bbo =
      LiquidityTaker.onTradeUpdate tickerCfg (features'.onTradeUpdate u bbo) u bbo := by
  unfold LiquidityTaker.onTradeUpdate FeatureEngine.onTradeUpdate
  by_cases twoSided : bbo.TwoSided
  · simp only [if_pos twoSided]
  · simp only [twoSided, false_and, if_false]

theorem filterMap_forTicker_congr {out out' : List MEClientRequest}
    (same : out.map MEClientRequest.erased = out'.map MEClientRequest.erased) :
    out.filterMap (MEClientRequest.forTicker A) = out'.filterMap (MEClientRequest.forTicker A) := by
  have through : ∀ rs : List MEClientRequest, rs.filterMap (MEClientRequest.forTicker A) =
      (rs.map MEClientRequest.erased).filterMap (MEClientRequest.forTicker A) := by
    intro rs
    rw [List.filterMap_map]
    rfl
  rw [through out, through out', same]

theorem AgreeOn.moveOrders (known : A < ME_MAX_TICKERS) (agree : AgreeOn A s s')
    {move : Option Move} (here : ∀ m, move = some m → m.tickerId = A) :
    Alike (AgreeOn A) (MEClientRequest.forTicker A) (s.moveOrders move) (s'.moveOrders move) := by
  cases move with
  | none => exact .ok agree rfl
  | some move =>
      have ticker := here move rfl
      have check : s.checkPreTradeRisk A = s'.checkPreTradeRisk A := by
        unfold checkPreTradeRisk lossTooLarge
        rw [agree.tickerCfg, agree.position]
      obtain ⟨orderManager, orderManager', out, out', moved, moved', sent, orders, own, own'⟩ :=
        OrderManager.moveOrders_alike known agree.own agree.own' agree.orders s.clientId
          (s.checkPreTradeRisk A) move.bidPrice move.askPrice move.clip
      have first : s.moveOrders (some move) = .ok ({ s with orderManager }, out) := by
        unfold StrategyEngine.moveOrders
        simp only [ticker, moved]
        rfl
      have second : s'.moveOrders (some move) =
          .ok ({ s' with orderManager := orderManager' }, out') := by
        rw [agree.clientId, check] at moved'
        unfold StrategyEngine.moveOrders
        simp only [ticker, moved']
        rfl
      rw [first, second]
      exact .ok ⟨agree.clientId, agree.algoType, agree.tickerCfg, agree.book, agree.position, orders,
        own, own'⟩ (filterMap_forTicker_congr sent)

theorem AgreeOn.onOrderBookUpdate (known : A < ME_MAX_TICKERS) (agree : AgreeOn A s s')
    (bbo : BBO) : Alike (AgreeOn A) (MEClientRequest.forTicker A) (s.onOrderBookUpdate A bbo)
      (s'.onOrderBookUpdate A bbo) := by
  unfold StrategyEngine.onOrderBookUpdate updateBBO
  rw [if_pos known, if_pos known]
  simp only [bind, Except.bind]
  have noted : AgreeOn A
      { s with
        featureEngine := s.featureEngine.onOrderBookUpdate bbo
        positionKeeper := Function.update s.positionKeeper A
          ((s.positionKeeper A).updateBBO .machine bbo) }
      { s' with
        featureEngine := s'.featureEngine.onOrderBookUpdate bbo
        positionKeeper := Function.update s'.positionKeeper A
          ((s'.positionKeeper A).updateBBO .machine bbo) } := by
    refine ⟨agree.clientId, agree.algoType, agree.tickerCfg, agree.book, ?_, agree.orders,
      agree.own, agree.own'⟩
    simp only [Function.update_self, agree.position]
  have decision : ∀ positions positions' : TickerId → PositionPnl F,
      algoOnOrderBookUpdate { s with
          featureEngine := s.featureEngine.onOrderBookUpdate bbo, positionKeeper := positions }
        A bbo = algoOnOrderBookUpdate { s' with
          featureEngine := s'.featureEngine.onOrderBookUpdate bbo, positionKeeper := positions' }
        A bbo := by
    intro positions positions'
    unfold algoOnOrderBookUpdate
    simp only [agree.algoType, agree.tickerCfg]
    split
    · exact onOrderBookUpdate_fresh s'.tickerCfg s.featureEngine s'.featureEngine A bbo
    · rfl
    · rfl
    · rfl
  rw [decision _ (Function.update s'.positionKeeper A
    ((s'.positionKeeper A).updateBBO .machine bbo))]
  refine noted.moveOrders known ?_
  intro move decided
  exact algoOnOrderBookUpdate_tickerId decided

theorem AgreeOn.onTradeUpdate (known : A < ME_MAX_TICKERS) (agree : AgreeOn A s s')
    {u : MEMarketUpdate} (here : u.tickerId = A) (bbo : BBO) :
    Alike (AgreeOn A) (MEClientRequest.forTicker A) (s.onTradeUpdate u bbo)
      (s'.onTradeUpdate u bbo) := by
  unfold StrategyEngine.onTradeUpdate
  have noted : AgreeOn A { s with featureEngine := s.featureEngine.onTradeUpdate u bbo }
      { s' with featureEngine := s'.featureEngine.onTradeUpdate u bbo } :=
    ⟨agree.clientId, agree.algoType, agree.tickerCfg, agree.book, agree.position, agree.orders,
      agree.own, agree.own'⟩
  have decision : algoOnTradeUpdate { s with
        featureEngine := s.featureEngine.onTradeUpdate u bbo } u bbo =
      algoOnTradeUpdate { s' with
        featureEngine := s'.featureEngine.onTradeUpdate u bbo } u bbo := by
    unfold algoOnTradeUpdate
    simp only [agree.algoType, agree.tickerCfg]
    split
    · exact onTradeUpdate_fresh s'.tickerCfg s.featureEngine s'.featureEngine u bbo
    · rfl
    · rfl
    · rfl
  simp only [decision]
  refine noted.moveOrders known ?_
  intro move decided
  exact (algoOnTradeUpdate_tickerId decided).trans here

/-- What a response leaves of an engine that knows its ticker. -/
def responded (s : StrategyEngine F) (x : MEClientResponse) : StrategyEngine F :=
  { s with
    positionKeeper := if x.type = .FILLED then
        Function.update s.positionKeeper x.tickerId
          ((s.positionKeeper x.tickerId).addFill .machine x)
      else s.positionKeeper
    orderManager := if s.algoType = .MAKER ∨ s.algoType = .TAKER then
        s.orderManager.setOrder x.tickerId x.side
          (OrderManager.updated x (s.orderManager.tickerSideOrder x.tickerId x.side))
      else s.orderManager }

theorem onOrderUpdate_of_known {x : MEClientResponse} (known : x.tickerId < ME_MAX_TICKERS) :
    s.onOrderUpdate x = .ok (s.responded x) := by
  obtain ⟨clientId, algoType, tickerCfg, books, features, positions, orderManager⟩ := s
  unfold StrategyEngine.onOrderUpdate addFill algoOnOrderUpdate OrderManager.onOrderUpdate responded
  by_cases filled : x.type = .FILLED
  · simp only [if_pos filled, if_pos known, bind, Except.bind, pure, Except.pure]
    cases algoType <;> rfl
  · simp only [if_neg filled, if_pos known, bind, Except.bind, pure, Except.pure]
    cases algoType <;> rfl

theorem AgreeOn.responded {x : MEClientResponse} (agree : AgreeOn x.tickerId s s') :
    AgreeOn x.tickerId (s.responded x) (s'.responded x) := by
  have position : (s.responded x).positionKeeper x.tickerId =
      (s'.responded x).positionKeeper x.tickerId := by
    unfold StrategyEngine.responded
    by_cases filled : x.type = .FILLED
    · simp only [if_pos filled, Function.update_self, agree.position]
    · simp only [if_neg filled, agree.position]
  unfold StrategyEngine.responded at position ⊢
  by_cases managed : s.algoType = .MAKER ∨ s.algoType = .TAKER
  · have managed' := managed
    rw [agree.algoType] at managed'
    simp only [if_pos managed, if_pos managed'] at position ⊢
    exact ⟨agree.clientId, agree.algoType, agree.tickerCfg, agree.book, position,
      OrderManager.updated_alike agree.orders, agree.own.updated x, agree.own'.updated x⟩
  · have managed' := managed
    rw [agree.algoType] at managed'
    simp only [if_neg managed, if_neg managed'] at position ⊢
    exact ⟨agree.clientId, agree.algoType, agree.tickerCfg, agree.book, position, agree.orders,
      agree.own, agree.own'⟩

/-- An input of the ticker does the same to two engines that agree on it. -/
theorem AgreeOn.step (known : A < ME_MAX_TICKERS) (agree : AgreeOn A s s') {input : EngineInput}
    (here : input.tickerId = A) :
    Alike (AgreeOn A) (MEClientRequest.forTicker A) (s.step input) (s'.step input) := by
  subst here
  cases input with
  | clientResponse x =>
      unfold StrategyEngine.step
      simp only [onOrderUpdate_of_known (show x.tickerId < ME_MAX_TICKERS from known)]
      exact .ok agree.responded rfl
  | marketUpdate u =>
      have knownU : u.tickerId < ME_MAX_TICKERS := known
      unfold StrategyEngine.step
      simp only [if_pos knownU]
      have book : s.tickerOrderBook u.tickerId = s'.tickerOrderBook u.tickerId := agree.book
      rw [← book]
      cases updated : (s.tickerOrderBook u.tickerId).onMarketUpdate u with
      | error f => exact .error
      | ok result =>
          obtain ⟨book, notices⟩ := result
          simp only [bind, Except.bind]
          have booked : AgreeOn u.tickerId
              { s with tickerOrderBook := Function.update s.tickerOrderBook u.tickerId book }
              { s' with tickerOrderBook := Function.update s'.tickerOrderBook u.tickerId book } := by
            refine ⟨agree.clientId, agree.algoType, agree.tickerCfg, ?_, agree.position,
              agree.orders, agree.own, agree.own'⟩
            simp only [Function.update_self]
          obtain ⟨notice, rfl, called⟩ := MarketOrderBook.onMarketUpdate_notice updated
          rw [run_singleton, run_singleton]
          rcases called with rfl | rfl
          · exact booked.onTradeUpdate knownU rfl book.bbo
          · exact booked.onOrderBookUpdate knownU book.bbo

/-- The state of a ticker unwinds over its inputs. -/
theorem agreeOn_unwinds (known : A < ME_MAX_TICKERS) :
    Unwinding (step (F := F)) (fun input => input.tickerId = A) (AgreeOn A)
      (MEClientRequest.forTicker A) where
  hidden agree other stepped := by
    obtain ⟨keeps, silent⟩ := (ends_step_hidden known agree.own other).of_ok stepped
    exact ⟨agree.keeps keeps, silent⟩
  seen agree here := agree.step known here

/-- The engine does not look at the order id of a response. -/
theorem step_erased (s : StrategyEngine F) (input : EngineInput) :
    s.step input.erased = s.step input := by
  cases input <;> rfl

end StrategyEngine

/-- What an engine sends for a ticker until its history ends or it stops, up to the order ids. -/
def sentFor {F : Type} [Double F] (tickerId : TickerId) (s : StrategyEngine F)
    (history : List EngineInput) : List MEClientRequest :=
  (emitted StrategyEngine.step s history).filterMap (MEClientRequest.forTicker tickerId)

/-- **The tickers are independent.** Two histories with the same inputs for ticker `A`, up to the
order ids of the responses, make an engine send the same requests for it, up to their order ids;
where one of the histories stops the engine, one of the two has sent the front of the other. -/
theorem run_tickerIndependence {F : Type} [Double F] {A : TickerId} (known : A < ME_MAX_TICKERS)
    (clientId : ClientId) (algoType : AlgoType) (tickerCfg : TickerId → TradeEngineCfg F)
    (tickerBasePrices : TickerId → Price) {history history' : List EngineInput}
    (same : (history.filter (·.tickerId = A)).map EngineInput.erased =
      (history'.filter (·.tickerId = A)).map EngineInput.erased) :
    let engine := StrategyEngine.new clientId algoType tickerCfg tickerBasePrices
    (sentFor A engine history <+: sentFor A engine history' ∨
      sentFor A engine history' <+: sentFor A engine history) ∧
    ∀ s out s' out', run StrategyEngine.step engine history = .ok (s, out) →
      run StrategyEngine.step engine history' = .ok (s', out') →
      out.filterMap (MEClientRequest.forTicker A) =
        out'.filterMap (MEClientRequest.forTicker A) := by
  intro engine
  have agree : engine.AgreeOn A engine :=
    ⟨rfl, rfl, rfl, rfl, rfl, fun _ => rfl, .new, .new⟩
  have filtered : ∀ inputs : List EngineInput,
      (inputs.map EngineInput.erased).filter (fun input => decide (input.tickerId = A)) =
        (inputs.filter (fun input => decide (input.tickerId = A))).map EngineInput.erased := by
    intro inputs
    rw [List.filter_map]
    refine congrArg (List.map _) (List.filter_congr fun input _ => ?_)
    cases input <;> rfl
  have unwound := (StrategyEngine.agreeOn_unwinds known).indistinguishable agree
    ((filtered history).trans (same.trans (filtered history').symm))
  simp only [emitted_map StrategyEngine.step_erased, run_map StrategyEngine.step_erased] at unwound
  exact unwound

/-- An order of quantity 10 is added to a book. -/
def quote (tickerId : TickerId) (orderId : OrderId) (side : Side) (price : Price) : EngineInput :=
  .marketUpdate { type := .ADD, orderId, tickerId, side, price, qty := 10, priority := 1 }

/-- A market maker of clips of 5. -/
def quoting : StrategyEngine ExactDouble :=
  .new 1 .MAKER
    (fun _ => { clip := 5, threshold := some 0, riskCfg := ⟨10, 10⟩, maxLoss := some (-100) })
    fun _ => 100

/-- The maker quotes ticker 0 under the ids 1 and 2, or 3 and 4 behind its quotes on ticker 1. -/
theorem run_tickerIndependence_quotes :
    ∃ s out s' out', run StrategyEngine.step quoting [quote 0 1 .BUY 101, quote 0 2 .BUY 102,
        quote 0 3 .SELL 105, quote 0 4 .SELL 104] = .ok (s, out) ∧
      run StrategyEngine.step quoting [quote 1 1 .BUY 111, quote 0 1 .BUY 101, quote 1 2 .BUY 112,
        quote 0 2 .BUY 102, quote 1 3 .SELL 115, quote 1 4 .SELL 114, quote 0 3 .SELL 105,
        quote 0 4 .SELL 104] = .ok (s', out') ∧
      (out.map (·.orderId), out'.map (·.orderId)) = ([1, 2], [1, 2, 3, 4]) ∧
      out.filterMap (MEClientRequest.forTicker 0) =
        out'.filterMap (MEClientRequest.forTicker 0) := by
  obtain ⟨s, out, ran, ids⟩ := run_of_map StrategyEngine.step quoting [quote 0 1 .BUY 101,
    quote 0 2 .BUY 102, quote 0 3 .SELL 105, quote 0 4 .SELL 104] (List.map (·.orderId)) [1, 2]
    (by decide +kernel)
  obtain ⟨s', out', ran', ids'⟩ := run_of_map StrategyEngine.step quoting [quote 1 1 .BUY 111,
    quote 0 1 .BUY 101, quote 1 2 .BUY 112, quote 0 2 .BUY 102, quote 1 3 .SELL 115,
    quote 1 4 .SELL 114, quote 0 3 .SELL 105, quote 0 4 .SELL 104] (List.map (·.orderId))
    [1, 2, 3, 4] (by decide +kernel)
  refine ⟨s, out, s', out', ran, ran', by rw [ids, ids'], ?_⟩
  exact (run_tickerIndependence (A := 0) (by decide) 1 .MAKER _ _ (by decide)).2
    s out s' out' ran ran'

end NanoTrade
