import Mathlib.Algebra.BigOperators.Group.Finset.Piecewise
import Mathlib.Data.Int.ModEq
import NanoTrade.Exchange.Clearing
import NanoTrade.Trading.TradingSystem

/-!
# All clients of an exchange

`trading_main.cpp` is started once for each client: a market maker, a liquidity taker, or a client
that sends orders of its own (`RANDOM`). Each of them has its own way to the exchange and back;
the exchange reads their requests in any order.

* `TradingFloor.step_client`: a client sees a step of the floor as a step of its `TradingSystem`,
  the others being foreign.
* `Accounted.step`: the positions and the executions on their way add up to nothing.
* `run_zero_sum`: what some clients are long, others are short.
-/

namespace NanoTrade

/-! ## One engine -/

namespace StrategyEngine

variable {F : Type} [Double F] {s t : StrategyEngine F} {sent : List MEClientRequest}

/-- Market data does not move a position. -/
theorem position_marketUpdate {u : MEMarketUpdate}
    (stepped : s.step (.marketUpdate u) = .ok (t, sent)) (tickerId : TickerId) :
    (t.positionKeeper tickerId).position = (s.positionKeeper tickerId).position := by
  have positions : ∀ e : StrategyEngine F, (e.positionKeeper tickerId).position =
      (e.toTradeEngine.positionKeeper tickerId).position := fun _ => rfl
  rw [positions, positions]
  rcases (step_marketUpdate stepped).2 with ⟨engine, -⟩ | ⟨move, loss, -, made⟩
  · rw [engine]
  · obtain ⟨bid, ask, -, -, engine, -⟩ := TradeEngine.moveOrders_eq_ok made
    rw [engine]

/-- Orders are sent under the id of the engine. -/
theorem sent_marketUpdate {u : MEMarketUpdate}
    (stepped : s.step (.marketUpdate u) = .ok (t, sent)) :
    ∀ r ∈ sent, r.clientId = s.clientId ∧ Sided r := by
  have move : ∀ (o : OrderManager) (tickerId : TickerId) (side : BookSide)
      (check : Side → Qty → RiskCheckResult) (price : Price) (qty : Qty),
      ∀ r ∈ (o.moveOrder s.clientId tickerId side.toSide check price qty).2,
        r.clientId = s.clientId ∧ Sided r := by
    intro o tickerId side check price qty r mem
    rcases o.moveOrder_cases s.clientId tickerId side.toSide check price qty with
      nothing | ⟨-, cancels⟩ | ⟨-, -, -, sends⟩
    · rw [nothing] at mem
      exact absurd mem List.not_mem_nil
    · rw [cancels, OrderManager.cancelOrder, List.mem_singleton] at mem
      subst mem
      exact ⟨rfl, fun isNew => by cases isNew⟩
    · rw [sends, OrderManager.newOrder, List.mem_singleton] at mem
      subst mem
      refine ⟨rfl, fun _ => ?_⟩
      cases side
      · exact .inl rfl
      · exact .inr rfl
  intro r mem
  rcases (step_marketUpdate stepped).2 with ⟨-, nothing⟩ | ⟨moved, loss, -, made⟩
  · rw [nothing] at mem
    exact absurd mem List.not_mem_nil
  · obtain ⟨bid, ask, isBid, isAsk, -, isSent⟩ := TradeEngine.moveOrders_eq_ok made
    rw [isSent, ← isAsk] at mem
    rcases List.mem_append.mp mem with first | second
    · rw [← isBid] at first
      exact move s.orderManager moved.tickerId .bid _ moved.bidPrice moved.clip r first
    · exact move bid.1 moved.tickerId .ask _ moved.askPrice moved.clip r second

/-- A response moves the position of its ticker by what it executes, whatever the
algorithm. -/
theorem position_clientResponse {x : MEClientResponse}
    (stepped : s.step (.clientResponse x) = .ok (t, sent)) :
    sent = [] ∧ t.clientId = s.clientId ∧ t.algoType = s.algoType ∧
      ∀ tickerId, (t.positionKeeper tickerId).position =
        if x.type = .FILLED ∧ x.tickerId = tickerId then
          Int.bmod ((s.positionKeeper tickerId).position + x.execQty * sideToValue x.side) (2 ^ 32)
        else (s.positionKeeper tickerId).position := by
  obtain ⟨u, updated, last⟩ := bind_eq_ok.mp stepped
  cases last
  obtain ⟨v, filled, dispatched⟩ := bind_eq_ok.mp updated
  -- The algorithm only touches the orders.
  have second : t.clientId = v.clientId ∧ t.algoType = v.algoType ∧
      t.positionKeeper = v.positionKeeper := by
    unfold algoOnOrderUpdate at dispatched
    split at dispatched
    · obtain ⟨orderManager, -, last⟩ := bind_eq_ok.mp dispatched
      cases last
      exact ⟨rfl, rfl, rfl⟩
    · obtain ⟨orderManager, -, last⟩ := bind_eq_ok.mp dispatched
      cases last
      exact ⟨rfl, rfl, rfl⟩
    · cases dispatched
      exact ⟨rfl, rfl, rfl⟩
    · cases dispatched
      exact ⟨rfl, rfl, rfl⟩
  obtain ⟨client, algo, positions⟩ := second
  rw [client, algo, positions]
  split at filled
  · rename_i fills
    unfold addFill at filled
    split at filled
    · cases filled
      refine ⟨rfl, rfl, rfl, fun tickerId => ?_⟩
      rcases eq_or_ne x.tickerId tickerId with rfl | other
      · rw [if_pos ⟨fills, rfl⟩]
        simp only [Function.update_self, PositionPnl.addFill_position]
        rfl
      · rw [if_neg fun here => other here.2]
        simp only [Function.update_of_ne other.symm]
    · cases filled
  · rename_i silent
    cases filled
    exact ⟨rfl, rfl, rfl, fun tickerId => by rw [if_neg fun here => silent here.1]⟩

end StrategyEngine

/-- A fill of an order within the limit does not take the position out of its type. -/
theorem Session.Joint.fill_exact {clientId : ClientId} {riskCfg : TickerId → RiskCfg}
    {tickerBasePrices : TickerId → Price} {refs : TickerId → RefBook} {s : Session}
    {x : MEClientResponse} {rest : List MEClientResponse}
    (joint : Session.Joint clientId tickerBasePrices refs s)
    (limited : s.tradeEngine.Limited riskCfg)
    (limit : (riskCfg x.tickerId).maxPosition < 2 ^ 30) (front : s.clientResponses = x :: rest)
    (filled : x.type = .FILLED) :
    Int.bmod (s.position x.tickerId + x.execQty * sideToValue x.side) (2 ^ 32) =
      s.position x.tickerId + x.execQty * sideToValue x.side := by
  rcases joint.responses x (by rw [front]; exact List.mem_cons_self) with rejected | ⟨side, sided⟩
  · simp [filled] at rejected
  · have taken := joint.taken front sided
    rw [if_pos filled] at taken
    exact limited.fill_exact limit sided ((Nat.le_add_left _ _).trans taken)

/-! ## The floor -/

/-- The engines of the clients, the exchange, and the requests and responses of each client on
their way. -/
structure TradingFloor (F : Type) where
  strategyEngine : ClientId → StrategyEngine F
  exchange : MatchingEngine
  clientRequests : ClientId → List MEClientRequest
  clientResponses : ClientId → List MEClientResponse

inductive FloorInput
  /-- The trade engine of a client reads a market update. -/
  | marketUpdate (client : ClientId) (u : MEMarketUpdate)
  /-- A client that runs no algorithm sends a request. -/
  | submit (client : ClientId) (r : MEClientRequest)
  /-- The trade engine of a client reads its next response. -/
  | deliver (client : ClientId)
  /-- The matching engine reads the next request of a client. -/
  | process (client : ClientId)

def FloorInput.client : FloorInput → ClientId
  | .marketUpdate client _ | .submit client _ | .deliver client | .process client => client

namespace TradingFloor

variable {F : Type} [Double F]

def new (strategyEngine : ClientId → StrategyEngine F) (tickerBasePrices : TickerId → Price) :
    TradingFloor F :=
  { strategyEngine, exchange := .new tickerBasePrices, clientRequests := fun _ => []
    clientResponses := fun _ => [] }

def step (s : TradingFloor F) : FloorInput → Except Fault (TradingFloor F × List MEMessage)
  | .marketUpdate client u => do
    let (strategyEngine, sent) ← (s.strategyEngine client).step (.marketUpdate u)
    pure ({ s with
      strategyEngine := Function.update s.strategyEngine client strategyEngine
      clientRequests := Function.update s.clientRequests client
        (s.clientRequests client ++ sent) }, [])
  | .submit client r =>
    .ok ({ s with
      clientRequests := Function.update s.clientRequests client
        (s.clientRequests client ++ [r]) }, [])
  | .deliver client =>
    match s.clientResponses client with
    | [] => .ok (s, [])
    | x :: rest => do
      let (strategyEngine, sent) ← (s.strategyEngine client).step (.clientResponse x)
      pure ({ s with
        strategyEngine := Function.update s.strategyEngine client strategyEngine
        clientRequests := Function.update s.clientRequests client
          (s.clientRequests client ++ sent)
        clientResponses := Function.update s.clientResponses client rest }, [])
  | .process client =>
    match s.clientRequests client with
    | [] => .ok (s, [])
    | r :: rest => do
      let (exchange, out) ← s.exchange.processClientRequest r
      pure ({ s with
        exchange
        clientRequests := Function.update s.clientRequests client rest
        clientResponses := fun c =>
          s.clientResponses c ++ (responses out).filter fun x => x.clientId = c }, out)

/-- The client runs one of the two algorithms. -/
def Strategic (s : TradingFloor F) (client : ClientId) : Prop :=
  (s.strategyEngine client).algoType = .MAKER ∨ (s.strategyEngine client).algoType = .TAKER

/-- Only a `RANDOM` client sends requests that no algorithm has made, under its own id; its new
orders are for BUY or SELL. -/
def Submits (s : TradingFloor F) : FloorInput → Prop
  | .submit client r => (s.strategyEngine client).algoType = .RANDOM ∧ r.clientId = client ∧ Sided r
  | .marketUpdate .. | .deliver _ | .process _ => True

instance (s : TradingFloor F) : DecidablePred s.Submits
  | .submit .. => inferInstanceAs (Decidable (_ ∧ _))
  | .marketUpdate .. | .deliver _ | .process _ => isTrue trivial

/-- One of the clients takes a step, and the ids that have been given out are inside the tables of
the exchange. -/
def Admissible (numClients : Nat) (s : TradingFloor F) (i : FloorInput) : Prop :=
  i.client < numClients ∧ s.Submits i ∧ ∀ client < numClients,
    (s.strategyEngine client).orderManager.nextOrderId ≤ ME_MAX_ORDER_IDS

instance (numClients : Nat) (s : TradingFloor F) : DecidablePred (Admissible numClients s) :=
  fun _ => inferInstanceAs (Decidable (_ ∧ _ ∧ _))

def position (s : TradingFloor F) (client : ClientId) (tickerId : TickerId) : Int :=
  ((s.strategyEngine client).positionKeeper tickerId).position

/-- The positions of all clients, with what is executed and not yet read. -/
def imbalance (numClients : Nat) (s : TradingFloor F) (tickerId : TickerId) : Int :=
  ∑ client ∈ Finset.range numClients,
    (s.position client tickerId + netExecuted tickerId (s.clientResponses client))

/-- What one client has to do with. -/
def toTradingSystem (s : TradingFloor F) (client : ClientId) : TradingSystem F :=
  { strategyEngine := s.strategyEngine client, exchange := s.exchange
    clientRequests := s.clientRequests client, clientResponses := s.clientResponses client }

/-! ## Steps -/

variable {numClients : Nat} {s s' : TradingFloor F} {out : List MEMessage} {i : FloorInput}

/-- The trade engine of a client reads nothing, or its next response. -/
theorem step_deliver {c : ClientId} (stepped : s.step (.deliver c) = .ok (s', out)) :
    s' = s ∨ ∃ x rest engine sent, s.clientResponses c = x :: rest ∧
      (s.strategyEngine c).step (.clientResponse x) = .ok (engine, sent) ∧
      out = [] ∧ s' = { s with
        strategyEngine := Function.update s.strategyEngine c engine
        clientRequests := Function.update s.clientRequests c (s.clientRequests c ++ sent)
        clientResponses := Function.update s.clientResponses c rest } := by
  simp only [step] at stepped
  cases front : s.clientResponses c with
  | nil =>
      rw [front] at stepped
      cases stepped
      exact .inl rfl
  | cons x rest =>
      rw [front] at stepped
      obtain ⟨⟨engine, sent⟩, moved, last⟩ := bind_eq_ok.mp stepped
      cases last
      exact .inr ⟨x, rest, engine, sent, rfl, moved, rfl, rfl⟩

/-- The matching engine reads nothing, or the next request of a client. -/
theorem step_process {c : ClientId} (stepped : s.step (.process c) = .ok (s', out)) :
    s' = s ∨ ∃ r rest exchange, s.clientRequests c = r :: rest ∧
      s.exchange.processClientRequest r = .ok (exchange, out) ∧
      s' = { s with
        exchange
        clientRequests := Function.update s.clientRequests c rest
        clientResponses := fun c =>
          s.clientResponses c ++ (responses out).filter fun x => x.clientId = c } := by
  simp only [step] at stepped
  cases front : s.clientRequests c with
  | nil =>
      rw [front] at stepped
      cases stepped
      exact .inl rfl
  | cons r rest =>
      rw [front] at stepped
      obtain ⟨⟨exchange, sent⟩, processed, last⟩ := bind_eq_ok.mp stepped
      cases last
      exact .inr ⟨r, rest, exchange, rfl, processed, rfl⟩

/-! ## The view of a client -/

/-- The requests of the clients are their own. -/
def OwnRequests (numClients : Nat) (s : TradingFloor F) : Prop :=
  ∀ client < numClients, (s.strategyEngine client).clientId = client ∧
    ∀ r ∈ s.clientRequests client, r.clientId = client ∧ Sided r

/-- A client of the floor sees at most a step of its own, or a request of a foreign client. -/
theorem step_client (own : OwnRequests numClients s) (admissible : Admissible numClients s i)
    (stepped : s.step i = .ok (s', out)) {client : ClientId} (known : client < numClients)
    (strategic : s.Strategic client) :
    s'.toTradingSystem client = s.toTradingSystem client ∨
      ∃ j, TradingSystem.OfOthers client j ∧
        (s.toTradingSystem client).step j = .ok (s'.toTradingSystem client, out) := by
  cases i with
  | marketUpdate c u =>
      obtain ⟨⟨engine, sent⟩, moved, last⟩ := bind_eq_ok.mp stepped
      cases last
      rcases eq_or_ne client c with rfl | other
      · refine .inr ⟨.marketUpdate u, trivial, bind_eq_ok.mpr ⟨(engine, sent), moved, ?_⟩⟩
        simp only [toTradingSystem, Function.update_self]
        rfl
      · left
        simp only [toTradingSystem, Function.update_of_ne other]
  | submit c r =>
      obtain ⟨-, ⟨random, -, -⟩, -⟩ := admissible
      cases stepped
      have other : client ≠ c := by
        rintro rfl
        rcases strategic with isMaker | isTaker
        · simp [random] at isMaker
        · simp [random] at isTaker
      left
      simp only [toTradingSystem, Function.update_of_ne other]
  | deliver c =>
      rcases step_deliver stepped with rfl | ⟨x, rest, engine, sent, front, moved, rfl, rfl⟩
      · exact .inl rfl
      · rcases eq_or_ne client c with rfl | other
        · refine .inr ⟨.deliver, trivial, ?_⟩
          unfold TradingSystem.step
          rw [show (s.toTradingSystem client).clientResponses = x :: rest from front]
          refine bind_eq_ok.mpr ⟨(engine, sent), moved, ?_⟩
          simp only [toTradingSystem, Function.update_self]
          rfl
        · left
          simp only [toTradingSystem, Function.update_of_ne other]
  | process c =>
      rcases step_process stepped with rfl | ⟨r, rest, exchange, front, processed, rfl⟩
      · exact .inl rfl
      · right
        have name : (s.strategyEngine client).clientId = client := (own client known).1
        rcases eq_or_ne client c with rfl | other
        · refine ⟨.process, trivial, ?_⟩
          unfold TradingSystem.step
          rw [show (s.toTradingSystem client).clientRequests = r :: rest from front]
          refine bind_eq_ok.mpr ⟨(exchange, out), processed, ?_⟩
          simp only [toTradingSystem, Function.update_self, name]
          rfl
        · obtain ⟨theirs, sided⟩ := (own c admissible.1).2 r (front ▸ List.mem_cons_self)
          refine ⟨.foreign r, ⟨fun same => other (same.symm.trans theirs), sided⟩, ?_⟩
          refine bind_eq_ok.mpr ⟨(exchange, out), processed, ?_⟩
          simp only [toTradingSystem, Function.update_of_ne other, name]
          rfl

/-- Requests stay with their clients. -/
theorem OwnRequests.step (own : OwnRequests numClients s)
    (admissible : Admissible numClients s i) (stepped : s.step i = .ok (s', out)) :
    OwnRequests numClients s' ∧
      ∀ client, (s'.strategyEngine client).algoType = (s.strategyEngine client).algoType := by
  -- An engine that keeps its name and algorithm, and more requests of the client.
  have keeps : ∀ {c : ClientId} {engine : StrategyEngine F} {requests : List MEClientRequest}
      {t : TradingFloor F}, engine.clientId = (s.strategyEngine c).clientId →
      engine.algoType = (s.strategyEngine c).algoType →
      (c < numClients → ∀ r ∈ requests, r.clientId = c ∧ Sided r) →
      t.strategyEngine = Function.update s.strategyEngine c engine →
      t.clientRequests = Function.update s.clientRequests c requests →
      OwnRequests numClients t ∧
        ∀ client, (t.strategyEngine client).algoType = (s.strategyEngine client).algoType := by
    intro c engine requests t name algo theirs engines queues
    refine ⟨fun client known => ?_, fun client => ?_⟩
    · rw [engines, queues]
      rcases eq_or_ne client c with rfl | other
      · rw [Function.update_self, Function.update_self]
        exact ⟨name.trans (own client known).1, theirs known⟩
      · rw [Function.update_of_ne other, Function.update_of_ne other]
        exact own client known
    · rw [engines]
      rcases eq_or_ne client c with rfl | other
      · rw [Function.update_self]
        exact algo
      · rw [Function.update_of_ne other]
  have still : ∀ c, s.strategyEngine = Function.update s.strategyEngine c (s.strategyEngine c) :=
    fun c => (Function.update_eq_self c _).symm
  cases i with
  | marketUpdate c u =>
      obtain ⟨⟨engine, sent⟩, moved, last⟩ := bind_eq_ok.mp stepped
      cases last
      obtain ⟨same, -⟩ := StrategyEngine.step_marketUpdate moved
      refine keeps same.clientId same.algoType (fun known r mem => ?_) rfl rfl
      rcases List.mem_append.mp mem with old | new
      · exact (own c known).2 r old
      · obtain ⟨name, sided⟩ := StrategyEngine.sent_marketUpdate moved r new
        exact ⟨name.trans (own c known).1, sided⟩
  | submit c r =>
      obtain ⟨-, ⟨-, theirs, sided⟩, -⟩ := admissible
      cases stepped
      refine keeps rfl rfl (fun known x mem => ?_) (still c) rfl
      rcases List.mem_append.mp mem with old | new
      · exact (own c known).2 x old
      · rw [List.mem_singleton.mp new]
        exact ⟨theirs, sided⟩
  | deliver c =>
      rcases step_deliver stepped with rfl | ⟨x, rest, engine, sent, -, moved, -, rfl⟩
      · exact ⟨own, fun _ => rfl⟩
      · obtain ⟨silent, name, algo, -⟩ := StrategyEngine.position_clientResponse moved
        refine keeps name algo (fun known r mem => ?_) rfl rfl
        rw [silent, List.append_nil] at mem
        exact (own c known).2 r mem
  | process c =>
      rcases step_process stepped with rfl | ⟨r, rest, exchange, front, -, rfl⟩
      · exact ⟨own, fun _ => rfl⟩
      · refine keeps rfl rfl (fun known x mem => ?_) (still c) rfl
        refine (own c known).2 x ?_
        rw [front]
        exact List.mem_cons_of_mem _ mem

/-! ## The account of the positions -/

/-- Every response goes to one client. -/
theorem netExecuted_routed (tickerId : TickerId) {xs : List MEClientResponse}
    (known : ∀ x ∈ xs, x.clientId < numClients) :
    ∑ client ∈ Finset.range numClients,
      netExecuted tickerId (xs.filter fun x => x.clientId = client) = netExecuted tickerId xs := by
  induction xs with
  | nil => exact Finset.sum_const_zero
  | cons x xs ih =>
      have split : ∀ client, netExecuted tickerId ((x :: xs).filter fun y => y.clientId = client) =
          (if x.clientId = client then netExecuted tickerId [x] else 0) +
            netExecuted tickerId (xs.filter fun y => y.clientId = client) := by
        intro client
        by_cases here : x.clientId = client
        · rw [List.filter_cons_of_pos (by simpa using here), if_pos here, ← netExecuted_append]
          rfl
        · rw [List.filter_cons_of_neg (by simpa using here), if_neg here, zero_add]
      simp only [split]
      rw [Finset.sum_add_distrib, ih fun y mem => known y (List.mem_cons_of_mem _ mem),
        Finset.sum_ite_eq, if_pos (Finset.mem_range.mpr (known x List.mem_cons_self)),
        ← netExecuted_append]
      rfl

/-- What one client adds. -/
def share (s : TradingFloor F) (tickerId : TickerId) (client : ClientId) : Int :=
  s.position client tickerId + netExecuted tickerId (s.clientResponses client)

omit [Double F] in
/-- A step of one client changes what it adds. -/
theorem imbalance_of_share {c : ClientId} {tickerId : TickerId} (known : c < numClients)
    (others : ∀ client ≠ c, s'.share tickerId client = s.share tickerId client) :
    s'.imbalance numClients tickerId =
      s.imbalance numClients tickerId + (s'.share tickerId c - s.share tickerId c) := by
  have difference : s'.imbalance numClients tickerId - s.imbalance numClients tickerId =
      s'.share tickerId c - s.share tickerId c := by
    rw [imbalance, imbalance, ← Finset.sum_sub_distrib]
    refine Finset.sum_eq_single c (fun client _ other => ?_) fun outside => ?_
    · exact sub_eq_zero.mpr (others client other)
    · exact absurd (Finset.mem_range.mpr known) outside
  lia

/-- The book of every ticker holds orders of the clients. -/
def OwnBooks (numClients : Nat) (tickerBasePrices : TickerId → Price) (s : TradingFloor F) : Prop :=
  ∃ refs : TickerId → RefBook, ∀ tickerId, Refines (tickerBasePrices tickerId) False
    (s.exchange.tickerOrderBook tickerId) (refs tickerId) ∧
      (refs tickerId).OwnedBy fun client => client < numClients

omit [Double F] in
/-- A request keeps the account: what it executes is bought and sold, for clients of the
floor. -/
theorem OwnBooks.process {tickerBasePrices : TickerId → Price} {r : MEClientRequest}
    {exchange : MatchingEngine} (books : OwnBooks numClients tickerBasePrices s)
    (known : r.clientId < numClients) (sided : Sided r)
    (processed : s.exchange.processClientRequest r = .ok (exchange, out)) :
    (∀ t : TradingFloor F, t.exchange = exchange → OwnBooks numClients tickerBasePrices t) ∧
      (∀ x ∈ responses out, x.clientId < numClients) ∧
      ∀ tickerId, netExecuted tickerId (responses out) = 0 := by
  obtain ⟨refs, each⟩ := books
  obtain ⟨-, book, answered, rfl⟩ := MatchingEngine.processClientRequest_eq_ok.mp processed
  obtain ⟨refines, owned⟩ := each r.tickerId
  obtain ⟨ref', refines', owned', clients⟩ := refines.request_owned owned known sided answered
  obtain ⟨_, -, clears, replies⟩ := refines.request_clears sided answered
  refine ⟨fun t same => ⟨Function.update refs r.tickerId ref', fun tickerId => ?_⟩, clients,
    fun tickerId => ?_⟩
  · rw [same]
    rcases eq_or_ne tickerId r.tickerId with rfl | other
    · simp only [Function.update_self]
      exact ⟨refines', owned'⟩
    · simp only [Function.update_of_ne other]
      exact each tickerId
  · rw [netExecuted_eq, clears.tape, clears.tape, sub_self]
    intro x mem filled
    rcases (replies x mem).2 with rejected | isSide
    · simp [filled] at rejected
    · exact isSide

/-- What a step does to the account of the positions: nothing, unless a position leaves its
type when its client reads a fill. -/
theorem imbalance_step {tickerBasePrices : TickerId → Price} (own : OwnRequests numClients s)
    (books : OwnBooks numClients tickerBasePrices s) (admissible : Admissible numClients s i)
    (stepped : s.step i = .ok (s', out)) (tickerId : TickerId) :
    OwnBooks numClients tickerBasePrices s' ∧
      (s'.imbalance numClients tickerId = s.imbalance numClients tickerId ∨
        ∃ c < numClients, ∃ x rest, s.clientResponses c = x :: rest ∧ x.type = .FILLED ∧
          x.tickerId = tickerId ∧ s'.imbalance numClients tickerId =
            s.imbalance numClients tickerId +
              (Int.bmod (s.position c tickerId + x.execQty * sideToValue x.side) (2 ^ 32) -
                (s.position c tickerId + x.execQty * sideToValue x.side))) := by
  have known : i.client < numClients := admissible.1
  cases i with
  | marketUpdate c u =>
      obtain ⟨⟨engine, sent⟩, moved, last⟩ := bind_eq_ok.mp stepped
      cases last
      refine ⟨books, .inl (Finset.sum_congr rfl fun client _ => ?_)⟩
      simp only [position]
      rcases eq_or_ne client c with rfl | other
      · rw [Function.update_self, StrategyEngine.position_marketUpdate moved]
      · rw [Function.update_of_ne other]
  | submit c r =>
      cases stepped
      exact ⟨books, .inl rfl⟩
  | deliver c =>
      rcases step_deliver stepped with rfl | ⟨x, rest, engine, sent, front, moved, -, rfl⟩
      · exact ⟨books, .inl rfl⟩
      · refine ⟨books, ?_⟩
        obtain ⟨-, -, -, positions⟩ := StrategyEngine.position_clientResponse moved
        have others : ∀ client ≠ c, TradingFloor.share { s with
              strategyEngine := Function.update s.strategyEngine c engine
              clientRequests := Function.update s.clientRequests c (s.clientRequests c ++ sent)
              clientResponses := Function.update s.clientResponses c rest } tickerId client =
            s.share tickerId client := by
          intro client other
          simp only [share, position, Function.update_of_ne other]
        have changed := imbalance_of_share (c := c) known others
        have before : s.share tickerId c = s.position c tickerId +
            ((if x.type = .FILLED ∧ x.tickerId = tickerId then x.execQty * sideToValue x.side
              else 0) + netExecuted tickerId rest) := by
          rw [share, front]
          rfl
        rw [changed, before]
        simp only [share, position, Function.update_self, positions]
        by_cases fills : x.type = .FILLED ∧ x.tickerId = tickerId
        · refine .inr ⟨c, known, x, rest, front, fills.1, fills.2, ?_⟩
          rw [if_pos fills, if_pos fills]
          lia
        · left
          rw [if_neg fills, if_neg fills]
          lia
  | process c =>
      rcases step_process stepped with rfl | ⟨r, rest, exchange, front, processed, rfl⟩
      · exact ⟨books, .inl rfl⟩
      · obtain ⟨theirs, sided⟩ := (own c known).2 r (front ▸ List.mem_cons_self)
        obtain ⟨books', clients, zero⟩ := books.process (theirs ▸ known) sided processed
        refine ⟨books' _ rfl, .inl ?_⟩
        have grown : ∀ client, netExecuted tickerId (s.clientResponses client ++
            (responses out).filter fun x => x.clientId = client) =
              netExecuted tickerId (s.clientResponses client) +
                netExecuted tickerId ((responses out).filter fun x => x.clientId = client) :=
          fun client => netExecuted_append _ _ _
        have routed := netExecuted_routed tickerId clients
        rw [zero tickerId] at routed
        simp only [imbalance, position, grown, ← add_assoc]
        rw [Finset.sum_add_distrib, routed, add_zero]

/-! ## Whole runs -/

/-- What every reachable state of the floor keeps. -/
structure Balanced (numClients : Nat) (tickerBasePrices : TickerId → Price)
    (tickerCfg : ClientId → TickerId → TradeEngineCfg F) (s : TradingFloor F) : Prop where
  own : OwnRequests numClients s
  books : OwnBooks numClients tickerBasePrices s
  safe : ∀ client < numClients, s.Strategic client →
    TradingSystem.Safe client tickerBasePrices (tickerCfg client) (s.toTradingSystem client)
  congruent : ∀ tickerId, s.imbalance numClients tickerId ≡ 0 [ZMOD 2 ^ 32]
  exact : (∀ client < numClients, s.Strategic client) →
    ∀ tickerId, s.imbalance numClients tickerId = 0

/-- One step. -/
theorem Balanced.step {tickerBasePrices : TickerId → Price}
    {tickerCfg : ClientId → TickerId → TradeEngineCfg F}
    (balanced : Balanced numClients tickerBasePrices tickerCfg s)
    (limits : ∀ client < numClients, ∀ tickerId,
      (tickerCfg client tickerId).riskCfg.maxOrderSize < 2 ^ 30 ∧
        (tickerCfg client tickerId).riskCfg.maxPosition < 2 ^ 30)
    (admissible : Admissible numClients s i) (stepped : s.step i = .ok (s', out)) :
    Balanced numClients tickerBasePrices tickerCfg s' := by
  obtain ⟨own, algos⟩ := balanced.own.step admissible stepped
  have strategic : ∀ client, s'.Strategic client → s.Strategic client := by
    intro client now
    rw [Strategic, algos] at now
    exact now
  have account := imbalance_step balanced.own balanced.books admissible stepped
  refine ⟨own, (account 0).1, fun client known now => ?_, fun tickerId => ?_,
    fun all tickerId => ?_⟩
  · have safe := balanced.safe client known (strategic client now)
    rcases step_client balanced.own admissible stepped known (strategic client now) with
      still | ⟨j, others, moved⟩
    · rw [still]
      exact safe
    · exact safe.step (limits client known) ⟨admissible.2.2 client known, others⟩ moved
  · rcases (account tickerId).2 with same | ⟨c, -, x, rest, -, -, -, changed⟩
    · rw [same]
      exact balanced.congruent tickerId
    · rw [changed]
      have wraps := Int.bmod_emod (x := s.position c tickerId + x.execQty * sideToValue x.side)
        (m := 2 ^ 32)
      exact ((balanced.congruent tickerId).add (Int.ModEq.sub wraps rfl)).trans (by simp)
  · rcases (account tickerId).2 with same | ⟨c, known, x, rest, front, filled, rfl, changed⟩
    · rw [same]
      exact balanced.exact (fun client known => strategic client (all client known)) tickerId
    · have safe := balanced.safe c known (strategic c (all c known))
      obtain ⟨refs, joint⟩ := safe.joint
      have fits : Int.bmod (s.position c x.tickerId + x.execQty * sideToValue x.side) (2 ^ 32) =
          s.position c x.tickerId + x.execQty * sideToValue x.side :=
        joint.fill_exact safe.limited (limits c known x.tickerId).2 front filled
      rw [changed, fits, sub_self, add_zero]
      exact balanced.exact (fun client known => strategic client (all client known)) x.tickerId

/-- **What some clients are long, others are short.** Any clients trade at the exchange, in any
interleaving, with limits below `2 ^ 30` and new orders for BUY or SELL: the positions of a ticker,
with the executions that are still on their way, add up to zero in the 32 bits of a position; they
add up to zero exactly where all clients run a strategy; and a client that runs one is within its
limit, whatever else the others do. -/
theorem run_zero_sum (numClients : Nat) (algoType : ClientId → AlgoType)
    (tickerCfg : ClientId → TickerId → TradeEngineCfg F)
    (bookPrices : ClientId → TickerId → Price) (tickerBasePrices : TickerId → Price)
    (limits : ∀ client < numClients, ∀ tickerId,
      (tickerCfg client tickerId).riskCfg.maxOrderSize < 2 ^ 30 ∧
        (tickerCfg client tickerId).riskCfg.maxPosition < 2 ^ 30) (inputs : List FloorInput)
    (admits : Admits (Admissible numClients) step
      (new (fun client => .new client (algoType client) (tickerCfg client) (bookPrices client))
        tickerBasePrices) inputs)
    (s : TradingFloor F) (out : List MEMessage)
    (ran : run step
      (new (fun client => .new client (algoType client) (tickerCfg client) (bookPrices client))
        tickerBasePrices) inputs = .ok (s, out)) (tickerId : TickerId) :
    s.imbalance numClients tickerId ≡ 0 [ZMOD 2 ^ 32] ∧
      ((∀ client < numClients, algoType client = .MAKER ∨ algoType client = .TAKER) →
        s.imbalance numClients tickerId = 0) ∧
      ∀ client < numClients, algoType client = .MAKER ∨ algoType client = .TAKER →
        |s.position client tickerId| ≤ (tickerCfg client tickerId).riskCfg.maxPosition := by
  have start : Balanced numClients tickerBasePrices tickerCfg
      (new (fun client => .new client (algoType client) (tickerCfg client) (bookPrices client))
        tickerBasePrices) := by
    have flat : ∀ ticker, imbalance numClients
        (new (fun client => .new client (algoType client) (tickerCfg client) (bookPrices client))
          tickerBasePrices : TradingFloor F) ticker = 0 :=
      fun ticker => Finset.sum_eq_zero fun client _ => rfl
    refine ⟨fun client _ => ⟨rfl, fun r mem => absurd mem List.not_mem_nil⟩,
      ⟨fun _ => RefBook.new, fun ticker => ⟨Refines.new _ False, ?_⟩⟩, ?_, ?_, fun _ => flat⟩
    · exact fun side o mem => absurd mem List.not_mem_nil
    · exact fun client _ strategic => ⟨strategic, rfl,
        ⟨_, Session.Joint.new client _ tickerBasePrices⟩,
        .new client _,
        fun _ => Session.Settled.new client _ tickerBasePrices⟩
    · intro ticker
      rw [flat]
  obtain ⟨balanced, algos⟩ := admits_invariant
    (P := fun s => Balanced numClients tickerBasePrices tickerCfg s ∧
      ∀ client, (s.strategyEngine client).algoType = algoType client)
    ⟨start, fun _ => rfl⟩
    (fun {t i u now} before admissible stepped => ⟨before.1.step limits admissible stepped,
      fun client => ((before.1.own.step admissible stepped).2 client).trans (before.2 client)⟩)
    admits ran
  have strategic : ∀ client, algoType client = .MAKER ∨ algoType client = .TAKER →
      s.Strategic client := by
    intro client runs
    rw [Strategic, algos]
    exact runs
  refine ⟨balanced.congruent tickerId, fun all => ?_, fun client known runs => ?_⟩
  · exact balanced.exact (fun client known => strategic client (all client known)) tickerId
  · exact (balanced.safe client known (strategic client runs)).limited.limit tickerId

/-- Two market makers with clips of 5 and a client that runs none. -/
def quoters : TradingFloor ExactDouble :=
  new (fun client => .new client (if client = 2 then .RANDOM else .MAKER)
    (fun _ => { clip := 5, threshold := some 0, riskCfg := ⟨10, 10⟩, maxLoss := some (-100) })
    fun _ => 100) fun _ => 0

/-- An order is added to the book that a client has of ticker 0. -/
def shownTo (client : ClientId) (orderId : OrderId) (side : Side) (price : Price) : FloorInput :=
  .marketUpdate client
    { type := .ADD, orderId, tickerId := 0, side, price, qty := 10, priority := 1 }

/-- The first maker quotes 102 and 104; the second one, whose market data is late, bids 105 for
what the first one offers; then the third client sells 2 to the first maker. -/
def quoterInputs : List FloorInput :=
  [shownTo 0 1 .BUY 101, shownTo 0 2 .BUY 102, shownTo 0 3 .SELL 105, shownTo 0 4 .SELL 104,
    .process 0, .process 0, shownTo 1 1 .BUY 104, shownTo 1 2 .BUY 105, shownTo 1 3 .SELL 108,
    shownTo 1 4 .SELL 107, .process 1, .deliver 0, .deliver 0, .deliver 0,
    .submit 2 ⟨.NEW, 2, 0, 1, .SELL, 102, 2⟩, .process 2, .deliver 1]

theorem run_zero_sum_quoters :
    ∃ s out, run step quoters quoterInputs = .ok (s, out) ∧
      s.position 0 0 = -5 ∧ s.position 1 0 = 0 ∧
      s.imbalance 3 0 ≡ 0 [ZMOD 2 ^ 32] ∧ |s.position 0 0| ≤ 10 := by
  obtain ⟨s, out, ran, read⟩ := run_of_read step quoters quoterInputs
    (fun result => decide (result.1.position 0 0 = -5 ∧ result.1.position 1 0 = 0)) true
    (by decide +kernel)
  obtain ⟨sold, unread⟩ := of_decide_eq_true read
  obtain ⟨congruent, -, limits⟩ := run_zero_sum 3
    (fun client => if client = 2 then .RANDOM else .MAKER) _ _ (fun _ => 0)
    (fun _ _ _ => ⟨by decide, by decide⟩) quoterInputs (by decide +kernel) s out ran 0
  exact ⟨s, out, ran, sold, unread, congruent, limits 0 (by decide) (.inl rfl)⟩

end TradingFloor

end NanoTrade
