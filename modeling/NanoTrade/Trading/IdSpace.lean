import NanoTrade.Exchange.Invariant
import NanoTrade.Exchange.MEOrderBook
import NanoTrade.Trading.OrderManager
import NanoTrade.Trading.TableIndices

/-!
# The ids of a long session

Clients number their orders from `next_order_id_`, the books of the exchange number them again
from `next_market_order_id_`. Both count the orders that were ever sent; the tables that the
ids index have `ME_MAX_ORDER_IDS` places and no place is ever needed by more than a few live
orders. Nothing brings the counters back.

* `run_idSpace`: no table of a session is subscripted out of range while every order that comes
  to rest has both its ids below `ME_MAX_ORDER_IDS`.
* `not_idSpace_turnover`: a client that places one order after the other, each cancelled before
  the next, ends the exchange with its `2 ^ 20`-th.
-/

namespace NanoTrade

/-- The ids of the clients that the arrays of the exchange have a place for. -/
abbrev Client := Fin ME_MAX_NUM_CLIENTS

/-- The exchange and its clients, with the messages between them. -/
structure Venue where
  tradeEngine : Client → TradeEngine
  clientRequests : Client → List MEClientRequest
  clientResponses : Client → List MEClientResponse
  matchingEngine : MatchingEngine
  /-- The updates of all books, in the order of their numbers. -/
  marketUpdates : List MEMarketUpdate
  snapshotSynthesizer : SnapshotSynthesizer
  /-- How many of the updates the synthesizer has read. -/
  synthesized : Nat
  marketOrderBook : Client → TickerId → MarketOrderBook

inductive VenueEvent
  /-- The algorithm of a client moves its orders. -/
  | moveOrders (client : Client) (tickerId : TickerId) (bidPrice askPrice : Price) (clip : Qty)
      (lossTooLarge : Bool)
  /-- The matching engine reads the next request of a client. -/
  | processClientRequest (client : Client)
  /-- A client reads its next response. -/
  | onOrderUpdate (client : Client)
  /-- The synthesizer reads the next update. -/
  | addToSnapshot
  /-- A client's book is handed an update of the incremental stream. -/
  | onMarketUpdate (client : Client) (index : Nat)
  /-- A client's book is handed an event of the snapshot that would be sent now. -/
  | onSnapshot (client : Client) (index : Nat)

/-- What ends the process, and in which component. -/
inductive VenueFault
  | tradeEngine (f : Fault)
  /-- `ticker_order_book_` of the matching engine or of a client has no such ticker. -/
  | noTicker (tickerId : TickerId)
  | matchingEngine (f : Fault)
  | snapshotSynthesizer (f : Fault)
  | marketOrderBook (f : Fault)

/-- A table of orders is subscripted out of range. -/
def VenueFault.OutOfIds : VenueFault → Prop
  | .tradeEngine _ | .noTicker _ => False
  | .matchingEngine f | .snapshotSynthesizer f | .marketOrderBook f => ¬ f.Elsewhere

namespace Venue

def new (riskCfg : Client → TickerId → RiskCfg) (tickerBasePrices : TickerId → Price)
    (clientBasePrices : Client → TickerId → Price) : Venue :=
  { tradeEngine := fun client => .new client (riskCfg client)
    clientRequests := fun _ => []
    clientResponses := fun _ => []
    matchingEngine := .new tickerBasePrices
    marketUpdates := []
    snapshotSynthesizer := .new
    synthesized := 0
    marketOrderBook := fun client tickerId => .new (clientBasePrices client tickerId) }

/-- `MatchingEngine::processClientRequest`, and where its messages go. -/
def serve (s : Venue) (r : MEClientRequest) : Except VenueFault (Venue × List MEMessage) :=
  if r.tickerId < ME_MAX_TICKERS then
    match s.matchingEngine.processClientRequest r with
    | .error f => .error (.matchingEngine f)
    | .ok (matchingEngine, out) =>
      .ok ({ s with
        matchingEngine
        clientResponses := fun client => s.clientResponses client ++
          (responses out).filter fun x => x.clientId = client.val
        marketUpdates := s.marketUpdates ++ updates out }, out)
  else .error (.noTicker r.tickerId)

/-- A client's book is handed an update. -/
def handOn (s : Venue) (client : Client) (u : MEMarketUpdate) :
    Except VenueFault (Venue × List MEMessage) :=
  if u.tickerId < ME_MAX_TICKERS then
    match (s.marketOrderBook client u.tickerId).onMarketUpdate u with
    | .error f => .error (.marketOrderBook f)
    | .ok (book, _) =>
      .ok ({ s with
        marketOrderBook := Function.update s.marketOrderBook client
          (Function.update (s.marketOrderBook client) u.tickerId book) }, [])
  else .error (.noTicker u.tickerId)

/-- One event, with what the matching engine sends. -/
def step (s : Venue) : VenueEvent → Except VenueFault (Venue × List MEMessage)
  | .moveOrders client tickerId bidPrice askPrice clip lossTooLarge =>
    match (s.tradeEngine client).moveOrders tickerId bidPrice askPrice clip lossTooLarge with
    | .error f => .error (.tradeEngine f)
    | .ok (tradeEngine, sent) =>
      .ok ({ s with
        tradeEngine := Function.update s.tradeEngine client tradeEngine
        clientRequests := Function.update s.clientRequests client
          (s.clientRequests client ++ sent) }, [])
  | .processClientRequest client =>
    match s.clientRequests client with
    | [] => .ok (s, [])
    | r :: rest =>
      { s with clientRequests := Function.update s.clientRequests client rest }.serve r
  | .onOrderUpdate client =>
    match s.clientResponses client with
    | [] => .ok (s, [])
    | x :: rest =>
      match (s.tradeEngine client).onOrderUpdate x with
      | .error f => .error (.tradeEngine f)
      | .ok tradeEngine =>
        .ok ({ s with
          tradeEngine := Function.update s.tradeEngine client tradeEngine
          clientResponses := Function.update s.clientResponses client rest }, [])
  | .addToSnapshot =>
    match s.marketUpdates[s.synthesized]? with
    | none => .ok (s, [])
    | some u =>
      match s.snapshotSynthesizer.addToSnapshot ⟨s.synthesized + 1, u⟩ with
      | .error f => .error (.snapshotSynthesizer f)
      | .ok (snapshotSynthesizer, _) =>
        .ok ({ s with snapshotSynthesizer, synthesized := s.synthesized + 1 }, [])
  | .onMarketUpdate client index =>
    match s.marketUpdates[index]? with
    | none => .ok (s, [])
    | some u => s.handOn client u
  | .onSnapshot client index =>
    match s.snapshotSynthesizer.cycle.events[index]? with
    | none => .ok (s, [])
    | some u => s.handOn client u

/-- The ids of the next request have places: those of a NEW unless the book fills all of it on
arrival, and that of a CANCEL. -/
def InIdSpace (s : Venue) : VenueEvent → Prop
  | .processClientRequest client => ∀ r ∈ (s.clientRequests client).head?,
    (r.type = .NEW →
      Ledger.FilledOnArrival (s.matchingEngine.tickerOrderBook r.tickerId) r ∨
        r.orderId < ME_MAX_ORDER_IDS ∧
        (s.matchingEngine.tickerOrderBook r.tickerId).nextMarketOrderId < ME_MAX_ORDER_IDS) ∧
    (r.type = .CANCEL → r.orderId < ME_MAX_ORDER_IDS)
  | _ => True

/-- The invariant. The tables of all components hold ids of their range only, and so do the
updates on their way to them. -/
structure IdsInRange (s : Venue) : Prop where
  own : ∀ client, (s.tradeEngine client).clientId = client.val
  requests : ∀ client, ∀ r ∈ s.clientRequests client, r.clientId = client.val
  books : ∀ tickerId, (s.matchingEngine.tickerOrderBook tickerId).Keys fun key =>
    (∃ slot, meSlot key.clientId key.clientOrderId = .ok slot) ∧
      key.marketOrderId < ME_MAX_ORDER_IDS
  updates : ∀ u ∈ s.marketUpdates, u.InTables
  synthesizer : s.snapshotSynthesizer.HasIds
  clientBooks : ∀ client tickerId,
    MarketOrderBook.HasIds (s.marketOrderBook client tickerId).toLevelBook

variable {s : Venue}

theorem IdsInRange.new (riskCfg : Client → TickerId → RiskCfg) (tickerBasePrices : TickerId → Price)
    (clientBasePrices : Client → TickerId → Price) :
    (new riskCfg tickerBasePrices clientBasePrices).IdsInRange :=
  ⟨fun _ => rfl, fun _ _ mem => absurd mem List.not_mem_nil, fun _ => LevelBook.Leads.new ..,
    fun _ mem => absurd mem List.not_mem_nil, SnapshotSynthesizer.HasIds.new,
    fun _ _ => LevelBook.Leads.new ..⟩

/-- The requests of a move carry the id of the client. -/
theorem moveOrder_clientId (s : OrderManager) (clientId : ClientId) (tickerId : TickerId)
    (side : Side) (check : Side → Qty → RiskCheckResult) (price : Price) (qty : Qty) :
    ∀ r ∈ (s.moveOrder clientId tickerId side check price qty).2, r.clientId = clientId := by
  rcases s.moveOrder_cases clientId tickerId side check price qty with
    nothing | ⟨-, cancels⟩ | ⟨-, -, -, places⟩
  · rw [nothing]
    exact fun _ mem => absurd mem List.not_mem_nil
  · rw [cancels]
    intro r mem
    rw [List.mem_singleton.mp mem]
    rfl
  · rw [places]
    intro r mem
    rw [List.mem_singleton.mp mem]
    rfl

theorem IdsInRange.ends_moveOrders (ids : s.IdsInRange) (client : Client) (tickerId : TickerId)
    (bidPrice askPrice : Price) (clip : Qty) (lossTooLarge : Bool) :
    Ends (fun f => ¬ f.OutOfIds)
      (step s (.moveOrders client tickerId bidPrice askPrice clip lossTooLarge))
      fun result => result.1.IdsInRange := by
  unfold step
  simp only
  cases moved : (s.tradeEngine client).moveOrders tickerId bidPrice askPrice clip lossTooLarge with
  | error f => exact Ends.error fun out => out
  | ok result =>
      obtain ⟨tradeEngine, sent⟩ := result
      obtain ⟨bid, ask, isBid, isAsk, rfl, rfl⟩ := TradeEngine.moveOrders_eq_ok moved
      have sent : ∀ r ∈ s.clientRequests client ++ (bid.2 ++ ask.2), r.clientId = client.val := by
        intro r mem
        rcases List.mem_append.mp mem with before | now
        · exact ids.requests client r before
        · rw [← ids.own client]
          rcases List.mem_append.mp now with bids | asks
          · rw [← isBid] at bids
            exact moveOrder_clientId _ _ _ _ _ _ _ r bids
          · rw [← isAsk] at asks
            exact moveOrder_clientId _ _ _ _ _ _ _ r asks
      refine Ends.ok ⟨?_, ?_, ids.books, ids.updates, ids.synthesizer, ids.clientBooks⟩
      · exact (Function.forall_update_iff s.tradeEngine fun c t => t.clientId = c.val).mpr
          ⟨ids.own client, fun c _ => ids.own c⟩
      · exact (Function.forall_update_iff s.clientRequests
          fun c rs => ∀ r ∈ rs, r.clientId = c.val).mpr ⟨sent, fun c _ => ids.requests c⟩

/-- A request whose ids have places, as the matching engine handles it. -/
theorem IdsInRange.ends_serve (ids : s.IdsInRange) {r : MEClientRequest}
    (client : r.clientId < ME_MAX_NUM_CLIENTS)
    (isNew : r.type = .NEW →
      Ledger.FilledOnArrival (s.matchingEngine.tickerOrderBook r.tickerId) r ∨
        r.orderId < ME_MAX_ORDER_IDS ∧
        (s.matchingEngine.tickerOrderBook r.tickerId).nextMarketOrderId < ME_MAX_ORDER_IDS)
    (isCancel : r.type = .CANCEL → r.orderId < ME_MAX_ORDER_IDS) :
    Ends (fun f => ¬ f.OutOfIds) (s.serve r) fun result => result.1.IdsInRange := by
  unfold serve
  split
  · rename_i known
    have inside : Ledger.Indexes (s.matchingEngine.tickerOrderBook r.tickerId) r := by
      unfold Ledger.Indexes
      cases kind : r.type with
      | NEW =>
          rcases isNew kind with filled | ⟨order, -⟩
          · exact .inr filled
          · exact .inl ⟨client, order⟩
      | CANCEL => exact fun _ => isCancel kind
      | INVALID => trivial
    have ends := MEOrderBook.ends_processClientRequest (r := r) (fun key has => has.1)
      (ids.books r.tickerId) fun kind inTable notFilled => by
        rcases isNew kind with filled | ⟨-, next⟩
        · exact absurd filled notFilled
        · exact ⟨⟨_, meSlot_eq_ok.mpr ⟨inTable.1, inTable.2, rfl⟩⟩, next⟩
    simp only [MatchingEngine.processClientRequest, if_pos known]
    cases processed : (s.matchingEngine.tickerOrderBook r.tickerId).processClientRequest r with
    | error f =>
        rw [processed] at ends
        refine Ends.error fun out => ?_
        rcases (ends : f.Elsewhere ∨ _) with elsewhere | outside
        · exact out elsewhere
        · exact outside inside
    | ok result =>
        obtain ⟨book, out⟩ := result
        rw [processed] at ends
        obtain ⟨keys, told⟩ := ends
        have tickers := MEOrderBook.processClientRequest_tickerId processed
        refine Ends.ok ⟨ids.own, ids.requests, ?_, fun u mem => ?_, ids.synthesizer,
          ids.clientBooks⟩
        · exact (Function.forall_update_iff s.matchingEngine.tickerOrderBook
            fun _ book => book.Keys fun key =>
              (∃ slot, meSlot key.clientId key.clientOrderId = .ok slot) ∧
                key.marketOrderId < ME_MAX_ORDER_IDS).mpr ⟨keys, fun t _ => ids.books t⟩
        · rcases List.mem_append.mp mem with before | now
          · exact ids.updates u before
          · obtain ⟨m, sent, isUpdate⟩ := List.mem_filterMap.mp now
            obtain rfl : m = .update u := by
              cases m with
              | response x => cases isUpdate
              | update v =>
                  cases isUpdate
                  rfl
            have ticker : u.tickerId = r.tickerId := tickers _ sent
            refine ⟨by rw [ticker]; exact known, fun looked => ?_⟩
            rcases told u sent with trade | ⟨key, has, id⟩
            · rw [trade] at looked
              rcases looked with add | modify | cancel
              · cases add
              · cases modify
              · cases cancel
            · rw [id]
              exact has.2
  · exact Ends.error fun out => out

theorem IdsInRange.ends_handOn (ids : s.IdsInRange) (client : Client) {u : MEMarketUpdate}
    (inTables : u.InTables) :
    Ends (fun f => ¬ f.OutOfIds) (s.handOn client u) fun result => result.1.IdsInRange := by
  unfold handOn
  rw [if_pos inTables.ticker]
  have ends := MarketOrderBook.ends_onMarketUpdate (ids.clientBooks client u.tickerId) inTables
  cases updated : (s.marketOrderBook client u.tickerId).onMarketUpdate u with
  | error f =>
      rw [updated] at ends
      exact Ends.error fun out => out ends
  | ok result =>
      rw [updated] at ends
      refine Ends.ok ⟨ids.own, ids.requests, ids.books, ids.updates, ids.synthesizer, ?_⟩
      refine (Function.forall_update_iff s.marketOrderBook
        fun _ books => ∀ t, MarketOrderBook.HasIds (books t).toLevelBook).mpr
          ⟨?_, fun c _ => ids.clientBooks c⟩
      exact (Function.forall_update_iff (s.marketOrderBook client)
        fun _ book => MarketOrderBook.HasIds book.toLevelBook).mpr
          ⟨ends, fun t _ => ids.clientBooks client t⟩

/-- The events of a snapshot have ids with places. -/
theorem IdsInRange.snapshot (ids : s.IdsInRange) :
    ∀ u ∈ s.snapshotSynthesizer.cycle.events, u.InTables := by
  intro u mem
  obtain ⟨tickerId, inRange, mem⟩ := List.mem_flatMap.mp mem
  rcases List.mem_cons.mp mem with rfl | order
  · refine ⟨List.mem_range.mp inRange, fun looked => ?_⟩
    rcases looked with add | modify | cancel
    · cases add
    · cases modify
    · cases cancel
  · simp only [SnapshotSynthesizer.cycle, List.mem_filterMap] at order
    obtain ⟨orderId, -, stored⟩ := order
    obtain ⟨p, entry, rfl⟩ := Option.map_eq_some_iff.mp stored
    obtain ⟨ticker, id⟩ := ids.synthesizer tickerId orderId p entry
    exact ⟨ticker, fun _ => id⟩

/-- One event. -/
theorem IdsInRange.ends_step (ids : s.IdsInRange) {event : VenueEvent}
    (inSpace : s.InIdSpace event) :
    Ends (fun f => ¬ f.OutOfIds) (step s event) fun result => result.1.IdsInRange := by
  cases event with
  | moveOrders client tickerId bidPrice askPrice clip lossTooLarge =>
      exact ids.ends_moveOrders client tickerId bidPrice askPrice clip lossTooLarge
  | processClientRequest client =>
      unfold step
      simp only
      cases shape : s.clientRequests client with
      | nil => exact Ends.ok ids
      | cons r rest =>
          obtain ⟨isNew, isCancel⟩ := inSpace r (by rw [shape]; rfl)
          have own := ids.requests client r (by rw [shape]; exact List.mem_cons_self)
          have known : r.clientId < ME_MAX_NUM_CLIENTS := by
            rw [own]
            exact client.isLt
          have others : ∀ r' ∈ rest, r'.clientId = client.val := fun r' mem =>
            ids.requests client r' (by rw [shape]; exact List.mem_cons_of_mem r mem)
          have taken : IdsInRange
              { s with clientRequests := Function.update s.clientRequests client rest } := by
            refine ⟨ids.own, ?_, ids.books, ids.updates, ids.synthesizer, ids.clientBooks⟩
            exact (Function.forall_update_iff s.clientRequests
              fun c rs => ∀ r ∈ rs, r.clientId = c.val).mpr ⟨others, fun c _ => ids.requests c⟩
          exact taken.ends_serve known isNew isCancel
  | onOrderUpdate client =>
      unfold step
      simp only
      cases s.clientResponses client with
      | nil => exact Ends.ok ids
      | cons x rest =>
          simp only
          cases updated : (s.tradeEngine client).onOrderUpdate x with
          | error f => exact Ends.error fun out => out
          | ok tradeEngine =>
              have same : tradeEngine.clientId = client.val := by
                rw [TradeEngine.onOrderUpdate_eq_ok updated]
                exact ids.own client
              refine Ends.ok ⟨?_, ids.requests, ids.books, ids.updates, ids.synthesizer,
                ids.clientBooks⟩
              exact (Function.forall_update_iff s.tradeEngine
                fun c t => t.clientId = c.val).mpr ⟨same, fun c _ => ids.own c⟩
  | addToSnapshot =>
      unfold step
      simp only
      cases next : s.marketUpdates[s.synthesized]? with
      | none => exact Ends.ok ids
      | some u =>
          have inTables := ids.updates u (List.mem_of_getElem? next)
          have ends := ids.synthesizer.ends_addToSnapshot (m := ⟨s.synthesized + 1, u⟩) inTables
          simp only
          cases added : s.snapshotSynthesizer.addToSnapshot ⟨s.synthesized + 1, u⟩ with
          | error f =>
              rw [added] at ends
              exact Ends.error fun out => out ends
          | ok result =>
              rw [added] at ends
              exact Ends.ok ⟨ids.own, ids.requests, ids.books, ids.updates, ends, ids.clientBooks⟩
  | onMarketUpdate client index =>
      unfold step
      simp only
      cases next : s.marketUpdates[index]? with
      | none => exact Ends.ok ids
      | some u => exact ids.ends_handOn client (ids.updates u (List.mem_of_getElem? next))
  | onSnapshot client index =>
      unfold step
      simp only
      cases next : s.snapshotSynthesizer.cycle.events[index]? with
      | none => exact Ends.ok ids
      | some u => exact ids.ends_handOn client (ids.snapshot u (List.mem_of_getElem? next))

end Venue

/-- **The id space over whole sessions.** -/
theorem run_idSpace {riskCfg : Client → TickerId → RiskCfg} {tickerBasePrices : TickerId → Price}
    {clientBasePrices : Client → TickerId → Price} {events : List VenueEvent}
    (admits : Admits Venue.InIdSpace Venue.step
      (Venue.new riskCfg tickerBasePrices clientBasePrices) events) :
    ∀ f, run Venue.step (Venue.new riskCfg tickerBasePrices clientBasePrices) events = .error f →
      ¬ f.OutOfIds := by
  intro f failed
  have ends := Ends.run (P := Venue.IdsInRange) (fun ids inSpace => ids.ends_step inSpace)
    (Venue.IdsInRange.new riskCfg tickerBasePrices clientBasePrices) admits
  exact ends.of_error failed

/-- Both ids of the next request are below the size of the tables. -/
def Venue.BelowIds (s : Venue) : VenueEvent → Prop
  | .processClientRequest client => ∀ r ∈ (s.clientRequests client).head?,
    r.orderId < ME_MAX_ORDER_IDS ∧
      (s.matchingEngine.tickerOrderBook r.tickerId).nextMarketOrderId < ME_MAX_ORDER_IDS
  | _ => True

instance (s : Venue) : DecidablePred s.BelowIds
  | .processClientRequest client => inferInstanceAs (Decidable
      (∀ r ∈ (s.clientRequests client).head?, r.orderId < ME_MAX_ORDER_IDS ∧
        (s.matchingEngine.tickerOrderBook r.tickerId).nextMarketOrderId < ME_MAX_ORDER_IDS))
  | .moveOrders .. | .onOrderUpdate _ | .addToSnapshot | .onMarketUpdate .. | .onSnapshot .. =>
    isTrue trivial

theorem Venue.BelowIds.inIdSpace {s : Venue} {event : VenueEvent} (below : s.BelowIds event) :
    s.InIdSpace event := by
  cases event with
  | processClientRequest client =>
      intro r mem
      obtain ⟨order, next⟩ := below r mem
      exact ⟨fun _ => .inr ⟨order, next⟩, fun _ => order⟩
  | moveOrders client tickerId bidPrice askPrice clip lossTooLarge => trivial
  | onOrderUpdate client => trivial
  | addToSnapshot => trivial
  | onMarketUpdate client index => trivial
  | onSnapshot client index => trivial

def firstClient : Client := ⟨0, by decide⟩

/-- The client may have one order of quantity 1. -/
def oneOrder : Client → TickerId → RiskCfg :=
  fun _ _ => { maxOrderSize := 1, maxPosition := 1 }

/-- An order is placed, accepted, pulled and cancelled. -/
def turn : List VenueEvent :=
  [.moveOrders firstClient 0 100 Price_INVALID 1 false, .processClientRequest firstClient,
    .onOrderUpdate firstClient, .moveOrders firstClient 0 Price_INVALID Price_INVALID 1 false,
    .processClientRequest firstClient, .onOrderUpdate firstClient]

/-- A client's book misses the ADD of an order that is cancelled. -/
theorem run_idSpace_missed :
    ∃ f, run Venue.step (Venue.new oneOrder (fun _ => 100) fun _ _ => 100)
        (turn ++ [.addToSnapshot, .addToSnapshot, .onMarketUpdate firstClient 1]) = .error f ∧
      ¬ f.OutOfIds := by
  have admits : Admits Venue.BelowIds Venue.step
      (Venue.new oneOrder (fun _ => 100) fun _ _ => 100)
      (turn ++ [.addToSnapshot, .addToSnapshot, .onMarketUpdate firstClient 1]) := by
    decide +kernel
  have inSpace := admits.imp Venue.BelowIds.inIdSpace
  have stops : (run Venue.step (Venue.new oneOrder (fun _ => 100) fun _ _ => 100)
      (turn ++ [.addToSnapshot, .addToSnapshot, .onMarketUpdate firstClient 1])).toOption.isNone =
        true := by
    decide +kernel
  cases ran : run Venue.step (Venue.new oneOrder (fun _ => 100) fun _ _ => 100)
      (turn ++ [.addToSnapshot, .addToSnapshot, .onMarketUpdate firstClient 1]) with
  | error f => exact ⟨f, rfl, run_idSpace inSpace f ran⟩
  | ok result =>
      rw [ran] at stops
      cases stops

/-! ## One order after the other

A client has one bid at a time: it is accepted, cancelled, and replaced when that is confirmed.
No order is live in between. -/

def turnover : Nat → List VenueEvent
  | 0 => []
  | k + 1 => turnover k ++ turn

/-- The bid of turn `n`. -/
def turnOrder (n : Nat) (orderState : OMOrderState) : OMOrder :=
  { tickerId := 0, orderId := n, side := .BUY, price := 100, qty := 1, orderState }

def turnRequest (n : Nat) (type : ClientRequestType) : MEClientRequest :=
  { type, clientId := 0, tickerId := 0, orderId := n, side := .BUY, price := 100, qty := 1 }

/-- The bid of turn `n` in the book. -/
def turnResting (n : Nat) : MEResting :=
  { key := { tickerId := 0, clientId := 0, clientOrderId := n, marketOrderId := n % 2 ^ 64 }
    price := 100, qty := 1, priority := 1 }

/-- Where a turn stands: the bid, the next order id, the messages on their way and the book. -/
structure Venue.Stands (s : Venue) (bid : OMOrder) (next : OrderId)
    (requests : List MEClientRequest) (responses : List MEClientResponse) (ref : RefBook) :
    Prop where
  client : (s.tradeEngine firstClient).clientId = 0
  allowed : (s.tradeEngine firstClient).checkPreTradeRisk 0 false .BUY 1 = .ALLOWED
  bid : (s.tradeEngine firstClient).orderManager.tickerSideOrder 0 .BUY = bid
  ask : ((s.tradeEngine firstClient).orderManager.tickerSideOrder 0 .SELL).orderState = .INVALID
  next : (s.tradeEngine firstClient).orderManager.nextOrderId = next
  requests : s.clientRequests firstClient = requests
  responses : s.clientResponses firstClient = responses
  book : Refines 100 True (s.matchingEngine.tickerOrderBook 0) ref

namespace Venue

variable {s : Venue} {bid : OMOrder} {next n : Nat} {ref : RefBook}

/-- A move of a free ask slot to no price does nothing. -/
theorem moveOrder_no_ask (s : OrderManager) (clientId : ClientId)
    (check : Side → Qty → RiskCheckResult)
    (idle : (s.tickerSideOrder 0 .SELL).orderState = .INVALID) :
    s.moveOrder clientId 0 .SELL check Price_INVALID 1 = (s, []) := by
  unfold OrderManager.moveOrder
  rw [idle]
  simp

/-- What a move of the first client leaves. -/
theorem Stands.moved (stands : s.Stands bid next [] [] ref) {orderManager : OrderManager}
    {sent : List MEClientRequest} {bid' : OMOrder} {next' : Nat} {bidPrice : Price}
    (moves : (s.tradeEngine firstClient).orderManager.moveOrder 0 0 .BUY
      ((s.tradeEngine firstClient).checkPreTradeRisk 0 false) bidPrice 1 = (orderManager, sent))
    (bid : orderManager.tickerSideOrder 0 .BUY = bid')
    (ask : (orderManager.tickerSideOrder 0 .SELL).orderState = .INVALID)
    (count : orderManager.nextOrderId = next') :
    ∃ t, step s (.moveOrders firstClient 0 bidPrice Price_INVALID 1 false) = .ok (t, []) ∧
      t.Stands bid' next' sent [] ref := by
  have moved : (s.tradeEngine firstClient).moveOrders 0 bidPrice Price_INVALID 1 false =
      .ok ({ s.tradeEngine firstClient with clientId := 0, orderManager }, sent) := by
    unfold TradeEngine.moveOrders OrderManager.moveOrders
    rw [if_pos (by decide : 0 < ME_MAX_TICKERS), stands.client, moves]
    simp only [moveOrder_no_ask orderManager 0 _ ask, List.append_nil]
    rfl
  refine ⟨_, by unfold step; simp only [moved]; rfl, ?_⟩
  constructor
  · simp only [Function.update_self]
  · simp only [Function.update_self]
    exact stands.allowed
  · simp only [Function.update_self]
    exact bid
  · simp only [Function.update_self]
    exact ask
  · simp only [Function.update_self]
    exact count
  · simp only [Function.update_self, stands.requests, List.nil_append]
  · exact stands.responses
  · exact stands.book

/-- A bid is placed in the free slot. -/
theorem Stands.place (stands : s.Stands bid (n + 1) [] [] ref)
    (free : bid.orderState = .INVALID ∨ bid.orderState = .DEAD) (small : n + 2 < 2 ^ 64) :
    ∃ t, step s (.moveOrders firstClient 0 100 Price_INVALID 1 false) = .ok (t, []) ∧
      t.Stands (turnOrder (n + 1) .PENDING_NEW) (n + 2) [turnRequest (n + 1) .NEW] [] ref := by
  have moves : (s.tradeEngine firstClient).orderManager.moveOrder 0 0 .BUY
      ((s.tradeEngine firstClient).checkPreTradeRisk 0 false) 100 1 =
        (s.tradeEngine firstClient).orderManager.newOrder 0 0 .BUY 100 1 := by
    unfold OrderManager.moveOrder
    rw [stands.bid]
    have priced : (100 : Price) ≠ Price_INVALID := by decide
    rcases free with never | dead
    · simp only [never, if_pos priced, if_pos stands.allowed]
    · simp only [dead, if_pos priced, if_pos stands.allowed]
  have order : (s.tradeEngine firstClient).orderManager.pendingNew 0 .BUY 100 1 =
      turnOrder (n + 1) .PENDING_NEW := by
    rw [OrderManager.pendingNew, stands.next]
    rfl
  have apart : ¬ ((0 : TickerId) = 0 ∧ Side.SELL = Side.BUY) := by decide
  unfold OrderManager.newOrder at moves
  simp only [order] at moves
  refine stands.moved moves ?_ ?_ ?_
  · show ((s.tradeEngine firstClient).orderManager.setOrder 0 .BUY _).tickerSideOrder 0 .BUY = _
    exact OrderManager.setOrder_self _
  · show (((s.tradeEngine firstClient).orderManager.setOrder 0 .BUY
      (turnOrder (n + 1) .PENDING_NEW)).tickerSideOrder 0 .SELL).orderState = .INVALID
    rw [OrderManager.setOrder_of_ne _ apart]
    exact stands.ask
  · show ((s.tradeEngine firstClient).orderManager.nextOrderId + 1) % 2 ^ 64 = n + 2
    rw [stands.next]
    exact Nat.mod_eq_of_lt small

/-- The live bid is pulled. -/
theorem Stands.pull (stands : s.Stands (turnOrder n .LIVE) next [] [] ref) :
    ∃ t, step s (.moveOrders firstClient 0 Price_INVALID Price_INVALID 1 false) = .ok (t, []) ∧
      t.Stands (turnOrder n .PENDING_CANCEL) next [turnRequest n .CANCEL] [] ref := by
  have moves : (s.tradeEngine firstClient).orderManager.moveOrder 0 0 .BUY
      ((s.tradeEngine firstClient).checkPreTradeRisk 0 false) Price_INVALID 1 =
        (s.tradeEngine firstClient).orderManager.cancelOrder 0 0 .BUY := by
    unfold OrderManager.moveOrder
    rw [stands.bid]
    exact if_pos (by decide : (100 : Price) ≠ Price_INVALID)
  have apart : ¬ ((0 : TickerId) = 0 ∧ Side.SELL = Side.BUY) := by decide
  unfold OrderManager.cancelOrder at moves
  simp only [stands.bid] at moves
  refine stands.moved moves (OrderManager.setOrder_self _) ?_ stands.next
  rw [OrderManager.setOrder_of_ne _ apart]
  exact stands.ask

/-- The matching engine handles the request of the turn. -/
theorem Stands.process {r : MEClientRequest} {responded : List MEClientResponse}
    (stands : s.Stands bid next [r] [] ref) (ticker : r.tickerId = 0)
    (wellBehaved : WellBehaved 100 .machine ref r)
    (answers :
      (NanoTrade.responses (ref.step .machine r).2).filter (fun x => x.clientId = 0) = responded) :
    ∃ t out, step s (.processClientRequest firstClient) = .ok (t, out) ∧
      t.Stands bid next [] responded (ref.step .machine r).1 := by
  obtain ⟨book, processed, refines⟩ := stands.book.step wellBehaved
  have served : s.matchingEngine.processClientRequest r =
      .ok (⟨Function.update s.matchingEngine.tickerOrderBook 0 book⟩,
        (ref.step .machine r).2) := by
    refine MatchingEngine.processClientRequest_eq_ok.mpr ⟨by rw [ticker]; decide, book, ?_⟩
    rw [ticker]
    exact ⟨processed, rfl⟩
  refine ⟨_, _, by
    unfold step serve
    simp only [stands.requests, served, ticker, if_pos (by decide : 0 < ME_MAX_TICKERS)]
    rfl, ?_⟩
  constructor
  · exact stands.client
  · exact stands.allowed
  · exact stands.bid
  · exact stands.ask
  · exact stands.next
  · simp only [Function.update_self]
  · simp only [stands.responses, List.nil_append]
    exact answers
  · simp only [Function.update_self]
    exact refines

/-- The client reads the response of the turn. -/
theorem Stands.deliver {x : MEClientResponse} {state : OMOrderState}
    (stands : s.Stands (turnOrder n state) next [] [x] ref) (ticker : x.tickerId = 0)
    (side : x.side = .BUY) (noFill : x.type ≠ .FILLED) :
    ∃ t, step s (.onOrderUpdate firstClient) = .ok (t, []) ∧
      t.Stands (OrderManager.updated x (turnOrder n state)) next [] [] ref := by
  have updates : (s.tradeEngine firstClient).onOrderUpdate x =
      .ok { s.tradeEngine firstClient with
        orderManager := (s.tradeEngine firstClient).orderManager.setOrder 0 .BUY
          (OrderManager.updated x (turnOrder n state)) } := by
    unfold TradeEngine.onOrderUpdate OrderManager.onOrderUpdate
    rw [if_neg noFill]
    simp only [pure_bind, ticker, side, stands.bid, if_pos (by decide : 0 < ME_MAX_TICKERS)]
    rfl
  have apart : ¬ ((0 : TickerId) = 0 ∧ Side.SELL = Side.BUY) := by decide
  refine ⟨_, by unfold step; simp only [stands.responses, updates]; rfl, ?_⟩
  constructor
  · simp only [Function.update_self]
    exact stands.client
  · simp only [Function.update_self]
    exact stands.allowed
  · simp only [Function.update_self]
    exact OrderManager.setOrder_self _
  · simp only [Function.update_self]
    rw [OrderManager.setOrder_of_ne _ apart]
    exact stands.ask
  · simp only [Function.update_self]
    exact stands.next
  · exact stands.requests
  · simp only [Function.update_self]
  · exact stands.book

/-! ### The book of a turn -/

theorem turn_new (n : Nat) :
    ((bids [] n).step .machine (turnRequest n .NEW)).1 = bids [turnResting n] (n + 1) := by
  have later : (n % 2 ^ 64 + 1) % 2 ^ 64 = (n + 1) % 2 ^ 64 := Nat.mod_add_mod ..
  have matched : RefBook.matched .machine (bids [] n) .bid (turnRequest n .NEW) = ([], 1, []) := rfl
  have order : RefBook.remainder .machine (bids [] n) .bid (turnRequest n .NEW) 1 =
      turnResting n := rfl
  rw [RefBook.step_new rfl (show (turnRequest n .NEW).side = BookSide.bid.toSide from rfl),
    RefBook.add, matched]
  simp only [Nat.one_ne_zero, if_false, order]
  rw [bids, RefBook.mk.injEq]
  refine ⟨?_, later⟩
  funext side
  cases side with
  | bid => rfl
  | ask => rfl

theorem turn_cancel (n : Nat) :
    ((bids [turnResting n] (n + 1)).step .machine (turnRequest n .CANCEL)).1 = bids [] (n + 1) := by
  have own : RefBook.Addresses (turnRequest n .CANCEL).clientId (turnRequest n .CANCEL).orderId
      (turnResting n) := ⟨rfl, rfl⟩
  have found : (bids [turnResting n] (n + 1)).addressed .bid (turnRequest n .CANCEL) =
      some (turnResting n) := List.find?_cons_of_pos (decide_eq_true own)
  rw [RefBook.step_cancel rfl, RefBook.cancel, found, RefBook.withdraw, bids, bids,
    RefBook.mk.injEq]
  refine ⟨?_, rfl⟩
  funext side
  cases side with
  | bid => simp [own]
  | ask => rfl

theorem turn_new_wellBehaved {n : Nat} (small : n < ME_MAX_ORDER_IDS) :
    WellBehaved 100 .machine (bids [] n) (turnRequest n .NEW) := by
  refine ⟨(by decide : 0 < ME_MAX_NUM_CLIENTS), small,
    .inr ⟨rfl, .inl ⟨rfl, (by decide : InWindow 100 100), ?_, ?_⟩⟩⟩
  · intro side o mem
    cases side with
    | bid => cases mem
    | ask => cases mem
  · rw [← RefBook.step_new rfl (show (turnRequest n .NEW).side = BookSide.bid.toSide from rfl),
      turn_new]
    exact (by decide : 1 < ME_MAX_ORDER_IDS)

theorem turn_cancel_wellBehaved {n : Nat} (small : n < ME_MAX_ORDER_IDS) :
    WellBehaved 100 .machine (bids [turnResting n] (n + 1)) (turnRequest n .CANCEL) :=
  ⟨(by decide : 0 < ME_MAX_NUM_CLIENTS), small, .inl rfl⟩

theorem turn_accepted (n : Nat) : ∃ x : MEClientResponse,
    (responses ((bids [] n).step .machine (turnRequest n .NEW)).2).filter
      (fun x => x.clientId = 0) = [x] ∧
    x.type = .ACCEPTED ∧ x.tickerId = 0 ∧ x.side = .BUY :=
  ⟨_, rfl, rfl, rfl, rfl⟩

theorem turn_canceled (n : Nat) : ∃ x : MEClientResponse,
    (responses ((bids [turnResting n] (n + 1)).step .machine (turnRequest n .CANCEL)).2).filter
      (fun x => x.clientId = 0) = [x] ∧
    x.type = .CANCELED ∧ x.tickerId = 0 ∧ x.side = .BUY := by
  have own : RefBook.Addresses (turnRequest n .CANCEL).clientId (turnRequest n .CANCEL).orderId
      (turnResting n) := ⟨rfl, rfl⟩
  have found : (bids [turnResting n] (n + 1)).addressed .bid (turnRequest n .CANCEL) =
      some (turnResting n) := List.find?_cons_of_pos (decide_eq_true own)
  rw [RefBook.step_cancel rfl, RefBook.cancel, found]
  exact ⟨_, rfl, rfl, rfl, rfl⟩

/-- Between two turns nothing is live and nothing is on its way. -/
def Rests (n : Nat) (s : Venue) : Prop :=
  ∃ bid, (bid.orderState = .INVALID ∨ bid.orderState = .DEAD) ∧
    s.Stands bid (n + 1) [] [] (bids [] (n + 1))

theorem rests_new (clientBasePrices : Client → TickerId → Price) :
    Rests 0 (new oneOrder (fun _ => 100) clientBasePrices) := by
  have allowed : RiskCfg.checkPreTradeRisk ⟨1, 1⟩ {} false .BUY 1 = .ALLOWED := by decide
  refine ⟨{}, .inl rfl, rfl, allowed, rfl, rfl, rfl, rfl, rfl, ?_⟩
  have start : bids [] 1 = RefBook.new := by
    rw [bids, RefBook.new, RefBook.mk.injEq]
    refine ⟨?_, rfl⟩
    funext side
    cases side with
    | bid => rfl
    | ask => rfl
  rw [start]
  exact Refines.new 100 True

/-- One turn uses up an id. -/
theorem Rests.turn (rests : Rests n s) (small : n + 1 < ME_MAX_ORDER_IDS) :
    ∃ t out, NanoTrade.run step s turn = .ok (t, out) ∧ Rests (n + 1) t := by
  have wide : ME_MAX_ORDER_IDS < 2 ^ 64 := by decide
  obtain ⟨bid, free, stands⟩ := rests
  obtain ⟨a, placed, stands⟩ := stands.place free (by lia)
  obtain ⟨x, accepted, isAccepted, ticker, side⟩ := turn_accepted (n + 1)
  obtain ⟨b, outB, processed, stands⟩ := stands.process rfl (turn_new_wellBehaved small) accepted
  rw [turn_new] at stands
  obtain ⟨c, delivered, stands⟩ := stands.deliver ticker side (by rw [isAccepted]; decide)
  have live : OrderManager.updated x (turnOrder (n + 1) .PENDING_NEW) = turnOrder (n + 1) .LIVE := by
    rw [OrderManager.updated, isAccepted]
    rfl
  rw [live] at stands
  obtain ⟨d, pulled, stands⟩ := stands.pull
  obtain ⟨y, canceled, isCanceled, ticker', side'⟩ := turn_canceled (n + 1)
  obtain ⟨e, outE, handled, stands⟩ :=
    stands.process rfl (turn_cancel_wellBehaved small) canceled
  rw [turn_cancel] at stands
  obtain ⟨f, confirmed, stands⟩ := stands.deliver ticker' side' (by rw [isCanceled]; decide)
  have cancels := run_cons_eq_ok pulled (run_cons_eq_ok handled (run_singleton.trans confirmed))
  refine ⟨f, _, run_cons_eq_ok placed (run_cons_eq_ok processed
    (run_cons_eq_ok delivered cancels)), ?_⟩
  refine ⟨_, .inr ?_, stands⟩
  rw [OrderManager.updated, isCanceled]

theorem turnover_run {s : Venue} (rests : Rests 0 s) {k : Nat} (small : k < ME_MAX_ORDER_IDS) :
    ∃ t out, NanoTrade.run step s (turnover k) = .ok (t, out) ∧ Rests k t := by
  induction k with
  | zero => exact ⟨s, [], rfl, rests⟩
  | succ k ih =>
      obtain ⟨t, out, ran, restsT⟩ := ih (by lia)
      obtain ⟨u, now, turned, restsU⟩ := restsT.turn small
      exact ⟨u, out ++ now, run_append.mpr ⟨t, out, now, ran, turned, rfl⟩, restsU⟩

/-- The order with the first id that the table has no place for. -/
theorem Stands.process_fault (stands : s.Stands bid next [turnRequest n .NEW] [] (bids [] n))
    (large : ME_MAX_ORDER_IDS ≤ n) :
    ∃ i, step s (.processClientRequest firstClient) =
      .error (.matchingEngine (.outOfRange i)) := by
  have matched : RefBook.matched .machine (bids [] n) .bid (turnRequest n .NEW) = ([], 1, []) := rfl
  have bid : (turnRequest n .NEW).side = BookSide.bid.toSide := rfl
  obtain ⟨i, stopped⟩ := stands.book.add_unslotted bid
    (by rw [matched]; decide) (by decide : InWindow 100 100)
    (by rw [matched]; exact (by decide : 0 + 0 + 1 < ME_MAX_ORDER_IDS))
    fun inside => absurd inside.2 (Nat.not_lt.mpr large)
  have processed : (s.matchingEngine.tickerOrderBook 0).processClientRequest (turnRequest n .NEW) =
      .error (.outOfRange i) := stopped
  refine ⟨i, ?_⟩
  unfold step serve
  simp only [stands.requests]
  have ticker : (turnRequest n .NEW).tickerId = 0 := rfl
  simp only [ticker, MatchingEngine.processClientRequest, if_pos (by decide : 0 < ME_MAX_TICKERS),
    processed, bind, Except.bind]

end Venue

/-- The id space runs out with the `2 ^ 20`-th order of a client, with one order live at a
time. -/
theorem not_idSpace_turnover :
    ¬ ∀ (riskCfg : Client → TickerId → RiskCfg) (tickerBasePrices : TickerId → Price)
      (clientBasePrices : Client → TickerId → Price) (events : List VenueEvent) (f : VenueFault),
      run Venue.step (Venue.new riskCfg tickerBasePrices clientBasePrices) events = .error f →
      ¬ f.OutOfIds := by
  intro always
  obtain ⟨k, last⟩ : ∃ k, k + 1 = ME_MAX_ORDER_IDS := ⟨ME_MAX_ORDER_IDS - 1, by decide⟩
  have wide : ME_MAX_ORDER_IDS < 2 ^ 32 := by decide
  obtain ⟨s, out, ran, bid, free, stands⟩ :=
    Venue.turnover_run (Venue.rests_new fun _ _ => 100) (k := k) (by lia)
  obtain ⟨t, placed, stands⟩ := stands.place free (by lia)
  obtain ⟨i, stopped⟩ := stands.process_fault (by lia)
  have fault : run Venue.step s
      [.moveOrders firstClient 0 100 Price_INVALID 1 false, .processClientRequest firstClient] =
        .error (.matchingEngine (.outOfRange i)) := by
    rw [run, placed]
    show (run Venue.step t [.processClientRequest firstClient] >>= _) = _
    rw [run, stopped]
    rfl
  exact always _ _ _ _ _ (run_append_fault ran fault) fun elsewhere => elsewhere i rfl

end NanoTrade
