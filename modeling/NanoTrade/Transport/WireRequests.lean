import NanoTrade.Exchange.Ledger
import NanoTrade.Exchange.MEOrderBook
import NanoTrade.Transport.Serving

/-!
# What a client can put on the wire

The way of a request through the exchange: `OrderServer` reads it from a socket, the sequencer
publishes it, the matching engine passes it to the book of its ticker. Every field is as the
client wrote it. `recvCallback` subscripts its arrays with the client id and checks nothing,
`processClientRequest` does so with the ticker id, and of the ids of an order `cancel` checks
the client id only.

* `run_inBounds`: over requests with a known client, a ticker and, wherever one is looked up or
  comes to rest, an order id of the table, nothing is subscripted out of range, and a CANCEL of
  an unknown order is rejected.
* `not_inBounds_cancel`: one record ends the process.
-/

namespace NanoTrade

/-- How a part of the exchange ends the process. -/
inductive ExchangeFault
  | transport (f : TransportFault)
  | matching (f : Fault)
  deriving DecidableEq

/-- A subscript outside its array. -/
def ExchangeFault.OutOfRange : ExchangeFault → Prop
  | .transport f => ∃ i, f = .outOfRange i
  | .matching f => ∃ i, f = .outOfRange i

/-- The order server, `incoming_requests_` and the matching engine. -/
structure RequestPath where
  server : OrderServer
  incomingRequests : List MEClientRequest
  engine : MatchingEngine

/-- What the threads do next. -/
inductive WireEvent
  /-- A socket is polled: `read` has come on it. -/
  | sendAndRecv (socket : SocketId) (read : List UInt8) (kernelTime : Nanos) (n : Int)
  /-- All sockets were polled. -/
  | recvFinished
  /-- The matching engine reads a request. -/
  | processClientRequest
  deriving DecidableEq

namespace RequestPath

def new (tickerBasePrices : TickerId → Price) : RequestPath :=
  { server := .new, incomingRequests := [], engine := .new tickerBasePrices }

section Step

variable (sort : List RecvTimeClientRequest → List RecvTimeClientRequest)

/-- One event, with what the matching engine sends. `sort` stands for `std::sort`. -/
def step (s : RequestPath) : WireEvent → Except ExchangeFault (RequestPath × List MEMessage)
  | .sendAndRecv socket read kernelTime n =>
    match s.server.sendAndRecv socket read kernelTime n with
    | .error f => .error (.transport f)
    | .ok (server, _, _) => .ok ({ s with server }, [])
  | .recvFinished =>
    let published := sort s.server.fifoSequencer.pendingClientRequests
    .ok ({ s with
      server := s.server.recvFinishedCallback
      incomingRequests := s.incomingRequests ++ published.map RecvTimeClientRequest.request }, [])
  | .processClientRequest =>
    match s.incomingRequests with
    | [] => .ok (s, [])
    | r :: rest =>
      match s.engine.processClientRequest r with
      | .error f => .error (.matching f)
      | .ok (engine, messages) => .ok ({ s with engine, incomingRequests := rest }, messages)

end Step

/-- The records that a poll finds in the receive buffer. -/
def decoded (s : RequestPath) (socket : SocketId) (read : List UInt8) : List OMClientRequest :=
  (frames Packed.omClientRequest.size
    ((s.server.receiveSockets socket).inboundData ++ read)).map Packed.omClientRequest.unpack

/-- Every subscript that the event computes has its element: the client ids of the records that
arrive, the ticker id of the next request, and its order id unless its type is invalid or it is a
NEW of which nothing comes to rest. -/
def Indexed (s : RequestPath) : WireEvent → Prop
  | .sendAndRecv socket read _ _ =>
    ∀ m ∈ s.decoded socket read, m.meClientRequest.clientId < ME_MAX_NUM_CLIENTS
  | .recvFinished => True
  | .processClientRequest => ∀ r ∈ s.incomingRequests.head?,
    r.tickerId < ME_MAX_TICKERS ∧ (r.orderId < ME_MAX_ORDER_IDS ∨ r.type = .INVALID ∨
      r.type = .NEW ∧ Ledger.FilledOnArrival (s.engine.tickerOrderBook r.tickerId) r)

end RequestPath

/-! ## The order server -/

namespace OrderServer

/-- The clients of the pending requests are known. -/
def PendingKnown (server : OrderServer) : Prop :=
  ∀ p ∈ server.fifoSequencer.pendingClientRequests, p.request.clientId < ME_MAX_NUM_CLIENTS

/-- A fault other than a subscript outside its array. -/
def Elsewhere (f : TransportFault) : Prop :=
  ∀ i, f ≠ .outOfRange i

variable {server : OrderServer} {socket : SocketId}

theorem ends_receive (known : server.PendingKnown) (rxTime : Nanos) {m : OMClientRequest}
    (client : m.meClientRequest.clientId < ME_MAX_NUM_CLIENTS) :
    Ends Elsewhere (receive socket rxTime server m) fun result => result.1.PendingKnown := by
  unfold receive
  simp only [if_pos client]
  generalize assigned : (if server.cidTcpSocket m.meClientRequest.clientId = none then
    { server with
        cidTcpSocket := Function.update server.cidTcpSocket m.meClientRequest.clientId
          (some socket) }
    else server) = server'
  have same : server'.fifoSequencer = server.fifoSequencer := by
    rw [← assigned]
    split
    · rfl
    · rfl
  have known' : server'.PendingKnown := by
    unfold PendingKnown
    rw [same]
    exact known
  split
  · exact Ends.ok known'
  · split
    · exact Ends.ok known'
    · unfold FIFOSequencer.addClientRequest
      split
      · exact Ends.error fun i => nofun
      · rename_i added
        split at added
        · cases added
        · cases added
          refine Ends.ok fun p mem => ?_
          rcases List.mem_append.mp mem with before | last
          · exact known' p before
          · rw [List.mem_singleton] at last
            rw [last]
            exact client

/-- A poll, whatever the rest of the records says. -/
theorem ends_sendAndRecv (known : server.PendingKnown) (read : List UInt8) (kernelTime : Nanos)
    (n : Int)
    (clients : ∀ m ∈ (frames Packed.omClientRequest.size
      ((server.receiveSockets socket).inboundData ++ read)).map Packed.omClientRequest.unpack,
      m.meClientRequest.clientId < ME_MAX_NUM_CLIENTS) :
    Ends Elsewhere (server.sendAndRecv socket read kernelTime n)
      fun result => result.1.PendingKnown := by
  unfold sendAndRecv
  rcases eq_or_ne read [] with rfl | nonempty
  · rw [TCPSocket.sendAndRecv_idle]
    exact Ends.ok known
  · have admits : Admits
        (fun _ m => m.meClientRequest.clientId < ME_MAX_NUM_CLIENTS)
        (receive socket kernelTime) server _ := admits_of_mem clients server
    have carried : ∀ {server : OrderServer} {m : OMClientRequest}, server.PendingKnown →
        m.meClientRequest.clientId < ME_MAX_NUM_CLIENTS →
        Ends Elsewhere (receive socket kernelTime server m) fun result => result.1.PendingKnown :=
      fun known client => ends_receive known kernelTime client
    have handled := Ends.run carried known admits
    have called := recvCallback_eq kernelTime server socket
      ((server.receiveSockets socket).inboundData ++ read)
    cases ran : NanoTrade.run (receive socket kernelTime) server
        ((frames Packed.omClientRequest.size
          ((server.receiveSockets socket).inboundData ++ read)).map
            Packed.omClientRequest.unpack) with
    | error f =>
        rw [ran] at called handled
        rw [TCPSocket.sendAndRecv_fault nonempty called]
        exact handled
    | ok result =>
        rw [ran] at called handled
        rw [TCPSocket.sendAndRecv_read nonempty called]
        exact handled

end OrderServer

/-! ## The order books -/

namespace MEOrderBook

/-- The ids of an order have a place in the id table. -/
def InIdTable (key : MEOrderKey) : Prop :=
  ∃ slot, meSlot key.clientId key.clientOrderId = .ok slot

variable {s : MEOrderBook} {r : MEClientRequest}

/-- A request for a book in any state that the requests before it have left. -/
theorem ends_indexed (keys : s.Keys InIdTable) (client : r.clientId < ME_MAX_NUM_CLIENTS)
    (indexed : r.orderId < ME_MAX_ORDER_IDS ∨ r.type = .INVALID ∨
      r.type = .NEW ∧ Ledger.FilledOnArrival s r) :
    Ends Fault.Elsewhere (s.processClientRequest r) fun result => result.1.Keys InIdTable := by
  have fresh : r.type = .NEW → Ledger.InTable r → ¬ Ledger.FilledOnArrival s r →
      InIdTable ⟨r.tickerId, r.clientId, r.orderId, s.nextMarketOrderId⟩ :=
    fun _ inTable _ => ⟨_, meSlot_eq_ok.mpr ⟨inTable.1, inTable.2, rfl⟩⟩
  have inside : Ledger.Indexes s r := by
    unfold Ledger.Indexes
    rcases indexed with order | invalid | ⟨isNew, filled⟩
    · cases r.type with
      | NEW => exact .inl ⟨client, order⟩
      | CANCEL => exact fun _ => order
      | INVALID => trivial
    · rw [invalid]
      trivial
    · rw [isNew]
      exact .inr filled
  have ends := ends_processClientRequest (fun _ known => known) keys fresh
  refine (ends.imp fun result holds => holds.1).weaken fun f fault => ?_
  rcases fault with elsewhere | outside
  · exact elsewhere
  · exact absurd inside outside

/-- A CANCEL of an unknown order is rejected. -/
theorem cancel_unknown (isCancel : r.type = .CANCEL) (client : r.clientId < ME_MAX_NUM_CLIENTS)
    (order : r.orderId < ME_MAX_ORDER_IDS)
    (unknown : s.oidToOrder (r.clientId, r.orderId) = none) :
    s.processClientRequest r =
      .ok (s, [rejectedResponse r.clientId r.orderId r.tickerId]) := by
  have slot : meSlot r.clientId r.orderId = .ok (r.clientId, r.orderId) :=
    meSlot_eq_ok.mpr ⟨client, order, rfl⟩
  unfold processClientRequest cancel
  simp only [isCancel, if_pos client, slot, bind, Except.bind, unknown]
  rfl

end MEOrderBook

/-! ## The whole path -/

namespace RequestPath

/-- What the checks before the books establish, and what the books keep. -/
structure Known (s : RequestPath) : Prop where
  pending : s.server.PendingKnown
  incoming : ∀ r ∈ s.incomingRequests, r.clientId < ME_MAX_NUM_CLIENTS
  books : ∀ ticker, (s.engine.tickerOrderBook ticker).Keys MEOrderBook.InIdTable

theorem Known.new (tickerBasePrices : TickerId → Price) : Known (new tickerBasePrices) :=
  ⟨fun _ mem => absurd mem List.not_mem_nil, fun _ mem => absurd mem List.not_mem_nil,
    fun _ => LevelBook.Leads.new ..⟩

variable {sort : List RecvTimeClientRequest → List RecvTimeClientRequest} {s : RequestPath}

/-- One event. -/
theorem Known.ends_step (known : s.Known)
    (sorts : ∀ pending, StdSort RecvTimeClientRequest.lt pending (sort pending)) {event : WireEvent}
    (indexed : s.Indexed event) :
    Ends (fun f => ¬ f.OutOfRange) (step sort s event) fun result => result.1.Known := by
  cases event with
  | sendAndRecv socket read kernelTime n =>
      have ends := OrderServer.ends_sendAndRecv known.pending read kernelTime n indexed
      unfold step
      simp only
      cases polled : s.server.sendAndRecv socket read kernelTime n with
      | error f =>
          rw [polled] at ends
          exact Ends.error fun ⟨i, outside⟩ => ends i outside
      | ok result =>
          rw [polled] at ends
          exact Ends.ok ⟨ends, known.incoming, known.books⟩
  | recvFinished =>
      refine Ends.ok ⟨fun p mem => absurd mem List.not_mem_nil, fun r mem => ?_, known.books⟩
      rcases List.mem_append.mp mem with before | published
      · exact known.incoming r before
      · obtain ⟨p, sorted, rfl⟩ := List.mem_map.mp published
        exact known.pending p ((sorts _).perm.mem_iff.mp sorted)
  | processClientRequest =>
      unfold step
      cases shape : s.incomingRequests with
      | nil => exact Ends.ok known
      | cons r rest =>
          have client := known.incoming r (by rw [shape]; exact List.mem_cons_self)
          obtain ⟨ticker, order⟩ := indexed r (by rw [shape]; rfl)
          have ends := MEOrderBook.ends_indexed (known.books r.tickerId) client order
          simp only [MatchingEngine.processClientRequest, if_pos ticker]
          cases processed : (s.engine.tickerOrderBook r.tickerId).processClientRequest r with
          | error f =>
              rw [processed] at ends
              exact Ends.error fun ⟨i, outside⟩ => ends i outside
          | ok result =>
              rw [processed] at ends
              refine Ends.ok ⟨known.pending, fun r' mem => known.incoming r' ?_, fun ticker' => ?_⟩
              · rw [shape]
                exact List.mem_cons_of_mem r mem
              · rcases eq_or_ne ticker' r.tickerId with rfl | ne
                · simp only [Function.update_self]
                  exact ends
                · simp only [Function.update_of_ne ne]
                  exact known.books ticker'

/-- The next event subscripts nothing out of range, and if it is a CANCEL of an unknown order,
this is rejected. -/
structure InBounds (sort : List RecvTimeClientRequest → List RecvTimeClientRequest)
    (s : RequestPath) (event : WireEvent) : Prop where
  inside : ∀ f, step sort s event = .error f → ¬ f.OutOfRange
  rejected : event = .processClientRequest → ∀ r rest, s.incomingRequests = r :: rest →
    r.type = .CANCEL →
    (s.engine.tickerOrderBook r.tickerId).oidToOrder (r.clientId, r.orderId) = none →
    step sort s event = .ok ({ s with incomingRequests := rest },
      [MEOrderBook.rejectedResponse r.clientId r.orderId r.tickerId])

theorem Known.inBounds (known : s.Known)
    (sorts : ∀ pending, StdSort RecvTimeClientRequest.lt pending (sort pending)) {event : WireEvent}
    (indexed : s.Indexed event) : s.InBounds sort event := by
  refine ⟨fun f failed => (known.ends_step sorts indexed).of_error failed, ?_⟩
  intro isProcess r rest shape isCancel unknown
  subst isProcess
  have client := known.incoming r (by rw [shape]; exact List.mem_cons_self)
  obtain ⟨ticker, order | other⟩ := indexed r (by rw [shape]; rfl)
  · have rejected := MEOrderBook.cancel_unknown isCancel client order unknown
    unfold step
    simp only [shape, MatchingEngine.processClientRequest, if_pos ticker, rejected, bind,
      Except.bind, pure, Except.pure, Function.update_eq_self]
  · rw [isCancel] at other
    simp at other

end RequestPath

open RequestPath in
/-- **No request leads out of range** in any run over requests whose ids are indices. -/
theorem run_inBounds {sort : List RecvTimeClientRequest → List RecvTimeClientRequest}
    (sorts : ∀ pending, StdSort RecvTimeClientRequest.lt pending (sort pending))
    {tickerBasePrices : TickerId → Price} {events : List WireEvent} {s : RequestPath}
    {out : List MEMessage}
    (admits : Admits Indexed (step sort) (RequestPath.new tickerBasePrices) events)
    (ran : run (step sort) (RequestPath.new tickerBasePrices) events = .ok (s, out))
    {event : WireEvent} (indexed : s.Indexed event) : s.InBounds sort event := by
  have known := admits_invariant (P := Known) (Known.new tickerBasePrices)
    (fun known indexed stepped => (known.ends_step sorts indexed).of_ok stepped) admits ran
  exact known.inBounds sorts indexed

/-! ## One record -/

/-- A client asks to cancel an order, and the exchange reads and publishes the record. -/
def cancelOnWire (orderId : OrderId) : MEClientRequest :=
  { type := .CANCEL, clientId := 0, tickerId := 0, orderId, side := .BUY, price := 100, qty := 1 }

def readAndPublish (r : MEClientRequest) : List WireEvent :=
  [.sendAndRecv 0 (Packed.omClientRequest.pack ⟨1, r⟩) 0 0, .recvFinished]

def stableSort (pending : List RecvTimeClientRequest) : List RecvTimeClientRequest :=
  pending.mergeSort fun a b => !RecvTimeClientRequest.lt b a

theorem stdSort_stableSort (pending : List RecvTimeClientRequest) :
    StdSort RecvTimeClientRequest.lt pending (stableSort pending) :=
  RecvTimeClientRequest.strictWeak.sorts (List.Perm.refl pending)

/-- The order id on the wire is what the matching engine finds in its queue. -/
theorem readAndPublish_run (orderId : OrderId)
    (read : (run (RequestPath.step stableSort) (RequestPath.new fun _ => 100)
        (readAndPublish (cancelOnWire orderId))).toOption.map (fun result =>
          (result.1.incomingRequests, (result.1.engine.tickerOrderBook 0).oidToOrder (0, orderId))) =
      some ([cancelOnWire orderId], none)) :
    ∃ s out, run (RequestPath.step stableSort) (RequestPath.new fun _ => 100)
        (readAndPublish (cancelOnWire orderId)) = .ok (s, out) ∧
      s.incomingRequests = [cancelOnWire orderId] ∧
      (s.engine.tickerOrderBook 0).oidToOrder (0, orderId) = none := by
  obtain ⟨s, out, ran, state⟩ := run_of_read _ _ _ (fun result : RequestPath × List MEMessage =>
    (result.1.incomingRequests, (result.1.engine.tickerOrderBook 0).oidToOrder (0, orderId))) _ read
  exact ⟨s, out, ran, congrArg Prod.fst state, congrArg Prod.snd state⟩

/-- An order id that nobody used. -/
theorem run_inBounds_unknown :
    ∃ s out, run (RequestPath.step stableSort) (RequestPath.new fun _ => 100)
        (readAndPublish (cancelOnWire 5)) = .ok (s, out) ∧
      ∃ t, RequestPath.step stableSort s .processClientRequest =
        .ok (t, [MEOrderBook.rejectedResponse 0 5 0]) := by
  obtain ⟨s, out, ran, incoming, unknown⟩ := readAndPublish_run 5 (by decide +kernel)
  have admits : Admits RequestPath.Indexed (RequestPath.step stableSort)
      (RequestPath.new fun _ => 100) (readAndPublish (cancelOnWire 5)) := by
    refine ⟨(by decide +kernel : ∀ m ∈ RequestPath.decoded (RequestPath.new fun _ => 100) 0
      (Packed.omClientRequest.pack ⟨1, cancelOnWire 5⟩),
        m.meClientRequest.clientId < ME_MAX_NUM_CLIENTS), ?_⟩
    split
    · refine ⟨trivial, ?_⟩
      split
      · trivial
      · trivial
    · trivial
  have indexed : s.Indexed .processClientRequest := by
    intro r mem
    rw [incoming] at mem
    cases mem
    exact ⟨by decide, .inl (by decide)⟩
  have inBounds := run_inBounds stdSort_stableSort admits ran indexed
  exact ⟨s, out, ran, _, inBounds.rejected rfl _ _ incoming rfl unknown⟩

/-- One record ends the process: `cancel` looks up an order id behind the end of the table. -/
theorem not_inBounds_cancel :
    ¬ ∀ (sort : List RecvTimeClientRequest → List RecvTimeClientRequest)
      (_ : ∀ pending, StdSort RecvTimeClientRequest.lt pending (sort pending))
      (tickerBasePrices : TickerId → Price) (events : List WireEvent) (s : RequestPath)
      (out : List MEMessage),
      run (RequestPath.step sort) (RequestPath.new tickerBasePrices) events = .ok (s, out) →
      ∀ event, s.InBounds sort event := by
  intro always
  obtain ⟨s, out, ran, incoming, -⟩ := readAndPublish_run ME_MAX_ORDER_IDS (by decide +kernel)
  have inside := (always _ stdSort_stableSort _ _ _ _ ran .processClientRequest).inside
  refine inside (.matching (.outOfRange ME_MAX_ORDER_IDS)) ?_ ⟨_, rfl⟩
  unfold RequestPath.step
  simp only [incoming]
  rfl

end NanoTrade
