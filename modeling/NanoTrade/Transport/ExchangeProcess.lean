import NanoTrade.LFQueue
import NanoTrade.Transport.Link
import NanoTrade.Transport.WireRequests

/-!
# The exchange process

The order server with all its sockets, the sequencer, the matching engine and the two queues
between them: everything between the bytes of the clients and the bytes that they get back. The
queues have `ME_MAX_CLIENT_UPDATES` slots, and a writer that is too fast overwrites what was not
read. `OrderServer::run` asserts that it has a socket for the client of each response.

* `OrderServer.Grows`: what reading does to the sockets of the clients.
* `MEOrderBook.answered_clients`: whom a request is answered to.
* `run_answers`: whatever bytes arrive, the assertion holds, and what goes out on a socket are the
  responses to its clients, each in order and numbered from 1.
-/

namespace NanoTrade

/-! ## The order server reads -/

namespace OrderServer

/-- The client has a socket. -/
def Seated (server : OrderServer) (client : ClientId) : Prop :=
  ∃ socket, server.cidTcpSocket client = some socket

/-- What reading does: clients get sockets and keep them, and requests of clients with a socket
are pending. -/
structure Grows (server server' : OrderServer) : Prop where
  seats : ∀ client socket, server.cidTcpSocket client = some socket →
    server'.cidTcpSocket client = some socket
  numbers : server'.cidNextOutgoingSeqNum = server.cidNextOutgoingSeqNum
  sockets : server'.receiveSockets = server.receiveSockets
  pending : ∀ p ∈ server'.fifoSequencer.pendingClientRequests,
    p ∈ server.fifoSequencer.pendingClientRequests ∨ server'.Seated p.request.clientId

variable {server server' server'' : OrderServer} {socket : SocketId}

theorem Grows.refl (server : OrderServer) : Grows server server :=
  ⟨fun _ _ => id, rfl, rfl, fun _ => .inl⟩

theorem Grows.seated (grows : Grows server server') {client : ClientId}
    (seated : server.Seated client) : server'.Seated client := by
  obtain ⟨socket, seat⟩ := seated
  exact ⟨socket, grows.seats client socket seat⟩

theorem Grows.trans (first : Grows server server') (second : Grows server' server'') :
    Grows server server'' := by
  refine ⟨fun client socket seat => second.seats _ _ (first.seats _ _ seat),
    second.numbers.trans first.numbers, second.sockets.trans first.sockets, fun p mem => ?_⟩
  rcases second.pending p mem with before | seated
  · rcases first.pending p before with old | seated
    · exact .inl old
    · exact .inr (second.seated seated)
  · exact .inr seated

/-- One record. -/
theorem receive_grows {rxTime : Nanos} {m : OMClientRequest} {received : List Received}
    (returned : server.receive socket rxTime m = .ok (server', received)) :
    Grows server server' := by
  unfold receive at returned
  by_cases known : m.meClientRequest.clientId < ME_MAX_NUM_CLIENTS
  · simp only [if_pos known] at returned
    -- The socket is the client's own where it had none.
    generalize assigned : (if server.cidTcpSocket m.meClientRequest.clientId = none then
      { server with
          cidTcpSocket := Function.update server.cidTcpSocket m.meClientRequest.clientId
            (some socket) }
      else server) = assignee at returned
    have grown : Grows server assignee := by
      rw [← assigned]
      split
      · rename_i unserved
        refine ⟨fun client other seat => ?_, rfl, rfl, fun p => .inl⟩
        have apart : client ≠ m.meClientRequest.clientId := by
          rintro rfl
          rw [unserved] at seat
          cases seat
        exact (Function.update_of_ne apart _ _).trans seat
      · exact .refl server
    split at returned
    · cases returned
      exact grown
    · rename_i same
      split at returned
      · cases returned
        exact grown
      · unfold FIFOSequencer.addClientRequest at returned
        split at returned
        · cases returned
        · rename_i added
          split at added
          · cases added
          · cases added
            cases returned
            refine grown.trans ⟨fun _ _ => id, rfl, rfl, fun p mem => ?_⟩
            rcases List.mem_append.mp mem with before | last
            · exact .inl before
            · rw [List.mem_singleton.mp last]
              exact .inr ⟨socket, not_not.mp same⟩
  · simp only [if_neg known] at returned
    cases returned

theorem run_receive_grows {rxTime : Nanos} {ms : List OMClientRequest} {received : List Received}
    (ran : run (receive socket rxTime) server ms = .ok (server', received)) :
    Grows server server' :=
  run_invariant (P := fun t _ _ => Grows server t) (.refl server)
    (fun before _ returned => before.trans (receive_grows returned)) ran

/-- A poll: reading, and the bytes that the kernel takes. -/
theorem sendAndRecv_eq_ok {read taken : List UInt8} {kernelTime : Nanos} {n : Int}
    {received : List Received}
    (polled : server.sendAndRecv socket read kernelTime n = .ok (server', received, taken)) :
    ∃ mid inbound, Grows server mid ∧ server' = mid.setSocket socket ⟨[], inbound⟩ ∧
      taken = (server.receiveSockets socket).outboundData.take n.toNat := by
  unfold OrderServer.sendAndRecv at polled
  by_cases idle : read = []
  · rw [idle, TCPSocket.sendAndRecv_idle] at polled
    cases polled
    exact ⟨server, _, .refl server, rfl, rfl⟩
  · cases ran : run (receive socket kernelTime) server ((frames Packed.omClientRequest.size
        ((server.receiveSockets socket).inboundData ++ read)).map
          Packed.omClientRequest.unpack) with
    | error f =>
        have called := recvCallback_eq kernelTime server socket
          ((server.receiveSockets socket).inboundData ++ read)
        rw [ran] at called
        rw [TCPSocket.sendAndRecv_fault idle called] at polled
        cases polled
    | ok result =>
        have called := recvCallback_eq kernelTime server socket
          ((server.receiveSockets socket).inboundData ++ read)
        rw [ran] at called
        rw [TCPSocket.sendAndRecv_read idle called] at polled
        cases polled
        exact ⟨_, _, run_receive_grows ran, rfl, rfl⟩

/-- A response that was sent is on the socket of its client, with the next number. -/
theorem respond_eq_ok {x : MEClientResponse} (sent : server.respond x = .ok server') :
    ∃ socket, server.cidTcpSocket x.clientId = some socket ∧
      server' = server.answered socket x := by
  unfold respond at sent
  split at sent
  · cases seat : server.cidTcpSocket x.clientId with
    | none => simp [seat] at sent
    | some socket =>
        rw [seat] at sent
        simp only at sent
        obtain ⟨first, sentFirst, sent⟩ := bind_eq_ok.mp sent
        obtain ⟨second, sentSecond, last⟩ := bind_eq_ok.mp sent
        unfold TCPSocket.send at sentFirst sentSecond
        split at sentFirst
        · cases sentFirst
          split at sentSecond
          · cases sentSecond
            cases last
            refine ⟨socket, rfl, ?_⟩
            unfold answered
            rw [Packed.pack_omClientResponse]
            simp only [List.append_assoc]
          · cases sentSecond
        · cases sentFirst
  · cases sent

/-- A response to a client with a socket does not fail for want of one. -/
theorem ends_respond {x : MEClientResponse} (seated : server.Seated x.clientId) :
    Ends (fun f => ∀ client, f ≠ .noSocket client) (server.respond x) fun _ => True := by
  have send : ∀ (s : TCPSocket) (data : List UInt8),
      Ends (fun f => ∀ client, f ≠ .noSocket client) (s.send data) fun _ => True := by
    intro s data
    unfold TCPSocket.send
    split
    · exact Ends.ok trivial
    · exact Ends.error fun client => nofun
  obtain ⟨socket, seat⟩ := seated
  unfold respond
  split
  · rw [seat]
    exact (send _ _).bind fun _ _ => (send _ _).bind fun _ _ => Ends.pure trivial
  · exact Ends.error fun client => nofun

end OrderServer

/-! ## The matching engine answers -/

namespace MEOrderBook

variable {P : MEOrderKey → Prop} {s : LevelBook MEOrderKey MESlot} {b b' : MEOrderBook}
  {r : MEClientRequest} {out : List MEMessage}

/-- The client of a request, or of an order with ids as `P` says. -/
def Concerns (P : MEOrderKey → Prop) (own client : ClientId) : Prop :=
  client = own ∨ ∃ key, P key ∧ client = key.clientId

/-- Fills answer the client of the new order and those of the orders in the book. -/
theorem ends_matchLoop_clients
    (known : ∀ key, P key → ∃ slot, meSlot key.clientId key.clientOrderId = .ok slot)
    (a : Aggressor) (passive : Side) (stops : Price → Bool) (fuel : Nat)
    (keys : LevelBook.Leads (fun p => P (s.order p).key) s) (leavesQty : Qty) :
    Ends (fun _ => True) (matchLoop a passive stops fuel s leavesQty) fun result =>
      ∀ x ∈ responses result.2.2, Concerns P a.clientId x.clientId := by
  induction fuel generalizing s leavesQty with
  | zero => exact Ends.error trivial
  | succ fuel ih =>
      have idle : Ends (fun _ => True) (.ok (s, leavesQty, []) :
          Except Fault (LevelBook MEOrderKey MESlot × Qty × List MEMessage)) fun result =>
            ∀ x ∈ responses result.2.2, Concerns P a.clientId x.clientId :=
        Ends.ok fun x mem => absurd mem List.not_mem_nil
      unfold matchLoop
      split
      · exact idle
      · cases s.best passive with
        | none => exact idle
        | some best =>
            refine Ends.bind ((LevelBook.ends_deref fun p first => keys.first best p first).weaken
              fun _ _ => trivial) ?_
            intro itr has
            split
            · exact idle
            · obtain ⟨slot, slotted⟩ := known _ has
              refine Ends.bind ((ends_matchOrder keys a slotted leavesQty).weaken
                fun _ _ => trivial) ?_
              rintro ⟨u, left, messages⟩ ⟨follows, fill⟩
              have keys' : LevelBook.Leads (fun p => P (u.order p).key) u := by
                refine follows.leads.mono fun p has => ?_
                rw [follows.key]
                exact has
              refine Ends.bind (ih keys' left) ?_
              rintro ⟨v, left', later⟩ told
              refine Ends.pure fun x mem => ?_
              rw [responses_append] at mem
              rcases List.mem_append.mp mem with now | after
              · obtain ⟨side, price, fillQty, leaves, passiveLeaves, update, rfl, -⟩ := fill.shape
                simp only [fillMessages, responses_append, responses_response, responses_update,
                  responses_nil, List.append_nil, List.mem_cons, List.not_mem_nil, or_false] at now
                rcases now with rfl | rfl
                · exact .inl rfl
                · exact .inr ⟨_, has, rfl⟩
              · exact told x after

/-- Whom a request is answered to: its client, and the owners of what it trades with. -/
theorem answered_clients
    (known : ∀ key, P key → ∃ slot, meSlot key.clientId key.clientOrderId = .ok slot)
    (keys : b.Keys P) (processed : b.processClientRequest r = .ok (b', out)) :
    ∀ x ∈ responses out, Concerns P r.clientId x.clientId := by
  unfold processClientRequest at processed
  cases kind : r.type with
  | NEW =>
      simp only [kind] at processed
      obtain ⟨s, leavesQty, matched, added, swept, rests, rfl⟩ := add_eq_ok processed
      have fills : ∀ x ∈ responses matched, Concerns P r.clientId x.clientId := by
        unfold checkForMatch at swept
        simp only at swept
        split at swept
        · exact (ends_matchLoop_clients known _ _ _ _ keys _).of_ok swept
        · exact (ends_matchLoop_clients known _ _ _ _ keys _).of_ok swept
        · cases swept
          exact fun x mem => absurd mem List.not_mem_nil
      have silent : responses added = [] := by
        rcases rests with rfl | ⟨priority, rfl⟩
        · rfl
        · rfl
      intro x mem
      rw [acceptedResponse, List.cons_append, responses_response, responses_append, silent,
        List.append_nil] at mem
      rcases List.mem_cons.mp mem with rfl | later
      · exact .inl rfl
      · exact fills x later
  | CANCEL =>
      simp only [kind] at processed
      obtain ⟨-, rfl | ⟨order, rfl⟩⟩ := cancel_eq_ok processed
      · intro x mem
        rw [List.mem_singleton.mp mem]
        exact .inl rfl
      · intro x mem
        rw [canceledMessages, responses_update, responses_response, responses_nil,
          List.mem_singleton] at mem
        rw [mem]
        exact .inl rfl
  | INVALID =>
      simp only [kind] at processed
      cases processed

end MEOrderBook

/-! ## The process -/

/-- How a part of the process ends it. -/
inductive ProcessFault
  | transport (f : TransportFault)
  | matching (f : Fault)
  | queue (f : Fault)
  deriving DecidableEq

/-- The order server, the matching engine, and the queues between them. -/
structure ExchangeProcess where
  server : OrderServer
  incomingRequests : LFQueue MEClientRequest
  engine : MatchingEngine
  outgoingResponses : LFQueue MEClientResponse

/-- What the threads do next. -/
inductive ExchangeEvent
  /-- A socket is polled: `read` has come on it, and `n` is the result of `::send`. -/
  | sendAndRecv (socket : SocketId) (read : List UInt8) (kernelTime : Nanos) (n : Int)
  /-- All sockets were polled. -/
  | recvFinished
  /-- The matching engine reads a request. -/
  | processClientRequest
  /-- The order server sends a response. -/
  | respond
  deriving DecidableEq

inductive ExchangeOutput
  /-- The matching engine sends a message. -/
  | message (m : MEMessage)
  /-- The kernel takes bytes on a socket. -/
  | taken (socket : SocketId) (bytes : List UInt8)

namespace ExchangeProcess

def new (tickerBasePrices : TickerId → Price) : ExchangeProcess :=
  { server := .new, incomingRequests := .new ME_MAX_CLIENT_UPDATES .new
    engine := .new tickerBasePrices, outgoingResponses := .new ME_MAX_CLIENT_UPDATES .new }

section Step

variable (sort : List RecvTimeClientRequest → List RecvTimeClientRequest)

/-- One event. `sort` stands for `std::sort`. -/
def step (s : ExchangeProcess) :
    ExchangeEvent → Except ProcessFault (ExchangeProcess × List ExchangeOutput)
  | .sendAndRecv socket read kernelTime n =>
    match s.server.sendAndRecv socket read kernelTime n with
    | .error f => .error (.transport f)
    | .ok (server, _, taken) => .ok ({ s with server }, [.taken socket taken])
  | .recvFinished =>
    let published := sort s.server.fifoSequencer.pendingClientRequests
    .ok ({ s with
      server := s.server.recvFinishedCallback
      incomingRequests := s.incomingRequests.pushAll
        (published.map RecvTimeClientRequest.request) }, [])
  | .processClientRequest =>
    match s.incomingRequests.getNextToRead with
    | none => .ok (s, [])
    | some slot =>
      match s.engine.processClientRequest (s.incomingRequests.store slot) with
      | .error f => .error (.matching f)
      | .ok (engine, messages) =>
        match s.incomingRequests.updateReadIndex with
        | .error f => .error (.queue f)
        | .ok incomingRequests => .ok ({ s with
            engine
            incomingRequests
            outgoingResponses := s.outgoingResponses.pushAll (responses messages) },
          messages.map .message)
  | .respond =>
    match s.outgoingResponses.getNextToRead with
    | none => .ok (s, [])
    | some slot =>
      match s.server.respond (s.outgoingResponses.store slot) with
      | .error f => .error (.transport f)
      | .ok server =>
        match s.outgoingResponses.updateReadIndex with
        | .error f => .error (.queue f)
        | .ok outgoingResponses => .ok ({ s with server, outgoingResponses }, [])

end Step

/-- The messages of the matching engine. -/
def messagesOf : List ExchangeOutput → List MEMessage :=
  List.filterMap fun
    | .message m => some m
    | .taken _ _ => none

/-- The bytes that went out on a socket. -/
def takenOn (socket : SocketId) (out : List ExchangeOutput) : List UInt8 :=
  out.flatMap fun
    | .message _ => []
    | .taken other bytes => if other = socket then bytes else []

/-- Every `::send` takes the whole buffer. -/
def TakesAll (s : ExchangeProcess) : ExchangeEvent → Prop
  | .sendAndRecv socket _ _ n =>
    (s.server.receiveSockets socket).outboundData.length ≤ n.toNat
  | .recvFinished | .processClientRequest | .respond => True

instance (s : ExchangeProcess) : DecidablePred s.TakesAll
  | .sendAndRecv .. => inferInstanceAs (Decidable (_ ≤ _))
  | .recvFinished | .processClientRequest | .respond => isTrue trivial

variable {sort : List RecvTimeClientRequest → List RecvTimeClientRequest}
  {s s' : ExchangeProcess} {event : ExchangeEvent} {now : List ExchangeOutput}

/-- All that a step does. -/
theorem step_cases (stepped : step sort s event = .ok (s', now)) :
    (∃ socket read kernelTime n server received taken,
      event = .sendAndRecv socket read kernelTime n ∧
      s.server.sendAndRecv socket read kernelTime n = .ok (server, received, taken) ∧
      s' = { s with server } ∧ now = [.taken socket taken]) ∨
    (event = .recvFinished ∧ now = [] ∧ s' = { s with
      server := s.server.recvFinishedCallback
      incomingRequests := s.incomingRequests.pushAll
        ((sort s.server.fifoSequencer.pendingClientRequests).map
          RecvTimeClientRequest.request) }) ∨
    (now = [] ∧ s' = s) ∨
    (∃ slot engine messages incomingRequests, s.incomingRequests.getNextToRead = some slot ∧
      s.engine.processClientRequest (s.incomingRequests.store slot) = .ok (engine, messages) ∧
      s.incomingRequests.updateReadIndex = .ok incomingRequests ∧ s' = { s with
        engine
        incomingRequests
        outgoingResponses := s.outgoingResponses.pushAll (responses messages) } ∧
      now = messages.map .message) ∨
    ∃ slot server outgoingResponses, s.outgoingResponses.getNextToRead = some slot ∧
      s.server.respond (s.outgoingResponses.store slot) = .ok server ∧
      s.outgoingResponses.updateReadIndex = .ok outgoingResponses ∧
      s' = { s with server, outgoingResponses } ∧ now = [] := by
  cases event with
  | sendAndRecv socket read kernelTime n =>
      simp only [step] at stepped
      cases polled : s.server.sendAndRecv socket read kernelTime n with
      | error f =>
          rw [polled] at stepped
          cases stepped
      | ok result =>
          obtain ⟨server, received, taken⟩ := result
          rw [polled] at stepped
          cases stepped
          exact .inl ⟨_, _, _, _, server, received, taken, rfl, polled, rfl, rfl⟩
  | recvFinished =>
      cases stepped
      exact .inr (.inl ⟨rfl, rfl, rfl⟩)
  | processClientRequest =>
      simp only [step] at stepped
      cases head : s.incomingRequests.getNextToRead with
      | none =>
          rw [head] at stepped
          cases stepped
          exact .inr (.inr (.inl ⟨rfl, rfl⟩))
      | some slot =>
          rw [head] at stepped
          simp only at stepped
          cases processed : s.engine.processClientRequest (s.incomingRequests.store slot) with
          | error f =>
              rw [processed] at stepped
              cases stepped
          | ok result =>
              obtain ⟨engine, messages⟩ := result
              rw [processed] at stepped
              simp only at stepped
              cases popped : s.incomingRequests.updateReadIndex with
              | error f =>
                  rw [popped] at stepped
                  cases stepped
              | ok incomingRequests =>
                  rw [popped] at stepped
                  cases stepped
                  exact .inr (.inr (.inr (.inl ⟨slot, engine, messages, incomingRequests, rfl,
                    processed, rfl, rfl, rfl⟩)))
  | respond =>
      simp only [step] at stepped
      cases head : s.outgoingResponses.getNextToRead with
      | none =>
          rw [head] at stepped
          cases stepped
          exact .inr (.inr (.inl ⟨rfl, rfl⟩))
      | some slot =>
          rw [head] at stepped
          simp only at stepped
          cases sent : s.server.respond (s.outgoingResponses.store slot) with
          | error f =>
              rw [sent] at stepped
              cases stepped
          | ok server =>
              rw [sent] at stepped
              simp only at stepped
              cases popped : s.outgoingResponses.updateReadIndex with
              | error f =>
                  rw [popped] at stepped
                  cases stepped
              | ok outgoingResponses =>
                  rw [popped] at stepped
                  cases stepped
                  exact .inr (.inr (.inr (.inr ⟨slot, server, outgoingResponses, rfl, sent, rfl,
                    rfl, rfl⟩)))

/-! ## Everyone has a socket -/

/-- Whoever waits for a response, or may be sent one, has a socket. This is so of all that the
queues ever held, so that it does not matter whether they overwrite what is not read. -/
structure Seats (s : ExchangeProcess) : Prop where
  pending : ∀ p ∈ s.server.fifoSequencer.pendingClientRequests, s.server.Seated p.request.clientId
  incoming : s.incomingRequests.AtRest fun r => s.server.Seated r.clientId
  books : ∀ ticker, (s.engine.tickerOrderBook ticker).Keys fun key =>
    MEOrderBook.InIdTable key ∧ s.server.Seated key.clientId
  outgoing : s.outgoingResponses.AtRest fun x => s.server.Seated x.clientId

theorem Seats.new (tickerBasePrices : TickerId → Price) : Seats (new tickerBasePrices) :=
  ⟨fun _ mem => absurd mem List.not_mem_nil, .new (by decide) _ _, fun _ => LevelBook.Leads.new ..,
    .new (by decide) _ _⟩

/-- One event, whatever bytes it reads. -/
theorem Seats.step (seats : s.Seats)
    (sorts : ∀ pending, StdSort RecvTimeClientRequest.lt pending (sort pending))
    (stepped : step sort s event = .ok (s', now)) : s'.Seats := by
  rcases step_cases stepped with
    ⟨socket, read, kernelTime, n, server, received, taken, -, polled, rfl, -⟩ | ⟨-, -, rfl⟩ |
    ⟨-, rfl⟩ | ⟨slot, engine, messages, incomingRequests, head, processed, popped, rfl, -⟩ |
    ⟨slot, server, outgoingResponses, head, sent, popped, rfl, -⟩
  · obtain ⟨mid, inbound, grows, rfl, -⟩ := OrderServer.sendAndRecv_eq_ok polled
    have kept : ∀ {client}, s.server.Seated client →
        (mid.setSocket socket ⟨[], inbound⟩).Seated client := fun seated => grows.seated seated
    refine ⟨fun p mem => ?_, seats.incoming.mono fun r => kept, fun ticker => ?_,
      seats.outgoing.mono fun x => kept⟩
    · rcases grows.pending p mem with before | seated
      · exact kept (seats.pending p before)
      · exact seated
    · exact (seats.books ticker).mono fun p has => ⟨has.1, kept has.2⟩
  · refine ⟨fun p mem => absurd mem List.not_mem_nil, seats.incoming.pushAll fun r published => ?_,
      seats.books, seats.outgoing⟩
    obtain ⟨p, sorted, rfl⟩ := List.mem_map.mp published
    exact seats.pending p ((sorts _).perm.mem_iff.mp sorted)
  · exact seats
  · obtain ⟨own, left, counted, -, incoming, -⟩ := seats.incoming.pop head
    obtain rfl := Except.ok.inj (counted.symm.trans popped)
    obtain ⟨-, book, answered, rfl⟩ := MatchingEngine.processClientRequest_eq_ok.mp processed
    generalize s.incomingRequests.store slot = r at own answered
    have ends := MEOrderBook.ends_processClientRequest
      (fun key (has : MEOrderBook.InIdTable key ∧ s.server.Seated key.clientId) => has.1)
      (seats.books r.tickerId)
      fun _ inTable _ => ⟨⟨_, meSlot_eq_ok.mpr ⟨inTable.1, inTable.2, rfl⟩⟩, own⟩
    obtain ⟨keys, -⟩ := ends.of_ok answered
    refine ⟨seats.pending, incoming, fun ticker => ?_, seats.outgoing.pushAll fun x sent => ?_⟩
    · rcases eq_or_ne ticker r.tickerId with rfl | other
      · simp only [Function.update_self]
        exact keys
      · simp only [Function.update_of_ne other]
        exact seats.books ticker
    · rcases MEOrderBook.answered_clients (fun key has => has.1) (seats.books r.tickerId)
        answered x sent with same | ⟨key, has, same⟩
      · rw [same]
        exact own
      · rw [same]
        exact has.2
  · obtain ⟨socket, -, rfl⟩ := OrderServer.respond_eq_ok sent
    obtain ⟨-, left, counted, -, outgoing, -⟩ := seats.outgoing.pop head
    obtain rfl := Except.ok.inj (counted.symm.trans popped)
    exact ⟨seats.pending, seats.incoming, seats.books, outgoing⟩

/-- With a socket for everyone, no response fails for want of one. -/
theorem Seats.no_missing_socket (seats : s.Seats) {client : ClientId} :
    ExchangeProcess.step sort s .respond ≠ .error (.transport (.noSocket client)) := by
  intro failed
  simp only [ExchangeProcess.step] at failed
  cases head : s.outgoingResponses.getNextToRead with
  | none =>
      rw [head] at failed
      cases failed
  | some slot =>
      rw [head] at failed
      simp only at failed
      obtain ⟨seated, left, counted, -⟩ := seats.outgoing.pop head
      have ends := OrderServer.ends_respond seated
      cases sent : s.server.respond (s.outgoingResponses.store slot) with
      | ok server =>
          rw [sent, counted] at failed
          cases failed
      | error f =>
          rw [sent] at failed ends
          cases failed
          exact ends client rfl

/-! ## What goes out -/

/-- The responses to a client. -/
def ofClient (client : ClientId) (xs : List MEClientResponse) : List MEClientResponse :=
  xs.filter fun x => x.clientId = client

/-- Behind the events that have sent `out`, the responses `sent` are on the sockets of their
clients. -/
structure Conveyed (s : ExchangeProcess) (out : List ExchangeOutput)
    (sent : List MEClientResponse) : Prop where
  queued : responses (messagesOf out) = sent ++ s.outgoingResponses.unread
  numbers : ∀ client,
    s.server.cidNextOutgoingSeqNum client = seqAfter (ofClient client sent).length
  seated : ∀ x ∈ sent, s.server.Seated x.clientId
  wire : ∀ socket, ∃ records, takenOn socket out ++
      (s.server.receiveSockets socket).outboundData = Packed.omClientResponse.stream records ∧
    (∀ m ∈ records, s.server.cidTcpSocket m.meClientResponse.clientId = some socket) ∧
    ∀ client, s.server.cidTcpSocket client = some socket →
      (records.filter fun m => m.meClientResponse.clientId = client) =
        numbered OMClientResponse.mk 0 (ofClient client sent)

theorem Conveyed.new (tickerBasePrices : TickerId → Price) :
    Conveyed (new tickerBasePrices) [] [] :=
  ⟨rfl, fun _ => rfl, fun _ mem => absurd mem List.not_mem_nil, fun _ =>
    ⟨[], rfl, fun _ mem => absurd mem List.not_mem_nil, fun _ seat => nomatch seat⟩⟩

theorem messagesOf_append (out out' : List ExchangeOutput) :
    messagesOf (out ++ out') = messagesOf out ++ messagesOf out' :=
  List.filterMap_append

theorem messagesOf_message (messages : List MEMessage) :
    messagesOf (messages.map .message) = messages := by
  rw [messagesOf, List.filterMap_map]
  exact List.filterMap_some

theorem takenOn_append (socket : SocketId) (out out' : List ExchangeOutput) :
    takenOn socket (out ++ out') = takenOn socket out ++ takenOn socket out' :=
  List.flatMap_append

theorem takenOn_message (socket : SocketId) (messages : List MEMessage) :
    takenOn socket (messages.map .message) = [] := by
  rw [takenOn, List.flatMap_map]
  exact List.flatMap_eq_nil_iff.mpr fun _ _ => rfl

/-- A poll moves the bytes of its socket from the buffer to the kernel. -/
theorem Conveyed.poll {out : List ExchangeOutput} {sent : List MEClientResponse}
    {server : OrderServer} {socket : SocketId} {inbound : List UInt8}
    (conveyed : s.Conveyed out sent) (grows : s.server.Grows server) :
    ({ s with server := server.setSocket socket ⟨[], inbound⟩ } : ExchangeProcess).Conveyed
      (out ++ [.taken socket (s.server.receiveSockets socket).outboundData]) sent := by
  refine ⟨?_, fun client => ?_, fun x mem => grows.seated (conveyed.seated x mem), fun other => ?_⟩
  · rw [messagesOf_append]
    exact (congrArg responses (List.append_nil _)).trans conveyed.queued
  · exact (congrFun grows.numbers client).trans (conveyed.numbers client)
  · obtain ⟨records, bytes, owners, each⟩ := conveyed.wire other
    refine ⟨records, ?_, fun m mem => grows.seats _ _ (owners m mem), fun client seat => ?_⟩
    · rw [takenOn_append, ← bytes]
      rcases eq_or_ne other socket with rfl | apart
      · simp [takenOn]
      · simp only [OrderServer.setSocket_of_ne _ _ apart, grows.sockets]
        simp [takenOn, apart.symm]
    · cases before : s.server.cidTcpSocket client with
      | some old =>
          have same : some old = some other := (grows.seats client old before).symm.trans seat
          rw [Option.some.injEq] at same
          subst same
          exact each client before
      | none =>
          -- A client that had no socket has been sent nothing.
          have noRecord : (records.filter fun m => m.meClientResponse.clientId = client) = [] := by
            refine List.filter_eq_nil_iff.mpr fun m mem same => ?_
            have owner := owners m mem
            rw [of_decide_eq_true same, before] at owner
            cases owner
          have noneSent : ofClient client sent = [] := by
            refine List.filter_eq_nil_iff.mpr fun x mem same => ?_
            obtain ⟨k, seat⟩ := conveyed.seated x mem
            rw [of_decide_eq_true same, before] at seat
            cases seat
          rw [noRecord, noneSent]
          rfl

/-- A response goes out with the next number of its client. -/
theorem Conveyed.respond {out : List ExchangeOutput} {sent : List MEClientResponse}
    {x : MEClientResponse} {socket : SocketId} {outgoingResponses : LFQueue MEClientResponse}
    (conveyed : s.Conveyed out sent)
    (shape : s.outgoingResponses.unread = x :: outgoingResponses.unread)
    (seat : s.server.cidTcpSocket x.clientId = some socket) :
    ({ s with server := s.server.answered socket x, outgoingResponses } :
      ExchangeProcess).Conveyed out (sent ++ [x]) := by
  have grown : ∀ client, ofClient client (sent ++ [x]) =
      ofClient client sent ++ if x.clientId = client then [x] else [] := by
    intro client
    rw [ofClient, List.filter_append, List.filter_singleton, Bool.cond_decide]
    rfl
  refine ⟨?_, fun client => ?_, fun y mem => ?_, fun other => ?_⟩
  · rw [conveyed.queued, shape, List.append_assoc]
    rfl
  · rw [grown]
    rcases eq_or_ne client x.clientId with rfl | apart
    · rw [if_pos rfl, List.length_append, List.length_singleton, seqAfter_succ,
        ← conveyed.numbers]
      exact Function.update_self _ _ _
    · rw [if_neg apart.symm, List.append_nil, ← conveyed.numbers]
      exact Function.update_of_ne apart _ _
  · rcases List.mem_append.mp mem with old | new
    · exact conveyed.seated y old
    · rw [List.mem_singleton.mp new]
      exact ⟨socket, seat⟩
  · obtain ⟨records, bytes, owners, each⟩ := conveyed.wire other
    rcases eq_or_ne other socket with rfl | apart
    · refine ⟨records ++ [⟨s.server.cidNextOutgoingSeqNum x.clientId, x⟩], ?_, fun m mem => ?_,
        fun client here => ?_⟩
      · rw [Packed.stream_append, ← bytes, Packed.stream_cons, Packed.stream_nil, List.append_nil,
          List.append_assoc]
        exact congrArg (takenOn other out ++ ·)
          (congrArg TCPSocket.outboundData (s.server.setSocket_self other _))
      · rcases List.mem_append.mp mem with old | new
        · exact owners m old
        · rw [List.mem_singleton.mp new]
          exact seat
      · rw [List.filter_append, each client here, grown, numbered_append, Nat.zero_add]
        rcases eq_or_ne client x.clientId with rfl | other
        · rw [List.filter_cons_of_pos (by simp), List.filter_nil, if_pos rfl, conveyed.numbers]
          rfl
        · rw [List.filter_cons_of_neg (by simpa using other.symm), List.filter_nil,
            if_neg other.symm]
          rfl
    · refine ⟨records, ?_, owners, fun client here => ?_⟩
      · rw [← bytes]
        exact congrArg (fun tcpSocket : TCPSocket => takenOn other out ++ tcpSocket.outboundData)
          (s.server.answered_of_ne x apart)
      · have notHere : x.clientId ≠ client := by
          rintro rfl
          exact apart (Option.some.inj (here.symm.trans seat))
        rw [grown, if_neg notHere, List.append_nil]
        exact each client here

/-- One event, between two states in which the responses have room. -/
theorem Conveyed.step {out : List ExchangeOutput} {sent : List MEClientResponse}
    (conveyed : s.Conveyed out sent) (seats : s.Seats) (takesAll : s.TakesAll event)
    (room : s.outgoingResponses.HasRoom) (room' : s'.outgoingResponses.HasRoom)
    (stepped : step sort s event = .ok (s', now)) : ∃ sent', s'.Conveyed (out ++ now) sent' := by
  rcases step_cases stepped with
    ⟨socket, read, kernelTime, n, server, received, taken, rfl, polled, rfl, rfl⟩ |
    ⟨-, rfl, rfl⟩ | ⟨rfl, rfl⟩ | ⟨slot, engine, messages, incomingRequests, -, -, -, rfl, rfl⟩ |
    ⟨slot, server, outgoingResponses, head, responded, popped, rfl, rfl⟩
  · obtain ⟨mid, inbound, grows, rfl, rfl⟩ := OrderServer.sendAndRecv_eq_ok polled
    rw [List.take_of_length_le takesAll]
    exact ⟨sent, conveyed.poll grows⟩
  · rw [List.append_nil]
    exact ⟨sent, conveyed.queued, conveyed.numbers, conveyed.seated, conveyed.wire⟩
  · rw [List.append_nil]
    exact ⟨sent, conveyed⟩
  · refine ⟨sent, ?_, conveyed.numbers, conveyed.seated, fun socket => ?_⟩
    · rw [messagesOf_append, messagesOf_message, responses_append, conveyed.queued,
        List.append_assoc, seats.outgoing.unread_pushAll room']
    · rw [takenOn_append, takenOn_message, List.append_nil]
      exact conveyed.wire socket
  · obtain ⟨socket, seat, rfl⟩ := OrderServer.respond_eq_ok responded
    obtain ⟨-, left, counted, -, -, roomy⟩ := seats.outgoing.pop head
    obtain rfl := Except.ok.inj (counted.symm.trans popped)
    rw [List.append_nil]
    exact ⟨_, conveyed.respond (roomy room).2 seat⟩

/-! ## Whole runs -/

/-- The responses have room in their queue. -/
def HasRoom (s : ExchangeProcess) : Prop :=
  s.outgoingResponses.HasRoom

instance : DecidablePred HasRoom :=
  fun _ => inferInstanceAs (Decidable (LFQueue.HasRoom _))

/-- **Every response finds its client.** Whatever bytes the sockets read and in whatever order the
threads run, no response lacks a socket; and where the kernel takes the whole buffer of a socket
whenever it is asked to, and in no state more responses are unread than their queue has slots, the
bytes that went out on it or wait there are the responses to the clients that it serves, those of
each client in order and numbered from 1. -/
theorem run_answers {sort : List RecvTimeClientRequest → List RecvTimeClientRequest}
    (sorts : ∀ pending, StdSort RecvTimeClientRequest.lt pending (sort pending))
    {tickerBasePrices : TickerId → Price} {events : List ExchangeEvent} {s : ExchangeProcess}
    {out : List ExchangeOutput}
    (ran : run (step sort) (new tickerBasePrices) events = .ok (s, out)) :
    (∀ client, step sort s .respond ≠ .error (.transport (.noSocket client))) ∧
      (Admits TakesAll (step sort) (new tickerBasePrices) events →
        Throughout HasRoom (step sort) (new tickerBasePrices) events →
        ∃ sent, responses (messagesOf out) = sent ++ s.outgoingResponses.unread ∧
          ∀ socket, ∃ records, takenOn socket out ++
              (s.server.receiveSockets socket).outboundData =
                Packed.omClientResponse.stream records ∧
            (∀ m ∈ records, s.server.cidTcpSocket m.meClientResponse.clientId = some socket) ∧
            ∀ client, s.server.cidTcpSocket client = some socket →
              (records.filter fun m => m.meClientResponse.clientId = client) =
                numbered OMClientResponse.mk 0 (ofClient client sent)) := by
  refine ⟨fun client => ?_, fun takesAll room => ?_⟩
  · have seats : s.Seats := run_invariant (P := fun t _ _ => t.Seats) (.new tickerBasePrices)
      (fun seats _ stepped => seats.step sorts stepped) ran
    exact seats.no_missing_socket
  · obtain ⟨-, sent, conveyed⟩ : s.Seats ∧ ∃ sent, s.Conveyed out sent :=
      admits_throughout (P := fun t out => t.Seats ∧ ∃ sent, t.Conveyed out sent)
        ⟨.new tickerBasePrices, [], .new tickerBasePrices⟩
        (fun ⟨seats, _, conveyed⟩ takes room room' stepped =>
          ⟨seats.step sorts stepped, conveyed.step seats takes room room' stepped⟩)
        takesAll room ran
    exact ⟨sent, conveyed.queued, conveyed.wire⟩

/-! ## Two clients -/

/-- Two clients that trade with each other, each on its socket. -/
def twoClients : List ExchangeEvent :=
  let sell : MEClientRequest :=
    { type := .NEW, clientId := 1, tickerId := 0, orderId := 7, side := .SELL, price := 100,
      qty := 5 }
  let buy : MEClientRequest := { sell with clientId := 2, side := .BUY }
  [.sendAndRecv 0 (Packed.omClientRequest.pack ⟨1, sell⟩) 10 0, .recvFinished,
    .sendAndRecv 1 (Packed.omClientRequest.pack ⟨1, buy⟩) 20 0, .recvFinished,
    .processClientRequest, .processClientRequest,
    .respond, .respond, .respond, .respond,
    .sendAndRecv 0 [] 30 200, .sendAndRecv 1 [] 40 200]

/-- Both fills go out, each on the socket of its client. -/
theorem run_answers_two :
    ∃ s out, run (step stableSort) (new fun _ => 100) twoClients = .ok (s, out) ∧
      (∀ client, step stableSort s .respond ≠ .error (.transport (.noSocket client))) ∧
      ∃ sent : List MEClientResponse, sent.map MEClientResponse.clientId = [1, 2, 2, 1] ∧
        ∀ socket, ∃ records, takenOn socket out ++
            (s.server.receiveSockets socket).outboundData =
              Packed.omClientResponse.stream records ∧
          ∀ client, s.server.cidTcpSocket client = some socket →
            (records.filter fun m => m.meClientResponse.clientId = client) =
              numbered OMClientResponse.mk 0 (ofClient client sent) := by
  obtain ⟨s, out, ran, state⟩ := run_of_read (step stableSort) (new fun _ => 100) twoClients
    (fun result : ExchangeProcess × List ExchangeOutput =>
      ((responses (messagesOf result.2)).map MEClientResponse.clientId,
        result.1.outgoingResponses.size))
    ([1, 2, 2, 1], 0) (by decide +kernel)
  obtain ⟨served, answers⟩ := run_answers stdSort_stableSort ran
  obtain ⟨sent, split, each⟩ := answers (by decide +kernel) (by decide +kernel)
  have noneWaits : s.outgoingResponses.unread = [] :=
    LFQueue.unread_eq_nil (congrArg Prod.snd state)
  rw [noneWaits, List.append_nil] at split
  refine ⟨s, out, ran, served, sent, ?_, fun socket => ?_⟩
  · rw [← split]
    exact congrArg Prod.fst state
  · obtain ⟨records, bytes, -, numbers⟩ := each socket
    exact ⟨records, bytes, numbers⟩

end ExchangeProcess

end NanoTrade
