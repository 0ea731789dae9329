import NanoTrade.Transport.Serving

/-!
# A gateway connected to the order server

`Link` is one `OrderGateway`, the `OrderServer` with all its sockets, and the two byte
streams between them. Its steps are those of both threads, in any order, a read taking any
number of the bytes under way; other connections deliver any bytes, but no record of this
client. `run_exactlyOnce`: requests and responses arrive exactly once and in order.
-/

namespace NanoTrade

/-! ## Sending a packet -/

namespace TCPSocket

/-- Two calls of `send` in a row. -/
theorem send_two {s : TCPSocket} {front rest : List UInt8}
    (room : s.outboundData.length + (front ++ rest).length ≤ TCPBufferSize) :
    (s.send front >>= fun s => s.send rest) =
      .ok { s with outboundData := s.outboundData ++ (front ++ rest) } := by
  rw [List.length_append] at room
  rw [send, if_pos (by omega)]
  show send _ rest = _
  rw [send, if_pos (by rw [List.length_append]; omega), List.append_assoc]

end TCPSocket

theorem OrderGateway.request_eq {gateway : OrderGateway} (r : MEClientRequest)
    (room : gateway.tcpSocket.outboundData.length + Packed.omClientRequest.size ≤
      TCPBufferSize) :
    gateway.request r = .ok { gateway with
      tcpSocket := { gateway.tcpSocket with
        outboundData := gateway.tcpSocket.outboundData ++
          Packed.omClientRequest.pack ⟨gateway.nextOutgoingSeqNum, r⟩ }
      nextOutgoingSeqNum := gateway.nextOutgoingSeqNum + 1 } := by
  rw [← Packed.length_pack Packed.omClientRequest ⟨gateway.nextOutgoingSeqNum, r⟩,
    Packed.pack_omClientRequest] at room
  have sent := TCPSocket.send_two room
  rw [Packed.pack_omClientRequest]
  unfold OrderGateway.request
  rw [← bind_assoc, sent]
  rfl

/-- The server behind a response that it has sent on `socket`. -/
def OrderServer.answered (server : OrderServer) (socket : SocketId) (r : MEClientResponse) :
    OrderServer :=
  { server.setSocket socket
      { server.receiveSockets socket with
        outboundData := (server.receiveSockets socket).outboundData ++
          Packed.omClientResponse.pack ⟨server.cidNextOutgoingSeqNum r.clientId, r⟩ } with
    cidNextOutgoingSeqNum := Function.update server.cidNextOutgoingSeqNum r.clientId
      (server.cidNextOutgoingSeqNum r.clientId + 1) }

theorem OrderServer.answered_of_ne (server : OrderServer) {socket other : SocketId}
    (r : MEClientResponse) (apart : other ≠ socket) :
    (server.answered socket r).receiveSockets other = server.receiveSockets other :=
  server.setSocket_of_ne _ apart

theorem OrderServer.respond_eq {server : OrderServer} {r : MEClientResponse}
    {socket : SocketId} (inTable : r.clientId < ME_MAX_NUM_CLIENTS)
    (seat : server.cidTcpSocket r.clientId = some socket)
    (room : (server.receiveSockets socket).outboundData.length + Packed.omClientResponse.size ≤
      TCPBufferSize) :
    server.respond r = .ok (server.answered socket r) := by
  rw [← Packed.length_pack Packed.omClientResponse ⟨server.cidNextOutgoingSeqNum r.clientId, r⟩,
    Packed.pack_omClientResponse] at room
  have sent := TCPSocket.send_two room
  rw [OrderServer.answered, Packed.pack_omClientResponse]
  unfold OrderServer.respond
  rw [if_pos inTable, seat]
  dsimp only
  rw [← bind_assoc, sent]
  rfl

/-! ## The system -/

structure Link where
  gateway : OrderGateway
  server : OrderServer
  /-- Bytes the kernel took from the gateway that the server has not read. -/
  toServer : List UInt8
  toGateway : List UInt8

/-- The steps of the two threads. A poll of the connection reads `count` bytes where so many
are under way and fit; every `::send` on the connection takes the whole buffer. -/
inductive LinkEvent
  | request (r : MEClientRequest)
  | response (r : MEClientResponse)
  | gatewayPoll (count : Nat) (kernelTime : Nanos)
  | serverPoll (count : Nat) (kernelTime : Nanos)
  | otherPoll (other : SocketId) (read : List UInt8) (kernelTime : Nanos) (n : Int)
  | recvFinished
  deriving DecidableEq, Repr

inductive LinkOutput
  | received (x : Received)
  | delivered (x : Delivered)
  deriving DecidableEq, Repr

namespace Link

def new (client : ClientId) : Link := ⟨OrderGateway.new client, OrderServer.new, [], []⟩

/-- What `recvmsg` takes from the bytes under way: the buffer ends at `TCPBufferSize`. -/
def arriving (underway : List UInt8) (s : TCPSocket) (count : Nat) : List UInt8 :=
  underway.take (min count (TCPBufferSize - s.inboundData.length))

/-- One step; `socket` is the server's end of the connection. -/
def step (socket : SocketId) (link : Link) :
    LinkEvent → Except TransportFault (Link × List LinkOutput)
  | .request r => do
    let gateway ← link.gateway.request r
    pure ({ link with gateway }, [])
  | .response r => do
    let server ← link.server.respond r
    pure ({ link with server }, [])
  | .gatewayPoll count kernelTime => do
    let read := arriving link.toGateway link.gateway.tcpSocket count
    let (gateway, delivered, taken) ←
      link.gateway.sendAndRecv read kernelTime link.gateway.tcpSocket.outboundData.length
    pure ({ link with
        gateway, toServer := link.toServer ++ taken,
        toGateway := link.toGateway.drop read.length },
      delivered.map .delivered)
  | .serverPoll count kernelTime => do
    let read := arriving link.toServer (link.server.receiveSockets socket) count
    let (server, received, taken) ← link.server.sendAndRecv socket read kernelTime
      (link.server.receiveSockets socket).outboundData.length
    pure ({ link with
        server, toServer := link.toServer.drop read.length,
        toGateway := link.toGateway ++ taken },
      received.map .received)
  | .otherPoll other read kernelTime n => do
    let (server, received, _) ← link.server.sendAndRecv other read kernelTime n
    pure ({ link with server }, received.map .received)
  | .recvFinished => .ok ({ link with server := link.server.recvFinishedCallback }, [])

/-- The sequencer has room for the records that a read of a socket completes. -/
def Room (server : OrderServer) (socket : SocketId) (read : List UInt8) : Prop :=
  server.pending + ((server.receiveSockets socket).inboundData ++ read).length /
    Packed.omClientRequest.size ≤ ME_MAX_PENDING_REQUESTS

instance (server : OrderServer) (socket : SocketId) (read : List UInt8) :
    Decidable (Room server socket read) := Nat.decLe _ _

/-- The gateway's requests carry its client id, responses go to clients that have sent a
request, other connections carry no record of this client, and neither the send buffers
nor the sequencer are full. -/
def Admissible (socket : SocketId) (client : ClientId) (link : Link) : LinkEvent → Prop
  | .request r => (r.InRange ∧ r.clientId = client) ∧
      link.gateway.tcpSocket.outboundData.length + Packed.omClientRequest.size ≤ TCPBufferSize
  | .response r => r.InRange ∧ r.clientId < ME_MAX_NUM_CLIENTS ∧
      ∃ s ∈ link.server.cidTcpSocket r.clientId,
        (link.server.receiveSockets s).outboundData.length + Packed.omClientResponse.size ≤
          TCPBufferSize
  | .gatewayPoll .. => True
  | .serverPoll count _ =>
      Room link.server socket (arriving link.toServer (link.server.receiveSockets socket) count)
  | .otherPoll other read _ _ => other ≠ socket ∧
      (∀ m ∈ (frames Packed.omClientRequest.size
          ((link.server.receiveSockets other).inboundData ++ read)).map
            Packed.omClientRequest.unpack,
        m.meClientRequest.clientId < ME_MAX_NUM_CLIENTS ∧
          m.meClientRequest.clientId ≠ client) ∧
      Room link.server other read
  | .recvFinished => True

instance (socket : SocketId) (client : ClientId) (link : Link) :
    ∀ event, Decidable (Admissible socket client link event)
  | .request _ => inferInstanceAs (Decidable (_ ∧ _))
  | .response r =>
      inferInstanceAs (Decidable (r.InRange ∧ r.clientId < ME_MAX_NUM_CLIENTS ∧
        ∃ s ∈ link.server.cidTcpSocket r.clientId,
          (link.server.receiveSockets s).outboundData.length + Packed.omClientResponse.size ≤
            TCPBufferSize))
  | .gatewayPoll .. => isTrue trivial
  | .serverPoll .. => inferInstanceAs (Decidable (Room _ _ _))
  | .otherPoll .. => inferInstanceAs (Decidable (_ ∧ _ ∧ _))
  | .recvFinished => isTrue trivial

end Link

/-! ## What goes in and what comes out -/

/-- The requests popped by the gateway. -/
def requestsOf : List LinkEvent → List MEClientRequest :=
  List.filterMap fun
    | .request r => some r
    | _ => none

/-- The responses that the server sends for the client. -/
def responsesOf (client : ClientId) : List LinkEvent → List MEClientResponse :=
  List.filterMap fun
    | .response r => if r.clientId = client then some r else none
    | _ => none

/-- What became of the client's records at the server. -/
def receivedOf (client : ClientId) : List LinkOutput → List Received :=
  List.filterMap fun
    | .received x => if x.request.clientId = client then some x else none
    | .delivered _ => none

/-- What became of the records at the gateway. -/
def deliveredOf : List LinkOutput → List Delivered :=
  List.filterMap fun
    | .received _ => none
    | .delivered x => some x

section Outputs

variable {client : ClientId}

theorem receivedOf_map (xs : List Received) :
    receivedOf client (xs.map .received) = xs.filter (·.request.clientId = client) := by
  induction xs with
  | nil => rfl
  | cons x xs ih =>
      rw [receivedOf] at ih
      rw [receivedOf, List.map_cons, List.filter_cons, ← ih]
      rcases eq_or_ne x.request.clientId client with mine | foreign
      · simp [mine]
      · simp [foreign]

theorem receivedOf_delivered (xs : List Delivered) :
    receivedOf client (xs.map .delivered) = [] := by
  rw [receivedOf, List.filterMap_map]
  exact List.filterMap_eq_nil_iff.mpr fun x _ => rfl

theorem deliveredOf_received (xs : List Received) : deliveredOf (xs.map .received) = [] := by
  rw [deliveredOf, List.filterMap_map]
  exact List.filterMap_eq_nil_iff.mpr fun x _ => rfl

theorem deliveredOf_map (xs : List Delivered) : deliveredOf (xs.map .delivered) = xs := by
  rw [deliveredOf, List.filterMap_map]
  exact List.filterMap_some

end Outputs

/-! ## Every run -/

/-- What holds of the system when the gateway has popped `requests` and the server
`responses`, and `handed` and `passed` are what came out at the other ends. -/
structure Link.Carries (link : Link) (socket : SocketId) (client : ClientId)
    (requests handed : List MEClientRequest) (responses passed : List MEClientResponse) :
    Prop where
  toServer : ExactlyOnce Packed.omClientRequest OMClientRequest.mk requests handed
    (link.server.receiveSockets socket).inboundData
    (link.toServer ++ link.gateway.tcpSocket.outboundData)
  toGateway : ExactlyOnce Packed.omClientResponse OMClientResponse.mk responses passed
    link.gateway.tcpSocket.inboundData
    (link.toGateway ++ (link.server.receiveSockets socket).outboundData)
  serves : link.server.Serves socket client handed.length responses.length
  named : link.gateway.clientId = client
  numbers : link.gateway.nextOutgoingSeqNum = seqAfter requests.length
  expects : link.gateway.nextExpSeqNum = seqAfter passed.length
  requestsFit : ∀ r ∈ requests, r.InRange ∧ r.clientId = client
  responsesFit : ∀ r ∈ responses, r.InRange ∧ r.clientId = client

namespace Link

variable {link : Link} {socket : SocketId} {client : ClientId}
  {requests handed : List MEClientRequest} {responses passed : List MEClientResponse}

theorem Carries.new (socket : SocketId) (client : ClientId) :
    (Link.new client).Carries socket client [] [] [] [] where
  toServer := ExactlyOnce.start (by decide)
  toGateway := ExactlyOnce.start (by decide)
  serves := ⟨fun _ seat => (nomatch seat), fun _ seat => (nomatch seat), rfl, rfl⟩
  named := rfl
  numbers := rfl
  expects := rfl
  requestsFit := fun _ mem => (nomatch mem)
  responsesFit := fun _ mem => (nomatch mem)

theorem arriving_append (underway : List UInt8) (s : TCPSocket) (count : Nat) :
    arriving underway s count ++ underway.drop (arriving underway s count).length =
      underway :=
  List.prefix_iff_eq_append.mp (List.take_prefix _ _)

/-- The gateway pops a request. -/
theorem Carries.request (carries : link.Carries socket client requests handed responses passed)
    {r : MEClientRequest} (admissible : Admissible socket client link (.request r)) :
    ∃ next, step socket link (.request r) = .ok (next, []) ∧ next.server = link.server ∧
      next.Carries socket client (requests ++ [r]) handed responses passed := by
  obtain ⟨fits, room⟩ := admissible
  refine ⟨_, by rw [step, OrderGateway.request_eq r room]; rfl, ?_, ?_⟩
  · rfl
  constructor
  · have sent := carries.toServer.send r
    rw [List.append_assoc, ← carries.numbers] at sent
    exact sent
  · exact carries.toGateway
  · exact carries.serves
  · exact carries.named
  · show link.gateway.nextOutgoingSeqNum + 1 = _
    rw [carries.numbers, List.length_append, List.length_singleton, seqAfter_succ]
  · exact carries.expects
  · intro r' mem
    rcases List.mem_append.mp mem with before | last
    · exact carries.requestsFit r' before
    · rw [List.mem_singleton.mp last]
      exact fits
  · exact carries.responsesFit

/-- The gateway pops one request many times. -/
theorem Carries.requests_replicate {r : MEClientRequest} (n : Nat)
    (carries : link.Carries socket client requests handed responses passed)
    (fits : r.InRange ∧ r.clientId = client)
    (room : (requests.length + n) * Packed.omClientRequest.size ≤ TCPBufferSize) :
    ∃ next, run (step socket) link (List.replicate n (.request r)) = .ok (next, []) ∧
      next.server = link.server ∧
      next.Carries socket client (requests ++ List.replicate n r) handed responses passed := by
  induction n generalizing link requests with
  | zero => exact ⟨link, rfl, rfl, by simpa using carries⟩
  | succ n ih =>
      have underway := carries.toServer.length_underway
      rw [List.length_append, List.length_append] at underway
      have one : (requests.length + 1) * Packed.omClientRequest.size ≤ TCPBufferSize :=
        le_trans (Nat.mul_le_mul_right _ (by omega)) room
      rw [Nat.add_mul] at one
      obtain ⟨mid, first, server, mids⟩ := carries.request ⟨fits, by omega⟩
      obtain ⟨next, rest, server', ends⟩ := ih mids (by
        rw [List.length_append, List.length_singleton, Nat.add_assoc, Nat.add_comm 1]
        exact room)
      refine ⟨next, ?_, server'.trans server, ?_⟩
      · rw [List.replicate_succ]
        exact run_cons_eq_ok first rest
      · rw [List.replicate_succ]
        simpa using ends

/-- The server pops a response of the client. -/
theorem Carries.response_own
    (carries : link.Carries socket client requests handed responses passed)
    {r : MEClientResponse} (admissible : Admissible socket client link (.response r))
    (mine : r.clientId = client) :
    ∃ next, step socket link (.response r) = .ok (next, []) ∧
      next.Carries socket client requests handed (responses ++ [r]) passed := by
  obtain ⟨fits, inTable, s, seat, room⟩ := admissible
  have home : s = socket := carries.serves.own s (mine ▸ seat)
  subst home
  refine ⟨_, by rw [step, OrderServer.respond_eq inTable seat room]; rfl, ?_⟩
  constructor
  · simpa [OrderServer.answered] using carries.toServer
  · have sent := carries.toGateway.send r
    rw [List.append_assoc, ← carries.serves.numbers, ← mine] at sent
    simpa [OrderServer.answered] using sent
  · constructor
    · exact carries.serves.own
    · exact carries.serves.others
    · exact carries.serves.expects
    · rw [List.length_append, List.length_singleton, seqAfter_succ, ← carries.serves.numbers,
        ← mine]
      exact Function.update_self _ _ _
  · exact carries.named
  · exact carries.numbers
  · exact carries.expects
  · exact carries.requestsFit
  · intro r' mem
    rcases List.mem_append.mp mem with before | last
    · exact carries.responsesFit r' before
    · rw [List.mem_singleton.mp last]
      exact ⟨fits, mine⟩

/-- The server pops a response of another client. -/
theorem Carries.response_other
    (carries : link.Carries socket client requests handed responses passed)
    {r : MEClientResponse} (admissible : Admissible socket client link (.response r))
    (foreign : r.clientId ≠ client) :
    ∃ next, step socket link (.response r) = .ok (next, []) ∧
      next.Carries socket client requests handed responses passed := by
  obtain ⟨-, inTable, s, seat, room⟩ := admissible
  have apart : socket ≠ s := fun same => foreign (carries.serves.others _ (same ▸ seat))
  have kept := link.server.answered_of_ne r apart
  refine ⟨_, by rw [step, OrderServer.respond_eq inTable seat room]; rfl, ?_⟩
  constructor
  · exact kept ▸ carries.toServer
  · exact kept ▸ carries.toGateway
  · constructor
    · exact carries.serves.own
    · exact carries.serves.others
    · exact carries.serves.expects
    · rw [← carries.serves.numbers]
      exact Function.update_of_ne foreign.symm _ _
  · exact carries.named
  · exact carries.numbers
  · exact carries.expects
  · exact carries.requestsFit
  · exact carries.responsesFit

/-- The gateway reads. -/
theorem Carries.gatewayPoll
    (carries : link.Carries socket client requests handed responses passed) (count : Nat)
    (time : Nanos) :
    ∃ next here, step socket link (.gatewayPoll count time) =
        .ok (next, (here.map Delivered.pushed).map .delivered) ∧
      next.server = link.server ∧ next.gateway.tcpSocket.outboundData = [] ∧
      next.Carries socket client requests handed responses (passed ++ here) := by
  have arrives := carries.toGateway
  rw [← arriving_append link.toGateway link.gateway.tcpSocket count, List.append_assoc]
    at arrives
  obtain ⟨here, inbound, polled, once⟩ :=
    OrderGateway.poll time carries.named carries.expects arrives carries.responsesFit
  refine ⟨_, here, by rw [step]; dsimp only; rw [polled]; rfl, ?_, ?_, ?_⟩
  · rfl
  · rfl
  constructor
  · simpa using carries.toServer
  · exact once
  · exact carries.serves
  · exact carries.named
  · exact carries.numbers
  · rfl
  · exact carries.requestsFit
  · exact carries.responsesFit

/-- The server reads the connection. -/
theorem Carries.serverPoll
    (carries : link.Carries socket client requests handed responses passed) {count : Nat}
    {time : Nanos} (admissible : Admissible socket client link (.serverPoll count time))
    (inTable : client < ME_MAX_NUM_CLIENTS) :
    ∃ next here, step socket link (.serverPoll count time) =
        .ok (next, (here.map Received.added).map .received) ∧
      next.Carries socket client requests (handed ++ here) responses passed := by
  have arrives := carries.toServer
  rw [← arriving_append link.toServer (link.server.receiveSockets socket) count,
    List.append_assoc] at arrives
  obtain ⟨server', here, polled, serves, once, emptied⟩ :=
    carries.serves.poll_own time arrives carries.requestsFit inTable admissible
  refine ⟨_, here, by rw [step]; dsimp only; rw [polled]; rfl, ?_⟩
  constructor
  · exact once
  · simpa [emptied] using carries.toGateway
  · exact serves
  · exact carries.named
  · exact carries.numbers
  · exact carries.expects
  · exact carries.requestsFit
  · exact carries.responsesFit

/-- The server reads another connection. -/
theorem Carries.otherPoll
    (carries : link.Carries socket client requests handed responses passed)
    {other : SocketId} {read : List UInt8} {time : Nanos} {n : Int}
    (admissible : Admissible socket client link (.otherPoll other read time n)) :
    ∃ next, ∃ received : List Received, step socket link (.otherPoll other read time n) =
        .ok (next, received.map .received) ∧
      (∀ x ∈ received, x.request.clientId ≠ client) ∧
      next.Carries socket client requests handed responses passed := by
  obtain ⟨apart, foreign, room⟩ := admissible
  obtain ⟨server', received, taken, polled, others, serves, kept⟩ :=
    carries.serves.poll_other time apart n foreign room
  refine ⟨_, received, by rw [step, polled]; rfl, others, ?_⟩
  constructor
  · exact kept ▸ carries.toServer
  · exact kept ▸ carries.toGateway
  · exact serves
  · exact carries.named
  · exact carries.numbers
  · exact carries.expects
  · exact carries.requestsFit
  · exact carries.responsesFit

/-- `Carries` along a run, with what came out. -/
def Conveys (socket : SocketId) (client : ClientId) (link : Link) (events : List LinkEvent)
    (out : List LinkOutput) : Prop :=
  ∃ handed passed, receivedOf client out = handed.map .added ∧
    deliveredOf out = passed.map .pushed ∧
    link.Carries socket client (requestsOf events) handed (responsesOf client events) passed

/-- Every admissible step returns and keeps the invariant. -/
theorem Conveys.progress {events : List LinkEvent} {out : List LinkOutput} {event : LinkEvent}
    (inTable : client < ME_MAX_NUM_CLIENTS) (conveys : Conveys socket client link events out)
    (admissible : Admissible socket client link event) :
    ∃ next now, step socket link event = .ok (next, now) ∧
      Conveys socket client next (events ++ [event]) (out ++ now) := by
  obtain ⟨handed, passed, received, delivered, carries⟩ := conveys
  unfold Conveys
  rw [receivedOf, requestsOf, responsesOf, deliveredOf] at *
  simp only [List.filterMap_append]
  cases event with
  | request r =>
      obtain ⟨next, stepped, -, kept⟩ := carries.request admissible
      exact ⟨next, [], stepped, handed, passed, by simpa using received,
        by simpa using delivered, by simpa using kept⟩
  | response r =>
      rcases eq_or_ne r.clientId client with mine | foreign
      · obtain ⟨next, stepped, kept⟩ := carries.response_own admissible mine
        exact ⟨next, [], stepped, handed, passed, by simpa using received,
          by simpa using delivered, by simpa [mine] using kept⟩
      · obtain ⟨next, stepped, kept⟩ := carries.response_other admissible foreign
        exact ⟨next, [], stepped, handed, passed, by simpa using received,
          by simpa using delivered, by simpa [foreign] using kept⟩
  | gatewayPoll count time =>
      obtain ⟨next, here, stepped, -, -, kept⟩ := carries.gatewayPoll count time
      refine ⟨next, _, stepped, handed, passed ++ here, ?_, ?_, by simpa using kept⟩
      · rw [received, ← receivedOf, receivedOf_delivered, List.append_nil]
      · rw [delivered, ← deliveredOf, deliveredOf_map, List.map_append]
  | serverPoll count time =>
      obtain ⟨next, here, stepped, kept⟩ := carries.serverPoll admissible inTable
      have mine : ∀ x ∈ here.map Received.added, decide (x.request.clientId = client) = true := by
        intro x mem
        obtain ⟨r, memR, rfl⟩ := List.mem_map.mp mem
        exact decide_eq_true (carries.requestsFit r
          (kept.toServer.arrived_prefix.subset (List.mem_append_right _ memR))).2
      refine ⟨next, _, stepped, handed ++ here, passed, ?_, ?_, by simpa using kept⟩
      · rw [received, ← receivedOf, receivedOf_map, List.filter_eq_self.mpr mine,
          List.map_append]
      · rw [delivered, ← deliveredOf, deliveredOf_received, List.append_nil]
  | otherPoll other read time n =>
      obtain ⟨next, xs, stepped, others, kept⟩ := carries.otherPoll admissible
      have foreign : ∀ x ∈ xs, ¬ decide (x.request.clientId = client) = true := by
        intro x mem
        simpa using others x mem
      refine ⟨next, _, stepped, handed, passed, ?_, ?_, by simpa using kept⟩
      · rw [received, ← receivedOf, receivedOf_map, List.filter_eq_nil_iff.mpr foreign,
          List.append_nil]
      · rw [delivered, ← deliveredOf, deliveredOf_received, List.append_nil]
  | recvFinished =>
      refine ⟨{ link with server := link.server.recvFinishedCallback }, [], rfl, handed, passed,
        by simpa using received, by simpa using delivered, ?_⟩
      have same : { link with server := link.server.recvFinishedCallback }.Carries socket client
          (requestsOf events) handed (responsesOf client events) passed :=
        ⟨carries.toServer, carries.toGateway,
          ⟨carries.serves.own, carries.serves.others, carries.serves.expects,
            carries.serves.numbers⟩, carries.named, carries.numbers, carries.expects,
          carries.requestsFit, carries.responsesFit⟩
      simpa [requestsOf, responsesOf] using same

end Link

/-- **Exactly once and in order**, for every sequence of events in which no buffer is filled
past its end: the run returns, everything the server received from the client was handed to
the sequencer, namely the first of the popped requests, the gateway passed on the first of
the responses, and what is still under way completes both. Nothing was dropped, and either
receive buffer holds a strict prefix of one record. -/
theorem run_exactlyOnce (socket : SocketId) (client : ClientId)
    (inTable : client < ME_MAX_NUM_CLIENTS) (events : List LinkEvent)
    (admits : Admits (Link.Admissible socket client) (Link.step socket) (Link.new client) events) :
    ∃ link out, run (Link.step socket) (Link.new client) events = .ok (link, out) ∧
      ∃ handed passed, receivedOf client out = handed.map .added ∧
        deliveredOf out = passed.map .pushed ∧
        ExactlyOnce Packed.omClientRequest OMClientRequest.mk (requestsOf events) handed
          (link.server.receiveSockets socket).inboundData
          (link.toServer ++ link.gateway.tcpSocket.outboundData) ∧
        ExactlyOnce Packed.omClientResponse OMClientResponse.mk (responsesOf client events) passed
          link.gateway.tcpSocket.inboundData
          (link.toGateway ++ (link.server.receiveSockets socket).outboundData) ∧
        (∃ record, (link.server.receiveSockets socket).inboundData <+:
            Packed.omClientRequest.pack record ∧
          (link.server.receiveSockets socket).inboundData.length <
            (Packed.omClientRequest.pack record).length) ∧
        ∃ record, link.gateway.tcpSocket.inboundData <+: Packed.omClientResponse.pack record ∧
          link.gateway.tcpSocket.inboundData.length <
            (Packed.omClientResponse.pack record).length := by
  have start : Link.Conveys socket client (Link.new client) [] [] :=
    ⟨[], [], rfl, rfl, Link.Carries.new socket client⟩
  obtain ⟨link, out, ran, handed, passed, received, delivered, carries⟩ :=
    run_admitted start (fun holds admissible => holds.progress inTable admissible) admits
  exact ⟨link, out, ran, handed, passed, received, delivered, carries.toServer,
    carries.toGateway,
    carries.toServer.strict_prefix ⟨0, ⟨.INVALID, 0, 0, 0, .INVALID, 0, 0⟩⟩,
    carries.toGateway.strict_prefix ⟨0, ⟨.INVALID, 0, 0, 0, 0, .INVALID, 0, 0, 0⟩⟩⟩

/-- The gateway pops `n` requests, hands them over in one write, and the server reads them
at once: with more than the sequencer holds, the server exits. -/
theorem Link.run_full (socket : SocketId) {client : ClientId} {r : MEClientRequest} {n : Nat}
    (inTable : client < ME_MAX_NUM_CLIENTS) (fits : r.InRange ∧ r.clientId = client)
    (many : ME_MAX_PENDING_REQUESTS < n)
    (room : n * Packed.omClientRequest.size ≤ TCPBufferSize) :
    run (Link.step socket) (Link.new client) (List.replicate n (.request r) ++
      [.gatewayPoll 0 0, .serverPoll (n * Packed.omClientRequest.size) 1]) =
        .error .tooManyPending := by
  have pos : 0 < Packed.omClientRequest.size := by decide
  obtain ⟨popped, ran, server, carries⟩ :=
    (Link.Carries.new socket client).requests_replicate n fits (by simpa using room)
  obtain ⟨polled, here, stepped, server', emptied, kept⟩ := carries.gatewayPoll 0 0
  have fresh : polled.server = OrderServer.new := server'.trans server
  -- everything is under way to the server
  have once := kept.toServer
  have inbound : (polled.server.receiveSockets socket).inboundData = [] := by
    rw [fresh]
    rfl
  have size := once.length_underway
  rw [emptied, inbound, List.append_nil, List.nil_append, List.nil_append,
    List.length_replicate, List.length_nil, Nat.zero_mul, Nat.add_zero] at size
  have whole : arriving polled.toServer (polled.server.receiveSockets socket)
      (n * Packed.omClientRequest.size) = polled.toServer := by
    apply List.take_of_length_le
    rw [inbound, List.length_nil]
    omega
  have count : ((polled.server.receiveSockets socket).inboundData ++ polled.toServer).length /
      Packed.omClientRequest.size = n := by
    rw [inbound, List.nil_append, size, Nat.mul_div_cancel _ pos]
  have full := kept.serves.poll_full 1 once kept.requestsFit inTable (by omega) (by omega)
    (polled.server.receiveSockets socket).outboundData.length
  have last : step socket polled (.serverPoll (n * Packed.omClientRequest.size) 1) =
      .error .tooManyPending := by
    rw [step]
    dsimp only
    rw [whole, full]
    rfl
  apply run_append_fault ran
  rw [run, stepped]
  show (run _ polled [_] >>= _) = _
  rw [run, last]
  rfl

/-- One read of more requests than the sequencer holds ends the process, and the last
request is never handed on. -/
theorem not_exactlyOnce_full :
    run (Link.step 3) (Link.new 1)
      (List.replicate 1025 (.request ⟨.NEW, 1, 0, 1, .BUY, 100, 5⟩) ++
        [.gatewayPoll 0 0, .serverPoll 38950 1]) = .error .tooManyPending :=
  Link.run_full 3 (by decide) ⟨by decide, rfl⟩ (by decide) (by decide)

/-- A request in two pieces and one behind it, another client's connection, and a response
in two pieces. -/
theorem run_exactlyOnce_pieces :
    ∃ link out, run (Link.step 3) (Link.new 1)
        [.request ⟨.NEW, 1, 0, 1, .BUY, 100, 5⟩, .gatewayPoll 0 0, .serverPoll 20 1,
          .otherPoll 4 (Packed.omClientRequest.pack ⟨1, ⟨.NEW, 2, 0, 1, .SELL, -100, 5⟩⟩) 1 0,
          .recvFinished, .request ⟨.CANCEL, 1, 0, 1, .BUY, 100, 5⟩, .gatewayPoll 0 1,
          .serverPoll 100 2, .response ⟨.ACCEPTED, 1, 0, 1, 1, .BUY, 100, 0, 5⟩,
          .serverPoll 0 3, .gatewayPoll 7 4, .gatewayPoll 43 5] = .ok (link, out) ∧
      ∃ handed passed, receivedOf 1 out = handed.map .added ∧
        deliveredOf out = passed.map .pushed ∧
        ExactlyOnce Packed.omClientRequest OMClientRequest.mk
          [⟨.NEW, 1, 0, 1, .BUY, 100, 5⟩, ⟨.CANCEL, 1, 0, 1, .BUY, 100, 5⟩] handed
          (link.server.receiveSockets 3).inboundData
          (link.toServer ++ link.gateway.tcpSocket.outboundData) ∧
        ExactlyOnce Packed.omClientResponse OMClientResponse.mk
          [⟨.ACCEPTED, 1, 0, 1, 1, .BUY, 100, 0, 5⟩] passed
          link.gateway.tcpSocket.inboundData
          (link.toGateway ++ (link.server.receiveSockets 3).outboundData) ∧
        (∃ record, (link.server.receiveSockets 3).inboundData <+:
            Packed.omClientRequest.pack record ∧
          (link.server.receiveSockets 3).inboundData.length <
            (Packed.omClientRequest.pack record).length) ∧
        ∃ record, link.gateway.tcpSocket.inboundData <+: Packed.omClientResponse.pack record ∧
          link.gateway.tcpSocket.inboundData.length <
            (Packed.omClientResponse.pack record).length :=
  run_exactlyOnce 3 1 (by decide) _ (by decide +kernel)

end NanoTrade
