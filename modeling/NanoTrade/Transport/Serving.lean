import NanoTrade.Transport.ExactlyOnce

/-!
# What the two ends do with a read

`OrderServer.Serves` is what the server has to know about one client for its requests to
be handed on. `Serves.poll_own`: a read of the client's connection hands on the requests it
completes, in order, and nothing else; `Serves.poll_other`: other connections do not
disturb that. `OrderGateway.poll` is the same for responses.
-/

namespace NanoTrade

/-- The server serves `client` on `socket` and nobody else there: `arrived` of its requests
were handed on, `responded` of its responses were sent. -/
structure OrderServer.Serves (server : OrderServer) (socket : SocketId) (client : ClientId)
    (arrived responded : Nat) : Prop where
  own : ∀ s, server.cidTcpSocket client = some s → s = socket
  others : ∀ c, server.cidTcpSocket c = some socket → c = client
  expects : server.cidNextExpSeqNum client = seqAfter arrived
  numbers : server.cidNextOutgoingSeqNum client = seqAfter responded

namespace OrderServer

variable {server : OrderServer} {socket other : SocketId} {client : ClientId}
  {arrived responded : Nat} (rxTime : Nanos)

/-- How many requests are pending in the sequencer. -/
def pending (server : OrderServer) : Nat := server.fifoSequencer.pendingClientRequests.length

theorem addClientRequest_eq {f : FIFOSequencer} (request : MEClientRequest)
    (room : f.pendingClientRequests.length < ME_MAX_PENDING_REQUESTS) :
    f.addClientRequest rxTime request =
      some ⟨f.pendingClientRequests ++ [⟨rxTime, request⟩]⟩ := by
  rw [FIFOSequencer.addClientRequest, if_neg (by omega)]

/-- The server that knows the socket of a client. -/
def assign (server : OrderServer) (socket : SocketId) (client : ClientId) : OrderServer :=
  { server with cidTcpSocket := Function.update server.cidTcpSocket client (some socket) }

/-- The server behind a request that it hands to the sequencer. -/
def handOn (server : OrderServer) (socket : SocketId) (rxTime : Nanos)
    (request : MEClientRequest) : OrderServer :=
  { server.assign socket request.clientId with
    cidNextExpSeqNum := Function.update server.cidNextExpSeqNum request.clientId
      (server.cidNextExpSeqNum request.clientId + 1)
    fifoSequencer := ⟨server.fifoSequencer.pendingClientRequests ++ [⟨rxTime, request⟩]⟩ }

/-- What `receive` does, by cases: with the client on another socket, with a gap, and
otherwise. -/
theorem receive_cases (socket : SocketId) (server : OrderServer)
    (packet : OMClientRequest) (inTable : packet.meClientRequest.clientId < ME_MAX_NUM_CLIENTS)
    (room : server.pending < ME_MAX_PENDING_REQUESTS) :
    ((∃ s, server.cidTcpSocket packet.meClientRequest.clientId = some s ∧ s ≠ socket) ∧
      server.receive socket rxTime packet =
        .ok (server, [.otherSocket packet.meClientRequest])) ∨
    ((∀ s, server.cidTcpSocket packet.meClientRequest.clientId = some s → s = socket) ∧
      packet.seqNum ≠ server.cidNextExpSeqNum packet.meClientRequest.clientId ∧
      server.receive socket rxTime packet =
        .ok (server.assign socket packet.meClientRequest.clientId,
          [.incorrectSeqNum packet.meClientRequest])) ∨
    ((∀ s, server.cidTcpSocket packet.meClientRequest.clientId = some s → s = socket) ∧
      packet.seqNum = server.cidNextExpSeqNum packet.meClientRequest.clientId ∧
      server.receive socket rxTime packet =
        .ok (server.handOn socket rxTime packet.meClientRequest,
          [.added packet.meClientRequest])) := by
  obtain ⟨seqNum, request⟩ := packet
  have full := addClientRequest_eq rxTime request room
  simp only [receive, if_pos inTable]
  cases seat : server.cidTcpSocket request.clientId with
  | none =>
      right
      simp only [if_pos, Function.update_self, ne_eq, not_true_eq_false, if_false]
      rcases eq_or_ne seqNum (server.cidNextExpSeqNum request.clientId) with inOrder | gap
      · right
        refine ⟨fun s seat => by simp at seat, inOrder, ?_⟩
        rw [if_neg (not_not.mpr inOrder), full]
        rfl
      · left
        exact ⟨fun s seat => by simp at seat, gap, by rw [if_pos gap, assign]⟩
  | some s =>
      simp only [reduceCtorEq, if_false, seat]
      rcases eq_or_ne s socket with rfl | different
      · right
        have same : Function.update server.cidTcpSocket request.clientId (some s) =
            server.cidTcpSocket := by
          rw [← seat, Function.update_eq_self]
        simp only [ne_eq, not_true_eq_false, if_false]
        rcases eq_or_ne seqNum (server.cidNextExpSeqNum request.clientId) with inOrder | gap
        · right
          refine ⟨fun t seat => (Option.some.inj seat).symm, inOrder, ?_⟩
          rw [if_neg (not_not.mpr inOrder), full, handOn, assign, same]
        · left
          refine ⟨fun t seat => (Option.some.inj seat).symm, gap, ?_⟩
          rw [if_pos gap, assign, same]
      · left
        refine ⟨⟨s, rfl, different⟩, ?_⟩
        rw [if_pos fun same => different (Option.some.inj same)]

/-- The next request of a known client, on its own connection or on its first one. -/
structure Expected (socket : SocketId) (server : OrderServer) (packet : OMClientRequest) :
    Prop where
  known : packet.meClientRequest.clientId < ME_MAX_NUM_CLIENTS
  own : ∀ s, server.cidTcpSocket packet.meClientRequest.clientId = some s → s = socket
  next : packet.seqNum = server.cidNextExpSeqNum packet.meClientRequest.clientId

/-- An expected request is handed to the sequencer; with that full, it ends the process. -/
theorem Expected.receive_eq {packet : OMClientRequest} (expected : Expected socket server packet) :
    server.receive socket rxTime packet =
      if server.pending < ME_MAX_PENDING_REQUESTS then
        .ok (server.handOn socket rxTime packet.meClientRequest,
          [.added packet.meClientRequest])
      else .error .tooManyPending := by
  split
  · rename_i room
    rcases receive_cases rxTime socket server packet expected.known room with
      ⟨⟨s, seat, different⟩, -⟩ | ⟨-, gap, -⟩ | ⟨-, -, handed⟩
    · exact absurd (expected.own s seat) different
    · exact absurd expected.next gap
    · exact handed
  · rename_i full
    have refused : server.fifoSequencer.addClientRequest rxTime packet.meClientRequest = none :=
      if_pos (Nat.le_of_not_lt full)
    have next := expected.next
    unfold receive
    simp only [if_pos expected.known]
    cases seat : server.cidTcpSocket packet.meClientRequest.clientId with
    | none => simp [next, refused]
    | some s =>
        have home := expected.own s seat
        simp [seat, home, next, refused]

theorem pending_handOn (request : MEClientRequest) :
    (server.handOn socket rxTime request).pending = server.pending + 1 := by
  simp [pending, handOn]

section Expected

variable {packets : List OMClientRequest}

/-- Expected requests in a row, while the sequencer has room. -/
theorem run_expected (expected : Admits (Expected socket) (receive socket rxTime) server packets)
    (room : server.pending + packets.length ≤ ME_MAX_PENDING_REQUESTS) :
    ∃ server', run (receive socket rxTime) server packets =
        .ok (server', packets.map fun m => .added m.meClientRequest) ∧
      server'.pending = server.pending + packets.length ∧
      server'.receiveSockets = server.receiveSockets := by
  induction packets generalizing server with
  | nil => exact ⟨server, rfl, rfl, rfl⟩
  | cons m packets ih =>
      obtain ⟨here, later⟩ := expected
      rw [List.length_cons] at room
      have handed := here.receive_eq rxTime
      rw [if_pos (by omega)] at handed
      rw [handed] at later
      obtain ⟨server', ran, count, sockets⟩ := ih later (by rw [pending_handOn]; omega)
      refine ⟨server', run_cons_eq_ok handed ran, ?_, sockets⟩
      rw [count, pending_handOn, List.length_cons]
      omega

/-- With one more than that, the process ends. -/
theorem run_expected_full
    (expected : Admits (Expected socket) (receive socket rxTime) server packets)
    (full : ME_MAX_PENDING_REQUESTS < server.pending + packets.length) (nonempty : packets ≠ []) :
    run (receive socket rxTime) server packets = .error .tooManyPending := by
  induction packets generalizing server with
  | nil => exact absurd rfl nonempty
  | cons m packets ih =>
      obtain ⟨here, later⟩ := expected
      have handed := here.receive_eq rxTime
      rw [List.length_cons] at full
      rw [run]
      by_cases room : server.pending < ME_MAX_PENDING_REQUESTS
      · rw [if_pos room] at handed
        rw [handed] at later
        have more : packets ≠ [] := by
          rintro rfl
          rw [List.length_nil] at full
          omega
        have rest := ih later (by rw [pending_handOn]; omega) more
        rw [handed]
        show (run _ _ _ >>= _) = _
        rw [rest]
        rfl
      · rw [handed, if_neg room]
        rfl

end Expected

theorem Serves.expected (serves : server.Serves socket client arrived responded)
    {request : MEClientRequest} (mine : request.clientId = client)
    (inTable : client < ME_MAX_NUM_CLIENTS) :
    Expected socket server ⟨seqAfter arrived, request⟩ := by
  subst mine
  exact ⟨inTable, serves.own, serves.expects.symm⟩

theorem Serves.handed (serves : server.Serves socket client arrived responded)
    {request : MEClientRequest} (mine : request.clientId = client) :
    (server.handOn socket rxTime request).Serves socket client (arrived + 1) responded := by
  subst mine
  constructor
  · intro s seat
    simpa [handOn, assign, eq_comm] using seat
  · intro c seat
    rcases eq_or_ne c request.clientId with same | different
    · exact same
    · exact serves.others c (by
        simpa [handOn, assign, Function.update_of_ne different] using seat)
  · simp [OrderServer.handOn, serves.expects, seqAfter_succ]
  · exact serves.numbers

/-- The requests of a client in a row are expected. -/
theorem Serves.admits_own (serves : server.Serves socket client arrived responded)
    {requests : List MEClientRequest} (mine : ∀ r ∈ requests, r.clientId = client)
    (inTable : client < ME_MAX_NUM_CLIENTS) :
    Admits (Expected socket) (receive socket rxTime) server
      (numbered OMClientRequest.mk arrived requests) := by
  induction requests generalizing server arrived with
  | nil => trivial
  | cons r requests ih =>
      have expected := serves.expected (mine r List.mem_cons_self) inTable
      refine ⟨expected, ?_⟩
      rw [expected.receive_eq]
      split
      · rename_i handed
        split at handed
        · cases handed
          exact ih (serves.handed rxTime (mine r List.mem_cons_self))
            fun r' mem => mine r' (List.mem_cons_of_mem _ mem)
        · cases handed
      · trivial

/-- A record of another client on another socket changes nothing for this one. -/
theorem Serves.receive_other (serves : server.Serves socket client arrived responded)
    (apart : other ≠ socket) {packet : OMClientRequest}
    (foreign : packet.meClientRequest.clientId ≠ client)
    (inTable : packet.meClientRequest.clientId < ME_MAX_NUM_CLIENTS)
    (room : server.pending < ME_MAX_PENDING_REQUESTS) :
    ∃ server' received, server.receive other rxTime packet = .ok (server', [received]) ∧
      received.request = packet.meClientRequest ∧
      server'.Serves socket client arrived responded ∧
      server'.receiveSockets = server.receiveSockets ∧
      server'.pending ≤ server.pending + 1 := by
  have kept : ∀ server' : OrderServer,
      server'.cidTcpSocket =
        Function.update server.cidTcpSocket packet.meClientRequest.clientId (some other) →
      server'.cidNextExpSeqNum client = server.cidNextExpSeqNum client →
      server'.cidNextOutgoingSeqNum = server.cidNextOutgoingSeqNum →
      server'.Serves socket client arrived responded := by
    intro server' table expects numbers
    constructor
    · intro s seat
      rw [table, Function.update_of_ne foreign.symm] at seat
      exact serves.own s seat
    · intro c seat
      rw [table] at seat
      rcases eq_or_ne c packet.meClientRequest.clientId with rfl | different
      · rw [Function.update_self] at seat
        exact absurd (Option.some.inj seat) apart
      · rw [Function.update_of_ne different] at seat
        exact serves.others c seat
    · rw [expects, serves.expects]
    · rw [numbers, serves.numbers]
  rcases receive_cases rxTime other server packet inTable room with
    ⟨-, handled⟩ | ⟨-, -, handled⟩ | ⟨-, -, handled⟩
  · exact ⟨_, _, handled, rfl, serves, rfl, Nat.le_succ _⟩
  · exact ⟨_, _, handled, rfl, kept _ rfl rfl rfl, rfl, Nat.le_succ _⟩
  · refine ⟨_, _, handled, rfl, kept _ rfl ?_ rfl, rfl, ?_⟩
    · exact Function.update_of_ne foreign.symm _ _
    · simp [pending, handOn]

/-- Requests in a row: each is handed on, whatever number they are. -/
theorem Serves.run_own (serves : server.Serves socket client arrived responded)
    {requests : List MEClientRequest} (mine : ∀ r ∈ requests, r.clientId = client)
    (inTable : client < ME_MAX_NUM_CLIENTS)
    (room : server.pending + requests.length ≤ ME_MAX_PENDING_REQUESTS) :
    ∃ server', run (receive socket rxTime) server
        (numbered OMClientRequest.mk arrived requests) =
        .ok (server', requests.map .added) ∧
      server'.Serves socket client (arrived + requests.length) responded ∧
      server'.receiveSockets = server.receiveSockets := by
  induction requests generalizing server arrived with
  | nil => exact ⟨server, rfl, serves, rfl⟩
  | cons r requests ih =>
      rw [List.length_cons] at room
      have handed := (serves.expected (mine r List.mem_cons_self) inTable).receive_eq rxTime
      rw [if_pos (by omega)] at handed
      have serves' := serves.handed rxTime (mine r List.mem_cons_self)
      have grown : (server.handOn socket rxTime r).pending = server.pending + 1 :=
        pending_handOn rxTime r
      obtain ⟨server', ran, ends, sockets⟩ := ih serves'
        (fun r' mem => mine r' (List.mem_cons_of_mem _ mem)) (by omega)
      refine ⟨server', run_cons_eq_ok handed ran, ?_, sockets⟩
      have shift : arrived + (r :: requests).length = arrived + 1 + requests.length := by
        rw [List.length_cons]
        omega
      rw [shift]
      exact ends

/-- More requests in a row than the sequencer has room for. -/
theorem Serves.run_full (serves : server.Serves socket client arrived responded)
    {requests : List MEClientRequest} (mine : ∀ r ∈ requests, r.clientId = client)
    (inTable : client < ME_MAX_NUM_CLIENTS)
    (full : ME_MAX_PENDING_REQUESTS < server.pending + requests.length) (nonempty : requests ≠ []) :
    run (receive socket rxTime) server (numbered OMClientRequest.mk arrived requests) =
      .error .tooManyPending := by
  refine run_expected_full rxTime (serves.admits_own rxTime mine inTable) ?_ ?_
  · rw [length_numbered]
    exact full
  · intro empty
    have length := length_numbered OMClientRequest.mk arrived requests
    rw [empty, List.length_nil] at length
    exact nonempty (List.eq_nil_of_length_eq_zero length.symm)

/-- Records of other clients in a row. -/
theorem Serves.run_other (serves : server.Serves socket client arrived responded)
    (apart : other ≠ socket) {packets : List OMClientRequest}
    (foreign : ∀ m ∈ packets, m.meClientRequest.clientId < ME_MAX_NUM_CLIENTS ∧
      m.meClientRequest.clientId ≠ client)
    (room : server.pending + packets.length ≤ ME_MAX_PENDING_REQUESTS) :
    ∃ server' received, run (receive other rxTime) server packets = .ok (server', received) ∧
      (∀ x ∈ received, x.request.clientId ≠ client) ∧
      server'.Serves socket client arrived responded ∧
      server'.receiveSockets = server.receiveSockets := by
  induction packets generalizing server with
  | nil => exact ⟨server, [], rfl, fun x mem => (nomatch mem), serves, rfl⟩
  | cons m packets ih =>
      rw [List.length_cons] at room
      obtain ⟨inTable, different⟩ := foreign m List.mem_cons_self
      obtain ⟨next, x, handled, about, serves', sockets, grown⟩ :=
        serves.receive_other rxTime apart different inTable (by omega)
      obtain ⟨server', received, ran, others, ends, sockets'⟩ := ih serves'
        (fun m' mem => foreign m' (List.mem_cons_of_mem _ mem)) (by omega)
      refine ⟨server', x :: received, run_cons_eq_ok handled ran, ?_, ends,
        sockets'.trans sockets⟩
      intro y mem
      rcases List.mem_cons.mp mem with rfl | tail
      · rw [about]
        exact different
      · exact others y tail

/-- The callback handles the whole records and keeps the rest, also where that is all. -/
theorem recvCallback_eq (server : OrderServer) (socket : SocketId) (inbound : List UInt8) :
    server.recvCallback socket inbound rxTime =
      (run (receive socket rxTime) server
        ((frames Packed.omClientRequest.size inbound).map Packed.omClientRequest.unpack)).map
        fun result => (result, leftover Packed.omClientRequest.size inbound) := by
  unfold recvCallback
  dsimp only
  split
  · cases ran : run (receive socket rxTime) server
      ((frames Packed.omClientRequest.size inbound).map Packed.omClientRequest.unpack) with
    | error e => rfl
    | ok result => rfl
  · rename_i short
    rw [frames_of_lt (by omega), leftover_of_lt (by omega)]
    rfl

end OrderServer

/-! ## Polling a socket -/

namespace TCPSocket

variable {ρ : Type}
  {callback : List UInt8 → Nanos → Except TransportFault (ρ × List UInt8)} {idle result : ρ}
  {s : TCPSocket} {read left : List UInt8} {time : Nanos} {n : Int}

theorem sendAndRecv_idle :
    s.sendAndRecv callback idle [] time n =
      .ok (idle, ⟨[], s.inboundData⟩, s.outboundData.take n.toNat) := by
  rw [← taken_eq]
  rfl

theorem sendAndRecv_fault {e : TransportFault} (nonempty : read ≠ [])
    (called : callback (s.inboundData ++ read) time = .error e) :
    s.sendAndRecv callback idle read time n = .error e := by
  have pos : read.length > 0 := List.length_pos_iff.mpr nonempty
  unfold sendAndRecv
  rw [if_pos pos, called]
  rfl

theorem sendAndRecv_read (nonempty : read ≠ [])
    (called : callback (s.inboundData ++ read) time = .ok (result, left)) :
    s.sendAndRecv callback idle read time n =
      .ok (result, ⟨[], left⟩, s.outboundData.take n.toNat) := by
  have pos : read.length > 0 := List.length_pos_iff.mpr nonempty
  rw [← taken_eq]
  unfold sendAndRecv
  rw [if_pos pos, called]
  rfl

end TCPSocket

namespace OrderServer

variable {server : OrderServer} {socket other : SocketId} {client : ClientId}
  {arrived responded : Nat} (time : Nanos)

theorem Serves.setSocket (serves : server.Serves socket client arrived responded)
    (s : SocketId) (tcpSocket : TCPSocket) :
    (server.setSocket s tcpSocket).Serves socket client arrived responded :=
  ⟨serves.own, serves.others, serves.expects, serves.numbers⟩

theorem unpack_requests {requests : List MEClientRequest} (n : Nat)
    (fits : ∀ r ∈ requests, r.InRange ∧ r.clientId = client) :
    ((numbered OMClientRequest.mk n requests).map Packed.omClientRequest.pack).map
      Packed.omClientRequest.unpack = numbered OMClientRequest.mk n requests := by
  apply Packed.unpack_frames
  intro m mem
  obtain ⟨k, r, memR, rfl⟩ := mem_numbered _ mem
  exact Packed.holds_omClientRequest (fits r memR).1

/-- A read of the client's connection hands on the requests it completes. -/
theorem Serves.poll_own {sent handed : List MEClientRequest} {chunk pending : List UInt8}
    (serves : server.Serves socket client handed.length responded)
    (once : ExactlyOnce Packed.omClientRequest OMClientRequest.mk sent handed
      (server.receiveSockets socket).inboundData (chunk ++ pending))
    (mine : ∀ r ∈ sent, r.InRange ∧ r.clientId = client)
    (inTable : client < ME_MAX_NUM_CLIENTS)
    (room : server.pending + ((server.receiveSockets socket).inboundData ++ chunk).length /
      Packed.omClientRequest.size ≤ ME_MAX_PENDING_REQUESTS) :
    ∃ server' here, server.sendAndRecv socket chunk time
        (server.receiveSockets socket).outboundData.length =
        .ok (server', here.map .added, (server.receiveSockets socket).outboundData) ∧
      server'.Serves socket client (handed ++ here).length responded ∧
      ExactlyOnce Packed.omClientRequest OMClientRequest.mk sent (handed ++ here)
        (server'.receiveSockets socket).inboundData pending ∧
      (server'.receiveSockets socket).outboundData = [] := by
  have whole : (server.receiveSockets socket).outboundData.take
      ((server.receiveSockets socket).outboundData.length : Int).toNat =
      (server.receiveSockets socket).outboundData :=
    List.take_of_length_le (by omega)
  rcases eq_or_ne chunk [] with rfl | nonempty
  · refine ⟨server.setSocket socket
      ⟨[], (server.receiveSockets socket).inboundData⟩, [], ?_, ?_, ?_, ?_⟩
    · rw [sendAndRecv, TCPSocket.sendAndRecv_idle, whole]
      rfl
    · rw [List.append_nil]
      exact serves.setSocket _ _
    · rw [List.append_nil]
      simpa using once
    · simp
  · have pos : 0 < Packed.omClientRequest.size := by decide
    obtain ⟨here, cut, count, next⟩ := once.read pos
    have sub : ∀ r ∈ here, r.InRange ∧ r.clientId = client := fun r mem =>
      mine r (next.arrived_prefix.subset (List.mem_append_right _ mem))
    obtain ⟨server', ran, serves', sockets⟩ := serves.run_own time
      (fun r mem => (sub r mem).2) inTable (by omega)
    have called := recvCallback_eq time server socket
      ((server.receiveSockets socket).inboundData ++ chunk)
    rw [cut, unpack_requests _ sub, ran, Except.map] at called
    refine ⟨server'.setSocket socket
      ⟨[], leftover Packed.omClientRequest.size
        ((server.receiveSockets socket).inboundData ++ chunk)⟩, here, ?_, ?_, ?_, ?_⟩
    · rw [sendAndRecv, TCPSocket.sendAndRecv_read nonempty called, whole]
      rfl
    · rw [List.length_append]
      exact serves'.setSocket _ _
    · simpa using next
    · simp

/-- A read that completes more requests than the sequencer has room for ends the process. -/
theorem Serves.poll_full {sent handed : List MEClientRequest} {chunk pending : List UInt8}
    (serves : server.Serves socket client handed.length responded)
    (once : ExactlyOnce Packed.omClientRequest OMClientRequest.mk sent handed
      (server.receiveSockets socket).inboundData (chunk ++ pending))
    (mine : ∀ r ∈ sent, r.InRange ∧ r.clientId = client)
    (inTable : client < ME_MAX_NUM_CLIENTS)
    (complete : 0 < ((server.receiveSockets socket).inboundData ++ chunk).length /
      Packed.omClientRequest.size)
    (full : ME_MAX_PENDING_REQUESTS < server.pending +
      ((server.receiveSockets socket).inboundData ++ chunk).length /
        Packed.omClientRequest.size) (n : Int) :
    server.sendAndRecv socket chunk time n = .error .tooManyPending := by
  have pos : 0 < Packed.omClientRequest.size := by decide
  obtain ⟨here, cut, count, next⟩ := once.read pos
  have sub : ∀ r ∈ here, r.InRange ∧ r.clientId = client := fun r mem =>
    mine r (next.arrived_prefix.subset (List.mem_append_right _ mem))
  have nonempty : chunk ≠ [] := by
    rintro rfl
    rw [List.append_nil, Nat.div_eq_of_lt once.leftover] at complete
    omega
  have more : here ≠ [] := List.ne_nil_of_length_pos (by omega)
  have ran := serves.run_full time (fun r mem => (sub r mem).2) inTable (by omega) more
  have called := recvCallback_eq time server socket
    ((server.receiveSockets socket).inboundData ++ chunk)
  rw [cut, unpack_requests _ sub, ran, Except.map] at called
  rw [sendAndRecv, TCPSocket.sendAndRecv_fault nonempty called]
  rfl

/-- A read of another connection that carries no record of the client. -/
theorem Serves.poll_other (serves : server.Serves socket client arrived responded)
    (apart : other ≠ socket) {read : List UInt8} (n : Int)
    (foreign : ∀ m ∈ (frames Packed.omClientRequest.size
        ((server.receiveSockets other).inboundData ++ read)).map Packed.omClientRequest.unpack,
      m.meClientRequest.clientId < ME_MAX_NUM_CLIENTS ∧ m.meClientRequest.clientId ≠ client)
    (room : server.pending + ((server.receiveSockets other).inboundData ++ read).length /
      Packed.omClientRequest.size ≤ ME_MAX_PENDING_REQUESTS) :
    ∃ server' received taken, server.sendAndRecv other read time n =
        .ok (server', received, taken) ∧
      (∀ x ∈ received, x.request.clientId ≠ client) ∧
      server'.Serves socket client arrived responded ∧
      server'.receiveSockets socket = server.receiveSockets socket := by
  rcases eq_or_ne read [] with rfl | nonempty
  · refine ⟨server.setSocket other
      ⟨[], (server.receiveSockets other).inboundData⟩, [],
      (server.receiveSockets other).outboundData.take n.toNat, ?_, ?_, serves.setSocket _ _, ?_⟩
    · rw [sendAndRecv, TCPSocket.sendAndRecv_idle]
      rfl
    · intro x mem
      cases mem
    · exact Function.update_of_ne apart.symm _ _
  · have count : ((frames Packed.omClientRequest.size
        ((server.receiveSockets other).inboundData ++ read)).map
          Packed.omClientRequest.unpack).length =
        ((server.receiveSockets other).inboundData ++ read).length /
          Packed.omClientRequest.size := by
      rw [List.length_map, frames, List.length_map, List.length_range]
    obtain ⟨server', received, ran, others, serves', sockets⟩ :=
      serves.run_other time apart foreign (by rw [count]; exact room)
    have called := recvCallback_eq time server other
      ((server.receiveSockets other).inboundData ++ read)
    rw [ran, Except.map] at called
    refine ⟨server'.setSocket other
      ⟨[], leftover Packed.omClientRequest.size
        ((server.receiveSockets other).inboundData ++ read)⟩, received,
      (server.receiveSockets other).outboundData.take n.toNat, ?_, others,
      serves'.setSocket _ _, ?_⟩
    · rw [sendAndRecv, TCPSocket.sendAndRecv_read nonempty called]
      rfl
    · rw [← sockets]
      exact Function.update_of_ne apart.symm _ _

end OrderServer

namespace OrderGateway

variable {gateway : OrderGateway} {client : ClientId} (time : Nanos)

theorem recvCallback_eq (gateway : OrderGateway) (inbound : List UInt8) :
    gateway.recvCallback inbound time =
      (run receive gateway
        ((frames Packed.omClientResponse.size inbound).map Packed.omClientResponse.unpack)).map
        fun result => (result, leftover Packed.omClientResponse.size inbound) := by
  unfold recvCallback
  dsimp only
  split
  · cases ran : run receive gateway
      ((frames Packed.omClientResponse.size inbound).map Packed.omClientResponse.unpack) with
    | error e => rfl
    | ok result => rfl
  · rename_i short
    rw [frames_of_lt (by omega), leftover_of_lt (by omega)]
    rfl

/-- Responses in a row: each is passed on. -/
theorem run_receive {n : Nat} {responses : List MEClientResponse}
    (named : gateway.clientId = client) (mine : ∀ r ∈ responses, r.clientId = client)
    (expects : gateway.nextExpSeqNum = seqAfter n) :
    run receive gateway (numbered OMClientResponse.mk n responses) =
      .ok ({ gateway with nextExpSeqNum := seqAfter (n + responses.length) },
        responses.map .pushed) := by
  induction responses generalizing gateway n with
  | nil =>
      rw [List.length_nil, Nat.add_zero, ← expects]
      rfl
  | cons r responses ih =>
      have first : gateway.receive ⟨seqAfter n, r⟩ =
          .ok ({ gateway with nextExpSeqNum := seqAfter (n + 1) }, [.pushed r]) := by
        rw [receive, if_neg, if_neg, expects, seqAfter_succ]
        · rw [expects]
          exact fun h => h rfl
        · rw [named, mine r List.mem_cons_self]
          exact fun h => h rfl
      have rest := @ih { gateway with nextExpSeqNum := seqAfter (n + 1) } (n + 1) named
        (fun r' mem => mine r' (List.mem_cons_of_mem _ mem)) rfl
      have shift : n + (r :: responses).length = n + 1 + responses.length := by
        rw [List.length_cons]
        omega
      rw [shift]
      exact run_cons_eq_ok first rest

/-- A read of the gateway passes on the responses it completes. -/
theorem poll {sent passed : List MEClientResponse} {chunk pending : List UInt8}
    (named : gateway.clientId = client)
    (expects : gateway.nextExpSeqNum = seqAfter passed.length)
    (once : ExactlyOnce Packed.omClientResponse OMClientResponse.mk sent passed
      gateway.tcpSocket.inboundData (chunk ++ pending))
    (mine : ∀ r ∈ sent, r.InRange ∧ r.clientId = client) :
    ∃ here inbound, gateway.sendAndRecv chunk time gateway.tcpSocket.outboundData.length =
        .ok ({ gateway with
            nextExpSeqNum := seqAfter (passed ++ here).length
            tcpSocket := ⟨[], inbound⟩ },
          here.map .pushed, gateway.tcpSocket.outboundData) ∧
      ExactlyOnce Packed.omClientResponse OMClientResponse.mk sent (passed ++ here) inbound
        pending := by
  have whole : gateway.tcpSocket.outboundData.take
      (gateway.tcpSocket.outboundData.length : Int).toNat = gateway.tcpSocket.outboundData :=
    List.take_of_length_le (by omega)
  rcases eq_or_ne chunk [] with rfl | nonempty
  · refine ⟨[], gateway.tcpSocket.inboundData, ?_, ?_⟩
    · rw [sendAndRecv, TCPSocket.sendAndRecv_idle, whole, List.append_nil, ← expects]
      rfl
    · rw [List.append_nil]
      simpa using once
  · have pos : 0 < Packed.omClientResponse.size := by decide
    obtain ⟨here, cut, -, next⟩ := once.read pos
    have sub : ∀ r ∈ here, r.InRange ∧ r.clientId = client := fun r mem =>
      mine r (next.arrived_prefix.subset (List.mem_append_right _ mem))
    have unpacked : (frames Packed.omClientResponse.size
        (gateway.tcpSocket.inboundData ++ chunk)).map Packed.omClientResponse.unpack =
        numbered OMClientResponse.mk passed.length here := by
      rw [cut]
      apply Packed.unpack_frames
      intro m mem
      obtain ⟨k, r, memR, rfl⟩ := mem_numbered _ mem
      exact Packed.holds_omClientResponse (sub r memR).1
    have ran := run_receive named (fun r mem => (sub r mem).2) expects
    have called := recvCallback_eq time gateway (gateway.tcpSocket.inboundData ++ chunk)
    rw [unpacked, ran, Except.map] at called
    refine ⟨here, leftover Packed.omClientResponse.size
      (gateway.tcpSocket.inboundData ++ chunk), ?_, next⟩
    rw [sendAndRecv, TCPSocket.sendAndRecv_read nonempty called, whole, List.length_append]
    rfl

end OrderGateway

end NanoTrade
