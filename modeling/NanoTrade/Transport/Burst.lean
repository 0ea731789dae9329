import Mathlib.Algebra.BigOperators.Group.List.Basic
import NanoTrade.Ends
import NanoTrade.Transport.Serving

/-!
# Bursts of requests

`TCPServer::sendAndRecv` reads every receive socket once before the sequencer publishes anything,
so all requests of a pass are pending together, whatever sockets they came on. The sequencer holds
`ME_MAX_PENDING_REQUESTS`; the receive buffer of one socket holds more than a million of them.

* `sendAndRecv_burst`: a pass of valid requests ends the process exactly where they are more than
  the sequencer holds.
* `not_survives_burst`: one client that sends as many.
-/

namespace NanoTrade

/-- What a receive socket meets in a pass: the bytes that `recvmsg` returned, their receive time,
and the result of `::send`. -/
structure Poll where
  socket : SocketId
  read : List UInt8
  kernelTime : Nanos
  n : Int
  deriving DecidableEq

/-- What happens on the thread of the order server. -/
inductive ServerEvent
  /-- `TCPServer::sendAndRecv`, with the receive sockets in turn. -/
  | sendAndRecv (polls : List Poll)
  /-- A response is written to the socket of its client. -/
  | response (r : MEClientResponse)
  deriving DecidableEq

namespace OrderServer

/-- One receive socket of a pass. -/
def poll (server : OrderServer) (p : Poll) :
    Except TransportFault (OrderServer × List Received) := do
  let (server, received, _) ← server.sendAndRecv p.socket p.read p.kernelTime p.n
  pure (server, received)

/-- `TCPServer::sendAndRecv`: the listener is informed where there was something to read. No
socket is ever registered for `EPOLLOUT`, so there are no send sockets. -/
def sendAndRecvAll (server : OrderServer) (polls : List Poll) :
    Except TransportFault (OrderServer × List Received) := do
  let (server, received) ← run poll server polls
  if polls.any fun p => p.read.length > 0 then pure (server.recvFinishedCallback, received)
  else pure (server, received)

def step (server : OrderServer) : ServerEvent → Except TransportFault (OrderServer × List Received)
  | .sendAndRecv polls => server.sendAndRecvAll polls
  | .response r => do
    let server ← server.respond r
    pure (server, [])

/-- The bytes in the receive buffer of a socket that has read. -/
def inbound (server : OrderServer) (p : Poll) : List UInt8 :=
  (server.receiveSockets p.socket).inboundData ++ p.read

/-- The requests that a poll completes. -/
def packets (server : OrderServer) (p : Poll) : List OMClientRequest :=
  if p.read = [] then []
  else (frames Packed.omClientRequest.size (server.inbound p)).map Packed.omClientRequest.unpack

/-- All requests of a poll are valid, in the order in which they are read. -/
def ValidPoll (server : OrderServer) (p : Poll) : Prop :=
  Admits (Expected p.socket) (receive p.socket p.kernelTime) server (server.packets p)

/-- What the sockets can read in a pass, with valid requests only: every socket once, and no more
than its receive buffer has room for. -/
structure ValidPass (server : OrderServer) (polls : List Poll) : Prop where
  sockets : (polls.map Poll.socket).Nodup
  buffers : ∀ p ∈ polls, (server.inbound p).length ≤ TCPBufferSize
  requests : Admits ValidPoll poll server polls

/-- The number of requests of a pass. -/
def burst (server : OrderServer) (polls : List Poll) : Nat :=
  (polls.map fun p => (server.packets p).length).sum

variable {server : OrderServer} {p : Poll} {polls : List Poll}

/-! ## One socket -/

/-- A poll of valid requests that the sequencer has room for. -/
theorem poll_room (valid : ValidPoll server p)
    (room : server.pending + (server.packets p).length ≤ ME_MAX_PENDING_REQUESTS) :
    ∃ server', server.poll p =
        .ok (server', (server.packets p).map fun m => .added m.meClientRequest) ∧
      server'.pending = server.pending + (server.packets p).length ∧
      ∀ socket, socket ≠ p.socket →
        server'.receiveSockets socket = server.receiveSockets socket := by
  unfold ValidPoll at valid
  unfold poll OrderServer.sendAndRecv
  unfold packets inbound at *
  by_cases idle : p.read = []
  · rw [if_pos idle, idle, TCPSocket.sendAndRecv_idle]
    exact ⟨_, rfl, rfl, fun socket other => setSocket_of_ne _ _ other⟩
  · rw [if_neg idle] at *
    obtain ⟨server', ran, count, sockets⟩ := run_expected p.kernelTime valid room
    have called := recvCallback_eq p.kernelTime server p.socket
      ((server.receiveSockets p.socket).inboundData ++ p.read)
    rw [ran] at called
    rw [TCPSocket.sendAndRecv_read idle called]
    refine ⟨_, rfl, count, fun socket other => ?_⟩
    rw [setSocket_of_ne _ _ other, sockets]

/-- With one more than that, the poll ends the process. -/
theorem poll_full (valid : ValidPoll server p)
    (full : ME_MAX_PENDING_REQUESTS < server.pending + (server.packets p).length)
    (nonempty : server.packets p ≠ []) : server.poll p = .error .tooManyPending := by
  unfold ValidPoll at valid
  unfold poll OrderServer.sendAndRecv
  have read : p.read ≠ [] := by
    intro idle
    exact nonempty (if_pos idle)
  have ran := run_expected_full p.kernelTime valid full nonempty
  unfold packets inbound at ran
  rw [if_neg read] at ran
  have called := recvCallback_eq p.kernelTime server p.socket
    ((server.receiveSockets p.socket).inboundData ++ p.read)
  rw [ran] at called
  rw [TCPSocket.sendAndRecv_fault read called]
  rfl

/-! ## One pass -/

/-- The sockets do not share a buffer. -/
theorem burst_congr {server' : OrderServer}
    (same : ∀ p ∈ polls, server'.receiveSockets p.socket = server.receiveSockets p.socket) :
    server'.burst polls = server.burst polls := by
  unfold burst
  refine congrArg List.sum (List.map_congr_left fun p mem => ?_)
  unfold packets inbound
  rw [same p mem]

theorem run_poll (distinct : (polls.map Poll.socket).Nodup)
    (valid : Admits ValidPoll poll server polls)
    (within : server.pending ≤ ME_MAX_PENDING_REQUESTS) :
    if server.pending + server.burst polls ≤ ME_MAX_PENDING_REQUESTS then
      ∃ (server' : OrderServer) (requests : List MEClientRequest),
        run poll server polls = .ok (server', requests.map .added) ∧
        requests.length = server.burst polls ∧
        server'.pending = server.pending + server.burst polls
    else run poll server polls = .error .tooManyPending := by
  induction polls generalizing server with
  | nil =>
      rw [burst, List.map_nil, List.sum_nil, Nat.add_zero, if_pos within]
      exact ⟨server, [], rfl, rfl, rfl⟩
  | cons p polls ih =>
      obtain ⟨here, later⟩ := valid
      rw [List.map_cons, List.nodup_cons] at distinct
      have total : server.burst (p :: polls) = (server.packets p).length + server.burst polls :=
        List.sum_cons
      rw [total, ← Nat.add_assoc]
      by_cases room : server.pending + (server.packets p).length ≤ ME_MAX_PENDING_REQUESTS
      · obtain ⟨next, polled, count, sockets⟩ := poll_room here room
        rw [polled] at later
        have rest := ih distinct.2 later (by rw [count]; exact room)
        have apart : ∀ q ∈ polls,
            next.receiveSockets q.socket = server.receiveSockets q.socket := by
          intro q mem
          refine sockets q.socket fun same => distinct.1 ?_
          rw [← same]
          exact List.mem_map_of_mem mem
        rw [burst_congr apart, count] at rest
        split
        · rename_i fits
          rw [if_pos fits] at rest
          obtain ⟨server', requests, ran, length, pending⟩ := rest
          refine ⟨server', (server.packets p).map OMClientRequest.meClientRequest ++ requests,
            run_cons.mpr ⟨_, _, _, polled, ran, ?_⟩, ?_, ?_⟩
          · rw [List.map_append, List.map_map]
            rfl
          · rw [List.length_append, List.length_map, length]
          · rw [pending]
        · rename_i exceeds
          rw [if_neg exceeds] at rest
          rw [run, polled]
          show (run _ _ _ >>= _) = _
          rw [rest]
          rfl
      · have nonempty : server.packets p ≠ [] := by
          intro empty
          rw [empty, List.length_nil, Nat.add_zero] at room
          exact room within
        have failed := poll_full here (Nat.lt_of_not_le room) nonempty
        rw [if_neg (by omega), run, failed]
        rfl

/-- A pass without anything to read. -/
theorem run_poll_idle (idle : ∀ p ∈ polls, p.read = []) {server' : OrderServer}
    {received : List Received} (ran : run poll server polls = .ok (server', received)) :
    server'.pending = server.pending := by
  induction polls generalizing server received with
  | nil =>
      cases ran
      rfl
  | cons p polls ih =>
      obtain ⟨next, now, later, polled, rest, -⟩ := run_cons.mp ran
      rw [ih (fun q mem => idle q (List.mem_cons_of_mem _ mem)) rest]
      unfold poll OrderServer.sendAndRecv at polled
      rw [idle p List.mem_cons_self, TCPSocket.sendAndRecv_idle] at polled
      cases polled
      rfl

/-- Nothing is pending behind a pass. -/
theorem pending_sendAndRecvAll (drained : server.pending = 0) {server' : OrderServer}
    {received : List Received} (passed : server.sendAndRecvAll polls = .ok (server', received)) :
    server'.pending = 0 := by
  obtain ⟨⟨next, now⟩, ran, finished⟩ := bind_eq_ok.mp passed
  simp only at finished
  split at finished
  · cases finished
    rfl
  · rename_i quiet
    cases finished
    rw [run_poll_idle _ ran, drained]
    intro p mem
    by_contra reads
    refine quiet (List.any_eq_true.mpr ⟨p, mem, ?_⟩)
    exact decide_eq_true (List.length_pos_iff.mpr reads)

theorem pending_respond {r : MEClientResponse} {server' : OrderServer}
    (responded : server.respond r = .ok server') : server'.pending = server.pending := by
  unfold respond at responded
  split at responded
  · split at responded
    · cases responded
    · obtain ⟨first, -, responded⟩ := bind_eq_ok.mp responded
      obtain ⟨second, -, responded⟩ := bind_eq_ok.mp responded
      cases responded
      rfl
  · cases responded

/-- Between two passes nothing is pending, whatever was read. -/
theorem run_pending {events : List ServerEvent} {received : List Received}
    (ran : run step .new events = .ok (server, received)) : server.pending = 0 := by
  refine run_invariant (P := fun server _ _ => server.pending = 0) rfl ?_ ran
  intro server events received event server' now drained _ stepped
  cases event with
  | sendAndRecv polls => exact pending_sendAndRecvAll drained stepped
  | response r =>
      obtain ⟨next, responded, finished⟩ := bind_eq_ok.mp stepped
      cases finished
      rw [pending_respond responded, drained]

/-- **A burst of valid requests**, in a pass of the order server anywhere in its run: with at most
`ME_MAX_PENDING_REQUESTS` of them, all are handed on and published; with more, the process ends. -/
theorem sendAndRecv_burst {events : List ServerEvent} {received : List Received}
    (ran : run step .new events = .ok (server, received)) (valid : server.ValidPass polls) :
    if server.burst polls ≤ ME_MAX_PENDING_REQUESTS then
      ∃ (server' : OrderServer) (requests : List MEClientRequest),
        server.sendAndRecvAll polls = .ok (server', requests.map .added) ∧
        requests.length = server.burst polls ∧ server'.pending = 0
    else server.sendAndRecvAll polls = .error .tooManyPending := by
  have drained := run_pending ran
  have passed := run_poll valid.sockets valid.requests (by rw [drained]; exact Nat.zero_le _)
  rw [drained, Nat.zero_add] at passed
  split
  · rename_i fits
    rw [if_pos fits] at passed
    obtain ⟨next, requests, polled, length, -⟩ := passed
    have returns : ∃ server', server.sendAndRecvAll polls =
        .ok (server', requests.map .added) := by
      unfold sendAndRecvAll
      rw [polled]
      by_cases reads : (polls.any fun p => p.read.length > 0) = true
      · exact ⟨_, if_pos reads⟩
      · exact ⟨_, if_neg reads⟩
    obtain ⟨server', returned⟩ := returns
    exact ⟨server', requests, returned, length, pending_sendAndRecvAll drained returned⟩
  · rename_i exceeds
    rw [if_neg exceeds] at passed
    unfold sendAndRecvAll
    rw [passed]
    rfl

/-! ## One client is enough -/

theorem serves_new (socket : SocketId) (client : ClientId) : Serves .new socket client 0 0 :=
  ⟨fun _ seat => (nomatch seat), fun _ seat => (nomatch seat), rfl, rfl⟩

/-- Requests of one client that arrive in one read. -/
def flood (n : Nat) (r : MEClientRequest) : List Poll :=
  [{ socket := 3
     read := Packed.omClientRequest.stream (numbered OMClientRequest.mk 0 (List.replicate n r))
     kernelTime := 7, n := 0 }]

/-- The client may send what the receive buffer has room for. -/
theorem validPass_flood {n : Nat} {r : MEClientRequest} (fits : r.InRange)
    (inTable : r.clientId < ME_MAX_NUM_CLIENTS)
    (room : n * Packed.omClientRequest.size ≤ TCPBufferSize) :
    ValidPass .new (flood n r) ∧ burst .new (flood n r) = n := by
  have pos : 0 < Packed.omClientRequest.size := by decide
  have mine : ∀ r' ∈ List.replicate n r, r'.InRange ∧ r'.clientId = r.clientId := by
    intro r' mem
    rw [List.eq_of_mem_replicate mem]
    exact ⟨fits, rfl⟩
  have size : (Packed.omClientRequest.stream
      (numbered OMClientRequest.mk 0 (List.replicate n r))).length =
      n * Packed.omClientRequest.size := by
    rw [Packed.length_stream, length_numbered, List.length_replicate, Nat.mul_comm]
  have whole : ∀ p ∈ flood n r, packets .new p =
      numbered OMClientRequest.mk 0 (List.replicate n r) := by
    intro p mem
    rw [List.mem_singleton.mp mem, packets]
    simp only
    split
    · rename_i idle
      rw [idle, List.length_nil] at size
      rcases Nat.eq_zero_or_pos n with rfl | sent
      · rfl
      · exact absurd size.symm (Nat.mul_pos sent pos).ne'
    · have unpacked := unpack_requests 0 mine
      rw [← Packed.omClientRequest.frames_whole pos] at unpacked
      exact unpacked
  refine ⟨⟨List.nodup_singleton _, fun p mem => ?_, ?_⟩, ?_⟩
  · rw [List.mem_singleton.mp mem, inbound]
    exact (le_of_eq size).trans room
  · refine ⟨?_, ?_⟩
    · rw [ValidPoll, whole _ (List.mem_singleton_self _)]
      exact (serves_new 3 r.clientId).admits_own 7 (fun r' mem => (mine r' mem).2) inTable
    · split
      · trivial
      · trivial
  · have alone : burst .new (flood n r) = (packets .new _).length + 0 := rfl
    rw [alone, whole _ (List.mem_singleton_self _), length_numbered, List.length_replicate,
      Nat.add_zero]

/-- One socket that reads more requests than the sequencer holds. -/
theorem sendAndRecvAll_flood {n : Nat} {r : MEClientRequest} (fits : r.InRange)
    (inTable : r.clientId < ME_MAX_NUM_CLIENTS)
    (room : n * Packed.omClientRequest.size ≤ TCPBufferSize) (many : ME_MAX_PENDING_REQUESTS < n) :
    sendAndRecvAll .new (flood n r) = .error .tooManyPending := by
  obtain ⟨valid, count⟩ := validPass_flood fits inTable room
  have failed := run_poll valid.sockets valid.requests (Nat.zero_le _)
  rw [count, if_neg (by rw [Nat.not_le]; exact Nat.lt_of_lt_of_le many (Nat.le_add_left n _))]
    at failed
  unfold sendAndRecvAll
  rw [failed]
  rfl

/-- A pass of two requests. -/
theorem sendAndRecv_burst_two :
    if burst .new (flood 2 ⟨.NEW, 1, 0, 1, .BUY, 100, 5⟩) ≤ ME_MAX_PENDING_REQUESTS then
      ∃ (server' : OrderServer) (requests : List MEClientRequest),
        sendAndRecvAll .new (flood 2 ⟨.NEW, 1, 0, 1, .BUY, 100, 5⟩) =
          .ok (server', requests.map .added) ∧
        requests.length = burst .new (flood 2 ⟨.NEW, 1, 0, 1, .BUY, 100, 5⟩) ∧
        server'.pending = 0
    else sendAndRecvAll .new (flood 2 ⟨.NEW, 1, 0, 1, .BUY, 100, 5⟩) = .error .tooManyPending :=
  sendAndRecv_burst (rfl : run step .new [] = .ok (.new, []))
    (validPass_flood (by decide) (by decide) (by decide)).1

/-- A burst of valid requests ends the process: one client sends one more than the sequencer
holds. -/
theorem not_survives_burst :
    ¬ ∀ polls, ValidPass .new polls → ∃ result, sendAndRecvAll .new polls = .ok result := by
  intro survives
  have fits : (⟨.NEW, 1, 0, 1, .BUY, 100, 5⟩ : MEClientRequest).InRange := by decide
  obtain ⟨valid, -⟩ := validPass_flood (n := 1025) fits (by decide) (by decide)
  obtain ⟨result, returned⟩ := survives _ valid
  rw [sendAndRecvAll_flood fits (by decide) (by decide) (by decide)] at returned
  cases returned

end OrderServer

end NanoTrade
