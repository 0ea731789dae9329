import NanoTrade.Transport.Packets
import NanoTrade.Transport.TCPSocket
import Mathlib.Logic.Function.Basic

/-!
# The order server and the order gateway

The two ends of a client's connection: `OrderServer` reads numbered requests from its
sockets for the sequencer and writes numbered responses, `OrderGateway` the other way
round. Both keep an unfinished record at the front of the receive buffer.
-/

namespace NanoTrade

/-- A connection accepted by the server, as `cid_tcp_socket_` refers to it. -/
abbrev SocketId := Nat

/-- What `OrderServer::recvCallback` does with a record. -/
inductive Received
  /-- It is handed to the sequencer. -/
  | added (request : MEClientRequest)
  /-- "Received ClientRequest from ClientId:% on different socket:". -/
  | otherSocket (request : MEClientRequest)
  /-- "Incorrect sequence number." -/
  | incorrectSeqNum (request : MEClientRequest)
  deriving DecidableEq, Repr

def Received.request : Received → MEClientRequest
  | .added request => request
  | .otherSocket request => request
  | .incorrectSeqNum request => request

structure OrderServer where
  cidNextOutgoingSeqNum : ClientId → UInt64
  cidNextExpSeqNum : ClientId → UInt64
  cidTcpSocket : ClientId → Option SocketId
  /-- The sockets of the TCP server. -/
  receiveSockets : SocketId → TCPSocket
  fifoSequencer : FIFOSequencer

namespace OrderServer

def new : OrderServer where
  cidNextOutgoingSeqNum _ := 1
  cidNextExpSeqNum _ := 1
  cidTcpSocket _ := none
  receiveSockets _ := TCPSocket.new
  fifoSequencer := FIFOSequencer.new

/-- The body of the loop of `recvCallback`. -/
def receive (socket : SocketId) (rxTime : Nanos) (server : OrderServer)
    (request : OMClientRequest) : Except TransportFault (OrderServer × List Received) :=
  let clientId := request.meClientRequest.clientId
  if clientId < ME_MAX_NUM_CLIENTS then
    let server := -- first message from this ClientId.
      if server.cidTcpSocket clientId = none then
        { server with cidTcpSocket := Function.update server.cidTcpSocket clientId (some socket) }
      else server
    if server.cidTcpSocket clientId ≠ some socket then
      .ok (server, [.otherSocket request.meClientRequest])
    else if request.seqNum ≠ server.cidNextExpSeqNum clientId then
      .ok (server, [.incorrectSeqNum request.meClientRequest])
    else
      match server.fifoSequencer.addClientRequest rxTime request.meClientRequest with
      | none => .error .tooManyPending
      | some fifoSequencer => .ok
          ({ server with
              cidNextExpSeqNum := Function.update server.cidNextExpSeqNum clientId
                (server.cidNextExpSeqNum clientId + 1)
              fifoSequencer },
            [.added request.meClientRequest])
  else .error (.outOfRange clientId)

/-- Read client requests from the TCP receive buffer, check for sequence gaps and forward
them to the sequencer. -/
def recvCallback (server : OrderServer) (socket : SocketId) (inbound : List UInt8)
    (rxTime : Nanos) : Except TransportFault ((OrderServer × List Received) × List UInt8) :=
  if inbound.length ≥ Packed.omClientRequest.size then do
    let requests := (frames Packed.omClientRequest.size inbound).map Packed.omClientRequest.unpack
    let result ← run (receive socket rxTime) server requests
    pure (result, leftover Packed.omClientRequest.size inbound)
  else pure ((server, []), inbound)

def setSocket (server : OrderServer) (socket : SocketId) (tcpSocket : TCPSocket) :
    OrderServer :=
  { server with receiveSockets := Function.update server.receiveSockets socket tcpSocket }

@[simp] theorem setSocket_self (server : OrderServer) (socket : SocketId)
    (tcpSocket : TCPSocket) :
    (server.setSocket socket tcpSocket).receiveSockets socket = tcpSocket :=
  Function.update_self _ _ _

theorem setSocket_of_ne (server : OrderServer) {socket other : SocketId}
    (tcpSocket : TCPSocket) (apart : other ≠ socket) :
    (server.setSocket socket tcpSocket).receiveSockets other = server.receiveSockets other :=
  Function.update_of_ne apart _ _

/-- `TCPServer::sendAndRecv` for one of the sockets. -/
def sendAndRecv (server : OrderServer) (socket : SocketId) (read : List UInt8)
    (kernelTime : Nanos) (n : Int) :
    Except TransportFault (OrderServer × List Received × List UInt8) := do
  let ((server, received), tcpSocket, taken) ←
    (server.receiveSockets socket).sendAndRecv (server.recvCallback socket) (server, [])
      read kernelTime n
  pure (server.setSocket socket tcpSocket, received, taken)

/-- End of reading: the sequencer publishes what is pending, in an order of its own. -/
def recvFinishedCallback (server : OrderServer) : OrderServer :=
  { server with fifoSequencer := FIFOSequencer.new }

/-- The body of the loop of `run` over the outgoing responses. -/
def respond (server : OrderServer) (response : MEClientResponse) :
    Except TransportFault OrderServer :=
  if response.clientId < ME_MAX_NUM_CLIENTS then
    match server.cidTcpSocket response.clientId with
    | none => .error (.noSocket response.clientId)
    | some socket => do
      let tcpSocket ← (server.receiveSockets socket).send
        (Packed.seqNum.pack (server.cidNextOutgoingSeqNum response.clientId))
      let tcpSocket ← tcpSocket.send (Packed.clientResponse.pack response)
      pure { server.setSocket socket tcpSocket with
        cidNextOutgoingSeqNum := Function.update server.cidNextOutgoingSeqNum response.clientId
          (server.cidNextOutgoingSeqNum response.clientId + 1) }
  else .error (.outOfRange response.clientId)

end OrderServer

/-- What `OrderGateway::recvCallback` does with a record. -/
inductive Delivered
  /-- It is written to the queue of the trade engine. -/
  | pushed (response : MEClientResponse)
  /-- "ERROR Incorrect client id." -/
  | incorrectClientId (response : MEClientResponse)
  /-- "ERROR Incorrect sequence number." -/
  | incorrectSeqNum (response : MEClientResponse)
  deriving DecidableEq, Repr

structure OrderGateway where
  clientId : ClientId
  nextOutgoingSeqNum : UInt64
  nextExpSeqNum : UInt64
  tcpSocket : TCPSocket
  deriving DecidableEq, Repr

namespace OrderGateway

def new (clientId : ClientId) : OrderGateway := ⟨clientId, 1, 1, TCPSocket.new⟩

/-- The body of the loop of `run` over the outgoing requests. -/
def request (gateway : OrderGateway) (clientRequest : MEClientRequest) :
    Except TransportFault OrderGateway := do
  let tcpSocket ← gateway.tcpSocket.send (Packed.seqNum.pack gateway.nextOutgoingSeqNum)
  let tcpSocket ← tcpSocket.send (Packed.clientRequest.pack clientRequest)
  pure { gateway with
    tcpSocket, nextOutgoingSeqNum := gateway.nextOutgoingSeqNum + 1 }

/-- The body of the loop of `recvCallback`. -/
def receive (gateway : OrderGateway) (response : OMClientResponse) :
    Except TransportFault (OrderGateway × List Delivered) :=
  if response.meClientResponse.clientId ≠ gateway.clientId then
    .ok (gateway, [.incorrectClientId response.meClientResponse])
  else if response.seqNum ≠ gateway.nextExpSeqNum then
    .ok (gateway, [.incorrectSeqNum response.meClientResponse])
  else
    .ok ({ gateway with nextExpSeqNum := gateway.nextExpSeqNum + 1 },
      [.pushed response.meClientResponse])

/-- Perform some checks on incoming client responses and forward them to the queue
connected to the trade engine. -/
def recvCallback (gateway : OrderGateway) (inbound : List UInt8) (_rxTime : Nanos) :
    Except TransportFault ((OrderGateway × List Delivered) × List UInt8) :=
  if inbound.length ≥ Packed.omClientResponse.size then do
    let responses :=
      (frames Packed.omClientResponse.size inbound).map Packed.omClientResponse.unpack
    let result ← run receive gateway responses
    pure (result, leftover Packed.omClientResponse.size inbound)
  else pure ((gateway, []), inbound)

/-- The socket's turn in the loop of `run`. -/
def sendAndRecv (gateway : OrderGateway) (read : List UInt8) (kernelTime : Nanos) (n : Int) :
    Except TransportFault (OrderGateway × List Delivered × List UInt8) := do
  let ((gateway, delivered), tcpSocket, taken) ←
    gateway.tcpSocket.sendAndRecv gateway.recvCallback (gateway, []) read kernelTime n
  pure ({ gateway with tcpSocket }, delivered, taken)

end OrderGateway

/-! ## Sequence numbers -/

/-- The sequence number behind `n` packets: counters start at 1 and wrap as `size_t`. -/
def seqAfter (n : Nat) : UInt64 := 1 + UInt64.ofNat n

theorem seqAfter_succ (n : Nat) : seqAfter (n + 1) = seqAfter n + 1 := by
  rw [seqAfter, seqAfter, UInt64.ofNat_add, UInt64.add_assoc]
  rfl

/-- Packets in a row, numbered from the one behind the first `n`. -/
def numbered {α μ : Type} (packet : UInt64 → α → μ) : Nat → List α → List μ
  | _, [] => []
  | n, a :: more => packet (seqAfter n) a :: numbered packet (n + 1) more

section Numbered

variable {α μ : Type} (packet : UInt64 → α → μ)

theorem length_numbered (n : Nat) (xs : List α) : (numbered packet n xs).length = xs.length := by
  induction xs generalizing n with
  | nil => rfl
  | cons a xs ih => rw [numbered, List.length_cons, ih, List.length_cons]

theorem numbered_append (n : Nat) (xs ys : List α) :
    numbered packet n (xs ++ ys) =
      numbered packet n xs ++ numbered packet (n + xs.length) ys := by
  induction xs generalizing n with
  | nil => rfl
  | cons a xs ih =>
      have shift : n + (a :: xs).length = n + 1 + xs.length := by
        rw [List.length_cons]
        omega
      rw [List.cons_append, numbered, ih, numbered, List.cons_append, shift]

/-- A row of numbered packets that falls into two, falls into two rows. -/
theorem numbered_eq_append {n : Nat} {xs : List α} {here later : List μ}
    (split : numbered packet n xs = here ++ later) :
    ∃ ys zs, xs = ys ++ zs ∧ here = numbered packet n ys ∧
      later = numbered packet (n + ys.length) zs := by
  induction here generalizing n xs with
  | nil => exact ⟨[], xs, rfl, rfl, split.symm⟩
  | cons m here ih =>
      cases xs with
      | nil => cases split
      | cons a xs =>
          rw [numbered, List.cons_append] at split
          injection split with first rest
          obtain ⟨ys, zs, rfl, rfl, rfl⟩ := ih rest
          have shift : n + 1 + ys.length = n + (a :: ys).length := by
            rw [List.length_cons]
            omega
          exact ⟨a :: ys, zs, rfl, by rw [numbered, first], by rw [shift]⟩

theorem mem_numbered {n : Nat} {xs : List α} {m : μ} (mem : m ∈ numbered packet n xs) :
    ∃ k a, a ∈ xs ∧ m = packet k a := by
  induction xs generalizing n with
  | nil => cases mem
  | cons a xs ih =>
      rcases List.mem_cons.mp mem with rfl | tail
      · exact ⟨_, a, List.mem_cons_self, rfl⟩
      · obtain ⟨k, b, memB, same⟩ := ih tail
        exact ⟨k, b, List.mem_cons_of_mem _ memB, same⟩

end Numbered

end NanoTrade
