import NanoTrade.Exchange.Invariant
import NanoTrade.Exchange.MEOrderBook
import NanoTrade.Transport.Packets

/-!
# The incremental stream on the network

`MarketDataPublisher::run` writes every update that it finds, with its number, to the buffer of
its multicast socket; when it finds no more, `McastSocket::sendAndRecv` hands the whole buffer
to `::send` and empties it, whatever the network makes of it. How much that is depends on how
many updates the matching engine sends in the meantime.

* `run_incremental_iff`: every buffer is a datagram and every numbered update is offered once
  exactly in the runs in which no drain finds more than 1559 updates.
* `exists_backlog`: whatever the engine sends can be waiting when the publisher looks.
* `not_incremental_burst`: a slow publisher loses a whole burst.
-/

namespace NanoTrade

/-- Size of the send and receive buffers in bytes. -/
def McastBufferSize : Nat := 64 * 1024 * 1024

/-- The most that one UDP datagram carries. -/
def UDPMaxPayload : Nat := 65507

/-- What the network takes of a buffer: all of it, or nothing. -/
def udpSend (buffer : List UInt8) : List UInt8 :=
  if buffer.length ≤ UDPMaxPayload then buffer else []

/-- `outbound_data_` up to `next_send_valid_index_`. -/
structure McastSocket where
  outboundData : List UInt8

/-- How the exchange ends on this path. -/
inductive PublishFault
  | matchingEngine (f : Fault)
  /-- `ASSERT`: "Mcast socket buffer filled up and sendAndRecv() not called." -/
  | bufferFilledUp

namespace McastSocket

/-- Copy data to send buffers. -/
def send (s : McastSocket) (data : List UInt8) : Except PublishFault McastSocket :=
  if s.outboundData.length + data.length < McastBufferSize then
    .ok { outboundData := s.outboundData ++ data }
  else .error .bufferFilledUp

/-- Publish outgoing data: the buffer that is handed to `::send`, if any. -/
def sendAndRecv (s : McastSocket) : McastSocket × Option (List UInt8) :=
  ({ outboundData := [] }, if s.outboundData.length > 0 then some s.outboundData else none)

end McastSocket

/-- The matching engine, the queue of its updates and the publisher. -/
structure IncrementalPublisher where
  matchingEngine : MatchingEngine
  /-- What the request in hand has still to send. -/
  sending : List MEMarketUpdate
  outgoingMdUpdates : List MEMarketUpdate
  nextIncSeqNum : Nat
  incrementalSocket : McastSocket

/-- What the two threads do next. -/
inductive StreamEvent
  /-- The matching engine takes a request. -/
  | processClientRequest (r : MEClientRequest)
  /-- It writes an update of the request to its queue. -/
  | sendMarketUpdate
  /-- The publisher looks for an update. -/
  | run
  deriving DecidableEq

inductive StreamOutput
  /-- An update is written to the buffer under its number. -/
  | numbered (m : MDPMarketUpdate)
  /-- The buffer is handed to `::send`. -/
  | handed (buffer : List UInt8)
  deriving DecidableEq

namespace IncrementalPublisher

def new (tickerBasePrices : TickerId → Price) : IncrementalPublisher :=
  { matchingEngine := .new tickerBasePrices, sending := [], outgoingMdUpdates := []
    nextIncSeqNum := 1, incrementalSocket := ⟨[]⟩ }

def step (s : IncrementalPublisher) :
    StreamEvent → Except PublishFault (IncrementalPublisher × List StreamOutput)
  | .processClientRequest r =>
    if s.sending = [] then
      match s.matchingEngine.processClientRequest r with
      | .error f => .error (.matchingEngine f)
      | .ok (matchingEngine, out) => .ok ({ s with matchingEngine, sending := updates out }, [])
    else .ok (s, [])
  | .sendMarketUpdate =>
    match s.sending with
    | [] => .ok (s, [])
    | u :: sending =>
      .ok ({ s with sending, outgoingMdUpdates := s.outgoingMdUpdates ++ [u] }, [])
  | .run =>
    match s.outgoingMdUpdates with
    | u :: outgoingMdUpdates => do
      let socket ← s.incrementalSocket.send (Packed.uint64.pack s.nextIncSeqNum)
      let socket ← socket.send (Packed.marketUpdate.pack u)
      pure ({ s with
        outgoingMdUpdates, incrementalSocket := socket, nextIncSeqNum := s.nextIncSeqNum + 1 },
        [.numbered ⟨s.nextIncSeqNum, u⟩])
    | [] =>
      let (socket, handed) := s.incrementalSocket.sendAndRecv
      .ok ({ s with incrementalSocket := socket }, handed.toList.map .handed)

end IncrementalPublisher

/-! ## Batches -/

namespace StreamOutput

/-- The updates that were numbered. -/
def updatesOf : List StreamOutput → List MDPMarketUpdate :=
  List.filterMap fun
    | .numbered m => some m
    | .handed _ => none

/-- The buffers that were handed to `::send`. -/
def buffersOf : List StreamOutput → List (List UInt8) :=
  List.filterMap fun
    | .numbered _ => none
    | .handed buffer => some buffer

/-- What has come through the network. -/
def transmitted (out : List StreamOutput) : List UInt8 :=
  (buffersOf out).flatMap udpSend

/-- The updates of each finished drain, and those that were found since. -/
def drained (out : List StreamOutput) : List (List MDPMarketUpdate) × List MDPMarketUpdate :=
  out.foldl (fun
    | (drains, found), .numbered m => (drains, found ++ [m])
    | (drains, found), .handed _ => (drains ++ [found], [])) ([], [])

/-- The drains that came to an end: what the publisher found before it handed on a buffer. -/
def drains (out : List StreamOutput) : List (List MDPMarketUpdate) :=
  (drained out).1

end StreamOutput

open StreamOutput

/-- Every buffer that was handed on is a datagram, and every update that was numbered was
offered to the network once or waits in the buffer, under a number of its own. -/
structure FitsNetwork (s : IncrementalPublisher) (out : List StreamOutput) : Prop where
  datagrams : ∀ buffer ∈ buffersOf out, buffer.length ≤ UDPMaxPayload
  once : transmitted out ++ s.incrementalSocket.outboundData =
    Packed.mdpMarketUpdate.stream (updatesOf out)
  numbers : (updatesOf out).map MDPMarketUpdate.seqNum = List.range' 1 (updatesOf out).length

namespace IncrementalPublisher

/-- Each buffer is the packed form of a drain, and the rest is in the socket. -/
structure Batched (s : IncrementalPublisher) (out : List StreamOutput) : Prop where
  buffers : buffersOf out = (drains out).map Packed.mdpMarketUpdate.stream
  pending : s.incrementalSocket.outboundData = Packed.mdpMarketUpdate.stream (drained out).2
  all : updatesOf out = (drains out).flatten ++ (drained out).2
  next : s.nextIncSeqNum = (updatesOf out).length + 1
  numbers : (updatesOf out).map MDPMarketUpdate.seqNum = List.range' 1 (updatesOf out).length

theorem Batched.new (tickerBasePrices : TickerId → Price) : (new tickerBasePrices).Batched [] :=
  ⟨rfl, rfl, rfl, rfl, rfl⟩

variable {s t : IncrementalPublisher} {out now : List StreamOutput}

/-- What the engine does leaves no trace on the stream. -/
theorem Batched.of_silent (batched : s.Batched out)
    (socket : t.incrementalSocket = s.incrementalSocket)
    (next : t.nextIncSeqNum = s.nextIncSeqNum) : t.Batched (out ++ []) := by
  rw [List.append_nil]
  exact ⟨batched.buffers, socket ▸ batched.pending, batched.all, next ▸ batched.next,
    batched.numbers⟩

theorem send_eq_ok {socket socket' : McastSocket} {data : List UInt8}
    (sent : socket.send data = .ok socket') :
    socket' = { outboundData := socket.outboundData ++ data } := by
  unfold McastSocket.send at sent
  split at sent
  · cases sent
    rfl
  · cases sent

/-- The publisher numbers an update. -/
theorem Batched.numbered (batched : s.Batched out) {u : MEMarketUpdate}
    (socket : t.incrementalSocket.outboundData = s.incrementalSocket.outboundData ++
      Packed.mdpMarketUpdate.pack ⟨s.nextIncSeqNum, u⟩)
    (next : t.nextIncSeqNum = s.nextIncSeqNum + 1) :
    t.Batched (out ++ [.numbered ⟨s.nextIncSeqNum, u⟩]) := by
  have drainedNow : drained (out ++ [.numbered ⟨s.nextIncSeqNum, u⟩]) =
      ((drained out).1, (drained out).2 ++ [⟨s.nextIncSeqNum, u⟩]) := by
    rw [drained, List.foldl_append]
    rfl
  have updatesNow : updatesOf (out ++ [.numbered ⟨s.nextIncSeqNum, u⟩]) =
      updatesOf out ++ [⟨s.nextIncSeqNum, u⟩] := List.filterMap_append
  have buffersNow : buffersOf (out ++ [.numbered ⟨s.nextIncSeqNum, u⟩]) = buffersOf out := by
    rw [buffersOf, List.filterMap_append]
    exact List.append_nil _
  constructor
  · rw [buffersNow, drains, drainedNow]
    exact batched.buffers
  · rw [socket, batched.pending, drainedNow, Packed.stream_append, Packed.stream_cons,
      Packed.stream_nil, List.append_nil]
  · rw [updatesNow, batched.all, drains, drains, drainedNow, List.append_assoc]
  · rw [next, updatesNow, List.length_append, List.length_singleton, batched.next]
  · have this : s.nextIncSeqNum = 1 + 1 * (updatesOf out).length := by
      rw [batched.next, Nat.one_mul, Nat.add_comm]
    rw [updatesNow, List.map_append, batched.numbers, List.length_append, List.length_singleton,
      List.range'_concat, ← this]
    rfl

/-- The publisher hands the buffer on. -/
theorem Batched.handed (batched : s.Batched out)
    (socket : t.incrementalSocket.outboundData = []) (next : t.nextIncSeqNum = s.nextIncSeqNum) :
    t.Batched (out ++ [.handed s.incrementalSocket.outboundData]) := by
  have drainedNow : drained (out ++ [.handed s.incrementalSocket.outboundData]) =
      ((drained out).1 ++ [(drained out).2], []) := by
    rw [drained, List.foldl_append]
    rfl
  have updatesNow : updatesOf (out ++ [.handed s.incrementalSocket.outboundData]) =
      updatesOf out := by
    rw [updatesOf, List.filterMap_append]
    exact List.append_nil _
  have buffersNow : buffersOf (out ++ [.handed s.incrementalSocket.outboundData]) =
      buffersOf out ++ [s.incrementalSocket.outboundData] := List.filterMap_append
  constructor
  · rw [buffersNow, drains, drainedNow, List.map_append, batched.buffers, batched.pending]
    rfl
  · rw [socket, drainedNow, Packed.stream_nil]
  · rw [updatesNow, batched.all, drains, drains, drainedNow, List.flatten_append,
      List.flatten_singleton, List.append_nil]
  · rw [next, batched.next, updatesNow]
  · rw [updatesNow]
    exact batched.numbers

/-- One event. -/
theorem Batched.step (batched : s.Batched out) {event : StreamEvent}
    (stepped : s.step event = .ok (t, now)) : t.Batched (out ++ now) := by
  cases event with
  | processClientRequest r =>
      unfold IncrementalPublisher.step at stepped
      simp only at stepped
      split at stepped
      · split at stepped
        · cases stepped
        · cases stepped
          exact batched.of_silent rfl rfl
      · cases stepped
        exact batched.of_silent rfl rfl
  | sendMarketUpdate =>
      unfold IncrementalPublisher.step at stepped
      simp only at stepped
      split at stepped
      · cases stepped
        exact batched.of_silent rfl rfl
      · cases stepped
        exact batched.of_silent rfl rfl
  | run =>
      unfold IncrementalPublisher.step at stepped
      simp only at stepped
      split at stepped
      · rename_i u rest found
        obtain ⟨socket, first, stepped⟩ := bind_eq_ok.mp stepped
        obtain ⟨socket', second, stepped⟩ := bind_eq_ok.mp stepped
        cases stepped
        refine batched.numbered ?_ rfl
        rw [send_eq_ok second, send_eq_ok first, Packed.pack_mdpMarketUpdate, List.append_assoc]
      · unfold McastSocket.sendAndRecv at stepped
        simp only at stepped
        split at stepped
        · cases stepped
          exact batched.handed rfl rfl
        · rename_i empty
          cases stepped
          have nothing := List.eq_nil_of_length_eq_zero (Nat.eq_zero_of_not_pos empty)
          refine batched.of_silent ?_ rfl
          show McastSocket.mk [] = s.incrementalSocket
          rw [← nothing]

theorem run_batched {tickerBasePrices : TickerId → Price} {events : List StreamEvent}
    (ran : run step (new tickerBasePrices) events = .ok (s, out)) : s.Batched out :=
  run_invariant (P := fun s _ out => s.Batched out) (Batched.new tickerBasePrices)
    (fun batched _ stepped => batched.step stepped) ran

/-- A buffer is a datagram exactly where its drain found at most 1559 updates. -/
theorem datagram_iff {drain : List MDPMarketUpdate} :
    (Packed.mdpMarketUpdate.stream drain).length ≤ UDPMaxPayload ↔ drain.length ≤ 1559 := by
  rw [Packed.length_stream, Packed.size_mdpMarketUpdate]
  unfold UDPMaxPayload
  omega

/-- What the network takes of datagrams is all of them. -/
theorem flatMap_udpSend {buffers : List (List UInt8)}
    (datagrams : ∀ buffer ∈ buffers, buffer.length ≤ UDPMaxPayload) :
    buffers.flatMap udpSend = buffers.flatten := by
  induction buffers with
  | nil => rfl
  | cons buffer buffers ih =>
      have here : udpSend buffer = buffer := if_pos (datagrams buffer List.mem_cons_self)
      rw [List.flatMap_cons, List.flatten_cons, here,
        ih (fun b mem => datagrams b (List.mem_cons_of_mem _ mem))]

/-- A stream of records in parts. -/
theorem flatten_streams (drains : List (List MDPMarketUpdate)) :
    (drains.map Packed.mdpMarketUpdate.stream).flatten =
      Packed.mdpMarketUpdate.stream drains.flatten := by
  induction drains with
  | nil => rfl
  | cons drain drains ih =>
      rw [List.map_cons, List.flatten_cons, ih, List.flatten_cons, Packed.stream_append]

/-- **A run of the exchange fits the network** exactly where no drain of `outgoing_md_updates_`
finds more than 1559 updates. -/
theorem run_incremental_iff {tickerBasePrices : TickerId → Price} {events : List StreamEvent}
    (ran : run step (new tickerBasePrices) events = .ok (s, out)) :
    FitsNetwork s out ↔ ∀ drain ∈ drains out, drain.length ≤ 1559 := by
  have batched := run_batched ran
  have sized : (∀ buffer ∈ buffersOf out, buffer.length ≤ UDPMaxPayload) ↔
      ∀ drain ∈ drains out, drain.length ≤ 1559 := by
    rw [batched.buffers, List.forall_mem_map]
    constructor
    · intro small drain mem
      exact datagram_iff.mp (small drain mem)
    · intro small drain mem
      exact datagram_iff.mpr (small drain mem)
  constructor
  · intro fits
    exact sized.mp fits.datagrams
  · intro small
    have datagrams := sized.mpr small
    refine ⟨datagrams, ?_, batched.numbers⟩
    rw [transmitted, flatMap_udpSend datagrams, batched.buffers, flatten_streams,
      batched.pending, batched.all, Packed.stream_append]

/-- Two orders rest; the publisher finds them one after the other. -/
theorem run_incremental_fits :
    ∃ s out, run step (new fun _ => 100) [.processClientRequest (churnNew 0), .sendMarketUpdate,
        .run, .run, .processClientRequest (churnNew 1), .sendMarketUpdate, .run, .run] =
          .ok (s, out) ∧
      (buffersOf out).map List.length = [42, 42] ∧ FitsNetwork s out := by
  obtain ⟨s, out, ran, read⟩ := run_of_map step (new fun _ => 100)
    [.processClientRequest (churnNew 0), .sendMarketUpdate, .run, .run,
      .processClientRequest (churnNew 1), .sendMarketUpdate, .run, .run]
    (fun out => ((buffersOf out).map List.length, (drains out).map List.length))
    ([42, 42], [1, 1]) (by decide +kernel)
  rw [Prod.mk.injEq] at read
  refine ⟨s, out, ran, read.1, (run_incremental_iff ran).mpr fun drain mem => ?_⟩
  have one := List.mem_map_of_mem (f := List.length) mem
  rw [read.2] at one
  simp only [List.mem_cons, List.not_mem_nil, or_false, or_self] at one
  omega

/-! ## A burst -/

/-- The engine writes all updates of a request while the publisher is elsewhere. -/
theorem run_sendMarketUpdate (s : IncrementalPublisher) :
    run step s (List.replicate s.sending.length .sendMarketUpdate) =
      .ok ({ s with sending := [], outgoingMdUpdates := s.outgoingMdUpdates ++ s.sending },
        []) := by
  obtain ⟨engine, sending, outgoing, next, socket⟩ := s
  simp only
  induction sending generalizing outgoing with
  | nil =>
      rw [List.append_nil]
      rfl
  | cons u sending ih =>
      rw [List.length_cons, List.replicate_succ, run_cons]
      refine ⟨_, [], [], rfl, ?_, rfl⟩
      rw [ih (outgoing ++ [u]), List.append_assoc]
      rfl

/-- A scheduling delay: whatever the engine does, its updates may all be waiting before the
publisher looks for one. -/
theorem exists_backlog {engine engine' : MatchingEngine} {rs : List MEClientRequest}
    {sent : List MEMessage} (ran : run MatchingEngine.processClientRequest engine rs =
      .ok (engine', sent))
    (outgoing : List MEMarketUpdate) (next : Nat) (socket : McastSocket) :
    ∃ events, run step ⟨engine, [], outgoing, next, socket⟩ events =
      .ok (⟨engine', [], outgoing ++ updates sent, next, socket⟩, []) := by
  induction rs generalizing engine sent outgoing with
  | nil =>
      cases ran
      refine ⟨[], ?_⟩
      rw [updates_nil, List.append_nil]
      rfl
  | cons r rs ih =>
      obtain ⟨mid, now, later, first, tail, rfl⟩ := run_cons.mp ran
      obtain ⟨events, rest⟩ := ih tail (outgoing ++ updates now)
      have taken : step ⟨engine, [], outgoing, next, socket⟩ (.processClientRequest r) =
          .ok (⟨mid, updates now, outgoing, next, socket⟩, []) := by
        simp only [step, if_true, first]
      have written := run_sendMarketUpdate ⟨mid, updates now, outgoing, next, socket⟩
      refine ⟨.processClientRequest r ::
        (List.replicate (updates now).length .sendMarketUpdate ++ events), ?_⟩
      refine run_cons_eq_ok taken ?_
      refine run_append.mpr ⟨_, [], [], written, ?_, rfl⟩
      rw [updates_append, ← List.append_assoc]
      exact rest

/-- The publisher reads an update that fits its buffer. -/
theorem step_run_cons (engine : MatchingEngine) (sending outgoing : List MEMarketUpdate)
    (u : MEMarketUpdate) (next : Nat) (socket : McastSocket)
    (room : socket.outboundData.length + 42 < McastBufferSize) :
    step ⟨engine, sending, u :: outgoing, next, socket⟩ .run =
      .ok (⟨engine, sending, outgoing, next + 1,
        ⟨socket.outboundData ++ Packed.mdpMarketUpdate.pack ⟨next, u⟩⟩⟩,
        [.numbered ⟨next, u⟩]) := by
  have first : socket.send (Packed.uint64.pack next) =
      .ok ⟨socket.outboundData ++ Packed.uint64.pack next⟩ := by
    unfold McastSocket.send
    rw [if_pos]
    rw [Packed.length_pack]
    exact Nat.lt_of_le_of_lt (Nat.add_le_add_left (by decide) _) room
  have second : McastSocket.send ⟨socket.outboundData ++ Packed.uint64.pack next⟩
      (Packed.marketUpdate.pack u) = .ok ⟨socket.outboundData ++ Packed.uint64.pack next ++
        Packed.marketUpdate.pack u⟩ := by
    unfold McastSocket.send
    rw [if_pos]
    rw [List.length_append, Packed.length_pack, Packed.length_pack, Nat.add_assoc]
    exact room
  simp only [step, first, second, bind, Except.bind, pure, Except.pure,
    Packed.pack_mdpMarketUpdate, List.append_assoc]

/-- The publisher reads a backlog to its end. -/
theorem run_drain (engine : MatchingEngine) (sending outgoing : List MEMarketUpdate)
    (next : Nat) (socket : McastSocket)
    (room : socket.outboundData.length + 42 * outgoing.length < McastBufferSize) :
    ∃ found next', run step ⟨engine, sending, outgoing, next, socket⟩
        (List.replicate outgoing.length .run) =
      .ok (⟨engine, sending, [], next', ⟨socket.outboundData ++
        Packed.mdpMarketUpdate.stream found⟩⟩, found.map .numbered) ∧
      found.length = outgoing.length := by
  induction outgoing generalizing next socket with
  | nil =>
      refine ⟨[], next, ?_, rfl⟩
      rw [Packed.stream_nil, List.append_nil]
      rfl
  | cons u outgoing ih =>
      rw [List.length_cons, Nat.mul_succ] at room
      have read := step_run_cons engine sending outgoing u next socket (by omega)
      obtain ⟨found, next', ran, same⟩ := ih (next + 1)
        ⟨socket.outboundData ++ Packed.mdpMarketUpdate.pack ⟨next, u⟩⟩ (by
          rw [List.length_append, Packed.length_pack, Packed.size_mdpMarketUpdate]
          omega)
      refine ⟨⟨next, u⟩ :: found, next', ?_, congrArg (· + 1) same⟩
      rw [List.append_assoc] at ran
      exact run_cons_eq_ok read ran

/-- Every request of a churn is about one order and sends one update. -/
theorem churn_updates (k : Nat) :
    (updates (runTotal (RefBook.step .machine) RefBook.new (churn k)).2).length = 2 * k + 1 := by
  induction k with
  | zero => rfl
  | succ k ih =>
      have placed : ∃ u, updates ((bids [churned k] (k + 2)).step .machine (churnNew k)).2 =
          [u] := ⟨_, rfl⟩
      have withdrawn : ∃ u, updates ((bids [churned k, churned (k + 1)] (k + 3)).step .machine
          (churnCancel (k + 1))).2 = [u] := by
        have found : (bids [churned k, churned (k + 1)] (k + 3)).addressed .bid
            (churnCancel (k + 1)) = some (churned k) :=
          List.find?_cons_of_pos (decide_eq_true ⟨rfl, rfl⟩)
        rw [RefBook.step_cancel rfl, RefBook.cancel, found]
        exact ⟨_, rfl⟩
      obtain ⟨u, placed⟩ := placed
      obtain ⟨v, withdrawn⟩ := withdrawn
      rw [churn, runTotal_append, (churn_run k).2]
      simp only [runTotal, churn_new, updates_append, placed, withdrawn, List.length_append, ih,
        List.length_cons, List.length_nil, updates_nil]
      omega

theorem churn_tickerId {k : Nat} {r : MEClientRequest} (mem : r ∈ churn k) : r.tickerId = 0 := by
  induction k with
  | zero =>
      rw [List.mem_singleton.mp mem]
      rfl
  | succ k ih =>
      rcases List.mem_append.mp mem with before | last
      · exact ih before
      · rcases List.mem_cons.mp last with eq | last
        · rw [eq]
          rfl
        · rw [List.mem_singleton.mp last]
          rfl

/-- The engine runs the book of one ticker. -/
theorem engine_of_book (engine : MatchingEngine) {book : MEOrderBook} {rs : List MEClientRequest}
    {sent : List MEMessage} (here : ∀ r ∈ rs, r.tickerId = 0)
    (ran : run MEOrderBook.processClientRequest (engine.tickerOrderBook 0) rs = .ok (book, sent)) :
    ∃ engine', run MatchingEngine.processClientRequest engine rs = .ok (engine', sent) := by
  induction rs generalizing engine sent with
  | nil =>
      cases ran
      exact ⟨engine, rfl⟩
  | cons r rs ih =>
      obtain ⟨mid, now, later, first, tail, rfl⟩ := run_cons.mp ran
      have ticker := here r List.mem_cons_self
      obtain ⟨engine', rest⟩ := ih
        ⟨Function.update engine.tickerOrderBook r.tickerId mid⟩
        (fun r mem => here r (List.mem_cons_of_mem _ mem)) (by
          simp only [ticker, Function.update_self]
          exact tail)
      refine ⟨engine', run_cons_eq_ok ?_ rest⟩
      refine MatchingEngine.processClientRequest_eq_ok.mpr ⟨?_, mid, ?_, rfl⟩
      · rw [ticker]
        decide
      · rw [ticker]
        exact first

end IncrementalPublisher

open IncrementalPublisher in
/-- A slow publisher: 1561 updates wait when it looks, and it hands 65562 bytes to one
`::send`. -/
theorem not_incremental_burst :
    ¬ ∀ (tickerBasePrices : TickerId → Price) (events : List StreamEvent)
      (s : IncrementalPublisher) (out : List StreamOutput),
      run IncrementalPublisher.step (.new tickerBasePrices) events = .ok (s, out) →
      FitsNetwork s out := by
  intro always
  obtain ⟨k, burst⟩ : ∃ k, k = 780 := ⟨780, rfl⟩
  obtain ⟨book, churnRan, -⟩ := (Refines.new 100 True).run (churn_run k).1
  have many := churn_updates k
  obtain ⟨engine, ran⟩ := engine_of_book (.new fun _ => 100)
    (fun r mem => churn_tickerId mem) churnRan
  obtain ⟨events, waiting⟩ := exists_backlog ran [] 1 ⟨[]⟩
  obtain ⟨found, next, read, same⟩ := run_drain engine []
    (updates (runTotal (RefBook.step .machine) RefBook.new (churn k)).2) 1 ⟨[]⟩ (by
      rw [many, burst]
      decide)
  rw [many, burst] at same
  have size : (Packed.mdpMarketUpdate.stream found).length = 65562 := by
    rw [Packed.length_stream, same]
    rfl
  have handed : step ⟨engine, [], [], next, ⟨Packed.mdpMarketUpdate.stream found⟩⟩ .run =
      .ok (⟨engine, [], [], next, ⟨[]⟩⟩, [.handed (Packed.mdpMarketUpdate.stream found)]) := by
    simp only [step, McastSocket.sendAndRecv]
    rw [if_pos (by rw [size]; decide)]
    rfl
  have whole := run_concat.mpr ⟨_, _, _, run_append.mpr ⟨_, _, _, waiting, read, rfl⟩, handed, rfl⟩
  have fits := always _ _ _ _ whole
  have small := fits.datagrams (Packed.mdpMarketUpdate.stream found) (by
    rw [buffersOf, List.filterMap_append]
    exact List.mem_append_right _ List.mem_cons_self)
  rw [size] at small
  exact absurd small (by decide)

end NanoTrade
