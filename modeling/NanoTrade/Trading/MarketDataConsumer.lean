import Mathlib.Tactic.Linarith
import NanoTrade.Exchange.Messages
import NanoTrade.Machine

/-!
# The market data consumer

`trading/market_data/market_data_consumer.cpp`: incremental updates are passed on in the order
of their sequence numbers. A gap starts a recovery, in which the messages of both streams are
queued until a snapshot and the incremental updates behind it have no gap.

The multicast streams may lose, repeat and reorder what they carry: a `Delivery` is any buffer
of messages. `run_passes_on`: outside of a recovery nothing was lost, repeated or reordered
since the last one, and an attempt that fails passes nothing on.
-/

namespace NanoTrade

/-- A `std::map`: iterated in the order of the sequence numbers. -/
abbrev QueuedMarketUpdates := Std.TreeMap Nat MEMarketUpdate

structure MarketDataConsumer where
  nextExpIncSeqNum : Nat
  inRecovery : Bool
  snapshotQueuedMsgs : QueuedMarketUpdates
  incrementalQueuedMsgs : QueuedMarketUpdates

/-- What a multicast socket hands to its callback: whether it is the snapshot socket, and the
messages in its buffer. -/
structure Delivery where
  isSnapshot : Bool
  requests : List MDPMarketUpdate

inductive ConsumerEvent
  /-- "Recovered % snapshot and % incremental orders.", with the snapshot that was queued; it
  stands in front of what the recovery pushes. -/
  | recovered (snapshot : List (Nat × MEMarketUpdate))
  /-- A write to `incoming_md_updates_`. -/
  | pushed (u : MEMarketUpdate)
  deriving DecidableEq, Repr

/-- The messages that only delimit a snapshot. -/
def MEMarketUpdate.Delimits (u : MEMarketUpdate) : Prop :=
  u.type = .SNAPSHOT_START ∨ u.type = .SNAPSHOT_END

instance : DecidablePred MEMarketUpdate.Delimits :=
  fun _ => inferInstanceAs (Decidable (_ ∨ _))

namespace MarketDataConsumer

def new : MarketDataConsumer :=
  { nextExpIncSeqNum := 1, inRecovery := false, snapshotQueuedMsgs := ∅
    incrementalQueuedMsgs := ∅ }

/-- Behind it the snapshot socket is subscribed. -/
def startSnapshotSync (s : MarketDataConsumer) : MarketDataConsumer :=
  { s with snapshotQueuedMsgs := ∅, incrementalQueuedMsgs := ∅ }

/-- `final_events.push_back`, unless the message delimits a snapshot. -/
def pushEvent (u : MEMarketUpdate) (finalEvents : List MEMarketUpdate) : List MEMarketUpdate :=
  if u.Delimits then finalEvents else u :: finalEvents

/-- The loop over the queued snapshot messages, from `next_snapshot_seq` on. There are no
final events if it finds a gap. -/
def snapshotEvents : Nat → List (Nat × MEMarketUpdate) → Option (List MEMarketUpdate)
  | _, [] => some []
  | nextSnapshotSeq, (seqNum, u) :: msgs =>
    if seqNum ≠ nextSnapshotSeq then none
    else (snapshotEvents (nextSnapshotSeq + 1) msgs).map (pushEvent u)

/-- How the loop over the queued incremental updates ends. -/
structure IncrementalSync where
  haveCompleteIncremental : Bool
  nextExpIncSeqNum : Nat
  finalEvents : List MEMarketUpdate

/-- The loop over the queued incremental updates, from `next_exp_inc_seq_num_` on. What is older
is skipped. -/
def incrementalEvents : Nat → List (Nat × MEMarketUpdate) → IncrementalSync
  | next, [] => ⟨true, next, []⟩
  | next, (seqNum, u) :: msgs =>
    if seqNum < next then incrementalEvents next msgs
    else if seqNum ≠ next then ⟨false, next, []⟩
    else
      let sync := incrementalEvents (next + 1) msgs
      { sync with finalEvents := pushEvent u sync.finalEvents }

/-- The part of `checkSnapshotSync` behind the search for gaps in the snapshot, which ends with
a SNAPSHOT_END for `orderId`. -/
def syncIncrementals (s : MarketDataConsumer) (snapshot : List (Nat × MEMarketUpdate))
    (finalEvents : List MEMarketUpdate) (orderId : OrderId) :
    MarketDataConsumer × List ConsumerEvent :=
  let sync := incrementalEvents (orderId + 1) s.incrementalQueuedMsgs.toList
  if sync.haveCompleteIncremental then
    ({ nextExpIncSeqNum := sync.nextExpIncSeqNum, inRecovery := false
       snapshotQueuedMsgs := ∅, incrementalQueuedMsgs := ∅ },
      .recovered snapshot :: (finalEvents ++ sync.finalEvents).map .pushed)
  else ({ s with nextExpIncSeqNum := sync.nextExpIncSeqNum, snapshotQueuedMsgs := ∅ }, [])

/-- The snapshot socket is left where it recovers. -/
def checkSnapshotSync (s : MarketDataConsumer) : MarketDataConsumer × List ConsumerEvent :=
  match s.snapshotQueuedMsgs.toList with
  | [] => (s, [])
  | first :: rest =>
    if first.2.type ≠ .SNAPSHOT_START then ({ s with snapshotQueuedMsgs := ∅ }, [])
    else
      match snapshotEvents 0 (first :: rest) with
      | none => ({ s with snapshotQueuedMsgs := ∅ }, [])
      | some finalEvents =>
        let last := (first :: rest).getLast (List.cons_ne_nil first rest)
        if last.2.type ≠ .SNAPSHOT_END then (s, [])
        else s.syncIncrementals (first :: rest) finalEvents last.2.orderId

/-- The queues behind the arrival of a message. A sequence number that the snapshot queue has
already empties it. -/
def queue (s : MarketDataConsumer) (isSnapshot : Bool) (request : MDPMarketUpdate) :
    MarketDataConsumer :=
  if isSnapshot then
    let msgs := if s.snapshotQueuedMsgs.contains request.seqNum then ∅ else s.snapshotQueuedMsgs
    { s with snapshotQueuedMsgs := msgs.insert request.seqNum request.meMarketUpdate }
  else
    { s with
      incrementalQueuedMsgs :=
        s.incrementalQueuedMsgs.insert request.seqNum request.meMarketUpdate }

def queueMessage (s : MarketDataConsumer) (isSnapshot : Bool) (request : MDPMarketUpdate) :
    MarketDataConsumer × List ConsumerEvent :=
  (s.queue isSnapshot request).checkSnapshotSync

/-- A message that is queued: the recovery has started before it or starts with it. -/
def recovering (s : MarketDataConsumer) : MarketDataConsumer :=
  if s.inRecovery then s else { s.startSnapshotSync with inRecovery := true }

/-- One turn of the loop of `recvCallback`. -/
def receive (isSnapshot : Bool) (s : MarketDataConsumer) (request : MDPMarketUpdate) :
    MarketDataConsumer × List ConsumerEvent :=
  if s.inRecovery = true ∨ request.seqNum ≠ s.nextExpIncSeqNum then
    s.recovering.queueMessage isSnapshot request
  else if isSnapshot then (s, [])
  else ({ s with nextExpIncSeqNum := s.nextExpIncSeqNum + 1 }, [.pushed request.meMarketUpdate])

/-- A snapshot that is not waited for is dropped with its whole buffer. -/
def recvCallback (s : MarketDataConsumer) (d : Delivery) :
    MarketDataConsumer × List ConsumerEvent :=
  if d.isSnapshot = true ∧ s.inRecovery = false then (s, [])
  else runTotal (receive d.isSnapshot) s d.requests

/-- The writes to `incoming_md_updates_`. -/
def pushes : List ConsumerEvent → List MEMarketUpdate :=
  List.filterMap fun
    | .recovered _ => none
    | .pushed u => some u

/-- What was pushed since the last recovery, and the snapshot of that recovery. -/
def sinceRecovery (out : List ConsumerEvent) :
    Option (List (Nat × MEMarketUpdate)) × List MEMarketUpdate :=
  out.foldl
    (fun seen event =>
      match event with
      | .recovered snapshot => (some snapshot, [])
      | .pushed u => (seen.1, seen.2 ++ [u]))
    (none, [])

end MarketDataConsumer

/-! ## The incremental stream -/

/-- The updates that the publisher numbers, from 1 on. None of them delimits a snapshot. -/
structure IncrementalStream where
  update : Nat → MEMarketUpdate
  inner : ∀ n, ¬ (update n).Delimits

namespace IncrementalStream

/-- The updates from `first` up to the one in front of `next`. -/
def between (stream : IncrementalStream) (first next : Nat) : List MEMarketUpdate :=
  (List.range' first (next - first)).map stream.update

/-- The socket of the incremental stream hands over nothing but its updates. -/
def Sends (stream : IncrementalStream) (d : Delivery) : Prop :=
  d.isSnapshot = false → ∀ m ∈ d.requests, m.meMarketUpdate = stream.update m.seqNum

variable {stream : IncrementalStream} {first next : Nat}

theorem between_self (stream : IncrementalStream) (n : Nat) : stream.between n n = [] := by
  rw [between, Nat.sub_self]
  rfl

theorem between_succ (le : first ≤ next) :
    stream.between first (next + 1) = stream.between first next ++ [stream.update next] := by
  rw [between, Nat.succ_sub le, List.range'_concat, List.map_append, between]
  simp only [Nat.one_mul, Nat.add_sub_cancel' le, List.map_cons, List.map_nil]

theorem between_cons (lt : first < next) :
    stream.between first next = stream.update first :: stream.between (first + 1) next := by
  rw [between, between, show next - first = (next - (first + 1)) + 1 by omega, List.range'_succ,
    List.map_cons]

theorem between_append {last : Nat} (le : first ≤ next) (le' : next ≤ last) :
    stream.between first last = stream.between first next ++ stream.between next last := by
  obtain ⟨more, rfl⟩ := Nat.le.dest le'
  induction more with
  | zero => rw [Nat.add_zero, between_self, List.append_nil]
  | succ more ih =>
      rw [← Nat.add_assoc, between_succ (by omega), between_succ (by omega), ih (by omega),
        List.append_assoc]

end IncrementalStream

namespace MarketDataConsumer

variable {s : MarketDataConsumer} {stream : IncrementalStream}
  {msgs snapshot : List (Nat × MEMarketUpdate)} {finalEvents : List MEMarketUpdate}
  {first next : Nat} {u : MEMarketUpdate} {out : List ConsumerEvent}

/-- The events of a snapshot. -/
def eventsOf (snapshot : List (Nat × MEMarketUpdate)) : List MEMarketUpdate :=
  (snapshot.map Prod.snd).filter fun u => ¬ u.Delimits

/-- The loop over a snapshot finds its events exactly if it is numbered in a row. -/
theorem snapshotEvents_eq_some :
    snapshotEvents first msgs = some finalEvents ↔
      msgs.map Prod.fst = List.range' first msgs.length ∧ finalEvents = eventsOf msgs := by
  induction msgs generalizing first finalEvents with
  | nil => simp [snapshotEvents, eventsOf, eq_comm]
  | cons msg msgs ih =>
      obtain ⟨seqNum, u⟩ := msg
      rw [snapshotEvents, List.map_cons, List.length_cons, List.range'_succ]
      split
      · rename_i gap
        simp [gap]
      · rename_i inRow
        rw [not_not] at inRow
        simp only [Option.map_eq_some_iff, ih, inRow, List.cons.injEq, true_and, pushEvent,
          eventsOf, List.map_cons]
        constructor
        · rintro ⟨_, ⟨numbered, rfl⟩, rfl⟩
          refine ⟨numbered, ?_⟩
          split
          · rename_i delimits
            simp [delimits]
          · rename_i inner
            simp [inner]
        · rintro ⟨numbered, rfl⟩
          refine ⟨_, ⟨numbered, rfl⟩, ?_⟩
          split
          · rename_i delimits
            simp [delimits]
          · rename_i inner
            simp [inner]

/-- The loop over queued updates of the stream passes on a row of it. -/
theorem incrementalEvents_spec (queued : ∀ msg ∈ msgs, msg.2 = stream.update msg.1)
    (complete : (incrementalEvents next msgs).haveCompleteIncremental = true) :
    next ≤ (incrementalEvents next msgs).nextExpIncSeqNum ∧
      (incrementalEvents next msgs).finalEvents =
        stream.between next (incrementalEvents next msgs).nextExpIncSeqNum := by
  induction msgs generalizing next with
  | nil => exact ⟨Nat.le_refl next, (stream.between_self next).symm⟩
  | cons msg msgs ih =>
      obtain ⟨seqNum, u⟩ := msg
      have later : ∀ msg ∈ msgs, msg.2 = stream.update msg.1 :=
        fun msg mem => queued msg (List.mem_cons_of_mem _ mem)
      rw [incrementalEvents] at complete ⊢
      split at complete
      · rename_i old
        rw [if_pos old]
        exact ih later complete
      · rename_i notOld
        rw [if_neg notOld]
        split at complete
        · cases complete
        · rename_i inRow
          rw [if_neg inRow]
          rw [not_not] at inRow
          subst inRow
          obtain ⟨longer, events⟩ := ih later complete
          have isUpdate : u = stream.update seqNum := queued _ List.mem_cons_self
          simp only
          refine ⟨by omega, ?_⟩
          rw [stream.between_cons (by omega), ← events, ← isUpdate, pushEvent, if_neg]
          rw [isUpdate]
          exact stream.inner seqNum

/-! ## One call of `checkSnapshotSync` -/

/-- A recovery that completes: the queued snapshot has no gap and ends with the SNAPSHOT_END
for `orderId`, and the queued incremental updates have no gap behind that. -/
structure Completes (s : MarketDataConsumer) (orderId : OrderId) : Prop where
  start : ∃ msg, s.snapshotQueuedMsgs.toList.head? = some msg ∧ msg.2.type = .SNAPSHOT_START
  numbered : s.snapshotQueuedMsgs.toList.map Prod.fst =
    List.range' 0 s.snapshotQueuedMsgs.toList.length
  ends : ∃ msg, s.snapshotQueuedMsgs.toList.getLast? = some msg ∧
    msg.2.type = .SNAPSHOT_END ∧ msg.2.orderId = orderId
  gapless : (incrementalEvents (orderId + 1)
    s.incrementalQueuedMsgs.toList).haveCompleteIncremental = true

/-- What a recovery leaves. -/
def recovered (s : MarketDataConsumer) (orderId : OrderId) : MarketDataConsumer :=
  { nextExpIncSeqNum :=
      (incrementalEvents (orderId + 1) s.incrementalQueuedMsgs.toList).nextExpIncSeqNum
    inRecovery := false, snapshotQueuedMsgs := ∅, incrementalQueuedMsgs := ∅ }

/-- What a recovery sends. -/
def recovery (s : MarketDataConsumer) (orderId : OrderId) : List ConsumerEvent :=
  .recovered s.snapshotQueuedMsgs.toList ::
    (eventsOf s.snapshotQueuedMsgs.toList ++
      (incrementalEvents (orderId + 1) s.incrementalQueuedMsgs.toList).finalEvents).map .pushed

/-- The queued snapshot is the beginning of one: it starts with a SNAPSHOT_START, has no gap and
does not end. -/
structure Waiting (s : MarketDataConsumer) : Prop where
  start : ∀ msg, s.snapshotQueuedMsgs.toList.head? = some msg → msg.2.type = .SNAPSHOT_START
  numbered : s.snapshotQueuedMsgs.toList.map Prod.fst =
    List.range' 0 s.snapshotQueuedMsgs.toList.length
  unended : ∀ msg, s.snapshotQueuedMsgs.toList.getLast? = some msg → msg.2.type ≠ .SNAPSHOT_END

theorem waiting_empty (empty : s.snapshotQueuedMsgs.toList = []) : s.Waiting := by
  refine ⟨fun msg isHead => ?_, ?_, fun msg last => ?_⟩
  · rw [empty] at isHead
    cases isHead
  · rw [empty]
    rfl
  · rw [empty] at last
    cases last

/-- An attempt that fails keeps the incremental updates and the flag. The snapshot is dropped,
or it waits for its end. -/
structure Fails (s t : MarketDataConsumer) : Prop where
  inRecovery : t.inRecovery = s.inRecovery
  incremental : t.incrementalQueuedMsgs = s.incrementalQueuedMsgs
  waiting : t.Waiting

/-- One call either completes the recovery or sends nothing. -/
theorem checkSnapshotSync_cases (s : MarketDataConsumer) :
    (∃ orderId, s.Completes orderId ∧
      s.checkSnapshotSync = (s.recovered orderId, s.recovery orderId)) ∨
    ((∀ orderId, ¬ s.Completes orderId) ∧ s.Fails s.checkSnapshotSync.1 ∧
      s.checkSnapshotSync.2 = []) := by
  unfold checkSnapshotSync
  cases shape : s.snapshotQueuedMsgs.toList with
  | nil =>
      refine .inr ⟨fun orderId completes => ?_, ⟨rfl, rfl, waiting_empty shape⟩, rfl⟩
      obtain ⟨msg, isHead, -⟩ := completes.start
      rw [shape] at isHead
      cases isHead
  | cons first rest =>
      simp only
      split
      · rename_i notStart
        refine .inr ⟨fun orderId completes => ?_, ⟨rfl, rfl, waiting_empty rfl⟩, rfl⟩
        obtain ⟨msg, isHead, isStart⟩ := completes.start
        rw [shape] at isHead
        cases isHead
        exact notStart isStart
      · rename_i isStart
        rw [not_not] at isStart
        split
        · rename_i gap
          refine .inr ⟨fun orderId completes => ?_, ⟨rfl, rfl, waiting_empty rfl⟩, rfl⟩
          have numbered := completes.numbered
          rw [shape] at numbered
          rw [snapshotEvents_eq_some.mpr ⟨numbered, rfl⟩] at gap
          cases gap
        · rename_i finalEvents found
          obtain ⟨numbered, rfl⟩ := snapshotEvents_eq_some.mp found
          have isLast : (first :: rest).getLast? =
              some ((first :: rest).getLast (List.cons_ne_nil first rest)) :=
            List.getLast?_eq_some_getLast _
          split
          · rename_i notEnd
            refine .inr ⟨fun orderId completes => ?_, ⟨rfl, rfl, ?_, ?_, ?_⟩, rfl⟩
            · obtain ⟨msg, last, isEnd, -⟩ := completes.ends
              rw [shape, isLast] at last
              cases last
              exact notEnd isEnd
            · intro msg isHead
              rw [shape] at isHead
              cases isHead
              exact isStart
            · rw [shape]
              exact numbered
            · intro msg last
              rw [shape, isLast] at last
              cases last
              exact notEnd
          · rename_i isEnd
            rw [not_not] at isEnd
            unfold syncIncrementals
            simp only
            split
            · rename_i gapless
              refine .inl ⟨_, ⟨⟨first, by rw [shape]; rfl, isStart⟩, ?_, ⟨_, ?_, isEnd, rfl⟩,
                gapless⟩, ?_⟩
              · rw [shape]
                exact numbered
              · rw [shape]
                exact isLast
              · rw [recovered, recovery, shape]
            · rename_i gap
              refine .inr ⟨fun orderId completes => ?_, ⟨rfl, rfl, waiting_empty rfl⟩, rfl⟩
              obtain ⟨msg, last, -, isOrderId⟩ := completes.ends
              rw [shape, isLast] at last
              cases last
              exact gap (isOrderId ▸ completes.gapless)

theorem recovering_spec (s : MarketDataConsumer) :
    s.recovering.inRecovery = true ∧
      (s.recovering.incrementalQueuedMsgs = s.incrementalQueuedMsgs ∨
        s.recovering.incrementalQueuedMsgs = ∅) := by
  unfold recovering
  split
  · rename_i inRecovery
    exact ⟨inRecovery, .inl rfl⟩
  · exact ⟨rfl, .inr rfl⟩

/-! ## Runs -/

section SinceRecovery

variable {us : List MEMarketUpdate}

theorem sinceRecovery_pushed (out : List ConsumerEvent) (us : List MEMarketUpdate) :
    sinceRecovery (out ++ us.map .pushed) =
      ((sinceRecovery out).1, (sinceRecovery out).2 ++ us) := by
  induction us using List.reverseRecOn with
  | nil => simp
  | append_singleton us u ih =>
      rw [List.map_append, ← List.append_assoc, sinceRecovery, List.foldl_append, ← sinceRecovery,
        ih]
      simp

theorem sinceRecovery_recovered (out : List ConsumerEvent) (snapshot : List (Nat × MEMarketUpdate))
    (us : List MEMarketUpdate) :
    sinceRecovery (out ++ .recovered snapshot :: us.map .pushed) = (some snapshot, us) := by
  have mark : sinceRecovery (out ++ [.recovered snapshot]) = (some snapshot, []) := by
    rw [sinceRecovery, List.foldl_append]
    rfl
  rw [← List.singleton_append, ← List.append_assoc, sinceRecovery_pushed, mark]
  rfl

end SinceRecovery

/-- What was pushed since the last recovery, up to the update that is expected next. -/
def PassedOn (stream : IncrementalStream) (next : Nat) :
    Option (List (Nat × MEMarketUpdate)) × List MEMarketUpdate → Prop
  | (none, pushed) => 1 ≤ next ∧ pushed = stream.between 1 next
  | (some snapshot, pushed) => ∃ msg, snapshot.getLast? = some msg ∧
      msg.2.type = .SNAPSHOT_END ∧ msg.2.orderId + 1 ≤ next ∧
      pushed = eventsOf snapshot ++ stream.between (msg.2.orderId + 1) next

theorem PassedOn.succ {seen : Option (List (Nat × MEMarketUpdate)) × List MEMarketUpdate}
    (passedOn : PassedOn stream next seen) :
    PassedOn stream (next + 1) (seen.1, seen.2 ++ [stream.update next]) := by
  obtain ⟨_ | snapshot, pushed⟩ := seen
  · obtain ⟨le, rfl⟩ := passedOn
    exact ⟨by omega, (stream.between_succ le).symm⟩
  · obtain ⟨msg, last, isEnd, le, rfl⟩ := passedOn
    refine ⟨msg, last, isEnd, Nat.le_succ_of_le le, ?_⟩
    rw [stream.between_succ le, List.append_assoc]

/-- The queued incremental updates are updates of the stream, and outside of a recovery all
that is due was passed on. -/
structure InOrder (stream : IncrementalStream) (s : MarketDataConsumer)
    (out : List ConsumerEvent) : Prop where
  queued : ∀ msg ∈ s.incrementalQueuedMsgs.toList, msg.2 = stream.update msg.1
  passedOn : s.inRecovery = false → PassedOn stream s.nextExpIncSeqNum (sinceRecovery out)

namespace InOrder

variable {isSnapshot : Bool} {request : MDPMarketUpdate} {d : Delivery}

theorem new (stream : IncrementalStream) : InOrder stream MarketDataConsumer.new [] := by
  refine ⟨fun msg mem => ?_, fun _ => ⟨Nat.le_refl 1, rfl⟩⟩
  exact absurd mem (List.not_mem_nil)

/-- One call of `checkSnapshotSync`. -/
theorem checkSnapshotSync (inRecovery : s.inRecovery = true)
    (queued : ∀ msg ∈ s.incrementalQueuedMsgs.toList, msg.2 = stream.update msg.1) :
    InOrder stream s.checkSnapshotSync.1 (out ++ s.checkSnapshotSync.2) := by
  rcases s.checkSnapshotSync_cases with ⟨orderId, completes, called⟩ | ⟨-, fails, silent⟩
  · obtain ⟨longer, events⟩ := incrementalEvents_spec queued completes.gapless
    obtain ⟨msg, last, isEnd, rfl⟩ := completes.ends
    rw [called, recovery]
    refine ⟨fun msg mem => absurd mem List.not_mem_nil, fun _ => ?_⟩
    rw [sinceRecovery_recovered]
    exact ⟨msg, last, isEnd, longer, by rw [events]; rfl⟩
  · refine ⟨?_, fun outside => ?_⟩
    · rw [fails.incremental]
      exact queued
    · rw [fails.inRecovery, inRecovery] at outside
      cases outside

/-- The queue of incremental updates behind the arrival of one of the stream. -/
theorem queue (queued : ∀ msg ∈ s.incrementalQueuedMsgs.toList, msg.2 = stream.update msg.1)
    (sent : isSnapshot = false → request.meMarketUpdate = stream.update request.seqNum) :
    ∀ msg ∈ (s.queue isSnapshot request).incrementalQueuedMsgs.toList,
      msg.2 = stream.update msg.1 := by
  cases isSnapshot with
  | true => exact queued
  | false =>
      rintro ⟨seqNum, u⟩ mem
      simp only [MarketDataConsumer.queue, Bool.false_eq_true, if_false,
        Std.TreeMap.mem_toList_iff_getElem?_eq_some, Std.TreeMap.getElem?_insert] at mem
      split at mem
      · rename_i same
        cases mem
        rw [sent rfl, compare_eq_iff_eq.mp same]
      · exact queued (seqNum, u) (Std.TreeMap.mem_toList_iff_getElem?_eq_some.mpr mem)

/-- One message. -/
theorem receive (inOrder : InOrder stream s out)
    (sent : isSnapshot = false → request.meMarketUpdate = stream.update request.seqNum) :
    InOrder stream (s.receive isSnapshot request).1 (out ++ (s.receive isSnapshot request).2) := by
  unfold MarketDataConsumer.receive
  split
  · obtain ⟨inRecovery, incremental⟩ := s.recovering_spec
    refine checkSnapshotSync ?_ (queue ?_ sent)
    · unfold MarketDataConsumer.queue
      split
      · exact inRecovery
      · exact inRecovery
    · rcases incremental with same | empty
      · rw [same]
        exact inOrder.queued
      · rw [empty]
        exact fun msg mem => absurd mem List.not_mem_nil
  · rename_i expected
    rw [not_or, not_not] at expected
    split
    · rw [List.append_nil]
      exact inOrder
    · rename_i isIncremental
      refine ⟨inOrder.queued, fun outside => ?_⟩
      rw [show [ConsumerEvent.pushed request.meMarketUpdate] =
        [request.meMarketUpdate].map .pushed from rfl, sinceRecovery_pushed,
        sent (by simpa using isIncremental), expected.2]
      exact (inOrder.passedOn outside).succ

/-- One buffer. -/
theorem recvCallback (inOrder : InOrder stream s out) (sent : stream.Sends d) :
    InOrder stream (s.recvCallback d).1 (out ++ (s.recvCallback d).2) := by
  unfold MarketDataConsumer.recvCallback
  split
  · rw [List.append_nil]
    exact inOrder
  · refine along_invariant (P := InOrder stream) inOrder (fun inOrder sent => inOrder.receive sent)
      (along_of_forall (P := fun m : MDPMarketUpdate =>
        d.isSnapshot = false → m.meMarketUpdate = stream.update m.seqNum) ?_ _)
    intro m mem isIncremental
    exact sent isIncremental m mem

/-- A run. -/
theorem run (stream : IncrementalStream) (deliveries : List Delivery)
    (sent : ∀ d ∈ deliveries, stream.Sends d) :
    InOrder stream (runTotal MarketDataConsumer.recvCallback MarketDataConsumer.new deliveries).1
      (runTotal MarketDataConsumer.recvCallback MarketDataConsumer.new deliveries).2 :=
  along_invariant (P := InOrder stream) (new stream)
    (fun inOrder sent => inOrder.recvCallback sent) (along_of_forall sent _)

end InOrder

/-- **No update is lost, repeated or reordered** between two recoveries, whatever the multicast
streams do to their messages, and an attempt to recover that fails pushes nothing. -/
theorem run_passes_on (stream : IncrementalStream) (deliveries : List Delivery)
    (sent : ∀ d ∈ deliveries, stream.Sends d) :
    ((runTotal recvCallback new deliveries).1.inRecovery = false →
      PassedOn stream (runTotal recvCallback new deliveries).1.nextExpIncSeqNum
        (sinceRecovery (runTotal recvCallback new deliveries).2)) ∧
    ∀ s : MarketDataConsumer, s.inRecovery = true → s.checkSnapshotSync.1.inRecovery = true →
      s.checkSnapshotSync.2 = [] := by
  refine ⟨(InOrder.run stream deliveries sent).passedOn, ?_⟩
  intro s _ goesOn
  rcases s.checkSnapshotSync_cases with ⟨orderId, -, called⟩ | ⟨-, -, silent⟩
  · rw [called] at goesOn
    cases goesOn
  · exact silent

/-- The first update is lost; a snapshot behind it brings it back. -/
theorem run_passes_on_recovered :
    ∃ (stream : IncrementalStream) (deliveries : List Delivery),
      (∃ snapshot, (sinceRecovery (runTotal recvCallback new deliveries).2).1 = some snapshot) ∧
      (runTotal recvCallback new deliveries).1.inRecovery = false ∧
      PassedOn stream (runTotal recvCallback new deliveries).1.nextExpIncSeqNum
        (sinceRecovery (runTotal recvCallback new deliveries).2) := by
  refine ⟨⟨fun n => ⟨.ADD, n, 0, .BUY, 100, 5, n⟩, ?_⟩,
    [⟨false, [⟨2, ⟨.ADD, 2, 0, .BUY, 100, 5, 2⟩⟩]⟩,
      ⟨true, [⟨0, ⟨.SNAPSHOT_START, 1, 0, .INVALID, 0, 0, 0⟩⟩,
        ⟨1, ⟨.CLEAR, 0, 0, .INVALID, 0, 0, 0⟩⟩, ⟨2, ⟨.ADD, 1, 0, .BUY, 100, 5, 1⟩⟩,
        ⟨3, ⟨.SNAPSHOT_END, 1, 0, .INVALID, 0, 0, 0⟩⟩]⟩], ?_, ?_, ?_⟩
  · intro n delimits
    rcases delimits with isStart | isEnd
    · cases isStart
    · cases isEnd
  · exact Option.isSome_iff_exists.mp (by decide +kernel)
  · decide +kernel
  · refine (run_passes_on _ _ ?_).1 (by decide +kernel)
    intro d mem isIncremental m requested
    rcases List.mem_cons.mp mem with rfl | mem
    · rw [List.mem_singleton.mp requested]
    · rw [List.mem_singleton.mp mem] at isIncremental
      cases isIncremental

end MarketDataConsumer

end NanoTrade
