import NanoTrade.Exchange.SnapshotCycle
import NanoTrade.Trading.MarketDataConsumer

/-!
# Recovery from a snapshot

The cycles of the snapshot stream describe the books behind some update, and both streams may
lose, repeat and reorder their messages. Sequence numbers restart in every cycle: a snapshot is
taken for whole where its numbers have no gap.

`recovers_iff`: the books behind everything that was pushed are those behind the update that was
passed on last, and each recovery is from the messages of one cycle, exactly where every
SNAPSHOT_END that continues what is queued belongs to the same cycle.
-/

namespace NanoTrade

namespace QueuedMarketUpdates

variable {msgs : QueuedMarketUpdates} {seqNum : Nat} {u : MEMarketUpdate}

theorem contains_eq_false_iff :
    msgs.contains seqNum = false ↔ ∀ msg ∈ msgs.toList, msg.1 ≠ seqNum := by
  rw [← Std.TreeMap.find?_toList_eq_none_iff_contains_eq_false, List.find?_eq_none]
  simp only [beq_iff_eq, compare_eq_iff_eq, ne_eq]

theorem toList_insert_perm (fresh : ∀ msg ∈ msgs.toList, msg.1 ≠ seqNum) :
    (msgs.insert seqNum u).toList.Perm ((seqNum, u) :: msgs.toList) := by
  refine Std.TreeMap.toList_insert_perm.trans (List.Perm.cons _ (List.Perm.of_eq ?_))
  exact List.filter_eq_self.mpr fun msg mem => by simpa using (fresh msg mem).symm

/-- What comes last goes behind the others. -/
theorem toList_insert_last (last : ∀ msg ∈ msgs.toList, msg.1 < seqNum) :
    (msgs.insert seqNum u).toList = msgs.toList ++ [(seqNum, u)] := by
  have ordered : ∀ {msgs : QueuedMarketUpdates},
      msgs.toList.Pairwise fun a b => a.1 < b.1 := by
    intro msgs
    exact Std.TreeMap.ordered_keys_toList.imp Nat.compare_eq_lt.mp
  refine List.Perm.eq_of_pairwise ?_ ordered ?_ ?_
  · intro a b _ _ before behind
    exact absurd before (Nat.lt_asymm behind)
  · refine List.pairwise_append.mpr ⟨ordered, List.pairwise_singleton _ _, ?_⟩
    intro msg mem other isLast
    rw [List.mem_singleton.mp isLast]
    exact last msg mem
  · exact (toList_insert_perm fun msg mem => Nat.ne_of_lt (last msg mem)).trans
      (List.perm_append_singleton _ _).symm

end QueuedMarketUpdates

namespace SnapshotCycle

variable {c : SnapshotCycle}

/-- The messages of the cycle as they are queued. -/
def queued (c : SnapshotCycle) : List (Nat × MEMarketUpdate) :=
  c.messages.map fun m => (m.seqNum, m.meMarketUpdate)

theorem map_snd_queued (c : SnapshotCycle) : c.queued.map Prod.snd = c.updates := by
  rw [queued, messages, List.map_map, List.map_map]
  exact List.zipIdx_map_fst 0 c.updates

theorem getLast_queued (c : SnapshotCycle) {msg : Nat × MEMarketUpdate}
    (last : c.queued.getLast? = some msg) : msg.2 = c.endUpdate := by
  have mapped := congrArg (Option.map Prod.snd) last
  rw [← List.getLast?_map, map_snd_queued, updates, ← List.cons_append,
    List.getLast?_concat] at mapped
  exact (Option.some.inj mapped).symm

theorem eventsOf_queued (wellFormed : c.WellFormed) :
    MarketDataConsumer.eventsOf c.queued = c.events := by
  have inner : ∀ u ∈ c.events, ¬ u.Delimits := by
    intro u mem delimits
    obtain ⟨ticker, known, mem⟩ := List.mem_flatMap.mp mem
    rcases List.mem_cons.mp mem with rfl | mem
    · rcases delimits with isStart | isEnd
      · cases isStart
      · cases isEnd
    · have isAdd := wellFormed.add ticker (List.mem_range.mp known) u mem
      rcases delimits with isStart | isEnd
      · exact nomatch isAdd.symm.trans isStart
      · exact nomatch isAdd.symm.trans isEnd
  have kept : c.events.filter (fun u => decide ¬ u.Delimits) = c.events :=
    List.filter_eq_self.mpr fun u mem => decide_eq_true (inner u mem)
  have start : c.startUpdate.Delimits := .inl rfl
  have final : c.endUpdate.Delimits := .inr rfl
  rw [MarketDataConsumer.eventsOf, map_snd_queued, updates, List.filter_cons_of_neg,
    List.filter_append, kept, List.filter_cons_of_neg, List.filter_nil, List.append_nil]
  · simpa using final
  · simpa using start

end SnapshotCycle

/-- The cycle describes the books behind the update whose number it carries. -/
structure IncrementalStream.Describes (stream : IncrementalStream) (c : SnapshotCycle) : Prop
    extends c.WellFormed where
  shows : ∀ ticker < ME_MAX_TICKERS, Quotes.replay (c.orders ticker) =
    Books.replay (stream.between 1 (c.lastIncSeqNum + 1)) ticker

namespace MarketDataConsumer

variable {s : MarketDataConsumer} {stream : IncrementalStream} {cycles : List SnapshotCycle}
  {isSnapshot : Bool} {m : MDPMarketUpdate} {d : Delivery} {orderId : OrderId}
  {out : List ConsumerEvent} {snapshot : List (Nat × MEMarketUpdate)}

/-- A message that ends what is queued: a SNAPSHOT_END whose number continues the queued snapshot,
and behind whose update the queued incremental updates have no gap. -/
structure Ends (s : MarketDataConsumer) (m : MDPMarketUpdate) : Prop where
  inRecovery : s.inRecovery = true
  isEnd : m.meMarketUpdate.type = .SNAPSHOT_END
  begun : s.snapshotQueuedMsgs.toList ≠ []
  continues : m.seqNum = s.snapshotQueuedMsgs.toList.length
  gapless : (incrementalEvents (m.meMarketUpdate.orderId + 1)
    s.incrementalQueuedMsgs.toList).haveCompleteIncremental = true

/-- The queued snapshot with a further message. -/
def extended (s : MarketDataConsumer) (m : MDPMarketUpdate) : List (Nat × MEMarketUpdate) :=
  s.snapshotQueuedMsgs.toList ++ [(m.seqNum, m.meMarketUpdate)]

/-- The next number goes behind the others. -/
theorem Waiting.toList_queue (waiting : s.Waiting)
    (continues : m.seqNum = s.snapshotQueuedMsgs.toList.length) :
    (s.queue true m).snapshotQueuedMsgs.toList = s.extended m := by
  have below : ∀ msg ∈ s.snapshotQueuedMsgs.toList, msg.1 < m.seqNum := by
    intro msg mem
    have numbered : msg.1 ∈ List.range' 0 s.snapshotQueuedMsgs.toList.length :=
      waiting.numbered ▸ List.mem_map_of_mem mem
    rw [List.mem_range'_1] at numbered
    omega
  have fresh : s.snapshotQueuedMsgs.contains m.seqNum = false :=
    QueuedMarketUpdates.contains_eq_false_iff.mpr fun msg mem => Nat.ne_of_lt (below msg mem)
  simp only [queue, fresh, if_true, Bool.false_eq_true, if_false]
  exact QueuedMarketUpdates.toList_insert_last below

/-- A snapshot of a single message does not complete a recovery. -/
theorem Completes.two (completes : s.Completes orderId) (msg : Nat × MEMarketUpdate) :
    s.snapshotQueuedMsgs.toList ≠ [msg] := by
  intro single
  obtain ⟨head, isHead, isStart⟩ := completes.start
  obtain ⟨last, isLast, isEnd, -⟩ := completes.ends
  rw [single] at isHead isLast
  cases isHead
  cases isLast
  exact nomatch isStart.symm.trans isEnd

/-- A message of the snapshot that completes a recovery continues what is queued. -/
theorem Waiting.continues (waiting : s.Waiting) (completes : (s.queue true m).Completes orderId) :
    m.seqNum = s.snapshotQueuedMsgs.toList.length := by
  have fresh : s.snapshotQueuedMsgs.contains m.seqNum = false := by
    cases again : s.snapshotQueuedMsgs.contains m.seqNum with
    | false => rfl
    | true =>
        refine absurd ?_ (completes.two (m.seqNum, m.meMarketUpdate))
        simp only [queue, again, if_true]
        exact QueuedMarketUpdates.toList_insert_last fun msg mem => absurd mem List.not_mem_nil
  have perm := QueuedMarketUpdates.toList_insert_perm (u := m.meMarketUpdate)
    (QueuedMarketUpdates.contains_eq_false_iff.mp fresh)
  have numbered := completes.numbered
  simp only [queue, fresh, if_true, Bool.false_eq_true, if_false] at numbered
  have keys := perm.map Prod.fst
  rw [numbered, perm.length_eq, List.map_cons, List.length_cons, waiting.numbered] at keys
  have mem : m.seqNum ∈ List.range' 0 (s.snapshotQueuedMsgs.toList.length + 1) :=
    keys.mem_iff.mpr List.mem_cons_self
  have notMem : m.seqNum ∉ List.range' 0 s.snapshotQueuedMsgs.toList.length := by
    have nodup := keys.nodup_iff.mp List.nodup_range'
    exact (List.nodup_cons.mp nodup).1
  rw [List.mem_range'_1] at mem notMem
  omega

/-- A recovery completes exactly with a message that ends what is queued. -/
theorem Waiting.completes_iff (waiting : s.Waiting) (inRecovery : s.inRecovery = true)
    (isSnapshot : Bool) (m : MDPMarketUpdate) (orderId : OrderId) :
    (s.queue isSnapshot m).Completes orderId ↔
      isSnapshot = true ∧ s.Ends m ∧ m.meMarketUpdate.orderId = orderId := by
  constructor
  · intro completes
    cases isSnapshot with
    | false =>
        obtain ⟨msg, last, isEnd, -⟩ := completes.ends
        exact absurd isEnd (waiting.unended msg last)
    | true =>
        have continues := waiting.continues completes
        have toList := waiting.toList_queue continues
        obtain ⟨msg, last, isEnd, rfl⟩ := completes.ends
        rw [toList, extended, List.getLast?_concat] at last
        cases last
        refine ⟨rfl, ⟨inRecovery, isEnd, fun empty => ?_, continues, completes.gapless⟩, rfl⟩
        refine completes.two (m.seqNum, m.meMarketUpdate) ?_
        rw [toList, extended, empty, List.nil_append]
  · rintro ⟨rfl, ends, rfl⟩
    have toList := waiting.toList_queue ends.continues
    refine ⟨?_, ?_, ⟨(m.seqNum, m.meMarketUpdate), ?_, ends.isEnd, rfl⟩, ends.gapless⟩
    · obtain ⟨msg, rest, shape⟩ := List.exists_cons_of_ne_nil ends.begun
      refine ⟨msg, ?_, waiting.start msg (by rw [shape]; rfl)⟩
      rw [toList, extended, shape]
      rfl
    · rw [toList, extended, List.map_append, waiting.numbered, List.length_append,
        List.length_singleton, List.range'_concat, ends.continues]
      simp
    · rw [toList, extended, List.getLast?_concat]

/-! ## One message -/

theorem waiting_recovering (waiting : s.Waiting) : s.recovering.Waiting := by
  unfold recovering
  split
  · exact waiting
  · exact waiting_empty rfl

theorem ends_recovering : s.recovering.Ends m ↔ s.Ends m := by
  unfold recovering
  split
  · exact Iff.rfl
  · rename_i outside
    constructor
    · intro ends
      exact absurd rfl ends.begun
    · intro ends
      exact absurd ends.inRecovery outside

theorem waiting_receive (waiting : s.Waiting) : (s.receive isSnapshot m).1.Waiting := by
  unfold receive
  split
  · unfold queueMessage
    rcases (s.recovering.queue isSnapshot m).checkSnapshotSync_cases with
      ⟨orderId, -, called⟩ | ⟨-, fails, -⟩
    · rw [called]
      exact waiting_empty rfl
    · exact fails.waiting
  · split
    · exact waiting
    · exact ⟨waiting.start, waiting.numbered, waiting.unended⟩

/-- A message completes a recovery exactly if it is of the snapshot and ends what is queued. -/
theorem recovered_mem_receive (waiting : s.Waiting) :
    .recovered snapshot ∈ (s.receive isSnapshot m).2 ↔
      isSnapshot = true ∧ s.Ends m ∧ snapshot = s.extended m := by
  have kept : s.inRecovery = true → s.recovering = s := by
    intro inRecovery
    rw [recovering, if_pos inRecovery]
  unfold receive
  split
  · have completes_iff :=
      (waiting_recovering waiting).completes_iff s.recovering_spec.1 isSnapshot m
    simp only [ends_recovering] at completes_iff
    unfold queueMessage
    rcases (s.recovering.queue isSnapshot m).checkSnapshotSync_cases with
      ⟨orderId, completes, called⟩ | ⟨goesOn, -, silent⟩
    · obtain ⟨rfl, ends, rfl⟩ := (completes_iff orderId).mp completes
      rw [called, recovery, kept ends.inRecovery, waiting.toList_queue ends.continues]
      simp [ends]
    · rw [silent]
      constructor
      · intro mem
        cases mem
      · rintro ⟨rfl, ends, -⟩
        exact absurd ((completes_iff _).mpr ⟨rfl, ends, rfl⟩) (goesOn _)
  · rename_i expected
    rw [not_or] at expected
    constructor
    · intro mem
      split at mem
      · cases mem
      · simp at mem
    · rintro ⟨-, ends, -⟩
      exact absurd ends.inRecovery expected.1

/-! ## Mixed snapshots -/

/-- A SNAPSHOT_END that ends what is queued belongs with it to one cycle. -/
def Unmixed (cycles : List SnapshotCycle) (isSnapshot : Bool) (s : MarketDataConsumer)
    (m : MDPMarketUpdate) : Prop :=
  isSnapshot = true → s.Ends m → ∃ c ∈ cycles, s.extended m = c.queued

/-- Every message of a buffer that is not dropped is unmixed. -/
def UnmixedBuffer (cycles : List SnapshotCycle) (s : MarketDataConsumer) (d : Delivery) : Prop :=
  d.isSnapshot = true ∧ s.inRecovery = false ∨
    Along (Unmixed cycles d.isSnapshot) (receive d.isSnapshot) s d.requests

/-- Each recovery is from the messages of one cycle. -/
def Single (cycles : List SnapshotCycle) (out : List ConsumerEvent) : Prop :=
  ∀ snapshot, .recovered snapshot ∈ out → ∃ c ∈ cycles, snapshot = c.queued

theorem single_append {out now : List ConsumerEvent} :
    Single cycles (out ++ now) ↔ Single cycles out ∧ Single cycles now := by
  simp only [Single, List.mem_append, or_imp, forall_and]

theorem single_receive_iff (cycles : List SnapshotCycle) (waiting : s.Waiting) :
    Single cycles (s.receive isSnapshot m).2 ↔ Unmixed cycles isSnapshot s m := by
  simp only [Single, recovered_mem_receive waiting]
  constructor
  · intro single isSnapshot ends
    exact single _ ⟨isSnapshot, ends, rfl⟩
  · rintro unmixed _ ⟨isSnapshot, ends, rfl⟩
    exact unmixed isSnapshot ends

/-- A run of single steps, where `R` is carried. -/
theorem single_runTotal_iff {ι : Type} {step : MarketDataConsumer → ι → MarketDataConsumer ×
    List ConsumerEvent} {pre : MarketDataConsumer → ι → Prop}
    (single : ∀ {s i}, Waiting s → (Single cycles (step s i).2 ↔ pre s i))
    (waits : ∀ {s i}, Waiting s → (step s i).1.Waiting) (waiting : s.Waiting) (inputs : List ι) :
    (runTotal step s inputs).1.Waiting ∧
      (Single cycles (runTotal step s inputs).2 ↔ Along pre step s inputs) := by
  induction inputs generalizing s with
  | nil => exact ⟨waiting, fun _ => trivial, fun _ _ mem => absurd mem List.not_mem_nil⟩
  | cons i inputs ih =>
      obtain ⟨waits', rest⟩ := ih (waits (i := i) waiting)
      rw [runTotal, Along, single_append, rest, single waiting]
      exact ⟨waits', Iff.rfl⟩

theorem waiting_recvCallback (waiting : s.Waiting) : (s.recvCallback d).1.Waiting := by
  unfold recvCallback
  split
  · exact waiting
  · exact (single_runTotal_iff (single_receive_iff []) waiting_receive waiting _).1

theorem single_recvCallback_iff (waiting : s.Waiting) :
    Single cycles (s.recvCallback d).2 ↔ UnmixedBuffer cycles s d := by
  unfold recvCallback UnmixedBuffer
  split
  · rename_i dropped
    exact ⟨fun _ => .inl dropped, fun _ _ mem => absurd mem List.not_mem_nil⟩
  · rename_i read
    rw [(single_runTotal_iff (single_receive_iff cycles) waiting_receive waiting _).2,
      or_iff_right read]

/-! ## The books behind a recovery -/

theorem pushes_append (out now : List ConsumerEvent) :
    pushes (out ++ now) = pushes out ++ pushes now :=
  List.filterMap_append

/-- The pushes since the last recovery are the last pushes. -/
theorem pushes_eq (out : List ConsumerEvent) :
    ∃ before, pushes out = before ++ (sinceRecovery out).2 ∧
      (∀ snapshot, (sinceRecovery out).1 = some snapshot → .recovered snapshot ∈ out) ∧
      ((sinceRecovery out).1 = none → before = []) := by
  induction out using List.reverseRecOn with
  | nil =>
      refine ⟨[], rfl, fun snapshot found => ?_, fun _ => rfl⟩
      cases found
  | append_singleton out event ih =>
      obtain ⟨before, same, recovered, first⟩ := ih
      rw [sinceRecovery, List.foldl_append, ← sinceRecovery, pushes_append]
      cases event with
      | recovered snapshot =>
          refine ⟨pushes out, rfl, fun snapshot isLast => ?_, fun missing => ?_⟩
          · cases isLast
            exact List.mem_append_right _ List.mem_cons_self
          · cases missing
      | pushed u =>
          refine ⟨before, ?_, fun snapshot isLast => ?_, first⟩
          · rw [same, List.append_assoc]
            rfl
          · exact List.mem_append_left _ (recovered snapshot isLast)

/-- The books behind what was passed on, where every recovery is from one cycle. -/
theorem PassedOn.books {next : Nat} (passedOn : PassedOn stream next (sinceRecovery out))
    (describes : ∀ c ∈ cycles, stream.Describes c) (single : Single cycles out)
    {ticker : TickerId} (known : ticker < ME_MAX_TICKERS) :
    Books.replay (pushes out) ticker = Books.replay (stream.between 1 next) ticker := by
  obtain ⟨before, same, recovered, first⟩ := pushes_eq out
  rw [same]
  clear same
  generalize sinceRecovery out = seen at passedOn recovered first ⊢
  obtain ⟨snapshot, pushed⟩ := seen
  cases snapshot with
  | none =>
      obtain ⟨-, rfl⟩ := passedOn
      rw [first rfl, List.nil_append]
  | some snapshot =>
      obtain ⟨c, mem, rfl⟩ := single snapshot (recovered snapshot rfl)
      have shows := describes c mem
      obtain ⟨msg, last, -, le, rfl⟩ := passedOn
      have orderId : msg.2.orderId = c.lastIncSeqNum := by
        rw [c.getLast_queued last]
        rfl
      simp only [orderId] at le ⊢
      have whole : stream.between 1 next =
          stream.between 1 (c.lastIncSeqNum + 1) ++ stream.between (c.lastIncSeqNum + 1) next :=
        stream.between_append (Nat.le_add_left 1 _) le
      rw [SnapshotCycle.eventsOf_queued shows.toWellFormed, whole, ← List.append_assoc,
        Books.replay_append, SnapshotCycle.replay_events shows.toWellFormed known,
        Books.replay_append, shows.shows ticker known]

/-- **A recovery is right exactly where it does not mix cycles.** However both streams lose,
repeat and reorder their messages: in every state outside of a recovery the books behind all
that was pushed are those behind the update passed on last, and each recovery was from the
messages of one cycle, if and only if every SNAPSHOT_END that ends what is queued belongs with
it to one cycle. -/
theorem recovers_iff (stream : IncrementalStream) (cycles : List SnapshotCycle)
    (describes : ∀ c ∈ cycles, stream.Describes c) (deliveries : List Delivery)
    (sent : ∀ d ∈ deliveries, stream.Sends d) :
    (∀ seen, seen <+: deliveries →
      ((runTotal recvCallback new seen).1.inRecovery = false → ∀ ticker < ME_MAX_TICKERS,
        Books.replay (pushes (runTotal recvCallback new seen).2) ticker =
          Books.replay (stream.between 1 (runTotal recvCallback new seen).1.nextExpIncSeqNum)
            ticker) ∧
      Single cycles (runTotal recvCallback new seen).2) ↔
      Along (UnmixedBuffer cycles) recvCallback new deliveries := by
  have single_iff : ∀ seen, Single cycles (runTotal recvCallback new seen).2 ↔
      Along (UnmixedBuffer cycles) recvCallback new seen := fun seen =>
    (single_runTotal_iff single_recvCallback_iff waiting_recvCallback (waiting_empty rfl) seen).2
  constructor
  · intro recovers
    exact (single_iff deliveries).mp (recovers deliveries List.prefix_rfl).2
  · intro unmixed seen prefixed
    have single := (single_iff seen).mpr (along_prefixed prefixed unmixed)
    refine ⟨fun outside ticker known => ?_, single⟩
    have passedOn := (InOrder.run stream seen fun d mem => sent d (prefixed.subset mem)).passedOn
    exact (passedOn outside).books describes single known

end MarketDataConsumer

/-! ## Two cycles -/

/-- A bid of five, reduced to three. -/
def IncrementalStream.reduced : IncrementalStream where
  update n :=
    { type := if n = 1 then .ADD else if n = 2 then .MODIFY else .TRADE
      orderId := 1, tickerId := 0, side := .BUY, price := 100
      qty := if n = 1 then 5 else 3, priority := 1 }
  inner := by
    intro n delimits
    unfold MEMarketUpdate.Delimits at delimits
    grind

/-- The cycle behind an update of it. -/
def SnapshotCycle.ofBid (lastIncSeqNum : Nat) (qty : Qty) : SnapshotCycle :=
  { lastIncSeqNum
    orders := fun ticker => if ticker = 0 then [⟨.ADD, 1, 0, .BUY, 100, qty, 1⟩] else [] }

theorem IncrementalStream.reduced_describes :
    ∀ c ∈ [SnapshotCycle.ofBid 1 5, SnapshotCycle.ofBid 2 3],
      IncrementalStream.reduced.Describes c := by
  have sides : ∀ c ∈ [SnapshotCycle.ofBid 1 5, SnapshotCycle.ofBid 2 3],
      ∀ ticker < ME_MAX_TICKERS, ∀ isBid : Bool,
        Quotes.replay (c.orders ticker) (if isBid then .bid else .ask) =
          Books.replay (IncrementalStream.reduced.between 1 (c.lastIncSeqNum + 1)) ticker
            (if isBid then .bid else .ask) := by
    decide +kernel
  intro c mem
  refine ⟨⟨?_, ?_⟩, fun ticker known => funext fun side => ?_⟩
  · revert c
    decide +kernel
  · revert c
    decide +kernel
  · cases side with
    | bid => exact sides c mem ticker known true
    | ask => exact sides c mem ticker known false

namespace MarketDataConsumer

/-- The snapshot socket hands over nothing but messages of the cycles. -/
def Published (cycles : List SnapshotCycle) (d : Delivery) : Prop :=
  d.isSnapshot = true → ∀ m ∈ d.requests, ∃ c ∈ cycles, m ∈ c.messages

/-- A recovery from the second cycle alone. -/
theorem recovers_iff_single :
    (∀ seen, seen <+: [⟨false, [⟨2, IncrementalStream.reduced.update 2⟩]⟩,
        ⟨true, (SnapshotCycle.ofBid 2 3).messages⟩] →
      ((runTotal recvCallback new seen).1.inRecovery = false → ∀ ticker < ME_MAX_TICKERS,
        Books.replay (pushes (runTotal recvCallback new seen).2) ticker =
          Books.replay (IncrementalStream.reduced.between 1
            (runTotal recvCallback new seen).1.nextExpIncSeqNum) ticker) ∧
      Single [SnapshotCycle.ofBid 1 5, SnapshotCycle.ofBid 2 3]
        (runTotal recvCallback new seen).2) ↔
      Along (UnmixedBuffer [SnapshotCycle.ofBid 1 5, SnapshotCycle.ofBid 2 3]) recvCallback new
        [⟨false, [⟨2, IncrementalStream.reduced.update 2⟩]⟩,
          ⟨true, (SnapshotCycle.ofBid 2 3).messages⟩] := by
  refine recovers_iff _ _ IncrementalStream.reduced_describes _ fun d mem isIncremental m sent => ?_
  rcases List.mem_cons.mp mem with rfl | mem
  · rw [List.mem_singleton.mp sent]
  · rw [List.mem_singleton.mp mem] at isIncremental
    cases isIncremental

/-- Two cycles are mixed: the SNAPSHOT_END of the second behind the orders of the first. -/
theorem not_recovers_mixed :
    ¬ ∀ (stream : IncrementalStream) (cycles : List SnapshotCycle) (deliveries : List Delivery),
      (∀ c ∈ cycles, stream.Describes c) → (∀ d ∈ deliveries, stream.Sends d) →
      (∀ d ∈ deliveries, Published cycles d) →
      (runTotal recvCallback new deliveries).1.inRecovery = false → ∀ ticker < ME_MAX_TICKERS,
        Books.replay (pushes (runTotal recvCallback new deliveries).2) ticker =
          Books.replay (stream.between 1 (runTotal recvCallback new deliveries).1.nextExpIncSeqNum)
            ticker := by
  intro always
  have books := always IncrementalStream.reduced
    [SnapshotCycle.ofBid 1 5, SnapshotCycle.ofBid 2 3]
    [⟨false, [⟨2, IncrementalStream.reduced.update 2⟩]⟩,
      ⟨true, (SnapshotCycle.ofBid 1 5).messages.take 10 ++
        (SnapshotCycle.ofBid 2 3).messages.drop 10⟩]
    IncrementalStream.reduced_describes ?_ ?_ (by decide +kernel) 0 (by decide)
  · have bids := congrFun books .bid
    revert bids
    decide +kernel
  · intro d mem isIncremental m sent
    rcases List.mem_cons.mp mem with rfl | mem
    · rw [List.mem_singleton.mp sent]
    · rw [List.mem_singleton.mp mem] at isIncremental
      cases isIncremental
  · intro d mem isSnapshot m sent
    rcases List.mem_cons.mp mem with rfl | mem
    · cases isSnapshot
    · rw [List.mem_singleton.mp mem] at sent
      rcases List.mem_append.mp sent with first | second
      · exact ⟨_, List.mem_cons_self, List.mem_of_mem_take first⟩
      · exact ⟨_, List.mem_cons_of_mem _ List.mem_cons_self, List.mem_of_mem_drop second⟩

end MarketDataConsumer

end NanoTrade
