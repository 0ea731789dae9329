import NanoTrade.Exchange.Snapshot
import NanoTrade.Trading.Recovery

/-!
# A whole cycle ends a recovery

A consumer in recovery has whatever is left of earlier cycles in its snapshot queue. The messages
of one more cycle arrive in their order, in any buffers and between any incremental updates.

* `incrementalEvents_complete`: when the queued incremental updates have no gap.
* `Collects`: what is queued while a cycle arrives.
* `run_recovers`: its SNAPSHOT_END ends the recovery, where no update is missing between the one
  that the cycle carries and the last one that has come.
-/

namespace NanoTrade

namespace QueuedMarketUpdates

variable {msgs : QueuedMarketUpdates}

theorem pairwise_toList (msgs : QueuedMarketUpdates) :
    msgs.toList.Pairwise fun a b => a.1 < b.1 :=
  Std.TreeMap.ordered_keys_toList.imp Nat.compare_eq_lt.mp

theorem mem_iff_toList {n : Nat} : n ∈ msgs ↔ n ∈ msgs.toList.map Prod.fst := by
  rw [Std.TreeMap.map_fst_toList_eq_keys, Std.TreeMap.mem_keys]

end QueuedMarketUpdates

namespace SnapshotCycle

variable {c : SnapshotCycle} {front rest : List MDPMarketUpdate} {m : MDPMarketUpdate}

theorem map_seqNum_prefix (prefixed : front <+: c.messages) :
    front.map (·.seqNum) = List.range front.length := by
  have numbers := prefixed.map (·.seqNum)
  rw [c.map_seqNum, List.prefix_iff_eq_take, List.length_map, List.take_range,
    min_eq_left prefixed.length_le] at numbers
  exact numbers

/-- A message of a cycle has its place for its number. The first starts the snapshot, the last
ends it, and no other does. -/
theorem messages_split (wellFormed : c.WellFormed) (split : c.messages = front ++ m :: rest) :
    m.seqNum = front.length ∧ (front = [] → m.meMarketUpdate.type = .SNAPSHOT_START) ∧
      (rest ≠ [] → m.meMarketUpdate.type ≠ .SNAPSHOT_END) ∧
      (rest = [] → m.meMarketUpdate = c.endUpdate ∧ front ≠ []) := by
  have upTo : front ++ [m] <+: c.messages := ⟨rest, by rw [split]; simp⟩
  have numbers := map_seqNum_prefix upTo
  have updates := c.map_meMarketUpdate
  rw [split, List.map_append, List.map_cons, SnapshotCycle.updates, ← List.cons_append] at updates
  refine ⟨?_, fun first => ?_, fun more => ?_, fun last => ?_⟩
  · rw [List.map_append, List.length_append, List.length_singleton, List.range_succ] at numbers
    exact (List.cons.inj (List.append_inj' numbers rfl).2).1
  · subst first
    rw [List.map_nil, List.nil_append, List.cons_append] at updates
    rw [(List.cons.inj updates).1]
    rfl
  · -- What is in front of the last update starts the snapshot, clears a book or is an ADD.
    have inside : m.meMarketUpdate ∈ c.startUpdate :: c.events := by
      obtain ⟨rest, last, rfl⟩ := List.eq_nil_or_concat rest |>.resolve_left more
      rw [List.concat_eq_append, List.map_append, ← List.cons_append,
        ← List.append_assoc] at updates
      rw [← (List.append_inj' updates rfl).1]
      exact List.mem_append_right _ List.mem_cons_self
    intro isEnd
    rcases List.mem_cons.mp inside with isStart | mem
    · rw [isStart] at isEnd
      cases isEnd
    · obtain ⟨ticker, known, mem⟩ := List.mem_flatMap.mp mem
      rcases List.mem_cons.mp mem with isClear | mem
      · rw [isClear] at isEnd
        cases isEnd
      · rw [wellFormed.add ticker (List.mem_range.mp known) _ mem] at isEnd
        cases isEnd
  · subst last
    obtain ⟨before, isLast⟩ := List.append_inj' updates rfl
    refine ⟨(List.cons.inj isLast).1, ?_⟩
    rintro rfl
    cases before

end SnapshotCycle

namespace MarketDataConsumer

variable {s t : MarketDataConsumer} {m : MDPMarketUpdate} {c : SnapshotCycle}

/-! ## Queued updates without a gap -/

/-- The loop does not fall behind the number that it expects. -/
theorem le_incrementalEvents (next : Nat) (msgs : List (Nat × MEMarketUpdate)) :
    next ≤ (incrementalEvents next msgs).nextExpIncSeqNum := by
  induction msgs generalizing next with
  | nil => exact Nat.le_refl next
  | cons msg msgs ih =>
      obtain ⟨seqNum, u⟩ := msg
      rw [incrementalEvents]
      split
      · exact ih next
      · split
        · exact Nat.le_refl next
        · exact (Nat.le_succ next).trans (ih (next + 1))

/-- Where no number is missing from the expected one up to any that is queued, the loop over the
queued updates is complete. -/
theorem incrementalEvents_complete {msgs : List (Nat × MEMarketUpdate)} {next : Nat}
    (sorted : msgs.Pairwise fun a b => a.1 < b.1)
    (gapless : ∀ n ∈ msgs.map Prod.fst, ∀ k, next ≤ k → k ≤ n → k ∈ msgs.map Prod.fst) :
    (incrementalEvents next msgs).haveCompleteIncremental = true ∧
      ∀ n ∈ msgs.map Prod.fst, n < (incrementalEvents next msgs).nextExpIncSeqNum := by
  induction msgs generalizing next with
  | nil => exact ⟨rfl, fun _ mem => absurd mem List.not_mem_nil⟩
  | cons msg msgs ih =>
      obtain ⟨seqNum, u⟩ := msg
      obtain ⟨first, rest⟩ := List.pairwise_cons.mp sorted
      have behind : ∀ n ∈ msgs.map Prod.fst, seqNum < n := by
        intro n mem
        obtain ⟨msg, msgMem, rfl⟩ := List.mem_map.mp mem
        exact first msg msgMem
      have tail : ∀ next', next ≤ next' → seqNum < next' → ∀ n ∈ msgs.map Prod.fst,
          ∀ k, next' ≤ k → k ≤ n → k ∈ msgs.map Prod.fst := by
        intro next' later above n mem k le le'
        rcases List.mem_cons.mp (gapless n (List.mem_cons_of_mem _ mem) k (by omega) le') with
          same | there
        · exact absurd same (by simp only; omega)
        · exact there
      rw [incrementalEvents, List.map_cons]
      rcases Nat.lt_trichotomy seqNum next with old | rfl | gap
      · rw [if_pos old]
        obtain ⟨complete, below⟩ := ih rest (tail next (Nat.le_refl _) old)
        refine ⟨complete, fun n mem => ?_⟩
        rcases List.mem_cons.mp mem with rfl | later
        · exact Nat.lt_of_lt_of_le old (le_incrementalEvents next msgs)
        · exact below n later
      · rw [if_neg (Nat.lt_irrefl _), if_neg (not_not.mpr rfl)]
        obtain ⟨complete, below⟩ := ih rest (tail (seqNum + 1) (Nat.le_succ _) (Nat.lt_succ_self _))
        refine ⟨complete, fun n mem => ?_⟩
        rcases List.mem_cons.mp mem with rfl | later
        · exact le_incrementalEvents _ msgs
        · exact below n later
      · rcases List.mem_cons.mp (gapless seqNum List.mem_cons_self next (Nat.le_refl _)
            (Nat.le_of_lt gap)) with same | there
        · exact absurd same (Nat.ne_of_lt gap)
        · exact absurd (behind next there) (Nat.lt_asymm gap)

/-! ## While a cycle arrives -/

/-- A snapshot that does not end is waited for. -/
theorem Waiting.checkSnapshotSync (waiting : s.Waiting) : s.checkSnapshotSync = (s, []) := by
  unfold MarketDataConsumer.checkSnapshotSync
  cases shape : s.snapshotQueuedMsgs.toList with
  | nil => rfl
  | cons first rest =>
      have isStart := waiting.start first (by rw [shape]; rfl)
      have numbered := waiting.numbered
      have unended := waiting.unended ((first :: rest).getLast (List.cons_ne_nil first rest))
        (by rw [shape]; exact List.getLast?_eq_some_getLast _)
      rw [shape] at numbered
      simp only [isStart, ne_eq, not_true_eq_false, if_false,
        snapshotEvents_eq_some.mpr ⟨numbered, rfl⟩, unended, not_false_eq_true, if_true]

/-- In recovery a message is queued, and nothing else happens where the snapshot still waits. -/
theorem receive_waiting {isSnapshot : Bool} (inRecovery : s.inRecovery = true)
    (waiting : (s.queue isSnapshot m).Waiting) :
    s.receive isSnapshot m = (s.queue isSnapshot m, []) := by
  rw [receive, if_pos (.inl inRecovery), recovering, if_pos inRecovery, queueMessage,
    waiting.checkSnapshotSync]

/-- The messages of the buffers, each with its socket. -/
def arrivals (ds : List Delivery) : List (Bool × MDPMarketUpdate) :=
  ds.flatMap fun d => d.requests.map fun m => (d.isSnapshot, m)

/-- The messages of one socket. -/
def arrivedOn (isSnapshot : Bool) (arrived : List (Bool × MDPMarketUpdate)) :
    List MDPMarketUpdate :=
  (arrived.filter fun a => a.1 = isSnapshot).map Prod.snd

theorem arrivedOn_append (isSnapshot : Bool) (arrived later : List (Bool × MDPMarketUpdate)) :
    arrivedOn isSnapshot (arrived ++ later) =
      arrivedOn isSnapshot arrived ++ arrivedOn isSnapshot later := by
  rw [arrivedOn, List.filter_append, List.map_append]
  rfl

theorem arrivedOn_singleton (isSnapshot : Bool) (a : Bool × MDPMarketUpdate) :
    arrivedOn isSnapshot [a] = if a.1 = isSnapshot then [a.2] else [] := by
  unfold arrivedOn
  split
  · rename_i own
    rw [List.filter_cons_of_pos (by simpa using own)]
    rfl
  · rename_i other
    rw [List.filter_cons_of_neg (by simpa using other)]
    rfl

def receiveFrom (s : MarketDataConsumer) (arrival : Bool × MDPMarketUpdate) :
    MarketDataConsumer × List ConsumerEvent :=
  s.receive arrival.1 arrival.2

/-- Behind the messages `arrived`, of which `front` are those of a cycle: with the first of them
everything else has left the snapshot queue. -/
structure Collects (s : MarketDataConsumer) (arrived : List (Bool × MDPMarketUpdate))
    (t : MarketDataConsumer) : Prop where
  inRecovery : t.inRecovery = true
  waiting : t.Waiting
  snapshot : arrivedOn true arrived ≠ [] → t.snapshotQueuedMsgs.toList =
    (arrivedOn true arrived).map fun m => (m.seqNum, m.meMarketUpdate)
  numbers : ∀ n, n ∈ t.incrementalQueuedMsgs ↔
    n ∈ s.incrementalQueuedMsgs ∨ n ∈ (arrivedOn false arrived).map MDPMarketUpdate.seqNum

namespace Collects

variable {arrived : List (Bool × MDPMarketUpdate)} {rest : List MDPMarketUpdate}

theorem refl (inRecovery : s.inRecovery = true) (waiting : s.Waiting) : Collects s [] s :=
  ⟨inRecovery, waiting, fun nonempty => absurd rfl nonempty,
    fun _ => ⟨.inl, fun either => either.resolve_right List.not_mem_nil⟩⟩

/-- An incremental update is queued. -/
theorem incremental (collects : Collects s arrived t) (m : MDPMarketUpdate) :
    t.receive false m = (t.queue false m, []) ∧
      Collects s (arrived ++ [(false, m)]) (t.queue false m) := by
  have waiting : (t.queue false m).Waiting :=
    ⟨collects.waiting.start, collects.waiting.numbered, collects.waiting.unended⟩
  refine ⟨receive_waiting collects.inRecovery waiting, collects.inRecovery, waiting, ?_, ?_⟩
  · rw [arrivedOn_append, arrivedOn_singleton, if_neg Bool.false_ne_true, List.append_nil]
    exact collects.snapshot
  · intro n
    rw [arrivedOn_append, arrivedOn_singleton, if_pos rfl, List.map_append, List.mem_append,
      ← or_assoc, ← collects.numbers]
    simp only [queue, Bool.false_eq_true, if_false, Std.TreeMap.mem_insert, compare_eq_iff_eq,
      List.map_cons, List.map_nil, List.mem_singleton]
    exact ⟨fun either => either.symm.imp id Eq.symm, fun either => either.symm.imp Eq.symm id⟩

/-- A message of the cycle that is not the last goes behind the others; the first one drops what
was left in the queue. -/
theorem inner (collects : Collects s arrived t) (wellFormed : c.WellFormed)
    (split : c.messages = arrivedOn true arrived ++ m :: rest) (more : rest ≠ []) :
    t.receive true m = (t.queue true m, []) ∧
      Collects s (arrived ++ [(true, m)]) (t.queue true m) := by
  obtain ⟨number, first, notEnd, -⟩ := SnapshotCycle.messages_split wellFormed split
  have queued : (t.queue true m).snapshotQueuedMsgs.toList =
      (arrivedOn true arrived ++ [m]).map fun m => (m.seqNum, m.meMarketUpdate) := by
    rcases eq_or_ne (arrivedOn true arrived) [] with isFirst | later
    · have zero : m.seqNum = 0 := by rw [number, isFirst, List.length_nil]
      have dropped : (if t.snapshotQueuedMsgs.contains m.seqNum = true then ∅
          else t.snapshotQueuedMsgs).toList = [] := by
        split
        · rfl
        · rename_i absent
          cases shape : t.snapshotQueuedMsgs.toList with
          | nil => rfl
          | cons msg msgs =>
              have inRow := collects.waiting.numbered
              rw [shape, List.length_cons, List.range'_succ, List.map_cons] at inRow
              have fresh := QueuedMarketUpdates.contains_eq_false_iff.mp
                (Bool.not_eq_true _ ▸ absent) msg (by rw [shape]; exact List.mem_cons_self)
              exact absurd ((List.cons.inj inRow).1.trans zero.symm) fresh
      rw [isFirst]
      simp only [queue, if_true]
      rw [QueuedMarketUpdates.toList_insert_last fun msg mem => by
        rw [dropped] at mem
        exact absurd mem List.not_mem_nil, dropped]
      rfl
    · have queue := collects.snapshot later
      rw [collects.waiting.toList_queue (by rw [queue, List.length_map, number]), extended, queue,
        List.map_append]
      rfl
  have waiting : (t.queue true m).Waiting := by
    constructor
    · intro msg isHead
      rw [queued] at isHead
      rcases eq_or_ne (arrivedOn true arrived) [] with isFirst | later
      · rw [isFirst] at isHead
        cases isHead
        exact first isFirst
      · rw [List.map_append, List.head?_append_of_ne_nil _ (by simpa using later),
          ← collects.snapshot later] at isHead
        exact collects.waiting.start msg isHead
    · have numbers := SnapshotCycle.map_seqNum_prefix (c := c)
        (show arrivedOn true arrived ++ [m] <+: _ from ⟨rest, by rw [split]; simp⟩)
      rw [queued, List.map_map, List.length_map, ← List.range_eq_range', ← numbers]
      rfl
    · intro msg last
      rw [queued, List.map_append, List.map_cons, List.map_nil, List.getLast?_concat] at last
      cases last
      exact notEnd more
  refine ⟨receive_waiting collects.inRecovery waiting, collects.inRecovery, waiting, ?_, ?_⟩
  · intro _
    rw [arrivedOn_append, arrivedOn_singleton, if_pos rfl, queued]
  · intro n
    rw [arrivedOn_append, arrivedOn_singleton, if_neg Bool.true_eq_false.mp, List.append_nil]
    exact collects.numbers n

/-- All messages but the last are collected, and nothing is passed on. -/
theorem run (inRecovery : s.inRecovery = true) (waiting : s.Waiting) (wellFormed : c.WellFormed)
    (split : c.messages = arrivedOn true arrived ++ m :: rest) :
    ∃ t, runTotal receiveFrom s arrived = (t, []) ∧ Collects s arrived t := by
  induction arrived using List.reverseRecOn generalizing m rest with
  | nil => exact ⟨s, rfl, .refl inRecovery waiting⟩
  | append_singleton arrived a ih =>
      obtain ⟨isSnapshot, x⟩ := a
      rw [arrivedOn_append, arrivedOn_singleton] at split
      cases isSnapshot with
      | false =>
          rw [if_neg Bool.false_ne_true, List.append_nil] at split
          obtain ⟨t, ran, collects⟩ := ih split
          obtain ⟨received, more⟩ := collects.incremental x
          refine ⟨t.queue false x, ?_, more⟩
          rw [runTotal_concat, ran]
          exact received
      | true =>
          rw [if_pos rfl, List.append_assoc, List.singleton_append] at split
          obtain ⟨t, ran, collects⟩ := ih split
          obtain ⟨received, more⟩ := collects.inner wellFormed split (List.cons_ne_nil m rest)
          refine ⟨t.queue true x, ?_, more⟩
          rw [runTotal_concat, ran]
          exact received

/-- The last message ends the recovery, where no update is missing behind the cycle. -/
theorem ends (collects : Collects s arrived t) (wellFormed : c.WellFormed)
    (split : c.messages = arrivedOn true arrived ++ [m])
    (gapless : (incrementalEvents (c.lastIncSeqNum + 1)
      t.incrementalQueuedMsgs.toList).haveCompleteIncremental = true) :
    t.receive true m = (t.recovered c.lastIncSeqNum, .recovered c.queued ::
      (c.events ++ (incrementalEvents (c.lastIncSeqNum + 1)
        t.incrementalQueuedMsgs.toList).finalEvents).map .pushed) := by
  obtain ⟨number, -, -, last⟩ := SnapshotCycle.messages_split wellFormed split
  obtain ⟨isEnd, nonempty⟩ := last rfl
  have queued := collects.snapshot nonempty
  have continues : m.seqNum = t.snapshotQueuedMsgs.toList.length := by
    rw [queued, List.length_map, number]
  have orderId : m.meMarketUpdate.orderId = c.lastIncSeqNum := by
    rw [isEnd]
    rfl
  have ends : t.Ends m := by
    refine ⟨collects.inRecovery, by rw [isEnd]; rfl, ?_, continues, ?_⟩
    · rw [queued]
      simpa using nonempty
    · rw [orderId]
      exact gapless
  have snapshot : (t.queue true m).snapshotQueuedMsgs.toList = c.queued := by
    rw [collects.waiting.toList_queue continues, extended, queued, SnapshotCycle.queued, split,
      List.map_append]
    rfl
  have completes := (collects.waiting.completes_iff collects.inRecovery true m c.lastIncSeqNum).mpr
    ⟨rfl, ends, orderId⟩
  rw [receive, if_pos (.inl collects.inRecovery), recovering, if_pos collects.inRecovery,
    queueMessage]
  rcases (t.queue true m).checkSnapshotSync_cases with ⟨orderId', completes', called⟩ | ⟨not, -⟩
  · obtain ⟨-, -, same⟩ :=
      (collects.waiting.completes_iff collects.inRecovery true m orderId').mp completes'
    rw [orderId] at same
    subst same
    rw [called, recovery, snapshot, SnapshotCycle.eventsOf_queued wellFormed]
    rfl
  · exact absurd completes (not _)

end Collects

/-! ## Buffers -/

theorem recvCallback_eq (s : MarketDataConsumer) (d : Delivery) (inRecovery : s.inRecovery = true) :
    s.recvCallback d = runTotal receiveFrom s (d.requests.map fun m => (d.isSnapshot, m)) := by
  have each : ∀ (ms : List MDPMarketUpdate) (s : MarketDataConsumer),
      runTotal (receive d.isSnapshot) s ms =
        runTotal receiveFrom s (ms.map fun m => (d.isSnapshot, m)) := by
    intro ms
    induction ms with
    | nil => exact fun _ => rfl
    | cons m ms ih =>
        intro s
        rw [List.map_cons, runTotal, runTotal, ih]
        rfl
  rw [recvCallback, if_neg fun dropped => ?_, each]
  rw [inRecovery] at dropped
  exact absurd dropped.2 Bool.true_eq_false.mp

/-- Buffers without messages do nothing. -/
theorem recvCallback_none {ds : List Delivery} (nothing : arrivals ds = [])
    (s : MarketDataConsumer) :
    runTotal recvCallback s ds = (s, []) := by
  induction ds with
  | nil => rfl
  | cons d ds ih =>
      rw [arrivals, List.flatMap_cons, List.append_eq_nil_iff] at nothing
      have idle : s.recvCallback d = (s, []) := by
        unfold recvCallback
        split
        · rfl
        · rw [List.map_eq_nil_iff.mp nothing.1]
          rfl
      rw [runTotal, idle, ih nothing.2]
      rfl

/-- Where the recovery lasts up to the last message, it does not matter how the messages are put
into buffers. -/
theorem recvCallback_arrivals {ds : List Delivery} {front : List (Bool × MDPMarketUpdate)}
    {last : Bool × MDPMarketUpdate} (split : arrivals ds = front ++ [last])
    (lasts : ∀ early, early <+: front → (runTotal receiveFrom s early).1.inRecovery = true) :
    runTotal recvCallback s ds = runTotal receiveFrom s (arrivals ds) := by
  induction ds generalizing s front with
  | nil => simp [arrivals] at split
  | cons d ds ih =>
      have inRecovery : s.inRecovery = true := lasts [] List.nil_prefix
      have whole : arrivals (d :: ds) =
          d.requests.map (fun m => (d.isSnapshot, m)) ++ arrivals ds :=
        List.flatMap_cons
      rw [whole, runTotal_append, runTotal, recvCallback_eq s d inRecovery]
      rcases List.eq_nil_or_concat (arrivals ds) with nothing | ⟨later, last', more⟩
      · rw [recvCallback_none nothing, nothing]
        rfl
      · rw [List.concat_eq_append] at more
        rw [whole, more, ← List.append_assoc] at split
        obtain ⟨same, isLast⟩ := List.append_inj' split rfl
        rw [(List.cons.inj isLast).1] at more
        rw [ih more fun early prefixed => ?_]
        have longer := lasts (d.requests.map (fun m => (d.isSnapshot, m)) ++ early)
          (same ▸ (List.prefix_append_right_inj _).mpr prefixed)
        rw [runTotal_append] at longer
        exact longer

/-- **A whole cycle ends a recovery.** In recovery, whatever was lost before and whatever is left
of earlier cycles, the messages of a cycle arrive, in any buffers and between any updates. Where
every update from the cycle up to the last one that has come is there, its last message ends the
recovery: the orders of the cycle and these updates are passed on, and nothing before. -/
theorem run_recovers (stream : IncrementalStream) {deliveries ds : List Delivery}
    {c : SnapshotCycle} (wellFormed : c.WellFormed)
    (sent : ∀ d ∈ deliveries ++ ds, stream.Sends d)
    (inRecovery : (runTotal recvCallback new deliveries).1.inRecovery = true)
    {front : List (Bool × MDPMarketUpdate)} {m : MDPMarketUpdate}
    (split : arrivals ds = front ++ [(true, m)])
    (whole : arrivedOn true (arrivals ds) = c.messages)
    (gapless : ∀ n, n ∈ (runTotal recvCallback new deliveries).1.incrementalQueuedMsgs ∨
        n ∈ (arrivedOn false front).map MDPMarketUpdate.seqNum →
      ∀ k, c.lastIncSeqNum < k → k ≤ n →
        k ∈ (runTotal recvCallback new deliveries).1.incrementalQueuedMsgs ∨
          k ∈ (arrivedOn false front).map MDPMarketUpdate.seqNum) :
    (runTotal recvCallback new (deliveries ++ ds)).1.inRecovery = false ∧
      ∃ next, (runTotal recvCallback new (deliveries ++ ds)).1.nextExpIncSeqNum = next ∧
        c.lastIncSeqNum < next ∧
        (∀ n, n ∈ (runTotal recvCallback new deliveries).1.incrementalQueuedMsgs ∨
          n ∈ (arrivedOn false front).map MDPMarketUpdate.seqNum → n < next) ∧
        (runTotal recvCallback new (deliveries ++ ds)).2 =
          (runTotal recvCallback new deliveries).2 ++ .recovered c.queued ::
            (c.events ++ stream.between (c.lastIncSeqNum + 1) next).map .pushed := by
  have waiting : (runTotal recvCallback new deliveries).1.Waiting := by
    clear sent inRecovery gapless
    induction deliveries using List.reverseRecOn with
    | nil => exact waiting_empty rfl
    | append_singleton deliveries d ih =>
        rw [runTotal_concat]
        exact waiting_recvCallback ih
  have inOrder := InOrder.run stream deliveries fun d mem => sent d (List.mem_append_left _ mem)
  rw [runTotal_append]
  generalize runTotal recvCallback new deliveries = before at *
  obtain ⟨s, out⟩ := before
  simp only at *
  rw [split, arrivedOn_append, arrivedOn_singleton, if_pos rfl] at whole
  obtain ⟨t, ran, collects⟩ := Collects.run inRecovery waiting wellFormed whole.symm
  have lasts : ∀ early, early <+: front → (runTotal receiveFrom s early).1.inRecovery = true := by
    intro early ⟨later, shape⟩
    obtain ⟨x, rest, more⟩ := List.exists_cons_of_ne_nil
      (List.append_ne_nil_of_right_ne_nil (arrivedOn true later) (List.cons_ne_nil m []))
    obtain ⟨u, ranU, collectsU⟩ := Collects.run inRecovery waiting wellFormed
      (show c.messages = arrivedOn true early ++ x :: rest by
        rw [← more, ← List.append_assoc, ← arrivedOn_append, shape, whole])
    rw [ranU]
    exact collectsU.inRecovery
  have ofStream : ∀ a ∈ front, a.1 = false → a.2.meMarketUpdate = stream.update a.2.seqNum := by
    intro a mem isIncremental
    have arrived : a ∈ arrivals ds := split ▸ List.mem_append_left _ mem
    obtain ⟨d, dMem, aMem⟩ := List.mem_flatMap.mp arrived
    obtain ⟨x, xMem, rfl⟩ := List.mem_map.mp aMem
    exact sent d (List.mem_append_right _ dMem) isIncremental x xMem
  have queued : InOrder stream (runTotal receiveFrom s front).1
      (out ++ (runTotal receiveFrom s front).2) :=
    along_invariant (P := InOrder stream) inOrder (fun inOrder sent => inOrder.receive sent)
      (along_of_forall (P := fun a : Bool × MDPMarketUpdate =>
        a.1 = false → a.2.meMarketUpdate = stream.update a.2.seqNum) ofStream s)
  rw [ran] at queued
  have noneMissing : ∀ n ∈ t.incrementalQueuedMsgs.toList.map Prod.fst, ∀ k,
      c.lastIncSeqNum + 1 ≤ k → k ≤ n → k ∈ t.incrementalQueuedMsgs.toList.map Prod.fst := by
    intro n mem k le le'
    rw [← QueuedMarketUpdates.mem_iff_toList, collects.numbers] at mem ⊢
    exact gapless n mem k le le'
  obtain ⟨complete, below⟩ := incrementalEvents_complete
    (QueuedMarketUpdates.pairwise_toList t.incrementalQueuedMsgs) noneMissing
  obtain ⟨longer, events⟩ := incrementalEvents_spec queued.queued complete
  have received := collects.ends wellFormed whole.symm complete
  rw [recvCallback_arrivals split lasts, split, runTotal_concat, ran]
  simp only [receiveFrom, received, List.nil_append, events]
  refine ⟨rfl, _, rfl, longer, fun n mem => below n ?_, rfl⟩
  rw [← QueuedMarketUpdates.mem_iff_toList, collects.numbers]
  exact mem

/-- The first update is lost. -/
def lostFirst : List Delivery :=
  [⟨false, [⟨2, IncrementalStream.reduced.update 2⟩]⟩]

/-- The cycle behind it, in two buffers with the third update between them. -/
def cycleBehind : List Delivery :=
  [⟨true, (SnapshotCycle.ofBid 1 5).messages.take 4⟩,
    ⟨false, [⟨3, IncrementalStream.reduced.update 3⟩]⟩,
    ⟨true, (SnapshotCycle.ofBid 1 5).messages.drop 4⟩]

theorem run_recovers_behind :
    (runTotal recvCallback new lostFirst).1.inRecovery = true ∧
      (runTotal recvCallback new (lostFirst ++ cycleBehind)).1.inRecovery = false ∧
      3 < (runTotal recvCallback new (lostFirst ++ cycleBehind)).1.nextExpIncSeqNum := by
  have described : IncrementalStream.reduced.Describes (SnapshotCycle.ofBid 1 5) :=
    IncrementalStream.reduced_describes _ List.mem_cons_self
  have inRecovery : (runTotal recvCallback new lostFirst).1.inRecovery = true := by
    decide +kernel
  have sent : ∀ d ∈ lostFirst ++ cycleBehind, ∀ m ∈ d.requests, d.isSnapshot = false →
      m.meMarketUpdate = IncrementalStream.reduced.update m.seqNum := by
    decide +kernel
  have split : arrivals cycleBehind = (arrivals cycleBehind).dropLast ++
      [(true, ⟨10, (SnapshotCycle.ofBid 1 5).endUpdate⟩)] := by
    decide +kernel
  have whole : arrivedOn true (arrivals cycleBehind) = (SnapshotCycle.ofBid 1 5).messages := by
    decide +kernel
  have queued : (runTotal recvCallback new lostFirst).1.incrementalQueuedMsgs.toList.map Prod.fst =
      [2] := by
    decide +kernel
  have between : (arrivedOn false (arrivals cycleBehind).dropLast).map MDPMarketUpdate.seqNum =
      [3] := by
    decide +kernel
  obtain ⟨recovers, next, expected, -, beyond, -⟩ := run_recovers IncrementalStream.reduced
    described.toWellFormed (fun d mem isIncremental m requested =>
      sent d mem m requested isIncremental) inRecovery split whole (by
      simp only [QueuedMarketUpdates.mem_iff_toList, queued, between, List.mem_singleton]
      intro n either k above le
      have carried : (SnapshotCycle.ofBid 1 5).lastIncSeqNum = 1 := rfl
      omega)
  refine ⟨inRecovery, recovers, ?_⟩
  rw [expected]
  exact beyond 3 (.inr (by rw [between]; exact List.mem_singleton_self 3))

end MarketDataConsumer

end NanoTrade
