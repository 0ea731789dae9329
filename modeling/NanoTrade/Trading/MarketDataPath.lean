import NanoTrade.Exchange.Snapshot
import NanoTrade.Trading.Recovery

/-!
# From the matching engine to the books of a client

The whole way of the market data: the matching engine sends updates, the publisher numbers them
and the synthesizer follows them, both multicast streams lose, repeat and reorder what they carry,
the consumer puts it in order or recovers from a snapshot, and the books of the client apply what
it passes on.

* `Quotes.Readable`: updates that a book of a client can apply, CLEARs included.
* `MarketDataConsumer.Shown`: what is passed on can be read, and outside of a recovery it shows
  the books behind some of the updates.
* `run_client_books`: then the books of the client are those of the matching engine, unless an
  order comes at a price that a CLEAR has dropped.
-/

namespace NanoTrade

namespace Quotes

variable {basePrice : Price} {quotes quotes' : Quotes} {us vs : List MEMarketUpdate}
  {u : MEMarketUpdate}

/-! ## Updates that can be read -/

/-- From the book of `quotes` on, each update is well-formed and crosses nothing. -/
def Readable (basePrice : Price) : Quotes → List MEMarketUpdate → Prop
  | _, [] => True
  | quotes, u :: us =>
    (quotes.WellFormed basePrice u ∧ quotes.Uncrossed u) ∧ Readable basePrice (quotes.apply u) us

theorem readable_append : Readable basePrice quotes (us ++ vs) ↔
    Readable basePrice quotes us ∧ Readable basePrice (us.foldl apply quotes) vs := by
  induction us generalizing quotes with
  | nil => exact (and_iff_right trivial).symm
  | cons u us ih =>
      rw [List.cons_append, Readable, Readable, ih, List.foldl_cons]
      exact and_assoc.symm

/-- What a book reads from its quotes on, a client reads. -/
theorem Readable.along {m : Market} (readable : Readable basePrice m.quotes us) :
    Along (NanoTrade.Uncrossed basePrice) Market.step m us := by
  induction us generalizing m with
  | nil => trivial
  | cons u us ih =>
      refine ⟨readable.1, ih ?_⟩
      rw [Market.step_quotes]
      exact readable.2

/-- A part of a feed, behind what was read of it. -/
theorem Feed.readable (feed : Feed basePrice (us ++ vs)) :
    Readable basePrice (replay us) vs := by
  induction vs generalizing us with
  | nil => trivial
  | cons v vs ih =>
      have announced := feed us v ⟨vs, List.append_assoc us [v] vs⟩
      refine ⟨⟨announced.wellFormed, announced.uncrossed⟩, ?_⟩
      rw [← replay_concat]
      exact ih (by rw [List.append_assoc]; exact feed)

/-! ## Sound books -/

/-- A book that a matching engine can have. -/
structure Sound (basePrice : Price) (quotes : Quotes) : Prop where
  inside : ∀ q ∈ both quotes, InWindow basePrice q.price
  slot : ∀ q ∈ both quotes, q.key < ME_MAX_ORDER_IDS
  room : (both quotes).length < ME_MAX_ORDER_IDS
  apart : ∀ bid ∈ quotes .bid, ∀ ask ∈ quotes .ask, bid.price < ask.price

theorem Sound.new (basePrice : Price) : Sound basePrice fun _ => [] :=
  ⟨fun _ mem => absurd mem List.not_mem_nil, fun _ mem => absurd mem List.not_mem_nil, by decide,
    fun _ mem => absurd mem List.not_mem_nil⟩

/-- Orders of a sound book, with other quantities or fewer of them. -/
theorem Sound.of_kept (sound : Sound basePrice quotes)
    (kept : ∀ side, ∀ q' ∈ quotes' side, ∃ q ∈ quotes side, q.key = q'.key ∧ q.price = q'.price)
    (fewer : (both quotes').length ≤ (both quotes).length) : Sound basePrice quotes' := by
  constructor
  · intro q' mem
    obtain ⟨side, mem⟩ := (mem_both _).mp mem
    obtain ⟨q, qMem, -, price⟩ := kept side q' mem
    exact price ▸ sound.inside q ((mem_both _).mpr ⟨side, qMem⟩)
  · intro q' mem
    obtain ⟨side, mem⟩ := (mem_both _).mp mem
    obtain ⟨q, qMem, key, -⟩ := kept side q' mem
    exact key ▸ sound.slot q ((mem_both _).mpr ⟨side, qMem⟩)
  · exact Nat.lt_of_le_of_lt fewer sound.room
  · intro bid bidMem ask askMem
    obtain ⟨b, bMem, -, bidPrice⟩ := kept .bid bid bidMem
    obtain ⟨a, aMem, -, askPrice⟩ := kept .ask ask askMem
    rw [← bidPrice, ← askPrice]
    exact sound.apart b bMem a aMem

/-- An announced update leaves a sound book. -/
theorem Sound.apply (sound : Sound basePrice quotes) (announced : quotes.Announced basePrice u) :
    Sound basePrice (quotes.apply u) := by
  rcases announced.kind with isAdd | isModify | isCancel | isTrade
  · obtain ⟨side, adds⟩ := announced.add isAdd
    have grown : ((quotes side).orderedInsert (Resting.Ahead side) (Quote.of u)).Perm
        (Quote.of u :: quotes side) := List.perm_orderedInsert _ _ _
    have all := perm_both_grown grown
    have stops := announced.uncrossed isAdd side adds.sided
    rw [apply_add isAdd adds.sided]
    constructor
    · intro q mem
      rcases List.mem_cons.mp (all.mem_iff.mp mem) with rfl | old
      · exact adds.inside
      · exact sound.inside q old
    · intro q mem
      rcases List.mem_cons.mp (all.mem_iff.mp mem) with rfl | old
      · exact adds.slot
      · exact sound.slot q old
    · rw [all.length_eq, List.length_cons]
      exact adds.room
    · intro bid bidMem ask askMem
      rcases (mem_grown grown).mp bidMem with ⟨rfl, rfl⟩ | oldBid
      · rcases (mem_grown grown).mp askMem with ⟨other, -⟩ | oldAsk
        · cases other
        · exact Int.not_le.mp (stops ask oldAsk)
      · rcases (mem_grown grown).mp askMem with ⟨rfl, rfl⟩ | oldAsk
        · exact Int.not_le.mp (stops bid oldBid)
        · exact sound.apart bid oldBid ask oldAsk
  · refine sound.of_kept (fun side q' mem => ?_) ?_
    · simp only [Quotes.apply, isModify] at mem
      obtain ⟨q, qMem, rfl⟩ := List.mem_map.mp mem
      refine ⟨q, qMem, ?_⟩
      split
      · exact ⟨rfl, rfl⟩
      · exact ⟨rfl, rfl⟩
    · simp only [both, Quotes.apply, isModify, List.length_append, List.length_map, le_refl]
  · refine sound.of_kept (fun side q' mem => ?_) ?_
    · simp only [Quotes.apply, isCancel] at mem
      exact ⟨q', List.mem_of_mem_filter mem, rfl, rfl⟩
    · simp only [both, Quotes.apply, isCancel, List.length_append]
      exact Nat.add_le_add (List.length_filter_le _ _) (List.length_filter_le _ _)
  · simp only [Quotes.apply, isTrade]
    exact sound

theorem Feed.sound (feed : Feed basePrice us) : Sound basePrice (replay us) := by
  induction us using List.reverseRecOn with
  | nil => exact .new basePrice
  | append_singleton us u ih =>
      rw [replay_concat]
      exact (ih (feed.of_prefix (List.prefix_append _ _))).apply (feed us u List.prefix_rfl)

/-- The orders of a sound book by their ids can be read into an empty one. -/
theorem readable_adds (add : ∀ u ∈ us, u.type = .ADD ∧ ∃ side, u.side = BookSide.toSide side)
    (rising : us.Pairwise fun u v => u.orderId < v.orderId)
    (sound : Sound basePrice (replay us)) : Readable basePrice (fun _ => []) us := by
  induction us using List.reverseRecOn with
  | nil => trivial
  | append_singleton us u ih =>
      obtain ⟨before, -, behind⟩ := List.pairwise_append.mp rising
      have addBefore := fun v mem => add v (List.mem_append_left [u] mem)
      obtain ⟨isAdd, side, sided⟩ := add u (List.mem_append_right _ List.mem_cons_self)
      obtain ⟨-, listed⟩ := replay_adds addBefore before
      have grown : ((replay us side).orderedInsert (Resting.Ahead side) (Quote.of u)).Perm
          (Quote.of u :: replay us side) := List.perm_orderedInsert _ _ _
      have whole : replay (us ++ [u]) = Function.update (replay us) side
          ((replay us side).orderedInsert (Resting.Ahead side) (Quote.of u)) := by
        rw [replay_concat, apply_add isAdd sided]
      have all := perm_both_grown grown
      rw [← whole] at all
      have kept : ∀ side', ∀ q ∈ replay us side', q ∈ replay (us ++ [u]) side' := by
        intro side' q mem
        rw [whole]
        exact (mem_grown grown).mpr (.inr mem)
      have new : Quote.of u ∈ replay (us ++ [u]) side := by
        rw [whole]
        exact (mem_grown grown).mpr (.inl ⟨rfl, rfl⟩)
      have count := all.length_eq
      rw [List.length_cons] at count
      have soundBefore : Sound basePrice (replay us) :=
        sound.of_kept (fun side' q mem => ⟨q, kept side' q mem, rfl, rfl⟩) (by omega)
      have adds : (replay us).Adds basePrice side u := by
        refine ⟨sided, sound.inside _ ((mem_both _).mpr ⟨side, new⟩),
          sound.slot _ ((mem_both _).mpr ⟨side, new⟩), fun q mem => ?_, ?_⟩
        · obtain ⟨side', mem⟩ := (mem_both _).mp mem
          obtain ⟨v, vMem, -, rfl⟩ := (listed side' q).mp mem
          exact Nat.ne_of_lt (behind v vMem u List.mem_cons_self)
        · rw [← count]
          exact sound.room
      refine readable_append.mpr ⟨ih addBefore before soundBefore, ⟨⟨fun _ => ?_, ?_⟩, ?_⟩, trivial⟩
      · cases side with
        | bid => exact .inl adds
        | ask => exact .inr adds
      · intro changes
        simp [isAdd] at changes
      · intro _ side' sided' q mem
        have same : side' = side := BookSide.toSide_inj.mp (sided'.symm.trans sided)
        subst same
        have there := kept _ q mem
        cases side' with
        | bid => exact Int.not_le.mpr (sound.apart _ new q there)
        | ask => exact Int.not_le.mpr (sound.apart q there _ new)

end Quotes

/-! ## What the exchange multicasts -/

namespace MarketDataPublisher

/-- An update is published under its place in the row. -/
theorem mem_published {us : List MEMarketUpdate} {m : MDPMarketUpdate} (mem : m ∈ published us) :
    1 ≤ m.seqNum ∧ us[m.seqNum - 1]? = some m.meMarketUpdate := by
  induction us using List.reverseRecOn with
  | nil => exact absurd mem List.not_mem_nil
  | append_singleton us u ih =>
      rw [published_concat] at mem
      rcases List.mem_append.mp mem with old | last
      · obtain ⟨first, there⟩ := ih old
        refine ⟨first, ?_⟩
        rw [List.getElem?_append_left (List.getElem?_eq_some_iff.mp there).1]
        exact there
      · rw [List.mem_singleton.mp last]
        exact ⟨Nat.le_add_left 1 _, List.getElem?_concat_length⟩

end MarketDataPublisher

namespace IncrementalStream

variable {us : List MEMarketUpdate}

/-- The stream of the updates. Behind the last one nothing is ever sent. -/
def ofUpdates (us : List MEMarketUpdate) (inner : ∀ u ∈ us, ¬ u.Delimits) : IncrementalStream where
  update n := us.getD (n - 1) (.ofType .TRADE)
  inner := by
    intro n
    rw [List.getD_eq_getElem?_getD]
    cases there : us[n - 1]? with
    | none =>
        intro delimits
        rcases delimits with isStart | isEnd
        · cases isStart
        · cases isEnd
    | some u => exact inner u (List.mem_of_getElem? there)

theorem between_ofUpdates (inner : ∀ u ∈ us, ¬ u.Delimits) {n : Nat} (le : n ≤ us.length) :
    (ofUpdates us inner).between 1 (n + 1) = us.take n := by
  induction n with
  | zero => exact between_self _ 1
  | succ n ih =>
      rw [between_succ (Nat.le_add_left 1 n), ih (Nat.le_of_succ_le le), List.take_add_one]
      simp [ofUpdates, List.getElem?_eq_getElem le]

end IncrementalStream

/-- A cycle that shows the books behind some of the updates: the orders of each ticker, by their
ids. -/
structure SnapshotCycle.Pictures (us : List MEMarketUpdate) (c : SnapshotCycle) : Prop
    extends c.WellFormed where
  last : c.lastIncSeqNum ≤ us.length
  sided : ∀ ticker < ME_MAX_TICKERS, ∀ u ∈ c.orders ticker, ∃ side, u.side = BookSide.toSide side
  rising : ∀ ticker < ME_MAX_TICKERS,
    (c.orders ticker).Pairwise fun u v => u.orderId < v.orderId
  shows : ∀ ticker < ME_MAX_TICKERS,
    Quotes.replay (c.orders ticker) = Books.replay (us.take c.lastIncSeqNum) ticker

/-- The synthesizer sends the cycle behind some of the updates. -/
def SnapshotSynthesizer.Sends (us : List MEMarketUpdate) (c : SnapshotCycle) : Prop :=
  ∃ front t, front <+: us ∧
    run addToSnapshot new (MarketDataPublisher.published front) = .ok (t, []) ∧ c = t.cycle

/-- The incremental socket hands over published updates, whatever the network makes of them. Of
the snapshot socket nothing is asked here. -/
def Multicast (us : List MEMarketUpdate) (d : Delivery) : Prop :=
  d.isSnapshot = false → ∀ m ∈ d.requests, m ∈ MarketDataPublisher.published us

instance (us : List MEMarketUpdate) : DecidablePred (Multicast us) :=
  fun _ => inferInstanceAs (Decidable (_ → _))

/-- What a client can rely on: the updates are the feeds of the books, and the cycles show them. -/
structure Exchanged (tickerBasePrices : TickerId → Price) (us : List MEMarketUpdate)
    (cycles : List SnapshotCycle) : Prop where
  feed : ∀ ticker, Quotes.Feed (tickerBasePrices ticker) (Books.ofTicker ticker us)
  pictures : ∀ c ∈ cycles, c.Pictures us

namespace SnapshotSynthesizer.Holds

variable {s : SnapshotSynthesizer} {us front : List MEMarketUpdate} {live : List Ptr}

/-- A cycle is a picture of the books that the synthesizer follows. -/
theorem pictures (holds : s.Holds (Books.replay front) live) (prefixed : front <+: us)
    (last : s.lastIncSeqNum = front.length)
    (ordered : ∀ ticker, (Books.replay front ticker).Ordered) : s.cycle.Pictures us := by
  refine ⟨holds.cycle_wellFormed, ?_, fun ticker known u mem => ?_, fun ticker known => ?_,
    fun ticker known => ?_⟩
  · exact last.trans_le prefixed.length_le
  · obtain ⟨side, q, -, rfl⟩ := (holds.mem_cycle_orders known).mp mem
    exact ⟨side, rfl⟩
  · simp only [SnapshotSynthesizer.cycle]
    exact pairwise_filterMap_range holds.stored_key _
  · have same : us.take s.cycle.lastIncSeqNum = front := by
      rw [show s.cycle.lastIncSeqNum = front.length from last]
      exact (List.prefix_iff_eq_take.mp prefixed).symm
    rw [same]
    exact holds.replay_cycle known (ordered ticker)

end SnapshotSynthesizer.Holds

namespace Exchanged

variable {tickerBasePrices : TickerId → Price} {us : List MEMarketUpdate}
  {cycles : List SnapshotCycle} {c : SnapshotCycle} {ticker : TickerId}

/-- The updates of a matching engine, and the cycles of the synthesizer behind it. -/
theorem of_run {rs : List MEClientRequest} {s : MatchingEngine} {out : List MEMessage}
    (sided : ∀ r ∈ rs, Sided r)
    (ran : run MatchingEngine.processClientRequest (MatchingEngine.new tickerBasePrices) rs =
      .ok (s, out))
    (few : ∀ ticker, RefBook.news (MatchingEngine.ofTicker ticker rs) < ME_MAX_ORDER_IDS)
    (room : ∀ p, p <+: rs → ∀ t sofar, run MatchingEngine.processClientRequest
      (MatchingEngine.new tickerBasePrices) p = .ok (t, sofar) → t.live < ME_MAX_ORDER_IDS)
    (sends : ∀ c ∈ cycles, SnapshotSynthesizer.Sends (updates out) c) :
    Exchanged tickerBasePrices (updates out) cycles := by
  refine ⟨fun ticker => ?_, fun c mem => ?_⟩
  · obtain ⟨ref, own, history⟩ := (MatchingEngine.run_tickers sided ran).2 ticker
    exact (history.feed (few ticker)).1
  · obtain ⟨front, t, prefixed, ranT, rfl⟩ := sends c mem
    obtain ⟨t', live, ranT', last, holds, ordered⟩ :=
      SnapshotSynthesizer.run_holds sided ran few room prefixed
    rw [ranT] at ranT'
    cases ranT'
    exact holds.pictures prefixed last ordered

/-- No update delimits a snapshot. -/
theorem inner (exchanged : Exchanged tickerBasePrices us cycles) :
    ∀ u ∈ us, ¬ u.Delimits := by
  intro u mem delimits
  have own : u ∈ Books.ofTicker u.tickerId us := List.mem_filter.mpr ⟨mem, decide_eq_true rfl⟩
  obtain ⟨front, back, shape⟩ := List.append_of_mem own
  have announced := exchanged.feed u.tickerId front u ⟨back, by rw [shape]; simp⟩
  rcases announced.kind with type | type | type | type
  · simp [MEMarketUpdate.Delimits, type] at delimits
  · simp [MEMarketUpdate.Delimits, type] at delimits
  · simp [MEMarketUpdate.Delimits, type] at delimits
  · simp [MEMarketUpdate.Delimits, type] at delimits

/-- A part of the updates, behind those in front of it. -/
theorem readable (exchanged : Exchanged tickerBasePrices us cycles)
    {front part : List MEMarketUpdate} (prefixed : front ++ part <+: us) :
    Quotes.Readable (tickerBasePrices ticker) (Books.replay front ticker)
      (Books.ofTicker ticker part) := by
  have own : Books.ofTicker ticker front ++ Books.ofTicker ticker part <+:
      Books.ofTicker ticker us := by
    rw [← Books.ofTicker_append]
    exact prefixed.filter _
  rw [Books.replay_apply]
  have feed := exchanged.feed ticker
  exact (feed.of_prefix own).readable

/-- A cycle can be read from any book. -/
theorem readable_events (exchanged : Exchanged tickerBasePrices us cycles) (mem : c ∈ cycles)
    (known : ticker < ME_MAX_TICKERS) (quotes : Quotes) :
    Quotes.Readable (tickerBasePrices ticker) quotes (Books.ofTicker ticker c.events) := by
  have pictures := exchanged.pictures c mem
  have sound : Quotes.Sound (tickerBasePrices ticker) (Quotes.replay (c.orders ticker)) := by
    rw [pictures.shows ticker known, Books.replay_apply]
    have feed := exchanged.feed ticker
    refine (feed.of_prefix ?_).sound
    exact (List.take_prefix _ us).filter _
  rw [SnapshotCycle.events, SnapshotCycle.ofTicker_flatMap pictures.toWellFormed _ (Nat.le_refl _),
    if_pos known]
  refine ⟨⟨⟨fun isAdd => ?_, fun changes => ?_⟩, fun isAdd => ?_⟩, ?_⟩
  · cases isAdd
  · rcases changes with isModify | isCancel
    · cases isModify
    · cases isCancel
  · cases isAdd
  · exact Quotes.readable_adds
      (fun u uMem => ⟨pictures.add ticker known u uMem, pictures.sided ticker known u uMem⟩)
      (pictures.rising ticker known) sound

end Exchanged

/-! ## What the consumer passes on -/

namespace MarketDataConsumer

variable {s : MarketDataConsumer} {out : List ConsumerEvent} {us : List MEMarketUpdate}
  {cycles : List SnapshotCycle} {tickerBasePrices : TickerId → Price} {isSnapshot : Bool}
  {m : MDPMarketUpdate} {d : Delivery}

/-- The expected number stays within the queued ones. -/
theorem incrementalEvents_le {msgs : List (Nat × MEMarketUpdate)} {next limit : Nat}
    (start : next ≤ limit + 1) (queued : ∀ msg ∈ msgs, msg.1 ≤ limit) :
    (incrementalEvents next msgs).nextExpIncSeqNum ≤ limit + 1 := by
  induction msgs generalizing next with
  | nil => exact start
  | cons msg msgs ih =>
      obtain ⟨seqNum, u⟩ := msg
      have here : seqNum ≤ limit := queued _ List.mem_cons_self
      have later : ∀ msg ∈ msgs, msg.1 ≤ limit := fun msg mem =>
        queued msg (List.mem_cons_of_mem _ mem)
      rw [incrementalEvents]
      split
      · exact ih start later
      · split
        · exact start
        · rename_i inRow
          exact ih (by omega) later

/-- What was passed on can be read by the books of a client; and outside of a recovery it shows
the books behind the updates in front of the one that is expected. -/
structure Shown (tickerBasePrices : TickerId → Price) (us : List MEMarketUpdate)
    (stream : IncrementalStream) (s : MarketDataConsumer) (out : List ConsumerEvent) : Prop where
  waiting : s.Waiting
  queued : ∀ msg ∈ s.incrementalQueuedMsgs.toList,
    msg.1 ≤ us.length ∧ msg.2 = stream.update msg.1
  readable : ∀ ticker < ME_MAX_TICKERS, Quotes.Readable (tickerBasePrices ticker) (fun _ => [])
    (Books.ofTicker ticker (pushes out))
  caughtUp : s.inRecovery = false → ∃ n ≤ us.length, s.nextExpIncSeqNum = n + 1 ∧
    ∀ ticker < ME_MAX_TICKERS,
      Books.replay (pushes out) ticker = Books.replay (us.take n) ticker

namespace Shown

variable {stream : IncrementalStream}

theorem new (tickerBasePrices : TickerId → Price) (us : List MEMarketUpdate)
    (stream : IncrementalStream) : Shown tickerBasePrices us stream MarketDataConsumer.new [] :=
  ⟨waiting_empty rfl, fun _ mem => absurd mem List.not_mem_nil, fun _ _ => trivial,
    fun _ => ⟨0, Nat.zero_le _, rfl, fun _ _ => rfl⟩⟩

theorem pushes_pushed (us : List MEMarketUpdate) : pushes (us.map .pushed) = us := by
  rw [pushes, List.filterMap_map]
  exact List.filterMap_some

/-- What is read behind what was passed on. -/
theorem readable_pushes {basePrice : Price} {ticker : TickerId} {vs : List MEMarketUpdate}
    (before : Quotes.Readable basePrice (fun _ => []) (Books.ofTicker ticker (pushes out)))
    (behind : Quotes.Readable basePrice (Books.replay (pushes out) ticker)
      (Books.ofTicker ticker vs)) :
    Quotes.Readable basePrice (fun _ => []) (Books.ofTicker ticker (pushes out ++ vs)) := by
  rw [Books.ofTicker_append]
  refine Quotes.readable_append.mpr ⟨before, ?_⟩
  rw [Books.replay_apply] at behind
  exact behind

/-- What is queued when a message arrives was queued before or is the message. -/
theorem mem_queue {msg : Nat × MEMarketUpdate}
    (mem : msg ∈ (s.queue isSnapshot m).incrementalQueuedMsgs.toList) :
    msg ∈ s.incrementalQueuedMsgs.toList ∨
      isSnapshot = false ∧ msg = (m.seqNum, m.meMarketUpdate) := by
  cases isSnapshot with
  | true => exact .inl mem
  | false =>
      obtain ⟨seqNum, u⟩ := msg
      simp only [MarketDataConsumer.queue, Bool.false_eq_true, if_false,
        Std.TreeMap.mem_toList_iff_getElem?_eq_some, Std.TreeMap.getElem?_insert] at mem
      split at mem
      · rename_i same
        cases mem
        exact .inr ⟨rfl, by rw [compare_eq_iff_eq.mp same]⟩
      · exact .inl (Std.TreeMap.mem_toList_iff_getElem?_eq_some.mpr mem)

variable (exchanged : Exchanged tickerBasePrices us cycles)
include exchanged

/-- A published update is one of the stream. -/
theorem of_published (published : m ∈ MarketDataPublisher.published us) :
    m.seqNum ≤ us.length ∧
      m.meMarketUpdate = (IncrementalStream.ofUpdates us exchanged.inner).update m.seqNum := by
  obtain ⟨first, there⟩ := MarketDataPublisher.mem_published published
  have bound := (List.getElem?_eq_some_iff.mp there).1
  refine ⟨by omega, ?_⟩
  simp [IncrementalStream.ofUpdates, there]

/-- An update in its order is the next one of the books. -/
theorem push (shown : Shown tickerBasePrices us stream s out) (outside : s.inRecovery = false)
    (published : m ∈ MarketDataPublisher.published us)
    (expected : m.seqNum = s.nextExpIncSeqNum) :
    Shown tickerBasePrices us stream { s with nextExpIncSeqNum := s.nextExpIncSeqNum + 1 }
      (out ++ [.pushed m.meMarketUpdate]) := by
  obtain ⟨n, -, next, books⟩ := shown.caughtUp outside
  obtain ⟨-, there⟩ := MarketDataPublisher.mem_published published
  rw [expected, next, Nat.add_sub_cancel] at there
  obtain ⟨short, here⟩ := List.getElem?_eq_some_iff.mp there
  have longer : us.take (n + 1) = us.take n ++ [m.meMarketUpdate] := by
    rw [List.take_add_one, there]
    rfl
  have pushed : pushes (out ++ [.pushed m.meMarketUpdate]) = pushes out ++ [m.meMarketUpdate] :=
    pushes_append _ _
  refine ⟨⟨shown.waiting.start, shown.waiting.numbered, shown.waiting.unended⟩, shown.queued,
    fun ticker known => ?_, fun _ => ⟨n + 1, short, congrArg (· + 1) next, fun ticker known => ?_⟩⟩
  · rw [pushed]
    refine readable_pushes (shown.readable ticker known) ?_
    rw [books ticker known]
    exact exchanged.readable (longer ▸ List.take_prefix _ us)
  · rw [pushed, longer, Books.replay_append, Books.replay_append, books ticker known]

/-- A recovery from a cycle, and the updates that were queued behind it. -/
theorem recover {c : SnapshotCycle} {next : Nat} {finalEvents : List MEMarketUpdate}
    (shown : Shown tickerBasePrices us stream s out) (mem : c ∈ cycles)
    (longer : c.lastIncSeqNum + 1 ≤ next) (bound : next ≤ us.length + 1)
    (events : finalEvents = (IncrementalStream.ofUpdates us exchanged.inner).between
      (c.lastIncSeqNum + 1) next) (snapshot : List (Nat × MEMarketUpdate)) :
    Shown tickerBasePrices us stream
      { nextExpIncSeqNum := next, inRecovery := false, snapshotQueuedMsgs := ∅
        incrementalQueuedMsgs := ∅ }
      (out ++ .recovered snapshot :: (c.events ++ finalEvents).map .pushed) := by
  have pictures := exchanged.pictures c mem
  obtain ⟨n, rfl⟩ : ∃ n, next = n + 1 := ⟨next - 1, by omega⟩
  have pushed : pushes (out ++ .recovered snapshot :: (c.events ++ finalEvents).map .pushed) =
      pushes out ++ c.events ++ finalEvents := by
    rw [pushes_append, List.append_assoc]
    exact congrArg (pushes out ++ ·) (pushes_pushed _)
  have whole : us.take n = us.take c.lastIncSeqNum ++ finalEvents := by
    rw [events, ← IncrementalStream.between_ofUpdates exchanged.inner (by omega),
      ← IncrementalStream.between_ofUpdates exchanged.inner pictures.last]
    exact IncrementalStream.between_append (Nat.le_add_left 1 _) longer
  have shows : ∀ ticker < ME_MAX_TICKERS, Books.replay (pushes out ++ c.events) ticker =
      Books.replay (us.take c.lastIncSeqNum) ticker := by
    intro ticker known
    rw [SnapshotCycle.replay_events pictures.toWellFormed known, pictures.shows ticker known]
  refine ⟨waiting_empty rfl, fun _ mem => absurd mem List.not_mem_nil, fun ticker known => ?_,
    fun _ => ⟨n, by omega, rfl, fun ticker known => ?_⟩⟩
  · rw [pushed, List.append_assoc]
    refine readable_pushes (shown.readable ticker known) ?_
    rw [Books.ofTicker_append]
    refine Quotes.readable_append.mpr ⟨exchanged.readable_events mem known _, ?_⟩
    rw [← Books.replay_append, shows ticker known]
    exact exchanged.readable (whole ▸ List.take_prefix n us)
  · rw [pushed, whole, Books.replay_append, shows ticker known, ← Books.replay_append]

/-- One message. -/
theorem receive
    (shown : Shown tickerBasePrices us (.ofUpdates us exchanged.inner) s out)
    (published : isSnapshot = false → m ∈ MarketDataPublisher.published us)
    (unmixed : Unmixed cycles isSnapshot s m) :
    Shown tickerBasePrices us (.ofUpdates us exchanged.inner) (s.receive isSnapshot m).1
      (out ++ (s.receive isSnapshot m).2) := by
  have single := (single_receive_iff cycles shown.waiting).mpr unmixed
  unfold MarketDataConsumer.receive at single ⊢
  split
  · rename_i queues
    rw [if_pos queues] at single
    unfold queueMessage at single ⊢
    obtain ⟨inRecovery, incremental⟩ := s.recovering_spec
    have queued : ∀ msg ∈ (s.recovering.queue isSnapshot m).incrementalQueuedMsgs.toList,
        msg.1 ≤ us.length ∧
          msg.2 = (IncrementalStream.ofUpdates us exchanged.inner).update msg.1 := by
      intro msg mem
      rcases mem_queue mem with old | ⟨isIncremental, rfl⟩
      · rcases incremental with same | empty
        · exact shown.queued msg (same ▸ old)
        · rw [empty] at old
          exact absurd old List.not_mem_nil
      · exact of_published exchanged (published isIncremental)
    rcases (s.recovering.queue isSnapshot m).checkSnapshotSync_cases with
      ⟨orderId, completes, called⟩ | ⟨-, fails, silent⟩
    · rw [called] at single ⊢
      obtain ⟨c, mem, same⟩ := single _ List.mem_cons_self
      have pictures := exchanged.pictures c mem
      obtain ⟨msg, last, -, isLast⟩ := completes.ends
      rw [same] at last
      have orderIs : orderId = c.lastIncSeqNum := by
        rw [← isLast, c.getLast_queued last]
        rfl
      subst orderIs
      obtain ⟨longer, events⟩ :=
        incrementalEvents_spec (fun msg mem => (queued msg mem).2) completes.gapless
      rw [recovery, same, SnapshotCycle.eventsOf_queued pictures.toWellFormed]
      exact recover exchanged shown mem longer
        (incrementalEvents_le (Nat.succ_le_succ pictures.last) fun msg mem => (queued msg mem).1)
        events _
    · rw [silent, List.append_nil]
      have still : (s.recovering.queue isSnapshot m).inRecovery = true := by
        unfold MarketDataConsumer.queue
        split
        · exact inRecovery
        · exact inRecovery
      refine ⟨fails.waiting, ?_, shown.readable, fun outside => ?_⟩
      · rw [fails.incremental]
        exact queued
      · rw [fails.inRecovery, still] at outside
        cases outside
  · rename_i expected
    rw [not_or, not_not, Bool.not_eq_true] at expected
    split
    · rw [List.append_nil]
      exact shown
    · rename_i isIncremental
      exact push exchanged shown expected.1 (published (by simpa using isIncremental)) expected.2

/-- One buffer. -/
theorem recvCallback
    (shown : Shown tickerBasePrices us (.ofUpdates us exchanged.inner) s out)
    (multicast : Multicast us d) (unmixed : UnmixedBuffer cycles s d) :
    Shown tickerBasePrices us (.ofUpdates us exchanged.inner) (s.recvCallback d).1
      (out ++ (s.recvCallback d).2) := by
  unfold MarketDataConsumer.recvCallback
  split
  · rw [List.append_nil]
    exact shown
  · rename_i read
    have published : Along (fun _ m => d.isSnapshot = false → m ∈ MarketDataPublisher.published us)
        (MarketDataConsumer.receive d.isSnapshot) s d.requests :=
      along_of_forall (P := fun m : MDPMarketUpdate =>
        d.isSnapshot = false → m ∈ MarketDataPublisher.published us)
        (fun m mem isIncremental => multicast isIncremental m mem) s
    exact along_invariant
      (P := Shown tickerBasePrices us (.ofUpdates us exchanged.inner)) shown
      (fun shown pre => receive exchanged shown pre.1 pre.2)
      (published.and (unmixed.resolve_left read))

/-- A run. -/
theorem run {deliveries : List Delivery} (multicast : ∀ d ∈ deliveries, Multicast us d)
    (unmixed : Along (UnmixedBuffer cycles) MarketDataConsumer.recvCallback MarketDataConsumer.new
      deliveries) :
    Shown tickerBasePrices us (.ofUpdates us exchanged.inner)
      (runTotal MarketDataConsumer.recvCallback MarketDataConsumer.new deliveries).1
      (runTotal MarketDataConsumer.recvCallback MarketDataConsumer.new deliveries).2 :=
  along_invariant (P := Shown tickerBasePrices us (.ofUpdates us exchanged.inner))
    (new tickerBasePrices us _) (fun shown pre => recvCallback exchanged shown pre.1 pre.2)
    ((along_of_forall multicast _).and unmixed)

end Shown

end MarketDataConsumer

/-! ## The books of the client -/

/-- An ADD does not come at a price whose level a CLEAR has dropped. -/
def Market.Fresh (m : Market) (u : MEMarketUpdate) : Prop :=
  u.type = .ADD → u.price ∉ m.stale

instance (m : Market) (u : MEMarketUpdate) : Decidable (m.Fresh u) :=
  inferInstanceAs (Decidable (_ → _))

/-- A book follows what it can read, unless an order comes at the price of a dropped level. -/
theorem Follows.run_readable {basePrice : Price} {us : List MEMarketUpdate}
    (readable : Quotes.Readable basePrice (fun _ => []) us)
    (fresh : Along Market.Fresh Market.step Market.new us) :
    ∃ t notices, NanoTrade.run MarketOrderBook.onMarketUpdate (MarketOrderBook.new basePrice) us =
        .ok (t, notices) ∧
      Follows basePrice t (runTotal Market.step Market.new us).1 := by
  have uncrossed : Along (NanoTrade.Uncrossed basePrice) Market.step Market.new us :=
    Quotes.Readable.along readable
  obtain ⟨t, ran, follows⟩ := (Follows.new basePrice).run
    ((uncrossed.and fresh).imp fun {m u} ⟨uncrossed, fresh⟩ => by
      refine ⟨uncrossed.1, fun isAdd => ⟨fresh isAdd, fun side sided q mem same => ?_⟩⟩
      have stops := uncrossed.2 isAdd side sided q mem
      rw [same] at stops
      exact stops (BookSide.Crosses.refl side _))
  exact ⟨t, _, ran, follows⟩

open MarketDataConsumer in
/-- **The book of the client is the book of the exchange.** All new orders are for BUY or SELL, and
few enough for the ids. Whatever the network does to the two multicast streams, where no recovery
mixes cycles and no order comes at a price that a CLEAR has dropped: no update that is passed on
stops the book of the client, and outside of a recovery its levels and queues are those behind the
updates in front of the one that is expected; when all have come, they are the levels and queues of
the matching engine. -/
theorem run_client_books {tickerBasePrices : TickerId → Price} {rs : List MEClientRequest}
    {s : MatchingEngine} {out : List MEMessage} (sided : ∀ r ∈ rs, Sided r)
    (ran : run MatchingEngine.processClientRequest (MatchingEngine.new tickerBasePrices) rs =
      .ok (s, out))
    (few : ∀ ticker, RefBook.news (MatchingEngine.ofTicker ticker rs) < ME_MAX_ORDER_IDS)
    (room : ∀ p, p <+: rs → ∀ t sofar, run MatchingEngine.processClientRequest
      (MatchingEngine.new tickerBasePrices) p = .ok (t, sofar) → t.live < ME_MAX_ORDER_IDS)
    {cycles : List SnapshotCycle}
    (sends : ∀ c ∈ cycles, SnapshotSynthesizer.Sends (updates out) c)
    {deliveries : List Delivery} (multicast : ∀ d ∈ deliveries, Multicast (updates out) d)
    (unmixed : Along (UnmixedBuffer cycles) recvCallback new deliveries)
    {ticker : TickerId} (known : ticker < ME_MAX_TICKERS)
    (fresh : Along Market.Fresh Market.step Market.new
      (Books.ofTicker ticker (pushes (runTotal recvCallback new deliveries).2))) :
    ∃ t notices, run MarketOrderBook.onMarketUpdate (MarketOrderBook.new (tickerBasePrices ticker))
        (Books.ofTicker ticker (pushes (runTotal recvCallback new deliveries).2)) =
          .ok (t, notices) ∧
      ((runTotal recvCallback new deliveries).1.inRecovery = false →
        ∃ n ≤ (updates out).length,
          (runTotal recvCallback new deliveries).1.nextExpIncSeqNum = n + 1 ∧
          (∀ side : BookSide, t.sideQueues side.toSide =
            groups ((Books.replay ((updates out).take n) ticker side).map
              fun q => (q.price, q.content side))) ∧
          (n = (updates out).length → ∀ side : BookSide, t.sideQueues side.toSide =
            marketQueues ((s.tickerOrderBook ticker).sideQueues side.toSide))) := by
  have exchanged := Exchanged.of_run sided ran few room sends
  have shown := Shown.run exchanged multicast unmixed
  obtain ⟨t, notices, ranT, follows⟩ := Follows.run_readable (shown.readable ticker known) fresh
  refine ⟨t, notices, ranT, fun outside => ?_⟩
  obtain ⟨n, le, next, books⟩ := shown.caughtUp outside
  have queues : ∀ side : BookSide, t.sideQueues side.toSide =
      groups ((Books.replay ((updates out).take n) ticker side).map
        fun q => (q.price, q.content side)) := by
    intro side
    rw [follows.holds.sideQueues_eq side, market_replay, ← Books.replay_apply, books ticker known]
  refine ⟨n, le, next, queues, fun all side => ?_⟩
  obtain ⟨ref, own, history⟩ := (MatchingEngine.run_tickers sided ran).2 ticker
  rw [queues, List.take_of_length_le all.ge, (history.feed (few ticker)).2,
    history.refines.sim.sideQueues_eq side]
  exact groups_quoteOf ref.orders side

/-- Before any update the synthesizer sends an empty cycle. -/
theorem SnapshotSynthesizer.sends_empty (us : List MEMarketUpdate) : Sends us ⟨0, fun _ => []⟩ := by
  refine ⟨[], new, List.nil_prefix, rfl, ?_⟩
  unfold cycle
  refine congrArg (SnapshotCycle.mk 0) (funext fun ticker => ?_)
  exact (List.filterMap_eq_nil_iff.mpr fun _ _ => rfl).symm

/-- The second update comes first; the client recovers from a cycle in front of both. -/
def reorderedDeliveries : List Delivery :=
  [⟨false, [⟨2, ⟨.ADD, 2, 0, .SELL, 107, 3, 1⟩⟩]⟩, ⟨false, [⟨1, ⟨.ADD, 1, 0, .BUY, 105, 4, 1⟩⟩]⟩,
    ⟨true, SnapshotCycle.messages ⟨0, fun _ => []⟩⟩,
    ⟨false, [⟨3, ⟨.TRADE, OrderId_INVALID, 0, .BUY, 107, 1, Priority_INVALID⟩⟩,
      ⟨4, ⟨.MODIFY, 2, 0, .SELL, 107, 2, 1⟩⟩]⟩]

open MarketDataConsumer in
theorem run_client_books_reordered :
    ∃ s out t notices,
      run MatchingEngine.processClientRequest (MatchingEngine.new fun _ => 100)
        [⟨.NEW, 1, 0, 1, .BUY, 105, 4⟩, ⟨.NEW, 2, 0, 1, .SELL, 107, 3⟩,
          ⟨.NEW, 3, 0, 1, .BUY, 107, 1⟩] = .ok (s, out) ∧
      (∃ snapshot, .recovered snapshot ∈ (runTotal recvCallback new reorderedDeliveries).2) ∧
      run MarketOrderBook.onMarketUpdate (MarketOrderBook.new 100)
        (Books.ofTicker 0 (pushes (runTotal recvCallback new reorderedDeliveries).2)) =
          .ok (t, notices) ∧
      ∀ side : BookSide, t.sideQueues side.toSide =
        marketQueues ((s.tickerOrderBook 0).sideQueues side.toSide) := by
  obtain ⟨s, out, ran, sent⟩ := run_of_map MatchingEngine.processClientRequest
    (MatchingEngine.new fun _ => 100)
    [⟨.NEW, 1, 0, 1, .BUY, 105, 4⟩, ⟨.NEW, 2, 0, 1, .SELL, 107, 3⟩, ⟨.NEW, 3, 0, 1, .BUY, 107, 1⟩]
    updates
    [⟨.ADD, 1, 0, .BUY, 105, 4, 1⟩, ⟨.ADD, 2, 0, .SELL, 107, 3, 1⟩,
      ⟨.TRADE, OrderId_INVALID, 0, .BUY, 107, 1, Priority_INVALID⟩,
      ⟨.MODIFY, 2, 0, .SELL, 107, 2, 1⟩] (by decide +kernel)
  have recovers : (runTotal recvCallback new reorderedDeliveries).2 =
      .recovered (SnapshotCycle.queued ⟨0, fun _ => []⟩) ::
        (pushes (runTotal recvCallback new reorderedDeliveries).2).map .pushed := by
    decide +kernel
  have single : Single [⟨0, fun _ => []⟩] (runTotal recvCallback new reorderedDeliveries).2 := by
    intro snapshot mem
    rw [recovers] at mem
    rcases List.mem_cons.mp mem with first | later
    · cases first
      exact ⟨_, List.mem_cons_self, rfl⟩
    · obtain ⟨u, -, isPushed⟩ := List.mem_map.mp later
      cases isPushed
  have unmixed := (single_runTotal_iff single_recvCallback_iff waiting_recvCallback
    (waiting_empty rfl) reorderedDeliveries).2.mp single
  have counted : ∀ p ∈ List.inits ([⟨.NEW, 1, 0, 1, .BUY, 105, 4⟩, ⟨.NEW, 2, 0, 1, .SELL, 107, 3⟩,
      ⟨.NEW, 3, 0, 1, .BUY, 107, 1⟩] : List MEClientRequest),
      ∀ n ∈ (run MatchingEngine.processClientRequest
        (MatchingEngine.new fun _ => 100) p).toOption.map (fun result => result.1.live),
          n ≤ 2 := by
    decide +kernel
  have multicast : ∀ d ∈ reorderedDeliveries, Multicast (updates out) d := by
    rw [sent]
    decide +kernel
  have known : 0 < ME_MAX_TICKERS := by decide
  obtain ⟨t, notices, ranT, books⟩ := run_client_books (by decide) ran
    (fun ticker => Nat.lt_of_le_of_lt
      (List.countP_le_length.trans (List.length_filter_le _ _)) (by decide))
    (fun p prefixed t sofar ranP => Nat.lt_of_le_of_lt
      (counted p ((List.mem_inits _ _).mpr prefixed) t.live (by rw [ranP]; rfl)) (by decide))
    (fun c mem => List.mem_singleton.mp mem ▸ SnapshotSynthesizer.sends_empty _) multicast unmixed
    known (by decide +kernel)
  obtain ⟨n, -, next, -, all⟩ := books (by decide +kernel)
  have last : (runTotal recvCallback new reorderedDeliveries).1.nextExpIncSeqNum = 5 := by
    decide +kernel
  refine ⟨s, out, t, notices, ran, ⟨SnapshotCycle.queued ⟨0, fun _ => []⟩, ?_⟩, ranT, all ?_⟩
  · rw [recovers]
    exact List.mem_cons_self
  · rw [sent]
    exact Nat.succ_inj.mp (next.symm.trans last)

end NanoTrade
