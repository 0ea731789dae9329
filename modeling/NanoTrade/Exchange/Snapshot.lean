import NanoTrade.Exchange.MEOrderBook
import NanoTrade.Exchange.Ownership
import NanoTrade.Exchange.SnapshotSynthesizer
import NanoTrade.Trading.Lockstep

/-!
# The snapshot is the book

The updates of a matching engine, split by tickers, are the feeds of its books
(`MatchingEngine.run_tickers`), so the synthesizer follows them. `run_snapshots`: no assertion
fires, and the cycle that would be sent behind any of the updates reads back the books behind
that update.
-/

namespace NanoTrade

/-! ## The updates of one request -/

namespace RefBook

variable {a : Aggressor} {passive : BookSide} {xs : List MEResting} {leaves : Qty}
  {u : MEMarketUpdate}

/-- Fills add nothing. -/
theorem sweep_not_add (mem : u ∈ updates (sweep a passive xs leaves).2.2) : u.type ≠ .ADD := by
  have fills : ∀ (o : MEResting) (fillQty left : Qty),
      ∀ v ∈ updates (fill a passive o fillQty left), v.type ≠ .ADD := by
    intro o fillQty left v vMem
    rw [fill, MEOrderBook.fillMessages] at vMem
    simp only [updates_response, updates_update, updates_nil, List.mem_singleton] at vMem
    subst vMem
    exact fun same => by cases same
  induction xs generalizing leaves with
  | nil => cases mem
  | cons o rest ih =>
      rw [sweep] at mem
      split at mem
      · cases mem
      · split at mem
        · simp only [updates_append, List.mem_append, filled, updates_update, updates_nil,
            List.mem_singleton] at mem
          rcases mem with (fill | rfl) | later
          · exact fills o _ _ u fill
          · exact fun same => by cases same
          · exact ih later
        · simp only [updates_append, List.mem_append, modified, updates_update, updates_nil,
            List.mem_singleton] at mem
          rcases mem with fill | rfl
          · exact fills o _ _ u fill
          · exact fun same => by cases same

end RefBook

/-- An ADD ends its request. -/
theorem Refines.add_last {basePrice : Price} {s s' : MEOrderBook} {ref : RefBook}
    {r : MEClientRequest} {now : List MEMessage} {front back : List MEMarketUpdate}
    {u : MEMarketUpdate} (refines : Refines basePrice False s ref) (sided : Sided r)
    (ran : s.processClientRequest r = .ok (s', now)) (shape : updates now = front ++ u :: back)
    (isAdd : u.type = .ADD) : back = [] := by
  rcases refines.request_cases sided ran with
    ⟨side, -, -, -, rfl, -⟩ | ⟨-, rfl, -⟩ | ⟨side, o, xs, ys, -, -, -, rfl, -⟩
  · have fills : ∀ v ∈ updates (RefBook.matched .machine ref side r).2.2, v.type ≠ .ADD :=
      fun v mem => RefBook.sweep_not_add mem
    rw [RefBook.add] at shape
    simp only at shape
    split at shape
    · rw [MEOrderBook.acceptedResponse, updates_response] at shape
      have mem : u ∈ front ++ u :: back := List.mem_append_right _ List.mem_cons_self
      rw [← shape] at mem
      exact absurd isAdd (fills u mem)
    · rw [MEOrderBook.acceptedResponse, List.cons_append, updates_response, updates_append,
        MEOrderBook.addUpdate, updates_update, updates_nil] at shape
      rcases List.eq_nil_or_concat back with rfl | ⟨back, last, rfl⟩
      · rfl
      · rw [List.concat_eq_append, ← List.cons_append, ← List.append_assoc] at shape
        have mem : u ∈ front ++ u :: back := List.mem_append_right _ List.mem_cons_self
        rw [← (List.append_inj' shape rfl).1] at mem
        exact absurd isAdd (fills u mem)
  · simp [MEOrderBook.rejectedResponse] at shape
  · simp only [RefBook.canceled, updates_update, updates_response, updates_nil] at shape
    have mem : u ∈ front ++ u :: back := List.mem_append_right _ List.mem_cons_self
    rw [← shape, List.mem_singleton] at mem
    subst mem
    cases isAdd

/-- The updates of a history carry the ticker of its requests. -/
theorem Trace.ticker {basePrice : Price} {rs : List MEClientRequest} {out : List MEMessage}
    {s : MatchState} {ticker : TickerId} (trace : Trace basePrice rs out s)
    (own : ∀ r ∈ rs, r.tickerId = ticker) : ∀ u ∈ updates out, u.tickerId = ticker := by
  have idle : ∀ {t : Taker}, none = some t → t.request.tickerId = ticker := by
    intro t isTaker
    cases isTaker
  refine (trace.invariant (P := fun rs out s => (∀ r ∈ rs, r.tickerId = ticker) →
    (∀ t, s.taker = some t → t.request.tickerId = ticker) ∧
      ∀ u ∈ updates out, u.tickerId = ticker) ?_ ?_ own).2
  · intro _
    exact ⟨fun t => idle, fun u mem => absurd mem List.not_mem_nil⟩
  · intro rs out s read sent t _ before event own
    obtain ⟨taker, old⟩ := before fun r mem => own r (List.mem_append_left _ mem)
    have more : (∀ u ∈ updates sent, u.tickerId = ticker) →
        ∀ u ∈ updates (out ++ sent), u.tickerId = ticker := by
      intro new u mem
      rw [updates_append] at mem
      rcases List.mem_append.mp mem with mem | mem
      · exact old u mem
      · exact new u mem
    cases event with
    | @accept orders next r side isNew sided =>
        refine ⟨?_, more ?_⟩
        · rintro t ⟨⟩
          exact own r (List.mem_append_right _ List.mem_cons_self)
        · simp [MEOrderBook.acceptedResponse]
    | @fill orders next t o rest wants front crosses full =>
        have here := taker t rfl
        refine ⟨?_, more ?_⟩
        · rintro t ⟨⟩
          exact here
        · simp [RefBook.fill, MEOrderBook.fillMessages, RefBook.filled, Taker.aggressor, here]
    | @fillPart orders next t o rest wants front crosses part =>
        have here := taker t rfl
        refine ⟨?_, more ?_⟩
        · rintro t ⟨⟩
          exact here
        · simp [RefBook.fill, MEOrderBook.fillMessages, RefBook.modified, Taker.aggressor, here]
    | @rest orders next t wants stops inside room =>
        have here := taker t rfl
        refine ⟨fun t => idle, more ?_⟩
        simp [MEOrderBook.addUpdate, here]
    | spent done =>
        exact ⟨fun t => idle, more (by simp)⟩
    | reject isCancel =>
        exact ⟨fun t => idle,
          more (by simp [MEOrderBook.rejectedResponse])⟩
    | @withdraw orders next r side o xs ys isCancel shape own' =>
        refine ⟨fun t => idle, more ?_⟩
        simp [RefBook.canceled, own r (List.mem_append_right _ List.mem_cons_self)]

/-! ## The books of the matching engine -/

/-- The walks of a book reach as many orders as rest. -/
theorem Refines.length_restingPtrs {basePrice : Price} {exact : Prop} {s : MEOrderBook}
    {ref : RefBook} (refines : Refines basePrice exact s ref) :
    s.restingPtrs.length = (both ref.orders).length := by
  obtain ⟨-, book, rep, views⟩ := refines.sim
  have side : ∀ side,
      (ref.orders side).length = ((book side).flatMap RestingLevel.orders).length := by
    intro side
    rw [← views side, List.length_map, Book.flat, List.length_flatMap, List.length_flatMap]
    simp only [Book.priced, List.length_map]
  rw [MEOrderBook.restingPtrs_eq rep, Book.orderPtrs, Book.orders,
    List.length_map, both, both, List.flatMap_append, List.length_append, List.length_append,
    side .bid, side .ask]

namespace MatchingEngine

variable {tickerBasePrices : TickerId → Price} {s : MatchingEngine} {rs : List MEClientRequest}
  {out : List MEMessage} {ticker : TickerId}

/-- The live orders of all tickers. -/
def live (s : MatchingEngine) : Nat :=
  ∑ ticker ∈ Finset.range ME_MAX_TICKERS, (s.tickerOrderBook ticker).restingPtrs.length

/-- The requests for one ticker. -/
def ofTicker (ticker : TickerId) (rs : List MEClientRequest) : List MEClientRequest :=
  rs.filter fun r => r.tickerId = ticker

/-- The book of a ticker behind a run: it refines the reference book of a history of its own
requests, whose updates are those of the ticker. -/
structure Ran (tickerBasePrices : TickerId → Price) (s : MatchingEngine)
    (rs : List MEClientRequest) (out : List MEMessage) (ticker : TickerId) (ref : RefBook)
    (own : List MEMessage) : Prop where
  refines : Refines (tickerBasePrices ticker) False (s.tickerOrderBook ticker) ref
  trace : Trace (tickerBasePrices ticker) (ofTicker ticker rs) own
    ⟨ref.orders, none, ref.nextMarketOrderId⟩
  updates : updates own = Books.ofTicker ticker (updates out)

/-- One request of a ticker: its updates carry the ticker. -/
theorem Ran.request {r : MEClientRequest} {ref : RefBook} {own now : List MEMessage}
    {book : MEOrderBook} (history : Ran tickerBasePrices s rs out r.tickerId ref own)
    (sided : Sided r)
    (answered : (s.tickerOrderBook r.tickerId).processClientRequest r = .ok (book, now)) :
    ∃ ref', Refines (tickerBasePrices r.tickerId) False book ref' ∧
      Trace (tickerBasePrices r.tickerId) (ofTicker r.tickerId (rs ++ [r])) (own ++ now)
        ⟨ref'.orders, none, ref'.nextMarketOrderId⟩ ∧
      ∀ u ∈ NanoTrade.updates now, u.tickerId = r.tickerId := by
  obtain ⟨ref', refines, trace⟩ := history.trace.request history.refines sided answered
  have mine : ofTicker r.tickerId (rs ++ [r]) = ofTicker r.tickerId rs ++ [r] := by
    simp [ofTicker]
  rw [← mine] at trace
  refine ⟨ref', refines, trace, fun u mem => ?_⟩
  refine trace.ticker (fun x xMem => of_decide_eq_true (List.mem_filter.mp xMem).2) u ?_
  rw [updates_append]
  exact List.mem_append_right _ mem

/-- Every ticker has a history of its own. -/
theorem run_tickers (sided : ∀ r ∈ rs, Sided r)
    (ran : run processClientRequest (new tickerBasePrices) rs = .ok (s, out)) :
    (∀ u ∈ updates out, u.tickerId < ME_MAX_TICKERS) ∧
      ∀ ticker, ∃ ref own, Ran tickerBasePrices s rs out ticker ref own := by
  induction rs using List.reverseRecOn generalizing s out with
  | nil =>
      cases ran
      exact ⟨fun u mem => absurd mem List.not_mem_nil,
        fun ticker => ⟨_, [], Refines.new _ False, .start, rfl⟩⟩
  | append_singleton rs r ih =>
      obtain ⟨t, before, now, first, last, rfl⟩ := run_concat.mp ran
      obtain ⟨known, book, answered, rfl⟩ := processClientRequest_eq_ok.mp last
      obtain ⟨old, histories⟩ := ih (fun x mem => sided x (List.mem_append_left _ mem)) first
      obtain ⟨ref, own, history⟩ := histories r.tickerId
      obtain ⟨ref', refines, trace, tickers⟩ := history.request
        (sided r (List.mem_append_right _ List.mem_cons_self)) answered
      refine ⟨fun u mem => ?_, fun ticker => ?_⟩
      · rw [updates_append] at mem
        rcases List.mem_append.mp mem with mem | mem
        · exact old u mem
        · exact tickers u mem ▸ known
      · rcases eq_or_ne ticker r.tickerId with rfl | other
        · refine ⟨ref', own ++ now, ?_, trace, ?_⟩
          · simp only [Function.update_self]
            exact refines
          · rw [updates_append, updates_append, Books.ofTicker_append, history.updates,
              Books.ofTicker_eq_self tickers]
        · obtain ⟨ref, own, history⟩ := histories ticker
          have theirs : ofTicker ticker (rs ++ [r]) = ofTicker ticker rs := by
            simp [ofTicker, other.symm]
          refine ⟨ref, own, ?_, ?_, ?_⟩
          · simp only [Function.update_of_ne other]
            exact history.refines
          · rw [theirs]
            exact history.trace
          · rw [updates_append, Books.ofTicker_append, history.updates,
              Books.ofTicker_eq_nil fun u mem same => other (same.symm.trans (tickers u mem)),
              List.append_nil]

/-- The feed of a ticker, and the book that it says. -/
theorem Ran.feed {ref : RefBook} {own : List MEMessage}
    (history : Ran tickerBasePrices s rs out ticker ref own)
    (few : RefBook.news (ofTicker ticker rs) < ME_MAX_ORDER_IDS) :
    Quotes.Feed (tickerBasePrices ticker) (Books.ofTicker ticker (NanoTrade.updates out)) ∧
      Books.replay (NanoTrade.updates out) ticker = Quotes.ofOrders ref.orders := by
  obtain ⟨feed, shown⟩ := history.trace.feed few
  rw [history.updates] at feed shown
  exact ⟨feed, (Books.replay_apply _ _).trans shown⟩

variable {us : List MEMarketUpdate} {u : MEMarketUpdate}

/-- Every update is announced to the book of its ticker. -/
theorem run_announced (sided : ∀ r ∈ rs, Sided r)
    (ran : run processClientRequest (new tickerBasePrices) rs = .ok (s, out))
    (few : ∀ ticker, RefBook.news (ofTicker ticker rs) < ME_MAX_ORDER_IDS)
    (prefixed : us ++ [u] <+: updates out) :
    u.tickerId < ME_MAX_TICKERS ∧
      (Books.replay us u.tickerId).Announced (tickerBasePrices u.tickerId) u := by
  obtain ⟨known, histories⟩ := run_tickers sided ran
  obtain ⟨ref, own, history⟩ := histories u.tickerId
  refine ⟨known u (prefixed.subset (List.mem_append_right _ List.mem_cons_self)), ?_⟩
  have shorter : Books.ofTicker u.tickerId us ++ [u] <+:
      Books.ofTicker u.tickerId (updates out) := by
    have filtered := prefixed.filter fun v => decide (v.tickerId = u.tickerId)
    have own : Books.ofTicker u.tickerId [u] = [u] :=
      Books.ofTicker_eq_self fun v mem => by rw [List.mem_singleton.mp mem]
    rw [← own, ← Books.ofTicker_append]
    exact filtered
  rw [Books.replay_apply]
  exact (history.feed (few _)).1 _ u shorter

/-- The books have as many live orders as the updates say. -/
theorem live_eq (sided : ∀ r ∈ rs, Sided r)
    (ran : run processClientRequest (new tickerBasePrices) rs = .ok (s, out))
    (few : ∀ ticker, RefBook.news (ofTicker ticker rs) < ME_MAX_ORDER_IDS) :
    (Books.replay (updates out)).live = s.live := by
  refine Finset.sum_congr rfl fun ticker _ => ?_
  obtain ⟨ref, own, history⟩ := (run_tickers sided ran).2 ticker
  rw [(history.feed (few ticker)).2, Quotes.both_ofOrders, List.length_map,
    history.refines.length_restingPtrs]

/-- Behind an ADD a request has been handled. -/
theorem run_of_add (sided : ∀ r ∈ rs, Sided r)
    (ran : run processClientRequest (new tickerBasePrices) rs = .ok (s, out))
    (prefixed : us ++ [u] <+: updates out) (isAdd : u.type = .ADD) :
    ∃ p t sofar, p <+: rs ∧ run processClientRequest (new tickerBasePrices) p = .ok (t, sofar) ∧
      updates sofar = us ++ [u] := by
  induction rs using List.reverseRecOn generalizing s out with
  | nil =>
      cases ran
      simp at prefixed
  | append_singleton rs r ih =>
      have ran' := ran
      obtain ⟨t, before, now, first, last, rfl⟩ := run_concat.mp ran
      obtain ⟨known, book, answered, rfl⟩ := processClientRequest_eq_ok.mp last
      have sidedRs : ∀ x ∈ rs, Sided x := fun x mem => sided x (List.mem_append_left _ mem)
      rw [updates_append] at prefixed
      have earlier : us ++ [u] <+: updates before → ∃ p t sofar, p <+: rs ++ [r] ∧
          run processClientRequest (new tickerBasePrices) p = .ok (t, sofar) ∧
          updates sofar = us ++ [u] := by
        intro inside
        obtain ⟨p, t, sofar, shorter, ranP, same⟩ := ih sidedRs first inside
        exact ⟨p, t, sofar, shorter.trans (List.prefix_append _ _), ranP, same⟩
      rcases List.prefix_or_prefix_of_prefix prefixed (List.prefix_append _ _) with inside | longer
      · exact earlier inside
      · obtain ⟨front, same⟩ := longer
        rcases List.eq_nil_or_concat front with rfl | ⟨front, last', rfl⟩
        · rw [List.append_nil] at same
          exact earlier (same ▸ List.prefix_rfl)
        · rw [List.concat_eq_append, ← List.append_assoc] at same
          obtain ⟨rfl, isLast⟩ := List.append_inj' same rfl
          cases isLast
          -- the ADD is in the updates of the last request, and ends them
          obtain ⟨back, whole⟩ := prefixed
          rw [List.append_assoc, List.append_assoc] at whole
          have shape := (List.append_cancel_left whole).symm
          obtain ⟨ref, own, history⟩ := (run_tickers sidedRs first).2 r.tickerId
          have ends := history.refines.add_last
            (sided r (List.mem_append_right _ List.mem_cons_self)) answered shape isAdd
          subst ends
          refine ⟨rs ++ [r], _, _, List.prefix_rfl, ran', ?_⟩
          rw [updates_append, shape, ← List.append_assoc]
          rfl

end MatchingEngine

/-! ## The snapshots of a run -/

/-- The messages of a cycle that carries `lastIncSeqNum` and reads back `books`. -/
structure ReadsBack (messages : List MDPMarketUpdate) (lastIncSeqNum : Nat) (books : Books) :
    Prop where
  numbered : messages.map (·.seqNum) = List.range messages.length
  starts : messages.head?.map (fun m => (m.meMarketUpdate.type, m.meMarketUpdate.orderId)) =
    some (.SNAPSHOT_START, lastIncSeqNum)
  ends : messages.getLast?.map (fun m => (m.meMarketUpdate.type, m.meMarketUpdate.orderId)) =
    some (.SNAPSHOT_END, lastIncSeqNum)
  replays : ∀ ticker < ME_MAX_TICKERS,
    Books.replay (messages.map (·.meMarketUpdate)) ticker = books ticker

namespace SnapshotCycle

variable {c : SnapshotCycle} {books : Books}

theorem map_meMarketUpdate (c : SnapshotCycle) : c.messages.map (·.meMarketUpdate) = c.updates := by
  rw [messages, List.map_map]
  exact List.zipIdx_map_fst 0 c.updates

theorem map_seqNum (c : SnapshotCycle) :
    c.messages.map (·.seqNum) = List.range c.messages.length := by
  have length : c.messages.length = c.updates.length := by
    rw [messages, List.length_map, List.length_zipIdx]
  rw [length, messages, List.map_map, List.range_eq_range']
  exact List.zipIdx_map_snd 0 c.updates

/-- A cycle reads back the books of its orders. -/
theorem readsBack (wellFormed : c.WellFormed)
    (shows : ∀ ticker < ME_MAX_TICKERS, Quotes.replay (c.orders ticker) = books ticker) :
    ReadsBack c.messages c.lastIncSeqNum books := by
  have head : c.messages.head?.map (·.meMarketUpdate) = some c.startUpdate := by
    rw [← List.head?_map, map_meMarketUpdate]
    rfl
  have last : c.messages.getLast?.map (·.meMarketUpdate) = some c.endUpdate := by
    rw [← List.getLast?_map, map_meMarketUpdate, updates, ← List.cons_append,
      List.getLast?_concat]
  refine ⟨c.map_seqNum, ?_, ?_, ?_⟩
  · have read := congrArg (Option.map fun u : MEMarketUpdate => (u.type, u.orderId)) head
    rw [Option.map_map] at read
    exact read
  · have read := congrArg (Option.map fun u : MEMarketUpdate => (u.type, u.orderId)) last
    rw [Option.map_map] at read
    exact read
  · intro ticker known
    have other : TickerId_INVALID ≠ ticker := by
      intro same
      rw [← same] at known
      exact absurd known (by decide)
    rw [map_meMarketUpdate, updates, ← List.cons_append, Books.replay_append,
      Books.ofTicker_eq_nil, List.foldl_nil, ← List.singleton_append,
      replay_events wellFormed known, shows ticker known]
    intro u mem
    rw [List.mem_singleton.mp mem]
    exact other

end SnapshotCycle

namespace SnapshotSynthesizer

variable {tickerBasePrices : TickerId → Price} {s : MatchingEngine} {rs : List MEClientRequest}
  {out : List MEMessage} {us : List MEMarketUpdate}

/-- The synthesizer behind any of the updates of a run. -/
theorem run_holds (sided : ∀ r ∈ rs, Sided r)
    (ran : run MatchingEngine.processClientRequest (MatchingEngine.new tickerBasePrices) rs =
      .ok (s, out))
    (few : ∀ ticker, RefBook.news (MatchingEngine.ofTicker ticker rs) < ME_MAX_ORDER_IDS)
    (room : ∀ p, p <+: rs → ∀ t sofar, run MatchingEngine.processClientRequest
      (MatchingEngine.new tickerBasePrices) p = .ok (t, sofar) → t.live < ME_MAX_ORDER_IDS)
    (prefixed : us <+: updates out) :
    ∃ t live, run addToSnapshot new (MarketDataPublisher.published us) = .ok (t, []) ∧
      t.lastIncSeqNum = us.length ∧ t.Holds (Books.replay us) live ∧
      ∀ ticker, (Books.replay us ticker).Ordered := by
  induction us using List.reverseRecOn with
  | nil =>
      exact ⟨new, [], rfl, rfl, Holds.new, fun ticker side => List.Pairwise.nil⟩
  | append_singleton us u ih =>
      obtain ⟨t, live, ranT, last, holds, ordered⟩ :=
        ih ((List.prefix_append _ _).trans prefixed)
      obtain ⟨known, announced⟩ := MatchingEngine.run_announced sided ran few prefixed
      have applied : Books.replay (us ++ [u]) = (Books.replay us).apply u := List.foldl_append
      have roomAdd : u.type = .ADD → ((Books.replay us).apply u).live < ME_MAX_ORDER_IDS := by
        intro isAdd
        obtain ⟨p, t, sofar, shorter, ranP, same⟩ :=
          MatchingEngine.run_of_add sided ran prefixed isAdd
        have fewP : ∀ ticker, RefBook.news (MatchingEngine.ofTicker ticker p) < ME_MAX_ORDER_IDS :=
          fun ticker => Nat.lt_of_le_of_lt ((shorter.sublist.filter _).countP_le) (few ticker)
        rw [← applied, ← same, MatchingEngine.live_eq
          (fun r mem => sided r (shorter.subset mem)) ranP fewP]
        exact room p shorter t sofar ranP
      obtain ⟨t', live', updated, kept, holds'⟩ := holds.applyUpdate known announced roomAdd
      refine ⟨{ t' with lastIncSeqNum := us.length + 1 }, live', ?_, ?_, ?_, ?_⟩
      · rw [MarketDataPublisher.published_concat]
        refine run_concat.mpr ⟨t, [], [], ranT, ?_, rfl⟩
        simp only [addToSnapshot, updated, kept, last, bind, Except.bind, pure, Except.pure,
          if_true]
      · rw [List.length_append, List.length_singleton]
      · rw [applied]
        exact ⟨holds'.pool, holds'.size, holds'.count, holds'.table, holds'.apart, holds'.slot,
          holds'.stored, holds'.distinct⟩
      · intro ticker
        rw [applied, Books.apply]
        rcases eq_or_ne ticker u.tickerId with rfl | other
        · rw [Function.update_self]
          exact (ordered _).apply announced
        · rw [Function.update_of_ne other]
          exact ordered ticker

/-- **The snapshot is the book.** Along every run of the matching engine in which the new orders
are for BUY or SELL, each ticker has fewer than `ME_MAX_ORDER_IDS` of them and all together fewer
than that are ever live, no assertion of the synthesizer fires; the cycle that would be sent
behind any of the updates reads back the books behind that update; and behind all updates these
are the books of the matching engine, level by level, in the order of time. -/
theorem run_snapshots (tickerBasePrices : TickerId → Price) (rs : List MEClientRequest)
    (s : MatchingEngine) (out : List MEMessage) (sided : ∀ r ∈ rs, Sided r)
    (ran : run MatchingEngine.processClientRequest (MatchingEngine.new tickerBasePrices) rs =
      .ok (s, out))
    (few : ∀ ticker, RefBook.news (MatchingEngine.ofTicker ticker rs) < ME_MAX_ORDER_IDS)
    (room : ∀ p, p <+: rs → ∀ t sofar, run MatchingEngine.processClientRequest
      (MatchingEngine.new tickerBasePrices) p = .ok (t, sofar) → t.live < ME_MAX_ORDER_IDS) :
    (∀ us, us <+: updates out → ∃ t,
      run addToSnapshot new (MarketDataPublisher.published us) = .ok (t, []) ∧
        ReadsBack t.publishSnapshot us.length (Books.replay us)) ∧
      ∀ ticker < ME_MAX_TICKERS, ∀ side : BookSide,
        groups ((Books.replay (updates out) ticker side).map fun q => (q.price, q.content side)) =
          marketQueues ((s.tickerOrderBook ticker).sideQueues side.toSide) := by
  constructor
  · intro us prefixed
    obtain ⟨t, live, ranT, last, holds, ordered⟩ := run_holds sided ran few room prefixed
    refine ⟨t, ranT, ?_⟩
    rw [← last]
    exact SnapshotCycle.readsBack holds.cycle_wellFormed fun ticker known =>
      holds.replay_cycle known (ordered ticker)
  · intro ticker _ side
    obtain ⟨ref, own, history⟩ := (MatchingEngine.run_tickers sided ran).2 ticker
    rw [(history.feed (few ticker)).2, history.refines.sim.sideQueues_eq side]
    exact groups_quoteOf ref.orders side

/-- A bid of one ticker and an offer of another, part of which is taken. -/
theorem run_snapshots_two :
    ∃ s out, run MatchingEngine.processClientRequest (MatchingEngine.new fun _ => 100)
        [⟨.NEW, 1, 0, 1, .BUY, 105, 4⟩, ⟨.NEW, 2, 1, 1, .SELL, 105, 3⟩,
          ⟨.NEW, 3, 1, 1, .BUY, 106, 1⟩] = .ok (s, out) ∧
      (∀ us, us <+: updates out → ∃ t,
        run addToSnapshot new (MarketDataPublisher.published us) = .ok (t, []) ∧
          ReadsBack t.publishSnapshot us.length (Books.replay us)) ∧
      ∀ ticker < ME_MAX_TICKERS, ∀ side : BookSide,
        groups ((Books.replay (updates out) ticker side).map fun q => (q.price, q.content side)) =
          marketQueues ((s.tickerOrderBook ticker).sideQueues side.toSide) := by
  obtain ⟨s, out, ran, -⟩ := run_of_map MatchingEngine.processClientRequest
    (MatchingEngine.new fun _ => 100)
    [⟨.NEW, 1, 0, 1, .BUY, 105, 4⟩, ⟨.NEW, 2, 1, 1, .SELL, 105, 3⟩, ⟨.NEW, 3, 1, 1, .BUY, 106, 1⟩]
    (fun out => (updates out).length) 4 (by decide +kernel)
  refine ⟨s, out, ran, run_snapshots _ _ s out (by decide) ran ?_ ?_⟩
  · intro ticker
    refine Nat.lt_of_le_of_lt (List.countP_le_length.trans (List.length_filter_le _ _)) ?_
    decide
  · intro p prefixed t sofar ranP
    have counted : ∀ p ∈ List.inits ([⟨.NEW, 1, 0, 1, .BUY, 105, 4⟩, ⟨.NEW, 2, 1, 1, .SELL, 105, 3⟩,
        ⟨.NEW, 3, 1, 1, .BUY, 106, 1⟩] : List MEClientRequest),
        ∀ n ∈ (run MatchingEngine.processClientRequest
          (MatchingEngine.new fun _ => 100) p).toOption.map (fun result => result.1.live),
            n ≤ 2 := by
      decide +kernel
    have few := counted p ((List.mem_inits _ _).mpr prefixed) t.live (by rw [ranP]; rfl)
    exact Nat.lt_of_le_of_lt few (by decide)

/-- A bid at the price of an order of side INVALID rests among the asks; where it is cancelled as
the last of them it stays their best order, and the next BUY takes from it. -/
def unsided : List MEClientRequest :=
  [⟨.NEW, 1, 0, 1, .SELL, 105, 1⟩, ⟨.NEW, 1, 0, 2, .INVALID, 100, 1⟩,
    ⟨.NEW, 1, 0, 3, .BUY, 100, 10⟩, ⟨.CANCEL, 1, 0, 1, .SELL, 105, 1⟩,
    ⟨.CANCEL, 1, 0, 2, .SELL, 100, 1⟩, ⟨.CANCEL, 1, 0, 3, .BUY, 100, 10⟩,
    ⟨.NEW, 1, 0, 4, .BUY, 100, 4⟩]

/-- With an order that is neither for BUY nor for SELL an assertion of the synthesizer fires. -/
theorem not_run_snapshots_unsided :
    ¬ ∀ rs s out, run MatchingEngine.processClientRequest (MatchingEngine.new fun _ => 100) rs =
        .ok (s, out) →
      (∀ ticker, RefBook.news (MatchingEngine.ofTicker ticker rs) < ME_MAX_ORDER_IDS) →
      (∀ p, p <+: rs → ∀ t sofar, run MatchingEngine.processClientRequest
        (MatchingEngine.new fun _ => 100) p = .ok (t, sofar) → t.live < ME_MAX_ORDER_IDS) →
      ∀ us, us <+: updates out → ∃ t,
        run addToSnapshot new (MarketDataPublisher.published us) = .ok (t, []) := by
  intro always
  -- The MODIFY of the order that was cancelled finds no order.
  obtain ⟨s, out, ran, missing⟩ := run_of_map MatchingEngine.processClientRequest
    (MatchingEngine.new fun _ => 100) unsided
    (fun out => (run addToSnapshot new
      (MarketDataPublisher.published (updates out))).toOption.isSome) false (by decide +kernel)
  have few : ∀ ticker, RefBook.news (MatchingEngine.ofTicker ticker unsided) <
      ME_MAX_ORDER_IDS := by
    intro ticker
    refine Nat.lt_of_le_of_lt (List.countP_le_length.trans (List.length_filter_le _ _)) ?_
    decide
  obtain ⟨t, ranT⟩ := always unsided s out ran few (fun p prefixed t sofar ranP => by
    have counted : ∀ p ∈ List.inits unsided, ∀ n ∈ (run MatchingEngine.processClientRequest
        (MatchingEngine.new fun _ => 100) p).toOption.map (fun result => result.1.live),
        n ≤ 3 := by
      decide +kernel
    have most := counted p ((List.mem_inits _ _).mpr prefixed) t.live (by rw [ranP]; rfl)
    exact Nat.lt_of_le_of_lt most (by decide)) _ List.prefix_rfl
  rw [ranT] at missing
  cases missing

end SnapshotSynthesizer

end NanoTrade
