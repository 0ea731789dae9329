import NanoTrade.Trading.Following

/-!
# CLEAR

A CLEAR frees the orders and the levels and empties the id table, but the price table
keeps its entries and the best prices stay as they were. So it resets the book where
there was nothing to clear, and only there: `resets_iff`, for every CLEAR of an uncrossed
feed.
-/

namespace NanoTrade

/-- What a book shows: per side the levels with their queues, and the best prices. -/
def MarketOrderBook.observe (s : MarketOrderBook) :
    (BookSide → List (Price × List (OrderId × Side × Price × Qty × Priority))) × BBO :=
  (fun side => s.sideQueues side.toSide, s.bbo)

/-- The block `p` is allocated. -/
def MemPool.InUse {α : Type} (pool : MemPool α) (p : Ptr) : Prop :=
  p < pool.size ∧ (pool.store p).isFree = false

/-- Neither a table nor a head leads to a block that is free. -/
structure NoneFreed (s : LevelBook OrderId OrderId) : Prop where
  prices : ∀ price level, s.getOrdersAtPrice marketLayout price = .ok (some level) →
    s.ordersAtPricePool.InUse level
  ids : ∀ id order, s.oidToOrder id = some order → s.orderPool.InUse order
  heads : ∀ side level, s.best side = some level → s.ordersAtPricePool.InUse level

/-- After every CLEAR of the feed the book does what a new one does. -/
def Resets (basePrice : Price) (us : List MEMarketUpdate) : Prop :=
  ∀ w c u, us = w ++ c :: u → c.type = .CLEAR → ∀ v, v <+: u → ∃ s t out out',
    run MarketOrderBook.onMarketUpdate (MarketOrderBook.new basePrice) (w ++ c :: v) =
        .ok (s, out) ∧
      run MarketOrderBook.onMarketUpdate (MarketOrderBook.new basePrice) v = .ok (t, out') ∧
      s.observe = t.observe ∧ NoneFreed s.toLevelBook

/-- A CLEAR finds nothing to clear. -/
def ClearsNothing (m : Market) (u : MEMarketUpdate) : Prop :=
  u.type = .CLEAR → (∀ side, m.quotes side = []) ∧ m.bbo = .default

instance (m : Market) (u : MEMarketUpdate) : Decidable (ClearsNothing m u) :=
  inferInstanceAs (Decidable (_ → _))

variable {basePrice : Price} {s t : MarketOrderBook} {m : Market} {u c : MEMarketUpdate}
  {us : List MEMarketUpdate}

/-- The book shows what its feed has. -/
theorem Follows.observe_eq (follows : Follows basePrice s m) (follows' : Follows basePrice t m) :
    s.observe = t.observe := by
  refine Prod.ext ?_ (follows.bbo.trans follows'.bbo.symm)
  funext side
  exact (follows.holds.sideQueues_eq side).trans (follows'.holds.sideQueues_eq side).symm

theorem Follows.noneFreed (follows : Follows basePrice s m) (fresh : m.stale = []) :
    NoneFreed s.toLevelBook := by
  obtain ⟨base, book, rep, -⟩ := follows.holds
  have levels := rep.placed.levels
  have linked : ∀ {side}, ∀ n ∈ book.nodes side, s.ordersAtPricePool.InUse n.ptr := by
    intro side n mem
    exact (levels.pool.inUse n.ptr).mp (List.mem_map_of_mem ((mem_both _).mpr ⟨side, mem⟩))
  constructor
  · intro price level found
    by_cases inside : InWindow basePrice price
    · rw [levels.getOrdersAtPrice inside, Except.ok.injEq] at found
      by_cases known : ∃ side, ∃ n ∈ book.nodes side, n.price = price
      · obtain ⟨side, n, mem, rfl⟩ := known
        rw [levels.entry n mem, Option.some.injEq] at found
        exact found ▸ linked n mem
      · have vacant := levels.vacant inside (by simp [fresh])
          fun side n mem same => known ⟨side, n, mem, same⟩
        rw [vacant] at found
        cases found
    · have outside : priceInWindow s.basePrice price = false := by
        rw [base, ← Bool.not_eq_true]
        exact inside
      rw [LevelBook.getOrdersAtPrice_of_outside outside] at found
      cases found
  · intro id order found
    obtain ⟨o, mem, rfl, -⟩ := rep.ids.sound found
    exact (rep.placed.pool.inUse o.ptr).mp (List.mem_map_of_mem mem)
  · have head : ∀ side level, s.best (BookSide.toSide side) = some level →
        s.ordersAtPricePool.InUse level := by
      intro side level found
      rw [levels.head side] at found
      obtain ⟨n, mem, rfl⟩ := List.mem_map.mp (List.mem_of_head? found)
      exact linked n mem
    intro side level found
    cases side with
    | BUY => exact head .bid level found
    | SELL | INVALID | MAX => exact head .ask level found

/-- After a CLEAR of nothing the feed starts anew. -/
theorem ClearsNothing.step (nothing : ClearsNothing m c) (isClear : c.type = .CLEAR)
    (fresh : m.stale = []) : (m.step c).1 = Market.new := by
  obtain ⟨empty, bbo⟩ := nothing isClear
  have quiet : ∀ side, fires m.quotes c side = false := by
    intro side
    rw [fires, empty]
    rfl
  have noPrice : (both m.quotes).map Resting.price = [] := by
    rw [both, empty, empty]
    rfl
  simp [Market.step, isClear, Market.refresh, quiet, noPrice, fresh, bbo, Quotes.apply, Market.new]

theorem ClearsNothing.empty (nothing : ClearsNothing m u) : ClearsEmpty m u :=
  fun isClear => (nothing isClear).1

/-- A CLEAR that resets the book has found nothing. -/
theorem Resets.clearsNothing (resets : Resets basePrice us)
    (feed : Along (Uncrossed basePrice) Market.step Market.new us) :
    Along ClearsNothing Market.step Market.new us := by
  induction us using List.reverseRecOn with
  | nil => trivial
  | append_singleton us c ih =>
      obtain ⟨before, uncrossed, -⟩ := along_append.mp feed
      have nothing := ih (fun w d u shape isClear v prefixed =>
        resets w d (u ++ [c]) (by rw [shape]; simp) isClear v
          (prefixed.trans (List.prefix_append _ _))) before
      refine along_append.mpr ⟨nothing, fun isClear => ?_, trivial⟩
      have fresh := stale_of_clearsEmpty (nothing.imp ClearsNothing.empty) rfl
      obtain ⟨s, ran, follows⟩ := (Follows.new basePrice).run_uncrossed before
        (nothing.imp ClearsNothing.empty) rfl
      obtain ⟨s', updated, follows'⟩ :=
        follows.onMarketUpdate_spec uncrossed.1 (uncrossed.separate fresh)
      obtain ⟨t, t', out, out', ran', started, same, clean⟩ :=
        resets us c [] rfl isClear [] (List.prefix_refl _)
      have whole := run_concat.mpr ⟨s, _, _, ran, updated, rfl⟩
      rw [whole, Except.ok.injEq, Prod.mk.injEq] at ran'
      rw [← ran'.1] at same clean
      have empty : ∀ side, (runTotal Market.step Market.new us).1.quotes side = [] := by
        intro side
        -- The price of a quote keeps its table entry, and no level is in use any more.
        refine List.eq_nil_iff_forall_not_mem.mpr fun q mem => ?_
        obtain ⟨base, book, rep, views⟩ := follows'.holds
        have levels := rep.placed.levels
        have isStale : q.price ∈ ((runTotal Market.step Market.new us).1.step c).1.stale := by
          simp only [Market.step, isClear]
          exact List.mem_append_left _ (List.mem_map_of_mem ((mem_both _).mpr ⟨side, mem⟩))
        obtain ⟨inside, -, entry⟩ := levels.staleEntry isStale
        obtain ⟨level, found⟩ := Option.ne_none_iff_exists'.mp entry
        have used := clean.prices q.price level
          ((levels.getOrdersAtPrice inside).trans (congrArg Except.ok found))
        have linked := (levels.pool.inUse level).mpr used
        obtain ⟨n, nMem, -⟩ := List.mem_map.mp linked
        obtain ⟨side', nMem⟩ := (mem_both _).mp nMem
        obtain ⟨l, lMem, rfl⟩ := List.mem_map.mp nMem
        obtain ⟨x, others, shape⟩ := List.exists_cons_of_ne_nil (rep.filled l lMem)
        have quote := LevelBook.Lists.view_mem views lMem (x := x) (by
          rw [shape]
          exact List.mem_cons_self)
        rw [Market.step_quotes] at quote
        simp [Quotes.apply, isClear] at quote
      refine ⟨empty, ?_⟩
      have quiet : ∀ side, fires (runTotal Market.step Market.new us).1.quotes c side = false := by
        intro side
        rw [fires, empty]
        rfl
      have kept : ((runTotal Market.step Market.new us).1.step c).1.bbo =
          (runTotal Market.step Market.new us).1.bbo := by
        simp [Market.step, isClear, Market.refresh, quiet]
      have bbo := congrArg Prod.snd same
      cases started
      exact kept.symm.trans (follows'.bbo.symm.trans bbo)

/-- **A CLEAR is a reset** exactly where it finds nothing to clear. -/
theorem resets_iff (basePrice : Price) (us : List MEMarketUpdate)
    (feed : Along (Uncrossed basePrice) Market.step Market.new us) :
    Resets basePrice us ↔ Along ClearsNothing Market.step Market.new us := by
  refine ⟨fun resets => resets.clearsNothing feed, ?_⟩
  intro nothing w c u shape isClear v prefixed
  subst shape
  obtain ⟨feedW, uncrossed, feedU⟩ := along_append.mp feed
  obtain ⟨nothingW, nothingC, nothingU⟩ := along_append.mp nothing
  have fresh := stale_of_clearsEmpty (nothingW.imp ClearsNothing.empty) rfl
  have anew := ClearsNothing.step nothingC isClear fresh
  rw [anew] at feedU nothingU
  have feedV := along_prefixed prefixed feedU
  have nothingV := along_prefixed prefixed nothingU
  have feedAll : Along (Uncrossed basePrice) Market.step Market.new (w ++ c :: v) :=
    along_append.mpr ⟨feedW, uncrossed, by rw [anew]; exact feedV⟩
  have nothingAll : Along ClearsNothing Market.step Market.new (w ++ c :: v) :=
    along_append.mpr ⟨nothingW, nothingC, by rw [anew]; exact nothingV⟩
  obtain ⟨s, ran, follows⟩ := (Follows.new basePrice).run_uncrossed feedAll
    (nothingAll.imp ClearsNothing.empty) rfl
  obtain ⟨t, ran', follows'⟩ := (Follows.new basePrice).run_uncrossed feedV
    (nothingV.imp ClearsNothing.empty) rfl
  have same : (runTotal Market.step Market.new (w ++ c :: v)).1 =
      (runTotal Market.step Market.new v).1 := by
    rw [runTotal_append, runTotal, anew]
  rw [same] at follows
  exact ⟨s, t, _, _, ran, ran', follows.observe_eq follows',
    follows.noneFreed (stale_of_clearsEmpty (nothingV.imp ClearsNothing.empty) rfl)⟩

/-- One bid that is cancelled before the CLEAR. -/
theorem resets_iff_cancelled :
    Resets 0 [⟨.ADD, 1, 0, .BUY, 100, 5, 1⟩, ⟨.CANCEL, 1, 0, .BUY, 100, 5, 1⟩,
        ⟨.CLEAR, 0, 0, .INVALID, 0, 0, 0⟩, ⟨.ADD, 1, 0, .SELL, 100, 5, 1⟩] ↔
      Along ClearsNothing Market.step Market.new
        [⟨.ADD, 1, 0, .BUY, 100, 5, 1⟩, ⟨.CANCEL, 1, 0, .BUY, 100, 5, 1⟩,
          ⟨.CLEAR, 0, 0, .INVALID, 0, 0, 0⟩, ⟨.ADD, 1, 0, .SELL, 100, 5, 1⟩] :=
  resets_iff 0 _ (by decide)

/-- A CLEAR of one bid leaves the table entry of its price. -/
theorem not_resets_bid :
    ¬ ∀ us, Along (Uncrossed 0) Market.step Market.new us → Resets 0 us := by
  intro always
  have feed : Along (Uncrossed 0) Market.step Market.new
      [⟨.ADD, 1, 0, .BUY, 100, 5, 1⟩, ⟨.CLEAR, 0, 0, .INVALID, 0, 0, 0⟩] := by
    decide
  have nothing := (always _ feed).clearsNothing feed
  revert nothing
  decide

end NanoTrade
