import NanoTrade.Ends
import NanoTrade.Trading.Following

/-!
# The two sides of the client's book

`SideList` is what one side of the book is to be: a circle of levels in use, sorted, with
the live orders of that side in their queues. The price table has one entry for both
sides, and a CLEAR leaves its entries in place; so an ADD at a price of the other side, or
at a price that a CLEAR has dropped, joins a level that is not one of its side.

`keepsSides_iff`: along a well-formed feed, locked and crossed ones included, both sides are
as they are to be after every update if and only if no such ADD arrives.
-/

namespace NanoTrade

/-- The side of the book is a circle of `levels`, which hold `quotes`. -/
structure SideList (s : LevelBook OrderId OrderId) (side : BookSide) (quotes : List Quote)
    (levels : List (RestingLevel OrderId)) : Prop where
  head : s.best side.toSide = (levels.map fun l => l.ptr).head?
  ring : s.LevelRing (levels.map fun l => l.ptr)
  sorted : levels.Pairwise fun a b => side.Ahead a.price b.price
  inUse : ∀ l ∈ levels, (s.ordersAtPricePool.store l.ptr).isFree = false
  price : ∀ l ∈ levels, (s.level l.ptr).price = l.price
  queue : ∀ l ∈ levels, s.Queue side l
  orders : (levels.flatMap Book.priced).map Resting.view = quotes

/-- Both sides are as the feed has them. -/
def SidesApart (s : LevelBook OrderId OrderId) (quotes : Quotes) : Prop :=
  ∀ side, ∃ levels, SideList s side (quotes side) levels

variable {basePrice : Price} {stale : List Price} {s : LevelBook OrderId OrderId}
  {quotes : Quotes} {side : BookSide}

/-- A book that follows its feed has its sides apart. -/
theorem Holds.sidesApart (holds : Holds basePrice stale s quotes) : SidesApart s quotes := by
  intro side
  obtain ⟨-, book, rep, views⟩ := holds
  have levels := rep.placed.levels
  have nodes : (book.nodes side).map LevelNode.ptr = (book side).map fun l => l.ptr := by
    rw [Book.nodes, List.map_map]
    rfl
  refine ⟨book side, ?_, ?_, ?_, ?_, ?_, rep.placed.queue, views side⟩
  · rw [← nodes]
    exact levels.head side
  · rw [← nodes]
    exact levels.ring side
  · have sorted := levels.sorted side
    rw [Book.nodes, List.pairwise_map] at sorted
    exact sorted
  · intro l mem
    have used := (levels.pool.inUse l.ptr).mp
      (List.mem_map_of_mem ((mem_both _).mpr ⟨side, LevelBook.Placed.node_mem mem⟩))
    exact used.2
  · intro l mem
    exact levels.price l.toLevelNode (LevelBook.Placed.node_mem mem)

/-- A side that has an order has a level of its price, in its circle. -/
theorem SideList.level {levels : List (RestingLevel OrderId)} {q : Quote} {xs : List Quote}
    (list : SideList s side xs levels) (mem : q ∈ xs) : ∃ l ∈ levels, l.price = q.price := by
  rw [← list.orders] at mem
  obtain ⟨x, xMem, rfl⟩ := List.mem_map.mp mem
  obtain ⟨l, lMem, xMem⟩ := List.mem_flatMap.mp xMem
  obtain ⟨o, _, rfl⟩ := List.mem_map.mp xMem
  exact ⟨l, lMem, rfl⟩

/-- Where the levels have not changed, no order of a new price has joined its side. -/
theorem Holds.price_known (holds : Holds basePrice stale s quotes) {s' : LevelBook OrderId OrderId}
    {quotes' : Quotes} (apart : SidesApart s' quotes')
    (pool : s'.ordersAtPricePool = s.ordersAtPricePool) (best : ∀ side, s'.best side = s.best side)
    {q : Quote} (mem : q ∈ quotes' side) : ∃ x ∈ quotes side, x.price = q.price := by
  obtain ⟨levels, list⟩ := apart side
  obtain ⟨old, oldList⟩ := holds.sidesApart side
  have level : ∀ p, s'.level p = s.level p := by
    intro p
    rw [LevelBook.level, pool]
    rfl
  have ring : s.LevelRing (levels.map fun l => l.ptr) :=
    Ring.frame list.ring (fun p _ => by simp only [level]) fun p _ => by simp only [level]
  have same : (levels.map fun l => l.ptr) = old.map fun l => l.ptr := by
    refine Ring.unique ring oldList.ring ?_
    rw [← list.head, ← oldList.head, best]
  obtain ⟨l, lMem, price⟩ := list.level mem
  have there : l.ptr ∈ old.map fun l => l.ptr := same ▸ List.mem_map_of_mem lMem
  obtain ⟨m, mMem, ptr⟩ := List.mem_map.mp there
  obtain ⟨x, others, shape⟩ := List.exists_cons_of_ne_nil (oldList.queue m mMem).nonempty
  refine ⟨Resting.view (m.price, x), ?_, ?_⟩
  · rw [← oldList.orders]
    refine List.mem_map_of_mem (List.mem_flatMap.mpr ⟨m, mMem, ?_⟩)
    rw [Book.priced, shape]
    exact List.mem_cons_self
  · rw [← price, ← list.price l lMem, level, ← ptr, oldList.price m mMem]
    rfl

/-- The table entry of a price that is stale or has a level. -/
theorem Holds.occupied (holds : Holds basePrice stale s quotes) {price : Price}
    (taken : price ∈ stale ∨ ∃ side, ∃ q ∈ quotes side, q.price = price) :
    ∃ level, s.getOrdersAtPrice marketLayout price = .ok (some level) := by
  obtain ⟨-, book, rep, views⟩ := holds
  have levels := rep.placed.levels
  rcases taken with isStale | ⟨side, q, mem, rfl⟩
  · obtain ⟨inside, -, entry⟩ := levels.staleEntry isStale
    obtain ⟨level, found⟩ := Option.ne_none_iff_exists'.mp entry
    exact ⟨level, (levels.getOrdersAtPrice inside).trans (congrArg Except.ok found)⟩
  · rw [← views] at mem
    obtain ⟨x, xMem, rfl⟩ := List.mem_map.mp mem
    obtain ⟨l, lMem, same, -⟩ := Book.mem_flat.mp xMem
    have price : (Resting.view x).price = l.price := same.symm
    rw [price]
    exact ⟨l.ptr, levels.getOrdersAtPrice_entry (LevelBook.Placed.node_mem lMem)⟩

/-- No level of a side has a stale price or one of the other side. -/
theorem Holds.price_free (holds : Holds basePrice stale s quotes) {price : Price}
    (taken : price ∈ stale ∨ ∃ q ∈ quotes side.opposite, q.price = price) :
    ∀ q ∈ quotes side, q.price ≠ price := by
  obtain ⟨-, book, rep, views⟩ := holds
  have levels := rep.placed.levels
  have node : ∀ {side' q}, q ∈ quotes side' → ∃ n ∈ book.nodes side', n.price = q.price := by
    intro side' q mem
    rw [← views] at mem
    obtain ⟨x, xMem, rfl⟩ := List.mem_map.mp mem
    obtain ⟨l, lMem, same, -⟩ := Book.mem_flat.mp xMem
    exact ⟨l.toLevelNode, LevelBook.Placed.node_mem lMem, same⟩
  intro q mem same
  obtain ⟨n, nMem, nPrice⟩ := node mem
  rcases taken with isStale | ⟨x, xMem, xPrice⟩
  · exact (levels.staleEntry isStale).2.1 side n nMem (nPrice.trans same)
  · obtain ⟨n', nMem', nPrice'⟩ := node xMem
    exact levels.price_ne_of_opposite nMem nMem'
      (nPrice.trans (same.trans (xPrice.symm.trans nPrice'.symm)))

/-- The refresh of the best prices does not touch the orders. -/
theorem updateBBO_book {s s' : MarketOrderBook} {updateBid updateAsk : Bool}
    (updated : s.updateBBO updateBid updateAsk = .ok s') : s'.toLevelBook = s.toLevelBook := by
  unfold MarketOrderBook.updateBBO at updated
  cases updateBid with
  | false =>
      cases updateAsk with
      | false =>
          cases updated
          rfl
      | true =>
          obtain ⟨bbo, -, updated⟩ := bind_eq_ok.mp updated
          obtain ⟨askTop, -, updated⟩ := bind_eq_ok.mp updated
          cases updated
          rfl
  | true =>
      obtain ⟨bidTop, -, updated⟩ := bind_eq_ok.mp updated
      cases updateAsk with
      | false =>
          cases updated
          rfl
      | true =>
          obtain ⟨bbo, -, updated⟩ := bind_eq_ok.mp updated
          obtain ⟨askTop, -, updated⟩ := bind_eq_ok.mp updated
          cases updated
          rfl

/-- What an update that returns has done to the orders. -/
theorem applyUpdate_of_ok {s s' : MarketOrderBook} {u : MEMarketUpdate} {out : List BookNotice}
    (notTrade : u.type ≠ .TRADE) (updated : s.onMarketUpdate u = .ok (s', out)) :
    MarketOrderBook.applyUpdate s.toLevelBook u = .ok s'.toLevelBook := by
  rw [MarketOrderBook.onMarketUpdate, if_neg notTrade] at updated
  obtain ⟨book, applied, updated⟩ := bind_eq_ok.mp updated
  obtain ⟨t, refreshed, updated⟩ := bind_eq_ok.mp updated
  cases updated
  rw [applied, updateBBO_book refreshed]

/-- An ADD at a price that is taken opens no level. -/
theorem Follows.occupied {s s' : MarketOrderBook} {m : Market} {u : MEMarketUpdate}
    {out : List BookNotice} (follows : Follows basePrice s m) (isAdd : u.type = .ADD)
    (adds : m.quotes.Adds basePrice side u) (updated : s.onMarketUpdate u = .ok (s', out))
    (taken : u.price ∈ m.stale ∨ ∃ side, ∃ q ∈ m.quotes side, q.price = u.price) :
    s'.ordersAtPricePool = s.ordersAtPricePool ∧ ∀ side, s'.best side = s.best side := by
  have holds := follows.holds
  obtain ⟨level, entry⟩ := holds.occupied taken
  have room := adds.room
  rw [(perm_both m.quotes side).length_eq, List.length_append] at room
  obtain ⟨ptr, pool, -, allocated, -, -, -, content⟩ := holds.allocate_spec room (Quote.of u)
  have allocated' : s.orderPool.allocate
      { key := u.orderId, side := side.toSide, price := u.price, qty := u.qty,
        priority := u.priority, prevOrder := none, nextOrder := none } = .ok (ptr, pool) :=
    allocated
  have applied := applyUpdate_of_ok (by simp [isAdd]) updated
  simp only [MarketOrderBook.applyUpdate, isAdd, MarketOrderBook.addQuote, adds.sided,
    allocated', bind, Except.bind] at applied
  have price : (({ s.toLevelBook with orderPool := pool } :
      LevelBook OrderId OrderId).order ptr).price = u.price := content.price
  obtain ⟨levels, best⟩ := LevelBook.addOrder_occupied (by rw [price]; exact entry) applied
  exact ⟨levels, best⟩

/-- An ADD that keeps the sides apart comes at a price of its own. -/
theorem Follows.separate {s s' : MarketOrderBook} {m : Market} {u : MEMarketUpdate}
    {out : List BookNotice} (follows : Follows basePrice s m)
    (wellFormed : m.quotes.WellFormed basePrice u) (updated : s.onMarketUpdate u = .ok (s', out))
    (apart : SidesApart s'.toLevelBook (m.quotes.apply u)) : m.Separate u := by
  intro isAdd
  obtain ⟨side, adds⟩ : ∃ side, m.quotes.Adds basePrice side u := by
    rcases wellFormed.add isAdd with adds | adds
    · exact ⟨_, adds⟩
    · exact ⟨_, adds⟩
  have holds := follows.holds
  have free : ¬ (u.price ∈ m.stale ∨ ∃ q ∈ m.quotes side.opposite, q.price = u.price) := by
    intro taken
    obtain ⟨levels, best⟩ :=
      follows.occupied isAdd adds updated (taken.imp id fun h => ⟨side.opposite, h⟩)
    have joined : Quote.of u ∈ m.quotes.apply u side := by
      rw [Quotes.apply_add isAdd adds.sided, Function.update_self, List.mem_orderedInsert]
      exact .inl rfl
    obtain ⟨x, xMem, xPrice⟩ := holds.price_known apart levels best joined
    exact holds.price_free taken x xMem xPrice
  rw [not_or] at free
  refine ⟨free.1, fun side' sided q mem same => free.2 ⟨q, ?_, same⟩⟩
  have sides : side' = side := BookSide.toSide_inj.mp (sided.symm.trans adds.sided)
  rw [← sides]
  exact mem

/-- After every update of the feed both sides are as they are to be. -/
def KeepsSides (basePrice : Price) (us : List MEMarketUpdate) : Prop :=
  ∀ p, p <+: us → ∃ s out,
    run MarketOrderBook.onMarketUpdate (MarketOrderBook.new basePrice) p = .ok (s, out) ∧
      SidesApart s.toLevelBook (runTotal Market.step Market.new p).1.quotes

/-- The run up to an update that does not keep the sides apart. -/
theorem KeepsSides.separate {us : List MEMarketUpdate} (keeps : KeepsSides basePrice us)
    (feed : Along (fun m u => m.quotes.WellFormed basePrice u) Market.step Market.new us) :
    Along Market.Separate Market.step Market.new us := by
  induction us using List.reverseRecOn with
  | nil => trivial
  | append_singleton us u ih =>
      obtain ⟨before, wellFormed, -⟩ := along_append.mp feed
      have separate := ih
        (fun p prefixed => keeps p (prefixed.trans (List.prefix_append _ _))) before
      have both := before.and separate
      obtain ⟨s, ran, follows⟩ := (Follows.new basePrice).run both
      obtain ⟨s', out, ran', apart⟩ := keeps (us ++ [u]) (List.prefix_refl _)
      obtain ⟨t, first, last, ranT, updated, -⟩ := run_concat.mp ran'
      rw [ran, Except.ok.injEq, Prod.mk.injEq] at ranT
      rw [← ranT.1] at updated
      rw [runTotal_concat, Market.step_quotes] at apart
      exact along_append.mpr ⟨separate, follows.separate wellFormed updated apart, trivial⟩

/-- **The sides stay apart** exactly along the feeds in which no ADD comes at a price of the
other side, or at one that a CLEAR has dropped. -/
theorem keepsSides_iff (basePrice : Price) (us : List MEMarketUpdate)
    (feed : Along (fun m u => m.quotes.WellFormed basePrice u) Market.step Market.new us) :
    KeepsSides basePrice us ↔ Along Market.Separate Market.step Market.new us := by
  refine ⟨fun keeps => keeps.separate feed, fun separate p prefixed => ?_⟩
  obtain ⟨s, ran, follows⟩ :=
    (Follows.new basePrice).run (along_prefixed prefixed (feed.and separate))
  exact ⟨s, _, ran, follows.holds.sidesApart⟩

/-- A bid, then an ask at its price. -/
def lockedFeed : List MEMarketUpdate :=
  [⟨.ADD, 1, 0, .BUY, 100, 5, 1⟩, ⟨.ADD, 2, 0, .SELL, 100, 5, 1⟩]

theorem keepsSides_iff_locked :
    KeepsSides 0 lockedFeed ↔ Along Market.Separate Market.step Market.new lockedFeed :=
  keepsSides_iff 0 lockedFeed (by decide)

/-- A locked feed puts the ask into the level of the bid. -/
theorem not_keepsSides_locked :
    ¬ ∀ us, Along (fun m u => m.quotes.WellFormed 0 u) Market.step Market.new us →
      KeepsSides 0 us := by
  intro always
  have feed : Along (fun m u => m.quotes.WellFormed 0 u) Market.step Market.new lockedFeed := by
    decide
  have separate := (always lockedFeed feed).separate feed
  revert separate
  decide

end NanoTrade
