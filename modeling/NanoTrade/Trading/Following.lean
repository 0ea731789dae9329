import NanoTrade.Trading.Market

/-!
# The client's book follows its feed

`Follows` relates a `MarketOrderBook` to the `Market` of its feed. Every update of a
well-formed feed that keeps the sides separate is followed (`onMarketUpdate_spec`), so
every such feed is (`Follows.run`).

The parts: `topOfSide_eq` for the best prices, `addQuote_spec`, `modifyQuote_spec`,
`cancelQuote_spec` and `clear_spec` for the orders.
-/

namespace NanoTrade

theorem marketSlot_eq {orderId : OrderId} (small : orderId < ME_MAX_ORDER_IDS) :
    marketSlot orderId = .ok orderId := by
  rw [marketSlot, if_pos small]

theorem marketSlot_eq_ok {orderId slot : OrderId} :
    marketSlot orderId = .ok slot ↔ orderId < ME_MAX_ORDER_IDS ∧ slot = orderId := by
  by_cases small : orderId < ME_MAX_ORDER_IDS
  · simp [marketSlot, small, eq_comm]
  · simp [marketSlot, small]

theorem marketLayout_admits (basePrice : Price) :
    marketLayout.Admits basePrice (InWindow basePrice) :=
  admits_window rfl rfl basePrice

/-- The book `s` holds the quotes; prices of `stale` have a table entry but no level. -/
abbrev Holds (basePrice : Price) (stale : List Price) (s : LevelBook OrderId OrderId)
    (quotes : Quotes) : Prop :=
  LevelBook.Lists marketLayout (InWindow basePrice) basePrice (· ∈ stale) True s quotes

/-- The book `s` follows `m`. -/
structure Follows (basePrice : Price) (s : MarketOrderBook) (m : Market) : Prop where
  holds : Holds basePrice m.stale s.toLevelBook m.quotes
  bbo : s.bbo = m.bbo

namespace Holds

variable {basePrice : Price} {stale : List Price} {s : LevelBook OrderId OrderId}
  {quotes : Quotes} {side : BookSide} {q : Quote} {xs ys rest : List Quote} {u : MEMarketUpdate}

theorem distinct (holds : Holds basePrice stale s quotes) : quotes.Distinct := by
  refine List.pairwise_map.mpr (holds.distinct_slots.imp fun {a b} ne same => ne ?_)
  simp only [marketLayout, same]

/-! ## Best prices -/

/-- The loop over the orders behind the first one. The induction is on these orders. -/
theorem sumQtys_eq {s : LevelBook OrderId OrderId} {first : Ptr} :
    ∀ {c : List Ptr} {x : Ptr} {fuel : Nat} {qty : Qty}, c.length < fuel → first ∉ c →
      List.IsChain (Linked (fun p => (s.order p).nextOrder) fun p => (s.order p).prevOrder)
        (x :: c ++ [first]) →
      MarketOrderBook.sumQtys s first fuel (s.order x).nextOrder qty =
        .ok (c.foldl (fun sum p => (sum + (s.order p).qty) % 2 ^ 32) qty)
  | [], x, fuel + 1, qty, _, _, chain => by
      have link := (List.isChain_pair.mp chain).1
      simp only [MarketOrderBook.sumQtys, link, if_true, List.foldl_nil]
  | y :: c, x, fuel + 1, qty, bound, notFirst, chain => by
      obtain ⟨link, chain⟩ := List.isChain_cons_cons.mp chain
      have next : (s.order x).nextOrder = some y := link.1
      have ne : y ≠ first := fun e => notFirst (e ▸ List.mem_cons_self)
      have short : c.length < fuel := by simpa using bound
      have later : first ∉ c := fun mem => notFirst (List.mem_cons_of_mem _ mem)
      have tail := @sumQtys_eq s first c y fuel ((qty + (s.order y).qty) % 2 ^ 32) short later chain
      simp only [MarketOrderBook.sumQtys, next, Option.some.injEq, ne, if_false, deref_some, bind,
        Except.bind, tail, List.foldl_cons]

/-- The front of a list is its first level. -/
theorem top_levels {l : RestingLevel OrderId} {l₂ : List (RestingLevel OrderId)}
    {first : RestingOrder OrderId} {others : List (RestingOrder OrderId)}
    (orders : l.orders = first :: others) (behind : ∀ m ∈ l₂, m.price ≠ l.price) :
    top (((l :: l₂).flatMap Book.priced).map Resting.view) =
      (l.price, others.foldl (fun sum o => (sum + o.qty) % 2 ^ 32) first.qty) := by
  have own : ((others.map fun o => (l.price, o)).map Resting.view).filter
      (fun q => decide (q.price = l.price)) =
      (others.map fun o => (l.price, o)).map Resting.view := by
    refine List.filter_eq_self.mpr fun q mem => ?_
    obtain ⟨x, xMem, rfl⟩ := List.mem_map.mp mem
    obtain ⟨o, _, rfl⟩ := List.mem_map.mp xMem
    exact decide_eq_true rfl
  have unmatched : ((l₂.flatMap Book.priced).map Resting.view).filter
      (fun q => decide (q.price = l.price)) = [] := by
    refine List.filter_eq_nil_iff.mpr fun q mem => ?_
    obtain ⟨x, xMem, rfl⟩ := List.mem_map.mp mem
    obtain ⟨m, mMem, xMem⟩ := List.mem_flatMap.mp xMem
    obtain ⟨o, _, rfl⟩ := List.mem_map.mp xMem
    exact fun same => behind m mMem (of_decide_eq_true same)
  have shape : ((l :: l₂).flatMap Book.priced).map Resting.view =
      Resting.view (l.price, first) :: ((others.map fun o => (l.price, o)).map Resting.view ++
        (l₂.flatMap Book.priced).map Resting.view) := by
    rw [List.flatMap_cons, Book.priced, orders]
    simp
  have price : (Resting.view (l.price, first)).price = l.price := rfl
  rw [shape, top, price, List.filter_append, own, unmatched, List.append_nil, List.foldl_map,
    List.foldl_map]
  rfl

/-- The loop of `updateBBO` over the orders of a level. -/
theorem sumQtys_level {book : Book OrderId} {P : Price → Prop} {exact : Prop}
    (rep : LevelBook.Rep marketLayout (InWindow basePrice) P exact s book)
    {l : RestingLevel OrderId} (mem : l ∈ book side) {first : RestingOrder OrderId}
    {others : List (RestingOrder OrderId)} (orders : l.orders = first :: others) :
    MarketOrderBook.sumQtys s first.ptr s.orderPool.size (s.order first.ptr).nextOrder
      (s.order first.ptr).qty =
        .ok (others.foldl (fun sum o => (sum + o.qty) % 2 ^ 32) first.qty) := by
  have queue := rep.placed.queue l mem
  have ring := queue.ring
  have qty : ∀ o ∈ first :: others, (s.order o.ptr).qty = o.qty := by
    intro o oMem
    exact (queue.orders o (orders ▸ oMem)).qty
  rw [orders, List.map_cons] at ring
  have bound : (others.map RestingOrder.ptr).length < s.orderPool.size := by
    have whole := rep.placed.pool.length_lt
    obtain ⟨l₁, l₂, levels⟩ := List.append_of_mem mem
    have count := (LevelBook.Placed.perm [] levels).length_eq
    rw [orders, List.map_cons] at count
    simp only [List.nil_append, List.length_append, List.length_cons] at whole count ⊢
    omega
  have chain := (Cycle.chain_coe_cons _ _ _).mp ring.chain
  rw [sumQtys_eq bound (List.nodup_cons.mp ring.nodup).1 (by simpa using chain), List.foldl_map,
    qty first List.mem_cons_self]
  refine congrArg Except.ok (List.foldl_ext _ _ _ fun sum o oMem => ?_)
  rw [qty o (List.mem_cons_of_mem _ oMem)]

/-- The best price and quantity of a side are those of its list. -/
theorem topOfSide_eq (holds : Holds basePrice stale s quotes) (side : BookSide) :
    MarketOrderBook.topOfSide s side.toSide = .ok (top (quotes side)) := by
  have empty : quotes side = [] → s.best side.toSide = none := holds.best_none
  obtain ⟨-, book, rep, views⟩ := holds
  cases levels : book side with
  | nil =>
      have noQuote : quotes side = [] := by
        rw [← views, Book.flat, levels]
        rfl
      rw [MarketOrderBook.topOfSide, empty noQuote, noQuote]
      rfl
  | cons l l₂ =>
      have mem : l ∈ book side := by
        rw [levels]
        exact List.mem_cons_self
      obtain ⟨first, others, orders⟩ := List.exists_cons_of_ne_nil (rep.filled l mem)
      have head : s.best side.toSide = some l.ptr := by
        rw [rep.placed.levels.head side, Book.nodes, levels]
        rfl
      have firstOrder : (s.level l.ptr).firstOrder = some first.ptr := by
        rw [(rep.placed.queue l mem).first, orders]
        rfl
      have price : (s.level l.ptr).price = l.price :=
        rep.placed.levels.price l.toLevelNode (LevelBook.Placed.node_mem mem)
      have behind : ∀ m ∈ l₂, m.price ≠ l.price := by
        intro m mMem
        have sorted := rep.placed.levels.sorted side
        rw [Book.nodes, List.pairwise_map, levels] at sorted
        exact (BookSide.Ahead.ne ((List.pairwise_cons.mp sorted).1 m mMem)).symm
      rw [← views, Book.flat, levels, top_levels orders behind]
      simp only [MarketOrderBook.topOfSide, head, firstOrder, deref_some,
        sumQtys_level rep mem orders, price, bind, Except.bind, pure, Except.pure]

/-- The head of a side is the level of the first order. -/
theorem best_some (holds : Holds basePrice stale s quotes) (front : quotes side = q :: rest) :
    ∃ best, s.best side.toSide = some best ∧ (s.level best).price = q.price := by
  obtain ⟨-, book, rep, views⟩ := holds
  obtain ⟨⟨p, x⟩, flatRest, flatShape, viewX, -⟩ :=
    List.map_eq_cons_iff.mp ((views side).trans front)
  obtain ⟨l, l₂, o₂, levels, -, price, -⟩ := Book.front rep.filled flatShape
  have mem : l ∈ book side := by
    rw [levels]
    exact List.mem_cons_self
  refine ⟨l.ptr, ?_, ?_⟩
  · rw [rep.placed.levels.head side, Book.nodes, levels]
    rfl
  · rw [rep.placed.levels.price l.toLevelNode (LevelBook.Placed.node_mem mem), ← viewX]
    exact price

/-- The gates of `updateBBO`. -/
theorem updated_eq (holds : Holds basePrice stale s quotes) (u : MEMarketUpdate) :
    MarketOrderBook.bidUpdated s u = fires quotes u .bid ∧
      MarketOrderBook.askUpdated s u = fires quotes u .ask := by
  constructor
  · cases front : quotes .bid with
    | nil =>
        have noHead : s.bidsByPrice = none := holds.best_none front
        simp only [MarketOrderBook.bidUpdated, noHead, fires, front, List.head?_nil]
    | cons q rest =>
        obtain ⟨best, head, price⟩ := holds.best_some front
        have hasHead : s.bidsByPrice = some best := head
        simp only [MarketOrderBook.bidUpdated, hasHead, fires, front, List.head?_cons, price,
          BookSide.toSide, BookSide.Ahead]
        by_cases low : u.price < q.price
        · simp [low, Int.not_le.mpr low]
        · simp [low, Int.not_lt.mp low]
  · cases front : quotes .ask with
    | nil =>
        have noHead : s.asksByPrice = none := holds.best_none front
        simp only [MarketOrderBook.askUpdated, noHead, fires, front, List.head?_nil]
    | cons q rest =>
        obtain ⟨best, head, price⟩ := holds.best_some front
        have hasHead : s.asksByPrice = some best := head
        simp only [MarketOrderBook.askUpdated, hasHead, fires, front, List.head?_cons, price,
          BookSide.toSide, BookSide.Ahead]
        by_cases high : q.price < u.price
        · simp [high, Int.not_le.mpr high]
        · simp [high, Int.not_lt.mp high]

/-! ## Orders -/

/-- An ADD at a price that is neither stale nor one of the other side. -/
theorem addQuote_spec (holds : Holds basePrice stale s quotes) (isAdd : u.type = .ADD)
    (adds : quotes.Adds basePrice side u) (notStale : u.price ∉ stale)
    (apart : ∀ q ∈ quotes side.opposite, q.price ≠ u.price) :
    ∃ s', MarketOrderBook.addQuote s u = .ok s' ∧ Holds basePrice stale s' (quotes.apply u) := by
  have room := adds.room
  rw [(perm_both quotes side).length_eq, List.length_append] at room
  obtain ⟨ptr, pool, s', allocated, added, holds'⟩ := holds.addOrder_spec (o := Quote.of u) room
    adds.inside notStale apart (marketSlot_eq adds.slot)
    (by
      intro _ side' x mem same
      exact adds.fresh x ((mem_both _).mpr ⟨side', mem⟩) (marketSlot_eq_ok.mp same).2.symm)
  refine ⟨s', ?_, ?_⟩
  · have allocated' : s.orderPool.allocate
        { key := u.orderId, side := side.toSide, price := u.price, qty := u.qty,
          priority := u.priority, prevOrder := none, nextOrder := none } = .ok (ptr, pool) :=
      allocated
    simp only [MarketOrderBook.addQuote, adds.sided, allocated', bind, Except.bind, added]
  · rw [Quotes.apply_add isAdd adds.sided]
    exact holds'

/-- What a live id leads to. -/
theorem lookup_spec (holds : Holds basePrice stale s quotes) (shape : quotes side = xs ++ q :: ys)
    (named : q.key = u.orderId) :
    ∃ ptr, MarketOrderBook.lookup s u.orderId = .ok ptr ∧
      (∃ s', s.removeOrder marketLayout ptr = .ok s' ∧
        Holds basePrice stale s' (Function.update quotes side (xs ++ ys))) ∧
      ∀ qty, Holds basePrice stale (s.writeOrder ptr fun n => { n with qty := qty })
        (Function.update quotes side (xs ++ { q with qty := qty } :: ys)) := by
  obtain ⟨ptr, slot, qSlot, entry, -, removed, written⟩ := holds.locate shape
  obtain ⟨small, rfl⟩ := marketSlot_eq_ok.mp qSlot
  refine ⟨ptr, ?_, removed, written⟩
  have found := entry trivial
  rw [named] at small found
  simp only [MarketOrderBook.lookup, marketSlot_eq small, found, bind, Except.bind, deref_some]

theorem exists_split (live : ∃ q ∈ both quotes, q.key = u.orderId) :
    ∃ side xs q ys, quotes side = xs ++ q :: ys ∧ q.key = u.orderId := by
  obtain ⟨q, mem, named⟩ := live
  obtain ⟨side, mem⟩ := (mem_both _).mp mem
  obtain ⟨xs, ys, shape⟩ := List.append_of_mem mem
  exact ⟨side, xs, q, ys, shape, named⟩

/-- A MODIFY of a live order. -/
theorem modifyQuote_spec (holds : Holds basePrice stale s quotes) (isModify : u.type = .MODIFY)
    (live : ∃ q ∈ both quotes, q.key = u.orderId) :
    ∃ s', MarketOrderBook.modifyQuote s u = .ok s' ∧
      Holds basePrice stale s' (quotes.apply u) := by
  obtain ⟨side, xs, q, ys, shape, named⟩ := exists_split live
  obtain ⟨ptr, found, -, written⟩ := holds.lookup_spec shape named
  refine ⟨s.writeOrder ptr fun n => { n with qty := u.qty }, ?_, ?_⟩
  · simp only [MarketOrderBook.modifyQuote, found, bind, Except.bind, pure, Except.pure]
  · rw [Quotes.apply_modify holds.distinct isModify shape named]
    exact written u.qty

/-- A CANCEL of a live order. -/
theorem cancelQuote_spec (holds : Holds basePrice stale s quotes) (isCancel : u.type = .CANCEL)
    (live : ∃ q ∈ both quotes, q.key = u.orderId) :
    ∃ s', MarketOrderBook.cancelQuote s u = .ok s' ∧
      Holds basePrice stale s' (quotes.apply u) := by
  obtain ⟨side, xs, q, ys, shape, named⟩ := exists_split live
  obtain ⟨ptr, found, ⟨s', removed, holds'⟩, -⟩ := holds.lookup_spec shape named
  refine ⟨s', ?_, ?_⟩
  · simp only [MarketOrderBook.cancelQuote, found, bind, Except.bind, removed]
  · rw [Quotes.apply_cancel holds.distinct isCancel shape named]
    exact holds'

/-! ## CLEAR -/

/-- The loop over the id table. The induction is on the ids that are still to come. -/
theorem foldlM_clearEntry {table : OrderId → Option Ptr} {ids : List OrderId} :
    ∀ {pool : MemPool (Order OrderId)}, pool.Holds (ids.filterMap table) →
      ∃ pool', ids.foldlM (fun pool id => MarketOrderBook.clearEntry pool (table id)) pool =
          .ok pool' ∧ pool'.Holds [] ∧ pool'.size = pool.size := by
  induction ids with
  | nil =>
      intro pool holds
      exact ⟨pool, rfl, holds, rfl⟩
  | cons id ids ih =>
      intro pool holds
      cases entry : table id with
      | none =>
          rw [List.filterMap_cons_none entry] at holds
          obtain ⟨pool', run, empty, size⟩ := ih holds
          refine ⟨pool', ?_, empty, size⟩
          simp only [List.foldlM_cons, entry, MarketOrderBook.clearEntry, bind, Except.bind]
          exact run
      | some p =>
          rw [List.filterMap_cons_some entry] at holds
          obtain ⟨freed, first, rest, size, -⟩ := holds.deallocate List.mem_cons_self
          rw [List.erase_cons_head] at rest
          obtain ⟨pool', run, empty, size'⟩ := ih rest
          refine ⟨pool', ?_, empty, size'.trans size⟩
          simp only [List.foldlM_cons, entry, MarketOrderBook.clearEntry, first, bind, Except.bind]
          exact run

/-- The loop over the levels of a side behind the best one. The induction is on these
levels. -/
theorem clearLevels_eq {best : Ptr} {rest : List Ptr} :
    ∀ {c : List Ptr} {x : Ptr} {fuel : Nat} {pool : MemPool OrdersAtPrice}, c.length < fuel →
      best ∉ c → List.IsChain (fun a b => (pool.get a).nextEntry = some b) (x :: c ++ [best]) →
      pool.Holds (c ++ best :: rest) →
      ∃ pool', MarketOrderBook.clearLevels best fuel (pool.get x).nextEntry pool = .ok pool' ∧
        pool'.Holds rest ∧ pool'.size = pool.size ∧ ∀ q, pool'.get q = pool.get q
  | [], x, fuel + 1, pool, _, _, chain, holds => by
      have link := List.isChain_pair.mp chain
      obtain ⟨pool', freed, holds', size, get⟩ := holds.deallocate (p := best) (by simp)
      rw [List.nil_append, List.erase_cons_head] at holds'
      refine ⟨pool', ?_, holds', size, get⟩
      simp only [MarketOrderBook.clearLevels, link, if_true, freed]
  | y :: c, x, fuel + 1, pool, bound, notBest, chain, holds => by
      obtain ⟨link, chain⟩ := List.isChain_cons_cons.mp chain
      have ne : y ≠ best := fun e => notBest (e ▸ List.mem_cons_self)
      have short : c.length < fuel := by simpa using bound
      obtain ⟨freed, first, holds', size, get⟩ := holds.deallocate (p := y) (by simp)
      rw [List.cons_append, List.erase_cons_head] at holds'
      have chain' : List.IsChain (fun a b => (freed.get a).nextEntry = some b)
          (y :: c ++ [best]) := by
        simp only [get]
        exact chain
      obtain ⟨pool', run, last, size', get'⟩ :=
        clearLevels_eq short (fun mem => notBest (List.mem_cons_of_mem _ mem)) chain' holds'
      refine ⟨pool', ?_, last, size'.trans size, fun q => (get' q).trans (get q)⟩
      simp only [MarketOrderBook.clearLevels, link, Option.some.injEq, ne, if_false, first, bind,
        Except.bind, run]

/-- CLEAR, one side: the blocks of its levels are free. -/
theorem clearSide_eq {pool : MemPool OrdersAtPrice} {c rest : List Ptr}
    (ring : Ring (fun p => (pool.get p).nextEntry) (fun p => (pool.get p).prevEntry) c)
    (holds : pool.Holds (c ++ rest)) :
    ∃ pool', MarketOrderBook.clearSide c.head? pool = .ok pool' ∧ pool'.Holds rest ∧
      pool'.size = pool.size ∧ ∀ q, pool'.get q = pool.get q := by
  cases c with
  | nil => exact ⟨pool, rfl, holds, rfl, fun _ => rfl⟩
  | cons best c =>
      have chain := (Cycle.chain_coe_cons _ _ _).mp ring.chain
      have bound : c.length < pool.size := by
        have := holds.length_lt
        simp only [List.length_append, List.length_cons] at this
        omega
      have turned : pool.Holds (c ++ best :: rest) := by
        refine holds.perm ?_
        rw [List.cons_append]
        exact List.perm_middle.symm
      have forward : List.IsChain (fun a b => (pool.get a).nextEntry = some b)
          (best :: c ++ [best]) := by
        refine List.IsChain.imp ?_ chain
        intro a b link
        exact link.1
      exact clearLevels_eq bound (List.nodup_cons.mp ring.nodup).1 forward turned

/-- The id table leads to all blocks in use. -/
theorem table_perm {book : Book OrderId} {P : Price → Prop}
    (rep : LevelBook.Rep marketLayout (InWindow basePrice) P True s book) :
    book.orderPtrs.Perm ((List.range ME_MAX_ORDER_IDS).filterMap s.oidToOrder) := by
  have nodup : book.orderPtrs.Nodup := rep.placed.pool.nodup
  refine (List.perm_ext_iff_of_nodup nodup ?_).mpr fun p => ?_
  · refine List.Nodup.filterMap (fun i j p iMem jMem => ?_) List.nodup_range
    obtain ⟨a, aMem, aPtr, aSlot⟩ := rep.ids.sound iMem
    obtain ⟨b, bMem, bPtr, bSlot⟩ := rep.ids.sound jMem
    have same : a = b := List.inj_on_of_nodup_map nodup aMem bMem (aPtr.trans bPtr.symm)
    rw [same, bSlot, Except.ok.injEq] at aSlot
    exact aSlot.symm
  · rw [List.mem_filterMap]
    constructor
    · intro mem
      obtain ⟨o, oMem, rfl⟩ := List.mem_map.mp mem
      obtain ⟨slot, oSlot⟩ := rep.ids.slotted o oMem
      obtain ⟨small, rfl⟩ := marketSlot_eq_ok.mp oSlot
      exact ⟨o.key, List.mem_range.mpr small, rep.ids.complete trivial o oMem oSlot⟩
    · rintro ⟨i, -, entry⟩
      obtain ⟨o, oMem, rfl, -⟩ := rep.ids.sound entry
      exact List.mem_map_of_mem oMem

/-- The three loops of a CLEAR, put together. -/
theorem clear_eq {orders : MemPool (Order OrderId)} {pool₁ pool₂ : MemPool OrdersAtPrice}
    (run : MarketOrderBook.clearOrders s = .ok orders)
    (bids : MarketOrderBook.clearSide s.bidsByPrice s.ordersAtPricePool = .ok pool₁)
    (asks : MarketOrderBook.clearSide s.asksByPrice pool₁ = .ok pool₂) :
    MarketOrderBook.clear s = .ok
      { s with
        oidToOrder := fun _ => none
        ordersAtPricePool := pool₂
        bidsByPrice := none
        asksByPrice := none
        orderPool := orders } := by
  -- `run` goes first: no step may evaluate the loop over the whole table.
  rw [MarketOrderBook.clear, run]
  simp only [bids, asks, bind, Except.bind, pure, Except.pure]

/-- CLEAR: nothing rests, but the prices of the old levels are stale. -/
theorem clear_spec (holds : Holds basePrice stale s quotes) :
    ∃ s', MarketOrderBook.clear s = .ok s' ∧
      Holds basePrice ((both quotes).map Resting.price ++ stale) s' fun _ => [] := by
  obtain ⟨base, book, rep, views⟩ := holds
  have levels := rep.placed.levels
  obtain ⟨orders, cleared, noOrder, orderSize⟩ :=
    foldlM_clearEntry (rep.placed.pool.perm (table_perm rep))
  have inUse := levels.pool
  rw [both, List.map_append] at inUse
  obtain ⟨pool₁, bids, holds₁, size₁, get₁⟩ := clearSide_eq (levels.ring .bid) inUse
  have asksRing : Ring (fun p => (pool₁.get p).nextEntry) (fun p => (pool₁.get p).prevEntry)
      ((book.nodes .ask).map LevelNode.ptr) := by
    simp only [get₁]
    exact levels.ring .ask
  rw [← List.append_nil ((book.nodes .ask).map LevelNode.ptr)] at holds₁
  obtain ⟨pool₂, asks, holds₂, size₂, -⟩ := clearSide_eq asksRing holds₁
  have bidHead : s.bidsByPrice = ((book.nodes .bid).map LevelNode.ptr).head? := levels.head .bid
  have askHead : s.asksByPrice = ((book.nodes .ask).map LevelNode.ptr).head? := levels.head .ask
  refine ⟨{ s with
    oidToOrder := fun _ => none
    ordersAtPricePool := pool₂
    bidsByPrice := none
    asksByPrice := none
    orderPool := orders }, ?_, base, fun _ => [], LevelBook.Rep.empty levels.admits ?_ ?_ ?_ holds₂
      (size₂.trans (size₁.trans levels.size)) noOrder (orderSize.trans rep.placed.size)
      fun _ => rfl, fun _ => rfl⟩
  · rw [← bidHead] at bids
    rw [← askHead] at asks
    exact clear_eq cleared bids asks
  · intro side
    cases side <;> rfl
  · intro p inside notStale
    rw [List.mem_append, not_or] at notStale
    refine levels.vacant inside notStale.2 fun side n mem same => notStale.1 ?_
    obtain ⟨l, lMem, rfl⟩ := List.mem_map.mp mem
    obtain ⟨x, others, shape⟩ := List.exists_cons_of_ne_nil (rep.filled l lMem)
    have quote := LevelBook.Lists.view_mem views lMem (x := x) (by
      rw [shape]
      exact List.mem_cons_self)
    exact List.mem_map.mpr ⟨_, (mem_both _).mpr ⟨side, quote⟩, same⟩
  · intro p isStale
    rcases List.mem_append.mp isStale with dropped | old
    · obtain ⟨q, qMem, rfl⟩ := List.mem_map.mp dropped
      obtain ⟨side, qMem⟩ := (mem_both _).mp qMem
      rw [← views] at qMem
      obtain ⟨x, xMem, rfl⟩ := List.mem_map.mp qMem
      obtain ⟨l, lMem, same, -⟩ := Book.mem_flat.mp xMem
      have node := LevelBook.Placed.node_mem lMem
      have price : (Resting.view x).price = l.price := same.symm
      have entry := levels.entry l.toLevelNode node
      rw [price]
      refine ⟨levels.window l.toLevelNode node, ?_⟩
      show s.priceOrdersAtPrice _ ≠ none
      rw [entry]
      exact Option.some_ne_none _
    · exact ⟨(levels.staleEntry old).1, (levels.staleEntry old).2.2⟩

end Holds

/-! ## Whole updates and runs -/

namespace Follows

variable {basePrice : Price} {s : MarketOrderBook} {m : Market} {u : MEMarketUpdate}

theorem new (basePrice : Price) : Follows basePrice (MarketOrderBook.new basePrice) Market.new := by
  refine ⟨LevelBook.Lists.new _ (marketLayout_admits _) fun p mem => ?_, rfl⟩
  cases mem

/-- The orders after an update. -/
theorem applyUpdate_spec (follows : Follows basePrice s m)
    (wellFormed : m.quotes.WellFormed basePrice u) (separate : m.Separate u) :
    ∃ book, MarketOrderBook.applyUpdate s.toLevelBook u = .ok book ∧
      Holds basePrice (m.step u).1.stale book (m.quotes.apply u) := by
  have holds := follows.holds
  cases isType : u.type with
  | ADD =>
      have stale : (m.step u).1.stale = m.stale := by simp [Market.step, isType]
      obtain ⟨side, adds⟩ : ∃ side, m.quotes.Adds basePrice side u := by
        rcases wellFormed.add isType with adds | adds
        · exact ⟨_, adds⟩
        · exact ⟨_, adds⟩
      obtain ⟨notStale, apart⟩ := separate isType
      rw [stale]
      simp only [MarketOrderBook.applyUpdate, isType]
      exact holds.addQuote_spec isType adds notStale (apart side adds.sided)
  | MODIFY =>
      have stale : (m.step u).1.stale = m.stale := by simp [Market.step, isType]
      rw [stale]
      simp only [MarketOrderBook.applyUpdate, isType]
      exact holds.modifyQuote_spec isType (wellFormed.live (.inl isType))
  | CANCEL =>
      have stale : (m.step u).1.stale = m.stale := by simp [Market.step, isType]
      rw [stale]
      simp only [MarketOrderBook.applyUpdate, isType]
      exact holds.cancelQuote_spec isType (wellFormed.live (.inr isType))
  | CLEAR =>
      have stale : (m.step u).1.stale = (both m.quotes).map Resting.price ++ m.stale := by
        simp [Market.step, isType]
      have cleared : m.quotes.apply u = fun _ => [] := by
        simp only [Quotes.apply, isType]
      rw [stale, cleared]
      simp only [MarketOrderBook.applyUpdate, isType]
      exact holds.clear_spec
  | TRADE | INVALID | SNAPSHOT_START | SNAPSHOT_END =>
      have stale : (m.step u).1.stale = m.stale := by simp [Market.step, isType]
      have same : m.quotes.apply u = m.quotes := by
        simp only [Quotes.apply, isType]
      rw [stale, same]
      simp only [MarketOrderBook.applyUpdate, isType]
      exact ⟨_, rfl, holds⟩

/-- The refresh of the best prices. -/
theorem updateBBO_spec {stale : List Price} {quotes : Quotes}
    (holds : Holds basePrice stale s.toLevelBook quotes) (updateBid updateAsk : Bool) :
    s.updateBBO updateBid updateAsk =
      .ok { s with
        bbo := if updateAsk then
            (if updateBid then s.bbo.put .bid (top (quotes .bid)) else s.bbo).put .ask
              (top (quotes .ask))
          else if updateBid then s.bbo.put .bid (top (quotes .bid)) else s.bbo } := by
  have bid : MarketOrderBook.topOfSide s.toLevelBook .BUY = .ok (top (quotes .bid)) :=
    holds.topOfSide_eq .bid
  have ask : MarketOrderBook.topOfSide s.toLevelBook .SELL = .ok (top (quotes .ask)) :=
    holds.topOfSide_eq .ask
  cases updateBid <;> cases updateAsk <;>
    simp [MarketOrderBook.updateBBO, bid, ask, bind, Except.bind, pure, Except.pure, BBO.put]

/-- One update of a well-formed feed that keeps the sides separate. -/
theorem onMarketUpdate_spec (follows : Follows basePrice s m)
    (wellFormed : m.quotes.WellFormed basePrice u) (separate : m.Separate u) :
    ∃ s', s.onMarketUpdate u = .ok (s', (m.step u).2) ∧ Follows basePrice s' (m.step u).1 := by
  by_cases isTrade : u.type = .TRADE
  · refine ⟨s, ?_, ?_⟩
    · simp only [MarketOrderBook.onMarketUpdate, Market.step, isTrade, if_true]
    · simp only [Market.step, isTrade, if_true]
      exact follows
  · obtain ⟨book, applied, holds⟩ := follows.applyUpdate_spec wellFormed separate
    obtain ⟨bid, ask⟩ := follows.holds.updated_eq u
    have refreshed := updateBBO_spec (s := ⟨book, m.bbo⟩) holds (fires m.quotes u .bid)
      (fires m.quotes u .ask)
    refine ⟨⟨book, (m.step u).1.bbo⟩, ?_, ⟨?_, rfl⟩⟩
    · simp only [MarketOrderBook.onMarketUpdate, isTrade, if_false, applied, bid, ask, bind,
        Except.bind, refreshed, pure, Except.pure, Market.step, Market.refresh, follows.bbo]
    · rw [Market.step_quotes]
      exact holds

/-- A run of the feed. -/
theorem run {us : List MEMarketUpdate} (follows : Follows basePrice s m)
    (feed : Along (fun m u => m.quotes.WellFormed basePrice u ∧ m.Separate u) Market.step m us) :
    ∃ s', NanoTrade.run MarketOrderBook.onMarketUpdate s us =
        .ok (s', (runTotal Market.step m us).2) ∧
      Follows basePrice s' (runTotal Market.step m us).1 :=
  simulates (fun follows pre => follows.onMarketUpdate_spec pre.1 pre.2) follows feed

end Follows

/-! ## Uncrossed feeds -/

/-- An update of an uncrossed feed. -/
def Uncrossed (basePrice : Price) (m : Market) (u : MEMarketUpdate) : Prop :=
  m.quotes.WellFormed basePrice u ∧ m.quotes.Uncrossed u

/-- A CLEAR finds no order. -/
def ClearsEmpty (m : Market) (u : MEMarketUpdate) : Prop :=
  u.type = .CLEAR → ∀ side, m.quotes side = []

instance (basePrice : Price) (m : Market) (u : MEMarketUpdate) :
    Decidable (Uncrossed basePrice m u) :=
  inferInstanceAs (Decidable (_ ∧ _))

instance (m : Market) (u : MEMarketUpdate) : Decidable (ClearsEmpty m u) :=
  inferInstanceAs (Decidable (_ → _))

section Uncrossed

variable {basePrice : Price} {s : MarketOrderBook} {m : Market} {u : MEMarketUpdate}
  {us : List MEMarketUpdate}

/-- An uncrossed feed is separate as long as no price is stale. -/
theorem Uncrossed.separate (uncrossed : Uncrossed basePrice m u) (fresh : m.stale = []) :
    m.Separate u := by
  intro isAdd
  refine ⟨by simp [fresh], fun side sided q mem same => ?_⟩
  have stops := uncrossed.2 isAdd side sided q mem
  rw [same] at stops
  exact stops (BookSide.Crosses.refl side _)

theorem ClearsEmpty.step (empty : ClearsEmpty m u) (fresh : m.stale = []) :
    (m.step u).1.stale = [] := by
  by_cases isClear : u.type = .CLEAR
  · have noPrice : (both m.quotes).map Resting.price = [] := by
      rw [both, empty isClear, empty isClear]
      rfl
    simp [Market.step, isClear, noPrice, fresh]
  · simp only [Market.step, isClear, if_false]
    split
    · exact fresh
    · exact fresh

/-- Along a feed whose CLEARs find no order no price gets stale. -/
theorem stale_of_clearsEmpty (empty : Along ClearsEmpty Market.step m us) (fresh : m.stale = []) :
    (runTotal Market.step m us).1.stale = [] := by
  induction us generalizing m with
  | nil => exact fresh
  | cons u us ih => exact ih empty.2 (empty.1.step fresh)

/-- Such a feed is followed. -/
theorem Follows.run_uncrossed (follows : Follows basePrice s m)
    (feed : Along (Uncrossed basePrice) Market.step m us)
    (empty : Along ClearsEmpty Market.step m us) (fresh : m.stale = []) :
    ∃ s', NanoTrade.run MarketOrderBook.onMarketUpdate s us =
        .ok (s', (runTotal Market.step m us).2) ∧
      Follows basePrice s' (runTotal Market.step m us).1 := by
  refine follows.run ?_
  clear follows
  induction us generalizing m with
  | nil => trivial
  | cons u us ih =>
      exact ⟨⟨feed.1.1, feed.1.separate fresh⟩, ih feed.2 empty.2 (empty.1.step fresh)⟩

end Uncrossed

end NanoTrade
