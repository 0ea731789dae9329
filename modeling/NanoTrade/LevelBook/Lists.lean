import NanoTrade.LevelBook.Flat

/-!
# A book as two lists

`LevelBook.Lists` forgets the blocks: a side is the list of its orders with their
prices, the first one to be filled first.

* `Lists.addOrder_spec`, `Lists.addOrder_fault`: a new order is allocated and put behind
  all that rank at least as high.
* `Lists.removeOrder_spec`: any order that is found is taken out.
* `Lists.locate`: an order of the list has a block, through which it can be taken out or
  get another quantity.
* `Lists.sideQueues_eq`: the walks read the lists back.
-/

namespace NanoTrade

variable {κ σ : Type}

/-- A resting order with the price of its level. -/
structure Resting (κ : Type) where
  key : κ
  price : Price
  qty : Qty
  priority : Priority
  deriving DecidableEq, Repr

/-- `a` ranks strictly ahead of `b`, by price. -/
def Resting.Ahead (side : BookSide) (a b : Resting κ) : Prop :=
  side.Ahead a.price b.price

instance (side : BookSide) : DecidableRel (Resting.Ahead (κ := κ) side) :=
  fun a b => inferInstanceAs (Decidable (side.Ahead a.price b.price))

/-- All of a resting order but its quantity. -/
def Resting.tag (o : Resting κ) : κ × Price × Priority :=
  (o.key, o.price, o.priority)

/-- A resting order as its block holds it. -/
def Resting.content (side : BookSide) (o : Resting κ) : κ × Side × Price × Qty × Priority :=
  (o.key, side.toSide, o.price, o.qty, o.priority)

/-- A resting order without its block. -/
def Resting.view (x : Price × RestingOrder κ) : Resting κ :=
  { key := x.2.key, price := x.1, qty := x.2.qty, priority := x.2.priority }

namespace LevelBook

/-- `s` holds the two lists of `orders`. -/
def Lists (L : BookLayout κ σ) (W : Price → Prop) (basePrice : Price) (stale : Price → Prop)
    (exact : Prop) (s : LevelBook κ σ) (orders : BookSide → List (Resting κ)) : Prop :=
  s.basePrice = basePrice ∧ ∃ book : Book κ, Rep L W stale exact s book ∧
    ∀ side, (book.flat side).map Resting.view = orders side

theorem Rep.filled {L : BookLayout κ σ} {W stale : Price → Prop} {exact : Prop}
    {s : LevelBook κ σ} {book : Book κ} (rep : Rep L W stale exact s book) :
    ∀ {side}, ∀ l ∈ book side, l.orders ≠ [] :=
  fun l mem => (rep.placed.queue l mem).nonempty

namespace Lists

variable {L : BookLayout κ σ} {W : Price → Prop} {basePrice : Price} {stale : Price → Prop}
  {exact : Prop} {s : LevelBook κ σ} {orders : BookSide → List (Resting κ)}
  {book : Book κ} {side : BookSide} {o : Resting κ} {xs ys : List (Resting κ)}

/-- An empty book. -/
theorem new (noKey : κ) (admits : L.Admits basePrice W) (notStale : ∀ p, ¬ stale p) :
    Lists L W basePrice stale exact (LevelBook.new noKey basePrice) fun _ => [] :=
  ⟨rfl, fun _ => [], Rep.new _ _ admits notStale, fun _ => rfl⟩

/-- Replacing one side of the book replaces one list. -/
theorem update_view (views : ∀ side, (book.flat side).map Resting.view = orders side)
    {levels : List (RestingLevel κ)}
    (here : (Book.flat (Function.update book side levels) side).map Resting.view = ys)
    (side' : BookSide) : (Book.flat (Function.update book side levels) side').map Resting.view =
      Function.update orders side ys side' := by
  rcases eq_or_ne side' side with rfl | ne
  · rw [here, Function.update_self]
  · have opp := BookSide.eq_opposite_of_ne ne
    subst opp
    rw [Book.flat_update_opposite, Function.update_of_ne ne, views]

/-- The orders of a level are orders of the list. -/
theorem view_mem (views : ∀ side, (book.flat side).map Resting.view = orders side)
    {l : RestingLevel κ} (mem : l ∈ book side) {x : RestingOrder κ} (xMem : x ∈ l.orders) :
    Resting.view (l.price, x) ∈ orders side := by
  rw [← views]
  exact List.mem_map_of_mem (Book.mem_flat.mpr ⟨l, mem, rfl, xMem⟩)

theorem level_apart {price : Price} (rep : Rep L W stale exact s book)
    (views : ∀ side, (book.flat side).map Resting.view = orders side)
    (apart : ∀ o ∈ orders side, o.price ≠ price) : ∀ l ∈ book side, l.price ≠ price := by
  intro l mem
  obtain ⟨x, xs, shape⟩ := List.exists_cons_of_ne_nil (rep.filled l mem)
  exact apart _ (view_mem views mem (x := x) (by rw [shape]; exact List.mem_cons_self))

/-- The head of an empty side is null. -/
theorem best_none (lists : Lists L W basePrice stale exact s orders) (empty : orders side = []) :
    s.best side.toSide = none := by
  obtain ⟨-, book, rep, views⟩ := lists
  have noFlat : book.flat side = [] := by
    have view := views side
    rw [empty] at view
    exact List.map_eq_nil_iff.mp view
  have noLevel := (Book.flat_eq_nil rep.filled).mp noFlat
  have head := rep.placed.levels.head side
  rw [Book.nodes, noLevel] at head
  exact head

/-- There are as many orders as blocks of the order pool in use. -/
theorem length_lt (lists : Lists L W basePrice stale exact s orders) (side : BookSide) :
    (orders side).length + (orders side.opposite).length < ME_MAX_ORDER_IDS := by
  obtain ⟨-, book, rep, views⟩ := lists
  have bound := rep.placed.pool.length_lt
  rw [rep.placed.size, List.nil_append, Book.orderPtrs, List.length_map,
    (Book.orders_perm_flat side).length_eq, List.length_map, List.length_append] at bound
  rw [← views, ← views, List.length_map, List.length_map]
  exact bound

theorem pool_size (lists : Lists L W basePrice stale exact s orders) :
    s.orderPool.size = ME_MAX_ORDER_IDS := by
  obtain ⟨-, book, rep, -⟩ := lists
  exact rep.placed.size

/-- The lists are sorted by price. -/
theorem sorted (lists : Lists L W basePrice stale exact s orders) (side : BookSide) :
    (orders side).Pairwise fun a b => ¬ Resting.Ahead side b a := by
  obtain ⟨-, book, rep, views⟩ := lists
  rw [← views, List.pairwise_map]
  exact Book.flat_sorted (rep.placed.levels.sorted side)

/-- No order rests at a stale price. -/
theorem not_stale (lists : Lists L W basePrice stale exact s orders) (mem : o ∈ orders side) :
    ¬ stale o.price := by
  obtain ⟨-, book, rep, views⟩ := lists
  intro isStale
  rw [← views] at mem
  obtain ⟨x, xMem, rfl⟩ := List.mem_map.mp mem
  obtain ⟨l, lMem, same, -⟩ := Book.mem_flat.mp xMem
  exact (rep.placed.levels.staleEntry isStale).2.1 side l.toLevelNode (Placed.node_mem lMem) same

/-- Through an exact table every order has a slot of its own. -/
theorem distinct_slots (lists : Lists L W basePrice stale True s orders) :
    (both orders).Pairwise fun a b => L.slot a.key ≠ L.slot b.key := by
  obtain ⟨-, book, rep, views⟩ := lists
  have apart : book.orders.Pairwise fun a b => L.slot a.key ≠ L.slot b.key := by
    have nodup := rep.placed.pool.nodup
    rw [List.nil_append, Book.orderPtrs, List.Nodup, List.pairwise_map] at nodup
    refine nodup.imp_of_mem fun {a b} aMem bMem ne same => ne ?_
    obtain ⟨slot, aSlot⟩ := rep.ids.slotted a aMem
    have entry := rep.ids.complete trivial a aMem aSlot
    rw [rep.ids.complete trivial b bMem (same ▸ aSlot), Option.some.injEq] at entry
    exact entry.symm
  have flat := ((Book.orders_perm_flat .bid).pairwise_iff Ne.symm).mp apart
  rw [List.pairwise_map] at flat
  have viewed : both orders = (book.flat .bid ++ book.flat .ask).map Resting.view := by
    rw [List.map_append, views, views]
    rfl
  rw [viewed, List.pairwise_map]
  exact flat

/-- The walks read the lists. -/
theorem sideQueues_eq (lists : Lists L W basePrice stale exact s orders) (side : BookSide) :
    s.sideQueues side.toSide = groups ((orders side).map fun o => (o.price, o.content side)) := by
  obtain ⟨-, book, rep, views⟩ := lists
  have read : ((orders side).map fun o => (o.price, o.content side)) =
      (book.flat side).map fun x => (x.1, (x.2.key, side.toSide, x.1, x.2.qty, x.2.priority)) := by
    rw [← views, List.map_map]
    rfl
  rw [rep.sideQueues_eq, read, groups_map (fun p (x : RestingOrder κ) =>
    (x.key, side.toSide, p, x.qty, x.priority)),
    Book.groups_flat rep.filled (rep.placed.levels.sorted side), List.map_map]
  rfl

/-! ## A new order -/

/-- The allocation for a new order, and what it puts into the spare block. -/
theorem allocate_spec (lists : Lists L W basePrice stale exact s orders)
    (room : (orders side).length + (orders side.opposite).length + 1 < ME_MAX_ORDER_IDS)
    (o : Resting κ) :
    ∃ ptr pool book,
      s.orderPool.allocate
        { key := o.key, side := side.toSide, price := o.price, qty := o.qty,
          priority := o.priority, prevOrder := none, nextOrder := none } = .ok (ptr, pool) ∧
      Rep L W stale exact s book ∧
      (∀ side, (book.flat side).map Resting.view = orders side) ∧
      Placed L W stale { s with orderPool := pool } book [ptr] ∧
      OrderAt ({ s with orderPool := pool } : LevelBook κ σ) side o.price
        { ptr, key := o.key, qty := o.qty, priority := o.priority } := by
  obtain ⟨-, book, rep, views⟩ := lists
  obtain ⟨ptr, pool, allocated, placed, stored⟩ := rep.allocate_spec (by
      rw [(Book.orders_perm_flat side).length_eq, List.length_map, List.length_append]
      rw [← views, ← views, List.length_map, List.length_map] at room
      exact room)
    { key := o.key, side := side.toSide, price := o.price, qty := o.qty, priority := o.priority,
      prevOrder := none, nextOrder := none }
  refine ⟨ptr, pool, book, allocated, rep, views, placed, ?_⟩
  rw [OrderAt, LevelBook.order, stored]
  rfl

theorem allocate_full (lists : Lists L W basePrice stale exact s orders)
    (full : ¬ (orders side).length + (orders side.opposite).length + 1 < ME_MAX_ORDER_IDS)
    (t : Order κ) : s.orderPool.allocate t = .error .outOfSpace := by
  obtain ⟨-, book, rep, views⟩ := lists
  refine rep.allocate_full ?_ t
  rw [(Book.orders_perm_flat side).length_eq, List.length_map, List.length_append]
  rw [← views, ← views, List.length_map, List.length_map] at full
  exact Nat.not_lt.mp full

/-- A new order goes behind all that rank at least as high, and its id into the table. -/
theorem addOrder_table [DecidableEq σ] (lists : Lists L W basePrice stale exact s orders)
    (room : (orders side).length + (orders side.opposite).length + 1 < ME_MAX_ORDER_IDS)
    (inside : W o.price) (notStale : ¬ stale o.price)
    (apart : ∀ x ∈ orders side.opposite, x.price ≠ o.price) {slot : σ}
    (oSlot : L.slot o.key = .ok slot)
    (fresh : exact → ∀ side, ∀ x ∈ orders side, L.slot x.key ≠ .ok slot) :
    ∃ ptr pool s',
      s.orderPool.allocate
        { key := o.key, side := side.toSide, price := o.price, qty := o.qty,
          priority := o.priority, prevOrder := none, nextOrder := none } = .ok (ptr, pool) ∧
      addOrder L { s with orderPool := pool } ptr = .ok s' ∧
      Lists L W basePrice stale exact s' (Function.update orders side
        ((orders side).orderedInsert (Resting.Ahead side) o)) ∧
      s'.oidToOrder = Function.update s.oidToOrder slot (some ptr) := by
  obtain ⟨ptr, pool, book, allocated, rep, views, placed, content⟩ := lists.allocate_spec room o
  obtain ⟨s', book', added, rep', joins, table, base'⟩ :=
    placed.addOrder_spec content (rep.ids.same_ids (.refl _) rfl) inside notStale
      (level_apart rep views apart) oSlot
      (by
        intro isExact x xMem
        obtain ⟨side', l, mem, oMem⟩ := Book.mem_orders.mp xMem
        exact fresh isExact side' _ (view_mem views mem oMem))
  obtain ⟨flatSide, flatOpposite⟩ := joins.flat_eq rep.filled (rep.placed.levels.sorted side)
  refine ⟨ptr, pool, s', allocated, added, ⟨base'.trans lists.1, book', rep', fun side' => ?_⟩,
    table⟩
  rcases eq_or_ne side' side with rfl | ne
  · rw [Function.update_self, flatSide, List.map_orderedInsert (r := PriceAhead side')
      (s := Resting.Ahead side') Resting.view _ _ (fun _ _ => Iff.rfl) (fun _ _ => Iff.rfl), views]
    rfl
  · have opp := BookSide.eq_opposite_of_ne ne
    subst opp
    rw [Function.update_of_ne ne, flatOpposite, views]

/-- A new order goes behind all that rank at least as high. -/
theorem addOrder_spec [DecidableEq σ] (lists : Lists L W basePrice stale exact s orders)
    (room : (orders side).length + (orders side.opposite).length + 1 < ME_MAX_ORDER_IDS)
    (inside : W o.price) (notStale : ¬ stale o.price)
    (apart : ∀ x ∈ orders side.opposite, x.price ≠ o.price) {slot : σ}
    (oSlot : L.slot o.key = .ok slot)
    (fresh : exact → ∀ side, ∀ x ∈ orders side, L.slot x.key ≠ .ok slot) :
    ∃ ptr pool s',
      s.orderPool.allocate
        { key := o.key, side := side.toSide, price := o.price, qty := o.qty,
          priority := o.priority, prevOrder := none, nextOrder := none } = .ok (ptr, pool) ∧
      addOrder L { s with orderPool := pool } ptr = .ok s' ∧
      Lists L W basePrice stale exact s' (Function.update orders side
        ((orders side).orderedInsert (Resting.Ahead side) o)) := by
  obtain ⟨ptr, pool, s', allocated, added, lists', -⟩ :=
    lists.addOrder_table room inside notStale apart oSlot fresh
  exact ⟨ptr, pool, s', allocated, added, lists'⟩

/-- An id outside the table stops the process. -/
theorem addOrder_fault [DecidableEq σ] (lists : Lists L W basePrice stale exact s orders)
    (room : (orders side).length + (orders side.opposite).length + 1 < ME_MAX_ORDER_IDS)
    (inside : W o.price) (notStale : ¬ stale o.price)
    (apart : ∀ x ∈ orders side.opposite, x.price ≠ o.price) {f : Fault}
    (oSlot : L.slot o.key = .error f) :
    ∃ ptr pool,
      s.orderPool.allocate
        { key := o.key, side := side.toSide, price := o.price, qty := o.qty,
          priority := o.priority, prevOrder := none, nextOrder := none } = .ok (ptr, pool) ∧
      addOrder L { s with orderPool := pool } ptr = .error f := by
  obtain ⟨ptr, pool, book, allocated, rep, views, placed, content⟩ := lists.allocate_spec room o
  exact ⟨ptr, pool, allocated,
    placed.addOrder_fault content inside notStale (level_apart rep views apart) oSlot⟩

/-! ## An order of the lists -/

/-- The removal of any resting order, from its queue and from the id table. -/
theorem removeOrder_table [DecidableEq σ] (base : s.basePrice = basePrice)
    (rep : Rep L W stale exact s book)
    (views : ∀ side, (book.flat side).map Resting.view = orders side)
    {x : RestingOrder κ} (mem : x ∈ book.orders) :
    ∃ side o xs ys s', orders side = xs ++ o :: ys ∧ o.key = x.key ∧
      (s.order x.ptr).content = o.content side ∧
      s.removeOrder L x.ptr = .ok s' ∧
      Lists L W basePrice stale exact s' (Function.update orders side (xs ++ ys)) ∧
      ∃ slot, L.slot x.key = .ok slot ∧
        s'.oidToOrder = Function.update s.oidToOrder slot none := by
  obtain ⟨side, l, lMem, xMem, content⟩ := rep.placed.content mem
  obtain ⟨l₁, l₂, shape⟩ := List.append_of_mem lMem
  obtain ⟨o₁, o₂, split⟩ := List.append_of_mem xMem
  obtain ⟨slot, xSlot⟩ := rep.ids.slotted x mem
  obtain ⟨s', removed, rep', table, base'⟩ := rep.removeOrder_spec shape split xSlot
  obtain ⟨f₁, f₂, flat, flat'⟩ : ∃ f₁ f₂, book.flat side = f₁ ++ (l.price, x) :: f₂ ∧
      Book.flat (Function.update book side (Book.requeue l₁ l (o₁ ++ o₂) l₂)) side = f₁ ++ f₂ :=
    ⟨_, _, Book.flat_split shape split, Book.flat_requeue book side l₁ l o₁ o₂ l₂⟩
  refine ⟨side, Resting.view (l.price, x), f₁.map Resting.view, f₂.map Resting.view, s', ?_, rfl,
    content, removed, ⟨base'.trans base, _, rep', update_view views ?_⟩, slot, xSlot, table⟩
  · rw [← views, flat, List.map_append, List.map_cons]
  · rw [flat', List.map_append]

/-- The removal of any resting order. -/
theorem removeOrder_spec [DecidableEq σ] (base : s.basePrice = basePrice)
    (rep : Rep L W stale exact s book)
    (views : ∀ side, (book.flat side).map Resting.view = orders side)
    {x : RestingOrder κ} (mem : x ∈ book.orders) :
    ∃ side o xs ys s', orders side = xs ++ o :: ys ∧ o.key = x.key ∧
      (s.order x.ptr).content = o.content side ∧
      s.removeOrder L x.ptr = .ok s' ∧
      Lists L W basePrice stale exact s' (Function.update orders side (xs ++ ys)) := by
  obtain ⟨side, o, xs, ys, s', shape, key, content, removed, lists', -⟩ :=
    removeOrder_table base rep views mem
  exact ⟨side, o, xs, ys, s', shape, key, content, removed, lists'⟩

/-- The block of an order: the id table leads to it, and at the front of a side the
heads do. Through it the order is taken out, or gets another quantity. -/
theorem locate [DecidableEq σ] (lists : Lists L W basePrice stale exact s orders)
    (shape : orders side = xs ++ o :: ys) :
    ∃ ptr slot, L.slot o.key = .ok slot ∧ (exact → s.oidToOrder slot = some ptr) ∧
      (s.order ptr).content = o.content side ∧
      (∃ s', s.removeOrder L ptr = .ok s' ∧
        Lists L W basePrice stale exact s' (Function.update orders side (xs ++ ys))) ∧
      ∀ qty, Lists L W basePrice stale exact (s.writeOrder ptr fun n => { n with qty := qty })
        (Function.update orders side (xs ++ { o with qty := qty } :: ys)) := by
  obtain ⟨base, book, rep, views⟩ := lists
  have view := views side
  rw [shape] at view
  obtain ⟨f₁, f, flat, viewX, viewTail⟩ := List.map_eq_append_iff.mp view
  obtain ⟨⟨p, x⟩, f₂, rfl, rfl, viewY⟩ := List.map_eq_cons_iff.mp viewTail
  obtain ⟨l₁, l, l₂, o₁, o₂, levels, split, rfl, rfl, rfl⟩ := Book.flat_cases flat
  have lMem : l ∈ book side := by
    rw [levels]
    simp
  have xMem : x ∈ l.orders := by
    rw [split]
    simp
  have mem : x ∈ book.orders := Book.mem_orders.mpr ⟨side, l, lMem, xMem⟩
  obtain ⟨slot, xSlot⟩ := rep.ids.slotted x mem
  obtain ⟨s', removed, rep', -, base'⟩ := rep.removeOrder_spec levels split xSlot
  refine ⟨x.ptr, slot, xSlot, fun isExact => rep.ids.complete isExact x mem xSlot,
    (rep.placed.queue l lMem).orders x xMem, ⟨s', removed, base'.trans base, _, rep', ?_⟩,
    fun qty => ⟨base, _, rep.setQty_spec levels split qty, ?_⟩⟩
  · refine update_view views ?_
    rw [Book.flat_requeue, List.map_append, viewX, viewY]
  · refine update_view views ?_
    rw [Book.flat_replace, List.map_append, List.map_cons, viewX, viewY]
    rfl

end Lists

end LevelBook

end NanoTrade
