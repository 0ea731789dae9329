import NanoTrade.LevelBook.Queues

/-!
# What a book holds

`Placed` says that the heap of a book holds the given levels with their orders, and
that the blocks of `spare` are the only other ones in use: an order between its
allocation and its linking, or between its unlinking and its release. `Rep` adds
the id table, which is `exact` when every resting order is found through it.

* `Placed.attach_spec`, `Placed.detach_spec`: an order enters and leaves a queue.
* `Rep.addOrder_spec`, `Rep.removeOrder_spec`: the same with the table and the pool.
* `Rep.setQty_spec`: a fill or a MODIFY.
* `Rep.getNextPriority_spec`.

The effect of each on the levels is a function of lists, so nothing above this file
looks at a link again.
-/

namespace NanoTrade

variable {κ σ : Type}

/-- Two books with the same list on each side. -/
abbrev Book (κ : Type) := BookSide → List (RestingLevel κ)

namespace Book

def nodes (book : Book κ) : BookSide → List LevelNode :=
  fun side => (book side).map RestingLevel.toLevelNode

/-- All resting orders. -/
def orders (book : Book κ) : List (RestingOrder κ) :=
  (both book).flatMap RestingLevel.orders

def orderPtrs (book : Book κ) : List Ptr :=
  book.orders.map RestingOrder.ptr

/-- The level list of one side after one of its levels has got other orders; a level
that is left with none is gone. -/
def requeue (l₁ : List (RestingLevel κ)) (l : RestingLevel κ) (orders : List (RestingOrder κ))
    (l₂ : List (RestingLevel κ)) : List (RestingLevel κ) :=
  if orders = [] then l₁ ++ l₂ else l₁ ++ { l with orders := orders } :: l₂

def Ahead (side : BookSide) (a b : RestingLevel κ) : Prop :=
  LevelNode.Ahead side a.toLevelNode b.toLevelNode

instance (side : BookSide) : DecidableRel (Ahead (κ := κ) side) :=
  fun a b => inferInstanceAs (Decidable (LevelNode.Ahead side a.toLevelNode b.toLevelNode))

variable {book : Book κ} {side : BookSide} {l₁ l₂ : List (RestingLevel κ)} {l : RestingLevel κ}

@[simp] theorem mem_orders {o : RestingOrder κ} :
    o ∈ book.orders ↔ ∃ side, ∃ l ∈ book side, o ∈ l.orders := by
  simp only [orders, List.mem_flatMap, mem_both]
  constructor
  · rintro ⟨l, ⟨side, mem⟩, oMem⟩
    exact ⟨side, l, mem, oMem⟩
  · rintro ⟨side, l, mem, oMem⟩
    exact ⟨l, ⟨side, mem⟩, oMem⟩

theorem orders_perm (shape : book side = l₁ ++ l :: l₂) :
    book.orders.Perm
      (l.orders ++ ((l₁ ++ l₂) ++ book side.opposite).flatMap RestingLevel.orders) := by
  have whole := perm_both book side
  rw [shape, List.append_assoc, List.cons_append] at whole
  have moved := whole.trans List.perm_middle
  rw [← List.append_assoc] at moved
  have flat := moved.flatMap_right RestingLevel.orders
  rwa [List.flatMap_cons] at flat

theorem orders_update_perm (book : Book κ) (side : BookSide) (xs : List (RestingLevel κ)) :
    (orders (Function.update book side xs)).Perm
      ((xs ++ book side.opposite).flatMap RestingLevel.orders) :=
  (perm_both_update book side xs).flatMap_right RestingLevel.orders

theorem orders_replace_perm (book : Book κ) (side : BookSide) (l₁ : List (RestingLevel κ))
    (l : RestingLevel κ) (orders' : List (RestingOrder κ)) (l₂ : List (RestingLevel κ)) :
    (orders (Function.update book side (l₁ ++ { l with orders := orders' } :: l₂))).Perm
      (orders' ++ ((l₁ ++ l₂) ++ book side.opposite).flatMap RestingLevel.orders) := by
  have turn : (l₁ ++ { l with orders := orders' } :: (l₂ ++ book side.opposite)).Perm
      ({ l with orders := orders' } :: (l₁ ++ (l₂ ++ book side.opposite))) := List.perm_middle
  have moved := turn.flatMap_right RestingLevel.orders
  rw [List.flatMap_cons, ← List.append_assoc] at moved
  refine (orders_update_perm _ _ _).trans ?_
  rw [List.append_assoc, List.cons_append]
  exact moved

theorem nodes_update {xs : List (RestingLevel κ)} :
    nodes (Function.update book side xs) =
      Function.update book.nodes side (xs.map RestingLevel.toLevelNode) := by
  funext side'
  by_cases e : side' = side
  · subst e
    simp [nodes]
  · simp [nodes, e]

theorem both_nodes : both book.nodes = (both book).map RestingLevel.toLevelNode :=
  (map_both book _).symm

theorem length_le_flatMap {xs : List (RestingLevel κ)} (filled : ∀ l ∈ xs, l.orders ≠ []) :
    xs.length ≤ (xs.flatMap RestingLevel.orders).length := by
  induction xs with
  | nil => exact Nat.le_refl _
  | cons l xs ih =>
      have rest := ih fun m mem => filled m (List.mem_cons_of_mem _ mem)
      have first := List.length_pos_of_ne_nil (filled l List.mem_cons_self)
      rw [List.flatMap_cons, List.length_append, List.length_cons]
      omega

theorem map_toLevelNode_orderedInsert (new : RestingLevel κ) (xs : List (RestingLevel κ)) :
    (xs.orderedInsert (Ahead side) new).map RestingLevel.toLevelNode =
      (xs.map RestingLevel.toLevelNode).orderedInsert (LevelNode.Ahead side) new.toLevelNode :=
  List.map_orderedInsert (r := Ahead side) (s := LevelNode.Ahead side) _ _ _
    (fun _ _ => Iff.rfl) (fun _ _ => Iff.rfl)

/-- Other orders in a level are no other level. -/
theorem nodes_replace {orders : List (RestingOrder κ)} (shape : book side = l₁ ++ l :: l₂) :
    nodes (Function.update book side (l₁ ++ { l with orders := orders } :: l₂)) = book.nodes := by
  rw [nodes_update]
  refine Function.update_eq_self_iff.mpr ?_
  simp [nodes, shape]

end Book

namespace LevelBook

namespace OrderAt

variable {s : LevelBook κ σ} {bookSide : BookSide} {limit : Price} {o : RestingOrder κ}

theorem key (placed : s.OrderAt bookSide limit o) : (s.order o.ptr).key = o.key :=
  congrArg (·.1) placed

theorem side (placed : s.OrderAt bookSide limit o) : (s.order o.ptr).side = bookSide.toSide :=
  congrArg (·.2.1) placed

theorem price (placed : s.OrderAt bookSide limit o) : (s.order o.ptr).price = limit :=
  congrArg (·.2.2.1) placed

theorem qty (placed : s.OrderAt bookSide limit o) : (s.order o.ptr).qty = o.qty :=
  congrArg (·.2.2.2.1) placed

theorem priority (placed : s.OrderAt bookSide limit o) : (s.order o.ptr).priority = o.priority :=
  congrArg (·.2.2.2.2) placed

end OrderAt

/-- The heap of `s` holds `book`, and `spare` beside it. -/
structure Placed (L : BookLayout κ σ) (W stale : Price → Prop) (s : LevelBook κ σ)
    (book : Book κ) (spare : List Ptr) : Prop where
  levels : Levels L W stale s book.nodes
  queue : ∀ {side}, ∀ l ∈ book side, Queue s side l
  pool : s.orderPool.Holds (spare ++ book.orderPtrs)
  size : s.orderPool.size = ME_MAX_ORDER_IDS

/-- The id table of `s` leads to resting orders only, and where `exact` to all of them. -/
structure Addressed (L : BookLayout κ σ) (exact : Prop) (s : LevelBook κ σ) (book : Book κ) :
    Prop where
  slotted : ∀ o ∈ book.orders, ∃ i, L.slot o.key = .ok i
  sound : ∀ {i p}, s.oidToOrder i = some p → ∃ o ∈ book.orders, o.ptr = p ∧ L.slot o.key = .ok i
  complete : exact → ∀ o ∈ book.orders, ∀ {i}, L.slot o.key = .ok i → s.oidToOrder i = some o.ptr

/-- `s` represents `book`. -/
structure Rep (L : BookLayout κ σ) (W stale : Price → Prop) (exact : Prop) (s : LevelBook κ σ)
    (book : Book κ) : Prop where
  placed : Placed L W stale s book []
  ids : Addressed L exact s book

namespace Placed

variable {L : BookLayout κ σ} {W stale : Price → Prop} {s s' : LevelBook κ σ} {book : Book κ}
  {spare : List Ptr} {side : BookSide} {l₁ l₂ : List (RestingLevel κ)} {l : RestingLevel κ}

theorem node_mem (mem : l ∈ book side) : l.toLevelNode ∈ book.nodes side :=
  List.mem_map_of_mem mem

/-- The blocks in use, with those of one level to the front. -/
theorem perm (spare : List Ptr) (shape : book side = l₁ ++ l :: l₂) :
    (spare ++ book.orderPtrs).Perm ((spare ++ l.orders.map RestingOrder.ptr) ++
      (((l₁ ++ l₂) ++ book side.opposite).flatMap RestingLevel.orders).map RestingOrder.ptr) := by
  have moved := (Book.orders_perm shape).map RestingOrder.ptr
  rw [List.map_append] at moved
  rw [List.append_assoc]
  exact moved.append_left spare

/-- The orders of other levels lie in other blocks. -/
theorem apart (placed : Placed L W stale s book spare) (shape : book side = l₁ ++ l :: l₂)
    {m : RestingLevel κ} (mem : m ∈ (l₁ ++ l₂) ++ book side.opposite) {o : RestingOrder κ}
    (oMem : o ∈ m.orders) : o.ptr ∉ spare ++ l.orders.map RestingOrder.ptr := by
  have nodup := (perm _ shape).nodup_iff.mp placed.pool.nodup
  intro inside
  exact (List.nodup_append.mp nodup).2.2 _ inside _
    (List.mem_map_of_mem (List.mem_flatMap.mpr ⟨m, mem, oMem⟩)) rfl

theorem spare_out (placed : Placed L W stale s book spare) {p : Ptr} (mem : p ∈ spare)
    {o : RestingOrder κ} (oMem : o ∈ book.orders) : o.ptr ≠ p :=
  fun e =>
    (List.nodup_append.mp placed.pool.nodup).2.2 p mem o.ptr (List.mem_map_of_mem oMem) e.symm

theorem level_ptr_ne (placed : Placed L W stale s book spare) (shape : book side = l₁ ++ l :: l₂)
    {m : RestingLevel κ} (mem : m ∈ (l₁ ++ l₂) ++ book side.opposite) : m.ptr ≠ l.ptr := by
  have nodup := placed.levels.ptr_nodup side
  rw [Book.nodes, Book.nodes, shape] at nodup
  simp only [List.map_append, List.map_map, List.map_cons] at nodup
  rw [List.append_assoc, List.cons_append, List.nodup_middle, ← List.append_assoc] at nodup
  have image : m.ptr ∈ ((l₁ ++ l₂) ++ book side.opposite).map
      (LevelNode.ptr ∘ RestingLevel.toLevelNode) := List.mem_map_of_mem mem
  rw [List.map_append, List.map_append] at image
  exact ne_of_mem_of_not_mem image (List.nodup_cons.mp nodup).1

/-- One queue is replaced, inside the blocks that were its own or spare. -/
theorem replace (placed : Placed L W stale s book spare) (shape : book side = l₁ ++ l :: l₂)
    {orders : List (RestingOrder κ)} {spare' : List Ptr}
    (queue : Queue s' side { l with orders := orders }) (same : SameLevels s s')
    (order : ∀ x ∉ spare ++ l.orders.map RestingOrder.ptr, s'.order x = s.order x)
    (level : ∀ q, q ≠ l.ptr → (s'.level q).firstOrder = (s.level q).firstOrder)
    (blocks : (spare ++ l.orders.map RestingOrder.ptr).Perm
      (spare' ++ orders.map RestingOrder.ptr))
    (holds : ∀ {live}, s.orderPool.Holds live → s'.orderPool.Holds live)
    (size : s'.orderPool.size = s.orderPool.size) :
    Placed L W stale s'
      (Function.update book side (l₁ ++ { l with orders := orders } :: l₂)) spare' := by
  refine ⟨?_, ?_, ?_, size.trans placed.size⟩
  · rw [Book.nodes_replace shape]
    exact placed.levels.of_same same
  · have others : ∀ {side'} (m : RestingLevel κ), m ∈ book side' →
        m ∈ (l₁ ++ l₂) ++ book side.opposite → Queue s' side' m := by
      intro side' m mem other
      exact (placed.queue m mem).frame (level _ (placed.level_ptr_ne shape other))
        fun o oMem => order _ (placed.apart shape other oMem)
    intro side' m mem
    by_cases e : side' = side
    · subst e
      rw [Function.update_self] at mem
      by_cases isNew : m = { l with orders := orders }
      · subst isNew
        exact queue
      · have rest : m ∈ l₁ ++ l₂ := by
          simp only [List.mem_append, List.mem_cons, isNew, false_or] at mem ⊢
          exact mem
        refine others m ?_ (List.mem_append_left _ rest)
        rw [shape]
        simp only [List.mem_append, List.mem_cons] at rest ⊢
        tauto
    · have opp := BookSide.eq_opposite_of_ne e
      subst opp
      rw [Function.update_of_ne e] at mem
      exact others m mem (List.mem_append_right _ mem)
  · refine holds (placed.pool.perm ((perm _ shape).trans ?_))
    have after := (Book.orders_replace_perm book side l₁ l orders l₂).map RestingOrder.ptr
    rw [List.map_append] at after
    refine (blocks.append_right _).trans ?_
    rw [List.append_assoc]
    exact after.symm.append_left spare'

/-- There are no more levels than orders. -/
theorem level_room (placed : Placed L W stale s book spare) :
    (both book.nodes).length + 1 < ME_MAX_PRICE_LEVELS := by
  have filled : (both book).length ≤ book.orders.length := by
    refine Book.length_le_flatMap fun l mem => ?_
    obtain ⟨side, mem⟩ := (mem_both _).mp mem
    exact (placed.queue l mem).nonempty
  have bound := placed.pool.length_lt
  rw [placed.size, List.length_append, Book.orderPtrs, List.length_map] at bound
  rw [Book.both_nodes, List.length_map]
  have := orderIds_lt_priceLevels
  omega

end Placed

/-- `o` has joined the queue of its price, which it starts if there was none. -/
inductive Joins (side : BookSide) (price : Price) (o : RestingOrder κ) (book : Book κ) :
    Book κ → Prop
  | behind {l₁ l₂ : List (RestingLevel κ)} {l : RestingLevel κ}
      (shape : book side = l₁ ++ l :: l₂) (same : l.price = price) :
      Joins side price o book
        (Function.update book side (l₁ ++ { l with orders := l.orders ++ [o] } :: l₂))
  | alone (ptr : Ptr) (fresh : ∀ l ∈ book side, l.price ≠ price) :
      Joins side price o book (Function.update book side
        ((book side).orderedInsert (Book.Ahead side) ⟨⟨ptr, price⟩, [o]⟩))

section Attach

variable {L : BookLayout κ σ} {W stale : Price → Prop} {s : LevelBook κ σ} {book : Book κ}
  {side : BookSide} {price : Price} {o : RestingOrder κ}

/-- The order joins a level that exists. -/
theorem Placed.attach_behind (placed : Placed L W stale s book [o.ptr])
    (content : s.OrderAt side price o) {l₁ l₂ : List (RestingLevel κ)} {l : RestingLevel κ}
    (shape : book side = l₁ ++ l :: l₂) (same : l.price = price) :
    ∃ s', s.attachOrder L o.ptr = .ok s' ∧
      Placed L W stale s'
        (Function.update book side (l₁ ++ { l with orders := l.orders ++ [o] } :: l₂)) [] ∧
      s'.oidToOrder = s.oidToOrder ∧ s'.basePrice = s.basePrice := by
  have mem : l ∈ book side := by
    rw [shape]
    simp
  have queue := placed.queue l mem
  obtain ⟨first, rest, orders⟩ := List.exists_cons_of_ne_nil queue.nonempty
  have ring := queue.ring
  have firstOrder := queue.first
  rw [orders, List.map_cons] at ring firstOrder
  have fresh : o.ptr ∉ first.ptr :: rest.map RestingOrder.ptr := by
    intro inside
    rw [← List.map_cons, ← orders] at inside
    obtain ⟨o', oMem, e⟩ := List.mem_map.mp inside
    exact placed.spare_out List.mem_cons_self (Book.mem_orders.mpr ⟨side, l, mem, oMem⟩) e
  obtain ⟨s', linked, newRing, order, level, rechained⟩ := linkLast_spec ring fresh
  have found := placed.levels.getOrdersAtPrice_entry (Placed.node_mem mem)
  refine ⟨s', ?_, ?_, rechained.oidToOrder, rechained.levels.basePrice⟩
  · simp only [attachOrder, content.price, ← same, found, firstOrder, List.head?_cons, deref_some,
      bind, Except.bind]
    exact linked
  · refine placed.replace shape ⟨by simp, ?_, ?_, ?_⟩ rechained.levels ?_ ?_ ?_ rechained.holds
      rechained.size
    · rw [level, firstOrder, orders]
      simp
    · rw [orders]
      simpa using newRing
    · intro x xMem
      rw [OrderAt, rechained.content]
      rcases List.mem_append.mp xMem with old | new
      · exact queue.orders x old
      · rw [List.mem_singleton] at new
        subst new
        rw [same]
        exact content
    · intro x out
      refine order x ?_
      rw [orders] at out
      simpa using out
    · intro q _
      rw [level]
    · rw [List.map_append]
      exact List.perm_append_comm

/-- The order starts a level of its own. -/
theorem Placed.attach_alone (placed : Placed L W stale s book [o.ptr])
    (content : s.OrderAt side price o) (inside : W price) (notStale : ¬ stale price)
    (fresh : ∀ side, ∀ l ∈ book side, l.price ≠ price) :
    ∃ ptr s', s.attachOrder L o.ptr = .ok s' ∧
      Placed L W stale s' (Function.update book side
        ((book side).orderedInsert (Book.Ahead side) ⟨⟨ptr, price⟩, [o]⟩)) [] ∧
      s'.oidToOrder = s.oidToOrder ∧ s'.basePrice = s.basePrice := by
  obtain ⟨t, tEq⟩ : ∃ t, t = s.writeOrder o.ptr fun n =>
      { n with prevOrder := some o.ptr, nextOrder := some o.ptr } := ⟨_, rfl⟩
  have rechained : Rechained s t := by
    rw [tEq]
    exact Rechained.writeOrder _ _ (by intro n; rfl)
  have levelsT := placed.levels.of_same rechained.levels
  have orderT : ∀ q, q ≠ o.ptr → t.order q = s.order q := by
    intro q ne
    rw [tEq, order_writeOrder, if_neg ne]
  have contentT : t.OrderAt side price o := (rechained.content o.ptr).trans content
  have freshNode : ∀ side, ∀ n ∈ book.nodes side, n.price ≠ price := by
    intro side n mem
    obtain ⟨l, lMem, rfl⟩ := List.mem_map.mp mem
    exact fresh side l lMem
  have noEntry : s.getOrdersAtPrice L price = .ok none := by
    rw [placed.levels.getOrdersAtPrice inside, placed.levels.vacant inside notStale freshNode]
  obtain ⟨ptr, pool, s', allocated, added, levels, freshPtr, firstOrder, only⟩ :=
    levelsT.open_spec side (some o.ptr) placed.level_room inside notStale freshNode
  have orderS' : ∀ q, s'.order q = t.order q := by
    intro q
    rw [order, order, only.orderPool]
  refine ⟨ptr, s', ?_, ⟨?_, ?_, ?_, ?_⟩, only.oidToOrder.trans rechained.oidToOrder,
    only.basePrice.trans rechained.levels.basePrice⟩
  · simp only [attachOrder, content.price, noEntry, bind, Except.bind, ← tEq, contentT.side,
      contentT.price, allocated]
    exact added
  · rw [Book.nodes_update, Book.map_toLevelNode_orderedInsert]
    exact levels
  · intro side' m mem
    by_cases isNew : m = ⟨⟨ptr, price⟩, [o]⟩ ∧ side' = side
    · obtain ⟨rfl, rfl⟩ := isNew
      refine ⟨List.cons_ne_nil _ _, ?_, ?_, ?_⟩
      · rw [firstOrder, if_pos rfl]
        rfl
      · simp [OrderRing, ring_singleton, orderS', tEq]
      · intro x xMem
        rw [List.mem_singleton] at xMem
        subst xMem
        rw [OrderAt, orderS']
        exact contentT
    · have old : m ∈ book side' := by
        by_cases e : side' = side
        · subst e
          rw [Function.update_self, List.mem_orderedInsert] at mem
          exact mem.resolve_left fun h => isNew ⟨h, rfl⟩
        · rwa [Function.update_of_ne e] at mem
      refine (placed.queue m old).frame ?_ fun x xMem => ?_
      · rw [firstOrder, if_neg (freshPtr side' _ (node_mem old)), tEq]
        rfl
      · rw [orderS', orderT]
        exact placed.spare_out List.mem_cons_self (Book.mem_orders.mpr ⟨side', m, old, xMem⟩)
  · rw [only.orderPool]
    refine rechained.holds (placed.pool.perm ?_)
    have after := (Book.orders_update_perm book side
      ((book side).orderedInsert (Book.Ahead side) ⟨⟨ptr, price⟩, [o]⟩)).map RestingOrder.ptr
    have grown := (((List.perm_orderedInsert (Book.Ahead side) ⟨⟨ptr, price⟩, [o]⟩
      (book side)).append_right (book side.opposite)).flatMap_right RestingLevel.orders).map
        RestingOrder.ptr
    have whole := ((perm_both book side).flatMap_right RestingLevel.orders).map
      RestingOrder.ptr
    rw [List.cons_append, List.flatMap_cons, List.map_append] at grown
    exact (whole.append_left [o.ptr]).trans (after.trans grown).symm
  · rw [only.orderPool]
    exact rechained.size.trans placed.size

/-- An order enters the queue of its price, if the other side has none there. -/
theorem Placed.attach_spec (placed : Placed L W stale s book [o.ptr])
    (content : s.OrderAt side price o) (inside : W price) (notStale : ¬ stale price)
    (apart : ∀ l ∈ book side.opposite, l.price ≠ price) :
    ∃ s' book', s.attachOrder L o.ptr = .ok s' ∧ Placed L W stale s' book' [] ∧
      Joins side price o book book' ∧ s'.oidToOrder = s.oidToOrder ∧
      s'.basePrice = s.basePrice := by
  by_cases known : ∃ l ∈ book side, l.price = price
  · obtain ⟨l, mem, same⟩ := known
    obtain ⟨l₁, l₂, shape⟩ := List.append_of_mem mem
    obtain ⟨s', run, placed', table, base⟩ := placed.attach_behind content shape same
    exact ⟨s', _, run, placed', .behind shape same, table, base⟩
  · have fresh : ∀ l ∈ book side, l.price ≠ price := fun l mem same => known ⟨l, mem, same⟩
    have freshAll : ∀ side, ∀ l ∈ book side, l.price ≠ price := by
      intro side' l mem
      by_cases e : side' = side
      · exact fresh l (e ▸ mem)
      · exact apart l (BookSide.eq_opposite_of_ne e ▸ mem)
    obtain ⟨ptr, s', run, placed', table, base⟩ :=
      placed.attach_alone content inside notStale freshAll
    exact ⟨s', _, run, placed', .alone ptr fresh, table, base⟩

end Attach

section Detach

variable {L : BookLayout κ σ} {W stale : Price → Prop} {s : LevelBook κ σ} {book : Book κ}
  {side : BookSide} {l₁ l₂ : List (RestingLevel κ)} {l : RestingLevel κ}
  {o₁ o₂ : List (RestingOrder κ)} {o : RestingOrder κ}

/-- The last order of a level takes the level with it. -/
theorem Placed.detach_lone (placed : Placed L W stale s book [])
    (shape : book side = l₁ ++ l :: l₂) (lone : l.orders = [o]) :
    ∃ s', s.removeOrdersAtPrice L side.toSide l.price = .ok s' ∧
      Placed L W stale s' (Function.update book side (l₁ ++ l₂)) [o.ptr] ∧ OnlyLevels s s' := by
  have nodeShape : book.nodes side = l₁.map RestingLevel.toLevelNode ++
      l.toLevelNode :: l₂.map RestingLevel.toLevelNode := by
    rw [Book.nodes, shape, List.map_append, List.map_cons]
  obtain ⟨s', run, levels, firstOrder, only⟩ := placed.levels.close_spec nodeShape
  have order' : ∀ q, s'.order q = s.order q := by
    intro q
    rw [order, order, only.orderPool]
  refine ⟨s', run, ⟨?_, ?_, ?_, ?_⟩, only⟩
  · rw [Book.nodes_update, List.map_append]
    exact levels
  · intro side' m mem
    have old : m ∈ book side' := by
      by_cases e : side' = side
      · subst e
        rw [Function.update_self, List.mem_append] at mem
        rw [shape, List.mem_append, List.mem_cons]
        tauto
      · rwa [Function.update_of_ne e] at mem
    exact (placed.queue m old).frame (firstOrder _) fun x _ => order' _
  · rw [only.orderPool]
    have whole := (Book.orders_perm shape).map RestingOrder.ptr
    have after := (Book.orders_update_perm book side (l₁ ++ l₂)).map
      RestingOrder.ptr
    rw [lone, List.map_append] at whole
    exact placed.pool.perm (whole.trans (after.symm.append_left [o.ptr]))
  · rw [only.orderPool]
    exact placed.size

/-- An order leaves its queue to others. -/
theorem Placed.detach_one (placed : Placed L W stale s book [])
    (shape : book side = l₁ ++ l :: l₂) (split : l.orders = o₁ ++ o :: o₂)
    (others : o₁ ++ o₂ ≠ []) :
    ∃ s', s.unlinkOrder (some l.ptr) o.ptr = .ok s' ∧
      Placed L W stale s' (Function.update book side
        (l₁ ++ { l with orders := o₁ ++ o₂ } :: l₂)) [o.ptr] ∧ Rechained s s' := by
  have mem : l ∈ book side := by
    rw [shape]
    simp
  have queue := placed.queue l mem
  have ring := queue.ring
  have first := queue.first
  rw [split, List.map_append, List.map_cons] at ring first
  obtain ⟨s', run, newRing, newFirst, level, order, rechained⟩ :=
    unlinkOrder_spec ring (by simpa using others) first
  refine ⟨s', run, ?_, rechained⟩
  refine placed.replace shape ⟨others, ?_, ?_, ?_⟩ rechained.levels ?_ ?_ ?_ rechained.holds
    rechained.size
  · rw [newFirst, List.map_append]
  · rw [List.map_append]
    exact newRing
  · intro x xMem
    rw [OrderAt, rechained.content]
    refine queue.orders x ?_
    rw [split]
    simp only [List.mem_append, List.mem_cons] at xMem ⊢
    tauto
  · intro x out
    refine order x ?_
    rw [split] at out
    simpa using out
  · intro q ne
    rw [level q ne]
  · rw [split, List.map_append, List.map_append, List.map_cons, List.nil_append]
    exact List.perm_middle

/-- An order leaves its queue, which is gone if it was the last one in it. -/
theorem Placed.detach_spec (placed : Placed L W stale s book [])
    (shape : book side = l₁ ++ l :: l₂) (split : l.orders = o₁ ++ o :: o₂) :
    ∃ s', s.detachOrder L o.ptr = .ok s' ∧
      Placed L W stale s' (Function.update book side (Book.requeue l₁ l (o₁ ++ o₂) l₂)) [o.ptr] ∧
      (s'.order o.ptr).content = (s.order o.ptr).content ∧ s'.oidToOrder = s.oidToOrder ∧
      s'.basePrice = s.basePrice := by
  have mem : l ∈ book side := by
    rw [shape]
    simp
  have queue := placed.queue l mem
  have oMem : o ∈ l.orders := by
    rw [split]
    simp
  have content := queue.orders o oMem
  have found := placed.levels.getOrdersAtPrice_entry (node_mem mem)
  have ring := queue.ring
  rw [split, List.map_append, List.map_cons] at ring
  by_cases lone : o₁ ++ o₂ = []
  · obtain ⟨rfl, rfl⟩ := List.append_eq_nil_iff.mp lone
    have self : (s.order o.ptr).prevOrder = some o.ptr := (ring_singleton.mp ring).2
    obtain ⟨s', run, placed', only⟩ := placed.detach_lone shape split
    refine ⟨s', ?_, ?_, ?_, only.oidToOrder, only.basePrice⟩
    · simp only [detachOrder, content.price, content.side, found, bind, Except.bind, self, if_true]
      exact run
    · exact placed'
    · rw [order, order, only.orderPool]
  · have notSelf : (s.order o.ptr).prevOrder ≠ some o.ptr := by
      intro self
      have single := ring.eq_singleton_of_prev (by simp) self
      have length := congrArg List.length single
      simp only [List.length_append, List.length_map, List.length_cons, List.length_nil] at length
      exact lone (List.length_eq_zero_iff.mp (by rw [List.length_append]; omega))
    obtain ⟨s', run, placed', rechained⟩ := placed.detach_one shape split lone
    refine ⟨s', ?_, ?_, rechained.content _, rechained.oidToOrder, rechained.levels.basePrice⟩
    · simp only [detachOrder, content.price, found, bind, Except.bind, notSelf, if_false]
      exact run
    · rw [Book.requeue, if_neg lone]
      exact placed'

end Detach

/-! ## Whole operations -/

section Operations

variable {L : BookLayout κ σ} {W stale : Price → Prop} {exact : Prop}
  {s : LevelBook κ σ} {book : Book κ} {side : BookSide} {price : Price} {o : RestingOrder κ}

theorem Joins.perm {book' : Book κ} (joins : Joins side price o book book') :
    book'.orders.Perm (o :: book.orders) := by
  cases joins with
  | @behind l₁ l₂ l shape same =>
      have after := Book.orders_replace_perm book side l₁ l (l.orders ++ [o]) l₂
      rw [List.append_assoc, List.singleton_append] at after
      exact after.trans (List.perm_middle.trans ((Book.orders_perm shape).symm.cons o))
  | alone ptr fresh =>
      have after := Book.orders_update_perm book side
        ((book side).orderedInsert (Book.Ahead side) ⟨⟨ptr, price⟩, [o]⟩)
      have grown := ((List.perm_orderedInsert (Book.Ahead side) ⟨⟨ptr, price⟩, [o]⟩
        (book side)).append_right (book side.opposite)).flatMap_right RestingLevel.orders
      have whole := (perm_both book side).flatMap_right RestingLevel.orders
      rw [List.cons_append, List.flatMap_cons, List.singleton_append] at grown
      exact after.trans (grown.trans (whole.symm.cons o))

theorem Book.requeue_perm {l₁ l₂ : List (RestingLevel κ)} {l : RestingLevel κ}
    {o₁ o₂ : List (RestingOrder κ)} (shape : book side = l₁ ++ l :: l₂)
    (split : l.orders = o₁ ++ o :: o₂) : book.orders.Perm
      (o :: Book.orders (Function.update book side (Book.requeue l₁ l (o₁ ++ o₂) l₂))) := by
  have whole := Book.orders_perm shape
  rw [split, List.append_assoc, List.cons_append] at whole
  refine whole.trans (List.perm_middle.trans (.cons o ?_))
  rw [← List.append_assoc]
  by_cases lone : o₁ ++ o₂ = []
  · rw [Book.requeue, if_pos lone, lone, List.nil_append]
    exact (Book.orders_update_perm _ _ _).symm
  · rw [Book.requeue, if_neg lone]
    exact (Book.orders_replace_perm _ _ _ _ _ _).symm

theorem Placed.content {spare : List Ptr} (placed : Placed L W stale s book spare)
    (mem : o ∈ book.orders) : ∃ side, ∃ l ∈ book side, o ∈ l.orders ∧ s.OrderAt side l.price o := by
  obtain ⟨side, l, lMem, oMem⟩ := Book.mem_orders.mp mem
  exact ⟨side, l, lMem, oMem, (placed.queue l lMem).orders o oMem⟩

theorem Placed.key {spare : List Ptr} (placed : Placed L W stale s book spare)
    (mem : o ∈ book.orders) : (s.order o.ptr).key = o.key := by
  obtain ⟨_, _, _, _, content⟩ := placed.content mem
  exact content.key

theorem Addressed.add [DecidableEq σ] {s' : LevelBook κ σ} {book' : Book κ} {slot : σ}
    (ids : Addressed L exact s book) (perm : book'.orders.Perm (o :: book.orders))
    (oSlot : L.slot o.key = .ok slot)
    (fresh : exact → ∀ x ∈ book.orders, L.slot x.key ≠ .ok slot)
    (table : s'.oidToOrder = Function.update s.oidToOrder slot (some o.ptr)) :
    Addressed L exact s' book' := by
  have mem : ∀ x, x ∈ book'.orders ↔ x = o ∨ x ∈ book.orders := fun x =>
    perm.mem_iff.trans List.mem_cons
  refine ⟨fun x xMem => ?_, fun {i p} found => ?_, fun isExact x xMem i xSlot => ?_⟩
  · rcases (mem x).mp xMem with rfl | old
    · exact ⟨slot, oSlot⟩
    · exact ids.slotted x old
  · rw [table] at found
    by_cases e : i = slot
    · subst e
      rw [Function.update_self, Option.some.injEq] at found
      exact ⟨o, (mem o).mpr (.inl rfl), found, oSlot⟩
    · rw [Function.update_of_ne e] at found
      obtain ⟨x, xMem, rest⟩ := ids.sound found
      exact ⟨x, (mem x).mpr (.inr xMem), rest⟩
  · rw [table]
    rcases (mem x).mp xMem with rfl | old
    · rw [oSlot, Except.ok.injEq] at xSlot
      rw [xSlot, Function.update_self]
    · have ne : i ≠ slot := by
        rintro rfl
        exact fresh isExact x old xSlot
      rw [Function.update_of_ne ne]
      exact ids.complete isExact x old xSlot

theorem Addressed.remove [DecidableEq σ] {s' : LevelBook κ σ} {book' : Book κ} {slot : σ}
    (ids : Addressed L exact s book) (perm : book.orders.Perm (o :: book'.orders))
    (distinct : book.orderPtrs.Nodup) (oSlot : L.slot o.key = .ok slot)
    (table : s'.oidToOrder = Function.update s.oidToOrder slot none) :
    Addressed L exact s' book' := by
  have mem : ∀ x, x ∈ book.orders ↔ x = o ∨ x ∈ book'.orders := fun x =>
    perm.mem_iff.trans List.mem_cons
  refine ⟨fun x xMem => ids.slotted x ((mem x).mpr (.inr xMem)), fun {i p} found => ?_,
    fun isExact x xMem i xSlot => ?_⟩
  · rw [table] at found
    by_cases e : i = slot
    · subst e
      rw [Function.update_self] at found
      cases found
    · rw [Function.update_of_ne e] at found
      obtain ⟨x, xMem, ptr, xSlot⟩ := ids.sound found
      rcases (mem x).mp xMem with rfl | old
      · rw [oSlot, Except.ok.injEq] at xSlot
        exact (e xSlot.symm).elim
      · exact ⟨x, old, ptr, xSlot⟩
  · have there := ids.complete isExact x ((mem x).mpr (.inr xMem)) xSlot
    have ne : i ≠ slot := by
      rintro rfl
      have own := ids.complete isExact o ((mem o).mpr (.inl rfl)) oSlot
      rw [there, Option.some.injEq] at own
      have nodup := (perm.map RestingOrder.ptr).nodup_iff.mp distinct
      rw [List.map_cons, List.nodup_cons] at nodup
      exact nodup.1 (own ▸ List.mem_map_of_mem xMem)
    rw [table, Function.update_of_ne ne]
    exact there

/-- `addOrder` puts the order in its queue and its id into the table. -/
theorem Placed.addOrder_spec [DecidableEq σ] {slot : σ} (placed : Placed L W stale s book [o.ptr])
    (content : s.OrderAt side price o) (ids : Addressed L exact s book) (inside : W price)
    (notStale : ¬ stale price) (apart : ∀ l ∈ book side.opposite, l.price ≠ price)
    (oSlot : L.slot o.key = .ok slot)
    (fresh : exact → ∀ x ∈ book.orders, L.slot x.key ≠ .ok slot) :
    ∃ s' book', s.addOrder L o.ptr = .ok s' ∧ Rep L W stale exact s' book' ∧
      Joins side price o book book' ∧
      s'.oidToOrder = Function.update s.oidToOrder slot (some o.ptr) ∧
      s'.basePrice = s.basePrice := by
  obtain ⟨t, book', attached, placed', joins, table, base⟩ :=
    placed.attach_spec content inside notStale apart
  have key : (t.order o.ptr).key = o.key :=
    placed'.key (joins.perm.mem_iff.mpr List.mem_cons_self)
  have table' : (t.setOid slot (some o.ptr)).oidToOrder =
      Function.update s.oidToOrder slot (some o.ptr) := by
    rw [← table]
    rfl
  refine ⟨t.setOid slot (some o.ptr), book', ?_, ⟨?_, ?_⟩, joins, table', base⟩
  · simp only [addOrder, attached, key, oSlot, bind, Except.bind, pure, Except.pure]
  · exact ⟨placed'.levels.of_same (.of_eq rfl (fun _ => rfl) rfl rfl),
      fun l mem => (placed'.queue l mem).frame rfl fun _ _ => rfl, placed'.pool, placed'.size⟩
  · exact ids.add joins.perm oSlot fresh table'

/-- An id outside the table stops `addOrder` after the order is in its queue. -/
theorem Placed.addOrder_fault [DecidableEq σ] {f : Fault} (placed : Placed L W stale s book [o.ptr])
    (content : s.OrderAt side price o) (inside : W price) (notStale : ¬ stale price)
    (apart : ∀ l ∈ book side.opposite, l.price ≠ price) (oSlot : L.slot o.key = .error f) :
    s.addOrder L o.ptr = .error f := by
  obtain ⟨t, book', attached, placed', joins, -⟩ := placed.attach_spec content inside notStale apart
  have key : (t.order o.ptr).key = o.key :=
    placed'.key (joins.perm.mem_iff.mpr List.mem_cons_self)
  simp only [addOrder, attached, key, oSlot, bind, Except.bind]

/-- `removeOrder` takes the order out of its queue, the table and the pool. -/
theorem Rep.removeOrder_spec [DecidableEq σ] (rep : Rep L W stale exact s book)
    {l₁ l₂ : List (RestingLevel κ)} {l : RestingLevel κ} {o₁ o₂ : List (RestingOrder κ)} {slot : σ}
    (shape : book side = l₁ ++ l :: l₂) (split : l.orders = o₁ ++ o :: o₂)
    (oSlot : L.slot o.key = .ok slot) :
    ∃ s', s.removeOrder L o.ptr = .ok s' ∧
      Rep L W stale exact s' (Function.update book side (Book.requeue l₁ l (o₁ ++ o₂) l₂)) ∧
      s'.oidToOrder = Function.update s.oidToOrder slot none ∧ s'.basePrice = s.basePrice := by
  obtain ⟨t, detached, placed', content, table, base⟩ := rep.placed.detach_spec shape split
  have perm := Book.requeue_perm shape split
  have mem : o ∈ book.orders := perm.mem_iff.mpr List.mem_cons_self
  have key : (t.order o.ptr).key = o.key :=
    (congrArg (·.1) content).trans (rep.placed.key mem)
  obtain ⟨pool, freed, holds, size, get⟩ := placed'.pool.deallocate (p := o.ptr) (by simp)
  rw [List.singleton_append, List.erase_cons_head] at holds
  have table' : ({ t.setOid slot none with orderPool := pool } : LevelBook κ σ).oidToOrder =
      Function.update s.oidToOrder slot none := by
    rw [← table]
    rfl
  refine ⟨{ t.setOid slot none with orderPool := pool }, ?_, ⟨?_, ?_⟩, table', base⟩
  · have freed' : (t.setOid slot none).orderPool.deallocate o.ptr = .ok pool := freed
    simp only [removeOrder, detached, key, oSlot, bind, Except.bind, pure, Except.pure, freed']
  · refine ⟨placed'.levels.of_same (.of_eq rfl (fun _ => rfl) rfl rfl), fun m mMem => ?_, holds,
      size.trans placed'.size⟩
    exact (placed'.queue m mMem).frame rfl fun x _ => get x.ptr
  · exact rep.ids.remove perm (by simpa using rep.placed.pool.nodup) oSlot table'

/-- Where the price of the order has a table entry, `addOrder` opens no level. -/
theorem addOrder_occupied [DecidableEq σ] {p level : Ptr} {s' : LevelBook κ σ}
    (entry : s.getOrdersAtPrice L (s.order p).price = .ok (some level))
    (added : s.addOrder L p = .ok s') :
    s'.ordersAtPricePool = s.ordersAtPricePool ∧ ∀ side, s'.best side = s.best side := by
  simp only [addOrder, attachOrder, entry, linkLast, bind, Except.bind, pure, Except.pure] at added
  cases first : (s.level level).firstOrder with
  | none => simp [first] at added
  | some a =>
      cases last : (s.order a).prevOrder with
      | none => simp [first, last] at added
      | some b =>
          simp only [first, last, deref_some] at added
          split at added
          · cases added
          · cases added
            exact ⟨rfl, fun _ => rfl⟩

/-- An order outside the window is refused. -/
theorem addOrder_inside [DecidableEq σ] {p : Ptr} {s' : LevelBook κ σ}
    (added : s.addOrder L p = .ok s') : L.inWindow s.basePrice (s.order p).price = true := by
  by_contra outside
  rw [addOrder, attachOrder, getOrdersAtPrice_of_outside (Bool.eq_false_of_not_eq_true outside)]
    at added
  cases added

/-! ## Quantities, priorities, new orders -/

/-- The table only looks at the blocks and the ids of the orders. -/
theorem Addressed.same_ids {s' : LevelBook κ σ} {book' : Book κ} (ids : Addressed L exact s book)
    (perm : (book.orders.map fun x => (x.ptr, x.key)).Perm
      (book'.orders.map fun x => (x.ptr, x.key)))
    (table : s'.oidToOrder = s.oidToOrder) : Addressed L exact s' book' := by
  have old : ∀ x ∈ book'.orders, ∃ y ∈ book.orders, y.ptr = x.ptr ∧ y.key = x.key := by
    intro x mem
    obtain ⟨y, yMem, e⟩ := List.mem_map.mp (perm.mem_iff.mpr (List.mem_map_of_mem mem))
    rw [Prod.mk.injEq] at e
    exact ⟨y, yMem, e⟩
  refine ⟨fun x mem => ?_, fun {i p} found => ?_, fun isExact x mem i xSlot => ?_⟩
  · obtain ⟨y, yMem, _, key⟩ := old x mem
    rw [← key]
    exact ids.slotted y yMem
  · rw [table] at found
    obtain ⟨y, yMem, ptr, ySlot⟩ := ids.sound found
    obtain ⟨x, xMem, e⟩ := List.mem_map.mp (perm.mem_iff.mp (List.mem_map_of_mem yMem))
    rw [Prod.mk.injEq] at e
    exact ⟨x, xMem, e.1.trans ptr, by rw [e.2]; exact ySlot⟩
  · obtain ⟨y, yMem, ptr, key⟩ := old x mem
    rw [table, ← ptr]
    exact ids.complete isExact y yMem (by rw [key]; exact xSlot)

/-- A fill or a MODIFY: one order gets another quantity. -/
theorem Rep.setQty_spec (rep : Rep L W stale exact s book) {l₁ l₂ : List (RestingLevel κ)}
    {l : RestingLevel κ} {o₁ o₂ : List (RestingOrder κ)} (shape : book side = l₁ ++ l :: l₂)
    (split : l.orders = o₁ ++ o :: o₂) (qty : Qty) :
    Rep L W stale exact (s.writeOrder o.ptr fun n => { n with qty := qty })
      (Function.update book side
        (l₁ ++ { l with orders := o₁ ++ { o with qty := qty } :: o₂ } :: l₂)) := by
  have mem : l ∈ book side := by
    rw [shape]
    simp
  have queue := rep.placed.queue l mem
  have oMem : o ∈ l.orders := by
    rw [split]
    simp
  have ptrs : l.orders.map RestingOrder.ptr =
      (o₁ ++ { o with qty := qty } :: o₂).map RestingOrder.ptr := by
    rw [split]
    simp
  have links : ∀ q, ((s.writeOrder o.ptr fun n => { n with qty := qty }).order q).nextOrder =
        (s.order q).nextOrder ∧
      ((s.writeOrder o.ptr fun n => { n with qty := qty }).order q).prevOrder =
        (s.order q).prevOrder := by
    intro q
    by_cases e : q = o.ptr
    · subst e
      simp
    · simp [e]
  have placed : Placed L W stale (s.writeOrder o.ptr fun n => { n with qty := qty })
      (Function.update book side
        (l₁ ++ { l with orders := o₁ ++ { o with qty := qty } :: o₂ } :: l₂)) [] := by
    refine rep.placed.replace shape ⟨by simp, ?_, ?_, ?_⟩ (.of_eq rfl (fun _ => rfl) rfl rfl)
      ?_ (fun _ _ => rfl) ?_ (fun h => h.modify o.ptr fun n => { n with qty := qty }) rfl
    · rw [← ptrs]
      exact queue.first
    · rw [← ptrs]
      exact Ring.frame queue.ring (fun x _ => (links x).1) (fun x _ => (links x).2)
    · intro x xMem
      have others : ∀ y ∈ o₁ ++ o₂, y.ptr ≠ o.ptr := by
        intro y yMem
        have nodup := queue.ring.nodup
        rw [split, List.map_append, List.map_cons, List.nodup_middle, ← List.map_append] at nodup
        exact ne_of_mem_of_not_mem (List.mem_map_of_mem yMem) (List.nodup_cons.mp nodup).1
      have old : ∀ y ∈ o₁ ++ o₂, OrderAt (s.writeOrder o.ptr fun n => { n with qty := qty }) side
          l.price y := by
        intro y yMem
        rw [OrderAt, order_writeOrder, if_neg (others y yMem)]
        refine queue.orders y ?_
        rw [split]
        simp only [List.mem_append, List.mem_cons] at yMem ⊢
        tauto
      rcases List.mem_append.mp xMem with left | right
      · exact old x (List.mem_append_left _ left)
      · rcases List.mem_cons.mp right with rfl | right
        · have content := queue.orders o oMem
          rw [OrderAt, order_writeOrder, if_pos rfl]
          simp only [Order.content, content.key, content.side, content.price, content.priority]
        · exact old x (List.mem_append_right _ right)
    · intro x out
      rw [order_writeOrder, if_neg]
      rintro rfl
      exact out (by simpa using List.mem_map_of_mem (f := RestingOrder.ptr) oMem)
    · rw [ptrs]
  refine ⟨placed, rep.ids.same_ids ?_ rfl⟩
  have before := (Book.orders_perm shape).map fun x => (x.ptr, x.key)
  have after := (Book.orders_replace_perm book side l₁ l (o₁ ++ { o with qty := qty } :: o₂) l₂).map
    fun x => (x.ptr, x.key)
  rw [split] at before
  simp only [List.map_append, List.map_cons] at before after
  exact before.trans after.symm

theorem Rep.getNextPriority_spec (rep : Rep L W stale exact s book) {l : RestingLevel κ}
    {last : RestingOrder κ} {rest : List (RestingOrder κ)} (mem : l ∈ book side)
    (split : l.orders = rest ++ [last]) :
    s.getNextPriority L l.price = .ok ((last.priority + 1) % 2 ^ 64) := by
  have queue := rep.placed.queue l mem
  obtain ⟨first, tail, orders⟩ := List.exists_cons_of_ne_nil queue.nonempty
  have ring := queue.ring
  have firstOrder := queue.first
  have content := queue.orders last (by rw [split]; simp)
  rw [orders, List.map_cons] at ring firstOrder
  have prev : (s.order first.ptr).prevOrder = some last.ptr := by
    have isLast : (first.ptr :: tail.map RestingOrder.ptr).getLast? = some last.ptr := by
      rw [← List.map_cons, ← orders, split, List.map_append]
      simp
    rw [← isLast, List.getLast?_eq_some_getLast (List.cons_ne_nil _ _)]
    exact ring.prev_head
  simp only [getNextPriority, rep.placed.levels.getOrdersAtPrice_entry (Placed.node_mem mem),
    firstOrder, List.head?_cons, deref_some, prev, content.priority, bind, Except.bind, pure,
    Except.pure]

theorem Rep.getNextPriority_new (rep : Rep L W stale exact s book) (inside : W price)
    (notStale : ¬ stale price) (fresh : ∀ side, ∀ l ∈ book side, l.price ≠ price) :
    s.getNextPriority L price = .ok 1 := by
  have freshNode : ∀ side, ∀ n ∈ book.nodes side, n.price ≠ price := by
    intro side n mem
    obtain ⟨l, lMem, rfl⟩ := List.mem_map.mp mem
    exact fresh side l lMem
  simp only [getNextPriority, rep.placed.levels.getOrdersAtPrice inside,
    rep.placed.levels.vacant inside notStale freshNode, bind, Except.bind, pure, Except.pure]

/-- An allocation in the order pool: the new block is spare. -/
theorem Rep.allocate_spec (rep : Rep L W stale exact s book)
    (room : book.orders.length + 1 < ME_MAX_ORDER_IDS) (t : Order κ) :
    ∃ ptr pool, s.orderPool.allocate t = .ok (ptr, pool) ∧
      Placed L W stale { s with orderPool := pool } book [ptr] ∧ pool.get ptr = t := by
  obtain ⟨ptr, pool, run, fresh, holds, size, get⟩ :=
    rep.placed.pool.allocate (by
      rw [List.nil_append, Book.orderPtrs, List.length_map, rep.placed.size]
      exact room) t
  refine ⟨ptr, pool, run, ⟨rep.placed.levels.of_same (.of_eq rfl (fun _ => rfl) rfl rfl), ?_, holds,
    size.trans rep.placed.size⟩, (get ptr).trans (if_pos rfl)⟩
  intro side l mem
  refine (rep.placed.queue l mem).frame rfl fun o oMem => (get o.ptr).trans (if_neg ?_)
  rintro rfl
  exact fresh (List.mem_map_of_mem (Book.mem_orders.mpr ⟨side, l, mem, oMem⟩))

theorem Rep.allocate_full (rep : Rep L W stale exact s book)
    (full : ME_MAX_ORDER_IDS ≤ book.orders.length + 1) (t : Order κ) :
    s.orderPool.allocate t = .error .outOfSpace :=
  rep.placed.pool.allocate_last (by
    rw [List.nil_append, Book.orderPtrs, List.length_map, rep.placed.size]
    exact full) t

/-- A book in which nothing rests. -/
theorem Rep.empty (admits : L.Admits s.basePrice W)
    (heads : ∀ side : BookSide, s.best side.toSide = none)
    (vacant : ∀ {p}, W p → ¬ stale p → s.priceOrdersAtPrice (L.index s.basePrice p) = none)
    (staleEntry : ∀ {p}, stale p → W p ∧ s.priceOrdersAtPrice (L.index s.basePrice p) ≠ none)
    (noLevel : s.ordersAtPricePool.Holds [])
    (levels : s.ordersAtPricePool.size = ME_MAX_PRICE_LEVELS)
    (noOrder : s.orderPool.Holds []) (size : s.orderPool.size = ME_MAX_ORDER_IDS)
    (noId : ∀ i, s.oidToOrder i = none) : Rep L W stale exact s fun _ => [] := by
  refine ⟨⟨⟨admits, heads, fun _ => Ring.nil, ?_, ?_, fun _ => .nil, ?_, ?_, ?_,
    fun inside notStale _ => vacant inside notStale, ?_, noLevel, levels⟩, ?_, noOrder, size⟩,
    ?_, ?_, ?_⟩
  · intro side n mem
    cases mem
  · intro side n mem
    cases mem
  · intro a mem
    cases mem
  · intro side n mem
    cases mem
  · intro side n mem
    cases mem
  · intro p isStale
    refine ⟨(staleEntry isStale).1, ?_, (staleEntry isStale).2⟩
    intro side n mem
    cases mem
  · intro side l mem
    cases mem
  · intro o mem
    cases mem
  · intro i p found
    rw [noId] at found
    cases found
  · intro _ o mem
    cases mem

/-- A new book. -/
theorem Rep.new (noKey : κ) (basePrice : Price) (admits : L.Admits basePrice W)
    (notStale : ∀ p, ¬ stale p) :
    Rep L W stale exact (LevelBook.new noKey basePrice) fun _ => [] := by
  refine Rep.empty admits ?_ (fun _ _ => rfl) ?_ (MemPool.holds_new _ (by decide)) rfl
    (MemPool.holds_new _ (by decide)) rfl fun _ => rfl
  · intro side
    cases side <;> rfl
  · intro p isStale
    exact (notStale p isStale).elim

/-! ## Reading -/

theorem Rep.levelOrders_eq (rep : Rep L W stale exact s book) {l : RestingLevel κ}
    (mem : l ∈ book side) : s.levelOrders l.ptr = l.orders.map RestingOrder.ptr := by
  have queue := rep.placed.queue l mem
  obtain ⟨first, rest, orders⟩ := List.exists_cons_of_ne_nil queue.nonempty
  have ring := queue.ring
  have firstOrder := queue.first
  rw [orders, List.map_cons] at ring firstOrder
  have bound : (rest.map RestingOrder.ptr).length < s.orderPool.size := by
    have whole := rep.placed.pool.length_lt
    obtain ⟨l₁, l₂, shape⟩ := List.append_of_mem mem
    have count := (Placed.perm [] shape).length_eq
    rw [orders, List.map_cons] at count
    simp only [List.nil_append, List.length_append, List.length_cons] at whole count ⊢
    omega
  rw [levelOrders, firstOrder, orders, List.map_cons]
  exact ring.walk_eq bound

theorem Rep.sideLevels_eq (rep : Rep L W stale exact s book) (side : BookSide) :
    s.sideLevels side.toSide = (book side).map fun l => l.ptr := by
  have head := rep.placed.levels.head side
  have ring := rep.placed.levels.ring side
  have nodes : (book.nodes side).map LevelNode.ptr = (book side).map fun l => l.ptr := by
    rw [Book.nodes, List.map_map]
    rfl
  rw [nodes] at head ring
  rw [sideLevels, head]
  cases shape : book side with
  | nil => rfl
  | cons l rest =>
      rw [shape, List.map_cons] at ring
      refine ring.walk_eq ?_
      have room := rep.placed.level_room
      have count := (perm_both book.nodes side).length_eq
      rw [Book.nodes, Book.nodes, shape] at count
      simp only [List.length_append, List.length_map, List.length_cons] at count ⊢
      rw [rep.placed.levels.size]
      change (both book.nodes).length = _ at count
      omega

/-- The walks read the book back. -/
theorem Rep.sideQueues_eq (rep : Rep L W stale exact s book) (side : BookSide) :
    s.sideQueues side.toSide = (book side).map fun l =>
      (l.price, l.orders.map fun o => (o.key, side.toSide, l.price, o.qty, o.priority)) := by
  rw [sideQueues, rep.sideLevels_eq, List.map_map]
  refine List.map_congr_left fun l mem => ?_
  have queue := rep.placed.queue l mem
  have price : (s.level l.ptr).price = l.price :=
    rep.placed.levels.price l.toLevelNode (Placed.node_mem mem)
  simp only [Function.comp_apply, price, rep.levelOrders_eq mem, List.map_map, Prod.mk.injEq,
    true_and]
  exact List.map_congr_left fun o oMem => queue.orders o oMem

end Operations

end LevelBook

end NanoTrade
