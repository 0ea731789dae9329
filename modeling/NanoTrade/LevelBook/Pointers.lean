import NanoTrade.Ends
import NanoTrade.LevelBook.Queues

/-!
# Where the pointers of a book lead

Whatever the links of a book form, its operations only pass pointers to orders on. If all of
them lead to blocks with some property (`Leads`), they still do so afterwards, and no id is
written but that of a new order. With ids that have a place in the id table, no operation
subscripts it out of range.

Nothing here takes the book to be well-formed.
-/

namespace NanoTrade

/-- A fault other than a subscript outside its table. -/
def Fault.Elsewhere (f : Fault) : Prop :=
  ∀ i, f ≠ .outOfRange i

variable {κ σ : Type}

/-! ## Tables -/

section Tables

variable {ι ν : Type} [DecidableEq ι] {table : ι → Option ν} {i j : ι} {a b : ν}

theorem erase_eq_some : Function.update table i none j = some a ↔ j ≠ i ∧ table j = some a := by
  rcases eq_or_ne j i with rfl | other
  · rw [Function.update_self]
    constructor
    · intro entry
      cases entry
    · rintro ⟨ne, -⟩
      exact absurd rfl ne
  · rw [Function.update_of_ne other]
    exact (and_iff_right other).symm

theorem enter_eq_some :
    Function.update table i (some a) j = some b ↔ j = i ∧ a = b ∨ j ≠ i ∧ table j = some b := by
  rcases eq_or_ne j i with rfl | other
  · rw [Function.update_self]
    constructor
    · intro entry
      exact .inl ⟨rfl, Option.some.inj entry⟩
    · rintro (⟨-, rfl⟩ | ⟨ne, -⟩)
      · rfl
      · exact absurd rfl ne
  · rw [Function.update_of_ne other]
    constructor
    · intro entry
      exact .inr ⟨other, entry⟩
    · rintro (⟨rfl, -⟩ | ⟨-, entry⟩)
      · exact absurd rfl other
      · exact entry

end Tables

namespace LevelBook

/-- Every pointer to an order leads into `G`. -/
structure Leads (G : Ptr → Prop) (s : LevelBook κ σ) : Prop where
  first : ∀ l p, (s.level l).firstOrder = some p → G p
  prev : ∀ q p, (s.order q).prevOrder = some p → G p
  next : ∀ q p, (s.order q).nextOrder = some p → G p
  table : ∀ slot p, s.oidToOrder slot = some p → G p

/-- The pointers of `s'` lead into `G`, and its orders have the ids they had in `s`. -/
structure Follows (G : Ptr → Prop) (s s' : LevelBook κ σ) : Prop where
  leads : Leads G s'
  key : ∀ p, (s'.order p).key = (s.order p).key

/-- Of what `s` had, only links have changed. -/
structure Moved (G : Ptr → Prop) (s s' : LevelBook κ σ) : Prop extends Follows G s s' where
  table : s'.oidToOrder = s.oidToOrder
  isFree : ∀ p, (s'.orderPool.store p).isFree = (s.orderPool.store p).isFree

theorem Leads.new (G : Ptr → Prop) (noKey : κ) (basePrice : Price) :
    Leads G (LevelBook.new noKey basePrice : LevelBook κ σ) := by
  refine ⟨?_, ?_, ?_, ?_⟩
  · intro l p pointer
    cases pointer
  · intro q p pointer
    cases pointer
  · intro q p pointer
    cases pointer
  · intro slot p pointer
    cases pointer

theorem Leads.mono {G H : Ptr → Prop} {s : LevelBook κ σ} (leads : Leads G s)
    (wider : ∀ p, G p → H p) : Leads H s :=
  ⟨fun l p pointer => wider p (leads.first l p pointer),
    fun q p pointer => wider p (leads.prev q p pointer),
    fun q p pointer => wider p (leads.next q p pointer),
    fun slot p pointer => wider p (leads.table slot p pointer)⟩

section Steps

variable {G : Ptr → Prop} {s s' s'' : LevelBook κ σ}

theorem Follows.trans (first : Follows G s s') (second : Follows G s' s'') : Follows G s s'' :=
  ⟨second.leads, fun p => (second.key p).trans (first.key p)⟩

theorem Moved.trans (first : Moved G s s') (second : Moved G s' s'') : Moved G s s'' :=
  ⟨first.toFollows.trans second.toFollows, second.table.trans first.table,
    fun p => (second.isFree p).trans (first.isFree p)⟩

/-- Links of levels do not lead to orders. -/
theorem Leads.of_relinked (leads : Leads G s) (relinked : Relinked s s') : Moved G s s' := by
  have order : ∀ p, s'.order p = s.order p := fun p => by
    rw [LevelBook.order, relinked.orderPool]
    rfl
  refine ⟨⟨⟨fun l p pointer => ?_, fun q p pointer => ?_, fun q p pointer => ?_,
    fun slot p pointer => ?_⟩, fun p => by rw [order]⟩, relinked.oidToOrder,
    fun p => by rw [relinked.orderPool]⟩
  · rw [relinked.firstOrder] at pointer
    exact leads.first l p pointer
  · rw [order] at pointer
    exact leads.prev q p pointer
  · rw [order] at pointer
    exact leads.next q p pointer
  · rw [relinked.oidToOrder] at pointer
    exact leads.table slot p pointer

/-- Writing links of an order. -/
theorem Leads.writeOrder (leads : Leads G s) (p : Ptr) {f : Order κ → Order κ}
    (key : ∀ n, (f n).key = n.key)
    (prev : ∀ q, (f (s.order p)).prevOrder = some q → G q)
    (next : ∀ q, (f (s.order p)).nextOrder = some q → G q) :
    Moved G s (s.writeOrder p f) := by
  refine ⟨⟨⟨leads.first, fun q o pointer => ?_, fun q o pointer => ?_, leads.table⟩,
    fun q => ?_⟩, rfl, fun q => MemPool.isFree_modify _ _ _ _⟩
  · rw [order_writeOrder] at pointer
    split at pointer
    · exact prev o pointer
    · exact leads.prev q o pointer
  · rw [order_writeOrder] at pointer
    split at pointer
    · exact next o pointer
    · exact leads.next q o pointer
  · rw [order_writeOrder]
    split
    · rename_i same
      rw [key, same]
    · rfl

theorem Leads.writeFirst (leads : Leads G s) (l : Ptr) {first : Option Ptr}
    (good : ∀ q, first = some q → G q) :
    Moved G s (s.writeLevel l fun n => { n with firstOrder := first }) := by
  refine ⟨⟨⟨fun l' p pointer => ?_, leads.prev, leads.next, leads.table⟩, fun _ => rfl⟩, rfl,
    fun _ => rfl⟩
  rw [level_writeLevel] at pointer
  split at pointer
  · exact good p pointer
  · exact leads.first l' p pointer

theorem Leads.setOid [DecidableEq σ] (leads : Leads G s) (slot : σ) {entry : Option Ptr}
    (good : ∀ q, entry = some q → G q) : Follows G s (s.setOid slot entry) := by
  refine ⟨⟨leads.first, leads.prev, leads.next, fun slot' p pointer => ?_⟩, fun _ => rfl⟩
  have entered : Function.update s.oidToOrder slot entry slot' = Option.some p := pointer
  rcases eq_or_ne slot' slot with rfl | ne
  · rw [Function.update_self] at entered
    exact good p entered
  · rw [Function.update_of_ne ne] at entered
    exact leads.table slot' p entered

end Steps

section Operations

variable {G : Ptr → Prop} {s : LevelBook κ σ} (L : BookLayout κ σ)

theorem ends_deref {α : Type} {p : Option α} {Q : α → Prop} (good : ∀ a, p = some a → Q a) :
    Ends Fault.Elsewhere (deref p) Q := by
  cases p with
  | none => exact Ends.error fun i => by simp
  | some a => exact Ends.ok (good a rfl)

theorem ends_priceToIndex (basePrice price : Price) :
    Ends Fault.Elsewhere (L.priceToIndex basePrice price) fun _ => True := by
  unfold BookLayout.priceToIndex
  split
  · exact Ends.ok trivial
  · exact Ends.error fun i => by simp

theorem ends_getOrdersAtPrice (s : LevelBook κ σ) (price : Price) :
    Ends Fault.Elsewhere (s.getOrdersAtPrice L price) fun _ => True :=
  (ends_priceToIndex L s.basePrice price).bind fun _ _ => Ends.pure trivial

theorem ends_deallocate {α : Type} (pool : MemPool α) (p : Ptr) :
    Ends Fault.Elsewhere (pool.deallocate p) fun pool' => ∀ q, pool'.get q = pool.get q := by
  unfold MemPool.deallocate
  split
  · exact Ends.error fun i => by simp
  · split
    · exact Ends.error fun i => by simp
    · refine Ends.ok fun q => ?_
      simp only [MemPool.get]
      rcases eq_or_ne q p with rfl | ne
      · rw [Function.update_self]
      · rw [Function.update_of_ne ne]

theorem ends_findFree {α : Type} (pool : MemPool α) (initial fuel index : Nat) :
    Ends Fault.Elsewhere (pool.findFree initial fuel index) fun _ => True := by
  induction fuel generalizing index with
  | zero => exact Ends.error fun i => by simp
  | succ fuel ih =>
      unfold MemPool.findFree
      simp only
      generalize (if index + 1 = pool.size then 0 else index + 1) = next
      split
      · exact Ends.ok trivial
      · split
        · exact Ends.error fun i => by simp
        · exact ih next

theorem ends_allocate {α : Type} (pool : MemPool α) (t : α) :
    Ends Fault.Elsewhere (pool.allocate t) fun result =>
      result.1 = pool.nextFreeIndex ∧
        ∀ q, result.2.get q = if q = result.1 then t else pool.get q := by
  unfold MemPool.allocate
  simp only
  split
  · unfold MemPool.updateNextFreeIndex
    refine Ends.bind (Q := fun pool' : MemPool α =>
      ∀ q, pool'.get q = if q = pool.nextFreeIndex then t else pool.get q) ?_ ?_
    · refine (ends_findFree _ _ _ _).bind fun index _ => Ends.pure fun q => ?_
      exact MemPool.get_place pool t q
    · intro pool' found
      exact Ends.pure ⟨rfl, found⟩
  · exact Ends.error fun i => by simp

/-! ### Levels -/

theorem ends_linkAfter (new target : Ptr) :
    Ends Fault.Elsewhere (s.linkAfter new target) (Relinked s) := by
  unfold linkAfter
  refine (ends_deref fun _ _ => trivial).bind fun after _ => Ends.pure ?_
  exact (((Relinked.writeLevel _ _ (by simp)).trans (Relinked.writeLevel _ _ (by simp))).trans
    (Relinked.writeLevel _ _ (by simp))).trans (Relinked.writeLevel _ _ (by simp))

theorem ends_linkBefore (new target : Ptr) :
    Ends Fault.Elsewhere (s.linkBefore new target) (Relinked s) := by
  unfold linkBefore
  refine (ends_deref fun _ _ => trivial).bind fun before _ => Ends.pure ?_
  exact (((Relinked.writeLevel _ _ (by simp)).trans (Relinked.writeLevel _ _ (by simp))).trans
    (Relinked.writeLevel _ _ (by simp))).trans (Relinked.writeLevel _ _ (by simp))

theorem ends_scanLevels (new best : Ptr) (fuel : Nat) (addAfter : Bool) (target : Ptr) :
    Ends Fault.Elsewhere (s.scanLevels new best fuel addAfter target) fun _ => True := by
  induction fuel generalizing addAfter target with
  | zero => exact Ends.error fun i => by simp
  | succ fuel ih =>
      unfold scanLevels
      split
      · split
        · exact (ends_deref fun _ _ => trivial).bind fun target _ => ih true target
        · exact ih false target
      · exact Ends.ok trivial

theorem ends_findTarget (new best : Ptr) :
    Ends Fault.Elsewhere (s.findTarget new best) fun _ => True := by
  unfold findTarget
  split
  · exact (ends_deref fun _ _ => trivial).bind fun target _ => ends_scanLevels ..
  · exact ends_scanLevels ..

theorem ends_spliceLevel (new best : Ptr) :
    Ends Fault.Elsewhere (s.spliceLevel new best) (Relinked s) := by
  unfold spliceLevel
  refine (ends_findTarget new best).bind fun result _ => ?_
  obtain ⟨addAfter, target⟩ := result
  simp only
  split
  · split
    · exact (ends_deref fun _ _ => trivial).bind fun target _ => ends_linkAfter new target
    · exact ends_linkAfter new target
  · refine (ends_linkBefore new target).bind fun t relinked => Ends.pure ?_
    split
    · exact (relinked.trans (Relinked.writeLevel _ _ (by simp))).trans (Relinked.setBest _ _ _)
    · exact relinked

theorem ends_addOrdersAtPrice (leads : Leads G s) (new : Ptr) :
    Ends Fault.Elsewhere (s.addOrdersAtPrice L new) (Moved G s) := by
  unfold addOrdersAtPrice
  refine (ends_priceToIndex L s.basePrice (s.level new).price).bind fun index _ => ?_
  have slotted : Moved G s (s.setSlot index (some new)) :=
    ⟨⟨⟨leads.first, leads.prev, leads.next, leads.table⟩, fun _ => rfl⟩, rfl, fun _ => rfl⟩
  have alone : Moved G s ((s.setSlot index (some new)).linkAlone new) :=
    slotted.trans (slotted.leads.of_relinked
      ((Relinked.setBest _ _ _).trans (Relinked.writeLevel _ _ (by simp))))
  simp only
  split
  · exact Ends.pure alone
  · split
    · exact Ends.pure alone
    · exact (ends_spliceLevel new _).imp fun t relinked =>
        slotted.trans (slotted.leads.of_relinked relinked)

theorem ends_unlinkLevel (side : Side) (level : Ptr) :
    Ends Fault.Elsewhere (s.unlinkLevel side level) (Relinked s) := by
  unfold unlinkLevel
  refine (ends_deref fun _ _ => trivial).bind fun before _ => ?_
  refine (ends_deref fun _ _ => trivial).bind fun after _ => Ends.pure ?_
  have unlinked : Relinked s
      ((s.writeLevel before fun n => { n with nextEntry := (s.level level).nextEntry }).writeLevel
        after fun n =>
          { n with
            prevEntry := ((s.writeLevel before fun n =>
              { n with nextEntry := (s.level level).nextEntry }).level level).prevEntry }) :=
    (Relinked.writeLevel _ _ (by simp)).trans (Relinked.writeLevel _ _ (by simp))
  split
  · exact unlinked.trans (Relinked.setBest _ _ _)
  · exact unlinked

theorem ends_detachLevel (side : Side) (level : Ptr) :
    Ends Fault.Elsewhere (s.detachLevel side level) (Relinked s) := by
  unfold detachLevel
  split
  · exact Ends.ok (Relinked.setBest _ _ _)
  · exact ends_unlinkLevel side level

theorem ends_removeOrdersAtPrice (leads : Leads G s) (side : Side) (price : Price) :
    Ends Fault.Elsewhere (s.removeOrdersAtPrice L side price) (Moved G s) := by
  unfold removeOrdersAtPrice
  refine (ends_getOrdersAtPrice L s price).bind fun entry _ => ?_
  refine (ends_deref fun _ _ => trivial).bind fun level _ => ?_
  refine (ends_detachLevel side level).bind fun t relinked => ?_
  have detached : Moved G s (if L.nullsLoneLinks || !decide ((s.level level).nextEntry = some level)
      then t.writeLevel level fun n => { n with prevEntry := none, nextEntry := none } else t) := by
    split
    · exact leads.of_relinked (relinked.trans (Relinked.writeLevel _ _ (by simp)))
    · exact leads.of_relinked relinked
  refine (ends_priceToIndex L _ price).bind fun index _ => ?_
  refine (ends_deallocate _ level).bind fun pool same => Ends.pure ?_
  refine ⟨⟨⟨fun l p pointer => ?_, detached.leads.prev, detached.leads.next, detached.leads.table⟩,
    detached.key⟩, detached.table, detached.isFree⟩
  refine detached.leads.first l p ?_
  rw [← pointer]
  exact congrArg OrdersAtPrice.firstOrder (same l).symm

/-! ### Orders -/

theorem ends_unlinkOrder (leads : Leads G s) (ordersAtPrice : Option Ptr) (order : Ptr) :
    Ends Fault.Elsewhere (s.unlinkOrder ordersAtPrice order) (Moved G s) := by
  unfold unlinkOrder
  refine (ends_deref fun _ _ => trivial).bind fun before _ => ?_
  refine (ends_deref fun _ _ => trivial).bind fun after _ => ?_
  refine (ends_deref fun _ _ => trivial).bind fun level _ => Ends.pure ?_
  have first := leads.writeOrder before (f := fun n =>
    { n with nextOrder := (s.order order).nextOrder }) (fun _ => rfl) (leads.prev before)
    (leads.next order)
  have second := first.trans (first.leads.writeOrder after (f := fun n =>
    { n with prevOrder := (s.order order).prevOrder }) (fun _ => rfl) (leads.prev order)
    (first.leads.next after))
  have third : Moved G s (if (((s.writeOrder before fun n =>
      { n with nextOrder := (s.order order).nextOrder }).writeOrder after fun n =>
        { n with prevOrder := (s.order order).prevOrder }).level level).firstOrder = some order then
      (((s.writeOrder before fun n =>
        { n with nextOrder := (s.order order).nextOrder }).writeOrder after fun n =>
          { n with prevOrder := (s.order order).prevOrder }).writeLevel level fun n =>
            { n with firstOrder := (s.order order).nextOrder })
      else ((s.writeOrder before fun n =>
        { n with nextOrder := (s.order order).nextOrder }).writeOrder after fun n =>
          { n with prevOrder := (s.order order).prevOrder })) := by
    split
    · exact second.trans (second.leads.writeFirst level (leads.next order))
    · exact second
  exact third.trans (third.leads.writeOrder order (fun _ => rfl) (fun _ pointer => nomatch pointer)
    (fun _ pointer => nomatch pointer))

theorem ends_detachOrder (leads : Leads G s) (order : Ptr) :
    Ends Fault.Elsewhere (s.detachOrder L order) (Moved G s) := by
  unfold detachOrder
  refine (ends_getOrdersAtPrice L s _).bind fun ordersAtPrice _ => ?_
  split
  · exact ends_removeOrdersAtPrice L leads _ _
  · exact ends_unlinkOrder leads ordersAtPrice order

/-- Removing an order whose id has a place in the table. -/
theorem ends_removeOrder [DecidableEq σ] (leads : Leads G s) {order : Ptr} {slot : σ}
    (known : L.slot (s.order order).key = .ok slot) :
    Ends Fault.Elsewhere (s.removeOrder L order) fun t => Follows G s t ∧
      t.oidToOrder = Function.update s.oidToOrder slot none ∧
        ∀ p, (t.orderPool.store p).isFree =
          if p = order then true else (s.orderPool.store p).isFree := by
  unfold removeOrder
  refine (ends_detachOrder L leads order).bind fun t detached => ?_
  rw [detached.key, known]
  have vacant : ∀ q, (none : Option Ptr) = some q → G q := fun _ pointer => nomatch pointer
  have freed := detached.toFollows.trans (detached.leads.setOid slot vacant)
  refine Ends.bind (Ends.ok rfl) fun slot' same => ?_
  subst same
  refine (ends_deallocate _ order).bind_of_eq fun pool returned same => Ends.pure ?_
  have read : ∀ q, pool.get q = (t.setOid slot none).order q := same
  refine ⟨⟨⟨freed.leads.first, fun q p pointer => ?_, fun q p pointer => ?_, freed.leads.table⟩,
    fun p => (congrArg Order.key (read p)).trans (freed.key p)⟩, ?_, fun p => ?_⟩
  · exact freed.leads.prev q p ((congrArg Order.prevOrder (read q)).symm.trans pointer)
  · exact freed.leads.next q p ((congrArg Order.nextOrder (read q)).symm.trans pointer)
  · exact congrArg (Function.update · slot none) detached.table
  · refine (MemPool.deallocate_isFree returned p).trans ?_
    split
    · rfl
    · exact detached.isFree p

theorem ends_linkLast (leads : Leads G s) {first order : Ptr} (goodFirst : G first)
    (good : G order) : Ends Fault.Elsewhere (s.linkLast first order) (Moved G s) := by
  unfold linkLast
  refine (ends_deref fun _ _ => trivial).bind fun last _ => Ends.pure ?_
  have one := leads.writeOrder last (f := fun n => { n with nextOrder := some order })
    (fun _ => rfl) (leads.prev last) (fun q pointer => by cases pointer; exact good)
  have two := one.trans (one.leads.writeOrder order
    (f := fun n => { n with
      prevOrder := ((s.writeOrder last fun n => { n with nextOrder := some order }).order
        first).prevOrder })
    (fun _ => rfl) (one.leads.prev first) (one.leads.next order))
  have three := two.trans (two.leads.writeOrder order
    (f := fun n => { n with nextOrder := some first }) (fun _ => rfl) (two.leads.prev order)
    (fun q pointer => by cases pointer; exact goodFirst))
  exact three.trans (three.leads.writeOrder first
    (f := fun n => { n with prevOrder := some order }) (fun _ => rfl)
    (fun q pointer => by cases pointer; exact good) (three.leads.next first))

theorem ends_attachOrder (leads : Leads G s) {order : Ptr} (good : G order) :
    Ends Fault.Elsewhere (s.attachOrder L order) (Moved G s) := by
  unfold attachOrder
  refine (ends_getOrdersAtPrice L s _).bind fun entry _ => ?_
  cases entry with
  | some level =>
      exact (ends_deref fun first found => leads.first level first found).bind fun first goodFirst =>
        ends_linkLast leads goodFirst good
  | none =>
      have self := leads.writeOrder order (f := fun n =>
        { n with prevOrder := some order, nextOrder := some order }) (fun _ => rfl)
        (fun q pointer => by cases pointer; exact good)
        (fun q pointer => by cases pointer; exact good)
      refine (ends_allocate _ _).bind fun result placed => ?_
      obtain ⟨new, pool⟩ := result
      obtain ⟨-, placed⟩ := placed
      have opened : Moved G s { s.writeOrder order fun n =>
          { n with prevOrder := some order, nextOrder := some order } with
          ordersAtPricePool := pool } := by
        refine ⟨⟨⟨fun l p pointer => ?_, self.leads.prev, self.leads.next, self.leads.table⟩,
          self.key⟩, self.table, self.isFree⟩
        have read : (pool.get l).firstOrder = some p := pointer
        rw [placed] at read
        split at read
        · cases read
          exact good
        · exact leads.first l p read
      exact (ends_addOrdersAtPrice L opened.leads new).imp fun t added => opened.trans added

/-- Adding an order only fails at the id table where its id has no place there. -/
theorem ends_addOrder [DecidableEq σ] (leads : Leads G s) {order : Ptr} (good : G order) :
    Ends (fun f => f.Elsewhere ∨ ∀ slot, L.slot (s.order order).key ≠ .ok slot)
      (s.addOrder L order)
      (fun t => Follows G s t ∧ ∃ slot, L.slot (s.order order).key = .ok slot ∧
        t.oidToOrder = Function.update s.oidToOrder slot (some order) ∧
          ∀ p, (t.orderPool.store p).isFree = (s.orderPool.store p).isFree) := by
  unfold addOrder
  refine Ends.bind ((ends_attachOrder L leads good).weaken fun f elsewhere => .inl elsewhere) ?_
  intro t attached
  rw [attached.key]
  cases known : L.slot (s.order order).key with
  | error f => exact Ends.error (.inr fun slot => nofun)
  | ok slot =>
      refine Ends.pure ⟨?_, slot, rfl, ?_, attached.isFree⟩
      · exact attached.toFollows.trans
          (attached.leads.setOid slot fun q pointer => by cases pointer; exact good)
      · exact congrArg (Function.update · slot (some order)) attached.table

theorem ends_getNextPriority (s : LevelBook κ σ) (price : Price) :
    Ends Fault.Elsewhere (s.getNextPriority L price) fun _ => True := by
  unfold getNextPriority
  refine (ends_getOrdersAtPrice L s price).bind fun entry _ => ?_
  cases entry with
  | none => exact Ends.pure trivial
  | some level =>
      exact (ends_deref fun _ _ => trivial).bind fun first _ =>
        (ends_deref fun _ _ => trivial).bind fun last _ => Ends.pure trivial

/-- A new order in the pool, before it is linked in. -/
theorem Leads.allocate {H : Ptr → Prop} (leads : Leads G s) (wider : ∀ p, G p → H p)
    {o : Order κ} (prev : o.prevOrder = none) (next : o.nextOrder = none) {order : Ptr}
    {pool : MemPool (Order κ)}
    (placed : ∀ q, pool.get q = if q = order then o else s.orderPool.get q) :
    Leads H { s with orderPool := pool } := by
  refine ⟨fun l p pointer => wider p (leads.first l p pointer), fun q p pointer => ?_,
    fun q p pointer => ?_,
    fun slot p pointer => wider p (leads.table slot p pointer)⟩
  · have read : (pool.get q).prevOrder = some p := pointer
    rw [placed] at read
    split at read
    · exact nomatch prev.symm.trans read
    · exact wider p (leads.prev q p read)
  · have read : (pool.get q).nextOrder = some p := pointer
    rw [placed] at read
    split at read
    · exact nomatch next.symm.trans read
    · exact wider p (leads.next q p read)

end Operations

end LevelBook

end NanoTrade
