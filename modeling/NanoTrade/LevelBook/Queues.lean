import NanoTrade.LevelBook.Levels

/-!
# The FIFO queues of a book

`Queue` says that a level block starts a circle of order blocks that hold the orders
of the level, in time priority.

* `linkLast_spec`: an order is linked in behind the last one.
* `unlinkOrder_spec`: one order of several is unlinked.

`SameLevels` and `Rechained` bound what the two touch.
-/

namespace NanoTrade

/-- An order that rests in the book, as its block holds it. -/
structure RestingOrder (κ : Type) where
  ptr : Ptr
  key : κ
  qty : Qty
  priority : Priority

/-- A level with its orders, the first one to be filled first. -/
structure RestingLevel (κ : Type) extends LevelNode where
  orders : List (RestingOrder κ)

namespace LevelBook

variable {κ σ : Type}

/-- The order links of `s` form the circle `c`. -/
def OrderRing (s : LevelBook κ σ) (c : List Ptr) : Prop :=
  Ring (fun p => (s.order p).nextOrder) (fun p => (s.order p).prevOrder) c

/-- The block of `o` holds `o`, an order of this side and price. -/
def OrderAt (s : LevelBook κ σ) (side : BookSide) (price : Price) (o : RestingOrder κ) : Prop :=
  (s.order o.ptr).content = (o.key, side.toSide, price, o.qty, o.priority)

/-- The block of `l` starts the circle of its orders. -/
structure Queue (s : LevelBook κ σ) (side : BookSide) (l : RestingLevel κ) : Prop where
  nonempty : l.orders ≠ []
  first : (s.level l.ptr).firstOrder = (l.orders.map RestingOrder.ptr).head?
  ring : s.OrderRing (l.orders.map RestingOrder.ptr)
  orders : ∀ o ∈ l.orders, s.OrderAt side l.price o

theorem Queue.frame {s s' : LevelBook κ σ} {side : BookSide} {l : RestingLevel κ}
    (queue : Queue s side l) (first : (s'.level l.ptr).firstOrder = (s.level l.ptr).firstOrder)
    (order : ∀ o ∈ l.orders, s'.order o.ptr = s.order o.ptr) : Queue s' side l := by
  refine ⟨queue.nonempty, first.trans queue.first, Ring.frame queue.ring ?_ ?_, ?_⟩
  · intro x mem
    obtain ⟨o, oMem, rfl⟩ := List.mem_map.mp mem
    simp only [order o oMem]
  · intro x mem
    obtain ⟨o, oMem, rfl⟩ := List.mem_map.mp mem
    simp only [order o oMem]
  · intro o mem
    rw [OrderAt, order o mem]
    exact queue.orders o mem

/-- `s'` differs from `s` in its orders and in first orders of levels only. -/
structure SameLevels (s s' : LevelBook κ σ) : Prop where
  side : ∀ p, (s'.level p).side = (s.level p).side
  price : ∀ p, (s'.level p).price = (s.level p).price
  nextEntry : ∀ p, (s'.level p).nextEntry = (s.level p).nextEntry
  prevEntry : ∀ p, (s'.level p).prevEntry = (s.level p).prevEntry
  best : ∀ side, s'.best side = s.best side
  holds : ∀ {live}, s.ordersAtPricePool.Holds live → s'.ordersAtPricePool.Holds live
  size : s'.ordersAtPricePool.size = s.ordersAtPricePool.size
  priceOrdersAtPrice : s'.priceOrdersAtPrice = s.priceOrdersAtPrice
  basePrice : s'.basePrice = s.basePrice

namespace SameLevels

variable {s s' s'' : LevelBook κ σ}

/-- The orders, the id table and the rest of the order pool do not count. -/
theorem of_eq (levels : s'.ordersAtPricePool = s.ordersAtPricePool)
    (best : ∀ side, s'.best side = s.best side)
    (slots : s'.priceOrdersAtPrice = s.priceOrdersAtPrice) (base : s'.basePrice = s.basePrice) :
    SameLevels s s' := by
  have level : ∀ p, s'.level p = s.level p := fun p => by rw [LevelBook.level, levels]; rfl
  exact ⟨fun p => by rw [level], fun p => by rw [level], fun p => by rw [level],
    fun p => by rw [level], best, fun h => by rw [levels]; exact h, by rw [levels], slots, base⟩

theorem trans (first : SameLevels s s') (second : SameLevels s' s'') : SameLevels s s'' where
  side p := (second.side p).trans (first.side p)
  price p := (second.price p).trans (first.price p)
  nextEntry p := (second.nextEntry p).trans (first.nextEntry p)
  prevEntry p := (second.prevEntry p).trans (first.prevEntry p)
  best side := (second.best side).trans (first.best side)
  holds h := second.holds (first.holds h)
  size := second.size.trans first.size
  priceOrdersAtPrice := second.priceOrdersAtPrice.trans first.priceOrdersAtPrice
  basePrice := second.basePrice.trans first.basePrice

theorem writeFirst (s : LevelBook κ σ) (p : Ptr) (first : Option Ptr) :
    SameLevels s (s.writeLevel p fun n => { n with firstOrder := first }) := by
  have level : ∀ q, (s.writeLevel p fun n => { n with firstOrder := first }).level q =
      { s.level q with
        firstOrder := if q = p then first else (s.level q).firstOrder } := by
    intro q
    by_cases e : q = p
    · subst e
      simp
    · simp [e]
  exact ⟨fun q => by rw [level], fun q => by rw [level], fun q => by rw [level],
    fun q => by rw [level], fun _ => rfl,
    fun h => h.modify p fun n => { n with firstOrder := first }, rfl, rfl, rfl⟩

end SameLevels

/-- The levels do not depend on the orders. -/
theorem Levels.of_same {L : BookLayout κ σ} {W stale : Price → Prop} {s s' : LevelBook κ σ}
    {nodes : BookSide → List LevelNode} (levels : Levels L W stale s nodes)
    (same : SameLevels s s') : Levels L W stale s' nodes where
  admits := by rw [same.basePrice]; exact levels.admits
  head side := (same.best _).trans (levels.head side)
  ring side := Ring.frame (levels.ring side) (fun x _ => same.nextEntry x)
    (fun x _ => same.prevEntry x)
  side n mem := (same.side _).trans (levels.side n mem)
  price n mem := (same.price _).trans (levels.price n mem)
  sorted := levels.sorted
  apart := levels.apart
  window := levels.window
  entry n mem := by rw [same.priceOrdersAtPrice, same.basePrice]; exact levels.entry n mem
  vacant inside notStale free := by
    rw [same.priceOrdersAtPrice, same.basePrice]
    exact levels.vacant inside notStale free
  staleEntry isStale := by
    rw [same.priceOrdersAtPrice, same.basePrice]
    exact levels.staleEntry isStale
  pool := same.holds levels.pool
  size := same.size.trans levels.size

/-- `s'` differs from `s` in links of orders and in first orders of levels only. -/
structure Rechained (s s' : LevelBook κ σ) : Prop where
  content : ∀ p, (s'.order p).content = (s.order p).content
  holds : ∀ {live}, s.orderPool.Holds live → s'.orderPool.Holds live
  size : s'.orderPool.size = s.orderPool.size
  oidToOrder : s'.oidToOrder = s.oidToOrder
  levels : SameLevels s s'

namespace Rechained

variable {s s' s'' : LevelBook κ σ}

theorem trans (first : Rechained s s') (second : Rechained s' s'') : Rechained s s'' where
  content p := (second.content p).trans (first.content p)
  holds h := second.holds (first.holds h)
  size := second.size.trans first.size
  oidToOrder := second.oidToOrder.trans first.oidToOrder
  levels := first.levels.trans second.levels

/-- Assigning to links of an order. -/
theorem writeOrder (s : LevelBook κ σ) (p : Ptr) {f : Order κ → Order κ}
    (links : ∀ n, (f n).content = n.content) : Rechained s (s.writeOrder p f) := by
  refine ⟨fun q => ?_, fun h => h.modify p f, rfl, rfl, .of_eq rfl (fun _ => rfl) rfl rfl⟩
  rw [order_writeOrder]
  split
  · rename_i e
    rw [links, e]
  · rfl

theorem writeFirst (s : LevelBook κ σ) (p : Ptr) (first : Option Ptr) :
    Rechained s (s.writeLevel p fun n => { n with firstOrder := first }) :=
  ⟨fun _ => rfl, id, rfl, rfl, .writeFirst s p first⟩

end Rechained

section Splice

variable {s : LevelBook κ σ}

/-- Joining a queue: the order is behind the last one, no other queue is touched. -/
theorem linkLast_spec {first new : Ptr} {rest : List Ptr} (ring : OrderRing s (first :: rest))
    (fresh : new ∉ first :: rest) :
    ∃ s', s.linkLast first new = .ok s' ∧ OrderRing s' (first :: rest ++ [new]) ∧
      (∀ x ∉ new :: first :: rest, s'.order x = s.order x) ∧
      (∀ q, s'.level q = s.level q) ∧ Rechained s s' := by
  obtain ⟨last, lastMem, link⟩ := ring.exists_prev (List.mem_cons_self (a := first) (l := rest))
  have prev : (s.order first).prevOrder = some last := link.2
  have newFirst : first ≠ new := fun e => fresh (e ▸ List.mem_cons_self)
  have newLast : last ≠ new := fun e => fresh (e ▸ lastMem)
  have prevKept : ((s.writeOrder last fun n => { n with nextOrder := some new }).order
      first).prevOrder = some last := by
    by_cases e : first = last <;> simp_all
  refine ⟨_, by
    simp only [linkLast, prev, deref_some, bind, Except.bind, pure, Except.pure, prevKept]
    rfl, ?_, ?_, ?_, ?_⟩
  · refine Ring.snoc ring fresh prev ?_ ?_ ?_ ?_ ?_ ?_
    · by_cases e : first = last <;> simp_all [newFirst.symm]
    · by_cases e : first = last <;> simp_all [newFirst.symm]
    · by_cases e : last = first <;> simp_all
    · simp
    · intro x mem xLast
      have xNew : x ≠ new := ne_of_mem_of_not_mem mem fresh
      by_cases e : x = first <;> simp_all
    · intro x mem xFirst
      have xNew : x ≠ new := ne_of_mem_of_not_mem mem fresh
      by_cases e : x = last <;> simp_all
  · intro x out
    have xLast : x ≠ last := fun e => out (List.mem_cons_of_mem _ (e ▸ lastMem))
    simp only [List.mem_cons, not_or] at out
    simp [out.1, out.2.1, xLast]
  · intro q
    rfl
  · exact (((Rechained.writeOrder _ _ (by intro n; rfl)).trans
      (Rechained.writeOrder _ _ (by intro n; rfl))).trans
      (Rechained.writeOrder _ _ (by intro n; rfl))).trans
      (Rechained.writeOrder _ _ (by intro n; rfl))

/-- Leaving a queue that other orders stay in. -/
theorem unlinkOrder_spec {l₁ l₂ : List Ptr} {level x : Ptr} (ring : OrderRing s (l₁ ++ x :: l₂))
    (others : l₁ ++ l₂ ≠ []) (first : (s.level level).firstOrder = (l₁ ++ x :: l₂).head?) :
    ∃ s', s.unlinkOrder (some level) x = .ok s' ∧ OrderRing s' (l₁ ++ l₂) ∧
      (s'.level level).firstOrder = (l₁ ++ l₂).head? ∧
      (∀ q, q ≠ level → s'.level q = s.level q) ∧
      (∀ y ∉ l₁ ++ x :: l₂, s'.order y = s.order y) ∧ Rechained s s' := by
  have memX : x ∈ l₁ ++ x :: l₂ := by simp
  obtain ⟨a, aMem, aLink⟩ := ring.exists_prev memX
  obtain ⟨b, bMem, bLink⟩ := ring.exists_next memX
  have lone : l₁ ++ x :: l₂ ≠ [x] := by
    intro single
    have length := congrArg List.length single
    simp only [List.length_append, List.length_cons, List.length_nil] at length
    exact others (List.length_eq_zero_iff.mp (by rw [List.length_append]; omega))
  have xa : x ≠ a := fun e => lone (ring.eq_singleton_of_prev memX (e ▸ aLink.2))
  have xb : x ≠ b := fun e => lone (ring.eq_singleton_of_next memX (e ▸ bLink.1))
  have prevX : (s.order x).prevOrder = some a := aLink.2
  have nextX : (s.order x).nextOrder = some b := bLink.1
  -- The state after the two assignments to the neighbours.
  obtain ⟨t, tEq⟩ : ∃ t, t = (s.writeOrder a fun n => { n with nextOrder := some b }).writeOrder b
      fun n => { n with prevOrder := some a } := ⟨_, rfl⟩
  have rechained : Rechained s t := by
    rw [tEq]
    exact (Rechained.writeOrder _ _ (by intro n; rfl)).trans
      (Rechained.writeOrder _ _ (by intro n; rfl))
  have nextT : ∀ y, (t.order y).nextOrder = if y = a then some b else (s.order y).nextOrder := by
    intro y
    rw [tEq]
    by_cases ya : y = a <;> by_cases yb : y = b <;> simp_all
  have prevT : ∀ y, (t.order y).prevOrder = if y = b then some a else (s.order y).prevOrder := by
    intro y
    rw [tEq]
    by_cases ya : y = a <;> by_cases yb : y = b <;> simp_all
  have levelT : ∀ q, t.level q = s.level q := by
    intro q
    rw [tEq]
    rfl
  have ringT : OrderRing t (l₁ ++ l₂) := Ring.unlink ring others aLink.2 bLink.1 nextT prevT
  -- The state after the first order of the level may have moved on.
  obtain ⟨v, vEq⟩ : ∃ v, v = if (t.level level).firstOrder = some x then
      t.writeLevel level fun n => { n with firstOrder := some b } else t := ⟨_, rfl⟩
  have orderV : ∀ q, v.order q = t.order q := by
    intro q
    rw [vEq]
    split <;> rfl
  have firstV : (v.level level).firstOrder = (l₁ ++ l₂).head? := by
    rw [vEq, levelT, first]
    cases l₁ with
    | nil =>
        cases l₂ with
        | nil => exact (others rfl).elim
        | cons y l₂ =>
            have next : (s.order x).nextOrder = some y := (Ring.link_first ring).1
            rw [nextX] at next
            simp [next]
    | cons z l₁ =>
        have zx : z ≠ x := by
          rintro rfl
          simpa using ring.nodup
        simpa [zx, levelT] using first
  have otherV : ∀ q, q ≠ level → v.level q = s.level q := by
    intro q ne
    rw [vEq]
    split
    · simp [ne, levelT]
    · exact levelT q
  have rechainedV : Rechained s v := by
    rw [vEq]
    split
    · exact rechained.trans (Rechained.writeFirst _ _ _)
    · exact rechained
  refine ⟨v.writeOrder x fun n => { n with prevOrder := none, nextOrder := none }, ?_, ?_, firstV,
    otherV, ?_, rechainedV.trans (Rechained.writeOrder _ _ (by intro n; rfl))⟩
  · simp only [unlinkOrder, prevX, nextX, deref_some, bind, Except.bind, pure, Except.pure, ← tEq,
      ← vEq]
  · have out : ∀ y ∈ l₁ ++ l₂, y ≠ x := by
      intro y mem
      have nodup := ring.nodup
      rw [List.nodup_middle] at nodup
      exact ne_of_mem_of_not_mem mem (List.nodup_cons.mp nodup).1
    refine Ring.frame ringT ?_ ?_
    · intro y mem
      simp [out y mem, orderV]
    · intro y mem
      simp [out y mem, orderV]
  · intro y outside
    have yx : y ≠ x := fun e => outside (e ▸ memX)
    have ya : y ≠ a := fun e => outside (e ▸ aMem)
    have yb : y ≠ b := fun e => outside (e ▸ bMem)
    simp [yx, orderV, tEq, ya, yb]

end Splice

end LevelBook

end NanoTrade
