import Mathlib.Data.List.Sort
import NanoTrade.LevelBook

/-!
# The price levels of a book

`Levels` says that the heads, the level links, the price table and the level pool
of a book hold two sorted lists of levels, one per side. A price may be `stale`:
its table entry is not null although no level of that price is linked.

* `Levels.open_spec`: a new level is spliced in where its price belongs.
* `Levels.close_spec`: a level is unlinked, its entry nulled, its block freed.

Both are stated with `Relinked`, which bounds what they touch.
-/

namespace NanoTrade

/-- The sides that a book has. -/
inductive BookSide
  | bid
  | ask
  deriving DecidableEq, Repr

instance {P : BookSide → Prop} [DecidablePred P] : Decidable (∀ side, P side) :=
  decidable_of_iff (P .bid ∧ P .ask)
    ⟨fun h side => by cases side <;> simp [h], fun h => ⟨h .bid, h .ask⟩⟩

namespace BookSide

def toSide : BookSide → Side
  | bid => .BUY
  | ask => .SELL

/-- The side of a message, if it has one. -/
def ofSide : Side → Option BookSide
  | .BUY => some bid
  | .SELL => some ask
  | .INVALID | .MAX => none

def opposite : BookSide → BookSide
  | bid => ask
  | ask => bid

/-- `p` ranks strictly ahead of `q` on this side. -/
def Ahead : BookSide → Price → Price → Prop
  | bid, p, q => q < p
  | ask, p, q => p < q

instance : ∀ (side : BookSide) (p q : Price), Decidable (side.Ahead p q)
  | bid, p, q => inferInstanceAs (Decidable (q < p))
  | ask, p, q => inferInstanceAs (Decidable (p < q))

variable {side side' : BookSide} {p q r : Price}

@[simp] theorem toSide_inj : side.toSide = side'.toSide ↔ side = side' := by
  cases side <;> cases side' <;> simp [toSide]

@[simp] theorem ofSide_toSide : ofSide side.toSide = some side := by
  cases side <;> rfl

@[simp] theorem opposite_ne : side.opposite ≠ side := by
  cases side <;> simp [opposite]

@[simp] theorem opposite_opposite : side.opposite.opposite = side := by
  cases side <;> rfl

theorem eq_opposite_of_ne (ne : side' ≠ side) : side' = side.opposite := by
  cases side <;> cases side' <;> simp_all [opposite]

theorem Ahead.irrefl : ¬ side.Ahead p p := by
  cases side <;> simp [Ahead]

theorem Ahead.ne (ahead : side.Ahead p q) : p ≠ q := by
  rintro rfl
  exact Ahead.irrefl ahead

theorem Ahead.trans (first : side.Ahead p q) (second : side.Ahead q r) : side.Ahead p r := by
  cases side with
  | bid => exact lt_trans (α := Int) second first
  | ask => exact lt_trans (α := Int) first second

theorem Ahead.asymm (ahead : side.Ahead p q) : ¬ side.Ahead q p :=
  fun back => Ahead.irrefl (ahead.trans back)

theorem Ahead.total (ne : p ≠ q) : side.Ahead p q ∨ side.Ahead q p := by
  cases side with
  | bid => exact (lt_or_gt_of_ne ne).symm
  | ask => exact lt_or_gt_of_ne ne

/-- An order of this side and price can trade with a resting one at `price`. -/
def Crosses : BookSide → Price → Price → Prop
  | bid, limit, resting => resting ≤ limit
  | ask, limit, resting => limit ≤ resting

instance : ∀ (side : BookSide) (p q : Price), Decidable (side.Crosses p q)
  | bid, p, q => inferInstanceAs (Decidable (q ≤ p))
  | ask, p, q => inferInstanceAs (Decidable (p ≤ q))

/-- Behind an order that does not cross none does. -/
theorem not_crosses_of_behind {limit : Price} (stops : ¬ side.Crosses limit p)
    (behind : ¬ side.opposite.Ahead q p) : ¬ side.Crosses limit q := by
  cases side <;> simp only [Crosses, opposite, Ahead] at stops behind ⊢ <;> lia

theorem Crosses.refl (side : BookSide) (p : Price) : side.Crosses p p := by
  cases side <;> exact Int.le_refl p

end BookSide

/-- A level as the level list and the price table know it. -/
structure LevelNode where
  ptr : Ptr
  price : Price

/-- `a` ranks strictly ahead of `b`. -/
def LevelNode.Ahead (side : BookSide) (a b : LevelNode) : Prop :=
  side.Ahead a.price b.price

instance (side : BookSide) : DecidableRel (LevelNode.Ahead side) :=
  fun a b => inferInstanceAs (Decidable (side.Ahead a.price b.price))

/-- The lists of both sides. -/
def both {α : Type} (f : BookSide → List α) : List α :=
  f .bid ++ f .ask

section Both

variable {α β : Type} (f : BookSide → List α) (side : BookSide)

@[simp] theorem mem_both {a : α} : a ∈ both f ↔ ∃ side, a ∈ f side := by
  constructor
  · intro mem
    rcases List.mem_append.mp mem with mem | mem
    · exact ⟨_, mem⟩
    · exact ⟨_, mem⟩
  · rintro ⟨side, mem⟩
    cases side with
    | bid => exact List.mem_append_left _ mem
    | ask => exact List.mem_append_right _ mem

theorem map_both (g : α → β) : (both f).map g = both fun side => (f side).map g :=
  List.map_append

theorem perm_both : (both f).Perm (f side ++ f side.opposite) := by
  cases side with
  | bid => exact .refl _
  | ask => exact List.perm_append_comm

theorem perm_both_update (xs : List α) :
    (both (Function.update f side xs)).Perm (xs ++ f side.opposite) := by
  refine (perm_both _ side).trans ?_
  simp

variable {f side} {side' : BookSide} {xs : List α} {a b : α}

/-- Where the list of a side gains an entry. -/
theorem perm_both_grown (grown : xs.Perm (a :: f side)) :
    (both (Function.update f side xs)).Perm (a :: both f) :=
  (perm_both_update f side xs).trans
    ((grown.append_right _).trans ((perm_both f side).symm.cons a))

theorem mem_grown (grown : xs.Perm (a :: f side)) :
    b ∈ Function.update f side xs side' ↔ side' = side ∧ b = a ∨ b ∈ f side' := by
  rcases eq_or_ne side' side with rfl | ne
  · rw [Function.update_self, grown.mem_iff, List.mem_cons, and_iff_right rfl]
  · rw [Function.update_of_ne ne]
    exact (or_iff_right fun new => ne new.1).symm

/-- Where the list of a side loses an entry. -/
theorem perm_both_shrunk (shrunk : (f side).Perm (a :: xs)) :
    (both f).Perm (a :: both (Function.update f side xs)) := by
  have back : (both (Function.update (Function.update f side xs) side (f side))).Perm
      (a :: both (Function.update f side xs)) := by
    refine perm_both_grown ?_
    rw [Function.update_self]
    exact shrunk
  rw [Function.update_idem, Function.update_eq_self] at back
  exact back

theorem mem_shrunk (shrunk : (f side).Perm (a :: xs)) :
    b ∈ f side' ↔ side' = side ∧ b = a ∨ b ∈ Function.update f side xs side' := by
  have back : b ∈ Function.update (Function.update f side xs) side (f side) side' ↔
      side' = side ∧ b = a ∨ b ∈ Function.update f side xs side' := by
    refine mem_grown ?_
    rw [Function.update_self]
    exact shrunk
  rw [Function.update_idem, Function.update_eq_self] at back
  exact back

end Both

/-- `W` is a set of prices that the layout can tell apart. -/
structure BookLayout.Admits {κ σ : Type} (L : BookLayout κ σ) (basePrice : Price)
    (W : Price → Prop) : Prop where
  inside : ∀ {p}, W p → L.inWindow basePrice p = true
  injective : ∀ {p q}, W p → W q → L.index basePrice p = L.index basePrice q → p = q

theorem BookLayout.priceToIndex_of_inside {κ σ : Type} {L : BookLayout κ σ} {basePrice p : Price}
    (inside : L.inWindow basePrice p = true) :
    L.priceToIndex basePrice p = .ok (L.index basePrice p) := by
  rw [BookLayout.priceToIndex, if_pos inside]

theorem BookLayout.priceToIndex_of_outside {κ σ : Type} {L : BookLayout κ σ} {basePrice p : Price}
    (outside : L.inWindow basePrice p = false) :
    L.priceToIndex basePrice p = .error (.outsideWindow p) := by
  rw [BookLayout.priceToIndex, outside, if_neg Bool.false_ne_true]

theorem BookLayout.Admits.priceToIndex {κ σ : Type} {L : BookLayout κ σ} {basePrice p : Price}
    {W : Price → Prop} (admits : L.Admits basePrice W) (inside : W p) :
    L.priceToIndex basePrice p = .ok (L.index basePrice p) :=
  priceToIndex_of_inside (admits.inside inside)

/-- The prices of the window of a book. -/
def InWindow (basePrice price : Price) : Prop :=
  priceInWindow basePrice price = true

instance (basePrice price : Price) : Decidable (InWindow basePrice price) :=
  inferInstanceAs (Decidable (_ = true))

theorem inWindow_iff {basePrice price : Price} :
    InWindow basePrice price ↔ basePrice ≤ price ∧ price < basePrice + ME_MAX_PRICE_LEVELS := by
  simp only [InWindow, priceInWindow, Bool.and_eq_true, decide_eq_true_eq]
  constructor <;> rintro ⟨low, high⟩ <;> constructor <;> lia

/-- A layout with the window of the source tells its prices apart. -/
theorem admits_window {κ σ : Type} {L : BookLayout κ σ} (window : L.inWindow = priceInWindow)
    (index : L.index = windowIndex) (basePrice : Price) :
    L.Admits basePrice (InWindow basePrice) := by
  refine ⟨fun inside => by rw [window]; exact inside, fun {p q} insideP insideQ same => ?_⟩
  have lowP := (inWindow_iff.mp insideP).1
  have lowQ := (inWindow_iff.mp insideQ).1
  rw [index, windowIndex, windowIndex] at same
  lia

namespace LevelBook

theorem getOrdersAtPrice_of_outside {κ σ : Type} {L : BookLayout κ σ} {s : LevelBook κ σ}
    {p : Price} (outside : L.inWindow s.basePrice p = false) :
    s.getOrdersAtPrice L p = .error (.outsideWindow p) := by
  rw [getOrdersAtPrice, BookLayout.priceToIndex_of_outside outside]
  rfl

variable {κ σ : Type}

/-- The level links of `s` form the circle `c`. -/
def LevelRing (s : LevelBook κ σ) (c : List Ptr) : Prop :=
  Ring (fun p => (s.level p).nextEntry) (fun p => (s.level p).prevEntry) c

/-- `s'` differs from `s` in links of levels and in heads only. -/
structure Relinked (s s' : LevelBook κ σ) : Prop where
  side : ∀ p, (s'.level p).side = (s.level p).side
  price : ∀ p, (s'.level p).price = (s.level p).price
  firstOrder : ∀ p, (s'.level p).firstOrder = (s.level p).firstOrder
  holds : ∀ {live}, s.ordersAtPricePool.Holds live → s'.ordersAtPricePool.Holds live
  size : s'.ordersAtPricePool.size = s.ordersAtPricePool.size
  orderPool : s'.orderPool = s.orderPool
  oidToOrder : s'.oidToOrder = s.oidToOrder
  priceOrdersAtPrice : s'.priceOrdersAtPrice = s.priceOrdersAtPrice
  basePrice : s'.basePrice = s.basePrice

namespace Relinked

variable {s s' s'' : LevelBook κ σ}

theorem trans (first : Relinked s s') (second : Relinked s' s'') : Relinked s s'' where
  side p := (second.side p).trans (first.side p)
  price p := (second.price p).trans (first.price p)
  firstOrder p := (second.firstOrder p).trans (first.firstOrder p)
  holds h := second.holds (first.holds h)
  size := second.size.trans first.size
  orderPool := second.orderPool.trans first.orderPool
  oidToOrder := second.oidToOrder.trans first.oidToOrder
  priceOrdersAtPrice := second.priceOrdersAtPrice.trans first.priceOrdersAtPrice
  basePrice := second.basePrice.trans first.basePrice

theorem setBest (s : LevelBook κ σ) (side : Side) (best : Option Ptr) :
    Relinked s (s.setBest side best) := by
  unfold LevelBook.setBest
  split <;> exact ⟨fun _ => rfl, fun _ => rfl, fun _ => rfl, id, rfl, rfl, rfl, rfl, rfl⟩

/-- Assigning to links of a level. -/
theorem writeLevel (s : LevelBook κ σ) (p : Ptr) {f : OrdersAtPrice → OrdersAtPrice}
    (links : ∀ n, (f n).side = n.side ∧ (f n).price = n.price ∧
      (f n).firstOrder = n.firstOrder) : Relinked s (s.writeLevel p f) := by
  refine ⟨fun q => ?_, fun q => ?_, fun q => ?_, fun h => h.modify p f, rfl, rfl, rfl, rfl, rfl⟩
  all_goals
    rw [level_writeLevel]
    split
    · rename_i e
      subst e
      simp [links]
    · rfl

/-- The links of a level may be nulled. -/
theorem nullLinks (relinked : Relinked s s') (p : Ptr) (nulls : Bool) :
    ∃ v, v = (if nulls = true then
        s'.writeLevel p fun n => { n with prevEntry := none, nextEntry := none } else s') ∧
      Relinked s v ∧ (∀ side, v.best side = s'.best side) ∧
      ∀ x, x ≠ p → (v.level x).nextEntry = (s'.level x).nextEntry ∧
        (v.level x).prevEntry = (s'.level x).prevEntry := by
  refine ⟨_, rfl, ?_, ?_, ?_⟩
  · split
    · exact relinked.trans (.writeLevel _ _ fun n => ⟨rfl, rfl, rfl⟩)
    · exact relinked
  · intro side
    split <;> rfl
  · intro x ne
    split
    · rw [level_writeLevel, if_neg ne]
      exact ⟨rfl, rfl⟩
    · exact ⟨rfl, rfl⟩

end Relinked

@[simp] theorem best_setBest (s : LevelBook κ σ) (side side' : BookSide) (best : Option Ptr) :
    (s.setBest side.toSide best).best side'.toSide =
      if side' = side then best else s.best side'.toSide := by
  cases side <;> cases side' <;> rfl

/-! ## Splicing -/

/-- `new` was linked in between `a` and `b`, and no other link was touched. -/
structure Spliced (s s' : LevelBook κ σ) (a new b : Ptr) : Prop where
  newNext : (s'.level new).nextEntry = some b
  newPrev : (s'.level new).prevEntry = some a
  beforeNext : (s'.level a).nextEntry = some new
  afterPrev : (s'.level b).prevEntry = some new
  nextSame : ∀ x, x ≠ new → x ≠ a → (s'.level x).nextEntry = (s.level x).nextEntry
  prevSame : ∀ x, x ≠ new → x ≠ b → (s'.level x).prevEntry = (s.level x).prevEntry
  best : ∀ side, s'.best side = s.best side
  relinked : Relinked s s'

section Splice

variable {s s' : LevelBook κ σ} {new best a b : Ptr} {side : BookSide}

theorem linkAfter_spec (new : Ptr) (next : (s.level a).nextEntry = some b) (newA : new ≠ a)
    (newB : new ≠ b) :
    ∃ s', s.linkAfter new a = .ok s' ∧ Spliced s s' a new b := by
  have after : ((s.writeLevel new fun n => { n with prevEntry := some a }).level a).nextEntry =
      some b := by
    simp [newA.symm, next]
  refine ⟨_, by simp only [linkAfter, after, deref_some, bind, Except.bind, pure, Except.pure]; rfl,
    ?_⟩
  have targetNew : a ≠ new := newA.symm
  have afterNew : b ≠ new := newB.symm
  constructor
  · by_cases e : a = b <;> simp_all
  · simp_all
  · simp
  · by_cases e : b = a <;> simp_all
  · intro x xn xa
    by_cases e : x = b <;> simp_all
  · intro x xn xb
    by_cases e : x = a <;> simp_all
  · intro side
    rfl
  · exact (((Relinked.writeLevel _ _ (by simp)).trans (Relinked.writeLevel _ _ (by simp))).trans
      (Relinked.writeLevel _ _ (by simp))).trans (Relinked.writeLevel _ _ (by simp))

theorem linkBefore_spec (new : Ptr) (prev : (s.level b).prevEntry = some a) (newA : new ≠ a)
    (newB : new ≠ b) : ∃ s', s.linkBefore new b = .ok s' ∧ Spliced s s' a new b := by
  refine ⟨_, by simp only [linkBefore, level_writeLevel, newB.symm, if_false, prev, deref_some,
    bind, Except.bind, pure, Except.pure]; rfl, ?_⟩
  constructor
  · simp_all
  · by_cases e : a = b <;> simp_all
  · by_cases e : a = b <;> simp_all
  · simp
  · intro x xn xa
    by_cases e : x = b <;> simp_all
  · intro x xn xb
    by_cases e : x = a <;> simp_all
  · intro side
    rfl
  · exact (((Relinked.writeLevel _ _ (by simp)).trans (Relinked.writeLevel _ _ (by simp))).trans
      (Relinked.writeLevel _ _ (by simp))).trans (Relinked.writeLevel _ _ (by simp))

theorem Spliced.insertBefore {l₁ l₂ : List Ptr} (spliced : Spliced s s' a new b)
    (ring : LevelRing s (l₁ ++ b :: l₂)) (fresh : new ∉ l₁ ++ b :: l₂)
    (prev : (s.level b).prevEntry = some a) : LevelRing s' (l₁ ++ new :: b :: l₂) :=
  Ring.insertBefore ring fresh prev spliced.newNext spliced.newPrev spliced.beforeNext
    spliced.afterPrev (fun x mem => spliced.nextSame x (ne_of_mem_of_not_mem mem fresh))
    (fun x mem => spliced.prevSame x (ne_of_mem_of_not_mem mem fresh))

theorem Spliced.snoc {c : List Ptr} (spliced : Spliced s s' a new b)
    (ring : LevelRing s (b :: c)) (fresh : new ∉ b :: c)
    (prev : (s.level b).prevEntry = some a) : LevelRing s' (b :: c ++ [new]) :=
  Ring.snoc ring fresh prev spliced.newNext spliced.newPrev spliced.beforeNext
    spliced.afterPrev (fun x mem => spliced.nextSame x (ne_of_mem_of_not_mem mem fresh))
    (fun x mem => spliced.prevSame x (ne_of_mem_of_not_mem mem fresh))

/-! ## The search for the place of a new level -/

theorem addsAfter_iff (newSide : (s.level new).side = side.toSide) (x : Ptr) :
    s.addsAfter new x = true ↔ side.Ahead (s.level x).price (s.level new).price := by
  cases side <;> simp [addsAfter, newSide, BookSide.toSide, BookSide.Ahead]

theorem ranksBefore_iff (newSide : (s.level new).side = side.toSide) (x : Ptr) :
    s.ranksBefore new x = true ↔ side.Ahead (s.level new).price (s.level x).price := by
  cases side <;> simp [ranksBefore, newSide, BookSide.toSide, BookSide.Ahead]

/-- Where the search ends: before the first level that does not rank ahead, or, when
all do, behind the last one, which the source reaches from `best`. -/
def searchEnd (best : Ptr) : List Ptr → Bool × Ptr
  | [] => (true, best)
  | x :: _ => (false, x)

theorem scanLevels_eq (new : Ptr) {suf : List Ptr} :
    ∀ {pre : List Ptr} {target : Ptr} {fuel : Nat},
      LevelRing s (best :: pre ++ target :: suf) → suf.length + 2 ≤ fuel →
      s.scanLevels new best fuel true target =
        .ok (searchEnd best ((target :: suf).dropWhile (s.addsAfter new))) := by
  induction suf with
  | nil =>
      intro pre target fuel ring bound
      obtain ⟨fuel, rfl⟩ : ∃ k, fuel = k + 2 := ⟨fuel - 2, by simp at bound; omega⟩
      have targetBest : target ≠ best := by
        rintro rfl
        simpa using ring.nodup
      have next : (s.level target).nextEntry = some best := ring.link_closing.1
      by_cases after : s.addsAfter new target = true
      · simp [scanLevels, targetBest, after, next, searchEnd, bind, Except.bind]
      · simp [scanLevels, targetBest, after, searchEnd]
  | cons y suf ih =>
      intro pre target fuel ring bound
      obtain ⟨fuel, rfl⟩ : ∃ k, fuel = k + 2 := ⟨fuel - 2, by simp at bound; omega⟩
      have targetBest : target ≠ best := by
        rintro rfl
        simpa using ring.nodup
      have next : (s.level target).nextEntry = some y := ring.link_append.1
      by_cases after : s.addsAfter new target = true
      · have ring' : LevelRing s (best :: (pre ++ [target]) ++ y :: suf) := by
          simpa using ring
        have bound' : suf.length + 2 ≤ fuel + 1 := by
          simp at bound
          omega
        have rest := ih ring' bound'
        rw [List.dropWhile_cons_of_pos after, ← rest]
        simp [scanLevels, targetBest, after, next, bind, Except.bind]
      · simp [scanLevels, targetBest, after, searchEnd]

theorem findTarget_eq (new : Ptr) {rest : List Ptr} (ring : LevelRing s (best :: rest))
    (bound : rest.length + 1 < s.ordersAtPricePool.size) :
    s.findTarget new best =
      .ok (searchEnd best ((best :: rest).dropWhile (s.addsAfter new))) := by
  obtain ⟨fuel, size⟩ : ∃ k, s.ordersAtPricePool.size = k + 1 :=
    ⟨s.ordersAtPricePool.size - 1, by omega⟩
  by_cases after : s.addsAfter new best = true
  · rw [List.dropWhile_cons_of_pos after, findTarget, if_pos after]
    cases rest with
    | nil =>
        have next : (s.level best).nextEntry = some best := (ring_singleton.mp ring).1
        simp [next, after, size, scanLevels, searchEnd, bind, Except.bind]
    | cons y rest =>
        have next : (s.level best).nextEntry = some y := (Ring.link_first ring).1
        by_cases second : s.addsAfter new y = true
        · have bound' : rest.length + 2 ≤ s.ordersAtPricePool.size := by
            simp at bound
            omega
          have ring' : LevelRing s (best :: [] ++ y :: rest) := ring
          have found := scanLevels_eq new ring' bound'
          simpa only [next, second, deref_some, bind, Except.bind] using found
        · simp [next, second, size, scanLevels, searchEnd, bind, Except.bind]
  · rw [List.dropWhile_cons_of_neg after, findTarget, if_neg after, size]
    simp [scanLevels, searchEnd]

/-- Where the successor of `target` is not the old best level, the new one is only
made the head. -/
theorem promote_spec (new : Ptr) {target : Ptr} (notBest : (s.level target).nextEntry ≠ some best)
    (newSide : (s.level new).side = side.toSide) :
    Relinked s (s.promote new target best) ∧
      (∀ x, (s.promote new target best).level x = s.level x) ∧
      (s.promote new target best).best side.toSide = some new ∧
      (s.promote new target best).best side.opposite.toSide = s.best side.opposite.toSide := by
  have ownSide : ∀ f : OrdersAtPrice → OrdersAtPrice, (∀ n, (f n).side = n.side) →
      ((s.writeLevel target f).level new).side = side.toSide := by
    intro f same
    rw [level_writeLevel]
    split
    · rename_i e
      rw [same, ← e, newSide]
    · exact newSide
  refine ⟨(Relinked.writeLevel _ _ (by simp)).trans (Relinked.setBest _ _ _), ?_, ?_, ?_⟩
  · intro x
    by_cases e : x = target
    · subst e
      simp [promote, notBest]
    · simp [promote, e]
  · simp only [promote]
    rw [ownSide _ (by simp)]
    simp
  · simp only [promote]
    rw [ownSide _ (by simp)]
    simp

theorem spliceLevel_spec (new : Ptr) {rest : List Ptr} (ring : LevelRing s (best :: rest))
    (fresh : new ∉ best :: rest) (newSide : (s.level new).side = side.toSide)
    (head : s.best side.toSide = some best)
    (apart : ∀ x ∈ best :: rest, (s.level x).price ≠ (s.level new).price)
    (bound : rest.length + 1 < s.ordersAtPricePool.size) :
    ∃ s', s.spliceLevel new best = .ok s' ∧ Relinked s s' ∧
      LevelRing s' ((best :: rest).takeWhile (s.addsAfter new) ++
        new :: (best :: rest).dropWhile (s.addsAfter new)) ∧
      s'.best side.toSide = (((best :: rest).takeWhile (s.addsAfter new)).head?).or (some new) ∧
      s'.best side.opposite.toSide = s.best side.opposite.toSide ∧
      ∀ x ∉ new :: best :: rest, (s'.level x).nextEntry = (s.level x).nextEntry ∧
        (s'.level x).prevEntry = (s.level x).prevEntry := by
  have newOut : ∀ {x}, x ∈ best :: rest → new ≠ x := fun mem e => fresh (e ▸ mem)
  obtain ⟨last, lastMem, lastLink⟩ := ring.exists_prev (List.mem_cons_self (a := best) (l := rest))
  have untouched : ∀ {s' : LevelBook κ σ} {a b : Ptr}, Spliced s s' a new b → a ∈ best :: rest →
      b ∈ best :: rest → ∀ x ∉ new :: best :: rest,
        (s'.level x).nextEntry = (s.level x).nextEntry ∧
          (s'.level x).prevEntry = (s.level x).prevEntry := by
    intro s' a b spliced aMem bMem x out
    rw [List.mem_cons, not_or] at out
    exact ⟨spliced.nextSame x out.1 (fun e => out.2 (e ▸ aMem)),
      spliced.prevSame x out.1 (fun e => out.2 (e ▸ bMem))⟩
  have found := findTarget_eq new ring bound
  have split := List.takeWhile_append_dropWhile (p := s.addsAfter new) (l := best :: rest)
  cases shape : (best :: rest).dropWhile (s.addsAfter new) with
  | nil =>
      -- Every level ranks ahead: the search is back at `best`, and the last level is the target.
      rw [shape, List.append_nil] at split
      rw [shape] at found
      obtain ⟨s', linked, spliced⟩ :=
        linkAfter_spec (s := s) new lastLink.1 (newOut lastMem) (newOut List.mem_cons_self)
      refine ⟨s', ?_, spliced.relinked, ?_, ?_, spliced.best _,
        untouched spliced lastMem List.mem_cons_self⟩
      · simpa [spliceLevel, found, searchEnd, lastLink.2, bind, Except.bind] using linked
      · rw [split]
        exact spliced.snoc ring fresh lastLink.2
      · rw [split, spliced.best, head]
        rfl
  | cons y suf =>
      have yMem : y ∈ best :: rest := by
        rw [← split, shape]
        simp
      have notAfter : ¬ s.addsAfter new y = true := by
        have := List.head_dropWhile_not (s.addsAfter new) (l := best :: rest) (by simp [shape])
        simpa [shape] using this
      rw [shape] at split found
      have ring' : LevelRing s ((best :: rest).takeWhile (s.addsAfter new) ++ y :: suf) := by
        rw [split]
        exact ring
      obtain ⟨a, aMem, aLink⟩ := ring.exists_prev yMem
      obtain ⟨s₁, linked, spliced⟩ :=
        linkBefore_spec (s := s) new aLink.2 (newOut aMem) (newOut yMem)
      have newRing := spliced.insertBefore ring' (by rw [split]; exact fresh) aLink.2
      have newSide₁ : (s₁.level new).side = side.toSide := by
        rw [spliced.relinked.side, newSide]
      have ranks := ranksBefore_iff newSide₁ best
      rw [spliced.relinked.price, spliced.relinked.price] at ranks
      have after := addsAfter_iff newSide best
      by_cases first : s.addsAfter new best = true
      · have notBest : ¬ s₁.ranksBefore new best = true := fun h =>
          (after.mp first).asymm (ranks.mp h)
        refine ⟨s₁, ?_, spliced.relinked, newRing, ?_, spliced.best _,
          untouched spliced aMem yMem⟩
        · simp [spliceLevel, found, searchEnd, linked, notBest, bind, Except.bind, pure,
            Except.pure]
        · rw [spliced.best, head, List.takeWhile_cons_of_pos first]
          rfl
      · have isBest : s₁.ranksBefore new best = true :=
          ranks.mpr ((BookSide.Ahead.total (apart best List.mem_cons_self)).resolve_left
            fun h => first (after.mpr h))
        rw [List.dropWhile_cons_of_neg first, List.cons.injEq] at shape
        obtain ⟨rfl, rfl⟩ := shape
        -- The successor of the old best level is another level, or the new one.
        have notSelf : (s₁.level best).nextEntry ≠ some best := by
          intro self
          have lone := newRing.eq_singleton_of_next (by simp) self
          simp [List.takeWhile_cons_of_neg first] at lone
        obtain ⟨relinked, levels, newBest, otherBest⟩ :=
          promote_spec new notSelf newSide₁
        refine ⟨_, ?_, spliced.relinked.trans relinked, ?_, ?_, ?_, ?_⟩
        · simp [spliceLevel, found, searchEnd, linked, isBest, bind, Except.bind, pure, Except.pure]
        · exact Ring.frame newRing (fun x _ => by rw [levels]) (fun x _ => by rw [levels])
        · rw [newBest, List.takeWhile_cons_of_neg first]
          rfl
        · rw [otherBest, spliced.best]
        · intro x out
          rw [levels]
          exact untouched spliced aMem List.mem_cons_self x out

/-- A new level of one side goes behind the levels that rank ahead of it. -/
theorem addOrdersAtPrice_inserts (L : BookLayout κ σ) (new : Ptr) {c : List Ptr} {index : Nat}
    (ring : LevelRing s c) (head : s.best side.toSide = c.head?) (fresh : new ∉ c)
    (newSide : (s.level new).side = side.toSide)
    (apart : ∀ x ∈ c, (s.level x).price ≠ (s.level new).price)
    (room : c.length < s.ordersAtPricePool.size)
    (inside : L.priceToIndex s.basePrice (s.level new).price = .ok index) :
    ∃ s', s.addOrdersAtPrice L new = .ok s' ∧ Relinked (s.setSlot index (some new)) s' ∧
      LevelRing s' (c.takeWhile (s.addsAfter new) ++ new :: c.dropWhile (s.addsAfter new)) ∧
      s'.best side.toSide = ((c.takeWhile (s.addsAfter new)).head?).or (some new) ∧
      s'.best side.opposite.toSide = s.best side.opposite.toSide ∧
      ∀ x ∉ new :: c, (s'.level x).nextEntry = (s.level x).nextEntry ∧
        (s'.level x).prevEntry = (s.level x).prevEntry := by
  have sideT : ((s.setSlot index (some new)).level new).side = side.toSide := newSide
  have headT : (s.setSlot index (some new)).best side.toSide = c.head? := head
  cases c with
  | nil =>
      have run : s.addOrdersAtPrice L new = .ok ((s.setSlot index (some new)).linkAlone new) := by
        simp only [addOrdersAtPrice, inside, bind, Except.bind, pure, Except.pure, sideT, headT,
          List.head?_nil]
      refine ⟨_, run, ?_, ?_, ?_, ?_, ?_⟩
      · exact (Relinked.setBest _ _ _).trans (Relinked.writeLevel _ _ (by simp))
      · simp [LevelRing, ring_singleton, linkAlone]
      · simp [linkAlone, newSide]
      · simp [linkAlone, newSide]
      · intro x out
        have ne : x ≠ new := by simpa using out
        simp [linkAlone, ne]
  | cons best rest =>
      have linked : (s.level best).nextEntry.isNone = false := by
        obtain ⟨b, -, link⟩ := ring.exists_next (a := best) List.mem_cons_self
        have next : (s.level best).nextEntry = some b := link.1
        rw [next]
        rfl
      have run : s.addOrdersAtPrice L new = (s.setSlot index (some new)).spliceLevel new best := by
        simp only [addOrdersAtPrice, inside, bind, Except.bind, newSide, headT, List.head?_cons,
          level_setSlot, linked, Bool.and_false, Bool.false_eq_true, if_false]
      rw [run]
      exact spliceLevel_spec (s := s.setSlot index (some new)) new ring fresh sideT headT apart room

/-! ## Unlinking -/

theorem unlinkLevel_spec {l₁ l₂ : List Ptr} {x : Ptr} (ring : LevelRing s (l₁ ++ x :: l₂))
    (others : l₁ ++ l₂ ≠ []) (head : s.best side.toSide = (l₁ ++ x :: l₂).head?) :
    ∃ s', s.unlinkLevel side.toSide x = .ok s' ∧ Relinked s s' ∧ LevelRing s' (l₁ ++ l₂) ∧
      s'.best side.toSide = (l₁ ++ l₂).head? ∧
      s'.best side.opposite.toSide = s.best side.opposite.toSide ∧
      ∀ y ∉ l₁ ++ x :: l₂, (s'.level y).nextEntry = (s.level y).nextEntry ∧
        (s'.level y).prevEntry = (s.level y).prevEntry := by
  have memX : x ∈ l₁ ++ x :: l₂ := by simp
  obtain ⟨a, aMem, aLink⟩ := ring.exists_prev memX
  obtain ⟨b, bMem, bLink⟩ := ring.exists_next memX
  have apartFrom : ∀ {y : Ptr}, y = x → l₁ ++ x :: l₂ = [y] → False := by
    rintro y rfl lone
    cases l₁ with
    | nil => simp_all
    | cons z l₁ => simp at lone
  have xa : x ≠ a := by
    rintro rfl
    exact apartFrom rfl (ring.eq_singleton_of_prev memX aLink.2)
  have xb : x ≠ b := by
    rintro rfl
    exact apartFrom rfl (ring.eq_singleton_of_next memX bLink.1)
  have prevX : (s.level x).prevEntry = some a := aLink.2
  have nextX : (s.level x).nextEntry = some b := bLink.1
  -- The state after the two assignments, before the head is looked at.
  obtain ⟨t, tEq⟩ : ∃ t, t = (s.writeLevel a fun n => { n with nextEntry := some b }).writeLevel b
      fun n => { n with prevEntry := some a } := ⟨_, rfl⟩
  have relinked : Relinked s t := by
    rw [tEq]
    exact (Relinked.writeLevel _ _ (by simp)).trans (Relinked.writeLevel _ _ (by simp))
  have nextT : ∀ y, (t.level y).nextEntry = if y = a then some b else (s.level y).nextEntry := by
    intro y
    rw [tEq]
    by_cases ya : y = a <;> by_cases yb : y = b <;> simp_all
  have prevT : ∀ y, (t.level y).prevEntry = if y = b then some a else (s.level y).prevEntry := by
    intro y
    rw [tEq]
    by_cases ya : y = a <;> by_cases yb : y = b <;> simp_all
  have bestT : ∀ side, t.best side = s.best side := by
    intro side
    rw [tEq]
    rfl
  have ringT : LevelRing t (l₁ ++ l₂) := Ring.unlink ring others aLink.2 bLink.1 nextT prevT
  have untouched : ∀ y ∉ l₁ ++ x :: l₂, (t.level y).nextEntry = (s.level y).nextEntry ∧
      (t.level y).prevEntry = (s.level y).prevEntry := by
    intro y out
    have ya : y ≠ a := fun e => out (e ▸ aMem)
    have yb : y ≠ b := fun e => out (e ▸ bMem)
    simp [nextT, prevT, ya, yb]
  have run : s.unlinkLevel side.toSide x =
      .ok (if some x = s.best side.toSide then t.setBest side.toSide (some b) else t) := by
    have nextX' : ((s.writeLevel a fun n => { n with nextEntry := some b }).level x).nextEntry =
        some b := by
      simp [xa, nextX]
    have prevX' : ((s.writeLevel a fun n => { n with nextEntry := some b }).level x).prevEntry =
        some a := by
      simp [xa, prevX]
    have nextT' := nextT x
    rw [if_neg xa, nextX] at nextT'
    simp only [unlinkLevel, prevX, nextX, deref_some, bind, Except.bind, pure, Except.pure, nextX',
      prevX', ← tEq, nextT']
  rw [run, head]
  cases l₁ with
  | nil =>
      cases l₂ with
      | nil => exact (others rfl).elim
      | cons y l₂ =>
          have next : (s.level x).nextEntry = some y := (Ring.link_first ring).1
          rw [nextX, Option.some.injEq] at next
          subst next
          refine ⟨_, rfl, ?_, ?_, ?_, ?_, ?_⟩
          · simpa using relinked.trans (Relinked.setBest _ _ _)
          · simpa [LevelRing] using ringT
          · simp
          · simp [bestT]
          · simpa using untouched
  | cons z l₁ =>
      have zx : x ≠ z := by
        rintro rfl
        simpa using ring.nodup
      refine ⟨_, rfl, ?_, ?_, ?_, ?_, ?_⟩
      · simpa [zx] using relinked
      · simpa [zx] using ringT
      · simpa [zx, bestT] using head
      · simp [zx, bestT]
      · simpa [zx] using untouched

end Splice

/-! ## The invariant -/

/-- The heads, the level links, the price table and the level pool of `s` hold `nodes`. -/
structure Levels (L : BookLayout κ σ) (W stale : Price → Prop) (s : LevelBook κ σ)
    (nodes : BookSide → List LevelNode) : Prop where
  admits : L.Admits s.basePrice W
  head : ∀ side, s.best side.toSide = ((nodes side).map LevelNode.ptr).head?
  ring : ∀ side, s.LevelRing ((nodes side).map LevelNode.ptr)
  side : ∀ {side}, ∀ n ∈ nodes side, (s.level n.ptr).side = side.toSide
  price : ∀ {side}, ∀ n ∈ nodes side, (s.level n.ptr).price = n.price
  sorted : ∀ side, (nodes side).Pairwise (LevelNode.Ahead side)
  apart : ∀ a ∈ nodes .bid, ∀ b ∈ nodes .ask, a.price ≠ b.price
  window : ∀ {side}, ∀ n ∈ nodes side, W n.price
  entry : ∀ {side}, ∀ n ∈ nodes side,
    s.priceOrdersAtPrice (L.index s.basePrice n.price) = some n.ptr
  vacant : ∀ {p}, W p → ¬ stale p → (∀ side, ∀ n ∈ nodes side, n.price ≠ p) →
    s.priceOrdersAtPrice (L.index s.basePrice p) = none
  staleEntry : ∀ {p}, stale p → W p ∧ (∀ side, ∀ n ∈ nodes side, n.price ≠ p) ∧
    s.priceOrdersAtPrice (L.index s.basePrice p) ≠ none
  pool : s.ordersAtPricePool.Holds ((both nodes).map LevelNode.ptr)
  size : s.ordersAtPricePool.size = ME_MAX_PRICE_LEVELS

/-- `s'` differs from `s` in its levels only, and each level keeps its first order. -/
structure OnlyLevels (s s' : LevelBook κ σ) : Prop where
  orderPool : s'.orderPool = s.orderPool
  oidToOrder : s'.oidToOrder = s.oidToOrder
  basePrice : s'.basePrice = s.basePrice

/-- The pointers of a sorted side, with a new level where the search of the source
puts it. -/
theorem splice_eq_orderedInsert {side : BookSide} {new : LevelNode} {after : Ptr → Bool} :
    ∀ (xs : List LevelNode), (∀ x ∈ xs, after x.ptr = true ↔ ¬ LevelNode.Ahead side new x) →
      (xs.map LevelNode.ptr).takeWhile after ++
          new.ptr :: (xs.map LevelNode.ptr).dropWhile after =
        (xs.orderedInsert (LevelNode.Ahead side) new).map LevelNode.ptr
  | [], _ => rfl
  | x :: xs, agrees => by
      have here := agrees x List.mem_cons_self
      have rest := splice_eq_orderedInsert xs fun y mem => agrees y (List.mem_cons_of_mem _ mem)
      by_cases ahead : LevelNode.Ahead side new x
      · have stops : ¬ after x.ptr = true := fun h => here.mp h ahead
        simp [List.orderedInsert, ahead, stops]
      · have goesOn : after x.ptr = true := here.mpr ahead
        simpa [List.orderedInsert, ahead, goesOn] using rest

theorem sorted_orderedInsert {side : BookSide} {new : LevelNode} :
    ∀ {xs : List LevelNode}, xs.Pairwise (LevelNode.Ahead side) →
      (∀ x ∈ xs, x.price ≠ new.price) →
        (xs.orderedInsert (LevelNode.Ahead side) new).Pairwise (LevelNode.Ahead side)
  | [], _, _ => List.pairwise_singleton _ _
  | x :: xs, sorted, fresh => by
      obtain ⟨first, rest⟩ := List.pairwise_cons.mp sorted
      by_cases ahead : LevelNode.Ahead side new x
      · rw [List.orderedInsert_cons_of_le _ _ ahead]
        refine List.pairwise_cons.mpr ⟨fun y mem => ?_, sorted⟩
        rcases List.mem_cons.mp mem with rfl | mem
        · exact ahead
        · exact BookSide.Ahead.trans ahead (first y mem)
      · rw [List.orderedInsert_of_not_le _ _ ahead]
        refine List.pairwise_cons.mpr ⟨fun y mem => ?_,
          sorted_orderedInsert rest fun y mem => fresh y (List.mem_cons_of_mem _ mem)⟩
        rcases (List.mem_orderedInsert _).mp mem with rfl | mem
        · exact (BookSide.Ahead.total (fresh x List.mem_cons_self)).resolve_right ahead
        · exact first y mem

/-- The search of the source puts a new level where its price belongs in a sorted side. -/
theorem addOrdersAtPrice_orderedInsert (L : BookLayout κ σ) {s : LevelBook κ σ} {side : BookSide}
    {nodes : List LevelNode} {new : LevelNode} {index : Nat}
    (ring : LevelRing s (nodes.map LevelNode.ptr))
    (head : s.best side.toSide = (nodes.map LevelNode.ptr).head?)
    (price : ∀ n ∈ nodes, (s.level n.ptr).price = n.price)
    (fresh : new.ptr ∉ nodes.map LevelNode.ptr) (newSide : (s.level new.ptr).side = side.toSide)
    (newPrice : (s.level new.ptr).price = new.price) (apart : ∀ n ∈ nodes, n.price ≠ new.price)
    (room : nodes.length < s.ordersAtPricePool.size)
    (inside : L.priceToIndex s.basePrice new.price = .ok index) :
    ∃ s', s.addOrdersAtPrice L new.ptr = .ok s' ∧ Relinked (s.setSlot index (some new.ptr)) s' ∧
      LevelRing s' ((nodes.orderedInsert (LevelNode.Ahead side) new).map LevelNode.ptr) ∧
      s'.best side.toSide =
        ((nodes.orderedInsert (LevelNode.Ahead side) new).map LevelNode.ptr).head? ∧
      s'.best side.opposite.toSide = s.best side.opposite.toSide ∧
      ∀ x ∉ new.ptr :: nodes.map LevelNode.ptr,
        (s'.level x).nextEntry = (s.level x).nextEntry ∧
          (s'.level x).prevEntry = (s.level x).prevEntry := by
  have others : ∀ x ∈ nodes.map LevelNode.ptr, (s.level x).price ≠ (s.level new.ptr).price := by
    intro x mem
    obtain ⟨n, nMem, rfl⟩ := List.mem_map.mp mem
    rw [price n nMem, newPrice]
    exact apart n nMem
  have agrees : ∀ n ∈ nodes, s.addsAfter new.ptr n.ptr = true ↔ ¬ LevelNode.Ahead side new n := by
    intro n mem
    rw [addsAfter_iff newSide, price n mem, newPrice]
    constructor
    · exact fun ahead => ahead.asymm
    · exact fun behind => (BookSide.Ahead.total (apart n mem)).resolve_right behind
  rw [← List.length_map LevelNode.ptr] at room
  rw [← newPrice] at inside
  obtain ⟨s', added, relinked, newRing, newBest, otherBest, untouched⟩ :=
    addOrdersAtPrice_inserts L new.ptr ring head fresh newSide others room inside
  have splice := splice_eq_orderedInsert nodes agrees
  refine ⟨s', added, relinked, ?_, ?_, otherBest, untouched⟩
  · rw [← splice]
    exact newRing
  · rw [← splice, List.head?_append]
    exact newBest

namespace Levels

variable {L : BookLayout κ σ} {W stale : Price → Prop} {s : LevelBook κ σ}
  {nodes : BookSide → List LevelNode} {side : BookSide}

theorem ptr_nodup (levels : Levels L W stale s nodes) (side : BookSide) :
    ((nodes side).map LevelNode.ptr ++ (nodes side.opposite).map LevelNode.ptr).Nodup := by
  have perm := (perm_both nodes side).map LevelNode.ptr
  rw [List.map_append] at perm
  exact perm.nodup_iff.mp levels.pool.nodup

/-- A level block is linked on one side only. -/
theorem ptr_ne_of_opposite (levels : Levels L W stale s nodes) {a b : LevelNode}
    (memA : a ∈ nodes side) (memB : b ∈ nodes side.opposite) : a.ptr ≠ b.ptr := by
  have nodup := levels.ptr_nodup side
  exact (List.nodup_append.mp nodup).2.2 _ (List.mem_map_of_mem memA) _ (List.mem_map_of_mem memB)

theorem price_ne_of_opposite (levels : Levels L W stale s nodes) {a b : LevelNode}
    (memA : a ∈ nodes side) (memB : b ∈ nodes side.opposite) : a.price ≠ b.price := by
  cases side with
  | bid => exact levels.apart a memA b memB
  | ask => exact (levels.apart b memB a memA).symm

theorem getOrdersAtPrice (levels : Levels L W stale s nodes) {p : Price} (inside : W p) :
    s.getOrdersAtPrice L p = .ok (s.priceOrdersAtPrice (L.index s.basePrice p)) := by
  simp only [LevelBook.getOrdersAtPrice, levels.admits.priceToIndex inside, bind, Except.bind,
    pure, Except.pure]

theorem getOrdersAtPrice_entry (levels : Levels L W stale s nodes) {n : LevelNode}
    (mem : n ∈ nodes side) : s.getOrdersAtPrice L n.price = .ok (some n.ptr) := by
  rw [levels.getOrdersAtPrice (levels.window n mem), levels.entry n mem]

/-- Changing the table entry of one price of the window leaves the others alone. -/
theorem slot_update (levels : Levels L W stale s nodes) {p q : Price} (insideP : W p)
    (insideQ : W q) (new : Option Ptr) :
    Function.update s.priceOrdersAtPrice (L.index s.basePrice p) new (L.index s.basePrice q) =
      if q = p then new else s.priceOrdersAtPrice (L.index s.basePrice q) := by
  by_cases e : q = p
  · subst e
    simp
  · have ne : L.index s.basePrice q ≠ L.index s.basePrice p :=
      fun same => e (levels.admits.injective insideQ insideP same)
    simp [e, ne]

/-- The links of the other side are not touched by a change to `c`. -/
theorem frame_opposite (levels : Levels L W stale s nodes) {s' : LevelBook κ σ} {c : List Ptr}
    (outside : ∀ n ∈ nodes side.opposite, n.ptr ∉ c)
    (untouched : ∀ x ∉ c, (s'.level x).nextEntry = (s.level x).nextEntry ∧
      (s'.level x).prevEntry = (s.level x).prevEntry) :
    s'.LevelRing ((nodes side.opposite).map LevelNode.ptr) := by
  refine Ring.frame (levels.ring side.opposite) ?_ ?_
  · intro x mem
    obtain ⟨n, nMem, rfl⟩ := List.mem_map.mp mem
    exact (untouched _ (outside n nMem)).1
  · intro x mem
    obtain ⟨n, nMem, rfl⟩ := List.mem_map.mp mem
    exact (untouched _ (outside n nMem)).2

/-- The heads, where the list of one side is replaced. -/
theorem head_update (levels : Levels L W stale s nodes) {s' : LevelBook κ σ} {xs : List LevelNode}
    (here : s'.best side.toSide = (xs.map LevelNode.ptr).head?)
    (there : s'.best side.opposite.toSide = s.best side.opposite.toSide) (side' : BookSide) :
    s'.best side'.toSide = ((Function.update nodes side xs side').map LevelNode.ptr).head? := by
  rcases eq_or_ne side' side with rfl | ne
  · rw [Function.update_self, here]
  · have opp := BookSide.eq_opposite_of_ne ne
    subst opp
    rw [Function.update_of_ne ne, there, levels.head]

/-- The circles, where the list of one side is replaced. -/
theorem ring_update (levels : Levels L W stale s nodes) {s' : LevelBook κ σ} {xs : List LevelNode}
    {c : List Ptr} (here : s'.LevelRing (xs.map LevelNode.ptr))
    (outside : ∀ n ∈ nodes side.opposite, n.ptr ∉ c)
    (untouched : ∀ x ∉ c, (s'.level x).nextEntry = (s.level x).nextEntry ∧
      (s'.level x).prevEntry = (s.level x).prevEntry) (side' : BookSide) :
    s'.LevelRing ((Function.update nodes side xs side').map LevelNode.ptr) := by
  rcases eq_or_ne side' side with rfl | ne
  · rw [Function.update_self]
    exact here
  · have opp := BookSide.eq_opposite_of_ne ne
    subst opp
    rw [Function.update_of_ne ne]
    exact levels.frame_opposite outside untouched

/-- `addOrdersAtPrice` on a book `u` whose level pool has just handed out `new`. -/
theorem addOrdersAtPrice_links (levels : Levels L W stale s nodes) {u : LevelBook κ σ}
    (new : LevelNode) {first : Option Ptr} (fresh : ∀ side, ∀ n ∈ nodes side, n.ptr ≠ new.ptr)
    (inside : W new.price) (newPrice : ∀ n ∈ nodes side, n.price ≠ new.price)
    (base : u.basePrice = s.basePrice) (best : ∀ side, u.best side = s.best side)
    (room : (nodes side).length < u.ordersAtPricePool.size)
    (newLevel : u.level new.ptr = .unlinked side.toSide new.price first)
    (oldLevel : ∀ q, q ≠ new.ptr → u.level q = s.level q) :
    ∃ s', LevelBook.addOrdersAtPrice L u new.ptr = .ok s' ∧
      Relinked (u.setSlot (L.index s.basePrice new.price) (some new.ptr)) s' ∧
      s'.LevelRing (((nodes side).orderedInsert (LevelNode.Ahead side) new).map LevelNode.ptr) ∧
      s'.best side.toSide =
        (((nodes side).orderedInsert (LevelNode.Ahead side) new).map LevelNode.ptr).head? ∧
      s'.best side.opposite.toSide = s.best side.opposite.toSide ∧
      ∀ x ∉ new.ptr :: (nodes side).map LevelNode.ptr,
        (s'.level x).nextEntry = (s.level x).nextEntry ∧
          (s'.level x).prevEntry = (s.level x).prevEntry := by
  have out : new.ptr ∉ (nodes side).map LevelNode.ptr := by
    intro mem
    obtain ⟨n, nMem, e⟩ := List.mem_map.mp mem
    exact fresh side n nMem e
  have old : ∀ x ∈ (nodes side).map LevelNode.ptr, u.level x = s.level x :=
    fun x mem => oldLevel x (ne_of_mem_of_not_mem mem out)
  have ring : u.LevelRing ((nodes side).map LevelNode.ptr) :=
    Ring.frame (levels.ring side) (fun x mem => by rw [old x mem]) fun x mem => by rw [old x mem]
  have prices : ∀ n ∈ nodes side, (u.level n.ptr).price = n.price := by
    intro n mem
    rw [oldLevel _ (fresh side n mem), levels.price n mem]
  have newSide : (u.level new.ptr).side = side.toSide := by
    rw [newLevel]
    rfl
  have newPriceU : (u.level new.ptr).price = new.price := by
    rw [newLevel]
    rfl
  have indexed : L.priceToIndex u.basePrice new.price = .ok (L.index s.basePrice new.price) := by
    rw [base]
    exact levels.admits.priceToIndex inside
  obtain ⟨s', added, relinked, newRing, newBest, otherBest, untouched⟩ :=
    addOrdersAtPrice_orderedInsert L ring ((best _).trans (levels.head side)) prices out newSide
      newPriceU newPrice room indexed
  refine ⟨s', added, relinked, newRing, newBest, otherBest.trans (best _), ?_⟩
  intro x xOut
  rw [← oldLevel x (List.ne_of_not_mem_cons xOut)]
  exact untouched x xOut

/-- A new level goes where its price belongs. -/
theorem open_spec (levels : Levels L W stale s nodes) (side : BookSide) {price : Price}
    (first : Option Ptr) (room : (both nodes).length + 1 < ME_MAX_PRICE_LEVELS) (inside : W price)
    (notStale : ¬ stale price) (fresh : ∀ side, ∀ n ∈ nodes side, n.price ≠ price) :
    ∃ ptr pool s',
      s.ordersAtPricePool.allocate
          (.unlinked side.toSide price first) = .ok (ptr, pool) ∧
      LevelBook.addOrdersAtPrice L { s with ordersAtPricePool := pool } ptr = .ok s' ∧
      Levels L W stale s' (Function.update nodes side
        ((nodes side).orderedInsert (LevelNode.Ahead side) ⟨ptr, price⟩)) ∧
      (∀ side, ∀ n ∈ nodes side, n.ptr ≠ ptr) ∧
      (∀ q, (s'.level q).firstOrder = if q = ptr then first else (s.level q).firstOrder) ∧
      OnlyLevels s s' := by
  obtain ⟨ptr, pool, allocated, notLive, holds, size, get⟩ :=
    levels.pool.allocate (by rw [levels.size, List.length_map]; exact room)
      (.unlinked side.toSide price first)
  have freshPtr : ∀ side, ∀ n ∈ nodes side, n.ptr ≠ ptr := by
    rintro side n mem rfl
    exact notLive (List.mem_map_of_mem ((mem_both _).mpr ⟨side, mem⟩))
  have sideRoom : (nodes side).length < pool.size := by
    have total := (perm_both nodes side).length_eq
    rw [List.length_append] at total
    rw [size, levels.size]
    omega
  obtain ⟨s', added, relinked, ring, best, otherBest, untouched⟩ :=
    levels.addOrdersAtPrice_links (u := { s with ordersAtPricePool := pool }) ⟨ptr, price⟩
      freshPtr inside (fresh side) rfl (fun _ => rfl) sideRoom
      ((get ptr).trans (if_pos rfl)) (fun q ne => (get q).trans (if_neg ne))
  have grown := List.perm_orderedInsert (LevelNode.Ahead side) ⟨ptr, price⟩ (nodes side)
  have new : pool.get ptr = .unlinked side.toSide price first := (get ptr).trans (if_pos rfl)
  have old : ∀ {side'}, ∀ n ∈ nodes side', pool.get n.ptr = s.level n.ptr :=
    fun n mem => (get n.ptr).trans (if_neg (freshPtr _ n mem))
  have base : s'.basePrice = s.basePrice := relinked.basePrice
  have slots : ∀ {q}, W q → s'.priceOrdersAtPrice (L.index s'.basePrice q) =
      if q = price then some ptr else s.priceOrdersAtPrice (L.index s.basePrice q) := by
    intro q qInside
    rw [base, relinked.priceOrdersAtPrice]
    exact levels.slot_update inside qInside (some ptr)
  refine ⟨ptr, pool, s', allocated, added, ?_, freshPtr, ?_,
    ⟨relinked.orderPool, relinked.oidToOrder, base⟩⟩
  · refine ⟨base ▸ levels.admits, levels.head_update best otherBest,
      levels.ring_update ring ?_ untouched, ?_, ?_, ?_, ?_, ?_, ?_, ?_, ?_, ?_,
      relinked.size.trans (size.trans levels.size)⟩
    · intro n mem out
      rcases List.mem_cons.mp out with same | out
      · exact freshPtr _ n mem same
      · obtain ⟨m, mMem, same⟩ := List.mem_map.mp out
        exact levels.ptr_ne_of_opposite mMem mem same
    · intro side' n mem
      have kept : (s'.level n.ptr).side = (pool.get n.ptr).side := relinked.side n.ptr
      rcases (mem_grown grown).mp mem with ⟨rfl, rfl⟩ | mem
      · rw [kept, new]
        rfl
      · rw [kept, old n mem, levels.side n mem]
    · intro side' n mem
      have kept : (s'.level n.ptr).price = (pool.get n.ptr).price := relinked.price n.ptr
      rcases (mem_grown grown).mp mem with ⟨rfl, rfl⟩ | mem
      · rw [kept, new]
        rfl
      · rw [kept, old n mem, levels.price n mem]
    · intro side'
      rcases eq_or_ne side' side with rfl | ne
      · rw [Function.update_self]
        exact sorted_orderedInsert (levels.sorted _) (fresh _)
      · rw [Function.update_of_ne ne]
        exact levels.sorted side'
    · intro a memA b memB
      rcases (mem_grown grown).mp memA with ⟨rfl, rfl⟩ | memA
      · rcases (mem_grown grown).mp memB with ⟨absurd, -⟩ | memB
        · cases absurd
        · exact (fresh _ b memB).symm
      · rcases (mem_grown grown).mp memB with ⟨rfl, rfl⟩ | memB
        · exact fresh _ a memA
        · exact levels.apart a memA b memB
    · intro side' n mem
      rcases (mem_grown grown).mp mem with ⟨-, rfl⟩ | mem
      · exact inside
      · exact levels.window n mem
    · intro side' n mem
      rcases (mem_grown grown).mp mem with ⟨-, rfl⟩ | mem
      · rw [slots inside, if_pos rfl]
      · rw [slots (levels.window n mem), if_neg (fresh _ n mem), levels.entry n mem]
    · intro p pInside pNotStale pFree
      have ne : p ≠ price := by
        rintro rfl
        exact pFree side ⟨ptr, p⟩ ((mem_grown grown).mpr (.inl ⟨rfl, rfl⟩)) rfl
      rw [slots pInside, if_neg ne]
      exact levels.vacant pInside pNotStale fun side' n mem =>
        pFree side' n ((mem_grown grown).mpr (.inr mem))
    · intro p isStale
      obtain ⟨pInside, pFree, pSlot⟩ := levels.staleEntry isStale
      have ne : p ≠ price := by
        rintro rfl
        exact notStale isStale
      rw [slots pInside, if_neg ne]
      refine ⟨pInside, fun side' n mem => ?_, pSlot⟩
      rcases (mem_grown grown).mp mem with ⟨-, rfl⟩ | mem
      · exact ne.symm
      · exact pFree side' n mem
    · exact relinked.holds (holds.perm ((perm_both_grown grown).map LevelNode.ptr).symm)
  · intro q
    have kept : (s'.level q).firstOrder = (pool.get q).firstOrder := relinked.firstOrder q
    rw [kept, get]
    split <;> rfl

theorem detachLevel_spec (levels : Levels L W stale s nodes) {l₁ l₂ : List LevelNode}
    {n : LevelNode} (shape : nodes side = l₁ ++ n :: l₂) :
    ∃ t, s.detachLevel side.toSide n.ptr = .ok t ∧
      Relinked s t ∧ t.LevelRing ((l₁ ++ l₂).map LevelNode.ptr) ∧
      t.best side.toSide = ((l₁ ++ l₂).map LevelNode.ptr).head? ∧
      t.best side.opposite.toSide = s.best side.opposite.toSide ∧
      ∀ x ∉ (nodes side).map LevelNode.ptr,
        (t.level x).nextEntry = (s.level x).nextEntry ∧
          (t.level x).prevEntry = (s.level x).prevEntry := by
  have ring := levels.ring side
  have head := levels.head side
  rw [shape, List.map_append, List.map_cons] at ring head
  by_cases lone : l₁ ++ l₂ = []
  · obtain ⟨rfl, rfl⟩ := List.append_eq_nil_iff.mp lone
    have self : (s.level n.ptr).nextEntry = some n.ptr := (ring_singleton.mp ring).1
    refine ⟨s.setBest side.toSide none, by simp [detachLevel, self], Relinked.setBest _ _ _,
      Ring.nil, ?_, ?_, ?_⟩
    · simp
    · simp
    · intro x _
      simp
  · have notSelf : (s.level n.ptr).nextEntry ≠ some n.ptr := by
      intro self
      have single := ring.eq_singleton_of_next (by simp) self
      have length := congrArg List.length single
      simp only [List.length_append, List.length_map, List.length_cons, List.length_nil] at length
      exact lone (List.length_eq_zero_iff.mp (by rw [List.length_append]; omega))
    rw [shape, detachLevel, if_neg notSelf, List.map_append, List.map_append, List.map_cons]
    exact unlinkLevel_spec ring (by simpa using lone) head

/-- What remains of a side is apart from the level that was taken out. -/
theorem ne_of_shrunk (levels : Levels L W stale s nodes) {xs : List LevelNode} {n : LevelNode}
    (shrunk : (nodes side).Perm (n :: xs)) {side' : BookSide} {m : LevelNode}
    (mem : m ∈ Function.update nodes side xs side') : m.ptr ≠ n.ptr ∧ m.price ≠ n.price := by
  have nodup := (levels.pool.perm ((perm_both_shrunk shrunk).map LevelNode.ptr)).nodup
  rw [List.map_cons, List.nodup_cons] at nodup
  have apart : m.ptr ≠ n.ptr :=
    ne_of_mem_of_not_mem (List.mem_map_of_mem ((mem_both _).mpr ⟨side', mem⟩)) nodup.1
  refine ⟨apart, fun same => apart ?_⟩
  -- Two levels of one price would share their table entry.
  have entry := levels.entry m ((mem_shrunk shrunk).mpr (.inr mem))
  rw [same, levels.entry n ((mem_shrunk shrunk).mpr (.inl ⟨rfl, rfl⟩))] at entry
  exact (Option.some.inj entry).symm

/-- A level is taken out of its side, its table entry is nulled and its block freed. -/
theorem close_spec (levels : Levels L W stale s nodes) {l₁ l₂ : List LevelNode} {n : LevelNode}
    (shape : nodes side = l₁ ++ n :: l₂) :
    ∃ s', s.removeOrdersAtPrice L side.toSide n.price = .ok s' ∧
      Levels L W stale s' (Function.update nodes side (l₁ ++ l₂)) ∧
      (∀ q, (s'.level q).firstOrder = (s.level q).firstOrder) ∧ OnlyLevels s s' := by
  have shrunk : (nodes side).Perm (n :: (l₁ ++ l₂)) := by
    rw [shape]
    exact List.perm_middle
  have mem : n ∈ nodes side := shrunk.mem_iff.mpr List.mem_cons_self
  have inside := levels.window n mem
  have old : ∀ {side' m}, m ∈ Function.update nodes side (l₁ ++ l₂) side' → m ∈ nodes side' :=
    fun mMem => (mem_shrunk shrunk).mpr (.inr mMem)
  have apart : ∀ {side' m}, m ∈ Function.update nodes side (l₁ ++ l₂) side' →
      m.ptr ≠ n.ptr ∧ m.price ≠ n.price := fun mMem => levels.ne_of_shrunk shrunk mMem
  obtain ⟨t, unlinked, relinked, ring, best, otherBest, untouched⟩ :=
    levels.detachLevel_spec shape
  obtain ⟨v, vEq, relinkedV, bestV, linksV⟩ := relinked.nullLinks n.ptr
    (L.nullsLoneLinks || !decide ((s.level n.ptr).nextEntry = some n.ptr))
  obtain ⟨pool, freed, holds, size, get⟩ := (relinkedV.holds (levels.pool.perm
    ((perm_both_shrunk shrunk).map LevelNode.ptr))).deallocate List.mem_cons_self
  rw [List.map_cons, List.erase_cons_head] at holds
  have baseV : v.basePrice = s.basePrice := relinkedV.basePrice
  obtain ⟨s', sEq⟩ : ∃ s', s' =
      { v.setSlot (L.index s.basePrice n.price) none with ordersAtPricePool := pool } := ⟨_, rfl⟩
  have run : s.removeOrdersAtPrice L side.toSide n.price = .ok s' := by
    have freed' : (v.setSlot (L.index s.basePrice n.price) none).ordersAtPricePool.deallocate
        n.ptr = .ok pool := freed
    simp only [LevelBook.removeOrdersAtPrice, levels.getOrdersAtPrice_entry mem, deref_some, bind,
      Except.bind, pure, Except.pure, unlinked, ← vEq, baseV, levels.admits.priceToIndex inside,
      freed', sEq]
  have level' : ∀ q, s'.level q = v.level q := by
    intro q
    rw [sEq]
    exact get q
  have best' : ∀ side, s'.best side = t.best side := by
    intro side
    rw [← bestV, sEq]
    rfl
  have base' : s'.basePrice = s.basePrice := by
    rw [sEq]
    exact baseV
  have slots' : ∀ {q}, W q → s'.priceOrdersAtPrice (L.index s'.basePrice q) =
      if q = n.price then none else s.priceOrdersAtPrice (L.index s.basePrice q) := by
    intro q qInside
    rw [base', ← levels.slot_update inside qInside none, sEq, ← relinkedV.priceOrdersAtPrice]
    rfl
  refine ⟨s', run, ?_, ?_, ⟨?_, ?_, base'⟩⟩
  · refine ⟨base' ▸ levels.admits, ?_, ?_, ?_, ?_, ?_, ?_, ?_, ?_, ?_, ?_, ?_, ?_⟩
    · intro side'
      rw [best']
      exact levels.head_update best otherBest side'
    · intro side'
      have before := levels.ring_update ring (fun m mMem out => by
        obtain ⟨k, kMem, same⟩ := List.mem_map.mp out
        exact levels.ptr_ne_of_opposite kMem mMem same) untouched side'
      refine Ring.frame before ?_ ?_
      · intro x xMem
        obtain ⟨m, mMem, rfl⟩ := List.mem_map.mp xMem
        rw [level']
        exact (linksV _ (apart mMem).1).1
      · intro x xMem
        obtain ⟨m, mMem, rfl⟩ := List.mem_map.mp xMem
        rw [level']
        exact (linksV _ (apart mMem).1).2
    · intro side' m mMem
      rw [level', relinkedV.side, levels.side m (old mMem)]
    · intro side' m mMem
      rw [level', relinkedV.price, levels.price m (old mMem)]
    · intro side'
      rcases eq_or_ne side' side with rfl | ne
      · have sorted := levels.sorted side'
        rw [shape] at sorted
        rw [Function.update_self]
        exact sorted.sublist ((List.sublist_cons_self n l₂).append_left l₁)
      · rw [Function.update_of_ne ne]
        exact levels.sorted side'
    · intro a memA b memB
      exact levels.apart a (old memA) b (old memB)
    · intro side' m mMem
      exact levels.window m (old mMem)
    · intro side' m mMem
      rw [slots' (levels.window m (old mMem)), if_neg (apart mMem).2, levels.entry m (old mMem)]
    · intro p pInside pNotStale pFree
      rw [slots' pInside]
      split
      · rfl
      · rename_i ne
        refine levels.vacant pInside pNotStale fun side' m mMem => ?_
        rcases (mem_shrunk shrunk).mp mMem with ⟨-, rfl⟩ | mMem
        · exact fun same => ne same.symm
        · exact pFree side' m mMem
    · intro p isStale
      obtain ⟨pInside, pFree, pSlot⟩ := levels.staleEntry isStale
      rw [slots' pInside, if_neg (pFree side n mem).symm]
      exact ⟨pInside, fun side' m mMem => pFree side' m (old mMem), pSlot⟩
    · rw [sEq]
      exact holds
    · rw [sEq]
      exact size.trans (relinkedV.size.trans levels.size)
  · intro q
    rw [level', relinkedV.firstOrder]
  · rw [sEq, ← relinkedV.orderPool]
    rfl
  · rw [sEq, ← relinkedV.oidToOrder]
    rfl

end Levels

end LevelBook

end NanoTrade
