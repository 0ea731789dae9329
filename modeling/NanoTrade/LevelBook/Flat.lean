import NanoTrade.LevelBook.Rep

/-!
# A side as one list

Price-time priority does not need levels: `Book.flat` is the list of all orders of a
side with their prices, the first one to be filled first. A new order goes behind
those that rank at least as high (`Joins.flat_eq`), an order that leaves or changes
its quantity does so in place (`Book.flat_requeue`, `Book.flat_replace`).

The levels are not lost: they are the maximal runs of equal prices (`groups_flat`).
-/

namespace NanoTrade

variable {κ σ α β : Type}

/-- `a` ranks strictly ahead of `b`, by price. -/
def PriceAhead (side : BookSide) (a b : Price × α) : Prop :=
  side.Ahead a.1 b.1

instance (side : BookSide) : DecidableRel (PriceAhead (α := α) side) :=
  fun a b => inferInstanceAs (Decidable (side.Ahead a.1 b.1))

/-! ## Insertion behind equals -/

section Insertion

variable {r : α → α → Prop} [DecidableRel r] {x : α}

theorem orderedInsert_append {xs ys : List α} (stays : ∀ a ∈ xs, ¬ r x a) :
    (xs ++ ys).orderedInsert r x = xs ++ ys.orderedInsert r x := by
  induction xs with
  | nil => rfl
  | cons a xs ih =>
      rw [List.cons_append, List.orderedInsert_of_not_le _ _ (stays a List.mem_cons_self),
        ih fun b mem => stays b (List.mem_cons_of_mem _ mem), List.cons_append]

theorem orderedInsert_eq_cons {ys : List α} (ahead : ∀ a ∈ ys, r x a) :
    ys.orderedInsert r x = x :: ys := by
  cases ys with
  | nil => rfl
  | cons a ys => exact List.orderedInsert_cons_of_le _ _ (ahead a List.mem_cons_self)

end Insertion

/-! ## Runs of equal prices -/

/-- The maximal runs of equal prices. -/
def groups : List (Price × α) → List (Price × List α)
  | [] => []
  | (p, a) :: rest =>
    match groups rest with
    | [] => [(p, [a])]
    | (q, run) :: runs => if p = q then (p, a :: run) :: runs else (p, [a]) :: (q, run) :: runs

theorem groups_map (f : Price → α → β) (xs : List (Price × α)) :
    groups (xs.map fun x => (x.1, f x.1 x.2)) =
      (groups xs).map fun run => (run.1, run.2.map (f run.1)) := by
  induction xs with
  | nil => rfl
  | cons x xs ih =>
      obtain ⟨p, a⟩ := x
      simp only [List.map_cons, groups, ih]
      cases groups xs with
      | nil => rfl
      | cons run runs =>
          obtain ⟨q, run⟩ := run
          by_cases e : p = q
          · subst e
            simp
          · simp [e]

/-- The runs one after the other are the list. -/
theorem flatMap_groups (xs : List (Price × α)) :
    (groups xs).flatMap (fun run => run.2.map fun a => (run.1, a)) = xs := by
  induction xs with
  | nil => rfl
  | cons x xs ih =>
      obtain ⟨p, a⟩ := x
      rw [groups]
      cases shape : groups xs with
      | nil =>
          rw [shape] at ih
          rw [← ih]
          rfl
      | cons run runs =>
          rw [shape, List.flatMap_cons] at ih
          by_cases same : p = run.1
          · simp only [same, if_true, List.flatMap_cons, List.map_cons, List.cons_append, ih]
          · simp only [same, if_false, List.flatMap_cons, List.map_cons, List.map_nil,
              List.singleton_append, ih]

theorem flatMap_snd_groups (xs : List (Price × α)) :
    (groups xs).flatMap (·.2) = xs.map Prod.snd := by
  have runs := congrArg (List.map Prod.snd) (flatMap_groups xs)
  rw [List.map_flatMap] at runs
  rw [← runs]
  simp

theorem groups_injective {xs ys : List (Price × α)} (same : groups xs = groups ys) : xs = ys := by
  rw [← flatMap_groups xs, same, flatMap_groups]

/-- The price of a run is that of an element. -/
theorem exists_of_mem_groups {xs : List (Price × α)} {run : Price × List α}
    (mem : run ∈ groups xs) : ∃ x ∈ xs, x.1 = run.1 := by
  induction xs with
  | nil => cases mem
  | cons x xs ih =>
      obtain ⟨p, a⟩ := x
      rw [groups] at mem
      have later : run ∈ groups xs → ∃ x ∈ (p, a) :: xs, x.1 = run.1 := by
        intro old
        obtain ⟨x, xMem, price⟩ := ih old
        exact ⟨x, List.mem_cons_of_mem _ xMem, price⟩
      have here : p = run.1 → ∃ x ∈ (p, a) :: xs, x.1 = run.1 :=
        fun price => ⟨_, List.mem_cons_self, price⟩
      cases shape : groups xs with
      | nil =>
          rw [shape] at mem
          cases List.mem_singleton.mp mem
          exact here rfl
      | cons first runs =>
          rw [shape] at mem later
          simp only at mem
          split at mem
          · rcases List.mem_cons.mp mem with rfl | old
            · exact here rfl
            · exact later (List.mem_cons_of_mem _ old)
          · rcases List.mem_cons.mp mem with rfl | old
            · exact here rfl
            · exact later old

/-- Every element is in a run of its price. -/
theorem mem_groups {xs : List (Price × α)} {x : Price × α} (mem : x ∈ xs) :
    ∃ run ∈ groups xs, run.1 = x.1 ∧ x.2 ∈ run.2 := by
  induction xs with
  | nil => cases mem
  | cons y xs ih =>
      obtain ⟨p, a⟩ := y
      rw [groups]
      rcases List.mem_cons.mp mem with rfl | later
      · cases groups xs with
        | nil => exact ⟨(p, [a]), List.mem_singleton_self _, rfl, List.mem_singleton_self _⟩
        | cons run runs =>
            by_cases same : p = run.1
            · simp only [same, if_true]
              exact ⟨_, List.mem_cons_self, rfl, List.mem_cons_self⟩
            · simp only [same, if_false]
              exact ⟨_, List.mem_cons_self, rfl, List.mem_singleton_self _⟩
      · obtain ⟨run, runMem, price, inside⟩ := ih later
        cases shape : groups xs with
        | nil =>
            rw [shape] at runMem
            cases runMem
        | cons first runs =>
            rw [shape] at runMem
            by_cases same : p = first.1
            · simp only [same, if_true]
              rcases List.mem_cons.mp runMem with rfl | there
              · exact ⟨_, List.mem_cons_self, price, List.mem_cons_of_mem _ inside⟩
              · exact ⟨run, List.mem_cons_of_mem _ there, price, inside⟩
            · simp only [same, if_false]
              exact ⟨run, List.mem_cons_of_mem _ runMem, price, inside⟩

/-- One more run in front. -/
theorem groups_append {p : Price} {run : List α} (filled : run ≠ []) {rest : List (Price × α)}
    (other : ∀ x ∈ rest, x.1 ≠ p) :
    groups (run.map (fun a => (p, a)) ++ rest) = (p, run) :: groups rest := by
  induction run with
  | nil => exact (filled rfl).elim
  | cons a run ih =>
      cases run with
      | nil =>
          cases rest with
          | nil => rfl
          | cons x rest =>
              obtain ⟨q, b⟩ := x
              have qp : p ≠ q := (other (q, b) List.mem_cons_self).symm
              have first : ∃ run runs, groups ((q, b) :: rest) = (q, run) :: runs := by
                simp only [groups]
                cases groups rest with
                | nil => exact ⟨_, _, rfl⟩
                | cons run runs =>
                    obtain ⟨q', run⟩ := run
                    by_cases e : q = q'
                    · exact ⟨_, _, if_pos e⟩
                    · exact ⟨_, _, if_neg e⟩
              obtain ⟨run, runs, shape⟩ := first
              simp only [List.map_cons, List.map_nil, List.cons_append, List.nil_append]
              rw [groups, shape]
              simp [qp]
      | cons b run =>
          have tail := ih (List.cons_ne_nil _ _)
          rw [List.map_cons, List.cons_append, groups, tail]
          simp

namespace Book

variable {book : Book κ} {side : BookSide} {l₁ l₂ : List (RestingLevel κ)} {l : RestingLevel κ}
  {o₁ o₂ : List (RestingOrder κ)} {o : RestingOrder κ} {price : Price}

/-- The orders of a level with its price. -/
def priced (l : RestingLevel κ) : List (Price × RestingOrder κ) :=
  l.orders.map fun o => (l.price, o)

/-- All orders of a side in price-time priority. -/
def flat (book : Book κ) (side : BookSide) : List (Price × RestingOrder κ) :=
  (book side).flatMap priced

theorem mem_flat {x : Price × RestingOrder κ} :
    x ∈ book.flat side ↔ ∃ l ∈ book side, l.price = x.1 ∧ x.2 ∈ l.orders := by
  obtain ⟨p, o⟩ := x
  simp only [flat, priced, List.mem_flatMap, List.mem_map, Prod.mk.injEq]
  constructor
  · rintro ⟨l, mem, o', oMem, rfl, rfl⟩
    exact ⟨l, mem, rfl, oMem⟩
  · rintro ⟨l, mem, rfl, oMem⟩
    exact ⟨l, mem, o, oMem, rfl, rfl⟩

theorem mem_orders_flat : o ∈ book.orders ↔ ∃ side p, (p, o) ∈ book.flat side := by
  simp only [mem_orders, mem_flat]
  constructor
  · rintro ⟨side, l, mem, oMem⟩
    exact ⟨side, l.price, l, mem, rfl, oMem⟩
  · rintro ⟨side, _, l, mem, _, oMem⟩
    exact ⟨side, l, mem, oMem⟩

theorem orders_perm_flat (side : BookSide) :
    book.orders.Perm ((book.flat side ++ book.flat side.opposite).map Prod.snd) := by
  have whole := (perm_both book side).flatMap_right RestingLevel.orders
  refine whole.trans (.of_eq ?_)
  have one : ∀ xs : List (RestingLevel κ), (xs.flatMap priced).map Prod.snd =
      xs.flatMap RestingLevel.orders := by
    intro xs
    rw [List.map_flatMap]
    congr 1
    funext l
    simp [priced, Function.comp_def]
  rw [List.map_append, flat, flat, one, one, List.flatMap_append]

theorem flat_update_opposite {xs : List (RestingLevel κ)} :
    flat (Function.update book side xs) side.opposite = book.flat side.opposite := by
  rw [flat, Function.update_of_ne BookSide.opposite_ne, flat]

/-- Where the order `o` of the level `l` stands on its side. -/
theorem flat_split (shape : book side = l₁ ++ l :: l₂) (split : l.orders = o₁ ++ o :: o₂) :
    book.flat side = (l₁.flatMap priced ++ o₁.map fun o => (l.price, o)) ++
      (l.price, o) :: ((o₂.map fun o => (l.price, o)) ++ l₂.flatMap priced) := by
  simp [flat, priced, shape, split]

theorem flat_requeue (book : Book κ) (side : BookSide) (l₁ : List (RestingLevel κ))
    (l : RestingLevel κ) (o₁ o₂ : List (RestingOrder κ)) (l₂ : List (RestingLevel κ)) :
    flat (Function.update book side (requeue l₁ l (o₁ ++ o₂) l₂)) side =
      (l₁.flatMap priced ++ o₁.map fun o => (l.price, o)) ++
        ((o₂.map fun o => (l.price, o)) ++ l₂.flatMap priced) := by
  by_cases lone : o₁ ++ o₂ = []
  · obtain ⟨rfl, rfl⟩ := List.append_eq_nil_iff.mp lone
    simp [flat, requeue]
  · simp [flat, requeue, lone, priced]

theorem flat_replace (book : Book κ) (side : BookSide) (l₁ : List (RestingLevel κ))
    (l : RestingLevel κ) (o₁ : List (RestingOrder κ)) (o : RestingOrder κ)
    (o₂ : List (RestingOrder κ)) (l₂ : List (RestingLevel κ)) :
    flat (Function.update book side (l₁ ++ { l with orders := o₁ ++ o :: o₂ } :: l₂)) side =
      (l₁.flatMap priced ++ o₁.map fun o => (l.price, o)) ++
        (l.price, o) :: ((o₂.map fun o => (l.price, o)) ++ l₂.flatMap priced) := by
  simp [flat, priced]

/-- Every place of the flat list is a place in a level. -/
theorem flat_cases {f₁ f₂ : List (Price × RestingOrder κ)}
    (shape : book.flat side = f₁ ++ (price, o) :: f₂) :
    ∃ l₁ l l₂ o₁ o₂, book side = l₁ ++ l :: l₂ ∧ l.orders = o₁ ++ o :: o₂ ∧ l.price = price ∧
      f₁ = (l₁.flatMap priced ++ o₁.map fun o => (l.price, o)) ∧
      f₂ = (o₂.map fun o => (l.price, o)) ++ l₂.flatMap priced := by
  rw [flat] at shape
  generalize book side = levels at shape
  induction levels generalizing f₁ with
  | nil => simp at shape
  | cons m levels ih =>
      rw [List.flatMap_cons, List.append_eq_append_iff] at shape
      rcases shape with ⟨g, rfl, tail⟩ | ⟨g, own, tail⟩
      · obtain ⟨l₁, l, l₂, o₁, o₂, rfl, split, same, rfl, rfl⟩ := ih tail
        exact ⟨m :: l₁, l, l₂, o₁, o₂, rfl, split, same, by simp, rfl⟩
      · cases g with
        | nil =>
            have start : levels.flatMap priced = [] ++ (price, o) :: f₂ := by simpa using tail.symm
            obtain ⟨l₁, l, l₂, o₁, o₂, rfl, split, same, before, rfl⟩ := ih start
            refine ⟨m :: l₁, l, l₂, o₁, o₂, rfl, split, same, ?_, rfl⟩
            rw [List.append_nil] at own
            rw [List.flatMap_cons, List.append_assoc, ← before, List.append_nil, own]
        | cons y g =>
            rw [List.cons_append, List.cons.injEq] at tail
            obtain ⟨rfl, rfl⟩ := tail
            rw [priced] at own
            obtain ⟨o₁, rest, split, rfl, mapped⟩ := List.map_eq_append_iff.mp own
            obtain ⟨o', o₂, rfl, first, rfl⟩ := List.map_eq_cons_iff.mp mapped
            rw [Prod.mk.injEq] at first
            obtain ⟨same, rfl⟩ := first
            exact ⟨[], m, levels, o₁, o₂, rfl, split, same, rfl, rfl⟩

/-- The front of a side is the first order of its first level. -/
theorem front (filled : ∀ l ∈ book side, l.orders ≠ []) {rest : List (Price × RestingOrder κ)}
    (shape : book.flat side = (price, o) :: rest) :
    ∃ l l₂ o₂, book side = l :: l₂ ∧ l.orders = o :: o₂ ∧ l.price = price ∧
      rest = (o₂.map fun o => (l.price, o)) ++ l₂.flatMap priced := by
  cases levels : book side with
  | nil =>
      rw [flat, levels] at shape
      cases shape
  | cons l l₂ =>
      obtain ⟨o', o₂, orders⟩ := List.exists_cons_of_ne_nil (filled l (by rw [levels]; simp))
      have split := flat_split (show book side = [] ++ l :: l₂ from levels)
        (show l.orders = [] ++ o' :: o₂ from orders)
      rw [shape] at split
      simp only [List.flatMap_nil, List.map_nil, List.nil_append, List.cons.injEq,
        Prod.mk.injEq] at split
      obtain ⟨⟨samePrice, rfl⟩, tail⟩ := split
      exact ⟨l, l₂, o₂, rfl, orders, samePrice.symm, tail⟩

theorem flat_eq_nil (filled : ∀ l ∈ book side, l.orders ≠ []) :
    book.flat side = [] ↔ book side = [] := by
  constructor
  · intro empty
    cases levels : book side with
    | nil => rfl
    | cons l l₂ =>
        obtain ⟨o', o₂, orders⟩ := List.exists_cons_of_ne_nil (filled l (by rw [levels]; simp))
        simp [flat, levels, priced, orders] at empty
  · intro empty
    rw [flat, empty]
    rfl

/-- The flat list is sorted as the levels are. -/
theorem flat_sorted (sorted : (book.nodes side).Pairwise (LevelNode.Ahead side)) :
    (book.flat side).Pairwise fun a b => ¬ PriceAhead side b a := by
  rw [nodes, List.pairwise_map] at sorted
  rw [flat, List.pairwise_flatMap]
  constructor
  · intro l _
    rw [priced, List.pairwise_map]
    exact List.pairwise_of_forall fun _ _ => BookSide.Ahead.irrefl
  · refine sorted.imp fun {a b} ahead => ?_
    intro x xMem y yMem
    obtain ⟨o, _, rfl⟩ := List.mem_map.mp xMem
    obtain ⟨o', _, rfl⟩ := List.mem_map.mp yMem
    exact BookSide.Ahead.asymm ahead

/-- The orders of one price are those of its level. -/
theorem filter_flat (sorted : (book.nodes side).Pairwise (LevelNode.Ahead side))
    (mem : l ∈ book side) : ((book.flat side).filter fun x => x.1 = l.price) = priced l := by
  obtain ⟨l₁, l₂, shape⟩ := List.append_of_mem mem
  rw [nodes, List.pairwise_map, shape, List.pairwise_append, List.pairwise_cons] at sorted
  obtain ⟨-, ⟨after, -⟩, before⟩ := sorted
  have other : ∀ xs : List (RestingLevel κ), (∀ m ∈ xs, m.price ≠ l.price) →
      (xs.flatMap priced).filter (fun x => decide (x.1 = l.price)) = [] := by
    intro xs differ
    refine List.filter_eq_nil_iff.mpr fun x xMem => ?_
    obtain ⟨m, mMem, xMem⟩ := List.mem_flatMap.mp xMem
    obtain ⟨o, _, rfl⟩ := List.mem_map.mp xMem
    simpa using differ m mMem
  have own : (priced l).filter (fun x => decide (x.1 = l.price)) = priced l := by
    refine List.filter_eq_self.mpr fun x xMem => ?_
    obtain ⟨o, _, rfl⟩ := List.mem_map.mp xMem
    simp
  rw [flat, shape, List.flatMap_append, List.flatMap_cons, List.filter_append, List.filter_append,
    other l₁ fun m mMem => BookSide.Ahead.ne (before m mMem l List.mem_cons_self),
    other l₂ fun m mMem => (BookSide.Ahead.ne (after m mMem)).symm, own, List.nil_append,
    List.append_nil]

/-- The levels are the runs of the flat list. -/
theorem groups_flat (filled : ∀ l ∈ book side, l.orders ≠ [])
    (sorted : (book.nodes side).Pairwise (LevelNode.Ahead side)) :
    groups (book.flat side) = (book side).map fun l => (l.price, l.orders) := by
  rw [nodes, List.pairwise_map] at sorted
  rw [flat]
  generalize book side = levels at filled sorted
  induction levels with
  | nil => rfl
  | cons l levels ih =>
      obtain ⟨first, rest⟩ := List.pairwise_cons.mp sorted
      rw [List.flatMap_cons, priced, groups_append (filled l List.mem_cons_self), List.map_cons,
        ih (fun m mem => filled m (List.mem_cons_of_mem _ mem)) rest]
      intro x mem
      obtain ⟨m, mMem, xMem⟩ := List.mem_flatMap.mp mem
      obtain ⟨o, _, rfl⟩ := List.mem_map.mp xMem
      exact (BookSide.Ahead.ne (first m mMem)).symm

end Book

/-- Price-time priority of a new order: behind all that rank at least as high. -/
theorem LevelBook.Joins.flat_eq {side : BookSide} {price : Price} {o : RestingOrder κ}
    {book book' : Book κ} (joins : Joins side price o book book')
    (filled : ∀ l ∈ book side, l.orders ≠ [])
    (sorted : (book.nodes side).Pairwise (LevelNode.Ahead side)) :
    book'.flat side = (book.flat side).orderedInsert (PriceAhead side) (price, o) ∧
      book'.flat side.opposite = book.flat side.opposite := by
  rw [Book.nodes, List.pairwise_map] at sorted
  cases joins with
  | @behind l₁ l₂ l shape same =>
      refine ⟨?_, Book.flat_update_opposite⟩
      subst same
      rw [shape, List.pairwise_append, List.pairwise_cons] at sorted
      obtain ⟨-, ⟨after, -⟩, before⟩ := sorted
      have here : book.flat side =
          (l₁.flatMap Book.priced ++ Book.priced l) ++ l₂.flatMap Book.priced := by
        simp [Book.flat, shape]
      rw [here, orderedInsert_append, orderedInsert_eq_cons, Book.flat_replace]
      · simp [Book.priced]
      · intro x mem
        obtain ⟨m, mMem, xMem⟩ := List.mem_flatMap.mp mem
        obtain ⟨o', _, rfl⟩ := List.mem_map.mp xMem
        exact after m mMem
      · intro x mem
        rcases List.mem_append.mp mem with mem | mem
        · obtain ⟨m, mMem, xMem⟩ := List.mem_flatMap.mp mem
          obtain ⟨o', _, rfl⟩ := List.mem_map.mp xMem
          exact BookSide.Ahead.asymm (before m mMem l List.mem_cons_self)
        · obtain ⟨o', _, rfl⟩ := List.mem_map.mp mem
          exact BookSide.Ahead.irrefl
  | alone ptr fresh =>
      refine ⟨?_, Book.flat_update_opposite⟩
      rw [Book.flat, Function.update_self, Book.flat]
      generalize book side = levels at filled sorted fresh
      induction levels with
      | nil => rfl
      | cons l levels ih =>
          obtain ⟨first, rest⟩ := List.pairwise_cons.mp sorted
          by_cases ahead : Book.Ahead side ⟨⟨ptr, price⟩, [o]⟩ l
          · rw [List.orderedInsert_cons_of_le _ _ ahead, orderedInsert_eq_cons]
            · rfl
            · intro x mem
              obtain ⟨m, mMem, xMem⟩ := List.mem_flatMap.mp mem
              obtain ⟨o', _, rfl⟩ := List.mem_map.mp xMem
              rcases List.mem_cons.mp mMem with rfl | mMem
              · exact ahead
              · exact BookSide.Ahead.trans ahead (first m mMem)
          · rw [List.orderedInsert_of_not_le _ _ ahead, List.flatMap_cons, List.flatMap_cons,
              orderedInsert_append, ih (fun m mem => filled m (List.mem_cons_of_mem _ mem)) rest
                fun m mem => fresh m (List.mem_cons_of_mem _ mem)]
            intro x mem
            obtain ⟨o', _, rfl⟩ := List.mem_map.mp mem
            exact ahead

end NanoTrade
