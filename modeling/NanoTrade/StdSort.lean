import Mathlib.Data.List.Sort

/-!
# What a sort may return

`std::sort` promises a permutation of its input in the order of a strict weak order, and
nothing about elements that compare equal. `StdSort.filter_eq_iff`: it keeps the order of
a set of mutually tied elements exactly when they are all the same.
-/

namespace NanoTrade

variable {α : Type} {lt : α → α → Bool} {p : α → Bool} {input output : List α}

/-- The results that a call of `std::sort` with `lt` may have. -/
structure StdSort (lt : α → α → Bool) (input output : List α) : Prop where
  perm : output.Perm input
  ordered : output.Pairwise fun a b => lt b a = false

/-- A comparison that a sort accepts. -/
structure StrictWeak (lt : α → α → Bool) : Prop where
  asymm : ∀ a b, lt a b = true → lt b a = false
  trans : ∀ a b c, lt b a = false → lt c b = false → lt c a = false

namespace StrictWeak

variable (weak : StrictWeak lt)
include weak

/-- A stable sort is one of the results, from every rearrangement of the input. -/
theorem sorts {arranged : List α} (perm : arranged.Perm input) :
    StdSort lt input (arranged.mergeSort fun a b => !lt b a) := by
  constructor
  · exact (arranged.mergeSort_perm _).trans perm
  · have sorted := @List.pairwise_mergeSort _ (fun a b => !lt b a)
      (fun a b c => by simpa using weak.trans a b c)
      (fun a b => by
        cases forward : lt b a with
        | false => simp
        | true => simp [weak.asymm b a forward]) arranged
    exact sorted.imp fun h => by simpa using h

/-- Tied elements leave a stable sort as they entered it. -/
theorem mergeSort_filter (tied : ∀ a b, p a = true → p b = true → lt a b = false)
    (arranged : List α) :
    (arranged.mergeSort fun a b => !lt b a).filter p = arranged.filter p := by
  have ordered : (arranged.filter p).Pairwise fun a b => (!lt b a) = true :=
    List.pairwise_of_forall_mem_list fun a memA b memB => by
      simpa using tied b a (List.mem_filter.mp memB).2 (List.mem_filter.mp memA).2
  have kept : (arranged.filter p).Sublist (arranged.mergeSort fun a b => !lt b a) :=
    List.sublist_mergeSort
      (fun a b c => by simpa using weak.trans a b c)
      (fun a b => by
        cases forward : lt b a with
        | false => simp
        | true => simp [weak.asymm b a forward])
      ordered List.filter_sublist
  have found := kept.filter p
  rw [List.filter_filter] at found
  simp only [Bool.and_self] at found
  have size := ((arranged.mergeSort_perm fun a b => !lt b a).filter p).length_eq
  exact (found.eq_of_length size.symm).symm

end StrictWeak

/-- Every result keeps the order of a set of tied elements if and only if the input holds
at most one value of the set. -/
theorem StdSort.filter_eq_iff (weak : StrictWeak lt)
    (tied : ∀ a b, p a = true → p b = true → lt a b = false) :
    (∀ output, StdSort lt input output → output.filter p = input.filter p) ↔
      ∀ a ∈ input, ∀ b ∈ input, p a = true → p b = true → a = b := by
  constructor
  · intro keeps a memA b memB isA isB
    -- two rearrangements of the input, one led by `a`, the other by `b`
    have led : ∀ x ∈ input, p x = true → (input.filter p).head? = some x := by
      intro x mem meets
      classical
      have perm : (x :: input.erase x).Perm input := (List.perm_cons_erase mem).symm
      rw [← keeps _ (weak.sorts perm), weak.mergeSort_filter tied, List.filter_cons_of_pos meets]
      rfl
    exact Option.some.inj ((led a memA isA).symm.trans (led b memB isB))
  · intro same output sorts
    have perm := sorts.perm.filter p
    refine List.Perm.eq_of_pairwise (fun a b _ _ (equal : a = b) _ => equal) ?_ ?_ perm
    · exact List.pairwise_of_forall_mem_list fun a memA b memB =>
        same a (sorts.perm.mem_iff.mp (List.mem_filter.mp memA).1)
          b (sorts.perm.mem_iff.mp (List.mem_filter.mp memB).1)
          (List.mem_filter.mp memA).2 (List.mem_filter.mp memB).2
    · exact List.pairwise_of_forall_mem_list fun a memA b memB =>
        same a (List.mem_filter.mp memA).1 b (List.mem_filter.mp memB).1
          (List.mem_filter.mp memA).2 (List.mem_filter.mp memB).2

end NanoTrade
