import Mathlib.Data.List.Sort

/-!
# Values by their rank

`HasRank xs k x`: a sorted rearrangement of `xs` has `x` at `k`. It is said by counting, so
that it does not depend on the order of `xs`; a sort finds it (`hasRank_getElem`), it is the
only one (`HasRank.unique`), and a greater rank has no smaller value (`HasRank.le`).
-/

namespace NanoTrade

variable {α : Type} [LinearOrder α] {xs ys : List α} {k l : Nat} {x y : α}

/-- At most `k` of the values are below `x`, and more than `k` are not above it. -/
structure HasRank (xs : List α) (k : Nat) (x : α) : Prop where
  mem : x ∈ xs
  below : xs.countP (· < x) ≤ k
  upTo : k < xs.countP (· ≤ x)

namespace HasRank

theorem le (low : HasRank xs k x) (high : HasRank xs l y) (ranks : k ≤ l) : x ≤ y := by
  by_contra above
  rw [not_le] at above
  have fewer : xs.countP (· ≤ y) ≤ xs.countP (· < x) :=
    List.countP_mono_left fun z _ upTo => by
      rw [decide_eq_true_iff] at upTo ⊢
      exact lt_of_le_of_lt upTo above
  have := low.below
  have := high.upTo
  omega

theorem unique (one : HasRank xs k x) (other : HasRank xs k y) : x = y :=
  le_antisymm (one.le other le_rfl) (other.le one le_rfl)

/-- Only the values count, not their order. -/
theorem perm (arranged : xs.Perm ys) (rank : HasRank xs k x) : HasRank ys k x := by
  refine ⟨arranged.mem_iff.mp rank.mem, ?_, ?_⟩
  · rw [← arranged.countP_eq]
    exact rank.below
  · rw [← arranged.countP_eq]
    exact rank.upTo

theorem lt_length (rank : HasRank xs k x) : k < xs.length :=
  lt_of_lt_of_le rank.upTo List.countP_le_length

/-- Rank zero is the least value. -/
theorem least (rank : HasRank xs 0 x) (mem : y ∈ xs) : x ≤ y := by
  by_contra below
  have counted : 0 < xs.countP (· < x) :=
    List.countP_pos_iff.mpr ⟨y, mem, decide_eq_true (not_le.mp below)⟩
  have := rank.below
  omega

/-- The last rank is the greatest value. -/
theorem greatest (rank : HasRank xs (xs.length - 1) x) (mem : y ∈ xs) : y ≤ x := by
  have all : xs.countP (· ≤ x) = xs.length := by
    have := rank.upTo
    have := xs.countP_le_length (p := (· ≤ x))
    omega
  exact of_decide_eq_true (List.countP_eq_length.mp all y mem)

end HasRank

/-- A sort puts every value at its rank. -/
theorem hasRank_getElem (sorted : xs.Pairwise (· ≤ ·)) (inside : k < xs.length) :
    HasRank xs k xs[k] := by
  have split : xs = xs.take k ++ xs.drop k := (List.take_append_drop k xs).symm
  have here : xs.drop k = xs[k] :: xs.drop (k + 1) := List.drop_eq_getElem_cons inside
  rw [split, here] at sorted
  obtain ⟨-, behind, front⟩ := List.pairwise_append.mp sorted
  have noneSmaller : (xs.drop k).countP (· < xs[k]) = 0 := by
    rw [List.countP_eq_zero, here]
    intro z mem
    rw [decide_eq_true_iff, not_lt]
    rcases List.mem_cons.mp mem with rfl | later
    · exact le_rfl
    · exact List.rel_of_pairwise_cons behind later
  have all : (xs.take k).countP (· ≤ xs[k]) = (xs.take k).length := by
    rw [List.countP_eq_length]
    intro z mem
    exact decide_eq_true (front z mem _ List.mem_cons_self)
  have width : (xs.take k).length = k := List.length_take_of_le inside.le
  have parts : ∀ p : α → Bool, xs.countP p = (xs.take k).countP p + (xs.drop k).countP p := by
    intro p
    rw [← List.countP_append, List.take_append_drop]
  refine ⟨List.getElem_mem inside, ?_, ?_⟩
  · have front := (xs.take k).countP_le_length (p := (· < xs[k]))
    rw [parts, noneSmaller]
    omega
  · have self : 0 < (xs.drop k).countP (· ≤ xs[k]) := by
      rw [List.countP_pos_iff, here]
      exact ⟨xs[k], List.mem_cons_self, decide_eq_true le_rfl⟩
    rw [parts, all, width]
    omega

end NanoTrade
