import Mathlib.Algebra.Order.Group.Defs
import Mathlib.Data.List.Induction
import Mathlib.Order.Bounds.Basic

/-!
# Peaks and drawdowns of a curve

`Watermark.along xs` walks along a curve that starts at zero and keeps its highest point and the
deepest fall below the highest point so far. `isGreatest_peak` and `isGreatest_drawdown` say what
these are without the walk: the fall is the greatest one from any point to the same or a later one.
-/

namespace NanoTrade

variable {K : Type} [AddCommGroup K] {xs : List K} {x fall : K}

/-- `fall` leads from a point of the curve to the same or a later one. -/
def Falls (xs : List K) (fall : K) : Prop :=
  ∃ (i j : Nat) (high low : K), i ≤ j ∧ xs[i]? = some high ∧ xs[j]? = some low ∧ fall = high - low

/-- Another point adds the falls that end in it. -/
theorem falls_concat : Falls (xs ++ [x]) fall ↔ Falls xs fall ∨ ∃ y ∈ xs ++ [x], fall = y - x := by
  constructor
  · rintro ⟨i, j, high, low, order, atI, atJ, rfl⟩
    rcases Nat.lt_or_ge j xs.length with inside | outside
    · rw [List.getElem?_append_left inside] at atJ
      rw [List.getElem?_append_left (by omega)] at atI
      exact .inl ⟨i, j, high, low, order, atI, atJ, rfl⟩
    · have last : j = xs.length := by
        have short := (List.getElem?_eq_some_iff.mp atJ).1
        rw [List.length_append, List.length_singleton] at short
        omega
      rw [last, List.getElem?_concat_length] at atJ
      obtain rfl := Option.some.inj atJ
      exact .inr ⟨high, List.mem_of_getElem? atI, rfl⟩
  · rintro (⟨i, j, high, low, order, atI, atJ, rfl⟩ | ⟨y, mem, rfl⟩)
    · have insideI := (List.getElem?_eq_some_iff.mp atI).1
      have insideJ := (List.getElem?_eq_some_iff.mp atJ).1
      refine ⟨i, j, high, low, order, ?_, ?_, rfl⟩
      · rw [List.getElem?_append_left insideI, atI]
      · rw [List.getElem?_append_left insideJ, atJ]
    · obtain ⟨i, atI⟩ := List.mem_iff_getElem?.mp mem
      have inside := (List.getElem?_eq_some_iff.mp atI).1
      rw [List.length_append, List.length_singleton] at inside
      exact ⟨i, xs.length, y, x, by omega, atI, List.getElem?_concat_length, rfl⟩

/-- A curve that is looked at now and then falls as the times follow each other. -/
theorem falls_map {ι : Type} [LinearOrder ι] {times : List ι} {f : ι → K}
    (ordered : times.Pairwise (· ≤ ·)) :
    Falls (times.map f) fall ↔ ∃ m ∈ times, ∃ n ∈ times, m ≤ n ∧ fall = f m - f n := by
  constructor
  · rintro ⟨i, j, high, low, order, atI, atJ, rfl⟩
    rw [List.getElem?_map, Option.map_eq_some_iff] at atI atJ
    obtain ⟨m, atI, rfl⟩ := atI
    obtain ⟨n, atJ, rfl⟩ := atJ
    refine ⟨m, List.mem_of_getElem? atI, n, List.mem_of_getElem? atJ, ?_, rfl⟩
    obtain ⟨insideI, rfl⟩ := List.getElem?_eq_some_iff.mp atI
    obtain ⟨insideJ, rfl⟩ := List.getElem?_eq_some_iff.mp atJ
    rcases order.lt_or_eq with before | rfl
    · exact List.pairwise_iff_getElem.mp ordered i j insideI insideJ before
    · exact le_rfl
  · rintro ⟨m, memM, n, memN, order, rfl⟩
    obtain ⟨i, insideI, rfl⟩ := List.getElem_of_mem memM
    obtain ⟨j, insideJ, rfl⟩ := List.getElem_of_mem memN
    have seen : ∀ k, (inside : k < times.length) → (times.map f)[k]? = some (f times[k]) := by
      intro k inside
      rw [List.getElem?_map, List.getElem?_eq_getElem inside, Option.map_some]
    rcases Nat.lt_or_ge j i with behind | before
    · -- The later sample stands in front, so both were taken at one time.
      have same := le_antisymm order
        (List.pairwise_iff_getElem.mp ordered j i insideJ insideI behind)
      exact ⟨i, i, _, _, le_rfl, seen i insideI, seen i insideI, by rw [same]⟩
    · exact ⟨i, j, _, _, before, seen i insideI, seen j insideJ, rfl⟩

/-- What has been seen of a curve. -/
structure Watermark (K : Type) where
  peak : K
  drawdown : K

namespace Watermark

variable [LinearOrder K]

def start : Watermark K :=
  { peak := 0, drawdown := 0 }

def see (w : Watermark K) (x : K) : Watermark K :=
  { peak := max w.peak x
    drawdown := max w.drawdown (max w.peak x - x) }

def along (xs : List K) : Watermark K :=
  xs.foldl see start

theorem along_concat (xs : List K) (x : K) : along (xs ++ [x]) = (along xs).see x := by
  rw [along, List.foldl_append]
  rfl

/-- The peak is the highest point of the curve. -/
theorem isGreatest_peak (xs : List K) : IsGreatest {x | x ∈ 0 :: xs} (along xs).peak := by
  induction xs using List.reverseRecOn with
  | nil => exact ⟨List.mem_singleton_self 0, fun y mem => (List.mem_singleton.mp mem).le⟩
  | append_singleton xs x ih =>
      obtain ⟨attained, bound⟩ := ih
      rw [along_concat, ← List.cons_append]
      show IsGreatest _ (max (along xs).peak x)
      constructor
      · show max (along xs).peak x ∈ 0 :: xs ++ [x]
        rw [List.mem_append, List.mem_singleton]
        rcases max_choice (along xs).peak x with old | new
        · rw [old]
          exact .inl attained
        · exact .inr new
      · intro y mem
        rcases List.mem_append.mp mem with earlier | last
        · exact (bound earlier).trans (le_max_left _ _)
        · rw [List.mem_singleton.mp last]
          exact le_max_right _ _

/-- The drawdown is the deepest fall of the curve. -/
theorem isGreatest_drawdown [IsOrderedAddMonoid K] (xs : List K) :
    IsGreatest {fall | Falls (0 :: xs) fall} (along xs).drawdown := by
  induction xs using List.reverseRecOn with
  | nil =>
      constructor
      · exact ⟨0, 0, 0, 0, le_rfl, rfl, rfl, (sub_self 0).symm⟩
      · rintro fall ⟨i, j, high, low, -, atI, atJ, rfl⟩
        have highZero := List.mem_singleton.mp (List.mem_of_getElem? atI)
        have lowZero := List.mem_singleton.mp (List.mem_of_getElem? atJ)
        rw [highZero, lowZero, sub_self]
        exact le_rfl
  | append_singleton xs x ih =>
      obtain ⟨attained, bound⟩ := ih
      obtain ⟨top, above⟩ := isGreatest_peak (xs ++ [x])
      rw [along_concat, ← List.cons_append] at *
      constructor
      · show Falls (0 :: xs ++ [x]) (max (along xs).drawdown (max (along xs).peak x - x))
        rw [falls_concat]
        rcases max_choice (along xs).drawdown (max (along xs).peak x - x) with old | new
        · rw [old]
          exact .inl attained
        · rw [new]
          exact .inr ⟨_, top, rfl⟩
      · intro fall falls
        show fall ≤ max (along xs).drawdown (max (along xs).peak x - x)
        rcases falls_concat.mp falls with earlier | ⟨y, mem, rfl⟩
        · exact (bound earlier).trans (le_max_left _ _)
        · exact (sub_le_sub_right (above mem) x).trans (le_max_right _ _)

end Watermark

end NanoTrade
