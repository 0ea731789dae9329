import Mathlib.Algebra.Order.BigOperators.Group.List
import Mathlib.Algebra.Order.Field.Rat
import Mathlib.Data.List.DropRight
import Mathlib.Data.List.Rotate
import NanoTrade.LFQueue
import NanoTrade.Logging
import NanoTrade.Ranks

/-!
# Latency statistics

`common/latency_stats.h`: a ring of the last samples, and what is reported of them. Whatever stands
for `double` is exact here; the ranks `count_ * 0.90` and so on are the exact products cut to an
integer, which the doubles agree with up to the default capacity of a million samples.

* `holds_run`: the ring holds the last samples since the last reset, whatever was in it.
* `run_percentiles`: what is reported has its rank among them.
-/

namespace NanoTrade

/-- `Common::LatencyStats<MAX_SAMPLES>`. -/
structure LatencyStats (MAX_SAMPLES : Nat) where
  samples : Vector UInt64 MAX_SAMPLES
  nextIndex : Fin MAX_SAMPLES
  count : Nat
  count_le : count ≤ MAX_SAMPLES

/-- `Common::LatencyPercentiles`, in nanoseconds. -/
structure LatencyPercentiles (K : Type) where
  p50 : K
  p90 : K
  p99 : K
  p999 : K
  max : K
  mean : K
  min : K
  count : Nat

/-- `{}`. -/
def LatencyPercentiles.zero {K : Type} [Zero K] : LatencyPercentiles K :=
  { p50 := 0, p90 := 0, p99 := 0, p999 := 0, max := 0, mean := 0, min := 0, count := 0 }

/-- The calls that change the statistics. -/
inductive LatencyCall
  | record (cycles : UInt64)
  | reset

namespace LatencyStats

variable {N : Nat} {s : LatencyStats N} {cs : List UInt64} {cycles : UInt64}

def new [NeZero N] : LatencyStats N :=
  { samples := Vector.replicate N 0
    nextIndex := 0
    count := 0
    count_le := Nat.zero_le N }

/-- Record a single cycle delta. -/
def record (s : LatencyStats N) (cycles : UInt64) : LatencyStats N :=
  { samples := s.samples.set s.nextIndex cycles
    nextIndex := ⟨(s.nextIndex + 1) % N, Nat.mod_lt _ s.nextIndex.pos⟩
    count := if s.count < N then s.count + 1 else s.count
    count_le := by
      split
      · assumption
      · exact s.count_le }

/-- The samples stay where they are. -/
def reset [NeZero N] (s : LatencyStats N) : LatencyStats N :=
  { s with nextIndex := 0, count := 0, count_le := Nat.zero_le N }

def step [NeZero N] (s : LatencyStats N) : LatencyCall → LatencyStats N
  | .record cycles => s.record cycles
  | .reset => s.reset

def run [NeZero N] (calls : List LatencyCall) : LatencyStats N :=
  calls.foldl step new

section Report

variable {K : Type} [Field K]

/-- `static_cast<double>(samples_[i]) * nanos_per_cycle`, for every `i` below `count_`. -/
def nanos (s : LatencyStats N) (nanosPerCycle : K) : List K :=
  (s.samples.toList.take s.count).map fun cycles => (cycles.toNat : K) * nanosPerCycle

variable [LinearOrder K]

/-- Compute percentiles. A read outside of the sorted buffer would have no value. -/
def computePercentiles (s : LatencyStats N) (nanosPerCycle : K) : Option (LatencyPercentiles K) :=
  if s.count = 0 then some .zero
  else do
    let buf := (s.nanos nanosPerCycle).mergeSort (· ≤ ·)
    let min ← buf[0]?
    let max ← buf[s.count - 1]?
    let p50 ← buf[s.count * 50 / 100]?
    let p90 ← buf[s.count * 90 / 100]?
    let p99 ← buf[s.count * 99 / 100]?
    let p999 ← buf[Nat.min (s.count * 999 / 1000) (s.count - 1)]?
    some { p50, p90, p99, p999, max, min, mean := buf.sum / s.count, count := s.count }

/-- Dump raw samples, one on each line. -/
def dumpToCSV [StreamedDouble K] (s : LatencyStats N) (nanosPerCycle : K) : List UInt8 :=
  "latency_ns\n".toUTF8.toList ++
    (s.nanos nanosPerCycle).flatMap fun latency => StreamedDouble.stream latency ++ [10]

end Report

/-! ## The ring -/

/-- `s` has seen the samples `cs`: each of the last ones is where its number puts it. -/
structure Holds (s : LatencyStats N) (cs : List UInt64) : Prop where
  count : s.count = min N cs.length
  next : (s.nextIndex : Nat) = cs.length % N
  held : ∀ i, cs.length ≤ i + N → i < cs.length → s.samples.toList[i % N]? = cs[i]?

theorem holds_reset [NeZero N] (s : LatencyStats N) : Holds s.reset [] := by
  refine ⟨(Nat.min_zero N).symm, (Nat.zero_mod N).symm, fun i _ inside => ?_⟩
  exact absurd inside (Nat.not_lt_zero i)

theorem Holds.record (holds : Holds s cs) : Holds (s.record cycles) (cs ++ [cycles]) := by
  have pos : 0 < N := s.nextIndex.pos
  refine ⟨?_, ?_, ?_⟩
  · show (if s.count < N then s.count + 1 else s.count) = _
    rw [holds.count, List.length_append, List.length_singleton]
    split <;> omega
  · show (s.nextIndex + 1) % N = _
    rw [holds.next, List.length_append, List.length_singleton, Nat.mod_add_mod]
  · intro i near inside
    rw [List.length_append, List.length_singleton] at near inside
    show (s.samples.set s.nextIndex cycles).toList[i % N]? = _
    rw [Vector.toList_set, holds.next]
    rcases Nat.lt_succ_iff_lt_or_eq.mp inside with earlier | rfl
    · have apart := LFQueue.Holds.slot_ne earlier (show cs.length < i + N by omega)
      rw [List.getElem?_set_ne apart.symm, List.getElem?_append_left earlier]
      exact holds.held i (by omega) earlier
    · have room : cs.length % N < s.samples.toList.length := by
        rw [Vector.length_toList]
        exact Nat.mod_lt _ pos
      rw [List.getElem?_set_self room, List.getElem?_concat_length]

/-- The samples since the last reset. -/
def sinceReset (calls : List LatencyCall) : List UInt64 :=
  calls.foldl (fun cs call =>
    match call with
    | .record cycles => cs ++ [cycles]
    | .reset => []) []

/-- Every run holds what was recorded since the last reset. -/
theorem holds_run [NeZero N] (calls : List LatencyCall) :
    Holds (run calls : LatencyStats N) (sinceReset calls) := by
  induction calls using List.reverseRecOn with
  | nil => exact holds_reset new
  | append_singleton calls call ih =>
      rw [run, sinceReset, List.foldl_append, List.foldl_append]
      cases call with
      | record cycles => exact Holds.record ih
      | reset => exact holds_reset _

/-- The entries in use are the last samples, in the order of the ring. -/
theorem Holds.perm (holds : Holds s cs) : (s.samples.toList.take s.count).Perm (cs.rtake N) := by
  have width : s.samples.toList.length = N := Vector.length_toList
  have pos : 0 < N := s.nextIndex.pos
  rcases Nat.lt_or_ge N cs.length with wrapped | short
  · have turned : cs.rtake N = s.samples.toList.rotate cs.length := by
      apply List.ext_getElem?
      intro k
      rw [List.rtake, List.getElem?_drop]
      rcases Nat.lt_or_ge k N with inside | outside
      · rw [List.getElem?_rotate (by omega), width, ← holds.held _ (by omega) (by omega)]
        rw [show cs.length - N + k = k + cs.length - N by omega,
          ← Nat.mod_eq_sub_mod (by omega)]
      · rw [List.getElem?_eq_none (by omega), List.getElem?_eq_none]
        rw [List.length_rotate, width]
        exact outside
    rw [turned, holds.count, Nat.min_eq_left wrapped.le, List.take_of_length_le width.le]
    exact (List.rotate_perm _ _).symm
  · have whole : cs.rtake N = cs := by
      rw [List.rtake, Nat.sub_eq_zero_of_le short, List.drop_zero]
    have same : s.samples.toList.take s.count = cs := by
      apply List.ext_getElem?
      intro k
      rw [holds.count, Nat.min_eq_right short]
      rcases Nat.lt_or_ge k cs.length with inside | outside
      · rw [List.getElem?_take_of_lt inside, ← holds.held k (by omega) inside,
          Nat.mod_eq_of_lt (by omega)]
      · rw [List.getElem?_eq_none outside, List.getElem?_eq_none]
        rw [List.length_take]
        omega
    rw [whole, same]

/-! ## The report -/

section Report

variable {K : Type} [Field K] {nanosPerCycle : K} {values : List K}

/-- The latencies of the last samples. -/
def latencies (N : Nat) (nanosPerCycle : K) (calls : List LatencyCall) : List K :=
  ((sinceReset calls).rtake N).map fun cycles => (cycles.toNat : K) * nanosPerCycle

theorem nanos_run [NeZero N] (nanosPerCycle : K) (calls : List LatencyCall) :
    (nanos (run calls : LatencyStats N) nanosPerCycle).Perm (latencies N nanosPerCycle calls) :=
  (holds_run calls).perm.map _

theorem length_nanos : (s.nanos nanosPerCycle).length = s.count := by
  rw [nanos, List.length_map, List.length_take, Vector.length_toList]
  exact Nat.min_eq_left s.count_le

variable [LinearOrder K]

/-- What is to be reported of some latencies. -/
structure Reports (values : List K) (r : LatencyPercentiles K) : Prop where
  count : r.count = values.length
  min : HasRank values 0 r.min
  p50 : HasRank values (values.length * 50 / 100) r.p50
  p90 : HasRank values (values.length * 90 / 100) r.p90
  p99 : HasRank values (values.length * 99 / 100) r.p99
  p999 : HasRank values (values.length * 999 / 1000) r.p999
  max : HasRank values (values.length - 1) r.max
  mean : r.mean = values.sum / values.length

/-- Some latencies have one report. -/
theorem Reports.unique {r r' : LatencyPercentiles K} (one : Reports values r)
    (other : Reports values r') : r = r' := by
  cases r
  cases r'
  obtain ⟨count, min, p50, p90, p99, p999, max, mean⟩ := one
  obtain ⟨count', min', p50', p90', p99', p999', max', mean'⟩ := other
  rw [LatencyPercentiles.mk.injEq]
  exact ⟨p50.unique p50', p90.unique p90', p99.unique p99', p999.unique p999', max.unique max',
    mean.trans mean'.symm, min.unique min', count.trans count'.symm⟩

/-- The mean lies between the least and the greatest value. -/
theorem Reports.mean_bounds [IsStrictOrderedRing K] {r : LatencyPercentiles K}
    (reports : Reports values r) : r.min ≤ r.mean ∧ r.mean ≤ r.max := by
  have pos : (0 : K) < values.length := Nat.cast_pos.mpr reports.min.lt_length
  rw [reports.mean, le_div_iff₀ pos, div_le_iff₀ pos, mul_comm r.min, mul_comm r.max,
    ← nsmul_eq_mul, ← nsmul_eq_mul]
  exact ⟨List.card_nsmul_le_sum values r.min fun _ mem => reports.min.least mem,
    List.sum_le_card_nsmul values r.max fun _ mem => reports.max.greatest mem⟩

/-- A report has every rank that it names, and reads inside of the buffer. -/
theorem computePercentiles_reports (nonempty : s.count ≠ 0)
    (arranged : (s.nanos nanosPerCycle).Perm values) :
    ∃ r, s.computePercentiles nanosPerCycle = some r ∧ Reports values r := by
  have sorted : ((s.nanos nanosPerCycle).mergeSort (· ≤ ·)).Pairwise (· ≤ ·) :=
    List.pairwise_mergeSort' (· ≤ ·) _
  have same : ((s.nanos nanosPerCycle).mergeSort (· ≤ ·)).Perm values :=
    (List.mergeSort_perm _ _).trans arranged
  have width : ((s.nanos nanosPerCycle).mergeSort (· ≤ ·)).length = s.count := by
    rw [List.length_mergeSort, length_nanos]
  rw [computePercentiles, if_neg nonempty]
  dsimp only
  generalize (s.nanos nanosPerCycle).mergeSort (· ≤ ·) = buf at sorted same width ⊢
  have long : values.length = s.count := by rw [← width, same.length_eq]
  have cap : Nat.min (s.count * 999 / 1000) (s.count - 1) = s.count * 999 / 1000 :=
    Nat.min_eq_left (by omega)
  rw [cap]
  have ranks : ∀ (rank : Nat → Nat) (inside : rank s.count < buf.length),
      HasRank values (rank values.length) buf[rank s.count] := by
    intro rank inside
    rw [long]
    exact (hasRank_getElem sorted inside).perm same
  have reads : ∀ k, (inside : k < buf.length) → buf[k]? = some buf[k] := fun k inside =>
    List.getElem?_eq_getElem inside
  rw [reads 0 (by omega), reads (s.count - 1) (by omega), reads (s.count * 50 / 100) (by omega),
    reads (s.count * 90 / 100) (by omega), reads (s.count * 99 / 100) (by omega),
    reads (s.count * 999 / 1000) (by omega)]
  refine ⟨_, rfl, ?_⟩
  exact
    { count := long.symm
      min := ranks (fun _ => 0) _
      p50 := ranks (· * 50 / 100) _
      p90 := ranks (· * 90 / 100) _
      p99 := ranks (· * 99 / 100) _
      p999 := ranks (· * 999 / 1000) _
      max := ranks (· - 1) _
      mean := by rw [same.sum_eq, long] }

theorem computePercentiles_empty (empty : s.count = 0) :
    s.computePercentiles nanosPerCycle = some .zero :=
  if_pos empty

/-- **What is reported.** After any calls the ring has the last samples since the last reset, at
most as many as it has room for. Without any the report is zero throughout. Otherwise no read is
outside of the buffer, each percentile has its rank among those samples, they rise from the least
to the greatest, and the mean lies between. The report has no other input: the order in which these
samples came does not matter, nor what was recorded before them. The file has a line for each. -/
theorem run_percentiles [NeZero N] [IsStrictOrderedRing K] [StreamedDouble K]
    (calls : List LatencyCall) (nanosPerCycle : K) :
    (run calls : LatencyStats N).count = min N (sinceReset calls).length ∧
    (sinceReset calls = [] →
      (run calls : LatencyStats N).computePercentiles nanosPerCycle = some .zero) ∧
    (sinceReset calls ≠ [] → ∃ r,
      (run calls : LatencyStats N).computePercentiles nanosPerCycle = some r ∧
      Reports (latencies N nanosPerCycle calls) r ∧
      r.min ≤ r.p50 ∧ r.p50 ≤ r.p90 ∧ r.p90 ≤ r.p99 ∧ r.p99 ≤ r.p999 ∧ r.p999 ≤ r.max ∧
      r.min ≤ r.mean ∧ r.mean ≤ r.max) ∧
    (∀ others : List LatencyCall,
      ((sinceReset others).rtake N).Perm ((sinceReset calls).rtake N) →
      (run others : LatencyStats N).computePercentiles nanosPerCycle =
        (run calls : LatencyStats N).computePercentiles nanosPerCycle) ∧
    ∃ rows : List K, rows.Perm (latencies N nanosPerCycle calls) ∧
      (run calls : LatencyStats N).dumpToCSV nanosPerCycle = "latency_ns\n".toUTF8.toList ++
        rows.flatMap fun latency => StreamedDouble.stream latency ++ [10] := by
  have counted : ∀ calls, (run calls : LatencyStats N).count = min N (sinceReset calls).length :=
    fun calls => (holds_run calls).count
  refine ⟨counted calls, ?_, ?_, ?_, _, nanos_run nanosPerCycle calls, rfl⟩
  · intro empty
    apply computePercentiles_empty
    rw [counted, empty]
    exact Nat.min_zero N
  · intro nonempty
    have pos := List.length_pos_of_ne_nil nonempty
    have room := Nat.pos_of_neZero N
    obtain ⟨r, computed, reports⟩ :=
      computePercentiles_reports (by rw [counted]; omega) (nanos_run nanosPerCycle calls)
    have long := reports.min.lt_length
    refine ⟨r, computed, reports, ?_, ?_, ?_, ?_, ?_, reports.mean_bounds⟩
    · exact reports.min.le reports.p50 (Nat.zero_le _)
    · exact reports.p50.le reports.p90 (by omega)
    · exact reports.p90.le reports.p99 (by omega)
    · exact reports.p99.le reports.p999 (by omega)
    · exact reports.p999.le reports.max (by omega)
  · intro others same
    have arranged : (nanos (run others : LatencyStats N) nanosPerCycle).Perm
        (latencies N nanosPerCycle calls) := (nanos_run nanosPerCycle others).trans (same.map _)
    have width : (run others : LatencyStats N).count = (run calls : LatencyStats N).count := by
      have lengths := arranged.length_eq.trans (nanos_run nanosPerCycle calls).length_eq.symm
      rwa [length_nanos, length_nanos] at lengths
    rcases Nat.eq_zero_or_pos (run calls : LatencyStats N).count with empty | nonempty
    · rw [computePercentiles_empty empty, computePercentiles_empty (width.trans empty)]
    · obtain ⟨r, computed, reports⟩ :=
        computePercentiles_reports nonempty.ne' (nanos_run nanosPerCycle calls)
      obtain ⟨r', computed', reports'⟩ :=
        computePercentiles_reports (width.trans_ne nonempty.ne') arranged
      rw [computed, computed', reports.unique reports']

end Report

/-- Five samples, the first of them reset, with room for three. -/
def wrappedCalls : List LatencyCall :=
  [.record 9, .reset, .record 4, .record 7, .record 1, .record 5]

theorem run_percentiles_wrapped :
    ∃ r, (run wrappedCalls : LatencyStats 3).computePercentiles (2 : ℚ) = some r ∧
      Reports (latencies 3 (2 : ℚ) wrappedCalls) r ∧ r.min ≤ r.mean ∧ r.mean ≤ r.max := by
  have recorded : sinceReset wrappedCalls = [4, 7, 1, 5] := by decide
  let streamed : StreamedDouble ℚ := ⟨fun q => streamInteger q.num⟩
  obtain ⟨-, -, reported, -⟩ := run_percentiles (N := 3) wrappedCalls (2 : ℚ)
  obtain ⟨r, computed, reports, -, -, -, -, -, least, greatest⟩ :=
    reported (by rw [recorded]; exact List.cons_ne_nil _ _)
  exact ⟨r, computed, reports, least, greatest⟩

end LatencyStats

end NanoTrade
