import NanoTrade.Drawdown
import NanoTrade.Logging
import NanoTrade.Trading.ProfitAndLoss

/-!
# The equity recorder

`backtest/equity_recorder.cpp`: a thread samples the profits of one instrument while the trade
engine changes them, and `finalize` writes the samples and a summary. Any order of changes and
samples may happen; a sample falls between two changes.

* `marks`: how far the position was at each sample.
* `run_summary`: the summary is about profits that there were, in the order in which there were.
-/

namespace NanoTrade

/-- What happens to a position that is recorded. -/
inductive RecorderAction
  | position (e : PositionEvent)
  | sample (wallNs : Int)

namespace EquityRecorder

/-- `EquityRecorder::Sample`. -/
structure Sample (F : Type) where
  wallNs : Int
  totalPnl : F
  realizedPnl : F
  unrealizedPnl : F
  position : Int
  volume : Qty

/-- What `run` and `finalize` push. -/
def sampleOf {F : Type} (wallNs : Int) (p : PositionPnl F) : Sample F :=
  { wallNs, totalPnl := p.totalPnl, realizedPnl := p.realPnl, unrealizedPnl := p.unrealPnl,
    position := p.position, volume := p.volume }

/-- The position with the samples taken of it. -/
structure Recorded where
  position : PositionPnl ℚ
  samples : List (Sample ℚ)

def step (w : IntWidths) (r : Recorded) : RecorderAction → Recorded
  | .position e => { r with position := r.position.step w e }
  | .sample wallNs => { r with samples := r.samples ++ [sampleOf wallNs r.position] }

def record (w : IntWidths) (actions : List RecorderAction) : Recorded :=
  actions.foldl (step w) { position := PositionPnl.new, samples := [] }

section Finalize

variable {F : Type} [StreamedDouble F]

/-- A line of the file. -/
def csvLine (s : Sample F) : List UInt8 :=
  streamInteger s.wallNs ++ [44] ++ StreamedDouble.stream s.totalPnl ++ [44] ++
    StreamedDouble.stream s.realizedPnl ++ [44] ++ StreamedDouble.stream s.unrealizedPnl ++ [44] ++
    streamInteger s.position ++ [44] ++ streamInteger s.volume ++ [10]

def csvHeader : List UInt8 :=
  "wall_ns,total_pnl,real_pnl,unreal_pnl,position,volume\n".toUTF8.toList

/-- The file and the numbers of the summary. -/
structure EquitySummary (F : Type) where
  csv : List UInt8
  sampleCount : Nat
  finalPnl : F
  peakPnl : F
  maxDrawdown : F
  finalVolume : Qty

variable [Zero F] [Sub F] [Max F]

/-- One round of the loop over the samples. -/
def summarize (stats : F × F) (s : Sample F) : F × F :=
  let peakPnl := max stats.1 s.totalPnl
  (peakPnl, max stats.2 (peakPnl - s.totalPnl))

/-- `finalize`, with one last sample. -/
def finalize (p : PositionPnl F) (samples : List (Sample F)) (wallNs : Int) : EquitySummary F :=
  let samples := samples ++ [sampleOf wallNs p]
  let stats := samples.foldl summarize (0, 0)
  { csv := csvHeader ++ samples.flatMap csvLine
    sampleCount := samples.length
    finalPnl := match samples.getLast? with
      | some s => s.totalPnl
      | none => 0
    peakPnl := stats.1
    maxDrawdown := stats.2
    finalVolume := match samples.getLast? with
      | some s => s.volume
      | none => 0 }

end Finalize

/-- The loop keeps the watermark of the totals. -/
theorem foldl_summarize (samples : List (Sample ℚ)) (m : Watermark ℚ) :
    samples.foldl summarize (m.peak, m.drawdown) =
      (((samples.map Sample.totalPnl).foldl Watermark.see m).peak,
        ((samples.map Sample.totalPnl).foldl Watermark.see m).drawdown) := by
  induction samples generalizing m with
  | nil => rfl
  | cons s samples ih => exact ih (m.see s.totalPnl)

/-! ## When the samples were taken -/

/-- The changes of the position. -/
def changes (actions : List RecorderAction) : List PositionEvent :=
  actions.filterMap fun
    | .position e => some e
    | .sample _ => none

/-- How many changes precede each sample, behind `n` others, and its time. -/
def marks : Nat → List RecorderAction → List (Nat × Int)
  | _, [] => []
  | n, .position _ :: actions => marks (n + 1) actions
  | n, .sample wallNs :: actions => (n, wallNs) :: marks n actions

theorem marks_concat (n : Nat) (actions : List RecorderAction) (wallNs : Int) :
    marks n (actions ++ [.sample wallNs]) =
      marks n actions ++ [(n + (changes actions).length, wallNs)] := by
  induction actions generalizing n with
  | nil => rfl
  | cons a actions ih =>
      cases a with
      | position e =>
          show marks (n + 1) (actions ++ [.sample wallNs]) = _
          rw [ih, Nat.add_right_comm]
          rfl
      | sample earlier => exact congrArg _ (ih n)

theorem le_of_mem_marks {n : Nat} {actions : List RecorderAction} {m : Nat × Int}
    (mem : m ∈ marks n actions) : n ≤ m.1 ∧ m.1 ≤ n + (changes actions).length := by
  induction actions generalizing n with
  | nil => exact absurd mem List.not_mem_nil
  | cons a actions ih =>
      cases a with
      | position e =>
          obtain ⟨low, high⟩ := ih mem
          exact ⟨by omega, by
            show m.1 ≤ n + ((changes actions).length + 1)
            omega⟩
      | sample wallNs =>
          rcases List.mem_cons.mp mem with rfl | later
          · exact ⟨le_rfl, Nat.le_add_right _ _⟩
          · exact ih later

/-- The samples follow the position. -/
theorem marks_ordered (n : Nat) (actions : List RecorderAction) :
    (marks n actions).Pairwise fun a b => a.1 ≤ b.1 := by
  induction actions generalizing n with
  | nil => exact List.Pairwise.nil
  | cons a actions ih =>
      cases a with
      | position e => exact ih (n + 1)
      | sample wallNs => exact List.Pairwise.cons (fun m mem => (le_of_mem_marks mem).1) (ih n)

/-- No two changes without a sample between them. -/
def Apart : RecorderAction → RecorderAction → Prop
  | .position _, .position _ => False
  | _, _ => True

/-- Where there is a sample between any two changes, only the last change may have none. -/
theorem exists_mark {n k : Nat} {actions : List RecorderAction}
    (apart : actions.IsChain Apart) (above : n < k)
    (below : k < n + (changes actions).length) : ∃ m ∈ marks n actions, m.1 = k := by
  induction actions generalizing n with
  | nil =>
      rw [changes, List.filterMap_nil, List.length_nil] at below
      omega
  | cons a actions ih =>
      cases a with
      | sample wallNs =>
          obtain ⟨m, mem, sampled⟩ := ih apart.tail above below
          exact ⟨m, List.mem_cons_of_mem _ mem, sampled⟩
      | position e =>
          have counted : k < n + ((changes actions).length + 1) := below
          rcases Nat.lt_or_ge (n + 1) k with later | next
          · exact ih apart.tail later (by omega)
          · cases actions with
            | nil =>
                rw [changes, List.filterMap_nil, List.length_nil] at counted
                omega
            | cons b actions =>
                cases b with
                | position e' => exact absurd (List.isChain_cons_cons.mp apart).1 id
                | sample wallNs => exact ⟨(n + 1, wallNs), List.mem_cons_self, by omega⟩

/-- The profits of the position behind `n` changes. -/
def totalAt (w : IntWidths) (events : List PositionEvent) (n : Nat) : ℚ :=
  (PositionPnl.run w (events.take n)).totalPnl

theorem totalAt_zero (w : IntWidths) (events : List PositionEvent) : totalAt w events 0 = 0 :=
  Int.cast_zero

theorem changes_position (actions : List RecorderAction) (e : PositionEvent) :
    changes (actions ++ [.position e]) = changes actions ++ [e] :=
  List.filterMap_append

theorem changes_sample (actions : List RecorderAction) (wallNs : Int) :
    changes (actions ++ [.sample wallNs]) = changes actions := by
  rw [changes, List.filterMap_append]
  exact List.append_nil _

theorem marks_position (n : Nat) (actions : List RecorderAction) (e : PositionEvent) :
    marks n (actions ++ [.position e]) = marks n actions := by
  induction actions generalizing n with
  | nil => rfl
  | cons a actions ih =>
      cases a with
      | position e' => exact ih (n + 1)
      | sample wallNs => exact congrArg ((n, wallNs) :: ·) (ih n)

/-- Zero, where the curve starts, and how far the position was at each sample and at the last. -/
def times (actions : List RecorderAction) (wallNs : Int) : List Nat :=
  0 :: (marks 0 (actions ++ [.sample wallNs])).map Prod.fst

theorem times_ordered (actions : List RecorderAction) (wallNs : Int) :
    (times actions wallNs).Pairwise (· ≤ ·) :=
  List.Pairwise.cons (fun _ _ => Nat.zero_le _) ((marks_ordered 0 _).map Prod.fst fun _ _ le => le)

theorem le_of_mem_times {n : Nat} {actions : List RecorderAction} {wallNs : Int}
    (mem : n ∈ times actions wallNs) : n ≤ (changes actions).length := by
  rcases List.mem_cons.mp mem with rfl | marked
  · exact Nat.zero_le _
  · obtain ⟨m, counted, rfl⟩ := List.mem_map.mp marked
    have within := (le_of_mem_marks counted).2
    rw [changes_sample] at within
    omega

/-- With a sample between any two changes no change is missed. -/
theorem mem_times {n : Nat} {actions : List RecorderAction} {wallNs : Int}
    (apart : actions.IsChain Apart) (within : n ≤ (changes actions).length) :
    n ∈ times actions wallNs := by
  rw [times, marks_concat, List.map_append, Nat.zero_add]
  rcases Nat.eq_zero_or_pos n with rfl | pos
  · exact List.mem_cons_self
  · apply List.mem_cons_of_mem
    rcases within.lt_or_eq with before | rfl
    · obtain ⟨m, mem, rfl⟩ := exists_mark apart pos (by omega)
      exact List.mem_append_left _ (List.mem_map_of_mem mem)
    · exact List.mem_append_right _ (List.mem_singleton_self _)

/-- A sample of the position behind the changes that its mark counts. -/
def sampleAt (w : IntWidths) (events : List PositionEvent) (m : Nat × Int) : Sample ℚ :=
  sampleOf m.2 (PositionPnl.run w (events.take m.1))

theorem record_concat (w : IntWidths) (actions : List RecorderAction) (a : RecorderAction) :
    record w (actions ++ [a]) = step w (record w actions) a := by
  rw [record, List.foldl_append]
  rfl

/-- Every run has the position of its changes and a sample for each mark. -/
theorem record_eq (w : IntWidths) (actions : List RecorderAction) :
    (record w actions).position = PositionPnl.run w (changes actions) ∧
      (record w actions).samples = (marks 0 actions).map (sampleAt w (changes actions)) := by
  induction actions using List.reverseRecOn with
  | nil => exact ⟨rfl, rfl⟩
  | append_singleton actions a ih =>
      obtain ⟨position, samples⟩ := ih
      rw [record_concat]
      cases a with
      | position e =>
          rw [changes_position, marks_position]
          constructor
          · rw [PositionPnl.run, List.foldl_append]
            show (record w actions).position.step w e = _
            rw [position]
            rfl
          · show (record w actions).samples = _
            rw [samples]
            apply List.map_congr_left
            intro m mem
            have within := (le_of_mem_marks mem).2
            rw [sampleAt, sampleAt, List.take_append_of_le_length (by omega)]
      | sample wallNs =>
          rw [changes_sample, marks_concat]
          refine ⟨position, ?_⟩
          show (record w actions).samples ++ [sampleOf wallNs (record w actions).position] = _
          rw [samples, position, List.map_append, List.map_singleton, sampleAt, Nat.zero_add,
            List.take_length]

/-- The total is always made of the two parts. -/
theorem run_totalPnl (w : IntWidths) (events : List PositionEvent) :
    (PositionPnl.run w events).totalPnl =
      (PositionPnl.run w events).unrealPnl + (PositionPnl.run w events).realPnl := by
  induction events using List.reverseRecOn with
  | nil => exact (add_zero _).symm
  | append_singleton events e ih =>
      rw [PositionPnl.run, List.foldl_append]
      show ((PositionPnl.run w events).step w e).totalPnl =
        ((PositionPnl.run w events).step w e).unrealPnl +
          ((PositionPnl.run w events).step w e).realPnl
      cases e with
      | addFill x =>
          rw [PositionPnl.step, PositionPnl.addFill]
          split <;> rfl
      | updateBBO bbo =>
          rw [PositionPnl.step, PositionPnl.updateBBO]
          split
          · rfl
          · exact ih

/-! ## The summary -/

/-- The rows of the file. -/
def rows (w : IntWidths) (actions : List RecorderAction) (wallNs : Int) : List (Sample ℚ) :=
  (marks 0 (actions ++ [.sample wallNs])).map (sampleAt w (changes actions))

theorem samples_concat (w : IntWidths) (actions : List RecorderAction) (wallNs : Int) :
    (record w actions).samples ++ [sampleOf wallNs (record w actions).position] =
      rows w actions wallNs := by
  have last := (record_eq w (actions ++ [.sample wallNs])).2
  rw [record_concat, changes_sample] at last
  exact last

theorem totals_eq (w : IntWidths) (actions : List RecorderAction) (wallNs : Int) :
    0 :: (rows w actions wallNs).map Sample.totalPnl =
      (times actions wallNs).map (totalAt w (changes actions)) := by
  rw [times, List.map_cons, totalAt_zero, rows, List.map_map, List.map_map]
  rfl

section Summary

variable [StreamedDouble ℚ]

/-- What `finalize` writes behind a run. -/
def report (w : IntWidths) (actions : List RecorderAction) (wallNs : Int) : EquitySummary ℚ :=
  finalize (record w actions).position (record w actions).samples wallNs

theorem report_eq (w : IntWidths) (actions : List RecorderAction) (wallNs : Int) :
    (report w actions wallNs).peakPnl =
        (Watermark.along ((rows w actions wallNs).map Sample.totalPnl)).peak ∧
      (report w actions wallNs).maxDrawdown =
        (Watermark.along ((rows w actions wallNs).map Sample.totalPnl)).drawdown := by
  have stats := foldl_summarize (rows w actions wallNs) Watermark.start
  rw [← samples_concat] at stats ⊢
  exact ⟨congrArg Prod.fst stats, congrArg Prod.snd stats⟩

/-- **What a backtest reports of its profits.** For any order of changes and samples: every row of
the file is the position as it was behind some of the changes, with a total that is made of the two
parts; the final profit is the total behind all changes, and the cash of the fills where the
position is flat; the peak is a total that there was, or zero, and no row is above it; the drawdown
is the fall from a total that there was to a later one, and no fall along the rows is deeper. With
a sample between any two changes this holds of all totals that there were. -/
theorem run_summary (w : IntWidths) (actions : List RecorderAction) (wallNs : Int) :
    (report w actions wallNs).csv = csvHeader ++ (rows w actions wallNs).flatMap csvLine ∧
    (∀ s ∈ rows w actions wallNs, s.totalPnl = s.unrealizedPnl + s.realizedPnl ∧
      ∃ n ≤ (changes actions).length,
        s = sampleOf s.wallNs (PositionPnl.run w ((changes actions).take n))) ∧
    (report w actions wallNs).finalPnl = totalAt w (changes actions) (changes actions).length ∧
    (w = .unbounded → (∀ x, .addFill x ∈ changes actions → PositionPnl.Fills x) →
      (PositionPnl.run w (changes actions)).position = 0 →
      (report w actions wallNs).finalPnl =
        Inventory.cash (PositionPnl.tradesOf (changes actions))) ∧
    (∃ n ≤ (changes actions).length,
      (report w actions wallNs).peakPnl = totalAt w (changes actions) n) ∧
    0 ≤ (report w actions wallNs).peakPnl ∧
    (∀ s ∈ rows w actions wallNs, s.totalPnl ≤ (report w actions wallNs).peakPnl) ∧
    (∃ m n, m ≤ n ∧ n ≤ (changes actions).length ∧ (report w actions wallNs).maxDrawdown =
      totalAt w (changes actions) m - totalAt w (changes actions) n) ∧
    (∀ fall, Falls (0 :: (rows w actions wallNs).map Sample.totalPnl) fall →
      fall ≤ (report w actions wallNs).maxDrawdown) ∧
    (actions.IsChain Apart →
      (∀ n ≤ (changes actions).length,
        totalAt w (changes actions) n ≤ (report w actions wallNs).peakPnl) ∧
      ∀ m n, m ≤ n → n ≤ (changes actions).length →
        totalAt w (changes actions) m - totalAt w (changes actions) n ≤
          (report w actions wallNs).maxDrawdown) := by
  obtain ⟨peak, drawdown⟩ := report_eq w actions wallNs
  obtain ⟨topIn, top⟩ := Watermark.isGreatest_peak ((rows w actions wallNs).map Sample.totalPnl)
  obtain ⟨fallIn, deepest⟩ :=
    Watermark.isGreatest_drawdown ((rows w actions wallNs).map Sample.totalPnl)
  rw [← peak] at topIn top
  rw [← drawdown] at fallIn deepest
  have final : (report w actions wallNs).finalPnl =
      totalAt w (changes actions) (changes actions).length := by
    rw [totalAt, List.take_length, ← (record_eq w actions).1, report, finalize]
    simp only [List.getLast?_concat]
    rfl
  refine ⟨?_, ?_, final, ?_, ?_, top List.mem_cons_self, ?_, ?_, fun fall falls => deepest falls,
    ?_⟩
  · rw [report, finalize, samples_concat]
  · intro s mem
    obtain ⟨m, marked, rfl⟩ := List.mem_map.mp mem
    refine ⟨run_totalPnl w _, m.1, ?_, rfl⟩
    have within := (le_of_mem_marks marked).2
    rw [changes_sample] at within
    omega
  · rintro rfl fills flat
    rw [final, totalAt, List.take_length]
    exact (PositionPnl.run_profitAndLoss _ fills).2.2.2.1 flat |>.2.2
  · rw [Set.mem_ofPred_eq, totals_eq] at topIn
    obtain ⟨n, mem, attained⟩ := List.mem_map.mp topIn
    exact ⟨n, le_of_mem_times mem, attained.symm⟩
  · intro s mem
    exact top (List.mem_cons_of_mem _ (List.mem_map_of_mem mem))
  · rw [Set.mem_ofPred_eq, totals_eq, falls_map (times_ordered actions wallNs)] at fallIn
    obtain ⟨m, -, n, mem, order, attained⟩ := fallIn
    exact ⟨m, n, order, le_of_mem_times mem, attained⟩
  · intro apart
    rw [totals_eq] at top deepest
    constructor
    · intro n within
      exact top (List.mem_map_of_mem (mem_times apart within))
    · intro m n order within
      apply deepest
      rw [Set.mem_ofPred_eq, falls_map (times_ordered actions wallNs)]
      exact ⟨m, mem_times apart (order.trans within), n, mem_times apart within, order, rfl⟩

end Summary

/-- Ten bought and sold, with a sample between. -/
def closedActions : List RecorderAction :=
  [.position (.addFill ⟨.FILLED, 1, 0, 1, 1, .BUY, 100, 10, 0⟩), .sample 1,
    .position (.addFill ⟨.FILLED, 1, 0, 2, 2, .SELL, 103, 10, 0⟩)]

theorem run_summary_closed :
    let streamed : StreamedDouble ℚ := ⟨fun q => streamInteger q.num⟩
    (@report streamed .unbounded closedActions 2).finalPnl =
        Inventory.cash (PositionPnl.tradesOf (changes closedActions)) ∧
      ∀ n ≤ 2, totalAt .unbounded (changes closedActions) n ≤
        (@report streamed .unbounded closedActions 2).peakPnl := by
  intro streamed
  have fills : ∀ x, .addFill x ∈ changes closedActions → PositionPnl.Fills x := by
    intro x mem
    simp only [changes, closedActions, List.filterMap_cons, List.filterMap_nil, List.mem_cons,
      PositionEvent.addFill.injEq, List.not_mem_nil, or_false] at mem
    rcases mem with rfl | rfl
    · exact ⟨.inl rfl, by decide⟩
    · exact ⟨.inr rfl, by decide⟩
  have flat : (PositionPnl.run .unbounded (changes closedActions)).position = 0 := by decide
  obtain ⟨-, -, -, closed, -, -, -, -, -, every⟩ := @run_summary streamed .unbounded closedActions 2
  have apart : closedActions.IsChain Apart := by
    refine .cons_cons trivial (.cons_cons trivial (.singleton _))
  exact ⟨closed rfl fills flat, (every apart).1⟩

end EquityRecorder

end NanoTrade
