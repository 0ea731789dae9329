import NanoTrade.Machine

/-!
# Two runs that an observer cannot tell apart

An observer sees some of the inputs of a machine and a view of what it emits. An `Unwinding`
relates states that are the same to the observer: a hidden input leaves the state related and
shows nothing, and a visible one does the same to both of two related states.

* `Unwinding.run`: a run shows what the run of its visible inputs alone shows.
* `Unwinding.indistinguishable`: two runs with the same visible inputs show the same.
-/

namespace NanoTrade

variable {σ ι ο ε β : Type}

/-- What a machine emits until its run returns or fails. -/
def emitted (step : σ → ι → Except ε (σ × List ο)) : σ → List ι → List ο
  | _, [] => []
  | s, i :: inputs =>
    match step s i with
    | .ok (t, now) => now ++ emitted step t inputs
    | .error _ => []

section Map

variable {step : σ → ι → Except ε (σ × List ο)} {f : ι → ι}

/-- A machine that takes `f i` for `i` runs as well on the one as on the other. -/
theorem run_map (same : ∀ s i, step s (f i) = step s i) (s : σ) (inputs : List ι) :
    run step s (inputs.map f) = run step s inputs := by
  induction inputs generalizing s with
  | nil => rfl
  | cons i inputs ih => simp only [List.map_cons, run, same, ih]

theorem emitted_map (same : ∀ s i, step s (f i) = step s i) (s : σ) (inputs : List ι) :
    emitted step s (inputs.map f) = emitted step s inputs := by
  induction inputs generalizing s with
  | nil => rfl
  | cons i inputs ih => simp only [List.map_cons, emitted, same, ih]

end Map

/-- Two steps that look the same: both return, in related states and with emissions of one view,
or both fail. -/
inductive Alike (agree : σ → σ → Prop) (view : ο → Option β) :
    Except ε (σ × List ο) → Except ε (σ × List ο) → Prop
  | ok {s s' : σ} {out out' : List ο} (related : agree s s')
      (shown : out.filterMap view = out'.filterMap view) :
      Alike agree view (.ok (s, out)) (.ok (s', out'))
  | error {e e' : ε} : Alike agree view (.error e) (.error e')

/-- `agree` unwinds over the inputs that are `visible` and the others. -/
structure Unwinding (step : σ → ι → Except ε (σ × List ο)) (visible : ι → Prop)
    (agree : σ → σ → Prop) (view : ο → Option β) : Prop where
  hidden : ∀ {s s' i t now}, agree s s' → ¬ visible i → step s i = .ok (t, now) →
    agree t s' ∧ now.filterMap view = []
  seen : ∀ {s s' i}, agree s s' → visible i → Alike agree view (step s i) (step s' i)

namespace Unwinding

variable {step : σ → ι → Except ε (σ × List ο)} {visible : ι → Prop} [DecidablePred visible]
  {agree : σ → σ → Prop} {view : ο → Option β} (unwinding : Unwinding step visible agree view)
  {s s' t : σ} {inputs others : List ι} {out : List ο}
include unwinding

/-- A run shows what the run of its visible inputs shows, from any related state. -/
theorem run (related : agree s s') (ran : NanoTrade.run step s inputs = .ok (t, out)) :
    ∃ t' out', NanoTrade.run step s' (inputs.filter visible) = .ok (t', out') ∧ agree t t' ∧
      out.filterMap view = out'.filterMap view := by
  induction inputs generalizing s s' out with
  | nil =>
      cases ran
      exact ⟨s', [], rfl, related, rfl⟩
  | cons i inputs ih =>
      obtain ⟨u, now, later, first, tail, rfl⟩ := run_cons.mp ran
      by_cases shows : visible i
      · have alike := unwinding.seen related shows
        rw [first] at alike
        cases second : step s' i with
        | error e =>
            rw [second] at alike
            cases alike
        | ok result =>
            obtain ⟨u', now'⟩ := result
            rw [second] at alike
            cases alike with
            | ok relatedU shown =>
                obtain ⟨t', later', ran', relatedT, shownLater⟩ := ih relatedU tail
                refine ⟨t', now' ++ later', ?_, relatedT, ?_⟩
                · rw [List.filter_cons_of_pos (p := fun b => decide (visible b))
                    (decide_eq_true shows)]
                  exact run_cons_eq_ok second ran'
                · rw [List.filterMap_append, List.filterMap_append, shown, shownLater]
      · obtain ⟨relatedU, silent⟩ := unwinding.hidden related shows first
        obtain ⟨t', later', ran', relatedT, shownLater⟩ := ih relatedU tail
        refine ⟨t', later', ?_, relatedT, ?_⟩
        · rw [List.filter_cons_of_neg (p := fun b => decide (visible b)) (by simpa using shows)]
          exact ran'
        · rw [List.filterMap_append, silent, shownLater, List.nil_append]

/-- A run that fails on the way has shown the front of it. -/
theorem emitted_prefix (inputs : List ι) (related : agree s s') :
    (emitted step s inputs).filterMap view <+:
      (emitted step s' (inputs.filter visible)).filterMap view := by
  induction inputs generalizing s s' with
  | nil => exact List.nil_prefix
  | cons i inputs ih =>
      rw [emitted]
      cases first : step s i with
      | error e => exact List.nil_prefix
      | ok result =>
          obtain ⟨u, now⟩ := result
          simp only [List.filterMap_append]
          by_cases shows : visible i
          · have alike := unwinding.seen related shows
            rw [List.filter_cons_of_pos (p := fun b => decide (visible b)) (decide_eq_true shows),
              emitted]
            rw [first] at alike
            cases second : step s' i with
            | error e =>
                rw [second] at alike
                cases alike
            | ok result' =>
                obtain ⟨u', now'⟩ := result'
                rw [second] at alike
                cases alike with
                | ok relatedU shown =>
                    simp only [List.filterMap_append, shown]
                    exact (List.prefix_append_right_inj _).mpr (ih relatedU)
          · obtain ⟨relatedU, silent⟩ := unwinding.hidden related shows first
            rw [List.filter_cons_of_neg (p := fun b => decide (visible b)) (by simpa using shows),
              silent, List.nil_append]
            exact ih relatedU

/-- Two runs with the same visible inputs show the same; where one of them fails, one of the
two shows the front of the other. -/
theorem indistinguishable (related : agree s s)
    (same : inputs.filter visible = others.filter visible) :
    ((emitted step s inputs).filterMap view <+: (emitted step s others).filterMap view ∨
      (emitted step s others).filterMap view <+: (emitted step s inputs).filterMap view) ∧
    ∀ t out t' out', NanoTrade.run step s inputs = .ok (t, out) →
      NanoTrade.run step s others = .ok (t', out') → out.filterMap view = out'.filterMap view := by
  constructor
  · have front := unwinding.emitted_prefix inputs related
    have front' := unwinding.emitted_prefix others related
    rw [← same] at front'
    exact List.prefix_or_prefix_of_prefix front front'
  · intro t out t' out' ran ran'
    obtain ⟨u, shown, alone, -, eq⟩ := unwinding.run related ran
    obtain ⟨u', shown', alone', -, eq'⟩ := unwinding.run related ran'
    rw [← same, alone, Except.ok.injEq, Prod.mk.injEq] at alone'
    rw [eq, eq', alone'.2]

end Unwinding

end NanoTrade
