import Mathlib.Data.List.Induction
import Mathlib.Data.List.Infix

/-!
# Runs of a machine that emits

A step takes a state and an input and either fails or returns the next state with what
it emits. `run` feeds it a list of inputs and collects the emissions; `runTotal` does
the same for a step that cannot fail.

* `run_invariant`: what holds of state, inputs and emissions is carried by one step.
* `run_admitted`: where every admissible step returns and carries the invariant, a run of
  admissible inputs returns and ends in it.
* `admits_throughout`: the same along a run in whose states something else holds (`Throughout`).
* `simulates`: a machine follows an abstract one along every list of inputs that are
  admissible where they arrive.
* `run_of_run`, `run_along`, `admits_of_along`: two machines of which one follows the other.
-/

namespace NanoTrade

variable {σ α ι ο ε : Type}

/-- The state after a list of inputs, with all emissions. -/
def run (step : σ → ι → Except ε (σ × List ο)) : σ → List ι → Except ε (σ × List ο)
  | s, [] => .ok (s, [])
  | s, i :: inputs => do
    let (s, out) ← step s i
    let (s, rest) ← run step s inputs
    pure (s, out ++ rest)

/-- The run of a step that cannot fail. -/
def runTotal (step : α → ι → α × List ο) : α → List ι → α × List ο
  | a, [] => (a, [])
  | a, i :: inputs =>
    ((runTotal step (step a i).1 inputs).1, (step a i).2 ++ (runTotal step (step a i).1 inputs).2)

/-- Every input is admissible in the state it arrives in. -/
def Along (pre : α → ι → Prop) (step : α → ι → α × List ο) : α → List ι → Prop
  | _, [] => True
  | a, i :: inputs => pre a i ∧ Along pre step (step a i).1 inputs

instance instDecidableAlong {pre : α → ι → Prop} [∀ a i, Decidable (pre a i)]
    {step : α → ι → α × List ο} : ∀ (a : α) (inputs : List ι), Decidable (Along pre step a inputs)
  | _, [] => isTrue trivial
  | a, _ :: inputs => @instDecidableAnd _ _ inferInstance (instDecidableAlong (step a _).1 inputs)

/-- `P` holds of every entry of a list behind those in front of it. -/
def Behind (P : List ο → ο → Prop) : List ο → List ο → Prop
  | _, [] => True
  | front, x :: xs => P front x ∧ Behind P (front ++ [x]) xs

/-- Every input is admissible in the state in which it reaches a machine that may fail. -/
def Admits (pre : σ → ι → Prop) (step : σ → ι → Except ε (σ × List ο)) : σ → List ι → Prop
  | _, [] => True
  | s, i :: inputs => pre s i ∧
      match step s i with
      | .ok (t, _) => Admits pre step t inputs
      | .error _ => True

instance instDecidableAdmits {pre : σ → ι → Prop} [∀ s i, Decidable (pre s i)]
    {step : σ → ι → Except ε (σ × List ο)} :
    ∀ (s : σ) (inputs : List ι), Decidable (Admits pre step s inputs)
  | _, [] => isTrue trivial
  | s, i :: inputs => @instDecidableAnd _ _ inferInstance <|
      match step s i with
      | .ok (t, _) => instDecidableAdmits t inputs
      | .error _ => isTrue trivial

theorem admits_of_forall {pre : σ → ι → Prop} {step : σ → ι → Except ε (σ × List ο)}
    (always : ∀ s i, pre s i) (s : σ) (inputs : List ι) : Admits pre step s inputs := by
  induction inputs generalizing s with
  | nil => trivial
  | cons i inputs ih =>
      refine ⟨always s i, ?_⟩
      split
      · exact ih _
      · trivial

theorem Admits.imp {pre pre' : σ → ι → Prop} {step : σ → ι → Except ε (σ × List ο)}
    (weaker : ∀ {s i}, pre s i → pre' s i) {s : σ} {inputs : List ι}
    (admits : Admits pre step s inputs) :
    Admits pre' step s inputs := by
  induction inputs generalizing s with
  | nil => trivial
  | cons i inputs ih =>
      obtain ⟨here, later⟩ := admits
      refine ⟨weaker here, ?_⟩
      split
      · rename_i first
        rw [first] at later
        exact ih later
      · trivial

theorem admits_of_mem {P : ι → Prop} {step : σ → ι → Except ε (σ × List ο)} {inputs : List ι}
    (always : ∀ i ∈ inputs, P i) (s : σ) : Admits (fun _ i => P i) step s inputs := by
  induction inputs generalizing s with
  | nil => trivial
  | cons i inputs ih =>
      refine ⟨always i List.mem_cons_self, ?_⟩
      split
      · exact ih (fun j mem => always j (List.mem_cons_of_mem _ mem)) _
      · trivial

section Run

variable {step : σ → ι → Except ε (σ × List ο)} {s t u : σ} {inputs more : List ι}
  {out now later : List ο}

theorem run_cons {i : ι} :
    run step s (i :: inputs) = .ok (u, out) ↔
      ∃ t now later, step s i = .ok (t, now) ∧ run step t inputs = .ok (u, later) ∧
        out = now ++ later := by
  rw [run]
  cases first : step s i with
  | error e => simp [bind, Except.bind]
  | ok p =>
      obtain ⟨t, now⟩ := p
      cases tail : run step t inputs with
      | error e => simp [bind, Except.bind, tail]
      | ok q =>
          obtain ⟨v, later⟩ := q
          simp [bind, Except.bind, pure, Except.pure, tail, eq_comm]

theorem run_cons_eq_ok {i : ι} (first : step s i = .ok (t, now))
    (tail : run step t inputs = .ok (u, later)) :
    run step s (i :: inputs) = .ok (u, now ++ later) := by
  rw [run_cons]
  exact ⟨t, now, later, first, tail, rfl⟩

theorem run_singleton {i : ι} : run step s [i] = step s i := by
  rw [run]
  cases step s i with
  | error e => rfl
  | ok p =>
      show Except.ok (p.1, p.2 ++ []) = _
      rw [List.append_nil]

theorem run_append :
    run step s (inputs ++ more) = .ok (u, out) ↔
      ∃ t now later, run step s inputs = .ok (t, now) ∧ run step t more = .ok (u, later) ∧
        out = now ++ later := by
  induction inputs generalizing s out with
  | nil => simp [run]
  | cons i inputs ih =>
      rw [List.cons_append, run_cons]
      constructor
      · rintro ⟨t, now, later, first, tail, rfl⟩
        obtain ⟨v, mid, last, before, after, rfl⟩ := ih.mp tail
        exact ⟨v, now ++ mid, last, run_cons_eq_ok first before, after,
          (List.append_assoc _ _ _).symm⟩
      · rintro ⟨v, now, last, before, after, rfl⟩
        rw [run_cons] at before
        obtain ⟨t, first, mid, head, tail, rfl⟩ := before
        exact ⟨t, first, mid ++ last, head, ih.mpr ⟨v, mid, last, tail, after, rfl⟩,
          List.append_assoc _ _ _⟩

/-- Behind a run that returns, a fault of the rest is the fault of the whole. -/
theorem run_append_fault {e : ε} (before : run step s inputs = .ok (t, out))
    (fault : run step t more = .error e) : run step s (inputs ++ more) = .error e := by
  induction inputs generalizing s out with
  | nil =>
      cases before
      exact fault
  | cons i inputs ih =>
      rw [run_cons] at before
      obtain ⟨u, now, later, first, tail, rfl⟩ := before
      rw [List.cons_append, run, first]
      show (run step u (inputs ++ more) >>= _) = _
      rw [ih tail]
      rfl

theorem run_concat {i : ι} :
    run step s (inputs ++ [i]) = .ok (u, out) ↔
      ∃ t now later, run step s inputs = .ok (t, now) ∧ step t i = .ok (u, later) ∧
        out = now ++ later := by
  rw [run_append]
  simp only [run_singleton]

/-- Induction over a run: one step carries `P`, so a whole run does. -/
theorem run_invariant {P : σ → List ι → List ο → Prop} (start : P s [] [])
    (carried : ∀ {t inputs out i u now}, P t inputs out → run step s inputs = .ok (t, out) →
      step t i = .ok (u, now) → P u (inputs ++ [i]) (out ++ now))
    (run : run step s inputs = .ok (t, out)) : P t inputs out := by
  induction inputs using List.reverseRecOn generalizing t out with
  | nil =>
      cases run
      exact start
  | append_singleton inputs i ih =>
      rw [run_concat] at run
      obtain ⟨v, now, later, before, last, rfl⟩ := run
      exact carried (ih before) before last

/-- Progress and induction: where an admissible input always has a step, and the step
carries `P`, admissible runs return and end in `P`. -/
theorem run_admitted {pre : σ → ι → Prop} {P : σ → List ι → List ο → Prop} (start : P s [] [])
    (progress : ∀ {t inputs out i}, P t inputs out → pre t i →
      ∃ u now, step t i = .ok (u, now) ∧ P u (inputs ++ [i]) (out ++ now))
    (admits : Admits pre step s inputs) :
    ∃ t out, run step s inputs = .ok (t, out) ∧ P t inputs out := by
  have fromHere : ∀ before sofar, P s before sofar →
      ∃ t out, run step s inputs = .ok (t, out) ∧ P t (before ++ inputs) (sofar ++ out) := by
    clear start
    induction inputs generalizing s with
    | nil =>
        intro before sofar holds
        exact ⟨s, [], rfl, by simpa using holds⟩
    | cons i inputs ih =>
        intro before sofar holds
        obtain ⟨u, now, first, next⟩ := progress holds admits.1
        have later := admits.2
        rw [first] at later
        obtain ⟨t, out, ran, ends⟩ := ih later _ _ next
        exact ⟨t, now ++ out, run_cons_eq_ok first ran, by simpa using ends⟩
  exact fromHere [] [] start

/-- Induction over an admitted run that returns: one admissible step carries `P`. -/
theorem admits_invariant {pre : σ → ι → Prop} {P : σ → Prop} (start : P s)
    (carried : ∀ {t i u now}, P t → pre t i → step t i = .ok (u, now) → P u)
    (admits : Admits pre step s inputs) (ran : run step s inputs = .ok (t, out)) : P t := by
  induction inputs generalizing s out with
  | nil =>
      cases ran
      exact start
  | cons i inputs ih =>
      rw [run_cons] at ran
      obtain ⟨u, now, later, first, tail, rfl⟩ := ran
      have rest := admits.2
      rw [first] at rest
      exact ih (carried start admits.1 first) rest tail

/-- Induction over an admitted run and what it emits. -/
theorem admits_carried {pre : σ → ι → Prop} {P : σ → List ο → Prop} (start : P s [])
    (carried : ∀ {t out i u now}, P t out → pre t i → step t i = .ok (u, now) → P u (out ++ now))
    (admits : Admits pre step s inputs) (ran : run step s inputs = .ok (t, out)) : P t out := by
  have fromHere : ∀ sofar, P s sofar → P t (sofar ++ out) := by
    clear start
    induction inputs generalizing s out with
    | nil =>
        intro sofar holds
        cases ran
        rw [List.append_nil]
        exact holds
    | cons i inputs ih =>
        intro sofar holds
        rw [run_cons] at ran
        obtain ⟨u, now, later, first, tail, rfl⟩ := ran
        have rest := admits.2
        rw [first] at rest
        rw [← List.append_assoc]
        exact ih rest tail _ (carried holds admits.1 first)
  exact fromHere [] start

/-- A machine that does in the states of `P` whatever another one does has its runs. -/
theorem run_of_run {step' : σ → ι → Except ε (σ × List ο)} {P : σ → Prop}
    (follows : ∀ {t i u now}, P t → step t i = .ok (u, now) → P u ∧ step' t i = .ok (u, now))
    (start : P s) (ran : run step s inputs = .ok (t, out)) : run step' s inputs = .ok (t, out) := by
  induction inputs generalizing s out with
  | nil => exact ran
  | cons i inputs ih =>
      rw [run_cons] at ran
      obtain ⟨u, now, later, first, tail, rfl⟩ := ran
      obtain ⟨next, first'⟩ := follows start first
      exact run_cons_eq_ok first' (ih next tail)

/-- `Q` holds in every state of the run, the last one included. -/
def Throughout (Q : σ → Prop) (step : σ → ι → Except ε (σ × List ο)) (s : σ) (inputs : List ι) :
    Prop :=
  ∀ before, before <+: inputs → ∀ t out, run step s before = .ok (t, out) → Q t

instance {Q : σ → Prop} [DecidablePred Q] : Decidable (Throughout Q step s inputs) :=
  decidable_of_iff
    (∀ before ∈ inputs.inits, ∀ result ∈ (run step s before).toOption, Q result.1) <| by
    constructor
    · intro each before prefixed t out ran
      exact each before ((List.mem_inits _ _).mpr prefixed) (t, out) (by rw [ran]; rfl)
    · intro always before mem result ran
      cases returned : run step s before with
      | error fault =>
          rw [returned] at ran
          cases ran
      | ok state =>
          rw [returned] at ran
          cases ran
          exact always before ((List.mem_inits _ _).mp mem) result.1 result.2 returned

/-- The last state of a run. -/
theorem Throughout.last {Q : σ → Prop} (always : Throughout Q step s inputs)
    (ran : run step s inputs = .ok (t, out)) : Q t :=
  always inputs List.prefix_rfl t out ran

/-- The run behind its first step. -/
theorem Throughout.tail {Q : σ → Prop} {i : ι} (always : Throughout Q step s (i :: inputs))
    (first : step s i = .ok (t, now)) : Throughout Q step t inputs := by
  intro before prefixed u out ran
  exact always (i :: before) ((List.prefix_cons_inj i).mpr prefixed) u _
    (run_cons_eq_ok first ran)

/-- Induction over an admitted run with `Q` in all its states: one step between such states
carries `P`. -/
theorem admits_throughout {pre : σ → ι → Prop} {Q : σ → Prop} {P : σ → List ο → Prop}
    (start : P s [])
    (carried : ∀ {t out i u now}, P t out → pre t i → Q t → Q u → step t i = .ok (u, now) →
      P u (out ++ now))
    (admits : Admits pre step s inputs) (always : Throughout Q step s inputs)
    (ran : run step s inputs = .ok (t, out)) : P t out := by
  have kept : Admits (fun t i => pre t i ∧ Q t ∧ ∀ u now, step t i = .ok (u, now) → Q u)
      step s inputs := by
    clear start ran
    induction inputs generalizing s with
    | nil => trivial
    | cons i inputs ih =>
        refine ⟨⟨admits.1, always [] List.nil_prefix s [] rfl, fun u now stepped => ?_⟩, ?_⟩
        · exact always [i] ((List.prefix_cons_inj i).mpr List.nil_prefix) u now
            (run_singleton.trans stepped)
        · have rest := admits.2
          cases first : step s i with
          | error fault => trivial
          | ok next =>
              rw [first] at rest
              exact ih rest (always.tail first)
  exact admits_carried start (fun holds here stepped =>
    carried holds here.1 here.2.1 (here.2.2 _ _ stepped) stepped) kept ran

/-- A run that returns, read off its result. -/
theorem run_of_read {β : Type} (step : σ → ι → Except ε (σ × List ο)) (s : σ) (inputs : List ι)
    (f : σ × List ο → β) (value : β)
    (read : (run step s inputs).toOption.map f = some value) :
    ∃ t out, run step s inputs = .ok (t, out) ∧ f (t, out) = value := by
  cases ran : run step s inputs with
  | error fault =>
      rw [ran] at read
      cases read
  | ok result =>
      rw [ran] at read
      exact ⟨result.1, result.2, rfl, Option.some.inj read⟩

/-- A run that returns, read off its emissions. -/
theorem run_of_map {β : Type} (step : σ → ι → Except ε (σ × List ο)) (s : σ) (inputs : List ι)
    (f : List ο → β) (value : β)
    (read : (run step s inputs).toOption.map (fun result => f result.2) = some value) :
    ∃ t out, run step s inputs = .ok (t, out) ∧ f out = value :=
  run_of_read step s inputs (fun result => f result.2) value read

end Run

section Streams

variable {P Q : List ο → ο → Prop} {front xs ys : List ο}

theorem behind_append :
    Behind P front (xs ++ ys) ↔ Behind P front xs ∧ Behind P (front ++ xs) ys := by
  induction xs generalizing front with
  | nil => rw [List.nil_append, List.append_nil, Behind, true_and]
  | cons x xs ih =>
      rw [List.cons_append, Behind, Behind, ih, and_assoc, List.append_assoc,
        List.singleton_append]

theorem behind_singleton {x : ο} : Behind P front [x] ↔ P front x := by
  rw [Behind, Behind, and_true]

theorem behind_iff :
    Behind P front xs ↔ ∀ early x late, xs = early ++ x :: late → P (front ++ early) x := by
  induction xs generalizing front with
  | nil =>
      refine ⟨fun _ early x late shape => ?_, fun _ => trivial⟩
      cases early <;> cases shape
  | cons y xs ih =>
      rw [Behind, ih]
      constructor
      · intro ⟨here, later⟩ early x late shape
        cases early with
        | nil =>
            cases shape
            rw [List.append_nil]
            exact here
        | cons z early =>
            cases shape
            rw [← List.singleton_append, ← List.append_assoc]
            exact later early x late rfl
      · intro all
        refine ⟨?_, fun early x late shape => ?_⟩
        · have here := all [] y xs rfl
          rw [List.append_nil] at here
          exact here
        · have there := all (y :: early) x late (by rw [shape, List.cons_append])
          rw [List.append_assoc, List.singleton_append]
          exact there

/-- The first entry of a list is behind what is in front of the list. -/
theorem behind_of_length_le_one (few : xs.length ≤ 1) :
    Behind P front xs ↔ ∀ x ∈ xs, P front x := by
  cases xs with
  | nil => exact ⟨fun _ x mem => (List.not_mem_nil mem).elim, fun _ => trivial⟩
  | cons x xs =>
      have alone : xs = [] := List.eq_nil_of_length_eq_zero (by
        rw [List.length_cons] at few
        lia)
      rw [alone, behind_singleton, List.forall_mem_singleton]

/-- What holds of every front of two lists in a row. -/
theorem forall_prefix_append {R : List ο → Prop} :
    (∀ front, front <+: xs ++ ys → R front) ↔
      (∀ front, front <+: xs → R front) ∧ ∀ front, front <+: ys → R (xs ++ front) := by
  constructor
  · intro all
    refine ⟨fun front early => all front (early.trans (List.prefix_append xs ys)), ?_⟩
    intro front late
    exact all (xs ++ front) ((List.prefix_append_right_inj xs).mpr late)
  · intro ⟨early, late⟩ front prefixed
    rcases List.prefix_or_prefix_of_prefix prefixed (List.prefix_append xs ys) with short | long
    · exact early front short
    · obtain ⟨rest, rfl⟩ := long
      exact late rest ((List.prefix_append_right_inj xs).mp prefixed)

/-- With at most one more, it is what holds of the fronts and of the whole. -/
theorem forall_prefix_toList {R : List ο → Prop} (x : Option ο) :
    (∀ front, front <+: xs ++ x.toList → R front) ↔
      (∀ front, front <+: xs → R front) ∧ R (xs ++ x.toList) := by
  constructor
  · intro all
    exact ⟨fun front early => all front (early.trans (List.prefix_append xs _)),
      all _ List.prefix_rfl⟩
  · intro ⟨early, whole⟩ front prefixed
    cases x with
    | none =>
        rw [Option.toList_none, List.append_nil] at prefixed
        exact early front prefixed
    | some x =>
        rcases List.prefix_concat_iff.mp prefixed with rfl | short
        · exact whole
        · exact early front short

theorem forall_prefix_singleton {R : List ο → Prop} {x : ο} :
    (∀ front, front <+: [x] → R front) ↔ R [] ∧ R [x] := by
  constructor
  · intro all
    exact ⟨all [] List.nil_prefix, all [x] List.prefix_rfl⟩
  · intro ⟨start, last⟩ front prefixed
    rcases List.prefix_cons_iff.mp prefixed with rfl | ⟨rest, rfl, isNil⟩
    · exact start
    · rw [List.prefix_nil.mp isNil]
      exact last

end Streams

section Total

variable {step : α → ι → α × List ο} {a : α} {inputs more : List ι}

theorem runTotal_append (step : α → ι → α × List ο) (a : α) (inputs more : List ι) :
    runTotal step a (inputs ++ more) =
      ((runTotal step (runTotal step a inputs).1 more).1,
        (runTotal step a inputs).2 ++ (runTotal step (runTotal step a inputs).1 more).2) := by
  induction inputs generalizing a with
  | nil => rfl
  | cons i inputs ih =>
      rw [List.cons_append, runTotal, ih, runTotal, List.append_assoc]

theorem runTotal_concat (step : α → ι → α × List ο) (a : α) (inputs : List ι) (i : ι) :
    runTotal step a (inputs ++ [i]) =
      ((step (runTotal step a inputs).1 i).1,
        (runTotal step a inputs).2 ++ (step (runTotal step a inputs).1 i).2) := by
  rw [runTotal_append, runTotal, runTotal, List.append_nil]

theorem along_append {pre : α → ι → Prop} :
    Along pre step a (inputs ++ more) ↔
      Along pre step a inputs ∧ Along pre step (runTotal step a inputs).1 more := by
  induction inputs generalizing a with
  | nil => exact ⟨fun h => ⟨trivial, h⟩, And.right⟩
  | cons i inputs ih =>
      rw [List.cons_append, Along, Along, ih, and_assoc]
      rfl

theorem along_prefixed {pre : α → ι → Prop} (prefixed : inputs <+: more)
    (along : Along pre step a more) : Along pre step a inputs := by
  obtain ⟨rest, rfl⟩ := prefixed
  rw [along_append] at along
  exact along.1

theorem Along.imp {pre pre' : α → ι → Prop} (weaker : ∀ {a i}, pre a i → pre' a i)
    (along : Along pre step a inputs) : Along pre' step a inputs := by
  induction inputs generalizing a with
  | nil => trivial
  | cons i inputs ih => exact ⟨weaker along.1, ih along.2⟩

theorem Along.and {pre pre' : α → ι → Prop} (first : Along pre step a inputs)
    (second : Along pre' step a inputs) : Along (fun a i => pre a i ∧ pre' a i) step a inputs := by
  induction inputs generalizing a with
  | nil => trivial
  | cons i inputs ih => exact ⟨⟨first.1, second.1⟩, ih first.2 second.2⟩

theorem along_of_forall {P : ι → Prop} (always : ∀ i ∈ inputs, P i) (a : α) :
    Along (fun _ i => P i) step a inputs := by
  induction inputs generalizing a with
  | nil => trivial
  | cons i inputs ih =>
      exact ⟨always i List.mem_cons_self, ih (fun j mem => always j (List.mem_cons_of_mem _ mem)) _⟩

/-- Where not every input is admissible, there is a first one that is not. -/
theorem exists_of_not_along {pre : α → ι → Prop} (not : ¬ Along pre step a inputs) :
    ∃ before i rest, inputs = before ++ i :: rest ∧ Along pre step a before ∧
      ¬ pre (runTotal step a before).1 i := by
  induction inputs generalizing a with
  | nil => exact (not trivial).elim
  | cons i inputs ih =>
      by_cases here : pre a i
      · obtain ⟨before, j, rest, split, along, stops⟩ := ih fun later => not ⟨here, later⟩
        exact ⟨i :: before, j, rest, congrArg (i :: ·) split, ⟨here, along⟩, stops⟩
      · exact ⟨[], i, inputs, rfl, trivial, here⟩

/-- Induction over a run that cannot fail: an admissible step carries `P`, so a run along
admissible inputs does. -/
theorem along_invariant {pre : α → ι → Prop} {P : α → List ο → Prop} {out : List ο}
    (start : P a out)
    (carried : ∀ {a out i}, P a out → pre a i → P (step a i).1 (out ++ (step a i).2))
    (along : Along pre step a inputs) :
    P (runTotal step a inputs).1 (out ++ (runTotal step a inputs).2) := by
  induction inputs generalizing a out with
  | nil =>
      rw [runTotal, List.append_nil]
      exact start
  | cons i inputs ih =>
      rw [runTotal, ← List.append_assoc]
      exact ih (carried start along.1) along.2

end Total

section Abstract

variable {ω : Type} {step : σ → ι → Except ε (σ × List ο)} {abstract : α → ι → α × List ω}
  {R : σ → α → Prop} {pre : α → ι → Prop} {s : σ} {a : α} {inputs : List ι}

/-- What is admissible for an abstract machine is so for one whose steps it follows. -/
theorem admits_of_along {pre' : σ → ι → Prop}
    (follows : ∀ {s a i t now}, R s a → step s i = .ok (t, now) → R t (abstract a i).1)
    (reads : ∀ {s a i}, R s a → pre a i → pre' s i) (related : R s a)
    (along : Along pre abstract a inputs) : Admits pre' step s inputs := by
  induction inputs generalizing s a with
  | nil => trivial
  | cons i inputs ih =>
      refine ⟨reads related along.1, ?_⟩
      split
      · rename_i first
        exact ih (follows related first) along.2
      · trivial

/-- Where admissible steps return, whole runs do. -/
theorem run_along
    (follows : ∀ {s a i}, R s a → pre a i →
      ∃ t now, step s i = .ok (t, now) ∧ R t (abstract a i).1)
    (related : R s a) (along : Along pre abstract a inputs) :
    ∃ t out, run step s inputs = .ok (t, out) ∧ R t (runTotal abstract a inputs).1 := by
  induction inputs generalizing s a with
  | nil => exact ⟨s, [], rfl, related⟩
  | cons i inputs ih =>
      obtain ⟨t, now, first, next⟩ := follows related along.1
      obtain ⟨u, later, tail, last⟩ := ih next along.2
      exact ⟨u, now ++ later, run_cons_eq_ok first tail, last⟩

end Abstract

/-- Simulation over a run: where one admissible step is followed by the abstract one
with the same emissions, whole runs are. -/
theorem simulates {step : σ → ι → Except ε (σ × List ο)} {abstract : α → ι → α × List ο}
    {R : σ → α → Prop} {pre : α → ι → Prop}
    (follows : ∀ {s a i}, R s a → pre a i →
      ∃ t, step s i = .ok (t, (abstract a i).2) ∧ R t (abstract a i).1)
    {s : σ} {a : α} {inputs : List ι} (related : R s a) (along : Along pre abstract a inputs) :
    ∃ t, run step s inputs = .ok (t, (runTotal abstract a inputs).2) ∧
      R t (runTotal abstract a inputs).1 := by
  induction inputs generalizing s a with
  | nil => exact ⟨s, rfl, related⟩
  | cons i inputs ih =>
      obtain ⟨t, first, relatedT⟩ := follows related along.1
      obtain ⟨u, tail, relatedU⟩ := ih relatedT along.2
      exact ⟨u, run_cons_eq_ok first tail, relatedU⟩

end NanoTrade
