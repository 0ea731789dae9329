import NanoTrade.Machine

/-!
# How a computation that may fail ends

`Ends allowed x Q`: where `x` returns, its result satisfies `Q`, and where it fails, its error is
one of the `allowed` ones. The rules follow the structure of the computation.
-/

namespace NanoTrade

variable {ε α β σ ι ο : Type} {allowed : ε → Prop}

/-- A computation returns through each of its parts. -/
theorem bind_eq_ok {x : Except ε α} {f : α → Except ε β} {b : β} :
    (x >>= f) = .ok b ↔ ∃ a, x = .ok a ∧ f a = .ok b := by
  cases x with
  | error e =>
      constructor
      · intro returned
        cases returned
      · intro ⟨a, returned, _⟩
        cases returned
  | ok a =>
      constructor
      · intro returned
        exact ⟨a, rfl, returned⟩
      · intro ⟨a', same, returned⟩
        cases same
        exact returned

def Ends (allowed : ε → Prop) (x : Except ε α) (Q : α → Prop) : Prop :=
  match x with
  | .ok a => Q a
  | .error e => allowed e

namespace Ends

variable {x : Except ε α} {Q R : α → Prop}

theorem ok {a : α} (holds : Q a) : Ends allowed (.ok a) Q :=
  holds

theorem pure {a : α} (holds : Q a) : Ends allowed (Pure.pure a : Except ε α) Q :=
  holds

theorem error {e : ε} (may : allowed e) : Ends allowed (.error e) Q :=
  may

theorem bind {f : α → Except ε β} {P : β → Prop} (first : Ends allowed x Q)
    (next : ∀ a, Q a → Ends allowed (f a) P) : Ends allowed (x >>= f) P := by
  cases x with
  | error e => exact first
  | ok a => exact next a first

/-- The rule for a first step whose result the rest depends on. -/
theorem bind_of_eq {f : α → Except ε β} {P : β → Prop} (first : Ends allowed x Q)
    (next : ∀ a, x = .ok a → Q a → Ends allowed (f a) P) : Ends allowed (x >>= f) P := by
  cases x with
  | error e => exact first
  | ok a => exact next a rfl first

theorem imp (ends : Ends allowed x Q) (weaker : ∀ a, Q a → R a) : Ends allowed x R := by
  cases x with
  | error e => exact ends
  | ok a => exact weaker a ends

theorem weaken {wider : ε → Prop} (ends : Ends allowed x Q) (more : ∀ e, allowed e → wider e) :
    Ends wider x Q := by
  cases x with
  | error e => exact more e ends
  | ok a => exact ends

theorem of_ok {a : α} (ends : Ends allowed x Q) (returned : x = .ok a) : Q a := by
  rw [returned] at ends
  exact ends

theorem of_error {e : ε} (ends : Ends allowed x Q) (failed : x = .error e) : allowed e := by
  rw [failed] at ends
  exact ends

/-- Whole runs: one admissible step ends in what the next one starts from. -/
theorem run {pre : σ → ι → Prop} {step : σ → ι → Except ε (σ × List ο)} {P : σ → Prop}
    (carried : ∀ {s i}, P s → pre s i → Ends allowed (step s i) fun result => P result.1)
    {s : σ} {inputs : List ι} (start : P s) (admits : Admits pre step s inputs) :
    Ends allowed (run step s inputs) fun result => P result.1 := by
  induction inputs generalizing s with
  | nil => exact start
  | cons i inputs ih =>
      have later := admits.2
      refine bind_of_eq (carried start admits.1) ?_
      intro result returned holds
      rw [returned] at later
      refine bind (ih holds later) ?_
      intro last ends
      exact ends

end Ends

end NanoTrade
