import Mathlib.Algebra.Order.Ring.Int
import Mathlib.Data.List.TakeWhile

/-!
# Integers in text

`std::from_chars` for the integer types, with the fields and the lines that the text comes in.

* `IntegerType.fromChars_write`: what is written in decimal is read back, up to the first
  character that is no digit.
* `IntegerType.parse_fits`: whatever the text is, what is read fits its type.
* `nextField_append`, `lines_unlines`: fields and lines come back as they were put together.
-/

namespace NanoTrade

/-! ## Numbers -/

/-- An integer type of the given width. -/
structure IntegerType where
  signed : Bool
  width : Nat

namespace IntegerType

def least (T : IntegerType) : Int :=
  if T.signed then -2 ^ (T.width - 1) else 0

/-- The first number behind the largest of the type. -/
def beyond (T : IntegerType) : Int :=
  if T.signed then 2 ^ (T.width - 1) else 2 ^ T.width

def Fits (T : IntegerType) (n : Int) : Prop :=
  T.least ≤ n ∧ n < T.beyond

instance (T : IntegerType) (n : Int) : Decidable (T.Fits n) :=
  inferInstanceAs (Decidable (_ ∧ _))

def int32 : IntegerType := ⟨true, 32⟩

def uint32 : IntegerType := ⟨false, 32⟩

def int64 : IntegerType := ⟨true, 64⟩

def uint64 : IntegerType := ⟨false, 64⟩

/-- A minus sign in front of a number of a signed type. -/
def isNegative (T : IntegerType) (text : List Char) : Bool :=
  T.signed && text.head? == some '-'

/-- The longest run of digits. -/
def digits (T : IntegerType) (text : List Char) : List Char :=
  (if T.isNegative text then text.tail else text).takeWhile Char.isDigit

def value (T : IntegerType) (text : List Char) : Int :=
  if T.isNegative text then -(Nat.ofDigitChars 10 (T.digits text) 0 : Int)
  else Nat.ofDigitChars 10 (T.digits text) 0

/-- `std::from_chars`: the value of the longest match, if there is one and the type holds it.
Otherwise the variable is not written. -/
def fromChars (T : IntegerType) (text : List Char) : Option Int :=
  if T.digits text = [] then none
  else if T.Fits (T.value text) then some (T.value text) else none

/-- What is read into a variable that is zero before. -/
def parse (T : IntegerType) (text : List Char) : Int :=
  (T.fromChars text).getD 0

/-- The number in decimal. -/
def write (n : Int) : List Char :=
  if n < 0 then '-' :: Nat.toDigits 10 n.natAbs else Nat.toDigits 10 n.natAbs

variable {T : IntegerType} {n : Int} {text rest : List Char}

theorem fits_zero (T : IntegerType) : T.Fits 0 := by
  unfold Fits least beyond
  split
  · have positive : (0 : Int) < 2 ^ (T.width - 1) := pow_pos (by decide) _
    omega
  · have positive : (0 : Int) < 2 ^ T.width := pow_pos (by decide) _
    omega

/-- What is read fits. -/
theorem parse_fits (T : IntegerType) (text : List Char) : T.Fits (T.parse text) := by
  unfold parse fromChars
  split
  · exact T.fits_zero
  · split
    · rename_i fits
      exact fits
    · exact T.fits_zero

/-- The digits of a number end where no digit follows. -/
theorem takeWhile_toDigits (k : Nat) (stops : ∀ c ∈ rest.head?, c.isDigit = false) :
    (Nat.toDigits 10 k ++ rest).takeWhile Char.isDigit = Nat.toDigits 10 k := by
  have all : ∀ c ∈ Nat.toDigits 10 k, c.isDigit = true := fun c mem =>
    Nat.isDigit_of_mem_toDigits (by decide) (by decide) mem
  rw [List.takeWhile_append_of_pos all]
  cases rest with
  | nil => exact List.append_nil _
  | cons c rest =>
      have stop : ¬ c.isDigit = true := by
        rw [stops c rfl]
        exact Bool.false_ne_true
      rw [List.takeWhile_cons_of_neg stop, List.append_nil]

theorem not_isNegative_toDigits (k : Nat) : T.isNegative (Nat.toDigits 10 k ++ rest) = false := by
  obtain ⟨c, cs, shape⟩ := List.exists_cons_of_ne_nil (Nat.toDigits_ne_nil (n := k) (b := 10))
  have digit : c.isDigit = true :=
    Nat.isDigit_of_mem_toDigits (by decide) (by decide) (shape ▸ List.mem_cons_self)
  rw [isNegative, shape, List.cons_append, List.head?_cons, Bool.and_eq_false_iff]
  refine .inr (beq_eq_false_iff_ne.mpr fun same => ?_)
  rw [Option.some.inj same] at digit
  cases digit

/-- What is written is read back, up to the first character that is no digit. -/
theorem fromChars_write (fits : T.Fits n) (stops : ∀ c ∈ rest.head?, c.isDigit = false) :
    T.fromChars (write n ++ rest) = some n := by
  have whole : T.digits (write n ++ rest) = Nat.toDigits 10 n.natAbs ∧
      T.value (write n ++ rest) = n := by
    by_cases negative : n < 0
    · have signed : T.signed = true := by
        by_contra unsigned
        have least := fits.1
        rw [IntegerType.least, if_neg unsigned] at least
        omega
      have sign : T.isNegative (write n ++ rest) = true := by
        rw [isNegative, signed, write, if_pos negative]
        rfl
      have own : T.digits (write n ++ rest) = Nat.toDigits 10 n.natAbs := by
        rw [digits, if_pos sign, write, if_pos negative]
        exact takeWhile_toDigits _ stops
      refine ⟨own, ?_⟩
      rw [value, if_pos sign, own, Nat.ofDigitChars_ten_toDigits]
      omega
    · have sign : T.isNegative (write n ++ rest) = false := by
        rw [write, if_neg negative]
        exact not_isNegative_toDigits _
      have own : T.digits (write n ++ rest) = Nat.toDigits 10 n.natAbs := by
        rw [digits, if_neg (Bool.eq_false_iff.mp sign), write, if_neg negative]
        exact takeWhile_toDigits _ stops
      refine ⟨own, ?_⟩
      rw [value, if_neg (Bool.eq_false_iff.mp sign), own, Nat.ofDigitChars_ten_toDigits]
      omega
  rw [fromChars, whole.1, whole.2, if_neg Nat.toDigits_ne_nil, if_pos fits]

theorem parse_write (fits : T.Fits n) (stops : ∀ c ∈ rest.head?, c.isDigit = false) :
    T.parse (write n ++ rest) = n := by
  rw [parse, fromChars_write fits stops]
  rfl

/-- A number in decimal is digits, behind a minus sign at most. -/
theorem mem_write {c : Char} (mem : c ∈ write n) : c = '-' ∨ c.isDigit = true := by
  have digit : c ∈ Nat.toDigits 10 n.natAbs → c.isDigit = true :=
    Nat.isDigit_of_mem_toDigits (by decide) (by decide)
  unfold write at mem
  split at mem
  · rcases List.mem_cons.mp mem with sign | mem
    · exact .inl sign
    · exact .inr (digit mem)
  · exact .inr (digit mem)

end IntegerType

/-! ## Fields -/

/-- The characters up to the next comma, and those behind it. -/
def nextField (line : List Char) : List Char × List Char :=
  (line.takeWhile (· ≠ ','), (line.dropWhile (· ≠ ',')).drop 1)

section Fields

variable {field rest : List Char}

theorem nextField_append (noComma : ',' ∉ field) (rest : List Char) :
    nextField (field ++ ',' :: rest) = (field, rest) := by
  have all : ∀ c ∈ field, decide (c ≠ ',') = true := by
    intro c mem
    exact decide_eq_true fun same => noComma (same ▸ mem)
  rw [nextField, List.takeWhile_append_of_pos all, List.dropWhile_append_of_pos all,
    List.takeWhile_cons_of_neg (by simp), List.dropWhile_cons_of_neg (by simp), List.append_nil]
  rfl

end Fields

/-! ## Lines -/

/-- `std::getline` to the end of the text, with the characters that `line` has already. -/
def linesFrom (line : List Char) : List Char → List (List Char)
  | [] => if line = [] then [] else [line]
  | c :: text => if c = '\n' then line :: linesFrom [] text else linesFrom (line ++ [c]) text

def lines (text : List Char) : List (List Char) :=
  linesFrom [] text

/-- The lines, each with its end. -/
def unlines (ls : List (List Char)) : List Char :=
  ls.flatMap fun line => line ++ ['\n']

theorem linesFrom_append {line more : List Char} (noEnd : '\n' ∉ more) (text : List Char) :
    linesFrom line (more ++ '\n' :: text) = (line ++ more) :: linesFrom [] text := by
  induction more generalizing line with
  | nil => rw [List.nil_append, linesFrom, if_pos rfl, List.append_nil]
  | cons c more ih =>
      have here : c ≠ '\n' := fun same => noEnd (same ▸ List.mem_cons_self)
      rw [List.cons_append, linesFrom, if_neg here,
        ih fun mem => noEnd (List.mem_cons_of_mem _ mem), List.append_assoc,
        List.singleton_append]

/-- Lines come back as they were put together. -/
theorem lines_unlines {ls : List (List Char)} (noEnds : ∀ line ∈ ls, '\n' ∉ line) :
    lines (unlines ls) = ls := by
  induction ls with
  | nil => rfl
  | cons line ls ih =>
      have later := ih fun line mem => noEnds line (List.mem_cons_of_mem _ mem)
      rw [lines] at later ⊢
      rw [unlines, List.flatMap_cons, List.append_assoc, List.singleton_append,
        linesFrom_append (noEnds line List.mem_cons_self), List.nil_append, ← unlines, later]

end NanoTrade
