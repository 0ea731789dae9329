import Mathlib.Tactic.Ring
import Mathlib.Algebra.Order.Ring.Nat

/-!
# Packed records in a stream of bytes

`Packed α` is a record layout: a fixed number of bytes for every value, and a reading that
gives back each value the layout can hold. Layouts of numbers (little-endian) and of one
byte codes are put together with `Packed.pair` and carried over to a structure with
`Packed.via`.

A receiver cuts its buffer into `frames` and keeps the `leftover`. `Packed.frames_stream`:
wherever the stream is cut, these are the next records and the front of the one behind.
-/

namespace NanoTrade

/-- The `width` lowest bytes of a number, the least significant first. -/
def littleEndian : (width : Nat) → Nat → List UInt8
  | 0, _ => []
  | width + 1, n => UInt8.ofNat n :: littleEndian width (n / 256)

def fromLittleEndian : List UInt8 → Nat
  | [] => 0
  | b :: bs => b.toNat + 256 * fromLittleEndian bs

theorem length_littleEndian (width n : Nat) : (littleEndian width n).length = width := by
  induction width generalizing n with
  | zero => rfl
  | succ width ih => rw [littleEndian, List.length_cons, ih]

theorem fromLittleEndian_littleEndian (width n : Nat) :
    fromLittleEndian (littleEndian width n) = n % 256 ^ width := by
  induction width generalizing n with
  | zero => rw [littleEndian, fromLittleEndian, pow_zero, Nat.mod_one]
  | succ width ih =>
      have low : (UInt8.ofNat n).toNat = n % 256 := UInt8.toNat_ofNat'
      rw [littleEndian, fromLittleEndian, ih, low, pow_succ', Nat.mod_mul]

structure Packed (α : Type) where
  size : Nat
  pack : α → List UInt8
  unpack : List UInt8 → α
  /-- The values that fit into the layout. -/
  Holds : α → Prop
  length_pack : ∀ a, (pack a).length = size
  unpack_pack : ∀ a, Holds a → unpack (pack a) = a

attribute [simp] Packed.length_pack

namespace Packed

variable {α β : Type}

/-- An unsigned number of `width` bytes. -/
def unsigned (width : Nat) : Packed Nat where
  size := width
  pack := littleEndian width
  unpack := fromLittleEndian
  Holds n := n < 256 ^ width
  length_pack := length_littleEndian width
  unpack_pack n fits := by rw [fromLittleEndian_littleEndian, Nat.mod_eq_of_lt fits]

/-- A number in two's complement, `2 * half` being the number of its values. -/
def signed (width half : Nat) (whole : 256 ^ width = 2 * half) : Packed Int where
  size := width
  pack i := littleEndian width (i % (2 * half : Nat)).toNat
  unpack bytes :=
    if fromLittleEndian bytes < half then fromLittleEndian bytes
    else fromLittleEndian bytes - (2 * half : Nat)
  Holds i := -(half : Int) ≤ i ∧ i < half
  length_pack _ := length_littleEndian width _
  unpack_pack i fits := by
    have wrapped : (i % ((2 * half : Nat) : Int)).toNat < 256 ^ width := by
      rw [whole]
      have := Int.emod_lt_of_pos i (b := ((2 * half : Nat) : Int)) (by omega)
      omega
    simp only [fromLittleEndian_littleEndian, Nat.mod_eq_of_lt wrapped]
    rcases Int.lt_or_le i 0 with negative | positive
    · have shifted : i % ((2 * half : Nat) : Int) = i + (2 * half : Nat) := by
        rw [← Int.add_emod_right, Int.emod_eq_of_lt (by omega) (by omega)]
      rw [shifted, if_neg (by omega)]
      omega
    · rw [Int.emod_eq_of_lt positive (by omega), if_pos (by omega)]
      omega

/-- A code of one byte. -/
def code (write : α → UInt8) (read : UInt8 → α) (reads : ∀ a, read (write a) = a) :
    Packed α where
  size := 1
  pack a := [write a]
  unpack bytes := read (bytes.headD 0)
  Holds _ := True
  length_pack _ := rfl
  unpack_pack a _ := reads a

/-- One record behind the other, without padding. -/
def pair (p : Packed α) (q : Packed β) : Packed (α × β) where
  size := p.size + q.size
  pack x := p.pack x.1 ++ q.pack x.2
  unpack bytes := (p.unpack (bytes.take p.size), q.unpack (bytes.drop p.size))
  Holds x := p.Holds x.1 ∧ q.Holds x.2
  length_pack x := by rw [List.length_append, p.length_pack, q.length_pack]
  unpack_pack x fits := by
    rw [List.take_left' (p.length_pack _), List.drop_left' (p.length_pack _),
      p.unpack_pack _ fits.1, q.unpack_pack _ fits.2]

/-- The layout of a structure, by its fields. -/
def via (p : Packed α) (fields : β → α) (ofFields : α → β)
    (back : ∀ b, ofFields (fields b) = b) : Packed β where
  size := p.size
  pack b := p.pack (fields b)
  unpack bytes := ofFields (p.unpack bytes)
  Holds b := p.Holds (fields b)
  length_pack b := p.length_pack _
  unpack_pack b fits := by rw [p.unpack_pack _ fits, back]

end Packed

/-! ## Cutting a buffer into records -/

/-- The whole records at the front of a buffer: those at `i = 0, size, 2 * size, ...` while
`i + size` is within the buffer. -/
def frames (size : Nat) (buffer : List UInt8) : List (List UInt8) :=
  (List.range (buffer.length / size)).map fun k => (buffer.drop (k * size)).take size

/-- What is behind the whole records. -/
def leftover (size : Nat) (buffer : List UInt8) : List UInt8 :=
  buffer.drop (buffer.length / size * size)

variable {size : Nat} {buffer : List UInt8}

theorem frames_of_lt (short : buffer.length < size) : frames size buffer = [] := by
  rw [frames, Nat.div_eq_of_lt short]
  rfl

theorem leftover_of_lt (short : buffer.length < size) : leftover size buffer = buffer := by
  rw [leftover, Nat.div_eq_of_lt short, Nat.zero_mul, List.drop_zero]

theorem length_leftover (pos : 0 < size) : (leftover size buffer).length < size := by
  rw [leftover, List.length_drop, Nat.mul_comm, ← Nat.mod_eq_sub_mul_div]
  exact Nat.mod_lt _ pos

theorem frames_append {front : List UInt8} (whole : front.length = size) (pos : 0 < size) :
    frames size (front ++ buffer) = front :: frames size buffer := by
  have count : (front ++ buffer).length / size = buffer.length / size + 1 := by
    rw [List.length_append, whole, Nat.add_div_left _ pos]
  rw [frames, count, List.range_succ_eq_map, List.map_cons, List.map_map, Nat.zero_mul,
    List.drop_zero, List.take_left' whole, frames]
  congr 1
  apply List.map_congr_left
  intro k _
  have shift : (k + 1) * size = front.length + k * size := by
    rw [whole]
    ring
  simp only [Function.comp, Nat.succ_eq_add_one]
  rw [shift, ← List.drop_drop, List.drop_left]

theorem leftover_append {front : List UInt8} (whole : front.length = size) (pos : 0 < size) :
    leftover size (front ++ buffer) = leftover size buffer := by
  have count : (front ++ buffer).length / size = buffer.length / size + 1 := by
    rw [List.length_append, whole, Nat.add_div_left _ pos]
  have shift : (buffer.length / size + 1) * size =
      front.length + buffer.length / size * size := by
    rw [whole]
    ring
  rw [leftover, count, shift, ← List.drop_drop, List.drop_left, leftover]

namespace Packed

variable {α : Type} (p : Packed α)

/-- Records in a row. -/
def stream (records : List α) : List UInt8 := records.flatMap p.pack

@[simp] theorem stream_nil : p.stream [] = [] := rfl

@[simp] theorem stream_cons (a : α) (records : List α) :
    p.stream (a :: records) = p.pack a ++ p.stream records := rfl

@[simp] theorem stream_append (records more : List α) :
    p.stream (records ++ more) = p.stream records ++ p.stream more := List.flatMap_append

theorem length_stream (records : List α) :
    (p.stream records).length = p.size * records.length := by
  induction records with
  | nil => rfl
  | cons a records ih =>
      rw [stream_cons, List.length_append, ih, p.length_pack, List.length_cons, Nat.mul_succ,
        Nat.add_comm]

theorem frames_whole (pos : 0 < p.size) (records : List α) :
    frames p.size (p.stream records) = records.map p.pack := by
  induction records with
  | nil => exact frames_of_lt pos
  | cons a records ih => rw [stream_cons, frames_append (p.length_pack a) pos, ih, List.map_cons]

/-- However a stream is cut, the frames of what has arrived are its next records, and
the leftover begins the record behind them. -/
theorem frames_stream (pos : 0 < p.size) {records : List α} {arrived pending : List UInt8}
    (cut : p.stream records = arrived ++ pending) :
    ∃ here later, records = here ++ later ∧ frames p.size arrived = here.map p.pack ∧
      leftover p.size arrived ++ pending = p.stream later := by
  induction records generalizing arrived with
  | nil =>
      obtain ⟨rfl, rfl⟩ := List.append_eq_nil_iff.mp cut.symm
      exact ⟨[], [], rfl, frames_of_lt pos, by rw [leftover_of_lt pos]; rfl⟩
  | cons a records ih =>
      rcases Nat.lt_or_ge arrived.length p.size with short | long
      · refine ⟨[], a :: records, rfl, frames_of_lt short, ?_⟩
        rw [leftover_of_lt short, cut]
      · have front : arrived = p.pack a ++ arrived.drop p.size := by
          have taken := congrArg (List.take p.size) cut
          rw [stream_cons, List.take_left' (p.length_pack a),
            List.take_append_of_le_length long] at taken
          conv_lhs => rw [← List.take_append_drop p.size arrived]
          rw [← taken]
        have rest : p.stream records = arrived.drop p.size ++ pending := by
          have dropped := congrArg (List.drop p.size) cut
          rw [stream_cons, List.drop_left' (p.length_pack a),
            List.drop_append_of_le_length long] at dropped
          exact dropped
        obtain ⟨here, later, split, whole, behind⟩ := ih rest
        refine ⟨a :: here, later, by rw [split, List.cons_append], ?_, ?_⟩
        · rw [front, frames_append (p.length_pack a) pos, whole, List.map_cons]
        · rw [front, leftover_append (p.length_pack a) pos, behind]

/-- Every record of a stream is read back. -/
theorem unpack_frames {records : List α} (fits : ∀ a ∈ records, p.Holds a) :
    (records.map p.pack).map p.unpack = records := by
  rw [List.map_map]
  calc records.map (p.unpack ∘ p.pack) = records.map id :=
        List.map_congr_left fun a mem => p.unpack_pack a (fits a mem)
    _ = records := List.map_id _

end Packed

end NanoTrade
