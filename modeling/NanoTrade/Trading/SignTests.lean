import Mathlib.Algebra.Order.Ring.Int
import NanoTrade.Trading.PositionKeeper

/-!
# The sign tests of a fill

`addFill` tells an increase from a decrease, and a decrease from a flip, by the signs of two
products of `int32_t`. The product of two positions leaves 32 bits long before a position does;
`addFill_signTests_iff` says for which positions the tests are still right.
-/

namespace NanoTrade

/-- The values of an `int32_t`. -/
def Int32Fits (n : Int) : Prop :=
  -2 ^ 31 ≤ n ∧ n < 2 ^ 31

/-- The sign that two's complement reads off a number. -/
theorem bmod_neg_iff (n : Int) : Int.bmod n (2 ^ 32) < 0 ↔ n / 2 ^ 31 % 2 = 1 := by
  rw [Int.bmod_def]
  split <;> omega

theorem bmod_of_fits {n : Int} (fits : Int32Fits n) : Int.bmod n (2 ^ 32) = n := by
  obtain ⟨low, high⟩ := fits
  rw [Int.bmod_def]
  split <;> omega

section Integers

variable {side : Side} {oldPosition : Int}

theorem value_cases (sided : side = .BUY ∨ side = .SELL) :
    side = .BUY ∧ sideToValue side = 1 ∨ side = .SELL ∧ sideToValue side = -1 := by
  rcases sided with buy | sell
  · exact .inl ⟨buy, by rw [buy, sideToValue]⟩
  · exact .inr ⟨sell, by rw [sell, sideToValue]⟩

/-- Only the lowest position leaves 32 bits where its sign is turned. -/
theorem increases_machine (sided : side = .BUY ∨ side = .SELL) (fits : Int32Fits oldPosition)
    (lowest : ¬ (oldPosition = -2 ^ 31 ∧ side = .SELL)) :
    IntWidths.machine.increases oldPosition side = true ↔ 0 ≤ oldPosition * sideToValue side := by
  have product : Int32Fits (oldPosition * sideToValue side) := by
    unfold Int32Fits at *
    rcases value_cases sided with ⟨-, value⟩ | ⟨sell, value⟩
    · rw [value, mul_one]
      exact fits
    · have higher : oldPosition ≠ -2 ^ 31 := fun least => lowest ⟨least, sell⟩
      rw [value]
      omega
  rw [IntWidths.increases, decide_eq_true_iff]
  show 0 ≤ Int.bmod (oldPosition * sideToValue side) (2 ^ 32) ↔ _
  rw [bmod_of_fits product]

theorem flips_machine (oldPosition position : Int) :
    IntWidths.machine.flips oldPosition position = true ↔
      position * oldPosition / 2 ^ 31 % 2 = 1 := by
  rw [IntWidths.flips, decide_eq_true_iff]
  exact bmod_neg_iff _

theorem position_eq_zero (sided : side = .BUY ∨ side = .SELL)
    (flat : oldPosition * sideToValue side = 0) : oldPosition = 0 := by
  rcases value_cases sided with ⟨-, value⟩ | ⟨-, value⟩
  · rw [value] at flat
    omega
  · rw [value] at flat
    omega

end Integers

namespace PositionPnl

variable {F : Type}

/-- The position behind a fill, as it should be. -/
def newPosition (p : PositionPnl F) (x : MEClientResponse) : Int :=
  p.position + x.execQty * sideToValue x.side

/-- The increase branch is taken for a fill in the direction of the position or from a flat
one, and the flip branch where the position comes out with the opposite sign. -/
structure SignTestsRight (p : PositionPnl F) (x : MEClientResponse) : Prop where
  increase : IntWidths.machine.increases p.position x.side = true ↔
    p.position = 0 ∨ 0 < p.position * sideToValue x.side
  flip : IntWidths.machine.increases p.position x.side = false ∧
      IntWidths.machine.flips p.position (p.filledPosition .machine x) = true ↔
    p.newPosition x * p.position < 0

/-- Between two positions of the same sign the product has an even number of halves of the
range, between two of opposite signs an odd one. -/
def ProductKept (oldPosition newPosition : Int) : Prop :=
  newPosition * oldPosition / 2 ^ 31 % 2 = 0 ↔ 0 ≤ newPosition * oldPosition

/-- Positions whose product fits 32 bits, such as all those up to 46340. -/
theorem ProductKept.of_fits {oldPosition newPosition : Int}
    (fits : Int32Fits (newPosition * oldPosition)) : ProductKept oldPosition newPosition := by
  unfold ProductKept
  obtain ⟨low, high⟩ := fits
  omega

/-- The lowest position does not sell, and a fill against the position keeps the sign of the
product. -/
structure SignsKept (p : PositionPnl F) (x : MEClientResponse) : Prop where
  lowest : ¬ (p.position = -2 ^ 31 ∧ x.side = .SELL)
  product : p.position * sideToValue x.side < 0 → ProductKept p.position (p.newPosition x)

section Tests

variable {p : PositionPnl F} {x : MEClientResponse}

/-- On the side of the position it neither vanishes nor turns. -/
theorem newPosition_along (sided : x.side = .BUY ∨ x.side = .SELL)
    (along : 0 ≤ p.position * sideToValue x.side) : 0 ≤ p.newPosition x * p.position := by
  have executes : (0 : Int) ≤ x.execQty := Int.natCast_nonneg _
  unfold newPosition
  rcases value_cases sided with ⟨-, value⟩ | ⟨-, value⟩
  · rw [value, mul_one] at along ⊢
    exact mul_nonneg (by omega) along
  · rw [value] at along ⊢
    exact mul_nonneg_of_nonpos_of_nonpos (by omega) (by omega)

/-- The sign tests are right exactly where the lowest position does not sell and the
product of the positions keeps its sign. -/
theorem signTestsRight_iff (sided : x.side = .BUY ∨ x.side = .SELL)
    (fits : Int32Fits p.position) (newFits : Int32Fits (p.newPosition x)) :
    p.SignTestsRight x ↔ p.SignsKept x := by
  have filled : p.filledPosition .machine x = p.newPosition x := bmod_of_fits newFits
  have flips := flips_machine p.position (p.newPosition x)
  constructor
  · intro right
    have lowest : ¬ (p.position = -2 ^ 31 ∧ x.side = .SELL) := by
      rintro ⟨lowest, sell⟩
      have increase := right.increase
      rw [lowest, sell] at increase
      exact absurd (increase.mpr (.inr (by decide))) (by decide)
    refine ⟨lowest, fun against => ?_⟩
    have decreases : IntWidths.machine.increases p.position x.side = false := by
      rw [← Bool.not_eq_true, increases_machine sided fits lowest]
      omega
    have flip := right.flip
    rw [filled, flips] at flip
    unfold ProductKept
    constructor
    · intro even
      by_contra turned
      have odd := (flip.mpr (not_le.mp turned)).2
      omega
    · intro kept
      by_contra odd
      have turned := flip.mp ⟨decreases, by omega⟩
      omega
  · intro kept
    have increases := increases_machine sided fits kept.lowest
    refine ⟨?_, ?_⟩
    · rw [increases]
      constructor
      · intro along
        rcases along.lt_or_eq with along | flat
        · exact .inr along
        · exact .inl (position_eq_zero sided flat.symm)
      · rintro (flat | along)
        · rw [flat, zero_mul]
        · exact along.le
    · rw [filled, flips, ← Bool.not_eq_true, increases]
      constructor
      · rintro ⟨against, odd⟩
        have product := kept.product (not_le.mp against)
        unfold ProductKept at product
        by_contra same
        have even := product.mpr (not_lt.mp same)
        omega
      · intro turned
        have against : ¬ 0 ≤ p.position * sideToValue x.side := by
          intro along
          have same := newPosition_along sided along
          omega
        have product := kept.product (not_le.mp against)
        unfold ProductKept at product
        refine ⟨against, ?_⟩
        by_contra even
        have same := product.mp (by omega)
        omega

variable [Add F] [Sub F] [Mul F] [Div F] [IntCast F]

/-- Where the tests are right, a plain partial close leaves the cost on the side of the fill
alone, and a flip resets the cost of the position that it closes. -/
theorem addFill_openVwap (sided : x.side = .BUY ∨ x.side = .SELL)
    (newFits : Int32Fits (p.newPosition x)) (right : p.SignTestsRight x) :
    (p.position * sideToValue x.side < 0 → 0 < p.newPosition x * p.position →
      (p.addFill .machine x).openVwap x.side = p.openVwap x.side) ∧
    (p.newPosition x * p.position < 0 →
      (p.addFill .machine x).openVwap (oppositeSide x.side) = ((0 : Int) : F)) := by
  have filled : p.filledPosition .machine x = p.newPosition x := bmod_of_fits newFits
  have apart : x.side ≠ oppositeSide x.side := by
    rcases sided with buy | sell
    · rw [buy]
      decide
    · rw [sell]
      decide
  have held : p.newPosition x * p.position ≠ 0 → ¬ p.filledPosition .machine x = 0 := by
    rw [filled]
    intro nonzero flat
    exact nonzero (by rw [flat, zero_mul])
  constructor
  · intro against same
    have decreases : ¬ IntWidths.machine.increases p.position x.side = true := by
      rw [right.increase]
      rintro (flat | along)
      · rw [flat, zero_mul] at against
        omega
      · omega
    have noFlip : ¬ IntWidths.machine.flips p.position (p.filledPosition .machine x) = true := by
      intro flips
      have turned := right.flip.mp ⟨Bool.not_eq_true _ ▸ decreases, flips⟩
      omega
    rw [addFill, if_neg (held (by omega)), filledVwap, if_neg decreases, if_neg noFlip]
    exact Function.update_of_ne apart _ _
  · intro turned
    obtain ⟨decreases, flips⟩ := right.flip.mpr turned
    rw [addFill, if_neg (held (by omega)), filledVwap, if_neg (by rw [decreases]; decide),
      if_pos flips]
    exact Function.update_self ..

end Tests

variable [Add F] [Sub F] [Mul F] [Div F] [IntCast F]

/-- **The flip test**: for an old and a new position that fit 32 bits, the branches are the
right ones if and only if the lowest position does not sell and, against the position, the
product of the two positions keeps its sign; and then the cost is only reset by a flip, and by
every flip. -/
theorem addFill_signTests_iff (p : PositionPnl F) (x : MEClientResponse)
    (sided : x.side = .BUY ∨ x.side = .SELL) (fits : Int32Fits p.position)
    (newFits : Int32Fits (p.newPosition x)) :
    (p.SignTestsRight x ↔ p.SignsKept x) ∧
      (p.SignsKept x →
        (p.position * sideToValue x.side < 0 → 0 < p.newPosition x * p.position →
          (p.addFill .machine x).openVwap x.side = p.openVwap x.side) ∧
        (p.newPosition x * p.position < 0 →
          (p.addFill .machine x).openVwap (oppositeSide x.side) = ((0 : Int) : F))) := by
  have tests := signTestsRight_iff (p := p) sided fits newFits
  exact ⟨tests, fun kept => addFill_openVwap sided newFits (tests.mpr kept)⟩

/-- Ten held at a cost of 1000, of which four are sold. -/
def longTen : PositionPnl Int :=
  { position := 10, volume := 10, realPnl := 0, unrealPnl := 0, totalPnl := 0,
    openVwap := Function.update (fun _ => 0) .BUY 1000 }

def sellFour : MEClientResponse :=
  { type := .FILLED, clientId := 1, tickerId := 0, clientOrderId := 2, marketOrderId := 2,
    side := .SELL, price := 103, execQty := 4, leavesQty := 0 }

theorem addFill_signTests_iff_reduced :
    longTen.SignTestsRight sellFour ∧
      (longTen.addFill .machine sellFour).openVwap .SELL = longTen.openVwap .SELL := by
  have tests := addFill_signTests_iff longTen sellFour (.inr rfl) ⟨by decide, by decide⟩
    ⟨by decide, by decide⟩
  have kept : longTen.SignsKept sellFour :=
    ⟨by decide, fun _ => ⟨fun _ => by decide, fun _ => by decide⟩⟩
  exact ⟨tests.1.mpr kept, (tests.2 kept).1 (by decide) (by decide)⟩

/-- A partial close that is taken for a flip: half of a long position of 65536 is sold, the
product of the two positions is `2 ^ 31`, and the cost goes to the side of the sale. -/
theorem not_signTests_halved :
    ∃ (p : PositionPnl Int) (x : MEClientResponse), x.side = .SELL ∧ p.position = 65536 ∧
      p.newPosition x = 32768 ∧ ¬ p.SignTestsRight x ∧
      p.openVwap .SELL = 0 ∧ (p.addFill .machine x).openVwap .SELL = 100 * 32768 ∧
      (p.addFill .machine x).openVwap .BUY = 0 := by
  refine ⟨⟨⟨65536, 65536⟩, 0, 0, 0, Function.update (fun _ => 0) .BUY (100 * 65536)⟩,
    ⟨.FILLED, 1, 0, 2, 2, .SELL, 100, 32768, 0⟩, rfl, rfl, by decide, ?_, by decide, by decide,
    by decide⟩
  intro right
  have turned := right.flip.mp ⟨by decide, by decide⟩
  exact absurd turned (by decide)

end PositionPnl

end NanoTrade
