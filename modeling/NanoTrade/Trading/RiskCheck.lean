import NanoTrade.Trading.SignTests
import NanoTrade.Trading.Strategies

/-!
# The pre-trade risk check in 32 bits

The quantity and the position limit are unsigned, and the check casts both to `int32_t` before it
adds and compares. A limit from 2^31 on becomes negative, so that no position is within it; a
quantity from 2^31 on becomes negative, so that the order counts for the other side; and the sum
itself can leave the range.

* `checksExactly_iff`: where the check is still that of the integers.
* `not_checksExactly_negative`: an order of more than four billion passes a limit of 100.
-/

namespace NanoTrade

instance (n : Int) : Decidable (Int32Fits n) :=
  inferInstanceAs (Decidable (_ ∧ _))

/-- What an operation on `int32_t`s returns. Signed overflow is undefined. -/
def int32Result (n : Int) : Option Int :=
  if Int32Fits n then some n else none

namespace RiskCfg

variable {F : Type} [Double F] (cfg : RiskCfg) (maxLoss : F) (position : Int) (totalPnl : F)
  (side : Side) (qty : Qty)

/-- `RiskInfo::checkPreTradeRisk`, operation by operation. -/
def checkPreTradeRisk32 : Option RiskCheckResult :=
  if qty > cfg.maxOrderSize then some .ORDER_TOO_LARGE
  else do
    let signed ← int32Result (sideToValue side * Int.bmod qty (2 ^ 32))
    let sum ← int32Result (position + signed)
    let size ← int32Result |sum|
    if size > Int.bmod cfg.maxPosition (2 ^ 32) then some .POSITION_TOO_LARGE
    else if totalPnl < maxLoss then some .LOSS_TOO_LARGE
    else some .ALLOWED

/-- What an order has to meet, over the integers. -/
structure WithinLimits : Prop where
  orderSize : qty ≤ cfg.maxOrderSize
  position : |position + sideToValue side * qty| ≤ cfg.maxPosition
  loss : totalPnl ≥ maxLoss

/-- The check returns, and it allows what is within the limits. -/
def ChecksExactly : Prop :=
  ∃ result, cfg.checkPreTradeRisk32 maxLoss position totalPnl side qty = some result ∧
    (result = .ALLOWED ↔ cfg.WithinLimits maxLoss position totalPnl side qty)

/-- The operations stay in range. -/
structure Int32Steps : Prop where
  signed : ¬ (side = .SELL ∧ qty = 2 ^ 31)
  size : |position + sideToValue side * Int.bmod qty (2 ^ 32)| < 2 ^ 31

/-- The order is too large, or the operations stay in range and the casts do not matter: a limit
that turns negative has to be exceeded anyway, and so has the limit by an order that turns
negative; the losses can settle it, too. -/
def CastsHarmless : Prop :=
  cfg.maxOrderSize < qty ∨
    Int32Steps position side qty ∧
      (if 2 ^ 31 ≤ cfg.maxPosition then
        |position + sideToValue side * qty| > (cfg.maxPosition : Int) ∨ ¬ totalPnl ≥ maxLoss
      else if qty < 2 ^ 31 then
        |position + sideToValue side * qty| > (cfg.maxPosition : Int) ∨
          (¬ totalPnl < maxLoss ↔ totalPnl ≥ maxLoss)
      else
        |position + sideToValue side * ((qty : Int) - 2 ^ 32)| > (cfg.maxPosition : Int) ∨
          totalPnl < maxLoss)

variable {cfg maxLoss position totalPnl side qty}

/-! ## The operations -/

theorem bmod_eq (small : qty < 2 ^ 32) :
    Int.bmod qty (2 ^ 32) = if qty < 2 ^ 31 then (qty : Int) else qty - 2 ^ 32 := by
  rw [Int.bmod_def]
  split
  · split
    · lia
    · lia
  · split
    · lia
    · lia

theorem int32Result_eq_some {n m : Int} : int32Result n = some m ↔ Int32Fits n ∧ m = n := by
  unfold int32Result
  split
  · rename_i fits
    rw [Option.some.injEq]
    exact ⟨fun same => ⟨fits, same.symm⟩, fun same => same.2.symm⟩
  · rename_i overflows
    exact ⟨fun same => (nomatch same), fun same => absurd same.1 overflows⟩

/-- The steps in range are those of the check. -/
theorem int32Steps_iff (small : qty < 2 ^ 32) (sided : side = .BUY ∨ side = .SELL) :
    Int32Steps position side qty ↔
      Int32Fits (sideToValue side * Int.bmod qty (2 ^ 32)) ∧
        Int32Fits (position + sideToValue side * Int.bmod qty (2 ^ 32)) ∧
        Int32Fits |position + sideToValue side * Int.bmod qty (2 ^ 32)| := by
  have range : Int32Fits (Int.bmod qty (2 ^ 32)) ∧
      (Int.bmod qty (2 ^ 32) = -2 ^ 31 ↔ qty = 2 ^ 31) := by
    rw [bmod_eq small]
    unfold Int32Fits
    split
    · lia
    · lia
  have one : Int32Fits (sideToValue side * Int.bmod qty (2 ^ 32)) ↔
      ¬ (side = .SELL ∧ qty = 2 ^ 31) := by
    rw [← range.2]
    obtain ⟨⟨low, high⟩, -⟩ := range
    rcases value_cases sided with ⟨buy, value⟩ | ⟨sell, value⟩
    · rw [value, buy, one_mul]
      exact ⟨fun _ same => (nomatch same.1), fun _ => ⟨low, high⟩⟩
    · rw [value, sell]
      unfold Int32Fits
      lia
  rw [one]
  constructor
  · intro ⟨product, size⟩
    obtain ⟨low, high⟩ := abs_lt.mp size
    exact ⟨product, ⟨low.le, high⟩, (by decide : -2 ^ 31 ≤ (0 : Int)).trans (abs_nonneg _), size⟩
  · intro ⟨product, _, size⟩
    exact ⟨product, size.2⟩

/-- The check returns where the operations stay in range, and then what the one over the
integers does. -/
theorem checkPreTradeRisk32_eq (small : qty < 2 ^ 32) (sided : side = .BUY ∨ side = .SELL)
    (size : qty ≤ cfg.maxOrderSize) {result : RiskCheckResult} :
    cfg.checkPreTradeRisk32 maxLoss position totalPnl side qty = some result ↔
      Int32Steps position side qty ∧
        cfg.checkPreTradeRisk { position } (decide (totalPnl < maxLoss)) side qty = result := by
  rw [int32Steps_iff small sided]
  unfold checkPreTradeRisk32 checkPreTradeRisk
  rw [if_neg (Nat.not_lt.mpr size), if_neg (Nat.not_lt.mpr size)]
  have verdict : (if |position + sideToValue side * Int.bmod qty (2 ^ 32)| >
        Int.bmod cfg.maxPosition (2 ^ 32) then some RiskCheckResult.POSITION_TOO_LARGE
      else if totalPnl < maxLoss then some .LOSS_TOO_LARGE else some .ALLOWED) =
      some (if |position + sideToValue side * Int.bmod qty (2 ^ 32)| >
        Int.bmod cfg.maxPosition (2 ^ 32) then RiskCheckResult.POSITION_TOO_LARGE
      else if decide (totalPnl < maxLoss) = true then .LOSS_TOO_LARGE else .ALLOWED) := by
    simp only [decide_eq_true_iff]
    split
    · rfl
    · split
      · rfl
      · rfl
  simp only [Option.bind_eq_bind, Option.bind_eq_some_iff, int32Result_eq_some]
  constructor
  · intro ⟨_, ⟨one, same⟩, _, ⟨two, same'⟩, _, ⟨three, same''⟩, returned⟩
    subst same same' same''
    rw [verdict] at returned
    exact ⟨⟨one, two, three⟩, Option.some.inj returned⟩
  · intro ⟨⟨one, two, three⟩, returned⟩
    refine ⟨_, ⟨one, rfl⟩, _, ⟨two, rfl⟩, _, ⟨three, rfl⟩, ?_⟩
    rw [verdict, returned]

/-- What the check over the integers allows. -/
theorem checkPreTradeRisk_eq_allowed (size : qty ≤ cfg.maxOrderSize) {p : PositionInfo}
    {lossTooLarge : Bool} :
    cfg.checkPreTradeRisk p lossTooLarge side qty = .ALLOWED ↔
      |p.position + sideToValue side * Int.bmod qty (2 ^ 32)| ≤
        Int.bmod cfg.maxPosition (2 ^ 32) ∧ lossTooLarge = false := by
  unfold checkPreTradeRisk
  rw [if_neg (Nat.not_lt.mpr size), ← Int.not_lt]
  split
  · rename_i exceeds
    exact ⟨fun same => (nomatch same), fun same => absurd exceeds same.1⟩
  · rename_i within
    cases lossTooLarge with
    | true => exact ⟨fun same => (nomatch same), fun same => nomatch same.2⟩
    | false => exact ⟨fun _ => ⟨within, rfl⟩, fun _ => rfl⟩

/-- The two verdicts on the position, where the operations stay in range: the one in 32 bits, and
the one over the integers. -/
theorem position_verdicts (small : qty < 2 ^ 32) (limit : cfg.maxPosition < 2 ^ 32)
    (sided : side = .BUY ∨ side = .SELL) (steps : Int32Steps position side qty) :
    (|position + sideToValue side * Int.bmod qty (2 ^ 32)| ≤ Int.bmod cfg.maxPosition (2 ^ 32) ↔
      cfg.maxPosition < 2 ^ 31 ∧
        |position + sideToValue side * (if qty < 2 ^ 31 then (qty : Int) else qty - 2 ^ 32)| ≤
          (cfg.maxPosition : Int)) ∧
    (cfg.maxPosition < 2 ^ 31 → 2 ^ 31 ≤ qty →
      |position + sideToValue side * qty| > (cfg.maxPosition : Int)) := by
  have size := steps.size
  rw [bmod_eq small] at size ⊢
  rw [bmod_eq limit]
  refine ⟨?_, fun low turned => ?_⟩
  · have nonneg := abs_nonneg
      (position + sideToValue side * (if qty < 2 ^ 31 then (qty : Int) else qty - 2 ^ 32))
    generalize |position + sideToValue side * _| = total at nonneg
    split
    · rename_i low
      exact ⟨fun within => ⟨low, within⟩, And.right⟩
    · rename_i negative
      lia
  · rw [if_neg (Nat.not_lt.mpr turned)] at size
    obtain ⟨above, below⟩ := abs_lt.mp size
    refine lt_abs.mpr ?_
    rcases value_cases sided with ⟨-, value⟩ | ⟨-, value⟩
    · rw [value] at above ⊢
      left
      lia
    · rw [value] at below ⊢
      right
      lia

/-- **The check is exact** exactly where the casts and the operations do no harm. -/
theorem checksExactly_iff (small : qty < 2 ^ 32) (limit : cfg.maxPosition < 2 ^ 32)
    (sided : side = .BUY ∨ side = .SELL) :
    cfg.ChecksExactly maxLoss position totalPnl side qty ↔
      cfg.CastsHarmless maxLoss position totalPnl side qty := by
  unfold ChecksExactly CastsHarmless
  by_cases large : cfg.maxOrderSize < qty
  · have refused : cfg.checkPreTradeRisk32 maxLoss position totalPnl side qty =
        some .ORDER_TOO_LARGE := if_pos large
    refine ⟨fun _ => .inl large,
      fun _ => ⟨_, refused, fun same => (nomatch same), fun within => ?_⟩⟩
    exact absurd within.orderSize (Nat.not_le.mpr large)
  · have size : qty ≤ cfg.maxOrderSize := Nat.le_of_not_lt large
    have whole : cfg.WithinLimits maxLoss position totalPnl side qty ↔
        ¬ |position + sideToValue side * qty| > (cfg.maxPosition : Int) ∧ totalPnl ≥ maxLoss := by
      rw [Int.not_lt]
      exact ⟨fun within => ⟨within.position, within.loss⟩, fun ⟨position, loss⟩ => ⟨size, position, loss⟩⟩
    simp only [checkPreTradeRisk32_eq small sided size, large, false_or, and_assoc,
      exists_and_left, exists_eq_left', checkPreTradeRisk_eq_allowed size, decide_eq_false_iff_not]
    refine and_congr_right fun steps => ?_
    obtain ⟨machine, turned⟩ := position_verdicts small limit sided steps
    rw [machine, whole, ← Int.not_lt]
    by_cases negative : 2 ^ 31 ≤ cfg.maxPosition
    · rw [if_pos negative]
      simp only [Nat.not_lt.mpr negative, false_and, false_iff, not_and_or, not_not]
    · have low := Nat.lt_of_not_le negative
      rw [if_neg negative]
      by_cases small : qty < 2 ^ 31
      · rw [if_pos small, if_pos small]
        simp only [low, true_and, and_congr_right_iff, imp_iff_not_or, not_not]
      · have exceeds := turned low (Nat.le_of_not_lt small)
        rw [if_neg small, if_neg small]
        simp only [low, true_and, exceeds, not_true, false_and, iff_false, not_and_or, not_not]

/-- Both the limit of an order and its size are those of a parsed -10: the order counts as one
that sells ten, and is allowed. -/
theorem not_checksExactly_negative :
    ¬ ChecksExactly (F := ExactDouble) { maxOrderSize := 2 ^ 32 - 10, maxPosition := 100 }
      (some (-1000)) 0 (some 0) .BUY (2 ^ 32 - 10) := by
  intro ⟨result, checked, allowed⟩
  have returned : checkPreTradeRisk32 (F := ExactDouble)
      { maxOrderSize := 2 ^ 32 - 10, maxPosition := 100 } (some (-1000)) 0 (some 0) .BUY
        (2 ^ 32 - 10) = some .ALLOWED := by
    decide +kernel
  rw [returned] at checked
  cases checked
  exact absurd (allowed.mp rfl).position (by decide)

/-- A limited configuration, and an order that exceeds the limit. -/
theorem checksExactly_hundred :
    ChecksExactly (F := ExactDouble) { maxOrderSize := 50, maxPosition := 100 }
      (some (-1000)) 90 (some 0) .BUY 20 := by
  refine (checksExactly_iff (by decide) (by decide) (.inl rfl)).mpr (.inr ⟨⟨?_, ?_⟩, ?_⟩)
  · decide
  · decide
  · exact .inl (by decide)

/-- Limits below 2^31, and a position that an order does not take out of range: the check is
exact, as far as the losses compare. -/
theorem exact_of_small (size : cfg.maxOrderSize < 2 ^ 31) (limit : cfg.maxPosition < 2 ^ 31)
    (sided : side = .BUY ∨ side = .SELL) (room : |position| + qty < 2 ^ 31)
    (ordered : ¬ totalPnl < maxLoss ↔ totalPnl ≥ maxLoss) :
    cfg.CastsHarmless maxLoss position totalPnl side qty := by
  unfold CastsHarmless
  by_cases large : cfg.maxOrderSize < qty
  · exact .inl large
  · have small : qty < 2 ^ 31 := Nat.lt_of_le_of_lt (Nat.le_of_not_lt large) size
    rw [if_neg (Nat.not_le.mpr limit), if_pos small]
    refine .inr ⟨⟨fun same => ?_, ?_⟩, .inr ordered⟩
    · lia
    · rw [bmod_eq (by lia), if_pos small]
      have whole : |sideToValue side * (qty : Int)| = qty := by
        rcases value_cases sided with ⟨-, value⟩ | ⟨-, value⟩
        · rw [value, one_mul, abs_of_nonneg (Int.natCast_nonneg qty)]
        · rw [value, neg_one_mul, abs_neg, abs_of_nonneg (Int.natCast_nonneg qty)]
      calc |position + sideToValue side * (qty : Int)|
          ≤ |position| + |sideToValue side * (qty : Int)| := abs_add_le ..
        _ = |position| + qty := by rw [whole]
        _ < 2 ^ 31 := room

end RiskCfg

end NanoTrade
