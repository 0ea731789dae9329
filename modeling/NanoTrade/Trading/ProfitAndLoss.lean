import Mathlib.Algebra.Order.Ring.Rat
import Mathlib.Data.Rat.Cast.Order
import Mathlib.Tactic.FieldSimp
import Mathlib.Tactic.LinearCombination
import Mathlib.Tactic.NormNum
import NanoTrade.AverageCost
import NanoTrade.Trading.PositionKeeper

/-!
# Profit and loss

In exact arithmetic the position keeper carries an inventory at average cost (`Carries`), over
any sequence of fills and best prices, and its profits are the cash of the fills and the value
of the position (`run_profitAndLoss`).
-/

namespace NanoTrade

/-- What a position is told. -/
inductive PositionEvent
  | addFill (x : MEClientResponse)
  | updateBBO (bbo : BBO)

namespace PositionPnl

def step (w : IntWidths) (p : PositionPnl ℚ) : PositionEvent → PositionPnl ℚ
  | .addFill x => p.addFill w x
  | .updateBBO bbo => p.updateBBO w bbo

def run (w : IntWidths) (events : List PositionEvent) : PositionPnl ℚ :=
  events.foldl (step w) new

/-- The trade that a fill is: its signed quantity and its price. -/
def tradeOf (x : MEClientResponse) : ℚ × ℚ :=
  (((x.execQty * sideToValue x.side : Int) : ℚ), (x.price : ℚ))

/-- The trades of the fills. -/
def tradesOf (events : List PositionEvent) : List (ℚ × ℚ) :=
  events.filterMap fun
    | .addFill x => some (tradeOf x)
    | .updateBBO _ => none

/-- A position, its costs and its realised profit carry the inventory `s`: the side of the
position has its cost, the other one none. -/
structure Carries (position : Int) (openVwap : Side → ℚ) (realPnl : ℚ) (s : Inventory ℚ) :
    Prop where
  size : s.size = position
  own : ∀ side, side = .BUY ∨ side = .SELL → 0 < position * sideToValue side →
    openVwap side = |(position : ℚ)| * s.average
  other : ∀ side, side = .BUY ∨ side = .SELL → position * sideToValue side ≤ 0 →
    openVwap side = 0
  real : realPnl = s.realised

theorem Carries.new : Carries 0 (fun _ => 0) 0 Inventory.empty := by
  refine ⟨rfl, fun side _ held => ?_, fun _ _ _ => rfl, rfl⟩
  rw [zero_mul] at held
  exact absurd held (lt_irrefl _)

/-- A fill of a side, of something. -/
structure Fills (x : MEClientResponse) : Prop where
  sided : x.side = .BUY ∨ x.side = .SELL
  executes : 0 < x.execQty

section Signs

variable {side : Side} {n : Int}

theorem sideToValue_cases (sided : side = .BUY ∨ side = .SELL) :
    sideToValue side = 1 ∧ sideToValue (oppositeSide side) = -1 ∨
      sideToValue side = -1 ∧ sideToValue (oppositeSide side) = 1 := by
  rcases sided with rfl | rfl
  · exact .inl ⟨rfl, rfl⟩
  · exact .inr ⟨rfl, rfl⟩

theorem oppositeSide_sided (side : Side) :
    oppositeSide side = .BUY ∨ oppositeSide side = .SELL := by
  unfold oppositeSide
  split
  · exact .inr rfl
  · exact .inl rfl

theorem oppositeSide_ne (sided : side = .BUY ∨ side = .SELL) : oppositeSide side ≠ side := by
  rcases sided with rfl | rfl <;> decide

theorem eq_or_opposite {other : Side} (sided : side = .BUY ∨ side = .SELL)
    (otherSided : other = .BUY ∨ other = .SELL) : other = side ∨ other = oppositeSide side := by
  rcases sided with rfl | rfl
  · exact otherSided
  · exact otherSided.symm

/-- The size of a position on its own side. -/
theorem abs_of_along (sided : side = .BUY ∨ side = .SELL) (along : 0 ≤ n * sideToValue side) :
    |n| = n * sideToValue side := by
  rcases sideToValue_cases sided with ⟨value, -⟩ | ⟨value, -⟩
  · rw [value, mul_one] at along ⊢
    exact abs_of_nonneg along
  · rw [value, mul_neg_one] at along ⊢
    exact abs_of_nonpos (by lia)

theorem sideToValue_sq (sided : side = .BUY ∨ side = .SELL) :
    (sideToValue side : ℚ) * sideToValue side = 1 := by
  rcases sideToValue_cases sided with ⟨value, -⟩ | ⟨value, -⟩
  · rw [value]
    norm_num
  · rw [value]
    norm_num

theorem sideToValue_opposite (sided : side = .BUY ∨ side = .SELL) :
    sideToValue (oppositeSide side) = -sideToValue side := by
  rcases sideToValue_cases sided with ⟨value, opposite⟩ | ⟨value, opposite⟩
  · rw [value, opposite]
  · rw [value, opposite, neg_neg]

end Signs

section Step

variable {p : PositionPnl ℚ} {s : Inventory ℚ} {x : MEClientResponse}

/-- The size behind a fill, on the side of the fill. -/
theorem filledPosition_along (fills : Fills x) :
    p.filledPosition .unbounded x * sideToValue x.side =
      p.position * sideToValue x.side + x.execQty := by
  show (p.position + x.execQty * sideToValue x.side) * sideToValue x.side = _
  rcases sideToValue_cases fills.sided with ⟨value, -⟩ | ⟨value, -⟩
  · rw [value]
    ring
  · rw [value]
    ring

/-- The average cost is what the source divides out. -/
theorem oppSideVwap_eq (carries : Carries p.position p.openVwap p.realPnl s) (fills : Fills x)
    (against : p.position * sideToValue x.side < 0) :
    p.oppSideVwap .unbounded x = s.average := by
  have held : 0 < p.position * sideToValue (oppositeSide x.side) := by
    rw [sideToValue_opposite fills.sided, mul_neg]
    lia
  have cost := carries.own _ (oppositeSide_sided _) held
  have nonzero : |(p.position : ℚ)| ≠ 0 := by
    rw [abs_ne_zero, Int.cast_ne_zero]
    intro flat
    rw [flat, zero_mul] at held
    exact lt_irrefl _ held
  show p.openVwap (oppositeSide x.side) / ((|p.position| : Int) : ℚ) = s.average
  rw [cost, Int.cast_abs, mul_div_cancel_left₀ _ nonzero]

/-- The trade of a fill moves the inventory as the fill does the position. -/
theorem size_trade (carries : Carries p.position p.openVwap p.realPnl s) :
    s.size + (tradeOf x).1 = (p.filledPosition .unbounded x : ℚ) := by
  rw [carries.size, tradeOf, filledPosition]
  exact (Int.cast_add _ _).symm

/-- Both sides test the direction of the fill alike. -/
theorem trade_along (carries : Carries p.position p.openVwap p.realPnl s) (fills : Fills x) :
    0 ≤ s.size * (tradeOf x).1 ↔ 0 ≤ p.position * sideToValue x.side := by
  have executes : (0 : Int) < x.execQty := by exact_mod_cast fills.executes
  have shape : s.size * (tradeOf x).1 =
      ((p.position * sideToValue x.side * x.execQty : Int) : ℚ) := by
    rw [carries.size, tradeOf]
    push_cast
    ring
  rw [shape, Int.cast_nonneg_iff]
  exact mul_nonneg_iff_of_pos_right executes

/-- A fill in the direction of the position. -/
theorem carries_increase (carries : Carries p.position p.openVwap p.realPnl s) (fills : Fills x)
    (along : 0 ≤ p.position * sideToValue x.side) :
    Carries (p.filledPosition .unbounded x) (p.filledVwap .unbounded x)
      (p.filledRealPnl .unbounded x) (s.trade (tradeOf x).1 (tradeOf x).2) := by
  have next := filledPosition_along (p := p) fills
  have grown : 0 < p.filledPosition .unbounded x * sideToValue x.side := by
    have := fills.executes
    lia
  have branch := IntWidths.increases_unbounded.mpr along
  have vwap : p.filledVwap .unbounded x = Function.update p.openVwap x.side
      (p.openVwap x.side + ((x.price * x.execQty : Int) : ℚ)) := by
    rw [filledVwap, if_pos branch]
    rfl
  rw [Inventory.trade, if_pos ((trade_along carries fills).mpr along), vwap]
  refine ⟨size_trade carries, fun side sided held => ?_, fun side sided notHeld => ?_, ?_⟩
  · rcases eq_or_opposite fills.sided sided with rfl | rfl
    · have before : p.openVwap x.side = |(p.position : ℚ)| * s.average := by
        rcases along.lt_or_eq with along | nothing
        · exact carries.own _ sided along
        · rw [carries.other _ sided nothing.symm.le]
          have flat : p.position = 0 := by
            rcases sideToValue_cases sided with ⟨value, -⟩ | ⟨value, -⟩
            · rw [value] at nothing
              lia
            · rw [value] at nothing
              lia
          rw [flat, Int.cast_zero, abs_zero, zero_mul]
      have nonzero : (p.filledPosition .unbounded x : ℚ) ≠ 0 := by
        rw [Int.cast_ne_zero]
        intro flat
        rw [flat, zero_mul] at grown
        exact lt_irrefl _ grown
      rw [Function.update_self, before, size_trade carries, ← Int.cast_abs, ← Int.cast_abs,
        abs_of_along sided along, abs_of_along sided grown.le, Inventory.cost, carries.size]
      have value := sideToValue_sq fills.sided
      push_cast
      field_simp
      rw [tradeOf]
      push_cast
      linear_combination (-(x.execQty * x.price) : ℚ) * value
    · rw [sideToValue_opposite fills.sided] at held
      lia
  · rcases eq_or_opposite fills.sided sided with rfl | rfl
    · lia
    · rw [Function.update_of_ne (oppositeSide_ne fills.sided)]
      refine carries.other _ sided ?_
      rw [sideToValue_opposite fills.sided]
      lia
  · rw [filledRealPnl, if_pos branch]
    exact carries.real

/-- A fill against the position: what it closes is realised, and where it goes through
zero the rest is carried at its price. -/
theorem carries_decrease (carries : Carries p.position p.openVwap p.realPnl s) (fills : Fills x)
    (against : p.position * sideToValue x.side < 0) :
    Carries (p.filledPosition .unbounded x) (p.filledVwap .unbounded x)
      (p.filledRealPnl .unbounded x) (s.trade (tradeOf x).1 (tradeOf x).2) := by
  have next := filledPosition_along (p := p) fills
  have opposite := sideToValue_opposite fills.sided
  have branch : ¬ IntWidths.unbounded.increases p.position x.side = true := by
    rw [IntWidths.increases_unbounded]
    lia
  have average := oppSideVwap_eq carries fills against
  have size : |p.position| = -(p.position * sideToValue x.side) := by
    have held : 0 ≤ p.position * sideToValue (oppositeSide x.side) := by
      rw [opposite]
      lia
    rw [abs_of_along (oppositeSide_sided _) held, opposite, mul_neg]
  have value := sideToValue_sq fills.sided
  have apart : ¬ 0 ≤ s.size * (tradeOf x).1 := by
    rw [trade_along carries fills]
    lia
  -- The two positions, seen from the side of the fill, have the signs that the product has.
  have product : p.filledPosition .unbounded x * p.position =
      (p.filledPosition .unbounded x * sideToValue x.side) *
        (p.position * sideToValue x.side) := by
    rcases sideToValue_cases fills.sided with ⟨one, -⟩ | ⟨one, -⟩
    · rw [one]
      ring
    · rw [one]
      ring
  rcases le_or_gt (p.filledPosition .unbounded x * sideToValue x.side) 0 with closes | turns
  · have kept : 0 ≤ p.filledPosition .unbounded x * p.position := by
      rw [product]
      exact mul_nonneg_of_nonpos_of_nonpos closes against.le
    have noFlip : ¬ IntWidths.unbounded.flips p.position (p.filledPosition .unbounded x) = true := by
      rw [IntWidths.flips_unbounded]
      lia
    have test : 0 ≤ (s.size + (tradeOf x).1) * s.size := by
      rw [size_trade carries, carries.size]
      exact_mod_cast kept
    have vwap : p.filledVwap .unbounded x = Function.update p.openVwap (oppositeSide x.side)
        (s.average * ((|p.filledPosition .unbounded x| : Int) : ℚ)) := by
      rw [filledVwap, if_neg branch, if_neg noFlip, average]
      rfl
    rw [Inventory.trade, if_neg apart, if_pos test, vwap]
    refine ⟨size_trade carries, fun side sided held => ?_, fun side sided notHeld => ?_, ?_⟩
    · rcases eq_or_opposite fills.sided sided with rfl | rfl
      · lia
      · rw [Function.update_self, Int.cast_abs, mul_comm]
    · rcases eq_or_opposite fills.sided sided with rfl | rfl
      · rw [Function.update_of_ne (oppositeSide_ne fills.sided).symm]
        exact carries.other _ sided against.le
      · have flat : |p.filledPosition .unbounded x| = 0 := by
          rw [opposite, mul_neg] at notHeld
          rw [abs_of_along sided (by rw [opposite, mul_neg]; lia), opposite, mul_neg]
          lia
        rw [Function.update_self, flat, Int.cast_zero, mul_zero]
    · have closed : min (x.execQty : Int) |p.position| = x.execQty := by
        rw [size]
        lia
      rw [filledRealPnl, if_neg branch, average, carries.real, tradeOf]
      show s.realised + ((min (x.execQty : Int) |p.position| : Int) : ℚ) * _ * _ = _
      rw [closed]
      push_cast
      ring
  · have crossed : p.filledPosition .unbounded x * p.position < 0 := by
      rw [product]
      exact mul_neg_of_pos_of_neg turns against
    have flip := IntWidths.flips_unbounded.mpr crossed
    have test : ¬ 0 ≤ (s.size + (tradeOf x).1) * s.size := by
      rw [size_trade carries, carries.size, not_le]
      exact_mod_cast crossed
    have vwap : p.filledVwap .unbounded x = Function.update
        (Function.update (Function.update p.openVwap (oppositeSide x.side)
            (s.average * ((|p.filledPosition .unbounded x| : Int) : ℚ)))
          x.side ((x.price * |p.filledPosition .unbounded x| : Int) : ℚ))
        (oppositeSide x.side) (((0 : Int) : ℚ)) := by
      rw [filledVwap, if_neg branch, if_pos flip, average]
      rfl
    rw [Inventory.trade, if_neg apart, if_neg test, vwap]
    refine ⟨size_trade carries, fun side sided held => ?_, fun side sided notHeld => ?_, ?_⟩
    · rcases eq_or_opposite fills.sided sided with rfl | rfl
      · rw [Function.update_of_ne (oppositeSide_ne fills.sided).symm, Function.update_self,
          Int.cast_mul, Int.cast_abs, mul_comm, tradeOf]
      · rw [opposite] at held
        lia
    · rcases eq_or_opposite fills.sided sided with rfl | rfl
      · lia
      · rw [Function.update_self, Int.cast_zero]
    · have closed : min (x.execQty : Int) |p.position| = -(p.position * sideToValue x.side) := by
        rw [size]
        lia
      rw [filledRealPnl, if_neg branch, average, carries.real, tradeOf, carries.size]
      show s.realised + ((min (x.execQty : Int) |p.position| : Int) : ℚ) * _ * _ = _
      rw [closed]
      push_cast
      linear_combination ((p.position : ℚ) * (x.price - s.average)) * value

/-- Any fill. -/
theorem carries_addFill (carries : Carries p.position p.openVwap p.realPnl s) (fills : Fills x) :
    Carries (p.addFill .unbounded x).position (p.addFill .unbounded x).openVwap
      (p.addFill .unbounded x).realPnl (s.trade (tradeOf x).1 (tradeOf x).2) := by
  have filled : Carries (p.filledPosition .unbounded x) (p.filledVwap .unbounded x)
      (p.filledRealPnl .unbounded x) (s.trade (tradeOf x).1 (tradeOf x).2) := by
    rcases le_or_gt 0 (p.position * sideToValue x.side) with along | against
    · exact carries_increase carries fills along
    · exact carries_decrease carries fills against
  unfold addFill
  split
  · rename_i flat
    refine ⟨filled.size, fun side _ held => ?_, fun side sided notHeld => ?_, filled.real⟩
    · simp only [flat, zero_mul] at held
      exact absurd held (lt_irrefl _)
    · rcases sided with rfl | rfl
      · exact Int.cast_zero
      · exact Int.cast_zero
  · exact filled

/-- The profit of an open position is its value over its cost. -/
theorem unrealAt_eq (carries : Carries p.position p.openVwap p.realPnl s) (opened : p.position ≠ 0)
    (price : ℚ) :
    unrealAt .unbounded p.openVwap p.position price = p.position * price - s.cost := by
  have nonzero : (p.position : ℚ) ≠ 0 := Int.cast_ne_zero.mpr opened
  unfold unrealAt
  show (if 0 < p.position then
      (price - p.openVwap .BUY / ((|p.position| : Int) : ℚ)) * ((|p.position| : Int) : ℚ)
    else (p.openVwap .SELL / ((|p.position| : Int) : ℚ) - price) * ((|p.position| : Int) : ℚ)) = _
  split
  · rename_i long
    have cost := carries.own .BUY (.inl rfl) (by rw [sideToValue]; lia)
    rw [cost, abs_of_pos long, abs_of_pos (Int.cast_pos.mpr long), Inventory.cost, carries.size]
    field_simp
  · rename_i notLong
    have short : p.position < 0 := by lia
    have cost := carries.own .SELL (.inr rfl) (by rw [sideToValue]; lia)
    rw [cost, abs_of_neg short, abs_of_neg (Int.cast_lt_zero.mpr short), Inventory.cost,
      carries.size]
    push_cast
    field_simp
    ring

/-- A flat position has no open profit. -/
def Settled (p : PositionPnl ℚ) : Prop :=
  p.position = 0 → p.unrealPnl = 0 ∧ p.totalPnl = p.realPnl

theorem settled_addFill (p : PositionPnl ℚ) (x : MEClientResponse) :
    Settled (p.addFill .unbounded x) := by
  unfold Settled addFill
  split
  · intro _
    exact ⟨Int.cast_zero, by rw [Int.cast_zero, zero_add]⟩
  · rename_i held
    intro flat
    exact absurd flat held

theorem settled_updateBBO (settled : Settled p) (bbo : BBO) :
    Settled (p.updateBBO .unbounded bbo) := by
  unfold Settled updateBBO
  split
  · rename_i marked
    intro flat
    exact absurd flat marked.1
  · exact settled

/-- Total behind a fill: what has been realised and the value over the cost at its price. -/
theorem totalPnl_addFill (carries : Carries p.position p.openVwap p.realPnl s) (fills : Fills x) :
    (p.addFill .unbounded x).totalPnl =
      s.realised - s.cost - (tradeOf x).1 * (tradeOf x).2 +
        (p.addFill .unbounded x).position * x.price := by
  have after := carries_addFill carries fills
  rw [← Inventory.trade_cost]
  rcases eq_or_ne (p.addFill .unbounded x).position 0 with flat | held
  · rw [(settled_addFill p x flat).2, after.real, Inventory.cost, after.size, flat]
    ring
  · have total : (p.addFill .unbounded x).totalPnl =
        unrealAt .unbounded (p.addFill .unbounded x).openVwap (p.addFill .unbounded x).position
          (x.price : ℚ) + (p.addFill .unbounded x).realPnl := by
      rw [addFill_position] at held
      rw [addFill, if_neg held]
    rw [total, unrealAt_eq after held, after.real]
    ring

theorem totalPnl_updateBBO (carries : Carries p.position p.openVwap p.realPnl s)
    (held : p.position ≠ 0) {bbo : BBO} (bid : bbo.bidPrice ≠ Price_INVALID)
    (ask : bbo.askPrice ≠ Price_INVALID) :
    (p.updateBBO .unbounded bbo).totalPnl =
      s.realised - s.cost + p.position * ((bbo.bidPrice + bbo.askPrice) / 2 : ℚ) := by
  rw [updateBBO, if_pos ⟨held, bid, ask⟩]
  show unrealAt .unbounded p.openVwap p.position (midPrice .unbounded bbo) + p.realPnl = _
  rw [unrealAt_eq carries held, carries.real]
  show (p.position : ℚ) * (((bbo.bidPrice + bbo.askPrice : Int) : ℚ) *
    (((1 : Int) : ℚ) / ((2 : Int) : ℚ))) - s.cost + s.realised = _
  push_cast
  ring

end Step

/-! ## Runs -/

theorem run_concat (events : List PositionEvent) (e : PositionEvent) :
    run .unbounded (events ++ [e]) = step .unbounded (run .unbounded events) e := by
  rw [run, List.foldl_append]
  rfl

theorem tradesOf_addFill (events : List PositionEvent) (x : MEClientResponse) :
    tradesOf (events ++ [.addFill x]) = tradesOf events ++ [tradeOf x] :=
  List.filterMap_append

theorem tradesOf_updateBBO (events : List PositionEvent) (bbo : BBO) :
    tradesOf (events ++ [.updateBBO bbo]) = tradesOf events := by
  rw [tradesOf, List.filterMap_append]
  exact List.append_nil _

/-- Every run carries the inventory of its fills, and is settled where it is flat. -/
theorem run_carries (events : List PositionEvent) (fills : ∀ x, .addFill x ∈ events → Fills x) :
    Carries (run .unbounded events).position (run .unbounded events).openVwap
        (run .unbounded events).realPnl (Inventory.empty.trades (tradesOf events)) ∧
      Settled (run .unbounded events) := by
  induction events using List.reverseRecOn with
  | nil =>
      refine ⟨?_, fun _ => ⟨Int.cast_zero, rfl⟩⟩
      have start := Carries.new
      simpa [run, new, tradesOf, Inventory.trades] using start
  | append_singleton events e ih =>
      obtain ⟨carries, settled⟩ := ih fun x mem => fills x (List.mem_append_left _ mem)
      rw [run_concat]
      cases e with
      | addFill x =>
          have last := fills x (List.mem_append_right _ List.mem_cons_self)
          rw [tradesOf_addFill, Inventory.trades, List.foldl_append]
          exact ⟨carries_addFill carries last, settled_addFill _ x⟩
      | updateBBO bbo =>
          rw [tradesOf_updateBBO]
          refine ⟨?_, settled_updateBBO settled bbo⟩
          rw [step, updateBBO_toPositionInfo, updateBBO_openVwap, updateBBO_realPnl]
          exact carries

/-- **The accounting identity.** Over any sequence of fills and best prices, in exact
arithmetic: the position is the sum of the fills; behind a fill the total is the cash of the
fills and the position at the price of the fill; behind a change of valid best prices it is the
cash and the open position at their middle; a flat position has realised its cash; and the side
of the position has its size at average cost, the other side nothing. -/
theorem run_profitAndLoss (events : List PositionEvent)
    (fills : ∀ x, .addFill x ∈ events → Fills x) :
    ((run .unbounded events).position : ℚ) = Inventory.net (tradesOf events) ∧
    (∀ x before, events = before ++ [.addFill x] →
      (run .unbounded events).totalPnl =
        Inventory.cash (tradesOf events) + (run .unbounded events).position * x.price) ∧
    (∀ bbo before, events = before ++ [.updateBBO bbo] → bbo.bidPrice ≠ Price_INVALID →
      bbo.askPrice ≠ Price_INVALID → (run .unbounded events).position ≠ 0 →
      (run .unbounded events).totalPnl = Inventory.cash (tradesOf events) +
        (run .unbounded events).position * ((bbo.bidPrice + bbo.askPrice) / 2 : ℚ)) ∧
    ((run .unbounded events).position = 0 →
      (run .unbounded events).unrealPnl = 0 ∧
      (run .unbounded events).realPnl = Inventory.cash (tradesOf events) ∧
      (run .unbounded events).totalPnl = Inventory.cash (tradesOf events)) ∧
    ∀ side, side = .BUY ∨ side = .SELL → (run .unbounded events).openVwap side =
      if 0 < (run .unbounded events).position * sideToValue side then
        |((run .unbounded events).position : ℚ)| *
          (Inventory.empty.trades (tradesOf events)).average
      else 0 := by
  obtain ⟨carries, settled⟩ := run_carries events fills
  refine ⟨?_, ?_, ?_, ?_, ?_⟩
  · rw [← carries.size]
    exact (Inventory.trades_empty _).1
  · rintro x before rfl
    have last := fills x (List.mem_append_right _ List.mem_cons_self)
    obtain ⟨earlier, -⟩ := run_carries before fun y mem => fills y (List.mem_append_left _ mem)
    have total := totalPnl_addFill earlier last
    rw [(Inventory.trades_empty _).2] at total
    rw [run_concat, step, total, tradesOf_addFill, Inventory.cash, Inventory.cash, List.map_append,
      List.sum_append, List.map_singleton, List.sum_singleton, sub_eq_add_neg]
  · rintro bbo before rfl bid ask held
    obtain ⟨earlier, -⟩ := run_carries before fun y mem => fills y (List.mem_append_left _ mem)
    rw [run_concat, step, updateBBO_toPositionInfo] at held ⊢
    rw [totalPnl_updateBBO earlier held bid ask, (Inventory.trades_empty _).2, tradesOf_updateBBO]
  · intro flat
    obtain ⟨unreal, total⟩ := settled flat
    have real : (run .unbounded events).realPnl = Inventory.cash (tradesOf events) := by
      rw [carries.real]
      exact Inventory.trades_flat _ (by rw [carries.size, flat, Int.cast_zero])
    exact ⟨unreal, real, total.trans real⟩
  · intro side sided
    split
    · rename_i held
      exact carries.own side sided held
    · rename_i notHeld
      exact carries.other side sided (not_lt.mp notHeld)

/-- A long position of ten that turns into a short one of five, and is closed. -/
def turnedFills : List PositionEvent :=
  [.addFill ⟨.FILLED, 1, 0, 1, 1, .BUY, 100, 10, 0⟩,
    .addFill ⟨.FILLED, 1, 0, 2, 2, .SELL, 103, 15, 0⟩,
    .addFill ⟨.FILLED, 1, 0, 3, 3, .BUY, 99, 5, 0⟩]

theorem run_profitAndLoss_turned :
    (run .unbounded turnedFills).totalPnl =
      Inventory.cash (tradesOf turnedFills) +
        (run .unbounded turnedFills).position * ((99 : Int) : ℚ) := by
  have fills : ∀ x, .addFill x ∈ turnedFills → Fills x := by
    intro x mem
    simp only [turnedFills, List.mem_cons, PositionEvent.addFill.injEq, List.not_mem_nil,
      or_false] at mem
    rcases mem with rfl | rfl | rfl
    · exact ⟨.inl rfl, by decide⟩
    · exact ⟨.inr rfl, by decide⟩
    · exact ⟨.inl rfl, by decide⟩
  exact (run_profitAndLoss turnedFills fills).2.1 _
    [.addFill ⟨.FILLED, 1, 0, 1, 1, .BUY, 100, 10, 0⟩,
      .addFill ⟨.FILLED, 1, 0, 2, 2, .SELL, 103, 15, 0⟩] rfl

end PositionPnl

end NanoTrade
