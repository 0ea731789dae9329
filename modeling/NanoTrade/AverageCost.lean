import Mathlib.Algebra.Order.Field.Basic
import Mathlib.Tactic.Linarith
import Mathlib.Tactic.Ring

/-!
# Inventories at average cost

An inventory of one good, long or short, is carried at the average price of what it holds. A
trade in the direction of the inventory moves the average; a trade against it realises the
difference to the average and leaves the average alone, until it goes through zero and the rest
is carried at the price of that trade.

* `trades_cost`: what has been realised is the cash of the trades and the cost of what is held.
* `trades_flat`: an empty inventory has realised its cash.
-/

namespace NanoTrade

/-- `size` is negative for a short inventory. -/
structure Inventory (K : Type) where
  size : K
  average : K
  realised : K

namespace Inventory

variable {K : Type} [Field K]

/-- Nothing held, nothing realised. -/
def empty : Inventory K :=
  { size := 0, average := 0, realised := 0 }

/-- What was paid for what is held, or received for what is owed. -/
def cost (s : Inventory K) : K :=
  s.size * s.average

/-- Cash after a trade of `quantity`, which is negative for a sale. -/
def cash (trades : List (K × K)) : K :=
  (trades.map fun t => -(t.1 * t.2)).sum

def net (trades : List (K × K)) : K :=
  (trades.map fun t => t.1).sum

variable [LinearOrder K]

/-- Trade `quantity` at `price`. -/
def trade (s : Inventory K) (quantity price : K) : Inventory K :=
  if 0 ≤ s.size * quantity then
    { size := s.size + quantity, average := (s.cost + quantity * price) / (s.size + quantity),
      realised := s.realised }
  else if 0 ≤ (s.size + quantity) * s.size then
    { size := s.size + quantity, average := s.average,
      realised := s.realised + quantity * (s.average - price) }
  else
    { size := s.size + quantity, average := price,
      realised := s.realised + s.size * (price - s.average) }

def trades (s : Inventory K) (ts : List (K × K)) : Inventory K :=
  ts.foldl (fun s t => s.trade t.1 t.2) s

variable (s : Inventory K) (quantity price : K)

@[simp] theorem trade_size : (s.trade quantity price).size = s.size + quantity := by
  unfold trade
  split
  · rfl
  · split <;> rfl

section Cost

variable [IsStrictOrderedRing K]

/-- A trade that does not go against the inventory ends in an empty one only where it starts
from one. -/
theorem size_eq_zero {a b : K} (along : 0 ≤ a * b) (sum : a + b = 0) : a = 0 ∧ b = 0 := by
  have opposite : b = -a := eq_neg_of_add_eq_zero_right sum
  have square : a * a ≤ 0 := by
    rw [opposite] at along
    linarith
  have a0 : a = 0 := mul_self_eq_zero.mp (le_antisymm square (mul_self_nonneg a))
  exact ⟨a0, by rw [opposite, a0, neg_zero]⟩

/-- One trade moves what is realised and the cost by its cash. -/
theorem trade_cost :
    (s.trade quantity price).realised - (s.trade quantity price).cost =
      s.realised - s.cost - quantity * price := by
  unfold trade
  split
  · rename_i along
    rcases eq_or_ne (s.size + quantity) 0 with empty | held
    · obtain ⟨noSize, noQuantity⟩ := size_eq_zero along empty
      simp [cost, noSize, noQuantity]
    · simp only [cost]
      rw [mul_div_cancel₀ _ held]
      ring
  · split
    · simp only [cost]
      ring
    · simp only [cost]
      ring

variable (ts : List (K × K))

/-- Realised is cash and cost, over any sequence of trades. -/
theorem trades_cost :
    (s.trades ts).size = s.size + net ts ∧
      (s.trades ts).realised = s.realised - s.cost + cash ts + (s.trades ts).cost := by
  induction ts generalizing s with
  | nil => simp [trades, net, cash]
  | cons t ts ih =>
      obtain ⟨size, realised⟩ := ih (s.trade t.1 t.2)
      have once := s.trade_cost t.1 t.2
      rw [trade_size] at size
      simp only [trades, List.foldl_cons] at size realised ⊢
      simp only [net, cash, List.map_cons, List.sum_cons] at size realised ⊢
      exact ⟨by rw [size, add_assoc], by rw [realised, once]; ring⟩

/-- From an empty inventory on, realised is the cash and the cost of what is held. -/
theorem trades_empty :
    (empty.trades ts).size = net ts ∧
      (empty.trades ts).realised - (empty.trades ts).cost = cash ts := by
  obtain ⟨size, realised⟩ := trades_cost (empty : Inventory K) ts
  refine ⟨by rw [size]; exact zero_add _, ?_⟩
  rw [realised]
  simp [cost, empty]

/-- An inventory that is empty has realised its cash. -/
theorem trades_flat (flat : (empty.trades ts).size = 0) :
    (empty.trades ts).realised = cash ts := by
  have whole := (trades_empty ts).2
  rwa [cost, flat, zero_mul, sub_zero] at whole

end Cost

end Inventory

end NanoTrade
