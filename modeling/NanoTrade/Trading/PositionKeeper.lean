import NanoTrade.Trading.MarketOrderBook
import NanoTrade.Trading.OrderManager

/-!
# Positions and profits

`trading/strategy/position_keeper.h`: what a fill and a change of the best prices make of the
position in one instrument, of its cost and of its profits. Whatever type stands for `double`
only has the operations that the source uses; the widths of the integers are a parameter.
-/

namespace NanoTrade

/-- How far the integer types count. -/
structure IntWidths where
  int32 : Int → Int
  int64 : Int → Int
  uint32 : Nat → Nat

def IntWidths.unbounded : IntWidths :=
  { int32 := id, int64 := id, uint32 := id }

/-- Two's complement. -/
def IntWidths.machine : IntWidths :=
  { int32 := fun n => Int.bmod n (2 ^ 32), int64 := fun n => Int.bmod n (2 ^ 64),
    uint32 := (· % 2 ^ 32) }

/-- `old_position * sideToValue(side) >= 0`: opened or increased. -/
def IntWidths.increases (w : IntWidths) (oldPosition : Int) (side : Side) : Bool :=
  decide (0 ≤ w.int32 (oldPosition * sideToValue side))

/-- `position_ * old_position < 0`: flipped to the opposite sign. -/
def IntWidths.flips (w : IntWidths) (oldPosition position : Int) : Bool :=
  decide (w.int32 (position * oldPosition) < 0)

theorem IntWidths.increases_unbounded {oldPosition : Int} {side : Side} :
    IntWidths.unbounded.increases oldPosition side = true ↔ 0 ≤ oldPosition * sideToValue side :=
  decide_eq_true_iff

theorem IntWidths.flips_unbounded {oldPosition position : Int} :
    IntWidths.unbounded.flips oldPosition position = true ↔ position * oldPosition < 0 :=
  decide_eq_true_iff

/-- `PositionInfo` with its profits. -/
structure PositionPnl (F : Type) extends PositionInfo where
  realPnl : F
  unrealPnl : F
  totalPnl : F
  openVwap : Side → F

/-- The side against which a fill trades. -/
def oppositeSide (side : Side) : Side :=
  if side = .BUY then .SELL else .BUY

namespace PositionPnl

variable {F : Type} [Add F] [Sub F] [Mul F] [Div F] [IntCast F]

/-- Nothing filled, with a cost of zero on both sides. -/
def new : PositionPnl F :=
  { realPnl := (0 : Int), unrealPnl := (0 : Int), totalPnl := (0 : Int),
    openVwap := fun _ => (0 : Int) }

variable (w : IntWidths) (p : PositionPnl F)

/-- `position_` behind a fill. -/
def filledPosition (x : MEClientResponse) : Int :=
  w.int32 (p.position + x.execQty * sideToValue x.side)

/-- `open_vwap_[opp_side_index] / std::abs(old_position)`. -/
def oppSideVwap (x : MEClientResponse) : F :=
  p.openVwap (oppositeSide x.side) / (w.int32 |p.position| : F)

/-- The cost of the two sides behind a fill. -/
def filledVwap (x : MEClientResponse) : Side → F :=
  if w.increases p.position x.side then
    Function.update p.openVwap x.side
      (p.openVwap x.side + (w.int64 (x.price * x.execQty) : F))
  else
    let decreased := Function.update p.openVwap (oppositeSide x.side)
      (p.oppSideVwap w x * (w.int32 |p.filledPosition w x| : F))
    if w.flips p.position (p.filledPosition w x) then
      Function.update
        (Function.update decreased x.side
          (w.int64 (x.price * w.int32 |p.filledPosition w x|) : F))
        (oppositeSide x.side) (0 : Int)
    else decreased

/-- The realised profit behind a fill. -/
def filledRealPnl (x : MEClientResponse) : F :=
  if w.increases p.position x.side then p.realPnl
  else
    p.realPnl + (min (w.int32 x.execQty) (w.int32 |p.position|) : Int) *
      (p.oppSideVwap w x - (x.price : F)) * (sideToValue x.side : F)

/-- The profit of an open position at a price. -/
def unrealAt (openVwap : Side → F) (position : Int) (price : F) : F :=
  if 0 < position then
    (price - openVwap .BUY / (w.int32 |position| : F)) * (w.int32 |position| : F)
  else (openVwap .SELL / (w.int32 |position| : F) - price) * (w.int32 |position| : F)

/-- `volume_` behind a fill. -/
def filledVolume (x : MEClientResponse) : Qty :=
  w.uint32 (p.volume + x.execQty)

/-- Process an execution and update the position, pnl and volume. -/
def addFill (x : MEClientResponse) : PositionPnl F :=
  if p.filledPosition w x = 0 then
    { position := p.filledPosition w x
      volume := p.filledVolume w x
      realPnl := p.filledRealPnl w x
      unrealPnl := (0 : Int)
      totalPnl := ((0 : Int) : F) + p.filledRealPnl w x
      openVwap := Function.update
        (Function.update (p.filledVwap w x) .SELL ((0 : Int) : F)) .BUY ((0 : Int) : F) }
  else
    { position := p.filledPosition w x
      volume := p.filledVolume w x
      realPnl := p.filledRealPnl w x
      unrealPnl := unrealAt w (p.filledVwap w x) (p.filledPosition w x) (x.price : F)
      totalPnl := unrealAt w (p.filledVwap w x) (p.filledPosition w x) (x.price : F) +
        p.filledRealPnl w x
      openVwap := p.filledVwap w x }

/-- `(bid_price_ + ask_price_) * 0.5`. -/
def midPrice (bbo : BBO) : F :=
  (w.int64 (bbo.bidPrice + bbo.askPrice) : F) * ((1 : Int) / (2 : Int) : F)

/-- Process a change in top-of-book prices, and update unrealized pnl if there is an open
position. -/
def updateBBO (bbo : BBO) : PositionPnl F :=
  if p.position ≠ 0 ∧ bbo.bidPrice ≠ Price_INVALID ∧ bbo.askPrice ≠ Price_INVALID then
    { p with
      unrealPnl := unrealAt w p.openVwap p.position (midPrice w bbo)
      totalPnl := unrealAt w p.openVwap p.position (midPrice w bbo) + p.realPnl }
  else p

/-- The position is the one that the risk check reads. -/
theorem addFill_toPositionInfo (x : MEClientResponse) :
    (p.addFill .machine x).toPositionInfo = p.toPositionInfo.addFill x := by
  unfold addFill
  split <;> rfl

@[simp] theorem addFill_position (x : MEClientResponse) :
    (p.addFill w x).position = p.filledPosition w x := by
  unfold addFill
  split <;> rfl

@[simp] theorem updateBBO_toPositionInfo (bbo : BBO) :
    (p.updateBBO w bbo).toPositionInfo = p.toPositionInfo := by
  unfold updateBBO
  split <;> rfl

@[simp] theorem updateBBO_openVwap (bbo : BBO) :
    (p.updateBBO w bbo).openVwap = p.openVwap := by
  unfold updateBBO
  split <;> rfl

@[simp] theorem updateBBO_realPnl (bbo : BBO) : (p.updateBBO w bbo).realPnl = p.realPnl := by
  unfold updateBBO
  split <;> rfl

end PositionPnl

end NanoTrade
