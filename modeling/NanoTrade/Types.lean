import Mathlib.Algebra.Ring.Int.Defs
import Mathlib.Algebra.Ring.Nat
import Mathlib.Logic.Function.Basic

/-!
# Types shared by all components

The scalar types and constants of `common/types.h`, and the ways in which a call
can end the process. Prices are `Int` (their window is checked wherever they
index), the unsigned types are `Nat` with an explicit modulus where the source
adds to one of them or narrows it.
-/

namespace NanoTrade

/-- Maximum number of trading instruments. -/
def ME_MAX_TICKERS : Nat := 8

/-- Sizes of the queues of client requests and responses, and of market updates. -/
def ME_MAX_CLIENT_UPDATES : Nat := 256 * 1024
def ME_MAX_MARKET_UPDATES : Nat := 256 * 1024

/-- Maximum trading clients. -/
def ME_MAX_NUM_CLIENTS : Nat := 256

/-- Maximum number of orders per trading client; also the size of the order pools. -/
def ME_MAX_ORDER_IDS : Nat := 1024 * 1024

/-- Width of the price window of a book; also the size of the level pools. -/
def ME_MAX_PRICE_LEVELS : Nat := 2 * 1024 * 1024

abbrev OrderId := Nat
abbrev TickerId := Nat
abbrev ClientId := Nat
abbrev Price := Int
abbrev Qty := Nat
abbrev Priority := Nat

def OrderId_INVALID : OrderId := 2 ^ 64 - 1
def TickerId_INVALID : TickerId := 2 ^ 32 - 1
def ClientId_INVALID : ClientId := 2 ^ 32 - 1
def Price_INVALID : Price := 2 ^ 63 - 1
def Qty_INVALID : Qty := 2 ^ 32 - 1
def Priority_INVALID : Priority := 2 ^ 64 - 1

inductive Side
  | INVALID
  | BUY
  | SELL
  | MAX
  deriving DecidableEq, Repr

/-- `Side::BUY = 1`, `Side::SELL = -1`. -/
def sideToValue : Side → Int
  | .INVALID => 0
  | .BUY => 1
  | .SELL => -1
  | .MAX => 2

/-- How a call ends the process instead of returning. `ASSERT` and `FATAL` exit;
an exception that leaves a `noexcept` function terminates. -/
inductive Fault
  /-- `ASSERT`: "Expected free ObjectBlock at index:". -/
  | expectedFreeBlock (index : Nat)
  /-- `ASSERT`: "Memory Pool out of space." -/
  | outOfSpace
  /-- `ASSERT`: "Element being deallocated does not belong to this Memory pool." -/
  | foreignElement
  /-- `ASSERT`: "Expected in-use ObjectBlock at index:". -/
  | expectedInUseBlock (index : Nat)
  /-- `FATAL`: a price outside the window of the book. -/
  | outsideWindow (price : Price)
  /-- `std::array::at` with an index outside the array. -/
  | outOfRange (index : Nat)
  /-- A null pointer is dereferenced. -/
  | nullDereference
  /-- `FATAL`: "Received invalid client-request-type:". -/
  | invalidRequestType
  /-- A loop ran longer than any well-formed structure lets it run. -/
  | diverges
  /-- `ASSERT`: "Read an invalid element in:". -/
  | invalidElement
  /-- `ASSERT`: "Received:… but order already exists:". -/
  | orderExists (orderId : Nat)
  /-- `ASSERT`: "Received:… but order does not exist." -/
  | orderMissing (orderId : Nat)
  /-- `ASSERT`: "Expecting existing order to match new one." -/
  | orderMismatch (orderId : Nat)
  /-- `ASSERT`: "Expected incremental seq_nums to increase." -/
  | seqNumGap (seqNum : Nat)
  deriving DecidableEq, Repr

/-- The faults by which a book refuses an input: the price is outside the window, an id
outside a table, or a pool is exhausted. -/
inductive Fault.Refuses : Fault → Prop
  | outsideWindow (price : Price) : Refuses (.outsideWindow price)
  | outOfRange (index : Nat) : Refuses (.outOfRange index)
  | outOfSpace : Refuses .outOfSpace

/-- Dereference a pointer that the source does not check. -/
def deref {α : Type} : Option α → Except Fault α
  | some p => .ok p
  | none => .error .nullDereference

@[simp] theorem deref_some {α : Type} (p : α) : deref (some p) = .ok p := rfl

@[simp] theorem deref_none {α : Type} : deref (none : Option α) = .error .nullDereference := rfl

theorem orderIds_lt_priceLevels : ME_MAX_ORDER_IDS < ME_MAX_PRICE_LEVELS := by decide

end NanoTrade
