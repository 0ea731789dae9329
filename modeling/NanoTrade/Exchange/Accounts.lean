import Mathlib.Data.Multiset.Filter
import NanoTrade.Exchange.Events

/-!
# The accounts of the clients

`Lifecycle` is what a client may see of one order: it is accepted, filled piece by piece,
and at most once it ends. `Accounts` keeps the books of all orders at once: what has been
requested, what has been answered, and what still stands, by the ids of the orders.

* `Accounts.accept`, `Accounts.execute`, `Accounts.cancel`, `Accounts.silent`: what the
  messages of a matching engine do to the accounts.
-/

namespace NanoTrade

/-- The ids by which a client knows an order. -/
abbrev OrderRef := ClientId × OrderId

def MEClientRequest.ref (r : MEClientRequest) : OrderRef :=
  (r.clientId, r.orderId)

def MEClientResponse.ref (r : MEClientResponse) : OrderRef :=
  (r.clientId, r.clientOrderId)

/-- The responses to an order. A rejected CANCEL is not about an order. -/
def own (ref : OrderRef) (out : List MEMessage) : List MEClientResponse :=
  (responses out).filter fun r => r.ref = ref ∧ r.type ≠ .CANCEL_REJECTED

/-- The new orders with these ids. -/
def placed (ref : OrderRef) (rs : List MEClientRequest) : List MEClientRequest :=
  rs.filter fun r => r.type = .NEW ∧ r.ref = ref

/-- No client uses an order id twice. -/
def NeverReused (rs : List MEClientRequest) : Prop :=
  ((rs.filter fun r => r.type = .NEW).map MEClientRequest.ref).Nodup

instance : DecidablePred NeverReused :=
  fun _ => inferInstanceAs (Decidable (List.Nodup _))

/-- The sum of the executions. -/
def executed (rs : List MEClientResponse) : Nat :=
  ((rs.filter fun r => r.type = .FILLED).map MEClientResponse.execQty).sum

/-- The response ends its order. -/
def MEClientResponse.Terminal (r : MEClientResponse) : Prop :=
  r.type = .FILLED ∧ r.leavesQty = 0 ∨ r.type = .CANCELED

/-- What a client sees of the order `r`. -/
structure Lifecycle (r : MEClientRequest) (rs : List MEClientResponse) : Prop where
  accepted : ∃ first later, rs = first :: later ∧ first.type = .ACCEPTED ∧
    first.leavesQty = r.qty ∧ ∀ x ∈ later, x.type ≠ .ACCEPTED
  filled : ∀ before x after, rs = before ++ x :: after → x.type = .FILLED →
    0 < x.execQty ∧ x.leavesQty + executed (before ++ [x]) = r.qty
  canceled : ∀ before x after, rs = before ++ x :: after → x.type = .CANCELED →
    x.leavesQty + executed before = r.qty
  ended : ∀ before x after, rs = before ++ x :: after → x.Terminal →
    ∀ y ∈ after, y.type ≠ .FILLED ∧ y.type ≠ .CANCELED

/-- An order that stands: it rests, or it is being matched. -/
structure Standing where
  ref : OrderRef
  side : Side
  price : Price
  qty : Qty
  deriving DecidableEq

/-- The account of one order: not placed yet, standing, or ended. -/
inductive Account : List MEClientRequest → List MEClientResponse → Multiset Standing → Prop
  | fresh : Account [] [] 0
  | standing {r rs e} (cycle : Lifecycle r rs) (lasts : ∀ x ∈ rs, ¬ x.Terminal)
      (leaves : e.qty + executed rs = r.qty) (wants : 0 < e.qty) (side : e.side = r.side)
      (price : e.price = r.price) : Account [r] rs {e}
  | ended {r rs} (cycle : Lifecycle r rs) (ends : 0 < r.qty → ∃ x ∈ rs, x.Terminal) :
      Account [r] rs 0

/-- All accounts. -/
def Accounts (rs : List MEClientRequest) (out : List MEMessage) (stand : Multiset Standing) :
    Prop :=
  ∀ ref, Account (placed ref rs) (own ref out) (stand.filter fun e => e.ref = ref)

/-! ## One order -/

/-- The last place of a list, and the others. -/
theorem split_concat {α : Type} {xs before after : List α} {x y : α}
    (shape : xs ++ [x] = before ++ y :: after) :
    before = xs ∧ y = x ∧ after = [] ∨ ∃ rest, after = rest ++ [x] ∧ xs = before ++ y :: rest := by
  rcases List.eq_nil_or_concat after with rfl | ⟨rest, z, rfl⟩
  · obtain ⟨rfl, last⟩ := List.append_inj' shape rfl
    cases last
    exact .inl ⟨rfl, rfl, rfl⟩
  · rw [List.concat_eq_append, ← List.cons_append, ← List.append_assoc] at shape
    obtain ⟨rfl, last⟩ := List.append_inj' shape rfl
    cases last
    exact .inr ⟨rest, List.concat_eq_append .., rfl⟩

theorem executed_append (rs rs' : List MEClientResponse) :
    executed (rs ++ rs') = executed rs + executed rs' := by
  rw [executed, List.filter_append, List.map_append, List.sum_append]
  rfl

theorem executed_filled {x : MEClientResponse} (isFilled : x.type = .FILLED) :
    executed [x] = x.execQty := by
  simp [executed, isFilled]

theorem executed_other {x : MEClientResponse} (notFilled : x.type ≠ .FILLED) :
    executed [x] = 0 := by
  simp [executed, notFilled]

namespace Lifecycle

variable {r : MEClientRequest} {rs : List MEClientResponse} {x : MEClientResponse}

/-- An order that has been accepted. -/
theorem start (isAccepted : x.type = .ACCEPTED) (leaves : x.leavesQty = r.qty) :
    Lifecycle r [x] := by
  have only : ∀ {before y after}, [x] = before ++ y :: after → y = x ∧ after = [] := by
    intro before y after shape
    rcases split_concat ((List.nil_append [x]).trans shape) with ⟨-, same, last⟩ | ⟨rest, -, absurd⟩
    · exact ⟨same, last⟩
    · simp at absurd
  refine ⟨⟨x, [], rfl, isAccepted, leaves, fun y mem => nomatch mem⟩, ?_, ?_, ?_⟩
  · intro before y after shape isFilled
    obtain ⟨rfl, -⟩ := only shape
    simp [isAccepted] at isFilled
  · intro before y after shape isCanceled
    obtain ⟨rfl, -⟩ := only shape
    simp [isAccepted] at isCanceled
  · intro before y after shape _ z mem
    obtain ⟨-, rfl⟩ := only shape
    cases mem

/-- One more response, which is about the part of the order that was left. -/
theorem concat (cycle : Lifecycle r rs) (lasts : ∀ y ∈ rs, ¬ y.Terminal)
    (follows : x.type = .FILLED ∧ 0 < x.execQty ∧ x.leavesQty + executed (rs ++ [x]) = r.qty ∨
      x.type = .CANCELED ∧ x.leavesQty + executed rs = r.qty) : Lifecycle r (rs ++ [x]) := by
  have notAccepted : x.type ≠ .ACCEPTED := by
    rcases follows with ⟨type, -⟩ | ⟨type, -⟩ <;> simp [type]
  obtain ⟨first, later, rfl, isAccepted, leaves, once⟩ := cycle.accepted
  refine ⟨⟨first, later ++ [x], rfl, isAccepted, leaves, fun y mem => ?_⟩, ?_, ?_, ?_⟩
  · rcases List.mem_append.mp mem with old | new
    · exact once y old
    · rw [List.mem_singleton.mp new]
      exact notAccepted
  · intro before y after shape isFilled
    rcases split_concat shape with ⟨rfl, rfl, rfl⟩ | ⟨rest, rfl, old⟩
    · rcases follows with ⟨-, part⟩ | ⟨type, -⟩
      · exact part
      · simp [isFilled] at type
    · exact cycle.filled before y rest old isFilled
  · intro before y after shape isCanceled
    rcases split_concat shape with ⟨rfl, rfl, rfl⟩ | ⟨rest, rfl, old⟩
    · rcases follows with ⟨type, -⟩ | ⟨-, part⟩
      · simp [isCanceled] at type
      · exact part
    · exact cycle.canceled before y rest old isCanceled
  · intro before y after shape terminal z mem
    rcases split_concat shape with ⟨rfl, rfl, rfl⟩ | ⟨rest, rfl, old⟩
    · cases mem
    · exact (lasts y (old ▸ List.mem_append_right _ List.mem_cons_self) terminal).elim

end Lifecycle

/-- The account of an order that stands. -/
theorem Account.of_standing {placed : List MEClientRequest} {rs : List MEClientResponse}
    {e : Standing} {others : Multiset Standing} (account : Account placed rs (e ::ₘ others)) :
    others = 0 ∧ ∃ r, placed = [r] ∧ Lifecycle r rs ∧ (∀ x ∈ rs, ¬ x.Terminal) ∧
      e.qty + executed rs = r.qty ∧ 0 < e.qty ∧ e.side = r.side ∧ e.price = r.price := by
  generalize whole : e ::ₘ others = stand at account
  cases account with
  | fresh => exact (Multiset.cons_ne_zero whole).elim
  | ended cycle ends => exact (Multiset.cons_ne_zero whole).elim
  | @standing r rs e' cycle lasts leaves wants side price =>
      obtain ⟨rfl, rfl⟩ : e' = e ∧ others = 0 :=
        (Multiset.singleton_eq_cons_iff others).mp whole.symm
      exact ⟨rfl, r, rfl, cycle, lasts, leaves, wants, side, price⟩

/-! ## All orders -/

theorem own_append (ref : OrderRef) (out now : List MEMessage) :
    own ref (out ++ now) = own ref out ++ own ref now := by
  rw [own, responses_append, List.filter_append]
  rfl

theorem own_response {ref : OrderRef} {x : MEClientResponse} (isOwn : x.ref = ref)
    (type : x.type ≠ .CANCEL_REJECTED) : own ref [.response x] = [x] := by
  simp [own, isOwn, type]

theorem own_other {ref : OrderRef} {x : MEClientResponse} (other : x.ref ≠ ref) :
    own ref [.response x] = [] := by
  simp [own, other]

theorem placed_cancel {r : MEClientRequest} (isCancel : r.type = .CANCEL) (ref : OrderRef)
    (rs : List MEClientRequest) : placed ref (rs ++ [r]) = placed ref rs := by
  simp [placed, isCancel]

theorem Standing.filter_own (e : Standing) (stand : Multiset Standing) :
    ((e ::ₘ stand).filter fun x => x.ref = e.ref) = e ::ₘ stand.filter fun x => x.ref = e.ref :=
  Multiset.filter_cons_of_pos (p := fun x : Standing => x.ref = e.ref) stand rfl

theorem Standing.filter_other {e : Standing} {ref : OrderRef} (other : e.ref ≠ ref)
    (stand : Multiset Standing) :
    ((e ::ₘ stand).filter fun x => x.ref = ref) = stand.filter fun x => x.ref = ref :=
  Multiset.filter_cons_of_neg (p := fun x : Standing => x.ref = ref) stand other

/-- What is left of an order after an execution. -/
def Standing.left (e : Standing) : Multiset Standing :=
  if e.qty = 0 then 0 else {e}

theorem Standing.filter_left (e : Standing) (ref : OrderRef) :
    (e.left.filter fun x => x.ref = ref) = if e.ref = ref then e.left else 0 := by
  rw [left]
  split
  · simp
  · rw [Multiset.filter_singleton]
    rfl

namespace Accounts

variable {rs : List MEClientRequest} {out now : List MEMessage} {stand : Multiset Standing}
  {r : MEClientRequest} {x : MEClientResponse} {e : Standing}

theorem start : Accounts [] [] 0 :=
  fun _ => .fresh

/-- Messages that are no responses to orders. -/
theorem silent (accounts : Accounts rs out stand) (quiet : ∀ ref, own ref now = []) :
    Accounts rs (out ++ now) stand := by
  intro ref
  rw [own_append, quiet, List.append_nil]
  exact accounts ref

theorem read_cancel (accounts : Accounts rs out stand) (isCancel : r.type = .CANCEL) :
    Accounts (rs ++ [r]) out stand := by
  intro ref
  rw [placed_cancel isCancel]
  exact accounts ref

/-- A new order of ids that are not used yet. -/
theorem accept (accounts : Accounts rs out stand) (isNew : r.type = .NEW)
    (unused : placed r.ref rs = []) (isAccepted : x.type = .ACCEPTED) (named : x.ref = r.ref)
    (leaves : x.leavesQty = r.qty) :
    Accounts (rs ++ [r]) (out ++ [.response x])
      ((Standing.left ⟨r.ref, r.side, r.price, r.qty⟩) + stand) := by
  intro ref
  have account := accounts ref
  rw [own_append, Multiset.filter_add, Standing.filter_left, placed, List.filter_append]
  by_cases same : r.ref = ref
  · subst same
    rw [unused] at account
    generalize before : own r.ref out = rs' at account
    generalize there : (stand.filter fun e => e.ref = r.ref) = stand' at account ⊢
    cases account
    have notRejected : x.type ≠ .CANCEL_REJECTED := by simp [isAccepted]
    have first : (rs.filter fun x => x.type = .NEW ∧ x.ref = r.ref) = [] := unused
    have cycle := Lifecycle.start isAccepted leaves
    rw [first, own_response named notRejected, if_pos rfl, Standing.left]
    simp only [isNew, List.nil_append, add_zero, and_self, decide_true, List.filter_cons_of_pos,
      List.filter_nil]
    split
    · rename_i empty
      exact .ended cycle fun wants => by lia
    · rename_i wants
      refine .standing cycle ?_ ?_ (Nat.pos_of_ne_zero wants) rfl rfl
      · intro y mem
        rw [List.mem_singleton.mp mem]
        rintro (⟨type, -⟩ | type) <;> simp [isAccepted] at type
      · rw [executed_other (by simp [isAccepted]), Nat.add_zero]
  · rw [own_other (named ▸ same), if_neg same, zero_add, List.append_nil]
    have other : ([r].filter fun x => x.type = .NEW ∧ x.ref = ref) = [] := by simp [same]
    rw [other, List.append_nil]
    exact account

/-- An execution of an order that stands. -/
theorem execute (accounts : Accounts rs out (e ::ₘ stand)) (isFilled : x.type = .FILLED)
    (named : x.ref = e.ref) (fills : 0 < x.execQty) (leaves : x.leavesQty + x.execQty = e.qty) :
    Accounts rs (out ++ [.response x]) (Standing.left { e with qty := x.leavesQty } + stand) := by
  intro ref
  have account := accounts ref
  rw [own_append, Multiset.filter_add, Standing.filter_left]
  by_cases same : e.ref = ref
  · subst same
    rw [Standing.filter_own] at account
    obtain ⟨unplaced, r, placed, cycle, lasts, whole, -, side, price⟩ := account.of_standing
    have notRejected : x.type ≠ .CANCEL_REJECTED := by simp [isFilled]
    have sum : executed (own e.ref out ++ [x]) = executed (own e.ref out) + x.execQty := by
      rw [executed_append, executed_filled isFilled]
    have part : x.leavesQty + executed (own e.ref out ++ [x]) = r.qty := by
      rw [sum]
      lia
    have longer := cycle.concat lasts (.inl ⟨isFilled, fills, part⟩)
    rw [placed, unplaced, own_response named notRejected, if_pos rfl, add_zero, Standing.left]
    split
    · rename_i all
      exact .ended longer fun _ => ⟨x, by simp, .inl ⟨isFilled, all⟩⟩
    · rename_i remains
      refine .standing longer ?_ part (Nat.pos_of_ne_zero remains) side price
      intro y mem
      rcases List.mem_append.mp mem with old | new
      · exact lasts y old
      · rw [List.mem_singleton.mp new]
        rintro (⟨-, all⟩ | type)
        · exact remains all
        · simp [isFilled] at type
  · rw [Standing.filter_other same] at account
    rw [own_other (named ▸ same), if_neg same, zero_add, List.append_nil]
    exact account

/-- A cancel of an order that stands. -/
theorem cancel (accounts : Accounts rs out (e ::ₘ stand)) (isCanceled : x.type = .CANCELED)
    (named : x.ref = e.ref) (leaves : x.leavesQty = e.qty) :
    Accounts rs (out ++ [.response x]) stand := by
  intro ref
  have account := accounts ref
  rw [own_append]
  by_cases same : e.ref = ref
  · subst same
    rw [Standing.filter_own] at account
    obtain ⟨unplaced, r, placed, cycle, lasts, whole, -, -, -⟩ := account.of_standing
    have notRejected : x.type ≠ .CANCEL_REJECTED := by simp [isCanceled]
    rw [placed, unplaced, own_response named notRejected]
    refine .ended (cycle.concat lasts (.inr ⟨isCanceled, by lia⟩)) fun _ => ?_
    exact ⟨x, by simp, .inr isCanceled⟩
  · rw [Standing.filter_other same] at account
    rw [own_other (named ▸ same), List.append_nil]
    exact account

/-- The request of an order that stands. -/
theorem request_of (accounts : Accounts rs out (e ::ₘ stand)) :
    0 < e.qty ∧ ∃ r ∈ rs, r.type = .NEW ∧ r.ref = e.ref ∧ r.side = e.side ∧ r.price = e.price := by
  have account := accounts e.ref
  rw [Standing.filter_own] at account
  obtain ⟨-, r, only, -, -, -, wants, side, price⟩ := account.of_standing
  have mem : r ∈ placed e.ref rs := by
    rw [only]
    exact List.mem_cons_self
  rw [placed, List.mem_filter, decide_eq_true_eq] at mem
  exact ⟨wants, r, mem.1, mem.2.1, mem.2.2, side.symm, price.symm⟩

end Accounts

end NanoTrade
