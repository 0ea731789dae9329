import NanoTrade.LevelBook.Lists
import NanoTrade.Machine
import NanoTrade.Trading.MarketOrderBook

/-!
# What a market feed describes

`Quotes` are the live orders of a feed, one list per side, the first order to be filled
first; `Quotes.apply` is what an update means. A feed is well-formed where an ADD names
no live order and a MODIFY or a CANCEL does (`Quotes.WellFormed`). It may be locked or
crossed unless `Quotes.Uncrossed` is asked for.

`Market` is what the book of a client comes to: the quotes, the best prices as it last
read them, and the prices whose level a CLEAR has dropped.
-/

namespace NanoTrade

/-- A live order of a feed. -/
abbrev Quote := Resting OrderId

abbrev Quotes := BookSide → List Quote

/-- The order that an ADD announces. -/
def Quote.of (u : MEMarketUpdate) : Quote :=
  { key := u.orderId, price := u.price, qty := u.qty, priority := u.priority }

namespace Quotes

/-- What an update means. -/
def apply (quotes : Quotes) (u : MEMarketUpdate) : Quotes :=
  match u.type, BookSide.ofSide u.side with
  | .ADD, some side =>
    Function.update quotes side ((quotes side).orderedInsert (Resting.Ahead side) (Quote.of u))
  | .MODIFY, _ => fun side =>
    (quotes side).map fun q => if q.key = u.orderId then { q with qty := u.qty } else q
  | .CANCEL, _ => fun side => (quotes side).filter fun q => q.key ≠ u.orderId
  | .CLEAR, _ => fun _ => []
  | _, _ => quotes

/-- An ADD for this side, of an id that is not live, that the book has room for. -/
structure Adds (basePrice : Price) (quotes : Quotes) (side : BookSide) (u : MEMarketUpdate) :
    Prop where
  sided : u.side = side.toSide
  inside : InWindow basePrice u.price
  slot : u.orderId < ME_MAX_ORDER_IDS
  fresh : ∀ q ∈ both quotes, q.key ≠ u.orderId
  room : (both quotes).length + 1 < ME_MAX_ORDER_IDS

/-- An update of a well-formed feed. -/
structure WellFormed (basePrice : Price) (quotes : Quotes) (u : MEMarketUpdate) : Prop where
  add : u.type = .ADD → quotes.Adds basePrice .bid u ∨ quotes.Adds basePrice .ask u
  live : u.type = .MODIFY ∨ u.type = .CANCEL → ∃ q ∈ both quotes, q.key = u.orderId

instance (basePrice : Price) (quotes : Quotes) (side : BookSide) (u : MEMarketUpdate) :
    Decidable (Adds basePrice quotes side u) :=
  decidable_of_iff
    (u.side = side.toSide ∧ InWindow basePrice u.price ∧ u.orderId < ME_MAX_ORDER_IDS ∧
      (∀ q ∈ both quotes, q.key ≠ u.orderId) ∧ (both quotes).length + 1 < ME_MAX_ORDER_IDS)
    ⟨fun h => ⟨h.1, h.2.1, h.2.2.1, h.2.2.2.1, h.2.2.2.2⟩,
      fun h => ⟨h.sided, h.inside, h.slot, h.fresh, h.room⟩⟩

instance (basePrice : Price) (quotes : Quotes) (u : MEMarketUpdate) :
    Decidable (WellFormed basePrice quotes u) :=
  decidable_of_iff
    ((u.type = .ADD → Adds basePrice quotes .bid u ∨ Adds basePrice quotes .ask u) ∧
      (u.type = .MODIFY ∨ u.type = .CANCEL → ∃ q ∈ both quotes, q.key = u.orderId))
    ⟨fun h => ⟨h.1, h.2⟩, fun h => ⟨h.add, h.live⟩⟩

/-- An ADD does not cross what is there. -/
def Uncrossed (quotes : Quotes) (u : MEMarketUpdate) : Prop :=
  u.type = .ADD → ∀ side : BookSide, u.side = side.toSide →
    ∀ q ∈ quotes side.opposite, ¬ side.Crosses u.price q.price

instance (quotes : Quotes) (u : MEMarketUpdate) : Decidable (Uncrossed quotes u) :=
  inferInstanceAs (Decidable (_ → _))

/-- No id is live twice. -/
def Distinct (quotes : Quotes) : Prop :=
  ((both quotes).map Resting.key).Nodup

variable {quotes : Quotes} {side : BookSide} {xs ys : List Quote} {q : Quote}
  {u : MEMarketUpdate}

/-- All orders but one have other ids. -/
theorem Distinct.others (distinct : quotes.Distinct) (shape : quotes side = xs ++ q :: ys) :
    (∀ x ∈ xs ++ ys, x.key ≠ q.key) ∧ ∀ x ∈ quotes side.opposite, x.key ≠ q.key := by
  have moved := (perm_both quotes side).map Resting.key
  have nodup := moved.nodup_iff.mp distinct
  rw [shape, List.append_assoc, List.cons_append, List.map_append, List.map_cons,
    List.nodup_middle, ← List.map_append, ← List.append_assoc, List.nodup_cons] at nodup
  have out : ∀ x ∈ xs ++ ys ++ quotes side.opposite, x.key ≠ q.key :=
    fun x mem same => nodup.1 (same ▸ List.mem_map_of_mem mem)
  exact ⟨fun x mem => out x (List.mem_append_left _ mem),
    fun x mem => out x (List.mem_append_right _ mem)⟩

theorem apply_add (isAdd : u.type = .ADD) (sided : u.side = side.toSide) :
    quotes.apply u =
      Function.update quotes side
        ((quotes side).orderedInsert (Resting.Ahead side) (Quote.of u)) := by
  simp only [apply, isAdd, sided, BookSide.ofSide_toSide]

/-- A MODIFY changes one order, in its place. -/
theorem apply_modify (distinct : quotes.Distinct) (isModify : u.type = .MODIFY)
    (shape : quotes side = xs ++ q :: ys) (named : q.key = u.orderId) :
    quotes.apply u = Function.update quotes side (xs ++ { q with qty := u.qty } :: ys) := by
  obtain ⟨here, there⟩ := distinct.others shape
  have keep : ∀ zs : List Quote, (∀ x ∈ zs, x.key ≠ q.key) →
      zs.map (fun x => if x.key = u.orderId then { x with qty := u.qty } else x) = zs := by
    intro zs others
    refine (List.map_congr_left fun x mem => ?_).trans (List.map_id zs)
    rw [if_neg (named ▸ others x mem)]
    rfl
  funext side'
  simp only [apply, isModify]
  rcases eq_or_ne side' side with rfl | ne
  · rw [Function.update_self, shape, List.map_append, List.map_cons, if_pos named,
      keep xs fun x mem => here x (List.mem_append_left _ mem),
      keep ys fun x mem => here x (List.mem_append_right _ mem)]
  · have opp := BookSide.eq_opposite_of_ne ne
    subst opp
    rw [Function.update_of_ne ne, keep _ there]

/-- A CANCEL takes one order out. -/
theorem apply_cancel (distinct : quotes.Distinct) (isCancel : u.type = .CANCEL)
    (shape : quotes side = xs ++ q :: ys) (named : q.key = u.orderId) :
    quotes.apply u = Function.update quotes side (xs ++ ys) := by
  obtain ⟨here, there⟩ := distinct.others shape
  have keep : ∀ zs : List Quote, (∀ x ∈ zs, x.key ≠ q.key) →
      zs.filter (fun x => decide (x.key ≠ u.orderId)) = zs := by
    intro zs others
    refine List.filter_eq_self.mpr fun x mem => decide_eq_true ?_
    exact named ▸ others x mem
  have gone : ([q].filter fun x => decide (x.key ≠ u.orderId)) = [] := by
    simp [named]
  funext side'
  simp only [apply, isCancel]
  rcases eq_or_ne side' side with rfl | ne
  · rw [Function.update_self, shape, ← List.singleton_append, List.filter_append,
      List.filter_append, gone, List.nil_append,
      keep xs fun x mem => here x (List.mem_append_left _ mem),
      keep ys fun x mem => here x (List.mem_append_right _ mem)]
  · have opp := BookSide.eq_opposite_of_ne ne
    subst opp
    rw [Function.update_of_ne ne, keep _ there]

end Quotes

/-! ## Best prices -/

/-- The front of a list: its price, and the quantities there as the source adds them. -/
def top : List Quote → Price × Qty
  | [] => (Price_INVALID, Qty_INVALID)
  | best :: rest =>
    (best.price,
      (rest.filter fun q => q.price = best.price).foldl (fun sum q => (sum + q.qty) % 2 ^ 32)
        best.qty)

/-- The best prices of one side. -/
def BBO.of (bbo : BBO) : BookSide → Price × Qty
  | .bid => (bbo.bidPrice, bbo.bidQty)
  | .ask => (bbo.askPrice, bbo.askQty)

def BBO.put (bbo : BBO) : BookSide → Price × Qty → BBO
  | .bid, (price, qty) => { bbo with bidPrice := price, bidQty := qty }
  | .ask, (price, qty) => { bbo with askPrice := price, askQty := qty }

/-- The update is for this side, at the best price or in front of it. -/
def fires (quotes : Quotes) (u : MEMarketUpdate) (side : BookSide) : Bool :=
  match (quotes side).head? with
  | none => false
  | some best => u.side == side.toSide && !decide (side.Ahead best.price u.price)

structure Market where
  quotes : Quotes
  bbo : BBO
  stale : List Price

namespace Market

def new : Market :=
  { quotes := fun _ => [], bbo := .default, stale := [] }

/-- The best prices of a side are only read where the update fires on the old quotes. -/
def refresh (m : Market) (u : MEMarketUpdate) (quotes : Quotes) (side : BookSide) (bbo : BBO) :
    BBO :=
  if fires m.quotes u side then bbo.put side (top (quotes side)) else bbo

/-- One update. -/
def step (m : Market) (u : MEMarketUpdate) : Market × List BookNotice :=
  if u.type = .TRADE then (m, [.onTradeUpdate u])
  else
    let quotes := m.quotes.apply u
    let bbo := m.refresh u quotes .ask (m.refresh u quotes .bid m.bbo)
    let stale := if u.type = .CLEAR then (both m.quotes).map Resting.price ++ m.stale else m.stale
    ({ quotes, bbo, stale }, [.onOrderBookUpdate u.tickerId u.price u.side bbo])

/-- An ADD does not come at a price of the other side, or at a stale one. -/
def Separate (m : Market) (u : MEMarketUpdate) : Prop :=
  u.type = .ADD → u.price ∉ m.stale ∧
    ∀ side : BookSide, u.side = side.toSide → ∀ q ∈ m.quotes side.opposite, q.price ≠ u.price

instance (m : Market) (u : MEMarketUpdate) : Decidable (m.Separate u) :=
  inferInstanceAs (Decidable (_ → _))

theorem step_quotes (m : Market) (u : MEMarketUpdate) :
    (m.step u).1.quotes = m.quotes.apply u := by
  rw [step]
  split
  · rename_i isTrade
    simp only [Quotes.apply, isTrade]
  · rfl

end Market

end NanoTrade
