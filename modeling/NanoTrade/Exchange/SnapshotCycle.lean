import Mathlib.Algebra.BigOperators.Group.Finset.Basic
import NanoTrade.Exchange.Feed

/-!
# Snapshot cycles

A cycle on the snapshot stream: a SNAPSHOT_START, a CLEAR and the orders of every ticker, and a
SNAPSHOT_END, numbered from 0. `Books` are the books that the updates of all tickers describe.
`SnapshotCycle.replay_events`: behind a cycle the books of all tickers are those of its orders,
whatever they were before.
-/

namespace NanoTrade

/-! ## The books of all tickers -/

abbrev Books := TickerId → Quotes

namespace Books

def apply (books : Books) (u : MEMarketUpdate) : Books :=
  Function.update books u.tickerId ((books u.tickerId).apply u)

/-- What the updates say. -/
def replay (us : List MEMarketUpdate) : Books :=
  us.foldl apply fun _ _ => []

/-- The live orders of all tickers. -/
def live (books : Books) : Nat :=
  ∑ ticker ∈ Finset.range ME_MAX_TICKERS, (both (books ticker)).length

variable {ticker : TickerId} {us vs : List MEMarketUpdate} {u : MEMarketUpdate}

/-- An update changes the number of live orders by those of its own ticker. -/
theorem live_apply (books : Books) (known : u.tickerId < ME_MAX_TICKERS) :
    (books.apply u).live + (both (books u.tickerId)).length =
      books.live + (both ((books u.tickerId).apply u)).length := by
  have mem := Finset.mem_range.mpr known
  rw [live, live, ← Finset.add_sum_erase _ _ mem,
    ← Finset.add_sum_erase _ (fun ticker => (both (books ticker)).length) mem]
  have others : ∑ ticker ∈ (Finset.range ME_MAX_TICKERS).erase u.tickerId,
      (both (books.apply u ticker)).length =
      ∑ ticker ∈ (Finset.range ME_MAX_TICKERS).erase u.tickerId, (both (books ticker)).length :=
    Finset.sum_congr rfl fun ticker other => by
      rw [apply, Function.update_of_ne (Finset.ne_of_mem_erase other)]
  rw [others, apply, Function.update_self]
  lia

/-- The updates of one ticker. -/
def ofTicker (ticker : TickerId) (us : List MEMarketUpdate) : List MEMarketUpdate :=
  us.filter fun u => u.tickerId = ticker

/-- The book of a ticker depends on its updates alone. -/
theorem foldl_apply (books : Books) (us : List MEMarketUpdate) (ticker : TickerId) :
    us.foldl apply books ticker = (ofTicker ticker us).foldl Quotes.apply (books ticker) := by
  induction us generalizing books with
  | nil => rfl
  | cons u us ih =>
      rw [List.foldl_cons, ih, ofTicker, ofTicker]
      rcases eq_or_ne u.tickerId ticker with rfl | ne
      · rw [apply, Function.update_self]
        simp only [List.filter_cons_of_pos, decide_true, List.foldl_cons]
      · rw [apply, Function.update_of_ne ne.symm, List.filter_cons_of_neg]
        simpa using ne

theorem replay_apply (us : List MEMarketUpdate) (ticker : TickerId) :
    replay us ticker = Quotes.replay (ofTicker ticker us) :=
  foldl_apply _ us ticker

theorem replay_append (us vs : List MEMarketUpdate) (ticker : TickerId) :
    replay (us ++ vs) ticker = (ofTicker ticker vs).foldl Quotes.apply (replay us ticker) := by
  rw [replay, List.foldl_append, foldl_apply]
  rfl

theorem ofTicker_append (ticker : TickerId) (us vs : List MEMarketUpdate) :
    ofTicker ticker (us ++ vs) = ofTicker ticker us ++ ofTicker ticker vs :=
  List.filter_append us vs

theorem ofTicker_eq_self (own : ∀ u ∈ us, u.tickerId = ticker) : ofTicker ticker us = us :=
  List.filter_eq_self.mpr fun u mem => decide_eq_true (own u mem)

theorem ofTicker_eq_nil (other : ∀ u ∈ us, u.tickerId ≠ ticker) : ofTicker ticker us = [] :=
  List.filter_eq_nil_iff.mpr fun u mem => by simpa using other u mem

end Books

/-! ## Orders by their ids -/

/-- `a` stands in front of `b`: at a better price, or at the same with a lower id. -/
def Quote.Before (side : BookSide) (a b : Quote) : Prop :=
  side.Ahead a.price b.price ∨ a.price = b.price ∧ a.key < b.key

namespace Quote.Before

variable {side : BookSide} {a b c : Quote}

theorem asymm (before : Quote.Before side a b) : ¬ Quote.Before side b a := by
  intro back
  rcases before with ahead | ⟨same, lower⟩
  · rcases back with behind | ⟨same, -⟩
    · exact ahead.asymm behind
    · exact ahead.ne same.symm
  · rcases back with behind | ⟨-, higher⟩
    · exact behind.ne same.symm
    · exact Nat.lt_asymm lower higher

/-- An order that ranks ahead of `b` by its price stands in front of all behind `b`. -/
theorem of_ahead (ahead : Resting.Ahead side a b) (before : Quote.Before side b c) :
    Quote.Before side a c := by
  rcases before with further | ⟨same, -⟩
  · exact .inl (BookSide.Ahead.trans ahead further)
  · exact .inl (same ▸ ahead)

end Quote.Before

namespace Quotes

variable {quotes : Quotes} {side : BookSide} {q : Quote} {us : List MEMarketUpdate}
  {u : MEMarketUpdate} {xs ys : List Quote}

/-- Within a price the orders stand by their ids. -/
def Ordered (quotes : Quotes) : Prop :=
  ∀ side, (quotes side).Pairwise (Quote.Before side)

/-- An order with the highest id goes behind its price. -/
theorem pairwise_orderedInsert (ordered : xs.Pairwise (Quote.Before side))
    (later : ∀ x ∈ xs, x.key < q.key) :
    (xs.orderedInsert (Resting.Ahead side) q).Pairwise (Quote.Before side) := by
  induction xs with
  | nil => exact List.pairwise_singleton _ _
  | cons x xs ih =>
      obtain ⟨first, rest⟩ := List.pairwise_cons.mp ordered
      rw [List.orderedInsert_cons]
      split
      · rename_i ahead
        refine List.pairwise_cons.mpr ⟨fun y mem => ?_, ordered⟩
        rcases List.mem_cons.mp mem with rfl | mem
        · exact .inl ahead
        · exact .of_ahead ahead (first y mem)
      · rename_i behind
        refine List.pairwise_cons.mpr ⟨fun y mem => ?_,
          ih rest fun y mem => later y (List.mem_cons_of_mem _ mem)⟩
        rcases (List.mem_orderedInsert _).mp mem with rfl | mem
        · rcases eq_or_ne x.price y.price with same | ne
          · exact .inr ⟨same, later x List.mem_cons_self⟩
          · exact .inl ((BookSide.Ahead.total ne).resolve_right behind)
        · exact first y mem

theorem Ordered.add (ordered : quotes.Ordered) (isAdd : u.type = .ADD)
    (sided : u.side = side.toSide) (later : ∀ q ∈ both quotes, q.key < u.orderId) :
    (quotes.apply u).Ordered := by
  rw [apply_add isAdd sided]
  intro side'
  rcases eq_or_ne side' side with rfl | ne
  · rw [Function.update_self]
    exact pairwise_orderedInsert (ordered side') fun q mem =>
      later q ((mem_both _).mpr ⟨side', mem⟩)
  · rw [Function.update_of_ne ne]
    exact ordered side'

/-- An announced update keeps the orders by their ids. -/
theorem Ordered.apply {basePrice : Price} (ordered : quotes.Ordered)
    (announced : quotes.Announced basePrice u) : (quotes.apply u).Ordered := by
  rcases announced.kind with isAdd | isModify | isCancel | isTrade
  · obtain ⟨side, adds⟩ := announced.add isAdd
    exact ordered.add isAdd adds.sided (announced.later isAdd)
  · intro side
    simp only [Quotes.apply, isModify]
    refine List.pairwise_map.mpr ((ordered side).imp fun {a b} before => ?_)
    split
    · split
      · exact before
      · exact before
    · split
      · exact before
      · exact before
  · intro side
    simp only [Quotes.apply, isCancel]
    exact (ordered side).sublist List.filter_sublist
  · simp only [Quotes.apply, isTrade]
    exact ordered

/-- An announced update leaves the orders with other ids alone. -/
theorem Announced.mem_apply {basePrice : Price} (announced : quotes.Announced basePrice u)
    (ne : q.key ≠ u.orderId) : q ∈ quotes.apply u side ↔ q ∈ quotes side := by
  rcases announced.kind with isAdd | isModify | isCancel | isTrade
  · obtain ⟨side', adds⟩ := announced.add isAdd
    rw [apply_add isAdd adds.sided]
    rcases eq_or_ne side side' with rfl | other
    · rw [Function.update_self, List.mem_orderedInsert]
      refine or_iff_right fun same => ?_
      subst same
      exact ne rfl
    · rw [Function.update_of_ne other]
  · simp only [Quotes.apply, isModify, List.mem_map]
    constructor
    · rintro ⟨x, mem, rfl⟩
      split at ne
      · rename_i named
        exact absurd named ne
      · rename_i others
        rw [if_neg others]
        exact mem
    · intro mem
      exact ⟨q, mem, if_neg ne⟩
  · simp only [Quotes.apply, isCancel, List.mem_filter, decide_eq_true_eq]
    exact and_iff_left ne
  · simp only [Quotes.apply, isTrade]

/-- An announced update keeps the ids apart. -/
theorem Distinct.apply {basePrice : Price} (distinct : quotes.Distinct)
    (announced : quotes.Announced basePrice u) : (quotes.apply u).Distinct := by
  rcases announced.kind with isAdd | isModify | isCancel | isTrade
  · obtain ⟨side, adds⟩ := announced.add isAdd
    have grown := perm_both_grown
      (List.perm_orderedInsert (Resting.Ahead side) (Quote.of u) (quotes side))
    have keys := grown.map Resting.key
    rw [Distinct, apply_add isAdd adds.sided, keys.nodup_iff, List.map_cons, List.nodup_cons]
    refine ⟨fun mem => ?_, distinct⟩
    obtain ⟨q, qMem, same⟩ := List.mem_map.mp mem
    exact adds.fresh q qMem same
  · have keys : (both (quotes.apply u)).map Resting.key = (both quotes).map Resting.key := by
      have same : ∀ q : Quote,
          (if q.key = u.orderId then { q with qty := u.qty } else q).key = q.key := by
        intro q
        split
        · rfl
        · rfl
      simp only [both, Quotes.apply, isModify, List.map_append, List.map_map]
      simp only [Function.comp_def, same]
    rw [Distinct, keys]
    exact distinct
  · rw [Distinct]
    simp only [both, Quotes.apply, isCancel, ← List.filter_append]
    exact distinct.sublist (List.filter_sublist.map _)
  · simp only [Quotes.apply, isTrade]
    exact distinct

/-- Orders by their ids are determined by which there are. -/
theorem Ordered.eq {quotes' : Quotes} (ordered : quotes.Ordered) (ordered' : quotes'.Ordered)
    (same : ∀ side q, q ∈ quotes side ↔ q ∈ quotes' side) : quotes = quotes' := by
  have nodup : ∀ {quotes : Quotes}, quotes.Ordered → ∀ side, (quotes side).Nodup := by
    intro quotes ordered side
    refine (ordered side).imp fun {a b} before equal => ?_
    subst equal
    exact before.asymm before
  funext side
  refine List.Perm.eq_of_pairwise ?_ (ordered side) (ordered' side)
    ((List.perm_ext_iff_of_nodup (nodup ordered side) (nodup ordered' side)).mpr (same side))
  intro a b _ _ before behind
  exact absurd behind before.asymm

/-- ADDs with rising ids leave their orders, by their ids. -/
theorem replay_adds (add : ∀ u ∈ us, u.type = .ADD ∧ ∃ side, u.side = BookSide.toSide side)
    (rising : us.Pairwise fun u v => u.orderId < v.orderId) :
    (replay us).Ordered ∧
      ∀ side q, q ∈ replay us side ↔ ∃ u ∈ us, u.side = BookSide.toSide side ∧ q = Quote.of u := by
  induction us using List.reverseRecOn with
  | nil =>
      refine ⟨fun side => List.Pairwise.nil, fun side q => ?_⟩
      simp [replay]
  | append_singleton us u ih =>
      obtain ⟨before, -, behind⟩ := List.pairwise_append.mp rising
      obtain ⟨ordered, listed⟩ := ih (fun v mem => add v (List.mem_append_left _ mem)) before
      obtain ⟨isAdd, side, sided⟩ := add u (List.mem_append_right _ List.mem_cons_self)
      have later : ∀ q ∈ both (replay us), q.key < u.orderId := by
        intro q mem
        obtain ⟨side', mem⟩ := (mem_both _).mp mem
        obtain ⟨v, vMem, -, rfl⟩ := (listed side' q).mp mem
        exact behind v vMem u List.mem_cons_self
      rw [replay_concat]
      refine ⟨ordered.add isAdd sided later, fun side' q => ?_⟩
      rw [apply_add isAdd sided]
      rcases eq_or_ne side' side with rfl | ne
      · rw [Function.update_self, List.mem_orderedInsert, listed]
        simp only [List.mem_append, List.mem_singleton, or_and_right, exists_or, exists_eq_left,
          sided, true_and]
        exact or_comm
      · have other : u.side ≠ BookSide.toSide side' :=
          fun same => ne (BookSide.toSide_inj.mp (same.symm.trans sided))
        rw [Function.update_of_ne ne, listed]
        simp only [List.mem_append, List.mem_singleton, or_and_right, exists_or, exists_eq_left,
          other, false_and, or_false]

end Quotes

/-! ## Cycles -/

/-- An update of which only the type is set. -/
def MEMarketUpdate.ofType (type : MarketUpdateType) : MEMarketUpdate :=
  { type, orderId := OrderId_INVALID, tickerId := TickerId_INVALID, side := .INVALID
    price := Price_INVALID, qty := Qty_INVALID, priority := Priority_INVALID }

/-- What a cycle carries: the number of the last update in it, and the orders of each ticker. -/
structure SnapshotCycle where
  lastIncSeqNum : Nat
  orders : TickerId → List MEMarketUpdate

namespace SnapshotCycle

def startUpdate (c : SnapshotCycle) : MEMarketUpdate :=
  { MEMarketUpdate.ofType .SNAPSHOT_START with orderId := c.lastIncSeqNum }

def clearUpdate (ticker : TickerId) : MEMarketUpdate :=
  { MEMarketUpdate.ofType .CLEAR with tickerId := ticker }

def endUpdate (c : SnapshotCycle) : MEMarketUpdate :=
  { MEMarketUpdate.ofType .SNAPSHOT_END with orderId := c.lastIncSeqNum }

/-- A CLEAR and the orders of every ticker. -/
def events (c : SnapshotCycle) : List MEMarketUpdate :=
  (List.range ME_MAX_TICKERS).flatMap fun ticker => clearUpdate ticker :: c.orders ticker

def updates (c : SnapshotCycle) : List MEMarketUpdate :=
  c.startUpdate :: (c.events ++ [c.endUpdate])

/-- The updates, numbered from 0. -/
def messages (c : SnapshotCycle) : List MDPMarketUpdate :=
  c.updates.zipIdx.map fun (u, n) => ⟨n, u⟩

/-- A cycle whose orders are ADDs under their own ticker. -/
structure WellFormed (c : SnapshotCycle) : Prop where
  own : ∀ ticker < ME_MAX_TICKERS, ∀ u ∈ c.orders ticker, u.tickerId = ticker
  add : ∀ ticker < ME_MAX_TICKERS, ∀ u ∈ c.orders ticker, u.type = .ADD

variable {c : SnapshotCycle} {ticker : TickerId}

/-- The events of a ticker, among those of the first tickers. -/
theorem ofTicker_flatMap (wellFormed : c.WellFormed) :
    ∀ n ≤ ME_MAX_TICKERS, Books.ofTicker ticker
        ((List.range n).flatMap fun t => clearUpdate t :: c.orders t) =
      if ticker < n then clearUpdate ticker :: c.orders ticker else [] := by
  intro n
  induction n with
  | zero => intro _; rfl
  | succ n ih =>
      intro le
      have here : ∀ u ∈ clearUpdate n :: c.orders n, u.tickerId = n := by
        intro u mem
        rcases List.mem_cons.mp mem with rfl | mem
        · rfl
        · exact wellFormed.own n le u mem
      rw [List.range_succ, List.flatMap_append, Books.ofTicker_append, ih (by omega),
        List.flatMap_singleton]
      rcases Nat.lt_trichotomy ticker n with lt | rfl | gt
      · rw [if_pos lt, if_pos (Nat.lt_succ_of_lt lt), Books.ofTicker_eq_nil, List.append_nil]
        intro u mem same
        exact absurd (same.symm.trans (here u mem)) (Nat.ne_of_lt lt)
      · rw [if_neg (Nat.lt_irrefl _), if_pos (Nat.lt_succ_self _), Books.ofTicker_eq_self here,
          List.nil_append]
      · rw [if_neg (Nat.lt_asymm gt), if_neg (Nat.not_lt_of_le gt), Books.ofTicker_eq_nil,
          List.nil_append]
        intro u mem same
        exact absurd (same.symm.trans (here u mem)) (Nat.ne_of_gt gt)

/-- Behind a cycle the book of a ticker is that of its orders. -/
theorem replay_events (wellFormed : c.WellFormed) (known : ticker < ME_MAX_TICKERS)
    (before : List MEMarketUpdate) :
    Books.replay (before ++ c.events) ticker = Quotes.replay (c.orders ticker) := by
  rw [Books.replay_append, events, ofTicker_flatMap wellFormed _ (Nat.le_refl _), if_pos known,
    List.foldl_cons]
  rfl

end SnapshotCycle

end NanoTrade
