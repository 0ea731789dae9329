import NanoTrade.Trading.Following

/-!
# The best prices of the client's book

The book reads the best prices of a side again where an update comes at the best price
that the side had before it, or in front of it. A side that was empty has no best price,
so its first order is not read.

`bboRight_iff`: the best prices are right after every update exactly along the feeds
without an ADD. After a feed whose CLEARs find no order, they are right exactly where
each side is empty or has been read since it was.
-/

namespace NanoTrade

/-- The quantity at a price. -/
def depth (xs : List Quote) (price : Price) : Nat :=
  ((xs.filter fun q => q.price = price).map Resting.qty).sum

/-- `best` is the best price of the side with the quantity there, and invalid if there
is none. -/
structure BestOf (side : BookSide) (xs : List Quote) (best : Price × Qty) : Prop where
  empty : best = (Price_INVALID, Qty_INVALID) ↔ xs = []
  best : ∀ q ∈ xs, (∀ x ∈ xs, ¬ side.Ahead x.price q.price) → best = (q.price, depth xs q.price)

def BBO.Right (bbo : BBO) (quotes : Quotes) : Prop :=
  ∀ side, BestOf side (quotes side) (bbo.of side)

/-- After every update of the feed the best prices are right. -/
def BBORight (basePrice : Price) (us : List MEMarketUpdate) : Prop :=
  ∀ p, p <+: us → ∃ s out,
    run MarketOrderBook.onMarketUpdate (MarketOrderBook.new basePrice) p = .ok (s, out) ∧
      s.bbo.Right (runTotal Market.step Market.new p).1.quotes

/-- No order has the invalid price, and the quantities at a price fit a `Qty`. -/
structure Quotes.Valid (quotes : Quotes) : Prop where
  price : ∀ side, ∀ q ∈ quotes side, q.price ≠ Price_INVALID
  fits : ∀ side, ∀ q ∈ quotes side, depth (quotes side) q.price < 2 ^ 32

/-- An update of an uncrossed feed; a MODIFY or a CANCEL carries the side and the price of
its order. -/
structure Quoting (basePrice : Price) (m : Market) (u : MEMarketUpdate) : Prop where
  uncrossed : Uncrossed basePrice m u
  carries : u.type = .MODIFY ∨ u.type = .CANCEL → ∃ side, u.side = BookSide.toSide side ∧
    ∃ q ∈ m.quotes side, q.key = u.orderId ∧ q.price = u.price
  valid : (m.quotes.apply u).Valid

/-- A MODIFY or a CANCEL carries the side and the price of its order. -/
def Market.Carries (m : Market) (u : MEMarketUpdate) : Prop :=
  u.type = .MODIFY ∨ u.type = .CANCEL → ∃ side, u.side = BookSide.toSide side ∧
    ∃ q ∈ m.quotes side, q.key = u.orderId ∧ q.price = u.price

/-- An update that the book follows and that carries what its order has. The feed may be
crossed, and its CLEARs may find orders. -/
structure Quoted (basePrice : Price) (m : Market) (u : MEMarketUpdate) : Prop where
  wellFormed : m.quotes.WellFormed basePrice u
  separate : m.Separate u
  carries : m.Carries u
  sized : u.qty < 2 ^ 32

/-- The update is read: the best prices of the side are taken from the book again. -/
def Market.Reads (m : Market) (u : MEMarketUpdate) (side : BookSide) : Prop :=
  u.type ≠ .TRADE ∧ fires m.quotes u side = true

/-- The side has been read, and has not been empty since. -/
def ReadSince (us : List MEMarketUpdate) (side : BookSide) : Prop :=
  ∃ w u v, us = w ++ u :: v ∧ u.type ≠ .TRADE ∧
    fires (runTotal Market.step Market.new w).1.quotes u side = true ∧
    ∀ p, p <+: v → (runTotal Market.step Market.new (w ++ u :: p)).1.quotes side ≠ []

/-- A CLEAR behind `w` has emptied a side that had been read, and neither the CLEAR nor an
update behind it is read. -/
def Unnoticed (us : List MEMarketUpdate) (side : BookSide) (w : List MEMarketUpdate) : Prop :=
  ReadSince w side ∧ ∃ c v, us = w ++ c :: v ∧ c.type = .CLEAR ∧
    ∀ p x, p ++ [x] <+: c :: v → ¬ (runTotal Market.step Market.new (w ++ p)).1.Reads x side

instance (m : Market) (u : MEMarketUpdate) : Decidable (m.Carries u) :=
  decidable_of_iff
    (u.type = .MODIFY ∨ u.type = .CANCEL → ¬ ∀ side, ¬ (u.side = BookSide.toSide side ∧
      ∃ q ∈ m.quotes side, q.key = u.orderId ∧ q.price = u.price))
    ⟨fun h t => not_forall_not.mp (h t), fun h t => not_forall_not.mpr (h t)⟩

instance (basePrice : Price) (m : Market) (u : MEMarketUpdate) :
    Decidable (Quoted basePrice m u) :=
  decidable_of_iff
    (m.quotes.WellFormed basePrice u ∧ m.Separate u ∧ m.Carries u ∧ u.qty < 2 ^ 32)
    ⟨fun h => ⟨h.1, h.2.1, h.2.2.1, h.2.2.2⟩,
      fun h => ⟨h.wellFormed, h.separate, h.carries, h.sized⟩⟩

instance (m : Market) (u : MEMarketUpdate) (side : BookSide) : Decidable (m.Reads u side) :=
  inferInstanceAs (Decidable (_ ∧ _))

instance (quotes : Quotes) : Decidable quotes.Valid :=
  decidable_of_iff
    ((∀ side, ∀ q ∈ quotes side, q.price ≠ Price_INVALID) ∧
      ∀ side, ∀ q ∈ quotes side, depth (quotes side) q.price < 2 ^ 32)
    ⟨fun h => ⟨h.1, h.2⟩, fun h => ⟨h.price, h.fits⟩⟩

instance (basePrice : Price) (m : Market) (u : MEMarketUpdate) :
    Decidable (Quoting basePrice m u) :=
  decidable_of_iff
    (Uncrossed basePrice m u ∧
      (u.type = .MODIFY ∨ u.type = .CANCEL → ¬ ∀ side, ¬ (u.side = BookSide.toSide side ∧
        ∃ q ∈ m.quotes side, q.key = u.orderId ∧ q.price = u.price)) ∧
      (m.quotes.apply u).Valid)
    ⟨fun h => ⟨h.1, fun t => not_forall_not.mp (h.2.1 t), h.2.2⟩,
      fun h => ⟨h.uncrossed, fun t => not_forall_not.mpr (h.carries t), h.valid⟩⟩

variable {basePrice : Price} {m : Market} {quotes : Quotes} {side : BookSide}
  {u : MEMarketUpdate} {us : List MEMarketUpdate} {best q : Quote} {xs ys rest rest' : List Quote}

/-! ## The front of a list -/

theorem sum_filter {α : Type} (p : α → Prop) [DecidablePred p] (f : α → Nat) (xs : List α) :
    ((xs.filter fun x => p x).map f).sum = (xs.map fun x => if p x then f x else 0).sum := by
  induction xs with
  | nil => rfl
  | cons x xs ih =>
      rw [List.map_cons, List.sum_cons, ← ih]
      rw [List.filter_cons]
      by_cases here : p x
      · rw [if_pos (decide_eq_true here), if_pos here, List.map_cons, List.sum_cons]
      · rw [if_neg fun held => here (of_decide_eq_true held), if_neg here, Nat.zero_add]

/-- Additions that do not wrap. -/
theorem foldl_sum_eq : ∀ {xs : List Quote} {qty : Qty}, qty + (xs.map Resting.qty).sum < 2 ^ 32 →
    xs.foldl (fun sum q => (sum + q.qty) % 2 ^ 32) qty = qty + (xs.map Resting.qty).sum
  | [], qty, _ => rfl
  | x :: xs, qty, fits => by
      rw [List.map_cons, List.sum_cons] at fits ⊢
      have small : (qty + x.qty) % 2 ^ 32 = qty + x.qty := Nat.mod_eq_of_lt (by lia)
      rw [List.foldl_cons, small, foldl_sum_eq (by lia), Nat.add_assoc]

theorem top_cons (fits : depth (best :: rest) best.price < 2 ^ 32) :
    top (best :: rest) = (best.price, depth (best :: rest) best.price) := by
  have shape : depth (best :: rest) best.price =
      best.qty + ((rest.filter fun q => q.price = best.price).map Resting.qty).sum := by
    simp [depth]
  rw [shape] at fits ⊢
  rw [top, foldl_sum_eq fits]

/-- The front of a sorted list is its best. -/
theorem bestOf_top (sorted : xs.Pairwise fun a b => ¬ Resting.Ahead side b a)
    (price : ∀ q ∈ xs, q.price ≠ Price_INVALID) (fits : ∀ q ∈ xs, depth xs q.price < 2 ^ 32) :
    BestOf side xs (top xs) := by
  cases xs with
  | nil => exact ⟨⟨fun _ => rfl, fun _ => rfl⟩, fun q mem => nomatch mem⟩
  | cons best rest =>
      have here : best ∈ best :: rest := List.mem_cons_self
      rw [top_cons (fits best here)]
      constructor
      · constructor
        · intro invalid
          exact absurd (congrArg Prod.fst invalid) (price best here)
        · intro empty
          cases empty
      · intro q mem first
        have same : q.price = best.price := by
          rcases List.mem_cons.mp mem with rfl | behind
          · rfl
          · have stays := (List.pairwise_cons.mp sorted).1 q behind
            by_contra ne
            have order : side.Ahead q.price best.price ∨ side.Ahead best.price q.price :=
              BookSide.Ahead.total ne
            rcases order with ahead | ahead
            · exact stays ahead
            · exact first best here ahead
        rw [same]

/-- Only the orders at the best price count. -/
theorem top_congr (same : (rest.filter fun q => q.price = best.price) =
    rest'.filter fun q => q.price = best.price) : top (best :: rest) = top (best :: rest') := by
  rw [top, top, same]

theorem filter_apart (xs ys : List Quote) (apart : q.price ≠ best.price) :
    ((xs ++ q :: ys).filter fun q => q.price = best.price) =
      (xs ++ ys).filter fun q => q.price = best.price := by
  rw [List.filter_append, List.filter_append, List.filter_cons_of_neg (by simpa using apart)]

/-! ## One update -/

theorem fires_false (quiet : fires quotes u side = false) (front : quotes side = best :: rest)
    (sided : u.side = side.toSide) : side.Ahead best.price u.price := by
  simpa [fires, front, sided] using quiet

/-- An order behind the front one. -/
theorem split_behind (shape : best :: rest = xs ++ q :: ys)
    (behind : side.Ahead best.price q.price) : ∃ zs, xs = best :: zs ∧ rest = zs ++ q :: ys := by
  cases xs with
  | nil =>
      rw [List.nil_append, List.cons.injEq] at shape
      exact absurd behind (shape.1 ▸ BookSide.Ahead.irrefl)
  | cons x zs =>
      rw [List.cons_append, List.cons.injEq] at shape
      exact ⟨zs, by rw [shape.1], shape.2⟩

/-- An update that is not read leaves the front of the side as it was. -/
theorem Market.Carries.top_of_quiet (carries : m.Carries u)
    (wellFormed : m.quotes.WellFormed basePrice u) (distinct : m.quotes.Distinct)
    (notClear : u.type ≠ .CLEAR) (quiet : fires m.quotes u side = false)
    (front : m.quotes side = best :: rest) :
    ∃ rest', m.quotes.apply u side = best :: rest' ∧
      top (best :: rest') = top (best :: rest) := by
  cases isType : u.type with
  | ADD =>
      obtain ⟨side', adds⟩ : ∃ side', m.quotes.Adds basePrice side' u := by
        rcases wellFormed.add isType with adds | adds
        · exact ⟨_, adds⟩
        · exact ⟨_, adds⟩
      rw [Quotes.apply_add isType adds.sided]
      rcases eq_or_ne side side' with rfl | ne
      · have behind := fires_false quiet front adds.sided
        rw [Function.update_self, front]
        have stays : ¬ Resting.Ahead side (Quote.of u) best := behind.asymm
        have price : (Quote.of u).price ≠ best.price := behind.ne.symm
        rw [List.orderedInsert_cons, if_neg stays]
        refine ⟨_, rfl, top_congr ?_⟩
        rw [List.orderedInsert_eq_take_drop, filter_apart _ _ price,
          List.takeWhile_append_dropWhile]
      · rw [Function.update_of_ne ne]
        exact ⟨rest, front, rfl⟩
  | MODIFY =>
      obtain ⟨side', sided, q, mem, named, price⟩ := carries (.inl isType)
      obtain ⟨xs, ys, shape⟩ := List.append_of_mem mem
      rw [Quotes.apply_modify distinct isType shape named]
      rcases eq_or_ne side side' with rfl | ne
      · have behind := fires_false quiet front sided
        rw [← price] at behind
        obtain ⟨xs, rfl, rfl⟩ := split_behind (front.symm.trans shape) behind
        have there : ({ q with qty := u.qty } : Quote).price ≠ best.price := behind.ne.symm
        rw [Function.update_self, List.cons_append]
        refine ⟨_, rfl, top_congr ?_⟩
        rw [filter_apart _ _ there, filter_apart _ _ behind.ne.symm]
      · rw [Function.update_of_ne ne]
        exact ⟨rest, front, rfl⟩
  | CANCEL =>
      obtain ⟨side', sided, q, mem, named, price⟩ := carries (.inr isType)
      obtain ⟨xs, ys, shape⟩ := List.append_of_mem mem
      rw [Quotes.apply_cancel distinct isType shape named]
      rcases eq_or_ne side side' with rfl | ne
      · have behind := fires_false quiet front sided
        rw [← price] at behind
        obtain ⟨xs, rfl, rfl⟩ := split_behind (front.symm.trans shape) behind
        rw [Function.update_self, List.cons_append]
        exact ⟨_, rfl, top_congr (filter_apart _ _ behind.ne.symm).symm⟩
      · rw [Function.update_of_ne ne]
        exact ⟨rest, front, rfl⟩
  | CLEAR => exact absurd isType notClear
  | TRADE | INVALID | SNAPSHOT_START | SNAPSHOT_END =>
      have same : m.quotes.apply u = m.quotes := by
        simp only [Quotes.apply, isType]
      rw [same]
      exact ⟨rest, front, rfl⟩

/-- A TRADE is not read, any other update where it fires. -/
theorem Market.step_bbo (m : Market) (u : MEMarketUpdate) (side : BookSide) :
    (m.step u).1.bbo.of side =
      if m.Reads u side then top (m.quotes.apply u side) else m.bbo.of side := by
  simp only [Market.Reads]
  rw [Market.step]
  split
  · simp [*]
  · cases bid : fires m.quotes u .bid <;> cases ask : fires m.quotes u .ask <;> cases side <;>
      simp [*, Market.refresh, BBO.put, BBO.of]

theorem BBO.of_default (side : BookSide) : BBO.default.of side = (Price_INVALID, Qty_INVALID) := by
  cases side <;> rfl

/-! ## Runs -/

/-- One more update: it is read, or the side had been read before. -/
theorem readSince_concat : ReadSince (us ++ [u]) side ↔
    (runTotal Market.step Market.new (us ++ [u])).1.quotes side ≠ [] ∧
      ((runTotal Market.step Market.new us).1.Reads u side ∨ ReadSince us side) := by
  constructor
  · rintro ⟨w, c, v, shape, notTrade, read, filled⟩
    rcases List.eq_nil_or_concat v with rfl | ⟨v, x, rfl⟩
    · obtain ⟨rfl, last⟩ := List.append_inj' shape rfl
      cases last
      exact ⟨filled [] (List.prefix_refl _), .inl ⟨notTrade, read⟩⟩
    · rw [List.concat_eq_append, ← List.cons_append, ← List.append_assoc] at shape
      obtain ⟨rfl, last⟩ := List.append_inj' shape rfl
      cases last
      have whole := filled (v ++ [u]) (by rw [List.concat_eq_append])
      rw [← List.cons_append, ← List.append_assoc] at whole
      refine ⟨whole, .inr ⟨w, c, v, rfl, notTrade, read, fun p prefixed => filled p ?_⟩⟩
      rw [List.concat_eq_append]
      exact prefixed.trans (List.prefix_append _ _)
  · rintro ⟨now, ⟨notTrade, read⟩ | ⟨w, c, v, rfl, notTrade, read, filled⟩⟩
    · refine ⟨us, u, [], rfl, notTrade, read, fun p prefixed => ?_⟩
      rw [List.prefix_nil.mp prefixed]
      exact now
    · refine ⟨w, c, v ++ [u], by simp, notTrade, read, fun p prefixed => ?_⟩
      rcases List.prefix_concat_iff.mp prefixed with rfl | shorter
      · rw [← List.cons_append, ← List.append_assoc]
        exact now
      · exact filled p shorter

theorem ReadSince.filled (read : ReadSince us side) :
    (runTotal Market.step Market.new us).1.quotes side ≠ [] := by
  obtain ⟨w, u, v, rfl, -, -, filled⟩ := read
  exact filled v (List.prefix_refl _)

theorem not_readSince_nil : ¬ ReadSince [] side :=
  fun read => read.filled rfl

/-- What is not read leaves the best prices of the side as they were. -/
theorem bbo_of_unread {w v : List MEMarketUpdate}
    (unread : ∀ p x, p ++ [x] <+: v →
      ¬ (runTotal Market.step Market.new (w ++ p)).1.Reads x side) :
    (runTotal Market.step Market.new (w ++ v)).1.bbo.of side =
      (runTotal Market.step Market.new w).1.bbo.of side := by
  induction v using List.reverseRecOn with
  | nil => rw [List.append_nil]
  | append_singleton v x ih =>
      have before := ih fun p y prefixed =>
        unread p y (prefixed.trans (List.prefix_append _ _))
      rw [← List.append_assoc, runTotal_concat, Market.step_bbo,
        if_neg (unread v x (List.prefix_refl _)), before]

/-- A CLEAR that is not noticed is followed by no read. -/
theorem Unnoticed.not_readSince {w : List MEMarketUpdate} (unnoticed : Unnoticed us side w) :
    ¬ ReadSince us side := by
  obtain ⟨-, c, v, rfl, isClear, unread⟩ := unnoticed
  induction v using List.reverseRecOn with
  | nil =>
      intro read
      apply read.filled
      rw [runTotal_concat, Market.step_quotes]
      simp only [Quotes.apply, isClear]
  | append_singleton v x ih =>
      intro read
      rw [← List.cons_append, ← List.append_assoc] at read
      rcases (readSince_concat.mp read).2 with now | before
      · exact unread (c :: v) x (by rw [List.cons_append]) now
      · exact ih (fun p y prefixed => unread p y (prefixed.trans (List.prefix_append _ _))) before

/-- One more update that is not read. -/
theorem Unnoticed.concat {w : List MEMarketUpdate} (unnoticed : Unnoticed us side w)
    (quiet : ¬ (runTotal Market.step Market.new us).1.Reads u side) :
    Unnoticed (us ++ [u]) side w := by
  obtain ⟨read, c, v, rfl, isClear, unread⟩ := unnoticed
  refine ⟨read, c, v ++ [u], by simp, isClear, fun p x prefixed => ?_⟩
  rw [← List.cons_append] at prefixed
  rcases List.prefix_concat_iff.mp prefixed with same | shorter
  · obtain ⟨rfl, last⟩ := List.append_inj' same rfl
    cases last
    exact quiet
  · exact unread p x shorter

/-- What the best prices of a side are. -/
structure Shows (m : Market) (us : List MEMarketUpdate) (side : BookSide) : Prop where
  read : ReadSince us side → m.bbo.of side = top (m.quotes side)
  unread : ¬ ReadSince us side → m.bbo.of side = (Price_INVALID, Qty_INVALID) ∨
    ∃ w, Unnoticed us side w

/-- One more update. A side that had been read stays so until it is empty. What empties it
is read and leaves no best price, or is a CLEAR that is not noticed. -/
theorem Shows.concat (shows : Shows (runTotal Market.step Market.new us).1 us side)
    (carries : (runTotal Market.step Market.new us).1.Carries u)
    (wellFormed : (runTotal Market.step Market.new us).1.quotes.WellFormed basePrice u)
    (distinct : (runTotal Market.step Market.new us).1.quotes.Distinct) :
    Shows (runTotal Market.step Market.new (us ++ [u])).1 (us ++ [u]) side := by
  have since := @readSince_concat side u us
  have bbo := (runTotal Market.step Market.new us).1.step_bbo u side
  rw [runTotal_concat] at since ⊢
  rw [Market.step_quotes] at since
  by_cases read : (runTotal Market.step Market.new us).1.Reads u side
  · rw [if_pos read] at bbo
    constructor
    · intro after
      rw [Market.step_quotes]
      exact bbo
    · intro notRead
      have empty : (runTotal Market.step Market.new us).1.quotes.apply u side = [] := by
        by_contra filled
        exact notRead (since.mpr ⟨filled, .inl read⟩)
      left
      rw [bbo, empty]
      rfl
  · rw [if_neg read] at bbo
    by_cases before : ReadSince us side
    · obtain ⟨best, rest, front⟩ := List.exists_cons_of_ne_nil before.filled
      by_cases isClear : u.type = .CLEAR
      · have empty : (runTotal Market.step Market.new us).1.quotes.apply u side = [] := by
          simp only [Quotes.apply, isClear]
        constructor
        · intro after
          exact absurd empty (since.mp after).1
        · intro notRead
          refine .inr ⟨us, before, u, [], rfl, isClear, fun p x prefixed => ?_⟩
          have whole : p ++ [x] = [] ++ [u] :=
            prefixed.eq_of_length_le (by simp)
          obtain ⟨rfl, last⟩ := List.append_inj' whole rfl
          cases last
          rw [List.append_nil]
          exact read
      · have same : ∃ rest', (runTotal Market.step Market.new us).1.quotes.apply u side =
            best :: rest' ∧ top (best :: rest') = top (best :: rest) := by
          by_cases isTrade : u.type = .TRADE
          · exact ⟨rest, by simp only [Quotes.apply, isTrade, front], rfl⟩
          · have quiet : fires (runTotal Market.step Market.new us).1.quotes u side = false := by
              simpa [Market.Reads, isTrade] using read
            exact carries.top_of_quiet wellFormed distinct isClear quiet front
        obtain ⟨rest', after, same⟩ := same
        constructor
        · intro stays
          rw [bbo, shows.read before, Market.step_quotes, after, same, front]
        · intro notRead
          have filled : (runTotal Market.step Market.new us).1.quotes.apply u side ≠ [] := by
            rw [after]
            exact List.cons_ne_nil _ _
          exact absurd (since.mpr ⟨filled, .inr before⟩) notRead
    · constructor
      · intro after
        exact absurd (since.mp after).2 (not_or.mpr ⟨read, before⟩)
      · intro notRead
        rw [bbo]
        exact (shows.unread before).imp_right (Exists.imp fun w unnoticed => unnoticed.concat read)

theorem Shows.new : Shows Market.new [] side :=
  ⟨fun read => absurd read not_readSince_nil, fun _ => .inl (BBO.of_default side)⟩

/-- Where the CLEARs find no order, none goes unnoticed. -/
theorem not_unnoticed (empty : Along ClearsEmpty Market.step Market.new us)
    (w : List MEMarketUpdate) : ¬ Unnoticed us side w := by
  rintro ⟨read, c, v, rfl, isClear, -⟩
  exact read.filled ((along_append.mp empty).2.1 isClear side)

/-- A run of a feed whose CLEARs find no order. -/
theorem shows_run (side : BookSide) (feed : Along (Quoting basePrice) Market.step Market.new us)
    (empty : Along ClearsEmpty Market.step Market.new us) :
    Shows (runTotal Market.step Market.new us).1 us side := by
  induction us using List.reverseRecOn with
  | nil => exact .new
  | append_singleton us u ih =>
      obtain ⟨feedBefore, quoting, -⟩ := along_append.mp feed
      obtain ⟨emptyBefore, -, -⟩ := along_append.mp empty
      obtain ⟨s, -, follows⟩ := (Follows.new basePrice).run_uncrossed
        (feedBefore.imp Quoting.uncrossed) emptyBefore rfl
      exact (ih feedBefore emptyBefore).concat quoting.carries quoting.uncrossed.1
        follows.holds.distinct

/-- There the best prices of a side that was not read are invalid. -/
theorem bbo_unread (feed : Along (Quoting basePrice) Market.step Market.new us)
    (empty : Along ClearsEmpty Market.step Market.new us) (notRead : ¬ ReadSince us side) :
    (runTotal Market.step Market.new us).1.bbo.of side = (Price_INVALID, Qty_INVALID) :=
  ((shows_run side feed empty).unread notRead).resolve_right fun ⟨w, unnoticed⟩ =>
    not_unnoticed empty w unnoticed

theorem valid_run (feed : Along (Quoting basePrice) Market.step Market.new us) :
    (runTotal Market.step Market.new us).1.quotes.Valid := by
  rcases List.eq_nil_or_concat us with rfl | ⟨us, u, rfl⟩
  · exact ⟨fun side q mem => (nomatch mem), fun side q mem => (nomatch mem)⟩
  · rw [List.concat_eq_append] at feed ⊢
    obtain ⟨-, quoting, -⟩ := along_append.mp feed
    rw [runTotal_concat, Market.step_quotes]
    exact quoting.valid

/-- The best prices after a run. -/
theorem right_iff_readSince (feed : Along (Quoting basePrice) Market.step Market.new us)
    (empty : Along ClearsEmpty Market.step Market.new us) :
    ∃ s out, run MarketOrderBook.onMarketUpdate (MarketOrderBook.new basePrice) us = .ok (s, out) ∧
      (s.bbo.Right (runTotal Market.step Market.new us).1.quotes ↔
        ∀ side, (runTotal Market.step Market.new us).1.quotes side = [] ∨ ReadSince us side) := by
  obtain ⟨s, ran, follows⟩ := (Follows.new basePrice).run_uncrossed
    (feed.imp Quoting.uncrossed) empty rfl
  have valid := valid_run feed
  refine ⟨s, _, ran, ?_⟩
  rw [follows.bbo]
  constructor
  · intro right side
    by_contra neither
    rw [not_or] at neither
    exact neither.1 ((right side).empty.mp (bbo_unread feed empty neither.2))
  · intro known side
    have whole := bestOf_top (follows.holds.sorted side) (valid.price side) (valid.fits side)
    rcases known side with noQuote | read
    · rw [bbo_unread feed empty fun read => read.filled noQuote, noQuote]
      rw [noQuote] at whole
      exact whole
    · rw [(shows_run side feed empty).read read]
      exact whole

/-- Without an ADD there is no order. -/
theorem quotes_of_noAdd (noAdd : ∀ u ∈ us, u.type ≠ .ADD) :
    ∀ side, (runTotal Market.step Market.new us).1.quotes side = [] := by
  induction us using List.reverseRecOn with
  | nil =>
      intro side
      rfl
  | append_singleton us u ih =>
      intro side
      have before := ih fun x mem => noAdd x (List.mem_append_left _ mem)
      have notAdd := noAdd u (List.mem_append_right _ List.mem_cons_self)
      rw [runTotal_concat, Market.step_quotes]
      generalize (runTotal Market.step Market.new us).1 = m at *
      cases isType : u.type with
      | ADD => exact absurd isType notAdd
      | MODIFY | CANCEL | CLEAR | TRADE | INVALID | SNAPSHOT_START | SNAPSHOT_END =>
          simp [Quotes.apply, isType, before]

theorem clearsEmpty_of_noAdd (noAdd : ∀ u ∈ us, u.type ≠ .ADD) :
    Along ClearsEmpty Market.step Market.new us := by
  induction us using List.reverseRecOn with
  | nil => trivial
  | append_singleton us u ih =>
      have before : ∀ x ∈ us, x.type ≠ .ADD :=
        fun x mem => noAdd x (List.mem_append_left _ mem)
      exact along_append.mpr ⟨ih before, fun _ => quotes_of_noAdd before, trivial⟩

/-- The first ADD of a feed is not read. -/
theorem BBORight.noAdd (right : BBORight basePrice us)
    (feed : Along (Quoting basePrice) Market.step Market.new us) : ∀ u ∈ us, u.type ≠ .ADD := by
  induction us using List.reverseRecOn with
  | nil =>
      intro u mem
      cases mem
  | append_singleton us u ih =>
      obtain ⟨feedBefore, quoting, -⟩ := along_append.mp feed
      have before := ih (fun p prefixed => right p (prefixed.trans (List.prefix_append _ _)))
        feedBefore
      have notAdd : u.type ≠ .ADD := by
        intro isAdd
        have noQuote := quotes_of_noAdd before
        have clears : Along ClearsEmpty Market.step Market.new (us ++ [u]) :=
          along_append.mpr ⟨clearsEmpty_of_noAdd before, fun _ => noQuote, trivial⟩
        obtain ⟨s, out, ran, iff⟩ := right_iff_readSince feed clears
        obtain ⟨s', out', ran', isRight⟩ := right (us ++ [u]) (List.prefix_refl _)
        rw [ran, Except.ok.injEq, Prod.mk.injEq] at ran'
        rw [← ran'.1] at isRight
        obtain ⟨side, adds⟩ : ∃ side,
            Quotes.Adds basePrice (runTotal Market.step Market.new us).1.quotes side u := by
          rcases quoting.uncrossed.1.add isAdd with adds | adds
          · exact ⟨_, adds⟩
          · exact ⟨_, adds⟩
        have joined : Quote.of u ∈ (runTotal Market.step Market.new (us ++ [u])).1.quotes side := by
          rw [runTotal_concat, Market.step_quotes, Quotes.apply_add isAdd adds.sided,
            Function.update_self, List.mem_orderedInsert]
          exact .inl rfl
        rcases iff.mp isRight side with empty | read
        · rw [empty] at joined
          cases joined
        · rcases (readSince_concat.mp read).2 with ⟨-, now⟩ | earlier
          · rw [fires, noQuote side] at now
            cases now
          · exact earlier.filled (noQuote side)
      intro x mem
      rcases List.mem_append.mp mem with old | new
      · exact before x old
      · rw [List.mem_singleton.mp new]
        exact notAdd

/-- **When the best prices are right**: after every update of a feed, only if it has no
ADD; after a feed whose CLEARs find no order, where each side is empty or has been read
since it was. -/
theorem bboRight_iff (basePrice : Price) (us : List MEMarketUpdate)
    (feed : Along (Quoting basePrice) Market.step Market.new us) :
    (BBORight basePrice us ↔ ∀ u ∈ us, u.type ≠ .ADD) ∧
      (Along ClearsEmpty Market.step Market.new us → ∃ s out,
        run MarketOrderBook.onMarketUpdate (MarketOrderBook.new basePrice) us = .ok (s, out) ∧
          (s.bbo.Right (runTotal Market.step Market.new us).1.quotes ↔
            ∀ side, (runTotal Market.step Market.new us).1.quotes side = [] ∨
              ReadSince us side)) := by
  refine ⟨⟨fun right => right.noAdd feed, fun noAdd p prefixed => ?_⟩, right_iff_readSince feed⟩
  have noAdds : ∀ u ∈ p, u.type ≠ .ADD := fun u mem => noAdd u (prefixed.subset mem)
  obtain ⟨s, out, ran, iff⟩ :=
    right_iff_readSince (along_prefixed prefixed feed) (clearsEmpty_of_noAdd noAdds)
  exact ⟨s, out, ran, iff.mpr fun side => .inl (quotes_of_noAdd noAdds side)⟩

/-- Two bids at one price, the second of which is read. -/
def joinedBids : List MEMarketUpdate :=
  [⟨.ADD, 1, 0, .BUY, 100, 5, 1⟩, ⟨.ADD, 2, 0, .BUY, 100, 3, 2⟩]

theorem bboRight_iff_joined :
    (BBORight 0 joinedBids ↔ ∀ u ∈ joinedBids, u.type ≠ .ADD) ∧
      (Along ClearsEmpty Market.step Market.new joinedBids → ∃ s out,
        run MarketOrderBook.onMarketUpdate (MarketOrderBook.new 0) joinedBids = .ok (s, out) ∧
          (s.bbo.Right (runTotal Market.step Market.new joinedBids).1.quotes ↔
            ∀ side, (runTotal Market.step Market.new joinedBids).1.quotes side = [] ∨
              ReadSince joinedBids side)) :=
  bboRight_iff 0 joinedBids (by decide)

/-- The first bid is not in the best prices. -/
theorem not_bboRight_first :
    ¬ ∀ us, Along (Quoting 0) Market.step Market.new us → BBORight 0 us := by
  intro always
  have feed : Along (Quoting 0) Market.step Market.new [⟨.ADD, 1, 0, .BUY, 100, 5, 1⟩] := by
    decide
  exact (always _ feed).noAdd feed _ List.mem_cons_self rfl

end NanoTrade
