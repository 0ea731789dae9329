import NanoTrade.Backtest.QueuePosition
import NanoTrade.Ends
import NanoTrade.Trading.BestPrices
import NanoTrade.Trading.Separation

/-!
# What the queue snapshot sees

`snapshotQueueAhead` is to walk the FIFO list at a price of a side and to sum what rests there.
It reads the best prices instead, and these are what the book had at the front of the side when
an update last made it look.

* `snapshotQueueAhead_iff`: when the two agree. After any updates, where the price was at the front
  at the last look and what rests there is what was found, or it was not and nothing rests there.
  Along a feed, where nothing rests there, unless a CLEAR went unnoticed, and at the best price of
  a side that was looked at since it was empty.
* `not_counted_behind`: an order behind the best price is not seen.
-/

namespace NanoTrade

/-- The orders that the id table leads to. -/
def MarketOrderBook.liveOrders (s : LevelBook OrderId OrderId) : List (Order OrderId) :=
  ((List.range ME_MAX_ORDER_IDS).filterMap s.oidToOrder).map s.order

/-- The quantity that rests at a price of a side. -/
def MarketOrderBook.restingAt (s : LevelBook OrderId OrderId) (price : Price) (side : Side) : Nat :=
  (((liveOrders s).filter fun o => o.price = price ∧ o.side = side).map Order.qty).sum

namespace QueueSnapshot

open MarketOrderBook QueuePosition

/-- `bid_updated` and `ask_updated`, for an update that the refresh of the best prices follows. -/
def looks (s : LevelBook OrderId OrderId) (u : MEMarketUpdate) : Side → Bool
  | .BUY => u.type ≠ .TRADE && bidUpdated s u
  | .SELL => u.type ≠ .TRADE && askUpdated s u
  | .INVALID | .MAX => false

/-- The book behind the last update of `us` that made it look at the side; `last` if none did. -/
def lastLook (side : Side) (s : MarketOrderBook) (last : Option (LevelBook OrderId OrderId)) :
    List MEMarketUpdate → Option (LevelBook OrderId OrderId)
  | [] => last
  | u :: us =>
    match s.onMarketUpdate u with
    | .error _ => last
    | .ok (s', _) =>
      lastLook side s' (if looks s.toLevelBook u side then some s'.toLevelBook else last) us

/-- At the last look the price was at the front of the side, with this quantity. -/
def FoundAt (basePrice : Price) (us : List MEMarketUpdate) (side : Side) (price : Price)
    (qty : Qty) : Prop :=
  qty ≠ Qty_INVALID ∧ ∃ t ∈ lastLook side (MarketOrderBook.new basePrice) none us,
    topOfSide t side = .ok (price, qty)

/-- No order of the side is ahead of this price. -/
def Foremost (quotes : Quotes) (side : BookSide) (price : Price) : Prop :=
  ∀ q ∈ quotes side, ¬ side.Ahead q.price price

/-- A CLEAR took this best price of the side away, and neither it nor an update behind it made the
book look. -/
def Outlived (us : List MEMarketUpdate) (side : BookSide) (price : Price) : Prop :=
  ∃ w qty, Unnoticed us side w ∧
    top ((runTotal Market.step Market.new w).1.quotes side) = (price, qty) ∧
      qty ≠ 0 ∧ qty ≠ Qty_INVALID

variable {basePrice : Price} {stale : List Price} {s : LevelBook OrderId OrderId}
  {quotes : Quotes} {us : List MEMarketUpdate} {price : Price}

/-! ## What rests -/

/-- The orders of a side of the book, by their blocks. -/
theorem side_sum {P : Price → Prop} {book : Book OrderId}
    (rep : LevelBook.Rep marketLayout (InWindow basePrice) P True s book) (side side' : BookSide)
    (price : Price) :
    (((book side').flatMap RestingLevel.orders).map fun o =>
        if (s.order o.ptr).price = price ∧ (s.order o.ptr).side = side.toSide then
          (s.order o.ptr).qty else 0).sum =
      if side' = side then
        (((book.flat side).map Resting.view).map fun q => if q.price = price then q.qty else 0).sum
      else 0 := by
  have block : ∀ l ∈ book side', ∀ o ∈ l.orders, (s.order o.ptr).side = side'.toSide ∧
      (s.order o.ptr).price = l.price ∧ (s.order o.ptr).qty = o.qty := by
    intro l lMem o oMem
    have placed := (rep.placed.queue l lMem).orders o oMem
    exact ⟨placed.side, placed.price, placed.qty⟩
  split
  · rename_i same
    subst same
    rw [Book.flat, List.map_flatMap, List.map_flatMap, List.map_flatMap]
    refine congrArg List.sum (List.flatMap_congr fun l lMem => ?_)
    rw [Book.priced, List.map_map, List.map_map]
    refine List.map_congr_left fun o oMem => ?_
    obtain ⟨sided, limit, qty⟩ := block l lMem o oMem
    rw [sided, limit, qty]
    simp only [and_true]
    rfl
  · rename_i other
    apply List.sum_eq_zero
    intro n mem
    obtain ⟨o, oMem, rfl⟩ := List.mem_map.mp mem
    obtain ⟨l, lMem, oMem⟩ := List.mem_flatMap.mp oMem
    apply if_neg
    intro hit
    rw [(block l lMem o oMem).1] at hit
    exact other (BookSide.toSide_inj.mp hit.2)

/-- What rests in a book that follows a feed is what rests in the feed. -/
theorem restingAt_eq (holds : Holds basePrice stale s quotes) (side : BookSide) (price : Price) :
    restingAt s price side.toSide = depth (quotes side) price := by
  obtain ⟨-, book, rep, views⟩ := holds
  have table := (Holds.table_perm rep).map fun p =>
    if (s.order p).price = price ∧ (s.order p).side = side.toSide then (s.order p).qty else 0
  rw [restingAt, liveOrders, sum_filter, List.map_map]
  refine table.sum_eq.symm.trans ?_
  rw [Book.orderPtrs, List.map_map, Book.orders, both, List.flatMap_append, List.map_append,
    List.sum_append, depth, sum_filter, ← views]
  have bid := side_sum rep side .bid price
  have ask := side_sum rep side .ask price
  refine (congrArg₂ (· + ·) bid ask).trans ?_
  cases side with
  | bid => exact Nat.add_zero _
  | ask => exact Nat.zero_add _

/-! ## What is read -/

/-- What the snapshot reads of a side. -/
theorem snapshot_eq (bbo : BBO) (price : Price) (side : BookSide) :
    FillSimulator.snapshotQueueAhead bbo price side.toSide =
      if (bbo.of side).1 = price ∧ (bbo.of side).2 ≠ Qty_INVALID then (bbo.of side).2 else 0 := by
  cases side with
  | bid => simp [FillSimulator.snapshotQueueAhead, BookSide.toSide, BBO.of, eq_comm]
  | ask => simp [FillSimulator.snapshotQueueAhead, BookSide.toSide, BBO.of, eq_comm]

/-! ## After any updates -/

/-- The best prices of a side are what the last look found. -/
def AsFound (last : Option (LevelBook OrderId OrderId)) (bbo : BBO) (side : BookSide) : Prop :=
  match last with
  | none => bbo.of side = (Price_INVALID, Qty_INVALID)
  | some t => topOfSide t side.toSide = .ok (bbo.of side)

/-- The refresh looks at the sides that it is told to. -/
theorem updateBBO_eq_ok {s s' : MarketOrderBook} {updateBid updateAsk : Bool}
    (refreshed : s.updateBBO updateBid updateAsk = .ok s') :
    (if updateBid then topOfSide s.toLevelBook .BUY = .ok (s'.bbo.of .bid)
      else s'.bbo.of .bid = s.bbo.of .bid) ∧
    (if updateAsk then topOfSide s.toLevelBook .SELL = .ok (s'.bbo.of .ask)
      else s'.bbo.of .ask = s.bbo.of .ask) := by
  unfold updateBBO at refreshed
  cases updateBid with
  | false =>
      cases updateAsk with
      | false =>
          cases refreshed
          exact ⟨rfl, rfl⟩
      | true =>
          obtain ⟨bbo, put, refreshed⟩ := bind_eq_ok.mp refreshed
          obtain ⟨askTop, ask, refreshed⟩ := bind_eq_ok.mp refreshed
          cases put
          cases refreshed
          exact ⟨rfl, ask⟩
  | true =>
      obtain ⟨bidTop, bid, refreshed⟩ := bind_eq_ok.mp refreshed
      cases updateAsk with
      | false =>
          cases refreshed
          exact ⟨bid, rfl⟩
      | true =>
          obtain ⟨bbo, put, refreshed⟩ := bind_eq_ok.mp refreshed
          obtain ⟨askTop, ask, refreshed⟩ := bind_eq_ok.mp refreshed
          cases put
          cases refreshed
          exact ⟨bid, ask⟩

/-- A side that was looked at is as it was found then, the other one as before. -/
theorem asFound_refresh {side : BookSide} {bbo bbo' : BBO} {t : LevelBook OrderId OrderId}
    {last : Option (LevelBook OrderId OrderId)} {updated : Bool}
    (refreshed : if updated then topOfSide t side.toSide = .ok (bbo'.of side)
      else bbo'.of side = bbo.of side)
    (found : AsFound last bbo side) : AsFound (if updated then some t else last) bbo' side := by
  cases updated with
  | true =>
      rw [if_pos rfl] at refreshed
      exact refreshed
  | false =>
      rw [if_neg Bool.false_ne_true] at refreshed
      unfold AsFound at found ⊢
      rw [refreshed]
      exact found

/-- One update: the book looks at a side, or its best prices stay. -/
theorem asFound_step {s s' : MarketOrderBook} {u : MEMarketUpdate} {out : List BookNotice}
    {last : Option (LevelBook OrderId OrderId)} (side : BookSide)
    (stepped : s.onMarketUpdate u = .ok (s', out)) (found : AsFound last s.bbo side) :
    AsFound (if looks s.toLevelBook u side.toSide then some s'.toLevelBook else last) s'.bbo
      side := by
  by_cases isTrade : u.type = .TRADE
  · rw [onMarketUpdate, if_pos isTrade] at stepped
    cases stepped
    have quiet : looks s.toLevelBook u side.toSide = false := by
      cases side <;> simp [looks, BookSide.toSide, isTrade]
    rw [quiet]
    exact found
  · rw [onMarketUpdate, if_neg isTrade] at stepped
    obtain ⟨book, -, stepped⟩ := bind_eq_ok.mp stepped
    obtain ⟨t, refreshed, stepped⟩ := bind_eq_ok.mp stepped
    cases stepped
    obtain ⟨bid, ask⟩ := updateBBO_eq_ok refreshed
    rw [updateBBO_book refreshed]
    cases side with
    | bid =>
        have same : looks s.toLevelBook u .BUY = bidUpdated s.toLevelBook u := by
          simp [looks, isTrade]
        rw [BookSide.toSide, same]
        exact asFound_refresh bid found
    | ask =>
        have same : looks s.toLevelBook u .SELL = askUpdated s.toLevelBook u := by
          simp [looks, isTrade]
        rw [BookSide.toSide, same]
        exact asFound_refresh ask found

/-- A run. The induction is on the updates, for any book that is as it was last found. -/
theorem asFound_run (side : BookSide) {us : List MEMarketUpdate} :
    ∀ {s s' : MarketOrderBook} {out : List BookNotice} {last : Option (LevelBook OrderId OrderId)},
      run MarketOrderBook.onMarketUpdate s us = .ok (s', out) → AsFound last s.bbo side →
      AsFound (lastLook side.toSide s last us) s'.bbo side := by
  induction us with
  | nil =>
      intro s s' out last ran found
      cases ran
      exact found
  | cons u us ih =>
      intro s s' out last ran found
      obtain ⟨t, now, later, stepped, rest, -⟩ := run_cons.mp ran
      rw [lastLook, stepped]
      exact ih rest (asFound_step side stepped found)

/-- What the last look found is what the best prices are. -/
theorem foundAt_iff {s : MarketOrderBook} {out : List BookNotice} {qty : Qty}
    (ran : run MarketOrderBook.onMarketUpdate (MarketOrderBook.new basePrice) us = .ok (s, out))
    (side : BookSide) : FoundAt basePrice us side.toSide price qty ↔
      s.bbo.of side = (price, qty) ∧ qty ≠ Qty_INVALID := by
  have found : AsFound (lastLook side.toSide (MarketOrderBook.new basePrice) none us) s.bbo side :=
    asFound_run side ran (BBO.of_default side)
  rw [FoundAt, and_comm]
  refine and_congr_left fun valid => ?_
  cases last : lastLook side.toSide (MarketOrderBook.new basePrice) none us with
  | none =>
      rw [last] at found
      constructor
      · rintro ⟨t, mem, -⟩
        cases mem
      · intro shown
        have invalid : Qty_INVALID = qty := congrArg Prod.snd (found.symm.trans shown)
        exact absurd invalid.symm valid
  | some t =>
      rw [last] at found
      constructor
      · rintro ⟨t', mem, looked⟩
        cases mem
        rw [found] at looked
        exact Except.ok.inj looked
      · intro shown
        exact ⟨t, rfl, found.trans (congrArg Except.ok shown)⟩

/-- The book never looks at a side that is neither. -/
theorem lastLook_eq_none {side : Side} (noSide : side = .INVALID ∨ side = .MAX)
    (us : List MEMarketUpdate) (s : MarketOrderBook) : lastLook side s none us = none := by
  induction us generalizing s with
  | nil => rfl
  | cons u us ih =>
      have quiet : looks s.toLevelBook u side = false := by
        rcases noSide with rfl | rfl
        · rfl
        · rfl
      rw [lastLook]
      split
      · rfl
      · rw [quiet]
        exact ih _

/-- After any updates the snapshot is what rests where the price was found at the front with
as much, or was not found and nothing rests. -/
theorem snapshot_iff_found {s : MarketOrderBook} {out : List BookNotice}
    (ran : run MarketOrderBook.onMarketUpdate (MarketOrderBook.new basePrice) us = .ok (s, out))
    (price : Price) (side : Side) :
    FillSimulator.snapshotQueueAhead s.bbo price side = restingAt s.toLevelBook price side ↔
      FoundAt basePrice us side price (restingAt s.toLevelBook price side) ∨
        (∀ qty, ¬ FoundAt basePrice us side price qty) ∧
          restingAt s.toLevelBook price side = 0 := by
  generalize restingAt s.toLevelBook price side = resting
  have sided : ∀ side : BookSide,
      (FillSimulator.snapshotQueueAhead s.bbo price side.toSide = resting ↔
        FoundAt basePrice us side.toSide price resting ∨
          (∀ qty, ¬ FoundAt basePrice us side.toSide price qty) ∧ resting = 0) := by
    intro side
    rw [snapshot_eq]
    simp only [foundAt_iff ran side]
    generalize s.bbo.of side = front
    obtain ⟨best, qty⟩ := front
    by_cases shown : best = price ∧ qty ≠ Qty_INVALID
    · obtain ⟨rfl, valid⟩ := shown
      have here : ¬ ∀ qty', ¬ ((best, qty) = (best, qty') ∧ qty' ≠ Qty_INVALID) :=
        fun never => never qty ⟨rfl, valid⟩
      rw [if_pos ⟨rfl, valid⟩]
      simp only [here, false_and, or_false]
      constructor
      · rintro rfl
        exact ⟨rfl, valid⟩
      · intro found
        exact congrArg Prod.snd found.1
    · have never : ∀ qty', ¬ ((best, qty) = (price, qty') ∧ qty' ≠ Qty_INVALID) := by
        rintro qty' ⟨same, valid⟩
        cases same
        exact shown ⟨rfl, valid⟩
      rw [if_neg shown]
      simp only [never, false_or, not_false_eq_true, implies_true, true_and]
      exact eq_comm
  have unsided : ∀ {side : Side}, side = .INVALID ∨ side = .MAX → ∀ qty,
      ¬ FoundAt basePrice us side price qty := by
    rintro side noSide qty ⟨-, t, mem, -⟩
    rw [lastLook_eq_none noSide] at mem
    cases mem
  cases side with
  | BUY => exact sided .bid
  | SELL => exact sided .ask
  | INVALID =>
      simp only [unsided (.inl rfl), false_or, not_false_eq_true, implies_true, true_and]
      exact eq_comm
  | MAX =>
      simp only [unsided (.inr rfl), false_or, not_false_eq_true, implies_true, true_and]
      exact eq_comm

/-! ## Along a feed -/

/-- The front of a side is the best price, and the only one. -/
theorem foremost_iff {side : BookSide} {best : Quote} {rest : List Quote}
    (sorted : (quotes side).Pairwise fun a b => ¬ Resting.Ahead side b a)
    (front : quotes side = best :: rest) (filled : depth (quotes side) price ≠ 0) :
    Foremost quotes side price ↔ best.price = price := by
  rw [front] at sorted
  constructor
  · intro foremost
    have here : ∃ q ∈ quotes side, q.price = price := by
      by_contra nowhere
      apply filled
      rw [depth, List.filter_eq_nil_iff.mpr]
      · rfl
      · intro q mem same
        exact nowhere ⟨q, mem, of_decide_eq_true same⟩
    obtain ⟨q, mem, rfl⟩ := here
    by_contra ne
    have order : side.Ahead best.price q.price ∨ side.Ahead q.price best.price :=
      BookSide.Ahead.total ne
    rcases order with ahead | ahead
    · exact foremost best (front ▸ List.mem_cons_self) ahead
    · rw [front] at mem
      rcases List.mem_cons.mp mem with rfl | behind
      · exact ne rfl
      · exact (List.pairwise_cons.mp sorted).1 q behind ahead
  · rintro rfl q mem ahead
    rw [front] at mem
    rcases List.mem_cons.mp mem with rfl | behind
    · exact BookSide.Ahead.irrefl ahead
    · exact (List.pairwise_cons.mp sorted).1 q behind ahead

/-- Quantities of orders fit a `Qty`. -/
theorem sized_run (feed : Along (Quoted basePrice) Market.step Market.new us) :
    ∀ side, ∀ q ∈ (runTotal Market.step Market.new us).1.quotes side, q.qty < 2 ^ 32 := by
  induction us using List.reverseRecOn with
  | nil =>
      intro side q mem
      cases mem
  | append_singleton us u ih =>
      obtain ⟨before, quoted, -⟩ := along_append.mp feed
      have sized := ih before
      intro side q mem
      rw [runTotal_concat, Market.step_quotes] at mem
      cases isType : u.type with
      | ADD =>
          cases sided : BookSide.ofSide u.side with
          | none =>
              simp only [Quotes.apply, isType, sided] at mem
              exact sized side q mem
          | some side' =>
              simp only [Quotes.apply, isType, sided] at mem
              rcases eq_or_ne side side' with rfl | other
              · rw [Function.update_self, List.mem_orderedInsert] at mem
                rcases mem with rfl | old
                · exact quoted.sized
                · exact sized side q old
              · rw [Function.update_of_ne other] at mem
                exact sized side q mem
      | MODIFY =>
          simp only [Quotes.apply, isType] at mem
          obtain ⟨x, xMem, rfl⟩ := List.mem_map.mp mem
          split
          · exact quoted.sized
          · exact sized side x xMem
      | CANCEL =>
          simp only [Quotes.apply, isType] at mem
          exact sized side q (List.mem_of_mem_filter mem)
      | CLEAR =>
          simp only [Quotes.apply, isType] at mem
          cases mem
      | TRADE | INVALID | SNAPSHOT_START | SNAPSHOT_END =>
          simp only [Quotes.apply, isType] at mem
          exact sized side q mem

/-- The sum at the best price fits a `Qty`. -/
theorem top_lt {xs : List Quote} (sized : ∀ q ∈ xs, q.qty < 2 ^ 32) : (top xs).2 < 2 ^ 32 := by
  have wraps : ∀ (ys : List Quote) (qty : Qty), qty < 2 ^ 32 →
      ys.foldl (fun sum q => (sum + q.qty) % 2 ^ 32) qty < 2 ^ 32 := by
    intro ys
    induction ys with
    | nil => exact fun qty fits => fits
    | cons y ys ih => exact fun qty _ => ih _ (Nat.mod_lt _ (by decide))
  cases xs with
  | nil => exact (by decide : Qty_INVALID < 2 ^ 32)
  | cons best rest => exact wraps _ _ (sized best List.mem_cons_self)

/-- Prices that a CLEAR has dropped stay stale. -/
theorem stale_of_unnoticed {side : BookSide} {w : List MEMarketUpdate} {q : Quote}
    (unnoticed : Unnoticed us side w)
    (mem : q ∈ (runTotal Market.step Market.new w).1.quotes side) :
    q.price ∈ (runTotal Market.step Market.new us).1.stale := by
  obtain ⟨-, c, v, rfl, isClear, -⟩ := unnoticed
  induction v using List.reverseRecOn with
  | nil =>
      rw [runTotal_concat, Market.step]
      simp only [isClear, reduceCtorEq, if_false, if_true]
      exact List.mem_append_left _ (List.mem_map_of_mem ((mem_both _).mpr ⟨side, mem⟩))
  | append_singleton v x ih =>
      rw [← List.cons_append, ← List.append_assoc, runTotal_concat, Market.step]
      split
      · exact ih
      · split
        · exact List.mem_append_right _ ih
        · exact ih

theorem shows_quoted (side : BookSide)
    (feed : Along (Quoted basePrice) Market.step Market.new us) :
    Shows (runTotal Market.step Market.new us).1 us side := by
  induction us using List.reverseRecOn with
  | nil => exact .new
  | append_singleton us u ih =>
      obtain ⟨before, quoted, -⟩ := along_append.mp feed
      obtain ⟨s, -, follows⟩ := (Follows.new basePrice).run
        (before.imp fun quoted => ⟨quoted.wellFormed, quoted.separate⟩)
      exact (ih before).concat quoted.carries quoted.wellFormed follows.holds.distinct

/-- What a CLEAR left unnoticed is what the best prices still are. -/
theorem bbo_of_unnoticed {side : BookSide} {w : List MEMarketUpdate}
    (feed : Along (Quoted basePrice) Market.step Market.new us) (unnoticed : Unnoticed us side w) :
    (runTotal Market.step Market.new us).1.bbo.of side =
      top ((runTotal Market.step Market.new w).1.quotes side) := by
  obtain ⟨read, c, v, rfl, -, unread⟩ := unnoticed
  rw [bbo_of_unread unread]
  exact (shows_quoted side (along_append.mp feed).1).read read

/-- Where the side was not read since it was empty, a best price that it shows was left by a
CLEAR. -/
theorem outlived_iff {side : BookSide} (feed : Along (Quoted basePrice) Market.step Market.new us)
    (notRead : ¬ ReadSince us side) (price : Price) : Outlived us side price ↔
      ∃ qty, (runTotal Market.step Market.new us).1.bbo.of side = (price, qty) ∧
        qty ≠ 0 ∧ qty ≠ Qty_INVALID := by
  constructor
  · rintro ⟨w, qty, unnoticed, front, valid⟩
    exact ⟨qty, (bbo_of_unnoticed feed unnoticed).trans front, valid⟩
  · rintro ⟨qty, shown, valid⟩
    rcases (shows_quoted side feed).unread notRead with invalid | ⟨w, unnoticed⟩
    · rw [shown] at invalid
      exact absurd (congrArg Prod.snd invalid) valid.2
    · exact ⟨w, qty, unnoticed, (bbo_of_unnoticed feed unnoticed).symm.trans shown, valid⟩

/-- Nothing rests at a best price that a CLEAR has left. -/
theorem depth_of_outlived {side : BookSide} {s : MarketOrderBook}
    (follows : Follows basePrice s (runTotal Market.step Market.new us).1)
    (outlived : Outlived us side price) :
    depth ((runTotal Market.step Market.new us).1.quotes side) price = 0 := by
  obtain ⟨w, qty, unnoticed, front, -⟩ := outlived
  obtain ⟨best, rest, shape⟩ := List.exists_cons_of_ne_nil unnoticed.1.filled
  have same : best.price = price := by
    rw [shape] at front
    exact congrArg Prod.fst front
  have here : best ∈ (runTotal Market.step Market.new w).1.quotes side := by
    rw [shape]
    exact List.mem_cons_self
  have isStale := stale_of_unnoticed unnoticed here
  rw [depth, List.filter_eq_nil_iff.mpr]
  · rfl
  · intro q mem atPrice
    have dropped : q.price = best.price := (of_decide_eq_true atPrice).trans same.symm
    exact follows.holds.not_stale mem (dropped ▸ isStale)

/-- Where the best prices of a side are its front, the snapshot is what rests at the front, if
that fits, and where nothing rests. -/
theorem snapshot_iff_front {m : Market} {side : BookSide} {best : Quote} {rest : List Quote}
    (sorted : (m.quotes side).Pairwise fun a b => ¬ Resting.Ahead side b a)
    (shown : m.bbo.of side = top (m.quotes side)) (front : m.quotes side = best :: rest)
    (narrow : (top (m.quotes side)).2 < 2 ^ 32) :
    FillSimulator.snapshotQueueAhead m.bbo price side.toSide = depth (m.quotes side) price ↔
      depth (m.quotes side) price = 0 ∨
        (Foremost m.quotes side price ∧ depth (m.quotes side) price < Qty_INVALID) := by
  have price_eq : (m.bbo.of side).1 = best.price := by
    rw [shown, front]
    rfl
  have qty_eq : depth (m.quotes side) best.price < 2 ^ 32 →
      (m.bbo.of side).2 = depth (m.quotes side) best.price := by
    intro fits
    rw [shown]
    rw [front] at fits ⊢
    exact congrArg Prod.snd (top_cons fits)
  rw [← shown] at narrow
  rw [snapshot_eq, price_eq]
  by_cases noDepth : depth (m.quotes side) price = 0
  · simp only [noDepth, true_or, iff_true]
    split
    · rename_i cached
      rw [qty_eq, cached.1, noDepth]
      rw [cached.1, noDepth]
      decide
    · rfl
  · rw [foremost_iff sorted front noDepth]
    simp only [noDepth, false_or]
    constructor
    · intro same
      split at same
      · rename_i cached
        have valid := cached.2
        refine ⟨cached.1, ?_⟩
        rw [← same]
        simp only [Qty_INVALID] at valid ⊢
        lia
      · exact absurd same.symm noDepth
    · rintro ⟨rfl, small⟩
      have fits : depth (m.quotes side) best.price < 2 ^ 32 := by
        simp only [Qty_INVALID] at small
        omega
      rw [qty_eq fits, if_pos ⟨rfl, small.ne⟩]

/-- After a feed the snapshot is what rests where nothing does, unless a CLEAR went unnoticed,
and at the best price of a side that was read since it was empty. -/
theorem snapshot_iff_quoted (feed : Along (Quoted basePrice) Market.step Market.new us) :
    ∃ s out, run MarketOrderBook.onMarketUpdate (MarketOrderBook.new basePrice) us = .ok (s, out) ∧
      ∀ (price : Price) (side : BookSide),
        FillSimulator.snapshotQueueAhead s.bbo price side.toSide =
            restingAt s.toLevelBook price side.toSide ↔
          (restingAt s.toLevelBook price side.toSide = 0 ∧ ¬ Outlived us side price) ∨
            (ReadSince us side ∧
              Foremost (runTotal Market.step Market.new us).1.quotes side price ∧
                restingAt s.toLevelBook price side.toSide < Qty_INVALID) := by
  obtain ⟨s, ran, follows⟩ := (Follows.new basePrice).run
    (feed.imp fun quoted => ⟨quoted.wellFormed, quoted.separate⟩)
  refine ⟨s, _, ran, fun price side => ?_⟩
  rw [restingAt_eq follows.holds, follows.bbo]
  by_cases read : ReadSince us side
  · have seen : ¬ Outlived us side price := by
      rintro ⟨w, qty, unnoticed, -⟩
      exact unnoticed.not_readSince read
    obtain ⟨best, rest, front⟩ := List.exists_cons_of_ne_nil read.filled
    rw [snapshot_iff_front (follows.holds.sorted side) ((shows_quoted side feed).read read) front
      (top_lt (sized_run feed side))]
    simp only [seen, not_false_eq_true, and_true, read, true_and]
  · have left := outlived_iff feed read price
    rw [snapshot_eq]
    simp only [read, false_and, or_false]
    by_cases outlived : Outlived us side price
    · obtain ⟨qty, shown, filled, valid⟩ := left.mp outlived
      simp only [shown, valid, ne_eq, not_false_eq_true, and_true, if_true, filled, outlived,
        depth_of_outlived follows outlived, not_true_eq_false, and_false]
    · simp only [outlived, not_false_eq_true, and_true]
      split
      · rename_i cached
        have noQty : ((runTotal Market.step Market.new us).1.bbo.of side).2 = 0 := by
          by_contra filled
          exact outlived (left.mpr ⟨_, Prod.ext cached.1 rfl, filled, cached.2⟩)
        rw [noQty]
        exact eq_comm
      · exact eq_comm

/-- **The queue snapshot is what rests at the order's own level** exactly where the last look at
the side serves for it. Of every book, by what was found then; and of a book that followed a
feed, crossed ones and CLEARs of orders included, by the orders of the feed. -/
theorem snapshotQueueAhead_iff (basePrice : Price) (us : List MEMarketUpdate) :
    (∀ s out, run MarketOrderBook.onMarketUpdate (MarketOrderBook.new basePrice) us =
        .ok (s, out) → ∀ (price : Price) (side : Side),
      FillSimulator.snapshotQueueAhead s.bbo price side = restingAt s.toLevelBook price side ↔
        FoundAt basePrice us side price (restingAt s.toLevelBook price side) ∨
          (∀ qty, ¬ FoundAt basePrice us side price qty) ∧
            restingAt s.toLevelBook price side = 0) ∧
    (Along (Quoted basePrice) Market.step Market.new us → ∃ s out,
      run MarketOrderBook.onMarketUpdate (MarketOrderBook.new basePrice) us = .ok (s, out) ∧
        ∀ (price : Price) (side : BookSide),
          FillSimulator.snapshotQueueAhead s.bbo price side.toSide =
              restingAt s.toLevelBook price side.toSide ↔
            (restingAt s.toLevelBook price side.toSide = 0 ∧ ¬ Outlived us side price) ∨
              (ReadSince us side ∧
                Foremost (runTotal Market.step Market.new us).1.quotes side price ∧
                  restingAt s.toLevelBook price side.toSide < Qty_INVALID)) :=
  ⟨fun _ _ ran price side => snapshot_iff_found ran price side, snapshot_iff_quoted⟩

/-- Two bids at 105, of which the second is read, and one behind them. -/
def threeBids : List MEMarketUpdate :=
  [⟨.ADD, 1, 0, .BUY, 105, 5, 1⟩, ⟨.ADD, 2, 0, .BUY, 105, 3, 2⟩, ⟨.ADD, 3, 0, .BUY, 100, 7, 3⟩]

/-- These bids, an ask that crosses them, and a CLEAR that is for no side. -/
def clearedBids : List MEMarketUpdate :=
  threeBids ++ [⟨.ADD, 4, 0, .SELL, 104, 2, 4⟩, ⟨.CLEAR, 0, 0, .INVALID, 0, 0, 0⟩]

/-- The book after the CLEAR. -/
theorem snapshotQueueAhead_iff_cleared : ∃ s out,
    run MarketOrderBook.onMarketUpdate (MarketOrderBook.new 0) clearedBids = .ok (s, out) ∧
      (∀ (price : Price) (side : Side),
        FillSimulator.snapshotQueueAhead s.bbo price side = restingAt s.toLevelBook price side ↔
          FoundAt 0 clearedBids side price (restingAt s.toLevelBook price side) ∨
            (∀ qty, ¬ FoundAt 0 clearedBids side price qty) ∧
              restingAt s.toLevelBook price side = 0) ∧
      ∀ (price : Price) (side : BookSide),
        FillSimulator.snapshotQueueAhead s.bbo price side.toSide =
            restingAt s.toLevelBook price side.toSide ↔
          (restingAt s.toLevelBook price side.toSide = 0 ∧ ¬ Outlived clearedBids side price) ∨
            (ReadSince clearedBids side ∧
              Foremost (runTotal Market.step Market.new clearedBids).1.quotes side price ∧
                restingAt s.toLevelBook price side.toSide < Qty_INVALID) := by
  obtain ⟨s, out, ran, byFeed⟩ := (snapshotQueueAhead_iff 0 clearedBids).2 (by decide)
  exact ⟨s, out, ran, (snapshotQueueAhead_iff 0 clearedBids).1 s out ran, byFeed⟩

/-- Behind the best price 7 are resting, and the snapshot says that none are. -/
theorem not_counted_behind :
    ∃ s out, run MarketOrderBook.onMarketUpdate (MarketOrderBook.new 0) threeBids = .ok (s, out) ∧
      FillSimulator.snapshotQueueAhead s.bbo 100 .BUY = 0 ∧
        restingAt s.toLevelBook 100 .BUY = 7 := by
  have feed : Along (Quoted 0) Market.step Market.new threeBids := by decide
  obtain ⟨s, ran, follows⟩ := (Follows.new 0).run
    (feed.imp fun quoted => ⟨quoted.wellFormed, quoted.separate⟩)
  refine ⟨s, _, ran, ?_, ?_⟩
  · rw [follows.bbo]
    decide
  · exact (restingAt_eq follows.holds .bid 100).trans (by decide)

end QueueSnapshot

end NanoTrade
