import NanoTrade.Exchange.Events
import NanoTrade.Trading.Market

/-!
# The market feed of a matching engine

What the updates of a history say is what is in the book (`Trace.feed`), between any two
events, and every one of them is `Announced`: an ADD has a new and higher id, fits the
window and the tables and crosses nothing, and a MODIFY or a CANCEL carries the side and
the price of a live order.
-/

namespace NanoTrade

/-- A resting order as the market sees it. -/
def quoteOf (o : MEResting) : Quote :=
  { key := o.key.marketOrderId, price := o.price, qty := o.qty, priority := o.priority }

namespace Quotes

/-- The orders of a book as the market sees them. -/
def ofOrders (orders : BookSide → List MEResting) : Quotes :=
  fun side => (orders side).map quoteOf

/-- What the updates say. -/
def replay (us : List MEMarketUpdate) : Quotes :=
  us.foldl apply fun _ => []

theorem replay_append (us vs : List MEMarketUpdate) :
    replay (us ++ vs) = vs.foldl apply (replay us) :=
  List.foldl_append

theorem replay_concat (us : List MEMarketUpdate) (u : MEMarketUpdate) :
    replay (us ++ [u]) = (replay us).apply u :=
  replay_append us [u]

/-- An update that a matching engine sends when the market shows `quotes`. -/
structure Announced (basePrice : Price) (quotes : Quotes) (u : MEMarketUpdate) : Prop where
  kind : u.type = .ADD ∨ u.type = .MODIFY ∨ u.type = .CANCEL ∨ u.type = .TRADE
  add : u.type = .ADD → ∃ side, quotes.Adds basePrice side u
  later : u.type = .ADD → ∀ q ∈ both quotes, q.key < u.orderId
  uncrossed : quotes.Uncrossed u
  carries : u.type = .MODIFY ∨ u.type = .CANCEL → ∃ side, u.side = BookSide.toSide side ∧
    ∃ q ∈ quotes side, q.key = u.orderId ∧ q.price = u.price

/-- Every update is announced where it comes. -/
def Feed (basePrice : Price) (us : List MEMarketUpdate) : Prop :=
  ∀ w u, w ++ [u] <+: us → (replay w).Announced basePrice u

theorem Feed.nil (basePrice : Price) : Feed basePrice [] := by
  intro w u prefixed
  simp at prefixed

theorem Feed.concat {basePrice : Price} {us : List MEMarketUpdate} {u : MEMarketUpdate}
    (feed : Feed basePrice us) (announced : (replay us).Announced basePrice u) :
    Feed basePrice (us ++ [u]) := by
  intro w v prefixed
  rcases List.prefix_concat_iff.mp prefixed with same | shorter
  · obtain ⟨rfl, last⟩ := List.append_inj' same rfl
    cases last
    exact announced
  · exact feed w v shorter

theorem Feed.of_prefix {basePrice : Price} {us vs : List MEMarketUpdate} (feed : Feed basePrice vs)
    (prefixed : us <+: vs) : Feed basePrice us :=
  fun w u shorter => feed w u (shorter.trans prefixed)

/-- One more update of a feed. -/
theorem Feed.one {basePrice : Price} {us : List MEMarketUpdate} {u : MEMarketUpdate}
    {quotes quotes' : Quotes} (feed : Feed basePrice us) (shown : replay us = quotes)
    (announced : quotes.Announced basePrice u) (applied : quotes.apply u = quotes') :
    Feed basePrice (us ++ [u]) ∧ replay (us ++ [u]) = quotes' := by
  rw [← shown] at announced applied
  exact ⟨feed.concat announced, (replay_concat us u).trans applied⟩

variable {orders : BookSide → List MEResting} {side : BookSide} {xs ys : List MEResting}
  {o : MEResting} {basePrice : Price} {u : MEMarketUpdate}

theorem ofOrders_update : ofOrders (Function.update orders side xs) =
    Function.update (ofOrders orders) side (xs.map quoteOf) := by
  funext side'
  rcases eq_or_ne side' side with rfl | ne
  · rw [ofOrders, Function.update_self, Function.update_self]
  · rw [ofOrders, Function.update_of_ne ne, Function.update_of_ne ne, ofOrders]

theorem both_ofOrders (orders : BookSide → List MEResting) :
    both (ofOrders orders) = (both orders).map quoteOf :=
  (map_both _ quoteOf).symm

theorem map_quoteOf_orderedInsert (side : BookSide) (o : MEResting) (xs : List MEResting) :
    (xs.orderedInsert (Resting.Ahead side) o).map quoteOf =
      (xs.map quoteOf).orderedInsert (Resting.Ahead side) (quoteOf o) :=
  List.map_orderedInsert _ _ quoteOf xs o (fun _ _ => Iff.rfl) fun _ _ => Iff.rfl

theorem distinct_ofOrders {next : OrderId} (numbered : RefBook.Numbered orders next) :
    (ofOrders orders).Distinct := by
  rw [Distinct, both_ofOrders, List.map_map]
  exact numbered.distinct

theorem ofOrders_split (shape : orders side = xs ++ o :: ys) :
    ofOrders orders side = xs.map quoteOf ++ quoteOf o :: ys.map quoteOf := by
  rw [ofOrders, shape, List.map_append, List.map_cons]

/-! ## Single updates -/

/-- A TRADE changes nothing. -/
theorem announced_trade {quotes : Quotes} (isTrade : u.type = .TRADE) :
    quotes.Announced basePrice u ∧ quotes.apply u = quotes := by
  refine ⟨⟨.inr (.inr (.inr isTrade)), ?_, ?_, ?_, ?_⟩, ?_⟩
  · intro isAdd
    simp [isTrade] at isAdd
  · intro isAdd
    simp [isTrade] at isAdd
  · intro isAdd
    simp [isTrade] at isAdd
  · intro changes
    simp [isTrade] at changes
  · simp only [apply, isTrade]

/-- The updates of a fill: a TRADE, and what is left of the resting order. -/
theorem Feed.fill {us : List MEMarketUpdate} {trade : MEMarketUpdate} {quotes quotes' : Quotes}
    (feed : Feed basePrice us) (shown : replay us = quotes) (isTrade : trade.type = .TRADE)
    (announced : quotes.Announced basePrice u) (applied : quotes.apply u = quotes') :
    Feed basePrice (us ++ [trade, u]) ∧ replay (us ++ [trade, u]) = quotes' := by
  obtain ⟨tradeAnnounced, kept⟩ := announced_trade isTrade
  obtain ⟨longer, shown'⟩ := feed.one shown tradeAnnounced kept
  have whole := longer.one shown' announced applied
  rw [List.append_assoc] at whole
  exact whole

/-- An update that carries the side and the price of a resting order. -/
theorem announced_resting (changes : u.type = .MODIFY ∨ u.type = .CANCEL)
    (shape : orders side = xs ++ o :: ys) (sided : u.side = side.toSide)
    (named : o.key.marketOrderId = u.orderId) (price : o.price = u.price) :
    (ofOrders orders).Announced basePrice u := by
  have notAdd : u.type ≠ .ADD := by
    rcases changes with type | type <;> simp [type]
  refine ⟨?_, fun isAdd => (notAdd isAdd).elim, fun isAdd => (notAdd isAdd).elim,
    fun isAdd => (notAdd isAdd).elim, fun _ => ⟨side, sided, quoteOf o, ?_, named, price⟩⟩
  · rcases changes with type | type <;> simp [type]
  · rw [ofOrders_split shape]
    exact List.mem_append_right _ List.mem_cons_self

/-- The CANCEL of a resting order. -/
theorem apply_taken {next : OrderId} (numbered : RefBook.Numbered orders next)
    (isCancel : u.type = .CANCEL) (shape : orders side = xs ++ o :: ys)
    (named : o.key.marketOrderId = u.orderId) :
    (ofOrders orders).apply u = ofOrders (Function.update orders side (xs ++ ys)) := by
  rw [apply_cancel (distinct_ofOrders numbered) isCancel (ofOrders_split shape) named,
    ofOrders_update, List.map_append]

/-- The MODIFY of a resting order. -/
theorem apply_requantified {next : OrderId} (numbered : RefBook.Numbered orders next)
    (isModify : u.type = .MODIFY) (shape : orders side = xs ++ o :: ys)
    (named : o.key.marketOrderId = u.orderId) :
    (ofOrders orders).apply u =
      ofOrders (Function.update orders side (xs ++ { o with qty := u.qty } :: ys)) := by
  rw [apply_modify (distinct_ofOrders numbered) isModify (ofOrders_split shape) named,
    ofOrders_update, List.map_append, List.map_cons]
  rfl

/-- The ADD of what remains of an order. -/
theorem announced_remainder
    (numbered : RefBook.Numbered orders o.key.marketOrderId) (isAdd : u.type = .ADD)
    (sided : u.side = side.toSide) (same : Quote.of u = quoteOf o)
    (inside : InWindow basePrice o.price) (small : o.key.marketOrderId < ME_MAX_ORDER_IDS)
    (room : (both orders).length + 1 < ME_MAX_ORDER_IDS)
    (stops : ∀ x ∈ orders side.opposite, ¬ side.Crosses o.price x.price) :
    (ofOrders orders).Announced basePrice u := by
  have id : u.orderId = o.key.marketOrderId := congrArg Resting.key same
  have price : u.price = o.price := congrArg Resting.price same
  have later : ∀ q ∈ both (ofOrders orders), q.key < u.orderId := by
    intro q mem
    rw [both_ofOrders] at mem
    obtain ⟨x, xMem, rfl⟩ := List.mem_map.mp mem
    obtain ⟨side', xMem⟩ := (mem_both _).mp xMem
    rw [id]
    exact (numbered.below side' x xMem).1
  refine ⟨.inl isAdd, fun _ => ⟨side, sided, ?_, ?_, ?_, ?_⟩, fun _ => later, ?_, ?_⟩
  · rw [price]
    exact inside
  · rw [id]
    exact small
  · intro q mem
    exact Nat.ne_of_lt (later q mem)
  · rw [both_ofOrders, List.length_map]
    exact room
  · intro _ side' sided' q mem
    have sides : side' = side := BookSide.toSide_inj.mp (sided'.symm.trans sided)
    subst sides
    obtain ⟨x, xMem, rfl⟩ := List.mem_map.mp mem
    rw [price]
    exact stops x xMem
  · intro changes
    simp [isAdd] at changes

theorem apply_remainder (isAdd : u.type = .ADD) (sided : u.side = side.toSide)
    (same : Quote.of u = quoteOf o) :
    (ofOrders orders).apply u =
      ofOrders (Function.update orders side
        ((orders side).orderedInsert (Resting.Ahead side) o)) := by
  rw [apply_add isAdd sided, same, ofOrders_update, map_quoteOf_orderedInsert]
  rfl

end Quotes

/-! ## Whole histories -/

/-- The feed says what is in the book, between any two events. -/
theorem Trace.feed {basePrice : Price} {rs : List MEClientRequest} {out : List MEMessage}
    {s : MatchState} (trace : Trace basePrice rs out s) (few : RefBook.news rs < ME_MAX_ORDER_IDS) :
    Quotes.Feed basePrice (updates out) ∧
      Quotes.replay (updates out) = Quotes.ofOrders s.orders := by
  have small : ME_MAX_ORDER_IDS < 2 ^ 32 := by decide
  refine trace.invariant (P := fun rs out s => RefBook.news rs < ME_MAX_ORDER_IDS →
    Quotes.Feed basePrice (updates out) ∧
      Quotes.replay (updates out) = Quotes.ofOrders s.orders) ?_ ?_ few
  · intro _
    exact ⟨Quotes.Feed.nil basePrice, rfl⟩
  · intro rs out s read sent t trace before event few
    have more : RefBook.news (rs ++ read) = RefBook.news rs + RefBook.news read :=
      List.countP_append
    rw [more] at few
    obtain ⟨feed, shown⟩ := before (by lia)
    have counted := trace.counted (by lia)
    have numbered := counted.numbered
    rw [updates_append]
    cases event with
    | accept isNew sided =>
        rw [MEOrderBook.acceptedResponse, updates_response, updates_nil, List.append_nil]
        exact ⟨feed, shown⟩
    | @fill orders next t o rest wants front crosses full =>
        have shape : orders t.side.opposite = [] ++ o :: rest := front
        exact feed.fill shown rfl (Quotes.announced_resting (.inr rfl) shape rfl rfl rfl)
          (Quotes.apply_taken numbered rfl shape rfl)
    | @fillPart orders next t o rest wants front crosses part =>
        have shape : orders t.side.opposite = [] ++ o :: rest := front
        exact feed.fill shown rfl (Quotes.announced_resting (.inl rfl) shape rfl rfl rfl)
          (Quotes.apply_requantified numbered rfl shape rfl)
    | @rest orders next t wants stops inside room =>
        obtain ⟨pos, last⟩ := counted.taker t rfl
        have bound := counted.next
        simp only at last bound
        exact feed.one shown
          (Quotes.announced_remainder (o := t.remainder orders) numbered rfl rfl rfl inside
            (show t.marketOrderId < ME_MAX_ORDER_IDS by lia) room stops)
          (Quotes.apply_remainder rfl rfl rfl)
    | spent done =>
        rw [updates_nil, List.append_nil]
        exact ⟨feed, shown⟩
    | reject isCancel =>
        rw [MEOrderBook.rejectedResponse, updates_response, updates_nil, List.append_nil]
        exact ⟨feed, shown⟩
    | withdraw isCancel shape own =>
        exact feed.one shown (Quotes.announced_resting (.inr rfl) shape rfl rfl rfl)
          (Quotes.apply_taken numbered rfl shape rfl)

end NanoTrade
