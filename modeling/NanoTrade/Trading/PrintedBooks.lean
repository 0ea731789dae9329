import NanoTrade.Exchange.Snapshot
import NanoTrade.LevelBook.ToString

/-!
# The books print themselves alike

Both ends log their books when they are destroyed, with a sanity check that is fatal.
`run_toString`: behind whatever requests a matching engine has processed, the check passes in each
of its books, and the client's book of the same updates has the same text.
-/

namespace NanoTrade

/-- `toString` of `MEOrderBook`. -/
protected def MEOrderBook.toString (s : MEOrderBook) (tickerId : TickerId)
    (detailed validityCheck : Bool) : Except PrintFault (List Char) :=
  s.toLevelBook.toString MEOrderKey.marketOrderId detailed validityCheck tickerId

/-- `toString` of `MarketOrderBook`. -/
protected def MarketOrderBook.toString (s : MarketOrderBook) (tickerId : TickerId)
    (detailed validityCheck : Bool) : Except PrintFault (List Char) :=
  s.toLevelBook.toString id detailed validityCheck tickerId

/-- The window of a book leaves out both ends of `Price`. -/
def InnerWindow (basePrice : Price) : Prop :=
  -2 ^ 63 < basePrice ∧ basePrice + ME_MAX_PRICE_LEVELS < 2 ^ 63

instance (basePrice : Price) : Decidable (InnerWindow basePrice) :=
  inferInstanceAs (Decidable (_ ∧ _))

theorem InnerWindow.ahead {basePrice price : Price} (inner : InnerWindow basePrice)
    (inside : InWindow basePrice price) (side : BookSide) :
    side.Ahead (LevelBook.endPrice side) price := by
  obtain ⟨low, high⟩ := inner
  simp only [InWindow, priceInWindow, Bool.and_eq_true, decide_eq_true_eq] at inside
  cases side with
  | bid =>
      show price < 2 ^ 63 - 1
      lia
  | ask =>
      show -2 ^ 63 < price
      lia

/-- A book of a window prints itself. -/
theorem LevelBook.Lists.toString_eq {κ σ : Type} {L : BookLayout κ σ} {basePrice : Price}
    {stale : Price → Prop} {exact : Prop} {s : LevelBook κ σ}
    {orders : BookSide → List (Resting κ)}
    (lists : Lists L (InWindow basePrice) basePrice stale exact s orders)
    (inner : InnerWindow basePrice) (orderId : κ → OrderId) (detailed validityCheck : Bool)
    (tickerId : TickerId) :
    s.toString orderId detailed validityCheck tickerId =
      .ok (bookText detailed tickerId (s.shown orderId .SELL) (s.shown orderId .BUY)) := by
  obtain ⟨-, book, rep, -⟩ := lists
  refine rep.toString_eq (fun side l mem => ?_) tickerId
  exact inner.ahead (rep.placed.levels.window l.toLevelNode (Placed.node_mem mem)) side

/-- The books of one side of the market show the same levels. -/
theorem shown_eq_of_marketQueues {s : MEOrderBook} {t : MarketOrderBook}
    (same : ∀ side : BookSide, t.sideQueues side.toSide =
      marketQueues (s.sideQueues side.toSide)) (side : BookSide) :
    t.shown id side.toSide = s.shown MEOrderKey.marketOrderId side.toSide := by
  rw [LevelBook.shown, LevelBook.shown, same, marketQueues, List.map_map]
  refine List.map_congr_left fun level _ => ?_
  rw [Function.comp_apply, List.map_map]
  rfl

/-- **Both ends print the same books**, after any new orders for BUY or SELL. -/
theorem run_toString {tickerBasePrices : TickerId → Price} {rs : List MEClientRequest}
    {s : MatchingEngine} {out : List MEMessage} (sided : ∀ r ∈ rs, Sided r)
    (ran : run MatchingEngine.processClientRequest (MatchingEngine.new tickerBasePrices) rs =
      .ok (s, out))
    (ticker : TickerId) (inner : InnerWindow (tickerBasePrices ticker))
    (detailed validityCheck : Bool) :
    ∃ text, text = bookText detailed ticker
        ((s.tickerOrderBook ticker).shown MEOrderKey.marketOrderId .SELL)
        ((s.tickerOrderBook ticker).shown MEOrderKey.marketOrderId .BUY) ∧
      (s.tickerOrderBook ticker).toString ticker detailed validityCheck = .ok text ∧
      (RefBook.news (MatchingEngine.ofTicker ticker rs) < ME_MAX_ORDER_IDS →
        ∃ t notices, run MarketOrderBook.onMarketUpdate
            (MarketOrderBook.new (tickerBasePrices ticker))
            (Books.ofTicker ticker (updates out)) = .ok (t, notices) ∧
          t.toString ticker detailed validityCheck = .ok text) := by
  obtain ⟨ref, own, history⟩ := (MatchingEngine.run_tickers sided ran).2 ticker
  have printed := history.refines.sim.toString_eq inner MEOrderKey.marketOrderId detailed
    validityCheck ticker
  refine ⟨_, rfl, ?_, fun few => ?_⟩
  · rw [MEOrderBook.toString]
    exact printed
  obtain ⟨feed, shown⟩ := history.feed few
  obtain ⟨t, notices, ranT, follows⟩ := feed.follows
  refine ⟨t, notices, ranT, ?_⟩
  have same : ∀ side : BookSide, t.sideQueues side.toSide =
      marketQueues ((s.tickerOrderBook ticker).sideQueues side.toSide) := by
    intro side
    have quotes := follows.holds.sideQueues_eq side
    rw [market_replay, ← Books.replay_apply, shown] at quotes
    rw [quotes, history.refines.sim.sideQueues_eq side]
    exact groups_quoteOf ref.orders side
  have printedT := follows.holds.toString_eq inner id detailed validityCheck ticker
  have asks := shown_eq_of_marketQueues same .ask
  have bids := shown_eq_of_marketQueues same .bid
  simp only [BookSide.toSide] at asks bids
  rw [MarketOrderBook.toString, printedT, asks, bids]

/-- Two asks, one of them half executed, and a bid. -/
theorem run_toString_halved :
    ∃ s out text t notices,
      run MatchingEngine.processClientRequest (MatchingEngine.new fun _ => 100)
        [⟨.NEW, 1, 0, 1, .SELL, 106, 4⟩, ⟨.NEW, 1, 0, 2, .SELL, 105, 4⟩,
          ⟨.NEW, 2, 0, 1, .BUY, 105, 2⟩, ⟨.NEW, 2, 0, 2, .BUY, 104, 3⟩] = .ok (s, out) ∧
      (s.tickerOrderBook 0).toString 0 true true = .ok text ∧
      run MarketOrderBook.onMarketUpdate (MarketOrderBook.new 100)
        (Books.ofTicker 0 (updates out)) = .ok (t, notices) ∧
      t.toString 0 true true = .ok text := by
  obtain ⟨s, out, ran, -⟩ := run_of_map MatchingEngine.processClientRequest
    (MatchingEngine.new fun _ => 100)
    [⟨.NEW, 1, 0, 1, .SELL, 106, 4⟩, ⟨.NEW, 1, 0, 2, .SELL, 105, 4⟩,
      ⟨.NEW, 2, 0, 1, .BUY, 105, 2⟩, ⟨.NEW, 2, 0, 2, .BUY, 104, 3⟩]
    (fun out => (updates out).length) 5 (by decide +kernel)
  obtain ⟨text, -, printed, both⟩ := run_toString (by decide) ran 0 (by decide) true true
  obtain ⟨t, notices, ranT, printedT⟩ := both (by decide)
  exact ⟨s, out, text, t, notices, ran, printed, ranT, printedT⟩

example : ((run MEOrderBook.processClientRequest (MEOrderBook.new 100)
    [⟨.NEW, 1, 0, 1, .SELL, 106, 4⟩, ⟨.NEW, 1, 0, 2, .SELL, 105, 4⟩,
      ⟨.NEW, 2, 0, 1, .BUY, 104, 3⟩]).toOption.bind fun result =>
      (result.1.toString 0 false true).toOption) =
    some ("Ticker:0\nASKS L:0 =>  <px:105 p:106 n:106> 105 @ 4    (1   )\n" ++
      "ASKS L:1 =>  <px:106 p:105 n:105> 106 @ 4    (1   )\n" ++
      "\n                          X\n\n" ++
      "BIDS L:0 =>  <px:104 p:104 n:104> 104 @ 3    (1   )\n").toList := by
  decide +kernel

end NanoTrade
