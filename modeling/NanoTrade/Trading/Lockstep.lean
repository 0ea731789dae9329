import NanoTrade.Exchange.Feed
import NanoTrade.Trading.Separation

/-!
# The client's book and the book of the matching engine

A feed that announces every update is uncrossed and clears nothing, so the client's book
follows it (`Feed.follows`). With the feed of a matching engine both books have the same
levels and queues after every request (`run_lockstep`).
-/

namespace NanoTrade

variable {basePrice : Price} {us : List MEMarketUpdate}

theorem market_replay (us : List MEMarketUpdate) :
    (runTotal Market.step Market.new us).1.quotes = Quotes.replay us := by
  induction us using List.reverseRecOn with
  | nil => rfl
  | append_singleton us u ih =>
      rw [runTotal_concat, Market.step_quotes, ih, Quotes.replay_concat]

/-- An announced update is well-formed. -/
theorem Quotes.Announced.wellFormed {quotes : Quotes} {u : MEMarketUpdate}
    (announced : quotes.Announced basePrice u) : quotes.WellFormed basePrice u := by
  constructor
  · intro isAdd
    obtain ⟨side, adds⟩ := announced.add isAdd
    cases side with
    | bid => exact .inl adds
    | ask => exact .inr adds
  · intro changes
    obtain ⟨side, -, q, mem, named, -⟩ := announced.carries changes
    exact ⟨q, (mem_both _).mpr ⟨side, mem⟩, named⟩

namespace Quotes.Feed

theorem uncrossed (feed : Quotes.Feed basePrice us) :
    Along (NanoTrade.Uncrossed basePrice) Market.step Market.new us := by
  induction us using List.reverseRecOn with
  | nil => trivial
  | append_singleton us u ih =>
      have announced := feed us u (List.prefix_refl _)
      rw [← market_replay] at announced
      exact along_append.mpr ⟨ih (feed.of_prefix (List.prefix_append _ _)),
        ⟨announced.wellFormed, announced.uncrossed⟩, trivial⟩

theorem clearsEmpty (feed : Quotes.Feed basePrice us) :
    Along ClearsEmpty Market.step Market.new us := by
  induction us using List.reverseRecOn with
  | nil => trivial
  | append_singleton us u ih =>
      have announced := feed us u (List.prefix_refl _)
      refine along_append.mpr ⟨ih (feed.of_prefix (List.prefix_append _ _)), ?_, trivial⟩
      intro isClear
      rcases announced.kind with type | type | type | type <;> simp [isClear] at type

/-- The client's book follows an announced feed. -/
theorem follows (feed : Quotes.Feed basePrice us) :
    ∃ t notices, run MarketOrderBook.onMarketUpdate (MarketOrderBook.new basePrice) us =
        .ok (t, notices) ∧
      Follows basePrice t (runTotal Market.step Market.new us).1 := by
  obtain ⟨t, ran, follows⟩ :=
    (Follows.new basePrice).run_uncrossed feed.uncrossed feed.clearsEmpty rfl
  exact ⟨t, _, ran, follows⟩

theorem keepsSides (feed : Quotes.Feed basePrice us) : KeepsSides basePrice us := by
  intro p prefixed
  obtain ⟨t, notices, ran, follows⟩ := (feed.of_prefix prefixed).follows
  exact ⟨t, notices, ran, follows.holds.sidesApart⟩

end Quotes.Feed

/-- Queues of the matching engine as the market sees them. -/
def marketQueues (queues : List (Price × List (MEOrderKey × Side × Price × Qty × Priority))) :
    List (Price × List (OrderId × Side × Price × Qty × Priority)) :=
  queues.map fun level => (level.1, level.2.map fun order => (order.1.marketOrderId, order.2))

theorem groups_quoteOf (orders : BookSide → List MEResting) (side : BookSide) :
    groups ((Quotes.ofOrders orders side).map fun q => (q.price, q.content side)) =
      marketQueues (groups ((orders side).map fun o => (o.price, o.content side))) := by
  have read : ((Quotes.ofOrders orders side).map fun q => (q.price, q.content side)) =
      ((orders side).map fun o => (o.price, o.content side)).map
        fun x => (x.1, (x.2.1.marketOrderId, x.2.2)) := by
    rw [Quotes.ofOrders, List.map_map, List.map_map]
    rfl
  rw [read, groups_map fun _ (order : MEOrderKey × Side × Price × Qty × Priority) =>
    (order.1.marketOrderId, order.2)]
  rfl

/-- **Both books stay in lockstep** over every well-behaved run: after each request they
have the same levels and queues, and no update on the way stops the client's book or puts
orders of both sides on one level. -/
theorem run_lockstep (basePrice : Price) (rs : List MEClientRequest)
    (wellBehaved : Along (WellBehaved basePrice .unbounded) (RefBook.step .unbounded)
      RefBook.new rs)
    (few : RefBook.news rs < ME_MAX_ORDER_IDS) (p : List MEClientRequest) (prefixed : p <+: rs) :
    ∃ s out t notices,
      run MEOrderBook.processClientRequest (MEOrderBook.new basePrice) p = .ok (s, out) ∧
      run MarketOrderBook.onMarketUpdate (MarketOrderBook.new basePrice) (updates out) =
        .ok (t, notices) ∧
      (∀ side : BookSide, t.sideQueues side.toSide = marketQueues (s.sideQueues side.toSide)) ∧
      KeepsSides basePrice (updates out) := by
  have small : ME_MAX_ORDER_IDS < 2 ^ 32 := by decide
  have fewer : RefBook.news p ≤ RefBook.news rs := prefixed.sublist.countP_le
  have before := along_prefixed prefixed wellBehaved
  obtain ⟨s, ran, -⟩ := Refines.run_unbounded before (by lia)
  obtain ⟨ref, refines, trace⟩ := Trace.of_run (wellBehaved_sided before) ran
  obtain ⟨feed, shown⟩ := trace.feed (by lia)
  obtain ⟨t, notices, ran', follows⟩ := feed.follows
  refine ⟨s, _, t, notices, ran, ran', fun side => ?_, feed.keepsSides⟩
  have quotes := follows.holds.sideQueues_eq side
  rw [market_replay, shown] at quotes
  rw [quotes, refines.sim.sideQueues_eq side]
  exact groups_quoteOf ref.orders side

/-- An order that sweeps one level and half of another, and rests. -/
theorem run_lockstep_sweep :
    ∃ s out t notices,
      run MEOrderBook.processClientRequest (MEOrderBook.new 100)
        [⟨.NEW, 1, 0, 1, .SELL, 105, 4⟩, ⟨.NEW, 1, 0, 2, .SELL, 106, 4⟩,
          ⟨.NEW, 2, 0, 1, .BUY, 105, 6⟩, ⟨.NEW, 3, 0, 1, .SELL, 105, 1⟩] = .ok (s, out) ∧
      run MarketOrderBook.onMarketUpdate (MarketOrderBook.new 100) (updates out) =
        .ok (t, notices) ∧
      (∀ side : BookSide, t.sideQueues side.toSide = marketQueues (s.sideQueues side.toSide)) ∧
      KeepsSides 100 (updates out) :=
  run_lockstep 100 _ (by decide) (by decide) _ (List.prefix_refl _)

end NanoTrade
