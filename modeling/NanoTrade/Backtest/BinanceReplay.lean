import NanoTrade.FromChars
import NanoTrade.Trading.Market

/-!
# The Binance replay

`backtest/binance_aggtrades_replay.cpp`: the lines of an aggTrades file become the updates of a
book with one order a side. A trade of an aggressive seller is taken for the best bid and one of
an aggressive buyer for the best ask; the other side stays where its last trade was.

* `run_oneLevel_iff`: after every update there is at most one order a side and the bid is below
  the ask, exactly for the files in which the last price that a seller hit is below the last
  price that a buyer lifted, behind every trade.
* `not_oneLevel_locked`: a file that ends in a bid and an ask at one price.
-/

namespace NanoTrade

/-! ## Lines -/

/-- How fields are read: `std::from_chars` into a `double`, times its scale, cast to the integer.
No `double` that fits the cast is the largest integer. -/
structure AggTradeFormat where
  scaledPrice : List Char → Price
  scaledQty : List Char → Qty
  price_ne : ∀ field, scaledPrice field ≠ Price_INVALID

/-- A line of the file, as far as it is used. -/
structure AggTrade where
  price : Price
  qty : Qty
  isBuyerMaker : Bool
  deriving DecidableEq, Repr

/-- Binance writes "True" / "False". -/
def parseBoolField (field : List Char) : Bool :=
  match field with
  | [] => false
  | c :: _ => c == 'T' || c == 't' || c == '1'

def AggTradeFormat.parse (format : AggTradeFormat) (line : List Char) : AggTrade :=
  let (_, line) := nextField line
  let (price, line) := nextField line
  let (qty, line) := nextField line
  let (_, line) := nextField line
  let (_, line) := nextField line
  let (_, line) := nextField line
  let (isMaker, _) := nextField line
  { price := format.scaledPrice price
    qty := format.scaledQty qty
    isBuyerMaker := parseBoolField isMaker }

/-! ## The replay -/

def SYNTHETIC_SIDE_QTY : Qty := 1000000

/-- `best_bid` and `best_ask`, with the ids of their orders, and the counters. -/
structure BinanceAggTradesReplay where
  best : BookSide → Price
  oid : BookSide → OrderId
  nextOid : OrderId
  seqNum : Nat
  rowsEmitted : Nat
  rowsSkipped : Nat
  tradesProcessed : Nat

namespace BinanceAggTradesReplay

def new : BinanceAggTradesReplay :=
  { best := fun _ => Price_INVALID, oid := fun _ => 0, nextOid := 1, seqNum := 1
    rowsEmitted := 0, rowsSkipped := 0, tradesProcessed := 0 }

/-- The synthetic order of a side is added or cancelled. -/
def quote (tickerId : TickerId) (type : MarketUpdateType) (side : BookSide) (price : Price)
    (oid : OrderId) : MEMarketUpdate :=
  { type, orderId := oid, tickerId, side := side.toSide, price, qty := SYNTHETIC_SIDE_QTY
    priority := oid }

/-- `next_oid` behind `fresh_oid`. -/
def advance (nextOid : OrderId) : OrderId :=
  if nextOid + 1 > ME_MAX_ORDER_IDS - 1 then 1 else nextOid + 1

/-- The CANCEL for the order that a side has. -/
def withdrawal (tickerId : TickerId) (s : BinanceAggTradesReplay) (side : BookSide) :
    List MEMarketUpdate :=
  if s.best side ≠ Price_INVALID then [quote tickerId .CANCEL side (s.best side) (s.oid side)]
  else []

/-- A side has a fresh order at this price. -/
def requote (s : BinanceAggTradesReplay) (side : BookSide) (price : Price) :
    BinanceAggTradesReplay :=
  { s with
    best := Function.update s.best side price
    oid := Function.update s.oid side s.nextOid
    nextOid := advance s.nextOid }

/-- Update the synthetic side whose best changes based on aggressor. -/
def refresh (tickerId : TickerId) (s : BinanceAggTradesReplay) (side : BookSide) (price : Price) :
    BinanceAggTradesReplay × List MEMarketUpdate :=
  if price ≠ s.best side then
    (s.requote side price,
      withdrawal tickerId s side ++ [quote tickerId .ADD side price s.nextOid])
  else (s, [])

/-- The TRADE event itself, for the side of the aggressor. -/
def trade (tickerId : TickerId) (t : AggTrade) : MEMarketUpdate :=
  { type := .TRADE, orderId := 0, tickerId, side := if t.isBuyerMaker then .SELL else .BUY
    price := t.price, qty := t.qty, priority := 0 }

/-- The side at whose best price a trade is. -/
def sideOf (isBuyerMaker : Bool) : BookSide :=
  if isBuyerMaker then .bid else .ask

/-- Number the updates and write them to the queues. -/
def push (s : BinanceAggTradesReplay) :
    List MEMarketUpdate → BinanceAggTradesReplay × List MDPMarketUpdate
  | [] => (s, [])
  | me :: rest =>
    let (t, out) := push { s with
      seqNum := s.seqNum + 1, rowsEmitted := s.rowsEmitted + 1 } rest
    (t, ⟨s.seqNum, me⟩ :: out)

/-- One turn of the loop of `run`. -/
def step (format : AggTradeFormat) (tickerId : TickerId) (s : BinanceAggTradesReplay)
    (line : List Char) : BinanceAggTradesReplay × List MDPMarketUpdate :=
  match line with
  | [] => (s, [])
  | first :: _ =>
    if s.rowsEmitted = 0 ∧ s.tradesProcessed = 0 ∧ ¬ first.isDigit then
      ({ s with rowsSkipped := s.rowsSkipped + 1 }, [])
    else
      let t := format.parse line
      if t.qty = 0 then ({ s with rowsSkipped := s.rowsSkipped + 1 }, [])
      else
        let s := { s with tradesProcessed := s.tradesProcessed + 1 }
        let (s, quotes) := refresh tickerId s (sideOf t.isBuyerMaker) t.price
        s.push (quotes ++ [trade tickerId t])

end BinanceAggTradesReplay

/-! ## What it describes -/

/-- The trade of a line: none where it is empty or has no quantity, or is a header. -/
def AggTradeFormat.read (format : AggTradeFormat) (begun : Bool) : List Char → Option AggTrade
  | [] => none
  | first :: line =>
    if (begun ∨ first.isDigit) ∧ (format.parse (first :: line)).qty ≠ 0 then
      some (format.parse (first :: line))
    else none

/-- The trades of a file; headers are in front of the first. -/
def AggTradeFormat.trades (format : AggTradeFormat) (lines : List (List Char)) : List AggTrade :=
  lines.foldl (fun done line => done ++ (format.read (!done.isEmpty) line).toList) []

/-- The price of the last trade at the best price of a side. -/
def lastPrice (side : BookSide) (trades : List AggTrade) : Option Price :=
  ((trades.filter fun t => BinanceAggTradesReplay.sideOf t.isBuyerMaker = side).getLast?).map
    AggTrade.price

/-- The last price that a seller hit is below the last price that a buyer lifted. -/
def Apart (trades : List AggTrade) : Prop :=
  ∀ bid ask, lastPrice .bid trades = some bid → lastPrice .ask trades = some ask → bid < ask

namespace Quotes

/-- What an update means where the ids are those of a side: a CANCEL takes the order of its id
and side. -/
def applySided (quotes : Quotes) (u : MEMarketUpdate) : Quotes :=
  match u.type, BookSide.ofSide u.side with
  | .ADD, some side =>
    Function.update quotes side ((quotes side).orderedInsert (Resting.Ahead side) (Quote.of u))
  | .CANCEL, some side =>
    Function.update quotes side ((quotes side).filter fun q => q.key ≠ u.orderId)
  | _, _ => quotes

/-- The orders behind a stream of updates. -/
def replayed (updates : List MEMarketUpdate) : Quotes :=
  updates.foldl applySided fun _ => []

/-- At most one order a side, and the bid below the ask. -/
structure OneLevel (quotes : Quotes) : Prop where
  few : ∀ side, (quotes side).length ≤ 1
  uncrossed : ∀ bid ∈ quotes .bid, ∀ ask ∈ quotes .ask, bid.price < ask.price

end Quotes

/-- The updates that the replay of a file writes to its queues. -/
def AggTradeFormat.updates (format : AggTradeFormat) (tickerId : TickerId)
    (lines : List (List Char)) : List MEMarketUpdate :=
  (runTotal (BinanceAggTradesReplay.step format tickerId) .new lines).2.map
    MDPMarketUpdate.meMarketUpdate

/-! ## The book behind the replay -/

theorem lastPrice_concat (side : BookSide) (trades : List AggTrade) (t : AggTrade) :
    lastPrice side (trades ++ [t]) =
      if BinanceAggTradesReplay.sideOf t.isBuyerMaker = side then some t.price
      else lastPrice side trades := by
  unfold lastPrice
  rw [List.filter_append]
  by_cases here : BinanceAggTradesReplay.sideOf t.isBuyerMaker = side
  · rw [if_pos here, List.filter_cons_of_pos (by simpa using here), List.filter_nil,
      List.getLast?_concat]
    rfl
  · rw [if_neg here, List.filter_cons_of_neg (by simpa using here), List.filter_nil,
      List.append_nil]

/-- The synthetic order of a side, if it has one. -/
def synthetic (oid : OrderId) (price : Option Price) : List Quote :=
  (price.map fun price => { key := oid, price, qty := SYNTHETIC_SIDE_QTY, priority := oid }).toList

/-- Each side has its order at the last price of the trades there. -/
structure OneOrderEach (s : BinanceAggTradesReplay) (quotes : Quotes) (trades : List AggTrade) :
    Prop where
  orders : ∀ side, quotes side = synthetic (s.oid side) (lastPrice side trades)
  best : ∀ side, s.best side = (lastPrice side trades).getD Price_INVALID
  valid : ∀ side price, lastPrice side trades = some price → price ≠ Price_INVALID

/-- The counters are at zero until the first trade. -/
def Begun (s : BinanceAggTradesReplay) (trades : List AggTrade) : Prop :=
  s.rowsEmitted = 0 ∧ s.tradesProcessed = 0 ↔ trades = []

namespace OneOrderEach

theorem new : OneOrderEach .new (fun _ => []) [] :=
  ⟨fun _ => rfl, fun _ => rfl, fun _ _ last => (nomatch last)⟩

variable {s : BinanceAggTradesReplay} {quotes : Quotes} {trades : List AggTrade}
  {side : BookSide} {price : Price} {tickerId : TickerId}

theorem oneLevel_iff (each : OneOrderEach s quotes trades) : quotes.OneLevel ↔ Apart trades := by
  constructor
  · intro level bid ask lastBid lastAsk
    have bidOrder := each.orders .bid
    have askOrder := each.orders .ask
    rw [lastBid] at bidOrder
    rw [lastAsk] at askOrder
    exact level.uncrossed _ (by rw [bidOrder]; exact List.mem_singleton_self _) _
      (by rw [askOrder]; exact List.mem_singleton_self _)
  · intro apart
    constructor
    · intro side
      rw [each.orders side]
      cases lastPrice side trades with
      | none => exact Nat.zero_le 1
      | some price => exact Nat.le_refl 1
    · intro bid bidMem ask askMem
      rw [each.orders] at bidMem askMem
      cases lastBid : lastPrice .bid trades with
      | none =>
          rw [lastBid] at bidMem
          cases bidMem
      | some bidPrice =>
          cases lastAsk : lastPrice .ask trades with
          | none =>
              rw [lastAsk] at askMem
              cases askMem
          | some askPrice =>
              rw [lastBid] at bidMem
              rw [lastAsk] at askMem
              rw [List.mem_singleton.mp bidMem, List.mem_singleton.mp askMem]
              exact apart bidPrice askPrice lastBid lastAsk

/-- The order of a side is withdrawn, which crosses nothing. -/
theorem withdrawal (each : OneOrderEach s quotes trades) (tickerId : TickerId) (side : BookSide) :
    (BinanceAggTradesReplay.withdrawal tickerId s side).foldl Quotes.applySided quotes =
      Function.update quotes side [] := by
  unfold BinanceAggTradesReplay.withdrawal
  by_cases there : s.best side ≠ Price_INVALID
  · have gone : (quotes side).filter (fun q => decide (q.key ≠ s.oid side)) = [] := by
      rw [each.orders side]
      cases lastPrice side trades with
      | none => rfl
      | some last => simp [synthetic]
    rw [if_pos there, List.foldl_cons, List.foldl_nil, Quotes.applySided]
    simp only [BinanceAggTradesReplay.quote, BookSide.ofSide_toSide]
    exact congrArg (Function.update quotes side) gone
  · have free : quotes side = [] := by
      rw [each.orders side]
      cases last : lastPrice side trades with
      | none => rfl
      | some price =>
          have best := each.best side
          rw [last, Option.getD_some] at best
          exact absurd (best.symm.trans (not_not.mp there)) (each.valid side price last)
    rw [if_neg there, List.foldl_nil, ← free, Function.update_eq_self]

/-- An ADD to an empty side. -/
theorem add {quotes : Quotes} (tickerId : TickerId) (free : quotes side = []) (price : Price)
    (oid : OrderId) :
    quotes.applySided (BinanceAggTradesReplay.quote tickerId .ADD side price oid) =
      Function.update quotes side (synthetic oid (some price)) := by
  unfold Quotes.applySided
  simp only [BinanceAggTradesReplay.quote, BookSide.ofSide_toSide, free]
  rfl

/-- A side without orders crosses nothing. -/
theorem oneLevel_update_nil (level : quotes.OneLevel) (side : BookSide) :
    Quotes.OneLevel (Function.update quotes side []) := by
  constructor
  · intro side'
    rcases eq_or_ne side' side with rfl | other
    · rw [Function.update_self]
      exact Nat.zero_le 1
    · rw [Function.update_of_ne other]
      exact level.few side'
  · intro bid bidMem ask askMem
    cases side with
    | bid =>
        rw [Function.update_self] at bidMem
        cases bidMem
    | ask =>
        rw [Function.update_self] at askMem
        cases askMem

/-- An order that is there is at the best price. -/
theorem best_eq (each : OneOrderEach s quotes trades) (side : BookSide)
    (valid : price ≠ Price_INVALID) :
    s.best side = price ↔ lastPrice side trades = some price := by
  rw [each.best side]
  cases last : lastPrice side trades with
  | none =>
      constructor
      · intro same
        exact (valid same.symm).elim
      · intro same
        cases same
  | some there =>
      rw [Option.getD_some, Option.some.injEq]

/-- On the way to the withdrawal there is one order a side. -/
theorem withdrawal_fronts (each : OneOrderEach s quotes trades) (level : quotes.OneLevel)
    (tickerId : TickerId) (side : BookSide) (front : List MEMarketUpdate)
    (prefixed : front <+: BinanceAggTradesReplay.withdrawal tickerId s side) :
    Quotes.OneLevel (front.foldl Quotes.applySided quotes) := by
  have all := each.withdrawal tickerId side
  unfold BinanceAggTradesReplay.withdrawal at prefixed all
  split at prefixed
  · rename_i there
    rw [if_pos there] at all
    rcases List.prefix_cons_iff.mp prefixed with rfl | ⟨rest, rfl, isNil⟩
    · exact level
    · rw [List.prefix_nil.mp isNil, all]
      exact oneLevel_update_nil level side
  · rw [List.prefix_nil.mp prefixed]
    exact level

/-- The side of a trade is refreshed: there is one order at its price, and on the way there
was at most none. -/
theorem refresh (each : OneOrderEach s quotes trades) (tickerId : TickerId) (side : BookSide)
    (valid : price ≠ Price_INVALID) {t : BinanceAggTradesReplay} {us : List MEMarketUpdate}
    (refreshed : BinanceAggTradesReplay.refresh tickerId s side price = (t, us)) :
    t.best = Function.update s.best side price ∧
      (∀ side', side' ≠ side → t.oid side' = s.oid side') ∧
      us.foldl Quotes.applySided quotes =
        Function.update quotes side (synthetic (t.oid side) (some price)) ∧
      t.tradesProcessed = s.tradesProcessed ∧
      (quotes.OneLevel → Quotes.OneLevel (us.foldl Quotes.applySided quotes) →
        ∀ front, front <+: us → Quotes.OneLevel (front.foldl Quotes.applySided quotes)) := by
  unfold BinanceAggTradesReplay.refresh at refreshed
  split at refreshed
  · cases refreshed
    have empty : Function.update quotes side [] side = [] := Function.update_self ..
    have added := add tickerId empty price s.nextOid
    have oid : (s.requote side price).oid side = s.nextOid := Function.update_self ..
    refine ⟨rfl, fun side' other => Function.update_of_ne other _ _, ?_, rfl, ?_⟩
    · rw [List.foldl_append, each.withdrawal tickerId side, List.foldl_cons, added,
        List.foldl_nil, Function.update_idem, oid]
    · intro level last
      refine forall_prefix_append.mpr ⟨each.withdrawal_fronts level tickerId side, ?_⟩
      refine forall_prefix_singleton.mpr ⟨?_, last⟩
      rw [List.append_nil, each.withdrawal tickerId side]
      exact oneLevel_update_nil level side
  · rename_i stays
    cases refreshed
    have there := (each.best_eq side valid).mp (not_not.mp stays).symm
    refine ⟨?_, fun _ _ => rfl, ?_, rfl, ?_⟩
    · rw [not_not.mp stays, Function.update_eq_self]
    · have order := each.orders side
      rw [there] at order
      rw [← order, Function.update_eq_self, List.foldl_nil]
    · intro level _ front prefixed
      rw [List.prefix_nil.mp prefixed]
      exact level

/-- Numbering the updates leaves the sides alone. -/
theorem push_eq {s t : BinanceAggTradesReplay} {us : List MEMarketUpdate}
    {out : List MDPMarketUpdate} (pushed : s.push us = (t, out)) :
    out.map MDPMarketUpdate.meMarketUpdate = us ∧ t.best = s.best ∧ t.oid = s.oid ∧
      t.nextOid = s.nextOid ∧ t.tradesProcessed = s.tradesProcessed := by
  induction us generalizing s out with
  | nil =>
      cases pushed
      exact ⟨rfl, rfl, rfl, rfl, rfl⟩
  | cons u us ih =>
      rw [BinanceAggTradesReplay.push] at pushed
      cases rest : BinanceAggTradesReplay.push
          { s with seqNum := s.seqNum + 1, rowsEmitted := s.rowsEmitted + 1 } us with
      | mk t' later =>
          rw [rest] at pushed
          cases pushed
          obtain ⟨numbered, best, oid, next, processed⟩ := ih rest
          exact ⟨congrArg (u :: ·) numbered, best, oid, next, processed⟩

/-- A TRADE leaves the orders alone. -/
theorem applySided_trade (quotes : Quotes) (tickerId : TickerId) (t : AggTrade) :
    quotes.applySided (BinanceAggTradesReplay.trade tickerId t) = quotes := rfl

/-- A trade refreshes its side and is passed on. -/
theorem process (each : OneOrderEach s quotes trades) (tickerId : TickerId) {a : AggTrade}
    (valid : a.price ≠ Price_INVALID) {r t : BinanceAggTradesReplay} {us : List MEMarketUpdate}
    {out : List MDPMarketUpdate}
    (refreshed : BinanceAggTradesReplay.refresh tickerId s
      (BinanceAggTradesReplay.sideOf a.isBuyerMaker) a.price = (r, us))
    (pushed : r.push (us ++ [BinanceAggTradesReplay.trade tickerId a]) = (t, out)) :
    OneOrderEach t ((out.map MDPMarketUpdate.meMarketUpdate).foldl Quotes.applySided quotes)
        (trades ++ [a]) ∧
      t.tradesProcessed = s.tradesProcessed ∧
      (quotes.OneLevel →
        Quotes.OneLevel ((out.map MDPMarketUpdate.meMarketUpdate).foldl Quotes.applySided quotes) →
        ∀ front, front <+: out.map MDPMarketUpdate.meMarketUpdate →
          Quotes.OneLevel (front.foldl Quotes.applySided quotes)) := by
  obtain ⟨best, oid, orders, processed, fronts⟩ := each.refresh tickerId _ valid refreshed
  obtain ⟨numbered, sameBest, sameOid, -, sameProcessed⟩ := push_eq pushed
  have passed : (us ++ [BinanceAggTradesReplay.trade tickerId a]).foldl Quotes.applySided quotes =
      us.foldl Quotes.applySided quotes := by
    rw [List.foldl_append, List.foldl_cons, applySided_trade, List.foldl_nil]
  rw [numbered, passed]
  refine ⟨⟨fun side => ?_, fun side => ?_, fun side price last => ?_⟩,
    sameProcessed.trans processed, fun level whole => ?_⟩
  · rw [orders, lastPrice_concat, sameOid]
    by_cases here : BinanceAggTradesReplay.sideOf a.isBuyerMaker = side
    · rw [if_pos here, here, Function.update_self]
    · rw [if_neg here, Function.update_of_ne (Ne.symm here), oid side (Ne.symm here),
        each.orders side]
  · rw [sameBest, best, lastPrice_concat]
    by_cases here : BinanceAggTradesReplay.sideOf a.isBuyerMaker = side
    · rw [if_pos here, here, Function.update_self, Option.getD_some]
    · rw [if_neg here, Function.update_of_ne (Ne.symm here), each.best side]
  · rw [lastPrice_concat] at last
    split at last
    · cases last
      exact valid
    · exact each.valid side price last
  · refine forall_prefix_append.mpr ⟨fronts level whole, ?_⟩
    refine forall_prefix_singleton.mpr ⟨?_, ?_⟩
    · rw [List.append_nil]
      exact whole
    · rw [passed]
      exact whole

/-- What a line does that has this trade, or none. -/
structure Turn (quotes : Quotes) (trades : List AggTrade) (t : BinanceAggTradesReplay)
    (out : List MEMarketUpdate) (more : Option AggTrade) : Prop where
  each : OneOrderEach t (out.foldl Quotes.applySided quotes) (trades ++ more.toList)
  begun : Begun t (trades ++ more.toList)
  fronts : quotes.OneLevel → Quotes.OneLevel (out.foldl Quotes.applySided quotes) →
    ∀ front, front <+: out → Quotes.OneLevel (front.foldl Quotes.applySided quotes)

/-- A line without a trade. -/
theorem skip (each : OneOrderEach s quotes trades) (begun : Begun s trades) (rowsSkipped : Nat) :
    Turn quotes trades { s with rowsSkipped } [] none := by
  refine ⟨?_, ?_, fun level _ front prefixed => ?_⟩
  · rw [Option.toList_none, List.append_nil]
    exact ⟨each.orders, each.best, each.valid⟩
  · rw [Option.toList_none, List.append_nil]
    exact begun
  · rw [List.prefix_nil.mp prefixed]
    exact level

/-- One line. -/
theorem step (each : OneOrderEach s quotes trades) (begun : Begun s trades)
    (format : AggTradeFormat) (tickerId : TickerId) (line : List Char) :
    Turn quotes trades (BinanceAggTradesReplay.step format tickerId s line).1
      ((BinanceAggTradesReplay.step format tickerId s line).2.map MDPMarketUpdate.meMarketUpdate)
      (format.read (!trades.isEmpty) line) := by
  cases line with
  | nil => exact each.skip begun s.rowsSkipped
  | cons first line =>
      unfold BinanceAggTradesReplay.step AggTradeFormat.read
      simp only
      by_cases header : s.rowsEmitted = 0 ∧ s.tradesProcessed = 0 ∧ ¬ first.isDigit
      · have unbegun : trades = [] := begun.mp ⟨header.1, header.2.1⟩
        have unread : ¬ (((!trades.isEmpty) = true ∨ first.isDigit = true) ∧
            (format.parse (first :: line)).qty ≠ 0) := by
          intro read
          rcases read.1 with there | digit
          · rw [unbegun] at there
            cases there
          · exact header.2.2 digit
        rw [if_pos header, if_neg unread]
        exact each.skip begun _
      · rw [if_neg header]
        by_cases nothing : (format.parse (first :: line)).qty = 0
        · rw [if_pos nothing, if_neg (fun read => read.2 nothing)]
          exact each.skip begun _
        · have read : ((!trades.isEmpty) = true ∨ first.isDigit = true) ∧
              (format.parse (first :: line)).qty ≠ 0 := by
            refine ⟨?_, nothing⟩
            cases trades with
            | nil =>
                right
                by_contra other
                have zero := begun.mpr rfl
                exact header ⟨zero.1, zero.2, other⟩
            | cons a trades => exact .inl rfl
          rw [if_neg nothing, if_pos read]
          generalize refreshed : BinanceAggTradesReplay.refresh tickerId
            { s with tradesProcessed := s.tradesProcessed + 1 }
            (BinanceAggTradesReplay.sideOf (format.parse (first :: line)).isBuyerMaker)
            (format.parse (first :: line)).price = r
          obtain ⟨r, us⟩ := r
          have counted : OneOrderEach { s with tradesProcessed := s.tradesProcessed + 1 } quotes
              trades := ⟨each.orders, each.best, each.valid⟩
          simp only
          generalize pushed : r.push (us ++ [BinanceAggTradesReplay.trade tickerId
            (format.parse (first :: line))]) = result
          obtain ⟨t, out⟩ := result
          obtain ⟨ordersT, processed, fronts⟩ := counted.process tickerId
            (format.price_ne _) refreshed pushed
          refine ⟨ordersT, ?_, fronts⟩
          constructor
          · intro zero
            have processed : t.tradesProcessed = s.tradesProcessed + 1 := processed
            lia
          · intro impossible
            cases trades <;> cases impossible

end OneOrderEach

/-! ## Files -/

variable (format : AggTradeFormat) (tickerId : TickerId) (lines : List (List Char))

/-- A file. The fronts of its updates describe one level exactly where the fronts of its
trades are apart. -/
theorem run_oneOrderEach :
    OneOrderEach (runTotal (BinanceAggTradesReplay.step format tickerId) .new lines).1
        (Quotes.replayed (format.updates tickerId lines)) (format.trades lines) ∧
      Begun (runTotal (BinanceAggTradesReplay.step format tickerId) .new lines).1
        (format.trades lines) ∧
      ((∀ emitted, emitted <+: format.updates tickerId lines →
          (Quotes.replayed emitted).OneLevel) ↔
        ∀ trades, trades <+: format.trades lines → Apart trades) := by
  induction lines using List.reverseRecOn with
  | nil =>
      refine ⟨OneOrderEach.new, ⟨fun _ => rfl, fun _ => ⟨rfl, rfl⟩⟩, ?_⟩
      constructor
      · intro level trades prefixed
        rw [List.prefix_nil.mp prefixed]
        exact OneOrderEach.new.oneLevel_iff.mp (level [] List.prefix_rfl)
      · intro apart emitted prefixed
        rw [List.prefix_nil.mp prefixed]
        exact OneOrderEach.new.oneLevel_iff.mpr (apart [] List.prefix_rfl)
  | append_singleton lines line ih =>
      obtain ⟨each, begun, fronts⟩ := ih
      have turn := each.step begun format tickerId line
      have updates : format.updates tickerId (lines ++ [line]) =
          format.updates tickerId lines ++ (BinanceAggTradesReplay.step format tickerId
            (runTotal (BinanceAggTradesReplay.step format tickerId) .new lines).1 line).2.map
              MDPMarketUpdate.meMarketUpdate := by
        rw [AggTradeFormat.updates, runTotal_concat, List.map_append]
        rfl
      have trades : format.trades (lines ++ [line]) = format.trades lines ++
          (format.read (!(format.trades lines).isEmpty) line).toList := by
        rw [AggTradeFormat.trades, List.foldl_append]
        rfl
      have replayed : ∀ front, Quotes.replayed (format.updates tickerId lines ++ front) =
          front.foldl Quotes.applySided (Quotes.replayed (format.updates tickerId lines)) :=
        fun front => List.foldl_append
      rw [updates, trades, runTotal_concat, replayed]
      refine ⟨turn.each, turn.begun, ?_⟩
      rw [forall_prefix_append, forall_prefix_toList, fronts]
      constructor
      · intro ⟨before, now⟩
        have last := now _ List.prefix_rfl
        rw [replayed] at last
        exact ⟨before, turn.each.oneLevel_iff.mp last⟩
      · intro ⟨before, last⟩
        refine ⟨before, fun front prefixed => ?_⟩
        rw [replayed]
        exact turn.fronts (each.oneLevel_iff.mpr (before _ List.prefix_rfl))
          (turn.each.oneLevel_iff.mpr last) front prefixed

/-- **The replay emits a book that a client can represent**, at every front of its stream, exactly
for the files in which, behind every trade, the last price that a seller hit is below the last
price that a buyer lifted. -/
theorem run_oneLevel_iff :
    (∀ emitted, emitted <+: format.updates tickerId lines → (Quotes.replayed emitted).OneLevel) ↔
      ∀ trades, trades <+: format.trades lines → Apart trades :=
  (run_oneOrderEach format tickerId lines).2.2

/-- Digits, as a number. -/
def digits (field : List Char) : Nat :=
  field.foldl (fun n c => 10 * n + (c.toNat - '0'.toNat)) 0

/-- Whole prices below the largest one, in cents, and whole quantities, in millionths. -/
def wholeNumbers : AggTradeFormat where
  scaledPrice field := if digits field < 1000000 then 100 * digits field else 0
  scaledQty field := 1000000 * digits field % 2 ^ 32
  price_ne field := by
    split
    · unfold Price_INVALID
      lia
    · decide

/-- A seller hits a bid at 7, then a buyer lifts an ask at 7. -/
def lockedFile : List (List Char) :=
  [['1', ',', '7', ',', '1', ',', '1', ',', '1', ',', '9', ',', 'T', 'r', 'u', 'e'],
    ['2', ',', '7', ',', '1', ',', '2', ',', '2', ',', '9', ',', 'F', 'a', 'l', 's', 'e']]

/-- A locked book: a bid and an ask rest at the price of the two trades. -/
theorem not_oneLevel_locked :
    ¬ ∀ (format : AggTradeFormat) (tickerId : TickerId) (lines : List (List Char)) emitted,
      emitted <+: format.updates tickerId lines → (Quotes.replayed emitted).OneLevel := by
  intro always
  have level := always wholeNumbers 0 lockedFile _ List.prefix_rfl
  have bid : (⟨1, 700, SYNTHETIC_SIDE_QTY, 1⟩ : Quote) ∈
      Quotes.replayed (wholeNumbers.updates 0 lockedFile) .bid := by decide +kernel
  have ask : (⟨2, 700, SYNTHETIC_SIDE_QTY, 2⟩ : Quote) ∈
      Quotes.replayed (wholeNumbers.updates 0 lockedFile) .ask := by decide +kernel
  exact absurd (level.uncrossed _ bid _ ask) (Int.lt_irrefl 700)

end NanoTrade
