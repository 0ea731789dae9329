import NanoTrade.Backtest.BinanceReplay
import Mathlib.Data.Int.ModEq

/-!
# The ids of the Binance replay

Both sides draw their ids from one counter, which starts over behind `ME_MAX_ORDER_IDS - 1` of
them. An order that stays while the other side is requoted keeps its id; the counter comes back to
it at every multiple of that many draws, and at no other.

* `updates_comesRound`: that, and what a CANCEL names, at every front of the stream of any file.
* `not_otherId_moving`: one ask that stays, and a bid that moves until it gets the id of the ask.
-/

namespace NanoTrade

namespace BinanceAggTradesReplay

/-- The order that a side has behind a stream: the last one added there, unless it was
cancelled. -/
def orderOf (us : List MEMarketUpdate) (side : BookSide) : Option MEMarketUpdate :=
  us.foldl (fun order u =>
    if u.side = side.toSide then
      match u.type with
      | .ADD => some u
      | .CANCEL => none
      | _ => order
    else order) none

/-- The ids drawn from the last ADD of a side on, with that one. -/
def drawnSince (us : List MEMarketUpdate) (side : BookSide) : Nat :=
  us.foldl (fun n u => if u.type = .ADD then if u.side = side.toSide then 1 else n + 1 else n) 0

/-- An update behind the others of its stream: its id is below the bound, an ADD is to a side
without an order, and a CANCEL names the order of its side. -/
structure Names (front : List MEMarketUpdate) (u : MEMarketUpdate) : Prop where
  below : u.orderId < ME_MAX_ORDER_IDS
  add : u.type = .ADD → ∃ side : BookSide, u.side = side.toSide ∧ orderOf front side = none
  cancel : u.type = .CANCEL → ∃ (side : BookSide) (o : MEMarketUpdate),
    orderOf front side = some o ∧ o.orderId = u.orderId ∧ o.side = u.side ∧ o.price = u.price

/-- An ADD does not get the id of the order that the other side has. -/
def OtherId (front : List MEMarketUpdate) (u : MEMarketUpdate) : Prop :=
  ∀ side o, u.type = .ADD → u.side ≠ side.toSide → orderOf front side = some o →
    o.orderId ≠ u.orderId

/-- An ADD gets the id of the order that the other side has where the counter has come round. -/
def ComesRound (front : List MEMarketUpdate) (u : MEMarketUpdate) : Prop :=
  ∀ side o, u.type = .ADD → u.side ≠ side.toSide → orderOf front side = some o →
    (o.orderId = u.orderId ↔ ME_MAX_ORDER_IDS - 1 ∣ drawnSince front side)

/-- The counter and the two orders. -/
structure Drawn (s : BinanceAggTradesReplay) (us : List MEMarketUpdate) : Prop where
  next : 1 ≤ s.nextOid ∧ s.nextOid ≤ ME_MAX_ORDER_IDS - 1
  free : ∀ side, s.best side = Price_INVALID → orderOf us side = none
  order : ∀ side, s.best side ≠ Price_INVALID → ∃ o, orderOf us side = some o ∧
    o.side = side.toSide ∧ o.price = s.best side ∧ o.orderId = s.oid side
  oid : ∀ side, s.best side ≠ Price_INVALID →
    (1 ≤ s.oid side ∧ s.oid side ≤ ME_MAX_ORDER_IDS - 1) ∧
      s.nextOid ≡ s.oid side + drawnSince us side [MOD ME_MAX_ORDER_IDS - 1]

variable {tickerId : TickerId} {s : BinanceAggTradesReplay} {us : List MEMarketUpdate}
  {u : MEMarketUpdate} {side : BookSide} {price : Price}

/-! ## The counter -/

/-- `fresh_oid` counts on, around the ids. -/
theorem advance_spec {oid : OrderId} (inside : 1 ≤ oid ∧ oid ≤ ME_MAX_ORDER_IDS - 1) :
    (1 ≤ advance oid ∧ advance oid ≤ ME_MAX_ORDER_IDS - 1) ∧
      advance oid ≡ oid + 1 [MOD ME_MAX_ORDER_IDS - 1] := by
  unfold advance
  split
  · rename_i past
    have last : oid = ME_MAX_ORDER_IDS - 1 := by lia
    refine ⟨⟨Nat.le_refl 1, by decide⟩, ?_⟩
    rw [last]
    exact (Nat.modEq_iff_dvd' (by decide)).mpr (by rw [Nat.add_sub_cancel])
  · rename_i within
    exact ⟨⟨Nat.le_add_left 1 oid, Nat.le_of_not_lt within⟩, Nat.ModEq.refl _⟩

/-- Two ids that lie a number of draws apart are one exactly where the counter has come round. -/
theorem oid_eq_iff {oid next drawn : Nat} (inside : 1 ≤ oid ∧ oid ≤ ME_MAX_ORDER_IDS - 1)
    (inside' : 1 ≤ next ∧ next ≤ ME_MAX_ORDER_IDS - 1)
    (apart : next ≡ oid + drawn [MOD ME_MAX_ORDER_IDS - 1]) :
    oid = next ↔ ME_MAX_ORDER_IDS - 1 ∣ drawn := by
  constructor
  · intro same
    rw [same] at apart
    have round : next + drawn ≡ next + 0 [MOD ME_MAX_ORDER_IDS - 1] := apart.symm
    exact Nat.modEq_zero_iff_dvd.mp (Nat.ModEq.add_left_cancel' next round)
  · intro ⟨rounds, value⟩
    have same : next ≡ oid [MOD ME_MAX_ORDER_IDS - 1] := by
      rw [value, Nat.ModEq, Nat.add_mul_mod_self_left] at apart
      exact apart
    -- both lie in one round that starts at 1
    have shifted : (next - 1) + 1 ≡ (oid - 1) + 1 [MOD ME_MAX_ORDER_IDS - 1] := by
      rw [Nat.sub_add_cancel inside.1, Nat.sub_add_cancel inside'.1]
      exact same
    have equal := (Nat.ModEq.add_right_cancel' 1 shifted).eq_of_lt_of_lt
      (by lia) (by lia)
    lia

/-! ## The stream -/

theorem orderOf_concat (us : List MEMarketUpdate) (u : MEMarketUpdate) (side : BookSide) :
    orderOf (us ++ [u]) side =
      if u.side = side.toSide then
        if u.type = .ADD then some u else if u.type = .CANCEL then none else orderOf us side
      else orderOf us side := by
  unfold orderOf
  rw [List.foldl_concat]
  split
  · cases u.type <;> rfl
  · rfl

theorem drawnSince_concat (us : List MEMarketUpdate) (u : MEMarketUpdate) (side : BookSide) :
    drawnSince (us ++ [u]) side =
      if u.type = .ADD then if u.side = side.toSide then 1 else drawnSince us side + 1
      else drawnSince us side :=
  List.foldl_concat ..

/-- The order that a side has is withdrawn: a CANCEL that names it. -/
theorem Drawn.withdrawal (drawn : Drawn s us) (tickerId : TickerId) (side : BookSide) :
    Behind (fun front u => Names front u ∧ ComesRound front u) us (withdrawal tickerId s side) ∧
      orderOf (us ++ withdrawal tickerId s side) side = none ∧
      (∀ side', side' ≠ side →
        orderOf (us ++ withdrawal tickerId s side) side' = orderOf us side') ∧
      drawnSince (us ++ withdrawal tickerId s side) = drawnSince us := by
  unfold BinanceAggTradesReplay.withdrawal
  by_cases there : s.best side ≠ Price_INVALID
  · obtain ⟨o, order, onSide, price, id⟩ := drawn.order side there
    obtain ⟨⟨low, high⟩, -⟩ := drawn.oid side there
    rw [if_pos there, behind_singleton]
    refine ⟨⟨⟨?_, fun isAdd => ?_, fun _ => ⟨side, o, order, id, onSide, price⟩⟩, ?_⟩, ?_,
      fun side' other => ?_, ?_⟩
    · exact high.trans_lt (by decide)
    · cases isAdd
    · intro side' o' isAdd
      cases isAdd
    · rw [orderOf_concat]
      exact if_pos rfl
    · rw [orderOf_concat]
      exact if_neg fun same => other (BookSide.toSide_inj.mp same).symm
    · funext side'
      rw [drawnSince_concat]
      exact if_neg fun isAdd => nomatch isAdd
  · rw [if_neg there, List.append_nil]
    exact ⟨trivial, drawn.free side (not_not.mp there), fun _ _ => rfl, rfl⟩

/-- A side is requoted: its order is withdrawn and one with the next id is added. -/
theorem Drawn.requote (drawn : Drawn s us) (tickerId : TickerId) (side : BookSide)
    (valid : price ≠ Price_INVALID) {out : List MEMarketUpdate}
    (quoted : out = BinanceAggTradesReplay.withdrawal tickerId s side ++
      [quote tickerId .ADD side price s.nextOid]) :
    Drawn (s.requote side price) (us ++ out) ∧
      Behind (fun front u => Names front u ∧ ComesRound front u) us out := by
  obtain ⟨before, gone, others, count⟩ := drawn.withdrawal tickerId side
  obtain ⟨inside, next⟩ := advance_spec drawn.next
  have added : (quote tickerId .ADD side price s.nextOid).type = .ADD := rfl
  have own : (quote tickerId .ADD side price s.nextOid).side = side.toSide := rfl
  have apart : ∀ {side'}, side' ≠ side →
      (quote tickerId .ADD side price s.nextOid).side ≠ side'.toSide :=
    fun other same => other (BookSide.toSide_inj.mp same).symm
  rw [quoted, ← List.append_assoc]
  generalize BinanceAggTradesReplay.withdrawal tickerId s side = w at *
  refine ⟨⟨inside, fun side' free => ?_, fun side' held => ?_, fun side' held => ?_⟩, ?_⟩
  · rcases eq_or_ne side' side with rfl | other
    · exact absurd ((Function.update_self ..).symm.trans free) valid
    · have free : s.best side' = Price_INVALID := by
        rw [← free]
        exact (Function.update_of_ne other ..).symm
      rw [orderOf_concat, if_neg (apart other), others side' other]
      exact drawn.free side' free
  · rcases eq_or_ne side' side with rfl | other
    · have best : (s.requote side' price).best side' = price := Function.update_self ..
      have oid : (s.requote side' price).oid side' = s.nextOid := Function.update_self ..
      rw [orderOf_concat, if_pos own, if_pos added, best, oid]
      exact ⟨_, rfl, rfl, rfl, rfl⟩
    · have best : (s.requote side price).best side' = s.best side' := Function.update_of_ne other ..
      have oid : (s.requote side price).oid side' = s.oid side' := Function.update_of_ne other ..
      rw [best] at held
      obtain ⟨o, order, rest⟩ := drawn.order side' held
      rw [orderOf_concat, if_neg (apart other), others side' other, best, oid]
      exact ⟨o, order, rest⟩
  · rcases eq_or_ne side' side with rfl | other
    · have oid : (s.requote side' price).oid side' = s.nextOid := Function.update_self ..
      rw [oid, drawnSince_concat, if_pos added, if_pos own]
      exact ⟨drawn.next, next⟩
    · have best : (s.requote side price).best side' = s.best side' := Function.update_of_ne other ..
      have oid : (s.requote side price).oid side' = s.oid side' := Function.update_of_ne other ..
      rw [best] at held
      obtain ⟨bounds, round⟩ := drawn.oid side' held
      rw [oid, drawnSince_concat, if_pos added, if_neg (apart other), count]
      exact ⟨bounds, next.trans (round.add_right 1)⟩
  · rw [behind_append, behind_singleton]
    refine ⟨before, ⟨?_, fun _ => ⟨side, rfl, gone⟩, fun isCancel => ?_⟩, ?_⟩
    · exact drawn.next.2.trans_lt (by decide)
    · cases isCancel
    · intro side' o _ other order
      have ne : side' ≠ side := fun same => other (by rw [same]; rfl)
      rw [others side' ne] at order
      have held : s.best side' ≠ Price_INVALID := by
        intro free
        rw [drawn.free side' free] at order
        cases order
      obtain ⟨o', order', -, -, id⟩ := drawn.order side' held
      rw [order'] at order
      cases order
      obtain ⟨bounds, round⟩ := drawn.oid side' held
      rw [count, id]
      exact oid_eq_iff bounds drawn.next round

/-- A TRADE leaves the orders alone. -/
theorem Drawn.trade (drawn : Drawn s us) (tickerId : TickerId) (t : AggTrade) :
    Drawn s (us ++ [trade tickerId t]) ∧ Names us (trade tickerId t) ∧
      ComesRound us (trade tickerId t) := by
  have order : ∀ side, orderOf (us ++ [BinanceAggTradesReplay.trade tickerId t]) side =
      orderOf us side := by
    intro side
    rw [orderOf_concat]
    split
    · rfl
    · rfl
  have count : drawnSince (us ++ [BinanceAggTradesReplay.trade tickerId t]) = drawnSince us := by
    funext side
    exact drawnSince_concat ..
  refine ⟨⟨drawn.next, fun side => ?_, fun side => ?_, fun side => ?_⟩, ⟨?_, fun isAdd => ?_,
    fun isCancel => ?_⟩, fun side o isAdd => ?_⟩
  · rw [order]
    exact drawn.free side
  · rw [order]
    exact drawn.order side
  · rw [count]
    exact drawn.oid side
  · exact Nat.zero_lt_of_lt (show 1 < ME_MAX_ORDER_IDS by decide)
  · cases isAdd
  · cases isCancel
  · cases isAdd

/-! ## Files -/

/-- The part of the state that the ids are about. -/
structure SameOrders (s t : BinanceAggTradesReplay) : Prop where
  best : t.best = s.best
  oid : t.oid = s.oid
  nextOid : t.nextOid = s.nextOid

theorem Drawn.congr {t : BinanceAggTradesReplay} (drawn : Drawn s us) (same : SameOrders s t) :
    Drawn t us := by
  obtain ⟨next, free, order, oid⟩ := drawn
  rw [← same.best] at free order oid
  rw [← same.nextOid] at next oid
  rw [← same.oid] at order oid
  exact ⟨next, free, order, oid⟩

/-- The counter of the trades has no part in it. -/
theorem refresh_counted (tickerId : TickerId) (s : BinanceAggTradesReplay) (side : BookSide)
    (price : Price) (tradesProcessed : Nat) :
    refresh tickerId { s with tradesProcessed } side price =
      ({ (refresh tickerId s side price).1 with tradesProcessed },
        (refresh tickerId s side price).2) := by
  unfold refresh
  simp only
  split
  · rfl
  · rfl

/-- A line does nothing to the orders, or it is a trade. -/
theorem step_cases (format : AggTradeFormat) (tickerId : TickerId) (s : BinanceAggTradesReplay)
    (line : List Char) :
    ((step format tickerId s line).2 = [] ∧ SameOrders s (step format tickerId s line).1 ∧
        (line.head?.any Char.isDigit = true → (format.parse line).qty = 0)) ∨
      ((step format tickerId s line).2.map MDPMarketUpdate.meMarketUpdate =
          (refresh tickerId s (sideOf (format.parse line).isBuyerMaker)
            (format.parse line).price).2 ++ [trade tickerId (format.parse line)] ∧
        SameOrders
          (refresh tickerId s (sideOf (format.parse line).isBuyerMaker)
            (format.parse line).price).1
          (step format tickerId s line).1) := by
  unfold step
  split
  · exact .inl ⟨rfl, ⟨rfl, rfl, rfl⟩, fun digit => nomatch digit⟩
  · split
    · rename_i header
      exact .inl ⟨rfl, ⟨rfl, rfl, rfl⟩, fun digit => absurd digit header.2.2⟩
    · simp only
      split
      · rename_i nothing
        exact .inl ⟨rfl, ⟨rfl, rfl, rfl⟩, fun _ => nothing⟩
      · right
        rw [refresh_counted]
        generalize refresh tickerId s _ _ = refreshed
        simp only
        generalize pushed : push _ _ = result
        obtain ⟨numbered, best, oid, next, -⟩ := OneOrderEach.push_eq pushed
        exact ⟨numbered, best, oid, next⟩

/-- The side of a trade is requoted, or its best price is that of the trade already. -/
theorem Drawn.refresh (drawn : Drawn s us) (tickerId : TickerId) (side : BookSide)
    (valid : price ≠ Price_INVALID) :
    Drawn (refresh tickerId s side price).1 (us ++ (refresh tickerId s side price).2) ∧
      Behind (fun front u => Names front u ∧ ComesRound front u) us
        (refresh tickerId s side price).2 := by
  unfold BinanceAggTradesReplay.refresh
  split
  · exact drawn.requote tickerId side valid rfl
  · rw [List.append_nil]
    exact ⟨drawn, trivial⟩

/-- One line. -/
theorem Drawn.step (drawn : Drawn s us) (format : AggTradeFormat) (tickerId : TickerId)
    (line : List Char) :
    Drawn (step format tickerId s line).1
        (us ++ (step format tickerId s line).2.map MDPMarketUpdate.meMarketUpdate) ∧
      Behind (fun front u => Names front u ∧ ComesRound front u) us
        ((step format tickerId s line).2.map MDPMarketUpdate.meMarketUpdate) := by
  rcases step_cases format tickerId s line with ⟨silent, same, -⟩ | ⟨out, same⟩
  · rw [silent, List.map_nil, List.append_nil]
    exact ⟨drawn.congr same, trivial⟩
  · obtain ⟨refreshed, quotes⟩ := drawn.refresh tickerId
      (sideOf (format.parse line).isBuyerMaker) (format.price_ne _ : (format.parse line).price ≠ _)
    obtain ⟨traded, last⟩ := refreshed.trade tickerId (format.parse line)
    rw [out, ← List.append_assoc, behind_append, behind_singleton]
    exact ⟨traded.congr same, quotes, last⟩

theorem drawn_new : Drawn .new [] :=
  ⟨⟨Nat.le_refl 1, by decide⟩, fun _ _ => rfl, fun _ valid => absurd rfl valid,
    fun _ valid => absurd rfl valid⟩

theorem updates_concat (format : AggTradeFormat) (tickerId : TickerId) (lines : List (List Char))
    (line : List Char) :
    format.updates tickerId (lines ++ [line]) =
      format.updates tickerId lines ++ (step format tickerId
        (runTotal (step format tickerId) .new lines).1 line).2.map
          MDPMarketUpdate.meMarketUpdate := by
  rw [AggTradeFormat.updates, runTotal_concat, List.map_append]
  rfl

/-- A file. -/
theorem run_drawn (format : AggTradeFormat) (tickerId : TickerId) (lines : List (List Char)) :
    Drawn (runTotal (step format tickerId) .new lines).1 (format.updates tickerId lines) ∧
      Behind (fun front u => Names front u ∧ ComesRound front u) []
        (format.updates tickerId lines) := by
  induction lines using List.reverseRecOn with
  | nil => exact ⟨drawn_new, trivial⟩
  | append_singleton lines line ih =>
      obtain ⟨drawn, before⟩ := ih
      obtain ⟨next, now⟩ := drawn.step format tickerId line
      rw [updates_concat, runTotal_concat, behind_append, List.nil_append]
      exact ⟨next, before, now⟩

/-- **The ids of a file**: below the bound, an ADD to a side without an order, a CANCEL with the
id, side and price of the order of its side; and an ADD gets the id that the other side's order has
exactly where the ids drawn since that order are a multiple of `ME_MAX_ORDER_IDS - 1`. -/
theorem updates_comesRound (format : AggTradeFormat) (tickerId : TickerId)
    (lines : List (List Char)) :
    Behind (fun front u => Names front u ∧ ComesRound front u) []
      (format.updates tickerId lines) :=
  (run_drawn format tickerId lines).2

/-! ## A bid that moves -/

/-- A buyer lifts an ask at 9. -/
def stillAsk : List Char :=
  ['1', ',', '9', ',', '1', ',', '1', ',', '1', ',', '9', ',', 'F', 'a', 'l', 's', 'e']

/-- Sellers hit bids at 7 and at 8 by turns. -/
def movingBid (n : Nat) : List Char :=
  ['2', ',', if n % 2 = 0 then '7' else '8', ',', '1', ',', '2', ',', '2', ',', '9', ',',
    'T', 'r', 'u', 'e']

def movingFile (n : Nat) : List (List Char) :=
  stillAsk :: (List.range n).map movingBid

theorem movingFile_succ (n : Nat) : movingFile (n + 1) = movingFile n ++ [movingBid n] := by
  unfold movingFile
  rw [List.range_succ, List.map_append, List.cons_append]
  rfl

theorem parse_movingBid (n : Nat) :
    wholeNumbers.parse (movingBid n) =
      { price := if n % 2 = 0 then 700 else 800, qty := 1000000, isBuyerMaker := true } := by
  unfold movingBid
  split
  · decide +kernel
  · decide +kernel

/-- What a moving bid emits where the bid is at another price. -/
theorem step_movingBid {n : Nat}
    (moves : (if n % 2 = 0 then (700 : Price) else 800) ≠ s.best .bid) :
    ∃ bid, (step wholeNumbers 0 s (movingBid n)).2.map MDPMarketUpdate.meMarketUpdate =
        withdrawal 0 s .bid ++ [bid] ++ [trade 0 (wholeNumbers.parse (movingBid n))] ∧
      bid.type = .ADD ∧ bid.side = BookSide.bid.toSide ∧
      (step wholeNumbers 0 s (movingBid n)).1.best =
        Function.update s.best .bid (if n % 2 = 0 then 700 else 800) := by
  rcases step_cases wholeNumbers 0 s (movingBid n) with ⟨-, -, nothing⟩ | ⟨out, same⟩
  · have unparsed := nothing rfl
    rw [parse_movingBid] at unparsed
    cases unparsed
  · have price : (wholeNumbers.parse (movingBid n)).price =
        if n % 2 = 0 then 700 else 800 := by rw [parse_movingBid]
    have side : sideOf (wholeNumbers.parse (movingBid n)).isBuyerMaker = .bid := by
      rw [parse_movingBid]
      rfl
    rw [side, price, refresh, if_pos moves] at out same
    exact ⟨_, out, rfl, rfl, same.best⟩

/-- The ask stays while the bid draws an id a line. -/
theorem run_movingFile (n : Nat) :
    (runTotal (step wholeNumbers 0) .new (movingFile n)).1.best .ask = 900 ∧
      (if n % 2 = 0 then (700 : Price) else 800) ≠
        (runTotal (step wholeNumbers 0) .new (movingFile n)).1.best .bid ∧
      drawnSince (wholeNumbers.updates 0 (movingFile n)) .ask = n + 1 := by
  induction n with
  | zero => decide +kernel
  | succ n ih =>
      obtain ⟨ask, moves, count⟩ := ih
      have drawn := (run_drawn wholeNumbers 0 (movingFile n)).1
      obtain ⟨bid, out, isAdd, onBid, best⟩ := step_movingBid moves
      have others : bid.side ≠ BookSide.ask.toSide := by
        rw [onBid]
        decide
      rw [movingFile_succ, updates_concat, out, runTotal_concat, best, ← List.append_assoc,
        ← List.append_assoc, drawnSince_concat, drawnSince_concat, if_pos isAdd, if_neg others,
        (drawn.withdrawal 0 .bid).2.2.2, count, Function.update_self,
        Function.update_of_ne (by decide)]
      refine ⟨ask, ?_, ?_⟩
      · lia
      · rfl

/-- Where the counter has come round, the next bid gets the id of the ask. -/
theorem not_otherId_of_dvd {n : Nat} (round : ME_MAX_ORDER_IDS - 1 ∣ n + 1) :
    ¬ Behind (fun front u => Names front u ∧ OtherId front u) []
      (wholeNumbers.updates 0 (movingFile (n + 1))) := by
  obtain ⟨ask, moves, count⟩ := run_movingFile n
  have run := (run_drawn wholeNumbers 0 (movingFile (n + 1))).2
  have drawn := (run_drawn wholeNumbers 0 (movingFile n)).1
  obtain ⟨bid, out, isAdd, onBid, -⟩ := step_movingBid moves
  obtain ⟨-, -, others, counts⟩ := drawn.withdrawal 0 .bid
  obtain ⟨o, order, -⟩ := drawn.order .ask (by
    rw [ask]
    decide)
  rw [← others .ask (by decide)] at order
  have other : bid.side ≠ BookSide.ask.toSide := by
    rw [onBid]
    decide
  intro always
  rw [movingFile_succ, updates_concat, out, List.append_assoc, behind_append, behind_append,
    List.singleton_append, Behind] at run always
  have same := (run.2.2.1.2 .ask o isAdd other order).mpr (by
    rw [List.nil_append, counts, count]
    exact round)
  exact always.2.2.1.2 .ask o isAdd other order same

/-- The ask and a bid have one id behind `ME_MAX_ORDER_IDS - 1` bids. -/
theorem not_otherId_moving :
    ¬ Behind (fun front u => Names front u ∧ OtherId front u) []
      (wholeNumbers.updates 0 (movingFile (ME_MAX_ORDER_IDS - 1))) := by
  have size : ME_MAX_ORDER_IDS - 1 = ME_MAX_ORDER_IDS - 2 + 1 := by decide
  rw [size]
  exact not_otherId_of_dvd (by rw [← size])

end BinanceAggTradesReplay

end NanoTrade
