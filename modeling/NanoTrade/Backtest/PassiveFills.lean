import NanoTrade.Backtest.FillProtocol
import NanoTrade.Backtest.QueuePosition

/-!
# The passive fills of the fill simulator

A TRADE is held against every pending order at its price and side, each with a queue of its own.

* `passive_fills_within_trade`: a TRADE fills no more than its size exactly where the orders that
  it reaches want no more.
* `not_within_trade`: two orders at one price are each filled with the whole TRADE.
* `run_keepsPlace`: an order is only filled once the queue ahead of it is gone, by what was
  traded and cancelled there since its position was taken.
-/

namespace NanoTrade

namespace FillSimulator

/-! ## One order -/

/-- A TRADE gets past the queue ahead of an order. -/
def Reaches (ev : MEMarketUpdate) (po : PendingOrder) : Prop :=
  Matches ev po ∧
    (po.queueAheadQty = 0 ∨ ev.priority ≤ po.priorityWatermark ∧ po.queueAheadQty ≤ ev.qty)

instance (ev : MEMarketUpdate) (po : PendingOrder) : Decidable (Reaches ev po) :=
  inferInstanceAs (Decidable (_ ∧ _))

/-- What an order wants of a TRADE that reaches it: what remains of it, if the TRADE has so much
behind the queue. -/
def wanted (ev : MEMarketUpdate) (po : PendingOrder) : Qty :=
  min po.leavesQty (ev.qty - po.queueAheadQty)

/-- The queue ahead of an order counts this event. -/
def Counted (ev : MEMarketUpdate) (po : PendingOrder) : Prop :=
  Matches ev po ∧ (ev.type = .TRADE ∨ ev.type = .CANCEL) ∧ ev.priority ≤ po.priorityWatermark

instance (ev : MEMarketUpdate) (po : PendingOrder) : Decidable (Counted ev po) :=
  inferInstanceAs (Decidable (_ ∧ _))

/-- What an event takes off the queue ahead of an order. -/
def takenOff (ev : MEMarketUpdate) (po : PendingOrder) : Qty :=
  if Counted ev po then min ev.qty po.queueAheadQty else 0

variable {ev : MEMarketUpdate} {po po' : PendingOrder} {id : OrderId}

/-- What a TRADE has behind the queue of an order that it reaches. -/
theorem Reaches.left (reaches : Reaches ev po) :
    (if ev.priority ≤ po.priorityWatermark then min ev.qty po.queueAheadQty else 0) =
      po.queueAheadQty := by
  rcases reaches.2 with nothingAhead | ⟨ahead, most⟩
  · rw [nothingAhead, Nat.min_zero, ite_self]
  · rw [if_pos ahead, Nat.min_eq_right most]

/-- A TRADE that does not reach an order leaves a queue ahead of it, or has nothing left. -/
theorem queue_of_not_reaches (here : Matches ev po) (missed : ¬ Reaches ev po) :
    po.queueAheadQty -
      (if ev.priority ≤ po.priorityWatermark then min ev.qty po.queueAheadQty else 0) ≠ 0 := by
  intro gone
  apply missed
  refine ⟨here, ?_⟩
  split at gone
  · rename_i ahead
    by_cases most : po.queueAheadQty ≤ ev.qty
    · exact .inr ⟨ahead, most⟩
    · rw [Nat.min_eq_left (Nat.le_of_not_le most)] at gone
      exact absurd (Nat.le_of_sub_eq_zero gone) most
  · exact .inl gone

/-- The fill of an order: a TRADE that reaches it gives what it wants. -/
theorem visitMarketEvent_fill (ev : MEMarketUpdate) (po : PendingOrder) (id : OrderId) :
    (visitMarketEvent ev po id).2 =
      if ev.type = .TRADE ∧ Reaches ev po ∧ 0 < wanted ev po then
        some (emitResponse po.req .FILLED (wanted ev po) (po.leavesQty - wanted ev po) po.req.price
          id)
      else none := by
  unfold visitMarketEvent
  by_cases here : Matches ev po
  · rw [if_pos here]
    split
    · rename_i trade
      unfold onTrade
      simp only
      generalize eq : (if ev.priority ≤ po.priorityWatermark then min ev.qty po.queueAheadQty
        else 0) = consumedAhead
      by_cases reaches : Reaches ev po
      · rw [reaches.left] at eq
        have fills : ev.qty - consumedAhead > 0 ∧ po.leavesQty > 0 ↔ 0 < wanted ev po := by
          rw [wanted, Nat.lt_min, eq, and_comm]
        by_cases wants : 0 < wanted ev po
        · rw [if_pos ⟨by rw [eq, Nat.sub_self], fills.mpr wants⟩,
            if_pos (show _ ∧ _ ∧ _ from ⟨trade, reaches, wants⟩), ← eq]
          rfl
        · rw [if_neg fun hit => wants (fills.mp hit.2),
            if_neg (show ¬ (_ ∧ _ ∧ _) from fun hit => wants hit.2.2)]
      · have behind := queue_of_not_reaches here reaches
        rw [eq] at behind
        rw [if_neg fun hit => behind hit.1,
          if_neg (show ¬ (_ ∧ _ ∧ _) from fun hit => reaches hit.2.1)]
    · rename_i cancel
      rw [if_neg]
      intro hit
      rw [hit.1] at cancel
      cases cancel
    · rename_i other _
      rw [if_neg fun hit => other hit.1]
  · rw [if_neg here, if_neg fun hit => here hit.2.1.1]

/-- What is kept of an order: its queue became shorter by what the event takes off. -/
theorem visitMarketEvent_kept (made : (visitMarketEvent ev po id).1 = some po') :
    po'.req = po.req ∧ po'.queueAware = po.queueAware ∧
      po'.priorityWatermark = po.priorityWatermark ∧
      po'.queueAheadQty + takenOff ev po = po.queueAheadQty := by
  obtain ⟨req, aware, watermark, -⟩ := QueuePosition.visitMarketEvent_spec made
  refine ⟨req, aware, watermark, ?_⟩
  have most := Nat.min_le_right ev.qty po.queueAheadQty
  unfold visitMarketEvent at made
  split at made
  · rename_i here
    split at made
    · rename_i trade
      have taken : takenOff ev po =
          if ev.priority ≤ po.priorityWatermark then min ev.qty po.queueAheadQty else 0 := by
        unfold takenOff Counted
        simp only [here, trade, true_or, true_and]
      have fits : takenOff ev po ≤ po.queueAheadQty := by
        rw [taken]
        split
        · exact most
        · exact Nat.zero_le _
      unfold onTrade at made
      rw [← taken] at made
      simp only at made
      split at made
      · split at made
        · cases made
        · cases made
          exact Nat.sub_add_cancel fits
      · cases made
        exact Nat.sub_add_cancel fits
    · rename_i cancel
      cases made
      unfold takenOff Counted onCancel
      simp only [here, cancel, true_and, reduceCtorEq, or_true]
      split
      · exact Nat.sub_add_cancel most
      · rfl
    · rename_i trade cancel
      cases made
      rw [takenOff, if_neg, Nat.add_zero]
      intro counted
      rcases counted.2.1 with type | type
      · exact trade type
      · exact cancel type
  · rename_i elsewhere
    cases made
    rw [takenOff, if_neg fun counted => elsewhere counted.1, Nat.add_zero]

/-! ## All pending orders -/

/-- A figure of the fills of a walk is the sum over the orders. -/
theorem walk_sum {visit : Visit} (figure : MEClientResponse → Nat) (share : PendingOrder → Nat)
    (each : ∀ po id, ((visit po id).2.toList.map figure).sum = share po)
    (pending : List PendingOrder) (id : OrderId) :
    ((walk visit pending id).2.map figure).sum = (pending.map share).sum := by
  induction pending generalizing id with
  | nil => rfl
  | cons po rest ih =>
      rw [walk_cons, List.map_append, List.sum_append, each, ih, List.map_cons, List.sum_cons]

/-- The sum over one TRADE, of the fills that `counts` picks. -/
theorem trade_sum (trade : ev.type = .TRADE) (pending : List PendingOrder) (id : OrderId)
    {counts : MEClientResponse → Prop} [DecidablePred counts] {among : PendingOrder → Prop}
    [DecidablePred among]
    (same : ∀ po id, Reaches ev po → (counts (emitResponse po.req .FILLED (wanted ev po)
      (po.leavesQty - wanted ev po) po.req.price id) ↔ among po)) :
    ((walk (visitMarketEvent ev) pending id).2.map fun x =>
        if counts x then x.execQty else 0).sum =
      (pending.map fun po => if Reaches ev po ∧ among po then wanted ev po else 0).sum := by
  apply walk_sum
  intro po id
  rw [visitMarketEvent_fill]
  by_cases reaches : Reaches ev po
  · by_cases wants : 0 < wanted ev po
    · rw [if_pos (show _ ∧ _ ∧ _ from ⟨trade, reaches, wants⟩), Option.toList_some,
        List.map_singleton, List.sum_singleton]
      by_cases picked : among po
      · rw [if_pos ((same po id reaches).mpr picked), if_pos ⟨reaches, picked⟩]
        rfl
      · rw [if_neg fun counted => picked ((same po id reaches).mp counted),
          if_neg fun hit => picked hit.2]
    · rw [if_neg (show ¬ (_ ∧ _ ∧ _) from fun hit => wants hit.2.2)]
      split
      · exact (Nat.eq_zero_of_not_pos wants).symm
      · rfl
  · rw [if_neg (show ¬ (_ ∧ _ ∧ _) from fun hit => reaches hit.2.1),
      if_neg fun hit => reaches hit.1]
    rfl

/-- Another event fills nothing. -/
theorem walk_fills_of_not_trade (other : ev.type ≠ .TRADE) (pending : List PendingOrder)
    (id : OrderId) : (walk (visitMarketEvent ev) pending id).2 = [] := by
  apply List.eq_nil_iff_forall_not_mem.mpr
  intro x mem
  obtain ⟨po, -, id', made⟩ := mem_walk_fills mem
  rw [visitMarketEvent_fill, if_neg fun hit => other hit.1] at made
  cases made

end FillSimulator

namespace PassiveFills

open FillSimulator

/-! ## Volumes -/

/-- The passive fills of a log. -/
def passives (log : List FillEvent) : List MEClientResponse :=
  log.filterMap fun
    | .passiveFill x => some x
    | _ => none

/-- The quantity of those of them that `counts` picks. -/
def filledQty (counts : MEClientResponse → Prop) [DecidablePred counts] (log : List FillEvent) :
    Qty :=
  (((passives log).filter fun x => counts x).map MEClientResponse.execQty).sum

/-- The events of the tape. -/
def tape (inputs : List FillInput) : List MEMarketUpdate :=
  inputs.filterMap fun
    | .marketEvent ev => some ev
    | _ => none

/-- The quantity of those of them that `counts` picks. -/
def tapeQty (counts : MEMarketUpdate → Prop) [DecidablePred counts] (inputs : List FillInput) :
    Qty :=
  (((tape inputs).filter fun ev => counts ev).map MEMarketUpdate.qty).sum

/-- A fill at a price of a side. -/
def FillAt (price : Price) (side : Side) (x : MEClientResponse) : Prop :=
  x.price = price ∧ x.side = side

/-- A fill of an order. -/
def FillOf (orderId : OrderId) (x : MEClientResponse) : Prop :=
  x.clientOrderId = orderId

/-- A TRADE at a price of a side. -/
def TradeAt (price : Price) (side : Side) (ev : MEMarketUpdate) : Prop :=
  ev.type = .TRADE ∧ ev.price = price ∧ ev.side = side

/-- A CANCEL at a price of a side, of an order in front of a watermark. -/
def CancelAhead (price : Price) (side : Side) (watermark : Priority) (ev : MEMarketUpdate) :
    Prop :=
  ev.type = .CANCEL ∧ ev.price = price ∧ ev.side = side ∧ ev.priority ≤ watermark

instance (price : Price) (side : Side) : DecidablePred (FillAt price side) :=
  fun _ => inferInstanceAs (Decidable (_ ∧ _))

instance (orderId : OrderId) : DecidablePred (FillOf orderId) :=
  fun _ => inferInstanceAs (Decidable (_ = _))

instance (price : Price) (side : Side) : DecidablePred (TradeAt price side) :=
  fun _ => inferInstanceAs (Decidable (_ ∧ _))

instance (price : Price) (side : Side) (watermark : Priority) :
    DecidablePred (CancelAhead price side watermark) :=
  fun _ => inferInstanceAs (Decidable (_ ∧ _))

/-- A TRADE suffices where the orders that it reaches want no more than it has. -/
def Suffices (ev : MEMarketUpdate) (pending : List PendingOrder) : Prop :=
  ((pending.filter fun po => Reaches ev po).map (wanted ev)).sum ≤ ev.qty

instance (ev : MEMarketUpdate) (pending : List PendingOrder) : Decidable (Suffices ev pending) :=
  inferInstanceAs (Decidable (_ ≤ _))

/-- Every TRADE of the tape suffices. -/
def Admissible (s : FillSimulator) : FillInput → Prop
  | .marketEvent ev => ev.type = .TRADE → Suffices ev s.pending
  | _ => True

instance : ∀ (s : FillSimulator) (i : FillInput), Decidable (Admissible s i)
  | _, .marketEvent _ => inferInstanceAs (Decidable (_ → _))
  | _, .request _ _ | _, .bboPass _ _ | _, .rehash _ => isTrue trivial

variable {s : FillSimulator} {ev : MEMarketUpdate} {po : PendingOrder}
  {counts : MEClientResponse → Prop} [DecidablePred counts]
  {tapeCounts : MEMarketUpdate → Prop} [DecidablePred tapeCounts]

theorem filledQty_append (log more : List FillEvent) :
    filledQty counts (log ++ more) = filledQty counts log + filledQty counts more := by
  simp only [filledQty, passives, List.filterMap_append, List.filter_append, List.map_append,
    List.sum_append]

theorem tapeQty_append (inputs more : List FillInput) :
    tapeQty tapeCounts (inputs ++ more) = tapeQty tapeCounts inputs + tapeQty tapeCounts more := by
  simp only [tapeQty, tape, List.filterMap_append, List.filter_append, List.map_append,
    List.sum_append]

theorem passives_passiveFill (fills : List MEClientResponse) :
    passives (fills.map .passiveFill) = fills := by
  rw [passives, List.filterMap_map]
  exact List.filterMap_some

/-- What an event of the tape counts for. -/
theorem tapeQty_marketEvent (ev : MEMarketUpdate) :
    tapeQty tapeCounts [.marketEvent ev] = if tapeCounts ev then ev.qty else 0 := by
  rw [tapeQty, sum_filter]
  exact Nat.add_zero _

/-- The quantity that a TRADE fills, of the fills that `counts` picks. -/
theorem filledQty_trade (trade : ev.type = .TRADE) (s : FillSimulator)
    (among : PendingOrder → Prop) [DecidablePred among]
    (same : ∀ po id, Reaches ev po → (counts (emitResponse po.req .FILLED (wanted ev po)
      (po.leavesQty - wanted ev po) po.req.price id) ↔ among po)) :
    filledQty counts (s.onSimMarketEvent ev).2 =
      (s.pending.map fun po => if Reaches ev po ∧ among po then wanted ev po else 0).sum := by
  rw [filledQty, onSimMarketEvent, passives_passiveFill, sum_filter]
  exact trade_sum trade _ _ same

/-- Only a TRADE fills passively. -/
theorem filledQty_of_not_trade (other : ev.type ≠ .TRADE) (s : FillSimulator) :
    filledQty counts (s.onSimMarketEvent ev).2 = 0 := by
  rw [filledQty, onSimMarketEvent, passives_passiveFill, walk_fills_of_not_trade other]
  rfl

/-- One TRADE fills what the orders want that it reaches. -/
theorem trade_fills (trade : ev.type = .TRADE) (s : FillSimulator) :
    filledQty (fun _ => True) (s.onSimMarketEvent ev).2 =
      ((s.pending.filter fun po => Reaches ev po).map (wanted ev)).sum := by
  rw [filledQty_trade trade s (fun _ => True) fun _ _ _ => Iff.rfl, sum_filter]
  simp only [and_true]

/-- What it fills at a price of a side is a part of that, and nothing elsewhere. -/
theorem marketEvent_filledAt (enough : ev.type = .TRADE → Suffices ev s.pending) (price : Price)
    (side : Side) :
    filledQty (FillAt price side) (s.onSimMarketEvent ev).2 ≤
      tapeQty (TradeAt price side) [.marketEvent ev] := by
  by_cases trade : ev.type = .TRADE
  · have meets : ∀ po id, Reaches ev po → (FillAt price side (emitResponse po.req .FILLED
        (wanted ev po) (po.leavesQty - wanted ev po) po.req.price id) ↔
          ev.price = price ∧ ev.side = side) := by
      intro po id reaches
      rw [← reaches.1.2.1, ← reaches.1.2.2]
      exact Iff.rfl
    rw [filledQty_trade trade s (fun _ => ev.price = price ∧ ev.side = side) meets,
      tapeQty_marketEvent]
    by_cases here : ev.price = price ∧ ev.side = side
    · rw [if_pos (show TradeAt price side ev from ⟨trade, here⟩)]
      simp only [here, and_true]
      rw [← sum_filter]
      exact enough trade
    · have unfilled : ∀ q ∈ s.pending.map fun po =>
          if Reaches ev po ∧ ev.price = price ∧ ev.side = side then wanted ev po else 0,
          q = 0 := by
        intro q mem
        obtain ⟨po, -, rfl⟩ := List.mem_map.mp mem
        exact if_neg fun hit => here hit.2
      rw [List.sum_eq_zero unfilled]
      exact Nat.zero_le _
  · rw [filledQty_of_not_trade trade]
    exact Nat.zero_le _

/-- Only market events fill passively. -/
theorem passives_step {i : FillInput} (other : ∀ ev, i ≠ .marketEvent ev) :
    passives (s.step i).2 = [] := by
  cases i with
  | request r bbo =>
      rw [FillSimulator.step, onRequest]
      split
      · rfl
      · split
        · rfl
        · rfl
      · rfl
  | marketEvent ev => exact absurd rfl (other ev)
  | bboPass cur seen =>
      rw [FillSimulator.step, onBbo, passives, List.filterMap_map]
      exact List.filterMap_eq_nil_iff.mpr fun x _ => rfl
  | rehash order => rfl

/-- One step fills at a price of a side no more than the tape reports there. -/
theorem step_filledAt {i : FillInput} (admissible : Admissible s i) (price : Price)
    (side : Side) :
    filledQty (FillAt price side) (s.step i).2 ≤ tapeQty (TradeAt price side) [i] := by
  by_cases event : ∃ ev, i = .marketEvent ev
  · obtain ⟨ev, rfl⟩ := event
    rw [FillSimulator.step]
    split
    · exact marketEvent_filledAt admissible price side
    · exact Nat.zero_le _
  · rw [filledQty, passives_step fun ev eq => event ⟨ev, eq⟩]
    exact Nat.zero_le _

/-- A run fills at a price of a side no more than the tape reports there. -/
theorem run_filledAt {inputs : List FillInput}
    (along : Along Admissible FillSimulator.step s inputs) (price : Price) (side : Side) :
    filledQty (FillAt price side) (runTotal FillSimulator.step s inputs).2 ≤
      tapeQty (TradeAt price side) inputs := by
  induction inputs generalizing s with
  | nil => exact Nat.le_refl _
  | cons i rest ih =>
      have now := step_filledAt along.1 price side
      have later := ih along.2
      rw [runTotal, filledQty_append, ← List.singleton_append, tapeQty_append]
      exact Nat.add_le_add now later

/-- **One TRADE fills no more than its size** exactly where it suffices for the orders that it
reaches; and where every TRADE does, no price of a side is filled beyond what was traded. -/
theorem passive_fills_within_trade (s : FillSimulator) {ev : MEMarketUpdate}
    (trade : ev.type = .TRADE) :
    (filledQty (fun _ => True) (s.onSimMarketEvent ev).2 ≤ ev.qty ↔ Suffices ev s.pending) ∧
    ∀ (mode : FillMode) (inputs : List FillInput),
      Along Admissible FillSimulator.step (.new mode) inputs → ∀ price side,
        filledQty (FillAt price side) (runTotal FillSimulator.step (.new mode) inputs).2 ≤
          tapeQty (TradeAt price side) inputs := by
  constructor
  · rw [trade_fills trade]
    exact Iff.rfl
  · intro mode inputs along price side
    exact run_filledAt along price side

/-- Orders that are filled one at a time. -/
theorem suffices_of_single
    (single : (s.pending.filter fun po => Reaches ev po).length ≤ 1) :
    Suffices ev s.pending := by
  rw [Suffices]
  cases reached : s.pending.filter fun po => Reaches ev po with
  | nil => exact Nat.zero_le _
  | cons po rest =>
      rw [reached, List.length_cons] at single
      have last : rest = [] := List.eq_nil_of_length_eq_zero (by omega)
      rw [last, List.map_singleton, List.sum_singleton]
      exact (Nat.min_le_right _ _).trans (Nat.sub_le _ _)

/-- Two orders to buy at 100, which are 5 behind the best price, and their positions. -/
def buys (qty : Qty) : List FillInput :=
  let buy (orderId : OrderId) : MEClientRequest :=
    { type := .NEW, clientId := 1, tickerId := 0, orderId, side := .BUY, price := 100, qty }
  let quotes (bidQty : Qty) : BBO := { bidPrice := 105, askPrice := 110, bidQty, askQty := 8 }
  [.request (buy 1) (quotes 4), .request (buy 2) (quotes 4),
    .bboPass (quotes 3) fun _ => quotes 3]

/-- A TRADE at their price. -/
def trade (qty : Qty) : MEMarketUpdate :=
  { type := .TRADE, orderId := 7, tickerId := 0, side := .BUY, price := 100, qty, priority := 0 }

/-- 10 are enough for two orders of 5. -/
theorem passive_fills_within_trade_buys :
    (filledQty (fun _ => True) ((runTotal FillSimulator.step (.new .QUEUE_AWARE)
        (buys 5)).1.onSimMarketEvent (trade 10)).2 ≤ (trade 10).qty ↔
      Suffices (trade 10) (runTotal FillSimulator.step (.new .QUEUE_AWARE) (buys 5)).1.pending) ∧
    filledQty (FillAt 100 .BUY) (runTotal FillSimulator.step (.new .QUEUE_AWARE)
        (buys 5 ++ [.marketEvent (trade 10)])).2 ≤
      tapeQty (TradeAt 100 .BUY) (buys 5 ++ [.marketEvent (trade 10)]) :=
  ⟨(passive_fills_within_trade _ rfl).1,
    (passive_fills_within_trade (.new .QUEUE_AWARE) (rfl : (trade 10).type = .TRADE)).2
      .QUEUE_AWARE _ (by decide +kernel) 100 .BUY⟩

/-- Two orders of 10 are each filled with the same 10 that were traded. -/
theorem not_within_trade :
    ¬ filledQty (fun _ => True) ((runTotal FillSimulator.step (.new .QUEUE_AWARE)
        (buys 10)).1.onSimMarketEvent (trade 10)).2 ≤ (trade 10).qty ∧
    ¬ filledQty (FillAt 100 .BUY) (runTotal FillSimulator.step (.new .QUEUE_AWARE)
        (buys 10 ++ [.marketEvent (trade 10)])).2 ≤
      tapeQty (TradeAt 100 .BUY) (buys 10 ++ [.marketEvent (trade 10)]) := by
  decide +kernel

/-! ## The queue ahead of an order -/

/-- What an input takes off the queue ahead of an order. -/
def takenBy : FillInput → PendingOrder → Qty
  | .marketEvent ev, po => takenOff ev po
  | _, _ => 0

/-- The order with this id, as it is pending. -/
def PendingAs (s : FillSimulator) (orderId : OrderId) (po : PendingOrder) : Prop :=
  po ∈ s.pending ∧ po.req.orderId = orderId

/-- The simulator behind the first `n` inputs. -/
def behind (s : FillSimulator) (inputs : List FillInput) (n : Nat) : FillSimulator :=
  (runTotal FillSimulator.step s (inputs.take n)).1

/-- A fill that waited for its queue: a TRADE at the price and side of the order, which takes
off all of the queue that was still ahead. -/
structure Waited (po : PendingOrder) (before : FillSimulator) (i : FillInput) : Prop where
  trade : ∃ ev, i = .marketEvent ev ∧ TradeAt po.req.price po.req.side ev
  cleared : ∃ q, PendingAs before po.req.orderId q ∧ q.queueAheadQty = takenBy i q

/-- An order keeps its place, from where its position was taken: its queue ahead becomes
shorter by what is taken off and by nothing else, its fills wait for the queue, and what filled it
had been traded behind the queue. -/
structure KeepsPlace (po : PendingOrder) (s : FillSimulator) (inputs : List FillInput) : Prop where
  shrinks : ∀ n i, inputs[n]? = some i → ∀ q q', PendingAs (behind s inputs n) po.req.orderId q →
    PendingAs ((behind s inputs n).step i).1 po.req.orderId q' →
      q'.queueAheadQty + takenBy i q = q.queueAheadQty
  waits : ∀ n i, inputs[n]? = some i → ∀ x, .passiveFill x ∈ ((behind s inputs n).step i).2 →
    x.clientOrderId = po.req.orderId → Waited po (behind s inputs n) i
  volume : 0 < filledQty (FillOf po.req.orderId) (runTotal FillSimulator.step s inputs).2 →
    filledQty (FillOf po.req.orderId) (runTotal FillSimulator.step s inputs).2 + po.queueAheadQty ≤
      tapeQty (TradeAt po.req.price po.req.side) inputs +
        tapeQty (CancelAhead po.req.price po.req.side po.priorityWatermark) inputs

/-- The ids of the pending orders differ, and only the mode that follows queues takes
positions. -/
structure Sane (s : FillSimulator) : Prop where
  nodup : (s.pending.map fun po => po.req.orderId).Nodup
  mode : ∀ po ∈ s.pending, po.queueAware = true → s.mode = .QUEUE_AWARE

theorem Sane.unique (sane : Sane s) {a b : PendingOrder} (aMem : a ∈ s.pending)
    (bMem : b ∈ s.pending) (same : a.req.orderId = b.req.orderId) : a = b :=
  List.inj_on_of_nodup_map sane.nodup aMem bMem same

/-- What a step makes of an order that it keeps. -/
structure Successor (s : FillSimulator) (i : FillInput) (po po' : PendingOrder) : Prop where
  req : po'.req = po.req
  aware : po'.queueAware = true → po.queueAware = true ∨ s.mode = .QUEUE_AWARE
  stays : po.queueAware = true → po'.queueAware = true ∧
    po'.priorityWatermark = po.priorityWatermark ∧
      po'.queueAheadQty + takenBy i po = po.queueAheadQty

theorem Successor.refl {i : FillInput} (untaken : po.queueAware = true → takenBy i po = 0) :
    Successor s i po po where
  req := rfl
  aware aware := .inl aware
  stays aware := by
    rw [untaken aware]
    exact ⟨aware, rfl, rfl⟩

theorem step_mode (s : FillSimulator) (i : FillInput) : (s.step i).1.mode = s.mode := by
  cases i with
  | request r bbo => exact (QueuePosition.onRequest_keeps s r bbo).1
  | marketEvent ev =>
      rw [FillSimulator.step]
      split
      · rfl
      · rfl
  | bboPass cur seen => rfl
  | rehash order =>
      rw [FillSimulator.step, rehash]
      split
      · rfl
      · rfl

/-- A pending order behind a step was pending before it, or is that of a NEW. -/
theorem Sane.successor (sane : Sane s) {i : FillInput} {po' : PendingOrder}
    (mem : po' ∈ (s.step i).1.pending) :
    (∃ po ∈ s.pending, Successor s i po po') ∨
      po'.req.orderId ∈ FillProtocol.newIds [i] ∧ po'.queueAware = false := by
  cases i with
  | request r bbo =>
      rcases QueuePosition.mem_onRequest mem with before | ⟨new, rfl, unaware⟩
      · exact .inl ⟨po', before, .refl fun _ => rfl⟩
      · exact .inr ⟨by simp [FillProtocol.newIds, new], unaware⟩
  | marketEvent ev =>
      rw [FillSimulator.step] at mem
      split at mem
      · obtain ⟨po, before, id, made⟩ := mem_walk mem
        obtain ⟨req, aware, watermark, queue⟩ := visitMarketEvent_kept made
        refine .inl ⟨po, before, req, fun isAware => .inl (aware ▸ isAware), fun isAware => ?_⟩
        exact ⟨aware ▸ isAware, watermark, queue⟩
      · rename_i mode
        refine .inl ⟨po', mem, .refl fun aware => ?_⟩
        rw [sane.mode po' mem aware] at mode
        cases mode
  | bboPass cur seen =>
      obtain ⟨po, before, id, made⟩ := mem_walk mem
      obtain ⟨req, same | ⟨mode, rests, -⟩⟩ := QueuePosition.visitBbo_spec made
      · refine .inl ⟨po, before, req, fun isAware => .inl (same.1 ▸ isAware), fun isAware => ?_⟩
        exact ⟨same.1 ▸ isAware, same.2.1, same.2.2⟩
      · refine .inl ⟨po, before, req, fun _ => .inr mode, fun isAware => ?_⟩
        rw [rests.1] at isAware
        cases isAware
  | rehash order =>
      rw [FillSimulator.step, rehash] at mem
      split at mem
      · rename_i perm
        exact .inl ⟨po', perm.mem_iff.mp mem, .refl fun _ => rfl⟩
      · exact .inl ⟨po', mem, .refl fun _ => rfl⟩

theorem Sane.step (sane : Sane s) (i : FillInput) : Sane (s.step i).1 where
  nodup := QueuePosition.step_nodup sane.nodup i
  mode po' mem aware := by
    rw [step_mode]
    rcases sane.successor mem with ⟨po, before, successor⟩ | ⟨-, unaware⟩
    · rcases successor.aware aware with earlier | mode
      · exact sane.mode po before earlier
      · exact mode
    · rw [unaware] at aware
      cases aware

theorem Sane.run (sane : Sane s) (inputs : List FillInput) :
    Sane (runTotal FillSimulator.step s inputs).1 := by
  induction inputs generalizing s with
  | nil => exact sane
  | cons i rest ih => exact ih (sane.step i)

theorem Sane.new (mode : FillMode) : Sane (.new mode) where
  nodup := List.nodup_nil
  mode po mem := by cases mem

/-- What an input fills of an order. -/
def filledBy : FillInput → PendingOrder → Qty
  | .marketEvent ev, po => if ev.type = .TRADE ∧ Reaches ev po then wanted ev po else 0
  | _, _ => 0

/-- What an input takes of the tape: behind the queue it fills, from the queue it takes off,
and the two come of different parts of a TRADE. -/
theorem filledBy_add_takenBy_le (i : FillInput) (po : PendingOrder) :
    filledBy i po + takenBy i po ≤ tapeQty (TradeAt po.req.price po.req.side) [i] +
      tapeQty (CancelAhead po.req.price po.req.side po.priorityWatermark) [i] := by
  cases i with
  | marketEvent ev =>
      rw [tapeQty_marketEvent, tapeQty_marketEvent, filledBy, takenBy]
      by_cases trade : ev.type = .TRADE ∧ Matches ev po
      · rw [if_pos (show TradeAt po.req.price po.req.side ev from
          ⟨trade.1, trade.2.2.1.symm, trade.2.2.2.symm⟩)]
        have share : takenOff ev po ≤ min ev.qty po.queueAheadQty := by
          rw [takenOff]
          split
          · exact Nat.le_refl _
          · exact Nat.zero_le _
        by_cases reaches : Reaches ev po
        · rw [if_pos ⟨trade.1, reaches⟩, wanted]
          lia
        · rw [if_neg fun hit => reaches hit.2]
          lia
      · rw [if_neg fun hit => trade ⟨hit.1, hit.2.1⟩, Nat.zero_add, takenOff]
        split
        · rename_i counted
          rcases counted.2.1 with type | cancel
          · exact absurd ⟨type, counted.1⟩ trade
          · rw [if_pos (show CancelAhead po.req.price po.req.side po.priorityWatermark ev from
              ⟨cancel, counted.1.2.1.symm, counted.1.2.2.symm, counted.2.2⟩)]
            lia
        · exact Nat.zero_le _
  | request r bbo => exact Nat.zero_le _
  | bboPass cur seen => exact Nat.zero_le _
  | rehash order => exact Nat.zero_le _

/-- An order that is filled is at the price of a TRADE that takes off all of its queue. -/
theorem filledBy_pos {i : FillInput} (filled : 0 < filledBy i po) :
    (∃ ev, i = .marketEvent ev ∧ TradeAt po.req.price po.req.side ev) ∧
      po.queueAheadQty = takenBy i po := by
  cases i with
  | marketEvent ev =>
      rw [filledBy] at filled
      split at filled
      · rename_i hit
        obtain ⟨trade, here, past⟩ := hit
        refine ⟨⟨ev, rfl, trade, here.2.1.symm, here.2.2.symm⟩, ?_⟩
        rw [takenBy, takenOff]
        rcases past with nothingAhead | ⟨ahead, most⟩
        · rw [nothingAhead, Nat.min_zero, ite_self]
        · rw [if_pos ⟨here, .inl trade, ahead⟩, Nat.min_eq_right most]
      · cases filled
  | request r bbo => cases filled
  | bboPass cur seen => cases filled
  | rehash order => cases filled

/-- A sum over the pending orders to which only one of them adds. -/
theorem sum_single {pending : List PendingOrder} {share : PendingOrder → Nat}
    (nodup : (pending.map fun po => po.req.orderId).Nodup) (mem : po ∈ pending)
    (others : ∀ q, q.req.orderId ≠ po.req.orderId → share q = 0) :
    (pending.map share).sum = share po := by
  induction pending with
  | nil => cases mem
  | cons q rest ih =>
      rw [List.map_cons, List.nodup_cons] at nodup
      rw [List.map_cons, List.sum_cons]
      rcases List.mem_cons.mp mem with rfl | later
      · rw [List.sum_eq_zero, Nat.add_zero]
        intro n among
        obtain ⟨q, qMem, rfl⟩ := List.mem_map.mp among
        apply others
        intro same
        exact nodup.1 (same ▸ List.mem_map_of_mem (f := fun po => po.req.orderId) qMem)
      · rw [ih nodup.2 later, others, Nat.zero_add]
        intro same
        exact nodup.1 (same ▸ List.mem_map_of_mem (f := fun po => po.req.orderId) later)

/-- What a step fills of an order that is pending. -/
theorem Sane.filledOf (sane : Sane s) (i : FillInput) (mem : po ∈ s.pending)
    (aware : po.queueAware = true) :
    filledQty (FillOf po.req.orderId) (s.step i).2 = filledBy i po := by
  by_cases event : ∃ ev, i = .marketEvent ev
  · obtain ⟨ev, rfl⟩ := event
    rw [FillSimulator.step, sane.mode po mem aware, filledBy]
    by_cases trade : ev.type = .TRADE
    · have meets : ∀ q id, Reaches ev q → (FillOf po.req.orderId (emitResponse q.req .FILLED
          (wanted ev q) (q.leavesQty - wanted ev q) q.req.price id) ↔
            q.req.orderId = po.req.orderId) := fun q id _ => Iff.rfl
      simp only [trade, true_and]
      rw [filledQty_trade trade s _ meets, sum_single sane.nodup mem]
      · simp only [and_true]
      · intro q other
        exact if_neg fun hit => other hit.2
    · rw [filledQty_of_not_trade trade, if_neg fun hit => trade hit.1]
  · rw [filledQty, passives_step fun ev eq => event ⟨ev, eq⟩]
    cases i with
    | marketEvent ev => exact absurd ⟨ev, rfl⟩ event
    | request r bbo => rfl
    | bboPass cur seen => rfl
    | rehash order => rfl

/-- A passive fill is that of a pending order. -/
theorem pending_of_passiveFill {i : FillInput} {x : MEClientResponse}
    (mem : .passiveFill x ∈ (s.step i).2) :
    ∃ po ∈ s.pending, x.clientOrderId = po.req.orderId ∧ 0 < filledBy i po := by
  have among : x ∈ passives (s.step i).2 := List.mem_filterMap.mpr ⟨_, mem, rfl⟩
  by_cases event : ∃ ev, i = .marketEvent ev
  · obtain ⟨ev, rfl⟩ := event
    rw [FillSimulator.step] at among
    split at among
    · rw [onSimMarketEvent, passives_passiveFill] at among
      obtain ⟨po, before, id, made⟩ := mem_walk_fills among
      rw [visitMarketEvent_fill] at made
      split at made
      · rename_i hit
        cases made
        refine ⟨po, before, rfl, ?_⟩
        rw [filledBy, if_pos ⟨hit.1, hit.2.1⟩]
        exact hit.2.2
      · cases made
    · cases among
  · rw [passives_step fun ev eq => event ⟨ev, eq⟩] at among
    cases among

/-- An order that is not pending is not filled. -/
theorem filledOf_eq_zero {orderId : OrderId} (i : FillInput)
    (gone : ∀ po, ¬ PendingAs s orderId po) : filledQty (FillOf orderId) (s.step i).2 = 0 := by
  rw [filledQty, List.filter_eq_nil_iff.mpr]
  · rfl
  · intro x mem about
    obtain ⟨e, among, eq⟩ := List.mem_filterMap.mp mem
    cases e with
    | answered r answers => cases eq
    | aggressiveFill y => cases eq
    | passiveFill y =>
        cases eq
        obtain ⟨po, before, same, -⟩ := pending_of_passiveFill among
        exact gone po ⟨before, same.symm.trans (of_decide_eq_true about)⟩

/-- Where an order is, after so much of the queue ahead of it is gone. -/
structure Placed (po : PendingOrder) (t : FillSimulator) (inputs : List FillInput)
    (log : List FillEvent) (gone : Qty) : Prop where
  volume : filledQty (FillOf po.req.orderId) log + gone ≤
    tapeQty (TradeAt po.req.price po.req.side) inputs +
      tapeQty (CancelAhead po.req.price po.req.side po.priorityWatermark) inputs
  cleared : 0 < filledQty (FillOf po.req.orderId) log → gone = po.queueAheadQty
  order : ∀ q, PendingAs t po.req.orderId q → q.req = po.req ∧ q.queueAware = true ∧
    q.priorityWatermark = po.priorityWatermark ∧ q.queueAheadQty + gone = po.queueAheadQty

variable {t : FillSimulator} {inputs : List FillInput} {log : List FillEvent} {gone : Qty}

/-- The order with this id, behind a step that does not place another. -/
theorem Sane.pendingAs (sane : Sane t) {i : FillInput} {orderId : OrderId} {q' : PendingOrder}
    (unnamed : orderId ∉ FillProtocol.newIds [i]) (after : PendingAs (t.step i).1 orderId q') :
    ∃ q, PendingAs t orderId q ∧ Successor t i q q' := by
  rcases sane.successor after.1 with ⟨q, before, successor⟩ | ⟨placed, -⟩
  · exact ⟨q, ⟨before, by rw [← successor.req]; exact after.2⟩, successor⟩
  · rw [after.2] at placed
    exact absurd placed unnamed

/-- One step takes off the queue ahead of an order, or fills it. -/
theorem Placed.step (placed : Placed po t inputs log gone) (sane : Sane t) {i : FillInput}
    (unnamed : po.req.orderId ∉ FillProtocol.newIds [i]) :
    ∃ gone, Placed po (t.step i).1 (inputs ++ [i]) (log ++ (t.step i).2) gone := by
  have volume := placed.volume
  by_cases here : ∃ q, PendingAs t po.req.orderId q
  · obtain ⟨q, pending⟩ := here
    obtain ⟨req, aware, watermark, queue⟩ := placed.order q pending
    have filled := sane.filledOf i pending.1 aware
    have taken := filledBy_add_takenBy_le i q
    rw [req] at filled
    rw [req, watermark] at taken
    refine ⟨gone + takenBy i q, ⟨?_, ?_, fun q' after => ?_⟩⟩
    · rw [filledQty_append, tapeQty_append, tapeQty_append, filled]
      lia
    · intro executed
      rw [filledQty_append, filled] at executed
      by_cases now : 0 < filledBy i q
      · rw [← (filledBy_pos now).2]
        lia
      · -- It was filled before, so nothing was left to be taken off.
        have before := placed.cleared (by lia)
        have most : takenBy i q ≤ q.queueAheadQty := by
          cases i with
          | marketEvent ev =>
              rw [takenBy, takenOff]
              split
              · exact Nat.min_le_right _ _
              · exact Nat.zero_le _
          | request r bbo => exact Nat.zero_le _
          | bboPass cur seen => exact Nat.zero_le _
          | rehash order => exact Nat.zero_le _
        lia
    · obtain ⟨old, oldPending, successor⟩ := sane.pendingAs unnamed after
      have same : old = q := sane.unique oldPending.1 pending.1
        (oldPending.2.trans pending.2.symm)
      rw [same] at successor
      obtain ⟨stays, sameWatermark, taken⟩ := successor.stays aware
      exact ⟨successor.req.trans req, stays, sameWatermark.trans watermark, by lia⟩
  · have absent : ∀ q, ¬ PendingAs t po.req.orderId q := fun q pending => here ⟨q, pending⟩
    have unfilled := filledOf_eq_zero (s := t) i absent
    refine ⟨gone, ⟨?_, ?_, fun q' after => ?_⟩⟩
    · rw [filledQty_append, tapeQty_append, tapeQty_append, unfilled]
      lia
    · rw [filledQty_append, unfilled, Nat.add_zero]
      exact placed.cleared
    · obtain ⟨q, pending, -⟩ := sane.pendingAs unnamed after
      exact absurd pending (absent q)

theorem newIds_take {inputs : List FillInput} {orderId : OrderId}
    (unnamed : orderId ∉ FillProtocol.newIds inputs) (n : Nat) :
    orderId ∉ FillProtocol.newIds (inputs.take n) := by
  intro mem
  exact unnamed ((List.take_sublist n inputs).filterMap _ |>.subset mem)

/-- The run lemma. -/
theorem Sane.placed (sane : Sane s) (mem : po ∈ s.pending) (aware : po.queueAware = true)
    (inputs : List FillInput) (unnamed : po.req.orderId ∉ FillProtocol.newIds inputs) :
    ∃ gone, Placed po (runTotal FillSimulator.step s inputs).1 inputs
      (runTotal FillSimulator.step s inputs).2 gone := by
  induction inputs using List.reverseRecOn with
  | nil =>
      refine ⟨0, ⟨Nat.zero_le _, fun executed => absurd executed (Nat.lt_irrefl _),
        fun q pending => ?_⟩⟩
      have same := sane.unique pending.1 mem pending.2
      rw [same]
      exact ⟨rfl, aware, rfl, rfl⟩
  | append_singleton inputs i ih =>
      rw [FillProtocol.newIds_concat, List.mem_append, not_or] at unnamed
      obtain ⟨gone, placed⟩ := ih unnamed.1
      rw [runTotal_concat]
      exact placed.step (sane.run inputs) unnamed.2

/-- **Every order keeps its place** in the queue, whatever the simulator meets after it took the
position of the order, as long as the id of the order is not given to another. -/
theorem run_keepsPlace (mode : FillMode) (before after : List FillInput)
    (mem : po ∈ (runTotal FillSimulator.step (.new mode) before).1.pending)
    (aware : po.queueAware = true) (unnamed : po.req.orderId ∉ FillProtocol.newIds after) :
    KeepsPlace po (runTotal FillSimulator.step (.new mode) before).1 after := by
  have sane := (Sane.new mode).run before
  generalize (runTotal FillSimulator.step (.new mode) before).1 = s at mem sane
  have keeps : ∀ n q, PendingAs (behind s after n) po.req.orderId q →
      q.req = po.req ∧ q.queueAware = true := by
    intro n q pending
    obtain ⟨gone, placed⟩ := sane.placed mem aware (after.take n) (newIds_take unnamed n)
    obtain ⟨req, isAware, -⟩ := placed.order q pending
    exact ⟨req, isAware⟩
  have next : ∀ (n : Nat) (i : FillInput), after[n]? = some i →
      po.req.orderId ∉ FillProtocol.newIds [i] := by
    intro n i reads named
    apply newIds_take unnamed (n + 1)
    rw [List.take_add_one, reads, Option.toList_some, FillProtocol.newIds_concat]
    exact List.mem_append_right _ named
  refine ⟨fun n i reads q q' pending later => ?_, fun n i reads x filled about => ?_,
    fun executed => ?_⟩
  · obtain ⟨old, oldPending, successor⟩ :=
      (sane.run (after.take n)).pendingAs (next n i reads) later
    have same : old = q := (sane.run (after.take n)).unique oldPending.1 pending.1
      (oldPending.2.trans pending.2.symm)
    rw [same] at successor
    exact (successor.stays (keeps n q pending).2).2.2
  · obtain ⟨q, qMem, same, fills⟩ := pending_of_passiveFill filled
    have pending : PendingAs (behind s after n) po.req.orderId q := ⟨qMem, same.symm.trans about⟩
    obtain ⟨trade, cleared⟩ := filledBy_pos fills
    rw [(keeps n q pending).1] at trade
    exact ⟨trade, q, pending, cleared⟩
  · obtain ⟨gone, placed⟩ := sane.placed mem aware after unnamed
    have volume := placed.volume
    rw [placed.cleared executed] at volume
    exact volume

/-- The first order of `FillProtocol.session`, which took its position behind a bid of 3. -/
def joined : PendingOrder :=
  { req := { type := .NEW, clientId := 1, tickerId := 0, orderId := 1, side := .BUY, price := 100,
             qty := 10 }
    bboAtSubmit := { bidPrice := 100, askPrice := 101, bidQty := 3, askQty := 8 }
    leavesQty := 10, queueAheadQty := 3, priorityWatermark := 0, queueAware := true }

/-- It is filled with 2 of the 5 that are traded. -/
theorem run_keepsPlace_joined :
    filledQty (FillOf 1) (runTotal FillSimulator.step (runTotal FillSimulator.step
      (.new .QUEUE_AWARE) (FillProtocol.session.take 2)).1 (FillProtocol.session.drop 2)).2 = 2 ∧
    KeepsPlace joined (runTotal FillSimulator.step (.new .QUEUE_AWARE)
      (FillProtocol.session.take 2)).1 (FillProtocol.session.drop 2) :=
  ⟨by decide +kernel, run_keepsPlace .QUEUE_AWARE (FillProtocol.session.take 2)
    (FillProtocol.session.drop 2) (by decide +kernel) rfl (by decide +kernel)⟩

end PassiveFills

end NanoTrade
