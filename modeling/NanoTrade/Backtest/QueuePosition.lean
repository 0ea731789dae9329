import NanoTrade.Backtest.FillSimulator
import NanoTrade.Backtest.LobsterReplay
import NanoTrade.Trading.BestPrices

/-!
# The queue position of the fill simulator

The replay writes its stream to two queues: the trade engine applies the events to its book, the
simulator counts them, and neither waits for the other. `Tee` is the two of them. Where an order
becomes queue_aware, its `queue_ahead_qty` is read off the book and its `priority_watermark` is
what the simulator has seen, so the two speak of different places of the stream.

* `run_consistent`: every position is consistent with what the simulator counts later, if the
  distance between the two places does no harm (`Steady`) wherever a position is taken.
* `Steady.of_level`: at one place of the stream it does none.
* `not_consistent_ahead`: a book that has applied one CANCEL more.
-/

namespace NanoTrade

namespace QueuePosition

/-! ## Places of the stream -/

variable (stream : List MEMarketUpdate)

/-- The book behind the first `n` events. -/
def bookAt (n : Nat) : Quotes :=
  (stream.take n).foldl Quotes.apply fun _ => []

/-- Its best prices. -/
def bboAt (n : Nat) : BBO :=
  (BBO.default.put .bid (top (bookAt stream n .bid))).put .ask (top (bookAt stream n .ask))

/-- The quantity that rests in it at a price of a side. -/
def restingQty (n : Nat) (price : Price) (side : Side) : Nat :=
  match BookSide.ofSide side with
  | some side => depth (bookAt stream n side) price
  | none => 0

/-- `global_priority_watermark_` behind the first `n` events. -/
def watermarkAt (n : Nat) : Priority :=
  (stream.take n).foldl FillSimulator.watermark 0

/-- The price is the best one of the side. -/
def AtBest (bbo : BBO) (price : Price) (side : Side) : Prop :=
  side = .BUY ∧ price = bbo.bidPrice ∨ side = .SELL ∧ price = bbo.askPrice

instance (bbo : BBO) (price : Price) (side : Side) : Decidable (AtBest bbo price side) :=
  inferInstanceAs (Decidable (_ ∨ _))

/-- The event behind the first `k` changes what rests at a price of a side. -/
def Changes (k : Nat) (price : Price) (side : Side) : Prop :=
  restingQty stream (k + 1) price side ≠ restingQty stream k price side

instance (k : Nat) (price : Price) (side : Side) : Decidable (Changes stream k price side) :=
  inferInstanceAs (Decidable (_ ≠ _))

/-! ## The two threads -/

/-- The trade engine and the simulator, each at its place of the stream. -/
structure Tee where
  applied : Nat
  consumed : Nat
  simulator : FillSimulator
  /-- How much the book had applied where the position of an order was taken. Nothing of the
  source depends on it. -/
  takenAt : OrderId → Nat

inductive TeeInput
  | apply
  | consume
  | request (r : MEClientRequest)
  /-- The walk over the pending orders. While it goes on the book applies more events, of which
  so many are in the copy that is made for an order. -/
  | bboPass (applied : Nat) (seen : OrderId → Nat)
  | rehash (order : List OrderId)

/-- What is to be said of a step. -/
inductive Note
  | tookPosition (po : PendingOrder) (applied consumed : Nat)
  /-- The event behind the first `event` was subtracted from a position. -/
  | subtracted (po : PendingOrder) (event takenAt : Nat)
  deriving DecidableEq, Repr

/-- The quantity ahead, and two places of the stream. -/
def Note.figures : Note → Qty × Nat × Nat
  | .tookPosition po applied consumed => (po.queueAheadQty, applied, consumed)
  | .subtracted po event takenAt => (po.queueAheadQty, event, takenAt)

/-- The orders that became queue_aware. -/
def positions (before after : FillSimulator) : List PendingOrder :=
  after.pending.filter fun po => po.queueAware ∧
    ∃ old ∈ before.pending, old.req.orderId = po.req.orderId ∧ old.queueAware = false

/-- The orders whose queue ahead became less. -/
def subtractions (before after : FillSimulator) : List PendingOrder :=
  before.pending.filter fun po => ∃ new ∈ after.pending,
    new.req.orderId = po.req.orderId ∧ new.queueAheadQty < po.queueAheadQty

namespace Tee

def new : Tee :=
  { applied := 0, consumed := 0, simulator := .new .QUEUE_AWARE, takenAt := fun _ => 0 }

/-- The place of the book in the copy that a walk makes for an order. -/
def place (t : Tee) (applied : Nat) (seen : OrderId → Nat) (orderId : OrderId) : Nat :=
  t.applied + min (seen orderId) applied

def step (t : Tee) : TeeInput → Tee × List Note
  | .apply => ({ t with applied := t.applied + 1 }, [])
  | .consume =>
    match stream[t.consumed]? with
    | none => (t, [])
    | some ev =>
      let simulator := (t.simulator.step (.marketEvent ev)).1
      ({ t with consumed := t.consumed + 1, simulator },
        (subtractions t.simulator simulator).map fun po =>
          .subtracted po t.consumed (t.takenAt po.req.orderId))
  | .request r =>
    ({ t with simulator := (t.simulator.step (.request r (bboAt stream t.applied))).1 }, [])
  | .bboPass applied seen =>
    let place := t.place applied seen
    let simulator := (t.simulator.step
      (.bboPass (bboAt stream t.applied) fun orderId => bboAt stream (place orderId))).1
    let taken := positions t.simulator simulator
    ({ t with
        applied := t.applied + applied
        simulator
        takenAt := fun orderId =>
          if ∃ po ∈ taken, po.req.orderId = orderId then place orderId else t.takenAt orderId },
      taken.map fun po => .tookPosition po (place po.req.orderId) t.consumed)
  | .rehash order => ({ t with simulator := (t.simulator.step (.rehash order)).1 }, [])

end Tee

/-! ## Consistency -/

/-- A position is consistent with the events that are counted later. At the best price it
covers the book of the events that its watermark covers; and no event is subtracted from it that
had changed what rests there before it was taken. -/
def Consistent : Note → Prop
  | .tookPosition po applied consumed =>
    AtBest (bboAt stream applied) po.req.price po.req.side →
      (∀ ev ∈ stream.take consumed, ev.priority ≠ Priority_INVALID →
        ev.priority ≤ po.priorityWatermark) ∧
      restingQty stream consumed po.req.price po.req.side ≤ po.queueAheadQty
  | .subtracted po event takenAt =>
    ¬ (event < takenAt ∧ Changes stream event po.req.price po.req.side)

instance : ∀ note, Decidable (Consistent stream note)
  | .tookPosition _ _ _ => inferInstanceAs (Decidable (_ → _))
  | .subtracted _ _ _ => inferInstanceAs (Decidable (¬ _))

/-- A CANCEL at the price and side that is counted under the watermark. -/
def Counts (watermark : Priority) (k : Nat) (price : Price) (side : Side) : Prop :=
  (∃ ev ∈ stream[k]?, ev.type = .CANCEL ∧ ev.price = price ∧ ev.side = side ∧
    ev.priority ≤ watermark) ∧ Changes stream k price side

instance (watermark : Priority) (k : Nat) (price : Price) (side : Side) :
    Decidable (Counts stream watermark k price side) :=
  inferInstanceAs (Decidable (_ ∧ _))

/-- The distance between the two places does no harm to a position at this price and side: the
book has no less there than where the simulator is, and it is not ahead by a CANCEL that is yet
to be counted. -/
structure Steady (applied consumed : Nat) (price : Price) (side : Side) : Prop where
  fits : restingQty stream applied price side < Qty_INVALID
  level : restingQty stream consumed price side ≤ restingQty stream applied price side
  once : ∀ k, k < applied → consumed ≤ k →
    ¬ Counts stream (watermarkAt stream consumed) k price side

instance (applied consumed : Nat) (price : Price) (side : Side) :
    Decidable (Steady stream applied consumed price side) :=
  decidable_of_iff
    (restingQty stream applied price side < Qty_INVALID ∧
      restingQty stream consumed price side ≤ restingQty stream applied price side ∧
      ∀ k, k < applied → consumed ≤ k →
        ¬ Counts stream (watermarkAt stream consumed) k price side)
    ⟨fun h => ⟨h.1, h.2.1, h.2.2⟩, fun h => ⟨h.fits, h.level, h.once⟩⟩

/-- A walk with these best prices takes the position of the order. -/
def Rests (cur : BBO) (po : PendingOrder) : Prop :=
  po.queueAware = false ∧ FillSimulator.bboChanged cur po.bboAtSubmit ∧
    ∀ id, FillSimulator.tryAggressiveFill po.req cur po.leavesQty id = none

/-- Wherever the position of an order at the best price is taken, the two places are `Steady`. -/
def Admissible (t : Tee) : TeeInput → Prop
  | .bboPass applied seen => ∀ po ∈ t.simulator.pending, Rests (bboAt stream t.applied) po →
      AtBest (bboAt stream (t.place applied seen po.req.orderId)) po.req.price po.req.side →
      Steady stream (t.place applied seen po.req.orderId) t.consumed po.req.price po.req.side
  | _ => True

variable {stream} {n k : Nat} {price : Price} {side : Side} {po po' : PendingOrder}
  {t : Tee} {cur : BBO}

/-! ## Places of the stream -/

theorem bookAt_succ {ev : MEMarketUpdate} (next : stream[n]? = some ev) :
    bookAt stream (n + 1) = (bookAt stream n).apply ev := by
  rw [bookAt, List.take_add_one, next, Option.toList_some, List.foldl_append]
  rfl

theorem watermarkAt_succ {ev : MEMarketUpdate} (next : stream[n]? = some ev) :
    watermarkAt stream (n + 1) = FillSimulator.watermark (watermarkAt stream n) ev := by
  rw [watermarkAt, List.take_add_one, next, Option.toList_some, List.foldl_append]
  rfl

/-- A TRADE changes nothing in the book. -/
theorem not_changes_of_trade {ev : MEMarketUpdate} (next : stream[k]? = some ev)
    (trade : ev.type = .TRADE) : ¬ Changes stream k price side := by
  intro changes
  apply changes
  have same : (bookAt stream k).apply ev = bookAt stream k := by
    simp only [Quotes.apply, trade]
  rw [restingQty, bookAt_succ next, same, restingQty]

/-- The watermark covers all that was seen. -/
theorem watermark_covers (evs : List MEMarketUpdate) {ev : MEMarketUpdate} (mem : ev ∈ evs)
    (valid : ev.priority ≠ Priority_INVALID) :
    ev.priority ≤ evs.foldl FillSimulator.watermark 0 := by
  induction evs using List.reverseRecOn with
  | nil => cases mem
  | append_singleton evs last ih =>
      rw [List.foldl_concat, FillSimulator.watermark]
      rcases List.mem_append.mp mem with before | now
      · have covered := ih before
        split
        · lia
        · exact covered
      · cases List.mem_singleton.mp now
        split
        · exact Nat.le_refl _
        · rename_i low
          exact Nat.le_of_not_lt fun above => low ⟨valid, above⟩

/-- The front of a side is read as what rests at its price. -/
theorem top_qty (xs : List Quote) (fits : depth xs (top xs).1 < Qty_INVALID) :
    (if (top xs).2 ≠ Qty_INVALID then (top xs).2 else 0) = depth xs (top xs).1 := by
  cases xs with
  | nil => rfl
  | cons best rest =>
      have small : depth (best :: rest) best.price < Qty_INVALID := fits
      have below : Qty_INVALID < 2 ^ 32 := by decide
      rw [top_cons (small.trans below)]
      exact if_pos (Nat.ne_of_lt small)

/-- The snapshot at the best price is what rests in the book there. -/
theorem snapshot_atBest (best : AtBest (bboAt stream n) price side)
    (fits : restingQty stream n price side < Qty_INVALID) :
    FillSimulator.snapshotQueueAhead (bboAt stream n) price side =
      restingQty stream n price side := by
  rcases best with ⟨rfl, rfl⟩ | ⟨rfl, rfl⟩
  · have read := top_qty (bookAt stream n .bid) fits
    rw [FillSimulator.snapshotQueueAhead]
    simp only [true_and, reduceCtorEq, false_and, if_false]
    exact read
  · have read := top_qty (bookAt stream n .ask) fits
    rw [FillSimulator.snapshotQueueAhead]
    simp only [true_and, reduceCtorEq, false_and, if_false]
    exact read

/-- Elsewhere it is 0. -/
theorem snapshot_of_not_atBest (behind : ¬ AtBest cur price side) :
    FillSimulator.snapshotQueueAhead cur price side = 0 := by
  rw [FillSimulator.snapshotQueueAhead, if_neg, if_neg]
  · intro ⟨isSell, same, _⟩
    exact behind (.inr ⟨isSell, same⟩)
  · intro ⟨isBuy, same, _⟩
    exact behind (.inl ⟨isBuy, same⟩)

/-- At one place of the stream there is no distance to do harm. -/
theorem Steady.of_level (fits : restingQty stream n price side < Qty_INVALID) :
    Steady stream n n price side := by
  refine ⟨fits, Nat.le_refl _, fun k below above => ?_⟩
  omega

/-! ## The walks -/

/-- What a TRADE makes of an order that it does not fill to the end. -/
theorem onTrade_spec {ev : MEMarketUpdate} {id : OrderId}
    (made : (FillSimulator.onTrade ev po id).1 = some po') :
    po'.req = po.req ∧ po'.queueAware = po.queueAware ∧
      po'.priorityWatermark = po.priorityWatermark ∧ po'.queueAheadQty ≤ po.queueAheadQty ∧
      (po'.queueAheadQty < po.queueAheadQty → ev.priority ≤ po.priorityWatermark) := by
  unfold FillSimulator.onTrade at made
  simp only at made
  generalize eq : (if ev.priority ≤ po.priorityWatermark then min ev.qty po.queueAheadQty else 0)
    = consumedAhead at made
  have ahead : consumedAhead ≠ 0 → ev.priority ≤ po.priorityWatermark := by
    intro takes
    by_contra later
    rw [if_neg later] at eq
    exact takes eq.symm
  have less : po.queueAheadQty - consumedAhead < po.queueAheadQty →
      ev.priority ≤ po.priorityWatermark := by
    intro less
    apply ahead
    intro untaken
    rw [untaken] at less
    exact Nat.lt_irrefl _ less
  split at made
  · split at made
    · cases made
    · cases made
      exact ⟨rfl, rfl, rfl, Nat.sub_le _ _, less⟩
  · cases made
    exact ⟨rfl, rfl, rfl, Nat.sub_le _ _, less⟩

/-- What a market event makes of an order. -/
theorem visitMarketEvent_spec {ev : MEMarketUpdate} {id : OrderId}
    (made : (FillSimulator.visitMarketEvent ev po id).1 = some po') :
    po'.req = po.req ∧ po'.queueAware = po.queueAware ∧
      po'.priorityWatermark = po.priorityWatermark ∧ po'.queueAheadQty ≤ po.queueAheadQty ∧
      (po'.queueAheadQty < po.queueAheadQty → FillSimulator.Matches ev po ∧
        (ev.type = .TRADE ∨ ev.type = .CANCEL) ∧ ev.priority ≤ po.priorityWatermark) := by
  unfold FillSimulator.visitMarketEvent at made
  split at made
  · rename_i here
    split at made
    · rename_i trade
      obtain ⟨req, aware, watermark, most, ahead⟩ := onTrade_spec made
      exact ⟨req, aware, watermark, most, fun less => ⟨here, .inl trade, ahead less⟩⟩
    · rename_i cancel
      cases made
      unfold FillSimulator.onCancel
      split
      · rename_i ahead
        exact ⟨rfl, rfl, rfl, Nat.sub_le _ _, fun _ => ⟨here, .inr cancel, ahead⟩⟩
      · exact ⟨rfl, rfl, rfl, Nat.le_refl _, fun less => absurd less (Nat.lt_irrefl _)⟩
    · cases made
      exact ⟨rfl, rfl, rfl, Nat.le_refl _, fun less => absurd less (Nat.lt_irrefl _)⟩
  · cases made
    exact ⟨rfl, rfl, rfl, Nat.le_refl _, fun less => absurd less (Nat.lt_irrefl _)⟩

/-- Whether the best prices fill an order does not depend on the id of the fill. -/
theorem tryAggressiveFill_none {r : MEClientRequest} {leavesQty : Qty} {id : OrderId}
    (missed : FillSimulator.tryAggressiveFill r cur leavesQty id = none) (id' : OrderId) :
    FillSimulator.tryAggressiveFill r cur leavesQty id' = none := by
  unfold FillSimulator.tryAggressiveFill at missed ⊢
  simp only at missed ⊢
  split
  · rename_i crosses
    rw [if_pos crosses] at missed
    split
    · rfl
    · rename_i fills
      rw [if_neg fills] at missed
      cases missed
  · rename_i buy
    rw [if_neg buy] at missed
    split
    · rename_i crosses
      rw [if_pos crosses] at missed
      split
      · rfl
      · rename_i fills
        rw [if_neg fills] at missed
        cases missed
    · rfl

instance : Decidable (Rests cur po) :=
  decidable_of_iff
    (po.queueAware = false ∧ FillSimulator.bboChanged cur po.bboAtSubmit ∧
      FillSimulator.tryAggressiveFill po.req cur po.leavesQty 0 = none)
    ⟨fun h => ⟨h.1, h.2.1, tryAggressiveFill_none h.2.2⟩, fun h => ⟨h.1, h.2.1, h.2.2 0⟩⟩

/-- What a pass over the best prices makes of an order that it does not fill. -/
theorem visitBbo_spec {mode : FillMode} {watermark : Priority} {seen : OrderId → BBO}
    {id : OrderId}
    (made : (FillSimulator.visitBbo mode watermark cur seen po id).1 = some po') :
    po'.req = po.req ∧
      (po'.queueAware = po.queueAware ∧ po'.priorityWatermark = po.priorityWatermark ∧
          po'.queueAheadQty = po.queueAheadQty ∨
        mode = .QUEUE_AWARE ∧ Rests cur po ∧ po'.queueAware = true ∧
          po'.priorityWatermark = watermark ∧ po'.queueAheadQty =
            FillSimulator.snapshotQueueAhead (seen po.req.orderId) po.req.price po.req.side) := by
  unfold FillSimulator.visitBbo at made
  split at made
  · rename_i changed
    split at made
    · cases made
    · rename_i missed
      cases made
      unfold FillSimulator.takePosition
      split
      · rename_i first
        exact ⟨rfl, .inr
          ⟨first.1, ⟨first.2, changed, tryAggressiveFill_none missed⟩, rfl, rfl, rfl⟩⟩
      · exact ⟨rfl, .inl ⟨rfl, rfl, rfl⟩⟩
  · cases made
    exact ⟨rfl, .inl ⟨rfl, rfl, rfl⟩⟩

/-- A request adds no order but its own. -/
theorem mem_onRequest {s : FillSimulator} {r : MEClientRequest} {bbo : BBO}
    (mem : po' ∈ (s.onRequest r bbo).1.pending) :
    po' ∈ s.pending ∨ r.type = .NEW ∧ po'.req = r ∧ po'.queueAware = false := by
  unfold FillSimulator.onRequest at mem
  split at mem
  · rename_i new
    by_cases here : (s.find r.orderId).isSome
    · simp only [here, if_true] at mem
      exact .inl mem
    · simp only [here, Bool.false_eq_true, if_false] at mem
      rcases List.mem_append.mp mem with before | now
      · exact .inl before
      · cases List.mem_singleton.mp now
        exact .inr ⟨new, rfl, rfl⟩
  · split at mem
    · exact .inl (List.mem_filter.mp mem).1
    · exact .inl mem
  · exact .inl mem

theorem onRequest_keeps (s : FillSimulator) (r : MEClientRequest) (bbo : BBO) :
    (s.onRequest r bbo).1.mode = s.mode ∧
      (s.onRequest r bbo).1.globalPriorityWatermark = s.globalPriorityWatermark := by
  unfold FillSimulator.onRequest
  split
  · exact ⟨rfl, rfl⟩
  · split
    · exact ⟨rfl, rfl⟩
    · exact ⟨rfl, rfl⟩
  · exact ⟨rfl, rfl⟩

/-- The ids of the pending orders stay different. -/
theorem step_nodup {s : FillSimulator} (nodup : (s.pending.map fun po => po.req.orderId).Nodup)
    (i : FillInput) : ((s.step i).1.pending.map fun po => po.req.orderId).Nodup := by
  cases i with
  | request r bbo =>
      rw [FillSimulator.step, FillSimulator.onRequest]
      cases type : r.type with
      | INVALID => exact nodup
      | NEW =>
          by_cases here : (s.find r.orderId).isSome
          · simp only [here, if_true]
            exact nodup
          · simp only [here, Bool.false_eq_true, if_false]
            rw [List.map_append, List.map_singleton, List.nodup_append]
            refine ⟨nodup, List.nodup_singleton _, fun a aMem b bMem same => here ?_⟩
            obtain ⟨po, mem, rfl⟩ := List.mem_map.mp aMem
            exact List.find?_isSome.mpr
              ⟨po, mem, decide_eq_true (same.trans (List.mem_singleton.mp bMem))⟩
      | CANCEL =>
          by_cases here : (s.find r.orderId).isSome
          · simp only [here, if_true]
            exact nodup.sublist (List.filter_sublist.map _)
          · simp only [here]
            exact nodup
  | marketEvent ev =>
      rw [FillSimulator.step]
      split
      · exact nodup.sublist
          (FillSimulator.walk_sublist (fun po id po' made => (visitMarketEvent_spec made).1) _ _)
      · exact nodup
  | bboPass cur seen =>
      exact nodup.sublist
        (FillSimulator.walk_sublist (fun po id po' made => (visitBbo_spec made).1) _ _)
  | rehash order =>
      rw [FillSimulator.step, FillSimulator.rehash]
      split
      · rename_i perm
        exact (perm.map _).nodup_iff.mpr nodup
      · exact nodup

/-! ## Runs -/

/-- An order whose position is not subtracted from twice. -/
def Sound (stream : List MEMarketUpdate) (t : Tee) (po : PendingOrder) : Prop :=
  po.queueAheadQty = 0 ∨ ∀ k, k < t.takenAt po.req.orderId → t.consumed ≤ k →
    ¬ Counts stream po.priorityWatermark k po.req.price po.req.side

/-- What the two threads keep. -/
structure Holds (stream : List MEMarketUpdate) (t : Tee) : Prop where
  mode : t.simulator.mode = .QUEUE_AWARE
  watermark : t.simulator.globalPriorityWatermark = watermarkAt stream t.consumed
  nodup : (t.simulator.pending.map fun po => po.req.orderId).Nodup
  sound : ∀ po ∈ t.simulator.pending, po.queueAware = true → Sound stream t po

theorem Holds.unique (holds : Holds stream t) {a b : PendingOrder}
    (aMem : a ∈ t.simulator.pending) (bMem : b ∈ t.simulator.pending)
    (same : a.req.orderId = b.req.orderId) : a = b :=
  List.inj_on_of_nodup_map holds.nodup aMem bMem same

/-- A step of the simulator that takes nothing into its queue_aware orders. -/
theorem Holds.reorder (holds : Holds stream t) {simulator : FillSimulator}
    (mode : simulator.mode = t.simulator.mode)
    (watermark : simulator.globalPriorityWatermark = t.simulator.globalPriorityWatermark)
    (nodup : (simulator.pending.map fun po => po.req.orderId).Nodup)
    (aware : ∀ po ∈ simulator.pending, po.queueAware = true → po ∈ t.simulator.pending) :
    Holds stream { t with simulator } where
  mode := mode.trans holds.mode
  watermark := watermark.trans holds.watermark
  nodup := nodup
  sound po mem isAware := holds.sound po (aware po mem isAware) isAware

/-- A request adds no queue_aware order. -/
theorem Holds.request (holds : Holds stream t) (r : MEClientRequest) (bbo : BBO) :
    Holds stream { t with simulator := (t.simulator.onRequest r bbo).1 } := by
  obtain ⟨mode, watermark⟩ := onRequest_keeps t.simulator r bbo
  refine holds.reorder mode watermark (step_nodup holds.nodup (.request r bbo))
    fun po mem aware => ?_
  rcases mem_onRequest mem with before | ⟨-, -, unaware⟩
  · exact before
  · rw [unaware] at aware
    cases aware

/-- An event is only subtracted from a position that has not yet taken it into account. -/
theorem Holds.consume (holds : Holds stream t) {ev : MEMarketUpdate}
    (next : stream[t.consumed]? = some ev) {simulator : FillSimulator}
    (ran : (t.simulator.step (.marketEvent ev)).1 = simulator) :
    Holds stream { t with consumed := t.consumed + 1, simulator } ∧
      ∀ po ∈ subtractions t.simulator simulator,
        Consistent stream (.subtracted po t.consumed (t.takenAt po.req.orderId)) := by
  have made : ∀ po' ∈ simulator.pending, ∃ po ∈ t.simulator.pending, ∃ id,
      (FillSimulator.visitMarketEvent ev po id).1 = some po' := by
    intro po' mem
    rw [← ran, FillSimulator.step, holds.mode] at mem
    exact FillSimulator.mem_walk mem
  constructor
  · refine ⟨?_, ?_, ?_, fun po' mem aware => ?_⟩
    · rw [← ran, FillSimulator.step, holds.mode]
      exact holds.mode
    · rw [← ran, FillSimulator.step, holds.mode, watermarkAt_succ next, ← holds.watermark]
      rfl
    · rw [← ran]
      exact step_nodup holds.nodup (.marketEvent ev)
    · obtain ⟨po, before, id, visited⟩ := made po' mem
      obtain ⟨req, sameAware, watermark, most, -⟩ := visitMarketEvent_spec visited
      rw [sameAware] at aware
      rcases holds.sound po before aware with untouched | once
      · exact .inl (Nat.le_zero.mp (untouched ▸ most))
      · refine .inr fun k below above => ?_
        rw [req] at below ⊢
        rw [watermark]
        exact once k below (Nat.le_of_succ_le above)
  · intro po mem
    obtain ⟨before, less⟩ := List.mem_filter.mp mem
    obtain ⟨new, among, same, less⟩ := of_decide_eq_true less
    obtain ⟨old, oldMem, id, visited⟩ := made new among
    obtain ⟨req, -, -, -, counted⟩ := visitMarketEvent_spec visited
    have eq : old = po := holds.unique oldMem before (by rw [← req, same])
    subst eq
    obtain ⟨⟨aware, price, side⟩, type, ahead⟩ := counted less
    intro ⟨reflected, changes⟩
    rcases type with trade | cancel
    · exact not_changes_of_trade next trade changes
    · rcases holds.sound old oldMem aware with untouched | once
      · rw [untouched] at less
        exact Nat.not_lt_zero _ less
      · exact once t.consumed reflected (Nat.le_refl _)
          ⟨⟨ev, next, cancel, price.symm, side.symm, ahead⟩, changes⟩

/-- An order behind a pass over the best prices: it is as it was, or its position was taken. -/
theorem Holds.visited (holds : Holds stream t) {simulator : FillSimulator} {seen : OrderId → BBO}
    (ran : (t.simulator.step (.bboPass cur seen)).1 = simulator)
    (mem : po' ∈ simulator.pending) :
    ∃ po ∈ t.simulator.pending, po'.req = po.req ∧
      (po'.queueAware = po.queueAware ∧ po'.priorityWatermark = po.priorityWatermark ∧
          po'.queueAheadQty = po.queueAheadQty ∨
        Rests cur po ∧ po'.queueAware = true ∧
          po'.priorityWatermark = watermarkAt stream t.consumed ∧ po'.queueAheadQty =
            FillSimulator.snapshotQueueAhead (seen po.req.orderId) po.req.price po.req.side) := by
  rw [← ran] at mem
  obtain ⟨po, before, id, made⟩ := FillSimulator.mem_walk mem
  rw [holds.mode, holds.watermark] at made
  obtain ⟨req, kept | ⟨-, taken⟩⟩ := visitBbo_spec made
  · exact ⟨po, before, req, .inl kept⟩
  · exact ⟨po, before, req, .inr taken⟩

/-- An order of which the position was taken. -/
theorem Holds.taken (holds : Holds stream t) {simulator : FillSimulator} {seen : OrderId → BBO}
    (ran : (t.simulator.step (.bboPass cur seen)).1 = simulator)
    (mem : po' ∈ positions t.simulator simulator) :
    ∃ po ∈ t.simulator.pending, po'.req = po.req ∧ Rests cur po ∧
      po'.priorityWatermark = watermarkAt stream t.consumed ∧ po'.queueAheadQty =
        FillSimulator.snapshotQueueAhead (seen po.req.orderId) po.req.price po.req.side := by
  obtain ⟨among, became⟩ := List.mem_filter.mp mem
  obtain ⟨aware, old, oldMem, same, unaware⟩ := of_decide_eq_true became
  obtain ⟨po, before, req, kept | ⟨rests, -, watermark, ahead⟩⟩ := holds.visited ran among
  · have eq : old = po := holds.unique oldMem before (by rw [same, req])
    rw [eq] at unaware
    rw [kept.1, unaware] at aware
    cases aware
  · exact ⟨po, before, req, rests, watermark, ahead⟩

/-- At the best price, a position is consistent exactly where the book has no less there than
where the simulator is. -/
theorem Holds.tookPosition_iff (holds : Holds stream t) {simulator : FillSimulator}
    {place : OrderId → Nat}
    (ran : (t.simulator.step (.bboPass cur fun orderId => bboAt stream (place orderId))).1 =
      simulator)
    (mem : po' ∈ positions t.simulator simulator)
    (best : AtBest (bboAt stream (place po'.req.orderId)) po'.req.price po'.req.side)
    (fits : restingQty stream (place po'.req.orderId) po'.req.price po'.req.side < Qty_INVALID) :
    Consistent stream (.tookPosition po' (place po'.req.orderId) t.consumed) ↔
      restingQty stream t.consumed po'.req.price po'.req.side ≤
        restingQty stream (place po'.req.orderId) po'.req.price po'.req.side := by
  obtain ⟨po, before, req, rests, watermark, ahead⟩ := holds.taken ran mem
  rw [← req, snapshot_atBest best fits] at ahead
  constructor
  · intro consistent
    rw [← ahead]
    exact (consistent best).2
  · intro level _
    rw [watermark, ahead]
    exact ⟨fun ev seen valid => watermark_covers _ seen valid, level⟩

/-- A pass over the best prices takes positions that are consistent. -/
theorem Holds.bboPass (holds : Holds stream t) {applied : Nat} {seen : OrderId → Nat}
    (steady : Admissible stream t (.bboPass applied seen)) :
    Holds stream (t.step stream (.bboPass applied seen)).1 ∧
      ∀ note ∈ (t.step stream (.bboPass applied seen)).2, Consistent stream note := by
  rw [Tee.step]
  simp only
  generalize ran : (t.simulator.step (.bboPass (bboAt stream t.applied) fun orderId =>
    bboAt stream (t.place applied seen orderId))).1 = simulator
  constructor
  · refine ⟨?_, ?_, ?_, fun po' mem aware => ?_⟩
    · rw [← ran]
      exact holds.mode
    · rw [← ran]
      exact holds.watermark
    · rw [← ran]
      exact step_nodup holds.nodup _
    · obtain ⟨po, before, req, kept | ⟨rests, -, watermark, ahead⟩⟩ := holds.visited ran mem
      · obtain ⟨same, watermark, ahead⟩ := kept
        rw [same] at aware
        have earlier : ¬ ∃ q ∈ positions t.simulator simulator,
            q.req.orderId = po'.req.orderId := by
          intro ⟨q, taken, eq⟩
          obtain ⟨old, oldMem, qReq, rests, -⟩ := holds.taken ran taken
          have same := holds.unique oldMem before (by rw [← qReq, eq, req])
          rw [same] at rests
          exact Bool.false_ne_true (rests.1.symm.trans aware)
        have sound := holds.sound po before aware
        unfold Sound at sound ⊢
        simp only [earlier, if_false]
        rw [req, watermark, ahead]
        exact sound
      · have taken : po' ∈ positions t.simulator simulator :=
          List.mem_filter.mpr ⟨mem, decide_eq_true ⟨aware, po, before, by rw [req], rests.1⟩⟩
        unfold Sound
        simp only
        rw [if_pos ⟨po', taken, rfl⟩, req, watermark, ahead]
        by_cases best : AtBest (bboAt stream (t.place applied seen po.req.orderId))
            po.req.price po.req.side
        · exact .inr (steady po before rests best).once
        · exact .inl (snapshot_of_not_atBest best)
  · intro note mem
    obtain ⟨po', taken, rfl⟩ := List.mem_map.mp mem
    obtain ⟨po, before, req, rests, -⟩ := holds.taken ran taken
    intro best
    have distance := steady po before rests (req ▸ best)
    rw [← req] at distance
    exact (holds.tookPosition_iff ran taken best distance.fits).mpr distance.level best

/-- Nothing is said of the other steps. -/
theorem silent : ∀ note ∈ ([] : List Note), Consistent stream note := by
  intro note mem
  cases mem

/-- One step of the two threads. -/
theorem Holds.step (holds : Holds stream t) {i : TeeInput} (steady : Admissible stream t i) :
    Holds stream (t.step stream i).1 ∧ ∀ note ∈ (t.step stream i).2, Consistent stream note := by
  cases i with
  | apply => exact ⟨⟨holds.mode, holds.watermark, holds.nodup, holds.sound⟩, silent⟩
  | consume =>
      rw [Tee.step]
      split
      · exact ⟨holds, silent⟩
      · rename_i ev next
        obtain ⟨after, consistent⟩ := holds.consume next rfl
        refine ⟨after, fun note mem => ?_⟩
        obtain ⟨po, taken, rfl⟩ := List.mem_map.mp mem
        exact consistent po taken
  | request r => exact ⟨holds.request r _, silent⟩
  | bboPass applied seen => exact holds.bboPass steady
  | rehash order =>
      refine ⟨?_, silent⟩
      show Holds stream { t with simulator := t.simulator.rehash order }
      unfold FillSimulator.rehash
      split
      · rename_i perm
        exact holds.reorder rfl rfl ((perm.map _).nodup_iff.mpr holds.nodup)
          fun po mem _ => perm.mem_iff.mp mem
      · exact holds

/-- **The positions of the fill simulator are consistent** with what it counts later, in every
interleaving in which the two places of the stream are `Steady` wherever a position is taken. -/
theorem run_consistent (stream : List MEMarketUpdate) {inputs : List TeeInput}
    (steady : Along (Admissible stream) (Tee.step stream) .new inputs) :
    ∀ note ∈ (runTotal (Tee.step stream) .new inputs).2, Consistent stream note := by
  have start : Holds stream .new ∧ ∀ note ∈ ([] : List Note), Consistent stream note := by
    refine ⟨⟨rfl, rfl, List.nodup_nil, ?_⟩, silent⟩
    intro po mem
    cases mem
  have run := along_invariant
    (P := fun t notes => Holds stream t ∧ ∀ note ∈ notes, Consistent stream note) start
    (fun {t notes i} before admissible => by
      obtain ⟨after, now⟩ := before.1.step admissible
      refine ⟨after, fun note mem => ?_⟩
      rcases List.mem_append.mp mem with early | late
      · exact before.2 note early
      · exact now note late) steady
  exact run.2

/-! ## A CANCEL between the two places -/

/-- Two bids at one price, and then the first of them is cancelled. -/
def bids : List MEMarketUpdate :=
  LobsterReplay.updates 0
    [{ type := 1, orderId := 11, size := 10, price := 100, direction := 1 },
      { type := 1, orderId := 12, size := 10, price := 100, direction := 1 },
      { type := 3, orderId := 11, size := 10, price := 100, direction := 1 }]

def joins : TeeInput :=
  .request { type := .NEW, clientId := 1, tickerId := 0, orderId := 1, side := .BUY, price := 100,
             qty := 5 }

instance : ∀ (t : Tee) (i : TeeInput), Decidable (Admissible stream t i)
  | t, .bboPass _ _ => inferInstanceAs (Decidable (∀ po ∈ t.simulator.pending, _ → _))
  | _, .apply | _, .consume | _, .request _ | _, .rehash _ => isTrue trivial

/-- The position is taken where both threads are behind the second bid. -/
theorem run_consistent_bids :
    (runTotal (Tee.step bids) .new
        [.apply, joins, .apply, .consume, .consume, .bboPass 0 fun _ => 0, .apply, .consume]).2.map
          Note.figures = [(20, 2, 2), (20, 2, 2)] ∧
      ∀ note ∈ (runTotal (Tee.step bids) .new
        [.apply, joins, .apply, .consume, .consume, .bboPass 0 fun _ => 0, .apply, .consume]).2,
        Consistent bids note :=
  ⟨by decide +kernel, run_consistent bids (by decide +kernel)⟩

/-- The book is ahead by the CANCEL when the position is taken: 10 are ahead, not 20, and the
CANCEL takes away these 10 as well. -/
theorem not_consistent_ahead :
    (runTotal (Tee.step bids) .new [.apply, .apply, .consume, .consume, joins, .apply,
        .bboPass 0 fun _ => 0, .consume]).2.map Note.figures = [(10, 3, 2), (10, 2, 3)] ∧
      ¬ ∀ note ∈ (runTotal (Tee.step bids) .new [.apply, .apply, .consume, .consume, joins, .apply,
        .bboPass 0 fun _ => 0, .consume]).2, Consistent bids note := by
  decide +kernel

end QueuePosition

end NanoTrade
