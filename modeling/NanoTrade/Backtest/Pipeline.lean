import NanoTrade.Exchange.Messages
import NanoTrade.LFQueue

/-!
# The backtest pipeline

The replay thread writes each update to `output_queue_` and, if there is one, to
`sim_output_queue_`; the market data consumer moves it on to `incoming_md_updates_`; the trade
engine and the fill simulator read at the ends. Both writers wait until the queue that they
write to is less than three quarters full.

`run_pipeline_lossless`: in any interleaving of the four threads no queue is ever over its capacity,
and both ends see a prefix of what the replay emitted.
-/

namespace NanoTrade

/-- `ME_MAX_MARKET_UPDATES * 3 / 4`. -/
def backpressureMark : Nat := ME_MAX_MARKET_UPDATES * 3 / 4

inductive BacktestThread
  | replay
  | marketDataConsumer
  | tradeEngine
  | fillSimulator
  deriving DecidableEq, Repr

/-- What the threads do with the updates. -/
inductive ReplayEvent
  /-- The replay wrote to `output_queue_`. -/
  | emitted (u : MDPMarketUpdate)
  /-- The replay wrote to `sim_output_queue_`. -/
  | teed (u : MDPMarketUpdate)
  /-- The consumer wrote to `incoming_md_updates_`. -/
  | passed (u : MEMarketUpdate)
  /-- `TradeEngine::run` handed the update to its book. -/
  | seen (u : MEMarketUpdate)
  /-- `FillSimulator::run` handed the update to `onSimMarketEvent`. -/
  | simulated (u : MEMarketUpdate)
  deriving DecidableEq, Repr

namespace ReplayEvent

def emits : List ReplayEvent → List MDPMarketUpdate :=
  List.filterMap fun
    | .emitted u => some u
    | _ => none

def tees : List ReplayEvent → List MDPMarketUpdate :=
  List.filterMap fun
    | .teed u => some u
    | _ => none

def passes : List ReplayEvent → List MEMarketUpdate :=
  List.filterMap fun
    | .passed u => some u
    | _ => none

def sees : List ReplayEvent → List MEMarketUpdate :=
  List.filterMap fun
    | .seen u => some u
    | _ => none

def simulations : List ReplayEvent → List MEMarketUpdate :=
  List.filterMap fun
    | .simulated u => some u
    | _ => none

end ReplayEvent

/-- What went where so far. -/
structure ReplayFlow where
  emitted : List MDPMarketUpdate
  teed : List MDPMarketUpdate
  passed : List MEMarketUpdate
  seen : List MEMarketUpdate
  simulated : List MEMarketUpdate

namespace ReplayFlow

open ReplayEvent

def of (es : List ReplayEvent) : ReplayFlow :=
  ⟨emits es, tees es, passes es, sees es, simulations es⟩

variable (es : List ReplayEvent) (mdp : MDPMarketUpdate) (u : MEMarketUpdate)

theorem of_emitted : of (es ++ [.emitted mdp]) =
    { of es with emitted := (of es).emitted ++ [mdp] } := by
  simp [of, emits, tees, passes, sees, simulations]

theorem of_teed : of (es ++ [.teed mdp]) = { of es with teed := (of es).teed ++ [mdp] } := by
  simp [of, emits, tees, passes, sees, simulations]

theorem of_passed : of (es ++ [.passed u]) = { of es with passed := (of es).passed ++ [u] } := by
  simp [of, emits, tees, passes, sees, simulations]

theorem of_seen : of (es ++ [.seen u]) = { of es with seen := (of es).seen ++ [u] } := by
  simp [of, emits, tees, passes, sees, simulations]

theorem of_simulated : of (es ++ [.simulated u]) =
    { of es with simulated := (of es).simulated ++ [u] } := by
  simp [of, emits, tees, passes, sees, simulations]

end ReplayFlow

/-- Where the replay thread is. -/
inductive Replaying
  /-- Before the next row that is emitted. -/
  | row
  /-- In the wait, before the size of `output_queue_` is read. -/
  | checkingOutput (u : MEMarketUpdate)
  /-- In the wait, before the size of `sim_output_queue_` is read. -/
  | checkingSim (u : MEMarketUpdate)
  | pushingOutput (mdp : MDPMarketUpdate) (w : LFQueue.Writing)
  | pushingSim (mdp : MDPMarketUpdate) (w : LFQueue.Writing)
  deriving DecidableEq, Repr

/-- Where the replay branch of `MarketDataConsumer::run` is. -/
inductive Consuming
  | idle
  /-- `getNextToRead` returned a pointer. -/
  | held (slot : Nat)
  /-- The sequence number was checked. -/
  | waiting (slot : Nat)
  | pushing (slot : Nat) (w : LFQueue.Writing)
  | used (slot : Nat)
  | advanced (slot : Nat)
  deriving DecidableEq, Repr

structure Backtest where
  /-- The updates of the rows that the replay has still to emit. -/
  rows : List MEMarketUpdate
  seqNum : Nat
  replay : Replaying
  outputQueue : LFQueue MDPMarketUpdate
  /-- `sim_output_queue_` is not null. -/
  hasSimOutput : Bool
  simOutputQueue : LFQueue MDPMarketUpdate
  consumer : Consuming
  nextExpIncSeqNum : Nat
  inRecovery : Bool
  incomingMdUpdates : LFQueue MEMarketUpdate
  tradeEngine : LFQueue.Popping
  /-- The fill mode is `QUEUE_AWARE`. -/
  queueAware : Bool
  fillSimulator : LFQueue.Popping

namespace Backtest

def noUpdate : MEMarketUpdate :=
  ⟨.INVALID, OrderId_INVALID, TickerId_INVALID, .INVALID, Price_INVALID, Qty_INVALID,
    Priority_INVALID⟩

def start (rows : List MEMarketUpdate) (hasSimOutput queueAware : Bool) : Backtest :=
  { rows, seqNum := 1, replay := .row
    outputQueue := LFQueue.new ME_MAX_MARKET_UPDATES ⟨0, noUpdate⟩
    hasSimOutput
    simOutputQueue := LFQueue.new ME_MAX_MARKET_UPDATES ⟨0, noUpdate⟩
    consumer := .idle, nextExpIncSeqNum := 1, inRecovery := false
    incomingMdUpdates := LFQueue.new ME_MAX_MARKET_UPDATES noUpdate
    tradeEngine := .idle, queueAware, fillSimulator := .idle }

/-- The wait is over: the update gets its sequence number. -/
def number (s : Backtest) (u : MEMarketUpdate) : Backtest :=
  { s with replay := .pushingOutput ⟨s.seqNum, u⟩ .idle, seqNum := s.seqNum + 1 }

/-- The wait and the pushes of `LobsterReplay::run`. -/
def replayStep (s : Backtest) : Backtest × List ReplayEvent :=
  match s.replay with
  | .row =>
    match s.rows with
    | [] => (s, [])
    | u :: rows => ({ s with rows, replay := .checkingOutput u }, [])
  | .checkingOutput u =>
    if s.outputQueue.size ≥ backpressureMark then (s, [])
    else if s.hasSimOutput then ({ s with replay := .checkingSim u }, [])
    else (s.number u, [])
  | .checkingSim u =>
    if s.simOutputQueue.size ≥ backpressureMark then
      ({ s with replay := .checkingOutput u }, [])
    else (s.number u, [])
  | .pushingOutput mdp .idle =>
    ({ s with outputQueue := s.outputQueue.write mdp, replay := .pushingOutput mdp .written },
      [.emitted mdp])
  | .pushingOutput mdp .written =>
    ({ s with outputQueue := s.outputQueue.advanceWrite, replay := .pushingOutput mdp .advanced },
      [])
  | .pushingOutput mdp .advanced =>
    ({ s with
      outputQueue := s.outputQueue.countWrite
      replay := if s.hasSimOutput then .pushingSim mdp .idle else .row }, [])
  | .pushingSim mdp .idle =>
    ({ s with simOutputQueue := s.simOutputQueue.write mdp, replay := .pushingSim mdp .written },
      [.teed mdp])
  | .pushingSim mdp .written =>
    ({ s with
      simOutputQueue := s.simOutputQueue.advanceWrite, replay := .pushingSim mdp .advanced }, [])
  | .pushingSim _ .advanced =>
    ({ s with simOutputQueue := s.simOutputQueue.countWrite, replay := .row }, [])

/-- The replay branch of `MarketDataConsumer::run`. A gap is logged and passed over. -/
def consumerStep (s : Backtest) : Except Fault (Backtest × List ReplayEvent) :=
  match s.consumer with
  | .idle =>
    match s.outputQueue.getNextToRead with
    | some slot => .ok ({ s with consumer := .held slot }, [])
    | none => .ok (s, [])
  | .held slot =>
    let seqNum := (s.outputQueue.store slot).seqNum
    if s.inRecovery ∨ seqNum ≠ s.nextExpIncSeqNum then
      .ok ({ s with
        inRecovery := false, nextExpIncSeqNum := seqNum + 1, consumer := .waiting slot }, [])
    else
      .ok ({ s with
        nextExpIncSeqNum := s.nextExpIncSeqNum + 1, consumer := .waiting slot }, [])
  | .waiting slot =>
    if s.incomingMdUpdates.size ≥ backpressureMark then .ok (s, [])
    else .ok ({ s with consumer := .pushing slot .idle }, [])
  | .pushing slot .idle =>
    let u := (s.outputQueue.store slot).meMarketUpdate
    .ok ({ s with
      incomingMdUpdates := s.incomingMdUpdates.write u, consumer := .pushing slot .written },
      [.passed u])
  | .pushing slot .written =>
    .ok ({ s with
      incomingMdUpdates := s.incomingMdUpdates.advanceWrite
      consumer := .pushing slot .advanced }, [])
  | .pushing slot .advanced =>
    .ok ({ s with
      incomingMdUpdates := s.incomingMdUpdates.countWrite, consumer := .used slot }, [])
  | .used slot =>
    .ok ({ s with outputQueue := s.outputQueue.advanceRead, consumer := .advanced slot }, [])
  | .advanced _ => do
    let queue ← s.outputQueue.countRead
    pure ({ s with outputQueue := queue, consumer := .idle }, [])

/-- The loop over the market updates of `TradeEngine::run`. -/
def engineStep (s : Backtest) : Except Fault (Backtest × List ReplayEvent) := do
  let (queue, position, read) ← s.incomingMdUpdates.popStep s.tradeEngine
  pure ({ s with incomingMdUpdates := queue, tradeEngine := position },
    read.toList.map .seen)

/-- The loop over the market events of `FillSimulator::run`. -/
def simulatorStep (s : Backtest) : Except Fault (Backtest × List ReplayEvent) :=
  if s.queueAware then do
    let (queue, position, read) ← s.simOutputQueue.popStep s.fillSimulator
    pure ({ s with simOutputQueue := queue, fillSimulator := position },
      read.toList.map fun mdp => .simulated mdp.meMarketUpdate)
  else .ok (s, [])

def step (s : Backtest) : BacktestThread → Except Fault (Backtest × List ReplayEvent)
  | .replay => .ok s.replayStep
  | .marketDataConsumer => s.consumerStep
  | .tradeEngine => s.engineStep
  | .fillSimulator => s.simulatorStep

/-! ## What every interleaving keeps -/

open ReplayEvent

/-- The updates as the replay numbers them. -/
def numbered : Nat → List MEMarketUpdate → List MDPMarketUpdate
  | _, [] => []
  | n, u :: us => ⟨n, u⟩ :: numbered (n + 1) us

/-- How far each writer is in a push to each queue. -/
def writingOutput (s : Backtest) : LFQueue.Writing :=
  match s.replay with
  | .pushingOutput _ w => w
  | _ => .idle

def writingSim (s : Backtest) : LFQueue.Writing :=
  match s.replay with
  | .pushingSim _ w => w
  | _ => .idle

def writingIncoming (s : Backtest) : LFQueue.Writing :=
  match s.consumer with
  | .pushing _ w => w
  | _ => .idle

/-- The updates that the replay has still to write to `output_queue_`. -/
def unemitted (s : Backtest) : List MDPMarketUpdate :=
  match s.replay with
  | .checkingOutput u => numbered s.seqNum (u :: s.rows)
  | .checkingSim u => numbered s.seqNum (u :: s.rows)
  | .pushingOutput mdp .idle => mdp :: numbered s.seqNum s.rows
  | _ => numbered s.seqNum s.rows

end Backtest

namespace Replaying

/-- The update that is in `output_queue_` and has still to go to `sim_output_queue_`. -/
def unteed : Replaying → List MDPMarketUpdate
  | .pushingOutput mdp .written => [mdp]
  | .pushingOutput mdp .advanced => [mdp]
  | .pushingSim mdp .idle => [mdp]
  | _ => []

/-- The replay saw `output_queue_` below the mark and has not pushed since. -/
def ChecksOutput : Replaying → Prop
  | .checkingSim _ => True
  | .pushingOutput _ _ => True
  | _ => False

/-- The replay saw `sim_output_queue_` below the mark and has not pushed since. -/
def ChecksSim : Replaying → Prop
  | .pushingOutput _ _ => True
  | .pushingSim _ _ => True
  | _ => False

def PushesSim : Replaying → Prop
  | .pushingSim _ _ => True
  | _ => False

end Replaying

namespace Consuming

/-- The consumer saw `incoming_md_updates_` below the mark and has not pushed since. -/
def ChecksIncoming : Consuming → Prop
  | .pushing _ _ => True
  | _ => False

/-- The consumer as a reader of the replay queue. -/
def reader : Consuming → LFQueue.Popping
  | .idle => .idle
  | .held slot => .held slot
  | .waiting slot => .held slot
  | .pushing slot .idle => .held slot
  | .pushing slot _ => .used slot
  | .used slot => .used slot
  | .advanced slot => .advanced slot

end Consuming

namespace Backtest

open ReplayEvent

/-- A queue never holds more than the mark, and less when the writer has seen that it may
push. -/
structure Below {α : Type} (q : LFQueue α) (checked : Prop) : Prop where
  slots : q.capacity = ME_MAX_MARKET_UPDATES
  le : q.numElements ≤ backpressureMark
  lt : checked → q.numElements < backpressureMark

/-- What went to `sim_output_queue_` is a prefix of what went to `output_queue_` and, where
there is such a queue, all of it but for the update in hand. -/
structure Tees (hasSimOutput : Bool) (r : Replaying) (teed emitted : List MDPMarketUpdate) :
    Prop where
  prefixed : teed <+: emitted
  all : hasSimOutput = true → teed ++ r.unteed = emitted
  only : r.PushesSim → hasSimOutput = true

/-- The queues hold what was written, below the mark, and every queue takes up a prefix of
the one before it. -/
structure Keeps (rows : List MEMarketUpdate) (s : Backtest) (f : ReplayFlow) : Prop where
  output : s.outputQueue.Pops f.emitted f.passed.length s.writingOutput s.consumer.reader
  sim : s.simOutputQueue.Pops f.teed f.simulated.length s.writingSim s.fillSimulator
  incoming : s.incomingMdUpdates.Pops f.passed f.seen.length s.writingIncoming
    s.tradeEngine
  outputBelow : Below s.outputQueue s.replay.ChecksOutput
  simBelow : Below s.simOutputQueue (s.hasSimOutput = true ∧ s.replay.ChecksSim)
  incomingBelow : Below s.incomingMdUpdates s.consumer.ChecksIncoming
  emitted : f.emitted ++ s.unemitted = numbered 1 rows
  teed : Tees s.hasSimOutput s.replay f.teed f.emitted
  passed : f.passed <+: f.emitted.map MDPMarketUpdate.meMarketUpdate
  seen : f.seen <+: f.passed
  simulated : f.simulated <+: f.teed.map MDPMarketUpdate.meMarketUpdate

namespace Below

variable {α : Type} {q q' : LFQueue α} {checked checked' : Prop}

/-- A queue that is pushed to less than the check allows stays below. -/
theorem imp (below : Below q checked) (slots : q'.capacity = q.capacity)
    (fewer : q'.numElements ≤ q.numElements) (weaker : checked' → checked) :
    Below q' checked' :=
  ⟨slots.trans below.slots, Nat.le_trans fewer below.le,
    fun c => Nat.lt_of_le_of_lt fewer (below.lt (weaker c))⟩

/-- The occupancy of a queue below the mark leaves a slot for every element in it. -/
theorem room {sent : List α} {reads : Nat} {w : LFQueue.Writing} {p : LFQueue.Popping}
    (below : Below q checked) (pops : q.Pops sent reads w p) :
    sent.length ≤ reads + q.capacity := by
  have count := pops.holds.count
  have le := below.le
  have one : w.uncounted ≤ 1 := by
    cases w
    all_goals simp [LFQueue.Writing.uncounted]
  rw [below.slots]
  simp only [backpressureMark, ME_MAX_MARKET_UPDATES] at le ⊢
  omega

end Below

namespace Keeps

variable {rows : List MEMarketUpdate} {s s' : Backtest} {out now : List ReplayEvent}

theorem start (rows : List MEMarketUpdate) (hasSimOutput queueAware : Bool) :
    Keeps rows (Backtest.start rows hasSimOutput queueAware) (.of []) := by
  have pos : 0 < ME_MAX_MARKET_UPDATES := by
    rw [ME_MAX_MARKET_UPDATES]
    omega
  have below : ∀ {α : Type} (value : α), Below (LFQueue.new ME_MAX_MARKET_UPDATES value) False :=
    fun value => ⟨rfl, Nat.zero_le _, False.elim⟩
  refine ⟨LFQueue.Pops.new pos _, LFQueue.Pops.new pos _, LFQueue.Pops.new pos _, below _,
    (below _).imp rfl (Nat.le_refl _) And.right, below _, rfl,
    ⟨List.nil_prefix, fun _ => rfl, False.elim⟩, List.nil_prefix, List.nil_prefix,
    List.nil_prefix⟩

/-- The wait is over. -/
theorem number {u : MEMarketUpdate} (keeps : Keeps rows s (.of out))
    (next : s.unemitted = numbered s.seqNum (u :: s.rows))
    (idleOutput : s.writingOutput = .idle) (idleSim : s.writingSim = .idle)
    (settled : s.replay.unteed = [])
    (outputMark : s.outputQueue.numElements < backpressureMark)
    (simMark : s.hasSimOutput = true → s.simOutputQueue.numElements < backpressureMark) :
    Keeps rows (s.number u) (.of out) := by
  obtain ⟨output, sim, incoming, outputBelow, simBelow, incomingBelow, emitted, teed, passed, seen,
    simulated⟩ := keeps
  rw [idleOutput] at output
  rw [idleSim] at sim
  rw [next] at emitted
  refine ⟨output, sim, incoming, ⟨outputBelow.slots, outputBelow.le, fun _ => outputMark⟩,
    ⟨simBelow.slots, simBelow.le, fun checked => simMark checked.1⟩, incomingBelow, emitted,
    ⟨teed.prefixed, ?_, False.elim⟩, passed, seen, simulated⟩
  intro has
  have all := teed.all has
  rw [settled] at all
  exact all

/-- A step of the replay. -/
theorem replayStep (keeps : Keeps rows s (.of out)) :
    Keeps rows s.replayStep.1 (.of (out ++ s.replayStep.2)) := by
  have whole := keeps
  obtain ⟨output, sim, incoming, outputBelow, simBelow, incomingBelow, emitted, teed, passed, seen,
    simulated⟩ := keeps
  unfold Backtest.replayStep
  split
  all_goals
    rename_i position
    simp only [writingOutput, writingSim, unemitted, position] at output sim emitted
    rw [position] at outputBelow simBelow teed
  · split
    · rw [List.append_nil]
      exact whole
    · rename_i unit
      rw [List.append_nil]
      rw [unit] at emitted
      exact ⟨output, sim, incoming, outputBelow, simBelow, incomingBelow, emitted,
        ⟨teed.prefixed, teed.all, False.elim⟩, passed, seen, simulated⟩
  · rename_i u
    split
    · rw [List.append_nil]
      exact whole
    · rename_i low
      split
      · rw [List.append_nil]
        exact ⟨output, sim, incoming,
          ⟨outputBelow.slots, outputBelow.le, fun _ => Nat.lt_of_not_le low⟩, simBelow,
          incomingBelow, emitted, ⟨teed.prefixed, teed.all, False.elim⟩, passed, seen, simulated⟩
      · rename_i noSim
        rw [List.append_nil]
        exact whole.number (by rw [unemitted, position]) (by rw [writingOutput, position])
          (by rw [writingSim, position]) (by rw [position]; rfl) (Nat.lt_of_not_le low)
          fun has => absurd has noSim
  · rename_i u
    split
    · rw [List.append_nil]
      exact ⟨output, sim, incoming, outputBelow.imp rfl (Nat.le_refl _) False.elim, simBelow,
        incomingBelow, emitted, ⟨teed.prefixed, teed.all, False.elim⟩, passed, seen, simulated⟩
    · rename_i low
      rw [List.append_nil]
      exact whole.number (by rw [unemitted, position]) (by rw [writingOutput, position])
        (by rw [writingSim, position]) (by rw [position]; rfl) (outputBelow.lt trivial)
        fun _ => Nat.lt_of_not_le low
  · rename_i mdp
    rw [ReplayFlow.of_emitted]
    refine ⟨output.write mdp, sim, incoming, outputBelow.imp rfl (Nat.le_refl _) id, simBelow,
      incomingBelow, ?_, ⟨teed.prefixed.trans (List.prefix_append _ _), ?_, False.elim⟩, ?_, seen,
      simulated⟩
    · rw [List.append_assoc]
      exact emitted
    · intro has
      have all : (ReplayFlow.of out).teed ++ [] = (ReplayFlow.of out).emitted := teed.all has
      rw [← all, List.append_nil]
      rfl
    · rw [List.map_append]
      exact passed.trans (List.prefix_append _ _)
  · rename_i mdp
    rw [List.append_nil]
    exact ⟨output.advanceWrite, sim, incoming, outputBelow.imp rfl (Nat.le_refl _) id, simBelow,
      incomingBelow, emitted, ⟨teed.prefixed, teed.all, False.elim⟩, passed, seen, simulated⟩
  · rename_i mdp
    rw [List.append_nil]
    have counted : Below s.outputQueue.countWrite False :=
      ⟨outputBelow.slots, outputBelow.lt trivial, False.elim⟩
    split
    · rename_i has
      exact ⟨output.countWrite, sim, incoming, counted, simBelow, incomingBelow, emitted,
        ⟨teed.prefixed, teed.all, fun _ => has⟩, passed, seen, simulated⟩
    · rename_i noSim
      exact ⟨output.countWrite, sim, incoming, counted,
        simBelow.imp rfl (Nat.le_refl _) fun checked => absurd checked.1 noSim, incomingBelow,
        emitted, ⟨teed.prefixed, fun has => absurd has noSim, False.elim⟩, passed, seen,
        simulated⟩
  · rename_i mdp
    have all := teed.all (teed.only trivial)
    rw [ReplayFlow.of_teed]
    refine ⟨output, sim.write mdp, incoming, outputBelow, simBelow.imp rfl (Nat.le_refl _) id,
      incomingBelow, emitted, ⟨?_, ?_, teed.only⟩, passed, seen, ?_⟩
    · rw [← all]
      exact List.prefix_rfl
    · intro _
      rw [← all]
      exact List.append_nil _
    · rw [List.map_append]
      exact simulated.trans (List.prefix_append _ _)
  · rename_i mdp
    rw [List.append_nil]
    exact ⟨output, sim.advanceWrite, incoming, outputBelow, simBelow.imp rfl (Nat.le_refl _) id,
      incomingBelow, emitted, ⟨teed.prefixed, teed.all, teed.only⟩, passed, seen, simulated⟩
  · rw [List.append_nil]
    exact ⟨output, sim.countWrite, incoming, outputBelow,
      ⟨simBelow.slots, simBelow.lt ⟨teed.only trivial, trivial⟩, fun checked => checked.2.elim⟩,
      incomingBelow, emitted, ⟨teed.prefixed, teed.all, False.elim⟩, passed, seen, simulated⟩

/-- A step of the consumer. -/
theorem consumerStep (keeps : Keeps rows s (.of out)) :
    ∃ s' now, s.consumerStep = .ok (s', now) ∧ Keeps rows s' (.of (out ++ now)) := by
  have whole := keeps
  obtain ⟨output, sim, incoming, outputBelow, simBelow, incomingBelow, emitted, teed, passed, seen,
    simulated⟩ := keeps
  have room := outputBelow.room output
  unfold Backtest.consumerStep
  cases position : s.consumer with
  | idle =>
      simp only [writingIncoming, position] at output incoming
      rw [position] at incomingBelow
      cases head : s.outputQueue.getNextToRead with
      | none => exact ⟨s, [], rfl, by rwa [List.append_nil]⟩
      | some slot =>
          refine ⟨_, _, rfl, ?_⟩
          rw [List.append_nil]
          exact ⟨output.hold head, sim, incoming, outputBelow, simBelow, incomingBelow, emitted,
            teed, passed, seen, simulated⟩
  | held slot =>
      simp only [writingIncoming, position] at output incoming
      rw [position] at incomingBelow
      simp only
      split
      all_goals
        refine ⟨_, _, rfl, ?_⟩
        rw [List.append_nil]
        exact ⟨output, sim, incoming, outputBelow, simBelow, incomingBelow, emitted, teed, passed,
          seen, simulated⟩
  | waiting slot =>
      simp only [writingIncoming, position] at output incoming
      rw [position] at incomingBelow
      simp only
      split
      · exact ⟨s, [], rfl, by rwa [List.append_nil]⟩
      · rename_i low
        refine ⟨_, _, rfl, ?_⟩
        rw [List.append_nil]
        exact ⟨output, sim, incoming, outputBelow, simBelow,
          ⟨incomingBelow.slots, incomingBelow.le, fun _ => Nat.lt_of_not_le low⟩, emitted, teed,
          passed, seen, simulated⟩
  | pushing slot w =>
      simp only [writingIncoming, position] at output incoming
      rw [position] at incomingBelow
      cases w with
      | idle =>
          have next := output.front room
          refine ⟨_, _, rfl, ?_⟩
          rw [ReplayFlow.of_passed]
          refine ⟨?_, sim, incoming.write _, outputBelow, simBelow,
            incomingBelow.imp rfl (Nat.le_refl _) id, emitted, teed, ?_,
            seen.trans (List.prefix_append _ _), simulated⟩
          · rw [List.length_append]
            exact output.use
          · refine LFQueue.prefix_concat passed ?_
            rw [List.getElem?_map, next]
            rfl
      | written =>
          refine ⟨_, _, rfl, ?_⟩
          rw [List.append_nil]
          exact ⟨output, sim, incoming.advanceWrite, outputBelow, simBelow,
            incomingBelow.imp rfl (Nat.le_refl _) id, emitted, teed, passed, seen, simulated⟩
      | advanced =>
          refine ⟨_, _, rfl, ?_⟩
          rw [List.append_nil]
          exact ⟨output, sim, incoming.countWrite, outputBelow, simBelow,
            ⟨incomingBelow.slots, incomingBelow.lt trivial, False.elim⟩, emitted, teed, passed,
            seen, simulated⟩
  | used slot =>
      simp only [writingIncoming, position] at output incoming
      rw [position] at incomingBelow
      refine ⟨_, _, rfl, ?_⟩
      rw [List.append_nil]
      exact ⟨output.advanceRead, sim, incoming, outputBelow.imp rfl (Nat.le_refl _) id, simBelow,
        incomingBelow, emitted, teed, passed, seen, simulated⟩
  | advanced slot =>
      simp only [writingIncoming, position] at output incoming
      rw [position] at incomingBelow
      obtain ⟨q', counted, capacity, fewer, left⟩ := output.countRead
      refine ⟨{ s with outputQueue := q', consumer := .idle }, [], ?_, ?_⟩
      · simp only [counted, bind, Except.bind, pure, Except.pure]
      · rw [List.append_nil]
        exact ⟨left, sim, incoming, outputBelow.imp capacity fewer id, simBelow, incomingBelow,
          emitted, teed, passed, seen, simulated⟩

/-- A step of the trade engine. -/
theorem engineStep (keeps : Keeps rows s (.of out)) :
    ∃ s' now, s.engineStep = .ok (s', now) ∧ Keeps rows s' (.of (out ++ now)) := by
  obtain ⟨output, sim, incoming, outputBelow, simBelow, incomingBelow, emitted, teed, passed, seen,
    simulated⟩ := keeps
  have room := incomingBelow.room incoming
  obtain ⟨q', position, read, popped, capacity, fewer, left, next⟩ := incoming.popStep
  refine ⟨{ s with incomingMdUpdates := q', tradeEngine := position }, read.toList.map .seen, ?_,
    ?_⟩
  · simp only [Backtest.engineStep, popped, bind, Except.bind, pure, Except.pure]
  · cases read with
    | none =>
        rw [Option.toList_none, List.map_nil, List.append_nil]
        exact ⟨output, sim, left, outputBelow, simBelow, incomingBelow.imp capacity fewer id,
          emitted, teed, passed, seen, simulated⟩
    | some u =>
        rw [Option.toList_some, List.map_singleton, ReplayFlow.of_seen]
        refine ⟨output, sim, ?_, outputBelow, simBelow, incomingBelow.imp capacity fewer id,
          emitted, teed, passed, LFQueue.prefix_concat seen (next u rfl room), simulated⟩
        rw [List.length_append]
        exact left

/-- A step of the fill simulator. -/
theorem simulatorStep (keeps : Keeps rows s (.of out)) :
    ∃ s' now, s.simulatorStep = .ok (s', now) ∧ Keeps rows s' (.of (out ++ now)) := by
  have whole := keeps
  obtain ⟨output, sim, incoming, outputBelow, simBelow, incomingBelow, emitted, teed, passed, seen,
    simulated⟩ := keeps
  have room := simBelow.room sim
  unfold Backtest.simulatorStep
  split
  · obtain ⟨q', position, read, popped, capacity, fewer, left, next⟩ := sim.popStep
    refine ⟨{ s with simOutputQueue := q', fillSimulator := position },
      read.toList.map fun mdp => .simulated mdp.meMarketUpdate, ?_, ?_⟩
    · simp only [popped, bind, Except.bind, pure, Except.pure]
    · cases read with
      | none =>
          rw [Option.toList_none, List.map_nil, List.append_nil]
          exact ⟨output, left, incoming, outputBelow, simBelow.imp capacity fewer id,
            incomingBelow, emitted, teed, passed, seen, simulated⟩
      | some mdp =>
          rw [Option.toList_some, List.map_singleton, ReplayFlow.of_simulated]
          refine ⟨output, ?_, incoming, outputBelow, simBelow.imp capacity fewer id,
            incomingBelow, emitted, teed, passed, seen, LFQueue.prefix_concat simulated ?_⟩
          · rw [List.length_append]
            exact left
          · rw [List.getElem?_map, next mdp rfl room]
            rfl
  · exact ⟨s, [], rfl, by rwa [List.append_nil]⟩

/-- One step of any thread. -/
theorem step (keeps : Keeps rows s (.of out)) (thread : BacktestThread) :
    ∃ s' now, s.step thread = .ok (s', now) ∧ Keeps rows s' (.of (out ++ now)) := by
  cases thread with
  | replay => exact ⟨_, _, rfl, keeps.replayStep⟩
  | marketDataConsumer => exact keeps.consumerStep
  | tradeEngine => exact keeps.engineStep
  | fillSimulator => exact keeps.simulatorStep

end Keeps

/-- **The pipeline loses nothing.** For all rows, with and without the queue of the fill
simulator, and every interleaving of the four threads: no queue counts or holds more updates
than it has slots, what the replay emitted is a prefix of its rows under rising sequence
numbers, and what the trade engine and the fill simulator saw are prefixes of it. -/
theorem run_pipeline_lossless (rows : List MEMarketUpdate) (hasSimOutput queueAware : Bool)
    (schedule : List BacktestThread) :
    ∃ s out, run step (start rows hasSimOutput queueAware) schedule = .ok (s, out) ∧
      s.outputQueue.size ≤ ME_MAX_MARKET_UPDATES ∧
      s.simOutputQueue.size ≤ ME_MAX_MARKET_UPDATES ∧
      s.incomingMdUpdates.size ≤ ME_MAX_MARKET_UPDATES ∧
      (emits out).length ≤ (passes out).length + ME_MAX_MARKET_UPDATES ∧
      (tees out).length ≤ (simulations out).length + ME_MAX_MARKET_UPDATES ∧
      (passes out).length ≤ (sees out).length + ME_MAX_MARKET_UPDATES ∧
      emits out <+: numbered 1 rows ∧
      sees out <+: (emits out).map MDPMarketUpdate.meMarketUpdate ∧
      simulations out <+: (emits out).map MDPMarketUpdate.meMarketUpdate := by
  have along : Admits (fun _ _ => True) step (start rows hasSimOutput queueAware) schedule :=
    admits_of_forall (fun _ _ => trivial) _ _
  obtain ⟨s, out, ran, keeps⟩ := run_admitted (P := fun s _ out => Keeps rows s (.of out))
    (Keeps.start rows hasSimOutput queueAware) (fun keeps _ => keeps.step _) along
  have belowCapacity : ∀ {n}, n ≤ backpressureMark → n ≤ ME_MAX_MARKET_UPDATES := by
    intro n low
    rw [backpressureMark] at low
    omega
  refine ⟨s, out, ran, belowCapacity keeps.outputBelow.le, belowCapacity keeps.simBelow.le,
    belowCapacity keeps.incomingBelow.le, ?_, ?_, ?_, ⟨_, keeps.emitted⟩,
    keeps.seen.trans keeps.passed, keeps.simulated.trans (keeps.teed.prefixed.map _)⟩
  · have room := keeps.outputBelow.room keeps.output
    rw [keeps.outputBelow.slots] at room
    exact room
  · have room := keeps.simBelow.room keeps.sim
    rw [keeps.simBelow.slots] at room
    exact room
  · have room := keeps.incomingBelow.room keeps.incoming
    rw [keeps.incomingBelow.slots] at room
    exact room

end Backtest

end NanoTrade
