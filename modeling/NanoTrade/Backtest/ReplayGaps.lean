import NanoTrade.Backtest.Pipeline
import NanoTrade.Trading.MarketDataConsumer

/-!
# Gaps in the replay

In replay mode the consumer takes its updates from a queue. Behind an update whose number is not
the next one it counts on from there, and logs that it drops the update; but it writes that update
to `incoming_md_updates_` as any other, where the live path passes on nothing but the next number.

* `dropsGaps_iff`: the replay branch drops what it says it drops exactly where there is nothing to
  drop.
* `not_dropsGaps_repeated`: an update that comes twice is passed on twice.
-/

namespace NanoTrade

namespace MarketDataConsumer

/-- One turn of the loop of the replay branch of `run`, with what is written to
`incoming_md_updates_` under the number it came with. -/
def replay (s : MarketDataConsumer) (request : MDPMarketUpdate) :
    MarketDataConsumer × List MDPMarketUpdate :=
  if s.inRecovery = true ∨ request.seqNum ≠ s.nextExpIncSeqNum then
    -- "Replay gap seq expected:% got:% — dropping."
    ({ s with inRecovery := false, nextExpIncSeqNum := request.seqNum + 1 }, [request])
  else ({ s with nextExpIncSeqNum := s.nextExpIncSeqNum + 1 }, [request])

/-- What is passed on has the next expected number at that moment. -/
def PassesExpected (s : MarketDataConsumer) (request : MDPMarketUpdate) : Prop :=
  ∀ m ∈ (s.replay request).2, m.seqNum = s.nextExpIncSeqNum

/-- The replay branch drops what it says it drops: only the next number is passed on, so numbers
increase and nothing is passed on twice. -/
structure DropsGaps (requests : List MDPMarketUpdate) : Prop where
  expected : Along PassesExpected replay .new requests
  increasing : ((runTotal replay .new requests).2.map MDPMarketUpdate.seqNum).Pairwise (· < ·)

variable {s : MarketDataConsumer} {request : MDPMarketUpdate} {requests : List MDPMarketUpdate}

/-! ## One update -/

/-- Whatever its number, an update is passed on. -/
theorem replay_passes (s : MarketDataConsumer) (request : MDPMarketUpdate) :
    (s.replay request).2 = [request] := by
  unfold replay
  split
  · rfl
  · rfl

theorem replay_state (s : MarketDataConsumer) (request : MDPMarketUpdate)
    (calm : s.inRecovery = false) :
    (s.replay request).1.inRecovery = false ∧
      (s.replay request).1.nextExpIncSeqNum = request.seqNum + 1 := by
  unfold replay
  split
  · exact ⟨rfl, rfl⟩
  · rename_i next
    rw [not_or, not_not] at next
    exact ⟨calm, congrArg (· + 1) next.2.symm⟩

/-- On the next number the two paths do the same. -/
theorem replay_eq_receive (calm : s.inRecovery = false)
    (next : request.seqNum = s.nextExpIncSeqNum) :
    (s.receive false request).1 = (s.replay request).1 ∧
      (s.receive false request).2 =
        (s.replay request).2.map fun m => .pushed m.meMarketUpdate := by
  have expected : ¬ (s.inRecovery = true ∨ request.seqNum ≠ s.nextExpIncSeqNum) := by
    rw [not_or, calm]
    exact ⟨Bool.false_ne_true, not_not.mpr next⟩
  unfold receive replay
  rw [if_neg expected, if_neg expected]
  exact ⟨rfl, rfl⟩

/-- The turn of the consumer's thread that looks at the number. -/
theorem consumerStep_held (b : Backtest) {slot : Nat} (held : b.consumer = .held slot) :
    let s : MarketDataConsumer :=
      { new with nextExpIncSeqNum := b.nextExpIncSeqNum, inRecovery := b.inRecovery }
    let t := (s.replay (b.outputQueue.store slot)).1
    b.consumerStep = .ok ({ b with
      inRecovery := t.inRecovery, nextExpIncSeqNum := t.nextExpIncSeqNum
      consumer := .waiting slot }, []) := by
  unfold Backtest.consumerStep replay
  rw [held]
  simp only
  split
  · rfl
  · rfl

/-! ## A queue of updates -/

/-- Everything is passed on, in the order in which it comes. -/
theorem run_replay (s : MarketDataConsumer) (requests : List MDPMarketUpdate) :
    (runTotal replay s requests).2 = requests := by
  induction requests generalizing s with
  | nil => rfl
  | cons request requests ih =>
      rw [runTotal, replay_passes, ih, List.singleton_append]

/-- Along the queue every number is the next one where they count on from the first. -/
theorem along_passesExpected (calm : s.inRecovery = false) :
    Along PassesExpected replay s requests ↔
      requests.map MDPMarketUpdate.seqNum = List.range' s.nextExpIncSeqNum requests.length := by
  induction requests generalizing s with
  | nil => exact ⟨fun _ => rfl, fun _ => trivial⟩
  | cons request requests ih =>
      obtain ⟨calm', next⟩ := replay_state s request calm
      rw [Along, ih calm', next, PassesExpected, replay_passes, List.forall_mem_singleton,
        List.map_cons, List.length_cons, List.range'_succ, List.cons.injEq]
      refine and_congr_right fun same => ?_
      rw [same]

/-- **The replay branch drops its gaps** exactly where it has none: where the updates are numbered
1, 2, 3 and so on. -/
theorem dropsGaps_iff (requests : List MDPMarketUpdate) :
    DropsGaps requests ↔
      requests.map MDPMarketUpdate.seqNum = List.range' 1 requests.length := by
  constructor
  · intro drops
    exact (along_passesExpected rfl).mp drops.expected
  · intro counts
    refine ⟨(along_passesExpected rfl).mpr counts, ?_⟩
    rw [run_replay, counts]
    exact List.pairwise_lt_range'

/-- An update that comes twice. -/
theorem not_dropsGaps_repeated :
    ¬ DropsGaps
      [⟨1, ⟨.ADD, 0, 0, .BUY, 100, 10, 1⟩⟩, ⟨1, ⟨.ADD, 0, 0, .BUY, 100, 10, 1⟩⟩] := by
  intro drops
  have twice := drops.increasing
  revert twice
  decide

end MarketDataConsumer

end NanoTrade
