import NanoTrade.Exchange.MEOrderBook
import NanoTrade.LFQueue

/-!
# The queues inside the exchange

The matching engine writes to two queues through `sendClientResponse` and `sendMarketUpdate`;
`OrderServer::run` reads the one, `MarketDataPublisher::run` the other. The three threads
interleave in any order. Nothing keeps the engine from running a whole turn ahead of a reader.

`run_lossless`: what is read is a prefix of what is sent while no more messages are under way
in a queue than it has slots.
-/

namespace NanoTrade

/-- The threads of the exchange. -/
inductive ExchangeThread
  | matchingEngine
  | orderServer
  | marketDataPublisher
  deriving DecidableEq, Repr

/-- What the threads do with the messages. -/
inductive QueueEvent
  /-- `sendClientResponse` or `sendMarketUpdate` wrote to its queue. -/
  | sent (m : MEMessage)
  /-- `OrderServer::run` sent a response to its client. -/
  | responded (r : MEClientResponse)
  /-- `MarketDataPublisher::run` sent an update on the incremental stream. -/
  | published (u : MEMarketUpdate)
  /-- `MarketDataPublisher::run` passed an update on to the snapshot synthesizer. -/
  | forwarded (u : MEMarketUpdate)
  deriving DecidableEq, Repr

namespace QueueEvent

/-- The messages that were sent. -/
def sends : List QueueEvent → List MEMessage :=
  List.filterMap fun
    | .sent m => some m
    | _ => none

def responds : List QueueEvent → List MEClientResponse :=
  List.filterMap fun
    | .responded r => some r
    | _ => none

def publishes : List QueueEvent → List MEMarketUpdate :=
  List.filterMap fun
    | .published u => some u
    | _ => none

def forwards : List QueueEvent → List MEMarketUpdate :=
  List.filterMap fun
    | .forwarded u => some u
    | _ => none

variable (es fs : List QueueEvent)

@[simp] theorem sends_append : sends (es ++ fs) = sends es ++ sends fs :=
  List.filterMap_append

@[simp] theorem responds_append : responds (es ++ fs) = responds es ++ responds fs :=
  List.filterMap_append

@[simp] theorem publishes_append : publishes (es ++ fs) = publishes es ++ publishes fs :=
  List.filterMap_append

@[simp] theorem forwards_append : forwards (es ++ fs) = forwards es ++ forwards fs :=
  List.filterMap_append

end QueueEvent

/-- Where `MarketDataPublisher::run` is in its loop: it reads an update once more when the
slot is already given back. -/
inductive Publishing
  | popping (p : LFQueue.Popping)
  | released (slot : Nat)
  deriving DecidableEq, Repr

structure ExchangeThreads where
  engine : MatchingEngine
  /-- The requests that will be read from `incoming_requests_`. -/
  requests : List MEClientRequest
  /-- What the request in hand has still to send. -/
  sending : List MEMessage
  writing : LFQueue.Writing
  outgoingResponses : LFQueue MEClientResponse
  server : LFQueue.Popping
  outgoingUpdates : LFQueue MEMarketUpdate
  publisher : Publishing

namespace ExchangeThreads

def start (tickerBasePrices : TickerId → Price) (requests : List MEClientRequest) :
    ExchangeThreads :=
  { engine := MatchingEngine.new tickerBasePrices, requests, sending := [], writing := .idle
    outgoingResponses := LFQueue.new ME_MAX_CLIENT_UPDATES
      ⟨.INVALID, ClientId_INVALID, TickerId_INVALID, OrderId_INVALID, OrderId_INVALID, .INVALID,
        Price_INVALID, Qty_INVALID, Qty_INVALID⟩
    server := .idle
    outgoingUpdates := LFQueue.new ME_MAX_MARKET_UPDATES
      ⟨.INVALID, OrderId_INVALID, TickerId_INVALID, .INVALID, Price_INVALID, Qty_INVALID,
        Priority_INVALID⟩
    publisher := .popping .idle }

/-- `MatchingEngine::run`. The messages of a request are sent one after the other. -/
def engineStep (s : ExchangeThreads) : Except Fault (ExchangeThreads × List QueueEvent) :=
  match s.sending, s.writing with
  | [], _ =>
    match s.requests with
    | [] => .ok (s, [])
    | r :: rs => do
      let (engine, messages) ← s.engine.processClientRequest r
      pure ({ s with engine, requests := rs, sending := messages }, [])
  | .response r :: _, .idle =>
    .ok ({ s with outgoingResponses := s.outgoingResponses.write r, writing := .written },
      [.sent (.response r)])
  | .response _ :: _, .written =>
    .ok ({ s with outgoingResponses := s.outgoingResponses.advanceWrite, writing := .advanced },
      [])
  | .response _ :: rest, .advanced =>
    .ok ({ s with
      outgoingResponses := s.outgoingResponses.countWrite, writing := .idle, sending := rest },
      [])
  | .update u :: _, .idle =>
    .ok ({ s with outgoingUpdates := s.outgoingUpdates.write u, writing := .written },
      [.sent (.update u)])
  | .update _ :: _, .written =>
    .ok ({ s with outgoingUpdates := s.outgoingUpdates.advanceWrite, writing := .advanced }, [])
  | .update _ :: rest, .advanced =>
    .ok ({ s with
      outgoingUpdates := s.outgoingUpdates.countWrite, writing := .idle, sending := rest }, [])

/-- The loop over the responses of `OrderServer::run`. -/
def serverStep (s : ExchangeThreads) : Except Fault (ExchangeThreads × List QueueEvent) :=
  match s.server with
  | .idle =>
    match s.outgoingResponses.getNextToRead with
    | some slot => .ok ({ s with server := .held slot }, [])
    | none => .ok (s, [])
  | .held slot =>
    if s.outgoingResponses.size ≠ 0 then
      .ok ({ s with server := .used slot }, [.responded (s.outgoingResponses.store slot)])
    else .ok ({ s with server := .idle }, [])
  | .used slot =>
    .ok ({ s with
      outgoingResponses := s.outgoingResponses.advanceRead, server := .advanced slot }, [])
  | .advanced _ => do
    let queue ← s.outgoingResponses.countRead
    pure ({ s with outgoingResponses := queue, server := .idle }, [])

/-- The loop of `MarketDataPublisher::run`. -/
def publisherStep (s : ExchangeThreads) : Except Fault (ExchangeThreads × List QueueEvent) :=
  match s.publisher with
  | .popping .idle =>
    match s.outgoingUpdates.getNextToRead with
    | some slot => .ok ({ s with publisher := .popping (.held slot) }, [])
    | none => .ok (s, [])
  | .popping (.held slot) =>
    if s.outgoingUpdates.size ≠ 0 then
      .ok ({ s with publisher := .popping (.used slot) },
        [.published (s.outgoingUpdates.store slot)])
    else .ok ({ s with publisher := .popping .idle }, [])
  | .popping (.used slot) =>
    .ok ({ s with
      outgoingUpdates := s.outgoingUpdates.advanceRead, publisher := .popping (.advanced slot) },
      [])
  | .popping (.advanced slot) => do
    let queue ← s.outgoingUpdates.countRead
    pure ({ s with outgoingUpdates := queue, publisher := .released slot }, [])
  | .released slot =>
    .ok ({ s with publisher := .popping .idle }, [.forwarded (s.outgoingUpdates.store slot)])

def step (s : ExchangeThreads) : ExchangeThread →
    Except Fault (ExchangeThreads × List QueueEvent)
  | .matchingEngine => s.engineStep
  | .orderServer => s.serverStep
  | .marketDataPublisher => s.publisherStep

/-! ## What a step does to the messages -/

section Emits

variable {s s' : ExchangeThreads} {now : List QueueEvent}

theorem engineStep_emits (ran : s.engineStep = .ok (s', now)) :
    now = [] ∨ ∃ m, now = [.sent m] := by
  unfold engineStep at ran
  split at ran
  · split at ran
    · cases ran
      exact .inl rfl
    · obtain ⟨result, -, ran⟩ := bind_eq_ok.mp ran
      cases ran
      exact .inl rfl
  all_goals cases ran
  · exact .inr ⟨_, rfl⟩
  · exact .inl rfl
  · exact .inl rfl
  · exact .inr ⟨_, rfl⟩
  · exact .inl rfl
  · exact .inl rfl

theorem serverStep_emits (ran : s.serverStep = .ok (s', now)) :
    now = [] ∨ ∃ slot, s.server = .held slot ∧
      now = [.responded (s.outgoingResponses.store slot)] := by
  unfold serverStep at ran
  split at ran
  · split at ran
    all_goals
      cases ran
      exact .inl rfl
  · rename_i slot position
    split at ran
    · cases ran
      exact .inr ⟨slot, position, rfl⟩
    · cases ran
      exact .inl rfl
  · cases ran
    exact .inl rfl
  · obtain ⟨queue, -, ran⟩ := bind_eq_ok.mp ran
    cases ran
    exact .inl rfl

theorem publisherStep_emits (ran : s.publisherStep = .ok (s', now)) :
    now = [] ∨
      (∃ slot, s.publisher = .popping (.held slot) ∧
        now = [.published (s.outgoingUpdates.store slot)]) ∨
      ∃ slot, s.publisher = .released slot ∧
        now = [.forwarded (s.outgoingUpdates.store slot)] := by
  unfold publisherStep at ran
  split at ran
  · split at ran
    all_goals
      cases ran
      exact .inl rfl
  · rename_i slot position
    split at ran
    · cases ran
      exact .inr (.inl ⟨slot, position, rfl⟩)
    · cases ran
      exact .inl rfl
  · cases ran
    exact .inl rfl
  · obtain ⟨queue, -, ran⟩ := bind_eq_ok.mp ran
    cases ran
    exact .inl rfl
  · rename_i slot position
    cases ran
    exact .inr (.inr ⟨slot, position, rfl⟩)

/-- A step sends or reads at most one message. -/
theorem step_emits {thread : ExchangeThread} (ran : s.step thread = .ok (s', now)) :
    now.length ≤ 1 := by
  cases thread with
  | matchingEngine =>
      rcases engineStep_emits ran with rfl | ⟨m, rfl⟩
      · exact Nat.zero_le 1
      · exact Nat.le_refl 1
  | orderServer =>
      rcases serverStep_emits ran with rfl | ⟨slot, -, rfl⟩
      · exact Nat.zero_le 1
      · exact Nat.le_refl 1
  | marketDataPublisher =>
      rcases publisherStep_emits ran with rfl | ⟨slot, -, rfl⟩ | ⟨slot, -, rfl⟩
      · exact Nat.zero_le 1
      · exact Nat.le_refl 1
      · exact Nat.le_refl 1

end Emits

/-! ## What every interleaving keeps -/

/-- How far the engine is in a push to the one queue, -/
def writingResponse (s : ExchangeThreads) : LFQueue.Writing :=
  match s.sending with
  | .response _ :: _ => s.writing
  | _ => .idle

/-- and to the other. -/
def writingUpdate (s : ExchangeThreads) : LFQueue.Writing :=
  match s.sending with
  | .update _ :: _ => s.writing
  | _ => .idle

end ExchangeThreads

namespace Publishing

def reader : Publishing → LFQueue.Popping
  | .popping p => p
  | .released _ => .idle

/-- `forwards` updates were passed on when `publishes` were sent. -/
def At (publishes forwards capacity : Nat) : Publishing → Prop
  | .popping .idle => publishes = forwards
  | .popping (.held _) => publishes = forwards
  | .popping (.used _) => publishes = forwards + 1
  | .popping (.advanced _) => publishes = forwards + 1
  | .released slot => publishes = forwards + 1 ∧ slot = forwards % capacity

end Publishing

namespace ExchangeThreads

open QueueEvent

/-- The queues hold what was sent, up to what was read. -/
structure Keeps (s : ExchangeThreads) (out : List QueueEvent) : Prop where
  settled : s.sending = [] → s.writing = .idle
  responses : s.outgoingResponses.Pops (responses (sends out)) (responds out).length
    s.writingResponse s.server
  updates : s.outgoingUpdates.Pops (updates (sends out)) (publishes out).length
    s.writingUpdate s.publisher.reader
  forwards : s.publisher.At (publishes out).length (forwards out).length
    ME_MAX_MARKET_UPDATES
  responseSlots : s.outgoingResponses.capacity = ME_MAX_CLIENT_UPDATES
  updateSlots : s.outgoingUpdates.capacity = ME_MAX_MARKET_UPDATES

namespace Keeps

variable {s s' : ExchangeThreads} {out now : List QueueEvent}

theorem start (tickerBasePrices : TickerId → Price) (requests : List MEClientRequest) :
    Keeps (ExchangeThreads.start tickerBasePrices requests) [] := by
  refine ⟨fun _ => rfl, LFQueue.Pops.new ?_ _, LFQueue.Pops.new ?_ _, rfl, rfl, rfl⟩
  · rw [ME_MAX_CLIENT_UPDATES]
    omega
  · rw [ME_MAX_MARKET_UPDATES]
    omega

/-- A step of the engine. -/
theorem engineStep (keeps : Keeps s out) (ran : s.engineStep = .ok (s', now)) :
    Keeps s' (out ++ now) := by
  obtain ⟨settled, heldResponses, heldUpdates, forwards, responseSlots, updateSlots⟩ := keeps
  unfold ExchangeThreads.engineStep at ran
  split at ran
  · rename_i nothing
    simp only [writingResponse, writingUpdate, nothing] at heldResponses heldUpdates
    split at ran
    · cases ran
      rw [List.append_nil]
      refine ⟨settled, ?_, ?_, forwards, responseSlots, updateSlots⟩
      · simpa only [writingResponse, nothing] using heldResponses
      · simpa only [writingUpdate, nothing] using heldUpdates
    · obtain ⟨⟨engine, messages⟩, -, ran⟩ := bind_eq_ok.mp ran
      cases ran
      -- the push of the last request is over, so the next one starts afresh
      have idle := settled nothing
      rw [List.append_nil]
      refine ⟨fun _ => idle, ?_, ?_, forwards, responseSlots, updateSlots⟩
      · simp only [writingResponse, idle]
        split
        all_goals exact heldResponses
      · simp only [writingUpdate, idle]
        split
        all_goals exact heldUpdates
  all_goals
    rename_i sending writing
    simp only [writingResponse, writingUpdate, sending, writing] at heldResponses heldUpdates
    cases ran
  · refine ⟨?_, ?_, ?_, ?_, responseSlots, updateSlots⟩
    · simp [sending]
    · simpa [writingResponse, sending, sends, responds] using heldResponses.write _
    · simpa [writingUpdate, sending, sends, publishes] using heldUpdates
    · simpa [publishes, QueueEvent.forwards] using forwards
  · rw [List.append_nil]
    refine ⟨?_, ?_, ?_, forwards, responseSlots, updateSlots⟩
    · simp [sending]
    · simpa only [writingResponse, sending] using heldResponses.advanceWrite
    · simpa only [writingUpdate, sending] using heldUpdates
  · rw [List.append_nil]
    refine ⟨fun _ => rfl, ?_, ?_, forwards, responseSlots, updateSlots⟩
    · simp only [writingResponse]
      split
      all_goals exact heldResponses.countWrite
    · simp only [writingUpdate]
      split
      all_goals exact heldUpdates
  · refine ⟨?_, ?_, ?_, ?_, responseSlots, updateSlots⟩
    · simp [sending]
    · simpa [writingResponse, sending, sends, responds] using heldResponses
    · simpa [writingUpdate, sending, sends, publishes] using heldUpdates.write _
    · simpa [publishes, QueueEvent.forwards] using forwards
  · rw [List.append_nil]
    refine ⟨?_, ?_, ?_, forwards, responseSlots, updateSlots⟩
    · simp [sending]
    · simpa only [writingResponse, sending] using heldResponses
    · simpa only [writingUpdate, sending] using heldUpdates.advanceWrite
  · rw [List.append_nil]
    refine ⟨fun _ => rfl, ?_, ?_, forwards, responseSlots, updateSlots⟩
    · simp only [writingResponse]
      split
      all_goals exact heldResponses
    · simp only [writingUpdate]
      split
      all_goals exact heldUpdates.countWrite

/-- A step of the order server. -/
theorem serverStep (keeps : Keeps s out) (ran : s.serverStep = .ok (s', now)) :
    Keeps s' (out ++ now) := by
  obtain ⟨settled, held, updates, forwards, responseSlots, updateSlots⟩ := keeps
  unfold ExchangeThreads.serverStep at ran
  split at ran
  · rename_i position
    rw [position] at held
    split at ran
    · rename_i head
      cases ran
      rw [List.append_nil]
      exact ⟨settled, held.hold head, updates, forwards, responseSlots, updateSlots⟩
    · cases ran
      rw [List.append_nil]
      exact ⟨settled, position ▸ held, updates, forwards, responseSlots, updateSlots⟩
  · rename_i position
    rw [position] at held
    rw [if_pos held.holds.size_ne_zero] at ran
    cases ran
    refine ⟨settled, ?_, ?_, ?_, responseSlots, updateSlots⟩
    · simpa [writingResponse, sends, responds] using held.use
    · simpa [writingUpdate, sends, publishes] using updates
    · simpa [publishes, QueueEvent.forwards] using forwards
  · rename_i position
    rw [position] at held
    cases ran
    rw [List.append_nil]
    exact ⟨settled, held.advanceRead, updates, forwards, responseSlots, updateSlots⟩
  · rename_i position
    rw [position] at held
    obtain ⟨queue, counted, capacity, -, left⟩ := held.countRead
    rw [counted] at ran
    cases ran
    rw [List.append_nil]
    exact ⟨settled, left, updates, forwards, capacity.trans responseSlots, updateSlots⟩

/-- A step of the publisher. -/
theorem publisherStep (keeps : Keeps s out) (ran : s.publisherStep = .ok (s', now)) :
    Keeps s' (out ++ now) := by
  obtain ⟨settled, responses, held, forwards, responseSlots, updateSlots⟩ := keeps
  unfold ExchangeThreads.publisherStep at ran
  split at ran
  · rename_i position
    rw [position] at held forwards
    split at ran
    · rename_i head
      cases ran
      rw [List.append_nil]
      exact ⟨settled, responses, held.hold head, forwards, responseSlots, updateSlots⟩
    · cases ran
      rw [List.append_nil]
      exact ⟨settled, responses, position ▸ held, position ▸ forwards, responseSlots,
        updateSlots⟩
  · rename_i position
    rw [position] at held forwards
    rw [if_pos held.holds.size_ne_zero] at ran
    cases ran
    refine ⟨settled, ?_, ?_, ?_, responseSlots, updateSlots⟩
    · simpa [writingResponse, sends, responds] using responses
    · simpa [writingUpdate, sends, publishes, Publishing.reader] using held.use
    · simpa [publishes, QueueEvent.forwards, Publishing.At] using forwards
  · rename_i position
    rw [position] at held forwards
    cases ran
    rw [List.append_nil]
    exact ⟨settled, responses, held.advanceRead, forwards, responseSlots, updateSlots⟩
  · rename_i position
    rw [position] at held forwards
    obtain ⟨queue, counted, capacity, -, left⟩ := held.countRead
    have isLast := held.slot.2
    rw [counted] at ran
    cases ran
    rw [List.append_nil]
    have count : (publishes out).length = (QueueEvent.forwards out).length + 1 := forwards
    rw [count, updateSlots, Nat.add_sub_cancel] at isLast
    exact ⟨settled, responses, left, ⟨count, isLast⟩, responseSlots, capacity.trans updateSlots⟩
  · rename_i position
    rw [position] at held forwards
    cases ran
    refine ⟨settled, ?_, ?_, ?_, responseSlots, updateSlots⟩
    · simpa [writingResponse, sends, responds] using responses
    · simpa [writingUpdate, sends, publishes, Publishing.reader] using held
    · simpa [publishes, QueueEvent.forwards, Publishing.At] using forwards.1

/-- One step of any thread. -/
theorem step {thread : ExchangeThread} (keeps : Keeps s out)
    (ran : s.step thread = .ok (s', now)) : Keeps s' (out ++ now) := by
  cases thread with
  | matchingEngine => exact keeps.engineStep ran
  | orderServer => exact keeps.serverStep ran
  | marketDataPublisher => exact keeps.publisherStep ran

end Keeps

/-! ## Runs in which the queues have room -/

/-- No queue holds more messages that are not read yet than it has slots. -/
def HasRoom (out : List QueueEvent) : Prop :=
  (responses (sends out)).length ≤ (responds out).length + ME_MAX_CLIENT_UPDATES ∧
    (updates (sends out)).length ≤ (forwards out).length + ME_MAX_MARKET_UPDATES

/-- What is read is a prefix of what is sent. -/
structure Lossless (out : List QueueEvent) : Prop where
  server : responds out <+: responses (sends out)
  publisher : publishes out <+: updates (sends out)
  synthesizer : forwards out <+: updates (sends out)

namespace Lossless

variable {s s' : ExchangeThreads} {out now : List QueueEvent}

/-- A message that is sent. -/
theorem send (lossless : Lossless out) (m : MEMessage) : Lossless (out ++ [.sent m]) := by
  have sent : sends (out ++ [.sent m]) = sends out ++ [m] := sends_append _ _
  refine ⟨?_, ?_, ?_⟩
  · rw [sent, responds_append, responses_append]
    exact (List.append_nil _).symm ▸ lossless.server.trans (List.prefix_append _ _)
  · rw [sent, publishes_append, updates_append]
    exact (List.append_nil _).symm ▸ lossless.publisher.trans (List.prefix_append _ _)
  · rw [sent, forwards_append, updates_append]
    exact (List.append_nil _).symm ▸ lossless.synthesizer.trans (List.prefix_append _ _)

theorem engineStep (lossless : Lossless out) (ran : s.engineStep = .ok (s', now)) :
    Lossless (out ++ now) := by
  rcases engineStep_emits ran with rfl | ⟨m, rfl⟩
  · rwa [List.append_nil]
  · exact lossless.send m

theorem serverStep (lossless : Lossless out) (keeps : Keeps s out) (room : HasRoom out)
    (ran : s.serverStep = .ok (s', now)) : Lossless (out ++ now) := by
  rcases serverStep_emits ran with rfl | ⟨slot, position, rfl⟩
  · rwa [List.append_nil]
  · have held := keeps.responses
    rw [position] at held
    have next := held.front (by
      rw [keeps.responseSlots]
      exact room.1)
    refine ⟨?_, ?_, ?_⟩
    · simpa [sends, responds] using LFQueue.prefix_concat lossless.server next
    · simpa [sends, publishes] using lossless.publisher
    · simpa [sends, forwards] using lossless.synthesizer

theorem publisherStep (lossless : Lossless out) (keeps : Keeps s out) (room : HasRoom out)
    (ran : s.publisherStep = .ok (s', now)) : Lossless (out ++ now) := by
  have held := keeps.updates
  have behind := keeps.forwards
  rcases publisherStep_emits ran with rfl | ⟨slot, position, rfl⟩ | ⟨slot, position, rfl⟩
  · rwa [List.append_nil]
  · rw [position] at held behind
    have next := held.front (by
      rw [keeps.updateSlots, show (publishes out).length = (forwards out).length from behind]
      exact room.2)
    refine ⟨?_, ?_, ?_⟩
    · simpa [sends, responds] using lossless.server
    · simpa [sends, publishes] using LFQueue.prefix_concat lossless.publisher next
    · simpa [sends, forwards] using lossless.synthesizer
  · -- the slot is read again after it was given back
    rw [position] at held behind
    rw [behind.1] at held
    have again := held.last (by
      rw [keeps.updateSlots]
      exact room.2) (keeps.updateSlots.symm ▸ behind.2)
    refine ⟨?_, ?_, ?_⟩
    · simpa [sends, responds] using lossless.server
    · simpa [sends, publishes] using lossless.publisher
    · simpa [sends, forwards] using LFQueue.prefix_concat lossless.synthesizer again

/-- One step of any thread, while the queues have room. -/
theorem step {thread : ExchangeThread} (lossless : Lossless out) (keeps : Keeps s out)
    (room : HasRoom out) (ran : s.step thread = .ok (s', now)) : Lossless (out ++ now) := by
  cases thread with
  | matchingEngine => exact lossless.engineStep ran
  | orderServer => exact lossless.serverStep keeps room ran
  | marketDataPublisher => exact lossless.publisherStep keeps room ran

end Lossless

/-- In every state of a run the queues have room. -/
def RunsWithRoom (s : ExchangeThreads) (schedule : List ExchangeThread) : Prop :=
  ∀ before, before <+: schedule → ∀ t out, run step s before = .ok (t, out) → HasRoom out

variable {tickerBasePrices : TickerId → Price} {requests : List MEClientRequest}
  {schedule : List ExchangeThread} {s : ExchangeThreads} {out : List QueueEvent}

theorem run_keeps (ran : run step (start tickerBasePrices requests) schedule = .ok (s, out)) :
    Keeps s out :=
  run_invariant (P := fun s _ out => Keeps s out) (Keeps.start tickerBasePrices requests)
    (fun keeps _ stepped => keeps.step stepped) ran

/-- **The queues inside the exchange lose nothing while they have room.** For all requests
and every interleaving of the three threads: if in no state of the run more messages of a
queue were sent and not read than the queue has slots, what the order server and the market
data publisher read is a prefix of what the matching engine sent. -/
theorem run_lossless
    (ran : run step (start tickerBasePrices requests) schedule = .ok (s, out))
    (room : RunsWithRoom (start tickerBasePrices requests) schedule) :
    responds out <+: responses (sends out) ∧ publishes out <+: updates (sends out) ∧
      forwards out <+: updates (sends out) := by
  have lossless : Lossless out := by
    induction schedule using List.reverseRecOn generalizing s out with
    | nil =>
        cases ran
        exact ⟨List.nil_prefix, List.nil_prefix, List.nil_prefix⟩
    | append_singleton before thread ih =>
        obtain ⟨t, sofar, now, ranBefore, stepped, rfl⟩ := run_concat.mp ran
        have earlier := ih ranBefore fun p prefixed =>
          room p (prefixed.trans (List.prefix_append _ _))
        exact earlier.step (run_keeps ranBefore)
          (room before (List.prefix_append _ _) t sofar ranBefore) stepped
  exact ⟨lossless.server, lossless.publisher, lossless.synthesizer⟩

/-- A run of no more steps than a queue has slots has room. -/
theorem runsWithRoom_of_short (short : schedule.length ≤ 256 * 1024) :
    RunsWithRoom s schedule := by
  intro before prefixed t out ran
  have few : out.length ≤ before.length := by
    refine run_invariant (P := fun _ inputs out => out.length ≤ inputs.length) (Nat.le_refl 0) ?_
      ran
    intro _ inputs out _ _ now few _ stepped
    have one := step_emits stepped
    simp only [List.length_append, List.length_singleton]
    omega
  have shorter := prefixed.length_le
  have sent : (sends out).length ≤ out.length := List.length_filterMap_le _ _
  have toServer : (responses (sends out)).length ≤ (sends out).length :=
    List.length_filterMap_le _ _
  have toPublisher : (updates (sends out)).length ≤ (sends out).length :=
    List.length_filterMap_le _ _
  constructor
  · rw [ME_MAX_CLIENT_UPDATES]
    omega
  · rw [ME_MAX_MARKET_UPDATES]
    omega

/-- A NEW, whose response and update are read. -/
theorem run_lossless_new :
    ∃ s out, run step (start (fun _ => 100) [⟨.NEW, 1, 0, 1, .BUY, 105, 4⟩])
        (List.replicate 4 .matchingEngine ++ List.replicate 4 .orderServer ++
          List.replicate 3 .matchingEngine ++ List.replicate 5 .marketDataPublisher) =
          .ok (s, out) ∧
      responds out = [⟨.ACCEPTED, 1, 0, 1, 1, .BUY, 105, 0, 4⟩] ∧
      responds out <+: responses (sends out) ∧ publishes out <+: updates (sends out) ∧
      forwards out <+: updates (sends out) := by
  obtain ⟨s, out, ran, read⟩ := run_of_map step
    (start (fun _ => 100) [⟨.NEW, 1, 0, 1, .BUY, 105, 4⟩])
    (List.replicate 4 .matchingEngine ++ List.replicate 4 .orderServer ++
      List.replicate 3 .matchingEngine ++ List.replicate 5 .marketDataPublisher)
    responds [⟨.ACCEPTED, 1, 0, 1, 1, .BUY, 105, 0, 4⟩] (by decide +kernel)
  exact ⟨s, out, ran, read, run_lossless ran (runsWithRoom_of_short (by decide))⟩

/-! ## A reader that is one turn behind -/

/-- A CANCEL on an empty book is rejected. -/
theorem new_cancel (tickerBasePrices : TickerId → Price) {orderId : OrderId}
    (known : orderId < ME_MAX_ORDER_IDS) :
    (MatchingEngine.new tickerBasePrices).processClientRequest
        ⟨.CANCEL, 1, 0, orderId, .INVALID, 0, 0⟩ =
      .ok (MatchingEngine.new tickerBasePrices, [MEOrderBook.rejectedResponse 1 orderId 0]) := by
  have slot : meSlot 1 orderId = .ok (1, orderId) :=
    meSlot_eq_ok.mpr ⟨by decide, known, rfl⟩
  refine MatchingEngine.processClientRequest_eq_ok.mpr
    ⟨(by decide : 0 < ME_MAX_TICKERS), MEOrderBook.new (tickerBasePrices 0), ?_, ?_⟩
  · simp only [MEOrderBook.processClientRequest, MEOrderBook.cancel, slot, bind, Except.bind,
      pure, Except.pure]
    rfl
  · rw [MatchingEngine.new, Function.update_eq_self]

/-- Four steps of the engine reject a CANCEL. -/
theorem run_cancel {orderId : OrderId} {rs : List MEClientRequest}
    (known : orderId < ME_MAX_ORDER_IDS)
    (engine : s.engine = MatchingEngine.new tickerBasePrices)
    (next : s.requests = ⟨.CANCEL, 1, 0, orderId, .INVALID, 0, 0⟩ :: rs)
    (settled : s.sending = []) (idle : s.writing = .idle) :
    ∃ t, run step s (List.replicate 4 .matchingEngine) =
        .ok (t, [.sent (MEOrderBook.rejectedResponse 1 orderId 0)]) ∧
      t.engine = MatchingEngine.new tickerBasePrices ∧ t.requests = rs ∧ t.sending = [] ∧
      t.writing = .idle ∧ t.server = s.server := by
  have answered := new_cancel tickerBasePrices known
  refine ⟨{ s with
      requests := rs, sending := [], writing := .idle
      outgoingResponses := ((s.outgoingResponses.write
        ⟨.CANCEL_REJECTED, 1, 0, orderId, OrderId_INVALID, .INVALID, Price_INVALID, Qty_INVALID,
          Qty_INVALID⟩).advanceWrite).countWrite }, ?_, engine, rfl, rfl, rfl, rfl⟩
  obtain ⟨engine', requests, sending, writing, _, _, _, _⟩ := s
  simp only at engine next settled idle
  subst engine next settled idle
  simp only [List.replicate, run, step, engineStep, answered, MEOrderBook.rejectedResponse, bind,
    Except.bind, pure, Except.pure, List.append_nil, List.nil_append]

/-- The engine rejects one CANCEL after the other. -/
theorem run_cancels {orderIds : List OrderId}
    (known : ∀ orderId ∈ orderIds, orderId < ME_MAX_ORDER_IDS)
    (engine : s.engine = MatchingEngine.new tickerBasePrices)
    (next : s.requests =
      orderIds.map fun orderId => ⟨.CANCEL, 1, 0, orderId, .INVALID, 0, 0⟩)
    (settled : s.sending = []) (idle : s.writing = .idle) :
    ∃ t, run step s (List.replicate (4 * orderIds.length) .matchingEngine) =
        .ok (t, orderIds.map fun orderId => .sent (MEOrderBook.rejectedResponse 1 orderId 0)) ∧
      t.server = s.server ∧ t.sending = [] ∧ t.writing = .idle := by
  induction orderIds generalizing s with
  | nil => exact ⟨s, rfl, rfl, settled, idle⟩
  | cons orderId orderIds ih =>
      obtain ⟨u, first, engineU, nextU, settledU, idleU, serverU⟩ :=
        run_cancel (known orderId List.mem_cons_self) engine next settled idle
      obtain ⟨t, later, serverT, settledT, idleT⟩ :=
        ih (fun x mem => known x (List.mem_cons_of_mem _ mem)) engineU nextU settledU idleU
      refine ⟨t, ?_, serverT.trans serverU, settledT, idleT⟩
      have turns : 4 * (orderId :: orderIds).length = 4 + 4 * orderIds.length := by
        rw [List.length_cons]
        omega
      rw [turns, List.replicate_add]
      exact run_append.mpr ⟨u, _, _, first, later, rfl⟩

/-- What the engine sent is the rejections, in order. -/
theorem responses_rejections (orderIds : List OrderId) :
    responses (sends (orderIds.map fun orderId =>
      .sent (MEOrderBook.rejectedResponse 1 orderId 0))) =
      orderIds.map fun orderId => ⟨.CANCEL_REJECTED, 1, 0, orderId, OrderId_INVALID, .INVALID,
        Price_INVALID, Qty_INVALID, Qty_INVALID⟩ := by
  induction orderIds with
  | nil => rfl
  | cons orderId orderIds ih =>
      rw [List.map_cons, List.map_cons, ← ih]
      rfl

/-- A reader one turn behind reads the response that took the slot of the next one. -/
theorem run_server_lapped {x : MEClientResponse} (keeps : Keeps s out)
    (settled : s.sending = []) (waiting : s.server = .idle) (unread : responds out = [])
    (turn : (responses (sends out)).length = ME_MAX_CLIENT_UPDATES + 1)
    (last : (responses (sends out))[ME_MAX_CLIENT_UPDATES]? = some x) :
    ∃ t, run step s [.orderServer, .orderServer] = .ok (t, [.responded x]) := by
  have held := keeps.responses
  rw [waiting, unread] at held
  simp only [writingResponse, settled] at held
  have count := held.holds.count
  have index := held.holds.readIndex
  have slot := held.holds.slots ME_MAX_CLIENT_UPDATES x last
    (by rw [turn, keeps.responseSlots, ME_MAX_CLIENT_UPDATES]; omega)
  simp only [LFQueue.Popping.reading, LFQueue.Popping.ahead, LFQueue.Reading.uncounted,
    LFQueue.Writing.uncounted, List.length_nil, turn, Nat.zero_mod, Nat.zero_sub] at count index
  rw [keeps.responseSlots, Nat.mod_self, ← index] at slot
  have unread : s.outgoingResponses.size ≠ 0 := by
    rw [LFQueue.size]
    omega
  refine ⟨{ s with server := .used s.outgoingResponses.nextReadIndex }, ?_⟩
  simp only [run, step, serverStep, waiting, LFQueue.getNextToRead, unread, slot, bind, Except.bind,
    pure, Except.pure, ne_eq, not_false_eq_true, if_true, List.nil_append, List.append_nil]

theorem responds_sent (ms : List MEMessage) : responds (ms.map .sent) = [] := by
  induction ms with
  | nil => rfl
  | cons m ms ih => exact ih

/-- One CANCEL more than the queue has slots, and then a reader. -/
theorem run_lapped {slots : Nat} (full : slots = ME_MAX_CLIENT_UPDATES) :
    ∃ s out, run step
        (start (fun _ => 0) ((1 :: List.replicate slots 0).map
          fun orderId => ⟨.CANCEL, 1, 0, orderId, .INVALID, 0, 0⟩))
        (List.replicate (4 * (slots + 1)) .matchingEngine ++ [.orderServer, .orderServer]) =
          .ok (s, out) ∧
      (responses (sends out)).head? = some ⟨.CANCEL_REJECTED, 1, 0, 1, OrderId_INVALID,
        .INVALID, Price_INVALID, Qty_INVALID, Qty_INVALID⟩ ∧
      responds out = [⟨.CANCEL_REJECTED, 1, 0, 0, OrderId_INVALID, .INVALID, Price_INVALID,
        Qty_INVALID, Qty_INVALID⟩] := by
  have known : ∀ orderId ∈ 1 :: List.replicate slots 0, orderId < ME_MAX_ORDER_IDS := by
    intro orderId mem
    rw [ME_MAX_ORDER_IDS]
    rcases List.mem_cons.mp mem with rfl | zero
    · omega
    · rw [List.eq_of_mem_replicate zero]
      omega
  obtain ⟨s, ran, serverS, settled, -⟩ := run_cancels
    (s := start (fun _ => 0) _) known rfl rfl rfl rfl
  have sent := responses_rejections (1 :: List.replicate slots 0)
  have unread := responds_sent ((1 :: List.replicate slots 0).map fun orderId =>
    MEOrderBook.rejectedResponse 1 orderId 0)
  rw [List.map_map, Function.comp_def] at unread
  rw [List.length_cons, List.length_replicate] at ran
  obtain ⟨t, last⟩ := run_server_lapped (run_keeps ran) settled serverS unread
    (by rw [sent, List.length_map, List.length_cons, List.length_replicate, full])
    (x := ⟨.CANCEL_REJECTED, 1, 0, 0, OrderId_INVALID, .INVALID, Price_INVALID, Qty_INVALID,
      Qty_INVALID⟩)
    (by
      have pos : 0 < slots := by
        rw [full, ME_MAX_CLIENT_UPDATES]
        omega
      rw [sent, ← full, List.getElem?_map, List.getElem?_cons, if_neg (Nat.ne_of_gt pos),
        List.getElem?_replicate, if_pos (by omega)]
      rfl)
  refine ⟨t, _, run_append.mpr ⟨s, _, _, ran, last, rfl⟩, ?_, ?_⟩
  · rw [sends_append, responses_append, sent]
    rfl
  · rw [responds_append, unread]
    rfl

/-- A response that is overwritten: client 1 sends one CANCEL more than the queue of
responses has slots, and the order server reads the first response only behind the last. -/
theorem not_lossless_cancels :
    ∃ s out, run step
        (start (fun _ => 0) ((1 :: List.replicate ME_MAX_CLIENT_UPDATES 0).map
          fun orderId => ⟨.CANCEL, 1, 0, orderId, .INVALID, 0, 0⟩))
        (List.replicate (4 * (ME_MAX_CLIENT_UPDATES + 1)) .matchingEngine ++
          [.orderServer, .orderServer]) = .ok (s, out) ∧
      responds out = [⟨.CANCEL_REJECTED, 1, 0, 0, OrderId_INVALID, .INVALID, Price_INVALID,
        Qty_INVALID, Qty_INVALID⟩] ∧
      ¬ responds out <+: responses (sends out) := by
  obtain ⟨s, out, ran, head, read⟩ := run_lapped rfl
  refine ⟨s, out, ran, read, ?_⟩
  rw [read]
  rintro ⟨rest, shape⟩
  rw [← shape] at head
  cases head

end ExchangeThreads

end NanoTrade
