import NanoTrade.Exchange.Messages
import NanoTrade.StdSort

/-!
# The sequencer of client requests

`FIFOSequencer` collects the requests of one round of reads and writes them to the
matching engine in the order of their receive times. `std::sort` is unstable and the
comparison sees the receive time only, so requests of one read keep their order exactly
when a client's requests of one time are all the same (`publishes_inOrder_iff`).
-/

namespace NanoTrade

abbrev Nanos := Int

/-- Maximum number of unprocessed client requests across all connections. -/
def ME_MAX_PENDING_REQUESTS : Nat := 1024

structure RecvTimeClientRequest where
  recvTime : Nanos
  request : MEClientRequest
  deriving DecidableEq, Repr

/-- `operator<`. -/
def RecvTimeClientRequest.lt (lhs rhs : RecvTimeClientRequest) : Bool :=
  decide (lhs.recvTime < rhs.recvTime)

theorem RecvTimeClientRequest.strictWeak : StrictWeak RecvTimeClientRequest.lt := by
  constructor
  · intro a b before
    simp only [lt, decide_eq_true_eq, decide_eq_false_iff_not] at before ⊢
    exact Int.lt_asymm before
  · intro a b c first second
    simp only [lt, decide_eq_false_iff_not, not_lt] at first second ⊢
    exact Int.le_trans first second

/-- The entries of `pending_client_requests_` below `pending_size_`. -/
structure FIFOSequencer where
  pendingClientRequests : List RecvTimeClientRequest
  deriving DecidableEq, Repr

namespace FIFOSequencer

def new : FIFOSequencer := ⟨[]⟩

/-- `none` is the `FATAL` "Too many pending requests". -/
def addClientRequest (f : FIFOSequencer) (rxTime : Nanos) (request : MEClientRequest) :
    Option FIFOSequencer :=
  if f.pendingClientRequests.length ≥ ME_MAX_PENDING_REQUESTS then none
  else some ⟨f.pendingClientRequests ++ [⟨rxTime, request⟩]⟩

/-- The requests added between two calls of `recvFinishedCallback`. -/
def addClientRequests (f : FIFOSequencer) (batch : List RecvTimeClientRequest) :
    Option FIFOSequencer :=
  batch.foldlM (fun f r => f.addClientRequest r.recvTime r.request) f

/-- `sequenceAndPublish` may leave the sequencer `f'` and write `published`, given here
with the receive times it logs. -/
def SequenceAndPublish (f f' : FIFOSequencer) (published : List RecvTimeClientRequest) : Prop :=
  if f.pendingClientRequests = [] then f' = f ∧ published = []
  else f'.pendingClientRequests = [] ∧
    StdSort RecvTimeClientRequest.lt f.pendingClientRequests published

theorem addClientRequests_pending {f f' : FIFOSequencer} {batch : List RecvTimeClientRequest}
    (added : f.addClientRequests batch = some f') :
    f'.pendingClientRequests = f.pendingClientRequests ++ batch := by
  induction batch generalizing f with
  | nil =>
      cases added
      rw [List.append_nil]
  | cons r batch ih =>
      rw [addClientRequests, List.foldlM_cons, Option.bind_eq_bind,
        Option.bind_eq_some_iff] at added
      obtain ⟨g, first, rest⟩ := added
      unfold addClientRequest at first
      split at first
      · cases first
      · cases first
        have tail := ih rest
        rw [tail, List.append_assoc]
        rfl

theorem addClientRequests_of_fits {batch : List RecvTimeClientRequest} {f : FIFOSequencer}
    (fits : f.pendingClientRequests.length + batch.length ≤ ME_MAX_PENDING_REQUESTS) :
    ∃ f', f.addClientRequests batch = some f' := by
  induction batch generalizing f with
  | nil => exact ⟨f, rfl⟩
  | cons r batch ih =>
      rw [List.length_cons] at fits
      have room : ¬ f.pendingClientRequests.length ≥ ME_MAX_PENDING_REQUESTS := by omega
      have more : (f.pendingClientRequests ++ [r]).length + batch.length ≤
          ME_MAX_PENDING_REQUESTS := by
        rw [List.length_append, List.length_singleton]
        omega
      obtain ⟨f', rest⟩ := ih (f := ⟨f.pendingClientRequests ++ [r]⟩) more
      refine ⟨f', ?_⟩
      rw [addClientRequests, List.foldlM_cons, addClientRequest, if_neg room]
      exact rest

/-- A published batch is what the sort may return. -/
theorem sequenceAndPublish_iff {f : FIFOSequencer} {published : List RecvTimeClientRequest} :
    (∃ f', f.SequenceAndPublish f' published) ↔
      StdSort RecvTimeClientRequest.lt f.pendingClientRequests published := by
  unfold SequenceAndPublish
  split
  · rename_i empty
    constructor
    · rintro ⟨f', -, rfl⟩
      rw [empty]
      exact ⟨.refl _, .nil⟩
    · intro sorted
      refine ⟨f, rfl, ?_⟩
      rw [empty] at sorted
      exact sorted.perm.eq_nil
  · constructor
    · rintro ⟨f', -, sorted⟩
      exact sorted
    · intro sorted
      exact ⟨⟨[]⟩, rfl, sorted⟩

end FIFOSequencer

/-- The requests of one client that arrived at one time. -/
def RecvTimeClientRequest.isFrom (client : ClientId) (time : Nanos)
    (r : RecvTimeClientRequest) : Bool :=
  r.request.clientId == client && r.recvTime == time

/-- The published requests are in the order of their receive times, and those of one
client with equal receive times in the order they were added. -/
structure InOrder (batch published : List RecvTimeClientRequest) : Prop where
  ordered : published.Pairwise fun a b => a.recvTime ≤ b.recvTime
  fifo : ∀ client time, published.filter (·.isFrom client time) =
    batch.filter (·.isFrom client time)

/-- Two requests of one client with equal receive times do not differ. -/
def Unambiguous (batch : List RecvTimeClientRequest) : Prop :=
  ∀ a ∈ batch, ∀ b ∈ batch,
    a.recvTime = b.recvTime → a.request.clientId = b.request.clientId → a = b

theorem RecvTimeClientRequest.isFrom_tied (client : ClientId) (time : Nanos)
    (a b : RecvTimeClientRequest) (isA : a.isFrom client time = true)
    (isB : b.isFrom client time = true) : a.lt b = false := by
  simp only [isFrom, Bool.and_eq_true, beq_iff_eq] at isA isB
  rw [lt, isA.2, isB.2]
  simp

/-- **The sequencer is first-in first-out exactly on unambiguous batches**: whatever the
sort makes of its freedom, every client's requests leave in the order they came, if and
only if no client has two different requests of one receive time in the batch. -/
theorem publishes_inOrder_iff (batch : List RecvTimeClientRequest)
    (fits : batch.length ≤ ME_MAX_PENDING_REQUESTS) :
    (∃ f, FIFOSequencer.new.addClientRequests batch = some f ∧
      ∀ f' published, f.SequenceAndPublish f' published → InOrder batch published) ↔
      Unambiguous batch := by
  have room : FIFOSequencer.new.pendingClientRequests.length + batch.length ≤
      ME_MAX_PENDING_REQUESTS := by
    simpa [FIFOSequencer.new] using fits
  obtain ⟨f, added⟩ := FIFOSequencer.addClientRequests_of_fits room
  have pending : f.pendingClientRequests = batch :=
    FIFOSequencer.addClientRequests_pending added
  constructor
  · rintro ⟨g, addedG, inOrder⟩ a memA b memB time client
    cases added.symm.trans addedG
    have keeps : ∀ output, StdSort RecvTimeClientRequest.lt batch output →
        output.filter (·.isFrom a.request.clientId a.recvTime) =
          batch.filter (·.isFrom a.request.clientId a.recvTime) := by
      intro output sorted
      rw [← pending] at sorted
      obtain ⟨f', published⟩ := FIFOSequencer.sequenceAndPublish_iff.mpr sorted
      exact (inOrder f' output published).fifo _ _
    exact (StdSort.filter_eq_iff RecvTimeClientRequest.strictWeak
      (RecvTimeClientRequest.isFrom_tied _ _)).mp keeps a memA b memB
        (by simp [RecvTimeClientRequest.isFrom])
      (by simp [RecvTimeClientRequest.isFrom, time, client])
  · intro unambiguous
    refine ⟨f, added, fun f' published publishes => ?_⟩
    have sorted := FIFOSequencer.sequenceAndPublish_iff.mp ⟨f', publishes⟩
    rw [pending] at sorted
    constructor
    · exact sorted.ordered.imp fun later => by
        simpa [RecvTimeClientRequest.lt] using later
    · intro client time
      apply (StdSort.filter_eq_iff RecvTimeClientRequest.strictWeak
        (RecvTimeClientRequest.isFrom_tied client time)).mpr _ published sorted
      intro a memA b memB isA isB
      simp only [RecvTimeClientRequest.isFrom, Bool.and_eq_true, beq_iff_eq] at isA isB
      exact unambiguous a memA b memB (isA.2.trans isB.2.symm) (isA.1.trans isB.1.symm)

/-- One request of each of two clients in one read, and one more of the first later. -/
theorem publishes_inOrder_iff_two :
    (∃ f, FIFOSequencer.new.addClientRequests
        [⟨8, ⟨.NEW, 2, 0, 1, .BUY, 100, 5⟩⟩, ⟨7, ⟨.NEW, 1, 0, 1, .BUY, 100, 5⟩⟩,
          ⟨8, ⟨.CANCEL, 1, 0, 1, .BUY, 100, 5⟩⟩] = some f ∧
      ∀ f' published, f.SequenceAndPublish f' published →
        InOrder [⟨8, ⟨.NEW, 2, 0, 1, .BUY, 100, 5⟩⟩, ⟨7, ⟨.NEW, 1, 0, 1, .BUY, 100, 5⟩⟩,
          ⟨8, ⟨.CANCEL, 1, 0, 1, .BUY, 100, 5⟩⟩] published) ↔
      Unambiguous [⟨8, ⟨.NEW, 2, 0, 1, .BUY, 100, 5⟩⟩, ⟨7, ⟨.NEW, 1, 0, 1, .BUY, 100, 5⟩⟩,
          ⟨8, ⟨.CANCEL, 1, 0, 1, .BUY, 100, 5⟩⟩] :=
  publishes_inOrder_iff _ (by decide)

/-- A NEW and the CANCEL behind it in one read may leave in the other order. -/
theorem not_inOrder_new_cancel :
    ∃ f f' : FIFOSequencer,
      FIFOSequencer.new.addClientRequests
        [⟨7, ⟨.NEW, 1, 0, 1, .BUY, 100, 5⟩⟩, ⟨7, ⟨.CANCEL, 1, 0, 1, .BUY, 100, 5⟩⟩] = some f ∧
      f.SequenceAndPublish f'
        [⟨7, ⟨.CANCEL, 1, 0, 1, .BUY, 100, 5⟩⟩, ⟨7, ⟨.NEW, 1, 0, 1, .BUY, 100, 5⟩⟩] ∧
      ¬ InOrder [⟨7, ⟨.NEW, 1, 0, 1, .BUY, 100, 5⟩⟩, ⟨7, ⟨.CANCEL, 1, 0, 1, .BUY, 100, 5⟩⟩]
        [⟨7, ⟨.CANCEL, 1, 0, 1, .BUY, 100, 5⟩⟩, ⟨7, ⟨.NEW, 1, 0, 1, .BUY, 100, 5⟩⟩] := by
  refine ⟨⟨[⟨7, ⟨.NEW, 1, 0, 1, .BUY, 100, 5⟩⟩, ⟨7, ⟨.CANCEL, 1, 0, 1, .BUY, 100, 5⟩⟩]⟩, ⟨[]⟩,
    by decide, ?_, ?_⟩
  · unfold FIFOSequencer.SequenceAndPublish
    rw [if_neg (by decide)]
    exact ⟨rfl, .swap _ _ _, by decide⟩
  · intro inOrder
    have order := inOrder.fifo 1 7
    revert order
    decide

end NanoTrade
