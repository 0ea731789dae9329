import NanoTrade.Exchange.FIFOSequencer
import NanoTrade.Machine

/-!
# The TCP socket

`TCPSocket::send` appends to a buffer and `sendAndRecv` hands the whole buffer to the
kernel once, and empties it whatever the kernel took. So the bytes accepted so far
followed by the buffer are what was sent exactly along runs in which every attempt took
the whole buffer (`conserves_iff`).
-/

namespace NanoTrade

/-- Size of the send and receive buffers in bytes. -/
def TCPBufferSize : Nat := 64 * 1024 * 1024

/-- How a call into the transport ends the process or leaves what C++ defines. -/
inductive TransportFault
  /-- `memcpy` past the end of `outbound_data_`. -/
  | pastBuffer
  /-- `FATAL`: "Too many pending requests". -/
  | tooManyPending
  /-- `ASSERT`: "Dont have a TCPSocket for ClientId:". -/
  | noSocket (client : ClientId)
  /-- `operator[]` of a `std::array` past its end. -/
  | outOfRange (index : Nat)
  deriving DecidableEq, Repr

/-- The valid bytes of the two buffers: `outbound_data_` up to `next_send_valid_index_`
and `inbound_data_` up to `next_rcv_valid_index_`. -/
structure TCPSocket where
  outboundData : List UInt8
  inboundData : List UInt8
  deriving DecidableEq, Repr

namespace TCPSocket

def new : TCPSocket := ⟨[], []⟩

/-- Write outgoing data to the send buffer. -/
def send (s : TCPSocket) (data : List UInt8) : Except TransportFault TCPSocket :=
  if s.outboundData.length + data.length ≤ TCPBufferSize then
    .ok { s with outboundData := s.outboundData ++ data }
  else .error .pastBuffer

/-- `read` is what `recvmsg` returned, `n` the result of `::send`. The callback is given the
receive buffer and returns what it leaves of it; `idle` stands for its result when
nothing was read. Returned are this result, the socket, and the bytes the kernel took. -/
def sendAndRecv {ρ : Type}
    (recvCallback : List UInt8 → Nanos → Except TransportFault (ρ × List UInt8)) (idle : ρ)
    (s : TCPSocket) (read : List UInt8) (kernelTime : Nanos) (n : Int) :
    Except TransportFault (ρ × TCPSocket × List UInt8) := do
  let (result, inbound) ←
    if read.length > 0 then recvCallback (s.inboundData ++ read) kernelTime
    else pure (idle, s.inboundData)
  let taken := if s.outboundData.length > 0 then s.outboundData.take n.toNat else []
  pure (result, ⟨[], inbound⟩, taken)

/-- The calls of a socket's owner, with what the kernel answers to each. -/
inductive Call
  | send (data : List UInt8)
  | sendAndRecv (read : List UInt8) (kernelTime : Nanos) (n : Int)
  deriving DecidableEq, Repr

/-- One call; the emissions are the bytes the kernel accepts. `leave` is what the callback
leaves of the receive buffer. -/
def step (leave : List UInt8 → List UInt8) (s : TCPSocket) :
    Call → Except TransportFault (TCPSocket × List UInt8)
  | .send data => do
    let s ← s.send data
    pure (s, [])
  | .sendAndRecv read kernelTime n => do
    let (_, s, taken) ←
      s.sendAndRecv (fun inbound _ => .ok ((), leave inbound)) () read kernelTime n
    pure (s, taken)

/-- All data passed to `send`. -/
def sentBytes (calls : List Call) : List UInt8 :=
  calls.flatMap fun
    | .send data => data
    | .sendAndRecv .. => []

/-- No `send` exceeds the capacity of the buffer, which holds `pending` bytes at first. -/
def Fits : (pending : Nat) → List Call → Prop
  | _, [] => True
  | pending, .send data :: calls =>
    pending + data.length ≤ TCPBufferSize ∧ Fits (pending + data.length) calls
  | _, .sendAndRecv .. :: calls => Fits 0 calls

/-- Every `::send` takes the whole buffer. -/
def TakesAll : (pending : Nat) → List Call → Prop
  | _, [] => True
  | pending, .send data :: calls => TakesAll (pending + data.length) calls
  | pending, .sendAndRecv _ _ n :: calls => pending ≤ n.toNat ∧ TakesAll 0 calls

section Steps

variable {leave : List UInt8 → List UInt8} {s t : TCPSocket} {calls : List Call}
  {taken : List UInt8}

theorem step_send {data : List UInt8} :
    s.step leave (.send data) = .ok (t, taken) ↔
      s.outboundData.length + data.length ≤ TCPBufferSize ∧ taken = [] ∧
        t = { s with outboundData := s.outboundData ++ data } := by
  unfold step send
  by_cases fits : s.outboundData.length + data.length ≤ TCPBufferSize
  · simp [fits, bind, Except.bind, pure, Except.pure, eq_comm, and_comm]
  · simp [fits, bind, Except.bind]

/-- The kernel takes from the buffer what it takes; an empty buffer is not offered. -/
theorem taken_eq {n : Int} :
    (if s.outboundData.length > 0 then s.outboundData.take n.toNat else []) =
      s.outboundData.take n.toNat := by
  split
  · rfl
  · rename_i empty
    rw [List.eq_nil_of_length_eq_zero (Nat.eq_zero_of_not_pos empty), List.take_nil]

/-- Nothing stays behind, whatever was taken. -/
theorem step_sendAndRecv (leave : List UInt8 → List UInt8) (s : TCPSocket) (read : List UInt8)
    (time : Nanos) (n : Int) :
    ∃ inbound, s.step leave (.sendAndRecv read time n) =
      .ok (⟨[], inbound⟩, s.outboundData.take n.toNat) := by
  unfold step sendAndRecv
  simp only [taken_eq]
  split
  · exact ⟨_, rfl⟩
  · exact ⟨_, rfl⟩

theorem fits_run (leave : List UInt8 → List UInt8) {pending : Nat}
    (size : s.outboundData.length = pending) (fits : Fits pending calls) :
    ∃ t taken, run (step leave) s calls = .ok (t, taken) := by
  induction calls generalizing s pending with
  | nil => exact ⟨s, [], rfl⟩
  | cons call calls ih =>
      cases call with
      | send data =>
          obtain ⟨room, fits⟩ := fits
          obtain ⟨t, taken, ran⟩ := ih (s := { s with outboundData := s.outboundData ++ data })
            (by rw [List.length_append, size]) fits
          rw [← size] at room
          exact ⟨t, taken, run_cons_eq_ok (step_send.mpr ⟨room, rfl, rfl⟩) ran⟩
      | sendAndRecv read time n =>
          obtain ⟨inbound, first⟩ := step_sendAndRecv leave s read time n
          obtain ⟨t, taken, ran⟩ := ih (s := ⟨[], inbound⟩) rfl fits
          exact ⟨t, _, run_cons_eq_ok first ran⟩

theorem sentBytes_cons (call : Call) (calls : List Call) :
    sentBytes (call :: calls) = sentBytes [call] ++ sentBytes calls := by
  simp [sentBytes]

/-- The kernel and the buffer never hold more than was sent. -/
theorem length_run (ran : run (step leave) s calls = .ok (t, taken)) :
    taken.length + t.outboundData.length ≤
      s.outboundData.length + (sentBytes calls).length := by
  induction calls generalizing s taken with
  | nil =>
      cases ran
      simp
  | cons call calls ih =>
      obtain ⟨u, now, later, first, rest, rfl⟩ := run_cons.mp ran
      have tail := ih rest
      rw [sentBytes_cons, List.length_append, List.length_append]
      cases call with
      | send data =>
          obtain ⟨-, rfl, rfl⟩ := step_send.mp first
          simp only [sentBytes, List.flatMap_cons, List.flatMap_nil, List.length_append,
            List.length_nil] at tail ⊢
          omega
      | sendAndRecv read time n =>
          obtain ⟨inbound, attempt⟩ := step_sendAndRecv leave s read time n
          cases attempt.symm.trans first
          simp only [List.length_nil, List.length_take] at tail ⊢
          omega

/-- What the kernel took and the buffer are what was sent, exactly if every attempt took
all. -/
theorem conserved_iff (ran : run (step leave) s calls = .ok (t, taken)) :
    taken ++ t.outboundData = s.outboundData ++ sentBytes calls ↔
      TakesAll s.outboundData.length calls := by
  induction calls generalizing s taken with
  | nil =>
      cases ran
      simp [sentBytes, TakesAll]
  | cons call calls ih =>
      obtain ⟨u, now, later, first, rest, rfl⟩ := run_cons.mp ran
      have tail := ih rest
      rw [sentBytes_cons]
      cases call with
      | send data =>
          obtain ⟨-, rfl, rfl⟩ := step_send.mp first
          rw [TakesAll, ← List.length_append, ← tail]
          simp [sentBytes]
      | sendAndRecv read time n =>
          obtain ⟨inbound, attempt⟩ := step_sendAndRecv leave s read time n
          cases attempt.symm.trans first
          rw [TakesAll]
          rcases Nat.lt_or_ge n.toNat s.outboundData.length with short | whole
          · -- a short write: what is missing now is missing for good
            have bound := length_run rest
            constructor
            · intro same
              have sizes := congrArg List.length same
              simp only [sentBytes, List.flatMap_cons, List.flatMap_nil, List.length_append,
                List.length_nil, List.length_take] at sizes bound
              omega
            · rintro ⟨all, -⟩
              omega
          · rw [List.length_nil, List.nil_append] at tail
            rw [List.take_of_length_le whole, List.append_assoc, ← tail]
            simp [sentBytes, whole]

theorem TakesAll.prefixed {pending : Nat} {p : List Call} (prefixed : p <+: calls)
    (all : TakesAll pending calls) : TakesAll pending p := by
  obtain ⟨rest, rfl⟩ := prefixed
  induction p generalizing pending with
  | nil => trivial
  | cons call p ih =>
      cases call with
      | send data => exact ih all
      | sendAndRecv read time n => exact ⟨all.1, ih all.2⟩

end Steps

/-- **A socket loses nothing exactly if the kernel never takes less than it is given**: for
every sequence of calls that respects the capacity, in every state reached the accepted
bytes and the buffer are all data passed to `send`, if and only if every `::send` of the
sequence accepted the whole buffer. -/
theorem conserves_iff (leave : List UInt8 → List UInt8) (calls : List Call)
    (fits : Fits 0 calls) :
    (∀ p, p <+: calls → ∃ s taken, run (step leave) new p = .ok (s, taken) ∧
      taken ++ s.outboundData = sentBytes p) ↔ TakesAll 0 calls := by
  obtain ⟨t, all, ran⟩ := fits_run leave (s := new) rfl fits
  constructor
  · intro conserves
    obtain ⟨s, taken, run', same⟩ := conserves calls (List.prefix_refl _)
    cases ran.symm.trans run'
    exact (conserved_iff ran).mp same
  · rintro takesAll p ⟨rest, rfl⟩
    obtain ⟨s, taken, later, before, -, -⟩ := run_append.mp ran
    exact ⟨s, taken, before,
      (conserved_iff before).mpr (takesAll.prefixed (List.prefix_append _ _))⟩

/-- A record, an attempt with nothing taken in full, and an attempt on an empty buffer. -/
theorem conserves_iff_record :
    (∀ p, p <+: [.send [1, 2], .send [3], .sendAndRecv [] 0 3, .sendAndRecv [9] 5 0] →
      ∃ s taken, run (step id) new p = .ok (s, taken) ∧
        taken ++ s.outboundData = sentBytes p) ↔
      TakesAll 0 [.send [1, 2], .send [3], .sendAndRecv [] 0 3, .sendAndRecv [9] 5 0] :=
  conserves_iff id _ (by simp [Fits, TCPBufferSize])

/-- A short write drops the tail: `::send` takes two of three bytes, and the third is
gone. -/
theorem not_conserves_short_write :
    ∃ s taken, run (step id) new [.send [1, 2, 3], .sendAndRecv [] 0 2] = .ok (s, taken) ∧
      taken ++ s.outboundData = [1, 2] ∧
      sentBytes [.send [1, 2, 3], .sendAndRecv [] 0 2] = [1, 2, 3] := by
  exact ⟨⟨[], []⟩, [1, 2], by decide, rfl, rfl⟩

end TCPSocket

end NanoTrade
