import NanoTrade.Transport.OrderServer

/-!
# One direction of a connection

`ExactlyOnce`: what was sent is what has arrived and, as packed and numbered records, what
is still on its way. Sending and reading keep it, and both ends of a connection are
receivers that handle each record of a read in turn.
-/

namespace NanoTrade

variable {α μ : Type}

/-- `arrived` are the first of the values `sent`. The others are, numbered on and packed,
the receive buffer `inbound` and the bytes `pending` behind it. -/
structure ExactlyOnce (p : Packed μ) (packet : UInt64 → α → μ) (sent arrived : List α)
    (inbound pending : List UInt8) : Prop where
  split : ∃ later, sent = arrived ++ later ∧
    inbound ++ pending = p.stream (numbered packet arrived.length later)
  leftover : inbound.length < p.size

namespace ExactlyOnce

variable {p : Packed μ} {packet : UInt64 → α → μ} {sent arrived : List α}
  {inbound pending : List UInt8}

theorem start (pos : 0 < p.size) : ExactlyOnce p packet [] [] [] [] :=
  ⟨⟨[], rfl, rfl⟩, pos⟩

theorem arrived_prefix (once : ExactlyOnce p packet sent arrived inbound pending) :
    arrived <+: sent := by
  obtain ⟨later, split, -⟩ := once.split
  exact ⟨later, split.symm⟩

/-- What is under way are whole records. -/
theorem length_underway (once : ExactlyOnce p packet sent arrived inbound pending) :
    (inbound ++ pending).length + arrived.length * p.size = sent.length * p.size := by
  obtain ⟨later, rfl, bytes⟩ := once.split
  rw [bytes, p.length_stream, length_numbered, List.length_append]
  ring

/-- When nothing is behind the receive buffer, everything has arrived. -/
theorem complete (once : ExactlyOnce p packet sent arrived inbound []) : arrived = sent := by
  obtain ⟨later, split, bytes⟩ := once.split
  cases later with
  | nil => rw [split, List.append_nil]
  | cons a later =>
      have size := congrArg List.length bytes
      have short := once.leftover
      rw [List.append_nil, numbered, Packed.stream_cons, List.length_append,
        p.length_pack] at size
      omega

/-- The receive buffer is a strict prefix of one packed record. -/
theorem strict_prefix (once : ExactlyOnce p packet sent arrived inbound pending)
    (any : μ) : ∃ record, inbound <+: p.pack record ∧ inbound.length < (p.pack record).length := by
  obtain ⟨later, -, bytes⟩ := once.split
  have short := once.leftover
  cases later with
  | nil =>
      rw [numbered, Packed.stream_nil] at bytes
      obtain ⟨rfl, -⟩ := List.append_eq_nil_iff.mp bytes
      exact ⟨any, List.nil_prefix, by rw [p.length_pack]; exact short⟩
  | cons a later =>
      refine ⟨packet (seqAfter arrived.length) a, ?_, by rw [p.length_pack]; exact short⟩
      rw [numbered, Packed.stream_cons] at bytes
      have front : inbound <+: p.pack (packet (seqAfter arrived.length) a) ++
          p.stream (numbered packet (arrived.length + 1) later) := ⟨pending, bytes⟩
      exact List.prefix_of_prefix_length_le front (List.prefix_append _ _)
        (by rw [p.length_pack]; exact short.le)

/-- One more value is packed behind what is on its way. -/
theorem send (once : ExactlyOnce p packet sent arrived inbound pending) (a : α) :
    ExactlyOnce p packet (sent ++ [a]) arrived inbound
      (pending ++ p.pack (packet (seqAfter sent.length) a)) := by
  obtain ⟨later, rfl, bytes⟩ := once.split
  refine ⟨⟨later ++ [a], by rw [List.append_assoc], ?_⟩, once.leftover⟩
  rw [← List.append_assoc, bytes, numbered_append, Packed.stream_append, List.length_append]
  simp [numbered]

/-- A read of any size: its whole records are the next values, in order. -/
theorem read {chunk : List UInt8} (pos : 0 < p.size)
    (once : ExactlyOnce p packet sent arrived inbound (chunk ++ pending)) :
    ∃ here, frames p.size (inbound ++ chunk) =
        (numbered packet arrived.length here).map p.pack ∧
      here.length = (inbound ++ chunk).length / p.size ∧
      ExactlyOnce p packet sent (arrived ++ here)
        (NanoTrade.leftover p.size (inbound ++ chunk)) pending := by
  obtain ⟨later, rfl, bytes⟩ := once.split
  rw [← List.append_assoc] at bytes
  obtain ⟨here, behind, split, whole, rest⟩ := p.frames_stream pos bytes.symm
  obtain ⟨ys, zs, rfl, rfl, rfl⟩ := numbered_eq_append packet split
  have count : ys.length = (inbound ++ chunk).length / p.size := by
    have sizes := congrArg List.length whole
    rw [frames, List.length_map, List.length_range, List.length_map] at sizes
    rw [sizes]
    exact (length_numbered packet _ _).symm
  refine ⟨ys, whole, count, ⟨zs, (List.append_assoc _ _ _).symm, ?_⟩, length_leftover pos⟩
  rw [rest, List.length_append]

end ExactlyOnce

end NanoTrade
