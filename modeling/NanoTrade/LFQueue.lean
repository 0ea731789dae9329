import NanoTrade.Machine
import NanoTrade.Types

/-!
# The lock-free queue

`common/lf_queue.h`. One thread writes and one thread reads. A push is a write to a slot, an
update of the write index and one of the count; a pop is a test of the count, reads of a slot,
an update of the read index and one of the count. The threads interleave between these.

`LFQueue.Holds` ties the indices, the count and the slots to what was written and how much of
it was taken. It holds however far the writer runs ahead: `LFQueue.Holds.front` is where the
distance matters. `LFQueue.unread` is the queue that it stands for: while it has room, a push adds
to it at the end (`AtRest.unread_pushAll`) and a pop takes its first element (`AtRest.pop`).
-/

namespace NanoTrade

structure LFQueue (α : Type) where
  /-- `store_`; its size is `capacity`. -/
  store : Nat → α
  capacity : Nat
  nextWriteIndex : Nat
  nextReadIndex : Nat
  numElements : Nat

namespace LFQueue

variable {α : Type}

def new (capacity : Nat) (value : α) : LFQueue α :=
  { store := fun _ => value, capacity, nextWriteIndex := 0, nextReadIndex := 0, numElements := 0 }

def size (q : LFQueue α) : Nat :=
  q.numElements

/-- `*getNextToWriteTo() = value`. -/
def write (q : LFQueue α) (value : α) : LFQueue α :=
  { q with store := Function.update q.store q.nextWriteIndex value }

/-- The first half of `updateWriteIndex`. -/
def advanceWrite (q : LFQueue α) : LFQueue α :=
  { q with nextWriteIndex := (q.nextWriteIndex + 1) % q.capacity }

/-- The second half of `updateWriteIndex`. -/
def countWrite (q : LFQueue α) : LFQueue α :=
  { q with numElements := q.numElements + 1 }

/-- The index of the slot that `getNextToRead` points to. -/
def getNextToRead (q : LFQueue α) : Option Nat :=
  if q.size ≠ 0 then some q.nextReadIndex else none

/-- The first half of `updateReadIndex`. -/
def advanceRead (q : LFQueue α) : LFQueue α :=
  { q with nextReadIndex := (q.nextReadIndex + 1) % q.capacity }

/-- The second half of `updateReadIndex`. -/
def countRead (q : LFQueue α) : Except Fault (LFQueue α) :=
  if q.numElements ≠ 0 then .ok { q with numElements := q.numElements - 1 }
  else .error .invalidElement

/-- How far the writer is in a push. -/
inductive Writing
  | idle
  | written
  | advanced
  deriving DecidableEq, Repr

/-- How far the reader is in a pop. -/
inductive Reading
  | idle
  | held
  | advanced
  deriving DecidableEq, Repr

/-- The write that the index does not count yet. -/
def Writing.unindexed : Writing → Nat
  | .written => 1
  | _ => 0

/-- The write that the count does not count yet. -/
def Writing.uncounted : Writing → Nat
  | .idle => 0
  | _ => 1

/-- The element that is not taken yet. -/
def Reading.holding : Reading → Nat
  | .held => 1
  | _ => 0

/-- The element that is taken and still counted. -/
def Reading.uncounted : Reading → Nat
  | .advanced => 1
  | _ => 0

/-- `sent` was written to the queue so far, and `taken` of it was taken out. -/
structure Holds (q : LFQueue α) (sent : List α) (taken : Nat) (w : Writing) (r : Reading) :
    Prop where
  capacity_pos : 0 < q.capacity
  writeIndex : q.nextWriteIndex = (sent.length - w.unindexed) % q.capacity
  readIndex : q.nextReadIndex = taken % q.capacity
  count : q.numElements + taken + w.uncounted = sent.length + r.uncounted
  behind : taken + w.uncounted + r.holding ≤ sent.length
  /-- A slot keeps an element until the writer comes around. -/
  slots : ∀ i, ∀ value ∈ sent[i]?, sent.length ≤ i + q.capacity →
    q.store (i % q.capacity) = value

namespace Holds

variable {q q' : LFQueue α} {sent : List α} {taken : Nat} {w : Writing} {r : Reading}

theorem new {capacity : Nat} (pos : 0 < capacity) (value : α) :
    Holds (LFQueue.new capacity value) [] 0 .idle .idle := by
  refine ⟨pos, (Nat.zero_mod _).symm, (Nat.zero_mod _).symm, rfl, Nat.le_refl 0, ?_⟩
  intro i value mem
  cases mem

/-! ## The writer -/

/-- Two indices less than a whole turn apart have slots of their own. -/
theorem slot_ne {i j n : Nat} (before : i < j) (near : j < i + n) : i % n ≠ j % n := by
  intro same
  have turns : (j - i) % n = 0 := Nat.sub_mod_eq_zero_of_mod_eq same.symm
  rw [Nat.mod_eq_of_lt (by omega)] at turns
  omega

theorem write (holds : Holds q sent taken .idle r) (value : α) :
    Holds (q.write value) (sent ++ [value]) taken .written r := by
  have index := holds.writeIndex
  have count := holds.count
  have behind := holds.behind
  simp only [Writing.unindexed, Writing.uncounted] at index count behind
  refine ⟨holds.capacity_pos, ?_, holds.readIndex, ?_, ?_, ?_⟩
  · simpa [LFQueue.write, Writing.unindexed] using index
  · simp only [LFQueue.write, Writing.uncounted, List.length_append, List.length_singleton]
    omega
  · simp only [Writing.uncounted, List.length_append, List.length_singleton]
    omega
  · intro i value' mem near
    rw [List.length_append, List.length_singleton] at near
    simp only [LFQueue.write] at near ⊢
    rw [index, Nat.sub_zero]
    rcases Nat.lt_trichotomy i sent.length with earlier | rfl | outside
    · rw [List.getElem?_append_left earlier] at mem
      rw [Function.update_of_ne (slot_ne earlier (by omega))]
      exact holds.slots i value' mem (by omega)
    · rw [Function.update_self]
      simpa using mem
    · rw [List.getElem?_eq_none (by rw [List.length_append]; exact outside)] at mem
      cases mem

theorem advanceWrite (holds : Holds q sent taken .written r) :
    Holds q.advanceWrite sent taken .advanced r := by
  have index := holds.writeIndex
  have behind := holds.behind
  simp only [Writing.unindexed, Writing.uncounted] at index behind
  refine ⟨holds.capacity_pos, ?_, holds.readIndex, holds.count, holds.behind, holds.slots⟩
  simp only [LFQueue.advanceWrite, Writing.unindexed, index, Nat.mod_add_mod]
  congr 1
  omega

theorem countWrite (holds : Holds q sent taken .advanced r) :
    Holds q.countWrite sent taken .idle r := by
  have count := holds.count
  have behind := holds.behind
  simp only [Writing.uncounted] at count behind
  refine ⟨holds.capacity_pos, holds.writeIndex, holds.readIndex, ?_, ?_, holds.slots⟩
  · simp only [LFQueue.countWrite, Writing.uncounted]
    omega
  · simp only [Writing.uncounted]
    omega

/-! ## The reader -/

/-- Where the count is not 0 there is an element to take. -/
theorem getNextToRead (holds : Holds q sent taken w .idle) {slot : Nat}
    (head : q.getNextToRead = some slot) :
    slot = taken % q.capacity ∧ Holds q sent taken w .held := by
  unfold LFQueue.getNextToRead at head
  split at head
  · rename_i unread
    have count := holds.count
    simp only [LFQueue.size, Reading.uncounted] at unread count
    refine ⟨(Option.some.inj head).symm.trans holds.readIndex, holds.capacity_pos,
      holds.writeIndex, holds.readIndex, holds.count, ?_, holds.slots⟩
    simp only [Reading.holding]
    omega
  · cases head

/-- Between the test of the count and the update of the index an element is counted. -/
theorem size_ne_zero (holds : Holds q sent taken w .held) : q.size ≠ 0 := by
  have count := holds.count
  have behind := holds.behind
  simp only [Reading.uncounted, Reading.holding, LFQueue.size] at count behind ⊢
  omega

/-- A slot still holds its element while the writer is at most one turn ahead. -/
theorem front (holds : Holds q sent taken w r) {i : Nat} (known : i < sent.length)
    (near : sent.length ≤ i + q.capacity) : sent[i]? = some (q.store (i % q.capacity)) := by
  rw [List.getElem?_eq_getElem known]
  rw [holds.slots i sent[i] (List.getElem?_eq_getElem known) near]

theorem advanceRead (holds : Holds q sent taken w .held) :
    Holds q.advanceRead sent (taken + 1) w .advanced := by
  have count := holds.count
  have behind := holds.behind
  simp only [Reading.uncounted, Reading.holding] at count behind
  refine ⟨holds.capacity_pos, holds.writeIndex, ?_, ?_, ?_, holds.slots⟩
  · rw [LFQueue.advanceRead, holds.readIndex, Nat.mod_add_mod]
  · simp only [LFQueue.advanceRead, Reading.uncounted]
    omega
  · simp only [Reading.holding]
    omega

/-- The assertion of `updateReadIndex` never fails. -/
theorem countRead (holds : Holds q sent taken w .advanced) :
    ∃ q', q.countRead = .ok q' ∧ q'.capacity = q.capacity ∧ q'.numElements ≤ q.numElements ∧
      Holds q' sent taken w .idle := by
  have count := holds.count
  have behind := holds.behind
  simp only [Reading.uncounted, Reading.holding] at count behind
  refine ⟨{ q with numElements := q.numElements - 1 }, ?_, rfl, Nat.sub_le _ _,
    holds.capacity_pos, holds.writeIndex, holds.readIndex, ?_, holds.behind, holds.slots⟩
  · unfold LFQueue.countRead
    rw [if_pos (by omega)]
  · simp only [Reading.uncounted]
    omega

end Holds

/-- What was read, and the element behind it. -/
theorem prefix_concat {xs ys : List α} {x : α} (before : xs <+: ys)
    (next : ys[xs.length]? = some x) : xs ++ [x] <+: ys := by
  obtain ⟨zs, rfl⟩ := before
  rw [List.getElem?_append_right (Nat.le_refl _), Nat.sub_self] at next
  cases zs with
  | nil => cases next
  | cons z zs =>
      cases next
      exact ⟨zs, by rw [List.append_assoc, List.singleton_append]⟩

/-! ## Whole pushes and pops -/

/-- A push, with nobody in between. -/
def push (q : LFQueue α) (value : α) : LFQueue α :=
  (q.write value).advanceWrite.countWrite

def pushAll (q : LFQueue α) (values : List α) : LFQueue α :=
  values.foldl push q

/-- `updateReadIndex`, with nobody in between. -/
def updateReadIndex (q : LFQueue α) : Except Fault (LFQueue α) :=
  q.advanceRead.countRead

/-- The elements that the reader gets if nobody writes, the next one in front. -/
def unread (q : LFQueue α) : List α :=
  (List.range q.size).map fun i => q.store ((q.nextReadIndex + i) % q.capacity)

/-- No more elements are counted than there are slots. -/
def HasRoom (q : LFQueue α) : Prop :=
  q.size ≤ q.capacity

instance : DecidablePred (HasRoom (α := α)) :=
  fun _ => inferInstanceAs (Decidable (_ ≤ _))

/-- Nobody is in the middle of a push or a pop, and `P` holds of all that was ever written. -/
def AtRest (P : α → Prop) (q : LFQueue α) : Prop :=
  ∃ sent taken, Holds q sent taken .idle .idle ∧ ∀ x ∈ sent, P x

section AtRest

variable {q : LFQueue α} {P Q : α → Prop} {sent : List α} {taken slot : Nat}

@[simp] theorem capacity_pushAll (q : LFQueue α) (values : List α) :
    (q.pushAll values).capacity = q.capacity := by
  induction values generalizing q with
  | nil => rfl
  | cons value values ih => exact ih (q.push value)

@[simp] theorem size_pushAll (q : LFQueue α) (values : List α) :
    (q.pushAll values).size = q.size + values.length := by
  induction values generalizing q with
  | nil => rfl
  | cons value values ih =>
      have later : ((q.push value).pushAll values).size = q.size + 1 + values.length :=
        ih (q.push value)
      rw [List.length_cons, Nat.add_comm values.length, ← Nat.add_assoc, ← later]
      rfl

theorem Holds.pushAll (holds : Holds q sent taken .idle .idle) (values : List α) :
    Holds (q.pushAll values) (sent ++ values) taken .idle .idle := by
  induction values generalizing q sent with
  | nil =>
      rw [List.append_nil]
      exact holds
  | cons value values ih =>
      have pushed : Holds (q.push value) (sent ++ [value]) taken .idle .idle :=
        (holds.write value).advanceWrite.countWrite
      have rest := ih pushed
      rw [List.append_assoc] at rest
      exact rest

/-- A slot that was written holds something that was written. -/
theorem Holds.store_mem {w : Writing} {r : Reading} (holds : Holds q sent taken w r) {i : Nat}
    (known : i < sent.length) : q.store (i % q.capacity) ∈ sent := by
  -- The last element that went to this slot is less than a turn away from the end.
  obtain ⟨j, last, near, same⟩ : ∃ j < sent.length, sent.length ≤ j + q.capacity ∧
      j % q.capacity = i % q.capacity := by
    have pos := holds.capacity_pos
    refine ⟨i + (sent.length - 1 - i) / q.capacity * q.capacity, ?_, ?_,
      Nat.add_mul_mod_self_right _ _ _⟩
    · have most := Nat.div_mul_le_self (sent.length - 1 - i) q.capacity
      omega
    · have least := Nat.lt_div_mul_add (a := sent.length - 1 - i) pos
      omega
  rw [← same]
  exact List.mem_of_getElem? (holds.front last near)

/-- With room, what is unread is what was sent and not taken. -/
theorem Holds.unread_eq (holds : Holds q sent taken .idle .idle) (room : q.HasRoom) :
    q.unread = sent.drop taken := by
  have count := holds.count
  have within : q.numElements ≤ q.capacity := room
  simp only [Writing.uncounted, Reading.uncounted] at count
  refine List.ext_getElem? fun i => ?_
  rw [unread, List.getElem?_map, List.getElem?_drop, LFQueue.size]
  rcases Nat.lt_or_ge i q.numElements with here | outside
  · rw [List.getElem?_range here, holds.front (i := taken + i) (by omega) (by omega),
      holds.readIndex, Option.map_some, Nat.mod_add_mod]
  · rw [List.getElem?_eq_none (by rw [List.length_range]; exact outside),
      List.getElem?_eq_none (by omega)]
    rfl

theorem AtRest.new {capacity : Nat} (pos : 0 < capacity) (value : α) (P : α → Prop) :
    (LFQueue.new capacity value).AtRest P :=
  ⟨[], 0, .new pos value, fun _ mem => absurd mem List.not_mem_nil⟩

theorem unread_eq_nil (empty : q.size = 0) : q.unread = [] := by
  rw [unread, empty]
  rfl

theorem AtRest.mono (rest : q.AtRest P) (weaker : ∀ x, P x → Q x) : q.AtRest Q := by
  obtain ⟨sent, taken, holds, all⟩ := rest
  exact ⟨sent, taken, holds, fun x mem => weaker x (all x mem)⟩

theorem AtRest.pushAll (rest : q.AtRest P) {values : List α} (new : ∀ x ∈ values, P x) :
    (q.pushAll values).AtRest P := by
  obtain ⟨sent, taken, holds, all⟩ := rest
  refine ⟨sent ++ values, taken, holds.pushAll values, fun x mem => ?_⟩
  rcases List.mem_append.mp mem with old | now
  · exact all x old
  · exact new x now

/-- A push adds to what is unread, if there is room. -/
theorem AtRest.unread_pushAll (rest : q.AtRest P) {values : List α}
    (room : (q.pushAll values).HasRoom) : (q.pushAll values).unread = q.unread ++ values := by
  obtain ⟨sent, taken, holds, -⟩ := rest
  have before : q.HasRoom := by
    rw [HasRoom, size_pushAll, capacity_pushAll] at room
    exact Nat.le_trans (Nat.le_add_right _ _) room
  have behind : taken ≤ sent.length := holds.behind
  rw [(holds.pushAll values).unread_eq room, holds.unread_eq before,
    List.drop_append_of_le_length behind]

/-- A pop never fails; what it reads was written once. -/
theorem AtRest.pop (rest : q.AtRest P) (head : q.getNextToRead = some slot) :
    P (q.store slot) ∧ ∃ q', q.updateReadIndex = .ok q' ∧ q'.capacity = q.capacity ∧
      q'.AtRest P ∧ (q.HasRoom → q'.HasRoom ∧ q.unread = q.store slot :: q'.unread) := by
  obtain ⟨sent, taken, holds, all⟩ := rest
  obtain ⟨rfl, held⟩ := holds.getNextToRead head
  obtain ⟨q', counted, capacity, fewer, left⟩ := held.advanceRead.countRead
  have behind : taken + 0 + 1 ≤ sent.length := held.behind
  refine ⟨all _ (holds.store_mem behind), q', counted, capacity, ⟨sent, taken + 1, left, all⟩,
    fun room => ?_⟩
  have room' : q'.HasRoom := by
    rw [HasRoom, capacity]
    exact Nat.le_trans fewer room
  refine ⟨room', ?_⟩
  have front : sent[taken]? = some (q.store (taken % q.capacity)) := by
    have count := holds.count
    have within : q.numElements ≤ q.capacity := room
    simp only [Writing.uncounted, Reading.uncounted] at count
    exact holds.front behind (by omega)
  rw [holds.unread_eq room, left.unread_eq room', List.drop_eq_getElem_cons behind,
    ← Option.some.inj ((List.getElem?_eq_getElem behind).symm.trans front)]

end AtRest

/-! ## A reader that pops -/

/-- Where a reader is in its loop, with the slot that it has a pointer to. -/
inductive Popping
  | idle
  /-- `getNextToRead` returned a pointer. -/
  | held (slot : Nat)
  /-- The element was read through the pointer. -/
  | used (slot : Nat)
  /-- `updateReadIndex` moved the index. -/
  | advanced (slot : Nat)
  deriving DecidableEq, Repr

namespace Popping

def reading : Popping → Reading
  | .idle => .idle
  | .held _ => .held
  | .used _ => .held
  | .advanced _ => .advanced

/-- The element that is read and not taken yet. -/
def ahead : Popping → Nat
  | .used _ => 1
  | _ => 0

/-- The slot is that of the next element or, once it is read, of the last one. -/
def At (reads capacity : Nat) : Popping → Prop
  | .idle => True
  | .held slot => slot = reads % capacity
  | .used slot => 0 < reads ∧ slot = (reads - 1) % capacity
  | .advanced slot => 0 < reads ∧ slot = (reads - 1) % capacity

end Popping

/-- A step of a loop that handles every element it pops: between `getNextToRead` and
`updateReadIndex` the element is read. -/
def popStep (q : LFQueue α) : Popping → Except Fault (LFQueue α × Popping × Option α)
  | .idle =>
    match q.getNextToRead with
    | some slot => .ok (q, .held slot, none)
    | none => .ok (q, .idle, none)
  | .held slot => .ok (q, .used slot, some (q.store slot))
  | .used slot => .ok (q.advanceRead, .advanced slot, none)
  | .advanced _ => do
    let q ← q.countRead
    pure (q, .idle, none)

/-- A reader that read `reads` elements so far. -/
structure Pops (q : LFQueue α) (sent : List α) (reads : Nat) (w : Writing) (p : Popping) :
    Prop where
  holds : Holds q sent (reads - p.ahead) w p.reading
  slot : p.At reads q.capacity

namespace Pops

variable {q q' : LFQueue α} {sent : List α} {reads slot : Nat} {w : Writing} {p : Popping}

theorem new {capacity : Nat} (pos : 0 < capacity) (value : α) :
    Pops (LFQueue.new capacity value) [] 0 .idle .idle :=
  ⟨Holds.new pos value, trivial⟩

theorem write (pops : Pops q sent reads .idle p) (value : α) :
    Pops (q.write value) (sent ++ [value]) reads .written p :=
  ⟨pops.holds.write value, pops.slot⟩

theorem advanceWrite (pops : Pops q sent reads .written p) :
    Pops q.advanceWrite sent reads .advanced p :=
  ⟨pops.holds.advanceWrite, pops.slot⟩

theorem countWrite (pops : Pops q sent reads .advanced p) :
    Pops q.countWrite sent reads .idle p :=
  ⟨pops.holds.countWrite, pops.slot⟩

theorem hold (pops : Pops q sent reads w .idle) (head : q.getNextToRead = some slot) :
    Pops q sent reads w (.held slot) := by
  obtain ⟨isFront, held⟩ := pops.holds.getNextToRead head
  exact ⟨held, isFront⟩

/-- There is an element to read. -/
theorem lt (pops : Pops q sent reads w (.held slot)) : reads < sent.length := by
  have behind := pops.holds.behind
  simp only [Popping.reading, Popping.ahead, Reading.holding] at behind
  omega

/-- The read of an element, while the writer is at most one turn ahead. -/
theorem front (pops : Pops q sent reads w (.held slot))
    (near : sent.length ≤ reads + q.capacity) : sent[reads]? = some (q.store slot) := by
  have isFront : slot = reads % q.capacity := pops.slot
  rw [isFront]
  exact pops.holds.front pops.lt near

theorem use (pops : Pops q sent reads w (.held slot)) :
    Pops q sent (reads + 1) w (.used slot) :=
  ⟨pops.holds, Nat.succ_pos reads, pops.slot⟩

/-- The element that was read last may be read again, while the writer is at most one turn
ahead of it. -/
theorem last (pops : Pops q sent (reads + 1) w p) (near : sent.length ≤ reads + q.capacity)
    (isLast : slot = reads % q.capacity) : sent[reads]? = some (q.store slot) := by
  have behind := pops.holds.behind
  have known : reads < sent.length := by
    cases p
    all_goals
      simp only [Popping.reading, Popping.ahead, Reading.holding] at behind
      omega
  rw [isLast]
  exact pops.holds.front known near

theorem advanceRead (pops : Pops q sent reads w (.used slot)) :
    Pops q.advanceRead sent reads w (.advanced slot) := by
  obtain ⟨holds, reading, isLast⟩ := pops
  refine ⟨?_, reading, isLast⟩
  have advanced := holds.advanceRead
  simp only [Popping.ahead] at advanced
  rw [Nat.sub_add_cancel reading] at advanced
  exact advanced

theorem countRead (pops : Pops q sent reads w (.advanced slot)) :
    ∃ q', q.countRead = .ok q' ∧ q'.capacity = q.capacity ∧ q'.numElements ≤ q.numElements ∧
      Pops q' sent reads w .idle := by
  obtain ⟨q', counted, capacity, fewer, holds⟩ := pops.holds.countRead
  exact ⟨q', counted, capacity, fewer, holds, trivial⟩

/-- A step of the loop never fails. What it reads is the next element, while the writer
is at most one turn ahead. -/
theorem popStep (pops : Pops q sent reads w p) :
    ∃ q' p' read, q.popStep p = .ok (q', p', read) ∧ q'.capacity = q.capacity ∧
      q'.numElements ≤ q.numElements ∧
      Pops q' sent (reads + read.toList.length) w p' ∧
      ∀ x ∈ read, sent.length ≤ reads + q.capacity → sent[reads]? = some x := by
  cases p with
  | idle =>
      cases head : q.getNextToRead with
      | none =>
          refine ⟨q, .idle, none, ?_, rfl, Nat.le_refl _, pops, ?_⟩
          · simp only [LFQueue.popStep, head]
          · intro x mem
            cases mem
      | some slot =>
          refine ⟨q, .held slot, none, ?_, rfl, Nat.le_refl _, pops.hold head, ?_⟩
          · simp only [LFQueue.popStep, head]
          · intro x mem
            cases mem
  | held slot =>
      refine ⟨q, .used slot, some (q.store slot), rfl, rfl, Nat.le_refl _, pops.use, ?_⟩
      intro x mem near
      cases mem
      exact pops.front near
  | used slot =>
      refine ⟨q.advanceRead, .advanced slot, none, rfl, rfl, Nat.le_refl _, pops.advanceRead, ?_⟩
      intro x mem
      cases mem
  | advanced slot =>
      obtain ⟨q', counted, capacity, fewer, left⟩ := pops.countRead
      refine ⟨q', .idle, none, ?_, capacity, fewer, left, ?_⟩
      · simp only [LFQueue.popStep, counted, bind, Except.bind, pure, Except.pure]
      · intro x mem
        cases mem

end Pops

end LFQueue

end NanoTrade
