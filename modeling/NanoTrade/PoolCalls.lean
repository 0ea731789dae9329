import NanoTrade.Ends
import NanoTrade.MemPool

/-!
# A pool and its client

A client allocates objects and gives them back in any order. How many are live follows from its
calls alone; in which blocks they are is the answer of the pool.

* `run_exclusive`: a pool never hands out a block that is in use.
* `holdsAll_iff`: a pool of `size` blocks holds what it should exactly while fewer than `size`
  objects are live, as the one that takes the last block ends the process.
-/

namespace NanoTrade

/-- What a client asks of its pool: `deallocate i` gives back the `i`-th of the live objects, in
the order in which they were allocated. -/
inductive PoolCall (α : Type)
  | allocate (t : α)
  | deallocate (i : Nat)

/-- The calls that a pool takes. -/
structure PoolApi (α : Type) where
  allocate : MemPool α → α → Except Fault (Ptr × MemPool α)
  deallocate : MemPool α → Ptr → Except Fault (MemPool α)

def MemPool.api {α : Type} : PoolApi α :=
  { allocate := MemPool.allocate, deallocate := MemPool.deallocate }

/-- A pool with the blocks of the live objects. -/
structure PoolUse (α : Type) where
  pool : MemPool α
  live : List Ptr

namespace PoolUse

variable {α : Type}

def new (size : Nat) (t : α) : PoolUse α :=
  { pool := .new size t, live := [] }

/-- One call, with the block that it returns. -/
def step (api : PoolApi α) (u : PoolUse α) : PoolCall α → Except Fault (PoolUse α × List Ptr)
  | .allocate t => do
    let (ret, pool) ← api.allocate u.pool t
    pure ({ pool, live := u.live ++ [ret] }, [ret])
  | .deallocate i => do
    let elem ← deref u.live[i]?
    let pool ← api.deallocate u.pool elem
    pure ({ pool, live := u.live.eraseIdx i }, [])

end PoolUse

/-! ## Live objects -/

section Calls

variable {α : Type}

/-- The number of live objects behind a call. -/
def PoolCall.after (n : Nat) : PoolCall α → Nat
  | .allocate _ => n + 1
  | .deallocate _ => n - 1

/-- Of `n` live objects, one that exists is given back. -/
def PoolCall.OfLive (n : Nat) : PoolCall α → Prop
  | .allocate _ => True
  | .deallocate i => i < n

instance (n : Nat) : ∀ call : PoolCall α, Decidable (call.OfLive n)
  | .allocate _ => isTrue trivial
  | .deallocate i => inferInstanceAs (Decidable (i < n))

/-- The live objects in the course of the calls. -/
def liveCount (n : Nat) (call : PoolCall α) : Nat × List Nat :=
  (call.after n, [call.after n])

/-- Only live objects are given back. -/
def LiveOnly (calls : List (PoolCall α)) : Prop :=
  Along (fun n call => call.OfLive n) liveCount 0 calls

/-- At any time fewer than `bound` objects are live. -/
def FewerLive (bound : Nat) (calls : List (PoolCall α)) : Prop :=
  Along (fun n call => call.after n < bound) liveCount 0 calls

instance (calls : List (PoolCall α)) : Decidable (LiveOnly calls) :=
  inferInstanceAs (Decidable (Along _ _ _ _))

instance (bound : Nat) (calls : List (PoolCall α)) : Decidable (FewerLive bound calls) :=
  inferInstanceAs (Decidable (Along _ _ _ _))

variable {calls : List (PoolCall α)} {size : Nat}

theorem liveCount_within {n : Nat}
    (few : Along (fun k call => PoolCall.after k call < size) liveCount n calls) :
    (runTotal liveCount n calls).1 = n ∨ (runTotal liveCount n calls).1 < size := by
  induction calls generalizing n with
  | nil => exact .inl rfl
  | cons call calls ih =>
      obtain ⟨here, later⟩ := few
      rcases ih later with same | below
      · exact .inr (Nat.lt_of_le_of_lt (Nat.le_of_eq same) here)
      · exact .inr below

/-- Where the bound is passed first, an object is allocated. -/
theorem exists_last_block (legal : LiveOnly calls) (many : ¬ FewerLive size calls) :
    ∃ before t rest, calls = before ++ .allocate t :: rest ∧ LiveOnly before ∧
      FewerLive size before ∧ size ≤ (runTotal liveCount 0 before).1 + 1 := by
  obtain ⟨before, call, rest, rfl, few, passed⟩ := exists_of_not_along many
  obtain ⟨legalBefore, here, -⟩ := along_append.mp legal
  refine ⟨before, ?_⟩
  cases call with
  | allocate t => exact ⟨t, rest, rfl, legalBefore, few, Nat.le_of_not_lt passed⟩
  | deallocate i =>
      have within := liveCount_within few
      have inside : i < (runTotal liveCount 0 before).1 := here
      have outside : ¬ (runTotal liveCount 0 before).1 - 1 < size := passed
      omega

end Calls

/-! ## The checked pool -/

namespace PoolUse

variable {α : Type}

/-- The live objects are in the blocks in use, and the pool has not changed its size. -/
structure Serves (size : Nat) (u : PoolUse α) : Prop where
  holds : u.pool.Holds u.live
  size : u.pool.size = size

/-- What a pool guarantees its client between two calls. -/
structure Exclusive (u : PoolUse α) : Prop where
  /-- `next_free_index_` denotes a free block. -/
  nextFree : u.pool.nextFreeIndex < u.pool.size ∧
    (u.pool.store u.pool.nextFreeIndex).isFree = true
  /-- No two live objects share a block. -/
  apart : u.live.Nodup
  /-- The blocks of the live objects are those in use. -/
  inUse : ∀ p, p ∈ u.live ↔ p < u.pool.size ∧ (u.pool.store p).isFree = false
  /-- `allocate` returns a block that is not live, and takes no other. -/
  allocates : ∀ t ret pool', u.pool.allocate t = .ok (ret, pool') →
    ret < u.pool.size ∧ ret ∉ u.live ∧
      ∀ p, (pool'.store p).isFree = if p = ret then false else (u.pool.store p).isFree
  /-- "Expected free ObjectBlock at index:" is not reached. -/
  expected : ∀ t index, u.pool.allocate t ≠ .error (.expectedFreeBlock index)
  /-- `deallocate` of a live block frees it and no other. -/
  frees : ∀ elem ∈ u.live, ∃ pool', u.pool.deallocate elem = .ok pool' ∧
    ∀ p, (pool'.store p).isFree = if p = elem then true else (u.pool.store p).isFree

variable {u u' : PoolUse α} {call : PoolCall α} {size n : Nat} {out : List Ptr}

theorem serves_new (t : α) (pos : 0 < size) : (new size t).Serves size :=
  ⟨MemPool.holds_new t pos, rfl⟩

theorem step_allocate_eq_ok {api : PoolApi α} {t : α} :
    u.step api (.allocate t) = .ok (u', out) ↔
      ∃ ret pool, api.allocate u.pool t = .ok (ret, pool) ∧
        u' = { pool, live := u.live ++ [ret] } ∧ out = [ret] := by
  constructor
  · intro stepped
    obtain ⟨⟨ret, pool⟩, allocated, finished⟩ := bind_eq_ok.mp stepped
    cases finished
    exact ⟨ret, pool, allocated, rfl, rfl⟩
  · intro allocation
    obtain ⟨ret, pool, allocated, rfl, rfl⟩ := allocation
    exact bind_eq_ok.mpr ⟨(ret, pool), allocated, rfl⟩

theorem step_deallocate_eq_ok {api : PoolApi α} {i : Nat} :
    u.step api (.deallocate i) = .ok (u', out) ↔
      ∃ elem pool, u.live[i]? = some elem ∧ api.deallocate u.pool elem = .ok pool ∧
        u' = { pool, live := u.live.eraseIdx i } ∧ out = [] := by
  constructor
  · intro stepped
    obtain ⟨elem, live, freed⟩ := bind_eq_ok.mp stepped
    obtain ⟨pool, deallocated, finished⟩ := bind_eq_ok.mp freed
    cases finished
    cases entry : u.live[i]? with
    | none =>
        rw [entry] at live
        cases live
    | some elem' =>
        rw [entry] at live
        cases live
        exact ⟨elem, pool, rfl, deallocated, rfl, rfl⟩
  · intro deallocation
    obtain ⟨elem, pool, live, deallocated, rfl, rfl⟩ := deallocation
    have entry : deref u.live[i]? = .ok elem := by
      rw [live]
      rfl
    exact bind_eq_ok.mpr ⟨elem, entry, bind_eq_ok.mpr ⟨pool, deallocated, rfl⟩⟩

/-- Whatever the pool, the live objects are as many as the calls say. -/
theorem step_length {api : PoolApi α} (stepped : u.step api call = .ok (u', out)) :
    u'.live.length = call.after u.live.length := by
  cases call with
  | allocate t =>
      obtain ⟨ret, pool, -, rfl, -⟩ := step_allocate_eq_ok.mp stepped
      exact List.length_append
  | deallocate i =>
      obtain ⟨elem, pool, live, -, rfl, -⟩ := step_deallocate_eq_ok.mp stepped
      obtain ⟨inside, -⟩ := List.getElem?_eq_some_iff.mp live
      exact List.length_eraseIdx_of_lt inside

/-- What the calls say of live objects holds along a run. -/
theorem admits_ofLive (api : PoolApi α) {calls : List (PoolCall α)} (length : u.live.length = n)
    (legal : Along (fun n call => call.OfLive n) liveCount n calls) :
    Admits (fun u call => call.OfLive u.live.length) (step api) u calls := by
  refine admits_of_along (R := fun u n => u.live.length = n) ?_ ?_ length legal
  · intro u n call u' out length stepped
    rw [step_length stepped, length]
    rfl
  · intro u n call length ofLive
    rw [length]
    exact ofLive

/-- An allocation that leaves a free block returns. -/
theorem Serves.allocate (serves : u.Serves size) (room : u.live.length + 1 < size) (t : α) :
    ∃ u' out, u.step MemPool.api (.allocate t) = .ok (u', out) ∧ u'.Serves size := by
  have room : u.live.length + 1 < u.pool.size := by
    rw [serves.size]
    exact room
  obtain ⟨ret, pool, allocated, -, holds, same, -⟩ := serves.holds.allocate room t
  exact ⟨_, _, step_allocate_eq_ok.mpr ⟨ret, pool, allocated, rfl, rfl⟩,
    holds.perm (List.perm_append_singleton ret u.live).symm, same.trans serves.size⟩

/-- The allocation of the last free block does not. -/
theorem Serves.allocate_last (serves : u.Serves size) (full : size ≤ u.live.length + 1) (t : α) :
    u.step MemPool.api (.allocate t) = .error .outOfSpace := by
  have full : u.pool.size ≤ u.live.length + 1 := by
    rw [serves.size]
    exact full
  have failed : MemPool.api.allocate u.pool t = .error .outOfSpace :=
    serves.holds.allocate_last full t
  rw [step, failed]
  rfl

/-- A live object can be given back. -/
theorem Serves.deallocate (serves : u.Serves size) {i : Nat} (inside : i < u.live.length) :
    ∃ u' out, u.step MemPool.api (.deallocate i) = .ok (u', out) ∧ u'.Serves size := by
  obtain ⟨pool, freed, holds, same, -⟩ := serves.holds.deallocate (List.getElem_mem inside)
  have rest : (u.live.erase u.live[i]).Perm (u.live.eraseIdx i) := by
    have taken := (List.getElem_cons_eraseIdx_perm inside).symm.erase u.live[i]
    rw [List.erase_cons_head] at taken
    exact taken
  exact ⟨_, _, step_deallocate_eq_ok.mpr
    ⟨_, pool, List.getElem?_eq_getElem inside, freed, rfl, rfl⟩, holds.perm rest,
    same.trans serves.size⟩

/-- One call of a client that gives back live objects only: the one ASSERT in its way is that
the pool is out of space. -/
theorem Serves.ends_step (serves : u.Serves size) (ofLive : call.OfLive u.live.length) :
    Ends (· = Fault.outOfSpace) (u.step MemPool.api call) fun result => result.1.Serves size := by
  cases call with
  | allocate t =>
      by_cases room : u.live.length + 1 < size
      · obtain ⟨u', out, stepped, next⟩ := serves.allocate room t
        rw [stepped]
        exact Ends.ok next
      · rw [serves.allocate_last (Nat.le_of_not_lt room) t]
        exact Ends.error rfl
  | deallocate i =>
      obtain ⟨u', out, stepped, next⟩ := serves.deallocate ofLive
      rw [stepped]
      exact Ends.ok next

/-- A call returns that leaves a free block beside the one searched ahead. -/
theorem Serves.step (serves : u.Serves size) (ofLive : call.OfLive u.live.length)
    (few : call.after u.live.length < size) :
    ∃ u' out, u.step MemPool.api call = .ok (u', out) ∧ u'.Serves size := by
  cases call with
  | allocate t => exact serves.allocate few t
  | deallocate i => exact serves.deallocate ofLive

theorem Serves.exclusive (serves : u.Serves size) : u.Exclusive := by
  have holds := serves.holds
  have ends : ∀ t, Ends (· = Fault.outOfSpace) (u.pool.allocate t) fun result =>
      result.1 < u.pool.size ∧ result.1 ∉ u.live := by
    intro t
    by_cases room : u.live.length + 1 < u.pool.size
    · obtain ⟨ret, pool, allocated, fresh, after, same, -⟩ := holds.allocate room t
      have inUse := ((after.inUse ret).mp List.mem_cons_self).1
      rw [allocated]
      exact Ends.ok ⟨same ▸ inUse, fresh⟩
    · rw [holds.allocate_last (Nat.le_of_not_lt room) t]
      exact Ends.error rfl
  refine ⟨⟨holds.nextBound, holds.nextFree⟩, holds.nodup, holds.inUse, ?_, ?_, ?_⟩
  · intro t ret pool' allocated
    obtain ⟨block, fresh⟩ := (ends t).of_ok allocated
    exact ⟨block, fresh, (MemPool.allocate_isFree allocated).2⟩
  · intro t index failed
    cases (ends t).of_error failed
  · intro elem mem
    obtain ⟨pool', freed, -⟩ := holds.deallocate mem
    exact ⟨pool', freed, MemPool.deallocate_isFree freed⟩

end PoolUse

section Runs

open PoolUse

variable {α : Type} {calls : List (PoolCall α)} {size : Nat}

/-- **A pool never hands out a block that is in use.** A client that gives back live objects only
meets no ASSERT but "Memory Pool out of space.", and as long as it has met none the next free block
is free, allocations return blocks that are not live and live objects do not share any. -/
theorem run_exclusive (pos : 0 < size) (t : α) (legal : LiveOnly calls) :
    Ends (· = Fault.outOfSpace) (run (step MemPool.api) (.new size t) calls) fun result =>
      result.1.Exclusive := by
  have admits := admits_ofLive MemPool.api (u := .new size t) rfl legal
  exact (Ends.run Serves.ends_step (serves_new t pos) admits).imp fun _ => Serves.exclusive

/-- Three objects, of which the second one is given back. -/
theorem run_exclusive_gap :
    Ends (· = Fault.outOfSpace)
      (run (step MemPool.api) (.new 4 ())
        [.allocate (), .allocate (), .allocate (), .deallocate 1, .allocate ()]) fun result =>
      result.1.Exclusive :=
  run_exclusive (by decide) () (by decide)

/-! ## Capacity -/

/-- A client that gives back live objects only has its run while at most `size` objects are live,
and the pool reports that it is out of space to no call but an allocation with `size` live
objects. -/
structure HoldsAll (size : Nat) (t : α) (calls : List (PoolCall α)) : Prop where
  returns : FewerLive (size + 1) calls →
    ∃ u out, run (step MemPool.api) (.new size t) calls = .ok (u, out)
  full : ∀ before call rest u out, calls = before ++ call :: rest →
    run (step MemPool.api) (.new size t) before = .ok (u, out) →
      u.step MemPool.api call = .error .outOfSpace →
        (∃ t, call = .allocate t) ∧ u.live.length = size

/-- While a free block remains behind every allocation, the run returns. -/
theorem run_fewerLive (pos : 0 < size) (t : α) (legal : LiveOnly calls)
    (few : FewerLive size calls) :
    ∃ u out, run (step MemPool.api) (.new size t) calls = .ok (u, out) ∧
      u.Serves size ∧ u.live.length = (runTotal liveCount 0 calls).1 := by
  refine run_along (R := fun (u : PoolUse α) n => u.Serves size ∧ u.live.length = n) ?_
    ⟨serves_new t pos, rfl⟩ (legal.and few)
  intro u n call related along
  obtain ⟨serves, rfl⟩ := related
  obtain ⟨u', out, stepped, next⟩ := serves.step along.1 along.2
  exact ⟨u', out, stepped, next, step_length stepped⟩

/-- **A pool of `size` blocks holds `size` objects** for a client exactly if the client never has so
many: the allocation that takes the last free block finds no further one, and ends the process. -/
theorem holdsAll_iff (pos : 0 < size) (t : α) (legal : LiveOnly calls) :
    HoldsAll size t calls ↔ FewerLive size calls := by
  constructor
  · intro holdsAll
    by_contra many
    obtain ⟨before, last, rest, split, legalBefore, few, full⟩ := exists_last_block legal many
    obtain ⟨u, out, ran, serves, length⟩ := run_fewerLive pos t legalBefore few
    rw [← length] at full
    have all := (holdsAll.full before _ rest u out split ran (serves.allocate_last full last)).2
    have room := serves.holds.length_lt
    rw [serves.size, all] at room
    exact Nat.lt_irrefl size room
  · intro few
    refine ⟨fun _ => ?_, ?_⟩
    · obtain ⟨u, out, ran, -⟩ := run_fewerLive pos t legal few
      exact ⟨u, out, ran⟩
    · intro before call rest v out split ran failed
      subst split
      obtain ⟨legalBefore, ofLive, -⟩ := along_append.mp legal
      obtain ⟨fewBefore, fewer, -⟩ := along_append.mp few
      obtain ⟨u, out', ran', serves, length⟩ := run_fewerLive pos t legalBefore fewBefore
      cases ran.symm.trans ran'
      rw [← length] at ofLive fewer
      obtain ⟨u', now, stepped, -⟩ := serves.step ofLive fewer
      cases stepped.symm.trans failed

/-- Two of three blocks. -/
theorem holdsAll_iff_three :
    HoldsAll 3 () [.allocate (), .allocate (), .deallocate 0, .allocate ()] ↔
      FewerLive 3 [PoolCall.allocate (), .allocate (), .deallocate 0, .allocate ()] :=
  holdsAll_iff (by decide) () (by decide)

/-- The second allocation from a pool of two blocks ends the process, although one object is
live. -/
theorem not_holdsAll_two : ¬ HoldsAll 2 () [.allocate (), .allocate ()] := by
  intro holdsAll
  obtain ⟨u, out, ran⟩ := holdsAll.returns (by decide)
  cases ran

end Runs

end NanoTrade
