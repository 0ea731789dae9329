import NanoTrade.Types
import Mathlib.Data.List.Perm.Subperm
import Mathlib.Data.List.Nodup

/-!
# The memory pool

`common/mem_pool.h`: a vector of blocks, each with a free flag, and the index of
a free block that was searched ahead of time. A pointer into the pool is the
index of its block. A freed block keeps its object, as the destructor is never
called, so reading through a dangling pointer is defined (and returns stale data).

`MemPool.Holds pool live` says that the blocks in use are exactly those of `live`.
`Holds.allocate` and `Holds.deallocate` are the specifications the books use:
an allocation succeeds exactly while a further free block remains after it,
because the search for the next one runs at the end of the call.
-/

namespace NanoTrade

abbrev Ptr := Nat

structure ObjectBlock (α : Type) where
  object : α
  isFree : Bool

structure MemPool (α : Type) where
  store : Nat → ObjectBlock α
  size : Nat
  nextFreeIndex : Nat

namespace MemPool

variable {α : Type}

/-- The constructor: `num_elems` free blocks that hold `T()`. -/
def new (numElems : Nat) (t : α) : MemPool α :=
  { store := fun _ => ⟨t, true⟩, size := numElems, nextFreeIndex := 0 }

/-- The loop of `updateNextFreeIndex` from block `index` on. -/
def findFree (pool : MemPool α) (initialFreeIndex : Nat) : Nat → Nat → Except Fault Nat
  | 0, _ => .error .diverges
  | fuel + 1, index =>
    if (pool.store index).isFree then .ok index
    else
      let index := if index + 1 = pool.size then 0 else index + 1
      if initialFreeIndex = index then .error .outOfSpace
      else pool.findFree initialFreeIndex fuel index

/-- Find the next available free block to be used for the next allocation. The
cursor comes back to where it started after `size` steps. -/
def updateNextFreeIndex (pool : MemPool α) : Except Fault (MemPool α) := do
  let index ← pool.findFree pool.nextFreeIndex pool.size pool.nextFreeIndex
  pure { pool with nextFreeIndex := index }

/-- Placement new of `t` in the block searched ahead, now in use. -/
def place (pool : MemPool α) (t : α) : MemPool α :=
  { pool with store := Function.update pool.store pool.nextFreeIndex ⟨t, false⟩ }

/-- Allocate a block for the object `t`, mark it as in use and return it. -/
def allocate (pool : MemPool α) (t : α) : Except Fault (Ptr × MemPool α) :=
  let ret := pool.nextFreeIndex
  if (pool.store ret).isFree then do
    let pool ← (pool.place t).updateNextFreeIndex
    pure (ret, pool)
  else .error (.expectedFreeBlock ret)

/-- Return the block to the pool by marking it as free again. -/
def deallocate (pool : MemPool α) (elem : Ptr) : Except Fault (MemPool α) :=
  if pool.size ≤ elem then .error .foreignElement
  else if (pool.store elem).isFree then .error (.expectedInUseBlock elem)
  else .ok
    { pool with store := Function.update pool.store elem ⟨(pool.store elem).object, true⟩ }

/-- Read through a pointer. -/
def get (pool : MemPool α) (p : Ptr) : α :=
  (pool.store p).object

/-- Write through a pointer. -/
def modify (pool : MemPool α) (p : Ptr) (f : α → α) : MemPool α :=
  { pool with
    store := Function.update pool.store p ⟨f (pool.store p).object, (pool.store p).isFree⟩ }

@[simp] theorem get_new (n : Nat) (t : α) (p : Ptr) : (new n t).get p = t := rfl

@[simp] theorem size_modify (pool : MemPool α) (p : Ptr) (f : α → α) :
    (pool.modify p f).size = pool.size := rfl

theorem get_modify (pool : MemPool α) (p q : Ptr) (f : α → α) :
    (pool.modify p f).get q = if q = p then f (pool.get p) else pool.get q := by
  by_cases h : q = p
  · subst h; simp [modify, get]
  · simp [modify, get, h]

@[simp] theorem get_modify_self (pool : MemPool α) (p : Ptr) (f : α → α) :
    (pool.modify p f).get p = f (pool.get p) := by
  simp [get_modify]

@[simp] theorem get_modify_of_ne (pool : MemPool α) {p q : Ptr} (f : α → α) (h : q ≠ p) :
    (pool.modify p f).get q = pool.get q := by
  simp [get_modify, h]

@[simp] theorem isFree_modify (pool : MemPool α) (p q : Ptr) (f : α → α) :
    ((pool.modify p f).store q).isFree = (pool.store q).isFree := by
  by_cases h : q = p
  · subst h; simp [modify]
  · simp [modify, h]

/-- What a deallocation that returns has done. -/
theorem deallocate_eq_ok {pool pool' : MemPool α} {elem : Ptr}
    (freed : pool.deallocate elem = .ok pool') :
    elem < pool.size ∧ (pool.store elem).isFree = false ∧
      pool' = { pool with
        store := Function.update pool.store elem ⟨(pool.store elem).object, true⟩ } := by
  unfold deallocate at freed
  split at freed
  · cases freed
  · rename_i own
    split at freed
    · cases freed
    · rename_i inUse
      cases freed
      exact ⟨Nat.lt_of_not_le own, Bool.eq_false_iff.mpr inUse, rfl⟩

/-- Only the block that is given back becomes free. -/
theorem deallocate_isFree {pool pool' : MemPool α} {elem : Ptr}
    (freed : pool.deallocate elem = .ok pool') (p : Ptr) :
    (pool'.store p).isFree = if p = elem then true else (pool.store p).isFree := by
  obtain ⟨-, -, rfl⟩ := deallocate_eq_ok freed
  dsimp only
  rcases eq_or_ne p elem with rfl | other
  · rw [if_pos rfl, Function.update_self]
  · rw [if_neg other, Function.update_of_ne other]

/-- What an allocation that returns has done. -/
theorem allocate_eq_ok {pool pool' : MemPool α} {t : α} {ret : Ptr}
    (allocated : pool.allocate t = .ok (ret, pool')) :
    ret = pool.nextFreeIndex ∧ (pool.store ret).isFree = true ∧
      ∃ index, (pool.place t).findFree pool.nextFreeIndex pool.size pool.nextFreeIndex = .ok index ∧
        pool' = { pool.place t with nextFreeIndex := index } := by
  unfold allocate at allocated
  simp only at allocated
  split at allocated
  · rename_i free
    unfold updateNextFreeIndex at allocated
    cases found : (pool.place t).findFree (pool.place t).nextFreeIndex (pool.place t).size
        (pool.place t).nextFreeIndex with
    | error f =>
        rw [found] at allocated
        cases allocated
    | ok index =>
        rw [found] at allocated
        cases allocated
        exact ⟨rfl, free, index, found, rfl⟩
  · cases allocated

/-- The block that is given out was free, and is the only one that becomes in use. -/
theorem allocate_isFree {pool pool' : MemPool α} {t : α} {ret : Ptr}
    (allocated : pool.allocate t = .ok (ret, pool')) :
    (pool.store ret).isFree = true ∧
      ∀ p, (pool'.store p).isFree = if p = ret then false else (pool.store p).isFree := by
  obtain ⟨rfl, free, index, -, rfl⟩ := allocate_eq_ok allocated
  refine ⟨free, fun p => ?_⟩
  dsimp only [place]
  rcases eq_or_ne p pool.nextFreeIndex with rfl | other
  · rw [if_pos rfl, Function.update_self]
  · rw [if_neg other, Function.update_of_ne other]

/-- The blocks in use are those of `live`, and the block searched ahead is free. -/
structure Holds (pool : MemPool α) (live : List Ptr) : Prop where
  nodup : live.Nodup
  inUse : ∀ p, p ∈ live ↔ p < pool.size ∧ (pool.store p).isFree = false
  nextBound : pool.nextFreeIndex < pool.size
  nextFree : (pool.store pool.nextFreeIndex).isFree = true

theorem holds_new {n : Nat} (t : α) (pos : 0 < n) : (new n t).Holds [] :=
  ⟨List.nodup_nil, by simp [new], pos, rfl⟩

theorem Holds.perm {pool : MemPool α} {live live' : List Ptr} (holds : pool.Holds live)
    (perm : live.Perm live') : pool.Holds live' :=
  ⟨perm.nodup_iff.mp holds.nodup, fun p => perm.mem_iff.symm.trans (holds.inUse p),
    holds.nextBound, holds.nextFree⟩

theorem Holds.modify {pool : MemPool α} {live : List Ptr} (holds : pool.Holds live) (p : Ptr)
    (f : α → α) : (pool.modify p f).Holds live := by
  refine ⟨holds.nodup, fun q => ?_, holds.nextBound, ?_⟩
  · rw [isFree_modify]
    exact holds.inUse q
  · rw [isFree_modify]
    exact holds.nextFree

/-- One step of the cursor is one step on the circle of indices. -/
theorem cursor_step {n k initial : Nat} (pos : 0 < n) :
    (if (initial + k) % n + 1 = n then 0 else (initial + k) % n + 1) =
      (initial + (k + 1)) % n := by
  have small : (initial + k) % n < n := Nat.mod_lt _ pos
  have sum : (initial + (k + 1)) % n = ((initial + k) % n + 1) % n := by
    rw [← Nat.add_assoc, Nat.mod_add_mod]
  rw [sum]
  split
  · rename_i last
    rw [last, Nat.mod_self]
  · exact (Nat.mod_eq_of_lt (by omega)).symm

/-- Short of a full turn the cursor is not back at its start. -/
theorem cursor_ne_initial {n k initial : Nat} (bound : initial < n) (pos : 0 < k) (short : k < n) :
    initial ≠ (initial + k) % n := by
  intro back
  by_cases wrap : initial + k < n
  · rw [Nat.mod_eq_of_lt wrap] at back
    omega
  · rw [Nat.mod_eq_sub_mod (by omega), Nat.mod_eq_of_lt (by omega)] at back
    omega

/-- The search, `k` steps after `initial`, finds a free block if one is left on the
rest of the circle. -/
theorem findFree_of_free {pool : MemPool α} {initial : Nat} (bound : initial < pool.size) :
    ∀ (fuel k m : Nat), fuel + k = pool.size → k ≤ m → m < pool.size →
      (pool.store ((initial + m) % pool.size)).isFree = true →
      ∃ i, pool.findFree initial fuel ((initial + k) % pool.size) = .ok i ∧
        i < pool.size ∧ (pool.store i).isFree = true := by
  intro fuel
  induction fuel with
  | zero => intro k m fuelEq km mBound _; omega
  | succ fuel ih =>
    intro k m fuelEq km mBound free
    have small : (initial + k) % pool.size < pool.size := Nat.mod_lt _ (by omega)
    by_cases here : (pool.store ((initial + k) % pool.size)).isFree = true
    · exact ⟨_, by simp [findFree, here], small, here⟩
    · have km' : k + 1 ≤ m := by
        rcases Nat.eq_or_lt_of_le km with rfl | lt
        · exact (here free).elim
        · exact lt
      obtain ⟨i, found, iBound, iFree⟩ := ih (k + 1) m (by omega) km' mBound free
      refine ⟨i, ?_, iBound, iFree⟩
      rw [findFree, if_neg here]
      simp only [cursor_step (Nat.zero_lt_of_lt bound),
        if_neg (cursor_ne_initial bound (Nat.succ_pos k) (show k + 1 < pool.size by omega))]
      exact found

theorem updateNextFreeIndex_of_free {pool : MemPool α} {q : Nat}
    (bound : pool.nextFreeIndex < pool.size) (qBound : q < pool.size)
    (free : (pool.store q).isFree = true) :
    ∃ i, pool.updateNextFreeIndex = .ok { pool with nextFreeIndex := i } ∧
      i < pool.size ∧ (pool.store i).isFree = true := by
  obtain ⟨m, mBound, at_m⟩ : ∃ m < pool.size, (pool.nextFreeIndex + m) % pool.size = q := by
    by_cases le : pool.nextFreeIndex ≤ q
    · exact ⟨q - pool.nextFreeIndex, by omega, by rw [Nat.mod_eq_of_lt] <;> omega⟩
    · refine ⟨q + pool.size - pool.nextFreeIndex, by omega, ?_⟩
      rw [Nat.mod_eq_sub_mod (by omega), Nat.mod_eq_of_lt (by omega)]
      omega
  obtain ⟨i, found, iBound, iFree⟩ := findFree_of_free bound pool.size 0 m
    (by omega) (by omega) mBound (by rw [at_m]; exact free)
  rw [Nat.add_zero, Nat.mod_eq_of_lt bound] at found
  refine ⟨i, ?_, iBound, iFree⟩
  simp [updateNextFreeIndex, found, bind, Except.bind, pure, Except.pure]

/-- With every block in use the search returns to its start and the pool reports
that it is out of space. -/
theorem findFree_full {pool : MemPool α} {initial : Nat} (bound : initial < pool.size)
    (full : ∀ p < pool.size, (pool.store p).isFree = false) :
    ∀ (fuel k : Nat), 0 < fuel → fuel + k = pool.size →
      pool.findFree initial fuel ((initial + k) % pool.size) = .error .outOfSpace := by
  intro fuel
  induction fuel with
  | zero => intro k pos; omega
  | succ fuel ih =>
    intro k _ fuelEq
    have small : (initial + k) % pool.size < pool.size := Nat.mod_lt _ (by omega)
    rw [findFree, full _ small]
    simp only [Bool.false_eq_true, if_false, cursor_step (Nat.zero_lt_of_lt bound)]
    by_cases last : fuel = 0
    · have back : (initial + (k + 1)) % pool.size = initial := by
        rw [show initial + (k + 1) = initial + pool.size by omega, Nat.add_mod_right,
          Nat.mod_eq_of_lt bound]
      rw [back, if_pos rfl]
    · rw [if_neg (cursor_ne_initial bound (Nat.succ_pos k) (show k + 1 < pool.size by omega))]
      exact ih (k + 1) (by omega) (by omega)

section Allocate

variable {pool : MemPool α} {live : List Ptr}

theorem Holds.fresh (holds : pool.Holds live) : pool.nextFreeIndex ∉ live := by
  intro mem
  have inUse := ((holds.inUse _).mp mem).2
  rw [holds.nextFree] at inUse
  cases inUse

/-- The blocks in use with the one searched ahead. -/
theorem Holds.nodup_next (holds : pool.Holds live) : (pool.nextFreeIndex :: live).Nodup :=
  List.nodup_cons.mpr ⟨holds.fresh, holds.nodup⟩

theorem Holds.length_lt (holds : pool.Holds live) : live.length < pool.size := by
  have sub : (pool.nextFreeIndex :: live).Subperm (List.range pool.size) := by
    refine List.subperm_of_subset holds.nodup_next ?_
    intro p mem
    rcases List.mem_cons.mp mem with rfl | mem
    · exact List.mem_range.mpr holds.nextBound
    · exact List.mem_range.mpr ((holds.inUse p).mp mem).1
  have := sub.length_le
  simp only [List.length_cons, List.length_range] at this
  omega

theorem Holds.mem_place (holds : pool.Holds live) (t : α) (q : Ptr) :
    q ∈ pool.nextFreeIndex :: live ↔
      q < pool.size ∧ ((pool.place t).store q).isFree = false := by
  by_cases e : q = pool.nextFreeIndex
  · subst e
    simpa [place] using holds.nextBound
  · simpa [place, Function.update_of_ne e, e] using holds.inUse q

theorem get_place (pool : MemPool α) (t : α) (q : Ptr) :
    (pool.place t).get q = if q = pool.nextFreeIndex then t else pool.get q := by
  by_cases e : q = pool.nextFreeIndex
  · simp [place, get, e]
  · simp [place, get, e]

/-- While a further free block remains, an allocation hands out a block that was not
in use, with the new object in it, and touches no other block. -/
theorem Holds.allocate (holds : pool.Holds live) (room : live.length + 1 < pool.size) (t : α) :
    ∃ p pool', pool.allocate t = .ok (p, pool') ∧ p ∉ live ∧ pool'.Holds (p :: live) ∧
      pool'.size = pool.size ∧ ∀ q, pool'.get q = if q = p then t else pool.get q := by
  -- With this block taken fewer than `size` blocks are in use, so one more is free.
  obtain ⟨q, qBound, qFresh⟩ : ∃ q < pool.size, q ∉ pool.nextFreeIndex :: live := by
    by_contra noneFresh
    push Not at noneFresh
    have sub : (List.range pool.size).Subperm (pool.nextFreeIndex :: live) :=
      List.subperm_of_subset List.nodup_range fun q mem => noneFresh q (List.mem_range.mp mem)
    have := sub.length_le
    simp only [List.length_cons, List.length_range] at this
    omega
  have qFree : ((pool.place t).store q).isFree = true := by
    rw [← Bool.not_eq_false]
    exact fun inUse => qFresh ((holds.mem_place t q).mpr ⟨qBound, inUse⟩)
  obtain ⟨i, found, iBound, iFree⟩ :=
    updateNextFreeIndex_of_free (show (pool.place t).nextFreeIndex < _ from holds.nextBound) qBound
      qFree
  refine ⟨_, { pool.place t with nextFreeIndex := i }, ?_, holds.fresh,
    ⟨holds.nodup_next, holds.mem_place t, iBound, iFree⟩, rfl, get_place pool t⟩
  simp only [MemPool.allocate, holds.nextFree, if_true, found, bind, Except.bind, pure,
    Except.pure]

/-- The object in the last free block fills the pool. -/
theorem Holds.place_full (holds : pool.Holds live) (full : pool.size ≤ live.length + 1) (t : α) :
    ∀ q < pool.size, ((pool.place t).store q).isFree = false := by
  have sub : (pool.nextFreeIndex :: live).Subperm (List.range pool.size) :=
    List.subperm_of_subset holds.nodup_next fun q mem =>
      List.mem_range.mpr ((holds.mem_place t q).mp mem).1
  have perm := sub.perm_of_length_le (by simpa using full)
  intro q bound
  exact ((holds.mem_place t q).mp (perm.mem_iff.mpr (List.mem_range.mpr bound))).2

/-- The allocation that takes the last free block is the one that reports exhaustion. -/
theorem Holds.allocate_last (holds : pool.Holds live) (full : pool.size ≤ live.length + 1) (t : α) :
    pool.allocate t = .error .outOfSpace := by
  have search := findFree_full (show pool.nextFreeIndex < (pool.place t).size from holds.nextBound)
    (holds.place_full full t) pool.size 0 (Nat.zero_lt_of_lt holds.nextBound) (Nat.add_zero _)
  rw [Nat.add_zero,
    Nat.mod_eq_of_lt (show pool.nextFreeIndex < (pool.place t).size from holds.nextBound)] at search
  have update : (pool.place t).updateNextFreeIndex = .error .outOfSpace := by
    simp only [updateNextFreeIndex, show (pool.place t).nextFreeIndex = pool.nextFreeIndex from rfl,
      show (pool.place t).size = pool.size from rfl, search, bind, Except.bind]
  simp only [MemPool.allocate, holds.nextFree, if_true, update, bind, Except.bind]

theorem Holds.deallocate (holds : pool.Holds live) {p : Ptr} (mem : p ∈ live) :
    ∃ pool', pool.deallocate p = .ok pool' ∧ pool'.Holds (live.erase p) ∧
      pool'.size = pool.size ∧ ∀ q, pool'.get q = pool.get q := by
  obtain ⟨bound, inUse⟩ := (holds.inUse p).mp mem
  have freed : pool.deallocate p = .ok
      { pool with store := Function.update pool.store p ⟨(pool.store p).object, true⟩ } := by
    simp [MemPool.deallocate, inUse, Nat.not_le.mpr bound]
  refine ⟨_, freed, ⟨holds.nodup.erase p, fun q => ?_, holds.nextBound, ?_⟩, rfl, fun q => ?_⟩
  · rw [holds.nodup.mem_erase_iff]
    by_cases e : q = p
    · subst e
      simp
    · simpa [Function.update_of_ne e, e] using holds.inUse q
  · have ne : pool.nextFreeIndex ≠ p := fun e => holds.fresh (e ▸ mem)
    simpa [Function.update_of_ne ne] using holds.nextFree
  · by_cases e : q = p
    · subst e
      simp [MemPool.get]
    · simp [MemPool.get, Function.update_of_ne e]

end Allocate

end MemPool

end NanoTrade
