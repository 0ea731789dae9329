import NanoTrade.PoolCalls

/-!
# The release pool

`common/opt_mem_pool.h`: the pool of `common/mem_pool.h` with its ASSERTs under
`#if !defined(NDEBUG)`. With them goes the only way out of the search for a free block that finds
none, so it is searched here for a number of rounds that is given, and a search returns if some
number is enough.

* `allocate_debug`, `deallocate_debug`: without `NDEBUG` it is the checked pool.
* `run_release`: with `NDEBUG` it returns what the checked pool returns.
* `dropIn_iff`: each of its allocations returns exactly while fewer objects than blocks are live.
-/

namespace NanoTrade

/-- The members of the two pools are the same. -/
abbrev OptMemPool (α : Type) := MemPool α

namespace OptMemPool

variable {α : Type}

/-- The loop of `updateNextFreeIndex` from block `index` on. -/
def findFree (ndebug : Bool) (pool : OptMemPool α) (initialFreeIndex : Nat) :
    Nat → Nat → Except Fault Nat
  | 0, _ => .error .diverges
  | rounds + 1, index =>
    if (pool.store index).isFree then .ok index
    else
      let index := if index + 1 = pool.size then 0 else index + 1
      if ndebug = false ∧ initialFreeIndex = index then .error .outOfSpace
      else findFree ndebug pool initialFreeIndex rounds index

/-- Find the next available free block to be used for the next allocation. -/
def updateNextFreeIndex (ndebug : Bool) (rounds : Nat) (pool : OptMemPool α) :
    Except Fault (OptMemPool α) := do
  let index ← findFree ndebug pool pool.nextFreeIndex rounds pool.nextFreeIndex
  pure { pool with nextFreeIndex := index }

/-- Allocate a block for the object `t`, mark it as in use and return it. Without any blocks
`&(store_[0])` is null. -/
def allocate (ndebug : Bool) (rounds : Nat) (pool : OptMemPool α) (t : α) :
    Except Fault (Ptr × OptMemPool α) :=
  let ret := pool.nextFreeIndex
  if pool.size = 0 then .error .nullDereference
  else if ndebug = false ∧ (pool.store ret).isFree = false then .error (.expectedFreeBlock ret)
  else do
    let pool ← updateNextFreeIndex ndebug rounds (pool.place t)
    pure (ret, pool)

/-- Return the block to the pool by marking it as free again. -/
def deallocate (ndebug : Bool) (pool : OptMemPool α) (elem : Ptr) : Except Fault (OptMemPool α) :=
  if ndebug = false ∧ pool.size ≤ elem then .error .foreignElement
  else if ndebug = false ∧ (pool.store elem).isFree = true then .error (.expectedInUseBlock elem)
  else .ok
    { pool with store := Function.update pool.store elem ⟨(pool.store elem).object, true⟩ }

/-- The pool compiled with `NDEBUG`, with as many rounds for each search. -/
def release (rounds : Nat) : PoolApi α :=
  { allocate := allocate true rounds, deallocate := deallocate true }

variable {pool pool' : MemPool α} {initial index i rounds : Nat} {t : α} {elem ret : Ptr}

/-! ## Without `NDEBUG` -/

theorem findFree_debug (pool : MemPool α) (initial rounds index : Nat) :
    findFree false pool initial rounds index = pool.findFree initial rounds index := by
  induction rounds generalizing index with
  | zero => rfl
  | succ rounds ih =>
      unfold findFree MemPool.findFree
      simp only [true_and, ih]

/-- Without `NDEBUG` the pool is the checked one. -/
theorem allocate_debug (blocks : 0 < pool.size) (t : α) :
    allocate false pool.size pool t = pool.allocate t := by
  have search : updateNextFreeIndex false pool.size (pool.place t) =
      (pool.place t).updateNextFreeIndex := by
    unfold updateNextFreeIndex
    rw [findFree_debug]
    rfl
  unfold allocate MemPool.allocate
  simp only [Nat.ne_of_gt blocks, if_false, true_and, search]
  cases (pool.store pool.nextFreeIndex).isFree with
  | true => rfl
  | false => rfl

theorem deallocate_debug (pool : MemPool α) (elem : Ptr) :
    deallocate false pool elem = pool.deallocate elem := by
  unfold deallocate MemPool.deallocate
  simp only [true_and]

/-! ## With `NDEBUG` -/

/-- A search that finds a block finds it in more rounds, too. -/
theorem findFree_mono {ndebug : Bool} {more : Nat} (le : rounds ≤ more)
    (found : findFree ndebug pool initial rounds index = .ok i) :
    findFree ndebug pool initial more index = .ok i := by
  induction rounds generalizing index more with
  | zero => cases found
  | succ rounds ih =>
      obtain ⟨more, rfl⟩ : ∃ k, more = k + 1 := ⟨more - 1, by omega⟩
      unfold findFree at found ⊢
      simp only at found ⊢
      generalize (if index + 1 = pool.size then 0 else index + 1) = next at found ⊢
      by_cases free : (pool.store index).isFree = true
      · rw [if_pos free] at found ⊢
        exact found
      · rw [if_neg free] at found ⊢
        by_cases back : ndebug = false ∧ initial = next
        · rw [if_pos back] at found
          cases found
        · rw [if_neg back] at found ⊢
          exact ih (Nat.le_of_succ_le_succ le) found

/-- What the checked search finds is found without the check. -/
theorem findFree_of_checked (found : pool.findFree initial rounds index = .ok i) :
    findFree true pool initial rounds index = .ok i := by
  induction rounds generalizing index with
  | zero => cases found
  | succ rounds ih =>
      unfold MemPool.findFree at found
      unfold findFree
      simp only at found ⊢
      generalize (if index + 1 = pool.size then 0 else index + 1) = next at found ⊢
      have unchecked : ¬ (true = false ∧ initial = next) := fun back => by cases back.1
      rw [if_neg unchecked]
      by_cases free : (pool.store index).isFree = true
      · rw [if_pos free] at found ⊢
        exact found
      · rw [if_neg free] at found ⊢
        by_cases back : initial = next
        · rw [if_pos back] at found
          cases found
        · rw [if_neg back] at found
          exact ih found

/-- With every block in use the search does not end. -/
theorem findFree_full (full : ∀ p < pool.size, (pool.store p).isFree = false)
    (bound : index < pool.size) : findFree true pool initial rounds index = .error .diverges := by
  induction rounds generalizing index with
  | zero => rfl
  | succ rounds ih =>
      unfold findFree
      have next : (if index + 1 = pool.size then 0 else index + 1) < pool.size := by
        split
        · omega
        · omega
      simp only [full index bound, Bool.false_eq_true, if_false, false_and, reduceCtorEq]
      exact ih next

/-- An allocation that returns from the checked pool returns the same. -/
theorem allocate_of_checked (allocated : pool.allocate t = .ok (ret, pool')) :
    allocate true pool.size pool t = .ok (ret, pool') ∧ pool'.size = pool.size := by
  obtain ⟨rfl, -, index, found, rfl⟩ := MemPool.allocate_eq_ok allocated
  have blocks : pool.size ≠ 0 := by
    intro noBlocks
    rw [noBlocks] at found
    cases found
  have search : updateNextFreeIndex true pool.size (pool.place t) =
      .ok { pool.place t with nextFreeIndex := index } := by
    have found := findFree_of_checked found
    unfold updateNextFreeIndex
    rw [show findFree true (pool.place t) (pool.place t).nextFreeIndex pool.size
      (pool.place t).nextFreeIndex = .ok index from found]
    rfl
  unfold allocate
  simp only [blocks, if_false, reduceCtorEq, false_and, search]
  exact ⟨rfl, rfl⟩

theorem deallocate_of_checked (freed : pool.deallocate elem = .ok pool') :
    deallocate true pool elem = .ok pool' ∧ pool'.size = pool.size := by
  obtain ⟨-, -, rfl⟩ := MemPool.deallocate_eq_ok freed
  unfold deallocate
  simp only [reduceCtorEq, false_and, if_false]
  exact ⟨trivial, trivial⟩

/-- More rounds do an allocation that returns no harm. -/
theorem allocate_mono {more : Nat} (le : rounds ≤ more)
    (allocated : allocate true rounds pool t = .ok (ret, pool')) :
    allocate true more pool t = .ok (ret, pool') := by
  unfold allocate updateNextFreeIndex at allocated ⊢
  simp only [reduceCtorEq, false_and, if_false] at allocated ⊢
  split at allocated
  · cases allocated
  · rename_i blocks
    rw [if_neg blocks]
    obtain ⟨next, searched, finished⟩ := bind_eq_ok.mp allocated
    obtain ⟨index, found, placed⟩ := bind_eq_ok.mp searched
    rw [findFree_mono le found]
    cases placed
    exact finished

/-- The allocation of the last free block never returns. -/
theorem allocate_last {live : List Ptr} (holds : pool.Holds live)
    (full : pool.size ≤ live.length + 1) (t : α) (rounds : Nat) :
    allocate true rounds pool t = .error .diverges := by
  have search : findFree true (pool.place t) (pool.place t).nextFreeIndex rounds
      (pool.place t).nextFreeIndex = .error .diverges :=
    findFree_full (holds.place_full full t) holds.nextBound
  have blocks : pool.size ≠ 0 := Nat.ne_of_gt (Nat.zero_lt_of_lt holds.nextBound)
  unfold allocate updateNextFreeIndex
  simp only [blocks, if_false, reduceCtorEq, false_and, search]
  rfl

end OptMemPool

/-! ## Histories -/

section Runs

open PoolUse

variable {α : Type} {calls : List (PoolCall α)} {size rounds : Nat} {t : α} {u : PoolUse α}
  {out : List Ptr}

/-- As long as the checked pool raises no ASSERT the release pool returns the same blocks. -/
theorem run_release (ran : run (step MemPool.api) (.new size t) calls = .ok (u, out)) :
    run (step (OptMemPool.release size)) (.new size t) calls = .ok (u, out) := by
  refine run_of_run (P := fun u => u.pool.size = size) ?_ rfl ran
  intro u call u' now same stepped
  subst same
  cases call with
  | allocate t =>
      obtain ⟨ret, pool, allocated, rfl, rfl⟩ := step_allocate_eq_ok.mp stepped
      obtain ⟨released, kept⟩ := OptMemPool.allocate_of_checked allocated
      exact ⟨kept, step_allocate_eq_ok.mpr ⟨ret, pool, released, rfl, rfl⟩⟩
  | deallocate i =>
      obtain ⟨elem, pool, live, freed, rfl, rfl⟩ := step_deallocate_eq_ok.mp stepped
      obtain ⟨released, kept⟩ := OptMemPool.deallocate_of_checked freed
      exact ⟨kept, step_deallocate_eq_ok.mpr ⟨elem, pool, live, released, rfl, rfl⟩⟩

/-- With more rounds a run that returns returns the same. -/
theorem run_release_mono {more : Nat} (le : rounds ≤ more)
    (ran : run (step (OptMemPool.release rounds)) (.new size t) calls = .ok (u, out)) :
    run (step (OptMemPool.release more)) (.new size t) calls = .ok (u, out) := by
  refine run_of_run (P := fun _ => True) ?_ trivial ran
  intro u call u' now _ stepped
  refine ⟨trivial, ?_⟩
  cases call with
  | allocate t =>
      obtain ⟨ret, pool, allocated, rfl, rfl⟩ := step_allocate_eq_ok.mp stepped
      have allocated := OptMemPool.allocate_mono le allocated
      exact step_allocate_eq_ok.mpr ⟨ret, pool, allocated, rfl, rfl⟩
  | deallocate i => exact stepped

/-- The release pool in the place of the checked one: each of its allocations returns, and as long
as the checked pool raises no ASSERT the two return the same blocks. -/
structure DropIn (size : Nat) (t : α) (calls : List (PoolCall α)) : Prop where
  returns : ∃ rounds u out,
    run (step (OptMemPool.release rounds)) (.new size t) calls = .ok (u, out)
  agrees : ∀ before u out, before <+: calls →
    run (step MemPool.api) (.new size t) before = .ok (u, out) →
      ∃ rounds u', run (step (OptMemPool.release rounds)) (.new size t) before = .ok (u', out)

/-- Without any blocks nothing can be live. -/
theorem eq_nil_of_fewerLive (few : FewerLive 0 calls) : calls = [] := by
  cases calls with
  | nil => rfl
  | cons call calls => exact absurd few.1 (Nat.not_lt_zero _)

/-- No number of rounds is enough where an allocation takes the last free block. -/
theorem not_returns_full (legal : LiveOnly calls) (many : ¬ FewerLive size calls) (rounds : Nat) :
    ¬ ∃ u out, run (step (OptMemPool.release rounds)) (.new size t) calls = .ok (u, out) := by
  intro ⟨u, out, ran⟩
  obtain ⟨before, last, rest, rfl, legalBefore, few, full⟩ := exists_last_block legal many
  have ran := run_release_mono (Nat.le_max_left rounds size) ran
  obtain ⟨v, now, later, first, tail, -⟩ := run_append.mp ran
  obtain ⟨w, here, -, stepped, -, -⟩ := run_cons.mp tail
  obtain ⟨ret, pool, allocated, -⟩ := step_allocate_eq_ok.mp stepped
  rcases Nat.eq_zero_or_pos size with rfl | pos
  · cases eq_nil_of_fewerLive few
    cases first
    cases allocated
  · obtain ⟨v', now', checked, serves, length⟩ := run_fewerLive pos t legalBefore few
    have released := run_release_mono (Nat.le_max_right rounds size) (run_release checked)
    cases first.symm.trans released
    rw [← length, ← serves.size] at full
    have endless := OptMemPool.allocate_last serves.holds full last (max rounds size)
    cases endless.symm.trans allocated

/-- **The release pool is a drop-in** for the checked one exactly while fewer objects are live than
it has blocks: it returns what the other returns, but where that one reports that it is out of
space, the release pool never returns. -/
theorem dropIn_iff (size : Nat) (t : α) (legal : LiveOnly calls) :
    DropIn size t calls ↔ FewerLive size calls := by
  constructor
  · intro dropIn
    by_contra many
    obtain ⟨rounds, ran⟩ := dropIn.returns
    exact not_returns_full legal many rounds ran
  · intro few
    refine ⟨?_, ?_⟩
    · rcases Nat.eq_zero_or_pos size with rfl | pos
      · cases eq_nil_of_fewerLive few
        exact ⟨0, .new 0 t, [], rfl⟩
      · obtain ⟨u, out, ran, -⟩ := run_fewerLive pos t legal few
        exact ⟨size, u, out, run_release ran⟩
    · intro before u out _ ran
      exact ⟨size, u, run_release ran⟩

/-- Two of three blocks. -/
theorem dropIn_iff_three :
    DropIn 3 () [.allocate (), .allocate (), .deallocate 0, .allocate ()] ↔
      FewerLive 3 [PoolCall.allocate (), .allocate (), .deallocate 0, .allocate ()] :=
  dropIn_iff 3 () (by decide)

/-- The second allocation from a pool of two blocks never returns. -/
theorem not_dropIn_two : ¬ DropIn 2 () [.allocate (), .allocate ()] := by
  intro dropIn
  obtain ⟨rounds, ran⟩ := dropIn.returns
  exact not_returns_full (by decide) (by decide) rounds ran

end Runs

end NanoTrade
