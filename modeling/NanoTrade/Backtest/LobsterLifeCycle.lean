import NanoTrade.Backtest.LobsterReplay
import NanoTrade.Trading.LiveOrders

/-!
# The life cycles in the LOBSTER replay

The replay maps an id of the file to a slot from its first type-1 row to its type-3 row, and a slot
is live in the stream for as long. So whatever the tape, every MODIFY and every CANCEL is of a live
slot. An ADD is of a fresh one unless the id has a slot already: the row is then emitted with it.

* `lifeCycles_iff`: the stream is well-formed exactly for the tapes without such a row.
* `not_lifeCycles_resubmitted`: the smallest tape with one.
-/

namespace NanoTrade

/-- `run` with its `seq_num`. -/
structure NumberedReplay where
  replay : LobsterReplay
  seqNum : Nat

namespace NumberedReplay

def new : NumberedReplay :=
  { replay := .new, seqNum := 1 }

/-- One turn of the loop of `run`; a row is pushed at most once. -/
def step (tickerId : TickerId) (s : NumberedReplay) (row : LobsterRow) :
    NumberedReplay × List MDPMarketUpdate :=
  let (replay, us) := LobsterReplay.step tickerId s.replay row
  ({ replay, seqNum := s.seqNum + us.length }, us.map fun me => ⟨s.seqNum, me⟩)

end NumberedReplay

namespace LobsterReplay

/-- The stream of a tape, as it is pushed. -/
def published (tickerId : TickerId) (rows : List LobsterRow) : List MDPMarketUpdate :=
  (runTotal (NumberedReplay.step tickerId) .new rows).2

/-- An update behind the others of its stream: an ADD is of a slot that is not live, a MODIFY or a
CANCEL of one that is. -/
structure Follows (before : List MEMarketUpdate) (u : MEMarketUpdate) : Prop where
  slot : u.orderId < ME_MAX_ORDER_IDS
  add : u.type = .ADD → occupied before u.orderId = false
  change : u.type = .MODIFY ∨ u.type = .CANCEL → occupied before u.orderId = true

/-- The stream is a well-formed sequence of life cycles, numbered from 1 on; and a client's
book that takes it neither overwrites an entry of its id table nor misses one. -/
structure LifeCycles (out : List MDPMarketUpdate) : Prop where
  numbers : out.map MDPMarketUpdate.seqNum = List.range' 1 out.length
  follows : ∀ front m back, out = front ++ m :: back →
    Follows (front.map MDPMarketUpdate.meMarketUpdate) m.meMarketUpdate
  table : ∀ front m back, out = front ++ m :: back → ∀ basePrice s notices,
    run MarketOrderBook.onMarketUpdate (MarketOrderBook.new basePrice)
        (front.map MDPMarketUpdate.meMarketUpdate) = .ok (s, notices) →
      (m.meMarketUpdate.type = .ADD → s.oidToOrder m.meMarketUpdate.orderId = none) ∧
        (m.meMarketUpdate.type = .MODIFY ∨ m.meMarketUpdate.type = .CANCEL →
          s.oidToOrder m.meMarketUpdate.orderId ≠ none)

/-- The row submits no order whose id has a slot. -/
def Submits (s : LobsterReplay) (row : LobsterRow) : Prop :=
  row.type = 1 → s.stopped = true ∨ s.lobsterIdToSlot row.orderId = none

instance (s : LobsterReplay) (row : LobsterRow) : Decidable (Submits s row) :=
  inferInstanceAs (Decidable (_ → _))

/-- The mapped slots are those that are live behind the updates, and one for each id. -/
structure MapsLive (s : LobsterReplay) (us : List MEMarketUpdate) : Prop where
  live : ∀ slot, occupied us slot = true ↔ ∃ id, s.lobsterIdToSlot id = some slot
  injective : ∀ id id' slot, s.lobsterIdToSlot id = some slot →
    s.lobsterIdToSlot id' = some slot → id = id'
  below : ∀ id slot, s.lobsterIdToSlot id = some slot → slot < s.nextSlot
  room : s.nextSlot ≤ ME_MAX_ORDER_IDS

variable {tickerId : TickerId} {s : LobsterReplay} {us : List MEMarketUpdate} {row : LobsterRow}
  {u : MEMarketUpdate}

/-! ## Types -/

theorem mapType_eq_add {lobsterType : Int} : mapType lobsterType = .ADD ↔ lobsterType = 1 := by
  constructor
  · intro isAdd
    unfold mapType at isAdd
    split at isAdd
    · assumption
    · split at isAdd
      · cases isAdd
      · split at isAdd
        · cases isAdd
        · split at isAdd
          · cases isAdd
          · split at isAdd
            · cases isAdd
            · cases isAdd
  · rintro rfl
    rfl

theorem occupied_concat (us : List MEMarketUpdate) (u : MEMarketUpdate) (slot : OrderId) :
    occupied (us ++ [u]) slot = occupiedBy slot (occupied us slot) u :=
  List.foldl_concat ..

/-! ## One row -/

/-- An update of a live slot that neither cancels nor clears. -/
theorem MapsLive.keep (maps : MapsLive s us) (isLive : occupied us u.orderId = true)
    (cancel : u.type ≠ .CANCEL) (clear : u.type ≠ .CLEAR) : MapsLive s (us ++ [u]) := by
  refine ⟨fun slot => ?_, maps.injective, maps.below, maps.room⟩
  rw [occupied_concat, ← maps.live slot]
  have same : u.orderId = slot → occupied us slot = true := fun named => named ▸ isLive
  rw [occupiedBy_eq_self (fun _ => same) cancel clear]

/-- The CANCEL of a mapped id, whose slot is forgotten. -/
theorem MapsLive.forget (maps : MapsLive s us) {id : Nat}
    (mapped : s.lobsterIdToSlot id = some u.orderId) (isCancel : u.type = .CANCEL) :
    MapsLive { s with lobsterIdToSlot := Function.update s.lobsterIdToSlot id none }
      (us ++ [u]) := by
  refine ⟨fun slot => ?_, fun id₁ id₂ slot first second => ?_, fun id' slot entry => ?_, maps.room⟩
  · rw [occupied_concat]
    simp only [occupiedBy, isCancel, Bool.and_eq_true, bne_iff_ne, maps.live, erase_eq_some]
    constructor
    · rintro ⟨⟨id', entry⟩, ne⟩
      refine ⟨id', ?_, entry⟩
      rintro rfl
      exact ne (Option.some.inj (mapped.symm.trans entry))
    · rintro ⟨id', ne, entry⟩
      refine ⟨⟨id', entry⟩, ?_⟩
      rintro rfl
      exact ne (maps.injective id' id _ entry mapped)
  · exact maps.injective id₁ id₂ slot (erase_eq_some.mp first).2 (erase_eq_some.mp second).2
  · exact maps.below id' slot (erase_eq_some.mp entry).2

/-- The update of a mapped id. -/
theorem MapsLive.emit (maps : MapsLive s us) {slot : OrderId}
    (mapped : s.lobsterIdToSlot row.orderId = some slot) :
    MapsLive (emit tickerId s row slot).1 (us ++ [update tickerId row slot]) := by
  unfold LobsterReplay.emit
  by_cases isCancel : mapType row.type = .CANCEL
  · have forgotten : MapsLive _ (us ++ [update tickerId row slot]) := maps.forget mapped isCancel
    simp only [isCancel, if_true]
    exact ⟨forgotten.live, forgotten.injective, forgotten.below, forgotten.room⟩
  · have isLive : occupied us slot = true := (maps.live slot).mpr ⟨_, mapped⟩
    have kept : MapsLive s (us ++ [update tickerId row slot]) :=
      maps.keep isLive isCancel (mapType_ne_clear row.type)
    simp only [isCancel, if_false]
    exact ⟨kept.live, kept.injective, kept.below, kept.room⟩

/-- The ADD of an id that gets a fresh slot. -/
theorem MapsLive.place (maps : MapsLive s us) {id : Nat} (isAdd : u.type = .ADD)
    (about : u.orderId = s.nextSlot) (unmapped : s.lobsterIdToSlot id = none)
    (room : s.nextSlot < ME_MAX_ORDER_IDS) :
    occupied us s.nextSlot = false ∧
      MapsLive
        { s with
          nextSlot := s.nextSlot + 1
          lobsterIdToSlot := Function.update s.lobsterIdToSlot id (some s.nextSlot) }
        (us ++ [u]) := by
  have fresh : ∀ id', s.lobsterIdToSlot id' ≠ some s.nextSlot :=
    fun id' entry => Nat.lt_irrefl _ (maps.below id' _ entry)
  refine ⟨?_, fun slot => ?_, fun id₁ id₂ slot first second => ?_, fun id' slot entry => ?_, room⟩
  · rw [← Bool.not_eq_true, maps.live, not_exists]
    exact fresh
  · rw [occupied_concat]
    simp only [occupiedBy, isAdd, about, Bool.or_eq_true, beq_iff_eq, maps.live, enter_eq_some]
    constructor
    · rintro (⟨id', entry⟩ | same)
      · refine ⟨id', .inr ⟨?_, entry⟩⟩
        rintro rfl
        rw [unmapped] at entry
        cases entry
      · exact ⟨id, .inl ⟨rfl, same⟩⟩
    · rintro ⟨id', ⟨-, same⟩ | ⟨-, entry⟩⟩
      · exact .inr same
      · exact .inl ⟨id', entry⟩
  · rcases enter_eq_some.mp first with ⟨rfl, rfl⟩ | ⟨-, one⟩
    · rcases enter_eq_some.mp second with ⟨rfl, -⟩ | ⟨-, two⟩
      · rfl
      · exact absurd two (fresh id₂)
    · rcases enter_eq_some.mp second with ⟨rfl, rfl⟩ | ⟨-, two⟩
      · exact absurd one (fresh id₁)
      · exact maps.injective id₁ id₂ slot one two
  · rcases enter_eq_some.mp entry with ⟨-, rfl⟩ | ⟨-, entry⟩
    · exact Nat.lt_succ_self _
    · exact Nat.lt_succ_of_lt (maps.below id' slot entry)

/-- One row keeps the mapped slots the live ones. -/
theorem MapsLive.step (maps : MapsLive s us) (tickerId : TickerId) (row : LobsterRow) :
    MapsLive (LobsterReplay.step tickerId s row).1
      (us ++ (LobsterReplay.step tickerId s row).2) := by
  have quiet : ∀ {t : LobsterReplay}, t.lobsterIdToSlot = s.lobsterIdToSlot →
      t.nextSlot = s.nextSlot → MapsLive t (us ++ []) := by
    intro t mapping next
    rw [List.append_nil]
    refine ⟨fun slot => ?_, fun id id' slot => ?_, fun id slot => ?_, ?_⟩
    · rw [mapping]
      exact maps.live slot
    · rw [mapping]
      exact maps.injective id id' slot
    · rw [mapping, next]
      exact maps.below id slot
    · rw [next]
      exact maps.room
  unfold LobsterReplay.step
  split
  · exact quiet rfl rfl
  · split
    · exact quiet rfl rfl
    · split
      · rename_i slot mapped
        exact maps.emit mapped
      · rename_i unmapped
        split
        · exact quiet rfl rfl
        · rename_i isAdd
          split
          · exact quiet rfl rfl
          · rename_i full
            obtain ⟨-, placed⟩ := maps.place (u := update tickerId row s.nextSlot)
              (not_not.mp isAdd) rfl unmapped (Nat.lt_of_not_le full)
            have notCancel : ¬ mapType row.type = .CANCEL := by
              rw [not_not.mp isAdd]
              intro impossible
              cases impossible
            unfold LobsterReplay.emit
            rw [if_neg notCancel]
            exact ⟨placed.live, placed.injective, placed.below, placed.room⟩

/-- Whatever the row: what it emits has a slot below the bound, and a change is of a live one. -/
theorem MapsLive.changes (maps : MapsLive s us) (mem : u ∈ (LobsterReplay.step tickerId s row).2) :
    u.orderId < ME_MAX_ORDER_IDS ∧
      (u.type = .MODIFY ∨ u.type = .CANCEL → occupied us u.orderId = true) := by
  obtain ⟨-, slot, rfl, ⟨mapped⟩ | ⟨-, isAdd, rfl, room⟩⟩ := mem_step mem
  · exact ⟨(maps.below _ _ mapped).trans_le maps.room, fun _ => (maps.live slot).mpr ⟨_, mapped⟩⟩
  · refine ⟨room, fun change => ?_⟩
    have type : (update tickerId row s.nextSlot).type = .ADD := isAdd
    rw [type] at change
    rcases change with impossible | impossible
    · cases impossible
    · cases impossible

/-- What a row emits follows what is before it exactly where the row submits no order whose id
has a slot. -/
theorem MapsLive.follows_iff (maps : MapsLive s us) (tickerId : TickerId) (row : LobsterRow) :
    (∀ u ∈ (LobsterReplay.step tickerId s row).2, Follows us u) ↔ Submits s row := by
  constructor
  · intro follows isSubmit
    by_contra known
    rw [not_or] at known
    obtain ⟨slot, mapped⟩ := Option.ne_none_iff_exists'.mp known.2
    have isAdd := mapType_eq_add.mpr isSubmit
    have emitted : LobsterReplay.step tickerId s row = LobsterReplay.emit tickerId s row slot :=
      step_mapped (Bool.eq_false_iff.mpr known.1) (by rw [isAdd]; decide) mapped
    have free : occupied us slot = false := (follows (update tickerId row slot) (by
      rw [emitted]
      exact List.mem_singleton_self _)).add isAdd
    rw [(maps.live slot).mpr ⟨_, mapped⟩] at free
    cases free
  · intro submits u mem
    obtain ⟨slot, change⟩ := maps.changes mem
    refine ⟨slot, fun isAdd => ?_, change⟩
    obtain ⟨running, slot, rfl, ⟨mapped⟩ | ⟨unmapped, isAdd', rfl, room⟩⟩ := mem_step mem
    · rcases submits (mapType_eq_add.mp isAdd) with stopped | unmapped
      · rw [stopped] at running
        cases running
      · rw [unmapped] at mapped
        cases mapped
    · exact (maps.place (u := update tickerId row s.nextSlot) isAdd' rfl unmapped room).1

/-! ## Tapes -/

/-- A row emits at most one update. -/
theorem step_length (tickerId : TickerId) (s : LobsterReplay) (row : LobsterRow) :
    (step tickerId s row).2.length ≤ 1 := by
  unfold step
  split
  · exact Nat.zero_le 1
  · split
    · exact Nat.zero_le 1
    · split
      · exact Nat.le_refl 1
      · split
        · exact Nat.zero_le 1
        · split
          · exact Nat.zero_le 1
          · exact Nat.le_refl 1

/-- The numbered stream is the stream, with the numbers from 1 on. -/
theorem run_numbered (tickerId : TickerId) (rows : List LobsterRow) :
    (runTotal (NumberedReplay.step tickerId) .new rows).1 =
        { replay := (runTotal (step tickerId) .new rows).1
          seqNum := 1 + (published tickerId rows).length } ∧
      (published tickerId rows).map MDPMarketUpdate.meMarketUpdate = updates tickerId rows ∧
      (published tickerId rows).map MDPMarketUpdate.seqNum =
        List.range' 1 (published tickerId rows).length := by
  unfold published updates
  induction rows using List.reverseRecOn with
  | nil => exact ⟨rfl, rfl, rfl⟩
  | append_singleton rows row ih =>
      obtain ⟨state, stream, numbers⟩ := ih
      rw [runTotal_concat, runTotal_concat]
      generalize runTotal (NumberedReplay.step tickerId) .new rows = numbered at *
      generalize runTotal (step tickerId) .new rows = plain at *
      have few := step_length tickerId plain.1 row
      rw [state, NumberedReplay.step]
      simp only
      generalize step tickerId plain.1 row = next at few
      obtain ⟨replay, us⟩ := next
      simp only at few ⊢
      refine ⟨?_, ?_, ?_⟩
      · rw [List.length_append, List.length_map, Nat.add_assoc]
      · rw [List.map_append, stream, List.map_map]
        exact congrArg (plain.2 ++ ·) (List.map_id us)
      · rw [List.map_append, numbers, List.length_append, List.length_map, List.map_map,
          ← List.range'_append_1]
        refine congrArg (_ ++ ·) ?_
        cases us with
        | nil => rfl
        | cons u rest =>
            cases rest with
            | nil => rfl
            | cons v rest =>
                simp only [List.length_cons] at few
                omega

/-- A tape: the mapped slots are the live ones; the slots of its updates are below the bound and
its changes are of live ones; and all of them follow those before exactly where no row submits an
order whose id has a slot. -/
theorem run_follows_iff (tickerId : TickerId) (rows : List LobsterRow) :
    MapsLive (runTotal (step tickerId) .new rows).1 (updates tickerId rows) ∧
      Behind (fun front u => u.orderId < ME_MAX_ORDER_IDS ∧
        (u.type = .MODIFY ∨ u.type = .CANCEL → occupied front u.orderId = true)) []
          (updates tickerId rows) ∧
      (Behind Follows [] (updates tickerId rows) ↔ Along Submits (step tickerId) .new rows) := by
  unfold updates
  induction rows using List.reverseRecOn with
  | nil =>
      refine ⟨⟨fun slot => ?_, fun id id' slot a => ?_, fun id slot a => ?_, Nat.zero_le _⟩,
        trivial, fun _ => trivial, fun _ => trivial⟩
      · constructor
        · intro live
          cases live
        · rintro ⟨id, entry⟩
          cases entry
      · cases a
      · cases a
  | append_singleton rows row ih =>
      obtain ⟨maps, changes, follows⟩ := ih
      have few := step_length tickerId (runTotal (step tickerId) .new rows).1 row
      rw [runTotal_concat, along_append, Along, Along, and_true, behind_append, behind_append,
        List.nil_append, behind_of_length_le_one few, behind_of_length_le_one few, follows,
        maps.follows_iff]
      exact ⟨maps.step tickerId row, ⟨changes, fun u mem => maps.changes mem⟩, Iff.rfl⟩

/-- **The replay emits well-formed life cycles** exactly for the tapes in which no row submits an
order of an id that still has its slot. -/
theorem lifeCycles_iff (tickerId : TickerId) (rows : List LobsterRow) :
    LifeCycles (published tickerId rows) ↔ Along Submits (step tickerId) .new rows := by
  obtain ⟨-, stream, numbers⟩ := run_numbered tickerId rows
  rw [← (run_follows_iff tickerId rows).2.2, ← stream, behind_iff]
  constructor
  · intro cycles front u back parts
    obtain ⟨front', rest, shape, rfl, tail⟩ := List.map_eq_append_iff.mp parts
    obtain ⟨m, back', rfl, rfl, -⟩ := List.map_eq_cons_iff.mp tail
    exact cycles.follows front' m back' shape
  · intro follows
    have each : ∀ front m back, published tickerId rows = front ++ m :: back →
        Follows (front.map MDPMarketUpdate.meMarketUpdate) m.meMarketUpdate := by
      intro front m back parts
      refine follows _ _ (back.map MDPMarketUpdate.meMarketUpdate) ?_
      rw [parts, List.map_append, List.map_cons]
    refine ⟨numbers, each, fun front m back parts basePrice s notices ran => ?_⟩
    have tracks := MarketOrderBook.run_tracks ran
    have here := each front m back parts
    refine ⟨fun isAdd => ?_, fun change => (tracks.live _).mpr (here.change change)⟩
    have free := here.add isAdd
    rw [← Bool.not_eq_true, ← tracks.live, not_not] at free
    exact free

/-- A tape that submits the order of id 7 twice: the second ADD is of a slot that is live. -/
theorem not_lifeCycles_resubmitted :
    ¬ LifeCycles (published 0
      [⟨1, 7, 10, 100, 1⟩,
       ⟨1, 7, 5, 101, 1⟩]) := by
  intro cycles
  have again := (cycles.follows [⟨1, ⟨.ADD, 0, 0, .BUY, 100, 10, 0⟩⟩]
    ⟨2, ⟨.ADD, 0, 0, .BUY, 101, 5, 0⟩⟩ [] (by decide +kernel)).add rfl
  cases again

end LobsterReplay

end NanoTrade
