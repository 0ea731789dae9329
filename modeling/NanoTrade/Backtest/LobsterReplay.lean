import NanoTrade.Trading.Separation

/-!
# The LOBSTER replay

`backtest/lobster_replay.cpp`: the rows of a message file become market updates. Order ids
of the file are mapped to dense slots, in the order of their first rows; the mapping is
forgotten with the row that cancels the order.

`Tape` is the order book that a message file describes. `run_reconstructs_iff`: a client's
book behind the replay is that book after every row, exactly along the tapes in which every
partial cancel takes half of what is left and no visible order is executed.
-/

namespace NanoTrade

/-- A row of the message file, behind its time. -/
structure LobsterRow where
  type : Int
  orderId : Nat
  size : Qty
  price : Price
  direction : Int
  deriving DecidableEq, Repr

structure LobsterReplay where
  lobsterIdToSlot : Nat → Option OrderId
  nextSlot : OrderId
  rowsEmitted : Nat
  rowsSkipped : Nat
  /-- The loop over the rows was left. -/
  stopped : Bool

namespace LobsterReplay

def new : LobsterReplay :=
  { lobsterIdToSlot := fun _ => none, nextSlot := 0, rowsEmitted := 0, rowsSkipped := 0
    stopped := false }

/-- `INVALID` means that the row is skipped. -/
def mapType (lobsterType : Int) : MarketUpdateType :=
  if lobsterType = 1 then .ADD
  else if lobsterType = 2 then .MODIFY
  else if lobsterType = 3 then .CANCEL
  else if lobsterType = 4 then .TRADE
  else if lobsterType = 5 then .TRADE
  else .INVALID

def skip (s : LobsterReplay) : LobsterReplay × List MEMarketUpdate :=
  ({ s with rowsSkipped := s.rowsSkipped + 1 }, [])

/-- The update of a row. Priorities rise with the slots. -/
def update (tickerId : TickerId) (row : LobsterRow) (slot : OrderId) : MEMarketUpdate :=
  { type := mapType row.type, orderId := slot, tickerId
    side := if row.direction = 1 then .BUY else .SELL
    price := row.price, qty := row.size, priority := slot }

/-- The part behind the search for the slot. A CANCEL forgets the mapping. -/
def emit (tickerId : TickerId) (s : LobsterReplay) (row : LobsterRow) (slot : OrderId) :
    LobsterReplay × List MEMarketUpdate :=
  ({ s with
      rowsEmitted := s.rowsEmitted + 1
      lobsterIdToSlot :=
        if mapType row.type = .CANCEL then Function.update s.lobsterIdToSlot row.orderId none
        else s.lobsterIdToSlot },
    [update tickerId row slot])

/-- One turn of the loop of `run`. -/
def step (tickerId : TickerId) (s : LobsterReplay) (row : LobsterRow) :
    LobsterReplay × List MEMarketUpdate :=
  if s.stopped then (s, [])
  else if mapType row.type = .INVALID then s.skip
  else
    match s.lobsterIdToSlot row.orderId with
    | some slot => emit tickerId s row slot
    | none =>
      if mapType row.type ≠ .ADD then s.skip
      else if s.nextSlot ≥ ME_MAX_ORDER_IDS then ({ s with stopped := true }, [])
      else
        emit tickerId
          { s with
            nextSlot := s.nextSlot + 1
            lobsterIdToSlot :=
              Function.update s.lobsterIdToSlot row.orderId (some s.nextSlot) }
          row s.nextSlot

section Steps

variable {tickerId : TickerId} {s : LobsterReplay} {row : LobsterRow} {slot : OrderId}

/-- A row whose id has a slot is emitted. -/
theorem step_mapped (running : s.stopped = false) (known : mapType row.type ≠ .INVALID)
    (mapped : s.lobsterIdToSlot row.orderId = some slot) :
    step tickerId s row = emit tickerId s row slot := by
  simp only [step, running, known, mapped, if_false, Bool.false_eq_true]

/-- A row of another type whose id has no slot is skipped. -/
theorem step_unmapped (running : s.stopped = false) (notAdd : mapType row.type ≠ .ADD)
    (unmapped : s.lobsterIdToSlot row.orderId = none) : step tickerId s row = s.skip := by
  simp only [step, running, notAdd, unmapped, if_false, Bool.false_eq_true, ne_eq,
    not_false_eq_true, if_true, ite_self]

/-- What a row emits: the update of its slot, which it had or which an ADD takes. -/
theorem mem_step {u : MEMarketUpdate} (mem : u ∈ (step tickerId s row).2) :
    s.stopped = false ∧ ∃ slot, u = update tickerId row slot ∧
      (s.lobsterIdToSlot row.orderId = some slot ∨
        s.lobsterIdToSlot row.orderId = none ∧ mapType row.type = .ADD ∧ slot = s.nextSlot ∧
          s.nextSlot < ME_MAX_ORDER_IDS) := by
  unfold step at mem
  split at mem
  · cases mem
  · rename_i running
    refine ⟨Bool.eq_false_iff.mpr running, ?_⟩
    split at mem
    · cases mem
    · split at mem
      · rename_i slot mapped
        exact ⟨slot, List.mem_singleton.mp mem, .inl mapped⟩
      · rename_i unmapped
        split at mem
        · cases mem
        · rename_i isAdd
          split at mem
          · cases mem
          · rename_i room
            exact ⟨s.nextSlot, List.mem_singleton.mp mem,
              .inr ⟨unmapped, not_not.mp isAdd, rfl, Nat.lt_of_not_le room⟩⟩

theorem execution_of_trade {lobsterType : Int} (trade : mapType lobsterType = .TRADE) :
    lobsterType = 4 ∨ lobsterType = 5 := by
  unfold mapType at trade
  split at trade
  · cases trade
  · split at trade
    · cases trade
    · split at trade
      · cases trade
      · split at trade
        · rename_i isFour
          exact .inl isFour
        · split at trade
          · rename_i isFive
            exact .inr isFive
          · cases trade

theorem mapType_ne_clear (lobsterType : Int) : mapType lobsterType ≠ .CLEAR := by
  unfold mapType
  repeat' split
  all_goals simp

theorem update_side (tickerId : TickerId) (row : LobsterRow) (slot : OrderId) :
    (update tickerId row slot).side =
      (if row.direction = 1 then BookSide.bid else BookSide.ask).toSide := by
  unfold update
  split
  · rfl
  · rfl

end Steps

/-- The updates that the replay writes to its queues. -/
def updates (tickerId : TickerId) (rows : List LobsterRow) : List MEMarketUpdate :=
  (runTotal (step tickerId) new rows).2

end LobsterReplay

/-! ## What a message file describes -/

/-- The orders of a message file. They are keyed by their arrival: the first order of the
file is 0. -/
structure Tape where
  /-- The ids of the file, in the order of their type-1 rows. -/
  ids : List Nat
  quotes : Quotes

namespace Tape

def new : Tape :=
  { ids := [], quotes := fun _ => [] }

def arrival (t : Tape) (id : Nat) : OrderId :=
  t.ids.idxOf id

/-- `direction`: 1 is a buy, -1 a sell. -/
def side (row : LobsterRow) : BookSide :=
  if row.direction = 1 then .bid else .ask

/-- A new order goes behind all that are at its price or better. -/
def submit (t : Tape) (row : LobsterRow) : Tape :=
  { ids := t.ids ++ [row.orderId]
    quotes := Function.update t.quotes (side row)
      ((t.quotes (side row)).orderedInsert (Resting.Ahead (side row))
        ⟨t.ids.length, row.price, row.size, t.ids.length⟩) }

/-- A part of an order is cancelled or executed; an order of which nothing is left is no
longer live. -/
def reduce (t : Tape) (row : LobsterRow) : Tape :=
  { t with
    quotes := fun side =>
      ((t.quotes side).map fun q =>
        if q.key = t.arrival row.orderId then { q with qty := q.qty - row.size } else q).filter
        fun q => 0 < q.qty }

def delete (t : Tape) (row : LobsterRow) : Tape :=
  { t with quotes := fun side => (t.quotes side).filter fun q => q.key ≠ t.arrival row.orderId }

/-- One row. Executions of hidden orders and halts leave the book alone. -/
def step (t : Tape) (row : LobsterRow) : Tape × List Unit :=
  (if row.type = 1 then t.submit row
    else if row.type = 2 ∨ row.type = 4 then t.reduce row
    else if row.type = 3 then t.delete row
    else t, [])

/-- The levels of a side, each with its orders in arrival order. -/
def sideQueues (t : Tape) (side : BookSide) :
    List (Price × List (OrderId × Side × Price × Qty × Priority)) :=
  groups ((t.quotes side).map fun o => (o.price, o.content side))

/-- The row names a live order. -/
def Names (t : Tape) (row : LobsterRow) (q : Quote) : Prop :=
  q ∈ both t.quotes ∧ q.key = t.arrival row.orderId ∧ row.orderId ∈ t.ids

/-- A row of a well-formed tape. -/
structure WellFormed (t : Tape) (row : LobsterRow) : Prop where
  direction : row.direction = 1 ∨ row.direction = -1
  submits : row.type = 1 →
    row.orderId ∉ t.ids ∧ 0 < row.size ∧ t.ids.length + 1 < ME_MAX_ORDER_IDS
  reduces : row.type = 2 ∨ row.type = 4 →
    row.orderId ∈ t.ids ∧ (0 < row.size → ∃ q, t.Names row q ∧ row.size ≤ q.qty)
  deletes : row.type = 3 → ∃ q, t.Names row q

/-- A row that the replay and the book read as the tape means it. -/
structure Kept (basePrice : Price) (t : Tape) (row : LobsterRow) : Prop where
  inside : row.type = 1 → InWindow basePrice row.price
  apart : row.type = 1 → ∀ q ∈ t.quotes (side row).opposite, q.price ≠ row.price
  halves : row.type = 2 → ∀ q, t.Names row q → 2 * row.size = q.qty
  unexecuted : row.type = 4 → ∀ q, t.Names row q → row.size = 0

variable {t : Tape} {row : LobsterRow} {P : Quote → Prop} [DecidablePred P]

instance : Decidable (∃ q, t.Names row q ∧ P q) :=
  decidable_of_iff
    (∃ q ∈ both t.quotes, (q.key = t.arrival row.orderId ∧ row.orderId ∈ t.ids) ∧ P q)
    ⟨fun ⟨q, mem, names, holds⟩ => ⟨q, ⟨mem, names⟩, holds⟩,
      fun ⟨q, ⟨mem, names⟩, holds⟩ => ⟨q, mem, names, holds⟩⟩

instance : Decidable (∀ q, t.Names row q → P q) :=
  decidable_of_iff (∀ q ∈ both t.quotes, q.key = t.arrival row.orderId ∧ row.orderId ∈ t.ids → P q)
    ⟨fun all q named => all q named.1 named.2, fun all q mem named => all q ⟨mem, named⟩⟩

instance : Decidable (t.WellFormed row) :=
  decidable_of_iff ((row.direction = 1 ∨ row.direction = -1) ∧
      (row.type = 1 → row.orderId ∉ t.ids ∧ 0 < row.size ∧ t.ids.length + 1 < ME_MAX_ORDER_IDS) ∧
      (row.type = 2 ∨ row.type = 4 →
        row.orderId ∈ t.ids ∧ (0 < row.size → ∃ q, t.Names row q ∧ row.size ≤ q.qty)) ∧
      (row.type = 3 → ∃ q, t.Names row q ∧ True))
    ⟨fun ⟨direction, submits, reduces, deletes⟩ =>
        ⟨direction, submits, reduces, fun isDelete =>
          (deletes isDelete).imp fun _ named => named.1⟩,
      fun ⟨direction, submits, reduces, deletes⟩ =>
        ⟨direction, submits, reduces, fun isDelete =>
          (deletes isDelete).imp fun _ named => ⟨named, trivial⟩⟩⟩

end Tape

/-! ## The replay and the book beside the tape -/

/-- The replay maps the ids of the live orders to their arrival, and the book behind it holds
the orders of the tape. -/
structure Replays (basePrice : Price) (replay : LobsterReplay) (t : Tape) (s : MarketOrderBook)
    (m : Market) : Prop where
  running : replay.stopped = false
  next : replay.nextSlot = t.ids.length
  slots : ∀ id slot, replay.lobsterIdToSlot id = some slot ↔
    id ∈ t.ids ∧ slot = t.arrival id ∧ ∃ q ∈ both t.quotes, q.key = slot
  below : ∀ q ∈ both t.quotes, q.key < t.ids.length
  few : (both t.quotes).length ≤ t.ids.length
  positive : ∀ q ∈ both t.quotes, 0 < q.qty
  follows : Follows basePrice s m
  quotes : m.quotes = t.quotes
  stale : m.stale = []

namespace Replays

variable {basePrice : Price} {tickerId : TickerId} {replay : LobsterReplay} {t : Tape}
  {s s' : MarketOrderBook} {m : Market} {row : LobsterRow} {q : Quote} {out : List BookNotice}

theorem new (basePrice : Price) :
    Replays basePrice LobsterReplay.new Tape.new (MarketOrderBook.new basePrice) Market.new := by
  refine ⟨rfl, rfl, ?_, ?_, Nat.le_refl 0, ?_, Follows.new basePrice, rfl, rfl⟩
  · intro id slot
    constructor
    · intro mapped
      cases mapped
    · rintro ⟨mem, -⟩
      cases mem
  · intro q mem
    cases mem
  · intro q mem
    cases mem

/-- An order at the arrival of a row is the one that the row names. -/
theorem names (replays : Replays basePrice replay t s m) (mem : q ∈ both t.quotes)
    (key : q.key = t.arrival row.orderId) : t.Names row q := by
  refine ⟨mem, key, ?_⟩
  have arrived := replays.below q mem
  rw [key] at arrived
  exact List.idxOf_lt_length_iff.mp arrived

theorem lookup (replays : Replays basePrice replay t s m) (named : t.Names row q) :
    replay.lobsterIdToSlot row.orderId = some (t.arrival row.orderId) :=
  (replays.slots _ _).mpr ⟨named.2.2, rfl, q, named.1, named.2.1⟩

theorem lookup_none (replays : Replays basePrice replay t s m)
    (unnamed : ∀ q, ¬ t.Names row q) : replay.lobsterIdToSlot row.orderId = none := by
  cases mapped : replay.lobsterIdToSlot row.orderId with
  | none => rfl
  | some slot =>
      obtain ⟨known, rfl, q, mem, key⟩ := (replays.slots _ _).mp mapped
      exact absurd ⟨mem, key, known⟩ (unnamed q)

/-- The tape changes no order that is not named. -/
theorem reduce_eq (replays : Replays basePrice replay t s m)
    (keeps : ∀ q, t.Names row q → row.size = 0) : t.reduce row = t := by
  have same : ∀ side, ((t.quotes side).map fun q =>
      if q.key = t.arrival row.orderId then { q with qty := q.qty - row.size } else q).filter
        (fun q => decide (0 < q.qty)) = t.quotes side := by
    intro side
    have mem : ∀ q ∈ t.quotes side, q ∈ both t.quotes := fun q mem => (mem_both _).mpr ⟨side, mem⟩
    have mapped : ((t.quotes side).map fun q =>
        if q.key = t.arrival row.orderId then { q with qty := q.qty - row.size } else q) =
        t.quotes side := by
      refine (List.map_congr_left fun q qMem => ?_).trans (List.map_id _)
      split
      · rename_i key
        rw [keeps q (replays.names (mem q qMem) key), Nat.sub_zero]
        rfl
      · rfl
    rw [mapped]
    exact List.filter_eq_self.mpr fun q qMem => decide_eq_true (replays.positive q (mem q qMem))
  rw [Tape.reduce]
  cases t
  simp only [Tape.mk.injEq, true_and]
  funext side
  exact same side

theorem run_one {u : MEMarketUpdate} (updated : s.onMarketUpdate u = .ok (s', out)) :
    run MarketOrderBook.onMarketUpdate s [u] = .ok (s', out) := by
  rw [run_singleton]
  exact updated

/-- A submission in the window is an ADD that the book has room for. -/
theorem adds (replays : Replays basePrice replay t s m) (tickerId : TickerId)
    (isSubmit : row.type = 1) (wellFormed : t.WellFormed row)
    (inside : InWindow basePrice row.price) :
    m.quotes.Adds basePrice (Tape.side row)
      (LobsterReplay.update tickerId row t.ids.length) := by
  obtain ⟨-, -, room⟩ := wellFormed.submits isSubmit
  rw [replays.quotes]
  refine ⟨LobsterReplay.update_side tickerId row t.ids.length, inside, ?_, ?_, ?_⟩
  · show t.ids.length < ME_MAX_ORDER_IDS
    lia
  · exact fun q mem => Nat.ne_of_lt (replays.below q mem)
  · have few := replays.few
    lia

/-- The step of a row that submits an order: its id gets the next slot. -/
theorem step_submit (replays : Replays basePrice replay t s m) (tickerId : TickerId)
    (isSubmit : row.type = 1) (wellFormed : t.WellFormed row) :
    LobsterReplay.step tickerId replay row =
      LobsterReplay.emit tickerId
        { replay with
          nextSlot := t.ids.length + 1
          lobsterIdToSlot :=
            Function.update replay.lobsterIdToSlot row.orderId (some t.ids.length) }
        row t.ids.length := by
  obtain ⟨fresh, -, room⟩ := wellFormed.submits isSubmit
  have isAdd : LobsterReplay.mapType row.type = .ADD := by
    rw [isSubmit]
    rfl
  have unmapped : replay.lobsterIdToSlot row.orderId = none :=
    replays.lookup_none fun q named => fresh named.2.2
  have free : ¬ t.ids.length ≥ ME_MAX_ORDER_IDS := by
    lia
  simp only [LobsterReplay.step, replays.running, isAdd, unmapped, free, replays.next,
    Bool.false_eq_true, if_false, reduceCtorEq, ne_eq, not_true_eq_false]

/-- A row that submits an order. -/
theorem submit (replays : Replays basePrice replay t s m) (isSubmit : row.type = 1)
    (wellFormed : t.WellFormed row) (inside : InWindow basePrice row.price)
    (apart : ∀ q ∈ t.quotes (Tape.side row).opposite, q.price ≠ row.price) :
    ∃ s' out m', run MarketOrderBook.onMarketUpdate s
        (LobsterReplay.step tickerId replay row).2 = .ok (s', out) ∧
      Replays basePrice (LobsterReplay.step tickerId replay row).1 (t.submit row) s' m' := by
  obtain ⟨fresh, wants, room⟩ := wellFormed.submits isSubmit
  have isAdd : LobsterReplay.mapType row.type = .ADD := by
    rw [isSubmit]
    rfl
  rw [replays.step_submit tickerId isSubmit wellFormed]
  have sided := LobsterReplay.update_side tickerId row t.ids.length
  have adds := replays.adds tickerId isSubmit wellFormed inside
  have wellFormedAdd : m.quotes.WellFormed basePrice
      (LobsterReplay.update tickerId row t.ids.length) := by
    refine ⟨fun _ => ?_, ?_⟩
    · cases shape : Tape.side row with
      | bid => exact .inl (shape ▸ adds)
      | ask => exact .inr (shape ▸ adds)
    · intro others
      rw [show (LobsterReplay.update tickerId row t.ids.length).type = .ADD from isAdd] at others
      rcases others with other | other <;> cases other
  have separate : m.Separate (LobsterReplay.update tickerId row t.ids.length) := by
    intro _
    rw [replays.stale, replays.quotes]
    refine ⟨List.not_mem_nil, fun side' sided' q mem => ?_⟩
    have sides : side' = Tape.side row := BookSide.toSide_inj.mp (sided'.symm.trans sided)
    rw [sides] at mem
    exact apart q mem
  obtain ⟨s', updated, follows⟩ := replays.follows.onMarketUpdate_spec wellFormedAdd separate
  refine ⟨s', _, (m.step (LobsterReplay.update tickerId row t.ids.length)).1, run_one updated, ?_⟩
  have notCancel : LobsterReplay.mapType row.type ≠ .CANCEL := by
    rw [isAdd]
    exact fun same => by cases same
  have grown : (both (t.submit row).quotes).Perm
      (⟨t.ids.length, row.price, row.size, t.ids.length⟩ :: both t.quotes) :=
    perm_both_grown (List.perm_orderedInsert _ _ _)
  have mem' : ∀ q, q ∈ both (t.submit row).quotes ↔
      q = ⟨t.ids.length, row.price, row.size, t.ids.length⟩ ∨ q ∈ both t.quotes :=
    fun q => grown.mem_iff.trans List.mem_cons
  refine ⟨replays.running, ?_, ?_, ?_, ?_, ?_, follows, ?_, ?_⟩
  · rw [Tape.submit, List.length_append]
    rfl
  · intro id slot
    simp only [LobsterReplay.emit, notCancel, if_false]
    rcases eq_or_ne id row.orderId with rfl | ne
    · rw [Function.update_self, Tape.arrival, Tape.submit, List.idxOf_append_of_notMem fresh]
      constructor
      · intro same
        cases same
        refine ⟨List.mem_append_right _ List.mem_cons_self, ?_, _, (mem' _).mpr (.inl rfl), rfl⟩
        simp
      · rintro ⟨-, rfl, -⟩
        simp
    · have notLast : id ∉ [row.orderId] := fun mem => ne (List.mem_singleton.mp mem)
      have known : id ∈ (t.submit row).ids ↔ id ∈ t.ids := by
        rw [Tape.submit, List.mem_append]
        exact or_iff_left notLast
      rw [Function.update_of_ne ne, replays.slots, known]
      refine and_congr_right fun old => ?_
      have arrival : (t.submit row).arrival id = t.arrival id :=
        List.idxOf_append_of_mem old
      have early : t.arrival id < t.ids.length := List.idxOf_lt_length_iff.mpr old
      rw [arrival]
      refine and_congr_right fun isSlot => ?_
      constructor
      · rintro ⟨q, mem, key⟩
        exact ⟨q, (mem' q).mpr (.inr mem), key⟩
      · rintro ⟨q, mem, key⟩
        rcases (mem' q).mp mem with rfl | oldQuote
        · rw [isSlot] at key
          exact absurd key.symm (Nat.ne_of_lt early)
        · exact ⟨q, oldQuote, key⟩
  · intro q mem
    rw [Tape.submit, List.length_append, List.length_singleton]
    rcases (mem' q).mp mem with rfl | old
    · exact Nat.lt_succ_self _
    · exact Nat.lt_succ_of_lt (replays.below q old)
  · rw [grown.length_eq, Tape.submit, List.length_append]
    exact Nat.succ_le_succ replays.few
  · intro q mem
    rcases (mem' q).mp mem with rfl | old
    · exact wants
    · exact replays.positive q old
  · rw [Market.step_quotes, Quotes.apply_add isAdd sided, replays.quotes]
    rfl
  · exact ClearsEmpty.step
      (fun isClear => absurd isClear (LobsterReplay.mapType_ne_clear row.type)) replays.stale

/-- A row that is skipped. -/
theorem skip (replays : Replays basePrice replay t s m) :
    Replays basePrice replay.skip.1 t s m :=
  ⟨replays.running, replays.next, replays.slots, replays.below, replays.few, replays.positive,
    replays.follows, replays.quotes, replays.stale⟩

/-- The update of a row that names a live order, and is no submission. -/
theorem emit (replays : Replays basePrice replay t s m) (tickerId : TickerId)
    (named : t.Names row q)
    (notAdd : LobsterReplay.mapType row.type ≠ .ADD) :
    ∃ s' out, run MarketOrderBook.onMarketUpdate s
        [LobsterReplay.update tickerId row (t.arrival row.orderId)] = .ok (s', out) ∧
      Follows basePrice s'
        (m.step (LobsterReplay.update tickerId row (t.arrival row.orderId))).1 := by
  have wellFormed : m.quotes.WellFormed basePrice
      (LobsterReplay.update tickerId row (t.arrival row.orderId)) := by
    refine ⟨fun isAdd => absurd isAdd notAdd, fun _ => ⟨q, ?_, named.2.1⟩⟩
    rw [replays.quotes]
    exact named.1
  obtain ⟨s', updated, follows⟩ :=
    replays.follows.onMarketUpdate_spec wellFormed fun isAdd => absurd isAdd notAdd
  exact ⟨s', _, run_one updated, follows⟩

/-- Quantities change, orders stay. -/
theorem requantify (replays : Replays basePrice replay t s m) {orders : Quotes} {m' : Market}
    (keys : ∀ side, (orders side).map Resting.key = (t.quotes side).map Resting.key)
    (positive : ∀ q ∈ both orders, 0 < q.qty)
    (notCancel : LobsterReplay.mapType row.type ≠ .CANCEL) (slot : OrderId)
    (follows : Follows basePrice s' m') (quotes : m'.quotes = orders) (stale : m'.stale = []) :
    Replays basePrice (LobsterReplay.emit tickerId replay row slot).1 ⟨t.ids, orders⟩ s' m' := by
  have all : (both orders).map Resting.key = (both t.quotes).map Resting.key := by
    rw [both, both, List.map_append, List.map_append, keys, keys]
  have key : ∀ {k}, (∃ q ∈ both orders, q.key = k) ↔ ∃ q ∈ both t.quotes, q.key = k := by
    intro k
    rw [← List.mem_map, all, List.mem_map]
  refine ⟨replays.running, replays.next, ?_, ?_, ?_, positive, follows, quotes, stale⟩
  · intro id slot
    simp only [LobsterReplay.emit, notCancel, if_false, key]
    exact replays.slots id slot
  · intro q mem
    obtain ⟨x, xMem, same⟩ := key.mp ⟨q, mem, rfl⟩
    rw [← same]
    exact replays.below x xMem
  · have lengths := congrArg List.length all
    rw [List.length_map, List.length_map] at lengths
    rw [lengths]
    exact replays.few

/-- A MODIFY to the size of a partial cancel that takes half. -/
theorem reduce_halves (replays : Replays basePrice replay t s m) (tickerId : TickerId)
    (isModify : LobsterReplay.mapType row.type = .MODIFY)
    (halves : ∀ q, t.Names row q → 2 * row.size = q.qty) :
    (t.reduce row).quotes =
      t.quotes.apply (LobsterReplay.update tickerId row (t.arrival row.orderId)) := by
  funext side
  have mem : ∀ q ∈ t.quotes side, q ∈ both t.quotes := fun q mem => (mem_both _).mpr ⟨side, mem⟩
  have applied : t.quotes.apply (LobsterReplay.update tickerId row (t.arrival row.orderId)) side =
      (t.quotes side).map fun q =>
        if q.key = t.arrival row.orderId then { q with qty := row.size } else q := by
    simp only [Quotes.apply, LobsterReplay.update, isModify]
  have mapped : ((t.quotes side).map fun q =>
      if q.key = t.arrival row.orderId then { q with qty := q.qty - row.size } else q) =
      (t.quotes side).map fun q =>
        if q.key = t.arrival row.orderId then { q with qty := row.size } else q := by
    refine List.map_congr_left fun q qMem => ?_
    split
    · rename_i key
      have half := halves q (replays.names (mem q qMem) key)
      rw [show q.qty - row.size = row.size by lia]
    · rfl
  rw [applied]
  simp only [Tape.reduce]
  rw [mapped]
  refine List.filter_eq_self.mpr fun x xMem => decide_eq_true ?_
  obtain ⟨q, qMem, rfl⟩ := List.mem_map.mp xMem
  have wants := replays.positive q (mem q qMem)
  split
  · rename_i key
    have half := halves q (replays.names (mem q qMem) key)
    show 0 < row.size
    lia
  · exact wants

/-- A row that takes out the order that it names. -/
theorem delete (replays : Replays basePrice replay t s m) (isDelete : row.type = 3)
    (named : t.Names row q) :
    ∃ s' out m', run MarketOrderBook.onMarketUpdate s
        (LobsterReplay.step tickerId replay row).2 = .ok (s', out) ∧
      Replays basePrice (LobsterReplay.step tickerId replay row).1 (t.delete row) s' m' := by
  have isCancel : LobsterReplay.mapType row.type = .CANCEL := by
    rw [isDelete]
    rfl
  rw [LobsterReplay.step_mapped replays.running (by simp [isCancel]) (replays.lookup named)]
  obtain ⟨s', out, ran, follows⟩ :=
    replays.emit tickerId named (by simp [isCancel])
  refine ⟨s', out, (m.step (LobsterReplay.update tickerId row (t.arrival row.orderId))).1, ran, ?_⟩
  have sub : ∀ q, q ∈ both (t.delete row).quotes ↔
      q ∈ both t.quotes ∧ q.key ≠ t.arrival row.orderId := by
    intro q
    simp only [mem_both, Tape.delete, List.mem_filter, decide_eq_true_eq]
    constructor
    · rintro ⟨side, mem, other⟩
      exact ⟨⟨side, mem⟩, other⟩
    · rintro ⟨⟨side, mem⟩, other⟩
      exact ⟨side, mem, other⟩
  refine ⟨replays.running, replays.next, ?_, fun q mem => replays.below q ((sub q).mp mem).1, ?_,
    fun q mem => replays.positive q ((sub q).mp mem).1, follows, ?_, ?_⟩
  · intro id slot
    simp only [LobsterReplay.emit, isCancel, if_true]
    show _ ↔ id ∈ t.ids ∧ slot = t.arrival id ∧ _
    rcases eq_or_ne id row.orderId with rfl | ne
    · rw [Function.update_self]
      constructor
      · intro found
        cases found
      · rintro ⟨-, rfl, x, mem, key⟩
        exact absurd key ((sub x).mp mem).2
    · rw [Function.update_of_ne ne, replays.slots]
      refine and_congr_right fun known => and_congr_right fun isSlot => ?_
      have other : slot ≠ t.arrival row.orderId := by
        rw [isSlot]
        exact fun same => ne ((List.idxOf_inj known).mp same)
      constructor
      · rintro ⟨x, mem, key⟩
        exact ⟨x, (sub x).mpr ⟨mem, key ▸ other⟩, key⟩
      · rintro ⟨x, mem, key⟩
        exact ⟨x, ((sub x).mp mem).1, key⟩
  · have shorter : (both (t.delete row).quotes).length ≤ (both t.quotes).length := by
      rw [both, both, List.length_append, List.length_append]
      exact Nat.add_le_add (List.length_filter_le _ _) (List.length_filter_le _ _)
    exact Nat.le_trans shorter replays.few
  · rw [Market.step_quotes, replays.quotes]
    simp only [Quotes.apply, LobsterReplay.update, isCancel, Tape.delete]
  · exact ClearsEmpty.step
      (fun isClear => absurd isClear (LobsterReplay.mapType_ne_clear row.type)) replays.stale

/-- A row that is no submission and names no live order is skipped. -/
theorem unnamed (replays : Replays basePrice replay t s m) (tickerId : TickerId)
    (notAdd : LobsterReplay.mapType row.type ≠ .ADD) (unnamed : ∀ q, ¬ t.Names row q) :
    ∃ s' out m', run MarketOrderBook.onMarketUpdate s
        (LobsterReplay.step tickerId replay row).2 = .ok (s', out) ∧
      Replays basePrice (LobsterReplay.step tickerId replay row).1 t s' m' := by
  rw [LobsterReplay.step_unmapped replays.running notAdd (replays.lookup_none unnamed)]
  exact ⟨s, [], m, rfl, replays.skip⟩

/-- A partial cancel that takes half. -/
theorem halve (replays : Replays basePrice replay t s m) (tickerId : TickerId)
    (isPartial : row.type = 2) (halves : ∀ q, t.Names row q → 2 * row.size = q.qty) :
    ∃ s' out m', run MarketOrderBook.onMarketUpdate s
        (LobsterReplay.step tickerId replay row).2 = .ok (s', out) ∧
      Replays basePrice (LobsterReplay.step tickerId replay row).1 (t.reduce row) s' m' := by
  have isModify : LobsterReplay.mapType row.type = .MODIFY := by
    rw [isPartial]
    rfl
  by_cases names : ∃ q, t.Names row q
  · obtain ⟨q, named⟩ := names
    rw [LobsterReplay.step_mapped replays.running (by simp [isModify]) (replays.lookup named)]
    obtain ⟨s', out, ran, follows⟩ := replays.emit tickerId named (by simp [isModify])
    have quotes := replays.reduce_halves tickerId isModify halves
    refine ⟨s', out, (m.step (LobsterReplay.update tickerId row (t.arrival row.orderId))).1, ran,
      replays.requantify ?_ ?_ (by simp [isModify]) _ follows ?_ ?_⟩
    · intro side
      have applied := congrFun quotes side
      simp only [Tape.reduce] at applied
      rw [applied]
      simp only [Quotes.apply, LobsterReplay.update, isModify, List.map_map]
      refine List.map_congr_left fun x _ => ?_
      simp only [Function.comp_apply]
      split
      · rfl
      · rfl
    · intro x mem
      obtain ⟨side, mem⟩ := (mem_both _).mp mem
      exact of_decide_eq_true (List.mem_filter.mp mem).2
    · rw [Market.step_quotes, replays.quotes]
      exact quotes.symm
    · exact ClearsEmpty.step
        (fun isClear => absurd isClear (LobsterReplay.mapType_ne_clear row.type)) replays.stale
  · have unnamed : ∀ q, ¬ t.Names row q := fun q named => names ⟨q, named⟩
    rw [replays.reduce_eq fun q named => absurd named (unnamed q)]
    exact replays.unnamed tickerId (by simp [isModify]) unnamed

/-- An execution leaves the book alone. -/
theorem trade (replays : Replays basePrice replay t s m) (tickerId : TickerId)
    (isTrade : LobsterReplay.mapType row.type = .TRADE) :
    ∃ s' out m', run MarketOrderBook.onMarketUpdate s
        (LobsterReplay.step tickerId replay row).2 = .ok (s', out) ∧
      Replays basePrice (LobsterReplay.step tickerId replay row).1 t s' m' := by
  by_cases names : ∃ q, t.Names row q
  · obtain ⟨q, named⟩ := names
    rw [LobsterReplay.step_mapped replays.running (by simp [isTrade]) (replays.lookup named)]
    obtain ⟨s', out, ran, follows⟩ := replays.emit tickerId named (by simp [isTrade])
    have same : (m.step (LobsterReplay.update tickerId row (t.arrival row.orderId))).1 = m := by
      simp only [Market.step, LobsterReplay.update, isTrade, if_true]
    rw [same] at follows
    exact ⟨s', out, m, ran, replays.requantify (fun _ => rfl) replays.positive
      (by simp [isTrade]) _ follows replays.quotes replays.stale⟩
  · exact replays.unnamed tickerId (by simp [isTrade]) fun q named => names ⟨q, named⟩

/-- One row that is kept. -/
theorem step (replays : Replays basePrice replay t s m) (tickerId : TickerId)
    (wellFormed : t.WellFormed row) (kept : t.Kept basePrice row) :
    ∃ s' out m', run MarketOrderBook.onMarketUpdate s
        (LobsterReplay.step tickerId replay row).2 = .ok (s', out) ∧
      Replays basePrice (LobsterReplay.step tickerId replay row).1 (t.step row).1 s' m' := by
  unfold Tape.step
  split
  · rename_i isSubmit
    exact replays.submit isSubmit wellFormed (kept.inside isSubmit) (kept.apart isSubmit)
  · rename_i notSubmit
    split
    · rename_i isReduce
      rcases isReduce with isPartial | isExecution
      · exact replays.halve tickerId isPartial (kept.halves isPartial)
      · have isTrade : LobsterReplay.mapType row.type = .TRADE := by
          rw [isExecution]
          rfl
        simp only [replays.reduce_eq (kept.unexecuted isExecution)]
        exact replays.trade tickerId isTrade
    · rename_i notReduce
      split
      · rename_i isDelete
        obtain ⟨q, named⟩ := wellFormed.deletes isDelete
        exact replays.delete isDelete named
      · rename_i notDelete
        rw [not_or] at notReduce
        by_cases isHidden : row.type = 5
        · have isTrade : LobsterReplay.mapType row.type = .TRADE := by
            rw [isHidden]
            rfl
          exact replays.trade tickerId isTrade
        · have isInvalid : LobsterReplay.mapType row.type = .INVALID := by
            simp only [LobsterReplay.mapType, notSubmit, notReduce.1, notReduce.2, notDelete,
              isHidden, if_false]
          have skipped : LobsterReplay.step tickerId replay row = replay.skip := by
            simp only [LobsterReplay.step, replays.running, isInvalid, Bool.false_eq_true,
              if_false, if_true]
          rw [skipped]
          exact ⟨s, [], m, rfl, replays.skip⟩

/-- The book reads as the tape. -/
theorem sideQueues (replays : Replays basePrice replay t s m) (side : BookSide) :
    s.sideQueues side.toSide = t.sideQueues side := by
  rw [Tape.sideQueues, ← replays.quotes]
  exact replays.follows.holds.sideQueues_eq side

/-! ## Rows that the replay reads otherwise -/

/-- Sides that read alike hold the same orders. -/
theorem mem_of_sideQueues {xs ys : List Quote} {side : BookSide} {o : Quote}
    (same : groups (xs.map fun o => (o.price, o.content side)) =
      groups (ys.map fun o => (o.price, o.content side))) (mem : o ∈ xs) : o ∈ ys := by
  have there := groups_injective same ▸ List.mem_map_of_mem mem
  obtain ⟨x, xMem, equal⟩ := List.mem_map.mp there
  have isO : x = o := by
    simp only [Resting.content, Prod.mk.injEq] at equal
    obtain ⟨price, key, -, -, qty, priority⟩ := equal
    cases x
    cases o
    simp only at price key qty priority
    rw [price, key, qty, priority]
  exact isO ▸ xMem

/-- What is left of a named order behind a reduction. -/
theorem qty_of_reduce (replays : Replays basePrice replay t s m) {x : Quote} {side : BookSide}
    (named : t.Names row q) (key : x.key = q.key)
    (left : x ∈ (t.reduce row).quotes side) : x.qty = q.qty - row.size := by
  obtain ⟨y, yMem, isX⟩ := List.mem_map.mp (List.mem_filter.mp left).1
  have yKey : y.key = x.key := by
    rw [← isX]
    split
    · rfl
    · rfl
  have distinct := replays.follows.holds.distinct
  rw [replays.quotes] at distinct
  have isQ : y = q := List.inj_on_of_nodup_map distinct ((mem_both _).mpr ⟨side, yMem⟩) named.1
    (yKey.trans key)
  rw [← isX, isQ, if_pos named.2.1]

/-- A partial cancel that is read as the tape means it takes half. -/
theorem halves_of_reads (replays : Replays basePrice replay t s m) (tickerId : TickerId)
    (isPartial : row.type = 2) (named : t.Names row q)
    (ran : run MarketOrderBook.onMarketUpdate s
      (LobsterReplay.step tickerId replay row).2 = .ok (s', out))
    (reads : ∀ side, s'.sideQueues side.toSide = (t.reduce row).sideQueues side) :
    2 * row.size = q.qty := by
  have isModify : LobsterReplay.mapType row.type = .MODIFY := by
    rw [isPartial]
    rfl
  rw [LobsterReplay.step_mapped replays.running (by simp [isModify]) (replays.lookup named)] at ran
  obtain ⟨s₁, out₁, ran₁, follows⟩ := replays.emit tickerId named (by simp [isModify])
  cases ran₁.symm.trans ran
  obtain ⟨side, mem⟩ := (mem_both _).mp named.1
  have queues := follows.holds.sideQueues_eq side
  rw [reads, Market.step_quotes, replays.quotes, Tape.sideQueues] at queues
  have modified : ({ q with qty := row.size } : Quote) ∈
      t.quotes.apply (LobsterReplay.update tickerId row (t.arrival row.orderId)) side := by
    simp only [Quotes.apply, LobsterReplay.update, isModify]
    refine List.mem_map.mpr ⟨q, mem, ?_⟩
    rw [if_pos named.2.1]
  have left := replays.qty_of_reduce (x := { q with qty := row.size }) named rfl
    (mem_of_sideQueues queues.symm modified)
  have size : row.size = q.qty - row.size := left
  lia

/-- An execution that is read as the tape means it takes nothing. -/
theorem unexecuted_of_reads (replays : Replays basePrice replay t s m) (tickerId : TickerId)
    (isExecution : row.type = 4) (named : t.Names row q)
    (ran : run MarketOrderBook.onMarketUpdate s
      (LobsterReplay.step tickerId replay row).2 = .ok (s', out))
    (reads : ∀ side, s'.sideQueues side.toSide = (t.reduce row).sideQueues side) :
    row.size = 0 := by
  have isTrade : LobsterReplay.mapType row.type = .TRADE := by
    rw [isExecution]
    rfl
  obtain ⟨s₁, out₁, m₁, ran₁, replays₁⟩ := replays.trade tickerId isTrade
  cases ran₁.symm.trans ran
  obtain ⟨side, mem⟩ := (mem_both _).mp named.1
  have queues := replays₁.sideQueues side
  rw [reads] at queues
  have left := replays.qty_of_reduce named rfl (mem_of_sideQueues queues.symm mem)
  have wants := replays.positive q named.1
  lia

/-- The emission of a row that submits an order. -/
theorem submit_emits (replays : Replays basePrice replay t s m) (tickerId : TickerId)
    (isSubmit : row.type = 1) (wellFormed : t.WellFormed row) :
    (LobsterReplay.step tickerId replay row).2 =
      [LobsterReplay.update tickerId row t.ids.length] := by
  rw [replays.step_submit tickerId isSubmit wellFormed]
  rfl

/-- The book takes no ADD outside its window. -/
theorem inside (replays : Replays basePrice replay t s m) (tickerId : TickerId)
    (isSubmit : row.type = 1) (wellFormed : t.WellFormed row)
    (updated : s.onMarketUpdate (LobsterReplay.update tickerId row t.ids.length) = .ok (s', out)) :
    InWindow basePrice row.price := by
  have isAdd : (LobsterReplay.update tickerId row t.ids.length).type = .ADD := by
    show LobsterReplay.mapType row.type = _
    rw [isSubmit]
    rfl
  obtain ⟨-, -, free⟩ := wellFormed.submits isSubmit
  have room : (m.quotes (Tape.side row)).length + (m.quotes (Tape.side row).opposite).length + 1 <
      ME_MAX_ORDER_IDS := by
    have few := replays.few
    rw [(perm_both t.quotes (Tape.side row)).length_eq, List.length_append] at few
    rw [replays.quotes]
    omega
  obtain ⟨ptr, pool, -, allocated, -, -, -, content⟩ := replays.follows.holds.allocate_spec room
    (Quote.of (LobsterReplay.update tickerId row t.ids.length))
  have allocated' : s.orderPool.allocate
      { key := (LobsterReplay.update tickerId row t.ids.length).orderId
        side := (LobsterReplay.update tickerId row t.ids.length).side
        price := (LobsterReplay.update tickerId row t.ids.length).price
        qty := (LobsterReplay.update tickerId row t.ids.length).qty
        priority := (LobsterReplay.update tickerId row t.ids.length).priority
        prevOrder := none, nextOrder := none } = .ok (ptr, pool) := by
    rw [LobsterReplay.update_side]
    exact allocated
  have applied := applyUpdate_of_ok (by simp [isAdd]) updated
  simp only [MarketOrderBook.applyUpdate, isAdd, MarketOrderBook.addQuote, allocated', bind,
    Except.bind] at applied
  have inWindow := LevelBook.addOrder_inside applied
  have price : (({ s.toLevelBook with orderPool := pool } :
      LevelBook OrderId OrderId).order ptr).price = row.price := content.price
  have base : s.basePrice = basePrice := replays.follows.holds.1
  rw [price] at inWindow
  simp only [base] at inWindow
  exact inWindow

/-- A submission that is read as the tape means it is in the window and at a price of its
own side. -/
theorem submit_of_reads (replays : Replays basePrice replay t s m) (tickerId : TickerId)
    (isSubmit : row.type = 1) (wellFormed : t.WellFormed row)
    (ran : run MarketOrderBook.onMarketUpdate s
      (LobsterReplay.step tickerId replay row).2 = .ok (s', out))
    (reads : ∀ side, s'.sideQueues side.toSide = (t.submit row).sideQueues side) :
    InWindow basePrice row.price ∧
      ∀ q ∈ t.quotes (Tape.side row).opposite, q.price ≠ row.price := by
  have isAdd : (LobsterReplay.update tickerId row t.ids.length).type = .ADD := by
    show LobsterReplay.mapType row.type = _
    rw [isSubmit]
    rfl
  rw [replays.submit_emits tickerId isSubmit wellFormed] at ran
  obtain ⟨s₁, now, later, updated, last, -⟩ := run_cons.mp ran
  cases last
  have inside : InWindow basePrice row.price := replays.inside tickerId isSubmit wellFormed updated
  have adds := replays.adds tickerId isSubmit wellFormed inside
  refine ⟨inside, fun q mem same => ?_⟩
  rw [← replays.quotes] at mem
  obtain ⟨levels, best⟩ := replays.follows.occupied isAdd adds updated
    (.inr ⟨_, q, mem, same⟩)
  -- the order is listed, so its side had a level of its price all along
  have listed : (⟨t.ids.length, row.price, row.size, t.ids.length⟩ : Quote) ∈
      (t.submit row).quotes (Tape.side row) := by
    simp only [Tape.submit, Function.update_self, List.mem_orderedInsert, true_or]
  obtain ⟨queue, queueMem, price, -⟩ := mem_groups
    (List.mem_map_of_mem (f := fun o : Quote => (o.price, o.content (Tape.side row))) listed)
  have there := reads (Tape.side row)
  rw [Tape.sideQueues] at there
  rw [← there, LevelBook.sideQueues] at queueMem
  obtain ⟨p, pMem, rfl⟩ := List.mem_map.mp queueMem
  have level : ∀ p, s'.level p = s.level p := fun p => congrArg (·.get p) levels
  have walked : s'.sideLevels (Tape.side row).toSide = s.sideLevels (Tape.side row).toSide := by
    simp only [LevelBook.sideLevels, best, level, levels]
  rw [walked] at pMem
  have old : ((s.level p).price, (s.levelOrders p).map fun q => (s.order q).content) ∈
      s.sideQueues (Tape.side row).toSide := List.mem_map_of_mem pMem
  rw [replays.follows.holds.sideQueues_eq] at old
  obtain ⟨x, xMem, xPrice⟩ := exists_of_mem_groups old
  obtain ⟨y, yMem, rfl⟩ := List.mem_map.mp xMem
  refine replays.follows.holds.price_free (.inr ⟨q, mem, same⟩) y yMem ?_
  rw [level] at price
  exact xPrice.trans price

/-- A row behind which the book reads as the tape is kept. -/
theorem kept_of_reads (replays : Replays basePrice replay t s m) (tickerId : TickerId)
    (wellFormed : t.WellFormed row)
    (ran : run MarketOrderBook.onMarketUpdate s
      (LobsterReplay.step tickerId replay row).2 = .ok (s', out))
    (reads : ∀ side, s'.sideQueues side.toSide = (t.step row).1.sideQueues side) :
    t.Kept basePrice row := by
  have submits : row.type = 1 → InWindow basePrice row.price ∧
      ∀ q ∈ t.quotes (Tape.side row).opposite, q.price ≠ row.price := by
    intro isSubmit
    rw [show (t.step row).1 = t.submit row by simp only [Tape.step, isSubmit, if_true]] at reads
    exact replays.submit_of_reads tickerId isSubmit wellFormed ran reads
  have reduced : row.type = 2 ∨ row.type = 4 → (t.step row).1 = t.reduce row := by
    intro isReduce
    have notSubmit : row.type ≠ 1 := by
      omega
    simp only [Tape.step, notSubmit, isReduce, if_true, if_false]
  refine ⟨fun isSubmit => (submits isSubmit).1, fun isSubmit => (submits isSubmit).2, ?_, ?_⟩
  · intro isPartial q named
    rw [reduced (.inl isPartial)] at reads
    exact replays.halves_of_reads tickerId isPartial named ran reads
  · intro isExecution q named
    rw [reduced (.inr isExecution)] at reads
    exact replays.unexecuted_of_reads tickerId isExecution named ran reads

/-- A tape whose rows are all kept. -/
theorem run (basePrice : Price) (tickerId : TickerId) (rows : List LobsterRow)
    (wellFormed : Along Tape.WellFormed Tape.step Tape.new rows)
    (kept : Along (Tape.Kept basePrice) Tape.step Tape.new rows) :
    ∃ s out m, NanoTrade.run MarketOrderBook.onMarketUpdate (MarketOrderBook.new basePrice)
        (LobsterReplay.updates tickerId rows) = .ok (s, out) ∧
      Replays basePrice (runTotal (LobsterReplay.step tickerId) LobsterReplay.new rows).1
        (runTotal Tape.step Tape.new rows).1 s m := by
  induction rows using List.reverseRecOn with
  | nil => exact ⟨_, [], _, rfl, new basePrice⟩
  | append_singleton rows row ih =>
      obtain ⟨wellFormed, wellFormedRow, -⟩ := along_append.mp wellFormed
      obtain ⟨kept, keptRow, -⟩ := along_append.mp kept
      obtain ⟨s, out, m, ran, replays⟩ := ih wellFormed kept
      obtain ⟨s', out', m', ranRow, replays'⟩ := replays.step tickerId wellFormedRow keptRow
      rw [LobsterReplay.updates, runTotal_concat, runTotal_concat]
      exact ⟨s', out ++ out', m', run_append.mpr ⟨s, out, out', ran, ranRow, rfl⟩, replays'⟩

end Replays

/-- **The replay reconstructs the book of a message file** exactly where every row is kept: a
new order is in the book's window and not at a price of the other side, a partial cancel takes
half of what is left, and no visible order is executed. -/
theorem LobsterReplay.run_reconstructs_iff (basePrice : Price) (tickerId : TickerId)
    (rows : List LobsterRow) (wellFormed : Along Tape.WellFormed Tape.step Tape.new rows) :
    (∀ seen, seen <+: rows → ∃ s out,
        run MarketOrderBook.onMarketUpdate (MarketOrderBook.new basePrice)
          (LobsterReplay.updates tickerId seen) = .ok (s, out) ∧
        ∀ side, s.sideQueues side.toSide =
          (runTotal Tape.step Tape.new seen).1.sideQueues side) ↔
      Along (Tape.Kept basePrice) Tape.step Tape.new rows := by
  constructor
  · intro reads
    induction rows using List.reverseRecOn with
    | nil => trivial
    | append_singleton rows row ih =>
        obtain ⟨wellFormedRows, wellFormedRow, -⟩ := along_append.mp wellFormed
        have kept := ih wellFormedRows fun seen prefixed =>
          reads seen (prefixed.trans (List.prefix_append _ _))
        obtain ⟨s, out, m, ran, replays⟩ := Replays.run basePrice tickerId rows wellFormedRows kept
        obtain ⟨s', all, ranAll, readsAll⟩ := reads _ List.prefix_rfl
        rw [LobsterReplay.updates, runTotal_concat] at ranAll
        obtain ⟨s₁, out₁, out', ran₁, ranRow, -⟩ := run_append.mp ranAll
        cases ran.symm.trans ran₁
        rw [runTotal_concat] at readsAll
        exact along_append.mpr
          ⟨kept, replays.kept_of_reads tickerId wellFormedRow ranRow readsAll, trivial⟩
  · intro kept seen prefixed
    obtain ⟨s, out, m, ran, replays⟩ := Replays.run basePrice tickerId seen
      (along_prefixed prefixed wellFormed) (along_prefixed prefixed kept)
    exact ⟨s, out, ran, replays.sideQueues⟩

/-- An order of ten, half of it cancelled, then the rest. -/
theorem LobsterReplay.run_reconstructs_iff_halved :
    (∀ seen, seen <+: [⟨1, 7, 10, 100, 1⟩, ⟨2, 7, 5, 100, 1⟩, ⟨3, 7, 5, 100, 1⟩] → ∃ s out,
        run MarketOrderBook.onMarketUpdate (MarketOrderBook.new 0)
          (LobsterReplay.updates 0 seen) = .ok (s, out) ∧
        ∀ side, s.sideQueues side.toSide =
          (runTotal Tape.step Tape.new seen).1.sideQueues side) ↔
      Along (Tape.Kept 0) Tape.step Tape.new
        [⟨1, 7, 10, 100, 1⟩, ⟨2, 7, 5, 100, 1⟩, ⟨3, 7, 5, 100, 1⟩] :=
  LobsterReplay.run_reconstructs_iff 0 0 _ (by decide)

/-- A partial cancel of three of ten leaves three. -/
theorem LobsterReplay.not_reconstructs_partial_cancel :
    ¬ ∀ rows, Along Tape.WellFormed Tape.step Tape.new rows → ∃ s out,
        run MarketOrderBook.onMarketUpdate (MarketOrderBook.new 0)
          (LobsterReplay.updates 0 rows) = .ok (s, out) ∧
        ∀ side, s.sideQueues side.toSide =
          (runTotal Tape.step Tape.new rows).1.sideQueues side := by
  intro always
  obtain ⟨s, out, ran, reads⟩ := always [⟨1, 7, 10, 100, 1⟩, ⟨2, 7, 3, 100, 1⟩] (by decide)
  obtain ⟨s', out', ran', shown⟩ := run_of_read MarketOrderBook.onMarketUpdate
    (MarketOrderBook.new 0) (LobsterReplay.updates 0 [⟨1, 7, 10, 100, 1⟩, ⟨2, 7, 3, 100, 1⟩])
    (fun result => (result.1.sideQueues .BUY).flatMap fun level =>
      level.2.map fun order => order.2.2.2.1)
    [3] (by decide +kernel)
  cases ran.symm.trans ran'
  have there : s.sideQueues .BUY = _ := reads .bid
  rw [there] at shown
  revert shown
  decide

end NanoTrade
