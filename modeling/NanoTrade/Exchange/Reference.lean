import NanoTrade.Exchange.MEOrderBook
import NanoTrade.LevelBook.Lists

/-!
# The price-time-priority reference book

What an exchange book is for, without pointers, levels, tables or pools: per side one
list of the resting orders, the first one to be filled first. A NEW fills against the
front of the opposite list while the price crosses and quantity is left, at the
resting price; the remainder goes behind its own price. A CANCEL takes the addressed
order out.

The book numbers orders and priorities. `Width` says how wide the counters are:
`Width.unbounded` is the reference proper, `Width.machine` has the `uint64_t` counters
of the source and the 32 bits of the parameter that carries the id into `match`.
-/

namespace NanoTrade

/-- A resting order of the matching engine. -/
abbrev MEResting := Resting MEOrderKey

structure Width where
  counter : Nat → Nat
  fillId : Nat → Nat

def Width.unbounded : Width :=
  { counter := id, fillId := id }

def Width.machine : Width :=
  { counter := (· % 2 ^ 64), fillId := (· % 2 ^ 32) }

structure RefBook where
  orders : BookSide → List MEResting
  nextMarketOrderId : OrderId

namespace RefBook

def new : RefBook :=
  { orders := fun _ => [], nextMarketOrderId := 1 }

/-! ## A new order -/

/-- The messages for one fill against `o`, which `passiveLeaves` is left of. -/
def fill (a : Aggressor) (passive : BookSide) (o : MEResting) (fillQty leavesQty : Qty) :
    List MEMessage :=
  MEOrderBook.fillMessages a o.key passive.toSide o.price fillQty leavesQty (o.qty - fillQty)

def filled (tickerId : TickerId) (passive : BookSide) (o : MEResting) : MEMessage :=
  .update
    { type := .CANCEL, orderId := o.key.marketOrderId, tickerId, side := passive.toSide,
      price := o.price, qty := o.qty, priority := Priority_INVALID }

def modified (tickerId : TickerId) (passive : BookSide) (o : MEResting) (qty : Qty) : MEMessage :=
  .update
    { type := .MODIFY, orderId := o.key.marketOrderId, tickerId, side := passive.toSide,
      price := o.price, qty, priority := o.priority }

/-- Fill the new order against the front of the opposite list. -/
def sweep (a : Aggressor) (passive : BookSide) :
    List MEResting → Qty → List MEResting × Qty × List MEMessage
  | [], leaves => ([], leaves, [])
  | o :: rest, leaves =>
    if leaves = 0 ∨ ¬ passive.opposite.Crosses a.price o.price then (o :: rest, leaves, [])
    else
      let fillQty := min leaves o.qty
      let messages := fill a passive o fillQty (leaves - fillQty)
      if o.qty ≤ leaves then
        let (rest, leaves, more) := sweep a passive rest (leaves - fillQty)
        (rest, leaves, messages ++ [filled a.tickerId passive o] ++ more)
      else
        ({ o with qty := o.qty - fillQty } :: rest, leaves - fillQty,
          messages ++ [modified a.tickerId passive o (o.qty - fillQty)])

/-- One more than the priority of the last order at `price`. -/
def nextPriority (w : Width) (orders : List MEResting) (price : Price) : Priority :=
  match (orders.filter fun o => o.price = price).getLast? with
  | none => 1
  | some last => w.counter (last.priority + 1)

/-- The sweep of a NEW. -/
def matched (w : Width) (ref : RefBook) (side : BookSide) (r : MEClientRequest) :
    List MEResting × Qty × List MEMessage :=
  sweep
    { tickerId := r.tickerId, clientId := r.clientId, side := side.toSide,
      clientOrderId := r.orderId, newMarketOrderId := w.fillId ref.nextMarketOrderId,
      price := r.price }
    side.opposite (ref.orders side.opposite) r.qty

/-- The order that a NEW leaves in the book. -/
def remainder (w : Width) (ref : RefBook) (side : BookSide) (r : MEClientRequest)
    (leavesQty : Qty) : MEResting :=
  { key := { tickerId := r.tickerId, clientId := r.clientId, clientOrderId := r.orderId,
             marketOrderId := ref.nextMarketOrderId }
    price := r.price, qty := leavesQty, priority := nextPriority w (ref.orders side) r.price }

/-- The lists after the sweep of a NEW. -/
def swept (w : Width) (ref : RefBook) (side : BookSide) (r : MEClientRequest) :
    BookSide → List MEResting :=
  Function.update ref.orders side.opposite (matched w ref side r).1

def add (w : Width) (ref : RefBook) (side : BookSide) (r : MEClientRequest) :
    RefBook × List MEMessage :=
  let leavesQty := (matched w ref side r).2.1
  let accepted := MEOrderBook.acceptedResponse r.clientId r.orderId r.tickerId side.toSide r.price
    r.qty ref.nextMarketOrderId
  let messages := accepted :: (matched w ref side r).2.2
  let next := w.counter (ref.nextMarketOrderId + 1)
  if leavesQty = 0 then ({ orders := swept w ref side r, nextMarketOrderId := next }, messages)
  else
    let order := remainder w ref side r leavesQty
    ({ orders := Function.update (swept w ref side r) side
        ((ref.orders side).orderedInsert (Resting.Ahead side) order)
       nextMarketOrderId := next },
      messages ++ [MEOrderBook.addUpdate r.tickerId side.toSide r.price leavesQty order.priority
        ref.nextMarketOrderId])

/-! ## A cancel -/

/-- The client addresses the order by these ids. -/
def Addresses (clientId : ClientId) (orderId : OrderId) (o : MEResting) : Prop :=
  o.key.clientId = clientId ∧ o.key.clientOrderId = orderId

instance (clientId : ClientId) (orderId : OrderId) : DecidablePred (Addresses clientId orderId) :=
  fun _ => inferInstanceAs (Decidable (_ ∧ _))

/-- The update and the response for a resting order that is cancelled. -/
def canceled (r : MEClientRequest) (side : BookSide) (o : MEResting) : List MEMessage :=
  [.update
    { type := .CANCEL, orderId := o.key.marketOrderId, tickerId := r.tickerId,
      side := side.toSide, price := o.price, qty := 0, priority := o.priority },
   .response
    { type := .CANCELED, clientId := r.clientId, tickerId := r.tickerId,
      clientOrderId := r.orderId, marketOrderId := o.key.marketOrderId, side := side.toSide,
      price := o.price, execQty := Qty_INVALID, leavesQty := o.qty }]

/-- Take the addressed order out of one side. -/
def withdraw (ref : RefBook) (side : BookSide) (r : MEClientRequest) : RefBook :=
  { ref with
    orders := Function.update ref.orders side
      ((ref.orders side).eraseP fun o => Addresses r.clientId r.orderId o) }

/-- The addressed order of one side. -/
def addressed (ref : RefBook) (side : BookSide) (r : MEClientRequest) : Option MEResting :=
  (ref.orders side).find? fun o => Addresses r.clientId r.orderId o

def cancel (ref : RefBook) (r : MEClientRequest) : RefBook × List MEMessage :=
  match ref.addressed .bid r, ref.addressed .ask r with
  | some o, _ => (ref.withdraw .bid r, canceled r .bid o)
  | none, some o => (ref.withdraw .ask r, canceled r .ask o)
  | none, none => (ref, [MEOrderBook.rejectedResponse r.clientId r.orderId r.tickerId])

/-- One request. Orders of no side are not for the reference book. -/
def step (w : Width) (ref : RefBook) (r : MEClientRequest) : RefBook × List MEMessage :=
  match r.type, BookSide.ofSide r.side with
  | .NEW, some side => add w ref side r
  | .CANCEL, _ => cancel ref r
  | _, _ => (ref, [])

/-! ## What a sweep leaves

The orders that a sweep leaves are the last ones of the list, and only the first of
them may have another quantity: their tags are a suffix. -/

section Sweep

variable (a : Aggressor) (passive : BookSide)

theorem sweep_suffix (xs : List MEResting) (leaves : Qty) :
    (sweep a passive xs leaves).1.map Resting.tag <:+ xs.map Resting.tag := by
  induction xs generalizing leaves with
  | nil => exact List.suffix_refl _
  | cons o rest ih =>
      rw [sweep]
      split
      · exact List.suffix_refl _
      · split
        · exact (ih _).trans (List.suffix_cons _ _)
        · exact List.suffix_refl _

theorem sweep_mem {xs : List MEResting} {leaves : Qty} {o : MEResting}
    (mem : o ∈ (sweep a passive xs leaves).1) : ∃ x ∈ xs, x.tag = o.tag :=
  List.mem_map.mp ((sweep_suffix a passive xs leaves).subset (List.mem_map_of_mem mem))

theorem sweep_positive {xs : List MEResting} (positive : ∀ o ∈ xs, 0 < o.qty) (leaves : Qty) :
    ∀ o ∈ (sweep a passive xs leaves).1, 0 < o.qty := by
  induction xs generalizing leaves with
  | nil => exact positive
  | cons x rest ih =>
      have positiveRest : ∀ o ∈ rest, 0 < o.qty := fun o mem =>
        positive o (List.mem_cons_of_mem _ mem)
      rw [sweep]
      split
      · exact positive
      · split
        · exact ih positiveRest _
        · rename_i partly
          intro o mem
          rcases List.mem_cons.mp mem with rfl | mem
          · show 0 < x.qty - min leaves x.qty
            lia
          · exact positiveRest o mem

/-- A sweep that leaves something of the new order ends at an order that does not cross. -/
theorem sweep_stops (xs : List MEResting) (leaves : Qty)
    (left : (sweep a passive xs leaves).2.1 ≠ 0) :
    ∀ o ∈ (sweep a passive xs leaves).1.head?, ¬ passive.opposite.Crosses a.price o.price := by
  induction xs generalizing leaves with
  | nil =>
      intro o mem
      cases mem
  | cons x rest ih =>
      rw [sweep] at left ⊢
      split at left
      · rename_i ends
        rw [if_pos ends]
        intro o mem
        cases mem
        exact ends.resolve_left left
      · rename_i goesOn
        rw [if_neg goesOn]
        split at left
        · rename_i full
          rw [if_pos full]
          exact ih _ left
        · rename_i partly
          exact (left (show leaves - min leaves x.qty = 0 by lia)).elim

end Sweep

/-! ## What holds of a reference book -/

/-- Both lists are sorted, no bid crosses an ask, and every order wants something. -/
structure Sound (orders : BookSide → List MEResting) : Prop where
  sorted : ∀ side, (orders side).Pairwise fun a b => ¬ Resting.Ahead side b a
  uncrossed : ∀ b ∈ orders .bid, ∀ a ∈ orders .ask, b.price < a.price
  positive : ∀ side, ∀ o ∈ orders side, 0 < o.qty

theorem Sound.new : Sound fun _ => [] := by
  refine ⟨fun _ => List.Pairwise.nil, ?_, ?_⟩
  · intro b mem
    cases mem
  · intro side o mem
    cases mem

/-- The order of the prices only depends on the tags. -/
theorem sorted_of_sublist {side : BookSide} {xs ys : List MEResting}
    (sub : (ys.map Resting.tag).Sublist (xs.map Resting.tag))
    (sorted : xs.Pairwise fun a b => ¬ Resting.Ahead side b a) :
    ys.Pairwise fun a b => ¬ Resting.Ahead side b a := by
  have tags : ∀ zs : List MEResting, (zs.Pairwise fun a b => ¬ Resting.Ahead side b a) ↔
      (zs.map Resting.tag).Pairwise fun a b => ¬ side.Ahead b.2.1 a.2.1 := by
    intro zs
    rw [List.pairwise_map]
    rfl
  exact (tags ys).mpr (((tags xs).mp sorted).sublist sub)

/-- A book that keeps some of the orders, perhaps with less quantity, stays sound. -/
theorem Sound.sublist {orders orders' : BookSide → List MEResting} (sound : Sound orders)
    (sub : ∀ side, ((orders' side).map Resting.tag).Sublist ((orders side).map Resting.tag))
    (positive : ∀ side, ∀ o ∈ orders' side, 0 < o.qty) : Sound orders' := by
  have old : ∀ {side o}, o ∈ orders' side → ∃ x ∈ orders side, x.price = o.price := by
    intro side o mem
    obtain ⟨x, xMem, same⟩ := List.mem_map.mp ((sub side).subset (List.mem_map_of_mem mem))
    exact ⟨x, xMem, congrArg (·.2.1) same⟩
  refine ⟨fun side => sorted_of_sublist (sub side) (sound.sorted side), ?_, positive⟩
  intro b bMem a aMem
  obtain ⟨x, xMem, xb⟩ := old bMem
  obtain ⟨y, yMem, ya⟩ := old aMem
  rw [← xb, ← ya]
  exact sound.uncrossed x xMem y yMem

theorem Sound.withdraw {orders : BookSide → List MEResting} (sound : Sound orders) {side : BookSide}
    {xs ys : List MEResting} {o : MEResting} (shape : orders side = xs ++ o :: ys) :
    Sound (Function.update orders side (xs ++ ys)) := by
  have sub : ∀ side', (Function.update orders side (xs ++ ys) side').Sublist (orders side') := by
    intro side'
    rcases eq_or_ne side' side with rfl | ne
    · rw [Function.update_self, shape]
      exact (List.sublist_cons_self o ys).append_left xs
    · rw [Function.update_of_ne ne]
  exact sound.sublist (fun side' => (sub side').map _)
    fun side' x mem => sound.positive side' x ((sub side').subset mem)

/-- An order that gets another quantity keeps its tag. -/
theorem map_tag_requantify {orders : BookSide → List MEResting} {side : BookSide}
    {xs ys : List MEResting} {o : MEResting} (shape : orders side = xs ++ o :: ys) (qty : Qty)
    (side' : BookSide) :
    (Function.update orders side (xs ++ { o with qty := qty } :: ys) side').map Resting.tag =
      (orders side').map Resting.tag := by
  rcases eq_or_ne side' side with rfl | ne
  · rw [Function.update_self, shape, List.map_append, List.map_append, List.map_cons, List.map_cons]
    rfl
  · rw [Function.update_of_ne ne]

theorem Sound.requantify {orders : BookSide → List MEResting} (sound : Sound orders)
    {side : BookSide} {xs ys : List MEResting} {o : MEResting} {qty : Qty}
    (shape : orders side = xs ++ o :: ys) (wants : 0 < qty) :
    Sound (Function.update orders side (xs ++ { o with qty := qty } :: ys)) := by
  refine sound.sublist (fun side' => ?_) fun side' x mem => ?_
  · rw [map_tag_requantify shape]
  · rcases eq_or_ne side' side with rfl | ne
    · have positive := sound.positive side'
      rw [shape] at positive
      rw [Function.update_self, List.mem_append, List.mem_cons] at mem
      rcases mem with before | rfl | after
      · exact positive x (List.mem_append_left _ before)
      · exact wants
      · exact positive x (List.mem_append_right _ (List.mem_cons_of_mem _ after))
    · rw [Function.update_of_ne ne] at mem
      exact sound.positive side' x mem

variable {w : Width} {ref : RefBook} {side : BookSide} {r : MEClientRequest}

theorem add_filled (filled : (matched w ref side r).2.1 = 0) :
    (add w ref side r).1.orders = swept w ref side r := by
  rw [add, if_pos filled]

theorem add_left (left : (matched w ref side r).2.1 ≠ 0) :
    (add w ref side r).1.orders = Function.update (swept w ref side r) side
      ((ref.orders side).orderedInsert (Resting.Ahead side)
        (remainder w ref side r (matched w ref side r).2.1)) := by
  rw [add, if_neg left]

@[simp] theorem swept_own : swept w ref side r side = ref.orders side :=
  Function.update_of_ne BookSide.opposite_ne.symm _ _

@[simp] theorem swept_opposite :
    swept w ref side r side.opposite = (matched w ref side r).1 :=
  Function.update_self _ _ _

theorem Sound.swept (sound : Sound ref.orders) : Sound (RefBook.swept w ref side r) := by
  refine sound.sublist (fun side' => ?_) fun side' o mem => ?_
  · rcases eq_or_ne side' side.opposite with rfl | ne
    · rw [swept_opposite]
      exact (sweep_suffix _ _ _ _).sublist
    · rw [RefBook.swept, Function.update_of_ne ne]
  · rcases eq_or_ne side' side.opposite with rfl | ne
    · rw [swept_opposite] at mem
      exact sweep_positive _ _ (sound.positive _) _ o mem
    · rw [RefBook.swept, Function.update_of_ne ne] at mem
      exact sound.positive side' o mem

/-- What is left of a NEW crosses nothing. -/
theorem Sound.not_crosses (sound : Sound ref.orders) (left : (matched w ref side r).2.1 ≠ 0) :
    ∀ o ∈ (matched w ref side r).1, ¬ side.Crosses r.price o.price := by
  have sweptSound : Sound (RefBook.swept w ref side r) := sound.swept
  have sorted := sweptSound.sorted side.opposite
  rw [swept_opposite] at sorted
  have stops := sweep_stops _ _ _ _ left
  rw [BookSide.opposite_opposite] at stops
  intro o mem
  cases shape : (matched w ref side r).1 with
  | nil =>
      rw [shape] at mem
      cases mem
  | cons first rest =>
      have firstStops : ¬ side.Crosses r.price first.price := by
        refine stops first ?_
        have head : (matched w ref side r).1.head? = some first := by
          rw [shape]
          rfl
        exact head
      rw [shape] at mem sorted
      rcases List.mem_cons.mp mem with rfl | later
      · exact firstStops
      · exact BookSide.not_crosses_of_behind firstStops
          ((List.pairwise_cons.mp sorted).1 o later)

theorem sorted_insert {side : BookSide} (o : MEResting) {xs : List MEResting}
    (sorted : xs.Pairwise fun a b => ¬ Resting.Ahead side b a) :
    (xs.orderedInsert (Resting.Ahead side) o).Pairwise fun a b => ¬ Resting.Ahead side b a := by
  induction xs with
  | nil => exact List.pairwise_singleton _ _
  | cons x xs ih =>
      obtain ⟨first, rest⟩ := List.pairwise_cons.mp sorted
      by_cases ahead : Resting.Ahead side o x
      · rw [List.orderedInsert_cons_of_le _ _ ahead]
        refine List.pairwise_cons.mpr ⟨fun y mem => ?_, sorted⟩
        rcases List.mem_cons.mp mem with rfl | mem
        · exact BookSide.Ahead.asymm ahead
        · exact fun back => first y mem (BookSide.Ahead.trans back ahead)
      · rw [List.orderedInsert_of_not_le _ _ ahead]
        refine List.pairwise_cons.mpr ⟨fun y mem => ?_, ih rest⟩
        rcases (List.mem_orderedInsert _).mp mem with rfl | mem
        · exact ahead
        · exact first y mem

/-- An order that crosses nothing can be put in. -/
theorem Sound.insert {orders : BookSide → List MEResting} (sound : Sound orders) {o : MEResting}
    (wants : 0 < o.qty) (stops : ∀ x ∈ orders side.opposite, ¬ side.Crosses o.price x.price) :
    Sound (Function.update orders side
      ((orders side).orderedInsert (Resting.Ahead side) o)) := by
  have mem : ∀ {side' x}, x ∈ Function.update orders side
      ((orders side).orderedInsert (Resting.Ahead side) o) side' →
        (x = o ∧ side' = side) ∨ x ∈ orders side' := by
    intro side' x mem
    rcases eq_or_ne side' side with rfl | ne
    · rw [Function.update_self, List.mem_orderedInsert] at mem
      exact mem.imp (fun h => ⟨h, rfl⟩) id
    · rw [Function.update_of_ne ne] at mem
      exact .inr mem
  refine ⟨fun side' => ?_, ?_, ?_⟩
  · rcases eq_or_ne side' side with rfl | ne
    · rw [Function.update_self]
      exact sorted_insert o (sound.sorted side')
    · rw [Function.update_of_ne ne]
      exact sound.sorted side'
  · intro b bMem a aMem
    rcases mem bMem with ⟨rfl, rfl⟩ | bOld
    · rcases mem aMem with ⟨-, absurd⟩ | aOld
      · cases absurd
      · have apart := stops a aOld
        simp only [BookSide.Crosses] at apart
        lia
    · rcases mem aMem with ⟨rfl, rfl⟩ | aOld
      · have apart := stops b bOld
        simp only [BookSide.Crosses] at apart
        lia
      · exact sound.uncrossed b bOld a aOld
  · intro side' x xMem
    rcases mem xMem with ⟨rfl, rfl⟩ | old
    · exact wants
    · exact sound.positive side' x old

theorem Sound.add (sound : Sound ref.orders) : Sound (RefBook.add w ref side r).1.orders := by
  rcases eq_or_ne (matched w ref side r).2.1 0 with filled | left
  · rw [add_filled filled]
    exact sound.swept
  · rw [add_left left, ← swept_own (w := w) (r := r)]
    refine sound.swept.insert (Nat.pos_of_ne_zero left) fun x mem => ?_
    rw [swept_opposite] at mem
    exact sound.not_crosses left x mem

end RefBook

end NanoTrade
