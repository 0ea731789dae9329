import NanoTrade.FromChars
import NanoTrade.LevelBook.Rep

/-!
# The text of a book

`toString` of `MEOrderBook` and of `MarketOrderBook`, which their destructors log with the sanity
check on. It walks both sides, level by level around the circle, and each queue twice.

`Rep.toString_eq`: every loop ends, no pointer is null and the sanity check passes, unless a price
is an end of its type; the text is that of the levels and queues of the book, in their order.
-/

namespace NanoTrade

/-! ## Numbers in the text -/

/-- `priceToString` and the like: one number of the type is `INVALID`. -/
def idToString (invalid id : Nat) : List Char :=
  if id = invalid then "INVALID".toList else IntegerType.write id

def orderIdToString (orderId : OrderId) : List Char :=
  idToString OrderId_INVALID orderId

def tickerIdToString (tickerId : TickerId) : List Char :=
  idToString TickerId_INVALID tickerId

def qtyToString (qty : Qty) : List Char :=
  idToString Qty_INVALID qty

def priceToString (price : Price) : List Char :=
  if price = Price_INVALID then "INVALID".toList else IntegerType.write price

/-- `" <px:%3s p:%3s n:%3s> %-3s @ %-5s(%-4s)"`. -/
def levelFormat (price prev next : Price) (qty : Qty) (numOrders : Nat) : List Char :=
  " <px:".toList ++ (priceToString price).leftpad 3 ' ' ++
    " p:".toList ++ (priceToString prev).leftpad 3 ' ' ++
    " n:".toList ++ (priceToString next).leftpad 3 ' ' ++
    "> ".toList ++ (priceToString price).rightpad 3 ' ' ++
    " @ ".toList ++ (qtyToString qty).rightpad 5 ' ' ++
    "(".toList ++ (IntegerType.write numOrders).rightpad 4 ' ' ++ ")".toList

/-- `"[oid:%s q:%s p:%s n:%s] "`. -/
def orderFormat (orderId : OrderId) (qty : Qty) (prev next : OrderId) : List Char :=
  "[oid:".toList ++ orderIdToString orderId ++ " q:".toList ++ qtyToString qty ++
    " p:".toList ++ orderIdToString prev ++ " n:".toList ++ orderIdToString next ++ "] ".toList

/-- `"ASKS L:" << count << " => "`. -/
def levelLabel (side : Side) (count : Nat) : List Char :=
  (if side = .SELL then "ASKS L:" else "BIDS L:").toList ++ IntegerType.write count ++
    " => ".toList

/-! ## The walk -/

/-- Why `toString` does not return. -/
inductive PrintFault
  /-- A null pointer is dereferenced. -/
  | nullDereference
  /-- A loop does not end. -/
  | diverges
  /-- `FATAL`: "Bids/Asks not sorted by ascending/descending prices last:". -/
  | notSorted (last price : Price)
  deriving DecidableEq, Repr

namespace LevelBook

variable {κ σ : Type} (orderId : κ → OrderId) (detailed sanityCheck : Bool) (s : LevelBook κ σ)

/-- Dereference a pointer that the source does not check. -/
def derefShown : Option Ptr → Except PrintFault Ptr
  | some p => .ok p
  | none => .error .nullDereference

/-- A loop over the orders of a level. -/
def forOrders {β : Type} (itr : Ptr) (body : β → Ptr → Except PrintFault β) (acc : β) :
    Except PrintFault β :=
  circuit (fun p => (s.order p).nextOrder) (s.level itr).firstOrder
    (fun _ => .error .nullDereference) .diverges body s.orderPool.size (s.level itr).firstOrder acc

/-- `o_itr->prev_order_ ? o_itr->prev_order_->order_id_ : OrderId_INVALID`. -/
def linkedId : Option Ptr → OrderId
  | some p => orderId (s.order p).key
  | none => OrderId_INVALID

/-- The body of the second loop over the orders of a level. -/
def printOrder (ss : List Char) (o : Ptr) : Except PrintFault (List Char) :=
  .ok (if detailed then
      ss ++ orderFormat (orderId (s.order o).key) (s.order o).qty
        (s.linkedId orderId (s.order o).prevOrder) (s.linkedId orderId (s.order o).nextOrder)
    else ss)

/-- The body of the first loop: the quantity and the number of the orders. -/
def countOrder (total : Qty × Nat) (o : Ptr) : Except PrintFault (Qty × Nat) :=
  .ok ((total.1 + (s.order o).qty) % 2 ^ 32, total.2 + 1)

/-- The prices of a side do not get better from level to level. -/
def notSorted (side : Side) (lastPrice price : Price) : Bool :=
  (side == .SELL && decide (lastPrice ≥ price)) || (side == .BUY && decide (lastPrice ≤ price))

/-- `printer`, with the price of the level before. -/
def printer (side : Side) (ss : List Char) (lastPrice : Price) (itr : Ptr) :
    Except PrintFault (List Char × Price) := do
  let (qty, numOrders) ← s.forOrders itr s.countOrder (0, 0)
  let prev ← derefShown (s.level itr).prevEntry
  let next ← derefShown (s.level itr).nextEntry
  let ss := ss ++
    levelFormat (s.level itr).price (s.level prev).price (s.level next).price qty numOrders
  let ss ← s.forOrders itr (s.printOrder orderId detailed) ss
  let ss := ss ++ ['\n']
  if sanityCheck then
    if notSorted side lastPrice (s.level itr).price then
      .error (.notSorted lastPrice (s.level itr).price)
    else .ok (ss, (s.level itr).price)
  else .ok (ss, lastPrice)

/-- What the loop over a side carries: its count, the text and `last_price`. -/
structure Printed where
  count : Nat
  ss : List Char
  lastPrice : Price

/-- The body of the loop over the levels of a side. -/
def printLevel (side : Side) (acc : Printed) (itr : Ptr) : Except PrintFault Printed := do
  let (ss, lastPrice) ← s.printer orderId detailed sanityCheck side
    (acc.ss ++ levelLabel side acc.count) acc.lastPrice itr
  .ok { count := acc.count + 1, ss, lastPrice }

/-- The loop over the levels of a side, behind `ss`. -/
def printSide (side : Side) (ss : List Char) (lastPrice : Price) :
    Except PrintFault (List Char) := do
  let printed ← circuit (fun p => (s.level p).nextEntry) (s.best side) .ok .diverges
    (s.printLevel orderId detailed sanityCheck side) s.ordersAtPricePool.size (s.best side)
    { count := 0, ss, lastPrice }
  .ok printed.ss

/-- `toString` of a book. -/
protected def toString (tickerId : TickerId) : Except PrintFault (List Char) := do
  let ss := "Ticker:".toList ++ tickerIdToString tickerId ++ ['\n']
  let ss ← s.printSide orderId detailed sanityCheck .SELL ss (-2 ^ 63)
  let ss := ss ++ "\n                          X\n\n".toList
  s.printSide orderId detailed sanityCheck .BUY ss (2 ^ 63 - 1)

end LevelBook

/-! ## What is shown -/

/-- One item of a circle after the other, each with its number and with its neighbours. -/
def roundText {α : Type} (item : Nat → α → α → α → List Char) (front : List α) :
    List α → List Char
  | [] => []
  | x :: back =>
    item front.length (circlePrev front x back) x (circleNext front x back) ++
      roundText item (front ++ [x]) back

/-- The text of the orders of a level: their ids and quantities. -/
def ordersText (orders : List (OrderId × Qty)) : List Char :=
  roundText (fun _ prev o next => orderFormat o.1 o.2 prev.1 next.1) [] orders

/-- A level with its orders. -/
def levelText (detailed : Bool) (side : Side) (count : Nat)
    (prev l next : Price × List (OrderId × Qty)) : List Char :=
  levelLabel side count ++
    levelFormat l.1 prev.1 next.1 ((l.2.map Prod.snd).sum % 2 ^ 32) l.2.length ++
    (if detailed then ordersText l.2 else []) ++ ['\n']

/-- The text of a side: its levels, the best one first. -/
def sideText (detailed : Bool) (side : Side) (levels : List (Price × List (OrderId × Qty))) :
    List Char :=
  roundText (levelText detailed side) [] levels

/-- The text of a book with these levels. -/
def bookText (detailed : Bool) (tickerId : TickerId)
    (asks bids : List (Price × List (OrderId × Qty))) : List Char :=
  "Ticker:".toList ++ tickerIdToString tickerId ++ ['\n'] ++ sideText detailed .SELL asks ++
    "\n                          X\n\n".toList ++ sideText detailed .BUY bids

/-- The levels of a book as they are shown. -/
def LevelBook.shown {κ σ : Type} (orderId : κ → OrderId) (s : LevelBook κ σ) (side : Side) :
    List (Price × List (OrderId × Qty)) :=
  (s.sideQueues side).map fun level => (level.1, level.2.map fun o => (orderId o.1, o.2.2.2.1))

namespace LevelBook

variable {κ σ : Type} {L : BookLayout κ σ} {W stale : Price → Prop} {exact : Prop}
  {s : LevelBook κ σ} {book : Book κ} {side : BookSide} {l : RestingLevel κ}
  {orderId : κ → OrderId} {detailed sanityCheck : Bool} {ss : List Char}

/-- A resting order and a level as they are shown. -/
def viewOrder (orderId : κ → OrderId) (o : RestingOrder κ) : OrderId × Qty :=
  (orderId o.key, o.qty)

def viewLevel (orderId : κ → OrderId) (l : RestingLevel κ) : Price × List (OrderId × Qty) :=
  (l.price, l.orders.map (viewOrder orderId))

theorem Rep.shown_eq (rep : Rep L W stale exact s book) (side : BookSide) :
    s.shown orderId side.toSide = (book side).map (viewLevel orderId) := by
  rw [shown, rep.sideQueues_eq, List.map_map]
  refine List.map_congr_left fun l _ => ?_
  simp only [Function.comp_apply, viewLevel, List.map_map]
  rfl

/-! ## The orders of a level -/

theorem Rep.length_orders_lt (rep : Rep L W stale exact s book) (mem : l ∈ book side) :
    l.orders.length < s.orderPool.size := by
  have whole := rep.placed.pool.length_lt
  obtain ⟨l₁, l₂, shape⟩ := List.append_of_mem mem
  have count := (Placed.perm [] shape).length_eq
  simp only [List.nil_append, List.length_append, List.length_map] at whole count
  omega

/-- A loop over the orders of a level runs over all of them, and ends. -/
theorem Rep.forOrders_eq {β : Type} (rep : Rep L W stale exact s book) (mem : l ∈ book side)
    (body : β → Ptr → Except PrintFault β) (acc : β) :
    s.forOrders l.ptr body acc = (l.orders.map RestingOrder.ptr).foldlM body acc := by
  have queue := rep.placed.queue l mem
  have few := rep.length_orders_lt mem
  obtain ⟨first, rest, orders⟩ := List.exists_cons_of_ne_nil queue.nonempty
  have ring := queue.ring
  have firstOrder := queue.first
  rw [orders, List.map_cons] at ring firstOrder
  rw [orders, List.length_cons] at few
  rw [forOrders, firstOrder, orders, List.map_cons]
  refine ring.circuit_eq ?_ acc
  rw [List.length_map]
  omega

theorem Rep.countOrders (rep : Rep L W stale exact s book) (mem : l ∈ book side)
    (orderId : κ → OrderId) :
    s.forOrders l.ptr s.countOrder (0, 0) =
      .ok (((viewLevel orderId l).2.map Prod.snd).sum % 2 ^ 32, (viewLevel orderId l).2.length) := by
  have counted : ∀ (orders : List (RestingOrder κ)) (total : Qty × Nat),
      (∀ o ∈ orders, s.OrderAt side l.price o) →
      (orders.map RestingOrder.ptr).foldlM s.countOrder (total.1 % 2 ^ 32, total.2) =
        .ok ((total.1 + ((orders.map (viewOrder orderId)).map Prod.snd).sum) % 2 ^ 32,
          total.2 + orders.length) := by
    intro orders
    induction orders with
    | nil => exact fun total _ => rfl
    | cons o orders ih =>
        intro total content
        have here := (content o List.mem_cons_self).qty
        rw [List.map_cons, List.foldlM_cons, countOrder, here]
        have later := ih (total.1 + o.qty, total.2 + 1)
          fun x xMem => content x (List.mem_cons_of_mem _ xMem)
        simp only [Nat.mod_add_mod, bind, Except.bind] at later ⊢
        rw [later, List.map_cons, List.map_cons, List.sum_cons, List.length_cons, viewOrder,
          Nat.add_assoc, Nat.add_right_comm, Nat.add_assoc]
  have whole := counted l.orders (0, 0) (rep.placed.queue l mem).orders
  rw [rep.forOrders_eq mem]
  simp only [Nat.zero_add] at whole
  rw [viewLevel, List.length_map]
  exact whole

/-- The id of a linked order. -/
theorem Rep.linkedId_eq (rep : Rep L W stale exact s book) (mem : l ∈ book side)
    {o : RestingOrder κ} (oMem : o ∈ l.orders) :
    s.linkedId orderId (some o.ptr) = (viewOrder orderId o).1 := by
  have queue := rep.placed.queue l mem
  rw [linkedId, (queue.orders o oMem).key, viewOrder]

theorem Rep.printOrders (rep : Rep L W stale exact s book) (mem : l ∈ book side)
    (ss : List Char) :
    s.forOrders l.ptr (s.printOrder orderId true) ss =
      .ok (ss ++ ordersText (viewLevel orderId l).2) := by
  have queue := rep.placed.queue l mem
  have ring := queue.ring
  have printed : ∀ (back front : List (RestingOrder κ)) (ss : List Char),
      l.orders = front ++ back →
      (back.map RestingOrder.ptr).foldlM (s.printOrder orderId true) ss =
        .ok (ss ++ roundText (fun _ prev o next => orderFormat o.1 o.2 prev.1 next.1)
          (front.map (viewOrder orderId)) (back.map (viewOrder orderId))) := by
    intro back
    induction back with
    | nil =>
        intro front ss _
        rw [List.map_nil, List.map_nil, roundText, List.append_nil]
        rfl
    | cons o back ih =>
        intro front ss split
        rw [split, List.map_append, List.map_cons] at ring
        have prevOrder : (s.order o.ptr).prevOrder = some (circlePrev front o back).ptr :=
          ring.prev_eq.trans (congrArg some (circlePrev_map RestingOrder.ptr front o back))
        have nextOrder : (s.order o.ptr).nextOrder = some (circleNext front o back).ptr :=
          ring.next_eq.trans (congrArg some (circleNext_map RestingOrder.ptr front o back))
        have content : s.OrderAt side l.price o :=
          queue.orders o (by rw [split]; exact List.mem_append_right _ List.mem_cons_self)
        have prevMem : circlePrev front o back ∈ l.orders := split ▸ circlePrev_mem front o back
        have nextMem : circleNext front o back ∈ l.orders := split ▸ circleNext_mem front o back
        have later := ih (front ++ [o]) (ss ++ orderFormat (orderId o.key) o.qty
          (viewOrder orderId (circlePrev front o back)).1
          (viewOrder orderId (circleNext front o back)).1)
          (by rw [split, List.append_assoc, List.singleton_append])
        rw [List.map_cons, List.foldlM_cons, printOrder, if_pos rfl, prevOrder, nextOrder,
          rep.linkedId_eq mem prevMem, rep.linkedId_eq mem nextMem, content.key, content.qty]
        refine later.trans ?_
        rw [List.map_cons, roundText, circlePrev_map, circleNext_map, List.map_append,
          List.map_singleton, List.append_assoc]
        rfl
  rw [rep.forOrders_eq mem]
  exact printed l.orders [] ss rfl

/-- Without the details the second loop does nothing. -/
theorem Rep.passOrders (rep : Rep L W stale exact s book) (mem : l ∈ book side)
    (ss : List Char) : s.forOrders l.ptr (s.printOrder orderId false) ss = .ok ss := by
  rw [rep.forOrders_eq mem]
  induction l.orders.map RestingOrder.ptr with
  | nil => rfl
  | cons o os ih => exact ih

/-! ## The levels of a side -/

theorem notSorted_of_ahead {lastPrice price : Price} (ahead : side.Ahead lastPrice price) :
    notSorted side.toSide lastPrice price = false := by
  cases side with
  | bid =>
      have lower : ¬ lastPrice ≤ price := not_le_of_gt ahead
      simp [notSorted, BookSide.toSide, lower]
  | ask =>
      have higher : ¬ lastPrice ≥ price := not_le_of_gt ahead
      simp [notSorted, BookSide.toSide, higher]

/-- A level is printed, with the prices of its neighbours. -/
theorem Rep.printer_eq (rep : Rep L W stale exact s book) (orderId : κ → OrderId)
    (detailed sanityCheck : Bool) {front back : List (RestingLevel κ)}
    (split : book side = front ++ l :: back) (ss : List Char) {lastPrice : Price}
    (sorted : side.Ahead lastPrice l.price) :
    s.printer orderId detailed sanityCheck side.toSide (ss ++ levelLabel side.toSide front.length)
        lastPrice l.ptr =
      .ok (ss ++ levelText detailed side.toSide front.length
          (viewLevel orderId (circlePrev front l back)) (viewLevel orderId l)
          (viewLevel orderId (circleNext front l back)),
        if sanityCheck then l.price else lastPrice) := by
  have mem : l ∈ book side := by
    rw [split]
    exact List.mem_append_right _ List.mem_cons_self
  have priced : ∀ m ∈ book side, (s.level m.ptr).price = m.price := fun m mMem =>
    rep.placed.levels.price m.toLevelNode (Placed.node_mem mMem)
  have ring := rep.placed.levels.ring side
  rw [Book.nodes, List.map_map, split, List.map_append, List.map_cons] at ring
  have prevEntry : (s.level l.ptr).prevEntry = some (circlePrev front l back).ptr :=
    ring.prev_eq.trans
      (congrArg some (circlePrev_map (LevelNode.ptr ∘ RestingLevel.toLevelNode) front l back))
  have nextEntry : (s.level l.ptr).nextEntry = some (circleNext front l back).ptr :=
    ring.next_eq.trans
      (congrArg some (circleNext_map (LevelNode.ptr ∘ RestingLevel.toLevelNode) front l back))
  have prevMem : circlePrev front l back ∈ book side := split ▸ circlePrev_mem front l back
  have nextMem : circleNext front l back ∈ book side := split ▸ circleNext_mem front l back
  have orders : ∀ ss, s.forOrders l.ptr (s.printOrder orderId detailed) ss =
      .ok (ss ++ if detailed then ordersText (viewLevel orderId l).2 else []) := by
    intro ss
    cases detailed with
    | true => exact rep.printOrders mem ss
    | false =>
        rw [rep.passOrders mem]
        simp
  rw [printer, rep.countOrders mem orderId, prevEntry, nextEntry]
  simp only [derefShown, bind, Except.bind, orders, priced l mem, priced _ prevMem,
    priced _ nextMem, notSorted_of_ahead sorted]
  rw [levelText]
  cases sanityCheck with
  | true => simp [List.append_assoc, viewLevel]
  | false => simp [List.append_assoc, viewLevel]

/-- A side is printed: its levels in their order. -/
theorem Rep.printSide_eq (rep : Rep L W stale exact s book) (side : BookSide) (ss : List Char)
    {lastPrice : Price} (ends : ∀ l ∈ book side, side.Ahead lastPrice l.price) :
    s.printSide orderId detailed sanityCheck side.toSide ss lastPrice =
      .ok (ss ++ sideText detailed side.toSide (s.shown orderId side.toSide)) := by
  have sorted := rep.placed.levels.sorted side
  rw [Book.nodes, List.pairwise_map] at sorted
  have printed : ∀ (back front : List (RestingLevel κ)) (ss : List Char) (lastPrice : Price),
      book side = front ++ back → (∀ l ∈ back, side.Ahead lastPrice l.price) →
      ∃ lastPrice', (back.map fun l => l.ptr).foldlM
          (s.printLevel orderId detailed sanityCheck side.toSide) ⟨front.length, ss, lastPrice⟩ =
        .ok ⟨front.length + back.length,
          ss ++ roundText (levelText detailed side.toSide) (front.map (viewLevel orderId))
            (back.map (viewLevel orderId)), lastPrice'⟩ := by
    intro back
    induction back with
    | nil =>
        intro front ss lastPrice _ _
        refine ⟨lastPrice, ?_⟩
        rw [List.map_nil, List.map_nil, roundText, List.append_nil]
        rfl
    | cons l back ih =>
        intro front ss lastPrice split ahead
        have here := rep.printer_eq orderId detailed sanityCheck split ss
          (ahead l List.mem_cons_self)
        have follow : ∀ m ∈ back,
            side.Ahead (if sanityCheck then l.price else lastPrice) m.price := by
          intro m mMem
          cases sanityCheck with
          | true =>
              rw [split] at sorted
              exact (List.pairwise_cons.mp (List.pairwise_append.mp sorted).2.1).1 m mMem
          | false => exact ahead m (List.mem_cons_of_mem _ mMem)
        obtain ⟨lastPrice', later⟩ := ih (front ++ [l]) _ _
          (by rw [split, List.append_assoc, List.singleton_append]) follow
        refine ⟨lastPrice', ?_⟩
        rw [List.map_cons, List.foldlM_cons, printLevel]
        simp only [here, bind, Except.bind] at later ⊢
        rw [List.length_append, List.length_singleton] at later
        refine later.trans ?_
        rw [List.map_cons, roundText, circlePrev_map, circleNext_map, List.map_append,
          List.map_singleton, List.append_assoc, List.length_map, List.length_cons,
          Nat.add_assoc, Nat.add_comm 1]
  rw [printSide, rep.shown_eq]
  have head := rep.placed.levels.head side
  have ring := rep.placed.levels.ring side
  have nodes : (book.nodes side).map LevelNode.ptr = (book side).map fun l => l.ptr := by
    rw [Book.nodes, List.map_map]
    rfl
  rw [nodes] at head ring
  obtain ⟨lastPrice', whole⟩ := printed (book side) [] ss lastPrice rfl ends
  have room := rep.placed.level_room
  have size := rep.placed.levels.size
  cases shape : book side with
  | nil =>
      have enough : 0 < s.ordersAtPricePool.size := size ▸ Nat.zero_lt_of_lt room
      rw [shape] at head
      rw [head, List.map_nil, List.head?_nil, circuit_none enough, sideText, List.map_nil,
        roundText, List.append_nil]
      rfl
  | cons l rest =>
      have few : (rest.map fun l => l.ptr).length < s.ordersAtPricePool.size := by
        have count := (perm_both book.nodes side).length_eq
        rw [Book.nodes, Book.nodes, shape] at count
        simp only [List.length_append, List.length_map, List.length_cons] at count ⊢
        change (both book.nodes).length = _ at count
        omega
      rw [shape, List.map_cons] at head ring whole
      rw [head, List.head?_cons, ring.circuit_eq few, List.map_cons]
      simp only [List.length_nil] at whole
      rw [whole]
      rfl

/-- The end of the type that no price of a side is better than. -/
def endPrice : BookSide → Price
  | .bid => 2 ^ 63 - 1
  | .ask => -2 ^ 63

/-- A book prints itself unless a price is an end of its type. -/
theorem Rep.toString_eq (rep : Rep L W stale exact s book)
    (ends : ∀ side, ∀ l ∈ book side, side.Ahead (endPrice side) l.price) (tickerId : TickerId) :
    s.toString orderId detailed sanityCheck tickerId =
      .ok (bookText detailed tickerId (s.shown orderId .SELL) (s.shown orderId .BUY)) := by
  have asks : ∀ ss, s.printSide orderId detailed sanityCheck .SELL ss (-2 ^ 63) =
      .ok (ss ++ sideText detailed .SELL (s.shown orderId .SELL)) :=
    fun ss => rep.printSide_eq .ask ss (ends .ask)
  have bids : ∀ ss, s.printSide orderId detailed sanityCheck .BUY ss (2 ^ 63 - 1) =
      .ok (ss ++ sideText detailed .BUY (s.shown orderId .BUY)) :=
    fun ss => rep.printSide_eq .bid ss (ends .bid)
  rw [LevelBook.toString]
  dsimp only
  rw [asks]
  exact bids _

end LevelBook

end NanoTrade
