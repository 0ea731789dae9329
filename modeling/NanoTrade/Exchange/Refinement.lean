import NanoTrade.Exchange.Matching

/-!
# The order book refines the reference book

`Sim` relates a book of the matching engine to the two lists of a reference book.
`matchLoop_spec`, `rest_spec` and `cancel_spec` carry it through the three things a
request does; `add_spec` puts the first two together.

Nothing here assumes that clients keep to any discipline. Where `exact` holds, every
resting order is found through the id table, which takes a client that does not
reuse the id of a resting order.
-/

namespace NanoTrade

theorem meLayout_admits (basePrice : Price) : meLayout.Admits basePrice (InWindow basePrice) :=
  admits_window rfl rfl basePrice

/-- The book `s` holds the two lists of `orders`. -/
abbrev Sim (basePrice : Price) (exact : Prop) (s : LevelBook MEOrderKey MESlot)
    (orders : BookSide → List MEResting) : Prop :=
  LevelBook.Lists meLayout (InWindow basePrice) basePrice (fun _ => False) exact s orders

namespace Sim

variable {basePrice : Price} {exact : Prop} {s : LevelBook MEOrderKey MESlot}
  {orders : BookSide → List MEResting} {side passive : BookSide} {o : MEResting}
  {rest : List MEResting}

/-- One fill, against the order at the front of a side. -/
theorem matchOrder_spec (sim : Sim basePrice exact s orders) (front : orders passive = o :: rest)
    (a : Aggressor) (leaves : Qty) :
    ∃ best itr, s.best passive.toSide = some best ∧ (s.level best).firstOrder = some itr ∧
      (s.order itr).price = o.price ∧
      if o.qty ≤ leaves then
        ∃ s', MEOrderBook.matchOrder s a itr leaves = .ok (s', leaves - min leaves o.qty,
            RefBook.fill a passive o (min leaves o.qty) (leaves - min leaves o.qty) ++
              [RefBook.filled a.tickerId passive o]) ∧
          Sim basePrice exact s' (Function.update orders passive rest)
      else
        ∃ s', MEOrderBook.matchOrder s a itr leaves = .ok (s', leaves - min leaves o.qty,
            RefBook.fill a passive o (min leaves o.qty) (leaves - min leaves o.qty) ++
              [RefBook.modified a.tickerId passive o (o.qty - min leaves o.qty)]) ∧
          Sim basePrice exact s' (Function.update orders passive
            ({ o with qty := o.qty - min leaves o.qty } :: rest)) := by
  obtain ⟨best, itr, head, first, content, fill⟩ :=
    Matching.matchOrder_spec sim front a leaves
  exact ⟨best, itr, head, first, congrArg (·.2.2.1) content, fill⟩

/-- The loop of this book is the one over its `match`. -/
theorem matchLoop_eq (a : Aggressor) (passive : Side) (stops : Price → Bool) (fuel : Nat)
    (s : LevelBook MEOrderKey MESlot) (leaves : Qty) :
    MEOrderBook.matchLoop a passive stops fuel s leaves =
      Matching.matchLoop id (fun s itr leaves => MEOrderBook.matchOrder s a itr leaves) passive
        stops fuel s leaves := by
  induction fuel generalizing s leaves with
  | zero => rfl
  | succ fuel ih =>
      rw [MEOrderBook.matchLoop, Matching.matchLoop]
      simp only [ih]
      rfl

/-- One fill against the front of a side keeps `R`. -/
def OneFill (R : LevelBook MEOrderKey MESlot → (BookSide → List MEResting) → Prop)
    (a : Aggressor) (passive : BookSide) : Prop :=
  ∀ s orders o rest, R s orders → orders passive = o :: rest → ∀ leaves,
    ∃ best itr, s.best passive.toSide = some best ∧ (s.level best).firstOrder = some itr ∧
      (s.order itr).price = o.price ∧
      if o.qty ≤ leaves then
        ∃ s', MEOrderBook.matchOrder s a itr leaves = .ok (s', leaves - min leaves o.qty,
            RefBook.fill a passive o (min leaves o.qty) (leaves - min leaves o.qty) ++
              [RefBook.filled a.tickerId passive o]) ∧
          R s' (Function.update orders passive rest)
      else
        ∃ s', MEOrderBook.matchOrder s a itr leaves = .ok (s', leaves - min leaves o.qty,
            RefBook.fill a passive o (min leaves o.qty) (leaves - min leaves o.qty) ++
              [RefBook.modified a.tickerId passive o (o.qty - min leaves o.qty)]) ∧
          R s' (Function.update orders passive
            ({ o with qty := o.qty - min leaves o.qty } :: rest))

/-- A whole sweep is the sweep of the reference book, and keeps what one fill keeps. -/
theorem matchLoop_spec {R : LevelBook MEOrderKey MESlot → (BookSide → List MEResting) → Prop}
    (holds : ∀ {s orders}, R s orders → Sim basePrice exact s orders) (a : Aggressor)
    (passive : BookSide) (fills : OneFill R a passive) (stops : Price → Bool)
    (test : ∀ p, stops p = true ↔ ¬ passive.opposite.Crosses a.price p) {xs : List MEResting}
    (leaves : Qty) {fuel : Nat} (start : R s orders) (front : orders passive = xs)
    (bound : xs.length < fuel) :
    ∃ s', MEOrderBook.matchLoop a passive.toSide stops fuel s leaves =
        .ok (s', (RefBook.sweep a passive xs leaves).2.1,
          (RefBook.sweep a passive xs leaves).2.2) ∧
      R s' (Function.update orders passive (RefBook.sweep a passive xs leaves).1) := by
  rw [matchLoop_eq]
  exact Matching.matchLoop_spec (R := R) a passive stops test
    (fun rel empty => (holds rel).best_none empty)
    (fun rel front leaves => fills _ _ _ _ rel front leaves) leaves start front bound

/-- `checkForMatch` is the sweep of the opposite side. -/
theorem checkForMatch_keeps {R : LevelBook MEOrderKey MESlot → (BookSide → List MEResting) → Prop}
    (holds : ∀ {s orders}, R s orders → Sim basePrice exact s orders) {a : Aggressor}
    (fills : OneFill R a side.opposite) (start : R s orders) (clientId : ClientId)
    (clientOrderId : OrderId) (tickerId : TickerId) (price : Price) (qty : Qty)
    (newMarketOrderId : OrderId)
    (aEq : a =
      { tickerId, clientId, side := side.toSide, clientOrderId,
        newMarketOrderId := newMarketOrderId % 2 ^ 32, price }) :
    ∃ s', MEOrderBook.checkForMatch s clientId clientOrderId tickerId side.toSide price qty
        newMarketOrderId =
          .ok (s', (RefBook.sweep a side.opposite (orders side.opposite) qty).2.1,
            (RefBook.sweep a side.opposite (orders side.opposite) qty).2.2) ∧
      R s' (Function.update orders side.opposite
        (RefBook.sweep a side.opposite (orders side.opposite) qty).1) := by
  have bound : (orders side.opposite).length < s.orderPool.size + 1 := by
    have := (holds start).length_lt side
    rw [(holds start).pool_size]
    omega
  cases side with
  | bid =>
      obtain ⟨s', run, rel'⟩ := matchLoop_spec holds a .ask fills
        (fun resting => decide (price < resting))
        (by
          intro p
          subst aEq
          simp [BookSide.opposite, BookSide.Crosses])
        qty start rfl bound
      subst aEq
      exact ⟨s', run, rel'⟩
  | ask =>
      obtain ⟨s', run, rel'⟩ := matchLoop_spec holds a .bid fills
        (fun resting => decide (price > resting))
        (by
          intro p
          subst aEq
          simp [BookSide.opposite, BookSide.Crosses])
        qty start rfl bound
      subst aEq
      exact ⟨s', run, rel'⟩

theorem oneFill (a : Aggressor) (passive : BookSide) : OneFill (Sim basePrice exact) a passive :=
  fun _ _ _ _ sim front leaves => sim.matchOrder_spec front a leaves

/-- The priority of a new order follows that of the last one at its price. -/
theorem getNextPriority_spec (sim : Sim basePrice exact s orders) {price : Price}
    (inside : InWindow basePrice price) (apart : ∀ o ∈ orders side.opposite, o.price ≠ price) :
    s.getNextPriority meLayout price =
      .ok (RefBook.nextPriority .machine (orders side) price) :=
  Matching.getNextPriority_spec sim inside apart

/-- What remains of a NEW goes behind its own price. -/
theorem rest_spec (sim : Sim basePrice exact s orders) {clientId : ClientId}
    {clientOrderId : OrderId} {price : Price} (tickerId : TickerId) (leaves : Qty)
    (newMarketOrderId : OrderId) (inside : InWindow basePrice price) {slot : MESlot}
    (inRange : meSlot clientId clientOrderId = .ok slot)
    (room : (orders side).length + (orders side.opposite).length + 1 < ME_MAX_ORDER_IDS)
    (apart : ∀ o ∈ orders side.opposite, o.price ≠ price)
    (fresh : exact → ∀ side, ∀ o ∈ orders side, ¬ RefBook.Addresses clientId clientOrderId o) :
    ∃ s', MEOrderBook.rest s clientId clientOrderId tickerId side.toSide price leaves
        newMarketOrderId =
          .ok (s', [MEOrderBook.addUpdate tickerId side.toSide price leaves
            (RefBook.nextPriority .machine (orders side) price) newMarketOrderId]) ∧
      Sim basePrice exact s' (Function.update orders side
        ((orders side).orderedInsert (Resting.Ahead side)
          { key := { tickerId, clientId, clientOrderId, marketOrderId := newMarketOrderId },
            price, qty := leaves,
            priority := RefBook.nextPriority .machine (orders side) price })) :=
  Matching.rest_spec sim tickerId leaves newMarketOrderId inside
    (fun isSlot => (meSlot_eq_ok.mp isSlot).2.2) inRange room apart fresh

/-- Where the pool is exhausted, the process stops. -/
theorem rest_full (sim : Sim basePrice exact s orders) (clientId : ClientId)
    (clientOrderId : OrderId) (tickerId : TickerId) {price : Price} (leaves : Qty)
    (newMarketOrderId : OrderId) (inside : InWindow basePrice price)
    (apart : ∀ o ∈ orders side.opposite, o.price ≠ price)
    (full : ¬ (orders side).length + (orders side.opposite).length + 1 < ME_MAX_ORDER_IDS) :
    MEOrderBook.rest s clientId clientOrderId tickerId side.toSide price leaves
      newMarketOrderId = .error .outOfSpace := by
  have priority := getNextPriority_spec sim inside apart
  have noBlock := sim.allocate_full full
  simp only [MEOrderBook.rest, priority, noBlock, bind, Except.bind]

/-- Ids without a place in the table stop the process behind the matching. -/
theorem rest_unslotted (sim : Sim basePrice exact s orders) {clientId : ClientId}
    {clientOrderId : OrderId} (tickerId : TickerId) {price : Price} (leaves : Qty)
    (newMarketOrderId : OrderId) (inside : InWindow basePrice price)
    (apart : ∀ o ∈ orders side.opposite, o.price ≠ price)
    (room : (orders side).length + (orders side.opposite).length + 1 < ME_MAX_ORDER_IDS)
    (outside : ¬ (clientId < ME_MAX_NUM_CLIENTS ∧ clientOrderId < ME_MAX_ORDER_IDS)) :
    ∃ i, MEOrderBook.rest s clientId clientOrderId tickerId side.toSide price leaves
      newMarketOrderId = .error (.outOfRange i) := by
  have priority := getNextPriority_spec sim inside apart
  obtain ⟨i, unslotted⟩ := meSlot_eq_error outside
  obtain ⟨ptr, pool, allocated, stopped⟩ := sim.addOrder_fault
    (o :=
      { key := MEOrderKey.mk tickerId clientId clientOrderId newMarketOrderId,
        price, qty := leaves, priority := RefBook.nextPriority .machine (orders side) price })
    room inside id apart unslotted
  refine ⟨i, ?_⟩
  simp only [MEOrderBook.rest, priority, allocated, stopped, bind, Except.bind]

/-- Where the book cannot take what remains of a NEW, the process stops. -/
theorem rest_fault (sim : Sim basePrice exact s orders) {clientId : ClientId}
    {clientOrderId : OrderId} {price : Price} (tickerId : TickerId) (leaves : Qty)
    (newMarketOrderId : OrderId) (apart : ∀ o ∈ orders side.opposite, o.price ≠ price)
    (refused : ¬ (InWindow basePrice price ∧ clientId < ME_MAX_NUM_CLIENTS ∧
      clientOrderId < ME_MAX_ORDER_IDS ∧
      (orders side).length + (orders side.opposite).length + 1 < ME_MAX_ORDER_IDS)) :
    ∃ f, MEOrderBook.rest s clientId clientOrderId tickerId side.toSide price leaves
      newMarketOrderId = .error f ∧ f.Refuses := by
  by_cases inside : InWindow basePrice price
  · by_cases room : (orders side).length + (orders side.opposite).length + 1 < ME_MAX_ORDER_IDS
    · obtain ⟨i, stopped⟩ := sim.rest_unslotted tickerId leaves newMarketOrderId inside apart room
        fun inRange : clientId < ME_MAX_NUM_CLIENTS ∧ clientOrderId < ME_MAX_ORDER_IDS =>
          refused ⟨inside, inRange.1, inRange.2, room⟩
      exact ⟨_, stopped, .outOfRange i⟩
    · exact ⟨_, sim.rest_full clientId clientOrderId tickerId leaves newMarketOrderId inside apart
        room, .outOfSpace⟩
  · have outside : priceInWindow s.basePrice price = false := by
      rw [sim.1, ← Bool.not_eq_true]
      exact inside
    refine ⟨_, ?_, .outsideWindow price⟩
    rw [MEOrderBook.rest, LevelBook.getNextPriority, LevelBook.getOrdersAtPrice_of_outside outside]
    rfl

end Sim

/-! ## Whole requests -/

/-- The book `s` of the matching engine refines the reference book `ref`. -/
structure Refines (basePrice : Price) (exact : Prop) (s : MEOrderBook) (ref : RefBook) :
    Prop where
  sim : Sim basePrice exact s.toLevelBook ref.orders
  next : s.nextMarketOrderId = ref.nextMarketOrderId
  sound : RefBook.Sound ref.orders

/-- The book can take what remains of a NEW. -/
structure Takes (basePrice : Price) (ref : RefBook) (side : BookSide) (r : MEClientRequest) :
    Prop where
  inside : InWindow basePrice r.price
  client : r.clientId < ME_MAX_NUM_CLIENTS
  order : r.orderId < ME_MAX_ORDER_IDS
  room : (ref.orders side).length + (RefBook.matched .machine ref side r).1.length + 1 <
    ME_MAX_ORDER_IDS

/-- No resting order has the ids of the request. -/
def Fresh (ref : RefBook) (r : MEClientRequest) : Prop :=
  ∀ side, ∀ o ∈ ref.orders side, ¬ RefBook.Addresses r.clientId r.orderId o

/-- Ids that are free before a sweep are free behind it. -/
theorem Fresh.swept {w : Width} {ref : RefBook} {side : BookSide} {r : MEClientRequest}
    (fresh : Fresh ref r) : ∀ side', ∀ o ∈ RefBook.swept w ref side r side',
      ¬ RefBook.Addresses r.clientId r.orderId o := by
  intro side' o mem addresses
  rcases eq_or_ne side' side.opposite with rfl | ne
  · rw [RefBook.swept_opposite] at mem
    obtain ⟨x, xMem, tag⟩ := RefBook.sweep_mem _ _ mem
    refine fresh _ x xMem ?_
    have key : x.key = o.key := congrArg (·.1) tag
    rw [RefBook.Addresses, key]
    exact addresses
  · rw [RefBook.swept, Function.update_of_ne ne] at mem
    exact fresh _ o mem addresses

namespace Refines

variable {basePrice : Price} {exact : Prop} {s : MEOrderBook} {ref : RefBook} {side : BookSide}
  {r : MEClientRequest}

theorem new (basePrice : Price) (exact : Prop) :
    Refines basePrice exact (MEOrderBook.new basePrice) RefBook.new :=
  ⟨LevelBook.Lists.new _ (meLayout_admits _) fun _ => id, rfl, RefBook.Sound.new⟩

/-- What is left of the other side is not at the price of what remains. -/
theorem apart (refines : Refines basePrice exact s ref)
    (left : (RefBook.matched .machine ref side r).2.1 ≠ 0) :
    ∀ o ∈ RefBook.swept .machine ref side r side.opposite, o.price ≠ r.price := by
  intro o mem same
  rw [RefBook.swept_opposite] at mem
  have stops := refines.sound.not_crosses left o mem
  rw [same] at stops
  cases side <;> simp [BookSide.Crosses] at stops

theorem checkForMatch (refines : Refines basePrice exact s ref) (side : BookSide)
    (r : MEClientRequest) :
    ∃ t, MEOrderBook.checkForMatch s.toLevelBook r.clientId r.orderId r.tickerId side.toSide
        r.price r.qty ref.nextMarketOrderId =
          .ok (t, (RefBook.matched .machine ref side r).2.1,
            (RefBook.matched .machine ref side r).2.2) ∧
      Sim basePrice exact t (RefBook.swept .machine ref side r) :=
  Sim.checkForMatch_keeps id (Sim.oneFill _ side.opposite) refines.sim r.clientId r.orderId
    r.tickerId r.price r.qty ref.nextMarketOrderId rfl

/-- A NEW that the book can take, its ids being free when the remainder enters. -/
theorem add_kept (refines : Refines basePrice exact s ref) (rSide : r.side = side.toSide)
    (takes : (RefBook.matched .machine ref side r).2.1 ≠ 0 → Takes basePrice ref side r)
    (free : exact → (RefBook.matched .machine ref side r).2.1 ≠ 0 →
      ∀ side', ∀ o ∈ RefBook.swept .machine ref side r side',
        ¬ RefBook.Addresses r.clientId r.orderId o) :
    ∃ s', s.add r.clientId r.orderId r.tickerId r.side r.price r.qty =
        .ok (s', (RefBook.add .machine ref side r).2) ∧
      Refines basePrice exact s' (RefBook.add .machine ref side r).1 := by
  obtain ⟨t, run, simT⟩ := refines.checkForMatch side r
  have sound : RefBook.Sound (RefBook.add .machine ref side r).1.orders := refines.sound.add
  rw [rSide]
  by_cases filled : (RefBook.matched .machine ref side r).2.1 = 0
  · refine ⟨⟨t, (ref.nextMarketOrderId + 1) % 2 ^ 64⟩, ?_, ⟨?_, ?_, sound⟩⟩
    · simp only [MEOrderBook.add, run, filled, refines.next, RefBook.add, bind, Except.bind, pure,
        Except.pure, if_true]
    · rw [RefBook.add_filled filled]
      exact simT
    · simp only [RefBook.add, filled, if_true]
      rfl
  · have taken := takes filled
    obtain ⟨u, rested, simU⟩ := Sim.rest_spec simT r.tickerId
      (RefBook.matched .machine ref side r).2.1 ref.nextMarketOrderId taken.inside
      (meSlot_eq_ok.mpr ⟨taken.client, taken.order, rfl⟩)
      (by
        rw [RefBook.swept_own, RefBook.swept_opposite]
        exact taken.room)
      (refines.apart filled) (fun isExact => free isExact filled)
    rw [RefBook.swept_own] at rested simU
    refine ⟨⟨u, (ref.nextMarketOrderId + 1) % 2 ^ 64⟩, ?_, ⟨?_, ?_, sound⟩⟩
    · simp only [MEOrderBook.add, run, filled, refines.next, rested, RefBook.add, bind,
        Except.bind, pure, Except.pure, if_false]
      rfl
    · rw [RefBook.add_left filled]
      exact simU
    · simp only [RefBook.add, filled, if_false]
      rfl

/-- A NEW that the book can take, with the ids of no resting order. -/
theorem add_spec (refines : Refines basePrice exact s ref) (rSide : r.side = side.toSide)
    (takes : (RefBook.matched .machine ref side r).2.1 ≠ 0 → Takes basePrice ref side r)
    (fresh : exact → Fresh ref r) :
    ∃ s', s.add r.clientId r.orderId r.tickerId r.side r.price r.qty =
        .ok (s', (RefBook.add .machine ref side r).2) ∧
      Refines basePrice exact s' (RefBook.add .machine ref side r).1 :=
  refines.add_kept rSide takes fun isExact _ => (fresh isExact).swept

/-- A NEW whose remainder the book cannot take stops the process. -/
theorem add_fault (refines : Refines basePrice exact s ref) (rSide : r.side = side.toSide)
    (left : (RefBook.matched .machine ref side r).2.1 ≠ 0)
    (refused : ¬ Takes basePrice ref side r) :
    ∃ f, s.add r.clientId r.orderId r.tickerId r.side r.price r.qty = .error f ∧ f.Refuses := by
  obtain ⟨t, run, simT⟩ := refines.checkForMatch side r
  obtain ⟨f, stopped, refuses⟩ := Sim.rest_fault simT r.tickerId
    (RefBook.matched .machine ref side r).2.1 ref.nextMarketOrderId (refines.apart left)
    (by
      rw [RefBook.swept_own, RefBook.swept_opposite]
      exact fun h => refused ⟨h.1, h.2.1, h.2.2.1, h.2.2.2⟩)
  refine ⟨f, ?_, refuses⟩
  rw [rSide]
  simp only [MEOrderBook.add, refines.next, run, left, stopped, bind, Except.bind, if_false]

/-- A NEW whose ids have no place in the table stops the process once it comes to rest. -/
theorem add_unslotted (refines : Refines basePrice exact s ref) (rSide : r.side = side.toSide)
    (left : (RefBook.matched .machine ref side r).2.1 ≠ 0) (inside : InWindow basePrice r.price)
    (room : (ref.orders side).length + (RefBook.matched .machine ref side r).1.length + 1 <
      ME_MAX_ORDER_IDS)
    (outside : ¬ (r.clientId < ME_MAX_NUM_CLIENTS ∧ r.orderId < ME_MAX_ORDER_IDS)) :
    ∃ i, s.add r.clientId r.orderId r.tickerId r.side r.price r.qty = .error (.outOfRange i) := by
  obtain ⟨t, run, simT⟩ := refines.checkForMatch side r
  obtain ⟨i, stopped⟩ := Sim.rest_unslotted simT r.tickerId
    (RefBook.matched .machine ref side r).2.1 ref.nextMarketOrderId inside (refines.apart left)
    (by
      rw [RefBook.swept_own, RefBook.swept_opposite]
      exact room) outside
  refine ⟨i, ?_⟩
  rw [rSide]
  simp only [MEOrderBook.add, refines.next, run, left, stopped, bind, Except.bind, if_false]

/-- A NEW that returned was taken. -/
theorem takes_of_ok {s' : MEOrderBook} {out : List MEMessage}
    (refines : Refines basePrice False s ref) (rSide : r.side = side.toSide)
    (ran : s.add r.clientId r.orderId r.tickerId r.side r.price r.qty = .ok (s', out)) :
    (RefBook.matched .machine ref side r).2.1 ≠ 0 → Takes basePrice ref side r := by
  intro left
  by_contra refused
  obtain ⟨f, fault, -⟩ := refines.add_fault rSide left refused
  cases ran.symm.trans fault

/-- A NEW that returned is the NEW of the reference book. -/
theorem add_ran {s' : MEOrderBook} {out : List MEMessage}
    (refines : Refines basePrice False s ref) (rSide : r.side = side.toSide)
    (ran : s.add r.clientId r.orderId r.tickerId r.side r.price r.qty = .ok (s', out)) :
    ((RefBook.matched .machine ref side r).2.1 ≠ 0 → Takes basePrice ref side r) ∧
      out = (RefBook.add .machine ref side r).2 ∧
      Refines basePrice False s' (RefBook.add .machine ref side r).1 := by
  have takes := refines.takes_of_ok rSide ran
  obtain ⟨t, added, refines'⟩ := refines.add_spec rSide takes False.elim
  cases added.symm.trans ran
  exact ⟨takes, rfl, refines'⟩

/-- A CANCEL: an order id outside the table stops the process, an unknown id is
rejected, and otherwise one resting order with the ids of the request is taken out. -/
theorem cancel_spec (refines : Refines basePrice exact s ref) (r : MEClientRequest) :
    (r.clientId < ME_MAX_NUM_CLIENTS ∧ ME_MAX_ORDER_IDS ≤ r.orderId ∧
      s.cancel r.clientId r.orderId r.tickerId = .error (.outOfRange r.orderId)) ∨
    ((exact → Fresh ref r) ∧ s.cancel r.clientId r.orderId r.tickerId =
      .ok (s, [MEOrderBook.rejectedResponse r.clientId r.orderId r.tickerId])) ∨
    ∃ side o xs ys s', ref.orders side = xs ++ o :: ys ∧
      RefBook.Addresses r.clientId r.orderId o ∧
      s.cancel r.clientId r.orderId r.tickerId = .ok (s', RefBook.canceled r side o) ∧
      Refines basePrice exact s'
        { ref with orders := Function.update ref.orders side (xs ++ ys) } := by
  obtain ⟨base, book, rep, views⟩ := refines.sim
  -- Through an exact table an unknown id is the id of no resting order.
  have unknown : (∀ slot, meSlot r.clientId r.orderId = .ok slot → s.oidToOrder slot = none) →
      exact → Fresh ref r := by
    intro noEntry isExact side o mem addresses
    rw [← views] at mem
    obtain ⟨⟨p, x⟩, xMem, rfl⟩ := List.mem_map.mp mem
    have resting : x ∈ book.orders := Book.mem_orders_flat.mpr ⟨side, p, xMem⟩
    obtain ⟨slot, xSlot⟩ := rep.ids.slotted x resting
    have entry := rep.ids.complete isExact x resting xSlot
    have own : meSlot r.clientId r.orderId = .ok slot := by
      rw [← addresses.1, ← addresses.2]
      exact xSlot
    rw [noEntry slot own] at entry
    cases entry
  by_cases client : r.clientId < ME_MAX_NUM_CLIENTS
  · by_cases order : r.orderId < ME_MAX_ORDER_IDS
    · have slotOk : meSlot r.clientId r.orderId = .ok (r.clientId, r.orderId) :=
        meSlot_eq_ok.mpr ⟨client, order, rfl⟩
      refine .inr ?_
      cases entry : s.oidToOrder (r.clientId, r.orderId) with
      | none =>
          refine .inl ⟨unknown fun slot isSlot => ?_, ?_⟩
          · rw [slotOk, Except.ok.injEq] at isSlot
            rw [← isSlot, entry]
          · simp only [MEOrderBook.cancel, client, slotOk, entry, bind, Except.bind, pure,
              Except.pure, if_true]
      | some ptr =>
          obtain ⟨x, mem, rfl, xSlot⟩ := rep.ids.sound entry
          obtain ⟨side, o, xs, ys, t, shape, key, content, removed, simT⟩ :=
            LevelBook.Lists.removeOrder_spec base rep views mem
          have addresses : RefBook.Addresses r.clientId r.orderId o := by
            obtain ⟨-, -, e⟩ := meSlot_eq_ok.mp xSlot
            rw [Prod.mk.injEq] at e
            rw [RefBook.Addresses, key]
            exact ⟨e.1.symm, e.2.symm⟩
          refine .inr ⟨side, o, xs, ys, ⟨t, s.nextMarketOrderId⟩, shape, addresses, ?_,
            ⟨simT, refines.next, refines.sound.withdraw shape⟩⟩
          have keyRead : (s.order x.ptr).key = o.key := congrArg (·.1) content
          have sideRead : (s.order x.ptr).side = side.toSide := congrArg (·.2.1) content
          have priceRead : (s.order x.ptr).price = o.price := congrArg (·.2.2.1) content
          have qtyRead : (s.order x.ptr).qty = o.qty := congrArg (·.2.2.2.1) content
          have priorityRead : (s.order x.ptr).priority = o.priority := congrArg (·.2.2.2.2) content
          simp only [MEOrderBook.cancel, client, slotOk, entry, bind, Except.bind, pure,
            Except.pure, if_true, removed, MEOrderBook.canceledMessages, keyRead, sideRead,
            priceRead, qtyRead, priorityRead, RefBook.canceled]
    · refine .inl ⟨client, Nat.not_lt.mp order, ?_⟩
      simp only [MEOrderBook.cancel, client, meSlot, Nat.not_le.mpr client, Nat.not_lt.mp order,
        bind, Except.bind, if_true, if_false]
  · refine .inr (.inl ⟨unknown fun slot isSlot => ?_, ?_⟩)
    · exact (client (meSlot_eq_ok.mp isSlot).1).elim
    · simp only [MEOrderBook.cancel, client, bind, Except.bind, pure, Except.pure, if_false]

end Refines

end NanoTrade
