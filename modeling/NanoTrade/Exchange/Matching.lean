import NanoTrade.Exchange.Reference

/-!
# Matching over any layout

The two order books of the exchange match alike and differ in their containers. Here are
the parts of `match`, its loop and `add` that a layout decides, with what they do to the two
lists of a book: `matchOrder_spec` is one fill, `matchLoop_spec` a whole sweep of any book
whose fills are such, `rest_spec` what remains of a NEW.
-/

namespace NanoTrade

namespace Matching

/-! ## The functions -/

section Functions

variable (L : BookLayout MEOrderKey MESlot) (s : LevelBook MEOrderKey MESlot)

/-- `match`: fill the new order against the passive one at `itr`. -/
def matchOrder (a : Aggressor) (itr : Ptr) (leavesQty : Qty) :
    Except Fault (LevelBook MEOrderKey MESlot × Qty × List MEMessage) := do
  let orderQty := (s.order itr).qty
  let fillQty := min leavesQty orderQty
  let leavesQty := leavesQty - fillQty
  let s := s.writeOrder itr fun n => { n with qty := n.qty - fillQty }
  let order := s.order itr
  let fill := MEOrderBook.fillMessages a order.key order.side order.price fillQty leavesQty order.qty
  if order.qty = 0 then
    let s ← s.removeOrder L itr
    pure (s, leavesQty, fill ++ [MEOrderBook.filledUpdate a.tickerId order orderQty])
  else pure (s, leavesQty, fill ++ [MEOrderBook.modifyUpdate a.tickerId order])

/-- The part of `add` behind the match: what remains of the order is put into the book. -/
def rest (clientId : ClientId) (clientOrderId : OrderId) (tickerId : TickerId) (side : Side)
    (price : Price) (leavesQty : Qty) (newMarketOrderId : OrderId) :
    Except Fault (LevelBook MEOrderKey MESlot × List MEMessage) := do
  let priority ← s.getNextPriority L price
  let (order, pool) ← s.orderPool.allocate
    { key := { tickerId, clientId, clientOrderId, marketOrderId := newMarketOrderId }
      side, price, qty := leavesQty, priority, prevOrder := none, nextOrder := none }
  let s ← LevelBook.addOrder L { s with orderPool := pool } order
  pure (s, [MEOrderBook.addUpdate tickerId side price leavesQty priority newMarketOrderId])

/-- The `while (leaves_qty && best)` loop of `checkForMatch`, over a book of type `β` with
its own `match`. -/
def matchLoop {β : Type} (book : β → LevelBook MEOrderKey MESlot)
    (fill : β → Ptr → Qty → Except Fault (β × Qty × List MEMessage)) (passive : Side)
    (stops : Price → Bool) : Nat → β → Qty → Except Fault (β × Qty × List MEMessage)
  | 0, _, _ => .error .diverges
  | fuel + 1, s, leavesQty =>
    if leavesQty = 0 then .ok (s, leavesQty, [])
    else match (book s).best passive with
      | none => .ok (s, leavesQty, [])
      | some best => do
        let itr ← deref ((book s).level best).firstOrder
        if stops ((book s).order itr).price then pure (s, leavesQty, [])
        else
          let (s, leavesQty, messages) ← fill s itr leavesQty
          let (s, leavesQty, rest) ← matchLoop book fill passive stops fuel s leavesQty
          pure (s, leavesQty, messages ++ rest)

end Functions

/-! ## What they do to the lists -/

/-- The book `s` with the layout `L` holds the two lists of `orders`. -/
abbrev Holds (L : BookLayout MEOrderKey MESlot) (basePrice : Price) (exact : Prop)
    (s : LevelBook MEOrderKey MESlot) (orders : BookSide → List MEResting) : Prop :=
  LevelBook.Lists L (InWindow basePrice) basePrice (fun _ => False) exact s orders

variable {L : BookLayout MEOrderKey MESlot} {basePrice : Price} {exact : Prop}
  {s : LevelBook MEOrderKey MESlot} {orders : BookSide → List MEResting}
  {side passive : BookSide} {o : MEResting} {rest : List MEResting}

/-- One fill, against the order at the front of a side, with what it does to the id table. -/
theorem matchOrder_table (sim : Holds L basePrice exact s orders)
    (front : orders passive = o :: rest) (a : Aggressor) (leaves : Qty) :
    ∃ best itr, s.best passive.toSide = some best ∧ (s.level best).firstOrder = some itr ∧
      (s.order itr).content = o.content passive ∧
      if o.qty ≤ leaves then
        ∃ s', matchOrder L s a itr leaves = .ok (s', leaves - min leaves o.qty,
            RefBook.fill a passive o (min leaves o.qty) (leaves - min leaves o.qty) ++
              [RefBook.filled a.tickerId passive o]) ∧
          Holds L basePrice exact s' (Function.update orders passive rest) ∧
          ∃ slot, L.slot o.key = .ok slot ∧
            s'.oidToOrder = Function.update s.oidToOrder slot none
      else
        ∃ s', matchOrder L s a itr leaves = .ok (s', leaves - min leaves o.qty,
            RefBook.fill a passive o (min leaves o.qty) (leaves - min leaves o.qty) ++
              [RefBook.modified a.tickerId passive o (o.qty - min leaves o.qty)]) ∧
          Holds L basePrice exact s' (Function.update orders passive
            ({ o with qty := o.qty - min leaves o.qty } :: rest)) ∧
          s'.oidToOrder = s.oidToOrder := by
  obtain ⟨base, book, rep, views⟩ := sim
  obtain ⟨⟨p, x⟩, flatRest, flatShape, viewX, viewRest⟩ :=
    List.map_eq_cons_iff.mp ((views passive).trans front)
  obtain ⟨l, l₂, o₂, levels, queueShape, price, rfl⟩ := Book.front rep.filled flatShape
  have mem : l ∈ book passive := by
    rw [levels]
    exact List.mem_cons_self
  have queue := rep.placed.queue l mem
  have content := queue.orders x (by rw [queueShape]; exact List.mem_cons_self)
  subst viewX
  have head := rep.placed.levels.head passive
  rw [Book.nodes, levels] at head
  have firstOrder := queue.first
  rw [queueShape] at firstOrder
  have viewed : (s.order x.ptr).content = (Resting.view (p, x)).content passive := by
    rw [Resting.content, Resting.view, ← price]
    exact content
  refine ⟨l.ptr, x.ptr, head, firstOrder, viewed, ?_⟩
  -- The state after the quantity of the passive order has been reduced.
  obtain ⟨qty, qtyEq⟩ : ∃ qty, qty = x.qty - min leaves x.qty := ⟨_, rfl⟩
  have repT := rep.setQty_spec (show book passive = [] ++ l :: l₂ from levels)
    (show l.orders = [] ++ x :: o₂ from queueShape) qty
  have write : (s.writeOrder x.ptr fun n => { n with qty := n.qty - min leaves x.qty }) =
      s.writeOrder x.ptr fun n => { n with qty := qty } := by
    have same : (s.order x.ptr).qty = x.qty := content.qty
    have read : (s.orderPool.store x.ptr).object.qty = x.qty := same
    simp only [LevelBook.writeOrder, MemPool.modify, read, ← qtyEq]
  have orderT : ((s.writeOrder x.ptr fun n => { n with qty := qty }).order x.ptr).content =
      (x.key, passive.toSide, p, qty, x.priority) := by
    simp [Order.content, content.key, content.side, content.price, price, content.priority]
  have keyT : ((s.writeOrder x.ptr fun n => { n with qty := qty }).order x.ptr).key = x.key :=
    congrArg (·.1) orderT
  have sideT : ((s.writeOrder x.ptr fun n => { n with qty := qty }).order x.ptr).side =
      passive.toSide := congrArg (·.2.1) orderT
  have priceT : ((s.writeOrder x.ptr fun n => { n with qty := qty }).order x.ptr).price = p :=
    congrArg (·.2.2.1) orderT
  have qtyT : ((s.writeOrder x.ptr fun n => { n with qty := qty }).order x.ptr).qty = qty :=
    congrArg (·.2.2.2.1) orderT
  have priorityT : ((s.writeOrder x.ptr fun n => { n with qty := qty }).order x.ptr).priority =
      x.priority := congrArg (·.2.2.2.2) orderT
  have run : matchOrder L s a x.ptr leaves =
      (if qty = 0 then do
        let s' ← (s.writeOrder x.ptr fun n => { n with qty := qty }).removeOrder L x.ptr
        pure (s', leaves - min leaves x.qty,
          RefBook.fill a passive (Resting.view (p, x)) (min leaves x.qty)
            (leaves - min leaves x.qty) ++
              [RefBook.filled a.tickerId passive (Resting.view (p, x))])
      else pure (s.writeOrder x.ptr fun n => { n with qty := qty }, leaves - min leaves x.qty,
          RefBook.fill a passive (Resting.view (p, x)) (min leaves x.qty)
            (leaves - min leaves x.qty) ++
              [RefBook.modified a.tickerId passive (Resting.view (p, x)) qty])) := by
    have same : (s.order x.ptr).qty = x.qty := content.qty
    simp only [matchOrder, same, write, MEOrderBook.filledUpdate,
      MEOrderBook.modifyUpdate, keyT, sideT, priceT, qtyT, priorityT, RefBook.fill,
      RefBook.filled, RefBook.modified, Resting.view, ← qtyEq]
  have viewQty : (Resting.view (p, x)).qty = x.qty := rfl
  rw [run, viewQty]
  by_cases full : x.qty ≤ leaves
  · rw [if_pos full]
    have zero : qty = 0 := by
      rw [qtyEq]
      lia
    obtain ⟨slot, xSlot⟩ := repT.ids.slotted { x with qty := qty } (by
      refine Book.mem_orders.mpr ⟨passive, { l with orders := { x with qty := qty } :: o₂ }, ?_, ?_⟩
      · rw [Function.update_self]
        exact List.mem_cons_self
      · exact List.mem_cons_self)
    obtain ⟨s', removed, rep', table, base'⟩ := repT.removeOrder_spec
      (show Function.update book passive _ passive =
        [] ++ { l with orders := { x with qty := qty } :: o₂ } :: l₂ from
          Function.update_self _ _ _)
      (show _ = [] ++ { x with qty := qty } :: o₂ from rfl) xSlot
    refine ⟨s', ?_, ⟨base'.trans base, _, rep', ?_⟩, slot, xSlot, table⟩
    · rw [if_pos zero, removed]
      rfl
    · rw [Function.update_idem]
      refine LevelBook.Lists.update_view views ?_
      have flat' := Book.flat_requeue book passive [] l [] o₂ l₂
      rw [← viewRest]
      exact congrArg (List.map Resting.view) flat'
  · rw [if_neg full]
    have notZero : qty ≠ 0 := by
      rw [qtyEq]
      lia
    refine ⟨s.writeOrder x.ptr fun n => { n with qty := qty }, ?_, ⟨base, _, repT, ?_⟩, rfl⟩
    · rw [if_neg notZero, ← qtyEq]
      rfl
    · rw [← qtyEq]
      refine LevelBook.Lists.update_view views ?_
      have flat' := Book.flat_replace book passive [] l [] { x with qty := qty } o₂ l₂
      rw [← viewRest, ← price]
      exact congrArg (List.map Resting.view) flat'

/-- One fill, against the order at the front of a side. -/
theorem matchOrder_spec (sim : Holds L basePrice exact s orders)
    (front : orders passive = o :: rest)
    (a : Aggressor) (leaves : Qty) :
    ∃ best itr, s.best passive.toSide = some best ∧ (s.level best).firstOrder = some itr ∧
      (s.order itr).content = o.content passive ∧
      if o.qty ≤ leaves then
        ∃ s', matchOrder L s a itr leaves = .ok (s', leaves - min leaves o.qty,
            RefBook.fill a passive o (min leaves o.qty) (leaves - min leaves o.qty) ++
              [RefBook.filled a.tickerId passive o]) ∧
          Holds L basePrice exact s' (Function.update orders passive rest)
      else
        ∃ s', matchOrder L s a itr leaves = .ok (s', leaves - min leaves o.qty,
            RefBook.fill a passive o (min leaves o.qty) (leaves - min leaves o.qty) ++
              [RefBook.modified a.tickerId passive o (o.qty - min leaves o.qty)]) ∧
          Holds L basePrice exact s' (Function.update orders passive
            ({ o with qty := o.qty - min leaves o.qty } :: rest)) := by
  obtain ⟨best, itr, head, first, content, fill⟩ := matchOrder_table sim front a leaves
  refine ⟨best, itr, head, first, content, ?_⟩
  split
  · rename_i full
    rw [if_pos full] at fill
    obtain ⟨s', run, sim', -⟩ := fill
    exact ⟨s', run, sim'⟩
  · rename_i part
    rw [if_neg part] at fill
    obtain ⟨s', run, sim', -⟩ := fill
    exact ⟨s', run, sim'⟩

/-- A whole sweep is the sweep of the reference book, for every book that is related to
the lists so that one fill is. The induction is on the orders that are left on the passive
side. -/
theorem matchLoop_spec {β : Type} {book : β → LevelBook MEOrderKey MESlot}
    {fill : β → Ptr → Qty → Except Fault (β × Qty × List MEMessage)}
    {R : β → (BookSide → List MEResting) → Prop} (a : Aggressor) (passive : BookSide)
    (stops : Price → Bool)
    (test : ∀ p, stops p = true ↔ ¬ passive.opposite.Crosses a.price p)
    (empty : ∀ {s orders}, R s orders → orders passive = [] →
      (book s).best passive.toSide = none)
    (fills : ∀ {s orders o rest}, R s orders → orders passive = o :: rest → ∀ leaves,
      ∃ best itr, (book s).best passive.toSide = some best ∧
        ((book s).level best).firstOrder = some itr ∧ ((book s).order itr).price = o.price ∧
        if o.qty ≤ leaves then
          ∃ s', fill s itr leaves = .ok (s', leaves - min leaves o.qty,
              RefBook.fill a passive o (min leaves o.qty) (leaves - min leaves o.qty) ++
                [RefBook.filled a.tickerId passive o]) ∧
            R s' (Function.update orders passive rest)
        else
          ∃ s', fill s itr leaves = .ok (s', leaves - min leaves o.qty,
              RefBook.fill a passive o (min leaves o.qty) (leaves - min leaves o.qty) ++
                [RefBook.modified a.tickerId passive o (o.qty - min leaves o.qty)]) ∧
            R s' (Function.update orders passive
              ({ o with qty := o.qty - min leaves o.qty } :: rest))) :
    ∀ {xs : List MEResting} (leaves : Qty) {fuel : Nat} {s : β}
      {orders : BookSide → List MEResting}, R s orders → orders passive = xs →
      xs.length < fuel →
      ∃ s', matchLoop book fill passive.toSide stops fuel s leaves =
          .ok (s', (RefBook.sweep a passive xs leaves).2.1,
            (RefBook.sweep a passive xs leaves).2.2) ∧
        R s' (Function.update orders passive (RefBook.sweep a passive xs leaves).1) := by
  intro xs
  induction xs with
  | nil =>
      intro leaves fuel s orders sim noOrder bound
      obtain ⟨fuel, rfl⟩ : ∃ k, fuel = k + 1 := ⟨fuel - 1, by omega⟩
      refine ⟨s, ?_, ?_⟩
      · by_cases zero : leaves = 0
        · simp [matchLoop, RefBook.sweep, zero]
        · simp [matchLoop, RefBook.sweep, zero, empty sim noOrder]
      · rw [RefBook.sweep, ← noOrder, Function.update_eq_self]
        exact sim
  | cons o rest ih =>
      intro leaves fuel s orders sim front bound
      obtain ⟨fuel, rfl⟩ : ∃ k, fuel = k + 2 := ⟨fuel - 2, by simp at bound; omega⟩
      obtain ⟨best, itr, head, first, price, filled⟩ := fills sim front leaves
      by_cases ends : leaves = 0 ∨ ¬ passive.opposite.Crosses a.price o.price
      · refine ⟨s, ?_, ?_⟩
        · rw [RefBook.sweep, if_pos ends]
          by_cases zero : leaves = 0
          · simp [matchLoop, zero]
          · have stop : stops o.price = true := (test _).mpr (ends.resolve_left zero)
            simp [matchLoop, zero, head, first, price, stop, bind, Except.bind, pure,
              Except.pure]
        · rw [RefBook.sweep, if_pos ends, ← front, Function.update_eq_self]
          exact sim
      · have goesOn := ends
        rw [not_or, not_not] at goesOn
        obtain ⟨notZero, crosses⟩ := goesOn
        have noStop : stops o.price = false := by
          rw [← Bool.not_eq_true]
          exact fun stop => (test _).mp stop crosses
        by_cases full : o.qty ≤ leaves
        · rw [if_pos full] at filled
          obtain ⟨t, run, simT⟩ := filled
          obtain ⟨s', loop, sim'⟩ := ih (leaves - min leaves o.qty) simT
            (Function.update_self _ _ _) (show rest.length < fuel + 1 by simp at bound; omega)
          refine ⟨s', ?_, ?_⟩
          · rw [RefBook.sweep, if_neg ends, if_pos full, matchLoop, if_neg notZero, head]
            simp [first, price, noStop, run, loop, bind, Except.bind, pure, Except.pure]
          · rw [RefBook.sweep, if_neg ends, if_pos full]
            rw [Function.update_idem] at sim'
            exact sim'
        · rw [if_neg full] at filled
          obtain ⟨t, run, simT⟩ := filled
          have done : leaves - min leaves o.qty = 0 := by
            lia
          refine ⟨t, ?_, ?_⟩
          · rw [RefBook.sweep, if_neg ends, if_neg full]
            simp only [matchLoop, notZero, head, first, price, noStop, run, bind,
              Except.bind, pure, Except.pure, deref_some, done, if_true, if_false,
              Bool.false_eq_true, List.append_nil]
          · rw [RefBook.sweep, if_neg ends, if_neg full]
            exact simT

/-- The priority of a new order follows that of the last one at its price. -/
theorem getNextPriority_spec (sim : Holds L basePrice exact s orders) {price : Price}
    (inside : InWindow basePrice price) (apart : ∀ o ∈ orders side.opposite, o.price ≠ price) :
    s.getNextPriority L price =
      .ok (RefBook.nextPriority .machine (orders side) price) := by
  obtain ⟨-, book, rep, views⟩ := sim
  have priced : ((orders side).filter fun o => decide (o.price = price)) =
      ((book.flat side).filter fun x => decide (x.1 = price)).map Resting.view := by
    rw [← views, List.filter_map]
    rfl
  have opposite := LevelBook.Lists.level_apart rep views apart
  rw [RefBook.nextPriority, priced]
  by_cases known : ∃ l ∈ book side, l.price = price
  · obtain ⟨l, mem, rfl⟩ := known
    obtain ⟨xs, x, shape⟩ := (List.eq_nil_or_concat l.orders).resolve_left (rep.filled l mem)
    rw [List.concat_eq_append] at shape
    rw [Book.filter_flat (rep.placed.levels.sorted side) mem, rep.getNextPriority_spec mem shape,
      Book.priced, shape]
    simp [Resting.view, Width.machine]
  · have nowhere : ((book.flat side).filter fun x => decide (x.1 = price)) = [] := by
      refine List.filter_eq_nil_iff.mpr fun x xMem => ?_
      obtain ⟨l, mem, same, -⟩ := Book.mem_flat.mp xMem
      rw [← same]
      simpa using fun e => known ⟨l, mem, e⟩
    rw [nowhere, List.map_nil, rep.getNextPriority_new inside id]
    · rfl
    · intro side' l mem
      by_cases e : side' = side
      · subst e
        exact fun same => known ⟨l, mem, same⟩
      · exact opposite l (BookSide.eq_opposite_of_ne e ▸ mem)

/-- What remains of a NEW goes behind its own price, and its id into the table. -/
theorem rest_table (sim : Holds L basePrice exact s orders) {clientId : ClientId}
    {clientOrderId : OrderId} {price : Price} (tickerId : TickerId) (leaves : Qty)
    (newMarketOrderId : OrderId) (inside : InWindow basePrice price) {slot : MESlot}
    (slots : ∀ {key i}, L.slot key = .ok i → i = (key.clientId, key.clientOrderId))
    (inRange : L.slot ⟨tickerId, clientId, clientOrderId, newMarketOrderId⟩ = .ok slot)
    (room : (orders side).length + (orders side.opposite).length + 1 < ME_MAX_ORDER_IDS)
    (apart : ∀ o ∈ orders side.opposite, o.price ≠ price)
    (fresh : exact → ∀ side, ∀ o ∈ orders side, ¬ RefBook.Addresses clientId clientOrderId o) :
    ∃ s', Matching.rest L s clientId clientOrderId tickerId side.toSide price leaves
        newMarketOrderId =
          .ok (s', [MEOrderBook.addUpdate tickerId side.toSide price leaves
            (RefBook.nextPriority .machine (orders side) price) newMarketOrderId]) ∧
      Holds L basePrice exact s' (Function.update orders side
        ((orders side).orderedInsert (Resting.Ahead side)
          { key := { tickerId, clientId, clientOrderId, marketOrderId := newMarketOrderId },
            price, qty := leaves,
            priority := RefBook.nextPriority .machine (orders side) price })) ∧
      ∃ ptr, s'.oidToOrder = Function.update s.oidToOrder slot (some ptr) := by
  have priority := getNextPriority_spec sim inside apart
  obtain ⟨ptr, pool, s', allocated, added, sim', table⟩ := sim.addOrder_table
    (o :=
      { key := MEOrderKey.mk tickerId clientId clientOrderId newMarketOrderId,
        price, qty := leaves, priority := RefBook.nextPriority .machine (orders side) price })
    room inside id apart inRange
    (by
      intro isExact side' x mem same
      refine fresh isExact side' x mem ?_
      have e := (slots inRange).symm.trans (slots same)
      rw [Prod.mk.injEq] at e
      exact ⟨e.1.symm, e.2.symm⟩)
  refine ⟨s', ?_, sim', ptr, table⟩
  simp only [Matching.rest, priority, allocated, added, bind, Except.bind, pure, Except.pure]

/-- What remains of a NEW goes behind its own price. -/
theorem rest_spec (sim : Holds L basePrice exact s orders) {clientId : ClientId}
    {clientOrderId : OrderId} {price : Price} (tickerId : TickerId) (leaves : Qty)
    (newMarketOrderId : OrderId) (inside : InWindow basePrice price) {slot : MESlot}
    (slots : ∀ {key i}, L.slot key = .ok i → i = (key.clientId, key.clientOrderId))
    (inRange : L.slot ⟨tickerId, clientId, clientOrderId, newMarketOrderId⟩ = .ok slot)
    (room : (orders side).length + (orders side.opposite).length + 1 < ME_MAX_ORDER_IDS)
    (apart : ∀ o ∈ orders side.opposite, o.price ≠ price)
    (fresh : exact → ∀ side, ∀ o ∈ orders side, ¬ RefBook.Addresses clientId clientOrderId o) :
    ∃ s', Matching.rest L s clientId clientOrderId tickerId side.toSide price leaves
        newMarketOrderId =
          .ok (s', [MEOrderBook.addUpdate tickerId side.toSide price leaves
            (RefBook.nextPriority .machine (orders side) price) newMarketOrderId]) ∧
      Holds L basePrice exact s' (Function.update orders side
        ((orders side).orderedInsert (Resting.Ahead side)
          { key := { tickerId, clientId, clientOrderId, marketOrderId := newMarketOrderId },
            price, qty := leaves,
            priority := RefBook.nextPriority .machine (orders side) price })) := by
  obtain ⟨s', rested, sim', -⟩ := rest_table sim tickerId leaves newMarketOrderId inside slots
    inRange room apart fresh
  exact ⟨s', rested, sim'⟩

end Matching

end NanoTrade
