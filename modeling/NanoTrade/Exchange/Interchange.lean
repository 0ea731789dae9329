import NanoTrade.Exchange.UnorderedMapMEOrderBook

/-!
# The two books side by side

Both books refine the reference book: `Refines` says so of `MEOrderBook`, `Mirrors` of
`UnorderedMapMEOrderBook`, together with the clients in its map. They part at the first
CANCEL of a resting order whose client id is not below the number of clients in the map.
-/

namespace NanoTrade

/-- The book over hash maps holds the reference book, and the clients of its orders are in
its map. -/
structure Mirrors (basePrice : Price) (clients : List ClientId) (next : OrderId)
    (u : UnorderedMapMEOrderBook) (orders : BookSide → List MEResting) : Prop where
  holds : Matching.Holds unorderedMapLayout basePrice True u.toLevelBook orders
  numbers : u.nextMarketOrderId = next
  inMap : u.clients = clients
  known : ∀ side, ∀ o ∈ orders side, o.key.clientId ∈ clients

namespace Mirrors

variable {basePrice : Price} {clients : List ClientId} {next : OrderId}
  {u : UnorderedMapMEOrderBook} {orders : BookSide → List MEResting} {ref : RefBook}
  {side passive : BookSide} {o : MEResting} {rest : List MEResting} {r : MEClientRequest}

theorem new (basePrice : Price) :
    Mirrors basePrice [] 1 (UnorderedMapMEOrderBook.new basePrice) fun _ => [] := by
  refine ⟨LevelBook.Lists.new _ (unorderedMapLayout_admits _) fun _ => id, rfl, rfl, ?_⟩
  intro side o mem
  cases mem

/-- A client that is in the map stays there. -/
theorem subscript_eq {clientId : ClientId} (mem : clientId ∈ u.clients) :
    u.subscript clientId = u := by
  rw [UnorderedMapMEOrderBook.subscript, List.insert_of_mem mem]

/-- The lists change, the clients do not. -/
theorem update (mirrors : Mirrors basePrice clients next u orders) {xs : List MEResting}
    {book : LevelBook MEOrderKey MESlot}
    (holds : Matching.Holds unorderedMapLayout basePrice True book
      (Function.update orders side xs))
    (known : ∀ o ∈ xs, o.key.clientId ∈ clients) :
    Mirrors basePrice clients next { u with toLevelBook := book }
      (Function.update orders side xs) := by
  refine ⟨holds, mirrors.numbers, mirrors.inMap, fun side' o mem => ?_⟩
  rcases eq_or_ne side' side with rfl | ne
  · rw [Function.update_self] at mem
    exact known o mem
  · rw [Function.update_of_ne ne] at mem
    exact mirrors.known side' o mem

/-- One fill. -/
theorem matchOrder_spec (mirrors : Mirrors basePrice clients next u orders)
    (front : orders passive = o :: rest) (a : Aggressor) (leaves : Qty) :
    ∃ best itr, u.best passive.toSide = some best ∧ (u.level best).firstOrder = some itr ∧
      (u.order itr).price = o.price ∧
      if o.qty ≤ leaves then
        ∃ u', u.matchOrder a itr leaves = .ok (u', leaves - min leaves o.qty,
            RefBook.fill a passive o (min leaves o.qty) (leaves - min leaves o.qty) ++
              [RefBook.filled a.tickerId passive o]) ∧
          Mirrors basePrice clients next u' (Function.update orders passive rest)
      else
        ∃ u', u.matchOrder a itr leaves = .ok (u', leaves - min leaves o.qty,
            RefBook.fill a passive o (min leaves o.qty) (leaves - min leaves o.qty) ++
              [RefBook.modified a.tickerId passive o (o.qty - min leaves o.qty)]) ∧
          Mirrors basePrice clients next u' (Function.update orders passive
            ({ o with qty := o.qty - min leaves o.qty } :: rest)) := by
  obtain ⟨best, itr, head, first, content, fill⟩ :=
    Matching.matchOrder_spec mirrors.holds front a leaves
  have key : (u.order itr).key = o.key := congrArg (·.1) content
  have qty : (u.order itr).qty = o.qty := congrArg (·.2.2.2.1) content
  have mem : o.key.clientId ∈ clients :=
    mirrors.known passive o (by rw [front]; exact List.mem_cons_self)
  have later : ∀ x ∈ rest, x.key.clientId ∈ clients := fun x xMem =>
    mirrors.known passive x (by rw [front]; exact List.mem_cons_of_mem _ xMem)
  refine ⟨best, itr, head, first, congrArg (·.2.2.1) content, ?_⟩
  by_cases full : o.qty ≤ leaves
  · rw [if_pos full] at fill ⊢
    obtain ⟨book, run, holds⟩ := fill
    refine ⟨{ u with toLevelBook := book }, ?_, mirrors.update holds later⟩
    have kept : UnorderedMapMEOrderBook.subscript { u with toLevelBook := book } o.key.clientId =
        { u with toLevelBook := book } := subscript_eq (mirrors.inMap ▸ mem)
    simp only [UnorderedMapMEOrderBook.matchOrder, run, qty, key, full, kept, bind, Except.bind,
      pure, Except.pure, if_true]
  · rw [if_neg full] at fill ⊢
    obtain ⟨book, run, holds⟩ := fill
    refine ⟨{ u with toLevelBook := book }, ?_, mirrors.update holds ?_⟩
    · simp only [UnorderedMapMEOrderBook.matchOrder, run, qty, full, bind, Except.bind, pure,
        Except.pure, if_false]
    · intro x xMem
      rcases List.mem_cons.mp xMem with rfl | tail
      · exact mem
      · exact later x tail

/-- `checkForMatch` is the sweep of the opposite side. -/
theorem checkForMatch_spec (mirrors : Mirrors basePrice clients next u ref.orders)
    (side : BookSide) (r : MEClientRequest) :
    ∃ u', u.checkForMatch r.clientId r.orderId r.tickerId side.toSide r.price r.qty
        ref.nextMarketOrderId = .ok (u', (RefBook.matched .machine ref side r).2.1,
          (RefBook.matched .machine ref side r).2.2) ∧
      Mirrors basePrice clients next u' (RefBook.swept .machine ref side r) := by
  have bound : (ref.orders side.opposite).length < u.orderPool.size + 1 := by
    have := mirrors.holds.length_lt side
    rw [mirrors.holds.pool_size]
    omega
  cases side with
  | bid =>
      exact Matching.matchLoop_spec (R := Mirrors basePrice clients next)
        ⟨r.tickerId, r.clientId, .BUY, r.orderId, ref.nextMarketOrderId % 2 ^ 32, r.price⟩ .ask
        (fun resting => decide (r.price < resting))
        (by
          intro p
          simp [BookSide.opposite, BookSide.Crosses])
        (fun mirrors empty => mirrors.holds.best_none empty)
        (fun mirrors front leaves => mirrors.matchOrder_spec front _ leaves) r.qty mirrors rfl
        bound
  | ask =>
      exact Matching.matchLoop_spec (R := Mirrors basePrice clients next)
        ⟨r.tickerId, r.clientId, .SELL, r.orderId, ref.nextMarketOrderId % 2 ^ 32, r.price⟩ .bid
        (fun resting => decide (r.price > resting))
        (by
          intro p
          simp [BookSide.opposite, BookSide.Crosses])
        (fun mirrors empty => mirrors.holds.best_none empty)
        (fun mirrors front leaves => mirrors.matchOrder_spec front _ leaves) r.qty mirrors rfl
        bound

/-- A book may be renumbered, and its map may get another client. -/
theorem renumber (mirrors : Mirrors basePrice clients next u orders) (later : OrderId) :
    Mirrors basePrice clients later { u with nextMarketOrderId := later } orders :=
  ⟨mirrors.holds, rfl, mirrors.inMap, mirrors.known⟩

theorem subscript (mirrors : Mirrors basePrice clients next u orders) (clientId : ClientId) :
    Mirrors basePrice (clients.insert clientId) next (u.subscript clientId) orders :=
  ⟨mirrors.holds, mirrors.numbers, congrArg (List.insert clientId) mirrors.inMap,
    fun side o mem => List.mem_insert_of_mem (mirrors.known side o mem)⟩

/-- The clients in the map behind a NEW. -/
def clientsAfter (ref : RefBook) (side : BookSide) (r : MEClientRequest)
    (clients : List ClientId) : List ClientId :=
  if (RefBook.matched .machine ref side r).2.1 = 0 then clients else clients.insert r.clientId

/-- A NEW that the book can take, with the ids of no resting order. -/
theorem add_spec (mirrors : Mirrors basePrice clients ref.nextMarketOrderId u ref.orders)
    (sound : RefBook.Sound ref.orders) (rSide : r.side = side.toSide)
    (takes : (RefBook.matched .machine ref side r).2.1 ≠ 0 → Takes basePrice ref side r)
    (fresh : Fresh ref r) :
    ∃ u', u.add r.clientId r.orderId r.tickerId r.side r.price r.qty =
        .ok (u', (RefBook.add .machine ref side r).2) ∧
      Mirrors basePrice (clientsAfter ref side r clients)
        (RefBook.add .machine ref side r).1.nextMarketOrderId u'
        (RefBook.add .machine ref side r).1.orders := by
  obtain ⟨t, run, swept⟩ :=
    (mirrors.renumber ((ref.nextMarketOrderId + 1) % 2 ^ 64)).checkForMatch_spec side r
  rw [rSide]
  by_cases filled : (RefBook.matched .machine ref side r).2.1 = 0
  · refine ⟨t, ?_, ?_⟩
    · simp only [UnorderedMapMEOrderBook.add, mirrors.numbers, run, filled, RefBook.add, bind,
        Except.bind, pure, Except.pure, if_true]
    · rw [clientsAfter, if_pos filled, RefBook.add_filled filled, RefBook.add, if_pos filled]
      exact swept
  · have taken := takes filled
    have apart : ∀ o ∈ RefBook.swept .machine ref side r side.opposite, o.price ≠ r.price := by
      intro o mem same
      rw [RefBook.swept_opposite] at mem
      have stops := sound.not_crosses filled o mem
      rw [same] at stops
      cases side <;> simp [BookSide.Crosses] at stops
    obtain ⟨book, rested, holds⟩ := Matching.rest_spec swept.holds r.tickerId
      (RefBook.matched .machine ref side r).2.1 ref.nextMarketOrderId taken.inside
      (fun isSlot => (Except.ok.inj isSlot).symm)
      (show unorderedMapLayout.slot ⟨r.tickerId, r.clientId, r.orderId, ref.nextMarketOrderId⟩ =
        .ok (r.clientId, r.orderId) from rfl)
      (by
        rw [RefBook.swept_own, RefBook.swept_opposite]
        exact taken.room)
      apart (fun _ => fresh.swept)
    rw [RefBook.swept_own] at rested holds
    refine ⟨UnorderedMapMEOrderBook.subscript { t with toLevelBook := book } r.clientId, ?_, ?_⟩
    · simp only [UnorderedMapMEOrderBook.add, UnorderedMapMEOrderBook.rest, mirrors.numbers, run,
        filled, rested, RefBook.add, bind, Except.bind, pure, Except.pure, if_false]
      rfl
    · rw [clientsAfter, if_neg filled, RefBook.add_left filled, RefBook.add, if_neg filled]
      refine ⟨holds, swept.numbers, congrArg (List.insert r.clientId) swept.inMap, ?_⟩
      intro side' o mem
      rcases eq_or_ne side' side with rfl | ne
      · rw [Function.update_self] at mem
        rcases (List.mem_orderedInsert _).mp mem with rfl | old
        · exact List.mem_insert_self
        · exact List.mem_insert_of_mem (mirrors.known side' o old)
      · rw [Function.update_of_ne ne] at mem
        exact List.mem_insert_of_mem (swept.known side' o mem)

/-- A CANCEL that the guard stops is rejected. -/
theorem cancel_stopped (mirrors : Mirrors basePrice clients next u orders)
    (stopped : ¬ r.clientId < clients.length) :
    u.cancel r.clientId r.orderId r.tickerId =
      .ok (u, [MEOrderBook.rejectedResponse r.clientId r.orderId r.tickerId]) := by
  rw [← mirrors.inMap] at stopped
  unfold UnorderedMapMEOrderBook.cancel
  rw [if_neg stopped]

/-- A CANCEL that passes the guard is that of the reference book. -/
theorem cancel_spec (mirrors : Mirrors basePrice clients ref.nextMarketOrderId u ref.orders)
    (distinct : RefBook.Distinct ref.orders) (passes : r.clientId < clients.length) :
    ∃ u', u.cancel r.clientId r.orderId r.tickerId = .ok (u', (ref.cancel r).2) ∧
      Mirrors basePrice (clients.insert r.clientId) (ref.cancel r).1.nextMarketOrderId u'
        (ref.cancel r).1.orders := by
  have guard : r.clientId < u.clients.length := by
    rw [mirrors.inMap]
    exact passes
  obtain ⟨base, book, rep, views⟩ := mirrors.holds
  cases entry : u.oidToOrder (r.clientId, r.orderId) with
  | none =>
      have fresh : Fresh ref r := by
        intro side o mem addresses
        rw [← views] at mem
        obtain ⟨⟨p, x⟩, xMem, rfl⟩ := List.mem_map.mp mem
        have resting : x ∈ book.orders := Book.mem_orders_flat.mpr ⟨side, p, xMem⟩
        have stored := rep.ids.complete trivial x resting
          (show unorderedMapLayout.slot x.key = .ok (r.clientId, r.orderId) by
            rw [← addresses.1, ← addresses.2]
            rfl)
        rw [entry] at stored
        cases stored
      rw [RefBook.cancel_fresh fresh]
      refine ⟨u.subscript r.clientId, ?_, mirrors.subscript r.clientId⟩
      unfold UnorderedMapMEOrderBook.cancel
      rw [if_pos guard]
      simp only [entry]
  | some ptr =>
      obtain ⟨x, mem, rfl, xSlot⟩ := rep.ids.sound entry
      obtain ⟨side, o, xs, ys, t, shape, key, content, removed, holds⟩ :=
        LevelBook.Lists.removeOrder_spec base rep views mem
      have own : RefBook.Addresses r.clientId r.orderId o := by
        have e := Except.ok.inj xSlot
        rw [Prod.mk.injEq] at e
        rw [RefBook.Addresses, key]
        exact e
      rw [distinct.cancel_eq shape own]
      have after : Mirrors basePrice clients ref.nextMarketOrderId { u with toLevelBook := t }
          (Function.update ref.orders side (xs ++ ys)) := by
        refine mirrors.update holds fun y yMem => mirrors.known side y ?_
        rw [shape]
        rcases List.mem_append.mp yMem with before | behind
        · exact List.mem_append_left _ before
        · exact List.mem_append_right _ (List.mem_cons_of_mem _ behind)
      have keyRead : (u.order x.ptr).key = o.key := congrArg (·.1) content
      have sideRead : (u.order x.ptr).side = side.toSide := congrArg (·.2.1) content
      have priceRead : (u.order x.ptr).price = o.price := congrArg (·.2.2.1) content
      have qtyRead : (u.order x.ptr).qty = o.qty := congrArg (·.2.2.2.1) content
      have priorityRead : (u.order x.ptr).priority = o.priority := congrArg (·.2.2.2.2) content
      -- the removal subscripts the map once more, with the same client
      have twice : (UnorderedMapMEOrderBook.subscript
          { u.subscript r.clientId with toLevelBook := t } o.key.clientId) =
          { u with toLevelBook := t }.subscript r.clientId := by
        rw [own.1]
        exact subscript_eq (u := { u.subscript r.clientId with toLevelBook := t })
          List.mem_insert_self
      refine ⟨_, ?_, after.subscript r.clientId⟩
      rw [← twice]
      unfold UnorderedMapMEOrderBook.cancel
      rw [if_pos guard]
      simp only [entry]
      show (do
        let book ← u.removeOrder unorderedMapLayout x.ptr
        pure (UnorderedMapMEOrderBook.subscript
            { u.subscript r.clientId with toLevelBook := book } (u.order x.ptr).key.clientId,
          MEOrderBook.canceledMessages r.clientId r.orderId r.tickerId (u.order x.ptr))) = _
      simp only [removed, MEOrderBook.canceledMessages, keyRead, sideRead, priceRead, qtyRead,
        priorityRead, RefBook.canceled, bind, Except.bind, pure, Except.pure]

end Mirrors

/-! ## Both at once -/

/-- The reference book, and the clients that are in the map of the other book. -/
structure Directory where
  ref : RefBook
  clients : List ClientId

namespace Directory

def new : Directory :=
  { ref := RefBook.new, clients := [] }

def clientsBehind (d : Directory) (r : MEClientRequest) : List ClientId :=
  match r.type with
  | .NEW =>
    match BookSide.ofSide r.side with
    | some side => Mirrors.clientsAfter d.ref side r d.clients
    | none => d.clients
  | .CANCEL =>
    if r.clientId < d.clients.length then d.clients.insert r.clientId else d.clients
  | .INVALID => d.clients

def step (d : Directory) (r : MEClientRequest) : Directory × List MEMessage :=
  ({ ref := (d.ref.step .machine r).1, clients := d.clientsBehind r },
    (d.ref.step .machine r).2)

/-- The id of a client that cancels a resting order is below the number of clients in the
map. -/
def Guarded (d : Directory) (r : MEClientRequest) : Prop :=
  r.type = .CANCEL → ¬ Fresh d.ref r → r.clientId < d.clients.length

/-- No NEW reuses the ids of a resting order. -/
def NoReuse (ref : RefBook) (r : MEClientRequest) : Prop :=
  r.type = .NEW → Fresh ref r

instance (ref : RefBook) (r : MEClientRequest) : Decidable (Fresh ref r) :=
  decidable_of_iff
    ((∀ o ∈ ref.orders .bid, ¬ RefBook.Addresses r.clientId r.orderId o) ∧
      ∀ o ∈ ref.orders .ask, ¬ RefBook.Addresses r.clientId r.orderId o)
    ⟨fun h side => by
      cases side
      · exact h.1
      · exact h.2, fun h => ⟨h .bid, h .ask⟩⟩

instance (d : Directory) (r : MEClientRequest) : Decidable (d.Guarded r) :=
  inferInstanceAs (Decidable (r.type = .CANCEL → ¬ Fresh d.ref r → r.clientId < d.clients.length))

instance (ref : RefBook) (r : MEClientRequest) : Decidable (NoReuse ref r) :=
  inferInstanceAs (Decidable (r.type = .NEW → Fresh ref r))

end Directory

/-- The two books hold the same orders. -/
structure SideBySide (basePrice : Price) (s : MEOrderBook) (u : UnorderedMapMEOrderBook)
    (d : Directory) : Prop where
  refines : Refines basePrice True s d.ref
  mirrors : Mirrors basePrice d.clients d.ref.nextMarketOrderId u d.ref.orders

namespace SideBySide

variable {basePrice : Price} {s s' : MEOrderBook} {u : UnorderedMapMEOrderBook}
  {d : Directory} {r : MEClientRequest} {out : List MEMessage}

theorem new (basePrice : Price) :
    SideBySide basePrice (MEOrderBook.new basePrice) (UnorderedMapMEOrderBook.new basePrice)
      Directory.new :=
  ⟨Refines.new basePrice True, Mirrors.new basePrice⟩

/-- A NEW that the one book takes is taken by the other. -/
theorem new_spec (pair : SideBySide basePrice s u d) (inRange : InRange basePrice r)
    (isNew : r.type = .NEW) (fresh : Fresh d.ref r)
    (ran : s.processClientRequest r = .ok (s', out)) :
    ∃ u', u.processClientRequest r = .ok (u', out) ∧
      SideBySide basePrice s' u' (d.step r).1 := by
  obtain ⟨side, rSide⟩ := inRange.sided isNew
  rw [MEOrderBook.processClientRequest, isNew] at ran
  have takes := pair.refines.weaken.takes_of_ok rSide ran
  obtain ⟨s₁, added, refines⟩ := pair.refines.add_spec rSide takes fun _ => fresh
  cases ran.symm.trans added
  obtain ⟨u', mirrored, mirrors⟩ :=
    pair.mirrors.add_spec pair.refines.sound rSide takes fresh
  refine ⟨u', ?_, ?_⟩
  · rw [UnorderedMapMEOrderBook.processClientRequest, isNew]
    exact mirrored
  · have stepped : (d.step r).1 =
        ⟨(RefBook.add .machine d.ref side r).1, Mirrors.clientsAfter d.ref side r d.clients⟩ := by
      rw [Directory.step, RefBook.step_new isNew rSide, Directory.clientsBehind]
      simp only [isNew, rSide, BookSide.ofSide_toSide]
    rw [stepped]
    exact ⟨refines, mirrors⟩

/-- A CANCEL that passes the guard, or that addresses no resting order. -/
theorem cancel_spec (pair : SideBySide basePrice s u d) (inRange : InRange basePrice r)
    (isCancel : r.type = .CANCEL) (guarded : d.Guarded r)
    (ran : s.processClientRequest r = .ok (s', out)) :
    ∃ u', u.processClientRequest r = .ok (u', out) ∧
      SideBySide basePrice s' u' (d.step r).1 := by
  rw [MEOrderBook.processClientRequest, isCancel] at ran
  obtain ⟨s₁, canceled, refines⟩ := pair.refines.cancel_exact inRange.order
  cases ran.symm.trans canceled
  have distinct := pair.refines.sim.distinct
  rw [UnorderedMapMEOrderBook.processClientRequest, isCancel]
  by_cases passes : r.clientId < d.clients.length
  · obtain ⟨u', mirrored, mirrors⟩ := pair.mirrors.cancel_spec distinct passes
    have stepped : (d.step r).1 = ⟨(d.ref.cancel r).1, d.clients.insert r.clientId⟩ := by
      rw [Directory.step, RefBook.step_cancel isCancel, Directory.clientsBehind]
      simp only [isCancel, passes, if_true]
    rw [stepped]
    exact ⟨u', mirrored, refines, mirrors⟩
  · have fresh : Fresh d.ref r := by
      by_contra resting
      exact passes (guarded isCancel resting)
    have stepped : (d.step r).1 = d := by
      rw [Directory.step, RefBook.step_cancel isCancel, Directory.clientsBehind,
        RefBook.cancel_fresh fresh]
      simp only [isCancel, passes, if_false]
    rw [RefBook.cancel_fresh fresh] at refines ⊢
    rw [stepped]
    exact ⟨u, pair.mirrors.cancel_stopped passes, refines, pair.mirrors⟩

/-- One request that passes the guard is answered alike. -/
theorem step (pair : SideBySide basePrice s u d) (inRange : InRange basePrice r)
    (noReuse : Directory.NoReuse d.ref r) (guarded : d.Guarded r)
    (ran : s.processClientRequest r = .ok (s', out)) :
    ∃ u', u.processClientRequest r = .ok (u', out) ∧
      SideBySide basePrice s' u' (d.step r).1 := by
  rcases inRange.request with isCancel | ⟨isNew, -, -⟩
  · exact pair.cancel_spec inRange isCancel guarded ran
  · exact pair.new_spec inRange isNew (noReuse isNew) ran

/-- The guard stops a CANCEL of a resting order: the one book rejects what the other
publishes first. -/
theorem diverges (pair : SideBySide basePrice s u d) (inRange : InRange basePrice r)
    (unguarded : ¬ d.Guarded r) (ran : s.processClientRequest r = .ok (s', out)) :
    ∃ m ms, out = .update m :: ms ∧ u.processClientRequest r =
      .ok (u, [MEOrderBook.rejectedResponse r.clientId r.orderId r.tickerId]) := by
  simp only [Directory.Guarded, not_forall] at unguarded
  obtain ⟨isCancel, resting, stopped⟩ := unguarded
  rw [MEOrderBook.processClientRequest, isCancel] at ran
  rw [UnorderedMapMEOrderBook.processClientRequest, isCancel]
  rcases pair.refines.cancel_spec r with ⟨-, outside, -⟩ | ⟨fresh, -⟩ |
    ⟨side, o, xs, ys, t, shape, own, taken, -⟩
  · exact absurd inRange.order (Nat.not_lt.mpr outside)
  · exact absurd (fresh trivial) resting
  · cases ran.symm.trans taken
    exact ⟨_, _, rfl, pair.mirrors.cancel_stopped stopped⟩

/-- A run is answered alike exactly while the guard is passed. -/
theorem run_iff {rs : List MEClientRequest} (pair : SideBySide basePrice s u d)
    (inRange : ∀ r ∈ rs, InRange basePrice r)
    (noReuse : Along Directory.NoReuse (RefBook.step .machine) d.ref rs)
    (ran : run MEOrderBook.processClientRequest s rs = .ok (s', out)) :
    (∃ u', run UnorderedMapMEOrderBook.processClientRequest u rs = .ok (u', out)) ↔
      Along Directory.Guarded Directory.step d rs := by
  induction rs generalizing s u d out with
  | nil =>
      cases ran
      exact ⟨fun _ => trivial, fun _ => ⟨u, rfl⟩⟩
  | cons r rs ih =>
      obtain ⟨t, now, later, first, rest, rfl⟩ := run_cons.mp ran
      have here := inRange r List.mem_cons_self
      have ahead : ∀ x ∈ rs, InRange basePrice x :=
        fun x mem => inRange x (List.mem_cons_of_mem _ mem)
      by_cases guarded : d.Guarded r
      · obtain ⟨v, mirrored, pair'⟩ := pair.step here noReuse.1 guarded first
        have follows := ih pair' ahead noReuse.2 rest
        constructor
        · rintro ⟨u', both⟩
          obtain ⟨w, now', later', first', rest', same⟩ := run_cons.mp both
          cases mirrored.symm.trans first'
          cases List.append_cancel_left same
          exact ⟨guarded, follows.mp ⟨u', rest'⟩⟩
        · rintro ⟨-, guardedLater⟩
          obtain ⟨u', rest'⟩ := follows.mpr guardedLater
          exact ⟨u', run_cons_eq_ok mirrored rest'⟩
      · obtain ⟨m, ms, rfl, rejected⟩ := pair.diverges here guarded first
        constructor
        · rintro ⟨u', both⟩
          obtain ⟨w, now', later', first', -, same⟩ := run_cons.mp both
          cases rejected.symm.trans first'
          cases same
        · exact fun along => absurd along.1 guarded

end SideBySide

/-- **The two books answer alike exactly while the guard is passed.** For every sequence of
in-range requests in which no NEW reuses the ids of a resting order, and which does not
exhaust the order pool: both books emit the same messages if and only if every CANCEL of a
resting order comes from a client whose id is below the number of clients in the map. -/
theorem run_interchangeable_iff (basePrice : Price) (rs : List MEClientRequest)
    (inRange : ∀ r ∈ rs, InRange basePrice r)
    (noReuse : Along Directory.NoReuse (RefBook.step .machine) RefBook.new rs) :
    run MEOrderBook.processClientRequest (MEOrderBook.new basePrice) rs = .error .outOfSpace ∨
      ((∃ s u out,
          run MEOrderBook.processClientRequest (MEOrderBook.new basePrice) rs = .ok (s, out) ∧
          run UnorderedMapMEOrderBook.processClientRequest
            (UnorderedMapMEOrderBook.new basePrice) rs = .ok (u, out)) ↔
        Along Directory.Guarded Directory.step Directory.new rs) := by
  rcases run_request inRange with full | ⟨s, out, ran⟩
  · exact .inl full
  · right
    rw [← (SideBySide.new basePrice).run_iff inRange noReuse ran]
    constructor
    · rintro ⟨s', u, out', ran', both⟩
      cases ran.symm.trans ran'
      exact ⟨u, both⟩
    · rintro ⟨u, both⟩
      exact ⟨s, u, out, ran, both⟩

/-- Two clients, both of whose ids are below the number of clients when they cancel. -/
theorem run_interchangeable_iff_two :
    run MEOrderBook.processClientRequest (MEOrderBook.new 100)
        [⟨.NEW, 1, 0, 1, .BUY, 105, 4⟩, ⟨.NEW, 0, 0, 1, .BUY, 104, 6⟩,
          ⟨.CANCEL, 1, 0, 1, .BUY, 105, 4⟩] = .error .outOfSpace ∨
      ((∃ s u out,
          run MEOrderBook.processClientRequest (MEOrderBook.new 100)
            [⟨.NEW, 1, 0, 1, .BUY, 105, 4⟩, ⟨.NEW, 0, 0, 1, .BUY, 104, 6⟩,
              ⟨.CANCEL, 1, 0, 1, .BUY, 105, 4⟩] = .ok (s, out) ∧
          run UnorderedMapMEOrderBook.processClientRequest (UnorderedMapMEOrderBook.new 100)
            [⟨.NEW, 1, 0, 1, .BUY, 105, 4⟩, ⟨.NEW, 0, 0, 1, .BUY, 104, 6⟩,
              ⟨.CANCEL, 1, 0, 1, .BUY, 105, 4⟩] = .ok (u, out)) ↔
        Along Directory.Guarded Directory.step Directory.new
          [⟨.NEW, 1, 0, 1, .BUY, 105, 4⟩, ⟨.NEW, 0, 0, 1, .BUY, 104, 6⟩,
            ⟨.CANCEL, 1, 0, 1, .BUY, 105, 4⟩]) :=
  run_interchangeable_iff 100 _ (by decide) (by decide +kernel)

/-- A lone client that is not client 0 cannot cancel in the book over hash maps. -/
theorem not_interchangeable_lone_client :
    ∃ rs, rs = [⟨.NEW, 1, 0, 1, .BUY, 105, 4⟩, ⟨.CANCEL, 1, 0, 1, .BUY, 105, 4⟩] ∧
      (∀ r ∈ rs, InRange 100 r) ∧
      Along Directory.NoReuse (RefBook.step .machine) RefBook.new rs ∧
      ∃ s u out rejected,
        run MEOrderBook.processClientRequest (MEOrderBook.new 100) rs = .ok (s, out) ∧
        run UnorderedMapMEOrderBook.processClientRequest (UnorderedMapMEOrderBook.new 100) rs =
          .ok (u, rejected) ∧
        out ≠ rejected ∧
        out.getLast? =
          some (.response ⟨.CANCELED, 1, 0, 1, 1, .BUY, 105, Qty_INVALID, 4⟩) ∧
        rejected.getLast? = some (MEOrderBook.rejectedResponse 1 1 0) := by
  refine ⟨_, rfl, by decide, by decide +kernel, ?_⟩
  obtain ⟨s, out, ran, canceled⟩ := run_of_map MEOrderBook.processClientRequest
    (MEOrderBook.new 100)
    [⟨.NEW, 1, 0, 1, .BUY, 105, 4⟩, ⟨.CANCEL, 1, 0, 1, .BUY, 105, 4⟩] List.getLast?
    (some (.response ⟨.CANCELED, 1, 0, 1, 1, .BUY, 105, Qty_INVALID, 4⟩)) (by decide +kernel)
  obtain ⟨u, sent, ranU, rejected⟩ := run_of_map UnorderedMapMEOrderBook.processClientRequest
    (UnorderedMapMEOrderBook.new 100)
    [⟨.NEW, 1, 0, 1, .BUY, 105, 4⟩, ⟨.CANCEL, 1, 0, 1, .BUY, 105, 4⟩] List.getLast?
    (some (MEOrderBook.rejectedResponse 1 1 0)) (by decide +kernel)
  refine ⟨s, u, out, sent, ran, ranU, ?_, canceled, rejected⟩
  intro same
  rw [same, rejected] at canceled
  cases canceled

end NanoTrade
