import NanoTrade.Exchange.ClientTable
import NanoTrade.Trading.Session

/-!
# The order manager and the exchange agree at rest

An order of quantity zero is acknowledged and never rests: its slot is live without an order,
and the cancel for it is rejected. Along runs in which no such order is sent
(`SendsNoEmptyOrder`) and the orders of others are for BUY or SELL (`Admissible`), the slots show
what rests whenever no message is on its way.

* `run_at_rest`: agreement in every state of such a run in which both channels are empty.
* `not_at_rest_empty_order`: a clip of zero, the default of a ticker that is not configured, and
  an order of another client that is neither for BUY nor for SELL.
-/

namespace NanoTrade

namespace Session

/-- A move of this side would send a new order. -/
def Sends (s : Session) (tickerId : TickerId) (side : BookSide) (lossTooLarge : Bool)
    (price : Price) (qty : Qty) : Prop :=
  ((s.slot tickerId side).orderState = .INVALID ∨ (s.slot tickerId side).orderState = .DEAD) ∧
    price ≠ Price_INVALID ∧
    s.tradeEngine.checkPreTradeRisk tickerId lossTooLarge side.toSide qty = .ALLOWED

instance (s : Session) (tickerId : TickerId) (side : BookSide) (lossTooLarge : Bool)
    (price : Price) (qty : Qty) : Decidable (s.Sends tickerId side lossTooLarge price qty) :=
  inferInstanceAs (Decidable ((_ ∨ _) ∧ _ ∧ _))

/-- No call of `moveOrders` with a clip of zero sends an order. -/
def SendsNoEmptyOrder (s : Session) : SessionInput → Prop
  | .moveOrders tickerId bidPrice askPrice clip lossTooLarge =>
    clip = 0 → ¬ s.Sends tickerId .bid lossTooLarge bidPrice clip ∧
      ¬ s.Sends tickerId .ask lossTooLarge askPrice clip
  | .deliver | .process | .foreign _ => True

instance (s : Session) : DecidablePred s.SendsNoEmptyOrder
  | .moveOrders .. => inferInstanceAs (Decidable (_ → _))
  | .deliver | .process | .foreign _ => isTrue trivial

/-- A live slot has its order in the book, a free slot has none, and no slot waits. -/
def Agrees (clientId : ClientId) (s : Session) : Prop :=
  ∀ tickerId side,
    ((s.slot tickerId side).orderState = .LIVE ∧ ∃ key priority,
      key.clientId = clientId ∧ key.clientOrderId = (s.slot tickerId side).orderId ∧
        (s.exchange.tickerOrderBook tickerId).restingOf clientId side =
          [(key, (s.slot tickerId side).side, (s.slot tickerId side).price,
            (s.slot tickerId side).qty, priority)]) ∨
    (((s.slot tickerId side).orderState = .INVALID ∨ (s.slot tickerId side).orderState = .DEAD) ∧
      (s.exchange.tickerOrderBook tickerId).restingOf clientId side = [])

/-! ## The invariant -/

/-- Orders that are not done want something, an order that is being cancelled and still rests
has its CANCEL on the way, and the exchange finds the orders of the client. -/
structure Settled (clientId : ClientId) (s : Session) : Prop where
  wants : ∀ tickerId side, (s.slot tickerId side).orderState ≠ .INVALID →
    (s.slot tickerId side).orderState ≠ .DEAD → (s.slot tickerId side).qty ≠ 0
  asked : ∀ tickerId side, (s.slot tickerId side).orderState = .PENDING_CANCEL →
    (s.exchange.tickerOrderBook tickerId).restingOf clientId side ≠ [] →
    ∃ r ∈ s.clientRequests, r.type = .CANCEL ∧ r.tickerId = tickerId ∧
      r.orderId = (s.slot tickerId side).orderId
  findable : ∀ tickerId, (s.exchange.tickerOrderBook tickerId).Findable clientId

variable {clientId : ClientId} {tickerBasePrices : TickerId → Price}
  {refs : TickerId → RefBook} {s s' : Session} {r : MEClientRequest} {out : List MEMessage}

theorem Settled.new (clientId : ClientId) (riskCfg : TickerId → RiskCfg)
    (tickerBasePrices : TickerId → Price) :
    Settled clientId (Session.new clientId riskCfg tickerBasePrices) := by
  have free : ∀ tickerId side, ((Session.new clientId riskCfg tickerBasePrices).slot tickerId
      side).orderState = .INVALID := fun _ _ => rfl
  refine ⟨?_, ?_, ?_⟩
  · exact fun tickerId side used => (used (free tickerId side)).elim
  · intro tickerId side pending
    rw [free] at pending
    cases pending
  · intro tickerId
    have refines := Refines.new (tickerBasePrices tickerId) False
    refine (refines.findable_iff clientId).mpr ⟨List.nodup_nil, ?_⟩
    exact fun id mem => absurd mem List.not_mem_nil

/-- A slot is set to an order that wants something, and that waits to be cancelled only with
its CANCEL on the way. -/
theorem Settled.set {tickerId : TickerId} {side : BookSide} {o : OMOrder}
    {result : OrderManager × List MEClientRequest} (settled : Settled clientId s)
    (writes : result.1.tickerSideOrder =
      (s.tradeEngine.orderManager.setOrder tickerId side.toSide o).tickerSideOrder)
    (nonzero : o.qty ≠ 0)
    (asked : o.orderState = .PENDING_CANCEL →
      ∃ r ∈ result.2, r.type = .CANCEL ∧ r.tickerId = tickerId ∧ r.orderId = o.orderId) :
    Settled clientId (s.moved result) := by
  obtain ⟨self, other⟩ := moved_set (s := s) writes
  refine ⟨?_, ?_, settled.findable⟩
  · intro t side' used notDead
    rcases slot_cases t tickerId side' side with ⟨rfl, rfl⟩ | apart
    · rw [self]
      exact nonzero
    · rw [other apart] at used notDead ⊢
      exact settled.wants t side' used notDead
  · intro t side' pending rests
    rcases slot_cases t tickerId side' side with ⟨rfl, rfl⟩ | apart
    · rw [self] at pending ⊢
      obtain ⟨x, mem, rest⟩ := asked pending
      exact ⟨x, List.mem_append_right _ mem, rest⟩
    · rw [other apart] at pending ⊢
      obtain ⟨x, mem, rest⟩ := settled.asked t side' pending rests
      exact ⟨x, List.mem_append_left _ mem, rest⟩

/-- A move of one order that is not empty. -/
theorem Settled.moveOrder {tickerId : TickerId} {side : BookSide} {lossTooLarge : Bool}
    {price : Price} {qty : Qty} (settled : Settled clientId s)
    (joint : Joint clientId tickerBasePrices refs s)
    (filled : qty = 0 → ¬ s.Sends tickerId side lossTooLarge price qty) :
    Settled clientId (s.moveOrder tickerId side lossTooLarge price qty) := by
  rcases s.moveOrder_cases tickerId side lossTooLarge price qty with
    nothing | ⟨live, cancels⟩ | ⟨free, wanted, allowed, sends⟩
  · rw [nothing]
    exact settled
  · have used : (s.slot tickerId side).orderState ≠ .INVALID := by simp [live]
    obtain ⟨here, -⟩ := joint.placed tickerId side used
    have wants := settled.wants tickerId side used (by simp [live])
    rw [cancels]
    exact settled.set rfl wants fun _ => ⟨_, List.mem_cons_self, rfl, here, rfl⟩
  · have nonzero : qty ≠ 0 := fun zero => filled zero ⟨free, wanted, allowed⟩
    rw [sends]
    refine settled.set rfl nonzero ?_
    intro pending
    cases pending

/-- The next response. -/
theorem Settled.deliver {x : MEClientResponse} {rest : List MEClientResponse}
    (settled : Settled clientId s) (joint : Joint clientId tickerBasePrices refs s)
    (front : s.clientResponses = x :: rest) : Settled clientId (s.delivered x rest) := by
  refine ⟨?_, ?_, settled.findable⟩
  · intro t side now notDead
    by_cases here : t = x.tickerId ∧ side.toSide = x.side
    · obtain ⟨rfl, sided⟩ := here
      have phase := joint.phase x.tickerId side
      rw [undelivered_self front side sided.symm] at phase
      rw [delivered_slot_self x rest side sided.symm] at notDead ⊢
      rcases phase.head with ⟨pending, accepted⟩ | ⟨known, isFilled, -⟩ | ⟨pending, canceled⟩
      · rw [OrderManager.updated, accepted]
        exact settled.wants x.tickerId side (by simp [pending]) (by simp [pending])
      · rw [OrderManager.updated, isFilled] at notDead ⊢
        intro zero
        exact notDead (if_pos zero)
      · rw [OrderManager.updated, canceled] at notDead
        exact (notDead rfl).elim
    · rw [delivered_slot_of_ne here] at now notDead ⊢
      exact settled.wants t side now notDead
  · intro t side pending rests
    by_cases here : t = x.tickerId ∧ side.toSide = x.side
    · obtain ⟨rfl, sided⟩ := here
      rw [delivered_slot_self x rest side sided.symm] at pending ⊢
      rw [OrderManager.updated_orderId]
      refine settled.asked x.tickerId side ?_ rests
      unfold OrderManager.updated at pending
      split at pending
      · cases pending
      · cases pending
      · by_cases zero : x.leavesQty = 0
        · simp [zero] at pending
        · simpa [zero] using pending
      · exact pending
      · exact pending
    · rw [delivered_slot_of_ne here] at pending ⊢
      exact settled.asked t side pending rests

/-- The id of an order that rests is the id of its slot. -/
theorem Joint.mem_idsOf (joint : Joint clientId tickerBasePrices refs s) {tickerId : TickerId}
    {id : OrderId} (mem : id ∈ (s.exchange.tickerOrderBook tickerId).idsOf clientId) :
    ∃ side, held clientId ((refs tickerId).orders side) ≠ [] ∧
      (s.slot tickerId side).orderState ≠ .INVALID ∧ id = (s.slot tickerId side).orderId := by
  rw [(joint.refines tickerId).idsOf_eq] at mem
  obtain ⟨o, oMem, own, rfl⟩ := NanoTrade.mem_idsOf.mp mem
  obtain ⟨side, oMem⟩ := (mem_both _).mp oMem
  have there : (o.key.clientOrderId, o.price, o.qty) ∈ held clientId ((refs tickerId).orders side) :=
    mem_held.mpr ⟨o, oMem, own, rfl⟩
  obtain ⟨used, named⟩ := (joint.phase tickerId side).mem_rest there
  exact ⟨side, List.ne_nil_of_mem there, used, named⟩

/-- A NEW of the client has an id that none of its orders has. -/
theorem Joint.fresh {requests : List MEClientRequest}
    (joint : Joint clientId tickerBasePrices refs s) (reads : Reads clientId s r requests)
    (isNew : r.type = .NEW) (own : r.clientId = clientId) (sided : Sided r) :
    r.orderId ∉ (s.exchange.tickerOrderBook r.tickerId).idsOf clientId := by
  intro mem
  obtain ⟨side, rSide⟩ := sided.exists_side isNew
  have phase := joint.phase r.tickerId side
  rw [reads.newsInFlight_self s.exchange [] own isNew rSide] at phase
  obtain ⟨pending, named, -, -, free⟩ := phase.of_news
  have id : r.orderId = (s.slot r.tickerId side).orderId := congrArg (·.orderId) named
  obtain ⟨side', rests, used, id'⟩ := joint.mem_idsOf mem
  obtain ⟨-, rfl⟩ := joint.numbered.distinct r.tickerId side r.tickerId side' (by simp [pending])
    used (id.symm.trans id')
  exact rests free

/-- An order that is being cancelled and rests behind a request rested before it, and the
request was no CANCEL of it. -/
theorem Joint.still_rests {requests : List MEClientRequest} {book : MEOrderBook}
    {side : BookSide} (joint : Joint clientId tickerBasePrices refs s)
    (settled : Settled clientId s) (reads : Reads clientId s r requests) (sided : Sided r)
    (ran : (s.exchange.tickerOrderBook r.tickerId).processClientRequest r = .ok (book, out))
    (pending : (s.slot r.tickerId side).orderState = .PENDING_CANCEL)
    (rests : book.restingOf clientId side ≠ []) :
    (s.exchange.tickerOrderBook r.tickerId).restingOf clientId side ≠ [] ∧
      (r.type = .CANCEL → r.clientId = clientId →
        r.orderId ≠ (s.slot r.tickerId side).orderId) := by
  obtain ⟨ref', refines', -, reaction⟩ := (joint.refines r.tickerId).reaction clientId sided ran
  have nonempty : ∀ {b : MEOrderBook} {ref : RefBook},
      Refines (tickerBasePrices r.tickerId) False b ref →
      (b.restingOf clientId side ≠ [] ↔ held clientId (ref.orders side) ≠ []) := by
    intro b ref refines
    rw [← List.length_pos_iff, ← List.length_pos_iff, refines.length_restingOf]
  rw [nonempty refines'] at rests
  rw [nonempty (joint.refines r.tickerId)]
  have phase := joint.phase r.tickerId side
  have used : (s.slot r.tickerId side).orderState ≠ .INVALID := by simp [pending]
  cases reaction with
  | new d isNew rSide entered foreign traded =>
      refine ⟨fun empty => rests ?_, fun isCancel => by simp [isNew] at isCancel⟩
      rcases eq_or_ne side d with rfl | ne
      · by_cases own : r.clientId = clientId
        · rw [reads.newsInFlight_self s.exchange out own isNew rSide] at phase
          simp [phase.of_news.1] at pending
        · exact (foreign own).2.trans empty
      · obtain rfl := BookSide.eq_opposite_of_ne ne
        obtain ⟨q', fills, left⟩ := traded (0, 0) 0 empty
        rw [fills.of_zero.2] at left
        exact left
  | rejected isCancel sent silent same =>
      have kept : held clientId (ref'.orders side) =
          held clientId ((refs r.tickerId).orders side) := congrFun same side
      rw [kept] at rests
      refine ⟨rests, fun _ own named => ?_⟩
      -- The table leads to the order that rests.
      unfold MEOrderBook.processClientRequest at ran
      rw [isCancel, sent] at ran
      obtain ⟨a, mem⟩ := List.exists_mem_of_ne_nil _ rests
      obtain ⟨o, oMem, oOwn, rfl⟩ := mem_held.mp mem
      refine (joint.refines r.tickerId).not_rejected (own ▸ settled.findable r.tickerId) ran ?_
      rw [(joint.refines r.tickerId).idsOf_eq]
      refine NanoTrade.mem_idsOf.mpr ⟨o, (mem_both _).mpr ⟨side, oMem⟩, oOwn.trans own.symm, ?_⟩
      rw [named]
      exact (phase.mem_rest mem).2
  | elsewhere isCancel foreign silent same =>
      have kept : held clientId (ref'.orders side) =
          held clientId ((refs r.tickerId).orders side) := congrFun same side
      rw [kept] at rests
      exact ⟨rests, fun _ own => (foreign own).elim⟩
  | withdrawn d xs ys terms isCancel own named split left sent opposite =>
      rcases eq_or_ne side d with rfl | ne
      · -- Only one order of the client rested on this side.
        have single := phase.single
        rw [split, List.length_append, List.length_cons] at single
        have noneBefore : xs = [] := List.eq_nil_of_length_eq_zero (by omega)
        have noneBehind : ys = [] := List.eq_nil_of_length_eq_zero (by omega)
        rw [left, noneBefore, noneBehind] at rests
        exact (rests rfl).elim
      · obtain rfl := BookSide.eq_opposite_of_ne ne
        have kept : held clientId (ref'.orders d.opposite) =
            held clientId ((refs r.tickerId).orders d.opposite) := opposite.2
        rw [kept] at rests
        refine ⟨rests, fun _ _ same => ?_⟩
        have there : terms ∈ held clientId ((refs r.tickerId).orders d) := by
          have mem : terms ∈ xs ++ terms :: ys := List.mem_append_right _ List.mem_cons_self
          rw [← split] at mem
          exact mem
        obtain ⟨usedThere, id⟩ := (joint.phase r.tickerId d).mem_rest there
        obtain ⟨-, apart⟩ := joint.numbered.distinct r.tickerId d.opposite r.tickerId d used
          usedThere (by rw [← same, ← named, id])
        exact ne apart

/-- A request of anyone. -/
theorem Settled.serve {requests : List MEClientRequest} (settled : Settled clientId s)
    (joint : Joint clientId tickerBasePrices refs s) (reads : Reads clientId s r requests)
    (sided : Sided r)
    (served : { s with clientRequests := requests }.serve r = .ok (s', out)) :
    Settled clientId s' := by
  obtain ⟨book, ran, rfl⟩ := serve_eq_ok served
  refine ⟨settled.wants, ?_, ?_⟩
  · intro t side pending rests
    have remains : ∀ x ∈ s.clientRequests, x ≠ r ∨ r.clientId ≠ clientId → x ∈ requests := by
      intro x mem apart
      rcases reads with ⟨own, front⟩ | ⟨-, same⟩
      · rw [front] at mem
        rcases List.mem_cons.mp mem with rfl | later
        · rcases apart with ne | foreign
          · exact (ne rfl).elim
          · exact (foreign own).elim
        · exact later
      · rw [same] at mem
        exact mem
    rcases eq_or_ne t r.tickerId with rfl | ne
    · have still : (s.exchange.tickerOrderBook r.tickerId).restingOf clientId side ≠ [] ∧
          (r.type = .CANCEL → r.clientId = clientId →
            r.orderId ≠ (s.slot r.tickerId side).orderId) := by
        simp only [answered, Function.update_self] at rests
        exact joint.still_rests settled reads sided ran pending rests
      obtain ⟨x, mem, isCancel, ticker, named⟩ := settled.asked r.tickerId side pending still.1
      refine ⟨x, remains x mem ?_, isCancel, ticker, named⟩
      by_cases own : r.clientId = clientId
      · left
        rintro rfl
        exact still.2 isCancel own named
      · exact .inr own
    · simp only [answered, Function.update_of_ne ne] at rests
      obtain ⟨x, mem, isCancel, ticker, named⟩ := settled.asked t side pending rests
      refine ⟨x, remains x mem (.inl ?_), isCancel, ticker, named⟩
      rintro rfl
      exact ne ticker.symm
  · intro t
    rcases eq_or_ne t r.tickerId with rfl | ne
    · simp only [answered, Function.update_self]
      refine (joint.refines r.tickerId).findable sided ?_ ran (settled.findable r.tickerId)
      exact fun isNew own mem => joint.fresh reads isNew own sided mem
    · simp only [answered, Function.update_of_ne ne]
      exact settled.findable t

/-! ## Whole runs -/

/-- A move of the bid does not decide whether one of the ask would send. -/
theorem sends_moveOrder {tickerId : TickerId} {lossTooLarge : Bool} {bidPrice price : Price}
    {clip qty : Qty} :
    (s.moveOrder tickerId .bid lossTooLarge bidPrice clip).Sends tickerId .ask lossTooLarge price
        qty ↔ s.Sends tickerId .ask lossTooLarge price qty := by
  have apart : ¬ (tickerId = tickerId ∧ BookSide.ask.toSide = BookSide.bid.toSide) :=
    fun same => by cases same.2
  have slot : (s.moveOrder tickerId .bid lossTooLarge bidPrice clip).slot tickerId .ask =
      s.slot tickerId .ask := by
    rcases s.moveOrder_cases tickerId .bid lossTooLarge bidPrice clip with
      nothing | ⟨-, cancels⟩ | ⟨-, -, -, sends⟩
    · rw [nothing]
    · rw [cancels]
      exact (moved_set rfl).2 apart
    · rw [sends]
      exact (moved_set rfl).2 apart
  rw [Sends, slot]
  rfl

/-- One step. -/
theorem Settled.step {i : SessionInput} (settled : Settled clientId s)
    (joint : Joint clientId tickerBasePrices refs s) (admissible : Admissible clientId s i)
    (filled : s.SendsNoEmptyOrder i) (stepped : s.step i = .ok (s', out)) :
    Settled clientId s' := by
  cases i with
  | moveOrders tickerId bidPrice askPrice clip lossTooLarge =>
      obtain rfl := step_moveOrders stepped
      have narrow : s.tradeEngine.orderManager.nextOrderId + 1 < 2 ^ 64 := by
        have first := admissible.1
        unfold ME_MAX_ORDER_IDS at first
        lia
      obtain ⟨bid, -⟩ := joint.moveOrder narrow tickerId .bid lossTooLarge bidPrice clip
      refine (settled.moveOrder joint fun zero => (filled zero).1).moveOrder bid fun zero => ?_
      rw [sends_moveOrder]
      exact (filled zero).2
  | deliver =>
      rcases step_deliver stepped with rfl | ⟨x, rest, front, rfl⟩
      · exact settled
      · exact settled.deliver joint front
  | process =>
      rcases step_process stepped with rfl | ⟨r, rest, front, served⟩
      · exact settled
      · obtain ⟨own, sided⟩ := joint.requests r (by rw [front]; exact List.mem_cons_self)
        exact settled.serve joint (.inl ⟨own, front⟩) sided served
  | foreign r =>
      obtain ⟨other, sided⟩ := admissible.2
      exact settled.serve joint (.inr ⟨other, rfl⟩) sided stepped

/-- Where no message is on its way, the slots show the book. -/
theorem Settled.agrees (settled : Settled clientId s)
    (joint : Joint clientId tickerBasePrices refs s) (noRequest : s.clientRequests = [])
    (noResponse : s.clientResponses = []) : s.Agrees clientId := by
  intro tickerId side
  have phase := joint.phase tickerId side
  have read := (joint.refines tickerId).restingOf_eq clientId side
  have count := (joint.refines tickerId).length_restingOf clientId side
  have noNews : s.newsInFlight tickerId side = [] := by
    rw [newsInFlight, noRequest, List.filter_nil]
  have silent : s.undelivered tickerId side = [] := by
    rw [undelivered, noResponse, List.filter_nil]
  rw [noNews, silent] at phase
  rcases phase.of_quiet with ⟨free, shape⟩ | ⟨known, shape⟩
  · rw [shape] at count
    exact .inr ⟨free, List.eq_nil_of_length_eq_zero count⟩
  · have used : (s.slot tickerId side).orderState ≠ .INVALID ∧
        (s.slot tickerId side).orderState ≠ .DEAD := by
      rcases known with live | pending <;> simp [*]
    have wants := settled.wants tickerId side used.1 used.2
    rw [leftOf_of_ne wants] at shape
    rw [shape] at count
    have notPending : (s.slot tickerId side).orderState ≠ .PENDING_CANCEL := by
      intro pending
      obtain ⟨x, mem, -⟩ := settled.asked tickerId side pending (by
        intro empty
        rw [empty] at count
        cases count)
      rw [noRequest] at mem
      exact absurd mem List.not_mem_nil
    refine .inl ⟨known.resolve_right notPending, ?_⟩
    -- The one order of the client is the one of the slot.
    unfold held at shape
    obtain ⟨o, others, orders, terms, noMore⟩ := List.map_eq_cons_iff.mp shape
    rw [List.map_eq_nil_iff] at noMore
    subst noMore
    have own : o.key.clientId = clientId := by
      have mem : o ∈ ((refs tickerId).orders side).filter fun o => o.key.clientId = clientId := by
        rw [orders]
        exact List.mem_cons_self
      simpa using (List.mem_filter.mp mem).2
    rw [orders, List.map_cons, List.map_nil] at read
    rw [Prod.mk.injEq, Prod.mk.injEq] at terms
    obtain ⟨id, price, qty⟩ := terms
    obtain ⟨-, sided⟩ := joint.placed tickerId side used.1
    refine ⟨o.key, o.priority, own, id, ?_⟩
    rw [read, Resting.content, sided, price, qty]

/-- **Agreement at rest**, along every run in which no order of quantity zero is sent and every
order of the others is for BUY or SELL. -/
theorem run_at_rest (clientId : ClientId) (riskCfg : TickerId → RiskCfg)
    (tickerBasePrices : TickerId → Price) (inputs : List SessionInput)
    (admits : Admits (fun s i => Admissible clientId s i ∧ s.SendsNoEmptyOrder i) step
      (Session.new clientId riskCfg tickerBasePrices) inputs)
    (s : Session) (out : List MEMessage)
    (ran : run step (Session.new clientId riskCfg tickerBasePrices) inputs = .ok (s, out))
    (noRequest : s.clientRequests = []) (noResponse : s.clientResponses = []) :
    s.Agrees clientId := by
  obtain ⟨⟨refs, joint⟩, settled⟩ := admits_invariant
    (P := fun s => (∃ refs, Joint clientId tickerBasePrices refs s) ∧ Settled clientId s)
    ⟨⟨_, Joint.new clientId riskCfg tickerBasePrices⟩,
      Settled.new clientId riskCfg tickerBasePrices⟩
    (fun {t i u now} before admissible stepped => by
      obtain ⟨⟨refs, joint⟩, settled⟩ := before
      exact ⟨joint.step admissible.1 stepped,
        settled.step joint admissible.1 admissible.2 stepped⟩)
    admits ran
  exact settled.agrees joint noRequest noResponse

/-- A bid that is filled, a new one that rests, and an offer that is cancelled. -/
theorem run_at_rest_filled :
    ∃ s out, run step (Session.new 1 (fun _ => ⟨10, 20⟩) fun _ => 0)
        [.moveOrders 0 100 105 10 false, .process, .process, .deliver, .deliver,
          .foreign ⟨.NEW, 2, 0, 1, .SELL, 100, 10⟩, .deliver, .moveOrders 0 99 104 10 false,
          .process, .process, .deliver, .deliver] = .ok (s, out) ∧ s.Agrees 1 := by
  obtain ⟨s, out, ran, read⟩ := run_of_read step (Session.new 1 (fun _ => ⟨10, 20⟩) fun _ => 0)
    [.moveOrders 0 100 105 10 false, .process, .process, .deliver, .deliver,
      .foreign ⟨.NEW, 2, 0, 1, .SELL, 100, 10⟩, .deliver, .moveOrders 0 99 104 10 false,
      .process, .process, .deliver, .deliver]
    (fun result => decide (result.1.clientRequests = [] ∧ result.1.clientResponses = [])) true
    (by decide +kernel)
  obtain ⟨noRequest, noResponse⟩ := of_decide_eq_true read
  exact ⟨s, out, ran, run_at_rest 1 (fun _ => ⟨10, 20⟩) (fun _ => 0) _ (by decide +kernel) s out
    ran noRequest noResponse⟩

/-- The bid of the client has joined an order of side INVALID among the asks, and it is cancelled
as the last of them: the next BUY takes from it, while the client has another bid. -/
def unsidedBid : List SessionInput :=
  [.foreign ⟨.NEW, 2, 0, 1, .SELL, 105, 1⟩, .foreign ⟨.NEW, 2, 0, 2, .INVALID, 100, 1⟩,
    .moveOrders 0 100 Price_INVALID 10 false, .process, .deliver,
    .foreign ⟨.CANCEL, 2, 0, 1, .SELL, 105, 1⟩, .foreign ⟨.CANCEL, 2, 0, 2, .SELL, 100, 1⟩,
    .moveOrders 0 99 Price_INVALID 10 false, .process, .deliver,
    .moveOrders 0 99 Price_INVALID 10 false, .process, .deliver,
    .foreign ⟨.NEW, 2, 0, 3, .BUY, 100, 4⟩, .deliver]

/-- A live slot without an order: the default configuration, with a clip of zero, lets an
order of quantity zero through. It is accepted, and nothing rests. And a slot with a wrong
quantity, where another client sends an order that is neither for BUY nor for SELL. -/
theorem not_at_rest_empty_order :
    (∃ s out, run step (Session.new 1 (fun _ => {}) fun _ => 0)
        [.moveOrders 0 100 Price_INVALID 0 false, .process, .deliver] = .ok (s, out) ∧
      s.clientRequests = [] ∧ s.clientResponses = [] ∧ (s.slot 0 .bid).orderState = .LIVE ∧
      (s.exchange.tickerOrderBook 0).restingOf 1 .bid = [] ∧ ¬ s.Agrees 1) ∧
      ∃ s out, run step (Session.new 1 (fun _ => ⟨10, 20⟩) fun _ => 0) unsidedBid = .ok (s, out) ∧
        s.clientRequests = [] ∧ s.clientResponses = [] ∧ (s.slot 0 .bid).orderState = .LIVE ∧
        (s.slot 0 .bid).qty = 6 ∧ ¬ s.Agrees 1 := by
  constructor
  · obtain ⟨s, out, ran, read⟩ := run_of_read step (Session.new 1 (fun _ => {}) fun _ => 0)
      [.moveOrders 0 100 Price_INVALID 0 false, .process, .deliver]
      (fun result => decide (result.1.clientRequests = [] ∧ result.1.clientResponses = [] ∧
        (result.1.slot 0 .bid).orderState = .LIVE ∧
        ((result.1.exchange.tickerOrderBook 0).restingOf 1 .bid).length = 0)) true
      (by decide +kernel)
    obtain ⟨noRequest, noResponse, live, length⟩ := of_decide_eq_true read
    have empty := List.eq_nil_of_length_eq_zero length
    refine ⟨s, out, ran, noRequest, noResponse, live, empty, fun agrees => ?_⟩
    rcases agrees 0 .bid with ⟨-, key, priority, -, -, rests⟩ | ⟨free, -⟩
    · rw [empty] at rests
      cases rests
    · simp [live] at free
  · obtain ⟨s, out, ran, read⟩ := run_of_read step (Session.new 1 (fun _ => ⟨10, 20⟩) fun _ => 0)
      unsidedBid
      (fun result => decide (result.1.clientRequests = [] ∧ result.1.clientResponses = [] ∧
        (result.1.slot 0 .bid).orderState = .LIVE ∧ (result.1.slot 0 .bid).qty = 6 ∧
        ((result.1.exchange.tickerOrderBook 0).restingOf 1 .bid).map
          (fun content => content.2.2.2.1) = [10])) true
      (by decide +kernel)
    obtain ⟨noRequest, noResponse, live, qty, rests⟩ := of_decide_eq_true read
    refine ⟨s, out, ran, noRequest, noResponse, live, qty, fun agrees => ?_⟩
    rcases agrees 0 .bid with ⟨-, key, priority, -, -, shown⟩ | ⟨free, -⟩
    · rw [shown, qty] at rests
      simp at rests
    · simp [live] at free

end Session

end NanoTrade
