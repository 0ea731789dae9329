import NanoTrade.Exchange.MEOrderBook
import NanoTrade.Machine
import NanoTrade.Trading.OrderPhase

/-!
# A strategy and the exchange

One trade engine whose orders are sent through `OrderManager::moveOrders`, the exchange, and the
requests and responses on their way between them. The algorithm may call `moveOrders` at any
time with any prices; other clients send what they like.

`Joint` is the invariant of the whole: the order slots, both channels and the books agree on
every order (`OrderPhase`), and ids are not used twice. `Joint.step` carries it over one step.
-/

namespace NanoTrade

/-- The channels hold their messages in the order in which they were sent. -/
structure Session where
  tradeEngine : TradeEngine
  exchange : MatchingEngine
  clientRequests : List MEClientRequest
  clientResponses : List MEClientResponse

inductive SessionInput
  /-- The algorithm calls `moveOrders`. -/
  | moveOrders (tickerId : TickerId) (bidPrice askPrice : Price) (clip : Qty)
      (lossTooLarge : Bool)
  /-- The trade engine reads its next response. -/
  | deliver
  /-- The matching engine reads the next request of the client. -/
  | process
  /-- The matching engine reads a request of another client. -/
  | foreign (r : MEClientRequest)

namespace Session

def new (clientId : ClientId) (riskCfg : TickerId → RiskCfg)
    (tickerBasePrices : TickerId → Price) : Session :=
  { tradeEngine := .new clientId riskCfg, exchange := .new tickerBasePrices
    clientRequests := [], clientResponses := [] }

/-- The matching engine handles a request, and its responses to the client are on their way. -/
def serve (s : Session) (r : MEClientRequest) : Except Fault (Session × List MEMessage) := do
  let (exchange, out) ← s.exchange.processClientRequest r
  pure ({ s with
    exchange
    clientResponses := s.clientResponses ++
      (responses out).filter fun x => x.clientId = s.tradeEngine.clientId }, out)

def step (s : Session) : SessionInput → Except Fault (Session × List MEMessage)
  | .moveOrders tickerId bidPrice askPrice clip lossTooLarge => do
    let (tradeEngine, sent) ←
      s.tradeEngine.moveOrders tickerId bidPrice askPrice clip lossTooLarge
    pure ({ s with tradeEngine, clientRequests := s.clientRequests ++ sent }, [])
  | .deliver =>
    match s.clientResponses with
    | [] => .ok (s, [])
    | x :: rest => do
      let tradeEngine ← s.tradeEngine.onOrderUpdate x
      pure ({ s with tradeEngine, clientResponses := rest }, [])
  | .process =>
    match s.clientRequests with
    | [] => .ok (s, [])
    | r :: rest => { s with clientRequests := rest }.serve r
  | .foreign r => s.serve r

/-- The order slot of a side. -/
def slot (s : Session) (tickerId : TickerId) (side : BookSide) : OMOrder :=
  s.tradeEngine.orderManager.tickerSideOrder tickerId side.toSide

/-- The NEWs of a side that are on their way to the matching engine. -/
def newsInFlight (s : Session) (tickerId : TickerId) (side : BookSide) : List MEClientRequest :=
  s.clientRequests.filter fun r => r.type = .NEW ∧ r.tickerId = tickerId ∧ r.side = side.toSide

/-- The responses for a side that are on their way to the trade engine. -/
def undelivered (s : Session) (tickerId : TickerId) (side : BookSide) : List MEClientResponse :=
  s.clientResponses.filter fun x => x.tickerId = tickerId ∧ x.side = side.toSide

/-- Requests of others carry other client ids, and their new orders are for BUY or SELL. -/
def OfOthers (clientId : ClientId) : SessionInput → Prop
  | .foreign r => r.clientId ≠ clientId ∧ Sided r
  | .moveOrders .. | .deliver | .process => True

instance (clientId : ClientId) : DecidablePred (OfOthers clientId)
  | .foreign _ => inferInstanceAs (Decidable (_ ∧ _))
  | .moveOrders .. | .deliver | .process => isTrue trivial

/-- The ids that have been given out are inside the tables of the exchange, and so much is known
of the requests of others. -/
def Admissible (clientId : ClientId) (s : Session) (i : SessionInput) : Prop :=
  s.tradeEngine.orderManager.nextOrderId ≤ ME_MAX_ORDER_IDS ∧ OfOthers clientId i

instance (clientId : ClientId) (s : Session) : DecidablePred (Admissible clientId s) :=
  fun _ => inferInstanceAs (Decidable (_ ∧ _))

/-! ## The invariant -/

/-- Order ids are given out once, and cancels are only sent for orders that are not live any
more. -/
structure Numbered (s : Session) : Prop where
  below : ∀ tickerId side, (s.slot tickerId side).orderState ≠ .INVALID →
    (s.slot tickerId side).orderId < s.tradeEngine.orderManager.nextOrderId
  distinct : ∀ t side t' side', (s.slot t side).orderState ≠ .INVALID →
    (s.slot t' side').orderState ≠ .INVALID →
    (s.slot t side).orderId = (s.slot t' side').orderId → t = t' ∧ side = side'
  canceling : ∀ r ∈ s.clientRequests, r.type = .CANCEL →
    r.orderId < s.tradeEngine.orderManager.nextOrderId ∧
      ∀ tickerId side, (s.slot tickerId side).orderState ≠ .INVALID →
        (s.slot tickerId side).orderId = r.orderId →
        (s.slot tickerId side).orderState = .PENDING_CANCEL ∨
          (s.slot tickerId side).orderState = .DEAD

/-- The joint invariant of the order manager, the channels and the books. -/
structure Joint (clientId : ClientId) (tickerBasePrices : TickerId → Price)
    (refs : TickerId → RefBook) (s : Session) : Prop where
  client : s.tradeEngine.clientId = clientId
  refines : ∀ tickerId, Refines (tickerBasePrices tickerId) False
    (s.exchange.tickerOrderBook tickerId) (refs tickerId)
  phase : ∀ tickerId side, OrderPhase exchangeMarket clientId (s.slot tickerId side)
    (s.newsInFlight tickerId side) (s.undelivered tickerId side)
    (held clientId ((refs tickerId).orders side))
  requests : ∀ r ∈ s.clientRequests, r.clientId = clientId ∧ Sided r
  responses : ∀ x ∈ s.clientResponses,
    x.type = .CANCEL_REJECTED ∨ ∃ side : BookSide, x.side = side.toSide
  placed : ∀ tickerId side, (s.slot tickerId side).orderState ≠ .INVALID →
    (s.slot tickerId side).tickerId = tickerId ∧ (s.slot tickerId side).side = side.toSide
  numbered : s.Numbered

variable {clientId : ClientId} {tickerBasePrices : TickerId → Price}
  {refs : TickerId → RefBook} {s s' : Session} {r : MEClientRequest} {out : List MEMessage}

theorem Joint.new (clientId : ClientId) (riskCfg : TickerId → RiskCfg)
    (tickerBasePrices : TickerId → Price) :
    Joint clientId tickerBasePrices (fun _ => RefBook.new)
      (new clientId riskCfg tickerBasePrices) := by
  have free : ∀ tickerId side, ((Session.new clientId riskCfg tickerBasePrices).slot tickerId
      side).orderState = .INVALID := fun _ _ => rfl
  refine ⟨rfl, ?_, ?_, ?_, ?_, ?_, ?_, ?_, ?_⟩
  · exact fun tickerId => Refines.new (tickerBasePrices tickerId) False
  · exact fun tickerId side => .idle (.inl rfl)
  · exact fun r mem => absurd mem List.not_mem_nil
  · exact fun x mem => absurd mem List.not_mem_nil
  · exact fun tickerId side used => (used (free tickerId side)).elim
  · exact fun tickerId side used => (used (free tickerId side)).elim
  · exact fun t side t' side' used => (used (free t side)).elim
  · exact fun r mem => absurd mem List.not_mem_nil

/-! ## The algorithm moves an order -/

/-- What a move of one order leaves behind. -/
def moved (s : Session) (result : OrderManager × List MEClientRequest) : Session :=
  { s with
    tradeEngine := { s.tradeEngine with orderManager := result.1 }
    clientRequests := s.clientRequests ++ result.2 }

theorem moved_slot (result : OrderManager × List MEClientRequest) (tickerId : TickerId)
    (side : BookSide) :
    (s.moved result).slot tickerId side = result.1.tickerSideOrder tickerId side.toSide := rfl

/-- A move that sets the slot of a side leaves the others. -/
theorem moved_set {o : OMOrder} {result : OrderManager × List MEClientRequest}
    {tickerId : TickerId} {side : BookSide}
    (writes : result.1.tickerSideOrder =
      (s.tradeEngine.orderManager.setOrder tickerId side.toSide o).tickerSideOrder) :
    (s.moved result).slot tickerId side = o ∧
      ∀ {t side'}, ¬ (t = tickerId ∧ side'.toSide = side.toSide) →
        (s.moved result).slot t side' = s.slot t side' := by
  constructor
  · rw [moved_slot, writes]
    exact OrderManager.setOrder_self o
  · intro t side' apart
    rw [moved_slot, writes]
    exact OrderManager.setOrder_of_ne o apart

theorem moved_newsInFlight (result : OrderManager × List MEClientRequest) (tickerId : TickerId)
    (side : BookSide) : (s.moved result).newsInFlight tickerId side =
      s.newsInFlight tickerId side ++ result.2.filter fun r =>
        r.type = .NEW ∧ r.tickerId = tickerId ∧ r.side = side.toSide := by
  rw [newsInFlight, moved, List.filter_append]
  rfl

/-- Two slots are the same or apart. -/
theorem slot_cases (t tickerId : TickerId) (side' side : BookSide) :
    (t = tickerId ∧ side' = side) ∨ ¬ (t = tickerId ∧ side'.toSide = side.toSide) := by
  rw [BookSide.toSide_inj]
  exact em _

section Slots

variable {tickerId : TickerId} {side : BookSide}

/-- A CANCEL names an id that was given out, of a slot that does not go on. -/
theorem Numbered.cancelOrder (numbered : s.Numbered)
    (used : (s.slot tickerId side).orderState ≠ .INVALID) (clientId : ClientId) :
    (s.moved (s.tradeEngine.orderManager.cancelOrder clientId tickerId side.toSide)).Numbered := by
  obtain ⟨t', ht'⟩ : ∃ t', t' = s.moved (s.tradeEngine.orderManager.cancelOrder clientId tickerId
    side.toSide) := ⟨_, rfl⟩
  have requests : t'.clientRequests =
      s.clientRequests ++ [OrderManager.cancelRequest clientId (s.slot tickerId side)] := by
    rw [ht']
    rfl
  have next : t'.tradeEngine.orderManager.nextOrderId =
      s.tradeEngine.orderManager.nextOrderId := by
    rw [ht']
    rfl
  -- The slot only changes its state.
  obtain ⟨self, other⟩ : t'.slot tickerId side =
      { s.slot tickerId side with orderState := .PENDING_CANCEL } ∧
        ∀ {t side'}, ¬ (t = tickerId ∧ side'.toSide = side.toSide) →
          t'.slot t side' = s.slot t side' := by
    rw [ht']
    exact moved_set rfl
  have same : ∀ t side', (t'.slot t side').orderId = (s.slot t side').orderId ∧
      ((t'.slot t side').orderState ≠ .INVALID → (s.slot t side').orderState ≠ .INVALID) := by
    intro t side'
    rcases slot_cases t tickerId side' side with ⟨rfl, rfl⟩ | apart
    · rw [self]
      exact ⟨rfl, fun _ => used⟩
    · rw [other apart]
      exact ⟨rfl, id⟩
  rw [← ht']
  refine ⟨?_, ?_, ?_⟩
  · intro t side' now
    obtain ⟨id, before⟩ := same t side'
    rw [id, next]
    exact numbered.below t side' (before now)
  · intro t side' t' side'' now now' sameId
    obtain ⟨id, before⟩ := same t side'
    obtain ⟨id', before'⟩ := same t' side''
    rw [id, id'] at sameId
    exact numbered.distinct t side' t' side'' (before now) (before' now') sameId
  · intro r mem isCancel
    rw [requests] at mem
    rw [next]
    rcases List.mem_append.mp mem with old | new
    · obtain ⟨bound, asked⟩ := numbered.canceling r old isCancel
      refine ⟨bound, fun t side' now sameId => ?_⟩
      obtain ⟨id, before⟩ := same t side'
      rw [id] at sameId
      rcases slot_cases t tickerId side' side with ⟨rfl, rfl⟩ | apart
      · rw [self]
        exact .inl rfl
      · rw [other apart]
        exact asked t side' (before now) sameId
    · rw [List.mem_singleton] at new
      subst new
      refine ⟨numbered.below tickerId side used, fun t side' now sameId => ?_⟩
      obtain ⟨id, before⟩ := same t side'
      rw [id] at sameId
      obtain ⟨rfl, rfl⟩ := numbered.distinct t side' tickerId side (before now) used sameId
      rw [self]
      exact .inl rfl

/-- A cancel of a live order. -/
theorem Joint.cancelOrder (joint : Joint clientId tickerBasePrices refs s)
    (live : (s.slot tickerId side).orderState = .LIVE) :
    Joint clientId tickerBasePrices refs
      (s.moved (s.tradeEngine.orderManager.cancelOrder clientId tickerId side.toSide)) := by
  have used : (s.slot tickerId side).orderState ≠ .INVALID := by
    rw [live]
    exact fun same => by cases same
  obtain ⟨self, other⟩ : (s.moved (s.tradeEngine.orderManager.cancelOrder clientId tickerId
        side.toSide)).slot tickerId side =
          { s.slot tickerId side with orderState := .PENDING_CANCEL } ∧ _ :=
    moved_set rfl
  have noNew : ∀ t side', (s.moved (s.tradeEngine.orderManager.cancelOrder clientId tickerId
      side.toSide)).newsInFlight t side' = s.newsInFlight t side' := by
    intro t side'
    rw [moved_newsInFlight]
    exact List.append_nil _
  refine ⟨joint.client, joint.refines, ?_, ?_, joint.responses, ?_,
    joint.numbered.cancelOrder used clientId⟩
  · intro t side'
    rw [noNew]
    rcases slot_cases t tickerId side' side with ⟨rfl, rfl⟩ | apart
    · rw [self]
      exact (joint.phase t side').cancelOrder live
    · rw [other apart]
      exact joint.phase t side'
  · intro r mem
    rcases List.mem_append.mp mem with old | new
    · exact joint.requests r old
    · rw [OrderManager.cancelOrder, List.mem_singleton] at new
      subst new
      exact ⟨rfl, fun isNew => by cases isNew⟩
  · intro t side' now
    rcases slot_cases t tickerId side' side with ⟨rfl, rfl⟩ | apart
    · rw [self]
      exact joint.placed t side' used
    · rw [other apart] at now ⊢
      exact joint.placed t side' now

/-- A new order has the next id. -/
theorem Numbered.newOrder (numbered : s.Numbered)
    (narrow : s.tradeEngine.orderManager.nextOrderId + 1 < 2 ^ 64) (clientId : ClientId)
    (price : Price) (qty : Qty) :
    (s.moved (s.tradeEngine.orderManager.newOrder clientId tickerId side.toSide price
      qty)).Numbered := by
  obtain ⟨t', ht'⟩ : ∃ t', t' = s.moved (s.tradeEngine.orderManager.newOrder clientId tickerId
    side.toSide price qty) := ⟨_, rfl⟩
  have next : t'.tradeEngine.orderManager.nextOrderId =
      s.tradeEngine.orderManager.nextOrderId + 1 := by
    rw [ht']
    exact Nat.mod_eq_of_lt narrow
  obtain ⟨self, other⟩ : t'.slot tickerId side =
      s.tradeEngine.orderManager.pendingNew tickerId side.toSide price qty ∧
        ∀ {t side'}, ¬ (t = tickerId ∧ side'.toSide = side.toSide) →
          t'.slot t side' = s.slot t side' := by
    rw [ht']
    exact moved_set rfl
  have below : ∀ t side', (s.slot t side').orderState ≠ .INVALID →
      (s.slot t side').orderId ≠ s.tradeEngine.orderManager.nextOrderId :=
    fun t side' used => Nat.ne_of_lt (numbered.below t side' used)
  have requests : ∀ r ∈ t'.clientRequests, r.type = .CANCEL → r ∈ s.clientRequests := by
    intro r mem isCancel
    rw [ht'] at mem
    rcases List.mem_append.mp mem with old | new
    · exact old
    · rw [OrderManager.newOrder, List.mem_singleton] at new
      subst new
      cases isCancel
  rw [← ht']
  refine ⟨?_, ?_, ?_⟩
  · intro t side' used
    rw [next]
    rcases slot_cases t tickerId side' side with ⟨rfl, rfl⟩ | apart
    · rw [self]
      exact Nat.lt_succ_self _
    · rw [other apart] at used ⊢
      exact Nat.lt_succ_of_lt (numbered.below t side' used)
  · intro t side' u side'' used used' sameId
    rcases slot_cases t tickerId side' side with ⟨rfl, rfl⟩ | apart
    · rcases slot_cases u t side'' side' with ⟨rfl, rfl⟩ | apart'
      · exact ⟨rfl, rfl⟩
      · rw [other apart'] at used' sameId
        rw [self] at sameId
        exact (below u side'' used' sameId.symm).elim
    · rcases slot_cases u tickerId side'' side with ⟨rfl, rfl⟩ | apart'
      · rw [other apart] at used sameId
        rw [self] at sameId
        exact (below t side' used sameId).elim
      · rw [other apart] at used sameId
        rw [other apart'] at used' sameId
        exact numbered.distinct t side' u side'' used used' sameId
  · intro r mem isCancel
    obtain ⟨bound, asked⟩ := numbered.canceling r (requests r mem isCancel) isCancel
    rw [next]
    refine ⟨Nat.lt_succ_of_lt bound, ?_⟩
    intro t side' used sameId
    rcases slot_cases t tickerId side' side with ⟨rfl, rfl⟩ | apart
    · rw [self] at sameId
      exact (Nat.ne_of_gt bound sameId).elim
    · rw [other apart] at used sameId ⊢
      exact asked t side' used sameId

/-- A new order in a free slot. -/
theorem Joint.newOrder (joint : Joint clientId tickerBasePrices refs s)
    (free : (s.slot tickerId side).orderState = .INVALID ∨
      (s.slot tickerId side).orderState = .DEAD)
    (narrow : s.tradeEngine.orderManager.nextOrderId + 1 < 2 ^ 64) (price : Price) (qty : Qty) :
    Joint clientId tickerBasePrices refs
      (s.moved (s.tradeEngine.orderManager.newOrder clientId tickerId side.toSide price qty)) := by
  have numbered : (s.moved (s.tradeEngine.orderManager.newOrder clientId tickerId side.toSide price
    qty)).Numbered := joint.numbered.newOrder narrow clientId price qty
  obtain ⟨t', ht'⟩ : ∃ t', t' = s.moved (s.tradeEngine.orderManager.newOrder clientId tickerId
    side.toSide price qty) := ⟨_, rfl⟩
  rw [← ht'] at numbered ⊢
  obtain ⟨self, other⟩ : t'.slot tickerId side =
      s.tradeEngine.orderManager.pendingNew tickerId side.toSide price qty ∧
        ∀ {t side'}, ¬ (t = tickerId ∧ side'.toSide = side.toSide) →
          t'.slot t side' = s.slot t side' := by
    rw [ht']
    exact moved_set rfl
  refine ⟨?_, ?_, ?_, ?_, ?_, ?_, numbered⟩
  · rw [ht']
    exact joint.client
  · rw [ht']
    exact joint.refines
  · intro t side'
    have answers : t'.undelivered t side' = s.undelivered t side' := by
      rw [ht']
      rfl
    have news : t'.newsInFlight t side' = s.newsInFlight t side' ++
        [OrderManager.newRequest clientId (s.tradeEngine.orderManager.pendingNew tickerId
          side.toSide price qty)].filter fun r =>
            r.type = .NEW ∧ r.tickerId = t ∧ r.side = side'.toSide := by
      rw [ht', moved_newsInFlight]
      rfl
    rw [answers, news]
    rcases slot_cases t tickerId side' side with ⟨rfl, rfl⟩ | apart
    · rw [self, List.filter_cons_of_pos (by simp [OrderManager.newRequest,
        OrderManager.pendingNew])]
      exact (joint.phase t side').newOrder free rfl
    · rw [other apart, List.filter_cons_of_neg, List.filter_nil, List.append_nil]
      · exact joint.phase t side'
      · rw [decide_eq_true_eq]
        exact fun here => apart ⟨here.2.1.symm, here.2.2.symm⟩
  · intro r mem
    rw [ht'] at mem
    rcases List.mem_append.mp mem with old | new
    · exact joint.requests r old
    · rw [OrderManager.newOrder, List.mem_singleton] at new
      subst new
      refine ⟨rfl, fun _ => ?_⟩
      cases side
      · exact .inl rfl
      · exact .inr rfl
  · rw [ht']
    exact joint.responses
  · intro t side' used
    rcases slot_cases t tickerId side' side with ⟨rfl, rfl⟩ | apart
    · rw [self]
      exact ⟨rfl, rfl⟩
    · rw [other apart] at used ⊢
      exact joint.placed t side' used

end Slots

/-- A move of one order, with the risk check in front of it. -/
def moveOrder (s : Session) (tickerId : TickerId) (side : BookSide) (lossTooLarge : Bool)
    (price : Price) (qty : Qty) : Session :=
  s.moved (s.tradeEngine.orderManager.moveOrder s.tradeEngine.clientId tickerId side.toSide
    (s.tradeEngine.checkPreTradeRisk tickerId lossTooLarge) price qty)

/-- All that a move does. -/
theorem moveOrder_cases (s : Session) (tickerId : TickerId) (side : BookSide)
    (lossTooLarge : Bool) (price : Price) (qty : Qty) :
    s.moveOrder tickerId side lossTooLarge price qty = s ∨
    ((s.slot tickerId side).orderState = .LIVE ∧
      s.moveOrder tickerId side lossTooLarge price qty =
        s.moved (s.tradeEngine.orderManager.cancelOrder s.tradeEngine.clientId tickerId
          side.toSide)) ∨
    (((s.slot tickerId side).orderState = .INVALID ∨ (s.slot tickerId side).orderState = .DEAD) ∧
      price ≠ Price_INVALID ∧
      s.tradeEngine.checkPreTradeRisk tickerId lossTooLarge side.toSide qty = .ALLOWED ∧
      s.moveOrder tickerId side lossTooLarge price qty =
        s.moved (s.tradeEngine.orderManager.newOrder s.tradeEngine.clientId tickerId side.toSide
          price qty)) := by
  unfold moveOrder
  rcases OrderManager.moveOrder_cases s.tradeEngine.orderManager s.tradeEngine.clientId tickerId
    side.toSide (s.tradeEngine.checkPreTradeRisk tickerId lossTooLarge) price qty with
    nothing | ⟨live, cancels⟩ | ⟨free, wanted, allowed, sends⟩
  · rw [nothing, moved, List.append_nil]
    exact .inl rfl
  · rw [cancels]
    exact .inr (.inl ⟨live, rfl⟩)
  · rw [sends]
    exact .inr (.inr ⟨free, wanted, allowed, rfl⟩)

/-- `moveOrders` moves the bid, then the ask. -/
theorem step_moveOrders {tickerId : TickerId} {bidPrice askPrice : Price} {clip : Qty}
    {lossTooLarge : Bool}
    (stepped : s.step (.moveOrders tickerId bidPrice askPrice clip lossTooLarge) = .ok (s', out)) :
    s' = (s.moveOrder tickerId .bid lossTooLarge bidPrice clip).moveOrder tickerId .ask lossTooLarge
      askPrice clip := by
  cases moved : s.tradeEngine.moveOrders tickerId bidPrice askPrice clip lossTooLarge with
  | error fault => simp [step, moved, bind, Except.bind] at stepped
  | ok result =>
      obtain ⟨tradeEngine, sent⟩ := result
      simp only [step, moved, bind, Except.bind, pure, Except.pure, Except.ok.injEq,
        Prod.mk.injEq] at stepped
      obtain ⟨rfl, rfl⟩ := stepped
      obtain ⟨bid, ask, rfl, rfl, rfl, rfl⟩ := TradeEngine.moveOrders_eq_ok moved
      rw [← List.append_assoc]
      rfl

theorem Joint.moveOrder (joint : Joint clientId tickerBasePrices refs s)
    (narrow : s.tradeEngine.orderManager.nextOrderId + 1 < 2 ^ 64) (tickerId : TickerId)
    (side : BookSide) (lossTooLarge : Bool) (price : Price) (qty : Qty) :
    Joint clientId tickerBasePrices refs (s.moveOrder tickerId side lossTooLarge price qty) ∧
      (s.moveOrder tickerId side lossTooLarge price qty).tradeEngine.orderManager.nextOrderId ≤
        s.tradeEngine.orderManager.nextOrderId + 1 := by
  rcases s.moveOrder_cases tickerId side lossTooLarge price qty with
    nothing | ⟨live, cancels⟩ | ⟨free, -, -, sends⟩
  · rw [nothing]
    exact ⟨joint, Nat.le_succ _⟩
  · rw [cancels, joint.client]
    exact ⟨joint.cancelOrder live, Nat.le_succ _⟩
  · rw [sends, joint.client]
    exact ⟨joint.newOrder free narrow price qty, Nat.mod_le _ _⟩

/-! ## The trade engine reads a response -/

/-- What the next response leaves behind. -/
def delivered (s : Session) (x : MEClientResponse) (rest : List MEClientResponse) : Session :=
  { s with tradeEngine := s.tradeEngine.updated x, clientResponses := rest }

section Deliver

variable {x : MEClientResponse} {rest : List MEClientResponse}

theorem delivered_slot_self (x : MEClientResponse) (rest : List MEClientResponse)
    (side : BookSide) (sided : x.side = side.toSide) :
    (s.delivered x rest).slot x.tickerId side =
      OrderManager.updated x (s.slot x.tickerId side) := by
  simp only [slot, delivered, TradeEngine.updated, ← sided]
  exact OrderManager.setOrder_self _

theorem delivered_slot_of_ne {tickerId : TickerId} {side : BookSide}
    (apart : ¬ (tickerId = x.tickerId ∧ side.toSide = x.side)) :
    (s.delivered x rest).slot tickerId side = s.slot tickerId side :=
  OrderManager.setOrder_of_ne _ apart

/-- The response at the front of its channel is the next one for its slot. -/
theorem undelivered_self (front : s.clientResponses = x :: rest) (side : BookSide)
    (sided : x.side = side.toSide) : s.undelivered x.tickerId side =
      x :: (s.delivered x rest).undelivered x.tickerId side := by
  rw [undelivered, front, List.filter_cons_of_pos (by simp [sided])]
  rfl

theorem undelivered_of_ne (front : s.clientResponses = x :: rest) {tickerId : TickerId}
    {side : BookSide} (apart : ¬ (tickerId = x.tickerId ∧ side.toSide = x.side)) :
    s.undelivered tickerId side = (s.delivered x rest).undelivered tickerId side := by
  rw [undelivered, front, List.filter_cons_of_neg]
  · rfl
  · rw [decide_eq_true_eq]
    exact fun here => apart ⟨here.1.symm, here.2.symm⟩

/-- The next response. -/
theorem Joint.deliver (joint : Joint clientId tickerBasePrices refs s)
    (front : s.clientResponses = x :: rest) :
    Joint clientId tickerBasePrices refs (s.delivered x rest) := by
  -- A slot that the response is for has been used, and it is accepted only once.
  have before : ∀ side : BookSide, x.side = side.toSide →
      (s.slot x.tickerId side).orderState ≠ .INVALID ∧
        ((s.slot x.tickerId side).orderState ≠ .PENDING_NEW → x.type ≠ .ACCEPTED) := by
    intro side sided
    have phase := joint.phase x.tickerId side
    rw [undelivered_self front side sided] at phase
    rcases phase.head with ⟨pending, -⟩ | ⟨known, filled, -⟩ | ⟨pending, canceled⟩
    · exact ⟨by simp [pending], fun late => (late pending).elim⟩
    · exact ⟨by rcases known with live | pending <;> simp [*], fun _ => by simp [filled]⟩
    · exact ⟨by simp [pending], fun _ => by simp [canceled]⟩
  have same : ∀ t side, ((s.delivered x rest).slot t side).orderId = (s.slot t side).orderId ∧
      ((s.delivered x rest).slot t side).tickerId = (s.slot t side).tickerId ∧
      ((s.delivered x rest).slot t side).side = (s.slot t side).side ∧
      (((s.delivered x rest).slot t side).orderState ≠ .INVALID →
        (s.slot t side).orderState ≠ .INVALID) := by
    intro t side
    by_cases here : t = x.tickerId ∧ side.toSide = x.side
    · obtain ⟨rfl, sided⟩ := here
      rw [delivered_slot_self x rest side sided.symm]
      refine ⟨OrderManager.updated_orderId _ _, OrderManager.updated_tickerId _ _,
        OrderManager.updated_side _ _, fun _ => (before side sided.symm).1⟩
    · rw [delivered_slot_of_ne here]
      exact ⟨rfl, rfl, rfl, id⟩
  refine ⟨joint.client, joint.refines, ?_, joint.requests, ?_, ?_, ?_, ?_, ?_⟩
  · intro t side
    have phase := joint.phase t side
    by_cases here : t = x.tickerId ∧ side.toSide = x.side
    · obtain ⟨rfl, sided⟩ := here
      rw [undelivered_self front side sided.symm] at phase
      rw [delivered_slot_self x rest side sided.symm]
      exact phase.deliver
    · rw [undelivered_of_ne front here] at phase
      rw [delivered_slot_of_ne here]
      exact phase
  · intro y mem
    refine joint.responses y ?_
    rw [front]
    exact List.mem_cons_of_mem _ mem
  · intro t side now
    obtain ⟨-, ticker, sided, was⟩ := same t side
    rw [ticker, sided]
    exact joint.placed t side (was now)
  · intro t side now
    obtain ⟨id, -, -, was⟩ := same t side
    rw [id]
    exact joint.numbered.below t side (was now)
  · intro t side t' side' now now' sameId
    obtain ⟨id, -, -, was⟩ := same t side
    obtain ⟨id', -, -, was'⟩ := same t' side'
    rw [id, id'] at sameId
    exact joint.numbered.distinct t side t' side' (was now) (was' now') sameId
  · intro r mem isCancel
    obtain ⟨bound, asked⟩ := joint.numbered.canceling r mem isCancel
    refine ⟨bound, ?_⟩
    intro t side now sameId
    obtain ⟨id, -, -, was⟩ := same t side
    rw [id] at sameId
    have state := asked t side (was now) sameId
    by_cases here : t = x.tickerId ∧ side.toSide = x.side
    · obtain ⟨rfl, sided⟩ := here
      rw [delivered_slot_self x rest side sided.symm]
      refine OrderManager.updated_asked state ((before side sided.symm).2 ?_)
      rcases state with canceling | dead <;> simp [*]
    · rw [delivered_slot_of_ne here]
      exact state

end Deliver

/-! ## The matching engine reads a request -/

/-- The responses that a request adds to the channel, by slots. -/
theorem filter_replies (replies : Replies r out) (tickerId : TickerId) (side : BookSide) :
    ((responses out).filter fun x => x.clientId = clientId).filter
        (fun x => x.tickerId = tickerId ∧ x.side = side.toSide) =
      if tickerId = r.tickerId then answers clientId side.toSide out else [] := by
  rw [List.filter_filter]
  split
  · rename_i here
    rw [answers]
    refine List.filter_congr fun x mem => ?_
    have ticker := (replies x mem).1
    simp [here, ticker, Bool.and_comm]
  · rename_i apart
    refine List.filter_eq_nil_iff.mpr fun x mem => ?_
    have ticker := (replies x mem).1
    simp only [Bool.and_eq_true, decide_eq_true_eq]
    exact fun here => apart (here.1.1.symm.trans ticker)

/-- What a request that was read leaves behind. -/
def answered (s : Session) (requests : List MEClientRequest) (exchange : MatchingEngine)
    (out : List MEMessage) : Session :=
  { s with
    exchange
    clientRequests := requests
    clientResponses := s.clientResponses ++
      (responses out).filter fun x => x.clientId = s.tradeEngine.clientId }

theorem serve_eq_ok {requests : List MEClientRequest}
    (served : { s with clientRequests := requests }.serve r = .ok (s', out)) :
    ∃ book, (s.exchange.tickerOrderBook r.tickerId).processClientRequest r = .ok (book, out) ∧
      s' = s.answered requests
        ⟨Function.update s.exchange.tickerOrderBook r.tickerId book⟩ out := by
  unfold serve at served
  cases ran : s.exchange.processClientRequest r with
  | error fault => simp [ran, bind, Except.bind] at served
  | ok result =>
      obtain ⟨exchange, sent⟩ := result
      simp only [ran, bind, Except.bind, pure, Except.pure, Except.ok.injEq, Prod.mk.injEq]
        at served
      obtain ⟨rfl, rfl⟩ := served
      obtain ⟨-, book, answered, rfl⟩ := MatchingEngine.processClientRequest_eq_ok.mp ran
      exact ⟨book, answered, rfl⟩

/-- The request is the next one of the client, or one of another client. -/
def Reads (clientId : ClientId) (s : Session) (r : MEClientRequest)
    (requests : List MEClientRequest) : Prop :=
  (r.clientId = clientId ∧ s.clientRequests = r :: requests) ∨
    (r.clientId ≠ clientId ∧ s.clientRequests = requests)

section Answered

variable {requests : List MEClientRequest} {exchange : MatchingEngine}

theorem answered_undelivered (client : s.tradeEngine.clientId = clientId)
    (replies : Replies r out) (tickerId : TickerId) (side : BookSide) :
    (s.answered requests exchange out).undelivered tickerId side =
      s.undelivered tickerId side ++
        if tickerId = r.tickerId then answers clientId side.toSide out else [] := by
  rw [← filter_replies replies, ← client, undelivered, answered, List.filter_append]
  rfl

/-- Unless it is a NEW of the client for the slot, the request leaves the NEWs of a slot. -/
theorem Reads.newsInFlight_of_ne (reads : Reads clientId s r requests) {tickerId : TickerId}
    {side : BookSide}
    (apart : ¬ (r.clientId = clientId ∧ r.type = .NEW ∧ r.tickerId = tickerId ∧
      r.side = side.toSide)) :
    s.newsInFlight tickerId side =
      (s.answered requests exchange out).newsInFlight tickerId side := by
  rcases reads with ⟨own, front⟩ | ⟨-, same⟩
  · rw [newsInFlight, front, List.filter_cons_of_neg]
    · rfl
    · rw [decide_eq_true_eq]
      exact fun here => apart ⟨own, here⟩
  · rw [newsInFlight, same]
    rfl

theorem Reads.newsInFlight_self (reads : Reads clientId s r requests)
    (exchange : MatchingEngine) (out : List MEMessage) {side : BookSide}
    (own : r.clientId = clientId) (isNew : r.type = .NEW) (sided : r.side = side.toSide) :
    s.newsInFlight r.tickerId side =
      r :: (s.answered requests exchange out).newsInFlight r.tickerId side := by
  rcases reads with ⟨-, front⟩ | ⟨foreign, -⟩
  · rw [newsInFlight, front, List.filter_cons_of_pos (by simp [isNew, sided])]
    rfl
  · exact (foreign own).elim

/-- The slots of the ticker of a request, behind it. -/
theorem Joint.phase_answered {ref' : RefBook}
    (joint : Joint clientId tickerBasePrices refs s) (reads : Reads clientId s r requests)
    (reaction : Reaction clientId r out (fun d => held clientId ((refs r.tickerId).orders d))
      fun d => held clientId (ref'.orders d)) (side : BookSide) :
    OrderPhase exchangeMarket clientId (s.slot r.tickerId side)
      ((s.answered requests exchange out).newsInFlight r.tickerId side)
      (s.undelivered r.tickerId side ++ answers clientId side.toSide out)
      (held clientId (ref'.orders side)) := by
  have phase := joint.phase r.tickerId side
  -- A side that hears nothing and keeps its orders.
  have quiet : answers clientId side.toSide out = [] →
      held clientId (ref'.orders side) = held clientId ((refs r.tickerId).orders side) →
      ¬ (r.clientId = clientId ∧ r.type = .NEW ∧ r.side = side.toSide) →
      OrderPhase exchangeMarket clientId (s.slot r.tickerId side)
        ((s.answered requests exchange out).newsInFlight r.tickerId side)
        (s.undelivered r.tickerId side ++ answers clientId side.toSide out)
        (held clientId (ref'.orders side)) := by
    intro silent same apart
    rw [silent, List.append_nil, same, ← reads.newsInFlight_of_ne
      fun here => apart ⟨here.1, here.2.1, here.2.2.2⟩]
    exact phase
  cases reaction with
  | new d isNew rSide entered foreign traded =>
      rcases eq_or_ne side d with rfl | ne
      · by_cases own : r.clientId = clientId
        · rw [reads.newsInFlight_self exchange out own isNew rSide] at phase
          obtain ⟨-, -, -, -, free⟩ := phase.of_news
          obtain ⟨x, fills, leaves, sent, ack, filled, rests⟩ := entered own free
          rw [sent, rests]
          refine phase.enter ack filled fun named => ?_
          exact congrArg (fun q : MEClientRequest => leftOf (q.orderId, q.price) leaves) named
        · obtain ⟨silent, same⟩ := foreign own
          exact quiet silent same fun here => own here.1
      · obtain rfl := BookSide.eq_opposite_of_ne ne
        rw [← reads.newsInFlight_of_ne]
        · exact phase.traded traded
        · rintro ⟨-, -, -, here⟩
          exact ne (BookSide.toSide_inj.mp (here.symm.trans rSide))
  | rejected isCancel sent silent same =>
      exact quiet (silent side) (congrFun same side) fun here => by simp [isCancel] at here
  | elsewhere isCancel foreign silent same =>
      exact quiet (silent side) (congrFun same side) fun here => foreign here.1
  | withdrawn d xs ys terms isCancel own named split left sent opposite =>
      rcases eq_or_ne side d with rfl | ne
      · obtain ⟨x, answer, gone⟩ := sent
        have mem : r ∈ s.clientRequests := by
          rcases reads with ⟨-, front⟩ | ⟨foreign, -⟩
          · rw [front]
            exact List.mem_cons_self
          · exact (foreign own).elim
        rw [answer, left, ← reads.newsInFlight_of_ne fun here => by simp [isCancel] at here]
        rw [split] at phase
        obtain ⟨used, id⟩ := phase.mem_rest (a := terms) (by simp)
        have single := phase.single
        rw [List.length_append, List.length_cons] at single
        obtain rfl : xs = [] := List.eq_nil_of_length_eq_zero (by omega)
        obtain rfl : ys = [] := List.eq_nil_of_length_eq_zero (by omega)
        refine phase.withdraw (List.cons_ne_nil _ _) ?_ gone
        exact (joint.numbered.canceling r mem isCancel).2 _ _ used (id.symm.trans named)
      · obtain rfl := BookSide.eq_opposite_of_ne ne
        exact quiet opposite.1 opposite.2 fun here => by simp [isCancel] at here

end Answered

/-- A request of anyone. -/
theorem Joint.serve {requests : List MEClientRequest}
    (joint : Joint clientId tickerBasePrices refs s) (reads : Reads clientId s r requests)
    (sided : Sided r)
    (served : { s with clientRequests := requests }.serve r = .ok (s', out)) :
    ∃ refs', Joint clientId tickerBasePrices refs' s' := by
  obtain ⟨book, ran, rfl⟩ := serve_eq_ok served
  obtain ⟨ref', refines', replies, reaction⟩ :=
    (joint.refines r.tickerId).reaction clientId sided ran
  have fewer : ∀ x ∈ requests, x ∈ s.clientRequests := by
    intro x mem
    rcases reads with ⟨-, front⟩ | ⟨-, same⟩
    · rw [front]
      exact List.mem_cons_of_mem _ mem
    · rw [same]
      exact mem
  refine ⟨Function.update refs r.tickerId ref', joint.client, ?_, ?_, ?_, ?_, joint.placed,
    joint.numbered.below, joint.numbered.distinct, ?_⟩
  · intro tickerId
    rcases eq_or_ne tickerId r.tickerId with rfl | ne
    · rw [Function.update_self]
      simp only [answered, Function.update_self]
      exact refines'
    · rw [Function.update_of_ne ne]
      simp only [answered, Function.update_of_ne ne]
      exact joint.refines tickerId
  · intro tickerId side
    rw [answered_undelivered joint.client replies]
    rcases eq_or_ne tickerId r.tickerId with rfl | ne
    · rw [Function.update_self, if_pos rfl]
      exact joint.phase_answered reads reaction side
    · rw [Function.update_of_ne ne, if_neg ne, List.append_nil, ← reads.newsInFlight_of_ne]
      · exact joint.phase tickerId side
      · exact fun here => ne here.2.2.1.symm
  · exact fun x mem => joint.requests x (fewer x mem)
  · intro x mem
    rcases List.mem_append.mp mem with old | new
    · exact joint.responses x old
    · exact (replies x (List.mem_filter.mp new).1).2
  · exact fun x mem isCancel => joint.numbered.canceling x (fewer x mem) isCancel

/-! ## Steps -/

/-- The trade engine reads nothing, or its next response. -/
theorem step_deliver (stepped : s.step .deliver = .ok (s', out)) :
    s' = s ∨ ∃ x rest, s.clientResponses = x :: rest ∧ s' = s.delivered x rest := by
  unfold step at stepped
  cases front : s.clientResponses with
  | nil =>
      rw [front] at stepped
      cases stepped
      exact .inl rfl
  | cons x rest =>
      rw [front] at stepped
      cases updated : s.tradeEngine.onOrderUpdate x with
      | error fault => simp [updated, bind, Except.bind] at stepped
      | ok tradeEngine =>
          simp only [updated, bind, Except.bind, pure, Except.pure, Except.ok.injEq,
            Prod.mk.injEq] at stepped
          obtain ⟨rfl, rfl⟩ := stepped
          obtain rfl := TradeEngine.onOrderUpdate_eq_ok updated
          exact .inr ⟨x, rest, rfl, rfl⟩

/-- The matching engine reads nothing, or the next request of the client. -/
theorem step_process (stepped : s.step .process = .ok (s', out)) :
    s' = s ∨ ∃ r rest, s.clientRequests = r :: rest ∧
      { s with clientRequests := rest }.serve r = .ok (s', out) := by
  unfold step at stepped
  cases front : s.clientRequests with
  | nil =>
      rw [front] at stepped
      cases stepped
      exact .inl rfl
  | cons r rest =>
      rw [front] at stepped
      exact .inr ⟨r, rest, rfl, stepped⟩

/-- One step. -/
theorem Joint.step {i : SessionInput} (joint : Joint clientId tickerBasePrices refs s)
    (admissible : Admissible clientId s i) (stepped : s.step i = .ok (s', out)) :
    ∃ refs', Joint clientId tickerBasePrices refs' s' := by
  cases i with
  | moveOrders tickerId bidPrice askPrice clip lossTooLarge =>
      obtain rfl := step_moveOrders stepped
      have first := admissible.1
      unfold ME_MAX_ORDER_IDS at first
      obtain ⟨bid, second⟩ := joint.moveOrder (by lia) tickerId .bid lossTooLarge bidPrice clip
      obtain ⟨ask, -⟩ := bid.moveOrder (by lia) tickerId .ask lossTooLarge askPrice clip
      exact ⟨refs, ask⟩
  | deliver =>
      rcases step_deliver stepped with rfl | ⟨x, rest, front, rfl⟩
      · exact ⟨refs, joint⟩
      · exact ⟨refs, joint.deliver front⟩
  | process =>
      rcases step_process stepped with rfl | ⟨r, rest, front, served⟩
      · exact ⟨refs, joint⟩
      · obtain ⟨own, sided⟩ := joint.requests r (by rw [front]; exact List.mem_cons_self)
        exact joint.serve (.inl ⟨own, front⟩) sided served
  | foreign r =>
      obtain ⟨other, sided⟩ := admissible.2
      exact joint.serve (.inr ⟨other, rfl⟩) sided stepped

end Session

end NanoTrade
