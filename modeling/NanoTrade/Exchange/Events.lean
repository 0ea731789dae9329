import NanoTrade.Exchange.WellBehaved

/-!
# The events of a matching engine

A request is handled in events: an order is accepted, fills against the front of the
other side as long as it can, and is then spent or rests; a CANCEL takes one order out or
is rejected. `MatchStep` is one event, `Trace` a history of them from an empty book, with
the requests that were read and the messages that were sent.

* `Trace.invariant`: what every event carries holds of every history.
* `Trace.of_run`: a run of the book is such a history.
-/

namespace NanoTrade

/-- A new order that is being matched. -/
structure Taker where
  side : BookSide
  request : MEClientRequest
  marketOrderId : OrderId
  leaves : Qty

/-- The order as `match` gets it. -/
def Taker.aggressor (t : Taker) : Aggressor :=
  { tickerId := t.request.tickerId, clientId := t.request.clientId, side := t.side.toSide,
    clientOrderId := t.request.orderId, newMarketOrderId := Width.machine.fillId t.marketOrderId,
    price := t.request.price }

/-- A book between two events. -/
structure MatchState where
  orders : BookSide → List MEResting
  taker : Option Taker
  next : OrderId

def MatchState.new : MatchState :=
  { orders := fun _ => [], taker := none, next := 1 }

/-- What rests of a new order. -/
def Taker.remainder (t : Taker) (orders : BookSide → List MEResting) : MEResting :=
  RefBook.remainder .machine ⟨orders, t.marketOrderId⟩ t.side t.request t.leaves

/-- The sweep does not touch the side that the order rests on. -/
theorem Taker.remainder_swept {ref : RefBook} {side : BookSide} {r : MEClientRequest}
    {leaves : Qty} :
    Taker.remainder ⟨side, r, ref.nextMarketOrderId, leaves⟩ (RefBook.swept .machine ref side r) =
      RefBook.remainder .machine ref side r leaves := by
  simp only [Taker.remainder, RefBook.remainder, RefBook.swept_own]

/-- A NEW is for a side. -/
def Sided (r : MEClientRequest) : Prop :=
  r.type = .NEW → r.side = .BUY ∨ r.side = .SELL

instance : DecidablePred Sided :=
  fun _ => inferInstanceAs (Decidable (_ → _))

theorem Sided.exists_side {r : MEClientRequest} (sided : Sided r) (isNew : r.type = .NEW) :
    ∃ side, r.side = BookSide.toSide side := by
  rcases sided isNew with buy | sell
  · exact ⟨.bid, buy⟩
  · exact ⟨.ask, sell⟩

/-- A request that returned is the NEW of the reference book, a CANCEL that was rejected or
one that took an order out, whatever the id table leads to. -/
theorem Refines.request_cases {basePrice : Price} {s s' : MEOrderBook} {ref : RefBook}
    {r : MEClientRequest} {out : List MEMessage} (refines : Refines basePrice False s ref)
    (sided : Sided r) (ran : s.processClientRequest r = .ok (s', out)) :
    (∃ side, r.type = .NEW ∧ r.side = BookSide.toSide side ∧
      ((RefBook.matched .machine ref side r).2.1 ≠ 0 → Takes basePrice ref side r) ∧
      out = (RefBook.add .machine ref side r).2 ∧
      Refines basePrice False s' (RefBook.add .machine ref side r).1) ∨
    (r.type = .CANCEL ∧
      out = [MEOrderBook.rejectedResponse r.clientId r.orderId r.tickerId] ∧ s' = s) ∨
    ∃ side o xs ys, r.type = .CANCEL ∧ ref.orders side = xs ++ o :: ys ∧
      RefBook.Addresses r.clientId r.orderId o ∧ out = RefBook.canceled r side o ∧
      Refines basePrice False s'
        { ref with orders := Function.update ref.orders side (xs ++ ys) } := by
  unfold MEOrderBook.processClientRequest at ran
  cases isType : r.type with
  | INVALID =>
      rw [isType] at ran
      cases ran
  | NEW =>
      rw [isType] at ran
      obtain ⟨side, rSide⟩ := sided.exists_side isType
      exact .inl ⟨side, rfl, rSide, refines.add_ran rSide ran⟩
  | CANCEL =>
      rw [isType] at ran
      rcases refines.cancel_spec r with ⟨-, -, fault⟩ | ⟨-, rejected⟩ |
        ⟨side, o, xs, ys, t, shape, addresses, taken, refines'⟩
      · rw [fault] at ran
        cases ran
      · cases rejected.symm.trans ran
        exact .inr (.inl ⟨rfl, rfl, rfl⟩)
      · cases taken.symm.trans ran
        exact .inr (.inr ⟨side, o, xs, ys, rfl, shape, addresses, rfl, refines'⟩)

theorem wellBehaved_sided {basePrice : Price} {w : Width} {ref : RefBook}
    {rs : List MEClientRequest}
    (wellBehaved : Along (WellBehaved basePrice w) (RefBook.step w) ref rs) :
    ∀ r ∈ rs, Sided r := by
  induction rs generalizing ref with
  | nil =>
      intro r mem
      cases mem
  | cons first rs ih =>
      intro r mem
      rcases List.mem_cons.mp mem with rfl | later
      · intro isNew
        rcases wellBehaved.1.request with isCancel | ⟨-, bid | ask⟩
        · simp [isNew] at isCancel
        · exact .inl bid.sided
        · exact .inr ask.sided
      · exact ih wellBehaved.2 r later

/-- One event. -/
inductive MatchStep (basePrice : Price) :
    MatchState → List MEClientRequest → List MEMessage → MatchState → Prop
  | accept {orders next r side} (isNew : r.type = .NEW) (sided : r.side = BookSide.toSide side) :
      MatchStep basePrice ⟨orders, none, next⟩ [r]
        [MEOrderBook.acceptedResponse r.clientId r.orderId r.tickerId side.toSide r.price r.qty
          next]
        ⟨orders, some ⟨side, r, next, r.qty⟩, Width.machine.counter (next + 1)⟩
  | fill {orders next t o rest} (wants : t.leaves ≠ 0)
      (front : orders t.side.opposite = o :: rest)
      (crosses : t.side.Crosses t.request.price o.price) (full : o.qty ≤ t.leaves) :
      MatchStep basePrice ⟨orders, some t, next⟩ []
        (RefBook.fill t.aggressor t.side.opposite o o.qty (t.leaves - o.qty) ++
          [RefBook.filled t.request.tickerId t.side.opposite o])
        ⟨Function.update orders t.side.opposite rest,
          some { t with leaves := t.leaves - o.qty }, next⟩
  | fillPart {orders next t o rest} (wants : t.leaves ≠ 0)
      (front : orders t.side.opposite = o :: rest)
      (crosses : t.side.Crosses t.request.price o.price) (part : t.leaves < o.qty) :
      MatchStep basePrice ⟨orders, some t, next⟩ []
        (RefBook.fill t.aggressor t.side.opposite o t.leaves 0 ++
          [RefBook.modified t.request.tickerId t.side.opposite o (o.qty - t.leaves)])
        ⟨Function.update orders t.side.opposite ({ o with qty := o.qty - t.leaves } :: rest),
          some { t with leaves := 0 }, next⟩
  | rest {orders next t} (wants : t.leaves ≠ 0)
      (stops : ∀ o ∈ orders t.side.opposite, ¬ t.side.Crosses t.request.price o.price)
      (inside : InWindow basePrice t.request.price)
      (room : (both orders).length + 1 < ME_MAX_ORDER_IDS) :
      MatchStep basePrice ⟨orders, some t, next⟩ []
        [MEOrderBook.addUpdate t.request.tickerId t.side.toSide t.request.price t.leaves
          (t.remainder orders).priority t.marketOrderId]
        ⟨Function.update orders t.side
          ((orders t.side).orderedInsert (Resting.Ahead t.side) (t.remainder orders)), none, next⟩
  | spent {orders next t} (done : t.leaves = 0) :
      MatchStep basePrice ⟨orders, some t, next⟩ [] [] ⟨orders, none, next⟩
  | reject {orders next r} (isCancel : r.type = .CANCEL) :
      MatchStep basePrice ⟨orders, none, next⟩ [r]
        [MEOrderBook.rejectedResponse r.clientId r.orderId r.tickerId] ⟨orders, none, next⟩
  | withdraw {orders next r side o xs ys} (isCancel : r.type = .CANCEL)
      (shape : orders side = xs ++ o :: ys) (own : RefBook.Addresses r.clientId r.orderId o) :
      MatchStep basePrice ⟨orders, none, next⟩ [r] (RefBook.canceled r side o)
        ⟨Function.update orders side (xs ++ ys), none, next⟩

/-- A history: the requests that were read, the messages that were sent, and the book. -/
inductive Trace (basePrice : Price) : List MEClientRequest → List MEMessage → MatchState → Prop
  | start : Trace basePrice [] [] MatchState.new
  | step {rs out s read sent t} (trace : Trace basePrice rs out s)
      (event : MatchStep basePrice s read sent t) : Trace basePrice (rs ++ read) (out ++ sent) t

namespace Trace

variable {basePrice : Price} {rs : List MEClientRequest} {out : List MEMessage} {s : MatchState}
  {orders : BookSide → List MEResting} {next : OrderId} {t : Taker}

/-- An event that reads nothing. -/
theorem silent (trace : Trace basePrice rs out s) {sent : List MEMessage} {s' : MatchState}
    (event : MatchStep basePrice s [] sent s') : Trace basePrice rs (out ++ sent) s' := by
  have longer := trace.step event
  rwa [List.append_nil] at longer

/-- Induction over a history. -/
theorem invariant {P : List MEClientRequest → List MEMessage → MatchState → Prop}
    (start : P [] [] MatchState.new)
    (carried : ∀ {rs out s read sent t}, Trace basePrice rs out s → P rs out s →
      MatchStep basePrice s read sent t → P (rs ++ read) (out ++ sent) t)
    (trace : Trace basePrice rs out s) : P rs out s := by
  induction trace with
  | start => exact start
  | step trace event ih => exact carried trace ih event

/-- The sweep of a new order is a row of fills. The induction is on the orders of the
other side. -/
theorem sweep {xs : List MEResting} (trace : Trace basePrice rs out ⟨orders, some t, next⟩)
    (front : orders t.side.opposite = xs) :
    Trace basePrice rs (out ++ (RefBook.sweep t.aggressor t.side.opposite xs t.leaves).2.2)
      ⟨Function.update orders t.side.opposite
          (RefBook.sweep t.aggressor t.side.opposite xs t.leaves).1,
        some { t with leaves := (RefBook.sweep t.aggressor t.side.opposite xs t.leaves).2.1 },
        next⟩ := by
  induction xs generalizing out orders t with
  | nil =>
      rw [RefBook.sweep, ← front, Function.update_eq_self, List.append_nil]
      exact trace
  | cons o rest ih =>
      rw [RefBook.sweep]
      split
      · rw [← front, Function.update_eq_self, List.append_nil]
        exact trace
      · rename_i goesOn
        rw [not_or, not_not, BookSide.opposite_opposite] at goesOn
        obtain ⟨wants, crosses⟩ := goesOn
        split
        · rename_i full
          have more := trace.silent (.fill wants front crosses full)
          have tail := ih more (Function.update_self _ _ _)
          rw [Function.update_idem, List.append_assoc] at tail
          rw [Nat.min_eq_right full]
          exact tail
        · rename_i part
          have short : t.leaves < o.qty := Nat.not_le.mp part
          rw [Nat.min_eq_left (Nat.le_of_lt short)]
          simp only [Nat.sub_self]
          exact trace.silent (.fillPart wants front crosses short)

/-- A NEW that the book could take. -/
theorem add {ref : RefBook} {side : BookSide} {r : MEClientRequest}
    (trace : Trace basePrice rs out ⟨ref.orders, none, ref.nextMarketOrderId⟩)
    (sound : RefBook.Sound ref.orders) (isNew : r.type = .NEW) (sided : r.side = side.toSide)
    (takes : (RefBook.matched .machine ref side r).2.1 ≠ 0 → Takes basePrice ref side r) :
    Trace basePrice (rs ++ [r]) (out ++ (RefBook.add .machine ref side r).2)
      ⟨(RefBook.add .machine ref side r).1.orders, none,
        (RefBook.add .machine ref side r).1.nextMarketOrderId⟩ := by
  have accepted := trace.step (.accept isNew sided)
  have swept : Trace basePrice (rs ++ [r])
      (out ++ MEOrderBook.acceptedResponse r.clientId r.orderId r.tickerId side.toSide r.price
        r.qty ref.nextMarketOrderId :: (RefBook.matched .machine ref side r).2.2)
      ⟨RefBook.swept .machine ref side r,
        some ⟨side, r, ref.nextMarketOrderId, (RefBook.matched .machine ref side r).2.1⟩,
        Width.machine.counter (ref.nextMarketOrderId + 1)⟩ := by
    have fills := accepted.sweep rfl
    rw [List.append_assoc] at fills
    exact fills
  rcases eq_or_ne (RefBook.matched .machine ref side r).2.1 0 with filled | left
  · have ended := swept.silent (.spent filled)
    rw [List.append_nil] at ended
    rw [RefBook.add, if_pos filled]
    exact ended
  · have taken := takes left
    have room : (both (RefBook.swept .machine ref side r)).length + 1 < ME_MAX_ORDER_IDS := by
      rw [(perm_both _ side).length_eq, List.length_append, RefBook.swept_own,
        RefBook.swept_opposite]
      exact taken.room
    have stops := sound.not_crosses left
    rw [← RefBook.swept_opposite] at stops
    have ended := swept.silent (.rest left stops taken.inside room)
    rw [Taker.remainder_swept, RefBook.swept_own, List.append_assoc] at ended
    rw [RefBook.add, if_neg left]
    exact ended

/-- One request of the book. -/
theorem request {s s' : MEOrderBook} {ref : RefBook} {r : MEClientRequest} {now : List MEMessage}
    (trace : Trace basePrice rs out ⟨ref.orders, none, ref.nextMarketOrderId⟩)
    (refines : Refines basePrice False s ref)
    (sided : Sided r) (ran : s.processClientRequest r = .ok (s', now)) :
    ∃ ref', Refines basePrice False s' ref' ∧
      Trace basePrice (rs ++ [r]) (out ++ now) ⟨ref'.orders, none, ref'.nextMarketOrderId⟩ := by
  rcases refines.request_cases sided ran with
    ⟨side, isNew, rSide, takes, rfl, refines'⟩ | ⟨isCancel, rfl, rfl⟩ |
    ⟨side, o, xs, ys, isCancel, shape, own, rfl, refines'⟩
  · exact ⟨_, refines', trace.add refines.sound isNew rSide takes⟩
  · exact ⟨ref, refines, trace.step (.reject isCancel)⟩
  · exact ⟨_, refines', trace.step (.withdraw isCancel shape own)⟩

/-- A run of the book is a history. -/
theorem of_run {s : MEOrderBook} (sided : ∀ r ∈ rs, Sided r)
    (ran : run MEOrderBook.processClientRequest (MEOrderBook.new basePrice) rs = .ok (s, out)) :
    ∃ ref, Refines basePrice False s ref ∧
      Trace basePrice rs out ⟨ref.orders, none, ref.nextMarketOrderId⟩ := by
  induction rs using List.reverseRecOn generalizing s out with
  | nil =>
      cases ran
      exact ⟨_, Refines.new basePrice False, .start⟩
  | append_singleton rs r ih =>
      obtain ⟨t, before, now, first, last, rfl⟩ := run_concat.mp ran
      obtain ⟨ref, refines, trace⟩ := ih (fun x mem => sided x (List.mem_append_left _ mem)) first
      exact trace.request refines
        (sided r (List.mem_append_right _ List.mem_cons_self)) last

/-! ## What a history keeps -/

/-- A history leaves a sound book, also between two fills. -/
theorem sound (trace : Trace basePrice rs out s) : RefBook.Sound s.orders := by
  refine trace.invariant (P := fun _ _ s => RefBook.Sound s.orders) RefBook.Sound.new ?_
  intro rs out s read sent t _ sound event
  cases event with
  | accept isNew sided => exact sound
  | @fill orders next t o rest wants front crosses full =>
      have shape : orders t.side.opposite = [] ++ o :: rest := front
      exact sound.withdraw shape
  | @fillPart orders next t o rest wants front crosses part =>
      have shape : orders t.side.opposite = [] ++ o :: rest := front
      exact sound.requantify shape (by lia)
  | rest wants stops inside room => exact sound.insert (Nat.pos_of_ne_zero wants) stops
  | spent done => exact sound
  | reject isCancel => exact sound
  | withdraw isCancel shape own => exact sound.withdraw shape

end Trace

/-- The id that the next order in the book can have. -/
def MatchState.bound (s : MatchState) : OrderId :=
  match s.taker with
  | some t => t.marketOrderId
  | none => s.next

/-- The counters of a history have not wrapped. -/
structure Counted (rs : List MEClientRequest) (s : MatchState) : Prop where
  next : s.next = RefBook.news rs + 1
  taker : ∀ t, s.taker = some t → 0 < t.marketOrderId ∧ t.marketOrderId + 1 = s.next
  numbered : RefBook.Numbered s.orders s.bound

theorem Trace.counted {basePrice : Price} {rs : List MEClientRequest} {out : List MEMessage}
    {s : MatchState} (trace : Trace basePrice rs out s) (few : RefBook.news rs < 2 ^ 32) :
    Counted rs s := by
  refine trace.invariant (P := fun rs _ s => RefBook.news rs < 2 ^ 32 → Counted rs s) ?_ ?_ few
  · intro _
    exact ⟨rfl, fun t isTaker => (nomatch isTaker), RefBook.Numbered.new 1⟩
  · intro rs out s read sent t trace before event few
    have more : RefBook.news (rs ++ read) = RefBook.news rs + RefBook.news read :=
      List.countP_append
    rw [more] at few
    have counted := before (by lia)
    have counter : ∀ {n}, n < 2 ^ 64 → Width.machine.counter n = n := RefBook.counter_machine
    cases event with
    | accept isNew sided =>
        have one := RefBook.news_new isNew
        have next := counted.next
        simp only at next
        refine ⟨?_, ?_, counted.numbered⟩
        · rw [more, one, counter (by lia), next]
        · rintro t ⟨⟩
          exact ⟨by lia, (counter (by lia)).symm⟩
    | @fill orders next t o rest wants front crosses full =>
        have shape : orders t.side.opposite = [] ++ o :: rest := front
        rw [List.append_nil]
        obtain ⟨pos, last⟩ := counted.taker _ rfl
        refine ⟨counted.next, ?_, counted.numbered.withdraw shape⟩
        rintro t ⟨⟩
        exact ⟨pos, last⟩
    | @fillPart orders next t o rest wants front crosses part =>
        have shape : orders t.side.opposite = [] ++ o :: rest := front
        rw [List.append_nil]
        obtain ⟨pos, last⟩ := counted.taker _ rfl
        refine ⟨counted.next, ?_, counted.numbered.requantify shape⟩
        rintro t ⟨⟩
        exact ⟨pos, last⟩
    | @rest orders next t wants stops inside room =>
        rw [List.append_nil]
        obtain ⟨pos, last⟩ := counted.taker t rfl
        have numbered := counted.numbered
        have next' := counted.next
        simp only at next' last
        have exact : ∀ x ∈ orders t.side,
            Width.machine.counter (x.priority + 1) = x.priority + 1 := by
          intro x mem
          have below := (numbered.below _ x mem).2
          simp only [MatchState.bound] at below
          exact counter (by lia)
        refine ⟨next', fun t isTaker => (nomatch isTaker), ?_⟩
        rw [MatchState.bound, ← last]
        refine numbered.insert (trace.sound.sorted t.side) rfl ?_ ?_
        · exact RefBook.nextPriority_le pos exact fun x mem => (numbered.below _ x mem).2
        · intro x mem same
          exact RefBook.priority_lt_nextPriority (numbered.queued t.side) exact mem same
    | spent done =>
        rw [List.append_nil]
        obtain ⟨pos, last⟩ := counted.taker _ rfl
        refine ⟨counted.next, fun t isTaker => (nomatch isTaker), ?_⟩
        refine counted.numbered.sublist (fun _ => List.Sublist.refl _) ?_
        simp only [MatchState.bound] at last ⊢
        lia
    | reject isCancel =>
        have noNews := RefBook.news_cancel isCancel
        exact ⟨by rw [more, noNews]; exact counted.next, fun t isTaker => (nomatch isTaker),
          counted.numbered⟩
    | withdraw isCancel shape own =>
        have noNews := RefBook.news_cancel isCancel
        exact ⟨by rw [more, noNews]; exact counted.next, fun t isTaker => (nomatch isTaker),
          counted.numbered.withdraw shape⟩

end NanoTrade
