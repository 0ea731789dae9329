import NanoTrade.Exchange.Accounts

/-!
# Conservation of quantity

The accounts of all clients follow the events of a matching engine (`Trace.accounts`), and
its messages are matches and quiet stretches between them (`Trace.matched`). So every
order of a run has a `Lifecycle`, stands in the book with what its responses have left of
it, and what the fills give to one side they take from the other (`run_lifecycle`).
-/

namespace NanoTrade

/-! ## What stands -/

def standOf (side : BookSide) (o : MEResting) : Standing :=
  { ref := (o.key.clientId, o.key.clientOrderId), side := side.toSide, price := o.price,
    qty := o.qty }

/-- The resting orders. -/
def resting (orders : BookSide → List MEResting) : Multiset Standing :=
  both fun side => (orders side).map (standOf side)

def Taker.standing (t : Taker) : Multiset Standing :=
  Standing.left ⟨t.request.ref, t.side.toSide, t.request.price, t.leaves⟩

def MatchState.standing (s : MatchState) : Multiset Standing :=
  match s.taker with
  | some t => t.standing + resting s.orders
  | none => resting s.orders

section Resting

variable {orders : BookSide → List MEResting} {side : BookSide} {xs ys : List MEResting}
  {o : MEResting}

theorem resting_eq (orders : BookSide → List MEResting) (side : BookSide) :
    resting orders = ((orders side).map (standOf side) : Multiset Standing) +
      ((orders side.opposite).map (standOf side.opposite) : Multiset Standing) := by
  rw [Multiset.coe_add]
  exact Multiset.coe_eq_coe.mpr (perm_both (fun side => (orders side).map (standOf side)) side)

theorem resting_update (orders : BookSide → List MEResting) (side : BookSide)
    (xs : List MEResting) : resting (Function.update orders side xs) =
      (xs.map (standOf side) : Multiset Standing) +
        ((orders side.opposite).map (standOf side.opposite) : Multiset Standing) := by
  rw [resting_eq _ side, Function.update_self, Function.update_of_ne BookSide.opposite_ne]

/-- One order in its place. -/
theorem resting_place (orders : BookSide → List MEResting) (side : BookSide)
    (xs ys : List MEResting) (o : MEResting) :
    resting (Function.update orders side (xs ++ o :: ys)) =
      standOf side o ::ₘ resting (Function.update orders side (xs ++ ys)) := by
  rw [resting_update, resting_update, ← Multiset.cons_add, Multiset.cons_coe]
  congr 1
  refine Multiset.coe_eq_coe.mpr ?_
  rw [List.map_append, List.map_append, List.map_cons]
  exact List.perm_middle

theorem resting_split (shape : orders side = xs ++ o :: ys) :
    resting orders = standOf side o ::ₘ resting (Function.update orders side (xs ++ ys)) := by
  rw [← resting_place, ← shape, Function.update_eq_self]

theorem resting_insert : resting (Function.update orders side
    ((orders side).orderedInsert (Resting.Ahead side) o)) =
      standOf side o ::ₘ resting orders := by
  have perm := (List.perm_orderedInsert (Resting.Ahead side) o (orders side)).map (standOf side)
  rw [resting_update, resting_eq orders side, ← Multiset.cons_add, Multiset.cons_coe]
  congr 1
  exact Multiset.coe_eq_coe.mpr perm

end Resting

/-! ## The accounts of a history -/

/-- The two executions of a fill. -/
theorem Accounts.fill {rs : List MEClientRequest} {out : List MEMessage}
    {stand : Multiset Standing} {t : Taker} {o : MEResting} {fillQty : Qty}
    (accounts : Accounts rs out (t.standing + standOf t.side.opposite o ::ₘ stand))
    (wants : t.leaves ≠ 0) (fills : 0 < fillQty) (takerFills : fillQty ≤ t.leaves)
    (makerFills : fillQty ≤ o.qty) (last : MEMarketUpdate) :
    Accounts rs
      (out ++ (RefBook.fill t.aggressor t.side.opposite o fillQty (t.leaves - fillQty) ++
        [.update last]))
      (Taker.standing { t with leaves := t.leaves - fillQty } +
        (Standing.left { standOf t.side.opposite o with qty := o.qty - fillQty } + stand)) := by
  rw [Taker.standing, Standing.left, if_neg wants, Multiset.singleton_add] at accounts
  have first := accounts.execute (x :=
    { type := .FILLED, clientId := t.request.clientId, tickerId := t.request.tickerId,
      clientOrderId := t.request.orderId, marketOrderId := t.aggressor.newMarketOrderId,
      side := t.side.toSide, price := o.price, execQty := fillQty,
      leavesQty := t.leaves - fillQty }) rfl rfl fills (Nat.sub_add_cancel takerFills)
  rw [Multiset.add_cons] at first
  have second := first.execute (x :=
    { type := .FILLED, clientId := o.key.clientId, tickerId := t.request.tickerId,
      clientOrderId := o.key.clientOrderId, marketOrderId := o.key.marketOrderId,
      side := t.side.opposite.toSide, price := o.price, execQty := fillQty,
      leavesQty := o.qty - fillQty }) rfl rfl fills (Nat.sub_add_cancel makerFills)
  rw [add_left_comm] at second
  have quiet : ∀ ref, own ref [.update
    { type := .TRADE, orderId := OrderId_INVALID, tickerId := t.request.tickerId,
      side := t.side.toSide, price := o.price, qty := fillQty, priority := Priority_INVALID },
    .update last] = [] := fun _ => rfl
  have whole := second.silent quiet
  simp only [List.append_assoc, List.cons_append, List.nil_append] at whole
  exact whole

theorem unused_of_neverReused {rs : List MEClientRequest} {r : MEClientRequest}
    (never : NeverReused (rs ++ [r])) (isNew : r.type = .NEW) : placed r.ref rs = [] := by
  rw [NeverReused, List.filter_append, List.map_append, List.nodup_append] at never
  refine List.filter_eq_nil_iff.mpr fun x mem same => ?_
  rw [decide_eq_true_eq] at same
  refine never.2.2 x.ref (List.mem_map_of_mem (List.mem_filter.mpr ⟨mem, ?_⟩)) r.ref ?_ same.2
  · exact decide_eq_true same.1
  · simp [isNew]

theorem placed_of_neverReused {rs : List MEClientRequest} {r : MEClientRequest}
    (never : NeverReused rs) (mem : r ∈ rs) (isNew : r.type = .NEW) : placed r.ref rs = [r] := by
  obtain ⟨before, after, rfl⟩ := List.append_of_mem mem
  have other : ∀ x ∈ before ++ after, ¬ (x.type = .NEW ∧ x.ref = r.ref) := by
    intro x xMem same
    have apart := never
    rw [NeverReused, List.filter_append, List.filter_cons_of_pos (by simpa using isNew),
      List.map_append, List.map_cons, List.nodup_middle, List.nodup_cons, ← List.map_append,
      ← List.filter_append] at apart
    refine apart.1 (same.2 ▸ List.mem_map_of_mem (List.mem_filter.mpr ⟨xMem, ?_⟩))
    exact decide_eq_true same.1
  have missing : ∀ xs : List MEClientRequest, (∀ x ∈ xs, ¬ (x.type = .NEW ∧ x.ref = r.ref)) →
      placed r.ref xs = [] := by
    intro xs apart
    refine List.filter_eq_nil_iff.mpr fun x xMem same => apart x xMem (of_decide_eq_true same)
  have left := missing before fun x xMem => other x (List.mem_append_left _ xMem)
  have right := missing after fun x xMem => other x (List.mem_append_right _ xMem)
  rw [placed] at left right ⊢
  rw [List.filter_append, left, List.filter_cons_of_pos (by simpa using isNew), right,
    List.nil_append]

theorem NeverReused.of_append {rs rs' : List MEClientRequest} (never : NeverReused (rs ++ rs')) :
    NeverReused rs := by
  rw [NeverReused, List.filter_append, List.map_append] at never
  exact never.of_append_left

/-- The accounts follow every history in which no id is used twice. -/
theorem Trace.accounts {basePrice : Price} {rs : List MEClientRequest} {out : List MEMessage}
    {s : MatchState} (trace : Trace basePrice rs out s) (never : NeverReused rs) :
    Accounts rs out s.standing := by
  refine trace.invariant (P := fun rs out s => NeverReused rs → Accounts rs out s.standing)
    (fun _ => Accounts.start) ?_ never
  intro rs out s read sent t trace before event never
  have accounts := before never.of_append
  cases event with
  | @accept orders next r side isNew sided =>
      have unused := unused_of_neverReused never isNew
      have accepted := accounts.accept (x :=
        { type := .ACCEPTED, clientId := r.clientId, tickerId := r.tickerId,
          clientOrderId := r.orderId, marketOrderId := next, side := side.toSide,
          price := r.price, execQty := 0, leavesQty := r.qty }) isNew unused rfl rfl rfl
      rw [sided] at accepted
      exact accepted
  | @fill orders next t o rest wants front crosses full =>
      have shape : orders t.side.opposite = [] ++ o :: rest := front
      have here : o ∈ orders t.side.opposite := front ▸ List.mem_cons_self
      have positive : 0 < o.qty := trace.sound.positive _ o here
      rw [List.append_nil]
      rw [MatchState.standing, resting_split shape] at accounts
      have filled := accounts.fill wants positive full (Nat.le_refl _)
        { type := .CANCEL, orderId := o.key.marketOrderId, tickerId := t.request.tickerId,
          side := t.side.opposite.toSide, price := o.price, qty := o.qty,
          priority := Priority_INVALID }
      rw [Nat.sub_self, Standing.left, if_pos rfl, zero_add] at filled
      exact filled
  | @fillPart orders next t o rest wants front crosses part =>
      have shape : orders t.side.opposite = [] ++ o :: rest := front
      rw [List.append_nil]
      rw [MatchState.standing, resting_split shape] at accounts
      have filled := accounts.fill wants (Nat.pos_of_ne_zero wants) (Nat.le_refl _)
        (Nat.le_of_lt part)
        { type := .MODIFY, orderId := o.key.marketOrderId, tickerId := t.request.tickerId,
          side := t.side.opposite.toSide, price := o.price, qty := o.qty - t.leaves,
          priority := o.priority }
      have remains : o.qty - t.leaves ≠ 0 := by lia
      rw [Nat.sub_self, Standing.left, if_neg remains, Multiset.singleton_add] at filled
      have placed := resting_place orders t.side.opposite [] rest { o with qty := o.qty - t.leaves }
      rw [List.nil_append] at placed
      rw [MatchState.standing]
      simp only
      rw [placed]
      exact filled
  | @rest orders next t wants stops inside room =>
      rw [List.append_nil, MatchState.standing, resting_insert]
      rw [MatchState.standing] at accounts
      have there : t.standing = {standOf t.side (t.remainder orders)} := by
        rw [Taker.standing, Standing.left, if_neg wants]
        rfl
      simp only at accounts
      rw [there, Multiset.singleton_add] at accounts
      exact accounts.silent fun ref => rfl
  | spent done =>
      rw [List.append_nil, List.append_nil]
      rw [MatchState.standing] at accounts
      simp only [Taker.standing, Standing.left, done, if_true, zero_add] at accounts
      exact accounts
  | reject isCancel =>
      refine (accounts.read_cancel isCancel).silent fun ref => ?_
      simp [MEOrderBook.rejectedResponse, own]
  | @withdraw orders next r side o xs ys isCancel shape addressed =>
      rw [MatchState.standing, resting_split shape] at accounts
      have named : r.ref = (standOf side o).ref := by
        rw [MEClientRequest.ref, ← addressed.1, ← addressed.2]
        rfl
      have quiet : ∀ ref, own ref [.update
        { type := .CANCEL, orderId := o.key.marketOrderId, tickerId := r.tickerId,
          side := side.toSide, price := o.price, qty := 0, priority := o.priority }] = [] :=
        fun _ => rfl
      have first := (accounts.read_cancel isCancel).silent quiet
      have second := first.cancel (x :=
        { type := .CANCELED, clientId := r.clientId, tickerId := r.tickerId,
          clientOrderId := r.orderId, marketOrderId := o.key.marketOrderId, side := side.toSide,
          price := o.price, execQty := Qty_INVALID, leavesQty := o.qty }) rfl named rfl
      rw [List.append_assoc] at second
      exact second

/-! ## Matches -/

/-- The responses and the trade of a match of two orders: at the price of the order that
rests, which is inside the limit of the other one. -/
structure MatchOf (taker maker : MEClientRequest) (f g : MEClientResponse)
    (trade : MEMarketUpdate) : Prop where
  filled : f.type = .FILLED ∧ g.type = .FILLED
  traded : trade.type = .TRADE
  owners : f.ref = taker.ref ∧ g.ref = maker.ref
  sides : f.side = taker.side ∧ g.side = maker.side
  opposite : f.side = .BUY ∧ g.side = .SELL ∨ f.side = .SELL ∧ g.side = .BUY
  price : f.price = maker.price ∧ g.price = maker.price ∧ trade.price = maker.price
  limit : (taker.side = .BUY → maker.price ≤ taker.price) ∧
    (taker.side = .SELL → taker.price ≤ maker.price)
  qty : f.execQty = trade.qty ∧ g.execQty = trade.qty ∧ 0 < trade.qty

/-- The messages of a match of two of the requests. -/
def IsMatch (rs : List MEClientRequest) (messages : List MEMessage) : Prop :=
  ∃ taker ∈ rs, ∃ maker ∈ rs, taker.type = .NEW ∧ maker.type = .NEW ∧ ∃ f g trade last,
    messages = [.response f, .response g, .update trade, .update last] ∧
      MatchOf taker maker f g trade ∧ last.type ≠ .TRADE

/-- Messages without a match. -/
def Quiet (messages : List MEMessage) : Prop :=
  (∀ r ∈ responses messages, r.type ≠ .FILLED) ∧ ∀ u ∈ updates messages, u.type ≠ .TRADE

/-- All fills and trades come from matches. -/
def Matched (rs : List MEClientRequest) (out : List MEMessage) : Prop :=
  ∃ blocks : List (List MEMessage), out = blocks.flatten ∧ ∀ b ∈ blocks, IsMatch rs b ∨ Quiet b

theorem IsMatch.append {rs : List MEClientRequest} {messages : List MEMessage}
    (isMatch : IsMatch rs messages) (rs' : List MEClientRequest) :
    IsMatch (rs ++ rs') messages := by
  obtain ⟨taker, takerMem, maker, makerMem, rest⟩ := isMatch
  exact ⟨taker, List.mem_append_left _ takerMem, maker, List.mem_append_left _ makerMem, rest⟩

theorem Matched.concat {rs read : List MEClientRequest} {out sent : List MEMessage}
    (matched : Matched rs out) (last : IsMatch (rs ++ read) sent ∨ Quiet sent) :
    Matched (rs ++ read) (out ++ sent) := by
  obtain ⟨blocks, rfl, each⟩ := matched
  refine ⟨blocks ++ [sent], by simp, fun b mem => ?_⟩
  rcases List.mem_append.mp mem with old | new
  · exact (each b old).imp (fun isMatch => isMatch.append read) id
  · rw [List.mem_singleton.mp new]
    exact last

/-- A fill is a match of the two requests. -/
theorem Accounts.isMatch {rs : List MEClientRequest} {out : List MEMessage}
    {stand : Multiset Standing} {t : Taker} {o : MEResting} {fillQty : Qty}
    (accounts : Accounts rs out (t.standing + standOf t.side.opposite o ::ₘ stand))
    (wants : t.leaves ≠ 0) (fills : 0 < fillQty)
    (crosses : t.side.Crosses t.request.price o.price) {last : MEMarketUpdate}
    (notTrade : last.type ≠ .TRADE) (leavesQty passiveLeaves : Qty) :
    IsMatch rs (MEOrderBook.fillMessages t.aggressor o.key t.side.opposite.toSide o.price fillQty
      leavesQty passiveLeaves ++ [.update last]) := by
  rw [Taker.standing, Standing.left, if_neg wants, Multiset.singleton_add] at accounts
  obtain ⟨-, taker, takerMem, takerNew, takerRef, takerSide, takerPrice⟩ := accounts.request_of
  rw [Multiset.cons_swap] at accounts
  obtain ⟨-, maker, makerMem, makerNew, makerRef, makerSide, makerPrice⟩ := accounts.request_of
  refine ⟨taker, takerMem, maker, makerMem, takerNew, makerNew, _, _, _, last, rfl, ?_, notTrade⟩
  refine ⟨⟨rfl, rfl⟩, rfl, ⟨takerRef.symm, makerRef.symm⟩, ⟨takerSide.symm, makerSide.symm⟩, ?_,
    ⟨makerPrice.symm, makerPrice.symm, makerPrice.symm⟩, ?_, ⟨rfl, rfl, fills⟩⟩
  · cases side : t.side with
    | bid => exact .inl ⟨congrArg BookSide.toSide side, rfl⟩
    | ask => exact .inr ⟨congrArg BookSide.toSide side, rfl⟩
  · rw [takerSide, takerPrice, makerPrice]
    cases side : t.side with
    | bid =>
        rw [side] at crosses
        refine ⟨fun _ => crosses, fun isAsk => ?_⟩
        cases isAsk
    | ask =>
        rw [side] at crosses
        refine ⟨fun isBid => ?_, fun _ => crosses⟩
        cases isBid

theorem Trace.matched {basePrice : Price} {rs : List MEClientRequest} {out : List MEMessage}
    {s : MatchState} (trace : Trace basePrice rs out s) (never : NeverReused rs) :
    Matched rs out := by
  refine trace.invariant (P := fun rs out _ => NeverReused rs → Matched rs out) ?_ ?_ never
  · intro _
    exact ⟨[], rfl, fun b mem => nomatch mem⟩
  · intro rs out s read sent t trace before event never
    have accounts := trace.accounts never.of_append
    refine (before never.of_append).concat ?_
    cases event with
    | @fill orders next t o rest wants front crosses full =>
        have shape : orders t.side.opposite = [] ++ o :: rest := front
        have here : o ∈ orders t.side.opposite := front ▸ List.mem_cons_self
        have positive : 0 < o.qty := trace.sound.positive _ o here
        rw [MatchState.standing, resting_split shape] at accounts
        rw [List.append_nil]
        have notTrade : MarketUpdateType.CANCEL ≠ .TRADE := by decide
        exact .inl (accounts.isMatch wants positive crosses notTrade _ _)
    | @fillPart orders next t o rest wants front crosses part =>
        have shape : orders t.side.opposite = [] ++ o :: rest := front
        rw [MatchState.standing, resting_split shape] at accounts
        rw [List.append_nil]
        have notTrade : MarketUpdateType.MODIFY ≠ .TRADE := by decide
        exact .inl (accounts.isMatch wants (Nat.pos_of_ne_zero wants) crosses notTrade _ _)
    | accept isNew sided =>
        exact .inr (by simp [Quiet, MEOrderBook.acceptedResponse])
    | rest wants stops inside room =>
        exact .inr (by simp [Quiet, MEOrderBook.addUpdate])
    | spent done =>
        exact .inr (by simp [Quiet])
    | reject isCancel =>
        exact .inr (by simp [Quiet, MEOrderBook.rejectedResponse])
    | withdraw isCancel shape addressed =>
        exact .inr (by simp [Quiet, RefBook.canceled])

/-- An executed quantity, bought or sold. -/
def MEClientResponse.signedQty (r : MEClientResponse) : Int :=
  match r.side with
  | .BUY => r.execQty
  | .SELL => -(r.execQty : Int)
  | .INVALID | .MAX => 0

def netQty (rs : List MEClientResponse) : Int :=
  (rs.map MEClientResponse.signedQty).sum

/-- The fills among the responses. -/
def fillsOf (out : List MEMessage) : List MEClientResponse :=
  (responses out).filter fun r => r.type = .FILLED

/-- What one side gets the other one gives. -/
theorem Matched.netQty_eq {rs : List MEClientRequest} {out : List MEMessage}
    (matched : Matched rs out) : netQty (fillsOf out) = 0 := by
  obtain ⟨blocks, rfl, each⟩ := matched
  induction blocks with
  | nil => rfl
  | cons b blocks ih =>
      have split : netQty (fillsOf (b :: blocks).flatten) =
          netQty (fillsOf b) + netQty (fillsOf blocks.flatten) := by
        rw [List.flatten_cons, fillsOf, responses_append, List.filter_append, netQty,
          List.map_append, List.sum_append]
        rfl
      rw [split, ih fun b mem => each b (List.mem_cons_of_mem _ mem), add_zero]
      rcases each b List.mem_cons_self with
        ⟨taker, -, maker, -, -, -, f, g, trade, last, rfl, isMatch, -⟩ | quiet
      · have pair : fillsOf [.response f, .response g, .update trade, .update last] = [f, g] := by
          simp [fillsOf, isMatch.filled]
        rw [pair, netQty, List.map_cons, List.map_cons, List.map_nil, List.sum_cons, List.sum_cons,
          List.sum_nil, add_zero, MEClientResponse.signedQty, MEClientResponse.signedQty,
          isMatch.qty.1, isMatch.qty.2.1]
        rcases isMatch.opposite with ⟨buy, sell⟩ | ⟨sell, buy⟩
        · rw [buy, sell]
          exact Int.add_right_neg _
        · rw [sell, buy]
          exact Int.add_left_neg _
      · have noFills : fillsOf b = [] :=
          List.filter_eq_nil_iff.mpr fun r mem isFilled =>
            quiet.1 r mem (of_decide_eq_true isFilled)
        rw [noFills]
        rfl

/-! ## Whole runs -/

/-- The walk of the book finds the order `r` with this quantity. -/
def MEOrderBook.RestsWith (s : MEOrderBook) (r : MEClientRequest) (qty : Qty) : Prop :=
  ∃ side : BookSide, ∃ level ∈ s.sideQueues side.toSide, level.1 = r.price ∧ ∃ key priority,
    (key, r.side, r.price, qty, priority) ∈ level.2 ∧ key.clientId = r.clientId ∧
      key.clientOrderId = r.orderId

/-- What stands of an order is found in the book. -/
theorem Refines.restsWith {basePrice : Price} {exact : Prop} {s : MEOrderBook} {ref : RefBook}
    (refines : Refines basePrice exact s ref) {e : Standing} {r : MEClientRequest}
    (mem : e ∈ resting ref.orders) (named : e.ref = r.ref) (side : e.side = r.side)
    (price : e.price = r.price) : s.RestsWith r e.qty := by
  obtain ⟨side', mem⟩ := (mem_both _).mp (Multiset.mem_coe.mp mem)
  obtain ⟨o, oMem, rfl⟩ := List.mem_map.mp mem
  obtain ⟨level, there, same, inside⟩ :=
    mem_groups (List.mem_map_of_mem (f := fun o => (o.price, o.content side')) oMem)
  rw [← refines.sim.sideQueues_eq] at there
  refine ⟨side', level, there, same.trans price, o.key, o.priority, ?_,
    congrArg Prod.fst named, congrArg Prod.snd named⟩
  rw [← side, ← price]
  exact inside

/-- **The life of an order, and conservation**, over every run in which no id is used
twice. -/
theorem run_lifecycle (basePrice : Price) (rs : List MEClientRequest) (s : MEOrderBook)
    (out : List MEMessage) (sided : ∀ r ∈ rs, Sided r) (never : NeverReused rs)
    (ran : run MEOrderBook.processClientRequest (MEOrderBook.new basePrice) rs = .ok (s, out)) :
    (∀ r ∈ rs, r.type = .NEW → 1 ≤ r.qty → Lifecycle r (own r.ref out) ∧
      ((∀ x ∈ own r.ref out, ¬ x.Terminal) →
        s.RestsWith r (r.qty - executed (own r.ref out)))) ∧
      Matched rs out ∧ netQty (fillsOf out) = 0 := by
  obtain ⟨ref, refines, trace⟩ := Trace.of_run sided ran
  have accounts := trace.accounts never
  have matched := trace.matched never
  refine ⟨fun r mem isNew wants => ?_, matched, matched.netQty_eq⟩
  have account := accounts r.ref
  have only : placed r.ref rs = [r] := placed_of_neverReused never mem isNew
  rw [only] at account
  generalize stands : (MatchState.standing ⟨ref.orders, none, ref.nextMarketOrderId⟩).filter
    (fun e => e.ref = r.ref) = stand at account
  cases account with
  | @standing _ _ e cycle lasts leaves some side price =>
      refine ⟨cycle, fun _ => ?_⟩
      have there : e ∈ (resting ref.orders).filter fun e => e.ref = r.ref := by
        rw [MatchState.standing] at stands
        rw [stands]
        exact Multiset.mem_singleton_self e
      obtain ⟨rests, named⟩ := Multiset.mem_filter.mp there
      have qty : r.qty - executed (own r.ref out) = e.qty := by lia
      rw [qty]
      exact refines.restsWith rests named side price
  | ended cycle ends =>
      refine ⟨cycle, fun lasts => ?_⟩
      obtain ⟨x, xMem, terminal⟩ := ends wants
      exact (lasts x xMem terminal).elim

/-- A sell that a buy takes half of and that is then canceled. -/
def halved : List MEClientRequest :=
  [⟨.NEW, 1, 0, 1, .SELL, 100, 4⟩, ⟨.NEW, 2, 0, 1, .BUY, 100, 2⟩,
    ⟨.CANCEL, 1, 0, 1, .SELL, 100, 4⟩]

theorem run_lifecycle_halved :
    ∃ s out, run MEOrderBook.processClientRequest (MEOrderBook.new 0) halved = .ok (s, out) ∧
      (∀ r ∈ halved, r.type = .NEW → 1 ≤ r.qty → Lifecycle r (own r.ref out) ∧
        ((∀ x ∈ own r.ref out, ¬ x.Terminal) →
          s.RestsWith r (r.qty - executed (own r.ref out)))) ∧
      Matched halved out ∧ netQty (fillsOf out) = 0 := by
  have wellBehaved : Along (WellBehaved 0 .unbounded) (RefBook.step .unbounded) RefBook.new
      halved := by decide
  obtain ⟨s, ran, -⟩ := Refines.run_unbounded wellBehaved (by decide)
  exact ⟨s, _, ran, run_lifecycle 0 halved s _ (by decide) (by decide) ran⟩

/-- A cancel carries an invalid execution, and an order of no side is filled on no
side. -/
theorem not_netQty_canceled :
    (¬ ∀ rs s out, (∀ r ∈ rs, Sided r) → NeverReused rs →
      run MEOrderBook.processClientRequest (MEOrderBook.new 0) rs = .ok (s, out) →
        netQty (responses out) = 0) ∧
      ¬ ∀ rs s out, NeverReused rs →
        run MEOrderBook.processClientRequest (MEOrderBook.new 0) rs = .ok (s, out) →
          netQty (fillsOf out) = 0 := by
  constructor
  · intro always
    obtain ⟨s, out, ran, net⟩ := run_of_map MEOrderBook.processClientRequest (MEOrderBook.new 0)
      [⟨.NEW, 1, 0, 1, .BUY, 100, 5⟩, ⟨.CANCEL, 1, 0, 1, .BUY, 100, 5⟩]
      (fun out => netQty (responses out)) 4294967295 (by decide +kernel)
    have zero := always _ s out (by decide) (by decide) ran
    rw [net] at zero
    cases zero
  · intro always
    obtain ⟨s, out, ran, net⟩ := run_of_map MEOrderBook.processClientRequest (MEOrderBook.new 0)
      [⟨.NEW, 1, 0, 1, .INVALID, 100, 1⟩, ⟨.NEW, 2, 0, 1, .BUY, 100, 1⟩]
      (fun out => netQty (fillsOf out)) 1 (by decide +kernel)
    have zero := always _ s out (by decide) ran
    rw [net] at zero
    cases zero

end NanoTrade
