import NanoTrade.Exchange.Reference
import NanoTrade.Machine

/-!
# Market order ids and priorities

The book numbers its orders, and inside a price the priorities and the ids grow from
the first order to the last one, as long as no counter wraps (`Numbered`). Until the
first id that does not fit 32 bits the counters of the source count like unbounded
ones (`Numbered.add_machine`).

* `Regular.step`, `Regular.run`: what holds of a reference book is kept.
* `run_machine`: over fewer than `2 ^ 32` new orders both counters give one run.
-/

namespace NanoTrade

namespace RefBook

/-- `a` stands ahead of `b`, and where they have one price it has the lower numbers. -/
def Queued (a b : MEResting) : Prop :=
  a.price = b.price → a.key.marketOrderId < b.key.marketOrderId ∧ a.priority < b.priority

/-- All numbers are below the next id, no id is used twice, and every price is queued. -/
structure Numbered (orders : BookSide → List MEResting) (next : OrderId) : Prop where
  below : ∀ side, ∀ o ∈ orders side, o.key.marketOrderId < next ∧ o.priority < next
  distinct : ((both orders).map fun o => o.key.marketOrderId).Nodup
  queued : ∀ side, (orders side).Pairwise Queued

theorem Numbered.new (next : OrderId) : Numbered (fun _ => []) next := by
  refine ⟨?_, List.nodup_nil, fun _ => List.Pairwise.nil⟩
  intro side o mem
  cases mem

variable {w : Width} {ref : RefBook} {orders orders' : BookSide → List MEResting}
  {side : BookSide} {r : MEClientRequest} {next next' : OrderId}

/-- The numbers are part of the tags. -/
theorem queued_of_sublist {xs ys : List MEResting}
    (sub : (ys.map Resting.tag).Sublist (xs.map Resting.tag)) (queued : xs.Pairwise Queued) :
    ys.Pairwise Queued := by
  have tags : ∀ zs : List MEResting, zs.Pairwise Queued ↔ (zs.map Resting.tag).Pairwise fun a b =>
      a.2.1 = b.2.1 → a.1.marketOrderId < b.1.marketOrderId ∧ a.2.2 < b.2.2 := by
    intro zs
    rw [List.pairwise_map]
    rfl
  exact (tags ys).mpr (((tags xs).mp queued).sublist sub)

/-- A book that keeps some of the orders stays numbered. -/
theorem Numbered.sublist (numbered : Numbered orders next)
    (sub : ∀ side, ((orders' side).map Resting.tag).Sublist ((orders side).map Resting.tag))
    (later : next ≤ next') : Numbered orders' next' := by
  refine ⟨fun side o mem => ?_, ?_, fun side => queued_of_sublist (sub side) (numbered.queued side)⟩
  · obtain ⟨x, xMem, same⟩ := List.mem_map.mp ((sub side).subset (List.mem_map_of_mem mem))
    have key : x.key = o.key := congrArg (·.1) same
    have priority : x.priority = o.priority := congrArg (·.2.2) same
    have old := numbered.below side x xMem
    rw [key, priority] at old
    exact ⟨lt_of_lt_of_le old.1 later, lt_of_lt_of_le old.2 later⟩
  · have ids : ∀ xs : BookSide → List MEResting, (both xs).map (fun o => o.key.marketOrderId) =
        (both fun side => (xs side).map Resting.tag).map fun t => t.1.marketOrderId := by
      intro xs
      rw [← map_both, List.map_map]
      rfl
    have both := ((sub .bid).append (sub .ask)).map fun t => t.1.marketOrderId
    have distinct := numbered.distinct
    rw [ids] at distinct ⊢
    exact distinct.sublist both

theorem Numbered.withdraw (numbered : Numbered orders next) {xs ys : List MEResting} {o : MEResting}
    (shape : orders side = xs ++ o :: ys) :
    Numbered (Function.update orders side (xs ++ ys)) next := by
  refine numbered.sublist (fun side' => ?_) (Nat.le_refl _)
  rcases eq_or_ne side' side with rfl | ne
  · rw [Function.update_self, shape]
    exact ((List.sublist_cons_self o ys).append_left xs).map _
  · rw [Function.update_of_ne ne]

theorem Numbered.requantify (numbered : Numbered orders next) {xs ys : List MEResting}
    {o : MEResting} {qty : Qty} (shape : orders side = xs ++ o :: ys) :
    Numbered (Function.update orders side (xs ++ { o with qty := qty } :: ys)) next :=
  numbered.sublist (fun side' => by rw [map_tag_requantify shape]) (Nat.le_refl _)

theorem swept_sublist (side' : BookSide) :
    ((swept w ref side r side').map Resting.tag).Sublist ((ref.orders side').map Resting.tag) := by
  rcases eq_or_ne side' side.opposite with rfl | ne
  · rw [swept_opposite]
    exact (sweep_suffix _ _ _ _).sublist
  · rw [swept, Function.update_of_ne ne]

/-- The next priority at a price is above all that are there. -/
theorem priority_lt_nextPriority {xs : List MEResting} {price : Price} {o : MEResting}
    (queued : xs.Pairwise Queued) (exact : ∀ x ∈ xs, w.counter (x.priority + 1) = x.priority + 1)
    (mem : o ∈ xs) (same : o.price = price) : o.priority < nextPriority w xs price := by
  have here : o ∈ xs.filter fun o => decide (o.price = price) :=
    List.mem_filter.mpr ⟨mem, decide_eq_true same⟩
  obtain ⟨init, last, shape⟩ : ∃ init last, (xs.filter fun o => decide (o.price = price)) =
      init ++ [last] := by
    rcases List.eq_nil_or_concat (xs.filter fun o => decide (o.price = price)) with empty | filled
    · rw [empty] at here
      cases here
    · obtain ⟨init, last, shape⟩ := filled
      exact ⟨init, last, shape.trans (List.concat_eq_append ..)⟩
  have lastMem : last ∈ xs.filter fun o => decide (o.price = price) := by
    rw [shape]
    simp
  obtain ⟨lastXs, lastPrice⟩ := List.mem_filter.mp lastMem
  have order := queued.filter fun o => decide (o.price = price)
  rw [shape, List.pairwise_append] at order
  rw [nextPriority, shape, List.getLast?_concat]
  show o.priority < w.counter (last.priority + 1)
  rw [exact last lastXs]
  rw [shape, List.mem_append, List.mem_singleton] at here
  rcases here with before | rfl
  · have ahead := order.2.2 o before last (List.mem_singleton_self _)
      (same.trans (of_decide_eq_true lastPrice).symm)
    lia
  · lia

theorem nextPriority_le {xs : List MEResting} {price : Price} (pos : 0 < next)
    (exact : ∀ x ∈ xs, w.counter (x.priority + 1) = x.priority + 1)
    (below : ∀ x ∈ xs, x.priority < next) : nextPriority w xs price ≤ next := by
  rw [nextPriority]
  cases last : (xs.filter fun o => decide (o.price = price)).getLast? with
  | none => exact pos
  | some o =>
      have mem := List.mem_of_mem_filter (List.mem_of_getLast? last)
      show w.counter (o.priority + 1) ≤ next
      rw [exact o mem]
      exact below o mem

/-- Behind its price a new order with higher numbers is queued. -/
theorem queued_insert {xs : List MEResting} {o : MEResting} (queued : xs.Pairwise Queued)
    (sorted : xs.Pairwise fun a b => ¬ Resting.Ahead side b a)
    (above : ∀ x ∈ xs, x.price = o.price → x.key.marketOrderId < o.key.marketOrderId ∧
      x.priority < o.priority) :
    (xs.orderedInsert (Resting.Ahead side) o).Pairwise Queued := by
  induction xs with
  | nil => exact List.pairwise_singleton _ _
  | cons x xs ih =>
      obtain ⟨first, rest⟩ := List.pairwise_cons.mp queued
      obtain ⟨behind, sortedRest⟩ := List.pairwise_cons.mp sorted
      by_cases ahead : Resting.Ahead side o x
      · rw [List.orderedInsert_cons_of_le _ _ ahead]
        refine List.pairwise_cons.mpr ⟨fun y mem same => ?_, queued⟩
        -- No order behind `x` has the price of `o`, which ranks ahead of `x`.
        rcases List.mem_cons.mp mem with rfl | mem
        · exact (BookSide.Ahead.ne ahead same).elim
        · refine (behind y mem ?_).elim
          have aheadX : side.Ahead y.price x.price := same ▸ ahead
          exact aheadX
      · rw [List.orderedInsert_of_not_le _ _ ahead]
        refine List.pairwise_cons.mpr ⟨fun y mem => ?_,
          ih rest sortedRest fun y mem => above y (List.mem_cons_of_mem _ mem)⟩
        rcases (List.mem_orderedInsert _).mp mem with rfl | mem
        · exact above x List.mem_cons_self
        · exact first y mem

theorem Numbered.insert (numbered : Numbered orders next) {o : MEResting}
    (sorted : (orders side).Pairwise fun a b => ¬ Resting.Ahead side b a)
    (number : o.key.marketOrderId = next) (low : o.priority ≤ next)
    (high : ∀ x ∈ orders side, x.price = o.price → x.priority < o.priority) :
    Numbered (Function.update orders side ((orders side).orderedInsert (Resting.Ahead side) o))
      (next + 1) := by
  refine ⟨fun side' x mem => ?_, ?_, fun side' => ?_⟩
  · have known : x = o ∨ x ∈ orders side' := by
      rcases eq_or_ne side' side with rfl | ne
      · rw [Function.update_self, List.mem_orderedInsert] at mem
        exact mem
      · rw [Function.update_of_ne ne] at mem
        exact .inr mem
    rcases known with rfl | old
    · exact ⟨by lia, by lia⟩
    · have := numbered.below side' x old
      exact ⟨by lia, by lia⟩
  · have grown := (perm_both_update orders side
      ((orders side).orderedInsert (Resting.Ahead side) o)).trans
      ((List.perm_orderedInsert (Resting.Ahead side) o (orders side)).append_right _)
    have whole := grown.trans ((perm_both orders side).symm.cons o)
    rw [(whole.map _).nodup_iff, List.map_cons, List.nodup_cons]
    refine ⟨fun mem => ?_, numbered.distinct⟩
    obtain ⟨x, xMem, same⟩ := List.mem_map.mp mem
    obtain ⟨side', old⟩ := (mem_both _).mp xMem
    have := (numbered.below side' x old).1
    lia
  · rcases eq_or_ne side' side with rfl | ne
    · rw [Function.update_self]
      refine queued_insert (numbered.queued side') sorted fun x mem same => ⟨?_, high x mem same⟩
      rw [number]
      exact (numbered.below side' x mem).1
    · rw [Function.update_of_ne ne]
      exact numbered.queued side'

/-- A NEW keeps the book numbered, where the counters do not wrap. -/
theorem Numbered.add (numbered : Numbered ref.orders ref.nextMarketOrderId)
    (sound : Sound ref.orders) (pos : 0 < ref.nextMarketOrderId)
    (exact : ∀ n ≤ ref.nextMarketOrderId, w.counter n = n) :
    Numbered (ref.add w side r).1.orders (ref.nextMarketOrderId + 1) := by
  have exactHere : ∀ x ∈ ref.orders side, w.counter (x.priority + 1) = x.priority + 1 :=
    fun x mem => exact _ (numbered.below side x mem).2
  have sweptNumbered : Numbered (swept w ref side r) ref.nextMarketOrderId :=
    numbered.sublist swept_sublist (Nat.le_refl _)
  rcases eq_or_ne (matched w ref side r).2.1 0 with filled | left
  · rw [add_filled filled]
    exact numbered.sublist swept_sublist (Nat.le_succ _)
  · rw [add_left left, ← swept_own (w := w) (r := r)]
    refine sweptNumbered.insert (sound.swept.sorted side) rfl ?_ ?_
    · exact nextPriority_le pos exactHere fun x mem => (numbered.below side x mem).2
    · rw [swept_own]
      intro x mem same
      exact priority_lt_nextPriority (numbered.queued side) exactHere mem same

/-- The counters of the source count up to the first id that does not fit 32 bits. -/
theorem Numbered.add_machine (numbered : Numbered ref.orders ref.nextMarketOrderId)
    (small : ref.nextMarketOrderId < 2 ^ 32) :
    ref.add .machine side r = ref.add .unbounded side r := by
  have fillId : Width.machine.fillId ref.nextMarketOrderId = ref.nextMarketOrderId :=
    Nat.mod_eq_of_lt small
  have counter : ∀ {n}, n < 2 ^ 64 → Width.machine.counter n = n := Nat.mod_eq_of_lt
  have matched : matched .machine ref side r = matched .unbounded ref side r := by
    rw [RefBook.matched, RefBook.matched, fillId]
    rfl
  have priority : nextPriority .machine (ref.orders side) r.price =
      nextPriority .unbounded (ref.orders side) r.price := by
    rw [nextPriority, nextPriority]
    cases last : ((ref.orders side).filter fun o => decide (o.price = r.price)).getLast? with
    | none => rfl
    | some o =>
        have mem := List.mem_of_mem_filter (List.mem_of_getLast? last)
        have below := (numbered.below side o mem).2
        exact counter (by lia)
  have next : Width.machine.counter (ref.nextMarketOrderId + 1) = ref.nextMarketOrderId + 1 :=
    counter (by lia)
  rw [RefBook.add, RefBook.add, swept, swept, remainder, remainder, matched, priority, next]
  rfl

/-! ## Whole requests and runs -/

theorem step_new {w : Width} {ref : RefBook} {r : MEClientRequest} {side : BookSide}
    (isNew : r.type = .NEW) (rSide : r.side = side.toSide) : step w ref r = ref.add w side r := by
  simp only [step, isNew, rSide, BookSide.ofSide_toSide]

theorem step_cancel {w : Width} {ref : RefBook} {r : MEClientRequest}
    (isCancel : r.type = .CANCEL) : step w ref r = ref.cancel r := by
  simp only [step, isCancel]

/-- A CANCEL is rejected, or it takes one addressed order out. -/
inductive Cancels (ref : RefBook) (r : MEClientRequest) : RefBook × List MEMessage → Prop
  | rejected (fresh : ∀ side, ∀ o ∈ ref.orders side, ¬ Addresses r.clientId r.orderId o) :
      Cancels ref r (ref, [MEOrderBook.rejectedResponse r.clientId r.orderId r.tickerId])
  | taken {side : BookSide} {o : MEResting} {xs ys : List MEResting}
      (shape : ref.orders side = xs ++ o :: ys) (own : Addresses r.clientId r.orderId o) :
      Cancels ref r ({ ref with orders := Function.update ref.orders side (xs ++ ys) },
        canceled r side o)

theorem cancel_cases (ref : RefBook) (r : MEClientRequest) : Cancels ref r (ref.cancel r) := by
  have taken : ∀ {side o}, ref.addressed side r = some o →
      Cancels ref r (ref.withdraw side r, canceled r side o) := by
    intro side o found
    obtain ⟨own, xs, ys, shape, before⟩ := List.find?_eq_some_iff_append.mp found
    have erased : (ref.orders side).eraseP (fun o => Addresses r.clientId r.orderId o) =
        xs ++ ys := by
      rw [shape, List.eraseP_append_right, List.eraseP_cons_of_pos]
      · exact own
      · intro x mem
        simpa using before x mem
    rw [withdraw, erased]
    exact .taken shape (of_decide_eq_true own)
  rw [cancel]
  cases bid : ref.addressed .bid r with
  | some o => exact taken bid
  | none =>
      cases ask : ref.addressed .ask r with
      | some o => exact taken ask
      | none =>
          refine .rejected fun side o mem own => ?_
          cases side with
          | bid => exact List.find?_eq_none.mp bid o mem (decide_eq_true own)
          | ask => exact List.find?_eq_none.mp ask o mem (decide_eq_true own)

/-- What holds of a reference book whose next id is the `n`-th one. The counter of ids has
perhaps wrapped already, the priorities of resting orders have not. -/
structure Regular (w : Width) (ref : RefBook) (n : Nat) : Prop where
  sound : Sound ref.orders
  numbered : Numbered ref.orders n
  pos : 0 < n
  next : ref.nextMarketOrderId = w.counter n

theorem Regular.new (w : Width) (one : w.counter 1 = 1) : Regular w RefBook.new 1 :=
  ⟨Sound.new, Numbered.new _, Nat.one_pos, one.symm⟩

theorem Regular.add {n : Nat} (regular : Regular w ref n) (exact : ∀ k ≤ n, w.counter k = k) :
    Regular w (ref.add w side r).1 (n + 1) := by
  have number : ref.nextMarketOrderId = n := regular.next.trans (exact n (Nat.le_refl _))
  have numbered := regular.numbered
  have pos := regular.pos
  rw [← number] at numbered exact pos ⊢
  refine ⟨regular.sound.add, numbered.add regular.sound pos exact, Nat.succ_pos _, ?_⟩
  rw [RefBook.add]
  split <;> rfl

theorem Regular.cancel {n : Nat} (regular : Regular w ref n) : Regular w (ref.cancel r).1 n := by
  have cancels := cancel_cases ref r
  generalize ref.cancel r = result at cancels
  cases cancels with
  | rejected fresh => exact regular
  | taken shape own =>
      exact ⟨regular.sound.withdraw shape, regular.numbered.withdraw shape, regular.pos,
        regular.next⟩

/-- How many of the requests are new orders. -/
def news (rs : List MEClientRequest) : Nat :=
  rs.countP fun r => r.type = .NEW

theorem news_cons (r : MEClientRequest) (rs : List MEClientRequest) :
    news (r :: rs) = news [r] + news rs := by
  rw [news, news, news, ← List.countP_append]
  rfl

theorem news_new (isNew : r.type = .NEW) : news [r] = 1 := by
  simp [news, isNew]

theorem news_cancel (isCancel : r.type = .CANCEL) : news [r] = 0 := by
  simp [news, isCancel]

theorem Regular.step {n : Nat} (regular : Regular w ref n)
    (exact : r.type = .NEW → ∀ k ≤ n, w.counter k = k) :
    ∃ n' ≤ n + news [r], Regular w (RefBook.step w ref r).1 n' := by
  cases isType : r.type with
  | INVALID =>
      simp only [RefBook.step, isType]
      exact ⟨n, Nat.le_add_right _ _, regular⟩
  | CANCEL =>
      rw [step_cancel isType]
      exact ⟨n, Nat.le_add_right _ _, regular.cancel⟩
  | NEW =>
      cases isSide : BookSide.ofSide r.side with
      | none =>
          simp only [RefBook.step, isType, isSide]
          exact ⟨n, Nat.le_add_right _ _, regular⟩
      | some side =>
          simp only [RefBook.step, isType, isSide]
          exact ⟨n + 1, by rw [news_new isType], regular.add (exact isType)⟩

theorem counter_machine {n : Nat} (small : n < 2 ^ 64) : Width.machine.counter n = n :=
  Nat.mod_eq_of_lt small

/-- Fewer than `2 ^ 64` new orders leave a book regular. -/
theorem Regular.run {n : Nat} (regular : Regular .machine ref n) (rs : List MEClientRequest)
    (few : n + news rs ≤ 2 ^ 64) :
    ∃ n' ≤ n + news rs, Regular .machine (runTotal (RefBook.step .machine) ref rs).1 n' := by
  induction rs generalizing ref n with
  | nil => exact ⟨n, Nat.le_refl _, regular⟩
  | cons r rs ih =>
      rw [news_cons] at few ⊢
      obtain ⟨m, bound, regular'⟩ := regular.step (r := r) fun isNew k le => by
        have one := news_new isNew
        exact counter_machine (by lia)
      obtain ⟨n', bound', last⟩ := ih regular' (by lia)
      exact ⟨n', by lia, last⟩

/-- Fewer than `2 ^ 32` new orders are counted exactly. -/
theorem run_machine {n : Nat} (regular : Regular .unbounded ref n) (rs : List MEClientRequest)
    (few : n + news rs ≤ 2 ^ 32) :
    runTotal (RefBook.step .machine) ref rs = runTotal (RefBook.step .unbounded) ref rs ∧
      ∀ pre : Width → RefBook → MEClientRequest → Prop,
        (∀ {ref r}, ref.step .machine r = ref.step .unbounded r → pre .unbounded ref r →
          pre .machine ref r) →
        Along (pre .unbounded) (RefBook.step .unbounded) ref rs →
        Along (pre .machine) (RefBook.step .machine) ref rs := by
  induction rs generalizing ref n with
  | nil => exact ⟨rfl, fun _ _ _ => trivial⟩
  | cons r rs ih =>
      rw [news_cons] at few
      have same : ref.step .machine r = ref.step .unbounded r := by
        cases isType : r.type with
        | INVALID => simp only [RefBook.step, isType]
        | CANCEL => rw [step_cancel isType, step_cancel isType]
        | NEW =>
            have one := news_new isType
            cases isSide : BookSide.ofSide r.side with
            | none => simp only [RefBook.step, isType, isSide]
            | some side =>
                simp only [RefBook.step, isType, isSide]
                have number : ref.nextMarketOrderId = n := regular.next
                have numbered := regular.numbered
                rw [← number] at numbered
                exact numbered.add_machine (by lia)
      obtain ⟨m, bound, regular'⟩ := regular.step (r := r) fun _ _ _ => rfl
      obtain ⟨tail, along⟩ := ih regular' (by lia)
      refine ⟨?_, fun pre carry both => ⟨carry same both.1, ?_⟩⟩
      · rw [runTotal, runTotal, same, tail]
      · rw [same]
        exact along pre carry both.2

end RefBook

end NanoTrade
