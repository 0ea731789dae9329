import NanoTrade.Exchange.WellBehaved

/-!
# The representation invariant of the order book

`MEOrderBook.Invariant` is the whole of it: the links, the heads, the two tables and the
two pools hold the same levels and orders (`Rep`), the book is not crossed, every
order wants something, and inside a level the priorities grow.

* `run_invariant_machine`: it holds after every well-behaved run of at most `2 ^ 64 - 1`
  new orders.
* `not_invariant_churn`: one more can wrap the `uint64_t` priority of a level that never
  runs empty.
-/

namespace NanoTrade

/-- `s` holds `book`, and `book` is a book that an exchange may show. -/
structure MEOrderBook.Invariant (s : MEOrderBook) (book : Book MEOrderKey) : Prop where
  rep : LevelBook.Rep meLayout (InWindow s.basePrice) (fun _ => False) True s.toLevelBook book
  uncrossed : ∀ b ∈ book .bid, ∀ a ∈ book .ask, b.price < a.price
  positive : ∀ {side}, ∀ l ∈ book side, ∀ o ∈ l.orders, 0 < o.qty
  increasing : ∀ {side}, ∀ l ∈ book side, l.orders.Pairwise fun a b => a.priority < b.priority

namespace MEOrderBook

variable {s : MEOrderBook} {book : Book MEOrderKey} {basePrice : Price} {ref : RefBook}

/-- What a book with the invariant shows. -/
theorem Invariant.queues_increasing (invariant : s.Invariant book) (side : BookSide) :
    ∀ q ∈ s.sideQueues side.toSide, q.2.Pairwise fun a b => a.2.2.2.2 < b.2.2.2.2 := by
  intro q mem
  rw [invariant.rep.sideQueues_eq] at mem
  obtain ⟨l, lMem, rfl⟩ := List.mem_map.mp mem
  rw [List.pairwise_map]
  exact invariant.increasing l lMem

/-- A level of a book that refines `ref` holds orders of `ref` in their order. -/
theorem level_sublist {stale : Price → Prop} {exact : Prop} {orders : BookSide → List MEResting}
    (rep : LevelBook.Rep meLayout (InWindow basePrice) stale exact s.toLevelBook book)
    (views : ∀ side, (book.flat side).map Resting.view = orders side) {side : BookSide}
    {l : RestingLevel MEOrderKey} (mem : l ∈ book side) :
    (l.orders.map fun o => Resting.view (l.price, o)).Sublist (orders side) := by
  have own : Book.priced l = (book.flat side).filter fun x => x.1 = l.price :=
    (Book.filter_flat (rep.placed.levels.sorted side) mem).symm
  have sub : (Book.priced l).Sublist (book.flat side) := by
    rw [own]
    exact List.filter_sublist
  have viewed := sub.map Resting.view
  rw [views, Book.priced, List.map_map] at viewed
  exact viewed

/-- The invariant of a book that refines a regular reference book. -/
theorem invariant_of_refines {n : Nat} (refines : Refines basePrice True s ref)
    (regular : RefBook.Regular .machine ref n) : ∃ book, s.Invariant book := by
  obtain ⟨base, book, rep, views⟩ := refines.sim
  have rep' := rep
  rw [← base] at rep'
  refine ⟨book, rep', ?_, ?_, ?_⟩
  · intro b bMem a aMem
    obtain ⟨x, _, bShape⟩ := List.exists_cons_of_ne_nil (rep.filled b bMem)
    obtain ⟨y, _, aShape⟩ := List.exists_cons_of_ne_nil (rep.filled a aMem)
    exact refines.sound.uncrossed
      _ (LevelBook.Lists.view_mem views bMem (x := x) (by rw [bShape]; exact List.mem_cons_self))
      _ (LevelBook.Lists.view_mem views aMem (x := y) (by rw [aShape]; exact List.mem_cons_self))
  · intro side l mem o oMem
    exact refines.sound.positive side _ (LevelBook.Lists.view_mem views mem oMem)
  · intro side l mem
    have queued := (regular.numbered.queued side).sublist (level_sublist rep views mem)
    rw [List.pairwise_map] at queued
    exact queued.imp fun ahead => (ahead rfl).2

end MEOrderBook

/-- **The invariant over whole runs.** -/
theorem run_invariant_machine (basePrice : Price) (rs : List MEClientRequest)
    (wellBehaved : Along (WellBehaved basePrice .machine) (RefBook.step .machine)
      RefBook.new rs)
    (few : RefBook.news rs < 2 ^ 64) (p : List MEClientRequest) (prefixed : p <+: rs) :
    ∃ s out, run MEOrderBook.processClientRequest (MEOrderBook.new basePrice) p = .ok (s, out) ∧
      ∃ book, s.Invariant book := by
  have fewer : RefBook.news p ≤ RefBook.news rs := prefixed.sublist.countP_le
  obtain ⟨s, ran, refines⟩ :=
    (Refines.new basePrice True).run (along_prefixed prefixed wellBehaved)
  obtain ⟨n, -, regular⟩ := (RefBook.Regular.new .machine rfl).run p (by lia)
  exact ⟨s, _, ran, MEOrderBook.invariant_of_refines refines regular⟩

/-- A bid with two asks above it, one of them withdrawn. -/
theorem run_invariant_machine_withdrawn :
    ∃ s out, run MEOrderBook.processClientRequest (MEOrderBook.new 100)
        [⟨.NEW, 1, 0, 1, .SELL, 105, 4⟩, ⟨.NEW, 1, 0, 2, .SELL, 106, 4⟩,
          ⟨.NEW, 2, 0, 1, .BUY, 104, 6⟩, ⟨.CANCEL, 1, 0, 1, .SELL, 105, 4⟩] = .ok (s, out) ∧
      ∃ book, s.Invariant book :=
  run_invariant_machine 100 _ (by decide) (by decide) _ (List.prefix_refl _)

/-! ## A level that never runs empty

One client keeps a bid at 100 and replaces it for ever: the new order enters before the
old one leaves, so that each takes the priority behind the last. -/

/-- The replacements use two client order ids in turn. -/
def churnNew (k : Nat) : MEClientRequest :=
  { type := .NEW, clientId := 0, tickerId := 0, orderId := k % 2, side := .BUY, price := 100,
    qty := 1 }

def churnCancel (k : Nat) : MEClientRequest :=
  { churnNew k with type := .CANCEL }

/-- `k` replacements behind the first order. -/
def churn : Nat → List MEClientRequest
  | 0 => [churnNew 1]
  | k + 1 => churn k ++ [churnNew k, churnCancel (k + 1)]

/-- The order that rests after `k` replacements. -/
def churned (k : Nat) : MEResting :=
  { key := { tickerId := 0, clientId := 0, clientOrderId := (k + 1) % 2,
             marketOrderId := (k + 1) % 2 ^ 64 }
    price := 100, qty := 1, priority := (k + 1) % 2 ^ 64 }

/-- The book with these bids, before its `n`-th new order. -/
def bids (xs : List MEResting) (n : Nat) : RefBook :=
  { orders := fun | .bid => xs | .ask => [], nextMarketOrderId := n % 2 ^ 64 }

theorem churn_new (k : Nat) :
    ((bids [churned k] (k + 2)).step .machine (churnNew k)).1 =
      bids [churned k, churned (k + 1)] (k + 3) := by
  have turn : (k + 2) % 2 = k % 2 := by omega
  have later : ((k + 2) % 2 ^ 64 + 1) % 2 ^ 64 = (k + 3) % 2 ^ 64 := by omega
  have stays : ¬ Resting.Ahead .bid (churned (k + 1)) (churned k) := BookSide.Ahead.irrefl
  have order : RefBook.remainder .machine (bids [churned k] (k + 2)) .bid (churnNew k) 1 =
      churned (k + 1) := by
    simp [RefBook.remainder, bids, churned, churnNew, RefBook.nextPriority, Width.machine, turn]
  have matched : RefBook.matched .machine (bids [churned k] (k + 2)) .bid (churnNew k) =
      ([], 1, []) := rfl
  rw [RefBook.step_new rfl (show (churnNew k).side = BookSide.bid.toSide from rfl), RefBook.add,
    matched]
  simp only [Nat.one_ne_zero, if_false, order]
  rw [bids, RefBook.mk.injEq]
  refine ⟨?_, later⟩
  funext side
  cases side with
  | bid => simp [bids, List.orderedInsert, stays]
  | ask => exact congrArg (·.1) matched

theorem churn_cancel (k : Nat) :
    ((bids [churned k, churned (k + 1)] (k + 3)).step .machine (churnCancel (k + 1))).1 =
      bids [churned (k + 1)] (k + 3) := by
  have own : RefBook.Addresses (churnCancel (k + 1)).clientId (churnCancel (k + 1)).orderId
      (churned k) := ⟨rfl, rfl⟩
  have found : (bids [churned k, churned (k + 1)] (k + 3)).addressed .bid (churnCancel (k + 1)) =
      some (churned k) := List.find?_cons_of_pos (decide_eq_true own)
  rw [RefBook.step_cancel rfl, RefBook.cancel, found, RefBook.withdraw, bids, bids,
    RefBook.mk.injEq]
  refine ⟨?_, rfl⟩
  funext side
  cases side with
  | bid => simp [own]
  | ask => rfl

theorem churn_wellBehaved (k : Nat) :
    WellBehaved 100 .machine (bids [churned k] (k + 2)) (churnNew k) := by
  refine ⟨(by decide : 0 < ME_MAX_NUM_CLIENTS), ?_,
    .inr ⟨rfl, .inl ⟨rfl, (by decide : InWindow 100 100), ?_, ?_⟩⟩⟩
  · show k % 2 < ME_MAX_ORDER_IDS
    simp only [ME_MAX_ORDER_IDS]
    omega
  · intro side o mem own
    cases side with
    | bid =>
        rw [bids, List.mem_singleton] at mem
        subst mem
        have same : (k + 1) % 2 = k % 2 := own.2
        omega
    | ask => cases mem
  · rw [← RefBook.step_new rfl (show (churnNew k).side = BookSide.bid.toSide from rfl), churn_new]
    exact (by decide : 2 < ME_MAX_ORDER_IDS)

/-- After `k` replacements the order of the last one rests. -/
theorem churn_run (k : Nat) :
    Along (WellBehaved 100 .machine) (RefBook.step .machine) RefBook.new (churn k) ∧
      (runTotal (RefBook.step .machine) RefBook.new (churn k)).1 = bids [churned k] (k + 2) := by
  induction k with
  | zero =>
      have first : (RefBook.new.step .machine (churnNew 1)).1 = bids [churned 0] 2 := by
        rw [RefBook.step_new rfl (show (churnNew 1).side = BookSide.bid.toSide from rfl), bids]
        refine RefBook.mk.injEq .. |>.mpr ⟨?_, rfl⟩
        funext side
        cases side <;> rfl
      exact ⟨by decide, first⟩
  | succ k ih =>
      have late : WellBehaved 100 .machine (bids [churned k, churned (k + 1)] (k + 3))
          (churnCancel (k + 1)) := by
        refine ⟨(by decide : 0 < ME_MAX_NUM_CLIENTS), ?_, .inl rfl⟩
        show (k + 1) % 2 < ME_MAX_ORDER_IDS
        simp only [ME_MAX_ORDER_IDS]
        omega
      constructor
      · rw [churn, along_append, ih.2]
        refine ⟨ih.1, churn_wellBehaved k, ?_, trivial⟩
        rw [churn_new]
        exact late
      · rw [churn, runTotal_append, ih.2]
        simp only [runTotal, churn_new, churn_cancel]

/-- The order behind one with the last priority there is has priority 0. -/
theorem churn_wraps {k : Nat} (last : k + 2 = 2 ^ 64) :
    ∃ s out, run MEOrderBook.processClientRequest (MEOrderBook.new 100) (churn k ++ [churnNew k]) =
        .ok (s, out) ∧
      Along (WellBehaved 100 .machine) (RefBook.step .machine) RefBook.new
        (churn k ++ [churnNew k]) ∧
      ¬ ∃ book, s.Invariant book := by
  obtain ⟨before, state⟩ := churn_run k
  have wellBehaved : Along (WellBehaved 100 .machine) (RefBook.step .machine) RefBook.new
      (churn k ++ [churnNew k]) := by
    rw [along_append, state]
    exact ⟨before, churn_wellBehaved k, trivial⟩
  obtain ⟨s, ran, refines⟩ := (Refines.new 100 True).run wellBehaved
  refine ⟨s, _, ran, wellBehaved, fun ⟨book, invariant⟩ => ?_⟩
  rw [runTotal_concat, state, churn_new] at refines
  have shown := refines.sim.sideQueues_eq .bid
  have increasing := invariant.queues_increasing .bid
  rw [shown] at increasing
  have pair := increasing (100, [(churned k).content .bid, (churned (k + 1)).content .bid])
    (by simp [bids, churned, groups])
  rw [List.pairwise_pair] at pair
  have wrapped : (k + 1) % 2 ^ 64 < (k + 2) % 2 ^ 64 := pair
  omega

/-- The invariant fails after `2 ^ 64` new orders at a price that never runs empty. -/
theorem not_invariant_churn :
    ¬ ∀ rs : List MEClientRequest,
      Along (WellBehaved 100 .machine) (RefBook.step .machine) RefBook.new rs →
      ∃ s out, run MEOrderBook.processClientRequest (MEOrderBook.new 100) rs = .ok (s, out) ∧
        ∃ book, s.Invariant book := by
  intro always
  obtain ⟨k, last⟩ : ∃ k, k + 2 = 2 ^ 64 := ⟨2 ^ 64 - 2, by omega⟩
  obtain ⟨s, out, ran, wellBehaved, broken⟩ := churn_wraps last
  obtain ⟨s', out', ran', kept⟩ := always _ wellBehaved
  rw [ran, Except.ok.injEq, Prod.mk.injEq] at ran'
  rw [← ran'.1] at kept
  exact broken kept

end NanoTrade
