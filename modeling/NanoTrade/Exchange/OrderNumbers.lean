import NanoTrade.Exchange.Invariant
import NanoTrade.Exchange.Ledger

/-!
# Market order ids over the life of an order

`MEOrderBook` numbers its orders from a `uint64_t`, and `checkForMatch` takes the new number as
a `Qty`, which is a `uint32_t`. A book that runs along a ledger says for every message which
order it is about, so that `Consistent` can ask whether the ids agree with that.

* `run_marketOrderIds`: they do, in every run of at most `2 ^ 64` new orders in which no order
  trades on arrival from the id `2 ^ 32` on.
* `not_marketOrderIds_wide`: the one that does is accepted under its id and filled under the
  low half of it.
-/

namespace NanoTrade

/-- Two messages carry one id exactly where they are about one order, and a message about no
order names none. -/
structure Consistent (log : List Attributed) : Prop where
  same : ∀ n m n' m', (some n, m) ∈ log → (some n', m') ∈ log →
    (n = n' ↔ m.marketOrderId = m'.marketOrderId)
  apart : ∀ m, (none, m) ∈ log → m.NamesNone

/-- A NEW that trades when it comes has an id that fits the parameter of `checkForMatch`. -/
def Fits32 (s : MEOrderBook) (r : MEClientRequest) : Prop :=
  r.type = .NEW → Ledger.Crosses s r → s.nextMarketOrderId < 2 ^ 32

namespace Ledger

/-- The ids of order `n`: the `n`-th number after the first, as the counter has it. -/
def Numbers (n : Nat) (key : MEOrderKey) : Prop :=
  n < 2 ^ 64 ∧ key.marketOrderId = (n + 1) % 2 ^ 64 ∧
    ∃ slot, meSlot key.clientId key.clientOrderId = .ok slot

theorem known_numbers : Known Numbers :=
  fun _ _ numbers => numbers.2.2

/-- What a message with this order number carries. -/
def Told (x : Attributed) : Prop :=
  match x.1 with
  | some n => n < 2 ^ 64 ∧ x.2.marketOrderId = (n + 1) % 2 ^ 64
  | none => x.2.NamesNone

theorem consistent_of_told {log : List Attributed} (told : ∀ x ∈ log, Told x) :
    Consistent log := by
  refine ⟨fun n m n' m' mem mem' => ?_, fun m mem => told _ mem⟩
  obtain ⟨small, id⟩ := told _ mem
  obtain ⟨small', id'⟩ := told _ mem'
  rw [id, id']
  constructor
  · intro same
    rw [same]
  · intro same
    have same : (n + 1) % 2 ^ 64 = (n' + 1) % 2 ^ 64 := same
    omega

/-- A message of a request that has the numbers of the ledger. -/
theorem told_of_says {placed : Nat} {newId : OrderId} {x : Attributed}
    (small : placed < 2 ^ 64) (next : newId = (placed + 1) % 2 ^ 64)
    (told : Says Numbers placed newId x) : Told x := by
  cases told with
  | unnumbered apart => exact apart
  | order has id => exact ⟨has.1, id.trans has.2.1⟩
  | own id => exact ⟨small, id.trans next⟩

/-! ## The counters -/

variable {l l' : Ledger} {r : MEClientRequest} {log : List Attributed}

/-- A NEW is numbered, accepted and matched, and the rest of it, if any, is put into the book. -/
theorem add_eq_ok (added : l.add r = .ok (l', log)) :
    l'.placed = l.placed + 1 ∧
      l'.book.nextMarketOrderId = (l.book.nextMarketOrderId + 1) % 2 ^ 64 ∧
      ∃ s leavesQty matched messages accepted,
        MEOrderBook.attributedMatch l.owner l.placed l.book.toLevelBook r
          l.book.nextMarketOrderId = .ok (s, leavesQty, matched) ∧
        log = (some l.placed, accepted) :: matched ++
          List.map (fun m => (some l.placed, m)) messages := by
  unfold add at added
  obtain ⟨⟨s, leavesQty, matched⟩, swept, added⟩ := bind_eq_ok.mp added
  dsimp only at added
  split at added
  · cases added
    exact ⟨rfl, rfl, s, leavesQty, matched, [], _, swept, (List.append_nil _).symm⟩
  · obtain ⟨⟨t, messages⟩, rested, added⟩ := bind_eq_ok.mp added
    cases added
    exact ⟨rfl, rfl, s, leavesQty, matched, messages, _, swept, rfl⟩

theorem cancel_counts (cancelled : l.cancel r = .ok (l', log)) :
    l'.placed = l.placed ∧ l'.book.nextMarketOrderId = l.book.nextMarketOrderId := by
  unfold cancel at cancelled
  obtain ⟨⟨book, messages⟩, found, cancelled⟩ := bind_eq_ok.mp cancelled
  cases cancelled
  exact ⟨rfl, (MEOrderBook.cancel_eq_ok found).1⟩

/-! ## One request -/

/-- The next id is that of the next order, and the blocks have the ids of their orders. -/
structure Counted (l : Ledger) : Prop where
  next : l.book.nextMarketOrderId = (l.placed + 1) % 2 ^ 64
  keyed : Keyed Numbers l.owner l.book.toLevelBook

theorem Counted.new (basePrice : Price) : Counted (new basePrice) :=
  ⟨rfl, LevelBook.Leads.new ..⟩

theorem Counted.add (counted : Counted l) (small : l.placed < 2 ^ 64)
    (fits : Crosses l.book r → l.book.nextMarketOrderId < 2 ^ 32)
    (added : l.add r = .ok (l', log)) : Counted l' ∧ ∀ x ∈ log, Told x := by
  have fresh : InTable r → ¬ FilledOnArrival l.book r →
      Numbers l.placed ⟨r.tickerId, r.clientId, r.orderId, l.book.nextMarketOrderId⟩ :=
    fun inTable _ => ⟨small, counted.next, _, meSlot_eq_ok.mpr ⟨inTable.1, inTable.2, rfl⟩⟩
  obtain ⟨keyed, told⟩ := (ends_add known_numbers counted.keyed fresh).of_ok added
  obtain ⟨placed, next, -⟩ := add_eq_ok added
  refine ⟨⟨?_, keyed⟩, fun x mem => ?_⟩
  · rw [next, counted.next, placed]
    exact Nat.mod_add_mod ..
  · rcases told x mem with wide | ⟨crosses, narrow⟩
    · exact told_of_says small counted.next wide
    · rw [Nat.mod_eq_of_lt (fits crosses)] at narrow
      exact told_of_says small counted.next narrow

theorem Counted.cancel (counted : Counted l) (cancelled : l.cancel r = .ok (l', log)) :
    Counted l' ∧ ∀ x ∈ log, Told x := by
  obtain ⟨keyed, told⟩ := (ends_cancel known_numbers counted.keyed 0 1).of_ok cancelled
  obtain ⟨placed, next⟩ := cancel_counts cancelled
  refine ⟨⟨?_, keyed⟩, fun x mem => told_of_says (by lia) rfl (told x mem)⟩
  rw [next, placed]
  exact counted.next

/-- One request keeps the count, and its messages carry the ids of their orders. -/
theorem Counted.process (counted : Counted l) (few : l.placed + RefBook.news [r] ≤ 2 ^ 64)
    (fits : Fits32 l.book r) (processed : l.process r = .ok (l', log)) :
    Counted l' ∧ l'.placed = l.placed + RefBook.news [r] ∧ ∀ x ∈ log, Told x := by
  unfold Ledger.process at processed
  cases kind : r.type with
  | NEW =>
      simp only [kind] at processed
      rw [RefBook.news_new kind] at few ⊢
      obtain ⟨counted', told⟩ := counted.add few (fits kind) processed
      exact ⟨counted', (add_eq_ok processed).1, told⟩
  | CANCEL =>
      simp only [kind] at processed
      rw [RefBook.news_cancel kind]
      obtain ⟨counted', told⟩ := counted.cancel processed
      exact ⟨counted', (cancel_counts processed).1, told⟩
  | INVALID =>
      simp only [kind] at processed
      cases processed

/-! ## Whole runs -/

/-- The ledger goes with every step of the book. -/
theorem process_of_ok {s : MEOrderBook} {out : List MEMessage}
    (processed : l.book.processClientRequest r = .ok (s, out)) :
    ∃ l' log, l.process r = .ok (l', log) ∧ l'.book = s ∧ log.map Prod.snd = out := by
  have plain := process_book l r
  rw [processed] at plain
  cases result : l.process r with
  | error f =>
      rw [result] at plain
      cases plain
  | ok next =>
      rw [result] at plain
      simp only [Except.map, erase, Except.ok.injEq, Prod.mk.injEq] at plain
      exact ⟨next.1, next.2, rfl, plain.1, plain.2⟩

theorem Counted.run {rs : List MEClientRequest} {t : MEOrderBook} {out : List MEMessage}
    (counted : Counted l) (few : l.placed + RefBook.news rs ≤ 2 ^ 64)
    (fits : Admits Fits32 MEOrderBook.processClientRequest l.book rs)
    (ran : NanoTrade.run MEOrderBook.processClientRequest l.book rs = .ok (t, out)) :
    ∃ l' log, NanoTrade.run Ledger.process l rs = .ok (l', log) ∧ l'.book = t ∧
      log.map Prod.snd = out ∧ ∀ x ∈ log, Told x := by
  induction rs generalizing l out with
  | nil =>
      cases ran
      exact ⟨l, [], rfl, rfl, rfl, fun x mem => absurd mem List.not_mem_nil⟩
  | cons r rs ih =>
      obtain ⟨s, now, later, first, tail, rfl⟩ := run_cons.mp ran
      obtain ⟨m, log, processed, rfl, rfl⟩ := process_of_ok first
      rw [RefBook.news_cons] at few
      obtain ⟨countedM, placed, told⟩ := counted.process (by lia) fits.1 processed
      have fitsLater := fits.2
      rw [first] at fitsLater
      obtain ⟨l', log', ranLater, book, rfl, toldLater⟩ :=
        ih countedM (by lia) fitsLater tail
      refine ⟨l', log ++ log', run_cons_eq_ok processed ranLater, book,
        List.map_append, fun x mem => ?_⟩
      rcases List.mem_append.mp mem with now | later
      · exact told x now
      · exact toldLater x later

/-- A session of fewer than `2 ^ 32` new orders never leaves the parameter. -/
theorem admits_fits32 {rs : List MEClientRequest}
    (few : l.book.nextMarketOrderId + RefBook.news rs ≤ 2 ^ 32) :
    Admits Fits32 MEOrderBook.processClientRequest l.book rs := by
  induction rs generalizing l with
  | nil => trivial
  | cons r rs ih =>
      rw [RefBook.news_cons] at few
      refine ⟨fun isNew _ => ?_, ?_⟩
      · rw [RefBook.news_new isNew] at few
        lia
      · cases first : l.book.processClientRequest r with
        | error f => trivial
        | ok result =>
            obtain ⟨m, log, processed, book, -⟩ := process_of_ok first
            simp only
            rw [← book]
            refine ih ?_
            unfold process at processed
            cases kind : r.type with
            | NEW =>
                simp only [kind] at processed
                rw [(add_eq_ok processed).2.1]
                rw [RefBook.news_new kind] at few
                have next := Nat.mod_le (l.book.nextMarketOrderId + 1) (2 ^ 64)
                lia
            | CANCEL =>
                simp only [kind] at processed
                rw [(cancel_counts processed).2]
                lia
            | INVALID =>
                simp only [kind] at processed
                cases processed

end Ledger

/-- **Market order ids over whole runs.** -/
theorem run_marketOrderIds {basePrice : Price} {rs : List MEClientRequest} {t : MEOrderBook}
    {out : List MEMessage}
    (ran : run MEOrderBook.processClientRequest (MEOrderBook.new basePrice) rs = .ok (t, out))
    (few : RefBook.news rs ≤ 2 ^ 64)
    (fits : Admits Fits32 MEOrderBook.processClientRequest (MEOrderBook.new basePrice) rs) :
    ∃ l log, run Ledger.process (Ledger.new basePrice) rs = .ok (l, log) ∧ l.book = t ∧
      log.map Prod.snd = out ∧ Consistent log := by
  have placed : (Ledger.new basePrice).placed + RefBook.news rs ≤ 2 ^ 64 := by
    rw [Ledger.new, Nat.zero_add]
    exact few
  obtain ⟨l, log, ranLedger, book, messages, told⟩ :=
    (Ledger.Counted.new basePrice).run placed fits ran
  exact ⟨l, log, ranLedger, book, messages, Ledger.consistent_of_told told⟩

/-- An ask that a bid trades with in part before it is cancelled. -/
theorem run_marketOrderIds_traded :
    ∃ l log, run Ledger.process (Ledger.new 100)
        [⟨.NEW, 1, 0, 7, .SELL, 100, 5⟩, ⟨.NEW, 2, 0, 7, .BUY, 101, 2⟩,
          ⟨.CANCEL, 1, 0, 7, .SELL, 100, 5⟩] = .ok (l, log) ∧
      log.map (fun x => x.2.marketOrderId) =
        [1, 1, 2, 2, 1, OrderId_INVALID, 1, 1, 1] ∧ Consistent log := by
  obtain ⟨t, out, ran, ids⟩ := run_of_map MEOrderBook.processClientRequest (MEOrderBook.new 100)
    [⟨.NEW, 1, 0, 7, .SELL, 100, 5⟩, ⟨.NEW, 2, 0, 7, .BUY, 101, 2⟩,
      ⟨.CANCEL, 1, 0, 7, .SELL, 100, 5⟩] (fun out => out.map MEMessage.marketOrderId)
    [1, 1, 2, 2, 1, OrderId_INVALID, 1, 1, 1] (by decide +kernel)
  obtain ⟨l, log, ranLedger, -, messages, consistent⟩ := run_marketOrderIds ran (by decide)
    (Ledger.admits_fits32 (l := Ledger.new 100) (by decide))
  refine ⟨l, log, ranLedger, ?_, consistent⟩
  rw [← ids, ← messages, List.map_map]
  rfl

/-! ## An id of 33 bits -/

namespace Ledger

variable {l l' : Ledger} {r : MEClientRequest} {log : List Attributed}

theorem book_of_ok (processed : l.process r = .ok (l', log)) :
    l.book.processClientRequest r = .ok (l'.book, log.map Prod.snd) := by
  rw [← process_book, processed]
  rfl

theorem run_book {rs : List MEClientRequest}
    (ran : NanoTrade.run Ledger.process l rs = .ok (l', log)) :
    NanoTrade.run MEOrderBook.processClientRequest l.book rs = .ok (l'.book, log.map Prod.snd) := by
  induction rs generalizing l log with
  | nil =>
      cases ran
      rfl
  | cons r rs ih =>
      obtain ⟨m, now, later, first, tail, rfl⟩ := run_cons.mp ran
      exact run_cons.mpr ⟨_, _, _, book_of_ok first, ih tail, List.map_append⟩

/-- The first message of the fills is about the new order. -/
theorem attributedLoop_head {s t : LevelBook MEOrderKey MESlot} {owner : Ptr → Nat} {number : Nat}
    {a : Aggressor} {passive : Side} {stops : Price → Bool} {fuel : Nat} {leavesQty left : Qty}
    (returned : MEOrderBook.attributedLoop owner number a passive stops fuel s leavesQty =
      .ok (t, left, log)) :
    ∀ x rest, log = x :: rest → x.1 = some number := by
  intro x rest shape
  subst shape
  cases fuel with
  | zero => cases returned
  | succ fuel =>
      unfold MEOrderBook.attributedLoop at returned
      split at returned
      · cases returned
      · split at returned
        · cases returned
        · obtain ⟨itr, -, returned⟩ := bind_eq_ok.mp returned
          split at returned
          · cases returned
          · obtain ⟨⟨u, leaves, messages⟩, filled, returned⟩ := bind_eq_ok.mp returned
            obtain ⟨⟨v, left', later⟩, -, returned⟩ := bind_eq_ok.mp returned
            have length := MEOrderBook.matchOrder_length s a itr leavesQty filled
            obtain ⟨m, messages', rfl⟩ := List.exists_cons_of_length_eq_add_one length
            cases returned
            rfl

/-- The first two messages of a NEW are about it. -/
theorem add_head (added : l.add r = .ok (l', log)) :
    ∀ x y rest, log = x :: y :: rest → x.1 = some l.placed ∧ y.1 = some l.placed := by
  intro x y rest shape
  subst shape
  obtain ⟨-, -, s, leavesQty, matched, messages, accepted, swept, shape⟩ := add_eq_ok added
  have own : ∀ z more, matched = z :: more → z.1 = some l.placed := by
    intro z more shape
    unfold MEOrderBook.attributedMatch at swept
    simp only at swept
    split at swept
    · exact attributedLoop_head swept z more shape
    · exact attributedLoop_head swept z more shape
    · cases swept
      cases shape
  rw [List.cons_append, List.cons.injEq] at shape
  obtain ⟨rfl, shape⟩ := shape
  refine ⟨rfl, ?_⟩
  cases matched with
  | nil =>
      rw [List.nil_append] at shape
      have mem : y ∈ messages.map fun m => (some l.placed, m) := by
        rw [← shape]
        exact List.mem_cons_self
      obtain ⟨m, -, rfl⟩ := List.mem_map.mp mem
      rfl
  | cons z more =>
      rw [List.cons_append, List.cons.injEq] at shape
      rw [shape.1]
      exact own z more rfl

end Ledger

/-- An ask that takes the bid of a churn. -/
def sellChurned : MEClientRequest :=
  { type := .NEW, clientId := 1, tickerId := 0, orderId := 0, side := .SELL, price := 100, qty := 1 }

namespace MEOrderBook

/-- The messages of the ask: it is accepted under one id and filled under another. -/
theorem sellChurned_out (k : Nat) :
    ∃ accepted filled rest, ((bids [churned k] (k + 2)).step .machine sellChurned).2 =
        accepted :: filled :: rest ∧
      accepted.marketOrderId = (k + 2) % 2 ^ 64 ∧
      filled.marketOrderId = (k + 2) % 2 ^ 64 % 2 ^ 32 :=
  ⟨_, _, _, rfl, rfl, rfl⟩

theorem sellChurned_wellBehaved (k : Nat) :
    WellBehaved 100 .machine (bids [churned k] (k + 2)) sellChurned := by
  refine ⟨(by decide : 1 < ME_MAX_NUM_CLIENTS), (by decide : 0 < ME_MAX_ORDER_IDS),
    .inr ⟨rfl, .inr ⟨rfl, (by decide : InWindow 100 100), ?_, ?_⟩⟩⟩
  · intro side o mem own
    cases side with
    | bid =>
        rw [bids, List.mem_singleton] at mem
        subst mem
        cases own.1
    | ask => cases mem
  · exact (by decide : 0 < ME_MAX_ORDER_IDS)

end MEOrderBook

/-- The ids differ once the counter has passed `2 ^ 32`: the order is accepted under
`2 ^ 32 + 1` and its fill reported under 1, which is the id of another order. -/
theorem not_marketOrderIds_wide :
    ¬ ∀ (rs : List MEClientRequest) (t : MEOrderBook) (out : List MEMessage),
      run MEOrderBook.processClientRequest (MEOrderBook.new 100) rs = .ok (t, out) →
      ∃ l log, run Ledger.process (Ledger.new 100) rs = .ok (l, log) ∧ l.book = t ∧
        log.map Prod.snd = out ∧ Consistent log := by
  intro always
  obtain ⟨k, last⟩ : ∃ k, k + 2 = 2 ^ 32 + 1 := ⟨2 ^ 32 - 1, by omega⟩
  obtain ⟨before, state⟩ := churn_run k
  obtain ⟨s, ran, refines⟩ := (Refines.new 100 True).run before
  rw [state] at refines
  obtain ⟨t, processed, -⟩ := refines.step (MEOrderBook.sellChurned_wellBehaved k)
  have whole := run_concat.mpr ⟨s, _, _, ran, processed, rfl⟩
  obtain ⟨l, log, ranLedger, -, -, consistent⟩ := always _ _ _ whole
  obtain ⟨l', log', now, ledgerBefore, ledgerLast, rfl⟩ := run_concat.mp ranLedger
  -- The ledger comes to the same book, and sends the same last messages.
  have same := Ledger.run_book ledgerBefore
  have start : (Ledger.new 100).book = MEOrderBook.new 100 := rfl
  rw [start, ran, Except.ok.injEq, Prod.mk.injEq] at same
  have told := Ledger.book_of_ok ledgerLast
  rw [← same.1, processed, Except.ok.injEq, Prod.mk.injEq] at told
  obtain ⟨accepted, filled, rest, out, wide, narrow⟩ := MEOrderBook.sellChurned_out k
  rw [out] at told
  match now, told.2, ledgerLast, consistent with
  | (_, m) :: (_, m') :: more, told, ledgerLast, consistent =>
      obtain ⟨rfl, rfl⟩ := Ledger.add_head ledgerLast _ _ more rfl
      simp only [List.map_cons, List.cons.injEq] at told
      rw [told.1] at wide
      rw [told.2.1] at narrow
      have one := (consistent.same l'.placed m l'.placed m' (by simp) (by simp)).mp rfl
      rw [wide, narrow, last] at one
      cases one

end NanoTrade
