import NanoTrade.Backtest.FillSimulator
import NanoTrade.Exchange.Accounts

/-!
# The response protocol of the fill simulator

`Life` is what an exchange says of one order: it is opened by its NEW, executed in parts, and
closed by its last fill or its CANCEL. A log is legal where every event is one that the life of
its order allows; that is all that is needed of a log to have the `Protocol`.

* `LegalLog.protocol`: a legal log has it.
* `run_protocol`: whatever requests, market events and best prices the simulator meets, its log
  is legal, and `pending_` holds the orders that are open.
-/

namespace NanoTrade

/-- The responses that are written. -/
def FillEvent.responses : FillEvent → List MEClientResponse
  | .answered _ answers => answers
  | .passiveFill x => [x]
  | .aggressiveFill x => [x]

namespace FillProtocol

/-! ## The life of an order -/

/-- All responses of a log. -/
def responded (log : List FillEvent) : List MEClientResponse :=
  log.flatMap FillEvent.responses

/-- What was executed of an order. -/
def executed (orderId : OrderId) (log : List FillEvent) : Qty :=
  (((responded log).filter fun x => x.type = .FILLED ∧ x.clientOrderId = orderId).map
    MEClientResponse.execQty).sum

/-- The ACCEPTED responses of an order. -/
def accepted (orderId : OrderId) (log : List FillEvent) : List MEClientResponse :=
  (responded log).filter fun x => x.type = .ACCEPTED ∧ x.clientOrderId = orderId

/-- The order was accepted and has no terminal response. -/
def Outstanding (log : List FillEvent) (orderId : OrderId) : Prop :=
  accepted orderId log ≠ [] ∧ ∀ x ∈ responded log, x.clientOrderId = orderId → ¬ x.Terminal

/-- An order between its NEW and its last response, with what was executed of it. -/
inductive Life
  | unborn
  | opened (r : MEClientRequest) (executed : Qty)
  | closed (r : MEClientRequest) (executed : Qty)

namespace Life

/-- What a fill leaves. -/
def fill (x : MEClientResponse) : Life → Life
  | .opened r n => if x.leavesQty = 0 then .closed r (n + x.execQty) else .opened r (n + x.execQty)
  | life => life

/-- What a request leaves. -/
def answer (r : MEClientRequest) : Life → Life
  | .unborn => if r.type = .NEW then .opened r 0 else .unborn
  | .opened q n => if r.type = .CANCEL then .closed q n else .opened q n
  | .closed q n => .closed q n

/-- What an event leaves of the life of an order. -/
def next (orderId : OrderId) (life : Life) : FillEvent → Life
  | .answered r _ => if r.orderId = orderId then life.answer r else life
  | .passiveFill x => if x.clientOrderId = orderId then life.fill x else life
  | .aggressiveFill x => if x.clientOrderId = orderId then life.fill x else life

end Life

/-- The lives of the orders behind a log. -/
def lives (log : List FillEvent) (orderId : OrderId) : Life :=
  log.foldl (Life.next orderId) .unborn

/-- The price of a fill is within the limit of the order. -/
def WithinLimit (r : MEClientRequest) (price : Price) : Prop :=
  r.side = .BUY ∧ price ≤ r.price ∨ r.side = .SELL ∧ r.price ≤ price

/-- The events that an exchange may add to a log. -/
inductive Legal (life : OrderId → Life) : FillEvent → Prop
  | accepts {r x} (new : r.type = .NEW) (unborn : life r.orderId = .unborn)
      (type : x.type = .ACCEPTED) (about : x.clientOrderId = r.orderId)
      (leaves : x.leavesQty = r.qty) : Legal life (.answered r [x])
  | cancels {r x q n} (cancel : r.type = .CANCEL) (here : life r.orderId = .opened q n)
      (type : x.type = .CANCELED) (about : x.clientOrderId = r.orderId) :
      Legal life (.answered r [x])
  | rejects {r x} (cancel : r.type = .CANCEL) (gone : ∀ q n, life r.orderId ≠ .opened q n)
      (type : x.type = .CANCEL_REJECTED) (about : x.clientOrderId = r.orderId) :
      Legal life (.answered r [x])
  | ignores {r} (invalid : r.type = .INVALID) : Legal life (.answered r [])
  | passive {x q n} (here : life x.clientOrderId = .opened q n) (type : x.type = .FILLED)
      (executes : 0 < x.execQty) (leaves : x.leavesQty + (n + x.execQty) = q.qty) :
      Legal life (.passiveFill x)
  | aggressive {x q n} (here : life x.clientOrderId = .opened q n) (type : x.type = .FILLED)
      (executes : 0 < x.execQty) (most : n + x.execQty ≤ q.qty) (leaves : x.leavesQty = 0)
      (limit : WithinLimit q x.price) : Legal life (.aggressiveFill x)

/-- A log of which every event was legal. -/
inductive LegalLog : List FillEvent → Prop
  | nil : LegalLog []
  | snoc {log e} (before : LegalLog log) (legal : Legal (lives log) e) : LegalLog (log ++ [e])

/-! ## What the protocol is -/

/-- The requests among the inputs of a run. -/
def requests (inputs : List FillInput) : List MEClientRequest :=
  inputs.filterMap fun
    | .request r _ => some r
    | _ => none

/-- The requests that a log answers. -/
def answeredRequests (log : List FillEvent) : List MEClientRequest :=
  log.filterMap fun
    | .answered r _ => some r
    | _ => none

/-- The response protocol, for the requests that were sent, the log of the run and the orders
that are pending behind it. -/
structure Protocol (sent : List MEClientRequest) (log : List FillEvent)
    (pending : List PendingOrder) : Prop where
  /-- Every request that was sent is answered, once and in its turn. -/
  answers : answeredRequests log = sent
  /-- A NEW has one ACCEPTED, with its full quantity. -/
  accepts : ∀ r answers, .answered r answers ∈ log → r.type = .NEW →
    accepted r.orderId log = answers ∧ ∃ x, answers = [x] ∧ x.leavesQty = r.qty
  /-- No more is executed than was asked for. -/
  executes : ∀ r answers, .answered r answers ∈ log → r.type = .NEW →
    executed r.orderId log ≤ r.qty
  positive : ∀ x ∈ responded log, x.type = .FILLED → 0 < x.execQty
  /-- A fill is passive or aggressive. -/
  fills : ∀ e ∈ log, ∀ x ∈ e.responses, x.type = .FILLED →
    e = .passiveFill x ∨ e = .aggressiveFill x
  /-- A passive fill leaves the quantity less all that was executed so far. -/
  passive : ∀ front x back, log = front ++ .passiveFill x :: back →
    x.type = .FILLED ∧ ∃ r answers, .answered r answers ∈ front ∧ r.type = .NEW ∧
      r.orderId = x.clientOrderId ∧
      x.leavesQty + executed x.clientOrderId (front ++ [.passiveFill x]) = r.qty
  /-- An aggressive fill is within the limit. -/
  aggressive : ∀ x, .aggressiveFill x ∈ log → x.type = .FILLED ∧
    ∃ r answers, .answered r answers ∈ log ∧ r.type = .NEW ∧ r.orderId = x.clientOrderId ∧
      WithinLimit r x.price
  /-- Behind a terminal response only a CANCEL_REJECTED refers to the order. -/
  final : ∀ front e back, log = front ++ e :: back → ∀ x ∈ e.responses, x.Terminal →
    ∀ y ∈ responded back, y.clientOrderId = x.clientOrderId → y.type = .CANCEL_REJECTED
  /-- The pending orders are those that were accepted and have no terminal response. -/
  pending : ∀ orderId, (∃ po ∈ pending, po.req.orderId = orderId) ↔ Outstanding log orderId
  /-- A CANCEL has one answer, CANCELED where the order was pending. -/
  cancels : ∀ front r answers back, log = front ++ .answered r answers :: back →
    r.type = .CANCEL → ∃ x, answers = [x] ∧ x.clientOrderId = r.orderId ∧
      (x.type = .CANCELED ∧ Outstanding front r.orderId ∨
        x.type = .CANCEL_REJECTED ∧ ¬ Outstanding front r.orderId)
  /-- Nothing else is answered in this way. -/
  only : ∀ e ∈ log, ∀ x ∈ e.responses, x.type = .CANCELED ∨ x.type = .CANCEL_REJECTED →
    ∃ r, e = .answered r [x] ∧ r.type = .CANCEL ∧ x.clientOrderId = r.orderId

/-! ## Legal logs -/

theorem lives_concat (log : List FillEvent) (e : FillEvent) (orderId : OrderId) :
    lives (log ++ [e]) orderId = (lives log orderId).next orderId e :=
  List.foldl_concat ..

theorem responded_append (log more : List FillEvent) :
    responded (log ++ more) = responded log ++ responded more :=
  List.flatMap_append

theorem responded_concat (log : List FillEvent) (e : FillEvent) :
    responded (log ++ [e]) = responded log ++ e.responses := by
  rw [responded_append]
  exact congrArg (responded log ++ ·) (List.append_nil _)

/-- The response is about the order, and its request is not placed again. -/
structure Quiet (orderId : OrderId) (e : FillEvent) : Prop where
  responses : ∀ x ∈ e.responses, x.clientOrderId = orderId →
    x.type = .CANCELED ∨ x.type = .CANCEL_REJECTED
  requests : ∀ r answers, e = .answered r answers → r.type = .NEW → r.orderId ≠ orderId

/-- What a log says of an order that was placed: its NEW, the response to it and how much of it
was executed. -/
structure Accounts (log : List FillEvent) (orderId : OrderId) (r : MEClientRequest)
    (n : Qty) : Prop where
  new : r.type = .NEW
  about : r.orderId = orderId
  placed : ∃ x, x.leavesQty = r.qty ∧ accepted orderId log = [x] ∧ .answered r [x] ∈ log ∧
    ∀ q answers, .answered q answers ∈ log → q.type = .NEW → q.orderId = orderId →
      q = r ∧ answers = [x]
  executes : executed orderId log = n
  most : n ≤ r.qty

/-- What a log says of an order in this state of its life. -/
inductive Told (log : List FillEvent) (orderId : OrderId) : Life → Prop
  | unborn (unaccepted : accepted orderId log = []) (nothing : executed orderId log = 0)
      (rejected : ∀ x ∈ responded log, x.clientOrderId = orderId → x.type = .CANCEL_REJECTED)
      (fresh : ∀ q answers, .answered q answers ∈ log → q.type = .NEW → q.orderId ≠ orderId) :
      Told log orderId .unborn
  | opened {r : MEClientRequest} {n : Qty} (accounts : Accounts log orderId r n)
      (going : ∀ x ∈ responded log, x.clientOrderId = orderId → ¬ x.Terminal) :
      Told log orderId (.opened r n)
  | closed {r : MEClientRequest} {n : Qty} (accounts : Accounts log orderId r n)
      (ended : ∃ x ∈ responded log, x.clientOrderId = orderId ∧ x.Terminal) :
      Told log orderId (.closed r n)

variable {log : List FillEvent} {e : FillEvent} {orderId : OrderId} {r : MEClientRequest}
  {x : MEClientResponse} {n : Qty}

theorem accepted_concat (log : List FillEvent) (e : FillEvent) (orderId : OrderId) :
    accepted orderId (log ++ [e]) = accepted orderId log ++
      e.responses.filter fun x => x.type = .ACCEPTED ∧ x.clientOrderId = orderId := by
  rw [accepted, responded_concat, List.filter_append]
  rfl

theorem executed_concat (log : List FillEvent) (e : FillEvent) (orderId : OrderId) :
    executed orderId (log ++ [e]) = executed orderId log +
      ((e.responses.filter fun x => x.type = .FILLED ∧ x.clientOrderId = orderId).map
        MEClientResponse.execQty).sum := by
  rw [executed, responded_concat, List.filter_append, List.map_append, List.sum_append]
  rfl

theorem Quiet.filter_eq_nil (quiet : Quiet orderId e) (type : ClientResponseType)
    (canceled : type ≠ .CANCELED) (rejected : type ≠ .CANCEL_REJECTED) :
    e.responses.filter (fun x => x.type = type ∧ x.clientOrderId = orderId) = [] := by
  rw [List.filter_eq_nil_iff]
  intro x mem holds
  obtain ⟨isType, about⟩ := of_decide_eq_true holds
  rcases quiet.responses x mem about with terminal | terminal
  · exact canceled (isType.symm.trans terminal)
  · exact rejected (isType.symm.trans terminal)

theorem Quiet.accepted (quiet : Quiet orderId e) (log : List FillEvent) :
    accepted orderId (log ++ [e]) = FillProtocol.accepted orderId log := by
  rw [accepted_concat, quiet.filter_eq_nil .ACCEPTED nofun nofun, List.append_nil]

theorem Quiet.executed (quiet : Quiet orderId e) (log : List FillEvent) :
    executed orderId (log ++ [e]) = FillProtocol.executed orderId log := by
  rw [executed_concat, quiet.filter_eq_nil .FILLED nofun nofun]
  exact Nat.add_zero _

/-- The NEW of an order stays the only one. -/
theorem Accounts.still_placed (accounts : Accounts log orderId r n)
    (requests : ∀ q answers, e = .answered q answers → q.type = .NEW → q.orderId ≠ orderId)
    (same : accepted orderId (log ++ [e]) = accepted orderId log) :
    ∃ x, x.leavesQty = r.qty ∧ accepted orderId (log ++ [e]) = [x] ∧
      .answered r [x] ∈ log ++ [e] ∧
      ∀ q answers, .answered q answers ∈ log ++ [e] → q.type = .NEW → q.orderId = orderId →
        q = r ∧ answers = [x] := by
  obtain ⟨x, leaves, only, mem, unique⟩ := accounts.placed
  refine ⟨x, leaves, same.trans only, List.mem_append_left _ mem, ?_⟩
  intro q answers qMem new about
  rcases List.mem_append.mp qMem with before | now
  · exact unique q answers before new about
  · exact absurd about (requests q answers (List.mem_singleton.mp now).symm new)

theorem Accounts.quiet (accounts : Accounts log orderId r n) (quiet : Quiet orderId e) :
    Accounts (log ++ [e]) orderId r n :=
  ⟨accounts.new, accounts.about, accounts.still_placed quiet.requests (quiet.accepted log),
    (quiet.executed log).trans accounts.executes, accounts.most⟩

/-- A fill is added to what was executed. -/
theorem Accounts.fill (accounts : Accounts log orderId r n) (type : x.type = .FILLED)
    (about : x.clientOrderId = orderId) (most : n + x.execQty ≤ r.qty)
    (one : e.responses = [x]) (fills : ∀ q answers, e ≠ .answered q answers) :
    Accounts (log ++ [e]) orderId r (n + x.execQty) := by
  have same : accepted orderId (log ++ [e]) = accepted orderId log := by
    rw [accepted_concat, one]
    simp [type]
  refine ⟨accounts.new, accounts.about, accounts.still_placed ?_ same, ?_, most⟩
  · intro q answers eq
    exact absurd eq (fills q answers)
  · rw [executed_concat, accounts.executes, one]
    simp [type, about]

/-- A NEW opens the account of its order. -/
theorem Accounts.open (new : r.type = .NEW) (type : x.type = .ACCEPTED)
    (about : x.clientOrderId = r.orderId) (leaves : x.leavesQty = r.qty)
    (unaccepted : accepted r.orderId log = []) (nothing : executed r.orderId log = 0)
    (fresh : ∀ q answers, .answered q answers ∈ log → q.type = .NEW → q.orderId ≠ r.orderId) :
    Accounts (log ++ [.answered r [x]]) r.orderId r 0 := by
  refine ⟨new, rfl, ⟨x, leaves, ?_, List.mem_append_right _ List.mem_cons_self, ?_⟩, ?_,
    Nat.zero_le _⟩
  · rw [accepted_concat, unaccepted]
    simp [FillEvent.responses, type, about]
  · intro q answers mem isNew same
    rcases List.mem_append.mp mem with before | now
    · exact absurd same (fresh q answers before isNew)
    · cases List.mem_singleton.mp now
      exact ⟨rfl, rfl⟩
  · rw [executed_concat, nothing]
    simp [FillEvent.responses, type]

/-- A terminal response stays. -/
theorem ended_concat (ended : ∃ x ∈ responded log, x.clientOrderId = orderId ∧ x.Terminal)
    (e : FillEvent) :
    ∃ x ∈ responded (log ++ [e]), x.clientOrderId = orderId ∧ x.Terminal := by
  obtain ⟨x, mem, about, terminal⟩ := ended
  rw [responded_concat]
  exact ⟨x, List.mem_append_left _ mem, about, terminal⟩

/-- What holds of all responses about an order holds with the next ones. -/
theorem responded_forall {P : MEClientResponse → Prop}
    (before : ∀ x ∈ responded log, x.clientOrderId = orderId → P x)
    (now : ∀ x ∈ e.responses, x.clientOrderId = orderId → P x) :
    ∀ x ∈ responded (log ++ [e]), x.clientOrderId = orderId → P x := by
  intro x mem about
  rw [responded_concat] at mem
  rcases List.mem_append.mp mem with early | late
  · exact before x early about
  · exact now x late about

/-- Only a fill and a cancellation can end an order. -/
theorem not_terminal (filled : x.type ≠ .FILLED) (canceled : x.type ≠ .CANCELED) :
    ¬ x.Terminal := by
  rintro (last | gone)
  · exact filled last.1
  · exact canceled gone

/-- An event of another order, or a rejection, tells nothing new. -/
theorem Told.quiet {life : Life} (told : Told log orderId life)
    (responses : ∀ x ∈ e.responses, x.clientOrderId = orderId → x.type = .CANCEL_REJECTED)
    (requests : ∀ q answers, e = .answered q answers → q.type = .NEW → q.orderId ≠ orderId) :
    Told (log ++ [e]) orderId life := by
  have quiet : Quiet orderId e :=
    ⟨fun x mem about => .inr (responses x mem about), requests⟩
  cases told with
  | unborn unaccepted nothing rejected fresh =>
      refine .unborn ((quiet.accepted log).trans unaccepted) ((quiet.executed log).trans nothing)
        (responded_forall rejected responses) ?_
      intro q answers mem new
      rcases List.mem_append.mp mem with before | now
      · exact fresh q answers before new
      · exact requests q answers (List.mem_singleton.mp now).symm new
  | opened accounts going =>
      refine .opened (accounts.quiet quiet) (responded_forall going ?_)
      intro x mem about
      have type := responses x mem about
      exact not_terminal (by rw [type]; exact nofun) (by rw [type]; exact nofun)
  | closed accounts ended => exact .closed (accounts.quiet quiet) (ended_concat ended e)

/-- An event with one response, which is for another order. -/
theorem Told.elsewhere {life : Life} (told : Told log orderId life) (one : e.responses = [x])
    (other : x.clientOrderId ≠ orderId)
    (requests : ∀ q answers, e = .answered q answers → q.type = .NEW → q.orderId ≠ orderId) :
    Told (log ++ [e]) orderId life := by
  refine told.quiet ?_ requests
  intro y mem same
  rw [one] at mem
  rw [List.mem_singleton.mp mem] at same
  exact absurd same other

/-- A request that is not for an order in this state. -/
theorem Life.answer_eq_self {life : Life} (old : r.type ≠ .NEW)
    (kept : ∀ q n, life = .opened q n → r.type ≠ .CANCEL) : life.answer r = life := by
  cases life with
  | unborn => exact if_neg old
  | opened q n => exact if_neg (kept q n rfl)
  | closed q n => rfl

/-- A fill, aggressive or passive. -/
theorem Told.fill (told : Told log orderId (.opened r n)) (type : x.type = .FILLED)
    (about : x.clientOrderId = orderId) (most : n + x.execQty ≤ r.qty)
    (one : e.responses = [x]) (fills : ∀ q answers, e ≠ .answered q answers) :
    Told (log ++ [e]) orderId ((Life.opened r n).fill x) := by
  cases told with
  | opened accounts going =>
      have filled := accounts.fill type about most one fills
      unfold Life.fill
      simp only
      split
      · rename_i last
        refine .closed filled ⟨x, ?_, about, .inl ⟨type, last⟩⟩
        rw [responded_concat, one]
        exact List.mem_append_right _ List.mem_cons_self
      · rename_i more
        refine .opened filled (responded_forall going ?_)
        intro y mem _ terminal
        rw [one] at mem
        rw [List.mem_singleton.mp mem] at terminal
        rcases terminal with filled | canceled
        · exact more filled.2
        · rw [type] at canceled
          cases canceled

/-- A fill of whatever order. -/
theorem Told.filled {life : OrderId → Life} (told : ∀ orderId, Told log orderId (life orderId))
    (here : life x.clientOrderId = .opened r n) (type : x.type = .FILLED)
    (most : n + x.execQty ≤ r.qty) (one : e.responses = [x])
    (fills : ∀ q answers, e ≠ .answered q answers) (orderId : OrderId) :
    Told (log ++ [e]) orderId
      (if x.clientOrderId = orderId then (life orderId).fill x else life orderId) := by
  by_cases about : x.clientOrderId = orderId
  · subst about
    have before := told x.clientOrderId
    rw [if_pos rfl]
    rw [here] at before ⊢
    exact before.fill type rfl most one fills
  · rw [if_neg about]
    exact (told orderId).elsewhere one about fun q answers answered =>
      absurd answered (fills q answers)

/-- One event of a legal log. -/
theorem Told.next {life : OrderId → Life} (told : ∀ orderId, Told log orderId (life orderId))
    (legal : Legal life e) (orderId : OrderId) :
    Told (log ++ [e]) orderId ((life orderId).next orderId e) := by
  cases legal with
  | @accepts r x new unborn type about leaves =>
      by_cases here : r.orderId = orderId
      · subst here
        have before := told r.orderId
        rw [unborn] at before
        cases before with
        | unborn unaccepted nothing rejected fresh =>
            rw [Life.next, if_pos rfl, unborn, Life.answer, if_pos new]
            refine .opened (.open new type about leaves unaccepted nothing fresh)
              (responded_forall ?_ ?_)
            · intro y mem same
              have rejection := rejected y mem same
              exact not_terminal (by rw [rejection]; exact nofun) (by rw [rejection]; exact nofun)
            · intro y mem _
              rw [List.mem_singleton.mp mem]
              exact not_terminal (by rw [type]; exact nofun) (by rw [type]; exact nofun)
      · rw [Life.next, if_neg here]
        refine (told orderId).elsewhere rfl (about.symm ▸ here) ?_
        intro q answers eq _
        cases eq
        exact here
  | @cancels r x q n cancel live type about =>
      have late : ∀ p answers, FillEvent.answered r [x] = .answered p answers → p.type = .NEW →
          p.orderId ≠ orderId := by
        intro p answers eq new
        cases eq
        rw [cancel] at new
        cases new
      by_cases here : r.orderId = orderId
      · subst here
        have before := told r.orderId
        rw [live] at before
        cases before with
        | opened accounts going =>
            rw [Life.next, if_pos rfl, live, Life.answer, if_pos cancel]
            refine .closed (accounts.quiet ⟨?_, late⟩) ⟨x, ?_, about, .inr type⟩
            · intro y mem _
              rw [List.mem_singleton.mp mem]
              exact .inl type
            · rw [responded_concat]
              exact List.mem_append_right _ List.mem_cons_self
      · rw [Life.next, if_neg here]
        exact (told orderId).elsewhere rfl (about.symm ▸ here) late
  | @rejects r x cancel gone type about =>
      have stays : (life orderId).next orderId (.answered r [x]) = life orderId := by
        unfold Life.next
        simp only
        split
        · rename_i here
          subst here
          refine Life.answer_eq_self (by rw [cancel]; exact nofun) ?_
          intro q n live
          exact absurd live (gone q n)
        · rfl
      rw [stays]
      refine (told orderId).quiet ?_ ?_
      · intro y mem _
        rw [List.mem_singleton.mp mem]
        exact type
      · intro p answers eq new
        cases eq
        rw [cancel] at new
        cases new
  | @ignores r invalid =>
      have stays : (life orderId).next orderId (.answered r []) = life orderId := by
        unfold Life.next
        simp only
        split
        · refine Life.answer_eq_self (by rw [invalid]; exact nofun) ?_
          intro q n _
          rw [invalid]
          exact nofun
        · rfl
      rw [stays]
      refine (told orderId).quiet ?_ ?_
      · intro y mem
        cases mem
      · intro p answers eq new
        cases eq
        rw [invalid] at new
        cases new
  | passive here type executes leaves =>
      refine .filled told here type (by lia) rfl ?_ orderId
      exact nofun
  | aggressive here type executes most leaves limit =>
      refine .filled told here type most rfl ?_ orderId
      exact nofun

/-- A legal log tells of every order what its life is. -/
theorem LegalLog.told (legal : LegalLog log) (orderId : OrderId) :
    Told log orderId (lives log orderId) := by
  induction legal generalizing orderId with
  | nil =>
      refine .unborn rfl rfl ?_ ?_
      · intro x mem
        cases mem
      · intro q answers mem
        cases mem
  | @snoc log e before step ih =>
      rw [lives_concat]
      exact Told.next ih step orderId

/-! ## The protocol of a legal log -/

section Fronts

variable {front back : List FillEvent}

theorem legalLog_concat : LegalLog (log ++ [e]) ↔ LegalLog log ∧ Legal (lives log) e := by
  constructor
  · intro legal
    generalize whole : log ++ [e] = all at legal
    cases legal with
    | nil => exact absurd whole (by simp)
    | snoc before step =>
        obtain ⟨rfl, same⟩ := List.append_inj' whole rfl
        cases same
        exact ⟨before, step⟩
  · intro ⟨before, step⟩
    exact .snoc before step

/-- The front of a legal log is legal. -/
theorem LegalLog.of_append (legal : LegalLog (front ++ back)) : LegalLog front := by
  induction back using List.reverseRecOn with
  | nil =>
      rw [List.append_nil] at legal
      exact legal
  | append_singleton back e ih =>
      rw [← List.append_assoc] at legal
      exact ih (legalLog_concat.mp legal).1

/-- Every event was legal where it came. -/
theorem LegalLog.at (legal : LegalLog (front ++ e :: back)) :
    LegalLog front ∧ Legal (lives front) e := by
  have shape : front ++ e :: back = (front ++ [e]) ++ back := by simp
  rw [shape] at legal
  exact legalLog_concat.mp legal.of_append

end Fronts

/-- An order whose NEW is in the log has an account. -/
theorem LegalLog.account (legal : LegalLog log) {answers : List MEClientResponse}
    (mem : .answered r answers ∈ log) (new : r.type = .NEW) :
    ∃ n, Accounts log r.orderId r n := by
  have told := legal.told r.orderId
  generalize lives log r.orderId = life at told
  cases told with
  | unborn unaccepted nothing rejected fresh => exact absurd rfl (fresh r answers mem new)
  | @opened q n accounts going =>
      obtain ⟨x, -, -, -, unique⟩ := accounts.placed
      obtain ⟨rfl, -⟩ := unique r answers mem new rfl
      exact ⟨n, accounts⟩
  | @closed q n accounts ended =>
      obtain ⟨x, -, -, -, unique⟩ := accounts.placed
      obtain ⟨rfl, -⟩ := unique r answers mem new rfl
      exact ⟨n, accounts⟩

/-- An open order has an account, too. -/
theorem LegalLog.account_of_opened (legal : LegalLog log) (here : lives log orderId = .opened r n) :
    Accounts log orderId r n := by
  have told := legal.told orderId
  rw [here] at told
  cases told with
  | opened accounts going => exact accounts

/-- Open orders are outstanding, and no others. -/
theorem LegalLog.outstanding_iff (legal : LegalLog log) (orderId : OrderId) :
    Outstanding log orderId ↔ ∃ r n, lives log orderId = .opened r n := by
  have told := legal.told orderId
  generalize lives log orderId = life at told
  cases told with
  | unborn unaccepted nothing rejected fresh =>
      constructor
      · intro outstanding
        exact absurd unaccepted outstanding.1
      · intro ⟨r, n, eq⟩
        cases eq
  | @opened r n accounts going =>
      constructor
      · intro _
        exact ⟨r, n, rfl⟩
      · intro _
        obtain ⟨x, -, only, -, -⟩ := accounts.placed
        refine ⟨?_, going⟩
        rw [only]
        exact List.cons_ne_nil x []
  | closed accounts ended =>
      constructor
      · intro outstanding
        obtain ⟨x, mem, about, terminal⟩ := ended
        exact absurd terminal (outstanding.2 x mem about)
      · intro ⟨r, n, eq⟩
        cases eq

/-- Nothing but rejections is legal for a closed order, and it stays closed. -/
theorem Legal.of_closed {life : OrderId → Life} (legal : Legal life e)
    (closed : life orderId = .closed r n) :
    (life orderId).next orderId e = .closed r n ∧
      ∀ y ∈ e.responses, y.clientOrderId = orderId → y.type = .CANCEL_REJECTED := by
  rw [closed]
  have other : ∀ {id l}, life id = l → l ≠ .closed r n → id ≠ orderId := by
    intro id l before notClosed same
    rw [same, closed] at before
    exact notClosed before.symm
  cases legal with
  | @accepts q x new unborn type about leaves =>
      have other := other unborn nofun
      refine ⟨if_neg other, fun y mem same => ?_⟩
      rw [List.mem_singleton.mp mem, about] at same
      exact absurd same other
  | @cancels q x q' n' cancel here type about =>
      have other := other here nofun
      refine ⟨if_neg other, fun y mem same => ?_⟩
      rw [List.mem_singleton.mp mem, about] at same
      exact absurd same other
  | @rejects q x cancel gone type about =>
      refine ⟨?_, fun y mem _ => ?_⟩
      · unfold Life.next
        simp only
        split
        · rfl
        · rfl
      · rw [List.mem_singleton.mp mem]
        exact type
  | @ignores q invalid =>
      refine ⟨?_, fun y mem => ?_⟩
      · unfold Life.next
        simp only
        split
        · rfl
        · rfl
      · cases mem
  | @passive x q n' here type executes leaves =>
      have other := other here nofun
      refine ⟨if_neg other, fun y mem same => ?_⟩
      rw [List.mem_singleton.mp mem] at same
      exact absurd same other
  | @aggressive x q n' here type executes most leaves limit =>
      have other := other here nofun
      refine ⟨if_neg other, fun y mem same => ?_⟩
      rw [List.mem_singleton.mp mem] at same
      exact absurd same other

/-- Behind the end of an order it is only rejected. -/
theorem LegalLog.of_closed {front back : List FillEvent} (legal : LegalLog (front ++ back))
    (closed : lives front orderId = .closed r n) :
    lives (front ++ back) orderId = .closed r n ∧
      ∀ y ∈ responded back, y.clientOrderId = orderId → y.type = .CANCEL_REJECTED := by
  induction back using List.reverseRecOn with
  | nil =>
      rw [List.append_nil]
      refine ⟨closed, fun y mem => ?_⟩
      cases mem
  | append_singleton back e ih =>
      rw [← List.append_assoc] at legal ⊢
      obtain ⟨before, step⟩ := legalLog_concat.mp legal
      obtain ⟨stays, rejected⟩ := ih before
      obtain ⟨next, now⟩ := step.of_closed stays
      rw [lives_concat]
      exact ⟨next, responded_forall rejected now⟩

/-- A terminal response closes its order. -/
theorem LegalLog.closed_of_terminal (legal : LegalLog log) (mem : x ∈ responded log)
    (terminal : x.Terminal) : ∃ r n, lives log x.clientOrderId = .closed r n := by
  have told := legal.told x.clientOrderId
  generalize lives log x.clientOrderId = life at told
  cases told with
  | unborn unaccepted nothing rejected fresh =>
      have type := rejected x mem rfl
      exact absurd terminal (not_terminal (by rw [type]; exact nofun) (by rw [type]; exact nofun))
  | opened accounts going => exact absurd terminal (going x mem rfl)
  | @closed r n accounts ended => exact ⟨r, n, rfl⟩

/-- What the responses of a legal event are. -/
theorem Legal.responses {life : OrderId → Life} (legal : Legal life e) (mem : x ∈ e.responses) :
    (x.type = .FILLED → 0 < x.execQty ∧ (e = .passiveFill x ∨ e = .aggressiveFill x)) ∧
      (x.type = .CANCELED ∨ x.type = .CANCEL_REJECTED →
        ∃ r, e = .answered r [x] ∧ r.type = .CANCEL ∧ x.clientOrderId = r.orderId) := by
  cases legal with
  | @accepts r y new unborn type about leaves =>
      rw [List.mem_singleton.mp mem, type]
      exact ⟨nofun, nofun⟩
  | @cancels r y q n cancel here type about =>
      cases List.mem_singleton.mp mem
      rw [type]
      exact ⟨nofun, fun _ => ⟨r, rfl, cancel, about⟩⟩
  | @rejects r y cancel gone type about =>
      cases List.mem_singleton.mp mem
      rw [type]
      exact ⟨nofun, fun _ => ⟨r, rfl, cancel, about⟩⟩
  | ignores invalid => cases mem
  | passive here type executes leaves =>
      cases List.mem_singleton.mp mem
      rw [type]
      exact ⟨fun _ => ⟨executes, .inl rfl⟩, nofun⟩
  | aggressive here type executes most leaves limit =>
      cases List.mem_singleton.mp mem
      rw [type]
      exact ⟨fun _ => ⟨executes, .inr rfl⟩, nofun⟩

/-- A legal log has the protocol, with the open orders pending. -/
theorem LegalLog.protocol (legal : LegalLog log) {pending : List PendingOrder}
    (opened : ∀ orderId, (∃ po ∈ pending, po.req.orderId = orderId) ↔
      ∃ r n, lives log orderId = .opened r n) : Protocol (answeredRequests log) log pending where
  answers := rfl
  accepts r answers mem new := by
    obtain ⟨n, accounts⟩ := legal.account mem new
    obtain ⟨x, leaves, only, -, unique⟩ := accounts.placed
    obtain ⟨-, rfl⟩ := unique r answers mem new rfl
    exact ⟨only, x, rfl, leaves⟩
  executes r answers mem new := by
    obtain ⟨n, accounts⟩ := legal.account mem new
    rw [accounts.executes]
    exact accounts.most
  positive x mem type := by
    obtain ⟨e, eMem, xMem⟩ := List.mem_flatMap.mp mem
    obtain ⟨front, back, rfl⟩ := List.append_of_mem eMem
    exact ((legal.at.2.responses xMem).1 type).1
  fills e mem x xMem type := by
    obtain ⟨front, back, rfl⟩ := List.append_of_mem mem
    exact ((legal.at.2.responses xMem).1 type).2
  passive front x back shape := by
    subst shape
    obtain ⟨before, step⟩ := legal.at
    cases step with
    | @passive x q n here type executes leaves =>
        have accounts := before.account_of_opened here
        obtain ⟨y, -, -, placed, -⟩ := accounts.placed
        have filled := accounts.fill (e := .passiveFill x) type rfl (by lia) rfl nofun
        refine ⟨type, q, [y], placed, accounts.new, accounts.about, ?_⟩
        rw [filled.executes]
        exact leaves
  aggressive x mem := by
    obtain ⟨front, back, rfl⟩ := List.append_of_mem mem
    obtain ⟨before, step⟩ := legal.at
    cases step with
    | @aggressive x q n here type executes most leaves limit =>
        have accounts := before.account_of_opened here
        obtain ⟨y, -, -, placed, -⟩ := accounts.placed
        exact ⟨type, q, [y], List.mem_append_left _ placed, accounts.new, accounts.about, limit⟩
  final front e back shape x mem terminal := by
    have shape : log = (front ++ [e]) ++ back := by simp [shape]
    subst shape
    obtain ⟨r, n, closed⟩ := legal.of_append.closed_of_terminal (x := x) (by
      rw [responded_concat]
      exact List.mem_append_right _ mem) terminal
    exact (legal.of_closed closed).2
  pending orderId := (opened orderId).trans (legal.outstanding_iff orderId).symm
  cancels front r answers back shape cancel := by
    subst shape
    obtain ⟨before, step⟩ := legal.at
    cases step with
    | accepts new =>
        rw [cancel] at new
        cases new
    | @cancels r x q n cancel here type about =>
        exact ⟨x, rfl, about, .inl ⟨type, (before.outstanding_iff _).mpr ⟨q, n, here⟩⟩⟩
    | @rejects r x cancel gone type about =>
        refine ⟨x, rfl, about, .inr ⟨type, fun outstanding => ?_⟩⟩
        obtain ⟨q, n, here⟩ := (before.outstanding_iff _).mp outstanding
        exact gone q n here
    | ignores invalid =>
        rw [cancel] at invalid
        cases invalid
  only e mem x xMem kind := by
    obtain ⟨front, back, rfl⟩ := List.append_of_mem mem
    exact (legal.at.2.responses xMem).2 kind

/-! ## The simulator -/

/-- The pending orders are those that the log leaves open, each with the rest of its quantity. -/
structure Tracks (pending : List PendingOrder) (log : List FillEvent) : Prop where
  nodup : (pending.map fun po => po.req.orderId).Nodup
  opened : ∀ po ∈ pending, ∃ n, lives log po.req.orderId = .opened po.req n ∧
    po.leavesQty + n = po.req.qty
  covers : ∀ orderId r n, lives log orderId = .opened r n →
    ∃ po ∈ pending, po.req.orderId = orderId

variable {pending rest : List PendingOrder} {po po' : PendingOrder}

theorem Tracks.perm (tracks : Tracks pending log) (perm : rest.Perm pending) : Tracks rest log where
  nodup := (perm.map _).nodup_iff.mpr tracks.nodup
  opened po mem := tracks.opened po (perm.mem_iff.mp mem)
  covers orderId r n here := by
    obtain ⟨po, mem, same⟩ := tracks.covers orderId r n here
    exact ⟨po, perm.mem_iff.mpr mem, same⟩

/-- The walks put the order in hand in front. -/
theorem Tracks.keep (tracks : Tracks (po :: rest) log) (req : po'.req = po.req)
    (leaves : po'.leavesQty = po.leavesQty) : Tracks (po' :: rest) log where
  nodup := by
    rw [List.map_cons, req]
    exact tracks.nodup
  opened q mem := by
    rcases List.mem_cons.mp mem with rfl | later
    · rw [req, leaves]
      exact tracks.opened po List.mem_cons_self
    · exact tracks.opened q (List.mem_cons_of_mem _ later)
  covers orderId r n here := by
    obtain ⟨q, mem, same⟩ := tracks.covers orderId r n here
    rcases List.mem_cons.mp mem with rfl | later
    · exact ⟨po', List.mem_cons_self, by rw [req, same]⟩
    · exact ⟨q, List.mem_cons_of_mem _ later, same⟩

/-- An event that closes the order in hand, or leaves less of it. -/
theorem Tracks.next (tracks : Tracks (po :: rest) log)
    (others : ∀ orderId, orderId ≠ po.req.orderId →
      lives (log ++ [e]) orderId = lives log orderId) :
    ((∀ r n, lives (log ++ [e]) po.req.orderId ≠ .opened r n) → Tracks rest (log ++ [e])) ∧
      ∀ po' n, lives (log ++ [e]) po.req.orderId = .opened po.req n → po'.req = po.req →
        po'.leavesQty + n = po.req.qty → Tracks (po' :: rest) (log ++ [e]) := by
  have nodup := tracks.nodup
  rw [List.map_cons, List.nodup_cons] at nodup
  have apart : ∀ q ∈ rest, q.req.orderId ≠ po.req.orderId := by
    intro q mem same
    exact nodup.1 (List.mem_map.mpr ⟨q, mem, same⟩)
  have openedRest : ∀ q ∈ rest, ∃ n, lives (log ++ [e]) q.req.orderId = .opened q.req n ∧
      q.leavesQty + n = q.req.qty := by
    intro q mem
    rw [others _ (apart q mem)]
    exact tracks.opened q (List.mem_cons_of_mem _ mem)
  have coversRest : ∀ orderId r n, orderId ≠ po.req.orderId →
      lives (log ++ [e]) orderId = .opened r n → ∃ q ∈ rest, q.req.orderId = orderId := by
    intro orderId r n other here
    rw [others orderId other] at here
    obtain ⟨q, mem, same⟩ := tracks.covers orderId r n here
    rcases List.mem_cons.mp mem with rfl | later
    · exact absurd same.symm other
    · exact ⟨q, later, same⟩
  constructor
  · intro closed
    refine ⟨nodup.2, openedRest, fun orderId r n here => ?_⟩
    by_cases same : orderId = po.req.orderId
    · subst same
      exact absurd here (closed r n)
    · exact coversRest orderId r n same here
  · intro po' n here req leaves
    refine ⟨?_, fun q mem => ?_, fun orderId r m opened => ?_⟩
    · rw [List.map_cons, req, List.nodup_cons]
      exact nodup
    · rcases List.mem_cons.mp mem with rfl | later
      · rw [req]
        exact ⟨n, here, leaves⟩
      · exact openedRest q later
    · by_cases same : orderId = po.req.orderId
      · exact ⟨po', List.mem_cons_self, by rw [req, same]⟩
      · obtain ⟨q, mem, eq⟩ := coversRest orderId r m same opened
        exact ⟨q, List.mem_cons_of_mem _ mem, eq⟩

/-- What a walk may make of an order: it keeps it, or fills it with a legal response and keeps
the rest. -/
inductive Visited (fill : MEClientResponse → FillEvent) (po : PendingOrder) :
    Option PendingOrder × Option MEClientResponse → Prop
  | keeps {po' : PendingOrder} (req : po'.req = po.req) (leaves : po'.leavesQty = po.leavesQty) :
      Visited fill po (some po', none)
  | fills {po' : PendingOrder} {x : MEClientResponse}
      (about : x.clientOrderId = po.req.orderId) (more : x.leavesQty ≠ 0)
      (req : po'.req = po.req) (leaves : po'.leavesQty + x.execQty = po.leavesQty)
      (legal : ∀ life n, life po.req.orderId = .opened po.req n →
        po.leavesQty + n = po.req.qty → Legal life (fill x)) : Visited fill po (some po', some x)
  | ends {x : MEClientResponse} (about : x.clientOrderId = po.req.orderId) (last : x.leavesQty = 0)
      (legal : ∀ life n, life po.req.orderId = .opened po.req n →
        po.leavesQty + n = po.req.qty → Legal life (fill x)) : Visited fill po (none, some x)

/-- A fill of the order in hand, as the log tells it. -/
theorem lives_fill {f : MEClientResponse → FillEvent}
    (fills : ∀ x orderId life, Life.next orderId life (f x) =
      if x.clientOrderId = orderId then life.fill x else life)
    (about : x.clientOrderId = po.req.orderId)
    (here : lives log po.req.orderId = .opened po.req n) :
    lives (log ++ [f x]) po.req.orderId = (Life.opened po.req n).fill x ∧
      ∀ orderId, orderId ≠ po.req.orderId →
        lives (log ++ [f x]) orderId = lives log orderId := by
  constructor
  · rw [lives_concat, here, fills, if_pos about]
  · intro orderId other
    rw [lives_concat, fills, if_neg]
    intro same
    exact other (same.symm.trans about)

/-- A walk over orders that the log leaves open adds legal fills to it. The orders that it is
through with are in `done`. -/
theorem walk_tracks {f : MEClientResponse → FillEvent}
    (fills : ∀ x orderId life, Life.next orderId life (f x) =
      if x.clientOrderId = orderId then life.fill x else life)
    {visit : FillSimulator.Visit} (visits : ∀ po id, Visited f po (visit po id))
    {done : List PendingOrder} (id : OrderId) (legal : LegalLog log)
    (tracks : Tracks (pending ++ done) log) :
    LegalLog (log ++ (FillSimulator.walk visit pending id).2.map f) ∧
      Tracks ((FillSimulator.walk visit pending id).1 ++ done)
        (log ++ (FillSimulator.walk visit pending id).2.map f) := by
  induction pending generalizing id done log with
  | nil =>
      simp only [FillSimulator.walk, List.map_nil, List.append_nil]
      exact ⟨legal, tracks⟩
  | cons po rest ih =>
      rw [FillSimulator.walk_cons]
      have visited := visits po id
      obtain ⟨n, here, left⟩ := tracks.opened po List.mem_cons_self
      generalize visit po id = v at visited
      cases visited with
      | @keeps po' req leaves =>
          have moved : Tracks (rest ++ po' :: done) log :=
            (tracks.keep req leaves).perm List.perm_middle
          obtain ⟨after, tracked⟩ := ih _ legal moved
          exact ⟨after, tracked.perm List.perm_middle.symm⟩
      | @fills po' x about more req leaves step =>
          obtain ⟨now, others⟩ := lives_fill fills about here
          rw [Life.fill, if_neg more] at now
          have next := (tracks.next others).2 po' _ now req (by lia)
          obtain ⟨after, tracked⟩ := ih (FillSimulator.advance id 1)
            (legal.snoc (step _ n here left)) (next.perm List.perm_middle)
          simp only [Option.toList_some, List.cons_append, List.nil_append, List.map_cons,
            List.length_singleton]
          rw [List.append_cons log]
          exact ⟨after, tracked.perm List.perm_middle.symm⟩
      | @ends x about last step =>
          obtain ⟨now, others⟩ := lives_fill fills about here
          rw [Life.fill, if_pos last] at now
          have next := (tracks.next others).1 (by
            intro r m opened
            rw [now] at opened
            cases opened)
          obtain ⟨after, tracked⟩ := ih (FillSimulator.advance id 1)
            (legal.snoc (step _ n here left)) next
          simp only [Option.toList_some, Option.toList_none, List.cons_append, List.nil_append,
            List.map_cons, List.length_singleton]
          rw [List.append_cons log]
          exact ⟨after, tracked⟩

/-- A market event keeps an order, or fills it passively. -/
theorem visitMarketEvent_visited (ev : MEMarketUpdate) (po : PendingOrder) (id : OrderId) :
    Visited .passiveFill po (FillSimulator.visitMarketEvent ev po id) := by
  unfold FillSimulator.visitMarketEvent
  split
  · split
    · unfold FillSimulator.onTrade
      simp only
      generalize (if ev.priority ≤ po.priorityWatermark then min ev.qty po.queueAheadQty else 0)
        = consumedAhead
      split
      · rename_i hit
        have passive : ∀ life n, life po.req.orderId = .opened po.req n →
            po.leavesQty + n = po.req.qty → Legal life (.passiveFill
              (FillSimulator.emitResponse po.req .FILLED
                (min po.leavesQty (ev.qty - consumedAhead))
                (po.leavesQty - min po.leavesQty (ev.qty - consumedAhead)) po.req.price id)) := by
          intro life n here left
          refine .passive here rfl ?_ ?_
          · show 0 < min po.leavesQty (ev.qty - consumedAhead)
            exact Nat.lt_min.mpr ⟨hit.2.2, hit.2.1⟩
          · show po.leavesQty - min po.leavesQty (ev.qty - consumedAhead) +
              (n + min po.leavesQty (ev.qty - consumedAhead)) = po.req.qty
            have most := Nat.min_le_left po.leavesQty (ev.qty - consumedAhead)
            lia
        by_cases last : po.leavesQty - min po.leavesQty (ev.qty - consumedAhead) = 0
        · rw [if_pos last]
          exact .ends rfl last passive
        · rw [if_neg last]
          refine .fills rfl last rfl ?_ passive
          exact Nat.sub_add_cancel (Nat.min_le_left _ _)
      · exact .keeps rfl rfl
    · unfold FillSimulator.onCancel
      split
      · exact .keeps rfl rfl
      · exact .keeps rfl rfl
    · exact .keeps rfl rfl
  · exact .keeps rfl rfl

/-- The fill that the best prices give. -/
theorem tryAggressiveFill_spec {cur : BBO} {leavesQty : Qty} {id : OrderId}
    (filled : FillSimulator.tryAggressiveFill r cur leavesQty id = some x) :
    x.type = .FILLED ∧ x.clientOrderId = r.orderId ∧ 0 < x.execQty ∧ x.execQty ≤ leavesQty ∧
      x.leavesQty = 0 ∧ WithinLimit r x.price := by
  unfold FillSimulator.tryAggressiveFill at filled
  simp only at filled
  split at filled
  · rename_i crosses
    split at filled
    · cases filled
    · rename_i fills
      cases filled
      exact ⟨rfl, rfl, Nat.pos_of_ne_zero fills, Nat.min_le_left _ _, rfl,
        .inl ⟨crosses.1, crosses.2.2⟩⟩
  · split at filled
    · rename_i crosses
      split at filled
      · cases filled
      · rename_i fills
        cases filled
        exact ⟨rfl, rfl, Nat.pos_of_ne_zero fills, Nat.min_le_left _ _, rfl,
          .inr ⟨crosses.1, crosses.2.2⟩⟩
    · cases filled

theorem takePosition_keeps (mode : FillMode) (watermark : Priority) (seen : BBO)
    (po : PendingOrder) :
    (FillSimulator.takePosition mode watermark seen po).req = po.req ∧
      (FillSimulator.takePosition mode watermark seen po).leavesQty = po.leavesQty := by
  unfold FillSimulator.takePosition
  split
  · exact ⟨rfl, rfl⟩
  · exact ⟨rfl, rfl⟩

/-- A pass over the best prices keeps an order, or fills it for the last time. -/
theorem visitBbo_visited (mode : FillMode) (watermark : Priority) (cur : BBO)
    (seen : OrderId → BBO) (po : PendingOrder) (id : OrderId) :
    Visited .aggressiveFill po (FillSimulator.visitBbo mode watermark cur seen po id) := by
  unfold FillSimulator.visitBbo
  split
  · split
    · rename_i x filled
      obtain ⟨type, about, fills, most, last, limit⟩ := tryAggressiveFill_spec filled
      refine .ends about last fun life n here left => ?_
      rw [← about] at here
      exact .aggressive here type fills (by lia) last limit
    · obtain ⟨req, leaves⟩ := takePosition_keeps mode watermark (seen po.req.orderId) po
      exact .keeps req leaves
  · exact .keeps rfl rfl

/-! ## Runs of the simulator -/

/-- The log is legal, and the pending orders are those that it leaves open. -/
structure Follows (s : FillSimulator) (log : List FillEvent) : Prop where
  legal : LegalLog log
  tracks : Tracks s.pending log

variable {s : FillSimulator}

theorem Tracks.pending_iff (tracks : Tracks pending log) (orderId : OrderId) :
    (∃ po ∈ pending, po.req.orderId = orderId) ↔ ∃ r n, lives log orderId = .opened r n := by
  constructor
  · intro ⟨po, mem, same⟩
    obtain ⟨n, here, -⟩ := tracks.opened po mem
    rw [same] at here
    exact ⟨po.req, n, here⟩
  · intro ⟨r, n, here⟩
    exact tracks.covers orderId r n here

theorem Tracks.find_isSome (tracks : Tracks s.pending log) (orderId : OrderId) :
    (s.find orderId).isSome ↔ ∃ r n, lives log orderId = .opened r n := by
  rw [← tracks.pending_iff, FillSimulator.find, List.find?_isSome]
  simp only [decide_eq_true_iff]

/-- A NEW that is not yet known is pending behind its ACCEPTED. -/
theorem Tracks.place (tracks : Tracks pending log) (new : r.type = .NEW)
    (unborn : lives log r.orderId = .unborn) (answers : List MEClientResponse) (bbo : BBO) :
    Tracks (pending ++ [{ req := r, bboAtSubmit := bbo, leavesQty := r.qty }])
      (log ++ [.answered r answers]) := by
  have here : lives (log ++ [.answered r answers]) r.orderId = .opened r 0 := by
    rw [lives_concat, unborn]
    simp [Life.next, Life.answer, new]
  have others : ∀ orderId, orderId ≠ r.orderId →
      lives (log ++ [.answered r answers]) orderId = lives log orderId := by
    intro orderId other
    rw [lives_concat]
    exact if_neg other.symm
  have apart : ∀ po ∈ pending, po.req.orderId ≠ r.orderId := by
    intro po mem same
    obtain ⟨n, opened, -⟩ := tracks.opened po mem
    rw [same, unborn] at opened
    cases opened
  refine ⟨?_, fun po mem => ?_, fun orderId q n opened => ?_⟩
  · rw [List.map_append, List.map_singleton, List.nodup_append]
    refine ⟨tracks.nodup, List.nodup_singleton _, fun a aMem b bMem same => ?_⟩
    obtain ⟨po, mem, rfl⟩ := List.mem_map.mp aMem
    exact apart po mem (same.trans (List.mem_singleton.mp bMem))
  · rcases List.mem_append.mp mem with before | now
    · rw [others _ (apart po before)]
      exact tracks.opened po before
    · cases List.mem_singleton.mp now
      exact ⟨0, here, rfl⟩
  · by_cases same : orderId = r.orderId
    · exact ⟨_, List.mem_append_right _ List.mem_cons_self, same.symm⟩
    · rw [others orderId same] at opened
      obtain ⟨po, mem, eq⟩ := tracks.covers orderId q n opened
      exact ⟨po, List.mem_append_left _ mem, eq⟩

/-- A CANCEL removes its order. -/
theorem Tracks.remove (tracks : Tracks pending log) (cancel : r.type = .CANCEL)
    (answers : List MEClientResponse) :
    Tracks (pending.filter fun po => po.req.orderId ≠ r.orderId)
      (log ++ [.answered r answers]) := by
  have here : ∀ q n, lives (log ++ [.answered r answers]) r.orderId ≠ .opened q n := by
    intro q n opened
    rw [lives_concat, Life.next, if_pos rfl] at opened
    cases before : lives log r.orderId with
    | unborn =>
        rw [before, Life.answer, if_neg (by simp [cancel])] at opened
        cases opened
    | opened q n =>
        rw [before, Life.answer, if_pos cancel] at opened
        cases opened
    | closed q n =>
        rw [before, Life.answer] at opened
        cases opened
  have others : ∀ orderId, orderId ≠ r.orderId →
      lives (log ++ [.answered r answers]) orderId = lives log orderId := by
    intro orderId other
    rw [lives_concat]
    exact if_neg other.symm
  refine ⟨?_, fun po mem => ?_, fun orderId q n opened => ?_⟩
  · exact tracks.nodup.sublist (List.filter_sublist.map _)
  · obtain ⟨before, other⟩ := List.mem_filter.mp mem
    rw [others _ (of_decide_eq_true other)]
    exact tracks.opened po before
  · by_cases same : orderId = r.orderId
    · subst same
      exact absurd opened (here q n)
    · rw [others orderId same] at opened
      obtain ⟨po, mem, eq⟩ := tracks.covers orderId q n opened
      exact ⟨po, List.mem_filter.mpr ⟨mem, decide_eq_true (eq ▸ same)⟩, eq⟩

/-- A request that changes no life. -/
theorem Tracks.keeps (tracks : Tracks pending log)
    (same : ∀ orderId, lives (log ++ [e]) orderId = lives log orderId) :
    Tracks pending (log ++ [e]) where
  nodup := tracks.nodup
  opened po mem := by
    rw [same]
    exact tracks.opened po mem
  covers orderId r n here := by
    rw [same] at here
    exact tracks.covers orderId r n here

theorem Follows.onRequest (follows : Follows s log) (bbo : BBO)
    (fresh : r.type = .NEW → lives log r.orderId = .unborn) :
    Follows (s.onRequest r bbo).1 (log ++ (s.onRequest r bbo).2) := by
  have find := follows.tracks.find_isSome r.orderId
  unfold FillSimulator.onRequest
  cases type : r.type with
  | INVALID =>
      refine ⟨follows.legal.snoc (.ignores type), follows.tracks.keeps fun orderId => ?_⟩
      rw [lives_concat, Life.next]
      split
      · cases lives log orderId with
        | unborn => exact if_neg (by simp [type])
        | opened q n => exact if_neg (by simp [type])
        | closed q n => rfl
      · rfl
  | NEW =>
      have unborn := fresh type
      have absent : ¬ (s.find r.orderId).isSome := by
        rw [find, unborn]
        intro ⟨q, n, opened⟩
        cases opened
      simp only [absent]
      exact ⟨follows.legal.snoc (.accepts type unborn rfl rfl rfl),
        follows.tracks.place type unborn _ bbo⟩
  | CANCEL =>
      by_cases here : (s.find r.orderId).isSome
      · obtain ⟨q, n, opened⟩ := find.mp here
        simp only [here, if_true]
        exact ⟨follows.legal.snoc (.cancels type opened rfl rfl),
          follows.tracks.remove type _⟩
      · have gone : ∀ q n, lives log r.orderId ≠ .opened q n :=
          fun q n opened => here (find.mpr ⟨q, n, opened⟩)
        simp only [here, Bool.false_eq_true, if_false]
        refine ⟨follows.legal.snoc (.rejects type gone rfl rfl),
          follows.tracks.keeps fun orderId => ?_⟩
        rw [lives_concat, Life.next]
        split
        · rename_i same
          subst same
          cases before : lives log r.orderId with
          | unborn => exact if_neg (by simp [type])
          | opened q n => exact absurd before (gone q n)
          | closed q n => rfl
        · rfl

/-- One step of the simulator adds what is legal. -/
theorem Follows.step (follows : Follows s log) (i : FillInput)
    (fresh : ∀ r bbo, i = .request r bbo → r.type = .NEW → lives log r.orderId = .unborn) :
    Follows (s.step i).1 (log ++ (s.step i).2) := by
  have tracks : Tracks (s.pending ++ []) log := by
    rw [List.append_nil]
    exact follows.tracks
  cases i with
  | request r bbo => exact follows.onRequest bbo (fresh r bbo rfl)
  | marketEvent ev =>
      rw [FillSimulator.step]
      split
      · obtain ⟨legal, tracked⟩ := walk_tracks (f := .passiveFill) (fun _ _ _ => rfl)
          (visitMarketEvent_visited ev) s.nextMarketOrderId follows.legal tracks
        rw [List.append_nil] at tracked
        exact ⟨legal, tracked⟩
      · rw [List.append_nil]
        exact follows
  | bboPass cur seen =>
      obtain ⟨legal, tracked⟩ := walk_tracks (f := .aggressiveFill) (fun _ _ _ => rfl)
        (visitBbo_visited s.mode s.globalPriorityWatermark cur seen) s.nextMarketOrderId
        follows.legal tracks
      rw [List.append_nil] at tracked
      exact ⟨legal, tracked⟩
  | rehash order =>
      show Follows (s.rehash order) (log ++ [])
      rw [List.append_nil, FillSimulator.rehash]
      split
      · rename_i perm
        exact ⟨follows.legal, follows.tracks.perm perm⟩
      · exact follows

/-- The order ids of the NEW requests. -/
def newIds (inputs : List FillInput) : List OrderId :=
  inputs.filterMap fun
    | .request r _ => if r.type = .NEW then some r.orderId else none
    | _ => none

theorem newIds_concat (inputs : List FillInput) (i : FillInput) :
    newIds (inputs ++ [i]) = newIds inputs ++ newIds [i] :=
  List.filterMap_append

/-- A step answers the request that it takes, and no other. -/
theorem answeredRequests_step (s : FillSimulator) (i : FillInput) :
    answeredRequests (s.step i).2 = requests [i] := by
  cases i with
  | request r bbo =>
      show answeredRequests (s.onRequest r bbo).2 = [r]
      unfold FillSimulator.onRequest
      split
      · rfl
      · split
        · rfl
        · rfl
      · rfl
  | marketEvent ev =>
      rw [FillSimulator.step]
      split
      · exact List.filterMap_eq_nil_iff.mpr (List.forall_mem_map.mpr fun _ _ => rfl)
      · rfl
  | bboPass cur seen =>
      exact List.filterMap_eq_nil_iff.mpr (List.forall_mem_map.mpr fun _ _ => rfl)
  | rehash order => rfl

/-- A run answers the requests that it takes, in their order. -/
theorem answeredRequests_run (s : FillSimulator) (inputs : List FillInput) :
    answeredRequests (runTotal FillSimulator.step s inputs).2 = requests inputs := by
  induction inputs generalizing s with
  | nil => rfl
  | cons i inputs ih =>
      have split : requests (i :: inputs) = requests [i] ++ requests inputs :=
        List.filterMap_append (l := [i])
      rw [split, ← answeredRequests_step s i, ← ih (s.step i).1]
      exact List.filterMap_append

/-- Only requests are answered. -/
theorem answered_of_step {i : FillInput} {answers : List MEClientResponse}
    (mem : .answered r answers ∈ (s.step i).2) : ∃ bbo, i = .request r bbo := by
  have among : r ∈ requests [i] := by
    rw [← answeredRequests_step s i]
    exact List.mem_filterMap.mpr ⟨_, mem, rfl⟩
  obtain ⟨j, here, asks⟩ := List.mem_filterMap.mp among
  cases List.mem_singleton.mp here
  cases i with
  | request q bbo =>
      cases asks
      exact ⟨bbo, rfl⟩
  | marketEvent ev => cases asks
  | bboPass cur seen => cases asks
  | rehash order => cases asks

/-- The run lemma. -/
theorem run_follows (mode : FillMode) {inputs : List FillInput}
    (distinct : (newIds inputs).Nodup) :
    Follows (runTotal FillSimulator.step (.new mode) inputs).1
        (runTotal FillSimulator.step (.new mode) inputs).2 ∧
      ∀ r answers, .answered r answers ∈ (runTotal FillSimulator.step (.new mode) inputs).2 →
        r.type = .NEW → r.orderId ∈ newIds inputs := by
  induction inputs using List.reverseRecOn with
  | nil =>
      refine ⟨⟨.nil, List.nodup_nil, ?_, ?_⟩, ?_⟩
      · intro po mem
        cases mem
      · intro orderId r n here
        cases here
      · intro r answers mem
        cases mem
  | append_singleton inputs i ih =>
      rw [newIds_concat, List.nodup_append] at distinct
      obtain ⟨follows, placed⟩ := ih distinct.1
      rw [runTotal_concat, newIds_concat]
      generalize runTotal FillSimulator.step (.new mode) inputs = result at follows placed
      refine ⟨follows.step i ?_, ?_⟩
      · intro r bbo eq new
        subst eq
        have told := follows.legal.told r.orderId
        generalize lives result.2 r.orderId = life at told
        have now : r.orderId ∈ newIds [.request r bbo] := by simp [newIds, new]
        have unplaced : ∀ q n, ¬ Accounts result.2 r.orderId q n := by
          intro q n accounts
          obtain ⟨x, -, -, mem, -⟩ := accounts.placed
          have before := placed q [x] mem accounts.new
          rw [accounts.about] at before
          exact distinct.2.2 _ before _ now rfl
        cases told with
        | unborn => rfl
        | opened accounts => exact absurd accounts (unplaced _ _)
        | closed accounts => exact absurd accounts (unplaced _ _)
      · intro r answers mem new
        rcases List.mem_append.mp mem with before | now
        · exact List.mem_append_left _ (placed r answers before new)
        · obtain ⟨bbo, rfl⟩ := answered_of_step now
          exact List.mem_append_right _ (by simp [newIds, new])

/-- **FillSimulator speaks the response protocol** of the exchange: whatever requests, market
events and best prices it meets, in either mode. -/
theorem run_protocol (mode : FillMode) {inputs : List FillInput}
    (distinct : (newIds inputs).Nodup) :
    Protocol (requests inputs) (runTotal FillSimulator.step (.new mode) inputs).2
      (runTotal FillSimulator.step (.new mode) inputs).1.pending := by
  obtain ⟨follows, -⟩ := run_follows mode distinct
  rw [← answeredRequests_run (.new mode) inputs]
  exact follows.legal.protocol follows.tracks.pending_iff

/-- An order that a TRADE and then the best prices fill, and one that is cancelled. -/
def session : List FillInput :=
  let buy (type : ClientRequestType) (orderId : OrderId) : MEClientRequest :=
    { type, clientId := 1, tickerId := 0, orderId, side := .BUY, price := 100, qty := 10 }
  let trade : MEMarketUpdate :=
    { type := .TRADE, orderId := 7, tickerId := 0, side := .BUY, price := 100, qty := 5
      priority := 0 }
  let quotes (bidQty : Qty) (askPrice : Price) : BBO :=
    { bidPrice := 100, askPrice, bidQty, askQty := 8 }
  [.request (buy .NEW 1) (quotes 4 101), .bboPass (quotes 3 101) fun _ => quotes 3 101,
    .marketEvent trade, .bboPass (quotes 3 100) fun _ => quotes 3 100,
    .request (buy .CANCEL 1) (quotes 3 100), .request (buy .NEW 2) (quotes 3 100),
    .request (buy .CANCEL 2) (quotes 3 100)]

theorem run_protocol_session :
    (responded (runTotal FillSimulator.step (.new .QUEUE_AWARE) session).2).map
        (fun x => (x.type, x.clientOrderId, x.execQty, x.leavesQty)) =
      [(.ACCEPTED, 1, 0, 10), (.FILLED, 1, 2, 8), (.FILLED, 1, 8, 0), (.CANCEL_REJECTED, 1, 0, 0),
        (.ACCEPTED, 2, 0, 10), (.CANCELED, 2, 0, 0)] ∧
      Protocol (requests session) (runTotal FillSimulator.step (.new .QUEUE_AWARE) session).2
        (runTotal FillSimulator.step (.new .QUEUE_AWARE) session).1.pending :=
  ⟨by decide +kernel, run_protocol .QUEUE_AWARE (by decide +kernel)⟩

end FillProtocol

end NanoTrade
