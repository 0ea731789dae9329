import NanoTrade.Exchange.FreshIds

/-!
# The random algorithm

`trading_main.cpp` has an algorithm of its own, `RANDOM`: turn by turn it sends a new order with
random attributes and cancels a random one of those that it has sent, this one included.

* `RandomAlgo.sends`: whatever `rand` returns, the requests are in range and no id is used twice.
* `RandomAlgo.run_served`: so an exchange as `exchange_main.cpp` starts it serves any number of such
  clients that its pools have room for, however their requests interleave.
-/

namespace NanoTrade

/-- What `rand` returns in one turn. -/
structure RandomDraw where
  ticker : Nat
  price : Nat
  qty : Nat
  side : Nat
  cxlIndex : Nat

structure RandomAlgo where
  clientId : ClientId
  orderId : OrderId
  tickerBasePrice : TickerId → Price
  clientRequestsVec : List MEClientRequest

namespace RandomAlgo

/-- What the loop starts with; `rand` returns `draws` for the base prices. -/
def new (clientId : ClientId) (draws : TickerId → Nat) : RandomAlgo :=
  { clientId
    orderId := clientId * 1000
    tickerBasePrice := fun ticker => (draws ticker % 100 : Nat) + 100
    clientRequestsVec := [] }

def newRequest (s : RandomAlgo) (d : RandomDraw) : MEClientRequest :=
  let tickerId := d.ticker % ME_MAX_TICKERS
  { type := .NEW, clientId := s.clientId, tickerId, orderId := s.orderId
    side := if d.side % 2 ≠ 0 then .BUY else .SELL
    price := s.tickerBasePrice tickerId + (d.price % 10 : Nat) + 1
    qty := 1 + d.qty % 100 + 1 }

/-- One of the orders that have been sent, `order` the last of them. -/
def picked (s : RandomAlgo) (order : MEClientRequest) (d : RandomDraw) : MEClientRequest :=
  (s.clientRequestsVec ++ [order]).get
    ⟨d.cxlIndex % (s.clientRequestsVec ++ [order]).length, Nat.mod_lt _ (by simp)⟩

/-- One turn of the loop. -/
def step (s : RandomAlgo) (d : RandomDraw) : RandomAlgo × List MEClientRequest :=
  let order := s.newRequest d
  ({ s with
      orderId := s.orderId + 1
      clientRequestsVec := s.clientRequestsVec ++ [order] },
    [order, { s.picked order d with type := .CANCEL }])

/-- The turns that the loop takes at most. -/
def turns : Nat := 10000

/-- What a client sends in these turns. -/
def requests (clientId : ClientId) (basePrices : TickerId → Nat) (draws : List RandomDraw) :
    List MEClientRequest :=
  (runTotal step (new clientId basePrices) draws).2

/-! ## One client -/

variable {clientId : ClientId} {basePrices : TickerId → Nat} {draws : List RandomDraw}
  {s : RandomAlgo} {d : RandomDraw} {r : MEClientRequest} {n : Nat}

/-- A request of the client with one of its first `n` ids. -/
structure Sendable (clientId : ClientId) (n : Nat) (r : MEClientRequest) : Prop where
  client : r.clientId = clientId
  id : r.orderId < clientId * 1000 + n
  known : r.tickerId < ME_MAX_TICKERS
  sided : r.side = .BUY ∨ r.side = .SELL
  price : 101 ≤ r.price ∧ r.price ≤ 209

theorem Sendable.grow (sendable : Sendable clientId n r) : Sendable clientId (n + 1) r :=
  { sendable with id := Nat.lt_succ_of_lt sendable.id }

/-- What holds behind `n` turns, in which `out` was sent. -/
structure Turned (clientId : ClientId) (basePrices : TickerId → Nat) (n : Nat) (s : RandomAlgo)
    (out : List MEClientRequest) : Prop where
  client : s.clientId = clientId
  next : s.orderId = clientId * 1000 + n
  prices : s.tickerBasePrice = (new clientId basePrices).tickerBasePrice
  vec : ∀ r ∈ s.clientRequestsVec, Sendable clientId n r
  sendable : ∀ r ∈ out, Sendable clientId n r
  type : ∀ r ∈ out, r.type = .NEW ∨ r.type = .CANCEL
  apart : out.Pairwise NewIdsApart
  news : RefBook.news out = n

theorem Turned.newRequest {out : List MEClientRequest}
    (turned : Turned clientId basePrices n s out) (d : RandomDraw) :
    Sendable clientId (n + 1) (s.newRequest d) := by
  refine ⟨turned.client, ?_, Nat.mod_lt _ (by decide), ?_, ?_⟩
  · show s.orderId < _
    rw [turned.next]
    exact Nat.lt_succ_self _
  · unfold RandomAlgo.newRequest
    split
    · exact .inl rfl
    · exact .inr rfl
  · have base : s.tickerBasePrice (d.ticker % ME_MAX_TICKERS) =
        (basePrices (d.ticker % ME_MAX_TICKERS) % 100 : Nat) + 100 := by
      rw [turned.prices]
      rfl
    show 101 ≤ s.tickerBasePrice _ + _ + 1 ∧ s.tickerBasePrice _ + _ + 1 ≤ 209
    rw [base]
    lia

/-- One turn. -/
theorem Turned.step {out : List MEClientRequest} (turned : Turned clientId basePrices n s out)
    (d : RandomDraw) :
    Turned clientId basePrices (n + 1) (s.step d).1 (out ++ (s.step d).2) := by
  have order := turned.newRequest d
  have vec : ∀ r ∈ s.clientRequestsVec ++ [s.newRequest d], Sendable clientId (n + 1) r := by
    intro r mem
    rcases List.mem_append.mp mem with old | last
    · exact (turned.vec r old).grow
    · rw [List.mem_singleton.mp last]
      exact order
  have picked : Sendable clientId (n + 1) (s.picked (s.newRequest d) d) :=
    vec _ (List.get_mem _ _)
  have cancel : Sendable clientId (n + 1)
      { s.picked (s.newRequest d) d with type := .CANCEL } :=
    ⟨picked.client, picked.id, picked.known, picked.sided, picked.price⟩
  refine ⟨turned.client, ?_, turned.prices, vec, fun r mem => ?_, fun r mem => ?_, ?_, ?_⟩
  · show s.orderId + 1 = _
    rw [turned.next, Nat.add_assoc]
  · rcases List.mem_append.mp mem with old | now
    · exact (turned.sendable r old).grow
    · rcases List.mem_cons.mp now with rfl | last
      · exact order
      · rw [List.mem_singleton.mp last]
        exact cancel
  · rcases List.mem_append.mp mem with old | now
    · exact turned.type r old
    · rcases List.mem_cons.mp now with rfl | last
      · exact .inl rfl
      · rw [List.mem_singleton.mp last]
        exact .inr rfl
  · refine List.pairwise_append.mpr ⟨turned.apart, ?_, fun a old b now _ isNew _ => ?_⟩
    · refine List.pairwise_pair.mpr fun _ isNew => ?_
      cases isNew
    · rcases List.mem_cons.mp now with rfl | last
      · have below := (turned.sendable a old).id
        show a.orderId ≠ s.orderId
        rw [turned.next]
        exact Nat.ne_of_lt below
      · rw [List.mem_singleton.mp last] at isNew
        cases isNew
  · rw [RefBook.news, List.countP_append]
    have before := turned.news
    rw [RefBook.news] at before
    rw [before]
    rfl

/-- What a client sends in its turns. -/
theorem sends (clientId : ClientId) (basePrices : TickerId → Nat) (draws : List RandomDraw) :
    Turned clientId basePrices draws.length (runTotal step (new clientId basePrices) draws).1
      (requests clientId basePrices draws) := by
  unfold requests
  induction draws using List.reverseRecOn with
  | nil =>
      refine ⟨rfl, (Nat.add_zero _).symm, rfl, fun r mem => ?_, fun r mem => ?_, fun r mem => ?_,
        .nil, rfl⟩
      · cases mem
      · cases mem
      · cases mem
  | append_singleton draws d ih =>
      rw [runTotal_concat, List.length_append, List.length_singleton]
      exact ih.step d

/-! ## Many clients -/

/-- Requests of these clients, as they reach the exchange: those of each client come in its order,
and not all of them need have come yet. -/
structure Traffic (clients : List ClientId) (basePrices : ClientId → TickerId → Nat)
    (draws : ClientId → List RandomDraw) (rs : List MEClientRequest) : Prop where
  sent : ∀ r ∈ rs, r.clientId ∈ clients
  inOrder : ∀ c ∈ clients,
    rs.filter (fun r => r.clientId = c) <+: requests c (basePrices c) (draws c)
  client : ∀ c ∈ clients, c < ME_MAX_NUM_CLIENTS
  turns : ∀ c ∈ clients, (draws c).length ≤ turns

/-- The requests are counted client by client. -/
theorem news_le {clients : List ClientId} {rs : List MEClientRequest} {most : Nat}
    (sent : ∀ r ∈ rs, r.clientId ∈ clients)
    (few : ∀ c ∈ clients, RefBook.news (rs.filter fun r => r.clientId = c) ≤ most) :
    RefBook.news rs ≤ clients.length * most := by
  induction clients generalizing rs with
  | nil =>
      cases rs with
      | nil => exact Nat.zero_le _
      | cons r rs => exact absurd (sent r List.mem_cons_self) List.not_mem_nil
  | cons c clients ih =>
      have split : RefBook.news rs = RefBook.news (rs.filter fun r => r.clientId = c) +
          RefBook.news (rs.filter fun r => ¬ r.clientId = c) := by
        simp only [RefBook.news, List.countP_filter]
        rw [List.countP_eq_countP_filter_add rs _ fun r => decide (r.clientId = c)]
        simp only [List.countP_filter, decide_not]
      have here := few c List.mem_cons_self
      have others : RefBook.news (rs.filter fun r => ¬ r.clientId = c) ≤
          clients.length * most := by
        refine ih (fun r mem => ?_) fun c' mem => ?_
        · obtain ⟨old, other⟩ := List.mem_filter.mp mem
          rcases List.mem_cons.mp (sent r old) with same | tail
          · exact absurd same (of_decide_eq_true other)
          · exact tail
        · refine le_trans ?_ (few c' (List.mem_cons_of_mem _ mem))
          exact List.Sublist.countP_le (List.filter_sublist.filter _)
      rw [split, List.length_cons, Nat.succ_mul]
      omega

section Served

variable {clients : List ClientId} {basePrices : ClientId → TickerId → Nat}
  {draws : ClientId → List RandomDraw} {rs : List MEClientRequest}

/-- A request of the traffic is one of its client. -/
theorem Traffic.request (traffic : Traffic clients basePrices draws rs) (mem : r ∈ rs) :
    Sendable r.clientId RandomAlgo.turns r ∧ (r.type = .NEW ∨ r.type = .CANCEL) := by
  have listed := traffic.sent r mem
  have own : r ∈ requests r.clientId (basePrices r.clientId) (draws r.clientId) :=
    (traffic.inOrder _ listed).subset (List.mem_filter.mpr ⟨mem, decide_eq_true rfl⟩)
  have turned := sends r.clientId (basePrices r.clientId) (draws r.clientId)
  have sendable := turned.sendable r own
  have few := traffic.turns _ listed
  exact ⟨{ sendable with id := lt_of_lt_of_le sendable.id (Nat.add_le_add_left few _) },
    turned.type r own⟩

/-- The traffic fits the exchange. -/
theorem Traffic.freshIds (traffic : Traffic clients basePrices draws rs)
    (few : clients.length * RandomAlgo.turns < ME_MAX_ORDER_IDS) : FreshIds (fun _ => 0) rs := by
  refine ⟨fun r mem => ?_, fun r mem => (traffic.request mem).1.known, ?_, ?_⟩
  · obtain ⟨sendable, type⟩ := traffic.request mem
    have client := traffic.client _ (traffic.sent r mem)
    have id := sendable.id
    have inTable : r.orderId < ME_MAX_ORDER_IDS := by
      have clients : ME_MAX_NUM_CLIENTS * 1000 + RandomAlgo.turns < ME_MAX_ORDER_IDS := by decide
      have below : r.clientId * 1000 ≤ ME_MAX_NUM_CLIENTS * 1000 :=
        Nat.mul_le_mul_right _ (Nat.le_of_lt client)
      lia
    have inside : InWindow 0 r.price := by
      obtain ⟨low, high⟩ := sendable.price
      have wide : (209 : Int) < ME_MAX_PRICE_LEVELS := by decide
      simp only [InWindow, priceInWindow, Bool.and_eq_true, decide_eq_true_eq]
      lia
    refine ⟨client, inTable, ?_⟩
    rcases type with isNew | isCancel
    · exact .inr ⟨isNew, sendable.sided, inside⟩
    · exact .inl isCancel
  · rw [List.pairwise_iff_forall_sublist]
    intro a b pair aNew bNew same
    have mem : b ∈ rs := pair.subset (List.mem_cons_of_mem _ List.mem_cons_self)
    have own := pair.filter fun r => decide (r.clientId = b.clientId)
    have both : [a, b].filter (fun r => decide (r.clientId = b.clientId)) = [a, b] := by
      simp [same]
    rw [both] at own
    have apart := (sends b.clientId (basePrices b.clientId) (draws b.clientId)).apart
    exact List.pairwise_iff_forall_sublist.mp apart
      (own.trans (traffic.inOrder _ (traffic.sent b mem)).sublist) aNew bNew same
  · refine lt_of_le_of_lt (news_le traffic.sent fun c mem => ?_) few
    refine le_trans (List.Sublist.countP_le (traffic.inOrder c mem).sublist) ?_
    have news := (sends c (basePrices c) (draws c)).news
    rw [RefBook.news] at news
    rw [news]
    exact traffic.turns c mem

end Served

/-- **Random clients are served**: however the requests of all of them interleave, no request stops
the exchange, and each of its books is the reference book of the requests of its ticker. -/
theorem run_served {clients : List ClientId} {basePrices : ClientId → TickerId → Nat}
    {draws : ClientId → List RandomDraw} {rs : List MEClientRequest}
    (traffic : Traffic clients basePrices draws rs)
    (few : clients.length * turns < ME_MAX_ORDER_IDS) :
    ∃ s out, run MatchingEngine.processClientRequest (MatchingEngine.new fun _ => 0) rs =
        .ok (s, out) ∧
      ∀ ticker, Refines 0 True (s.tickerOrderBook ticker)
        (runTotal (RefBook.step .unbounded) RefBook.new (MatchingEngine.ofTicker ticker rs)).1 := by
  have fresh := traffic.freshIds few
  obtain ⟨s, out, ran, books⟩ := MatchingEngine.run_freshIds fresh
  refine ⟨s, out, ran, fun ticker => ?_⟩
  have fewer : RefBook.news (MatchingEngine.ofTicker ticker rs) < ME_MAX_ORDER_IDS :=
    (List.Sublist.countP_le List.filter_sublist).trans_lt fresh.few
  have small : ME_MAX_ORDER_IDS < 2 ^ 32 := by decide
  obtain ⟨same, -⟩ := RefBook.run_machine (RefBook.Regular.new .unbounded rfl)
    (MatchingEngine.ofTicker ticker rs) (by lia)
  rw [← same]
  exact (books ticker).1

/-- The orders of two clients match before either CANCEL comes; one of the two is still on its
way. -/
theorem run_served_two :
    ∃ s out, run MatchingEngine.processClientRequest (MatchingEngine.new fun _ => 0)
        [⟨.NEW, 1, 3, 1000, .BUY, 105, 7⟩, ⟨.NEW, 2, 3, 2000, .SELL, 105, 4⟩,
          ⟨.CANCEL, 2, 3, 2000, .SELL, 105, 4⟩] = .ok (s, out) ∧
      Refines 0 True (s.tickerOrderBook 3)
        (runTotal (RefBook.step .unbounded) RefBook.new
          (MatchingEngine.ofTicker 3
            [⟨.NEW, 1, 3, 1000, .BUY, 105, 7⟩, ⟨.NEW, 2, 3, 2000, .SELL, 105, 4⟩,
              ⟨.CANCEL, 2, 3, 2000, .SELL, 105, 4⟩])).1 := by
  have traffic : Traffic [1, 2] (fun _ _ => 0)
      (fun c => if c = 1 then [⟨3, 4, 5, 1, 0⟩] else [⟨3, 4, 2, 0, 0⟩])
      [⟨.NEW, 1, 3, 1000, .BUY, 105, 7⟩, ⟨.NEW, 2, 3, 2000, .SELL, 105, 4⟩,
        ⟨.CANCEL, 2, 3, 2000, .SELL, 105, 4⟩] :=
    ⟨by decide, by decide, by decide, by decide⟩
  obtain ⟨s, out, ran, books⟩ := run_served traffic (by decide)
  exact ⟨s, out, ran, books 3⟩

end RandomAlgo

end NanoTrade
