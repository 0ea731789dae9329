import NanoTrade.Exchange.SnapshotCycle
import NanoTrade.MemPool

/-!
# The snapshot synthesizer

`exchange/market_data/snapshot_synthesizer.cpp` and the numbering of
`exchange/market_data/market_data_publisher.cpp`. The synthesizer keeps the ADD of every live
order of every ticker, in a table by market order id, with the quantity that is left.

`Holds s books live` says that the table holds the orders of `books`; `Holds.applyUpdate`: an
announced update carries it, and none of the assertions fires.
-/

namespace NanoTrade

/-! ## The publisher -/

structure MarketDataPublisher where
  nextIncSeqNum : Nat

namespace MarketDataPublisher

def new : MarketDataPublisher :=
  { nextIncSeqNum := 1 }

/-- One turn of the loop of `run`: the update as it is sent, and as it is forwarded to the
synthesizer. -/
def publish (s : MarketDataPublisher) (u : MEMarketUpdate) :
    MarketDataPublisher × List MDPMarketUpdate :=
  ({ nextIncSeqNum := s.nextIncSeqNum + 1 }, [⟨s.nextIncSeqNum, u⟩])

/-- The updates as they are published. -/
def published (us : List MEMarketUpdate) : List MDPMarketUpdate :=
  (runTotal publish new us).2

theorem nextIncSeqNum_publish (us : List MEMarketUpdate) :
    (runTotal publish new us).1.nextIncSeqNum = us.length + 1 := by
  induction us using List.reverseRecOn with
  | nil => rfl
  | append_singleton us u ih =>
      rw [runTotal_concat, publish, ih, List.length_append, List.length_singleton]

theorem published_concat (us : List MEMarketUpdate) (u : MEMarketUpdate) :
    published (us ++ [u]) = published us ++ [⟨us.length + 1, u⟩] := by
  rw [published, runTotal_concat, publish, nextIncSeqNum_publish]
  rfl

end MarketDataPublisher

/-! ## The synthesizer -/

structure SnapshotSynthesizer where
  tickerOrders : TickerId → OrderId → Option Ptr
  lastIncSeqNum : Nat
  orderPool : MemPool MEMarketUpdate

namespace SnapshotSynthesizer

def new : SnapshotSynthesizer :=
  { tickerOrders := fun _ _ => none, lastIncSeqNum := 0
    orderPool := MemPool.new ME_MAX_ORDER_IDS (.ofType .INVALID) }

/-- `orders->at(order_id_)`. -/
def orderAt (s : SnapshotSynthesizer) (u : MEMarketUpdate) : Except Fault (Option Ptr) :=
  if u.orderId < ME_MAX_ORDER_IDS then .ok (s.tickerOrders u.tickerId u.orderId)
  else .error (.outOfRange u.orderId)

/-- The order that a MODIFY or a CANCEL is for, behind the assertions about it. -/
def existing (s : SnapshotSynthesizer) (u : MEMarketUpdate) : Except Fault Ptr := do
  match ← s.orderAt u with
  | none => .error (.orderMissing u.orderId)
  | some order =>
    if (s.orderPool.get order).orderId ≠ u.orderId then .error (.orderMismatch u.orderId)
    else if (s.orderPool.get order).side ≠ u.side then .error (.orderMismatch u.orderId)
    else .ok order

/-- `orders->at(order_id_) = order`. -/
def setOrder (s : SnapshotSynthesizer) (u : MEMarketUpdate) (order : Option Ptr) :
    TickerId → OrderId → Option Ptr :=
  Function.update s.tickerOrders u.tickerId
    (Function.update (s.tickerOrders u.tickerId) u.orderId order)

/-- The `switch` of `addToSnapshot`, behind `ticker_orders_.at`. -/
def applyUpdate (s : SnapshotSynthesizer) (u : MEMarketUpdate) :
    Except Fault SnapshotSynthesizer :=
  if u.tickerId < ME_MAX_TICKERS then
    match u.type with
    | .ADD => do
      match ← s.orderAt u with
      | some _ => .error (.orderExists u.orderId)
      | none =>
        let (order, pool) ← s.orderPool.allocate u
        pure { s with orderPool := pool, tickerOrders := s.setOrder u (some order) }
    | .MODIFY => do
      let order ← s.existing u
      pure { s with
        orderPool := s.orderPool.modify order fun o => { o with qty := u.qty, price := u.price } }
    | .CANCEL => do
      let order ← s.existing u
      let pool ← s.orderPool.deallocate order
      pure { s with orderPool := pool, tickerOrders := s.setOrder u none }
    | _ => pure s
  else .error (.outOfRange u.tickerId)

/-- Nothing is sent. -/
def addToSnapshot (s : SnapshotSynthesizer) (m : MDPMarketUpdate) :
    Except Fault (SnapshotSynthesizer × List MDPMarketUpdate) := do
  let s ← s.applyUpdate m.meMarketUpdate
  if m.seqNum = s.lastIncSeqNum + 1 then pure ({ s with lastIncSeqNum := m.seqNum }, [])
  else .error (.seqNumGap m.seqNum)

/-- The message in a place of the table. -/
def stored (s : SnapshotSynthesizer) (ticker : TickerId) (orderId : OrderId) :
    Option MEMarketUpdate :=
  (s.tickerOrders ticker orderId).map s.orderPool.get

/-- What a cycle sends now: the orders of a ticker by their ids. -/
def cycle (s : SnapshotSynthesizer) : SnapshotCycle :=
  { lastIncSeqNum := s.lastIncSeqNum
    orders := fun ticker => (List.range ME_MAX_ORDER_IDS).filterMap (s.stored ticker) }

def publishSnapshot (s : SnapshotSynthesizer) : List MDPMarketUpdate :=
  s.cycle.messages

end SnapshotSynthesizer

/-! ## The orders of the books -/

/-- The ADD of an order with what is left of it. -/
def Quote.announce (ticker : TickerId) (side : BookSide) (q : Quote) : MEMarketUpdate :=
  { type := .ADD, orderId := q.key, tickerId := ticker, side := side.toSide
    price := q.price, qty := q.qty, priority := q.priority }

theorem Quote.of_announce (ticker : TickerId) (side : BookSide) (q : Quote) :
    Quote.of (q.announce ticker side) = q := rfl

theorem Quote.announce_of {side : BookSide} {u : MEMarketUpdate} (isAdd : u.type = .ADD)
    (sided : u.side = side.toSide) : (Quote.of u).announce u.tickerId side = u := by
  cases u
  simp only at isAdd sided
  subst isAdd sided
  rfl

/-- The table holds the ADD of every order of the books, with what is left of it, and nothing
else; the blocks in use are those of the table. -/
structure SnapshotSynthesizer.Holds (s : SnapshotSynthesizer) (books : Books)
    (live : List Ptr) : Prop where
  pool : s.orderPool.Holds live
  size : s.orderPool.size = ME_MAX_ORDER_IDS
  count : live.length = books.live
  table : ∀ p, p ∈ live ↔ ∃ ticker orderId, s.tickerOrders ticker orderId = some p
  apart : ∀ {ticker ticker' orderId orderId' p}, s.tickerOrders ticker orderId = some p →
    s.tickerOrders ticker' orderId' = some p → ticker = ticker' ∧ orderId = orderId'
  slot : ∀ {ticker orderId p}, s.tickerOrders ticker orderId = some p → orderId < ME_MAX_ORDER_IDS
  stored : ∀ ticker orderId u, s.stored ticker orderId = some u ↔ ticker < ME_MAX_TICKERS ∧
    ∃ side, ∃ q ∈ books ticker side, q.key = orderId ∧ u = q.announce ticker side
  distinct : ∀ ticker, (books ticker).Distinct

namespace SnapshotSynthesizer.Holds

variable {s : SnapshotSynthesizer} {books : Books} {live : List Ptr} {u : MEMarketUpdate}
  {basePrice : Price} {ticker : TickerId} {orderId : OrderId} {side : BookSide} {q : Quote}

theorem new : SnapshotSynthesizer.new.Holds (fun _ _ => []) [] := by
  refine ⟨MemPool.holds_new _ (by decide), rfl, rfl, ?_, ?_, ?_, ?_, ?_⟩
  · intro p
    simp [SnapshotSynthesizer.new]
  · intro ticker ticker' orderId orderId' p held
    cases held
  · intro ticker orderId p held
    cases held
  · intro ticker orderId u
    simp [SnapshotSynthesizer.stored, SnapshotSynthesizer.new]
  · intro ticker
    exact List.nodup_nil

/-- The block of a live order. -/
theorem block (holds : s.Holds books live) (known : ticker < ME_MAX_TICKERS)
    (mem : q ∈ books ticker side) : ∃ p, s.tickerOrders ticker q.key = some p ∧ p ∈ live ∧
      s.orderPool.get p = q.announce ticker side := by
  have stored := (holds.stored ticker q.key (q.announce ticker side)).mpr
    ⟨known, side, q, mem, rfl, rfl⟩
  obtain ⟨p, held, get⟩ := Option.map_eq_some_iff.mp stored
  exact ⟨p, held, (holds.table p).mpr ⟨ticker, q.key, held⟩, get⟩

/-- An id that no live order has is free in the table. -/
theorem free (holds : s.Holds books live) (fresh : ∀ q ∈ both (books ticker), q.key ≠ orderId) :
    s.tickerOrders ticker orderId = none := by
  cases held : s.tickerOrders ticker orderId with
  | none => rfl
  | some p =>
      have stored : s.stored ticker orderId = some (s.orderPool.get p) := by
        rw [SnapshotSynthesizer.stored, held]
        rfl
      obtain ⟨-, side, q, mem, key, -⟩ := (holds.stored _ _ _).mp stored
      exact absurd key (fresh q ((mem_both _).mpr ⟨side, mem⟩))

/-- A live order passes the assertions about it. -/
theorem existing (holds : s.Holds books live) (known : u.tickerId < ME_MAX_TICKERS)
    (mem : q ∈ books u.tickerId side) (named : q.key = u.orderId) (sided : u.side = side.toSide) :
    ∃ p, s.existing u = .ok p ∧ s.tickerOrders u.tickerId q.key = some p ∧ p ∈ live ∧
      s.orderPool.get p = q.announce u.tickerId side := by
  obtain ⟨p, held, pMem, get⟩ := holds.block known mem
  refine ⟨p, ?_, held, pMem, get⟩
  have small : u.orderId < ME_MAX_ORDER_IDS := named ▸ holds.slot held
  have found : s.orderAt u = .ok (some p) := by
    rw [SnapshotSynthesizer.orderAt, if_pos small, ← named, held]
  have id : (s.orderPool.get p).orderId = u.orderId := by
    rw [get]
    exact named
  have own : (s.orderPool.get p).side = u.side := by
    rw [get]
    exact sided.symm
  simp only [SnapshotSynthesizer.existing, found, id, own, bind, Except.bind, ne_eq,
    not_true_eq_false, if_false]

/-- A place of the table behind a write to it. -/
theorem setOrder_eq (s : SnapshotSynthesizer) (u : MEMarketUpdate) (order : Option Ptr)
    (ticker : TickerId) (orderId : OrderId) :
    s.setOrder u order ticker orderId =
      if ticker = u.tickerId ∧ orderId = u.orderId then order
      else s.tickerOrders ticker orderId := by
  unfold SnapshotSynthesizer.setOrder
  rcases eq_or_ne ticker u.tickerId with rfl | ne
  · rw [Function.update_self]
    rcases eq_or_ne orderId u.orderId with rfl | ne
    · rw [Function.update_self, if_pos ⟨rfl, rfl⟩]
    · rw [Function.update_of_ne ne, if_neg fun same => ne same.2]
  · rw [Function.update_of_ne ne, if_neg fun same => ne same.1]

section Step

variable {s' : SnapshotSynthesizer} {live' : List Ptr} {pool : MemPool MEMarketUpdate} {p : Ptr}

/-- The table behind an announced update, from its place for the id of the update. -/
theorem stored_apply (holds : s.Holds books live) (known : u.tickerId < ME_MAX_TICKERS)
    (announced : (books u.tickerId).Announced basePrice u)
    (others : ∀ ticker orderId, ¬ (ticker = u.tickerId ∧ orderId = u.orderId) →
      s'.stored ticker orderId = s.stored ticker orderId)
    (own : ∀ v, s'.stored u.tickerId u.orderId = some v ↔
      ∃ side, ∃ q ∈ (books u.tickerId).apply u side, q.key = u.orderId ∧
        v = q.announce u.tickerId side) (ticker : TickerId) (orderId : OrderId)
    (v : MEMarketUpdate) :
    s'.stored ticker orderId = some v ↔ ticker < ME_MAX_TICKERS ∧
      ∃ side, ∃ q ∈ books.apply u ticker side, q.key = orderId ∧ v = q.announce ticker side := by
  rcases eq_or_ne ticker u.tickerId with rfl | other
  · rw [Books.apply, Function.update_self]
    rcases eq_or_ne orderId u.orderId with rfl | ne
    · rw [own]
      exact (and_iff_right known).symm
    · rw [others _ _ fun same => ne same.2, holds.stored]
      refine and_congr_right fun _ => exists_congr fun side => exists_congr fun q => ?_
      constructor
      · rintro ⟨mem, rfl, same⟩
        exact ⟨(announced.mem_apply ne).mpr mem, rfl, same⟩
      · rintro ⟨mem, rfl, same⟩
        exact ⟨(announced.mem_apply ne).mp mem, rfl, same⟩
  · rw [others _ _ fun same => other same.1, holds.stored, Books.apply, Function.update_of_ne other]

theorem distinct_apply (holds : s.Holds books live)
    (announced : (books u.tickerId).Announced basePrice u) (ticker : TickerId) :
    (books.apply u ticker).Distinct := by
  rw [Books.apply]
  rcases eq_or_ne ticker u.tickerId with rfl | other
  · rw [Function.update_self]
    exact (holds.distinct _).apply announced
  · rw [Function.update_of_ne other]
    exact holds.distinct ticker

/-- An ADD takes a block. -/
theorem add (holds : s.Holds books live) (known : u.tickerId < ME_MAX_TICKERS)
    (announced : (books u.tickerId).Announced basePrice u) (isAdd : u.type = .ADD)
    (adds : (books u.tickerId).Adds basePrice side u)
    (room : (books.apply u).live < ME_MAX_ORDER_IDS) :
    ∃ s' live', s.applyUpdate u = .ok s' ∧ s'.lastIncSeqNum = s.lastIncSeqNum ∧
      s'.Holds (books.apply u) live' := by
  have free := holds.free adds.fresh
  have grown : (both ((books u.tickerId).apply u)).length =
      (both (books u.tickerId)).length + 1 := by
    rw [Quotes.apply_add isAdd adds.sided]
    exact (perm_both_grown (List.perm_orderedInsert _ _ _)).length_eq
  have counted := books.live_apply known
  obtain ⟨p, pool, allocated, fresh, holdsPool, size, get⟩ := holds.pool.allocate
    (by rw [holds.size, holds.count]; omega) u
  have found : s.orderAt u = .ok none := by
    rw [SnapshotSynthesizer.orderAt, if_pos adds.slot, free]
  refine ⟨{ s with orderPool := pool, tickerOrders := s.setOrder u (some p) }, p :: live, ?_, rfl,
    holdsPool, size.trans holds.size, ?_, ?_, ?_, ?_, ?_, holds.distinct_apply announced⟩
  · simp only [SnapshotSynthesizer.applyUpdate, known, isAdd, found, allocated, bind, Except.bind,
      pure, Except.pure, if_true]
  · rw [List.length_cons, holds.count]
    omega
  · intro r
    simp only [setOrder_eq, List.mem_cons, holds.table]
    constructor
    · rintro (rfl | ⟨ticker, orderId, held⟩)
      · exact ⟨u.tickerId, u.orderId, if_pos ⟨rfl, rfl⟩⟩
      · refine ⟨ticker, orderId, ?_⟩
        rw [if_neg, held]
        rintro ⟨rfl, rfl⟩
        rw [free] at held
        cases held
    · rintro ⟨ticker, orderId, held⟩
      split at held
      · exact .inl (Option.some.inj held).symm
      · exact .inr ⟨ticker, orderId, held⟩
  · intro ticker ticker' orderId orderId' r held held'
    simp only [setOrder_eq] at held held'
    split at held
    · rename_i here
      cases held
      split at held'
      · rename_i here'
        exact ⟨here.1.trans here'.1.symm, here.2.trans here'.2.symm⟩
      · exact absurd ((holds.table _).mpr ⟨_, _, held'⟩) fresh
    · split at held'
      · cases held'
        exact absurd ((holds.table _).mpr ⟨_, _, held⟩) fresh
      · exact holds.apart held held'
  · intro ticker orderId r held
    simp only [setOrder_eq] at held
    split at held
    · rename_i here
      rw [here.2]
      exact adds.slot
    · exact holds.slot held
  · refine holds.stored_apply known announced ?_ ?_
    · intro ticker orderId other
      simp only [SnapshotSynthesizer.stored, setOrder_eq, if_neg other]
      cases held : s.tickerOrders ticker orderId with
      | none => rfl
      | some r =>
          have ne : r ≠ p := fun same => fresh (same ▸ (holds.table r).mpr ⟨_, _, held⟩)
          rw [Option.map_some, Option.map_some, get, if_neg ne]
    · intro v
      simp only [SnapshotSynthesizer.stored, setOrder_eq, and_self, if_true, Option.map_some, get]
      rw [Option.some.injEq, Quotes.apply_add isAdd adds.sided]
      constructor
      · rintro rfl
        refine ⟨side, Quote.of u, ?_, rfl, (Quote.announce_of isAdd adds.sided).symm⟩
        rw [Function.update_self, List.mem_orderedInsert]
        exact .inl rfl
      · rintro ⟨side', q, mem, named, rfl⟩
        rcases eq_or_ne side' side with rfl | other
        · rw [Function.update_self, List.mem_orderedInsert] at mem
          rcases mem with rfl | mem
          · exact (Quote.announce_of isAdd adds.sided).symm
          · exact absurd named (adds.fresh q ((mem_both _).mpr ⟨side', mem⟩))
        · rw [Function.update_of_ne other] at mem
          exact absurd named (adds.fresh q ((mem_both _).mpr ⟨side', mem⟩))

/-- The order of an id is the only one. -/
theorem eq_of_key (holds : s.Holds books live) {side' : BookSide} {q' : Quote}
    (mem : q ∈ books ticker side) (mem' : q' ∈ books ticker side') (same : q'.key = q.key) :
    q' = q ∧ side' = side := by
  have distinct := holds.distinct ticker
  have equal : q' = q := List.inj_on_of_nodup_map distinct ((mem_both _).mpr ⟨side', mem'⟩)
    ((mem_both _).mpr ⟨side, mem⟩) same
  subst equal
  refine ⟨rfl, ?_⟩
  obtain ⟨xs, ys, shape⟩ := List.append_of_mem mem
  rcases eq_or_ne side' side with rfl | ne
  · rfl
  · have opp := BookSide.eq_opposite_of_ne ne
    subst opp
    exact absurd rfl ((distinct.others shape).2 q' mem')

/-- A MODIFY writes the quantity into the block of its order. -/
theorem modify (holds : s.Holds books live) (known : u.tickerId < ME_MAX_TICKERS)
    (announced : (books u.tickerId).Announced basePrice u) (isModify : u.type = .MODIFY) :
    ∃ s' live', s.applyUpdate u = .ok s' ∧ s'.lastIncSeqNum = s.lastIncSeqNum ∧
      s'.Holds (books.apply u) live' := by
  obtain ⟨side, sided, q, mem, named, price⟩ := announced.carries (.inl isModify)
  obtain ⟨p, existing, held, pMem, get⟩ := holds.existing known mem named sided
  have kept : (both ((books u.tickerId).apply u)).length = (both (books u.tickerId)).length := by
    simp only [both, Quotes.apply, isModify, List.length_append, List.length_map]
  have counted := books.live_apply known
  refine ⟨{ s with
      orderPool := s.orderPool.modify p fun o => { o with qty := u.qty, price := u.price } },
    live, ?_, rfl, ?_, holds.size, ?_, holds.table, holds.apart, holds.slot, ?_,
    holds.distinct_apply announced⟩
  · simp only [SnapshotSynthesizer.applyUpdate, known, isModify, existing, bind, Except.bind, pure,
      Except.pure, if_true]
  · exact holds.pool.modify p fun o => { o with qty := u.qty, price := u.price }
  · rw [holds.count]
    omega
  · refine holds.stored_apply known announced ?_ ?_
    · intro ticker orderId other
      unfold SnapshotSynthesizer.stored
      cases there : s.tickerOrders ticker orderId with
      | none => rfl
      | some r =>
          have ne : r ≠ p := by
            rintro rfl
            obtain ⟨sameTicker, sameId⟩ := holds.apart there held
            exact other ⟨sameTicker, sameId.trans named⟩
          rw [Option.map_some, Option.map_some, MemPool.get_modify_of_ne _ _ ne]
    · intro v
      simp only [SnapshotSynthesizer.stored, ← named, held, Option.map_some,
        MemPool.get_modify_self, get, Option.some.injEq, Quotes.apply, isModify, List.mem_map]
      constructor
      · rintro rfl
        refine ⟨side, { q with qty := u.qty }, ⟨q, mem, if_pos rfl⟩, rfl, ?_⟩
        rw [Quote.announce, Quote.announce, ← price]
      · rintro ⟨side', q', ⟨x, xMem, isX⟩, key, rfl⟩
        have xKey : x.key = q.key := by
          rw [← key, ← isX]
          split
          · rfl
          · rfl
        obtain ⟨rfl, rfl⟩ := holds.eq_of_key mem xMem xKey
        rw [← isX, if_pos rfl, Quote.announce, Quote.announce, ← price]

/-- A CANCEL gives the block of its order back. -/
theorem cancel (holds : s.Holds books live) (known : u.tickerId < ME_MAX_TICKERS)
    (announced : (books u.tickerId).Announced basePrice u) (isCancel : u.type = .CANCEL) :
    ∃ s' live', s.applyUpdate u = .ok s' ∧ s'.lastIncSeqNum = s.lastIncSeqNum ∧
      s'.Holds (books.apply u) live' := by
  obtain ⟨side, sided, q, mem, named, price⟩ := announced.carries (.inr isCancel)
  obtain ⟨p, existing, held, pMem, -⟩ := holds.existing known mem named sided
  obtain ⟨pool, freed, holdsPool, size, get⟩ := holds.pool.deallocate pMem
  have shrunk : (both ((books u.tickerId).apply u)).length + 1 =
      (both (books u.tickerId)).length := by
    obtain ⟨xs, ys, shape⟩ := List.append_of_mem mem
    have taken : (books u.tickerId side).Perm (q :: (xs ++ ys)) := by
      rw [shape]
      exact List.perm_middle
    rw [Quotes.apply_cancel (holds.distinct _) isCancel shape named]
    exact (perm_both_shrunk taken).length_eq.symm
  have counted := books.live_apply known
  have erased := List.length_erase_of_mem pMem
  have nonempty := List.length_pos_of_mem pMem
  refine ⟨{ s with orderPool := pool, tickerOrders := s.setOrder u none }, live.erase p, ?_, rfl,
    holdsPool, size.trans holds.size, ?_, ?_, ?_, ?_, ?_, holds.distinct_apply announced⟩
  · simp only [SnapshotSynthesizer.applyUpdate, known, isCancel, existing, freed, bind,
      Except.bind, pure, Except.pure, if_true]
  · have count := holds.count
    omega
  · intro r
    rw [holds.pool.nodup.mem_erase_iff, holds.table]
    simp only [setOrder_eq]
    constructor
    · rintro ⟨ne, ticker, orderId, there⟩
      refine ⟨ticker, orderId, ?_⟩
      rw [if_neg, there]
      rintro ⟨rfl, rfl⟩
      rw [← named, held] at there
      cases there
      exact ne rfl
    · rintro ⟨ticker, orderId, there⟩
      split at there
      · cases there
      · rename_i other
        refine ⟨?_, ticker, orderId, there⟩
        rintro rfl
        obtain ⟨sameTicker, sameId⟩ := holds.apart there held
        exact other ⟨sameTicker, sameId.trans named⟩
  · intro ticker ticker' orderId orderId' r there there'
    simp only [setOrder_eq] at there there'
    split at there
    · cases there
    · split at there'
      · cases there'
      · exact holds.apart there there'
  · intro ticker orderId r there
    simp only [setOrder_eq] at there
    split at there
    · cases there
    · exact holds.slot there
  · refine holds.stored_apply known announced ?_ ?_
    · intro ticker orderId other
      simp only [SnapshotSynthesizer.stored, setOrder_eq, if_neg other]
      cases s.tickerOrders ticker orderId with
      | none => rfl
      | some r => rw [Option.map_some, Option.map_some, get]
    · intro v
      simp only [SnapshotSynthesizer.stored, setOrder_eq, and_self, if_true, Option.map_none,
        Quotes.apply, isCancel, List.mem_filter, decide_eq_true_eq]
      constructor
      · intro found
        cases found
      · rintro ⟨side', q', ⟨-, ne⟩, same, -⟩
        exact absurd same ne

/-- An announced update passes the assertions, and the table follows the books. -/
theorem applyUpdate (holds : s.Holds books live) (known : u.tickerId < ME_MAX_TICKERS)
    (announced : (books u.tickerId).Announced basePrice u)
    (room : u.type = .ADD → (books.apply u).live < ME_MAX_ORDER_IDS) :
    ∃ s' live', s.applyUpdate u = .ok s' ∧ s'.lastIncSeqNum = s.lastIncSeqNum ∧
      s'.Holds (books.apply u) live' := by
  rcases announced.kind with isAdd | isModify | isCancel | isTrade
  · obtain ⟨side, adds⟩ := announced.add isAdd
    exact holds.add known announced isAdd adds (room isAdd)
  · exact holds.modify known announced isModify
  · exact holds.cancel known announced isCancel
  · have same : books.apply u = books := by
      simp only [Books.apply, Quotes.apply, isTrade, Function.update_eq_self]
    rw [same]
    refine ⟨s, live, ?_, rfl, holds⟩
    simp only [SnapshotSynthesizer.applyUpdate, known, isTrade, if_true, pure, Except.pure]

end Step

/-! ## The cycle -/

theorem pairwise_filterMap_range {f : OrderId → Option MEMarketUpdate}
    (keyed : ∀ {orderId u}, f orderId = some u → u.orderId = orderId) (n : Nat) :
    ((List.range n).filterMap f).Pairwise fun u v => u.orderId < v.orderId := by
  refine List.pairwise_filterMap.mpr (List.pairwise_lt_range.imp ?_)
  intro a b lt u isA v isB
  rw [keyed isA, keyed isB]
  exact lt

theorem stored_key (holds : s.Holds books live) {ticker : TickerId} {orderId : OrderId}
    (stored : s.stored ticker orderId = some u) : u.orderId = orderId := by
  obtain ⟨-, side, q, -, rfl, rfl⟩ := (holds.stored _ _ _).mp stored
  rfl

theorem mem_cycle_orders (holds : s.Holds books live) (known : ticker < ME_MAX_TICKERS) :
    u ∈ s.cycle.orders ticker ↔ ∃ side, ∃ q ∈ books ticker side, u = q.announce ticker side := by
  simp only [SnapshotSynthesizer.cycle, List.mem_filterMap, List.mem_range]
  constructor
  · rintro ⟨orderId, -, stored⟩
    obtain ⟨-, side, q, mem, -, rfl⟩ := (holds.stored _ _ _).mp stored
    exact ⟨side, q, mem, rfl⟩
  · rintro ⟨side, q, mem, rfl⟩
    obtain ⟨p, held, -⟩ := holds.block known mem
    exact ⟨q.key, holds.slot held, (holds.stored _ _ _).mpr ⟨known, side, q, mem, rfl, rfl⟩⟩

theorem cycle_wellFormed (holds : s.Holds books live) : s.cycle.WellFormed := by
  constructor
  · intro ticker known u mem
    obtain ⟨side, q, -, rfl⟩ := (holds.mem_cycle_orders known).mp mem
    rfl
  · intro ticker known u mem
    obtain ⟨side, q, -, rfl⟩ := (holds.mem_cycle_orders known).mp mem
    rfl

/-- A cycle reads back the books: it sends the orders by their ids, and within a price that
is their order in time. -/
theorem replay_cycle (holds : s.Holds books live) (known : ticker < ME_MAX_TICKERS)
    (ordered : (books ticker).Ordered) :
    Quotes.replay (s.cycle.orders ticker) = books ticker := by
  have add : ∀ u ∈ s.cycle.orders ticker,
      u.type = .ADD ∧ ∃ side, u.side = BookSide.toSide side := by
    intro u mem
    obtain ⟨side, q, -, rfl⟩ := (holds.mem_cycle_orders known).mp mem
    exact ⟨rfl, side, rfl⟩
  have rising : (s.cycle.orders ticker).Pairwise fun u v => u.orderId < v.orderId := by
    simp only [SnapshotSynthesizer.cycle]
    exact pairwise_filterMap_range holds.stored_key _
  obtain ⟨ordered', listed⟩ := Quotes.replay_adds add rising
  refine ordered'.eq ordered fun side q => ?_
  rw [listed]
  constructor
  · rintro ⟨u, mem, sided, rfl⟩
    obtain ⟨side', q, qMem, rfl⟩ := (holds.mem_cycle_orders known).mp mem
    rw [BookSide.toSide_inj.mp sided] at qMem
    exact qMem
  · intro mem
    exact ⟨_, (holds.mem_cycle_orders known).mpr ⟨side, q, mem, rfl⟩, rfl,
      (Quote.of_announce ticker side q).symm⟩

end SnapshotSynthesizer.Holds

end NanoTrade
