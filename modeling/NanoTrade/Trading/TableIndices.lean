import NanoTrade.Exchange.Ledger
import NanoTrade.Exchange.SnapshotSynthesizer
import NanoTrade.Trading.MarketOrderBook

/-!
# Subscripts of the order tables

Three tables have `ME_MAX_ORDER_IDS` places for a ticker: that of the exchange's book for a
client, the synthesizer's, and that of a client's book. The ids in them are those of the
messages that were taken so far (`HasIds`), so each component subscripts its table in range as
long as the next message has ids with a place.
-/

namespace NanoTrade

/-- Where an update is looked up or entered, its ids have a place. -/
structure MEMarketUpdate.InTables (u : MEMarketUpdate) : Prop where
  ticker : u.tickerId < ME_MAX_TICKERS
  order : u.type = .ADD ∨ u.type = .MODIFY ∨ u.type = .CANCEL → u.orderId < ME_MAX_ORDER_IDS

def MEMessage.tickerId : MEMessage → TickerId
  | .response r => r.tickerId
  | .update u => u.tickerId

/-! ## The exchange's book -/

namespace MEOrderBook

variable {s t : LevelBook MEOrderKey MESlot} {a : Aggressor} {left : Qty} {out : List MEMessage}

theorem matchOrder_tickerId {itr : Ptr} {leavesQty : Qty}
    (filled : matchOrder s a itr leavesQty = .ok (t, left, out)) :
    ∀ m ∈ out, m.tickerId = a.tickerId := by
  obtain ⟨order, fillQty, update, rfl, isUpdate⟩ := matchOrder_eq_ok filled
  intro m mem
  simp only [fillMessages, List.cons_append, List.nil_append, List.mem_cons, List.not_mem_nil,
    or_false] at mem
  rcases mem with rfl | rfl | rfl | rfl
  · rfl
  · rfl
  · rfl
  · rcases isUpdate with rfl | rfl
    · rfl
    · rfl

theorem matchLoop_tickerId {passive : Side} {stops : Price → Bool} {fuel : Nat} {leavesQty : Qty}
    (returned : matchLoop a passive stops fuel s leavesQty = .ok (t, left, out)) :
    ∀ m ∈ out, m.tickerId = a.tickerId := by
  have noMessage : ∀ m ∈ ([] : List MEMessage), m.tickerId = a.tickerId :=
    fun _ mem => absurd mem List.not_mem_nil
  induction fuel generalizing s leavesQty out with
  | zero => cases returned
  | succ fuel ih =>
      rcases matchLoop_eq_ok returned with rfl | ⟨itr, u, leaves, now, later, filled, looped, rfl⟩
      · exact noMessage
      · intro m mem
        rcases List.mem_append.mp mem with first | after
        · exact matchOrder_tickerId filled m first
        · exact ih looped m after

/-- All messages of a request are for its ticker. -/
theorem processClientRequest_tickerId {s t : MEOrderBook} {r : MEClientRequest}
    (processed : s.processClientRequest r = .ok (t, out)) : ∀ m ∈ out, m.tickerId = r.tickerId := by
  unfold processClientRequest at processed
  cases kind : r.type with
  | NEW =>
      simp only [kind] at processed
      obtain ⟨book, leavesQty, matched, added, swept, rests, rfl⟩ := add_eq_ok processed
      have fills : ∀ m ∈ matched, m.tickerId = r.tickerId := by
        unfold checkForMatch at swept
        simp only at swept
        split at swept
        · exact matchLoop_tickerId swept
        · exact matchLoop_tickerId swept
        · cases swept
          exact fun _ mem => absurd mem List.not_mem_nil
      intro m mem
      rcases List.mem_append.mp mem with before | last
      · rcases List.mem_cons.mp before with rfl | later
        · rfl
        · exact fills m later
      · rcases rests with rfl | ⟨priority, rfl⟩
        · exact absurd last List.not_mem_nil
        · rw [List.mem_singleton.mp last]
          rfl
  | CANCEL =>
      simp only [kind] at processed
      obtain ⟨-, rfl | ⟨order, rfl⟩⟩ := cancel_eq_ok processed
      · intro m mem
        rw [List.mem_singleton.mp mem]
        rfl
      · intro m mem
        simp only [canceledMessages, List.mem_cons, List.not_mem_nil, or_false] at mem
        rcases mem with rfl | rfl
        · rfl
        · rfl
  | INVALID =>
      simp only [kind] at processed
      cases processed

end MEOrderBook

/-! ## The snapshot synthesizer -/

namespace SnapshotSynthesizer

/-- The table leads to messages whose ids have a place. -/
def HasIds (s : SnapshotSynthesizer) : Prop :=
  ∀ ticker orderId p, s.tickerOrders ticker orderId = some p →
    (s.orderPool.get p).tickerId < ME_MAX_TICKERS ∧ (s.orderPool.get p).orderId < ME_MAX_ORDER_IDS

variable {s : SnapshotSynthesizer} {u : MEMarketUpdate}

theorem HasIds.new : HasIds new :=
  fun _ _ _ entry => nomatch entry

theorem ends_orderAt (order : u.orderId < ME_MAX_ORDER_IDS) :
    Ends Fault.Elsewhere (s.orderAt u) fun entry =>
      entry = s.tickerOrders u.tickerId u.orderId := by
  unfold orderAt
  rw [if_pos order]
  exact Ends.ok rfl

theorem ends_existing (order : u.orderId < ME_MAX_ORDER_IDS) :
    Ends Fault.Elsewhere (s.existing u) fun _ => True := by
  unfold existing
  refine (ends_orderAt order).bind fun entry _ => ?_
  cases entry with
  | none => exact Ends.error fun i => nofun
  | some p =>
      simp only
      split
      · exact Ends.error fun i => nofun
      · split
        · exact Ends.error fun i => nofun
        · exact Ends.ok trivial

theorem setOrder_some {entry : Option Ptr} {ticker : TickerId} {orderId : OrderId} {p : Ptr}
    (found : s.setOrder u entry ticker orderId = some p) :
    entry = some p ∨ s.tickerOrders ticker orderId = some p := by
  unfold setOrder at found
  rcases eq_or_ne ticker u.tickerId with rfl | apart
  · rw [Function.update_self] at found
    rcases eq_or_ne orderId u.orderId with rfl | other
    · rw [Function.update_self] at found
      exact .inl found
    · rw [Function.update_of_ne other] at found
      exact .inr found
  · rw [Function.update_of_ne apart] at found
    exact .inr found

/-- An update for the synthesizer. -/
theorem HasIds.ends_applyUpdate (ids : s.HasIds) (inTables : u.InTables) :
    Ends Fault.Elsewhere (s.applyUpdate u) HasIds := by
  unfold applyUpdate
  rw [if_pos inTables.ticker]
  cases kind : u.type with
  | ADD =>
      have order := inTables.order (.inl kind)
      refine (ends_orderAt order).bind fun entry _ => ?_
      cases entry with
      | some p => exact Ends.error fun i => nofun
      | none =>
          refine (LevelBook.ends_allocate s.orderPool u).bind fun result placed => Ends.pure ?_
          intro ticker orderId p found
          show (result.2.get p).tickerId < _ ∧ (result.2.get p).orderId < _
          rw [placed.2]
          split
          · exact ⟨inTables.ticker, order⟩
          · rename_i other
            rcases setOrder_some found with new | old
            · cases new
              exact absurd rfl other
            · exact ids ticker orderId p old
  | MODIFY =>
      have order := inTables.order (.inr (.inl kind))
      refine (ends_existing order).bind fun order _ => Ends.pure ?_
      intro ticker orderId p found
      have before := ids ticker orderId p found
      simp only [MemPool.get_modify]
      split
      · rename_i same
        rw [← same]
        exact before
      · exact before
  | CANCEL =>
      have order := inTables.order (.inr (.inr kind))
      refine (ends_existing order).bind fun order _ => ?_
      refine (LevelBook.ends_deallocate s.orderPool order).bind fun pool same => Ends.pure ?_
      intro ticker orderId p found
      show (pool.get p).tickerId < _ ∧ (pool.get p).orderId < _
      rw [same]
      rcases setOrder_some found with new | old
      · cases new
      · exact ids ticker orderId p old
  | CLEAR => exact Ends.ok ids
  | TRADE => exact Ends.ok ids
  | INVALID => exact Ends.ok ids
  | SNAPSHOT_START => exact Ends.ok ids
  | SNAPSHOT_END => exact Ends.ok ids

theorem HasIds.ends_addToSnapshot {m : MDPMarketUpdate} (ids : s.HasIds)
    (inTables : m.meMarketUpdate.InTables) :
    Ends Fault.Elsewhere (s.addToSnapshot m) fun result => result.1.HasIds := by
  unfold addToSnapshot
  refine (ids.ends_applyUpdate inTables).bind fun t ids' => ?_
  split
  · exact Ends.pure ids'
  · exact Ends.error fun i => nofun

end SnapshotSynthesizer

/-! ## The book of a client -/

namespace MarketOrderBook

/-- Every pointer to an order leads to one whose id has a place. -/
def HasIds (s : LevelBook OrderId OrderId) : Prop :=
  LevelBook.Leads (fun p => (s.order p).key < ME_MAX_ORDER_IDS) s

variable {s t : LevelBook OrderId OrderId} {u : MEMarketUpdate}

theorem hasIds_of_follows
    (follows : LevelBook.Follows (fun p => (s.order p).key < ME_MAX_ORDER_IDS) s t) : HasIds t := by
  refine follows.leads.mono fun p has => ?_
  rw [follows.key]
  exact has

theorem ends_addQuote (ids : HasIds s) (order : u.orderId < ME_MAX_ORDER_IDS) :
    Ends Fault.Elsewhere (addQuote s u) HasIds := by
  unfold addQuote
  refine (LevelBook.ends_allocate s.orderPool _).bind fun result placed => ?_
  obtain ⟨place, pool⟩ := result
  obtain ⟨-, placed⟩ := placed
  have key : (LevelBook.order { s with orderPool := pool } place).key = u.orderId := by
    show (pool.get place).key = u.orderId
    rw [placed, if_pos rfl]
  have entered : HasIds { s with orderPool := pool } := by
    refine ids.allocate (fun p has => ?_) rfl rfl placed
    show (pool.get p).key < ME_MAX_ORDER_IDS
    rw [placed]
    split
    · exact order
    · exact has
  have own : (LevelBook.order { s with orderPool := pool } place).key < ME_MAX_ORDER_IDS := by
    rw [key]
    exact order
  have added := LevelBook.ends_addOrder marketLayout entered own
  refine (added.imp fun t holds => hasIds_of_follows holds.1).weaken fun f fault => ?_
  rcases fault with elsewhere | unslotted
  · exact elsewhere
  · refine absurd ?_ (unslotted u.orderId)
    rw [key]
    exact if_pos order

theorem ends_lookup (ids : HasIds s) (order : u.orderId < ME_MAX_ORDER_IDS) :
    Ends Fault.Elsewhere (lookup s u.orderId) fun p => (s.order p).key < ME_MAX_ORDER_IDS := by
  unfold lookup marketSlot
  rw [if_pos order]
  exact LevelBook.ends_deref fun p found => ids.table _ p found

theorem ends_modifyQuote (ids : HasIds s) (order : u.orderId < ME_MAX_ORDER_IDS) :
    Ends Fault.Elsewhere (modifyQuote s u) HasIds := by
  unfold modifyQuote
  refine (ends_lookup ids order).bind fun p _ => Ends.pure ?_
  have written : LevelBook.Moved _ s (s.writeOrder p fun n => { n with qty := u.qty }) :=
    ids.writeOrder p (fun _ => rfl) (ids.prev p) (ids.next p)
  exact hasIds_of_follows written.toFollows

theorem ends_cancelQuote (ids : HasIds s) (order : u.orderId < ME_MAX_ORDER_IDS) :
    Ends Fault.Elsewhere (cancelQuote s u) HasIds := by
  unfold cancelQuote
  refine (ends_lookup ids order).bind fun p has => ?_
  have known : marketLayout.slot (s.order p).key = .ok (s.order p).key := if_pos has
  exact (LevelBook.ends_removeOrder marketLayout ids known).imp fun t removed =>
    hasIds_of_follows removed.1

/-! ### CLEAR gives blocks back and writes none

Its loop runs over all ids, so the result has a name of its own here: nothing may unfold it. -/

theorem ends_clearOrders {cleared : Except Fault (MemPool (Order OrderId))}
    (run : clearOrders s = cleared) :
    Ends Fault.Elsewhere cleared fun pool => ∀ q, pool.get q = s.order q := by
  unfold clearOrders at run
  have all : ∀ (ids : List OrderId) (pool : MemPool (Order OrderId)),
      Ends Fault.Elsewhere (ids.foldlM (fun pool id => clearEntry pool (s.oidToOrder id)) pool)
        fun pool' => ∀ q, pool'.get q = pool.get q := by
    intro ids
    induction ids with
    | nil => exact fun pool => Ends.pure fun q => rfl
    | cons id ids ih =>
        intro pool
        rw [List.foldlM_cons]
        have entry : Ends Fault.Elsewhere (clearEntry pool (s.oidToOrder id)) fun pool' =>
            ∀ q, pool'.get q = pool.get q := by
          cases s.oidToOrder id with
          | none => exact Ends.ok fun q => rfl
          | some order => exact LevelBook.ends_deallocate pool order
        refine entry.bind fun pool' same => (ih pool').imp fun pool'' same' q => ?_
        rw [same' q, same q]
  rw [← run]
  exact all _ _

theorem ends_clearLevels (best : Ptr) (fuel : Nat) (level : Option Ptr)
    (pool : MemPool OrdersAtPrice) :
    Ends Fault.Elsewhere (clearLevels best fuel level pool) fun pool' =>
      ∀ q, pool'.get q = pool.get q := by
  induction fuel generalizing level pool with
  | zero => exact Ends.error fun i => nofun
  | succ fuel ih =>
      unfold clearLevels
      split
      · exact LevelBook.ends_deallocate pool best
      · cases level with
        | none => exact Ends.error fun i => nofun
        | some level =>
            refine (LevelBook.ends_deallocate pool level).bind fun pool' same => ?_
            refine (ih _ pool').imp fun pool'' same' q => ?_
            rw [same' q, same q]

theorem ends_clearSide (best : Option Ptr) (pool : MemPool OrdersAtPrice) :
    Ends Fault.Elsewhere (clearSide best pool) fun pool' => ∀ q, pool'.get q = pool.get q := by
  cases best with
  | none => exact Ends.ok fun q => rfl
  | some best => exact ends_clearLevels best _ _ pool

theorem ends_clear (ids : HasIds s) {cleared : Except Fault (LevelBook OrderId OrderId)}
    (run : clear s = cleared) : Ends Fault.Elsewhere cleared HasIds := by
  unfold clear at run
  rw [← run]
  generalize orders : clearOrders s = clearedOrders
  refine (ends_clearOrders orders).bind fun orders same => ?_
  refine (ends_clearSide s.bidsByPrice s.ordersAtPricePool).bind fun bids sameBids => ?_
  refine (ends_clearSide s.asksByPrice bids).bind fun asks sameAsks => Ends.pure ?_
  have levels : ∀ l, asks.get l = s.level l := fun l => (sameAsks l).trans (sameBids l)
  refine ⟨fun l p pointer => ?_, fun q p pointer => ?_, fun q p pointer => ?_,
    fun _ _ pointer => nomatch pointer⟩
  · show (orders.get p).key < ME_MAX_ORDER_IDS
    rw [same]
    exact ids.first l p ((congrArg OrdersAtPrice.firstOrder (levels l)).symm.trans pointer)
  · show (orders.get p).key < ME_MAX_ORDER_IDS
    rw [same]
    exact ids.prev q p ((congrArg Order.prevOrder (same q)).symm.trans pointer)
  · show (orders.get p).key < ME_MAX_ORDER_IDS
    rw [same]
    exact ids.next q p ((congrArg Order.nextOrder (same q)).symm.trans pointer)

/-! ### The best prices -/

theorem ends_sumQtys (first : Ptr) (fuel : Nat) (order : Option Ptr) (qty : Qty) :
    Ends Fault.Elsewhere (sumQtys s first fuel order qty) fun _ => True := by
  induction fuel generalizing order qty with
  | zero => exact Ends.error fun i => nofun
  | succ fuel ih =>
      unfold sumQtys
      split
      · exact Ends.ok trivial
      · exact (LevelBook.ends_deref fun _ _ => trivial).bind fun order _ => ih _ _

theorem ends_topOfSide (side : Side) : Ends Fault.Elsewhere (topOfSide s side) fun _ => True := by
  unfold topOfSide
  split
  · exact Ends.ok trivial
  · refine (LevelBook.ends_deref fun _ _ => trivial).bind fun first _ => ?_
    exact (ends_sumQtys _ _ _ _).bind fun qty _ => Ends.pure trivial

theorem ends_updateBBO (s : MarketOrderBook) (updateBid updateAsk : Bool) :
    Ends Fault.Elsewhere (s.updateBBO updateBid updateAsk) fun t =>
      t.toLevelBook = s.toLevelBook := by
  unfold updateBBO
  cases updateBid with
  | false =>
      cases updateAsk with
      | false => exact Ends.ok rfl
      | true => exact (ends_topOfSide .SELL).bind fun _ _ => Ends.pure rfl
  | true =>
      refine (ends_topOfSide .BUY).bind fun top _ => ?_
      cases updateAsk with
      | false => exact Ends.ok rfl
      | true => exact (ends_topOfSide .SELL).bind fun _ _ => Ends.pure rfl

/-- An update for the book of a client. -/
theorem ends_onMarketUpdate {s : MarketOrderBook} (ids : HasIds s.toLevelBook)
    (inTables : u.InTables) :
    Ends Fault.Elsewhere (s.onMarketUpdate u) fun result => HasIds result.1.toLevelBook := by
  unfold onMarketUpdate
  simp only
  split
  · exact Ends.ok ids
  · have applied : Ends Fault.Elsewhere (applyUpdate s.toLevelBook u) HasIds := by
      unfold applyUpdate
      cases kind : u.type with
      | ADD => exact ends_addQuote ids (inTables.order (.inl kind))
      | MODIFY => exact ends_modifyQuote ids (inTables.order (.inr (.inl kind)))
      | CANCEL => exact ends_cancelQuote ids (inTables.order (.inr (.inr kind)))
      | CLEAR =>
          generalize cleared : clear s.toLevelBook = result
          exact ends_clear ids cleared
      | TRADE => exact Ends.ok ids
      | INVALID => exact Ends.ok ids
      | SNAPSHOT_START => exact Ends.ok ids
      | SNAPSHOT_END => exact Ends.ok ids
    refine applied.bind fun book ids' => ?_
    refine (ends_updateBBO _ _ _).bind fun t same => Ends.pure ?_
    rw [same]
    exact ids'

end MarketOrderBook

end NanoTrade
