import NanoTrade.Trading.TableIndices

/-!
# The id table of a client's book

`occupied` says, of a stream of updates, whether an id is live: added, and neither cancelled nor
cleared since. `run_tracks`: whatever the stream and whatever the levels have become, the id table
of a book that took it leads to an order exactly for the live ids, and to an order of that id.
-/

namespace NanoTrade

/-- What an update leaves of an id. -/
def occupiedBy (orderId : OrderId) (live : Bool) (u : MEMarketUpdate) : Bool :=
  match u.type with
  | .ADD => live || u.orderId == orderId
  | .CANCEL => live && u.orderId != orderId
  | .CLEAR => false
  | _ => live

/-- An update that removes nothing, and adds nothing new, leaves an id as it is. -/
theorem occupiedBy_eq_self {orderId : OrderId} {live : Bool} {u : MEMarketUpdate}
    (add : u.type = .ADD → u.orderId = orderId → live = true) (cancel : u.type ≠ .CANCEL)
    (clear : u.type ≠ .CLEAR) : occupiedBy orderId live u = live := by
  unfold occupiedBy
  split
  · rename_i isAdd
    rcases eq_or_ne u.orderId orderId with same | other
    · rw [add isAdd same]
      rfl
    · rw [beq_eq_false_iff_ne.mpr other, Bool.or_false]
  · rename_i isCancel
    exact absurd isCancel cancel
  · rename_i isClear
    exact absurd isClear clear
  · rfl

/-- The id is live behind a stream. -/
def occupied (us : List MEMarketUpdate) (orderId : OrderId) : Bool :=
  us.foldl (occupiedBy orderId) false

namespace MarketOrderBook

/-- The id table leads to orders in use, each of the id that leads to it, and to one exactly for
the ids that are live. -/
structure Tracks (s : LevelBook OrderId OrderId) (live : OrderId → Bool) : Prop where
  order : ∀ id p, s.oidToOrder id = some p →
    (s.order p).key = id ∧ (s.orderPool.store p).isFree = false
  live : ∀ id, s.oidToOrder id ≠ none ↔ live id = true

variable {s t : LevelBook OrderId OrderId} {u : MEMarketUpdate} {live : OrderId → Bool}

/-- Nothing is asked of the pointers. -/
theorem leads_anywhere (s : LevelBook OrderId OrderId) : LevelBook.Leads (fun _ => True) s :=
  ⟨fun _ _ _ => trivial, fun _ _ _ => trivial, fun _ _ _ => trivial, fun _ _ _ => trivial⟩

theorem marketSlot_ok {orderId slot : OrderId} (known : marketSlot orderId = .ok slot) :
    slot = orderId := by
  unfold marketSlot at known
  split at known
  · cases known
    rfl
  · cases known

/-- An ADD enters its order, whatever was there. -/
theorem Tracks.addQuote (tracks : Tracks s live) (isAdd : u.type = .ADD)
    (added : addQuote s u = .ok t) : Tracks t fun id => occupiedBy id (live id) u := by
  unfold MarketOrderBook.addQuote at added
  obtain ⟨⟨order, pool⟩, allocated, linked⟩ := bind_eq_ok.mp added
  dsimp only at linked
  obtain ⟨free, inUse⟩ := MemPool.allocate_isFree allocated
  obtain ⟨-, placed⟩ := (LevelBook.ends_allocate _ _).of_ok allocated
  dsimp only at placed
  obtain ⟨follows, slot, known, table, isFree⟩ :=
    (LevelBook.ends_addOrder marketLayout (leads_anywhere _) trivial).of_ok linked
  have own : slot = u.orderId := by
    have named := marketSlot_ok known
    rw [named]
    show (pool.get order).key = _
    rw [placed, if_pos rfl]
  subst own
  have key : ∀ p, (t.order p).key = (pool.get p).key := follows.key
  have entries : t.oidToOrder = Function.update s.oidToOrder u.orderId (some order) := table
  have used : ∀ p, (t.orderPool.store p).isFree = (pool.store p).isFree := isFree
  constructor
  · intro id p entry
    rw [entries] at entry
    rw [key, used, placed, inUse]
    rcases enter_eq_some.mp entry with ⟨rfl, rfl⟩ | ⟨-, entry⟩
    · rw [if_pos rfl, if_pos rfl]
      exact ⟨rfl, rfl⟩
    · obtain ⟨named, busy⟩ := tracks.order id p entry
      have apart : p ≠ order := by
        rintro rfl
        rw [free] at busy
        cases busy
      rw [if_neg apart, if_neg apart]
      exact ⟨named, busy⟩
  · intro id
    rw [entries]
    simp only [occupiedBy, isAdd, Bool.or_eq_true, beq_iff_eq]
    rcases eq_or_ne id u.orderId with rfl | other
    · rw [Function.update_self]
      exact ⟨fun _ => .inr rfl, fun _ entered => by cases entered⟩
    · rw [Function.update_of_ne other, tracks.live]
      exact ⟨.inl, fun h => h.resolve_right other.symm⟩

/-- What is looked up is the order of the id. -/
theorem Tracks.lookup (tracks : Tracks s live) {orderId : OrderId} {order : Ptr}
    (found : lookup s orderId = .ok order) :
    s.oidToOrder orderId = some order ∧ (s.order order).key = orderId := by
  unfold MarketOrderBook.lookup at found
  obtain ⟨slot, known, found⟩ := bind_eq_ok.mp found
  rw [marketSlot_ok known] at found
  cases entry : s.oidToOrder orderId with
  | none =>
      rw [entry] at found
      cases found
  | some p =>
      rw [entry] at found
      cases found
      exact ⟨rfl, (tracks.order orderId _ entry).1⟩

/-- A MODIFY keeps the table. -/
theorem Tracks.modifyQuote (tracks : Tracks s live) (isModify : u.type = .MODIFY)
    (modified : modifyQuote s u = .ok t) : Tracks t fun id => occupiedBy id (live id) u := by
  unfold MarketOrderBook.modifyQuote at modified
  obtain ⟨order, -, modified⟩ := bind_eq_ok.mp modified
  cases modified
  have moved : LevelBook.Moved (fun _ => True) s
      (s.writeOrder order fun n => { n with qty := u.qty }) :=
    (leads_anywhere s).writeOrder order (fun _ => rfl) (fun _ _ => trivial) fun _ _ => trivial
  constructor
  · intro id p entry
    rw [moved.table] at entry
    rw [moved.key, moved.isFree]
    exact tracks.order id p entry
  · intro id
    simp only [occupiedBy, isModify]
    exact tracks.live id

/-- A CANCEL takes its order out. -/
theorem Tracks.cancelQuote (tracks : Tracks s live) (isCancel : u.type = .CANCEL)
    (cancelled : cancelQuote s u = .ok t) : Tracks t fun id => occupiedBy id (live id) u := by
  unfold MarketOrderBook.cancelQuote at cancelled
  obtain ⟨order, found, removed⟩ := bind_eq_ok.mp cancelled
  obtain ⟨-, named⟩ := tracks.lookup found
  have small : u.orderId < ME_MAX_ORDER_IDS := by
    unfold MarketOrderBook.lookup at found
    obtain ⟨slot, known, -⟩ := bind_eq_ok.mp found
    unfold marketSlot at known
    by_contra large
    rw [if_neg large] at known
    cases known
  have known : marketLayout.slot (s.order order).key = .ok u.orderId := by
    rw [named]
    exact if_pos small
  obtain ⟨follows, table, isFree⟩ :=
    (LevelBook.ends_removeOrder marketLayout (leads_anywhere s) known).of_ok removed
  constructor
  · intro id p entry
    rw [table] at entry
    obtain ⟨other, entry⟩ := erase_eq_some.mp entry
    obtain ⟨key, busy⟩ := tracks.order id p entry
    have apart : p ≠ order := by
      rintro rfl
      exact other (key.symm.trans named)
    rw [follows.key, isFree, if_neg apart]
    exact ⟨key, busy⟩
  · intro id
    rw [table]
    simp only [occupiedBy, isCancel, Bool.and_eq_true, bne_iff_ne, ne_eq]
    rcases eq_or_ne id u.orderId with rfl | other
    · rw [Function.update_self]
      exact ⟨fun entered => absurd rfl entered, fun h => absurd rfl h.2⟩
    · rw [Function.update_of_ne other]
      exact ⟨fun entered => ⟨(tracks.live id).mp entered, other.symm⟩,
        fun h => (tracks.live id).mpr h.1⟩

/-- A CLEAR empties the table. -/
theorem Tracks.clear (isClear : u.type = .CLEAR)
    {cleared : Except Fault (LevelBook OrderId OrderId)} (run : clear s = cleared)
    (returned : cleared = .ok t) : Tracks t fun id => occupiedBy id (live id) u := by
  have empty : t.oidToOrder = fun _ => none := by
    subst returned
    unfold MarketOrderBook.clear at run
    obtain ⟨orders, -, run⟩ := bind_eq_ok.mp run
    obtain ⟨bids, -, run⟩ := bind_eq_ok.mp run
    obtain ⟨asks, -, run⟩ := bind_eq_ok.mp run
    cases run
    rfl
  constructor
  · intro id p entry
    rw [empty] at entry
    cases entry
  · intro id
    rw [empty]
    simp only [occupiedBy, isClear, ne_eq, not_true_eq_false, Bool.false_eq_true]

/-- An update that changes no order. -/
theorem Tracks.quiet (tracks : Tracks s live) (add : u.type ≠ .ADD) (cancel : u.type ≠ .CANCEL)
    (clear : u.type ≠ .CLEAR) : Tracks s fun id => occupiedBy id (live id) u := by
  have same : (fun id => occupiedBy id (live id) u) = live := by
    funext id
    exact occupiedBy_eq_self (fun isAdd => absurd isAdd add) cancel clear
  rw [same]
  exact tracks

/-- One update. -/
theorem Tracks.onMarketUpdate {s t : MarketOrderBook} (tracks : Tracks s.toLevelBook live)
    {out : List BookNotice} (updated : s.onMarketUpdate u = .ok (t, out)) :
    Tracks t.toLevelBook fun id => occupiedBy id (live id) u := by
  unfold MarketOrderBook.onMarketUpdate at updated
  simp only at updated
  split at updated
  · rename_i isTrade
    cases updated
    exact tracks.quiet (by rw [isTrade]; decide) (by rw [isTrade]; decide)
      (by rw [isTrade]; decide)
  · obtain ⟨book, applied, updated⟩ := bind_eq_ok.mp updated
    obtain ⟨t', refreshed, updated⟩ := bind_eq_ok.mp updated
    cases updated
    have same : t.toLevelBook = book := (ends_updateBBO _ _ _).of_ok refreshed
    rw [same]
    unfold applyUpdate at applied
    cases kind : u.type with
    | ADD =>
        simp only [kind] at applied
        exact tracks.addQuote kind applied
    | MODIFY =>
        simp only [kind] at applied
        exact tracks.modifyQuote kind applied
    | CANCEL =>
        simp only [kind] at applied
        exact tracks.cancelQuote kind applied
    | CLEAR =>
        simp only [kind] at applied
        exact Tracks.clear kind rfl applied
    | TRADE | INVALID | SNAPSHOT_START | SNAPSHOT_END =>
        simp only [kind] at applied
        cases applied
        exact tracks.quiet (by rw [kind]; decide) (by rw [kind]; decide)
          (by rw [kind]; decide)

theorem Tracks.new (basePrice : Price) :
    Tracks (MarketOrderBook.new basePrice).toLevelBook fun _ => false where
  order id p entry := by cases entry
  live id := ⟨fun entered => absurd rfl entered, fun impossible => by cases impossible⟩

/-- A book that took a stream has an order in its id table exactly for the live ids. -/
theorem run_tracks {basePrice : Price} {us : List MEMarketUpdate} {s : MarketOrderBook}
    {out : List BookNotice}
    (ran : run MarketOrderBook.onMarketUpdate (MarketOrderBook.new basePrice) us = .ok (s, out)) :
    Tracks s.toLevelBook (occupied us) := by
  refine run_invariant (P := fun s us _ => Tracks s.toLevelBook (occupied us))
    (Tracks.new basePrice) (fun {t us out i u now} tracks _ updated => ?_) ran
  have same : occupied (us ++ [i]) = fun id => occupiedBy id (occupied us id) i := by
    funext id
    rw [occupied, List.foldl_concat]
    rfl
  rw [same]
  exact tracks.onMarketUpdate updated

end MarketOrderBook

end NanoTrade
