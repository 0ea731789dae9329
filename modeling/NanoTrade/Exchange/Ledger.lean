import NanoTrade.Exchange.MEOrderBook
import NanoTrade.LevelBook.Pointers

/-!
# Which order a message is about

The NEWs of a run number its orders. A `Ledger` runs a book and keeps, for every block of the
order pool, the number of the order that was put there last; each message goes with the number
of the order that it is about: that of the request, or that of the block which the book reads.
Market order ids play no part in it.

`Ledger.process_book` says that the book of a ledger is the book of the exchange, and
`Ledger.ends_process` what holds of its blocks and messages, for any requests at all.
-/

namespace NanoTrade

/-- A message, with the number of its order. -/
abbrev Attributed := Option Nat × MEMessage

/-- The market order id that a message carries. -/
def MEMessage.marketOrderId : MEMessage → OrderId
  | .response r => r.marketOrderId
  | .update u => u.orderId

/-- A trade, or the rejection of a CANCEL: no order is named. -/
def MEMessage.NamesNone : MEMessage → Prop
  | .response r => r.type = .CANCEL_REJECTED
  | .update u => u.type = .TRADE

namespace MEOrderBook

/-- The messages of a fill of order `number` against order `passive`: a response each, the
trade, and the update on the passive order. -/
def attributeFill (number passive : Nat) (messages : List MEMessage) : List Attributed :=
  [some number, some passive, none, some passive].zip messages

/-- `matchLoop`. -/
def attributedLoop (owner : Ptr → Nat) (number : Nat) (a : Aggressor) (passive : Side)
    (stops : Price → Bool) : Nat → LevelBook MEOrderKey MESlot → Qty →
      Except Fault (LevelBook MEOrderKey MESlot × Qty × List Attributed)
  | 0, _, _ => .error .diverges
  | fuel + 1, s, leavesQty =>
    if leavesQty = 0 then .ok (s, leavesQty, [])
    else match s.best passive with
      | none => .ok (s, leavesQty, [])
      | some best => do
        let itr ← deref (s.level best).firstOrder
        if stops (s.order itr).price then pure (s, leavesQty, [])
        else
          let (s, leavesQty, messages) ← matchOrder s a itr leavesQty
          let (s, leavesQty, rest) ← attributedLoop owner number a passive stops fuel s leavesQty
          pure (s, leavesQty, attributeFill number (owner itr) messages ++ rest)

/-- `checkForMatch`. -/
def attributedMatch (owner : Ptr → Nat) (number : Nat) (s : LevelBook MEOrderKey MESlot)
    (r : MEClientRequest) (newMarketOrderId : OrderId) :
    Except Fault (LevelBook MEOrderKey MESlot × Qty × List Attributed) :=
  let a : Aggressor :=
    { tickerId := r.tickerId, clientId := r.clientId, side := r.side, clientOrderId := r.orderId,
      newMarketOrderId := newMarketOrderId % 2 ^ 32, price := r.price }
  let fuel := s.orderPool.size + 1
  match r.side with
  | .BUY =>
    attributedLoop owner number a .SELL (fun resting => decide (r.price < resting)) fuel s r.qty
  | .SELL =>
    attributedLoop owner number a .BUY (fun resting => decide (r.price > resting)) fuel s r.qty
  | _ => pure (s, r.qty, [])

end MEOrderBook

open MEOrderBook

/-- A book, the number of the order in each block of its pool, and how many orders were
placed. -/
structure Ledger where
  book : MEOrderBook
  owner : Ptr → Nat
  placed : Nat

namespace Ledger

def new (basePrice : Price) : Ledger :=
  { book := .new basePrice, owner := fun _ => 0, placed := 0 }

/-- `add`. A remainder goes to the block that the pool has searched ahead. -/
def add (l : Ledger) (r : MEClientRequest) : Except Fault (Ledger × List Attributed) := do
  let newMarketOrderId := l.book.nextMarketOrderId
  let nextMarketOrderId := (newMarketOrderId + 1) % 2 ^ 64
  let accepted := acceptedResponse r.clientId r.orderId r.tickerId r.side r.price r.qty
    newMarketOrderId
  let (book, leavesQty, matched) ←
    attributedMatch l.owner l.placed l.book.toLevelBook r newMarketOrderId
  if leavesQty = 0 then
    pure ({ book := ⟨book, nextMarketOrderId⟩, owner := l.owner, placed := l.placed + 1 },
      (some l.placed, accepted) :: matched)
  else
    let (rested, added) ← rest book r.clientId r.orderId r.tickerId r.side r.price leavesQty
      newMarketOrderId
    pure ({ book := ⟨rested, nextMarketOrderId⟩
            owner := Function.update l.owner book.orderPool.nextFreeIndex l.placed
            placed := l.placed + 1 },
      (some l.placed, accepted) :: matched ++ added.map (some l.placed, ·))

/-- The number of the order that a CANCEL finds. -/
def cancelled (l : Ledger) (r : MEClientRequest) : Option Nat :=
  (l.book.oidToOrder (r.clientId, r.orderId)).map l.owner

/-- `cancel`. A rejection is about no order. -/
def cancel (l : Ledger) (r : MEClientRequest) : Except Fault (Ledger × List Attributed) := do
  let (book, messages) ← l.book.cancel r.clientId r.orderId r.tickerId
  let number := if r.clientId < ME_MAX_NUM_CLIENTS then l.cancelled r else none
  pure ({ l with book }, messages.map (number, ·))

/-- `processClientRequest`. -/
def process (l : Ledger) (r : MEClientRequest) : Except Fault (Ledger × List Attributed) :=
  match r.type with
  | .NEW => l.add r
  | .CANCEL => l.cancel r
  | .INVALID => .error .invalidRequestType

end Ledger

/-! ## One fill -/

namespace MEOrderBook

variable {s : LevelBook MEOrderKey MESlot} {G : Ptr → Prop}

/-- The messages of a fill against an order with the ids `key`: the update is on that order. -/
structure FillShape (a : Aggressor) (key : MEOrderKey) (messages : List MEMessage) : Prop where
  shape : ∃ side price fillQty leavesQty passiveLeaves u,
    messages = fillMessages a key side price fillQty leavesQty passiveLeaves ++ [.update u] ∧
      u.orderId = key.marketOrderId

/-- One fill, whatever the book looks like. -/
theorem ends_matchOrder (leads : LevelBook.Leads G s) (a : Aggressor) {itr : Ptr} {slot : MESlot}
    (known : meSlot (s.order itr).key.clientId (s.order itr).key.clientOrderId = .ok slot)
    (leavesQty : Qty) :
    Ends Fault.Elsewhere (matchOrder s a itr leavesQty) fun result =>
      LevelBook.Follows G s result.1 ∧ FillShape a (s.order itr).key result.2.2 := by
  unfold matchOrder
  simp only
  have written : LevelBook.Moved G s (s.writeOrder itr fun n =>
      { n with qty := n.qty - min leavesQty (s.order itr).qty }) :=
    leads.writeOrder itr (fun _ => rfl) (leads.prev itr) (leads.next itr)
  have key := written.key itr
  split
  · rw [← key] at known
    refine (LevelBook.ends_removeOrder meLayout written.leads known).bind fun t removed => ?_
    refine Ends.pure ⟨written.toFollows.trans removed.1, ?_⟩
    rw [← key]
    exact ⟨_, _, _, _, _, _, rfl, rfl⟩
  · refine Ends.pure ⟨written.toFollows, ?_⟩
    rw [← key]
    exact ⟨_, _, _, _, _, _, rfl, rfl⟩

/-- The numbers do not change what a fill sends. -/
theorem map_attributeFill {number passive : Nat} {messages : List MEMessage}
    (length : messages.length = 4) :
    (attributeFill number passive messages).map Prod.snd = messages := by
  rw [attributeFill, List.map_snd_zip]
  rw [length]
  rfl

theorem matchOrder_length (s : LevelBook MEOrderKey MESlot) (a : Aggressor) (itr : Ptr)
    (leavesQty : Qty) {t : LevelBook MEOrderKey MESlot} {left : Qty} {messages : List MEMessage}
    (filled : matchOrder s a itr leavesQty = .ok (t, left, messages)) : messages.length = 4 := by
  obtain ⟨order, fillQty, update, rfl, -⟩ := matchOrder_eq_ok filled
  rfl

/-- The loop without the numbers. -/
theorem attributedLoop_map (owner : Ptr → Nat) (number : Nat) (a : Aggressor) (passive : Side)
    (stops : Price → Bool) (fuel : Nat) (s : LevelBook MEOrderKey MESlot) (leavesQty : Qty) :
    (attributedLoop owner number a passive stops fuel s leavesQty).map
        (fun result => (result.1, result.2.1, result.2.2.map Prod.snd)) =
      matchLoop a passive stops fuel s leavesQty := by
  induction fuel generalizing s leavesQty with
  | zero => rfl
  | succ fuel ih =>
      rw [attributedLoop, matchLoop]
      split
      · rfl
      · cases s.best passive with
        | none => rfl
        | some best =>
            simp only
            cases (s.level best).firstOrder with
            | none => rfl
            | some itr =>
                simp only [deref_some, bind, Except.bind]
                split
                · rfl
                · cases filled : matchOrder s a itr leavesQty with
                  | error f => rfl
                  | ok result =>
                      obtain ⟨t, left, messages⟩ := result
                      have length := matchOrder_length s a itr leavesQty filled
                      simp only [← ih t left]
                      cases attributedLoop owner number a passive stops fuel t left with
                      | error f => rfl
                      | ok rest =>
                          simp only [Except.map, pure, Except.pure, List.map_append,
                            map_attributeFill length]

theorem attributedMatch_map (owner : Ptr → Nat) (number : Nat) (s : LevelBook MEOrderKey MESlot)
    (r : MEClientRequest) (newMarketOrderId : OrderId) :
    (attributedMatch owner number s r newMarketOrderId).map
        (fun result => (result.1, result.2.1, result.2.2.map Prod.snd)) =
      checkForMatch s r.clientId r.orderId r.tickerId r.side r.price r.qty newMarketOrderId := by
  unfold attributedMatch checkForMatch
  cases r.side with
  | BUY => exact attributedLoop_map ..
  | SELL => exact attributedLoop_map ..
  | INVALID => rfl
  | MAX => rfl

end MEOrderBook

namespace Ledger

/-! ## The book of a ledger -/

/-- A result without the numbers. -/
def erase (result : Ledger × List Attributed) : MEOrderBook × List MEMessage :=
  (result.1.book, result.2.map Prod.snd)

theorem map_attribute (number : Option Nat) (messages : List MEMessage) :
    (messages.map fun m => (number, m)).map Prod.snd = messages := by
  rw [List.map_map]
  exact List.map_id messages

/-- The book of a ledger is the book of the exchange, message for message. -/
theorem process_book (l : Ledger) (r : MEClientRequest) :
    (l.process r).map erase = l.book.processClientRequest r := by
  unfold process MEOrderBook.processClientRequest
  cases r.type with
  | NEW =>
      simp only
      unfold add MEOrderBook.add
      simp only
      rw [← attributedMatch_map l.owner l.placed]
      cases attributedMatch l.owner l.placed l.book.toLevelBook r l.book.nextMarketOrderId with
      | error f => rfl
      | ok result =>
          obtain ⟨book, leavesQty, matched⟩ := result
          simp only [Except.map, bind, Except.bind]
          rcases eq_or_ne leavesQty 0 with filled | left
          · simp only [if_pos filled]
            rfl
          · simp only [if_neg left]
            cases rest book r.clientId r.orderId r.tickerId r.side r.price leavesQty
                l.book.nextMarketOrderId with
            | error f => rfl
            | ok rested =>
                simp only [pure, Except.pure, erase, List.map_append, map_attribute, List.map_cons]
  | CANCEL =>
      simp only
      unfold cancel
      cases l.book.cancel r.clientId r.orderId r.tickerId with
      | error f => rfl
      | ok result =>
          simp only [bind, Except.bind, pure, Except.pure, Except.map, erase, map_attribute]
  | INVALID => rfl

/-! ## The blocks of a ledger -/

/-- The ids of the request have a place in the id table. -/
def InTable (r : MEClientRequest) : Prop :=
  r.clientId < ME_MAX_NUM_CLIENTS ∧ r.orderId < ME_MAX_ORDER_IDS

/-- The book fills all of a NEW when it comes. -/
def FilledOnArrival (s : MEOrderBook) (r : MEClientRequest) : Prop :=
  ∃ t messages, checkForMatch s.toLevelBook r.clientId r.orderId r.tickerId r.side r.price r.qty
    s.nextMarketOrderId = .ok (t, 0, messages)

/-- The best order of the other side trades with a NEW. -/
def Crosses (s : MEOrderBook) (r : MEClientRequest) : Prop :=
  r.qty ≠ 0 ∧
    match r.side with
    | .BUY => ∃ best itr, s.best .SELL = some best ∧ (s.level best).firstOrder = some itr ∧
        (s.order itr).price ≤ r.price
    | .SELL => ∃ best itr, s.best .BUY = some best ∧ (s.level best).firstOrder = some itr ∧
        r.price ≤ (s.order itr).price
    | _ => False

/-- A request whose subscripts of the id table are in range: a NEW may have an id without a
place there if nothing of it comes to rest, a CANCEL if its client is unknown. -/
def Indexes (s : MEOrderBook) (r : MEClientRequest) : Prop :=
  match r.type with
  | .NEW => InTable r ∨ FilledOnArrival s r
  | .CANCEL => r.clientId < ME_MAX_NUM_CLIENTS → r.orderId < ME_MAX_ORDER_IDS
  | .INVALID => True

section Blocks

variable {I : Nat → MEOrderKey → Prop} {owner : Ptr → Nat} {s t : LevelBook MEOrderKey MESlot}

/-- Every pointer to an order leads to a block with the ids of the order that the ledger has
there. -/
def Keyed (I : Nat → MEOrderKey → Prop) (owner : Ptr → Nat) (s : LevelBook MEOrderKey MESlot) :
    Prop :=
  LevelBook.Leads (fun p => I (owner p) (s.order p).key) s

/-- A numbered message about order `n` carries its id. Responses to the order being placed,
number `placed`, are apart: they carry `newId`. -/
inductive Says (I : Nat → MEOrderKey → Prop) (placed : Nat) (newId : OrderId) :
    Attributed → Prop
  | unnumbered {m : MEMessage} (apart : m.NamesNone) : Says I placed newId (none, m)
  | order {n : Nat} {key : MEOrderKey} {m : MEMessage} (has : I n key)
      (id : m.marketOrderId = key.marketOrderId) : Says I placed newId (some n, m)
  | own {r : MEClientResponse} (id : r.marketOrderId = newId) :
      Says I placed newId (some placed, .response r)

theorem keyed_of_follows
    (follows : LevelBook.Follows (fun p => I (owner p) (s.order p).key) s t) : Keyed I owner t := by
  refine follows.leads.mono fun p has => ?_
  rw [follows.key]
  exact has

theorem Says.fill {number : Nat} {a : Aggressor} {n : Nat} {key : MEOrderKey} (has : I n key)
    {messages : List MEMessage} (fill : FillShape a key messages) :
    ∀ x ∈ attributeFill number n messages, Says I number a.newMarketOrderId x := by
  obtain ⟨side, price, fillQty, leavesQty, passiveLeaves, u, rfl, id⟩ := fill.shape
  intro x mem
  simp only [attributeFill, fillMessages, List.cons_append, List.nil_append, List.zip_cons_cons,
    List.zip_nil_right, List.mem_cons, List.not_mem_nil, or_false] at mem
  rcases mem with rfl | rfl | rfl | rfl
  · exact .own rfl
  · exact .order has rfl
  · exact .unnumbered rfl
  · exact .order has id

/-- The ids of an order have a place in the table. -/
def Known (I : Nat → MEOrderKey → Prop) : Prop :=
  ∀ n key, I n key → ∃ slot, meSlot key.clientId key.clientOrderId = .ok slot

/-- The fills of a new order, one loop round after the other. -/
theorem ends_attributedLoop (known : Known I) (number : Nat) (a : Aggressor) (passive : Side)
    (stops : Price → Bool) (fuel : Nat) (keyed : Keyed I owner s) (leavesQty : Qty) :
    Ends Fault.Elsewhere (attributedLoop owner number a passive stops fuel s leavesQty)
      fun result => Keyed I owner result.1 ∧
        ∀ x ∈ result.2.2, Says I number a.newMarketOrderId x := by
  induction fuel generalizing s leavesQty with
  | zero => exact Ends.error fun i => by simp
  | succ fuel ih =>
      have idle : Ends Fault.Elsewhere (.ok (s, leavesQty, []) :
          Except Fault (LevelBook MEOrderKey MESlot × Qty × List Attributed))
          fun result => Keyed I owner result.1 ∧
            ∀ x ∈ result.2.2, Says I number a.newMarketOrderId x :=
        Ends.ok ⟨keyed, fun x mem => absurd mem List.not_mem_nil⟩
      unfold attributedLoop
      split
      · exact idle
      · cases s.best passive with
        | none => exact idle
        | some best =>
            refine Ends.bind (LevelBook.ends_deref fun p first => keyed.first best p first) ?_
            intro itr has
            split
            · exact idle
            · obtain ⟨slot, slotted⟩ := known _ _ has
              refine Ends.bind (ends_matchOrder keyed a slotted leavesQty) ?_
              rintro ⟨u, left, messages⟩ ⟨follows, fill⟩
              refine Ends.bind (ih (keyed_of_follows follows) left) ?_
              rintro ⟨v, left', rest⟩ ⟨keyed', told⟩
              refine Ends.pure ⟨keyed', fun x mem => ?_⟩
              rcases List.mem_append.mp mem with now | later
              · exact Says.fill has fill x now
              · exact told x later

theorem ends_attributedMatch (known : Known I) (number : Nat) (keyed : Keyed I owner s)
    (r : MEClientRequest) (newMarketOrderId : OrderId) :
    Ends Fault.Elsewhere (attributedMatch owner number s r newMarketOrderId)
      fun result => Keyed I owner result.1 ∧
        ∀ x ∈ result.2.2, Says I number (newMarketOrderId % 2 ^ 32) x := by
  have idle : Ends Fault.Elsewhere (.ok (s, r.qty, []) :
      Except Fault (LevelBook MEOrderKey MESlot × Qty × List Attributed))
      fun result => Keyed I owner result.1 ∧
        ∀ x ∈ result.2.2, Says I number (newMarketOrderId % 2 ^ 32) x :=
    Ends.ok ⟨keyed, fun x mem => absurd mem List.not_mem_nil⟩
  unfold attributedMatch
  cases r.side with
  | BUY => exact ends_attributedLoop known number _ _ _ _ keyed _
  | SELL => exact ends_attributedLoop known number _ _ _ _ keyed _
  | INVALID => exact idle
  | MAX => exact idle

/-- Where the first test stops the loop, nothing is sent. -/
theorem attributedLoop_stops {number : Nat} {a : Aggressor} {passive : Side}
    {stops : Price → Bool} {fuel : Nat} {leavesQty left : Qty} {log : List Attributed}
    (returned : attributedLoop owner number a passive stops (fuel + 1) s leavesQty =
      .ok (t, left, log))
    (idle : leavesQty ≠ 0 → ∀ best itr, s.best passive = some best →
      (s.level best).firstOrder = some itr → stops (s.order itr).price = true) : log = [] := by
  unfold attributedLoop at returned
  split at returned
  · cases returned
    rfl
  · rename_i wants
    cases head : s.best passive with
    | none =>
        simp only [head] at returned
        cases returned
        rfl
    | some best =>
        simp only [head] at returned
        cases first : (s.level best).firstOrder with
        | none =>
            simp only [first, deref_none, bind, Except.bind] at returned
            cases returned
        | some itr =>
            simp only [first, deref_some, bind, Except.bind, idle wants best itr head first,
              if_true, pure, Except.pure] at returned
            cases returned
            rfl

theorem attributedMatch_idle {number : Nat} {b : MEOrderBook} {r : MEClientRequest}
    {newMarketOrderId : OrderId} {left : Qty} {log : List Attributed}
    (returned : attributedMatch owner number b.toLevelBook r newMarketOrderId =
      .ok (t, left, log))
    (idle : ¬ Crosses b r) : log = [] := by
  unfold attributedMatch at returned
  unfold Crosses at idle
  cases side : r.side with
  | BUY =>
      simp only [side] at returned idle
      refine attributedLoop_stops returned fun wants best itr head first => ?_
      by_contra goesOn
      exact idle ⟨wants, best, itr, head, first, by simpa using goesOn⟩
  | SELL =>
      simp only [side] at returned idle
      refine attributedLoop_stops returned fun wants best itr head first => ?_
      by_contra goesOn
      exact idle ⟨wants, best, itr, head, first, by simpa using goesOn⟩
  | INVALID =>
      simp only [side] at returned
      cases returned
      rfl
  | MAX =>
      simp only [side] at returned
      cases returned
      rfl

/-- A remainder that comes to rest, in a block of its own. -/
theorem ends_rest (keyed : Keyed I owner s) {number : Nat} (r : MEClientRequest)
    (leavesQty : Qty) (newMarketOrderId : OrderId)
    (fresh : InTable r → I number ⟨r.tickerId, r.clientId, r.orderId, newMarketOrderId⟩) :
    Ends (fun f => f.Elsewhere ∨ ¬ InTable r)
      (rest s r.clientId r.orderId r.tickerId r.side r.price leavesQty newMarketOrderId)
      (fun result => Keyed I (Function.update owner s.orderPool.nextFreeIndex number) result.1 ∧
        InTable r ∧
          ∃ u : MEMarketUpdate, result.2 = [.update u] ∧ u.orderId = newMarketOrderId) := by
  unfold rest
  refine Ends.bind ((LevelBook.ends_getNextPriority meLayout s r.price).weaken
    fun f elsewhere => .inl elsewhere) ?_
  intro priority _
  refine Ends.bind ((LevelBook.ends_allocate s.orderPool _).weaken
    fun f elsewhere => .inl elsewhere) ?_
  rintro ⟨order, pool⟩ ⟨place, placed⟩
  simp only at place placed
  have key : (pool.get order).key = ⟨r.tickerId, r.clientId, r.orderId, newMarketOrderId⟩ := by
    rw [placed, if_pos rfl]
  have noSlot : (∀ slot, meSlot r.clientId r.orderId ≠ .ok slot) → ¬ InTable r := by
    rintro unslotted ⟨client, id⟩
    exact unslotted _ (meSlot_eq_ok.mpr ⟨client, id, rfl⟩)
  by_cases inTable : InTable r
  · have entered : Keyed I (Function.update owner s.orderPool.nextFreeIndex number)
        { s with orderPool := pool } := by
      refine keyed.allocate (fun p has => ?_) rfl rfl placed
      show I _ (pool.get p).key
      rcases eq_or_ne p order with rfl | ne
      · rw [key, ← place, Function.update_self]
        exact fresh inTable
      · rw [placed, if_neg ne, ← place, Function.update_of_ne ne]
        exact has
    have own : I (Function.update owner s.orderPool.nextFreeIndex number order)
        (LevelBook.order { s with orderPool := pool } order).key := by
      show I _ (pool.get order).key
      rw [key, ← place, Function.update_self]
      exact fresh inTable
    refine Ends.bind ((LevelBook.ends_addOrder meLayout entered own).weaken fun f fault => ?_) ?_
    · rcases fault with elsewhere | unslotted
      · exact .inl elsewhere
      · refine .inr (noSlot ?_)
        have unslotted : ∀ slot, meSlot (pool.get order).key.clientId
          (pool.get order).key.clientOrderId ≠ .ok slot := unslotted
        rw [key] at unslotted
        exact unslotted
    · rintro t ⟨follows, -⟩
      exact Ends.pure ⟨keyed_of_follows follows, inTable, _, rfl, rfl⟩
  · have loose : LevelBook.Leads (fun _ => True) { s with orderPool := pool } :=
      ⟨fun _ _ _ => trivial, fun _ _ _ => trivial, fun _ _ _ => trivial, fun _ _ _ => trivial⟩
    have good : (fun _ : Ptr => True) order := trivial
    refine Ends.bind ((LevelBook.ends_addOrder meLayout loose good).weaken
      fun f _ => .inr inTable) ?_
    rintro t ⟨-, slot, slotted, -⟩
    have slotted : meSlot (pool.get order).key.clientId (pool.get order).key.clientOrderId =
      .ok slot := slotted
    rw [key] at slotted
    obtain ⟨client, id, -⟩ := meSlot_eq_ok.mp slotted
    exact absurd ⟨client, id⟩ inTable

variable {l : Ledger} {r : MEClientRequest}

/-- A NEW. The ids of the new order matter only where something of it comes to rest. -/
theorem ends_add (known : Known I) (keyed : Keyed I l.owner l.book.toLevelBook)
    (fresh : InTable r → ¬ FilledOnArrival l.book r →
      I l.placed ⟨r.tickerId, r.clientId, r.orderId, l.book.nextMarketOrderId⟩) :
    Ends (fun f => f.Elsewhere ∨ ¬ (InTable r ∨ FilledOnArrival l.book r)) (l.add r)
      fun result => Keyed I result.1.owner result.1.book.toLevelBook ∧
        ∀ x ∈ result.2, Says I l.placed l.book.nextMarketOrderId x ∨
          Crosses l.book r ∧ Says I l.placed (l.book.nextMarketOrderId % 2 ^ 32) x := by
  unfold add
  simp only
  refine Ends.bind_of_eq ((ends_attributedMatch known l.placed keyed r _).weaken
    fun f elsewhere => .inl elsewhere) ?_
  rintro ⟨book, leavesQty, matched⟩ returned ⟨keyed', told⟩
  have plain := attributedMatch_map l.owner l.placed l.book.toLevelBook r l.book.nextMarketOrderId
  rw [returned] at plain
  have crosses : ∀ x ∈ matched, Crosses l.book r ∧
      Says I l.placed (l.book.nextMarketOrderId % 2 ^ 32) x := by
    intro x mem
    refine ⟨?_, told x mem⟩
    by_contra idle
    rw [attributedMatch_idle returned idle] at mem
    exact absurd mem List.not_mem_nil
  have accepted : Says I l.placed l.book.nextMarketOrderId
      (some l.placed, acceptedResponse r.clientId r.orderId r.tickerId r.side r.price r.qty
        l.book.nextMarketOrderId) := .own rfl
  rcases eq_or_ne leavesQty 0 with filled | left
  · simp only [if_pos filled]
    refine Ends.pure ⟨keyed', fun x mem => ?_⟩
    rcases List.mem_cons.mp mem with rfl | later
    · exact .inl accepted
    · exact .inr (crosses x later)
  · simp only [if_neg left]
    have notFilled : ¬ FilledOnArrival l.book r := by
      rintro ⟨t, messages, all⟩
      have same := plain.trans all
      simp only [Except.map, Except.ok.injEq, Prod.mk.injEq] at same
      exact left same.2.1
    have rests := ends_rest keyed' r leavesQty _ fun inTable => fresh inTable notFilled
    refine Ends.bind (rests.weaken fun f fault => ?_) ?_
    · rcases fault with elsewhere | outside
      · exact .inl elsewhere
      · exact .inr fun h => h.elim outside notFilled
    · rintro ⟨rested, added⟩ ⟨keyed'', inTable, u, rfl, id⟩
      refine Ends.pure ⟨keyed'', fun x mem => ?_⟩
      rcases List.mem_append.mp mem with before | last
      · rcases List.mem_cons.mp before with rfl | later
        · exact .inl accepted
        · exact .inr (crosses x later)
      · rw [List.map_singleton, List.mem_singleton] at last
        subst last
        exact .inl (.order (fresh inTable notFilled) id)

/-- A CANCEL. -/
theorem ends_cancel (known : Known I) (keyed : Keyed I l.owner l.book.toLevelBook) (placed : Nat)
    (newId : OrderId) :
    Ends (fun f => f.Elsewhere ∨
        ¬ (r.clientId < ME_MAX_NUM_CLIENTS → r.orderId < ME_MAX_ORDER_IDS)) (l.cancel r)
      fun result => Keyed I result.1.owner result.1.book.toLevelBook ∧
        ∀ x ∈ result.2, Says I placed newId x := by
  unfold cancel MEOrderBook.cancel cancelled
  by_cases client : r.clientId < ME_MAX_NUM_CLIENTS
  · by_cases id : r.orderId < ME_MAX_ORDER_IDS
    · have slot : meSlot r.clientId r.orderId = .ok (r.clientId, r.orderId) :=
        meSlot_eq_ok.mpr ⟨client, id, rfl⟩
      simp only [if_pos client, slot, bind, Except.bind, pure, Except.pure]
      cases entry : l.book.oidToOrder (r.clientId, r.orderId) with
      | none =>
          refine Ends.ok ⟨keyed, fun x mem => ?_⟩
          rw [List.map_singleton, List.mem_singleton] at mem
          rw [mem]
          exact .unnumbered rfl
      | some order =>
          have has := keyed.table _ _ entry
          obtain ⟨slot, slotted⟩ := known _ _ has
          have removed : Ends (fun f : Fault => f.Elsewhere ∨
              ¬ (r.clientId < ME_MAX_NUM_CLIENTS → r.orderId < ME_MAX_ORDER_IDS)) _ _ :=
            (LevelBook.ends_removeOrder meLayout keyed slotted).weaken
              fun f elsewhere => .inl elsewhere
          simp only
          cases result : l.book.removeOrder meLayout order with
          | error f =>
              rw [result] at removed
              exact removed
          | ok book =>
              rw [result] at removed
              have follows : LevelBook.Follows _ _ _ := removed.1
              refine Ends.ok ⟨keyed_of_follows follows, fun x mem => ?_⟩
              obtain ⟨m, mMem, rfl⟩ := List.mem_map.mp mem
              refine .order has ?_
              simp only [canceledMessages, List.mem_cons, List.not_mem_nil, or_false] at mMem
              rcases mMem with rfl | rfl
              · rfl
              · rfl
    · have outside : meSlot r.clientId r.orderId = .error (.outOfRange r.orderId) := by
        simp only [meSlot, Nat.not_le.mpr client, Nat.not_lt.mp id, if_true, if_false]
      simp only [if_pos client, outside, bind, Except.bind]
      exact Ends.error (.inr fun inside => id (inside client))
  · simp only [if_neg client, bind, Except.bind, pure, Except.pure]
    refine Ends.ok ⟨keyed, fun x mem => ?_⟩
    rw [List.map_singleton, List.mem_singleton] at mem
    rw [mem]
    exact .unnumbered rfl

/-- Any request: the blocks keep the ids of their orders, the messages say them, and only
a request that does not index subscripts a table out of range. -/
theorem ends_process (known : Known I) (keyed : Keyed I l.owner l.book.toLevelBook)
    (fresh : r.type = .NEW → InTable r → ¬ FilledOnArrival l.book r →
      I l.placed ⟨r.tickerId, r.clientId, r.orderId, l.book.nextMarketOrderId⟩) :
    Ends (fun f => f.Elsewhere ∨ ¬ Indexes l.book r) (l.process r)
      fun result => Keyed I result.1.owner result.1.book.toLevelBook ∧
        ∀ x ∈ result.2, Says I l.placed l.book.nextMarketOrderId x ∨
          Crosses l.book r ∧ Says I l.placed (l.book.nextMarketOrderId % 2 ^ 32) x := by
  unfold process Indexes
  cases kind : r.type with
  | NEW => exact ends_add known keyed (fresh kind)
  | CANCEL =>
      exact (ends_cancel known keyed _ _).imp fun result holds =>
        ⟨holds.1, fun x mem => .inl (holds.2 x mem)⟩
  | INVALID => exact Ends.error (.inl fun i => by simp)

/-- The updates that a ledger tells of. -/
theorem Says.update {n : Option Nat} {u : MEMarketUpdate} {placed : Nat} {newId : OrderId}
    (told : Says I placed newId (n, .update u)) :
    u.type = .TRADE ∨ ∃ m key, I m key ∧ u.orderId = key.marketOrderId := by
  cases told with
  | unnumbered apart => exact .inl apart
  | order has id => exact .inr ⟨_, _, has, id⟩

end Blocks

end Ledger

namespace MEOrderBook

variable {P : MEOrderKey → Prop} {s : MEOrderBook} {r : MEClientRequest}

/-- Every pointer to an order leads to one whose ids are as `P` says. -/
def Keys (P : MEOrderKey → Prop) (s : MEOrderBook) : Prop :=
  LevelBook.Leads (fun p => P (s.order p).key) s.toLevelBook

/-- Any request, without the numbers. -/
theorem ends_processClientRequest
    (known : ∀ key, P key → ∃ slot, meSlot key.clientId key.clientOrderId = .ok slot)
    (keys : s.Keys P)
    (fresh : r.type = .NEW → Ledger.InTable r → ¬ Ledger.FilledOnArrival s r →
      P ⟨r.tickerId, r.clientId, r.orderId, s.nextMarketOrderId⟩) :
    Ends (fun f => f.Elsewhere ∨ ¬ Ledger.Indexes s r) (s.processClientRequest r) fun result =>
      result.1.Keys P ∧ ∀ u, .update u ∈ result.2 →
        u.type = .TRADE ∨ ∃ key, P key ∧ u.orderId = key.marketOrderId := by
  have ends := Ledger.ends_process (I := fun _ => P) (l := ⟨s, fun _ => 0, 0⟩)
    (fun _ => known) keys fresh
  have same := Ledger.process_book ⟨s, fun _ => 0, 0⟩ r
  cases processed : Ledger.process ⟨s, fun _ => 0, 0⟩ r with
  | error f =>
      rw [processed] at ends same
      rw [← same]
      exact ends
  | ok result =>
      rw [processed] at ends same
      rw [← same]
      obtain ⟨keys', told⟩ := ends
      refine Ends.ok ⟨keys', fun u mem => ?_⟩
      obtain ⟨⟨n, m⟩, inLog, isUpdate⟩ := List.mem_map.mp mem
      cases isUpdate
      have about : u.type = .TRADE ∨
          ∃ (_ : Nat) (key : MEOrderKey), P key ∧ u.orderId = key.marketOrderId := by
        rcases told _ inLog with wide | ⟨-, narrow⟩
        · exact wide.update
        · exact narrow.update
      rcases about with trade | ⟨-, key, has, id⟩
      · exact .inl trade
      · exact .inr ⟨key, has, id⟩

end MEOrderBook

end NanoTrade
