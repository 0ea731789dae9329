import Mathlib.Data.List.Cycle

/-!
# Circular doubly linked lists

A circular intrusive list is a pair of partial link functions `next` and `prev`
over node addresses. `Ring next prev c` says that they link the addresses of `c`,
in this order, into one circle: the links are mutually inverse along `c` and the
last address links back to the first.

* `Ring.rotate`: the circle does not know where it starts.
* `Ring.insert`, `Ring.insertBefore`, `Ring.snoc`: one splice of a new address.
* `Ring.remove`: unlinking one address of several.
* `Ring.frame`: links outside the circle do not matter.
* `walk`, `Ring.walk_eq`: following `next` from the first address until it comes
  back visits exactly `c`.
* `circuit`, `Ring.circuit_eq`: a loop with a body does the same, address by address.
* `Ring.next_eq`, `Ring.prev_eq`: the neighbours of an address are its neighbours in `c`.

The splices are stated by what the new link functions do at the touched
addresses, so they apply to any sequence of writes with that effect.
-/

namespace NanoTrade

variable {α : Type} {next prev next' prev' : α → Option α}

/-- `next` leads from `a` to `b` and `prev` leads back. -/
def Linked (next prev : α → Option α) (a b : α) : Prop :=
  next a = some b ∧ prev b = some a

/-- `next` and `prev` link the addresses of `c` into one circle. -/
structure Ring (next prev : α → Option α) (c : List α) : Prop where
  nodup : c.Nodup
  chain : Cycle.Chain (Linked next prev) (c : Cycle α)

/-- Of two neighbours in a list without repetition the first is not the last element. -/
theorem ne_last_of_adjacent {l₁ l₂ m : List α} {x y a : α}
    (split : l₁ ++ x :: y :: l₂ = m ++ [a]) (nodup : (m ++ [a]).Nodup) : x ≠ a := by
  rintro rfl
  have isLast : (l₁ ++ x :: y :: l₂).getLast? = (y :: l₂).getLast? := by
    rw [List.getLast?_append, List.getLast?_cons_cons, List.getLast?_cons, Option.some_or]
  rw [split, List.getLast?_concat] at isLast
  have mem : x ∈ y :: l₂ := List.mem_of_getLast? isLast.symm
  rw [← split, List.nodup_append] at nodup
  exact (List.nodup_cons.mp nodup.2.1).1 mem

/-- Of two neighbours in a list without repetition the second is not the first element. -/
theorem ne_head_of_adjacent {l₁ l₂ c : List α} {x y b : α}
    (split : l₁ ++ x :: y :: l₂ = b :: c) (nodup : (b :: c).Nodup) : y ≠ b := by
  rintro rfl
  rw [← split] at nodup
  cases l₁ with
  | nil =>
      simp only [List.nil_append, List.cons.injEq] at split
      obtain ⟨rfl, -⟩ := split
      simp at nodup
  | cons z l₁ =>
      simp only [List.cons_append, List.cons.injEq] at split
      obtain ⟨rfl, -⟩ := split
      simp at nodup

theorem Ring.nil : Ring next prev [] :=
  ⟨List.nodup_nil, Cycle.Chain.nil _⟩

theorem ring_singleton {a : α} :
    Ring next prev [a] ↔ next a = some a ∧ prev a = some a := by
  constructor
  · intro ring
    exact (Cycle.chain_singleton _ _).mp ring.chain
  · intro link
    exact ⟨List.nodup_singleton a, (Cycle.chain_singleton _ _).mpr link⟩

theorem Ring.rotate {c c' : List α} (rotated : c ~r c') (ring : Ring next prev c) :
    Ring next prev c' := by
  have same : (c : Cycle α) = (c' : Cycle α) := Cycle.coe_eq_coe.mpr rotated
  exact ⟨rotated.nodup_iff.mp ring.nodup, same ▸ ring.chain⟩

/-- A nonempty circle is a chain from its first to its last address, closed by
one more link. -/
theorem ring_concat {c : List α} {a : α} :
    Ring next prev (c ++ [a]) ↔
      (c ++ [a]).Nodup ∧ List.IsChain (Linked next prev) (a :: (c ++ [a])) := by
  have closed : Cycle.Chain (Linked next prev) ((c ++ [a] : List α) : Cycle α) ↔
      List.IsChain (Linked next prev) (a :: (c ++ [a])) := by
    rw [Cycle.chain_ne_nil _ (by simp : c ++ [a] ≠ []), List.getLast_append_singleton]
  exact ⟨fun ring => ⟨ring.nodup, closed.mp ring.chain⟩,
    fun h => ⟨h.1, closed.mpr h.2⟩⟩

theorem Ring.link_append {l₁ l₂ : List α} {a b : α}
    (ring : Ring next prev (l₁ ++ a :: b :: l₂)) : Linked next prev a b := by
  have rotated : l₁ ++ a :: b :: l₂ ~r b :: l₂ ++ (l₁ ++ [a]) := by
    have turn : (l₁ ++ [a]) ++ b :: l₂ ~r b :: l₂ ++ (l₁ ++ [a]) := List.isRotated_append
    simpa using turn
  have closed := (ring_concat (c := b :: l₂ ++ l₁) (a := a)).mp
    (by simpa using ring.rotate rotated)
  exact (List.isChain_cons_cons.mp (by simpa using closed.2)).1

theorem Ring.link_first {l : List α} {a b : α} (ring : Ring next prev (a :: b :: l)) :
    Linked next prev a b :=
  Ring.link_append (show Ring next prev ([] ++ a :: b :: l) from ring)

theorem Ring.link_closing {c : List α} {a b : α}
    (ring : Ring next prev (b :: c ++ [a])) : Linked next prev a b := by
  have closed := (ring_concat (c := b :: c) (a := a)).mp ring
  exact (List.isChain_cons_cons.mp closed.2).1

/-- Every address of a circle has a successor and a predecessor in it. -/
theorem Ring.exists_next {c : List α} {a : α} (ring : Ring next prev c) (mem : a ∈ c) :
    ∃ b ∈ c, Linked next prev a b := by
  obtain ⟨l₁, l₂, rfl⟩ := List.append_of_mem mem
  cases l₂ with
  | cons b l₂ => exact ⟨b, by simp, ring.link_append⟩
  | nil =>
      cases l₁ with
      | nil => exact ⟨a, by simp, ring_singleton.mp ring⟩
      | cons b l₁ => exact ⟨b, by simp, Ring.link_closing (by simpa using ring)⟩

theorem Ring.exists_prev {c : List α} {b : α} (ring : Ring next prev c) (mem : b ∈ c) :
    ∃ a ∈ c, Linked next prev a b := by
  obtain ⟨l₁, l₂, rfl⟩ := List.append_of_mem mem
  rcases List.eq_nil_or_concat l₁ with rfl | ⟨l₁, a, rfl⟩
  · rcases List.eq_nil_or_concat l₂ with rfl | ⟨l₂, a, rfl⟩
    · exact ⟨b, by simp, ring_singleton.mp ring⟩
    · exact ⟨a, by simp, Ring.link_closing (by simpa using ring)⟩
  · exact ⟨a, by simp,
      Ring.link_append (show Ring next prev (l₁ ++ a :: b :: l₂) by simpa using ring)⟩

/-- The predecessor of the first address is the last one. -/
theorem Ring.prev_head {c : List α} {b : α} (ring : Ring next prev (b :: c)) :
    prev b = some ((b :: c).getLast (by simp)) := by
  rcases List.eq_nil_or_concat c with rfl | ⟨c, a, rfl⟩
  · exact (ring_singleton.mp ring).2
  · have link := Ring.link_closing (by simpa using ring : Ring next prev (b :: c ++ [a]))
    simpa using link.2

/-- Only a one-address circle links an address to itself. -/
theorem Ring.eq_singleton_of_next {c : List α} {a : α} (ring : Ring next prev c) (mem : a ∈ c)
    (self : next a = some a) : c = [a] := by
  obtain ⟨l₁, l₂, rfl⟩ := List.append_of_mem mem
  have nodup := ring.nodup
  cases l₂ with
  | cons b l₂ =>
      have linked := ring.link_append.1
      rw [self, Option.some.injEq] at linked
      subst linked
      exact ((List.nodup_cons.mp (List.nodup_append.mp nodup).2.1).1 List.mem_cons_self).elim
  | nil =>
      cases l₁ with
      | nil => rfl
      | cons b l₁ =>
          have linked := (Ring.link_closing (by simpa using ring)).1
          rw [self, Option.some.injEq] at linked
          subst linked
          simp at nodup

theorem Ring.eq_singleton_of_prev {c : List α} {a : α} (ring : Ring next prev c) (mem : a ∈ c)
    (self : prev a = some a) : c = [a] := by
  obtain ⟨b, _, link⟩ := ring.exists_prev mem
  have back := link.2
  rw [self, Option.some.injEq] at back
  subst back
  exact ring.eq_singleton_of_next mem link.1

/-- Writes outside the circle leave it alone. -/
theorem Ring.frame {c : List α} (ring : Ring next prev c)
    (nextSame : ∀ x ∈ c, next' x = next x) (prevSame : ∀ x ∈ c, prev' x = prev x) :
    Ring next' prev' c := by
  refine ⟨ring.nodup, ?_⟩
  rcases List.eq_nil_or_concat c with rfl | ⟨c, a, rfl⟩
  · exact Cycle.Chain.nil _
  · rw [List.concat_eq_append] at ring nextSame prevSame ⊢
    have closed := (ring_concat.mp ring).2
    refine (ring_concat.mpr ⟨ring.nodup, ?_⟩).chain
    refine closed.imp_of_mem_imp ?_
    intro x y hx hy link
    have hx' : x ∈ c ++ [a] := (List.mem_cons.mp hx).elim (fun e => by simp [e]) id
    have hy' : y ∈ c ++ [a] := (List.mem_cons.mp hy).elim (fun e => by simp [e]) id
    exact ⟨(nextSame x hx').trans link.1, (prevSame y hy').trans link.2⟩

/-- Splice `new` in before the first address `b`, whose predecessor is `a`. -/
theorem Ring.insert {c : List α} {a b new : α} (ring : Ring next prev (b :: c))
    (fresh : new ∉ b :: c) (last : prev b = some a)
    (newNext : next' new = some b) (newPrev : prev' new = some a)
    (beforeNext : next' a = some new) (afterPrev : prev' b = some new)
    (nextSame : ∀ x ∈ b :: c, x ≠ a → next' x = next x)
    (prevSame : ∀ x ∈ b :: c, x ≠ b → prev' x = prev x) :
    Ring next' prev' (new :: b :: c) := by
  have nodup : (new :: b :: c).Nodup := List.nodup_cons.mpr ⟨fresh, ring.nodup⟩
  obtain ⟨m, tail⟩ : ∃ m, b :: c = m ++ [a] := by
    have isLast := ring.prev_head
    rw [last, Option.some.injEq] at isLast
    exact ⟨(b :: c).dropLast, by rw [isLast, List.dropLast_append_getLast]⟩
  refine ⟨nodup, ?_⟩
  rw [Cycle.chain_coe_cons, List.cons_append, List.isChain_cons_cons]
  refine ⟨⟨newNext, afterPrev⟩, ?_⟩
  -- Inside `b :: c` no link starts at the last address `a` or ends at the first one `b`.
  have inner : List.IsChain (Linked next' prev') (b :: c) := by
    rw [List.isChain_iff_forall_rel_of_append_cons_cons]
    intro x y l₁ l₂ split
    have link : Linked next prev x y := Ring.link_append (split ▸ ring)
    have xa : x ≠ a := ne_last_of_adjacent (split.symm.trans tail) (tail ▸ ring.nodup)
    have yb : y ≠ b := ne_head_of_adjacent split.symm ring.nodup
    have hx : x ∈ b :: c := by rw [split]; simp
    have hy : y ∈ b :: c := by rw [split]; simp
    exact ⟨(nextSame x hx xa).trans link.1, (prevSame y hy yb).trans link.2⟩
  rw [← List.cons_append, tail, List.append_assoc, List.cons_append, List.nil_append,
    List.isChain_append_cons_cons, ← tail]
  exact ⟨inner, ⟨beforeNext, newPrev⟩, .singleton _⟩

/-- Splice `new` in before any address `b` of the circle. -/
theorem Ring.insertBefore {l₁ l₂ : List α} {a b new : α}
    (ring : Ring next prev (l₁ ++ b :: l₂)) (fresh : new ∉ l₁ ++ b :: l₂)
    (before : prev b = some a)
    (newNext : next' new = some b) (newPrev : prev' new = some a)
    (beforeNext : next' a = some new) (afterPrev : prev' b = some new)
    (nextSame : ∀ x ∈ l₁ ++ b :: l₂, x ≠ a → next' x = next x)
    (prevSame : ∀ x ∈ l₁ ++ b :: l₂, x ≠ b → prev' x = prev x) :
    Ring next' prev' (l₁ ++ new :: b :: l₂) := by
  have rotated : l₁ ++ b :: l₂ ~r b :: (l₂ ++ l₁) := List.isRotated_append
  have spliced := (ring.rotate rotated).insert
    (fun mem => fresh (rotated.mem_iff.mpr mem)) before newNext newPrev beforeNext afterPrev
    (fun x mem => nextSame x (rotated.mem_iff.mpr mem))
    (fun x mem => prevSame x (rotated.mem_iff.mpr mem))
  have turn : new :: b :: l₂ ++ l₁ ~r l₁ ++ new :: b :: l₂ := List.isRotated_append
  exact spliced.rotate turn

/-- Splicing before the first address is appending after the last one. -/
theorem Ring.snoc {c : List α} {a b new : α} (ring : Ring next prev (b :: c))
    (fresh : new ∉ b :: c) (last : prev b = some a)
    (newNext : next' new = some b) (newPrev : prev' new = some a)
    (beforeNext : next' a = some new) (afterPrev : prev' b = some new)
    (nextSame : ∀ x ∈ b :: c, x ≠ a → next' x = next x)
    (prevSame : ∀ x ∈ b :: c, x ≠ b → prev' x = prev x) :
    Ring next' prev' (b :: c ++ [new]) := by
  have spliced := ring.insert fresh last newNext newPrev beforeNext afterPrev nextSame prevSame
  have turn : [new] ++ b :: c ~r b :: c ++ [new] := List.isRotated_append
  exact spliced.rotate turn

/-- Unlink `x`, one of several addresses, by joining its neighbours `a` and `b`. -/
theorem Ring.remove {l₁ l₂ : List α} {a b x : α} (ring : Ring next prev (l₁ ++ x :: l₂))
    (others : l₁ ++ l₂ ≠ []) (before : prev x = some a) (after : next x = some b)
    (beforeNext : next' a = some b) (afterPrev : prev' b = some a)
    (nextSame : ∀ y ∈ l₁ ++ l₂, y ≠ a → next' y = next y)
    (prevSame : ∀ y ∈ l₁ ++ l₂, y ≠ b → prev' y = prev y) :
    Ring next' prev' (l₁ ++ l₂) := by
  have rotated : l₁ ++ x :: l₂ ~r (l₂ ++ l₁) ++ [x] := by
    have turn : (l₁ ++ [x]) ++ l₂ ~r l₂ ++ (l₁ ++ [x]) := List.isRotated_append
    simpa using turn
  have others' : l₂ ++ l₁ ≠ [] := by
    intro empty
    obtain ⟨rfl, rfl⟩ := List.append_eq_nil_iff.mp empty
    exact others rfl
  have ring' := ring.rotate rotated
  have inside : (l₂ ++ l₁).Nodup := (List.nodup_append.mp ring'.nodup).1
  -- In `b :: c ++ [x]` the first address is the successor of `x`, the one before `x` is `a`.
  obtain ⟨c, headEq⟩ : ∃ c, l₂ ++ l₁ = b :: c := by
    obtain ⟨b', c, shape⟩ := List.exists_cons_of_ne_nil others'
    rw [shape] at ring'
    have closing := ring'.link_closing.1
    rw [after, Option.some.injEq] at closing
    exact ⟨c, closing ▸ shape⟩
  obtain ⟨m, lastEq⟩ : ∃ m, l₂ ++ l₁ = m ++ [a] := by
    rcases List.eq_nil_or_concat (l₂ ++ l₁) with empty | ⟨m, a', shape⟩
    · exact (others' empty).elim
    · rw [shape, List.concat_eq_append, List.append_assoc] at ring'
      have back := (Ring.link_append (show Ring next prev (m ++ a' :: x :: []) from ring')).2
      rw [before, Option.some.injEq] at back
      exact ⟨m, by rw [shape, back, List.concat_eq_append]⟩
  have chain : List.IsChain (Linked next prev) (l₂ ++ l₁) := by
    have closed := (ring_concat.mp ring').2
    exact (List.isChain_append.mp (List.isChain_cons.mp closed).2).1
  have same : List.IsChain (Linked next' prev') (l₂ ++ l₁) := by
    rw [List.isChain_iff_forall_rel_of_append_cons_cons] at chain ⊢
    intro y z k₁ k₂ split
    have link := chain split
    have memY : y ∈ l₁ ++ l₂ := by
      have : y ∈ l₂ ++ l₁ := by rw [split]; simp
      simpa [or_comm] using this
    have memZ : z ∈ l₁ ++ l₂ := by
      have : z ∈ l₂ ++ l₁ := by rw [split]; simp
      simpa [or_comm] using this
    have ya : y ≠ a := ne_last_of_adjacent (split.symm.trans lastEq) (lastEq ▸ inside)
    have zb : z ≠ b := ne_head_of_adjacent (split.symm.trans headEq) (headEq ▸ inside)
    exact ⟨(nextSame y memY ya).trans link.1, (prevSame z memZ zb).trans link.2⟩
  have joined : Ring next' prev' (m ++ [a]) := by
    refine ring_concat.mpr ⟨lastEq ▸ inside, ?_⟩
    rw [← lastEq, headEq, List.isChain_cons_cons]
    exact ⟨⟨beforeNext, afterPrev⟩, headEq ▸ same⟩
  rw [← lastEq] at joined
  exact joined.rotate List.isRotated_append

/-- The same, where two links are assigned and no others. -/
theorem Ring.unlink [DecidableEq α] {l₁ l₂ : List α} {a b x : α}
    (ring : Ring next prev (l₁ ++ x :: l₂))
    (others : l₁ ++ l₂ ≠ []) (before : prev x = some a) (after : next x = some b)
    (nextEq : ∀ y, next' y = if y = a then some b else next y)
    (prevEq : ∀ y, prev' y = if y = b then some a else prev y) :
    Ring next' prev' (l₁ ++ l₂) := by
  refine ring.remove others before after ?_ ?_ ?_ ?_
  · rw [nextEq, if_pos rfl]
  · rw [prevEq, if_pos rfl]
  · intro y _ ne
    rw [nextEq, if_neg ne]
  · intro y _ ne
    rw [prevEq, if_neg ne]

/-! ## Walking a circle -/

/-- The addresses met by following `next` from `x` until it leads back to `head`. -/
def walk [DecidableEq α] (next : α → Option α) (head : α) : Nat → α → List α
  | 0, _ => []
  | fuel + 1, x =>
    x :: match next x with
      | none => []
      | some y => if y = head then [] else walk next head fuel y

theorem walk_of_chain [DecidableEq α] {head : α} :
    ∀ {c : List α} {x : α} {fuel : Nat}, c.length < fuel → head ∉ c →
      List.IsChain (Linked next prev) (x :: c ++ [head]) → walk next head fuel x = x :: c
  | [], x, fuel + 1, _, _, chain => by
      have link : Linked next prev x head := List.isChain_pair.mp chain
      simp [walk, link.1]
  | y :: c, x, fuel + 1, bound, notHead, chain => by
      obtain ⟨link, rest⟩ := List.isChain_cons_cons.mp chain
      have hy : y ≠ head := fun e => notHead (by simp [e])
      have short : c.length < fuel := by simpa using bound
      have tail := walk_of_chain short (fun mem => notHead (List.mem_cons_of_mem _ mem)) rest
      simp [walk, link.1, hy, tail]

/-- A walk visits exactly the circle, in its order. -/
theorem Ring.walk_eq [DecidableEq α] {c : List α} {head : α} {fuel : Nat}
    (ring : Ring next prev (head :: c)) (bound : c.length < fuel) :
    walk next head fuel head = head :: c := by
  have chain : List.IsChain (Linked next prev) (head :: c ++ [head]) := by
    simpa using (Cycle.chain_coe_cons _ _ _).mp ring.chain
  exact walk_of_chain bound (List.nodup_cons.mp ring.nodup).1 chain

/-! ## Loops around a circle -/

/-- The loop `for (n = first;; n = next(n)) { body; if (next(n) == first) break; }`. What comes of
a null pointer is `null`; `stuck` is a loop that does not end. -/
def circuit {β ε : Type} [DecidableEq α] (next : α → Option α) (first : Option α)
    (null : β → Except ε β) (stuck : ε) (body : β → α → Except ε β) :
    Nat → Option α → β → Except ε β
  | 0, _, _ => .error stuck
  | _ + 1, none, acc => null acc
  | fuel + 1, some x, acc =>
    body acc x >>= fun acc =>
      if next x = first then .ok acc else circuit next first null stuck body fuel (next x) acc

section Circuit

variable {β ε : Type} [DecidableEq α] {null : β → Except ε β} {stuck : ε}
  {body : β → α → Except ε β}

theorem circuit_none {first : Option α} {fuel : Nat} (enough : 0 < fuel) (acc : β) :
    circuit next first null stuck body fuel none acc = null acc := by
  cases fuel with
  | zero => exact absurd enough (Nat.lt_irrefl 0)
  | succ fuel => rfl

theorem circuit_of_chain {head : α} :
    ∀ {c : List α} {x : α} {fuel : Nat} (acc : β), c.length < fuel → head ∉ c →
      List.IsChain (Linked next prev) (x :: c ++ [head]) →
      circuit next (some head) null stuck body fuel (some x) acc = (x :: c).foldlM body acc
  | [], x, fuel + 1, acc, _, _, chain => by
      have link : Linked next prev x head := List.isChain_pair.mp chain
      rw [circuit, List.foldlM_cons]
      refine bind_congr fun acc' => ?_
      rw [if_pos link.1]
      rfl
  | y :: c, x, fuel + 1, acc, bound, notHead, chain => by
      obtain ⟨link, rest⟩ := List.isChain_cons_cons.mp chain
      have onward : next x ≠ some head := by
        rw [link.1]
        exact fun same => notHead (Option.some.inj same ▸ List.mem_cons_self)
      have short : c.length < fuel := Nat.lt_of_succ_lt_succ bound
      rw [circuit, List.foldlM_cons]
      refine bind_congr fun acc' => ?_
      rw [if_neg onward, link.1]
      exact circuit_of_chain acc' short (fun mem => notHead (List.mem_cons_of_mem _ mem)) rest

/-- The loop runs over the circle and ends. -/
theorem Ring.circuit_eq {c : List α} {head : α} {fuel : Nat} (ring : Ring next prev (head :: c))
    (bound : c.length < fuel) (acc : β) :
    circuit next (some head) null stuck body fuel (some head) acc =
      (head :: c).foldlM body acc := by
  have chain : List.IsChain (Linked next prev) (head :: c ++ [head]) := by
    simpa using (Cycle.chain_coe_cons _ _ _).mp ring.chain
  exact circuit_of_chain acc bound (List.nodup_cons.mp ring.nodup).1 chain

end Circuit

/-- The neighbour of `x` behind it in the circle `front ++ x :: back`. -/
def circleNext (front : List α) (x : α) (back : List α) : α :=
  (back ++ (front ++ [x])).head (by simp)

/-- The neighbour of `x` in front of it in the circle `front ++ x :: back`. -/
def circlePrev (front : List α) (x : α) (back : List α) : α :=
  (x :: (back ++ front)).getLast (List.cons_ne_nil _ _)

theorem circleNext_map {β : Type} (f : α → β) (front : List α) (x : α) (back : List α) :
    circleNext (front.map f) (f x) (back.map f) = f (circleNext front x back) := by
  have mapped : back.map f ++ (front.map f ++ [f x]) = (back ++ (front ++ [x])).map f := by
    simp only [List.map_append, List.map_cons, List.map_nil]
  simp only [circleNext, mapped, List.head_map]

theorem circlePrev_map {β : Type} (f : α → β) (front : List α) (x : α) (back : List α) :
    circlePrev (front.map f) (f x) (back.map f) = f (circlePrev front x back) := by
  have mapped : f x :: (back.map f ++ front.map f) = (x :: (back ++ front)).map f := by
    simp only [List.map_append, List.map_cons]
  simp only [circlePrev, mapped, List.getLast_map]

theorem circleNext_mem (front : List α) (x : α) (back : List α) :
    circleNext front x back ∈ front ++ x :: back := by
  have mem : circleNext front x back ∈ back ++ (front ++ [x]) := List.head_mem _
  simp only [List.mem_append, List.mem_cons, List.not_mem_nil, or_false] at mem ⊢
  tauto

theorem circlePrev_mem (front : List α) (x : α) (back : List α) :
    circlePrev front x back ∈ front ++ x :: back := by
  have mem : circlePrev front x back ∈ x :: (back ++ front) := List.getLast_mem _
  simp only [List.mem_append, List.mem_cons] at mem ⊢
  tauto

theorem Ring.next_eq {front back : List α} {x : α} (ring : Ring next prev (front ++ x :: back)) :
    next x = some (circleNext front x back) := by
  have rotated : front ++ x :: back ~r x :: (back ++ front) := List.isRotated_append
  have turned := ring.rotate rotated
  cases back with
  | cons y back => exact turned.link_first.1
  | nil =>
      cases front with
      | cons y front => exact turned.link_first.1
      | nil => exact (ring_singleton.mp turned).1

theorem Ring.prev_eq {front back : List α} {x : α} (ring : Ring next prev (front ++ x :: back)) :
    prev x = some (circlePrev front x back) := by
  have rotated : front ++ x :: back ~r x :: (back ++ front) := List.isRotated_append
  exact (ring.rotate rotated).prev_head

/-- There is only one circle through an address. -/
theorem Ring.unique {c c' : List α} (ring : Ring next prev c) (ring' : Ring next prev c')
    (head : c.head? = c'.head?) : c = c' := by
  classical
  cases c with
  | nil => exact (List.head?_eq_none_iff.mp head.symm).symm
  | cons a c =>
      cases c' with
      | nil => cases head
      | cons b c' =>
          cases head
          have enough : c.length < c.length + c'.length + 1 := by omega
          have enough' : c'.length < c.length + c'.length + 1 := by omega
          have first := ring.walk_eq enough
          have second := ring'.walk_eq enough'
          exact first.symm.trans second

end NanoTrade
