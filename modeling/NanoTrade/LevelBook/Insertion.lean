import NanoTrade.Ends
import NanoTrade.LevelBook.Levels

/-!
# A new level in the list of its side

`addOrdersAtPrice` is the insertion into a sorted list, on circular links. Nothing but the list of
the one side is taken to be well-formed here, so the result is about both books.

`addOrdersAtPrice_sorted`: the scan ends, and the new level is where its price belongs.
-/

namespace NanoTrade

namespace LevelBook

variable {κ σ : Type}

/-- The levels of one side: a circle of blocks of the pool, strictly sorted from the best level. -/
structure LevelList (s : LevelBook κ σ) (side : BookSide) (nodes : List LevelNode) : Prop where
  head : s.best side.toSide = (nodes.map LevelNode.ptr).head?
  ring : s.LevelRing (nodes.map LevelNode.ptr)
  ownSide : ∀ n ∈ nodes, (s.level n.ptr).side = side.toSide
  price : ∀ n ∈ nodes, (s.level n.ptr).price = n.price
  sorted : nodes.Pairwise (LevelNode.Ahead side)
  block : ∀ n ∈ nodes, n.ptr < s.ordersAtPricePool.size

section Insertion

variable {L : BookLayout κ σ} {s s' : LevelBook κ σ} {side : BookSide}
  {nodes : List LevelNode} {new : LevelNode}

/-- A level of another price is in another block. -/
theorem LevelList.fresh (list : LevelList s side nodes)
    (newPrice : (s.level new.ptr).price = new.price) (apart : ∀ n ∈ nodes, n.price ≠ new.price) :
    new.ptr ∉ nodes.map LevelNode.ptr := by
  intro mem
  obtain ⟨n, nMem, same⟩ := List.mem_map.mp mem
  refine apart n nMem ?_
  rw [← list.price n nMem, same, newPrice]

/-- A list that does not have all blocks of the pool is shorter than it. -/
theorem LevelList.room (list : LevelList s side nodes)
    (fresh : new.ptr ∉ nodes.map LevelNode.ptr) (block : new.ptr < s.ordersAtPricePool.size) :
    nodes.length < s.ordersAtPricePool.size := by
  have within : new.ptr :: nodes.map LevelNode.ptr ⊆ List.range s.ordersAtPricePool.size := by
    intro p mem
    rcases List.mem_cons.mp mem with rfl | mem
    · exact List.mem_range.mpr block
    · obtain ⟨n, nMem, rfl⟩ := List.mem_map.mp mem
      exact List.mem_range.mpr (list.block n nMem)
  have distinct : (new.ptr :: nodes.map LevelNode.ptr).Nodup :=
    List.nodup_cons.mpr ⟨fresh, list.ring.nodup⟩
  have length := (List.subperm_of_subset distinct within).length_le
  rw [List.length_cons, List.length_map, List.length_range] at length
  omega

/-- What is known of the levels of the list and of the new one is known after the links of all. -/
theorem LevelList.known (list : LevelList s side nodes)
    (newSide : (s.level new.ptr).side = side.toSide)
    (newPrice : (s.level new.ptr).price = new.price) (block : new.ptr < s.ordersAtPricePool.size)
    {index : Nat} {value : Option Ptr} (relinked : Relinked (s.setSlot index value) s') :
    ∀ n ∈ new :: nodes, (s'.level n.ptr).side = side.toSide ∧ (s'.level n.ptr).price = n.price ∧
      n.ptr < s'.ordersAtPricePool.size := by
  intro n mem
  rw [relinked.side, relinked.price, relinked.size]
  rcases List.mem_cons.mp mem with rfl | mem
  · exact ⟨newSide, newPrice, block⟩
  · exact ⟨list.ownSide n mem, list.price n mem, list.block n mem⟩

/-- The head of a sorted insertion is the new level exactly where that ranks first. -/
theorem head_orderedInsert_iff (fresh : new.ptr ∉ nodes.map LevelNode.ptr) :
    ((nodes.orderedInsert (LevelNode.Ahead side) new).map LevelNode.ptr).head? ≠
        (nodes.map LevelNode.ptr).head? ↔
      ∀ best ∈ nodes.head?, LevelNode.Ahead side new best := by
  cases nodes with
  | nil => simp
  | cons best rest =>
      have other : new.ptr ≠ best.ptr := List.ne_of_not_mem_cons fresh
      by_cases ahead : LevelNode.Ahead side new best
      · rw [List.orderedInsert_cons_of_le _ _ ahead]
        simpa [other] using ahead
      · rw [List.orderedInsert_of_not_le _ _ ahead]
        simpa using ahead

/-- **Sorted insertion**: for a level of a new price the scan ends, and leaves a well-formed list of
the old levels and the new one, whose head is another one exactly if the new level is better than
the old best one. Only a price outside the window of the book ends the process. -/
theorem addOrdersAtPrice_sorted (L : BookLayout κ σ) (list : LevelList s side nodes)
    (newSide : (s.level new.ptr).side = side.toSide)
    (newPrice : (s.level new.ptr).price = new.price) (block : new.ptr < s.ordersAtPricePool.size)
    (apart : ∀ n ∈ nodes, n.price ≠ new.price) :
    Ends
      (fun f => f = .outsideWindow new.price ∧ L.inWindow s.basePrice new.price = false)
      (s.addOrdersAtPrice L new.ptr) fun s' =>
        ∃ nodes' : List LevelNode, nodes'.Perm (new :: nodes) ∧ LevelList s' side nodes' ∧
          (∀ p, (s'.level p).firstOrder = (s.level p).firstOrder) ∧
          (s'.best side.toSide ≠ s.best side.toSide ↔
            ∀ best ∈ nodes.head?, side.Ahead new.price best.price) := by
  cases inside : L.inWindow s.basePrice new.price with
  | false =>
      rw [LevelBook.addOrdersAtPrice, newPrice, BookLayout.priceToIndex_of_outside inside]
      exact Ends.error ⟨rfl, rfl⟩
  | true =>
      have fresh := list.fresh newPrice apart
      obtain ⟨s', added, relinked, ring, head, -, -⟩ :=
        addOrdersAtPrice_orderedInsert L list.ring list.head list.price fresh newSide newPrice apart
          (list.room fresh block) (BookLayout.priceToIndex_of_inside inside)
      have perm := List.perm_orderedInsert (LevelNode.Ahead side) new nodes
      have known := list.known newSide newPrice block relinked
      rw [added]
      refine Ends.ok ⟨_, perm, ⟨head, ring, ?_, ?_, sorted_orderedInsert list.sorted apart, ?_⟩,
        relinked.firstOrder, ?_⟩
      · exact fun n mem => (known n (perm.mem_iff.mp mem)).1
      · exact fun n mem => (known n (perm.mem_iff.mp mem)).2.1
      · exact fun n mem => (known n (perm.mem_iff.mp mem)).2.2
      · rw [head, list.head]
        exact head_orderedInsert_iff fresh

end Insertion

/-- A layout with the window of the source. -/
def windowLayout : BookLayout Unit Unit :=
  { slot := fun _ => .ok ()
    inWindow := priceInWindow
    index := windowIndex
    guardsNullLinks := true
    nullsLoneLinks := true }

/-- Bids at 100 and 90, and a level at 95 that is not linked in. -/
def twoBids : LevelBook Unit Unit :=
  let s := (LevelBook.new () 0).setBest .BUY (some 0)
  let s := s.writeLevel 0 fun _ => ⟨.BUY, 100, none, some 1, some 1⟩
  let s := s.writeLevel 1 fun _ => ⟨.BUY, 90, none, some 0, some 0⟩
  s.writeLevel 2 fun _ => .unlinked .BUY 95 none

theorem levelList_twoBids : LevelList twoBids .bid [⟨0, 100⟩, ⟨1, 90⟩] := by
  refine ⟨rfl, ?_, ?_, ?_, by decide, by decide⟩
  · refine (ring_concat (c := [0]) (a := 1)).mpr ⟨by decide, ?_⟩
    exact .cons_cons ⟨rfl, rfl⟩ (.cons_cons ⟨rfl, rfl⟩ (.singleton _))
  · exact List.forall_mem_cons.mpr ⟨rfl, List.forall_mem_singleton.mpr rfl⟩
  · exact List.forall_mem_cons.mpr ⟨rfl, List.forall_mem_singleton.mpr rfl⟩

/-- The level at 95. -/
def thirdBid : LevelNode :=
  { ptr := 2, price := 95 }

theorem addOrdersAtPrice_sorted_between :
    Ends
      (fun f => f = .outsideWindow thirdBid.price ∧
        windowLayout.inWindow twoBids.basePrice thirdBid.price = false)
      (twoBids.addOrdersAtPrice windowLayout thirdBid.ptr) fun s' =>
        ∃ nodes' : List LevelNode, nodes'.Perm [thirdBid, ⟨0, 100⟩, ⟨1, 90⟩] ∧
          LevelList s' .bid nodes' ∧
          (∀ p, (s'.level p).firstOrder = (twoBids.level p).firstOrder) ∧
          (s'.best BookSide.bid.toSide ≠ twoBids.best BookSide.bid.toSide ↔
            ∀ best ∈ [(⟨0, 100⟩ : LevelNode), ⟨1, 90⟩].head?,
              BookSide.bid.Ahead thirdBid.price best.price) :=
  addOrdersAtPrice_sorted windowLayout levelList_twoBids rfl rfl (by decide) (by decide)

end LevelBook

end NanoTrade
