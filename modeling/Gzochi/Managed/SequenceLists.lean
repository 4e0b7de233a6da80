import Gzochi.Managed.Sequence
import Gzochi.Lib.LinkedList
import Mathlib.Data.List.Perm.Subperm
import Mathlib.Data.List.Nodup

/-!
# Managed sequences as lists

The list nodes of a sequence, in the order of their links, hold the elements of a list.
Each procedure does to that list what the same procedure does to a plain list, except
where it goes wrong: an insertion after the last element, a deletion that leaves the first
or the last of several nodes empty, setting an element to `#f`, and asking for an element
that is not the first one.
-/

namespace Gzochi.Managed.Sequences

open List Function

open Gzochi.Lib (Chained Run)

variable {Value Seed : Type}

def Slot.value : Slot Value → Option Value
  | .empty => none
  | .entry value => some value
  | .removed => none

/-- The slot an element is put in. -/
def Slot.of : Option Value → Slot Value
  | none => .empty
  | some value => .entry value

@[simp] theorem Slot.value_of (obj : Option Value) : (Slot.of obj).value = obj := by
  cases obj <;> rfl

theorem Slot.of_ne_removed (obj : Option Value) : Slot.of obj ≠ .removed := by
  cases obj <;> nofun

/-- The first elements of a vector. -/
def elementsOf (contents : Contents Value) (size : Nat) : List (Option Value) :=
  (List.range size).map fun slot => (contents slot).value

@[simp] theorem length_elementsOf (contents : Contents Value) (size : Nat) :
    (elementsOf contents size).length = size := by
  simp [elementsOf]

theorem getElem?_elementsOf (contents : Contents Value) (size slot : Nat) :
    (elementsOf contents size)[slot]? =
      if slot < size then some (contents slot).value else none := by
  unfold elementsOf
  rw [List.getElem?_map]
  split
  · rename_i inside
    rw [List.getElem?_range inside]
    rfl
  · rename_i outside
    rw [List.getElem?_eq_none (by simpa using outside)]
    rfl

/-- A vector whose first slots do not refer to removed entries. -/
def Intact (contents : Contents Value) (size : Nat) : Prop :=
  ∀ slot < size, contents slot ≠ .removed

variable {contents : Contents Value} {size : Nat}

theorem managedVectorRef_ok {slot : Nat} (intact : Intact contents size) (inside : slot < size) :
    managedVectorRef contents slot = .ok (contents slot).value := by
  have present := intact slot inside
  unfold managedVectorRef
  cases at_slot : contents slot with
  | empty => rfl
  | entry value => rfl
  | removed => exact absurd at_slot present

variable {i : Nat}

/-- An element put in a slot after the others were shifted. -/
theorem managedVectorSet_shiftRight (contents : Contents Value) (small : i ≤ maxSize)
    (obj : Option Value) :
    managedVectorSet (managedVectorShiftRight contents i) i obj =
      .ok (update (managedVectorShiftRight contents i) i (Slot.of obj)) := by
  have cleared : managedVectorShiftRight contents i i = .empty := by
    unfold managedVectorShiftRight
    rw [if_neg (by omega), if_pos rfl]
  unfold managedVectorSet
  rw [cleared]
  cases obj with
  | none =>
    rw [show Slot.of (none : Option Value) = managedVectorShiftRight contents i i from cleared.symm,
      update_eq_self]
  | some value => rfl

theorem elementsOf_insert (contents : Contents Value) (small : size ≤ maxSize) (inside : i ≤ size)
    (obj : Option Value) :
    elementsOf (update (managedVectorShiftRight contents i) i (Slot.of obj)) (size + 1) =
      (elementsOf contents size).insertIdx i obj := by
  refine ext_getElem? fun slot => ?_
  rw [getElem?_elementsOf, List.getElem?_insertIdx, length_elementsOf]
  rcases Nat.lt_trichotomy slot i with less | rfl | more
  · rw [if_pos (by omega), if_pos less, update_of_ne (by omega), getElem?_elementsOf,
      if_pos (by omega)]
    unfold managedVectorShiftRight
    rw [if_pos (.inl less)]
  · rw [if_pos (by omega), if_neg (by omega), if_pos rfl, if_pos inside, update_self, Slot.value_of]
  · rw [if_neg (Nat.not_lt_of_gt more), if_neg (Nat.ne_of_gt more), getElem?_elementsOf,
      update_of_ne (Nat.ne_of_gt more)]
    unfold managedVectorShiftRight
    by_cases there : slot < size + 1
    · rw [if_pos there, if_neg (show ¬ (slot < i ∨ maxSize < slot) by omega),
        if_neg (Nat.ne_of_gt more), if_pos (show slot - 1 < size by omega)]
    · rw [if_neg there, if_neg (by omega)]

theorem intact_insert (intact : Intact contents size) (small : size ≤ maxSize) (inside : i ≤ size)
    (obj : Option Value) :
    Intact (update (managedVectorShiftRight contents i) i (Slot.of obj)) (size + 1) := by
  intro slot there
  by_cases same : slot = i
  · rw [same, update_self]
    exact Slot.of_ne_removed obj
  · rw [update_of_ne same]
    unfold managedVectorShiftRight
    split
    · exact intact slot (by omega)
    · exact intact (slot - 1) (by omega)

theorem elementsOf_delete (contents : Contents Value) (small : size ≤ maxSize) (inside : i < size) :
    elementsOf (managedVectorShiftLeft contents i) (size - 1) =
      (elementsOf contents size).eraseIdx i := by
  refine ext_getElem? fun slot => ?_
  rw [getElem?_elementsOf, List.getElem?_eraseIdx, getElem?_elementsOf, getElem?_elementsOf]
  unfold managedVectorShiftLeft
  by_cases less : slot < i
  · rw [if_pos (by omega), if_pos (.inl less), if_pos less, if_pos (by omega)]
  · rw [if_neg less]
    by_cases there : slot < size - 1
    · rw [if_pos there, if_neg (by omega), if_neg (by omega), if_pos (by omega)]
    · rw [if_neg there, if_neg (by omega)]

theorem intact_delete (intact : Intact contents size) (small : size ≤ maxSize) (inside : i < size) :
    Intact (managedVectorShiftLeft contents i) (size - 1) := by
  intro slot there
  unfold managedVectorShiftLeft
  split
  · exact intact slot (by omega)
  · rw [if_neg (by omega)]
    exact intact (slot + 1) (by omega)

theorem elementsOf_set (inside : i < size) (obj : Option Value) :
    elementsOf (update contents i (Slot.of obj)) size = (elementsOf contents size).set i obj := by
  refine ext_getElem? fun slot => ?_
  rw [getElem?_elementsOf, List.getElem?_set, getElem?_elementsOf, length_elementsOf]
  by_cases same : i = slot
  · subst same
    simp [inside]
  · rw [update_of_ne (fun there => same there.symm), if_neg same]

variable {half : Nat}

/-- A vector that is divided holds the same elements in its two parts. -/
theorem elementsOf_transfer (contents : Contents Value) (inside : half ≤ size) :
    elementsOf (managedVectorTransfer (fun _ => .empty) 0 contents half size).2 half ++
        elementsOf (managedVectorTransfer (fun _ => .empty) 0 contents half size).1 (size - half) =
      elementsOf contents size := by
  refine ext_getElem? fun slot => ?_
  by_cases first : slot < half
  · have kept : (managedVectorTransfer (fun _ => .empty) 0 contents half size).2 slot =
        contents slot := if_neg (by omega)
    rw [List.getElem?_append_left (by simpa using first), getElem?_elementsOf, getElem?_elementsOf,
      if_pos first, if_pos (by omega), kept]
  · rw [List.getElem?_append_right (by simpa using first), getElem?_elementsOf, getElem?_elementsOf,
      length_elementsOf]
    by_cases there : slot < size
    · have place : slot - half - 0 + half = slot := by omega
      have moved : (managedVectorTransfer (fun _ => .empty) 0 contents half size).1 (slot - half) =
          contents (slot - half - 0 + half) := if_pos ⟨Nat.zero_le _, by omega⟩
      rw [if_pos (by omega), if_pos there, moved, place]
    · rw [if_neg (by omega), if_neg there]

theorem intact_transfer (intact : Intact contents size) (inside : half ≤ size) :
    Intact (managedVectorTransfer (fun _ => .empty) 0 contents half size).2 half ∧
      Intact (managedVectorTransfer (fun _ => .empty) 0 contents half size).1 (size - half) := by
  constructor
  · intro slot there
    have kept : (managedVectorTransfer (fun _ => .empty) 0 contents half size).2 slot =
        contents slot := if_neg (by omega)
    rw [kept]
    exact intact slot (by omega)
  · intro slot there
    have moved : (managedVectorTransfer (fun _ => .empty) 0 contents half size).1 slot =
        contents (slot - 0 + half) := if_pos ⟨Nat.zero_le _, by omega⟩
    rw [moved]
    exact intact _ (by omega)

def ListNode.elements (node : ListNode Value) : List (Option Value) :=
  elementsOf node.contents node.subsequenceSize

@[simp] theorem ListNode.length_elements (node : ListNode Value) :
    node.elements.length = node.subsequenceSize := length_elementsOf ..

/-- A node that can be used: it is there, its size is that of its subsequence, and so are
its elements. -/
structure ListNode.Usable (node : ListNode Value) : Prop where
  present : node.removed = false
  sized : node.size = node.subsequenceSize
  intact : Intact node.contents node.subsequenceSize

namespace Sequence

variable {seq : Sequence Value} {ids xs ys : List NodeId} {id : NodeId}

/-- The elements of some nodes. -/
def elements (seq : Sequence Value) (ids : List NodeId) : List (Option Value) :=
  ids.flatMap fun id => (seq.node id).elements

/-- The nodes of a sequence are in order.  Only a single node may be empty. -/
structure Holds (seq : Sequence Value) (ids : List NodeId) : Prop where
  nodup : ids.Nodup
  allocated : ∀ id ∈ ids, id < seq.allocated
  usable : ∀ id ∈ ids, (seq.node id).Usable
  chained : Chained (fun id => (seq.node id).next) (fun id => (seq.node id).prev) none none ids
  filled : 2 ≤ ids.length → ∀ id ∈ ids, 0 < (seq.node id).subsequenceSize

theorem Holds.length_le (holds : seq.Holds ids) : ids.length ≤ seq.allocated := by
  have inside : ids ⊆ List.range seq.allocated := fun id member =>
    mem_range.2 (holds.allocated id member)
  have fewer := (holds.nodup.subperm inside).length_le
  rwa [length_range] at fewer

@[simp] theorem modify_node_self (seq : Sequence Value) (id : NodeId)
    (change : ListNode Value → ListNode Value) :
    (seq.modify id change).node id = change (seq.node id) := update_self ..

theorem modify_node_of_ne (seq : Sequence Value) {id other : NodeId} (differs : other ≠ id)
    (change : ListNode Value → ListNode Value) :
    (seq.modify id change).node other = seq.node other := update_of_ne differs ..

theorem listNode_ok (usable : (seq.node id).Usable) : seq.listNode id = .ok (seq.node id) := by
  unfold listNode
  rw [usable.present]
  rfl

theorem neighbour_ok {link : Option NodeId} (usable : ∀ id ∈ link, (seq.node id).Usable) :
    seq.neighbour link = .ok link := by
  cases link with
  | none => rfl
  | some id =>
    simp only [neighbour, listNode_ok (usable id rfl)]
    rfl

@[simp] theorem elements_append (seq : Sequence Value) (xs ys : List NodeId) :
    seq.elements (xs ++ ys) = seq.elements xs ++ seq.elements ys := flatMap_append

@[simp] theorem elements_cons (seq : Sequence Value) (id : NodeId) (ids : List NodeId) :
    seq.elements (id :: ids) = (seq.node id).elements ++ seq.elements ids := flatMap_cons

@[simp] theorem elements_nil (seq : Sequence Value) : seq.elements [] = [] := rfl

theorem elements_congr {other : Sequence Value}
    (same : ∀ id ∈ ids, (other.node id).elements = (seq.node id).elements) :
    other.elements ids = seq.elements ids := flatMap_congr fun id member => same id member

/-- A search goes to the node with the position it is for, or off the end. -/
theorem search_spec (fuel : Nat) {before : Option NodeId} (start k : Nat)
    (usable : ∀ x ∈ id :: ids, (seq.node x).Usable)
    (chained : Chained (fun id => (seq.node id).next) (fun id => (seq.node id).prev) before none
      (id :: ids))
    (enough : ids.length < fuel) :
    if k < (seq.elements (id :: ids)).length then
      ∃ xs x ys i, id :: ids = xs ++ x :: ys ∧ k = (seq.elements xs).length + i ∧
        i < (seq.node x).subsequenceSize ∧
        seq.searchManagedSequence fuel id start (start + k + 1) = .ok (x, i)
    else ∃ failure, seq.searchManagedSequence fuel id start (start + k + 1) = .error failure := by
  induction ids generalizing id before fuel start k with
  | nil =>
    rcases fuel with _ | fuel
    · cases enough
    have at_id := usable id mem_cons_self
    have last : (seq.node id).next = none := by simpa using chained.2.1
    simp only [elements_cons, elements_nil, append_nil, ListNode.length_elements]
    unfold searchManagedSequence
    rw [listNode_ok at_id]
    split
    · rename_i inside
      refine ⟨[], id, [], k, rfl, by simp, inside, ?_⟩
      simp only [Except.bind, bind, at_id.sized]
      rw [if_neg (by omega)]
      congr 2
      omega
    · rename_i outside
      refine ⟨outOfBounds, ?_⟩
      simp only [Except.bind, bind, at_id.sized, last]
      rw [if_pos (by omega)]
  | cons second ids ih =>
    rcases fuel with _ | fuel
    · cases enough
    have at_id := usable id mem_cons_self
    have next : (seq.node id).next = some second := by simpa using chained.2.1
    unfold searchManagedSequence
    rw [listNode_ok at_id]
    simp only [Except.bind, bind, at_id.sized, next]
    by_cases here : k < (seq.node id).subsequenceSize
    · rw [if_pos (by simp; omega), if_neg (by omega)]
      refine ⟨[], id, second :: ids, k, rfl, by simp, here, ?_⟩
      congr 2
      omega
    · rw [if_pos (show start + (seq.node id).subsequenceSize < start + k + 1 by omega)]
      have later := ih fuel (start + (seq.node id).subsequenceSize)
        (k - (seq.node id).subsequenceSize)
        (fun x member => usable x (mem_cons_of_mem _ member)) chained.2.2
        (by simp at enough; omega)
      have place : start + (seq.node id).subsequenceSize + (k - (seq.node id).subsequenceSize) + 1 =
          start + k + 1 := by omega
      rw [place] at later
      have total : (seq.elements (id :: second :: ids)).length =
          (seq.node id).subsequenceSize + (seq.elements (second :: ids)).length := by simp
      rw [total]
      split at later
      · rename_i inside
        rw [if_pos (by omega)]
        obtain ⟨xs, x, ys, i, split, position, small, found⟩ := later
        refine ⟨id :: xs, x, ys, i, by rw [split]; rfl, ?_, small, found⟩
        rw [elements_cons, length_append, ListNode.length_elements]
        omega
      · rename_i outside
        rw [if_neg (by omega)]
        exact later

/-- The node that is split off. -/
def splitNode (seq : Sequence Value) (id : NodeId) : ListNode Value :=
  let node := seq.node id
  let half := node.subsequenceSize / 2
  ⟨node.next, some id, node.subsequenceSize - half, node.subsequenceSize - half,
    (managedVectorTransfer (fun _ => .empty) 0 node.contents half node.subsequenceSize).1, false⟩

/-- The node that is left. -/
def leftNode (seq : Sequence Value) (id : NodeId) : ListNode Value :=
  let node := seq.node id
  let half := node.subsequenceSize / 2
  { node with
    next := some seq.allocated
    size := half
    subsequenceSize := half
    contents := (managedVectorTransfer (fun _ => .empty) 0 node.contents half
      node.subsequenceSize).2 }

/-- What splitting a node does to the nodes. -/
structure SplitNodes (seq split : Sequence Value) (id : NodeId) (ys : List NodeId) : Prop where
  allocated : split.allocated = seq.allocated + 1
  rootChild : split.rootChild = seq.rootChild
  head : split.head = seq.head
  tail : split.tail = seq.tail
  left : split.node id = seq.leftNode id
  right : split.node seq.allocated = seq.splitNode id
  next : ∀ y ∈ ys.head?, split.node y = { seq.node y with prev := some seq.allocated }
  elsewhere : ∀ x, x ≠ id → x ≠ seq.allocated → x ∉ ys.head? → split.node x = seq.node x

variable (holds : seq.Holds (xs ++ id :: ys))
include holds

theorem listNodeSplit_nodes :
    ∃ split, seq.listNodeSplit id = .ok split ∧ SplitNodes seq split id ys := by
  have at_id := holds.usable id (by simp)
  have below := holds.allocated id (by simp)
  have next : (seq.node id).next = ys.head? := holds.chained.at_node.2
  have next_usable : ∀ y ∈ (seq.node id).next, (seq.node y).Usable := by
    intro y follows
    rw [next] at follows
    exact holds.usable y (by simp [mem_of_mem_head? follows])
  unfold listNodeSplit
  rw [listNode_ok at_id]
  simp only [Except.bind, bind, neighbour_ok next_usable]
  refine ⟨_, rfl, ?_⟩
  cases ys with
  | nil =>
    rw [List.head?_nil] at next
    have fresh : seq.allocated ≠ id := Nat.ne_of_gt below
    simp only [next]
    refine ⟨rfl, rfl, rfl, rfl, ?_, ?_, nofun, ?_⟩
    · rw [modify_node_self]
      simp [leftNode, update_of_ne fresh.symm]
    · rw [modify_node_of_ne _ fresh]
      simp [splitNode, next]
    · intro x not_id not_new _
      rw [modify_node_of_ne _ not_id]
      simp [update_of_ne not_new]
  | cons y ys =>
    rw [List.head?_cons] at next
    have fresh : seq.allocated ≠ id := Nat.ne_of_gt below
    have y_below := holds.allocated y (by simp)
    have y_fresh : seq.allocated ≠ y := Nat.ne_of_gt y_below
    have apart : y ≠ id := by
      have distinct := (nodup_append.1 holds.nodup).2.1
      rw [nodup_cons] at distinct
      rintro rfl
      exact distinct.1 mem_cons_self
    simp only [next]
    refine ⟨rfl, rfl, rfl, rfl, ?_, ?_, ?_, ?_⟩
    · rw [modify_node_self, modify_node_of_ne _ apart.symm]
      simp [leftNode, update_of_ne fresh.symm]
    · rw [modify_node_of_ne _ fresh, modify_node_of_ne _ y_fresh]
      simp [splitNode, next]
    · intro other follows
      obtain rfl : y = other := by simpa using follows
      rw [modify_node_of_ne _ apart, modify_node_self]
      simp [update_of_ne y_fresh.symm]
    · intro x not_id not_new not_next
      have not_y : x ≠ y := fun same => not_next (by simp [same])
      rw [modify_node_of_ne _ not_id, modify_node_of_ne _ not_y]
      simp [update_of_ne not_new]

theorem Holds.fresh : seq.allocated ∉ xs ++ id :: ys := fun member =>
  Nat.lt_irrefl _ (holds.allocated _ member)

theorem Holds.ne_of_mem {x : NodeId} (member : x ∈ xs ++ ys) : x ≠ id ∧ x ≠ seq.allocated := by
  constructor
  · rintro rfl
    exact (nodup_cons.1 (nodup_middle.1 holds.nodup)).1 member
  · rintro rfl
    refine holds.fresh ?_
    rw [mem_append] at member
    rcases member with first | last
    · exact mem_append_left _ first
    · exact mem_append_right _ (mem_cons_of_mem _ last)

namespace SplitNodes

variable {split : Sequence Value} (nodes : SplitNodes seq split id ys)

theorem nodup : (xs ++ id :: seq.allocated :: ys).Nodup := by
  have moved : (seq.allocated :: (xs ++ id :: ys)).Nodup :=
    nodup_cons.2 ⟨holds.fresh, holds.nodup⟩
  have order : (xs ++ id :: seq.allocated :: ys).Perm (seq.allocated :: (xs ++ id :: ys)) := by
    rw [← singleton_append, ← append_assoc]
    refine perm_middle.trans ?_
    rw [append_assoc, singleton_append]
  exact order.nodup_iff.2 moved

omit holds in
/-- A node after the split is one of the two, or was there before. -/
theorem mem_cases {x : NodeId} (member : x ∈ xs ++ id :: seq.allocated :: ys) :
    x = id ∨ x = seq.allocated ∨ x ∈ xs ++ ys := by
  rw [mem_append, mem_cons, mem_cons] at member
  rw [mem_append]
  tauto

include nodes

/-- Apart from the link of the next node to its predecessor, the other nodes are as before. -/
theorem others {x : NodeId} (member : x ∈ xs ++ ys) : split.node x = seq.node x ∨
    split.node x = { seq.node x with prev := some seq.allocated } := by
  obtain ⟨not_id, not_new⟩ := holds.ne_of_mem member
  by_cases next : x ∈ ys.head?
  · exact .inr (nodes.next x next)
  · exact .inl (nodes.elsewhere x not_id not_new next)

theorem usable {x : NodeId} (member : x ∈ xs ++ id :: seq.allocated :: ys) :
    (split.node x).Usable := by
  have before := holds.usable id (by simp)
  have intact := intact_transfer before.intact (Nat.div_le_self (seq.node id).subsequenceSize 2)
  rcases mem_cases member with rfl | rfl | there
  · rw [nodes.left]
    exact ⟨before.present, rfl, intact.1⟩
  · rw [nodes.right]
    exact ⟨rfl, rfl, intact.2⟩
  · have before := holds.usable x (by
      rw [mem_append, mem_cons]
      rw [mem_append] at there
      tauto)
    rcases nodes.others holds there with same | same
    · rw [same]
      exact before
    · rw [same]
      exact ⟨before.present, before.sized, before.intact⟩

theorem chained : Chained (fun id => (split.node id).next) (fun id => (split.node id).prev)
    none none (xs ++ id :: seq.allocated :: ys) := by
  have distinct := holds.nodup
  refine holds.chained.insert_after ?_ ?_ ?_ ?_ ?_ ?_ ?_
  · rw [nodes.left]
    rfl
  · rw [nodes.right]
    exact holds.chained.at_node.2
  · rw [nodes.right]
    rfl
  · intro x member
    rcases mem_append.1 member with first | last
    · obtain ⟨not_id, not_new⟩ := holds.ne_of_mem (mem_append_left _ first)
      rw [nodes.elsewhere x not_id not_new]
      intro next
      have twice := (nodup_append.1 distinct).2.2 x first x
        (mem_cons_of_mem _ (mem_of_mem_head? next))
      exact twice rfl
    · rw [mem_singleton.1 last, nodes.left]
      rfl
  · intro x member
    rcases nodes.others holds member with same | same <;> rw [same]
  · intro y next
    rw [nodes.next y next]
  · intro y later
    obtain ⟨not_id, not_new⟩ := holds.ne_of_mem (mem_append_right xs (mem_of_mem_tail later))
    rw [nodes.elsewhere y not_id not_new]
    intro next
    cases ys with
    | nil => cases later
    | cons z ys =>
      obtain rfl : z = y := by simpa using next
      have twice := (nodup_cons.1 (nodup_append.1 distinct).2.1).2
      exact (nodup_cons.1 twice).1 later

theorem subsequenceSize_eq : ∀ x ∈ xs ++ ys,
    (split.node x).subsequenceSize = (seq.node x).subsequenceSize := by
  intro x member
  rcases nodes.others holds member with same | same <;> rw [same]

theorem filled (several : 2 ≤ (seq.node id).subsequenceSize) {x : NodeId}
    (member : x ∈ xs ++ id :: seq.allocated :: ys) : 0 < (split.node x).subsequenceSize := by
  rcases mem_cases member with rfl | rfl | there
  · rw [nodes.left]
    show 0 < (seq.node x).subsequenceSize / 2
    omega
  · rw [nodes.right]
    show 0 < (seq.node id).subsequenceSize - (seq.node id).subsequenceSize / 2
    omega
  · rw [nodes.subsequenceSize_eq holds x there]
    refine holds.filled ?_ x ?_
    · have some_other := length_pos_of_mem there
      rw [length_append] at some_other
      rw [length_append, length_cons]
      omega
    · rw [mem_append, mem_cons]
      rw [mem_append] at there
      tauto

theorem holds_split (several : 2 ≤ (seq.node id).subsequenceSize) :
    split.Holds (xs ++ id :: seq.allocated :: ys) where
  nodup := SplitNodes.nodup holds
  allocated := by
    intro x member
    rw [nodes.allocated]
    rcases mem_cases member with rfl | rfl | there
    · exact Nat.lt_succ_of_lt (holds.allocated _ (by simp))
    · exact Nat.lt_succ_self _
    · refine Nat.lt_succ_of_lt (holds.allocated x ?_)
      rw [mem_append, mem_cons]
      rw [mem_append] at there
      tauto
  usable _ member := nodes.usable holds member
  chained := nodes.chained holds
  filled _ _ member := nodes.filled holds several member

theorem elements_eq : split.elements (xs ++ id :: seq.allocated :: ys) =
    seq.elements (xs ++ id :: ys) := by
  have parts : (split.node id).elements ++ (split.node seq.allocated).elements =
      (seq.node id).elements := by
    rw [nodes.left, nodes.right]
    exact elementsOf_transfer (seq.node id).contents (Nat.div_le_self ..)
  have same_elements : ∀ x ∈ xs ++ ys, (split.node x).elements = (seq.node x).elements := by
    intro x member
    rcases nodes.others holds member with same | same
    · rw [same]
    · rw [same]
      rfl
  simp only [elements_append, elements_cons]
  rw [elements_congr fun x member => same_elements x (mem_append_left _ member),
    elements_congr fun x member => same_elements x (mem_append_right _ member),
    ← parts, append_assoc]

end SplitNodes

/-- A node that is split keeps its elements in two nodes. -/
theorem listNodeSplit_spec (several : 2 ≤ (seq.node id).subsequenceSize) :
    ∃ split, seq.listNodeSplit id = .ok split ∧
      split.rootChild = seq.rootChild ∧ split.head = seq.head ∧ split.tail = seq.tail ∧
      split.Holds (xs ++ id :: seq.allocated :: ys) ∧
      split.elements (xs ++ id :: seq.allocated :: ys) = seq.elements (xs ++ id :: ys) ∧
      (split.node id).subsequenceSize = (seq.node id).subsequenceSize / 2 ∧
      (split.node seq.allocated).subsequenceSize =
        (seq.node id).subsequenceSize - (seq.node id).subsequenceSize / 2 ∧
      ∀ x ∈ xs ++ ys, (split.node x).subsequenceSize = (seq.node x).subsequenceSize := by
  obtain ⟨split, done, nodes⟩ := listNodeSplit_nodes holds
  refine ⟨split, done, nodes.rootChild, nodes.head, nodes.tail, nodes.holds_split holds several,
    nodes.elements_eq holds, ?_, ?_, nodes.subsequenceSize_eq holds⟩
  · rw [nodes.left]
    rfl
  · rw [nodes.right]
    rfl

theorem Holds.modify {change : ListNode Value → ListNode Value}
    (next : (change (seq.node id)).next = (seq.node id).next)
    (prev : (change (seq.node id)).prev = (seq.node id).prev)
    (usable : (change (seq.node id)).Usable)
    (filled : 2 ≤ (xs ++ id :: ys).length → 0 < (change (seq.node id)).subsequenceSize) :
    (seq.modify id change).Holds (xs ++ id :: ys) ∧
      (seq.modify id change).elements (xs ++ id :: ys) =
        seq.elements xs ++ ((change (seq.node id)).elements ++ seq.elements ys) ∧
      ∀ x ∈ xs ++ ys, (seq.modify id change).node x = seq.node x := by
  have elsewhere : ∀ x ∈ xs ++ ys, (seq.modify id change).node x = seq.node x := by
    intro x member
    refine modify_node_of_ne _ ?_ _
    rintro rfl
    exact (nodup_cons.1 (nodup_middle.1 holds.nodup)).1 member
  have cases_of : ∀ {motive : NodeId → Prop}, motive id → (∀ x ∈ xs ++ ys, motive x) →
      ∀ x ∈ xs ++ id :: ys, motive x := by
    intro motive here others x member
    rw [mem_append, mem_cons] at member
    rcases member with first | rfl | last
    · exact others x (mem_append_left _ first)
    · exact here
    · exact others x (mem_append_right _ last)
  have inside : ∀ x ∈ xs ++ ys, x ∈ xs ++ id :: ys := by
    intro x member
    rw [mem_append] at member
    rw [mem_append, mem_cons]
    tauto
  refine ⟨⟨holds.nodup, holds.allocated, ?_, ?_, ?_⟩, ?_, elsewhere⟩
  · refine cases_of ?_ fun x member => ?_
    · rw [modify_node_self]
      exact usable
    · rw [elsewhere x member]
      exact holds.usable x (inside x member)
  · refine holds.chained.congr (cases_of ?_ fun x member => ?_) (cases_of ?_ fun x member => ?_)
    · rw [modify_node_self]
      exact next
    · rw [elsewhere x member]
    · rw [modify_node_self]
      exact prev
    · rw [elsewhere x member]
  · intro several
    refine cases_of ?_ fun x member => ?_
    · rw [modify_node_self]
      exact filled several
    · rw [elsewhere x member]
      exact holds.filled several x (inside x member)
  · simp only [elements_append, elements_cons, modify_node_self]
    have front : (seq.modify id change).elements xs = seq.elements xs :=
      elements_congr fun x member => by rw [elsewhere x (mem_append_left _ member)]
    have back : (seq.modify id change).elements ys = seq.elements ys :=
      elements_congr fun x member => by rw [elsewhere x (mem_append_right _ member)]
    rw [front, back]

omit holds

/-- No node has more elements than it may. -/
def Small (seq : Sequence Value) (ids : List NodeId) : Prop :=
  ∀ id ∈ ids, (seq.node id).subsequenceSize ≤ maxSize

/-- A node with an element more. -/
def insertNode (i : Nat) (obj : Option Value) (node : ListNode Value) : ListNode Value :=
  { node with
    size := node.size + 1
    subsequenceSize := node.subsequenceSize + 1
    contents := update (managedVectorShiftRight node.contents i) i (Slot.of obj) }

variable {i : Nat}

theorem listNodeInsert_eq (usable : (seq.node id).Usable) (fits : i ≤ maxSize)
    (obj : Option Value) :
    seq.listNodeInsert id i obj =
      if maxSize ≤ (seq.node id).size then (seq.modify id (insertNode i obj)).listNodeSplit id
      else .ok (seq.modify id (insertNode i obj)) := by
  unfold listNodeInsert
  rw [listNode_ok usable]
  simp only [Except.bind, bind]
  rw [if_neg (by omega)]
  simp only [managedVectorSet_shiftRight _ fits]
  rfl

variable {node : ListNode Value}

theorem insertNode_usable (usable : node.Usable) (fits : node.subsequenceSize ≤ maxSize)
    (inside : i ≤ node.subsequenceSize) (obj : Option Value) : (insertNode i obj node).Usable :=
  ⟨usable.present, congrArg (· + 1) usable.sized, intact_insert usable.intact fits inside obj⟩

theorem listNodeInsert_spec (holds : seq.Holds (xs ++ id :: ys))
    (small : seq.Small (xs ++ id :: ys)) (inside : i ≤ (seq.node id).subsequenceSize)
    (obj : Option Value) :
    ∃ inserted new, seq.listNodeInsert id i obj = .ok inserted ∧ new.length ≤ 1 ∧
      inserted.rootChild = seq.rootChild ∧ inserted.head = seq.head ∧ inserted.tail = seq.tail ∧
      inserted.Holds (xs ++ id :: (new ++ ys)) ∧ inserted.Small (xs ++ id :: (new ++ ys)) ∧
      inserted.elements (xs ++ id :: (new ++ ys)) =
        seq.elements xs ++ ((seq.node id).elements.insertIdx i obj ++ seq.elements ys) := by
  have usable := holds.usable id (by simp)
  have fits := small id (by simp)
  obtain ⟨larger, elements, elsewhere⟩ := holds.modify (by rfl) (by rfl)
    (insertNode_usable usable fits inside obj) (fun _ => Nat.succ_pos _)
  have own : (insertNode i obj (seq.node id)).elements = (seq.node id).elements.insertIdx i obj :=
    elementsOf_insert (seq.node id).contents fits inside obj
  rw [own] at elements
  rw [listNodeInsert_eq usable (Nat.le_trans inside fits)]
  have small_elsewhere : ∀ x ∈ xs ++ ys,
      ((seq.modify id (insertNode i obj)).node x).subsequenceSize ≤ maxSize := by
    intro x member
    rw [elsewhere x member]
    rw [mem_append] at member
    refine small x ?_
    rw [mem_append, mem_cons]
    tauto
  split
  · rename_i full
    have size : ((seq.modify id (insertNode i obj)).node id).subsequenceSize = maxSize + 1 := by
      rw [modify_node_self]
      show (seq.node id).subsequenceSize + 1 = maxSize + 1
      rw [usable.sized] at full
      omega
    have several : 2 ≤ ((seq.modify id (insertNode i obj)).node id).subsequenceSize := by
      rw [size]
      decide
    obtain ⟨split, done, rootChild, head, tail, holds', elements', at_id, at_new, others⟩ :=
      listNodeSplit_spec larger several
    refine ⟨split, [seq.allocated], done, Nat.le_refl _, rootChild, head, tail, holds', ?_, ?_⟩
    · intro x member
      rw [mem_append, mem_cons, singleton_append, mem_cons] at member
      rcases member with first | rfl | rfl | last
      · rw [others x (mem_append_left _ first)]
        exact small_elsewhere x (mem_append_left _ first)
      · rw [at_id, size]
        decide
      · rw [show seq.allocated = (seq.modify id (insertNode i obj)).allocated from rfl, at_new,
          size]
        decide
      · rw [others x (mem_append_right _ last)]
        exact small_elsewhere x (mem_append_right _ last)
    · exact elements'.trans elements
  · rename_i room
    refine ⟨_, [], rfl, Nat.zero_le _, rfl, rfl, rfl, larger, ?_, elements⟩
    intro x member
    rw [nil_append, mem_append, mem_cons] at member
    rcases member with first | rfl | last
    · exact small_elsewhere x (mem_append_left _ first)
    · rw [modify_node_self]
      show (seq.node x).subsequenceSize + 1 ≤ maxSize
      rw [usable.sized] at room
      omega
    · exact small_elsewhere x (mem_append_right _ last)

/-- A node with an element less. -/
def deleteNode (i : Nat) (node : ListNode Value) : ListNode Value :=
  { node with
    size := node.size - 1
    subsequenceSize := node.subsequenceSize - 1
    contents := managedVectorShiftLeft node.contents i }

theorem deleteNode_usable (usable : node.Usable) (fits : node.subsequenceSize ≤ maxSize)
    (inside : i < node.subsequenceSize) :
    (deleteNode i node).Usable :=
  ⟨usable.present, congrArg (· - 1) usable.sized, intact_delete usable.intact fits inside⟩

/-- The node that loses its only element is between two others, or the only one. -/
def EndsKept (node : ListNode Value) : Prop :=
  node.size = 1 → (node.next = none ↔ node.prev = none)

theorem listNodeDeleteAt_eq (usable : (seq.node id).Usable) (i : Nat) : seq.listNodeDeleteAt id i =
      (seq.modify id fun node => { node with
        contents := managedVectorShiftLeft node.contents i
        subsequenceSize := node.subsequenceSize - 1 }).listNodeDecrement id := by
  unfold listNodeDeleteAt
  rw [listNode_ok usable]
  rfl

theorem modify_modify (seq : Sequence Value) (id : NodeId)
    (first second : ListNode Value → ListNode Value) :
    (seq.modify id first).modify id second = seq.modify id (second ∘ first) := by
  unfold modify
  simp

theorem listNodeDeleteAt_many (usable : (seq.node id).Usable) (i : Nat)
    (several : (seq.node id).size ≠ 1) :
    seq.listNodeDeleteAt id i = .ok (seq.modify id (deleteNode i)) := by
  rw [listNodeDeleteAt_eq usable]
  unfold listNodeDecrement listNode
  simp only [modify_node_self, usable.present, Bool.false_eq_true, if_false, Except.bind, bind,
    if_neg several, modify_modify]
  rfl

theorem listNodeDeleteAt_only (usable : (seq.node id).Usable) (i : Nat)
    (next : (seq.node id).next = none) (prev : (seq.node id).prev = none) :
    seq.listNodeDeleteAt id i = .ok (seq.modify id (deleteNode i)) := by
  rw [listNodeDeleteAt_eq usable]
  unfold listNodeDecrement listNode
  simp only [modify_node_self, usable.present, Bool.false_eq_true, if_false, Except.bind, bind,
    modify_modify, next, prev, neighbour]
  split <;> rfl

/-- The sequence without a node that was between two others. -/
def unlinked (seq : Sequence Value) (id before after : NodeId) (i : Nat) : Sequence Value :=
  (((seq.modify id (deleteNode i)).modify before fun node =>
    { node with next := some after }).modify
    after fun node => { node with prev := some before }).modify id fun node =>
      { node with removed := true }

variable {before after : NodeId}

theorem listNodeDeleteAt_inner (usable : (seq.node id).Usable) (i : Nat)
    (one : (seq.node id).size = 1) (next : (seq.node id).next = some after)
    (prev : (seq.node id).prev = some before) (after_usable : (seq.node after).Usable)
    (before_usable : (seq.node before).Usable) (after_ne : after ≠ id) (before_ne : before ≠ id) :
    seq.listNodeDeleteAt id i = .ok (seq.unlinked id before after i) := by
  rw [listNodeDeleteAt_eq usable]
  have removed : (seq.modify id (deleteNode i)).node after = seq.node after ∧
      (seq.modify id (deleteNode i)).node before = seq.node before :=
    ⟨modify_node_of_ne _ after_ne _, modify_node_of_ne _ before_ne _⟩
  have same : (seq.modify id ((fun node : ListNode Value => { node with size := node.size - 1 }) ∘
      fun node => { node with
        contents := managedVectorShiftLeft node.contents i
        subsequenceSize := node.subsequenceSize - 1 })) = seq.modify id (deleteNode i) := rfl
  unfold listNodeDecrement listNode
  simp only [modify_node_self, usable.present, Bool.false_eq_true, if_false, Except.bind, bind,
    modify_modify, same, next, prev, neighbour, one, if_true]
  unfold listNode
  simp only [removed, after_usable.present, before_usable.present, Bool.false_eq_true, if_false]
  rfl

theorem unlinked_spec (holds : seq.Holds ((xs ++ [before]) ++ id :: after :: ys)) :
    (seq.unlinked id before after i).Holds ((xs ++ [before]) ++ after :: ys) ∧
      ∀ x ∈ (xs ++ [before]) ++ after :: ys,
        ((seq.unlinked id before after i).node x).elements = (seq.node x).elements := by
  have distinct := holds.nodup
  have absent : id ∉ (xs ++ [before]) ++ after :: ys :=
    (nodup_cons.1 (nodup_middle.1 distinct)).1
  have rest : ((xs ++ [before]) ++ after :: ys).Nodup :=
    (nodup_cons.1 (nodup_middle.1 distinct)).2
  have before_ne_after : before ≠ after :=
    (nodup_append.1 rest).2.2 before (by simp) after (by simp)
  have not_id : ∀ x ∈ (xs ++ [before]) ++ after :: ys, x ≠ id := by
    rintro x member rfl
    exact absent member
  have inside : ∀ x ∈ (xs ++ [before]) ++ after :: ys,
      x ∈ (xs ++ [before]) ++ id :: after :: ys := by
    intro x member
    rw [mem_append] at member
    rw [mem_append, mem_cons]
    tauto
  -- Of the nodes that are left, only two have a link changed.
  have at_before : (seq.unlinked id before after i).node before =
      { seq.node before with next := some after } := by
    unfold unlinked
    rw [modify_node_of_ne _ (not_id before (by simp)), modify_node_of_ne _ before_ne_after,
      modify_node_self, modify_node_of_ne _ (not_id before (by simp))]
  have at_after : (seq.unlinked id before after i).node after =
      { seq.node after with prev := some before } := by
    unfold unlinked
    rw [modify_node_of_ne _ (not_id after (by simp)), modify_node_self,
      modify_node_of_ne _ before_ne_after.symm, modify_node_of_ne _ (not_id after (by simp))]
  have elsewhere : ∀ x ∈ (xs ++ [before]) ++ after :: ys, x ≠ before → x ≠ after →
      (seq.unlinked id before after i).node x = seq.node x := by
    intro x member not_before not_after
    unfold unlinked
    rw [modify_node_of_ne _ (not_id x member), modify_node_of_ne _ not_after,
      modify_node_of_ne _ not_before, modify_node_of_ne _ (not_id x member)]
  have links : ∀ x ∈ (xs ++ [before]) ++ after :: ys, ∃ next prev,
      (seq.unlinked id before after i).node x = { seq.node x with next := next, prev := prev } := by
    intro x member
    by_cases is_before : x = before
    · subst is_before
      exact ⟨_, _, at_before⟩
    · by_cases is_after : x = after
      · subst is_after
        exact ⟨_, _, at_after⟩
      · exact ⟨_, _, elsewhere x member is_before is_after⟩
  have not_before_of : ∀ x, x ∈ xs ∨ x ∈ after :: ys → x ≠ before := by
    rintro x (first | last) rfl
    · have front := (nodup_append.1 rest).1
      exact (nodup_append.1 front).2.2 x first x (by simp) rfl
    · exact (nodup_append.1 rest).2.2 x (by simp) x last rfl
  have not_after_of : ∀ x, x ∈ xs ++ [before] ∨ x ∈ ys → x ≠ after := by
    rintro x (first | last) rfl
    · exact (nodup_append.1 rest).2.2 x first x (by simp) rfl
    · exact (nodup_cons.1 (nodup_append.1 rest).2.1).1 last
  refine ⟨⟨rest, fun x member => holds.allocated x (inside x member), ?_, ?_, ?_⟩, ?_⟩
  · intro x member
    have usable := holds.usable x (inside x member)
    obtain ⟨next, prev, same⟩ := links x member
    rw [same]
    exact ⟨usable.present, usable.sized, usable.intact⟩
  · refine holds.chained.unlink ?_ ?_ ?_ ?_
    · rw [at_before]
    · rw [at_after]
    · intro x member
      rw [mem_append] at member
      by_cases is_after : x = after
      · rw [is_after, at_after]
      · rw [elsewhere x (by rw [mem_append, mem_append]; tauto) (not_before_of x member) is_after]
    · intro x member
      rw [mem_append] at member
      by_cases is_before : x = before
      · rw [is_before, at_before]
      · rw [elsewhere x (by rw [mem_append, mem_cons]; tauto) is_before (not_after_of x member)]
  · intro _ x member
    obtain ⟨next, prev, same⟩ := links x member
    rw [same]
    exact holds.filled (by simp; omega) x (inside x member)
  · intro x member
    obtain ⟨next, prev, same⟩ := links x member
    rw [same]
    rfl

/-- Deleting an element, where the node that loses it is not the first or the last of
several and empty then. -/
theorem listNodeDeleteAt_spec (holds : seq.Holds (xs ++ id :: ys))
    (small : seq.Small (xs ++ id :: ys)) (inside : i < (seq.node id).subsequenceSize)
    (kept : EndsKept (seq.node id)) :
    ∃ deleted ids, seq.listNodeDeleteAt id i = .ok deleted ∧
      deleted.rootChild = seq.rootChild ∧ deleted.head = seq.head ∧ deleted.tail = seq.tail ∧
      deleted.Holds ids ∧ deleted.Small ids ∧ ids.head? = (xs ++ id :: ys).head? ∧
      ids.getLast? = (xs ++ id :: ys).getLast? ∧
      deleted.elements ids =
        seq.elements xs ++ ((seq.node id).elements.eraseIdx i ++ seq.elements ys) := by
  have usable := holds.usable id (by simp)
  have fits := small id (by simp)
  have links := holds.chained.at_node
  have own : (deleteNode i (seq.node id)).elements = (seq.node id).elements.eraseIdx i :=
    elementsOf_delete (seq.node id).contents fits inside
  -- The node stays where it is.
  by_cases stays : (2 ≤ (xs ++ id :: ys).length → 1 < (seq.node id).subsequenceSize) ∧
      seq.listNodeDeleteAt id i = .ok (seq.modify id (deleteNode i))
  · obtain ⟨several, done⟩ := stays
    obtain ⟨smaller, elements, elsewhere⟩ := holds.modify (by rfl) (by rfl)
      (deleteNode_usable usable fits inside)
      (fun two => Nat.sub_pos_of_lt (several two))
    rw [own] at elements
    refine ⟨_, _, done, rfl, rfl, rfl, smaller, ?_, rfl, rfl, elements⟩
    intro x member
    rw [mem_append, mem_cons] at member
    rcases member with first | rfl | last
    · rw [elsewhere x (mem_append_left _ first)]
      exact small x (by simp [first])
    · rw [modify_node_self]
      exact Nat.le_trans (Nat.sub_le ..) fits
    · rw [elsewhere x (mem_append_right _ last)]
      exact small x (by simp [last])
  by_cases one : (seq.node id).size = 1
  · rcases eq_nil_or_concat xs with rfl | ⟨front, before, rfl⟩
    · -- The first node is the only one.
      have prev : (seq.node id).prev = none := links.1
      have next := (kept one).2 prev
      have alone : ys = [] := by
        rw [links.2] at next
        simpa using next
      subst alone
      exact absurd ⟨fun two => absurd two (by simp), listNodeDeleteAt_only usable i next prev⟩ stays
    · have prev : (seq.node id).prev = some before := by simpa using links.1
      cases ys with
      | nil =>
        have next : (seq.node id).next = none := links.2
        rw [(kept one).1 next] at prev
        cases prev
      | cons after rest =>
        have next : (seq.node id).next = some after := by simpa using links.2
        rw [concat_eq_append] at holds small ⊢
        have absent := (nodup_cons.1 (nodup_middle.1 holds.nodup)).1
        have done := listNodeDeleteAt_inner usable i one next prev
          (holds.usable after (by simp)) (holds.usable before (by simp))
          (fun same => absent (by simp [same])) (fun same => absent (by simp [same]))
        obtain ⟨unlinked, elements⟩ := unlinked_spec (i := i) holds
        have gone : (seq.node id).elements.eraseIdx i = [] := by
          have size : (seq.node id).elements.length = 1 := by
            rw [ListNode.length_elements, ← usable.sized, one]
          rw [← length_eq_zero_iff, length_eraseIdx_of_lt (by
            rw [ListNode.length_elements]; exact inside), size]
        refine ⟨_, _, done, rfl, rfl, rfl, unlinked, ?_, ?_, ?_, ?_⟩
        · intro x member
          have same := congrArg List.length (elements x member)
          rw [ListNode.length_elements, ListNode.length_elements] at same
          rw [same]
          refine small x ?_
          rw [mem_append] at member
          rw [mem_append, mem_cons]
          tauto
        · simp
        · simp
        · rw [elements_congr elements, gone]
          simp
  · refine absurd ⟨fun two => ?_, listNodeDeleteAt_many usable i one⟩ stays
    have positive := holds.filled two id (by simp)
    rw [usable.sized] at one
    omega

end Sequence

section Folds

variable (foldFn : FoldFn Value Seed) (seedsLength : Nat)

variable {seeds : List (Option Seed)}

theorem foldRound_congr {val : Option Value}
    {continued other : List (Option Seed) → Except String (List (Option Seed))}
    (same : ∀ seeds, continued seeds = other seeds) :
    foldRound foldFn seedsLength val seeds continued =
      foldRound foldFn seedsLength val seeds other := by
  rw [funext same]

theorem managedVectorFoldLeft_eq {contents : Contents Value} {size : Nat}
    (intact : Intact contents size) (i count : Nat) (inside : i + count ≤ size)
    (seeds : List (Option Seed)) :
    managedVectorFoldLeft foldFn seedsLength contents i count seeds =
      foldList foldFn seedsLength ((List.range' i count).map fun slot => (contents slot).value)
        seeds := by
  induction count generalizing i seeds with
  | zero => rfl
  | succ count ih =>
    simp only [managedVectorFoldLeft, managedVectorRef_ok intact (show i < size by omega),
      range'_succ, map_cons, foldList]
    exact foldRound_congr foldFn seedsLength fun seeds => ih (i + 1) (by omega) seeds

theorem foldLeft_node {node : ListNode Value} (usable : node.Usable) (seeds : List (Option Seed)) :
    managedVectorFoldLeft foldFn seedsLength node.contents 0 node.subsequenceSize seeds =
      foldList foldFn seedsLength node.elements seeds := by
  rw [managedVectorFoldLeft_eq foldFn seedsLength usable.intact 0 _ (by omega)]
  unfold ListNode.elements elementsOf
  rw [range_eq_range']

theorem managedVectorFoldRight_eq {contents : Contents Value} {size : Nat}
    (intact : Intact contents size) (seeds : List (Option Seed)) :
    managedVectorFoldRight foldFn seedsLength contents size seeds =
      foldList foldFn seedsLength (elementsOf contents size).reverse seeds := by
  induction size generalizing seeds with
  | zero => rfl
  | succ size ih =>
    have last : elementsOf contents (size + 1) =
        elementsOf contents size ++ [(contents size).value] := by
      unfold elementsOf
      rw [range_succ, map_append]
      rfl
    have shorter : Intact contents size := fun slot there => intact slot (by omega)
    simp only [managedVectorFoldRight, managedVectorRef_ok intact (Nat.lt_succ_self size), last,
      reverse_append, reverse_singleton, singleton_append, foldList]
    exact foldRound_congr foldFn seedsLength fun seeds => ih shorter seeds

/-- A fold that has not ended goes on with the rest of the list. -/
theorem foldList_append (xs ys : List (Option Value)) (seeds : List (Option Seed))
    (going : xs ≠ [] ∨ terminate seeds = false) :
    foldList foldFn seedsLength (xs ++ ys) seeds =
      (foldList foldFn seedsLength xs seeds >>= fun seeds =>
        if terminate seeds then .ok [none] else foldList foldFn seedsLength ys seeds) := by
  induction xs generalizing seeds with
  | nil =>
    have continues : terminate seeds = false := going.resolve_left (by simp)
    simp [foldList, bind, Except.bind, continues]
  | cons x xs ih =>
    simp only [cons_append, foldList, foldRound]
    cases ended : terminate (foldFn x seeds) with
    | true => rfl
    | false =>
      simp only [Bool.false_eq_true, if_false]
      split
      · exact ih _ (.inr ended)
      · rfl

theorem terminate_eq (ended : terminate seeds = true) : seeds = [none] := by
  unfold terminate at ended
  split at ended
  · rfl
  · cases ended

namespace Sequence

variable {seq : Sequence Value}
variable {foldNode : ListNode Value → List (Option Seed) → Except String (List (Option Seed))}
variable {view : ListNode Value → List (Option Value)} {following : ListNode Value → Option NodeId}

variable {ids : List NodeId} {other : NodeId → Option NodeId} {before : Option NodeId}
  (folds : ∀ node seeds, node.Usable →
    foldNode node seeds = foldList foldFn seedsLength (view node) seeds)
  (usable : ∀ id ∈ ids, (seq.node id).Usable)
  (chained : Chained (fun id => following (seq.node id)) other before none ids)
include folds usable chained

/-- A fold over nodes that all have elements, in the order in which they follow. -/
theorem foldNodes_filled (filled : ∀ id ∈ ids, view (seq.node id) ≠ [])
    (fuel : Nat) (enough : ids.length ≤ fuel) (seeds : List (Option Seed)) :
    seq.foldNodes foldNode following fuel ids.head? seeds =
      foldList foldFn seedsLength (ids.flatMap fun id => view (seq.node id)) seeds := by
  induction ids generalizing before fuel seeds with
  | nil => cases fuel <;> rfl
  | cons id ids ih =>
    rcases fuel with _ | fuel
    · cases enough
    have at_id := usable id mem_cons_self
    have next : following (seq.node id) = ids.head? := by simpa using chained.2.1
    rw [flatMap_cons, foldList_append _ _ _ _ _ (.inl (filled id mem_cons_self))]
    simp only [List.head?_cons, foldNodes, Sequence.listNode_ok at_id, folds _ _ at_id, bind,
      Except.bind, next]
    split
    · rfl
    · split
      · rfl
      · exact ih (fun x member => usable x (mem_cons_of_mem _ member))
          chained.2.2 (fun x member => filled x (mem_cons_of_mem _ member)) fuel
          (by simp at enough; omega) _

/-- A fold over the nodes, of which only a single one may be empty. -/
theorem foldNodes_eq (filled : 2 ≤ ids.length → ∀ id ∈ ids, view (seq.node id) ≠ [])
    (fuel : Nat) (enough : ids.length ≤ fuel) (seeds : List (Option Seed)) :
    seq.foldNodes foldNode following fuel ids.head? seeds =
      foldList foldFn seedsLength (ids.flatMap fun id => view (seq.node id)) seeds := by
  match ids with
  | [] => cases fuel <;> rfl
  | [id] =>
    rcases fuel with _ | fuel
    · cases enough
    have next : following (seq.node id) = none := by simpa using chained.2.1
    have at_id := usable id mem_cons_self
    simp only [List.head?_cons, foldNodes, Sequence.listNode_ok at_id, folds _ _ at_id, bind,
      Except.bind, next, flatMap_singleton]
    cases foldList foldFn seedsLength (view (seq.node id)) seeds with
    | error failure => rfl
    | ok seeds =>
      simp only []
      cases ended : terminate seeds with
      | true => rw [terminate_eq ended]; rfl
      | false => cases fuel <;> rfl
  | _ :: _ :: _ =>
    exact foldNodes_filled foldFn seedsLength folds usable chained (filled (by simp)) fuel enough
      seeds

end Sequence

end Folds

namespace Sequence

variable {seq : Sequence Value} {ids xs ys : List NodeId} {id : NodeId}
variable {list : List (Option Value)}

/-- A sequence whose nodes, in this order, hold the elements of a list. -/
structure RepresentsBy (seq : Sequence Value) (ids : List NodeId) (list : List (Option Value)) :
    Prop where
  holds : seq.Holds ids
  small : seq.Small ids
  first : ids.head? = some seq.rootChild
  head : seq.head = seq.rootChild
  last : ids.getLast? = some seq.tail
  elements : seq.elements ids = list

def Represents (seq : Sequence Value) (list : List (Option Value)) : Prop :=
  ∃ ids, seq.RepresentsBy ids list

theorem makeManagedSequence_represents : (makeManagedSequence : Sequence Value).Represents [] := by
  refine ⟨[0], ⟨nodup_singleton _, by simp [makeManagedSequence], ?_, ?_, ?_⟩, ?_, rfl, rfl, rfl,
    rfl⟩
  · intro id _
    exact ⟨rfl, rfl, fun _ _ => nofun⟩
  · exact ⟨rfl, rfl, trivial⟩
  · exact fun several => absurd several (by decide)
  · intro id _
    exact Nat.zero_le _

/-- The search with an index finds the node that has the element. -/
theorem searchIndex_spec (represents : seq.RepresentsBy ids list) (k : Nat) :
    if k < list.length then
      ∃ xs x ys i, ids = xs ++ x :: ys ∧ k = (seq.elements xs).length + i ∧
        i < (seq.node x).subsequenceSize ∧ seq.searchIndex k = .ok (x, i)
    else ∃ failure, seq.searchIndex k = .error failure := by
  have fewer := represents.holds.length_le
  cases ids with
  | nil => cases represents.first
  | cons id ids =>
    have root : id = seq.rootChild := by simpa using represents.first
    have search := search_spec (seq.allocated + 1) 0 k represents.holds.usable
      represents.holds.chained (by simp at fewer; omega)
    rw [represents.elements, root, Nat.zero_add] at search
    rw [root]
    exact search

theorem managedSequenceRef_spec (represents : seq.RepresentsBy ids list) (k : Nat) :
    (seq.managedSequenceRef k).toOption = list[k]? := by
  have search := searchIndex_spec represents k
  unfold managedSequenceRef
  split at search
  · obtain ⟨xs, x, ys, i, rfl, position, inside, found⟩ := search
    have usable := represents.holds.usable x (by simp)
    have value : list[k]? = some ((seq.node x).contents i).value := by
      rw [← represents.elements, elements_append, elements_cons, position,
        List.getElem?_append_right (by omega), Nat.add_sub_cancel_left,
        List.getElem?_append_left (by simpa using inside)]
      unfold ListNode.elements
      rw [getElem?_elementsOf, if_pos inside]
    rw [found, value]
    simp only [bind, Except.bind, managedVectorRef_ok usable.intact inside]
    rfl
  · rename_i outside
    obtain ⟨failure, found⟩ := search
    rw [found, List.getElem?_eq_none (by omega)]
    rfl

variable {before : Option NodeId}

/-- The nodes up to the tail are searched, and the sizes added up. -/
theorem sizeInner_spec (usable : ∀ id ∈ ids, (seq.node id).Usable)
    (chained : Chained (fun id => (seq.node id).next) (fun id => (seq.node id).prev)
      before none ids)
    (fuel : Nat) (enough : ids.length ≤ fuel) (size : Nat) :
    seq.sizeInner fuel ids.head? size = .ok ((seq.elements ids).length + size) := by
  induction ids generalizing before fuel size with
  | nil => cases fuel <;> simp [sizeInner]
  | cons id ids ih =>
    rcases fuel with _ | fuel
    · cases enough
    have at_id := usable id mem_cons_self
    have next : (seq.node id).next = ids.head? := by simpa using chained.2.1
    simp only [List.head?_cons, sizeInner, listNode_ok at_id, bind, Except.bind, next]
    rw [ih (fun x member => usable x (mem_cons_of_mem _ member)) chained.2.2 fuel
      (by simp at enough; omega), elements_cons, length_append, ListNode.length_elements,
      at_id.sized]
    congr 1
    omega

theorem managedSequenceSize_spec (represents : seq.RepresentsBy ids list) :
    seq.managedSequenceSize = .ok list.length := by
  unfold managedSequenceSize
  rw [← represents.first, sizeInner_spec represents.holds.usable represents.holds.chained _
    represents.holds.length_le, represents.elements, Nat.add_zero]

variable {α : Type} {i : Nat}

theorem insertIdx_middle (front own back : List α) (inside : i ≤ own.length) (value : α) :
    (front ++ (own ++ back)).insertIdx (front.length + i) value =
      front ++ (own.insertIdx i value ++ back) := by
  induction front with
  | nil =>
    simp only [nil_append, length_nil, Nat.zero_add]
    induction own generalizing i with
    | nil =>
      have first : i = 0 := by simpa using inside
      simp [first]
    | cons head own ih =>
      cases i with
      | zero => simp
      | succ i => simp [ih (by simpa using inside)]
  | cons head front ih =>
    rw [length_cons, Nat.add_right_comm, cons_append, insertIdx_succ_cons, ih]
    rfl

theorem eraseIdx_middle (front own back : List α) (inside : i < own.length) :
    (front ++ (own ++ back)).eraseIdx (front.length + i) = front ++ (own.eraseIdx i ++ back) := by
  rw [eraseIdx_append_of_length_le (by omega), Nat.add_sub_cancel_left,
    eraseIdx_append_of_lt_length inside]

theorem set_middle (front own back : List α) (inside : i < own.length) (value : α) :
    (front ++ (own ++ back)).set (front.length + i) value = front ++ (own.set i value ++ back) := by
  rw [set_append_right _ _ (by omega), Nat.add_sub_cancel_left, set_append_left _ _ inside]

/-- The tail connector follows a node that was added after the tail. -/
theorem updateTail_spec {tail : NodeId} (holds : seq.Holds (xs ++ tail :: ys))
    (short : ys.length ≤ 1)
    (at_tail : seq.tail = tail) :
    ∃ final, seq.updateTail tail = .ok final ∧ final.node = seq.node ∧
      final.allocated = seq.allocated ∧ final.rootChild = seq.rootChild ∧ final.head = seq.head ∧
      (xs ++ tail :: ys).getLast? = some final.tail := by
  have usable := holds.usable tail (by simp)
  have next : (seq.node tail).next = ys.head? := holds.chained.at_node.2
  have known : seq.neighbour (seq.node tail).next = .ok ys.head? := by
    rw [← next]
    refine neighbour_ok fun y follows => holds.usable y ?_
    rw [next] at follows
    simp [mem_of_mem_head? follows]
  unfold updateTail
  rw [listNode_ok usable]
  simp only [bind, Except.bind, known]
  cases ys with
  | nil => exact ⟨seq, rfl, rfl, rfl, rfl, rfl, by simp [at_tail]⟩
  | cons y ys =>
    have alone : ys = [] := by simpa using short
    subst alone
    exact ⟨_, rfl, rfl, rfl, rfl, rfl, by simp⟩

theorem Holds.of_node_eq {other : Sequence Value} (holds : seq.Holds ids)
    (nodes : other.node = seq.node) (allocated : other.allocated = seq.allocated) :
    other.Holds ids := by
  obtain ⟨nodup, below, usable, chained, filled⟩ := holds
  rw [← allocated] at below
  rw [← nodes] at usable chained filled
  exact ⟨nodup, below, usable, chained, filled⟩

/-- An element put in a node is in the list. -/
theorem insert_represents (represents : seq.RepresentsBy (xs ++ id :: ys) list)
    (inside : i ≤ (seq.node id).subsequenceSize) (obj : Option Value) :
    ∃ final, (seq.listNodeInsert id i obj >>= fun inserted => inserted.updateTail seq.tail) =
        .ok final ∧
      final.Represents (list.insertIdx ((seq.elements xs).length + i) obj) := by
  obtain ⟨inserted, new, done, short, rootChild, head, tail, holds, small, elements⟩ :=
    listNodeInsert_spec represents.holds represents.small inside obj
  have whole : list = seq.elements xs ++ ((seq.node id).elements ++ seq.elements ys) := by
    rw [← represents.elements, elements_append, elements_cons]
  -- The tail of before, and what comes after it now.
  have at_tail : ∃ front back, xs ++ id :: (new ++ ys) = front ++ seq.tail :: back ∧
      back.length ≤ 1 := by
    have last := represents.last
    rcases eq_nil_or_concat ys with rfl | ⟨others, final, rfl⟩
    · have is_tail : id = seq.tail := by simpa using last
      exact ⟨xs, new, by simp [is_tail], short⟩
    · have shape : xs ++ id :: others.concat final = (xs ++ id :: others) ++ [final] := by simp
      have is_tail : final = seq.tail := by
        rw [shape, List.getLast?_concat] at last
        exact Option.some.inj last
      exact ⟨xs ++ id :: (new ++ others), [], by simp [is_tail], by simp⟩
  obtain ⟨front, back, split, after⟩ := at_tail
  rw [split] at holds
  obtain ⟨final, updated, nodes, allocated, root', head', last'⟩ := updateTail_spec holds after tail
  rw [← split] at holds last'
  refine ⟨final, ?_, xs ++ id :: (new ++ ys), ?_⟩
  · rw [done]
    exact updated
  · refine ⟨holds.of_node_eq nodes allocated, ?_, ?_, ?_, last', ?_⟩
    · intro x member
      rw [nodes]
      exact small x member
    · rw [root', rootChild, ← represents.first]
      cases xs <;> simp
    · rw [head', root', head, rootChild, represents.head]
    · unfold Sequence.elements at elements ⊢
      rw [nodes, elements, whole]
      exact (insertIdx_middle _ _ _ (by simpa using inside) obj).symm

variable (represents : seq.RepresentsBy ids list)
include represents

/-- Only the sequence without elements has an empty node. -/
theorem RepresentsBy.head_filled (some_element : list ≠ []) :
    0 < (seq.node seq.head).subsequenceSize := by
  cases ids with
  | nil => cases represents.first
  | cons id ids =>
    have root : id = seq.head := by
      rw [represents.head]
      simpa using represents.first
    cases ids with
    | nil =>
      have only := represents.elements
      rw [elements_cons, elements_nil, append_nil, root] at only
      rw [← ListNode.length_elements, only]
      exact length_pos_of_ne_nil some_element
    | cons second ids =>
      rw [← root]
      exact represents.holds.filled (by simp) id mem_cons_self

theorem managedSequenceAdd_spec (obj : Option Value) :
    ∃ final, seq.managedSequenceAdd obj = .ok final ∧ final.Represents (list ++ [obj]) := by
  obtain ⟨front, rfl⟩ : ∃ front, ids = front ++ [seq.tail] := by
    rcases eq_nil_or_concat ids with rfl | ⟨front, last, rfl⟩
    · cases represents.last
    · have same : last = seq.tail := by simpa using represents.last
      exact ⟨front, by simp [same]⟩
  have usable := represents.holds.usable seq.tail (by simp)
  obtain ⟨final, done, added⟩ :=
    insert_represents represents (Nat.le_refl (seq.node seq.tail).subsequenceSize) obj
  refine ⟨final, ?_, ?_⟩
  · unfold managedSequenceAdd listNodeAppend
    rw [listNode_ok usable]
    simp only [bind, Except.bind, usable.sized] at done ⊢
    exact done
  · have total : (seq.elements front).length + (seq.node seq.tail).subsequenceSize =
      list.length := by
      rw [← represents.elements]
      simp
    rw [total, insertIdx_length_self] at added
    exact added

theorem managedSequenceInsert_spec (i : Nat)
    (inside : i < list.length ∨ (i = 0 ∧ list = [])) (obj : Option Value) :
    ∃ final, seq.managedSequenceInsert i obj = .ok final ∧
      final.Represents (list.insertIdx i obj) := by
  have head_member : seq.head ∈ ids := by
    rw [represents.head]
    exact mem_of_mem_head? represents.first
  have tail_member : seq.tail ∈ ids := mem_of_getLast? represents.last
  have head_usable := represents.holds.usable _ head_member
  have tail_usable := represents.holds.usable _ tail_member
  unfold managedSequenceInsert
  rw [listNode_ok head_usable, listNode_ok tail_usable]
  simp only [bind, Except.bind, head_usable.sized]
  by_cases none_yet : list = []
  · -- The only node is empty, and gets the element.
    obtain rfl : i = 0 := by
      rcases inside with less | ⟨zero, -⟩
      · rw [none_yet] at less
        cases less
      · exact zero
    have alone : ids = [seq.head] := by
      cases ids with
      | nil => cases head_member
      | cons id ids =>
        have root : id = seq.head := by
          rw [represents.head]
          simpa using represents.first
        cases ids with
        | nil => rw [root]
        | cons second ids =>
          have filled := represents.holds.filled (by simp) id mem_cons_self
          have whole := congrArg List.length represents.elements
          simp only [elements_cons, length_append, ListNode.length_elements, none_yet,
            length_nil] at whole
          omega
    have same : seq.head = seq.tail := by
      have last := represents.last
      rw [alone] at last
      simpa using last
    have empty : (seq.node seq.head).subsequenceSize = 0 := by
      have whole := congrArg List.length represents.elements
      rw [alone, none_yet] at whole
      simpa using whole
    rw [if_pos ⟨same, empty⟩]
    obtain ⟨final, done, added⟩ := managedSequenceAdd_spec represents obj
    refine ⟨final, done, ?_⟩
    rw [none_yet] at added ⊢
    exact added
  · have filled := represents.head_filled none_yet
    rw [if_neg (by omega)]
    have below : i < list.length := inside.resolve_right fun both => none_yet both.2
    split
    · rename_i zero
      subst zero
      obtain ⟨rest, rfl⟩ : ∃ rest, ids = [] ++ seq.head :: rest := by
        cases ids with
        | nil => cases head_member
        | cons id ids =>
          have root : id = seq.head := by
            rw [represents.head]
            simpa using represents.first
          exact ⟨ids, by rw [root]; rfl⟩
      exact insert_represents represents (Nat.zero_le _) obj
    · have search := searchIndex_spec represents i
      rw [if_pos below] at search
      obtain ⟨xs, x, ys, index, rfl, position, small, found⟩ := search
      rw [found, position]
      exact insert_represents represents (Nat.le_of_lt small) obj

omit represents

theorem managedVectorSet_ok {contents : Contents Value} (present : contents i ≠ .removed)
    {obj : Option Value} (kept : obj = none → (contents i).value = none) :
    managedVectorSet contents i obj = .ok (update contents i (Slot.of obj)) := by
  unfold managedVectorSet
  cases at_slot : contents i with
  | removed => exact absurd at_slot present
  | empty =>
    cases obj with
    | some value => rfl
    | none =>
      rw [show Slot.of (none : Option Value) = contents i from at_slot.symm, update_eq_self]
  | entry old =>
    cases obj with
    | some value => rfl
    | none =>
      have gone := kept rfl
      rw [at_slot] at gone
      cases gone

/-- A node with an element replaced. -/
def setNode (i : Nat) (obj : Option Value) (node : ListNode Value) : ListNode Value :=
  { node with contents := update node.contents i (Slot.of obj) }

variable {node : ListNode Value}

theorem setNode_usable (usable : node.Usable) (i : Nat) (obj : Option Value) :
    (setNode i obj node).Usable := by
  refine ⟨usable.present, usable.sized, fun slot there => ?_⟩
  by_cases same : slot = i
  · rw [same]
    simp only [setNode, update_self]
    exact Slot.of_ne_removed obj
  · simp only [setNode, update_of_ne same]
    exact usable.intact slot there

theorem managedSequenceSet_spec (represents : seq.RepresentsBy ids list) (k : Nat)
    (obj : Option Value) (kept : obj = none → ∀ value, list[k]? ≠ some (some value)) :
    if k < list.length then
      ∃ final, seq.managedSequenceSet k obj = .ok final ∧ final.Represents (list.set k obj)
    else ∃ failure, seq.managedSequenceSet k obj = .error failure := by
  have search := searchIndex_spec represents k
  unfold managedSequenceSet
  split
  · rename_i below
    rw [if_pos below] at search
    obtain ⟨xs, x, ys, i, rfl, position, inside, found⟩ := search
    have usable := represents.holds.usable x (by simp)
    have whole : list = seq.elements xs ++ ((seq.node x).elements ++ seq.elements ys) := by
      rw [← represents.elements, elements_append, elements_cons]
    have value : list[k]? = some ((seq.node x).contents i).value := by
      rw [whole, position, List.getElem?_append_right (by omega), Nat.add_sub_cancel_left,
        List.getElem?_append_left (by simpa using inside)]
      unfold ListNode.elements
      rw [getElem?_elementsOf, if_pos inside]
    have stays : obj = none → ((seq.node x).contents i).value = none := by
      intro is_false
      cases at_slot : ((seq.node x).contents i).value with
      | none => rfl
      | some old =>
        rw [at_slot] at value
        exact absurd value (kept is_false old)
    have changed := managedVectorSet_ok (usable.intact i inside) stays
    rw [found]
    simp only [bind, Except.bind, changed]
    obtain ⟨holds, elements, elsewhere⟩ := represents.holds.modify (by rfl) (by rfl)
      (setNode_usable usable i obj)
      (fun several => represents.holds.filled several x (by simp))
    have own : (setNode i obj (seq.node x)).elements = (seq.node x).elements.set i obj :=
      elementsOf_set inside obj
    refine ⟨seq.modify x (setNode i obj), rfl, xs ++ x :: ys, holds, ?_, represents.first,
      represents.head, represents.last, ?_⟩
    · intro y member
      rw [mem_append, mem_cons] at member
      have before := represents.small y
      rcases member with first | rfl | last
      · rw [elsewhere y (mem_append_left _ first)]
        exact before (by simp [first])
      · rw [modify_node_self]
        exact before (by simp)
      · rw [elsewhere y (mem_append_right _ last)]
        exact before (by simp [last])
    · rw [elements, own, whole, position, set_middle _ _ _ (by simpa using inside)]
  · rename_i outside
    rw [if_neg outside] at search
    obtain ⟨failure, found⟩ := search
    rw [found]
    exact ⟨failure, rfl⟩

/-- The list nodes, from a node on. -/
def nodesFrom (seq : Sequence Value) : (fuel : Nat) → Option NodeId → List NodeId
  | _, none => []
  | 0, some _ => []
  | fuel + 1, some id => id :: seq.nodesFrom fuel (seq.node id).next

/-- How many elements each list node has. -/
def nodeSizes (seq : Sequence Value) : List Nat :=
  (seq.nodesFrom seq.allocated (some seq.rootChild)).map fun id => (seq.node id).size

/-- The element at a position is not the only one in the first or in the last of several
list nodes. -/
def KeepsEnds (seq : Sequence Value) (k : Nat) : Prop :=
  2 ≤ seq.nodeSizes.length →
    (k = 0 → seq.nodeSizes.head? ≠ some 1) ∧
      (k + 1 = seq.nodeSizes.sum → seq.nodeSizes.getLast? ≠ some 1)

theorem nodesFrom_eq
    (chained : Chained (fun id => (seq.node id).next) (fun id => (seq.node id).prev)
      before none ids)
    (fuel : Nat) (enough : ids.length ≤ fuel) : seq.nodesFrom fuel ids.head? = ids := by
  induction ids generalizing before fuel with
  | nil => cases fuel <;> rfl
  | cons id ids ih =>
    rcases fuel with _ | fuel
    · cases enough
    have next : (seq.node id).next = ids.head? := by simpa using chained.2.1
    simp only [List.head?_cons, nodesFrom, next]
    rw [ih chained.2.2 fuel (by simp at enough; omega)]

theorem RepresentsBy.nodeSizes_eq (represents : seq.RepresentsBy ids list) :
    seq.nodeSizes = ids.map fun id => (seq.node id).size := by
  unfold nodeSizes
  rw [← represents.first, nodesFrom_eq represents.holds.chained _ represents.holds.length_le]

theorem RepresentsBy.sum_nodeSizes (represents : seq.RepresentsBy ids list) :
    seq.nodeSizes.sum = list.length := by
  rw [represents.nodeSizes_eq, ← represents.elements]
  unfold Sequence.elements
  rw [length_flatMap]
  congr 1
  refine map_congr_left fun id member => ?_
  rw [ListNode.length_elements, (represents.holds.usable id member).sized]

theorem RepresentsBy.endsKept (represents : seq.RepresentsBy (xs ++ id :: ys) list)
    (inside : i < (seq.node id).subsequenceSize)
    (keeps : seq.KeepsEnds ((seq.elements xs).length + i)) : EndsKept (seq.node id) := by
  have usable := represents.holds.usable id (by simp)
  obtain ⟨prev, next⟩ := represents.holds.chained.at_node
  have total := represents.sum_nodeSizes
  rw [← represents.elements] at total
  unfold KeepsEnds at keeps
  rw [total, represents.nodeSizes_eq] at keeps
  intro one
  have first : i = 0 := by
    rw [← usable.sized, one] at inside
    omega
  rw [next, prev]
  constructor
  · intro last
    have nothing : ys = [] := by simpa using last
    by_contra several
    have some_before : xs ≠ [] := fun none_before => several (by simp [none_before])
    have ends := (keeps (by
      have positive := length_pos_of_ne_nil some_before
      simp
      omega)).2
    refine ends ?_ ?_
    · rw [nothing, first]
      simp [← usable.sized, one]
    · rw [nothing]
      simp [one]
  · intro head
    have nothing : xs = [] := by simpa using head
    by_contra several
    have some_after : ys ≠ [] := fun none_after => several (by simp [none_after])
    have ends := (keeps (by
      have positive := length_pos_of_ne_nil some_after
      simp
      omega)).1
    refine ends ?_ ?_
    · rw [nothing, first]
      rfl
    · rw [nothing]
      simp [one]

/-- An element deleted from a node is gone from the list. -/
theorem delete_represents (represents : seq.RepresentsBy (xs ++ id :: ys) list)
    (inside : i < (seq.node id).subsequenceSize)
    (keeps : seq.KeepsEnds ((seq.elements xs).length + i)) :
    ∃ final, seq.listNodeDeleteAt id i = .ok final ∧
      final.Represents (list.eraseIdx ((seq.elements xs).length + i)) := by
  obtain ⟨final, ids, done, rootChild, head, tail, holds, small, first, last, elements⟩ :=
    listNodeDeleteAt_spec represents.holds represents.small inside
      (represents.endsKept inside keeps)
  refine ⟨final, done, ids, holds, small, ?_, ?_, ?_, ?_⟩
  · rw [first, rootChild]
    exact represents.first
  · rw [head, rootChild]
    exact represents.head
  · rw [last, tail]
    exact represents.last
  · rw [elements, ← represents.elements, elements_append, elements_cons,
      eraseIdx_middle _ _ _ (by simpa using inside)]

theorem managedSequenceDeleteAt_spec (represents : seq.RepresentsBy ids list) (k : Nat)
    (keeps : seq.KeepsEnds k) :
    if k < list.length then
      ∃ final, seq.managedSequenceDeleteAt k = .ok final ∧ final.Represents (list.eraseIdx k)
    else ∃ failure, seq.managedSequenceDeleteAt k = .error failure := by
  have search := searchIndex_spec represents k
  unfold managedSequenceDeleteAt
  split
  · rename_i below
    rw [if_pos below] at search
    obtain ⟨xs, x, ys, i, rfl, position, inside, found⟩ := search
    rw [found]
    rw [position] at keeps ⊢
    exact delete_represents represents inside keeps
  · rename_i outside
    rw [if_neg outside] at search
    obtain ⟨failure, found⟩ := search
    rw [found]
    exact ⟨failure, rfl⟩

theorem subsequenceFind_spec {contents : Contents Value} {size : Nat}
    (intact : Intact contents size)
    (matching : Option Value → Bool) (i count : Nat) (inside : i + count ≤ size) :
    (subsequenceFind contents matching i count = .ok none ∧
        ∀ slot, i ≤ slot → slot < i + count → matching (contents slot).value = false) ∨
      ∃ slot, subsequenceFind contents matching i count = .ok (some slot) ∧ i ≤ slot ∧
        slot < i + count ∧ matching (contents slot).value = true ∧
        ∀ earlier, i ≤ earlier → earlier < slot → matching (contents earlier).value = false := by
  induction count generalizing i with
  | zero => exact .inl ⟨rfl, fun slot low high => by omega⟩
  | succ count ih =>
    simp only [subsequenceFind, managedVectorRef_ok intact (show i < size by omega), bind,
      Except.bind]
    cases here : matching (contents i).value with
    | true =>
      exact .inr ⟨i, rfl, Nat.le_refl _, by omega, here, fun earlier low high => by omega⟩
    | false =>
      simp only [Bool.false_eq_true, if_false]
      rcases ih (i + 1) (by omega) with
        ⟨missing, none_match⟩ | ⟨slot, found, low, high, hit, before⟩
      · refine .inl ⟨missing, fun slot low high => ?_⟩
        by_cases same : slot = i
        · rw [same, here]
        · exact none_match slot (by omega) (by omega)
      · refine .inr ⟨slot, found, by omega, by omega, hit, fun earlier low' high' => ?_⟩
        by_cases same : earlier = i
        · rw [same, here]
        · exact before earlier (by omega) high'

/-- The first element of a node that matches. -/
theorem find_in_node (usable : node.Usable) (matching : Option Value → Bool) :
    subsequenceFind node.contents matching 0 node.subsequenceSize =
      .ok (node.elements.findIdx? matching) := by
  rcases subsequenceFind_spec usable.intact matching 0 node.subsequenceSize (by omega) with
    ⟨missing, none_match⟩ | ⟨slot, found, low, high, hit, before⟩
  · rw [missing]
    congr 1
    symm
    rw [List.findIdx?_eq_none_iff]
    intro value member
    obtain ⟨slot, there, rfl⟩ := mem_map.1 member
    exact none_match slot (Nat.zero_le _) (by simpa using there)
  · rw [found]
    congr 1
    symm
    rw [List.findIdx?_eq_some_iff_getElem]
    refine ⟨by simpa using high, ?_, ?_⟩
    · simpa [ListNode.elements, elementsOf] using hit
    · intro earlier less
      have not_yet := before earlier (Nat.zero_le _) less
      simpa [ListNode.elements, elementsOf] using not_yet

theorem findMatching_spec (matching : Option Value → Bool)
    (usable : ∀ id ∈ ids, (seq.node id).Usable)
    (chained : Chained (fun id => (seq.node id).next) (fun id => (seq.node id).prev)
      before none ids)
    (fuel : Nat) (enough : ids.length ≤ fuel) :
    match (seq.elements ids).findIdx? matching with
    | none => seq.findMatching matching fuel ids.head? = .ok none
    | some k => ∃ xs x ys i, ids = xs ++ x :: ys ∧ k = (seq.elements xs).length + i ∧
        i < (seq.node x).subsequenceSize ∧
        seq.findMatching matching fuel ids.head? = .ok (some (x, i)) := by
  induction ids generalizing before fuel with
  | nil => cases fuel <;> rfl
  | cons id ids ih =>
    rcases fuel with _ | fuel
    · cases enough
    have at_id := usable id mem_cons_self
    have next : (seq.node id).next = ids.head? := by simpa using chained.2.1
    have later := ih (fun x member => usable x (mem_cons_of_mem _ member)) chained.2.2 fuel
      (by simp at enough; omega)
    simp only [List.head?_cons, findMatching, listNode_ok at_id, bind, Except.bind,
      find_in_node at_id, next, elements_cons, List.findIdx?_append]
    cases here : (seq.node id).elements.findIdx? matching with
    | some i =>
      simp only [Option.some_or]
      have inside := (List.findIdx?_eq_some_iff_getElem.1 here).1
      exact ⟨[], id, ids, i, rfl, by simp, by simpa using inside, rfl⟩
    | none =>
      simp only [Option.none_or]
      cases rest : (seq.elements ids).findIdx? matching with
      | none =>
        rw [rest] at later
        exact later
      | some k =>
        rw [rest] at later
        obtain ⟨xs, x, ys, i, split, position, inside, found⟩ := later
        refine ⟨id :: xs, x, ys, i, by rw [split]; rfl, ?_, inside, found⟩
        rw [elements_cons, length_append]
        show k + (seq.node id).elements.length = _
        omega

include represents

theorem managedSequenceDelete_spec (obj : Option Value) (pred : Option Value → Option Value → Bool)
    (keeps : ∀ k, list.findIdx? (pred · obj) = some k → seq.KeepsEnds k) :
    ∃ final, seq.managedSequenceDelete obj pred = .ok (final, list.any (pred · obj)) ∧
      final.Represents (list.eraseP (pred · obj)) := by
  have search := findMatching_spec (pred · obj) represents.holds.usable represents.holds.chained
    seq.allocated represents.holds.length_le
  rw [represents.elements, represents.first, ← represents.head] at search
  unfold managedSequenceDelete deleteTarget
  rw [eraseP_eq_eraseIdx]
  cases found : list.findIdx? (pred · obj) with
  | none =>
    rw [found] at search
    have none_match : list.any (pred · obj) = false := by
      rw [any_eq_false]
      simpa [List.findIdx?_eq_none_iff] using found
    simp only [search, bind, Except.bind, none_match]
    exact ⟨seq, rfl, ids, represents⟩
  | some k =>
    rw [found] at search
    obtain ⟨xs, x, ys, i, rfl, rfl, inside, target⟩ := search
    obtain ⟨final, done, deleted⟩ := delete_represents represents inside (keeps _ found)
    have some_match : list.any (pred · obj) = true := by
      obtain ⟨there, hit, -⟩ := List.findIdx?_eq_some_iff_getElem.1 found
      rw [any_eq_true]
      exact ⟨_, getElem_mem there, hit⟩
    simp only [target, bind, Except.bind, done, some_match]
    exact ⟨final, rfl, deleted⟩

theorem managedSequenceFoldLeft_spec (foldFn : FoldFn Value Seed) (seeds : List (Option Seed)) :
    seq.managedSequenceFoldLeft foldFn seeds = foldList foldFn seeds.length list seeds := by
  have folds := fun (node : ListNode Value) (values : List (Option Seed)) (usable : node.Usable) =>
    foldLeft_node foldFn seeds.length usable values
  unfold managedSequenceFoldLeft
  rw [represents.head, ← represents.first, foldNodes_eq foldFn seeds.length folds
    represents.holds.usable represents.holds.chained ?_ _ represents.holds.length_le]
  · exact congrArg (foldList foldFn seeds.length · seeds) represents.elements
  · intro several id member
    have positive := represents.holds.filled several id member
    rw [← ListNode.length_elements] at positive
    exact ne_nil_of_length_pos positive

theorem managedSequenceFoldRight_spec (foldFn : FoldFn Value Seed) (seeds : List (Option Seed)) :
    seq.managedSequenceFoldRight foldFn seeds =
      foldList foldFn seeds.length list.reverse seeds := by
  have folds := fun (node : ListNode Value) (values : List (Option Seed)) (usable : node.Usable) =>
    managedVectorFoldRight_eq foldFn seeds.length usable.intact values
  unfold managedSequenceFoldRight
  rw [← represents.last, ← List.head?_reverse, foldNodes_eq foldFn seeds.length folds
    (fun id member => represents.holds.usable id (mem_reverse.1 member))
    represents.holds.chained.reverse ?_ _ (by simpa using represents.holds.length_le)]
  · rw [← represents.elements, Sequence.elements, reverse_flatMap]
    rfl
  · intro several id member
    have positive := represents.holds.filled (by simpa using several) id (mem_reverse.1 member)
    exact ne_nil_of_length_pos (by simpa using positive)

omit represents

theorem foldList_consSeed (list elements : List (Option Value)) :
    foldList consSeed 1 list [some elements] = .ok [some (list.reverse ++ elements)] := by
  induction list generalizing elements with
  | nil => rfl
  | cons val list ih =>
    simp only [foldList, foldRound, consSeed, terminate, Bool.false_eq_true, if_false,
      length_singleton, if_true, ih, reverse_cons, append_assoc,
      singleton_append]

theorem managedSequenceToList_spec (represents : seq.RepresentsBy ids list) :
    seq.managedSequenceToList = .ok list := by
  unfold managedSequenceToList
  rw [managedSequenceFoldRight_spec represents]
  simp only [length_singleton, foldList_consSeed, reverse_reverse, append_nil, bind, Except.bind]

/-- Asking for an element works where there is none, or where it is the first one. -/
theorem managedSequenceContains_spec (represents : seq.RepresentsBy ids list) (obj : Option Value)
    (pred : Option Value → Option Value → Bool)
    (first : ∀ value, list.head? = some value → pred obj value = true) :
    seq.managedSequenceContains obj pred = .ok (list.any (pred obj)) := by
  unfold managedSequenceContains
  rw [managedSequenceFoldLeft_spec represents]
  cases list with
  | nil => rfl
  | cons value list =>
    have hit := first value rfl
    simp only [foldList, foldRound, hit, if_true, terminate, bind, Except.bind, any_cons,
      Bool.true_or]

end Sequence

/-- Where a procedure does what the procedure of plain lists does: an insertion is at an
element or into an empty sequence, a deletion does not take the only element of the first
or of the last of several list nodes, only `#f` is replaced by `#f`, and only the first
element is asked for. -/
def CallKeeps (state : Sequence Value × List (Option Value)) : Call Value Seed → Prop
  | .insert i _ => i < state.2.length ∨ (i = 0 ∧ state.2 = [])
  | .set i obj => obj = none → ∀ value, state.2[i]? ≠ some (some value)
  | .delete obj pred => ∀ k, state.2.findIdx? (pred · obj) = some k → state.1.KeepsEnds k
  | .deleteAt i => state.1.KeepsEnds i
  | .contains obj pred => ∀ value, state.2.head? = some value → pred obj value = true
  | _ => True

/-- A call on a sequence and the same call on a list. -/
def bothCalls (state : Sequence Value × List (Option Value)) (call : Call Value Seed) :
    Option ((Sequence Value × List (Option Value)) × (Result Value Seed × Result Value Seed)) :=
  some (((state.1.call call).1, (listCall state.2 call).1),
    ((state.1.call call).2, (listCall state.2 call).2))

theorem call_spec {seq : Sequence Value} {list : List (Option Value)}
    (represents : seq.Represents list) (call : Call Value Seed)
    (keeps : CallKeeps (seq, list) call) :
    (seq.call call).1.Represents (listCall list call).1 ∧
      (seq.call call).2 = (listCall list call).2 := by
  obtain ⟨ids, by_ids⟩ := represents
  unfold Sequence.call listCall
  cases call with
  | add obj =>
    obtain ⟨final, done, added⟩ := Sequence.managedSequenceAdd_spec by_ids obj
    simp only [done]
    exact ⟨added, rfl⟩
  | insert i obj =>
    obtain ⟨final, done, inserted⟩ := Sequence.managedSequenceInsert_spec by_ids i keeps obj
    have inside : i ≤ list.length := by
      rcases keeps with less | ⟨zero, -⟩
      · exact Nat.le_of_lt less
      · rw [zero]
        exact Nat.zero_le _
    simp only [done, if_pos inside]
    exact ⟨inserted, rfl⟩
  | set i obj =>
    have change := Sequence.managedSequenceSet_spec by_ids i obj keeps
    simp only []
    split at change
    · rename_i inside
      obtain ⟨final, done, changed⟩ := change
      rw [done, if_pos inside]
      exact ⟨changed, rfl⟩
    · rename_i outside
      obtain ⟨failure, done⟩ := change
      rw [done, if_neg outside]
      exact ⟨⟨ids, by_ids⟩, rfl⟩
  | delete obj pred =>
    obtain ⟨final, done, deleted⟩ := Sequence.managedSequenceDelete_spec by_ids obj pred keeps
    simp only [done]
    exact ⟨deleted, rfl⟩
  | deleteAt i =>
    have change := Sequence.managedSequenceDeleteAt_spec by_ids i keeps
    simp only []
    split at change
    · rename_i inside
      obtain ⟨final, done, deleted⟩ := change
      rw [done, if_pos inside]
      exact ⟨deleted, rfl⟩
    · rename_i outside
      obtain ⟨failure, done⟩ := change
      rw [done, if_neg outside]
      exact ⟨⟨ids, by_ids⟩, rfl⟩
  | contains obj pred =>
    simp only [Sequence.managedSequenceContains_spec by_ids obj pred keeps]
    exact ⟨⟨ids, by_ids⟩, rfl⟩
  | ref i =>
    have value := Sequence.managedSequenceRef_spec by_ids i
    simp only []
    cases found : seq.managedSequenceRef i with
    | ok element | error failure =>
      rw [found] at value
      rw [← value]
      exact ⟨⟨ids, by_ids⟩, rfl⟩
  | size =>
    simp only [Sequence.managedSequenceSize_spec by_ids]
    exact ⟨⟨ids, by_ids⟩, rfl⟩
  | toList =>
    simp only [Sequence.managedSequenceToList_spec by_ids]
    exact ⟨⟨ids, by_ids⟩, rfl⟩
  | foldLeft foldFn seeds =>
    simp only [Sequence.managedSequenceFoldLeft_spec by_ids]
    cases foldList foldFn seeds.length list seeds with
    | ok values | error failure => exact ⟨⟨ids, by_ids⟩, rfl⟩
  | foldRight foldFn seeds =>
    simp only [Sequence.managedSequenceFoldRight_spec by_ids]
    cases foldList foldFn seeds.length list.reverse seeds with
    | ok values | error failure => exact ⟨⟨ids, by_ids⟩, rfl⟩

/-- In every run of calls that keep to the condition, each call on the sequence gives what
the call on a plain list gives, and the elements of the sequence are those of the list. -/
theorem managed_sequence_is_a_list
    {trace : List (Call Value Seed × (Result Value Seed × Result Value Seed))}
    {state : Sequence Value × List (Option Value)}
    (run : Run bothCalls CallKeeps (makeManagedSequence, []) trace state) :
    (∀ entry ∈ trace, entry.2.1 = entry.2.2) ∧ state.1.managedSequenceToList = .ok state.2 := by
  have both := run.invariant
    (fun trace state => (∀ entry ∈ trace, entry.2.1 = entry.2.2) ∧ state.1.Represents state.2)
    ⟨nofun, Sequence.makeManagedSequence_represents⟩ (by
      intro trace state call next observation _ ⟨equal, represents⟩ keeps taken
      obtain ⟨represents', same⟩ := call_spec represents call keeps
      cases taken
      refine ⟨fun entry member => ?_, represents'⟩
      rcases mem_append.1 member with earlier | last
      · exact equal entry earlier
      · rw [mem_singleton.1 last]
        exact same)
  obtain ⟨equal, ids, by_ids⟩ := both
  exact ⟨equal, Sequence.managedSequenceToList_spec by_ids⟩

/-- One more call in a run. -/
theorem run_call {allowed : Sequence Value × List (Option Value) → Call Value Seed → Prop}
    {start state : Sequence Value × List (Option Value)}
    {trace : List (Call Value Seed × (Result Value Seed × Result Value Seed))}
    (run : Run bothCalls allowed start trace state) (call : Call Value Seed)
    (permitted : allowed state call) :
    Run bothCalls allowed start
      (trace ++ [(call, ((state.1.call call).2, (listCall state.2 call).2))])
      ((state.1.call call).1, (listCall state.2 call).1) :=
  run.snoc permitted rfl

/-- Two elements are added and one is inserted between them. -/
theorem inserted_between_two :
    ∃ state : Sequence Nat × List (Option Nat), state.2 = [some 1, some 2, some 3] ∧
      state.1.managedSequenceToList = .ok state.2 := by
  have first : Run bothCalls CallKeeps ((makeManagedSequence : Sequence Nat), []) _ _ :=
    run_call .nil (.add (some 1) : Call Nat Nat) trivial
  have second := run_call first (.add (some 3)) trivial
  have third := run_call second (.insert 1 (some 2)) (Or.inl (by decide))
  exact ⟨_, rfl, (managed_sequence_is_a_list third).2⟩

/-- An insertion after the last element raises. -/
theorem insertion_at_the_end_raises :
    ∃ (trace : List (Call Nat Nat × (Result Nat Nat × Result Nat Nat)))
      (state : Sequence Nat × List (Option Nat)),
      Run bothCalls Gzochi.Lib.anyAction (makeManagedSequence, []) trace state ∧
        ∃ entry ∈ trace, entry.2.1 ≠ entry.2.2 := by
  have first : Run bothCalls Gzochi.Lib.anyAction ((makeManagedSequence : Sequence Nat), []) _ _ :=
    run_call .nil (.add (some 1) : Call Nat Nat) trivial
  have second := run_call first (.insert 1 (some 2)) trivial
  refine ⟨_, _, second, _, mem_append_right _ mem_cons_self, ?_⟩
  show (Result.raised : Result Nat Nat) ≠ .unspecified
  nofun

end Gzochi.Managed.Sequences
