import Mathlib.Data.List.Basic

/-!
# Linked lists

Doubly linked: nodes that know the node after and the node before them, as two partial
functions of their identities.  A list of identities is chained when each node knows its
neighbours in the list.  The lemmas say which links an insertion after a node and an unlinking
have to set.

Singly linked: nodes with an item each that know the node after them.  The lemmas say what an
appended node and one taken off the front change.
-/

namespace Gzochi.Lib

open List

universe u

variable {Id : Type u} {next prev next' prev' : Id → Option Id} {before after : Option Id}

/-- The nodes of a list are chained one after the other, between two nodes outside it. -/
def Chained (next prev : Id → Option Id) (before after : Option Id) : List Id → Prop
  | [] => True
  | id :: rest =>
      prev id = before ∧ next id = rest.head?.or after ∧ Chained next prev (some id) after rest

namespace Chained

theorem append (xs ys : List Id) : Chained next prev before after (xs ++ ys) ↔
      Chained next prev before (ys.head?.or after) xs ∧
        Chained next prev (xs.getLast?.or before) after ys := by
  induction xs generalizing before with
  | nil => simp [Chained]
  | cons x xs ih =>
    have head : (xs ++ ys).head?.or after = xs.head?.or (ys.head?.or after) := by
      cases xs <;> simp
    have last : (x :: xs).getLast?.or before = xs.getLast?.or (some x) := by
      cases xs with
      | nil => rfl
      | cons y ys =>
        rw [List.getLast?_cons_cons]
        simp [List.getLast?_cons]
    simp only [cons_append, Chained, ih, head, last, and_assoc]

/-- Only the links of the nodes in the list matter. -/
theorem congr {xs : List Id} (chained : Chained next prev before after xs)
    (same_next : ∀ x ∈ xs, next' x = next x) (same_prev : ∀ x ∈ xs, prev' x = prev x) :
    Chained next' prev' before after xs := by
  induction xs generalizing before with
  | nil => trivial
  | cons x xs ih =>
    obtain ⟨first, second, rest⟩ := chained
    refine ⟨?_, ?_, ih rest (fun y member => same_next y (mem_cons_of_mem _ member))
      (fun y member => same_prev y (mem_cons_of_mem _ member))⟩
    · rw [same_prev x mem_cons_self, first]
    · rw [same_next x mem_cons_self, second]

variable {xs ys : List Id} {id new : Id}

/-- The neighbours of a node. -/
theorem at_node (chained : Chained next prev none none (xs ++ id :: ys)) :
    prev id = xs.getLast? ∧ next id = ys.head? := by
  obtain ⟨-, first, second, -⟩ := (append xs (id :: ys)).1 chained
  simpa using And.intro first second

/-- A new node after a node of the list. -/
theorem insert_after (chained : Chained next prev none none (xs ++ id :: ys))
    (at_id : next' id = some new) (new_next : next' new = ys.head?) (new_prev : prev' new = some id)
    (same_prev : ∀ x ∈ xs ++ [id], prev' x = prev x) (same_next : ∀ x ∈ xs ++ ys, next' x = next x)
    (head_prev : ∀ y ∈ ys.head?, prev' y = some new) (tail_prev : ∀ y ∈ ys.tail, prev' y = prev y) :
    Chained next' prev' none none (xs ++ id :: new :: ys) := by
  obtain ⟨front, first, second, rest⟩ := (append xs (id :: ys)).1 chained
  refine (append xs (id :: new :: ys)).2 ⟨?_, ?_, ?_, ?_, ?_, ?_⟩
  · exact front.congr (fun x member => same_next x (mem_append_left _ member))
      (fun x member => same_prev x (mem_append_left _ member))
  · rw [same_prev id (by simp), first]
  · simpa using at_id
  · exact new_prev
  · simpa using new_next
  · cases ys with
    | nil => trivial
    | cons y ys =>
      obtain ⟨-, third, last⟩ := rest
      refine ⟨head_prev y rfl, ?_, ?_⟩
      · rw [same_next y (by simp), third]
      · exact last.congr (fun x member => same_next x (by simp [member]))
          (fun x member => tail_prev x member)

/-- A node taken out from between two others. -/
theorem unlink {x y : Id} (chained : Chained next prev none none ((xs ++ [x]) ++ id :: y :: ys))
    (at_x : next' x = some y) (at_y : prev' y = some x)
    (same_next : ∀ z ∈ xs ++ y :: ys, next' z = next z)
    (same_prev : ∀ z ∈ (xs ++ [x]) ++ ys, prev' z = prev z) :
    Chained next' prev' none none ((xs ++ [x]) ++ y :: ys) := by
  obtain ⟨front, -, -, -, third, rest⟩ := (append (xs ++ [x]) (id :: y :: ys)).1 chained
  obtain ⟨outer, inner⟩ := (append xs [x]).1 front
  refine (append (xs ++ [x]) (y :: ys)).2 ⟨(append xs [x]).2 ⟨?_, ?_, ?_, trivial⟩, ?_, ?_, ?_⟩
  · exact outer.congr (fun z member => same_next z (by simp [member]))
      (fun z member => same_prev z (by simp [member]))
  · rw [same_prev x (by simp), inner.1]
  · simpa using at_x
  · simpa using at_y
  · rw [same_next y (by simp), third]
  · exact rest.congr (fun z member => same_next z (by simp [member]))
      (fun z member => same_prev z (by simp [member]))

/-- Seen from its end, a list is linked the other way round. -/
theorem reverse {xs : List Id} (chained : Chained next prev before after xs) :
    Chained prev next after before xs.reverse := by
  induction xs generalizing before with
  | nil => trivial
  | cons x xs ih =>
    obtain ⟨first, second, rest⟩ := chained
    rw [reverse_cons, append]
    refine ⟨?_, ?_, ?_, trivial⟩
    · simpa using ih rest
    · simpa using second
    · simpa using first

end Chained

/-! ## Singly linked lists -/

variable {Item : Type*} {node node' : Id → Option (Item × Option Id)} {ids : List Id}
  {items : List Item}

/-- The nodes have the items, each of them points to the next one and the last one nowhere. -/
def SinglyLinked (node : Id → Option (Item × Option Id)) : List Id → List Item → Prop
  | [], [] => True
  | id :: ids, item :: items => node id = some (item, ids.head?) ∧ SinglyLinked node ids items
  | [], _ :: _ => False
  | _ :: _, [] => False

namespace SinglyLinked

theorem items_nil (linked : SinglyLinked node [] items) : items = [] := by
  cases items with
  | nil => rfl
  | cons item items => cases linked

/-- The first node. -/
theorem first {id : Id} (linked : SinglyLinked node (id :: ids) items) :
    ∃ item rest, items = item :: rest ∧ node id = some (item, ids.head?) ∧
      SinglyLinked node ids rest := by
  cases items with
  | nil => cases linked
  | cons item rest => exact ⟨item, rest, rfl, linked⟩

variable (linked : SinglyLinked node ids items)
include linked

/-- Only the nodes in the list matter. -/
theorem congr (same : ∀ id ∈ ids, node' id = node id) : SinglyLinked node' ids items := by
  induction ids generalizing items with
  | nil =>
    cases linked.items_nil
    trivial
  | cons id ids ih =>
    obtain ⟨item, rest, rfl, here, later⟩ := linked.first
    constructor
    · rw [same id mem_cons_self, here]
    · exact ih later fun other member => same other (mem_cons_of_mem _ member)

theorem present {id : Id} (member : id ∈ ids) :
    ∃ item next, node id = some (item, next) ∧ item ∈ items ∧ ∀ other ∈ next, other ∈ ids := by
  induction ids generalizing items with
  | nil => cases member
  | cons first ids ih =>
    obtain ⟨item, rest, rfl, here, later⟩ := linked.first
    cases mem_cons.mp member with
    | inl isFirst =>
      subst isFirst
      refine ⟨item, ids.head?, here, mem_cons_self, ?_⟩
      exact fun other isNext => mem_cons_of_mem _ (mem_of_mem_head? isNext)
    | inr inside =>
      obtain ⟨item, next, found, itemMember, inList⟩ := ih later inside
      exact ⟨item, next, found, mem_cons_of_mem _ itemMember,
        fun other isNext => mem_cons_of_mem _ (inList other isNext)⟩

/-- A node is appended, and the last node made to point to it. -/
theorem concat {new : Id} {item : Item} (nodup : ids.Nodup)
    (before : ∀ id ∈ ids, ids.getLast? ≠ some id → node' id = node id)
    (last : ∀ id item next, ids.getLast? = some id → node id = some (item, next) →
      node' id = some (item, some new))
    (here : node' new = some (item, none)) :
    SinglyLinked node' (ids ++ [new]) (items ++ [item]) := by
  induction ids generalizing items with
  | nil =>
    cases linked.items_nil
    exact ⟨here, trivial⟩
  | cons id ids ih =>
    obtain ⟨first, rest, rfl, found, later⟩ := linked.first
    obtain ⟨notInside, nodupRest⟩ := nodup_cons.mp nodup
    cases ids with
    | nil =>
      cases later.items_nil
      exact ⟨last id first _ rfl found, here, trivial⟩
    | cons second ids =>
      have end_ : (id :: second :: ids).getLast? = (second :: ids).getLast? :=
        List.getLast?_cons_cons
      constructor
      · rw [before id mem_cons_self, found]
        · rfl
        · intro isLast
          rw [end_] at isLast
          exact notInside (mem_of_getLast? isLast)
      · apply ih later nodupRest
        · intro other member notLast
          apply before other (mem_cons_of_mem _ member)
          rw [end_]
          exact notLast
        · intro other item next isLast found
          apply last other item next _ found
          rw [end_]
          exact isLast

end SinglyLinked

end Gzochi.Lib
