import Mathlib.Data.List.Pairwise
import Mathlib.Data.List.Perm.Basic

/-!
# Search trees over a comparison function

A sequence kept as a binary tree is searched, and a sorted place in it found, by going down
from the root as a comparison function says.  The function may be any function: what a
search comes to is then a matter of the shape of the tree.  Where it orders the elements, a
search comes to the element it is for, and insertion keeps the order.
-/

namespace Gzochi.Lib

open List

inductive SearchTree (α : Type*) where
  | leaf
  | node (left : SearchTree α) (value : α) (right : SearchTree α)
  deriving DecidableEq

namespace SearchTree

variable {α : Type*} {compare : α → α → Int} {data found : α} {tree : SearchTree α}

/-- The elements from left to right. -/
def toList : SearchTree α → List α
  | leaf => []
  | node left value right => left.toList ++ value :: right.toList

/-- The first element on the way down that compares equal. -/
def find (compare : α → α → Int) (data : α) : SearchTree α → Option α
  | leaf => none
  | node left value right =>
      if compare value data = 0 then some value
      else if compare value data > 0 then left.find compare data
      else right.find compare data

/-- A new element comes where the way down ends; it goes on to the right from elements that
compare equal. -/
def insert (compare : α → α → Int) (data : α) : SearchTree α → SearchTree α
  | leaf => node leaf data leaf
  | node left value right =>
      if compare value data > 0 then node (left.insert compare data) value right
      else node left value (right.insert compare data)

/-- One tree with the elements of both. -/
def append : SearchTree α → SearchTree α → SearchTree α
  | leaf, last => last
  | node left value right, last => node left value (right.append last)

/-- The element that a search comes to is taken out. -/
def remove (compare : α → α → Int) (data : α) : SearchTree α → SearchTree α
  | leaf => leaf
  | node left value right =>
      if compare value data = 0 then left.append right
      else if compare value data > 0 then node (left.remove compare data) value right
      else node left value (right.remove compare data)

@[simp] theorem toList_leaf : (leaf : SearchTree α).toList = [] := rfl

@[simp] theorem toList_node (left : SearchTree α) (value : α) (right : SearchTree α) :
    (node left value right).toList = left.toList ++ value :: right.toList := rfl

@[simp] theorem toList_append (first last : SearchTree α) :
    (first.append last).toList = first.toList ++ last.toList := by
  induction first with
  | leaf => rfl
  | node left value right _ ih => simp [append, ih]

theorem toList_insert (compare : α → α → Int) (data : α) (tree : SearchTree α) :
    (tree.insert compare data).toList.Perm (data :: tree.toList) := by
  induction tree with
  | leaf => exact List.Perm.refl _
  | node left value right ihLeft ihRight =>
    unfold insert
    split
    · exact ihLeft.append_right _
    · refine (List.Perm.append_left left.toList (ihRight.cons value)).trans ?_
      refine (List.Perm.append_left _ (List.Perm.swap data value _)).trans ?_
      exact perm_middle

theorem mem_insert {other : α} :
    other ∈ (tree.insert compare data).toList ↔ other = data ∨ other ∈ tree.toList := by
  rw [(toList_insert compare data tree).mem_iff, mem_cons]

/-- Nothing is taken out when the search comes to nothing. -/
theorem remove_none (missing : tree.find compare data = none) :
    tree.remove compare data = tree := by
  induction tree with
  | leaf => rfl
  | node left value right ihLeft ihRight =>
    unfold find at missing
    unfold remove
    split at missing
    · cases missing
    · split at missing
      · rename_i unequal greater
        rw [if_neg unequal, if_pos greater, ihLeft missing]
      · rename_i unequal notGreater
        rw [if_neg unequal, if_neg notGreater, ihRight missing]

/-- Exactly what the search comes to is taken out. -/
theorem remove_some (there : tree.find compare data = some found) :
    ∃ before after, tree.toList = before ++ found :: after ∧
      (tree.remove compare data).toList = before ++ after := by
  induction tree with
  | leaf => cases there
  | node left value right ihLeft ihRight =>
    unfold find at there
    unfold remove
    split at there
    · rename_i equal
      cases there
      rw [if_pos equal]
      exact ⟨left.toList, right.toList, rfl, toList_append left right⟩
    · split at there
      · rename_i unequal greater
        obtain ⟨before, after, split, rest⟩ := ihLeft there
        refine ⟨before, after ++ value :: right.toList, ?_, ?_⟩
        · rw [toList_node, split, append_assoc, cons_append]
        · rw [if_neg unequal, if_pos greater, toList_node, rest, append_assoc]
      · rename_i unequal notGreater
        obtain ⟨before, after, split, rest⟩ := ihRight there
        refine ⟨left.toList ++ value :: before, after, ?_, ?_⟩
        · rw [toList_node, split, append_assoc, cons_append]
        · rw [if_neg unequal, if_neg notGreater, toList_node, rest, append_assoc, cons_append]

/-- Going down from the root, every other element compares according to the side on which the
element looked for lies. -/
inductive LeadsTo (compare : α → α → Int) (data : α) : SearchTree α → Prop where
  | here {left right : SearchTree α} (equal : compare data data = 0) :
      LeadsTo compare data (node left data right)
  | left {left right : SearchTree α} {value : α} (greater : compare value data > 0)
      (below : LeadsTo compare data left) : LeadsTo compare data (node left value right)
  | right {left right : SearchTree α} {value : α} (less : compare value data < 0)
      (below : LeadsTo compare data right) : LeadsTo compare data (node left value right)

theorem find_self_iff : tree.find compare data = some data ↔ tree.LeadsTo compare data := by
  constructor
  · intro there
    induction tree with
    | leaf => cases there
    | node left value right ihLeft ihRight =>
      unfold find at there
      split at there
      · rename_i equal
        cases there
        exact .here equal
      · split at there
        · rename_i greater
          exact .left greater (ihLeft there)
        · rename_i unequal notGreater
          exact .right (by omega) (ihRight there)
  · intro leads
    induction leads with
    | here equal => rw [find, if_pos equal]
    | left greater _ ih => rw [find, if_neg (by omega), if_pos greater, ih]
    | right less _ ih => rw [find, if_neg (by omega), if_neg (by omega), ih]

/-- The first comes before the second, whichever way they are compared. -/
def Before (compare : α → α → Int) (first second : α) : Prop :=
  compare first second < 0 ∧ compare second first > 0

def Sorted (compare : α → α → Int) (tree : SearchTree α) : Prop :=
  tree.toList.Pairwise (Before compare)

theorem sorted_node {left right : SearchTree α} {value : α} :
    (node left value right).Sorted compare ↔ left.Sorted compare ∧ right.Sorted compare ∧
      (∀ first ∈ left.toList, Before compare first value) ∧
      (∀ last ∈ right.toList, Before compare value last) ∧
      ∀ first ∈ left.toList, ∀ last ∈ right.toList, Before compare first last := by
  unfold Sorted
  rw [toList_node, pairwise_append, pairwise_cons]
  constructor
  · rintro ⟨left_sorted, ⟨after_value, right_sorted⟩, across⟩
    refine ⟨left_sorted, right_sorted, ?_, after_value, ?_⟩
    · exact fun first member => across first member value mem_cons_self
    · exact fun first member last inside =>
        across first member last (mem_cons_of_mem _ inside)
  · rintro ⟨left_sorted, right_sorted, before_value, after_value, across⟩
    refine ⟨left_sorted, ⟨after_value, right_sorted⟩, ?_⟩
    intro first member last inside
    rcases mem_cons.mp inside with rfl | inside
    · exact before_value first member
    · exact across first member last inside

/-- In a sorted tree a search comes to any element that it is for. -/
theorem Sorted.leadsTo (sorted : tree.Sorted compare) (member : data ∈ tree.toList)
    (equal : compare data data = 0) : tree.LeadsTo compare data := by
  induction tree with
  | leaf => cases member
  | node left value right ihLeft ihRight =>
    obtain ⟨left_sorted, right_sorted, before_value, after_value, _⟩ := sorted_node.mp sorted
    rw [toList_node, mem_append, mem_cons] at member
    rcases member with inside | rfl | inside
    · exact .left (before_value data inside).2 (ihLeft left_sorted inside)
    · exact .here equal
    · exact .right (after_value data inside).1 (ihRight right_sorted inside)

/-- Insertion keeps the order where the function orders the elements and the new one. -/
theorem Sorted.insert (sorted : tree.Sorted compare)
    (total : ∀ value ∈ tree.toList, Before compare value data ∨ Before compare data value)
    (transitive : ∀ first ∈ data :: tree.toList, ∀ second ∈ data :: tree.toList,
      ∀ third ∈ data :: tree.toList, Before compare first second → Before compare second third →
        Before compare first third) : (tree.insert compare data).Sorted compare := by
  induction tree with
  | leaf => exact pairwise_singleton _ _
  | node left value right ihLeft ihRight =>
    obtain ⟨left_sorted, right_sorted, before_value, after_value, across⟩ :=
      sorted_node.mp sorted
    have in_left : ∀ other ∈ left.toList, other ∈ (node left value right).toList :=
      fun other inside => mem_append_left _ inside
    have in_right : ∀ other ∈ right.toList, other ∈ (node left value right).toList :=
      fun other inside => mem_append_right _ (mem_cons_of_mem _ inside)
    have here : value ∈ (node left value right).toList :=
      mem_append_right _ mem_cons_self
    have restrict : ∀ (part : List α), (∀ other ∈ part, other ∈ (node left value right).toList) →
        ∀ other ∈ data :: part, other ∈ data :: (node left value right).toList := by
      intro part within other member
      rcases mem_cons.mp member with rfl | inside
      · exact mem_cons_self
      · exact mem_cons_of_mem _ (within other inside)
    unfold SearchTree.insert
    rcases total value here with less | greater
    · have notGreater : ¬ compare value data > 0 := by
        have := less.1
        omega
      rw [if_neg notGreater, sorted_node]
      refine ⟨left_sorted, ?_, before_value, ?_, ?_⟩
      · apply ihRight right_sorted (fun other inside => total other (in_right other inside))
        intro first one second two third three
        exact transitive first (restrict _ in_right first one) second
          (restrict _ in_right second two) third (restrict _ in_right third three)
      · intro last inside
        rcases mem_insert.mp inside with rfl | inside
        · exact less
        · exact after_value last inside
      · intro first member last inside
        rcases mem_insert.mp inside with rfl | inside
        · exact transitive first (mem_cons_of_mem _ (in_left first member)) value
            (mem_cons_of_mem _ here) last mem_cons_self (before_value first member) less
        · exact across first member last inside
    · rw [if_pos greater.2, sorted_node]
      refine ⟨?_, right_sorted, ?_, after_value, ?_⟩
      · apply ihLeft left_sorted (fun other inside => total other (in_left other inside))
        intro first one second two third three
        exact transitive first (restrict _ in_left first one) second
          (restrict _ in_left second two) third (restrict _ in_left third three)
      · intro first inside
        rcases mem_insert.mp inside with rfl | inside
        · exact greater
        · exact before_value first inside
      · intro first inside last member
        rcases mem_insert.mp inside with rfl | inside
        · exact transitive first mem_cons_self value (mem_cons_of_mem _ here) last
            (mem_cons_of_mem _ (in_right last member)) greater (after_value last member)
        · exact across first inside last member

/-- The function tells equal from different arguments, and orders these. -/
structure Orders (compare : α → α → Int) : Prop where
  equal : ∀ first second, compare first second = 0 ↔ first = second
  flipped : ∀ first second, compare first second < 0 ↔ compare second first > 0
  transitive : ∀ first second third, compare first second < 0 → compare second third < 0 →
    compare first third < 0

namespace Orders

variable (orders : Orders compare)
include orders

theorem before_iff (first second : α) : Before compare first second ↔ compare first second < 0 :=
  ⟨And.left, fun less => ⟨less, (orders.flipped first second).mp less⟩⟩

/-- A search comes to what it is for. -/
theorem find_eq (there : tree.find compare data = some found) : found = data := by
  induction tree with
  | leaf => cases there
  | node left value right ihLeft ihRight =>
    unfold find at there
    split at there
    · rename_i equal
      injection there with same
      exact same ▸ (orders.equal value data).mp equal
    · split at there
      · exact ihLeft there
      · exact ihRight there

variable (sorted : tree.Sorted compare)
include sorted

/-- A search in a sorted tree comes to nothing exactly when the element is not there. -/
theorem find_none_iff : tree.find compare data = none ↔ data ∉ tree.toList := by
  have self : compare data data = 0 := (orders.equal data data).mpr rfl
  constructor
  · intro missing member
    rw [find_self_iff.mpr (sorted.leadsTo member self)] at missing
    cases missing
  · intro absent
    cases result : tree.find compare data with
    | none => rfl
    | some found =>
      obtain ⟨before, after, whole, _⟩ := remove_some result
      have same := orders.find_eq result
      subst same
      exact (absent (whole ▸ mem_append_right _ mem_cons_self)).elim

theorem sorted_insert (absent : data ∉ tree.toList) :
    (tree.insert compare data).Sorted compare := by
  apply sorted.insert
  · intro value member
    rw [orders.before_iff, orders.before_iff]
    have different : value ≠ data := fun same => absent (same ▸ member)
    have unequal : compare value data ≠ 0 := fun equal =>
      different ((orders.equal value data).mp equal)
    have flipped := orders.flipped data value
    omega
  · intro first _ second _ third _ before after
    rw [orders.before_iff] at before after ⊢
    exact orders.transitive first second third before after

theorem nodup : tree.toList.Nodup := by
  refine List.Pairwise.imp ?_ sorted
  intro first second before same
  subst same
  have less := before.1
  rw [(orders.equal first first).mpr rfl] at less
  omega

/-- Removal takes out the element that it is for and keeps the order. -/
theorem toList_remove [DecidableEq α] :
    (tree.remove compare data).toList = tree.toList.erase data := by
  cases result : tree.find compare data with
  | none =>
    rw [remove_none result, erase_of_not_mem ((orders.find_none_iff sorted).mp result)]
  | some found =>
    obtain ⟨before, after, whole, rest⟩ := remove_some result
    have same := orders.find_eq result
    subst same
    have distinct := orders.nodup sorted
    rw [whole] at distinct
    have absent : found ∉ before := fun member =>
      (nodup_append.mp distinct).2.2 found member found mem_cons_self rfl
    rw [rest, whole, erase_append_right _ absent, erase_cons_head]

end Orders

/-- What may be made of a changed tree to balance it again. -/
structure Rebalancing (α : Type*) where
  apply : SearchTree α → SearchTree α
  keeps : ∀ tree, (apply tree).toList = tree.toList

def Rebalancing.none : Rebalancing α := ⟨id, fun _ => rfl⟩

@[simp] theorem Rebalancing.toList_apply (rebalancing : Rebalancing α) (tree : SearchTree α) :
    (rebalancing.apply tree).toList = tree.toList := rebalancing.keeps tree

end SearchTree

end Gzochi.Lib
