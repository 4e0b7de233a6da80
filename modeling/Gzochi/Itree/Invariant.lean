import Mathlib.Data.List.Perm.Subperm
import Gzochi.Lib.PointerTree
import Gzochi.Itree.Model

/-!
# What an interval tree holds

An interval tree stands for a map from intervals to data.  `Sound` relates the nodes
in memory to that map: the pointers spell out a finite tree in search order, with one
node for each interval of the map.  A sound tree answers every lookup.
-/

namespace Gzochi.IntervalTree

open Gzochi.Lib

universe u v w x

variable {Bound : Type u} {Lower : Type v} {Upper : Type w} {Data : Type x}

/-- The map a sequence of calls defines, with intervals as the comparison functions
see them. -/
abbrev Contents (Lower : Type v) (Upper : Type w) (Data : Type x) :=
  Lower → Upper → Option Data

namespace Contents

variable [DecidableEq Lower] [DecidableEq Upper]

def empty : Contents Lower Upper Data := fun _ _ => none

def insert (contents : Contents Lower Upper Data) (lower : Lower) (upper : Upper)
    (data : Data) : Contents Lower Upper Data :=
  fun low high => if low = lower ∧ high = upper then some data else contents low high

def remove (contents : Contents Lower Upper Data) (lower : Lower) (upper : Upper) :
    Contents Lower Upper Data :=
  fun low high => if low = lower ∧ high = upper then none else contents low high

end Contents

def Itree.links (tree : Itree Bound Data) : Links NodeId where
  parent id := (tree.node id).parent
  left id := (tree.node id).left
  right id := (tree.node id).right

/-- The pointers of the tree spell out a finite shape. -/
structure PointerTree (tree : Itree Bound Data) (shape : Shape NodeId) : Prop where
  root : tree.root = shape.top
  linked : Linked tree.links none shape
  nodup : shape.ids.Nodup
  allocated : ∀ id ∈ shape.ids, id < tree.allocated

theorem PointerTree.length_le {tree : Itree Bound Data} {shape : Shape NodeId}
    (pointers : PointerTree tree shape) : shape.ids.length ≤ tree.allocated := by
  have within : shape.ids ⊆ List.range tree.allocated := fun id member =>
    List.mem_range.mpr (pointers.allocated id member)
  simpa using (pointers.nodup.subperm within).length_le

variable (order : Comparators Bound Lower Upper)

def lowerKey (tree : Itree Bound Data) (id : NodeId) : Lower :=
  order.lower (tree.node id).lower

def upperKey (tree : Itree Bound Data) (id : NodeId) : Upper :=
  order.upper (tree.node id).upper

/-- The nodes of the shape carry exactly the entries of the map. -/
def Carries (tree : Itree Bound Data) (shape : Shape NodeId)
    (contents : Contents Lower Upper Data) : Prop :=
  ∀ lower upper data, contents lower upper = some data ↔
    ∃ id ∈ shape.ids, lowerKey order tree id = lower ∧ upperKey order tree id = upper ∧
      (tree.node id).data = data

/-- No two nodes of the shape have the same interval. -/
def Distinct (tree : Itree Bound Data) (shape : Shape NodeId) : Prop :=
  ∀ first ∈ shape.ids, ∀ second ∈ shape.ids,
    lowerKey order tree first = lowerKey order tree second →
    upperKey order tree first = upperKey order tree second → first = second

variable [LinearOrder Lower]

structure Sound (tree : Itree Bound Data) (shape : Shape NodeId)
    (contents : Contents Lower Upper Data) : Prop extends PointerTree tree shape where
  ordered : shape.Ordered (lowerKey order tree)
  distinct : Distinct order tree shape
  carries : Carries order tree shape contents

variable {order} {tree : Itree Bound Data} {shape : Shape NodeId}
  {contents : Contents Lower Upper Data}

variable [LinearOrder Upper]

variable {id : NodeId} {lower upper : Bound}

theorem matches?_iff :
    matches? order tree id lower upper = true ↔ lowerKey order tree id = order.lower lower ∧
      upperKey order tree id = order.upper upper := by
  simp [matches?, lowerKey, upperKey]

/-! ## Lookup -/

/-- Where a search from the top of a shape ends: at the interval, or at the node
below which it belongs. -/
structure Located (order : Comparators Bound Lower Upper) (tree : Itree Bound Data)
    (shape : Shape NodeId) (lower upper : Bound) (found : NodeId) : Prop where
  member : found ∈ shape.ids
  outcome : matches? order tree found lower upper = true ∨
    ((∀ other ∈ shape.ids, ¬matches? order tree other lower upper = true) ∧
      shape.seat (lowerKey order tree) (order.lower lower) = some found)

section Located

variable {lower upper : Bound} {current found : NodeId} {left right : Shape NodeId}

/-- To the right of a greater lower bound there is no match. -/
theorem no_match_right (upper : Bound) (below : order.lower lower < lowerKey order tree current)
    (greater : ∀ other ∈ right.ids, lowerKey order tree current ≤ lowerKey order tree other) :
    ∀ other ∈ right.ids, ¬matches? order tree other lower upper = true := by
  intro other member equal
  have bounded := greater other member
  rw [(matches?_iff.mp equal).1] at bounded
  exact absurd below (not_lt.mpr bounded)

/-- To the left of a lower bound that is not greater there is no match. -/
theorem no_match_left (upper : Bound) (above : ¬order.lower lower < lowerKey order tree current)
    (smaller : ∀ other ∈ left.ids, lowerKey order tree other < lowerKey order tree current) :
    ∀ other ∈ left.ids, ¬matches? order tree other lower upper = true := by
  intro other member equal
  have bounded := smaller other member
  rw [(matches?_iff.mp equal).1] at bounded
  exact above bounded

theorem Located.ofLeft (below : order.lower lower < lowerKey order tree current)
    (miss : ¬matches? order tree current lower upper = true)
    (missRight : ∀ other ∈ right.ids, ¬matches? order tree other lower upper = true)
    (located : Located order tree left lower upper found) :
    Located order tree (.node current left right) lower upper found := by
  refine ⟨by simp [located.member], located.outcome.imp_right ?_⟩
  exact fun ⟨missLeft, seated⟩ => ⟨Shape.forall_ids_node.mpr ⟨missLeft, miss, missRight⟩,
    by simp [Shape.seat, below, seated]⟩

theorem Located.ofRight (above : ¬order.lower lower < lowerKey order tree current)
    (miss : ¬matches? order tree current lower upper = true)
    (missLeft : ∀ other ∈ left.ids, ¬matches? order tree other lower upper = true)
    (located : Located order tree right lower upper found) :
    Located order tree (.node current left right) lower upper found := by
  refine ⟨by simp [located.member], located.outcome.imp_right ?_⟩
  exact fun ⟨missRight, seated⟩ => ⟨Shape.forall_ids_node.mpr ⟨missLeft, miss, missRight⟩,
    by simp [Shape.seat, above, seated]⟩

/-- A search ends where there is no child to go on to. -/
theorem Located.ofEnd (miss : ∀ other ∈ (Shape.node current left right).ids,
      ¬matches? order tree other lower upper = true)
    (ended : if order.lower lower < lowerKey order tree current then left = .nil
      else right = .nil) :
    Located order tree (.node current left right) lower upper current := by
  refine ⟨by simp, .inr ⟨miss, ?_⟩⟩
  simp only [Shape.seat]
  split at ended
  next below => simp [below, ended, Shape.seat]
  next above => simp [above, ended, Shape.seat]

end Located

theorem itreeLocationLoop_spec {parent : Option NodeId} {fuel : Nat}
    (linked : Linked tree.links parent shape) (ordered : shape.Ordered (lowerKey order tree))
    (top : shape.top = some id) (enough : shape.ids.length ≤ fuel) :
    ∃ found, itreeLocationLoop order tree lower upper fuel id = some found ∧
      Located order tree shape lower upper found := by
  induction shape generalizing parent fuel id with
  | nil => cases top
  | node current left right leftIh rightIh =>
    cases top
    rcases linked with ⟨_, toLeft, toRight, inLeft, inRight⟩
    rcases ordered with ⟨smaller, greater, leftOrdered, rightOrdered⟩
    simp only [Shape.ids_node, List.length_append, List.length_cons] at enough
    cases fuel with
    | zero => omega
    | succ fuel =>
      simp only [itreeLocationLoop]
      split
      next hit => exact ⟨current, rfl, by simp, .inl hit⟩
      next miss =>
        split
        next below =>
          have missRight := no_match_right upper below greater
          have points : (tree.node current).left = left.top := toLeft
          rw [points]
          cases reached : left.top with
          | none =>
            have nothing := Shape.eq_nil_of_top reached
            subst nothing
            refine ⟨current, rfl, .ofEnd ?_ (if_pos below ▸ rfl)⟩
            intro other member
            simp only [Shape.ids_node, Shape.ids_nil, List.nil_append, List.mem_cons] at member
            rcases member with same | member
            · exact same ▸ miss
            · exact missRight other member
          | some child =>
            have fits : left.ids.length ≤ fuel := by omega
            rcases leftIh inLeft leftOrdered reached fits with ⟨found, equal, located⟩
            exact ⟨found, equal, located.ofLeft below miss missRight⟩
        next above =>
          have missLeft := no_match_left upper above smaller
          have points : (tree.node current).right = right.top := toRight
          rw [points]
          cases reached : right.top with
          | none =>
            have nothing := Shape.eq_nil_of_top reached
            subst nothing
            refine ⟨current, rfl, .ofEnd ?_ (if_neg above ▸ rfl)⟩
            intro other member
            simp only [Shape.ids_node, Shape.ids_nil, List.mem_append, List.mem_singleton] at member
            rcases member with member | same
            · exact missLeft other member
            · exact same ▸ miss
          | some child =>
            have fits : right.ids.length ≤ fuel := by omega
            rcases rightIh inRight rightOrdered reached fits with ⟨found, equal, located⟩
            exact ⟨found, equal, located.ofRight above miss missLeft⟩

/-- A search always ends; it finds nothing only in the empty tree. -/
theorem Sound.itreeLocation_spec (sound : Sound order tree shape contents) (lower upper : Bound) :
    (itreeLocation order tree lower upper = some none ∧ tree.root = none ∧ shape = .nil) ∨
    ∃ found, itreeLocation order tree lower upper = some (some found) ∧
      Located order tree shape lower upper found := by
  simp only [itreeLocation]
  cases reached : shape.top with
  | none =>
    left
    rw [sound.root, reached]
    exact ⟨rfl, rfl, Shape.eq_nil_of_top reached⟩
  | some root =>
    right
    have enough : shape.ids.length ≤ tree.bound := by
      have := sound.length_le
      simp only [Itree.bound]
      omega
    rcases itreeLocationLoop_spec sound.linked sound.ordered reached enough with
      ⟨found, equal, located⟩
    rw [sound.root, reached]
    exact ⟨found, by simp [equal], located⟩

/-- The data found under the exact bounds of an interval. -/
def lookup (order : Comparators Bound Lower Upper) (tree : Itree Bound Data)
    (lower upper : Bound) : Option (Option Data) :=
  match itreeLocation order tree lower upper with
  | none => none
  | some none => some none
  | some (some id) =>
      some (if matches? order tree id lower upper then some (tree.node id).data else none)

/-- An interval is missing from the map when no node matches it. -/
theorem Carries.missing (carries : Carries order tree shape contents)
    (miss : ∀ other ∈ shape.ids, ¬matches? order tree other lower upper = true) :
    contents (order.lower lower) (order.upper upper) = none := by
  cases stored : contents (order.lower lower) (order.upper upper) with
  | none => rfl
  | some data =>
    rcases (carries _ _ _).mp stored with ⟨id, member, low, high, _⟩
    exact absurd (matches?_iff.mpr ⟨low, high⟩) (miss id member)

theorem Carries.present (carries : Carries order tree shape contents) (member : id ∈ shape.ids)
    (hit : matches? order tree id lower upper = true) :
    contents (order.lower lower) (order.upper upper) = some (tree.node id).data := by
  rcases matches?_iff.mp hit with ⟨low, high⟩
  exact (carries _ _ _).mpr ⟨id, member, low, high, rfl⟩

/-- Every lookup in a sound tree ends with what the map holds. -/
theorem Sound.lookup_eq (sound : Sound order tree shape contents) (lower upper : Bound) :
    lookup order tree lower upper = some (contents (order.lower lower) (order.upper upper)) := by
  simp only [lookup]
  rcases sound.itreeLocation_spec lower upper with ⟨equal, _, empty⟩ | ⟨found, equal, located⟩
  · subst empty
    rw [equal, sound.carries.missing (by simp)]
  · rw [equal]
    rcases located.outcome with hit | ⟨miss, _⟩
    · simp only [hit, if_true]
      rw [sound.carries.present located.member hit]
    · simp only [miss found located.member]
      rw [sound.carries.missing miss]
      rfl

end Gzochi.IntervalTree
