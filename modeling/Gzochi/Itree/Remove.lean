import Gzochi.Itree.Retrace

/-!
# Removal

An interval is removed by taking its node out, or the node of its predecessor when the
node has two children, after which the code retraces.  The tree stays sound unless the
retrace comes to a rotation, or the predecessor shares its lower bound with another
interval to the left.
-/

namespace Gzochi.IntervalTree

open Gzochi.Lib Shape

universe u v w x

variable {Bound : Type u} {Lower : Type v} {Upper : Type w} {Data : Type x}
variable {order : Comparators Bound Lower Upper} {tree : Itree Bound Data}
  {shape : Shape NodeId} {contents : Contents Lower Upper Data} {id target : NodeId}

/-- The nodes at and below a node. -/
inductive Below (tree : Itree Bound Data) (top : NodeId) : NodeId → Prop where
  | refl : Below tree top top
  | left {id child : NodeId} :
      Below tree top id → (tree.node id).left = some child → Below tree top child
  | right {id child : NodeId} :
      Below tree top id → (tree.node id).right = some child → Below tree top child

variable {top : NodeId}

theorem Below.trans {middle bottom : NodeId} (first : Below tree top middle)
    (second : Below tree middle bottom) : Below tree top bottom := by
  induction second with
  | refl => exact first
  | left _ points ih => exact ih.left points
  | right _ points ih => exact ih.right points

variable {other : NodeId}

/-- The nodes of a shape are below its top. -/
theorem below_of_linked {parent : Option NodeId} (linked : Linked tree.links parent shape)
    (atTop : shape.top = some top) (member : other ∈ shape.ids) : Below tree top other := by
  induction shape generalizing parent top with
  | nil => cases member
  | node current left right leftIh rightIh =>
    cases atTop
    rcases linked with ⟨_, toLeft, toRight, inLeft, inRight⟩
    simp only [ids_node, List.mem_append, List.mem_cons] at member
    rcases member with member | same | member
    · cases reached : left.top with
      | none => simp [eq_nil_of_top reached] at member
      | some child =>
        exact (Below.refl.left (toLeft.trans reached)).trans (leftIh inLeft reached member)
    · exact same ▸ .refl
    · cases reached : right.top with
      | none => simp [eq_nil_of_top reached] at member
      | some child =>
        exact (Below.refl.right (toRight.trans reached)).trans (rightIh inRight reached member)

/-- The rightmost node below a node has no right child and, in search order, a greatest lower
bound. -/
theorem rightmost_spec [LinearOrder Lower] (order : Comparators Bound Lower Upper)
    {parent : Option NodeId} {fuel : Nat} (linked : Linked tree.links parent shape)
    (atTop : shape.top = some top) (enough : shape.ids.length ≤ fuel) :
    ∃ target, rightmost tree fuel top = some target ∧ target ∈ shape.ids ∧
      (tree.node target).right = none ∧
      (shape.Ordered (lowerKey order tree) →
        ∀ other ∈ shape.ids, lowerKey order tree other ≤ lowerKey order tree target) := by
  induction shape generalizing parent top fuel with
  | nil => cases atTop
  | node current left right leftIh rightIh =>
    cases atTop
    rcases linked with ⟨_, _, toRight, _, inRight⟩
    simp only [ids_node, List.length_append, List.length_cons] at enough
    cases fuel with
    | zero => omega
    | succ fuel =>
      have points : (tree.node current).right = right.top := toRight
      simp only [rightmost, points]
      cases reached : right.top with
      | none =>
        have nothing := eq_nil_of_top reached
        subst nothing
        refine ⟨current, rfl, by simp, points, ?_⟩
        intro ordered other member
        simp only [ids_node, ids_nil, List.mem_append, List.mem_singleton] at member
        rcases member with member | same
        · exact (ordered.1 other member).le
        · exact same ▸ le_rfl
      | some child =>
        have fits : right.ids.length ≤ fuel := by omega
        rcases rightIh inRight reached fits with ⟨target, equal, inside, noRight, greatest⟩
        refine ⟨target, equal, by simp [inside], noRight, ?_⟩
        rintro ⟨smaller, greater, _, rightOrdered⟩ other member
        have atLeast := greater target inside
        simp only [ids_node, List.mem_append, List.mem_cons] at member
        rcases member with member | same | member
        · exact (smaller other member).le.trans atLeast
        · exact same ▸ atLeast
        · exact greatest rightOrdered other member

/-- The node to take out: the node itself, with at most one child, or the last node of
its left subtree. -/
inductive Removable (order : Comparators Bound Lower Upper) [LinearOrder Lower]
    (tree : Itree Bound Data) (shape : Shape NodeId) (id : NodeId) : NodeId → Prop where
  | self : (tree.node id).left = none ∨ (tree.node id).right = none →
      Removable order tree shape id id
  | predecessor {left right : Shape NodeId} {child target : NodeId} :
      (Shape.node id left right).Occurs shape → left.top = some child →
      (tree.node id).left = some child → target ∈ left.ids →
      (tree.node target).right = none →
      (∀ other ∈ left.ids, lowerKey order tree other ≤ lowerKey order tree target) →
      Removable order tree shape id target

/-- In search order or not, there is a node to take out. -/
theorem PointerTree.removalTarget [LinearOrder Lower] (order : Comparators Bound Lower Upper)
    (pointers : PointerTree tree shape) (member : id ∈ shape.ids) :
    (IntervalTree.removalTarget tree id = some id ∧
      ((tree.node id).left = none ∨ (tree.node id).right = none)) ∨
    ∃ left right child target, IntervalTree.removalTarget tree id = some target ∧
      (Shape.node id left right).Occurs shape ∧ left.top = some child ∧
      (tree.node id).left = some child ∧ target ∈ left.ids ∧
      (tree.node target).right = none ∧
      (left.Ordered (lowerKey order tree) →
        ∀ other ∈ left.ids, lowerKey order tree other ≤ lowerKey order tree target) := by
  simp only [IntervalTree.removalTarget]
  split
  next child other toLeft _ =>
    right
    rcases exists_occurs member with ⟨left, right, occurs⟩
    rcases occurs.linked pointers.linked with ⟨parent, _, leftTop, _, inLeft, _⟩
    have atTop : left.top = some child := leftTop.symm.trans toLeft
    have enough : left.ids.length ≤ tree.bound := by
      have within : left.ids.Nodup := (nodup_node.mp (occurs.nodup pointers.nodup)).1
      have few : left.ids.length ≤ shape.ids.length :=
        (within.subperm fun id inside => occurs.mem_ids (by simp [inside])).length_le
      have := pointers.length_le
      simp only [Itree.bound]
      omega
    rcases rightmost_spec order inLeft atTop enough with
      ⟨target, equal, inside, noRight, greatest⟩
    exact ⟨left, right, child, target, equal, occurs, atTop, toLeft, inside, noRight, greatest⟩
  next single =>
    refine .inl ⟨rfl, ?_⟩
    cases toLeft : (tree.node id).left with
    | none => exact .inl rfl
    | some child =>
      cases toRight : (tree.node id).right with
      | none => exact .inr rfl
      | some other => exact absurd toRight (single child other toLeft)

/-- It is in the tree and has at most one child. -/
theorem PointerTree.removalTarget_single [LinearOrder Lower] (order : Comparators Bound Lower Upper)
    (pointers : PointerTree tree shape) (member : id ∈ shape.ids) :
    ∃ target ∈ shape.ids, IntervalTree.removalTarget tree id = some target ∧
      ((tree.node target).left = none ∨ (tree.node target).right = none) := by
  rcases pointers.removalTarget order member with
    ⟨equal, single⟩ | ⟨left, _, _, target, equal, occurs, _, _, inside, noRight, _⟩
  · exact ⟨id, member, equal, single⟩
  · exact ⟨target, occurs.mem_ids (by simp [inside]), equal, .inr noRight⟩

theorem Sound.removalTarget [LinearOrder Lower] (sound : Sound order tree shape contents)
    (member : id ∈ shape.ids) :
    ∃ target, IntervalTree.removalTarget tree id = some target ∧
      Removable order tree shape id target := by
  rcases sound.toPointerTree.removalTarget order member with
    ⟨equal, single⟩ | ⟨left, right, child, target, equal, occurs, atTop, toLeft, inside, noRight,
      greatest⟩
  · exact ⟨id, equal, .self single⟩
  · exact ⟨target, equal, .predecessor occurs atTop toLeft inside noRight
      (greatest (occurs.ordered sound.ordered).2.2.1)⟩

/-- Swapping values leaves everything but values alone. -/
theorem swapValues_node (tree : Itree Bound Data) (id target other : NodeId) :
    (swapValues tree id target).node other = { tree.node other with
        lower := (tree.node (if other = id then target else other)).lower
        upper := (tree.node (if other = id then target else other)).upper
        data := (tree.node (if other = id then target else other)).data } := by
  simp only [swapValues]
  by_cases trivially : target = id
  · subst trivially
    simp only [if_true]
    have same : (if other = target then target else other) = other := by
      split
      next equal => exact equal.symm
      next => rfl
    rw [same]
  · rw [if_neg trivially]
    by_cases same : other = id
    · subst same
      simp
    · simp [Itree.modify_node_of_ne tree _ same, same]

theorem swapValues_links (tree : Itree Bound Data) (id target : NodeId) :
    (swapValues tree id target).links = tree.links := by
  simp only [Itree.links, swapValues_node]

theorem swapValues_root (tree : Itree Bound Data) (id target : NodeId) :
    (swapValues tree id target).root = tree.root := by
  simp only [swapValues]
  split
  next => rfl
  next => rfl

theorem swapValues_allocated (tree : Itree Bound Data) (id target : NodeId) :
    (swapValues tree id target).allocated = tree.allocated := by
  simp only [swapValues]
  split
  next => rfl
  next => rfl

theorem PointerTree.swapValues (pointers : PointerTree tree shape) (id target : NodeId) :
    PointerTree (swapValues tree id target) shape where
  root := (swapValues_root tree id target).trans pointers.root
  linked := (swapValues_links tree id target) ▸ pointers.linked
  nodup := pointers.nodup
  allocated other member :=
    (swapValues_allocated tree id target) ▸ pointers.allocated other member

theorem newChild_eq (tree : Itree Bound Data) (target : NodeId) :
    newChild tree target = (tree.node target).left.or (tree.node target).right := by
  simp only [newChild]
  split
  next child points => rw [points, Option.some_or]
  next none => rw [none, Option.none_or]

/-- The first step of taking a node out: its child gets its parent. -/
def adopt (tree : Itree Bound Data) (child parent : Option NodeId) : Itree Bound Data :=
  match child with
  | none => tree
  | some child => tree.modify child fun node => { node with parent := parent }

theorem adopt_node (tree : Itree Bound Data) (child parent : Option NodeId) (other : NodeId) :
    (adopt tree child parent).node other = { tree.node other with
        parent := if child = some other then parent else (tree.node other).parent } := by
  cases child with
  | none => simp [adopt]
  | some child =>
    by_cases same : other = child
    · subst same
      simp [adopt]
    · simp [adopt, Itree.modify_node_of_ne tree _ same, Ne.symm same]

theorem unlink_allocated (tree : Itree Bound Data) (target : NodeId) :
    (unlink tree target).allocated = tree.allocated := by
  simp only [unlink]
  split <;> split <;> rfl

section Unlink

variable (pointers : PointerTree tree shape) (member : target ∈ shape.ids)
include pointers member

/-- The child that takes the place of the target is in the tree and points to it. -/
theorem newChild_spec {child : NodeId} (equal : newChild tree target = some child) :
    child ∈ shape.ids ∧ (tree.node child).parent = some target := by
  rw [newChild_eq] at equal
  exact pointers.linked.child_mem member ((Option.or_eq_some_iff.mp equal).imp_right And.right)

/-- Taking a node out redirects the pointers to it and to its parent. -/
theorem unlink_node {other : NodeId} (inside : other ∈ shape.ids) :
    (unlink tree target).node other = { tree.node other with
        parent := if newChild tree target = some other then (tree.node target).parent
          else (tree.node other).parent
        left := if (tree.node other).left = some target then newChild tree target
          else (tree.node other).left
        right := if (tree.node other).right = some target then newChild tree target
          else (tree.node other).right } := by
  have fromLeft : (tree.node other).left = some target →
      (tree.node target).parent = some other := fun points =>
    (pointers.linked.left_child inside points).2
  have fromRight : (tree.node other).right = some target →
      (tree.node target).parent = some other := fun points =>
    (pointers.linked.right_child inside points).2
  have oneSide : (tree.node other).left = some target →
      (tree.node other).right ≠ some target := fun points =>
    pointers.linked.left_ne_right pointers.nodup inside points
  have notBoth : (tree.node target).parent = some other → newChild tree target ≠ some other := by
    intro up equal
    have back := (newChild_spec pointers member equal).2
    have higher := (pointers.parent_spec member up).2.2
    have lower := (pointers.parent_spec inside back).2.2
    omega
  have noLeft : (tree.node target).parent = none → (tree.node other).left ≠ some target := by
    intro atTop points
    exact absurd (atTop.symm.trans (fromLeft points)) (by simp)
  have noRight : (tree.node target).parent = none → (tree.node other).right ≠ some target := by
    intro atTop points
    exact absurd (atTop.symm.trans (fromRight points)) (by simp)
  have adopted := adopt_node tree (newChild tree target) (tree.node target).parent
  simp only [unlink]
  change (match (tree.node target).parent with
    | none => { adopt tree (newChild tree target) (tree.node target).parent with
        root := newChild tree target }
    | some parent => (adopt tree (newChild tree target) (tree.node target).parent).modify parent
        fun node =>
          if node.left = some target then { node with left := newChild tree target }
          else if node.right = some target then { node with right := newChild tree target }
          else node : Itree Bound Data).node other = _
  cases up : (tree.node target).parent with
  | none =>
    rw [up] at adopted
    simp only [adopted, if_neg (noLeft up), if_neg (noRight up)]
  | some parent =>
    rw [up] at adopted
    by_cases same : other = parent
    · subst same
      simp only [Itree.modify_node_self, adopted, if_neg (notBoth up)]
      by_cases isLeft : (tree.node other).left = some target
      · simp only [isLeft, if_true, if_neg (oneSide isLeft)]
      · simp only [if_neg isLeft]
        by_cases isRight : (tree.node other).right = some target
        · simp only [isRight, if_true]
        · simp only [if_neg isRight]
    · have isLeft : (tree.node other).left ≠ some target := fun points =>
        same (Option.some.inj (up.symm.trans (fromLeft points))).symm
      have isRight : (tree.node other).right ≠ some target := fun points =>
        same (Option.some.inj (up.symm.trans (fromRight points))).symm
      simp only [Itree.modify_node_of_ne _ _ same, adopted, if_neg isLeft, if_neg isRight]

theorem unlinked_unlink :
    Unlinked tree.links (unlink tree target).links target (newChild tree target) shape.ids where
  left other inside _ := by
    simp only [Itree.links, unlink_node pointers member inside]
    rfl
  right other inside _ := by
    simp only [Itree.links, unlink_node pointers member inside]
    rfl
  parent other inside _ := by
    simp only [Itree.links, unlink_node pointers member inside]

theorem unlink_root : (unlink tree target).root =
    if shape.top = some target then newChild tree target else shape.top := by
  simp only [unlink]
  rcases pointers.parent_cases member with ⟨noParent, atTop⟩ | ⟨parent, inside, up, _, higher⟩
  · rw [noParent, if_pos atTop]
  · rw [up, if_neg]
    · rw [← pointers.root]
      cases newChild tree target with
      | none => rfl
      | some child => rfl
    · intro atTop
      cases shape with
      | nil => cases atTop
      | node top left right =>
        cases atTop
        exact absurd (pointers.linked.1.symm.trans up) (by simp)

theorem PointerTree.unlink
    (single : (tree.node target).left = none ∨ (tree.node target).right = none) :
    PointerTree (unlink tree target) (shape.cut target) := by
  rcases pointers.linked.cut pointers.nodup member single (newChild_eq tree target)
    (unlinked_unlink pointers member) with ⟨linked, top⟩
  refine ⟨(unlink_root pointers member).trans top.symm, linked,
    pointers.nodup.sublist ids_cut_sublist, ?_⟩
  intro other inside
  rw [unlink_allocated]
  exact pointers.allocated other (mem_of_mem_cut inside)

end Unlink

/-- The node whose interval ends up in a node. -/
def moved (id target other : NodeId) : NodeId := if other = id then target else other

theorem moved_mem (member : target ∈ shape.ids) (inside : other ∈ shape.ids) :
    moved id target other ∈ shape.ids := by
  simp only [moved]
  split
  next => exact member
  next => exact inside

theorem moved_ne (notTarget : other ≠ target) : moved id target other ≠ id := by
  simp only [moved]
  split
  next same => exact fun equal => notTarget (same.trans equal.symm)
  next different => exact different

theorem moved_injective {first second : NodeId} (notFirst : first ≠ target)
    (notSecond : second ≠ target) (same : moved id target first = moved id target second) :
    first = second := by
  simp only [moved] at same
  split at same
  next isFirst =>
    split at same
    next isSecond => exact isFirst.trans isSecond.symm
    next => exact absurd same.symm notSecond
  next =>
    split at same
    next => exact absurd same notFirst
    next => exact same

/-- Every interval but the removed one ends up somewhere. -/
theorem exists_moved {source : NodeId} (member : id ∈ shape.ids)
    (inside : source ∈ shape.ids) (notId : source ≠ id) :
    ∃ place ∈ shape.ids, place ≠ target ∧ moved id target place = source := by
  by_cases same : source = target
  · refine ⟨id, member, fun equal => notId (same.trans equal.symm), ?_⟩
    simp [moved, same]
  · exact ⟨source, inside, same, by simp [moved, notId]⟩

section Removed

variable [LinearOrder Lower]

theorem Removable.single (removable : Removable order tree shape id target) :
    (tree.node target).left = none ∨ (tree.node target).right = none := by
  cases removable with
  | self single => exact single
  | predecessor _ _ _ _ noRight _ => exact .inr noRight

theorem Removable.member (removable : Removable order tree shape id target)
    (member : id ∈ shape.ids) : target ∈ shape.ids := by
  cases removable with
  | self => exact member
  | predecessor occurs _ _ inside _ _ => exact occurs.mem_ids (by simp [inside])

/-- The found node and the target taken out, as one step. -/
def taken (tree : Itree Bound Data) (id target : NodeId) : Itree Bound Data :=
  unlink (swapValues tree id target) target

/-- The pointers of the tree without the target. -/
theorem PointerTree.taken (pointers : PointerTree tree shape) (member : target ∈ shape.ids)
    (single : (tree.node target).left = none ∨ (tree.node target).right = none) :
    PointerTree (taken tree id target) (shape.cut target) := by
  apply (pointers.swapValues id target).unlink member
  simpa only [swapValues_node] using single

theorem taken_node (pointers : PointerTree tree shape) (member : target ∈ shape.ids)
    {other : NodeId} (inside : other ∈ shape.ids) :
    (taken tree id target).node other = { tree.node other with
        parent := if newChild tree target = some other then (tree.node target).parent
          else (tree.node other).parent
        left := if (tree.node other).left = some target then newChild tree target
          else (tree.node other).left
        right := if (tree.node other).right = some target then newChild tree target
          else (tree.node other).right
        lower := (tree.node (moved id target other)).lower
        upper := (tree.node (moved id target other)).upper
        data := (tree.node (moved id target other)).data } := by
  have sameChild : newChild (swapValues tree id target) target = newChild tree target := by
    simp only [newChild, swapValues_node]
  simp only [taken, unlink_node (pointers.swapValues id target) member inside, sameChild,
    swapValues_node, moved]

/-- No other interval to the left of a node shares the lower bound of the predecessor
that is to replace it. -/
def PredecessorAlone (order : Comparators Bound Lower Upper) (tree : Itree Bound Data)
    (id target : NodeId) : Prop :=
  target ≠ id → ∀ child, (tree.node id).left = some child →
    ∀ other, Below tree child other → other ≠ target →
      lowerKey order tree other ≠ lowerKey order tree target

/-- The search order survives when the intervals have moved. -/
theorem Sound.ordered_moved (sound : Sound order tree shape contents)
    (removable : Removable order tree shape id target)
    (alone : PredecessorAlone order tree id target) :
    (shape.cut target).Ordered fun other => lowerKey order tree (moved id target other) := by
  cases removable with
  | self =>
    refine sound.ordered.cut.congr fun other _ => ?_
    have same : moved id id other = other := by
      simp only [moved]
      split
      next equal => exact equal.symm
      next => rfl
    rw [same]
  | @predecessor left right child _ occurs atTop toChild inside noRight greatest =>
    rcases occurs.linked sound.linked with ⟨parent, _, _, _, inLeft, _⟩
    rcases nodup_node.mp (occurs.nodup sound.nodup) with ⟨leftNodup, _, notLeft, _, _⟩
    have different : target ≠ id := fun same => notLeft (same ▸ inside)
    refine sound.ordered.cut_predecessor sound.nodup occurs inside ?_ ?_ (by simp [moved]) ?_
    · intro other inLeftIds notTarget
      have below := below_of_linked inLeft atTop inLeftIds
      exact lt_of_le_of_ne (greatest other inLeftIds)
        (alone different child toChild other below notTarget)
    · intro other found
      exact ((mem_ids_cut inLeft leftNodup (.inr noRight)).mp found).2
    · intro other notId
      simp [moved, notId]

variable [LinearOrder Upper] {lower upper : Bound}

/-- Taking out the target removes the interval of the found node from the map. -/
theorem Sound.taken (sound : Sound order tree shape contents) (member : id ∈ shape.ids)
    (hit : matches? order tree id lower upper = true)
    (removable : Removable order tree shape id target)
    (alone : PredecessorAlone order tree id target) :
    Sound order (taken tree id target) (shape.cut target)
      (contents.remove (order.lower lower) (order.upper upper)) := by
  have inTarget := removable.member member
  have lowers : ∀ other ∈ shape.ids, lowerKey order (IntervalTree.taken tree id target) other =
      lowerKey order tree (moved id target other) := by
    intro other inside
    simp only [lowerKey, taken_node sound.toPointerTree inTarget inside]
  have uppers : ∀ other ∈ shape.ids, upperKey order (IntervalTree.taken tree id target) other =
      upperKey order tree (moved id target other) := by
    intro other inside
    simp only [upperKey, taken_node sound.toPointerTree inTarget inside]
  have values : ∀ other ∈ shape.ids, ((IntervalTree.taken tree id target).node other).data =
      (tree.node (moved id target other)).data := by
    intro other inside
    simp only [taken_node sound.toPointerTree inTarget inside]
  have ids : ∀ other, other ∈ (shape.cut target).ids ↔ other ∈ shape.ids ∧ other ≠ target :=
    fun other => mem_ids_cut sound.linked sound.nodup removable.single
  rcases matches?_iff.mp hit with ⟨low, high⟩
  refine ⟨sound.toPointerTree.taken inTarget removable.single, ?_, ?_, ?_⟩
  · exact (sound.ordered_moved removable alone).congr fun other inside =>
      lowers other (mem_of_mem_cut inside)
  · intro first inFirst second inSecond sameLower sameUpper
    rcases (ids first).mp inFirst with ⟨inFirst, notFirst⟩
    rcases (ids second).mp inSecond with ⟨inSecond, notSecond⟩
    rw [lowers first inFirst, lowers second inSecond] at sameLower
    rw [uppers first inFirst, uppers second inSecond] at sameUpper
    exact moved_injective notFirst notSecond (sound.distinct _ (moved_mem inTarget inFirst) _
      (moved_mem inTarget inSecond) sameLower sameUpper)
  · intro lower' upper' value
    simp only [Contents.remove]
    constructor
    · intro stored
      obtain ⟨other, stored⟩ := Option.ite_none_left_eq_some.mp stored
      rcases (sound.carries _ _ _).mp stored with ⟨source, inside, low', high', value'⟩
      have notId : source ≠ id := by
        intro same
        subst same
        exact other ⟨low'.symm.trans low, high'.symm.trans high⟩
      rcases exists_moved member inside notId with ⟨place, inPlace, notTarget, isMoved⟩
      refine ⟨place, (ids place).mpr ⟨inPlace, notTarget⟩, ?_, ?_, ?_⟩
      · rw [lowers place inPlace, isMoved, low']
      · rw [uppers place inPlace, isMoved, high']
      · rw [values place inPlace, isMoved, value']
    · rintro ⟨place, inPlace, low', high', value'⟩
      rcases (ids place).mp inPlace with ⟨inside, notTarget⟩
      rw [lowers place inside] at low'
      rw [uppers place inside] at high'
      rw [values place inside] at value'
      rw [if_neg]
      · exact (sound.carries _ _ _).mpr ⟨_, moved_mem inTarget inside, low', high', value'⟩
      · intro same
        exact moved_ne notTarget (sound.distinct _ (moved_mem inTarget inside) id member
          (low'.trans (same.1.trans low.symm)) (high'.trans (same.2.trans high.symm)))

end Removed

section Covered

variable [LinearOrder Upper]

variable (covered : Covered order tree shape)
include covered

/-- A node that covers covers everything below it. -/
theorem Covered.below (pointers : PointerTree tree shape)
    {top other : NodeId} (member : top ∈ shape.ids) (below : Below tree top other) :
    other ∈ shape.ids ∧
      order.upper (tree.node other).maxUpper ≤ order.upper (tree.node top).maxUpper := by
  induction below with
  | refl => exact ⟨member, le_rfl⟩
  | left _ points ih =>
    exact ⟨(pointers.linked.left_child ih.1 points).1, ((covered _ ih.1).left _ points).trans ih.2⟩
  | right _ points ih =>
    exact ⟨(pointers.linked.right_child ih.1 points).1,
      ((covered _ ih.1).right _ points).trans ih.2⟩

theorem Covered.newChild (member : target ∈ shape.ids)
    {child : NodeId} (equal : newChild tree target = some child) :
    order.upper (tree.node child).maxUpper ≤ order.upper (tree.node target).maxUpper := by
  rw [newChild_eq] at equal
  rcases Option.or_eq_some_iff.mp equal with points | ⟨_, points⟩
  · exact (covered target member).left child points
  · exact (covered target member).right child points

/-- Maximum upper bounds may become too great by a removal, never too small. -/
theorem Covered.taken [LinearOrder Lower]
    (pointers : PointerTree tree shape) (member : id ∈ shape.ids)
    (removable : Removable order tree shape id target) :
    Covered order (taken tree id target) (shape.cut target) := by
  have inTarget := removable.member member
  have sameMax : ∀ other ∈ shape.ids,
      ((IntervalTree.taken tree id target).node other).maxUpper = (tree.node other).maxUpper := by
    intro other inside
    rw [taken_node pointers inTarget inside]
  have targetBelow : order.upper (tree.node target).maxUpper ≤
      order.upper (tree.node id).maxUpper := by
    cases removable with
    | self => exact le_rfl
    | predecessor occurs atTop toChild inside _ _ =>
      rcases occurs.linked pointers.linked with ⟨parent, _, _, _, inLeft, _⟩
      exact (covered.below pointers member ((Below.refl.left toChild).trans
        (below_of_linked inLeft atTop inside))).2
  have redirected : ∀ other ∈ shape.ids, ∀ pointer : Option NodeId,
      (∀ child, pointer = some child → child ∈ shape.ids ∧
        order.upper (tree.node child).maxUpper ≤ order.upper (tree.node other).maxUpper) →
      ∀ child, (if pointer = some target then IntervalTree.newChild tree target else pointer) =
          some child →
        order.upper ((IntervalTree.taken tree id target).node child).maxUpper ≤
          order.upper ((IntervalTree.taken tree id target).node other).maxUpper := by
    intro other inside pointer before child points
    rw [sameMax other inside]
    split at points
    next isTarget =>
      rw [sameMax child (newChild_spec pointers inTarget points).1]
      exact (covered.newChild inTarget points).trans (before target isTarget).2
    next =>
      rw [sameMax child (before child points).1]
      exact (before child points).2
  intro other inCut
  have inside := mem_of_mem_cut inCut
  have before := covered other inside
  constructor
  · rw [sameMax other inside, taken_node pointers inTarget inside]
    simp only [moved]
    split
    next isId =>
      subst isId
      exact (covered target inTarget).own.trans targetBelow
    next => exact before.own
  · intro child points
    rw [taken_node pointers inTarget inside] at points
    exact redirected other inside _ (fun child points =>
      ⟨(pointers.linked.left_child inside points).1, before.left child points⟩) child points
  · intro child points
    rw [taken_node pointers inTarget inside] at points
    exact redirected other inside _ (fun child points =>
      ⟨(pointers.linked.right_child inside points).1, before.right child points⟩) child points

end Covered

section Remove

section Climb

variable {child : NodeId} (pointers : PointerTree tree shape) (member : target ∈ shape.ids)
  (replaced : newChild tree target = some child)
include pointers member replaced

theorem child_deeper : shape.depth target < shape.depth child := by
  rcases newChild_spec pointers member replaced with ⟨inside, up⟩
  exact (pointers.parent_spec inside up).2.2

/-- Above the target parents are as before. -/
theorem taken_parent {other : NodeId} (inside : other ∈ shape.ids)
    (higher : shape.depth other < shape.depth target) :
    ((taken tree id target).node other).parent = (tree.node other).parent := by
  rw [taken_node pointers member inside]
  simp only [ite_eq_right_iff]
  intro isChild
  rw [replaced] at isChild
  have deeper := child_deeper pointers member replaced
  have same := Option.some.inj isChild
  subst same
  omega

theorem taken_parent_child :
    ((taken tree id target).node child).parent = (tree.node target).parent := by
  rw [taken_node pointers member (newChild_spec pointers member replaced).1, if_pos replaced]

omit replaced in
theorem taken_balance {other : NodeId} (inside : other ∈ shape.ids) :
    ((taken tree id target).node other).balanceFactor = (tree.node other).balanceFactor := by
  rw [taken_node pointers member inside]

/-- The climb from the child is the climb from the target before. -/
theorem removeClimb_taken {node : NodeId} (climb : RemoveClimb (taken tree id target) child node) :
    node = child ∨ (node ∈ shape.ids ∧ shape.depth node < shape.depth target ∧
      RemoveClimb tree target node) := by
  induction climb with
  | start => exact .inl rfl
  | @up node parent climb points leaning ih =>
    right
    rcases ih with isChild | ⟨inside, higher, climb⟩
    · subst isChild
      rw [taken_parent_child pointers member replaced] at points
      rcases pointers.parent_spec member points with ⟨found, _, above⟩
      rw [taken_balance pointers member found] at leaning
      exact ⟨found, above, .up .start points leaning⟩
    · rw [taken_parent pointers member replaced inside higher] at points
      rcases pointers.parent_spec inside points with ⟨found, _, above⟩
      rw [taken_balance pointers member found] at leaning
      exact ⟨found, by omega, .up climb points leaning⟩

theorem heavyBeside_taken_child {parent : NodeId} (up : (tree.node target).parent = some parent) :
    heavyBeside (taken tree id target) parent child = heavyBeside tree parent target := by
  rcases pointers.parent_spec member up with ⟨found, _, above⟩
  have back := (newChild_spec pointers member replaced).2
  have sides : ((taken tree id target).node parent).right = some child ↔
      (tree.node parent).right = some target := by
    rw [taken_node pointers member found]
    simp only [replaced]
    constructor
    · intro points
      split at points
      next isTarget => exact isTarget
      next =>
        have other := (pointers.linked.right_child found points).2
        have same := Option.some.inj (back.symm.trans other)
        subst same
        omega
    · intro isTarget
      rw [if_pos isTarget]
  simp only [heavyBeside, sides]

theorem heavyBeside_taken {node parent : NodeId} (inside : node ∈ shape.ids)
    (higher : shape.depth node < shape.depth target)
    (up : (tree.node node).parent = some parent) :
    heavyBeside (taken tree id target) parent node = heavyBeside tree parent node := by
  rcases pointers.parent_spec inside up with ⟨found, _, above⟩
  have deeper := child_deeper pointers member replaced
  have sides : ((taken tree id target).node parent).right = some node ↔
      (tree.node parent).right = some node := by
    rw [taken_node pointers member found]
    simp only [replaced]
    constructor
    · intro points
      split at points
      next =>
        have same := Option.some.inj points
        subst same
        omega
      next => exact points
    · intro points
      rw [if_neg]
      · exact points
      · intro isTarget
        have same := Option.some.inj (points.symm.trans isTarget)
        subst same
        omega
  simp only [heavyBeside, sides]

/-- Where no parent asks for a rotation before, none does after the target is taken out. -/
theorem still_taken (id : NodeId) (still : ∀ node parent, RemoveClimb tree target node →
      (tree.node node).parent = some parent →
      (tree.node parent).balanceFactor ≠ heavyBeside tree parent node) :
    ∀ node parent, RemoveClimb (taken tree id target) child node →
      ((taken tree id target).node node).parent = some parent →
      ((taken tree id target).node parent).balanceFactor ≠
        heavyBeside (taken tree id target) parent node := by
  intro node parent climb up
  rcases removeClimb_taken pointers member replaced climb with isChild | ⟨old, higher, before⟩
  · subst isChild
    rw [taken_parent_child pointers member replaced] at up
    rw [taken_balance pointers member (pointers.parent_spec member up).1,
      heavyBeside_taken_child pointers member replaced up]
    exact still target parent .start up
  · rw [taken_parent pointers member replaced old higher] at up
    rw [taken_balance pointers member (pointers.parent_spec old up).1,
      heavyBeside_taken pointers member replaced old higher up]
    exact still node parent before up

/-- The child stays in the tree. -/
theorem child_mem_cut (single : (tree.node target).left = none ∨ (tree.node target).right = none) :
    child ∈ (shape.cut target).ids := by
  rcases newChild_spec pointers member replaced with ⟨found, up⟩
  refine (mem_ids_cut pointers.linked pointers.nodup single).mpr ⟨found, ?_⟩
  intro same
  subst same
  have higher := (pointers.parent_spec found up).2.2
  omega

end Climb

variable [LinearOrder Lower] [LinearOrder Upper] {lower upper : Bound}

/-- Removing the interval brings the retrace to no rotation, and a predecessor that
takes over is the only interval on the left with its lower bound. -/
def RemoveKeeps (order : Comparators Bound Lower Upper) (tree : Itree Bound Data)
    (lower upper : Bound) : Prop :=
  ∀ id target, itreeLocation order tree lower upper = some (some id) →
    matches? order tree id lower upper = true → removalTarget tree id = some target →
    PredecessorAlone order tree id target ∧
    (newChild tree target ≠ none → ∀ node parent, RemoveClimb tree target node →
      (tree.node node).parent = some parent →
      (tree.node parent).balanceFactor ≠ heavyBeside tree parent node)

/-- What a node records is still a bound, of its own or of a child, once the target is gone. -/
def StillAttained (tree : Itree Bound Data) (id target other : NodeId) : Prop :=
  (tree.node other).maxUpper = (tree.node (moved id target other)).upper ∨
  ∃ child, ((if (tree.node other).left = some target then newChild tree target
      else (tree.node other).left) = some child ∨
    (if (tree.node other).right = some target then newChild tree target
      else (tree.node other).right) = some child) ∧
    (tree.node other).maxUpper = (tree.node child).maxUpper

/-- Two nodes lose a bound when an interval is removed: the node that had it, and the parent of
the node that is taken out.  What they record is a bound all the same, or the retrace stops
there and computes it anew. -/
def RemoveAttains (order : Comparators Bound Lower Upper) (tree : Itree Bound Data)
    (lower upper : Bound) : Prop :=
  ∀ id target, itreeLocation order tree lower upper = some (some id) →
    matches? order tree id lower upper = true → removalTarget tree id = some target →
    ∀ other, other ≠ target → other = id ∨ (tree.node target).parent = some other →
      StillAttained tree id target other ∨
      (newChild tree target ≠ none ∧ RemoveClimb tree target other ∧ RemoveStops tree other)

section Attained

omit [LinearOrder Lower] [LinearOrder Upper]

variable (pointers : PointerTree tree shape) (member : target ∈ shape.ids)
include pointers member

variable {other : NodeId}

theorem attained_taken_iff (inside : other ∈ shape.ids) :
    Attained (taken tree id target) other ↔ StillAttained tree id target other := by
  have childInside : ∀ child, ((if (tree.node other).left = some target then newChild tree target
        else (tree.node other).left) = some child ∨
      (if (tree.node other).right = some target then newChild tree target
        else (tree.node other).right) = some child) → child ∈ shape.ids := by
    rintro child (points | points)
    · split at points
      next => exact (newChild_spec pointers member points).1
      next => exact (pointers.linked.left_child inside points).1
    · split at points
      next => exact (newChild_spec pointers member points).1
      next => exact (pointers.linked.right_child inside points).1
  unfold Attained StillAttained
  rw [taken_node pointers member inside]
  refine or_congr Iff.rfl (exists_congr fun child => and_congr_right fun points => ?_)
  rw [taken_node pointers member (childInside child points)]

omit member in
/-- The other nodes lose nothing. -/
theorem stillAttained_elsewhere (inside : other ∈ shape.ids) (attained : Attained tree other)
    (notId : other ≠ id) (notParent : (tree.node target).parent ≠ some other) :
    StillAttained tree id target other := by
  have noLeft : (tree.node other).left ≠ some target := fun points =>
    notParent (pointers.linked.left_child inside points).2
  have noRight : (tree.node other).right ≠ some target := fun points =>
    notParent (pointers.linked.right_child inside points).2
  unfold StillAttained
  rw [if_neg noLeft, if_neg noRight, moved, if_neg notId]
  exact attained

/-- The climb of the retrace ends at a node where, before, it stops. -/
theorem final_of_stops {child final : NodeId} (replaced : newChild tree target = some child)
    (notTarget : other ≠ target) (climb : RemoveClimb tree target other)
    (stops : RemoveStops tree other)
    (final_climb : RemoveClimb (taken tree id target) child final)
    (final_stops : RemoveStops (taken tree id target) final) : other = final := by
  rcases removeClimb_taken pointers member replaced final_climb with
    isChild | ⟨old, higher, before⟩
  · subst isChild
    have stopsBefore : RemoveStops tree target := by
      intro parent up
      have above := (pointers.parent_spec member up).1
      have balance : ((taken tree id target).node parent).balanceFactor =
          (tree.node parent).balanceFactor := taken_balance pointers member above
      rw [← balance]
      apply final_stops parent
      rw [taken_parent_child pointers member replaced, up]
    exact absurd (climb.eq_start stopsBefore) notTarget
  · have stopsBefore : RemoveStops tree final := by
      intro parent up
      have above := (pointers.parent_spec old up).1
      have balance : ((taken tree id target).node parent).balanceFactor =
          (tree.node parent).balanceFactor := taken_balance pointers member above
      rw [← balance]
      apply final_stops parent
      rw [taken_parent pointers member replaced old higher, up]
    exact climb.stop_unique stops before stopsBefore

end Attained

theorem Contents.remove_missing {lower : Lower} {upper : Upper}
    (missing : contents lower upper = none) : contents.remove lower upper = contents := by
  funext low high
  simp only [Contents.remove]
  split
  next same => rw [same.1, same.2, missing]
  next => rfl

variable [DecidableEq Bound]

/-- Removing an interval keeps the tree sound and takes it out of the map. -/
theorem Sound.gzochidItreeRemove (sound : Sound order tree shape contents)
    (keeps : RemoveKeeps order tree lower upper) :
    ∃ result shape', IntervalTree.gzochidItreeRemove order tree lower upper = some result ∧
      Sound order result shape' (contents.remove (order.lower lower) (order.upper upper)) ∧
      (Covered order tree shape → Covered order result shape') ∧
      ((∀ id ∈ shape.ids, Attained tree id) → RemoveAttains order tree lower upper →
        ∀ id ∈ shape'.ids, Attained result id) := by
  simp only [IntervalTree.gzochidItreeRemove]
  rcases sound.itreeLocation_spec lower upper with
    ⟨nowhere, _, empty⟩ | ⟨id, located, spec⟩
  · subst empty
    rw [nowhere, Contents.remove_missing (sound.carries.missing (by simp))]
    exact ⟨tree, .nil, rfl, sound, fun covered => covered, fun attained _ => attained⟩
  · rw [located]
    rcases spec.outcome with hit | ⟨miss, _⟩
    · simp only [hit, if_true]
      rcases sound.removalTarget spec.member with ⟨target, equal, removable⟩
      have inTarget := removable.member spec.member
      rcases keeps id target located hit equal with ⟨alone, still⟩
      have kept := sound.taken spec.member hit removable alone
      have covering := fun covered : Covered order tree shape =>
        covered.taken sound.toPointerTree spec.member removable
      -- where a node loses its bound, and the retrace does not stop there
      have attaining : ∀ final, (∀ id ∈ shape.ids, Attained tree id) →
          RemoveAttains order tree lower upper →
          (∀ other, newChild tree target ≠ none → other ≠ target → RemoveClimb tree target other →
            RemoveStops tree other → some other = final) →
          ∀ other ∈ (shape.cut target).ids, some other ≠ final →
            Attained (IntervalTree.taken tree id target) other := by
        intro final attained attains stops other inCut notFinal
        rcases (mem_ids_cut sound.linked sound.nodup removable.single).mp inCut with
          ⟨inside, notTarget⟩
        apply (attained_taken_iff sound.toPointerTree inTarget inside).mpr
        by_cases loses : other = id ∨ (tree.node target).parent = some other
        · cases attains id target located hit equal other notTarget loses with
          | inl still => exact still
          | inr anew =>
            rcases anew with ⟨there, climb, stopped⟩
            exact absurd (stops other there notTarget climb stopped) notFinal
        · exact stillAttained_elsewhere sound.toPointerTree inside (attained other inside)
            (fun same => loses (.inl same)) fun up => loses (.inr up)
      have sameChild : newChild (swapValues tree id target) target = newChild tree target := by
        simp only [newChild, swapValues_node]
      rw [equal]
      simp only [sameChild]
      cases replaced : newChild tree target with
      | none =>
        refine ⟨_, _, rfl, kept, covering, fun attained attains other inCut => ?_⟩
        apply attaining none attained attains _ other inCut (by simp)
        exact fun other there => absurd replaced there
      | some child =>
        have inside : child ∈ (shape.cut target).ids :=
          child_mem_cut sound.toPointerTree inTarget replaced removable.single
        have quiet := still_taken sound.toPointerTree inTarget replaced id
          (still (by simp [replaced]))
        have short := kept.depth_lt_bound inside
        rcases retraceRemoveLoop_spec order kept.toPointerTree inside
            (Nat.lt_of_succ_lt short) (.refl _) (fun _ => rfl) .start (fun _ _ _ => rfl)
            quiet with
          ⟨climbed, final, equal, finalInside, climb, stops, alike, sameMax⟩
        have climbedSound := alike.sound kept
        rcases climbedSound.toPointerTree.updateMaxUppers order finalInside with
          ⟨result, settled, later, _, establishes⟩
        refine ⟨result, _, ?_, later.sound climbedSound, fun covered => ?_,
          fun attained attains => ?_⟩
        · change IntervalTree.itreeRetraceRemove order (IntervalTree.taken tree id target)
            child = some result
          simp only [IntervalTree.itreeRetraceRemove, equal, settled]
        · apply establishes _ (covers_local order)
          intro other found _
          exact (covers_local order).of_alike alike sameMax (covering covered other found)
        · apply establishes _ (attained_local order)
          intro other inCut notFinal
          apply (attained_local order).of_alike alike sameMax
          apply attaining (some final) attained attains _ other inCut
            fun same => notFinal (Option.some.inj same)
          intro other _ notTarget otherClimb otherStops
          rw [final_of_stops sound.toPointerTree inTarget replaced notTarget otherClimb
            otherStops climb stops]
    · simp only [miss id spec.member]
      rw [Contents.remove_missing (sound.carries.missing miss)]
      exact ⟨tree, shape, rfl, sound, fun covered => covered, fun attained _ => attained⟩

end Remove

end Gzochi.IntervalTree
