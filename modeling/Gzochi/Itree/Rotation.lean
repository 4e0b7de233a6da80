import Gzochi.Itree.Retrace

/-!
# The rotation that keeps the tree

`itree_rotate` leaves the parent pointers of the node it raises and of the child it
hands over as they were.  The tree survives a rotation only where neither matters: the
node is raised to the root and has no child to hand over.
-/

namespace Gzochi.IntervalTree

open Gzochi.Lib Itree

universe u v w x

variable {Bound : Type u} {Lower : Type v} {Upper : Type w} {Data : Type x}
variable [LinearOrder Upper] {order : Comparators Bound Lower Upper}
  {tree : Itree Bound Data} {shape : Shape NodeId} {contents : Contents Lower Upper Data}
  {id parent grandparent : NodeId} {left : Bool}

/-- The first step of a rotation: a node takes its parent as a child. -/
def turn (tree : Itree Bound Data) (id parent : NodeId) (left : Bool) : Itree Bound Data :=
  if left then
    (tree.modify parent fun node => { node with right := (tree.node id).left }).modify id
      fun node => { node with left := some parent }
  else
    (tree.modify parent fun node => { node with left := (tree.node id).right }).modify id
      fun node => { node with right := some parent }

/-- A rotation of a child of the root. -/
theorem itreeRotate_root (up : (tree.node parent).parent = some grandparent)
    (top : (tree.node grandparent).parent = none) (different : parent ≠ grandparent) :
    itreeRotate order tree parent left =
      (({ updateMaxUpper order (updateMaxUpper order (turn tree parent grandparent left)
            grandparent) parent with root := some parent }.modify parent
        fun node => { node with parent := none }).modify grandparent
        fun node => { node with parent := some parent }) := by
  have noParent : ((updateMaxUpper order (updateMaxUpper order
      (turn tree parent grandparent left) grandparent) parent).node grandparent).parent =
        none := by
    cases left <;> simp [turn, updateMaxUpper, Itree.modify, Ne.symm different, top]
  simp only [itreeRotate, up]
  split
  next => rfl
  next great present => exact absurd (noParent.symm.trans present) (by simp)

/-- What a rotation of a child of the root does to the two nodes it changes. -/
structure Rotated (order : Comparators Bound Lower Upper) (tree result : Itree Bound Data)
    (parent grandparent : NodeId) (left : Bool) : Prop where
  root : result.root = some parent
  allocated : result.allocated = tree.allocated
  raised : result.node parent =
    { tree.node parent with
      parent := none
      left := if left then some grandparent else (tree.node parent).left
      right := if left then (tree.node parent).right else some grandparent
      maxUpper := (result.node parent).maxUpper }
  lowered : result.node grandparent =
    { tree.node grandparent with
      parent := some parent
      left := if left then (tree.node grandparent).left else (tree.node parent).right
      right := if left then (tree.node parent).left else (tree.node grandparent).right
      maxUpper := (result.node grandparent).maxUpper }
  frame : ∀ id, id ≠ parent → id ≠ grandparent → result.node id = tree.node id
  raisedMax : ∃ before : Itree Bound Data,
    (∀ id, id ≠ parent → (before.node id).maxUpper = (result.node id).maxUpper) ∧
    (before.node parent).upper = (result.node parent).upper ∧
    (before.node parent).left = (result.node parent).left ∧
    (before.node parent).right = (result.node parent).right ∧
    (result.node parent).maxUpper = newMaxUpper order before parent
  loweredMax : ∃ before : Itree Bound Data,
    (∀ id, id ≠ parent → id ≠ grandparent →
      (before.node id).maxUpper = (result.node id).maxUpper) ∧
    (before.node grandparent).upper = (result.node grandparent).upper ∧
    (before.node grandparent).left = (result.node grandparent).left ∧
    (before.node grandparent).right = (result.node grandparent).right ∧
    (result.node grandparent).maxUpper = newMaxUpper order before grandparent

theorem rotated_itreeRotate (order : Comparators Bound Lower Upper) (left : Bool)
    (up : (tree.node parent).parent = some grandparent)
    (top : (tree.node grandparent).parent = none) (different : parent ≠ grandparent) :
    Rotated order tree (itreeRotate order tree parent left) parent grandparent left := by
  have back := Ne.symm different
  rw [itreeRotate_root up top different]
  constructor
  · rfl
  · cases left <;> rfl
  · cases left <;> simp [turn, updateMaxUpper, Itree.modify, different]
  · cases left <;> simp [turn, updateMaxUpper, Itree.modify, different, back]
  · intro id notParent notGrandparent
    cases left <;> simp [turn, updateMaxUpper, Itree.modify, notParent, notGrandparent]
  · refine ⟨updateMaxUpper order (turn tree parent grandparent left) grandparent,
      ?_, ?_, ?_, ?_, ?_⟩
    · intro id notParent
      by_cases same : id = grandparent
      · subst same
        simp [updateMaxUpper, Itree.modify, notParent]
      · simp [updateMaxUpper, Itree.modify, notParent, same]
    · simp [updateMaxUpper, Itree.modify, different]
    · simp [updateMaxUpper, Itree.modify, different]
    · simp [updateMaxUpper, Itree.modify, different]
    · simp [updateMaxUpper, Itree.modify, different]
  · refine ⟨turn tree parent grandparent left, ?_, ?_, ?_, ?_, ?_⟩
    · intro id notParent notGrandparent
      simp [updateMaxUpper, Itree.modify, notParent, notGrandparent]
    · simp [updateMaxUpper, Itree.modify, back]
    · simp [updateMaxUpper, Itree.modify, back]
    · simp [updateMaxUpper, Itree.modify, back]
    · simp [updateMaxUpper, Itree.modify, back]

namespace Rotated

variable {result : Itree Bound Data} {shape' sub side : Shape NodeId}

variable (rotated : Rotated order tree result parent grandparent left)
include rotated

/-- Intervals and data stay with their nodes. -/
theorem values (id : NodeId) : (result.node id).lower = (tree.node id).lower ∧
    (result.node id).upper = (tree.node id).upper ∧
    (result.node id).data = (tree.node id).data := by
  by_cases isParent : id = parent
  · subst isParent
    rw [rotated.raised]
    simp
  · by_cases isGrandparent : id = grandparent
    · subst isGrandparent
      rw [rotated.lowered]
      simp
    · rw [rotated.frame id isParent isGrandparent]
      simp

theorem lowerKey_eq : lowerKey order result = lowerKey order tree := by
  funext id
  simp only [lowerKey, (rotated.values id).1]

theorem upperKey_eq : upperKey order result = upperKey order tree := by
  funext id
  simp only [upperKey, (rotated.values id).2.1]

/-- Both nodes have their maximum upper bounds recomputed. -/
theorem good {good : Itree Bound Data → NodeId → Prop} (isLocal : Local order good)
    (pointers : PointerTree result shape) (inParent : parent ∈ shape.ids)
    (inGrandparent : grandparent ∈ shape.ids) {id : NodeId}
    (changed : id = parent ∨ id = grandparent) : good result id := by
  apply isLocal.recomputed
  rcases changed with same | same
  · subst same
    rcases rotated.raisedMax with ⟨before, sameMax, sameUpper, sameLeft, sameRight, recomputed⟩
    have unchanged : SameMaxima before result id := by
      refine ⟨sameUpper.symm, sameLeft.symm, sameRight.symm, ?_⟩
      intro child points
      rw [sameLeft, sameRight] at points
      have different : child ≠ id := by
        intro same
        subst same
        cases points with
        | inl isLeft => exact pointers.left_ne_self inParent isLeft
        | inr isRight => exact pointers.right_ne_self inParent isRight
      exact (sameMax child different).symm
    rw [unchanged.newMaxUpper_eq, recomputed]
  · subst same
    have noParent : (result.node parent).parent = none := by rw [rotated.raised]
    rcases rotated.loweredMax with ⟨before, sameMax, sameUpper, sameLeft, sameRight, recomputed⟩
    have unchanged : SameMaxima before result id := by
      refine ⟨sameUpper.symm, sameLeft.symm, sameRight.symm, ?_⟩
      intro child points
      rw [sameLeft, sameRight] at points
      have back : (result.node child).parent = some id :=
        (pointers.linked.child_mem inGrandparent points).2
      have different : child ≠ id := by
        intro same
        subst same
        cases points with
        | inl isLeft => exact pointers.left_ne_self inGrandparent isLeft
        | inr isRight => exact pointers.right_ne_self inGrandparent isRight
      have notParent : child ≠ parent := by
        intro same
        subst same
        exact absurd (noParent.symm.trans back) (by simp)
      exact (sameMax child notParent different).symm
    rw [unchanged.newMaxUpper_eq, recomputed]

/-- Nodes that do not point to either of them are as good as before. -/
theorem good_frame {good : Itree Bound Data → NodeId → Prop} (isLocal : Local order good)
    (pointers : PointerTree tree shape) (member : id ∈ shape.ids)
    (up : (tree.node parent).parent = some grandparent)
    (top : (tree.node grandparent).parent = none)
    (notParent : id ≠ parent) (notGrandparent : id ≠ grandparent)
    (before : good tree id) : good result id := by
  have same := rotated.frame id notParent notGrandparent
  have child : ∀ child, (tree.node child).parent = some id →
      result.node child = tree.node child := by
    intro child points
    refine rotated.frame child ?_ ?_
    · intro equal
      rw [equal, up] at points
      exact notGrandparent (Option.some.inj points).symm
    · intro equal
      rw [equal, top] at points
      cases points
  refine isLocal.congr before ⟨by rw [same], by rw [same], by rw [same], ?_⟩ (by rw [same])
  intro below points
  have back : (tree.node below).parent = some id := (pointers.linked.child_mem member points).2
  rw [child below back]

/-- Subtrees that the rotation moves as a whole stay as they are. -/
theorem linked_frame
    {above : Option NodeId} (linked : Linked tree.links above sub) (notParent : parent ∉ sub.ids)
    (notGrandparent : grandparent ∉ sub.ids) : Linked result.links above sub := by
  refine linked.congr fun id member => ?_
  simp only [links]
  rw [rotated.frame id (fun same => notParent (same ▸ member))
    fun same => notGrandparent (same ▸ member)]
  exact ⟨rfl, rfl, rfl⟩

omit rotated

variable [LinearOrder Lower]

/-- The new pointers only have to spell out the same nodes in the same order. -/
theorem sound (rotated : Rotated order tree result parent grandparent left)
    (sound : Sound order tree shape contents) (sameIds : shape'.ids = shape.ids)
    (top : shape'.top = some parent) (linked : Linked result.links none shape')
    (ordered : shape'.Ordered (lowerKey order tree)) :
    Sound order result shape' contents where
  root := rotated.root.trans top.symm
  linked := linked
  nodup := sameIds ▸ sound.nodup
  allocated id member := rotated.allocated ▸ sound.allocated id (sameIds ▸ member)
  ordered := rotated.lowerKey_eq ▸ ordered
  distinct := by
    simp only [Distinct, rotated.lowerKey_eq, rotated.upperKey_eq, sameIds]
    exact sound.distinct
  carries := by
    simp only [Carries, rotated.lowerKey_eq, rotated.upperKey_eq, sameIds, (rotated.values _).2.2]
    exact sound.carries

/-- The root's left child becomes the root, when it has no right child. -/
theorem sound_right (rotated : Rotated order tree result parent grandparent false)
    (sound : Sound order tree (.node grandparent (.node parent sub .nil) side) contents) :
    Sound order result (.node parent sub (.node grandparent .nil side)) contents := by
  rcases Shape.nodup_node.mp sound.nodup with ⟨lower, _, notLeft, notRight, apart⟩
  rcases Shape.nodup_node.mp lower with ⟨_, _, parentSub, _, _⟩
  have parentSide : parent ∉ side.ids := apart parent (by simp)
  have grandparentSub : grandparent ∉ sub.ids := fun member => notLeft (by simp [member])
  rcases sound.linked with ⟨_, _, toSide, ⟨_, toSub, noInner, inSub, _⟩, inSide⟩
  rcases sound.ordered with ⟨smaller, greater, ⟨subSmaller, _, subOrdered, _⟩, sideOrdered⟩
  refine rotated.sound sound (by simp) rfl ?_ ?_
  · refine ⟨?_, ?_, ?_, rotated.linked_frame inSub parentSub grandparentSub, ?_, ?_, ?_,
      trivial, rotated.linked_frame inSide parentSide notRight⟩
    · simp only [links]
      rw [rotated.raised]
    · simp only [links] at toSub ⊢
      rw [rotated.raised]
      exact toSub
    · simp only [links]
      rw [rotated.raised]
      rfl
    · simp only [links]
      rw [rotated.lowered]
    · simp only [links] at noInner ⊢
      rw [rotated.lowered]
      exact noInner
    · simp only [links] at toSide ⊢
      rw [rotated.lowered]
      exact toSide
  · have less := smaller parent (by simp)
    refine ⟨subSmaller, ?_, subOrdered, by simp, greater, trivial, sideOrdered⟩
    intro other member
    simp only [Shape.ids_node, Shape.ids_nil, List.nil_append, List.mem_cons] at member
    rcases member with same | member
    · exact same ▸ less.le
    · exact less.le.trans (greater other member)

/-- The root's right child becomes the root, when it has no left child and its lower
bound is not that of the root. -/
theorem sound_left (rotated : Rotated order tree result parent grandparent true)
    (sound : Sound order tree (.node grandparent side (.node parent .nil sub)) contents)
    (less : lowerKey order tree grandparent < lowerKey order tree parent) :
    Sound order result (.node parent (.node grandparent side .nil) sub) contents := by
  rcases Shape.nodup_node.mp sound.nodup with ⟨_, lower, notLeft, notRight, apart⟩
  rcases Shape.nodup_node.mp lower with ⟨_, _, _, parentSub, _⟩
  have parentSide : parent ∉ side.ids := fun member => apart parent member (by simp)
  have grandparentSub : grandparent ∉ sub.ids := fun member => notRight (by simp [member])
  rcases sound.linked with ⟨_, toSide, _, inSide, ⟨_, noInner, toSub, _, inSub⟩⟩
  rcases sound.ordered with ⟨smaller, greater, sideOrdered, ⟨_, subGreater, _, subOrdered⟩⟩
  refine rotated.sound sound (by simp) rfl ?_ ?_
  · refine ⟨?_, ?_, ?_, ⟨?_, ?_, ?_, rotated.linked_frame inSide parentSide notLeft, trivial⟩,
      rotated.linked_frame inSub parentSub grandparentSub⟩
    · simp only [links]
      rw [rotated.raised]
    · simp only [links]
      rw [rotated.raised]
      rfl
    · simp only [links] at toSub ⊢
      rw [rotated.raised]
      exact toSub
    · simp only [links]
      rw [rotated.lowered]
    · simp only [links] at toSide ⊢
      rw [rotated.lowered]
      exact toSide
    · simp only [links] at noInner ⊢
      rw [rotated.lowered]
      exact noInner
  · refine ⟨?_, subGreater, ⟨smaller, by simp, sideOrdered, trivial⟩, subOrdered⟩
    intro other member
    simp only [Shape.ids_node, Shape.ids_nil, List.mem_append, List.mem_singleton] at member
    rcases member with member | same
    · exact (smaller other member).trans less
    · exact same ▸ less

end Rotated

variable [LinearOrder Lower]

/-- A rotation that keeps the pointers in order: a single one, of a child of the root
without a child on its inner side.  Turning the root's right child to the left also
needs different lower bounds, since equal ones belong to the right. -/
structure Turnable (order : Comparators Bound Lower Upper) (tree : Itree Bound Data)
    (id parent : NodeId) (balance : Int) : Prop where
  single : balance ≠ -heavy tree parent id
  atRoot : ∃ grandparent, (tree.node parent).parent = some grandparent ∧
    (tree.node grandparent).parent = none ∧
    if (tree.node parent).left = some id then
      (tree.node grandparent).left = some parent ∧ (tree.node parent).right = none
    else
      (tree.node grandparent).right = some parent ∧ (tree.node parent).left = none ∧
        lowerKey order tree grandparent < lowerKey order tree parent

/-- Such a rotation keeps a tree sound, with the same nodes. -/
theorem Sound.rotateInsert (sound : Sound order tree shape contents) {balance : Int}
    (member : parent ∈ shape.ids) (turnable : Turnable order tree id parent balance)
    (here : (tree.node id).balanceFactor = balance) :
    ∃ shape', shape'.ids = shape.ids ∧
      Sound order (rotateInsert order tree id parent) shape' contents ∧
      ∀ good, Local order good → ∀ other ∈ shape.ids, good tree other →
        good (rotateInsert order tree id parent) other := by
  rcases turnable.atRoot with ⟨grandparent, up, top, placed⟩
  rcases sound.parent_spec member up with ⟨grandparentMember, _, higher⟩
  have different : parent ≠ grandparent := fun same => by
    subst same
    omega
  have rotated (left : Bool) := rotated_itreeRotate order left up top different
  have keeping : ∀ left shape', shape'.ids = shape.ids →
      PointerTree (itreeRotate order tree parent left) shape' →
      ∀ good, Local order good → ∀ other ∈ shape.ids, good tree other →
        good (itreeRotate order tree parent left) other := by
    intro left shape' sameIds pointers good isLocal other inside before
    by_cases isParent : other = parent
    · exact (rotated left).good isLocal pointers (sameIds ▸ member) (sameIds ▸ grandparentMember)
        (.inl isParent)
    · by_cases isGrandparent : other = grandparent
      · exact (rotated left).good isLocal pointers (sameIds ▸ member)
          (sameIds ▸ grandparentMember) (.inr isGrandparent)
      · exact (rotated left).good_frame isLocal sound.toPointerTree inside up top isParent
          isGrandparent before
  have atTop : shape.top = some grandparent := by
    rcases sound.parent_cases grandparentMember with ⟨_, atTop⟩ | ⟨_, _, other, _⟩
    · exact atTop
    · rw [top] at other
      cases other
  have noFirst : ¬(tree.node id).balanceFactor = -heavy tree parent id := by
    rw [here]
    exact turnable.single
  simp only [IntervalTree.rotateInsert, if_neg noFirst]
  cases shape with
  | nil => cases atTop
  | node root first second =>
    cases atTop
    rcases sound.linked with ⟨_, toFirst, toSecond, inFirst, inSecond⟩
    split at placed
    next isLeft =>
      rcases placed with ⟨points, noInner⟩
      simp only [isLeft, decide_true, Bool.not_true]
      cases first with
      | nil => cases points.symm.trans toFirst
      | node other sub inner =>
        injection points.symm.trans toFirst with same
        subst same
        have nothing := Shape.eq_nil_of_top (inFirst.2.2.1.symm.trans noInner)
        subst nothing
        have kept := (rotated false).sound_right sound
        exact ⟨_, by simp, kept, keeping false _ (by simp) kept.toPointerTree⟩
    next isRight =>
      rcases placed with ⟨points, noInner, less⟩
      simp only [isRight, decide_false, Bool.not_false]
      cases second with
      | nil => cases points.symm.trans toSecond
      | node other inner sub =>
        injection points.symm.trans toSecond with same
        subst same
        have nothing := Shape.eq_nil_of_top (inSecond.2.1.symm.trans noInner)
        subst nothing
        have kept := (rotated true).sound_left sound less
        exact ⟨_, by simp, kept, keeping true _ (by simp) kept.toPointerTree⟩

end Gzochi.IntervalTree
