import Gzochi.Itree.Balance

/-!
# Insertions end

An insertion into a tree whose pointers are in order returns, also where a rotation breaks them.
After the rotation the climb may come to two nodes that have each other as parents; the maximum
upper bounds that it computes for them settle after a round.
-/

namespace Gzochi.IntervalTree

open Gzochi.Lib Itree Shape

universe u v w x

variable {Bound : Type u} {Lower : Type v} {Upper : Type w} {Data : Type x}
variable [LinearOrder Upper] {order : Comparators Bound Lower Upper} {tree : Itree Bound Data}
  {shape : Shape NodeId} {id parent lower upper above : NodeId} {fuel : Nat}

theorem itreeRotate_allocated (left : Bool) :
    (itreeRotate order tree id left).allocated = tree.allocated := by
  unfold itreeRotate
  split
  next => rfl
  next =>
    dsimp only
    split
    next => cases left <;> rfl
    next => cases left <;> rfl

/-- A rotation two levels or more below the root. -/
theorem itreeRotate_below {left : Bool} (up : (tree.node lower).parent = some upper)
    (higher : (tree.node upper).parent = some above) (different : lower ≠ upper) :
    itreeRotate order tree lower left =
      (updateMaxUpper order ((updateMaxUpper order (updateMaxUpper order
          (turn tree lower upper left) upper) lower).modify above fun node =>
        if node.left = some upper then { node with left := some lower }
        else { node with right := some lower }) above).modify upper
          fun node => { node with parent := some lower } := by
  have same : ((updateMaxUpper order (updateMaxUpper order
      (turn tree lower upper left) upper) lower).node upper).parent = some above := by
    cases left <;> simp [turn, updateMaxUpper, Itree.modify, Ne.symm different, higher]
  simp only [itreeRotate, up]
  split
  next none => exact absurd (none.symm.trans same) (by simp)
  next other there =>
    cases there.symm.trans same
    rfl

section Below

variable (order) (left : Bool) (up : (tree.node lower).parent = some upper)
  (higher : (tree.node upper).parent = some above) (different : lower ≠ upper)
include up higher different

/-- It takes the parent down, and leaves the parent of the node that it raises as it was. -/
theorem itreeRotate_upper (apart : above ≠ upper) :
    (itreeRotate order tree lower left).node upper =
      { (turn tree lower upper left).node upper with
        parent := some lower
        maxUpper := newMaxUpper order (turn tree lower upper left) upper } := by
  rw [itreeRotate_below up higher different]
  simp [updateMaxUpper, Itree.modify, Ne.symm apart, Ne.symm different]

theorem itreeRotate_parent :
    ((itreeRotate order tree lower left).node lower).parent = some upper := by
  rw [itreeRotate_below up higher different]
  by_cases same : lower = above
  · subst same
    cases left <;> simp [turn, updateMaxUpper, Itree.modify, different, up]
    all_goals split <;> rfl
  · cases left <;> simp [turn, updateMaxUpper, Itree.modify, different, same, up]

theorem itreeRotate_children (apart : lower ≠ above) :
    ((itreeRotate order tree lower left).node lower).left =
        ((turn tree lower upper left).node lower).left ∧
      ((itreeRotate order tree lower left).node lower).right =
        ((turn tree lower upper left).node lower).right := by
  rw [itreeRotate_below up higher different]
  simp [updateMaxUpper, Itree.modify, different, apart]

theorem itreeRotate_frame {other : NodeId} (notLower : other ≠ lower) (notUpper : other ≠ upper)
    (notAbove : other ≠ above) :
    (itreeRotate order tree lower left).node other = tree.node other := by
  rw [itreeRotate_below up higher different]
  cases left <;> simp [turn, updateMaxUpper, Itree.modify, notLower, notUpper, notAbove]

end Below

variable [DecidableEq Bound]

theorem updateMaxUppers_upToDate
    (recorded : (tree.node id).maxUpper = newMaxUpper order tree id) :
    updateMaxUppers order (fuel + 1) tree (some id) = some tree := by
  rw [updateMaxUppers, if_neg (not_not.mpr recorded)]

theorem updateMaxUppers_step (continues : ∃ result, updateMaxUppers order fuel
      (updateMaxUpper order tree id) (tree.node id).parent = some result) :
    ∃ result, updateMaxUppers order (fuel + 1) tree (some id) = some result := by
  simp only [updateMaxUppers, updateMaxUpper_node_self]
  split
  next => exact continues
  next => exact ⟨tree, rfl⟩

/-- The child of a node without a parent has two steps to go. -/
theorem updateMaxUppers_short (up : (tree.node id).parent = some parent)
    (top : (tree.node parent).parent = none) :
    ∃ result, updateMaxUppers order (fuel + 3) tree (some id) = some result := by
  apply updateMaxUppers_step
  rw [up]
  apply updateMaxUppers_step
  rw [(alike_updateMaxUpper order tree id).parent, top]
  exact ⟨_, rfl⟩

/-! ## Nodes that have each other as parents -/

/-- The greatest of some bounds, as it depends on one of them. -/
inductive Joins (order : Comparators Bound Lower Upper) : (Bound → Bound) → Prop where
  | const (first : Bound) : Joins order fun _ => first
  | only (first : Bound) : Joins order fun bound => laterUpper order first bound
  | left (first last : Bound) :
      Joins order fun bound => laterUpper order (laterUpper order first bound) last
  | right (first last : Bound) :
      Joins order fun bound => laterUpper order (laterUpper order first last) bound
  | both (first : Bound) :
      Joins order fun bound => laterUpper order (laterUpper order first bound) bound

omit [DecidableEq Bound] in
/-- Two of them that depend on each other settle after a round. -/
theorem Joins.settle {first second : Bound → Bound} (isFirst : Joins order first)
    (isSecond : Joins order second) (bound : Bound) :
    first (second (first (second bound))) = first (second bound) := by
  cases isFirst <;> cases isSecond <;> simp only [laterUpper] <;> grind

/-- A node is not its own child. -/
def Unlooped (tree : Itree Bound Data) (id : NodeId) : Prop :=
  ∀ child, (tree.node id).left = some child ∨ (tree.node id).right = some child → child ≠ id

omit [DecidableEq Bound] in
/-- What a node records depends on the maximum of another one so. -/
theorem Unlooped.joins (unlooped : Unlooped tree id) (order : Comparators Bound Lower Upper)
    (other : NodeId) : ∃ join, Joins order join ∧ ∀ later, Alike tree later →
      (∀ node, node ≠ id → node ≠ other →
        (later.node node).maxUpper = (tree.node node).maxUpper) →
      newMaxUpper order later id = join (later.node other).maxUpper := by
  have kept : ∀ {later : Itree Bound Data}, (∀ node, node ≠ id → node ≠ other →
      (later.node node).maxUpper = (tree.node node).maxUpper) →
      ∀ child, ((tree.node id).left = some child ∨ (tree.node id).right = some child) →
        child ≠ other → (later.node child).maxUpper = (tree.node child).maxUpper :=
    fun same child points apart => same child (unlooped child points) apart
  cases left : (tree.node id).left with
  | none =>
    cases right : (tree.node id).right with
    | none =>
      refine ⟨_, .const (tree.node id).upper, fun later alike _ => ?_⟩
      rw [newMaxUpper, alike.node id, left, right]
    | some second =>
      by_cases isOther : second = other
      · refine ⟨_, .only (tree.node id).upper, fun later alike _ => ?_⟩
        rw [newMaxUpper, alike.node id, left, right, isOther]
      · refine ⟨_, .const (laterUpper order (tree.node id).upper
          (tree.node second).maxUpper), fun later alike same => ?_⟩
        rw [newMaxUpper, alike.node id, left, right]
        dsimp only
        rw [kept same second (.inr right) isOther]
  | some first =>
    cases right : (tree.node id).right with
    | none =>
      by_cases isOther : first = other
      · refine ⟨_, .only (tree.node id).upper, fun later alike _ => ?_⟩
        rw [newMaxUpper, alike.node id, left, right, isOther]
      · refine ⟨_, .const (laterUpper order (tree.node id).upper
          (tree.node first).maxUpper), fun later alike same => ?_⟩
        rw [newMaxUpper, alike.node id, left, right]
        dsimp only
        rw [kept same first (.inl left) isOther]
    | some second =>
      by_cases isFirst : first = other
      · by_cases isSecond : second = other
        · refine ⟨_, .both (tree.node id).upper, fun later alike _ => ?_⟩
          rw [newMaxUpper, alike.node id, left, right, isFirst, isSecond]
        · refine ⟨_, .left (tree.node id).upper (tree.node second).maxUpper,
            fun later alike same => ?_⟩
          rw [newMaxUpper, alike.node id, left, right]
          dsimp only
          rw [isFirst, kept same second (.inr right) isSecond]
      · by_cases isSecond : second = other
        · refine ⟨_, .right (tree.node id).upper (tree.node first).maxUpper,
            fun later alike same => ?_⟩
          rw [newMaxUpper, alike.node id, left, right]
          dsimp only
          rw [isSecond, kept same first (.inl left) isFirst]
        · refine ⟨_, .const (laterUpper order (laterUpper order (tree.node id).upper
            (tree.node first).maxUpper) (tree.node second).maxUpper), fun later alike same => ?_⟩
          rw [newMaxUpper, alike.node id, left, right]
          dsimp only
          rw [kept same first (.inl left) isFirst, kept same second (.inr right) isSecond]

/-- So the loop ends at them after a round. -/
theorem updateMaxUppers_mutual (different : lower ≠ upper)
    (up : (tree.node lower).parent = some upper) (down : (tree.node upper).parent = some lower)
    (ends : Unlooped tree lower) (endsUpper : Unlooped tree upper) :
    ∃ result, updateMaxUppers order (fuel + 4) tree (some lower) = some result := by
  obtain ⟨join, isJoin, joined⟩ := ends.joins order upper
  obtain ⟨joinUpper, isJoinUpper, joinedUpper⟩ := endsUpper.joins order lower
  let first := updateMaxUpper order tree lower
  let second := updateMaxUpper order first upper
  let third := updateMaxUpper order second lower
  have alikeFirst : Alike tree first := alike_updateMaxUpper order tree lower
  have alikeSecond : Alike tree second := alikeFirst.trans (alike_updateMaxUpper order first upper)
  have alikeThird : Alike tree third := alikeSecond.trans (alike_updateMaxUpper order second lower)
  have others : ∀ node, node ≠ lower → node ≠ upper →
      first.node node = tree.node node ∧ second.node node = tree.node node ∧
        third.node node = tree.node node := by
    intro node notLower notUpper
    have one : first.node node = tree.node node := updateMaxUpper_node_of_ne tree notLower
    have two : second.node node = first.node node := updateMaxUpper_node_of_ne first notUpper
    have three : third.node node = second.node node := updateMaxUpper_node_of_ne second notLower
    exact ⟨one, two.trans one, three.trans (two.trans one)⟩
  have firstLower : (first.node lower).maxUpper = join (tree.node upper).maxUpper := by
    rw [updateMaxUpper_node_self]
    exact joined tree (.refl tree) fun _ _ _ => rfl
  have secondUpper : (second.node upper).maxUpper = joinUpper (first.node lower).maxUpper := by
    rw [updateMaxUpper_node_self]
    exact joinedUpper first alikeFirst fun node notUpper notLower => by
      rw [(others node notLower notUpper).1]
  have thirdLower : (third.node lower).maxUpper = join (second.node upper).maxUpper := by
    rw [updateMaxUpper_node_self]
    exact joined second alikeSecond fun node notLower notUpper => by
      rw [(others node notLower notUpper).2.1]
  have thirdUpper : third.node upper = second.node upper :=
    updateMaxUpper_node_of_ne second (Ne.symm different)
  apply updateMaxUppers_step
  rw [up]
  apply updateMaxUppers_step
  rw [alikeFirst.parent, down]
  apply updateMaxUppers_step
  rw [alikeSecond.parent, up]
  refine ⟨_, updateMaxUppers_upToDate ?_⟩
  have recomputed := joinedUpper third alikeThird fun node notUpper notLower => by
    rw [(others node notLower notUpper).2.2]
  calc (third.node upper).maxUpper
    _ = joinUpper (join (tree.node upper).maxUpper) := by rw [thirdUpper, secondUpper, firstLower]
    _ = joinUpper (join (joinUpper (join (tree.node upper).maxUpper))) :=
      (isJoinUpper.settle isJoin _).symm
    _ = newMaxUpper order third upper := by rw [recomputed, thirdLower, secondUpper, firstLower]

/-! ## The end of a climb -/

section Climb

variable (pointers : PointerTree tree shape)
include pointers

omit [LinearOrder Upper] [DecidableEq Bound] in
theorem PointerTree.ne_child (inside : id ∈ shape.ids) {child : NodeId}
    (points : (tree.node id).left = some child ∨ (tree.node id).right = some child) :
    child ≠ id := by
  intro same
  subst same
  have back : (tree.node child).parent = some child := (pointers.linked.child_mem inside points).2
  have higher := (pointers.parent_spec inside back).2.2
  omega

variable (inside : id ∈ shape.ids) (up : (tree.node id).parent = some parent)
include inside up

/-- A double rotation turns a node over its parent and back, and its maximum is recomputed
last. -/
theorem updateMaxUppers_double (left : Bool) :
    ∃ result, updateMaxUppers order (fuel + 3) (itreeRotate order
      (itreeRotate order tree id left) parent (!left)) (some id) = some result := by
  obtain ⟨found, points, higher⟩ := pointers.parent_spec inside up
  have different : id ≠ parent := fun same => by
    subst same
    omega
  cases above : (tree.node parent).parent with
  | none =>
    have turned := rotated_itreeRotate order left up above different
    have again := rotated_itreeRotate order (!left) (by rw [turned.lowered] :
        ((itreeRotate order tree id left).node parent).parent = some id)
      (by rw [turned.raised]) (Ne.symm different)
    apply updateMaxUppers_short
    · rw [again.lowered]
    · rw [again.raised]
  | some grandparent =>
    obtain ⟨_, _, top⟩ := pointers.parent_spec found above
    have apart : grandparent ≠ parent := fun same => by
      subst same
      omega
    have notId : id ≠ grandparent := fun same => by
      subst same
      omega
    have lowered := itreeRotate_upper order left up above different apart
    have raised := itreeRotate_parent order left up above different
    have children := itreeRotate_children order left up above different notId
    have down : ((itreeRotate order tree id left).node parent).parent = some id := by rw [lowered]
    have again := itreeRotate_upper order (!left) down raised (Ne.symm different)
      (Ne.symm different)
    have same : ((turn (itreeRotate order tree id left) parent id (!left)).node id).left =
          (tree.node id).left ∧
        ((turn (itreeRotate order tree id left) parent id (!left)).node id).right =
          (tree.node id).right := by
      cases left <;>
        simp [turn, Itree.modify, lowered, children, different, Ne.symm different]
    refine ⟨_, updateMaxUppers_upToDate ?_⟩
    have maxima : SameMaxima (turn (itreeRotate order tree id left) parent id (!left))
        (itreeRotate order (itreeRotate order tree id left) parent (!left)) id := by
      refine ⟨by rw [again], by rw [again], by rw [again], fun child below => ?_⟩
      rw [same.1, same.2] at below
      have notSelf := pointers.ne_child inside below
      have notParent : child ≠ parent := fun equal => by
        subst equal
        have back : (tree.node child).parent = some id :=
          (pointers.linked.child_mem inside below).2
        have lower := (pointers.parent_spec found back).2.2
        omega
      rw [itreeRotate_frame _ (!left) down raised (Ne.symm different) notParent notSelf notParent]
      cases left <;> simp [turn, Itree.modify, notSelf, notParent]
    rw [maxima.newMaxUpper_eq, again]

/-- A single one may leave a node and its old parent as each other's parents. -/
theorem updateMaxUppers_single (left : Bool) :
    ∃ result, updateMaxUppers order tree.bound (itreeRotate order tree parent left) (some id) =
      some result := by
  obtain ⟨found, points, higher⟩ := pointers.parent_spec inside up
  have deep := pointers.depth_lt_bound inside
  have different : id ≠ parent := fun same => by
    subst same
    omega
  have short (top : ((itreeRotate order tree parent left).node parent).parent = none)
      (kept : ((itreeRotate order tree parent left).node id).parent = some parent) :
      ∃ result, updateMaxUppers order tree.bound (itreeRotate order tree parent left) (some id) =
        some result := by
    obtain ⟨rest, enough⟩ := Nat.exists_eq_add_of_le' (show 3 ≤ tree.bound by omega)
    rw [enough]
    exact updateMaxUppers_short kept top
  cases above : (tree.node parent).parent with
  | none =>
    apply short
    · simp [itreeRotate, above, updateMaxUpper, Itree.modify]
    · simp [itreeRotate, above, updateMaxUpper, Itree.modify, different, up]
  | some grandparent =>
    obtain ⟨foundAbove, _, top⟩ := pointers.parent_spec found above
    have apart : parent ≠ grandparent := fun same => by
      subst same
      omega
    have notId : id ≠ grandparent := fun same => by
      subst same
      omega
    cases highest : (tree.node grandparent).parent with
    | none =>
      have rotated := rotated_itreeRotate order left above highest apart
      apply short
      · rw [rotated.raised]
      · rw [rotated.frame id different notId, up]
    | some ancestor =>
      obtain ⟨_, _, peak⟩ := pointers.parent_spec foundAbove highest
      have notAncestor : id ≠ ancestor ∧ parent ≠ ancestor ∧ ancestor ≠ grandparent := by
        refine ⟨fun same => ?_, fun same => ?_, fun same => ?_⟩
        · subst same
          omega
        · subst same
          omega
        · subst same
          omega
      have lowered := itreeRotate_upper order left above highest apart
        notAncestor.2.2
      have raised := itreeRotate_parent order left above highest apart
      have children := itreeRotate_children order left above highest apart
        notAncestor.2.1
      have kept := itreeRotate_frame order left above highest apart different notId
        notAncestor.1
      have alike := alike_updateMaxUpper order (itreeRotate order tree parent left) id
      have below : ∀ {child}, (tree.node parent).left = some child ∨
          (tree.node parent).right = some child → child ≠ grandparent := by
        intro child points same
        have back : (tree.node child).parent = some parent :=
          (pointers.linked.child_mem found points).2
        have lower := (pointers.parent_spec (pointers.linked.child_mem found points).1 back).2.2
        subst same
        omega
      obtain ⟨rest, enough⟩ := Nat.exists_eq_add_of_le' (show 5 ≤ tree.bound by omega)
      rw [enough]
      apply updateMaxUppers_step
      rw [kept, up]
      apply updateMaxUppers_mutual apart
      · rw [alike.parent, raised]
      · rw [alike.parent, lowered]
      · intro child points
        rw [alike.node parent] at points
        simp only [children] at points
        cases left with
        | true =>
          simp only [turn, if_true, modify_node_self, Option.some.injEq,
            modify_node_of_ne _ _ apart] at points
          rcases points with same | right
          · exact same ▸ Ne.symm apart
          · exact pointers.ne_child found (.inr right)
        | false =>
          simp only [turn, Bool.false_eq_true, if_false, modify_node_self, Option.some.injEq,
            modify_node_of_ne _ _ apart] at points
          rcases points with left | same
          · exact pointers.ne_child found (.inl left)
          · exact same ▸ Ne.symm apart
      · intro child points
        rw [alike.node grandparent, lowered] at points
        cases left with
        | true =>
          simp only [turn, if_true, modify_node_self, modify_node_of_ne _ _ (Ne.symm apart)]
            at points
          rcases points with left | right
          · exact pointers.ne_child foundAbove (.inl left)
          · exact below (.inl right)
        | false =>
          simp only [turn, Bool.false_eq_true, if_false, modify_node_self,
            modify_node_of_ne _ _ (Ne.symm apart)] at points
          rcases points with left | right
          · exact below (.inr left)
          · exact pointers.ne_child foundAbove (.inr right)

/-- The loop that recomputes maximum upper bounds ends after any rotation. -/
theorem updateMaxUppers_rotateInsert :
    ∃ result, updateMaxUppers order (rotateInsert order tree id parent).bound
      (rotateInsert order tree id parent) (some id) = some result := by
  have deep := pointers.depth_lt_bound inside
  have higher := (pointers.parent_spec inside up).2.2
  have same : (rotateInsert order tree id parent).bound = tree.bound := by
    unfold rotateInsert Itree.bound
    dsimp only
    rw [itreeRotate_allocated]
    split
    next => rw [itreeRotate_allocated]
    next => rfl
  rw [same, rotateInsert]
  split
  next =>
    obtain ⟨rest, enough⟩ := Nat.exists_eq_add_of_le' (show 3 ≤ tree.bound by omega)
    rw [enough]
    exact updateMaxUppers_double pointers inside up _
  next => exact updateMaxUppers_single pointers inside up _

end Climb

variable [LinearOrder Lower]

variable (order) in
/-- An insertion returns. -/
theorem PointerTree.exists_insert (pointers : PointerTree tree shape) (lower upper : Bound)
    (data : Data) :
    ∃ result, IntervalTree.gzochidItreeInsert order tree lower upper data = some result := by
  simp only [IntervalTree.gzochidItreeInsert]
  rcases pointers.itreeLocation_seat order lower upper with
    ⟨nowhere, _⟩ | ⟨found, located, inside, ended⟩
  · rw [nowhere]
    exact ⟨_, rfl⟩
  rw [located]
  dsimp only
  split
  next => exact ⟨_, rfl⟩
  next miss =>
    have attached : PointerTree (IntervalTree.attach order tree found lower upper data) _ :=
      pointers.attach (ended.resolve_left miss)
    have seat : found ∈ (attachedShape order tree shape found lower upper data).ids :=
      mem_ids_place.mpr (.inr inside)
    simp only [itreeRetraceInsert]
    by_cases leans :
        ((IntervalTree.attach order tree found lower upper data).node found).balanceFactor < -1 ∨
          ((IntervalTree.attach order tree found lower upper data).node found).balanceFactor > 1
    · rw [if_pos leans]
      have short := attached.depth_lt_bound seat
      rcases retraceInsertLoop_spec order attached seat (Nat.lt_of_succ_lt short) (.refl _)
        (fun _ => rfl) .start rfl (fun _ _ _ => rfl) with ⟨climbed, final, equal, there, ended⟩
      rw [equal]
      cases ended with
      | settled alike =>
        rcases (alike.pointerTree attached).updateMaxUppers order there with ⟨result, equal, _⟩
        exact ⟨result, equal⟩
      | rotated alike _ _ _ up =>
        exact updateMaxUppers_rotateInsert (alike.pointerTree attached) there
          (by rw [alike.parent, up])
    · rw [if_neg leans]
      rcases attached.updateMaxUppers order seat with ⟨result, equal, _⟩
      exact ⟨result, equal⟩

end Gzochi.IntervalTree
