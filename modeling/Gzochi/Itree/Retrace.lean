import Gzochi.Itree.Invariant

/-!
# Retracing

After a change the code walks from the place of the change towards the root.  It
adjusts balance factors on the way, rotates where one asks for it, and recomputes
maximum upper bounds.  Here is what the walks do in a tree whose pointers are in
order: they end, and up to the first rotation they touch nothing but balance factors
and maximum upper bounds.
-/

namespace Gzochi.IntervalTree

open Gzochi.Lib Itree

universe u v w x

variable {Bound : Type u} {Lower : Type v} {Upper : Type w} {Data : Type x}
variable {tree base later : Itree Bound Data} {shape : Shape NodeId} {id : NodeId}

@[simp] theorem Itree.modify_node_self (tree : Itree Bound Data) (id : NodeId)
    (change : Node Bound Data → Node Bound Data) :
    (tree.modify id change).node id = change (tree.node id) := by
  simp [modify]

theorem Itree.modify_node_of_ne {other : NodeId} (tree : Itree Bound Data)
    (change : Node Bound Data → Node Bound Data) (different : other ≠ id) :
    (tree.modify id change).node other = tree.node other := by
  simp [modify, different]

theorem Itree.modify_data_node (tree : Itree Bound Data) (id : NodeId) (data : Data)
    (other : NodeId) :
    (tree.modify id fun node => { node with data := data }).node other =
      { tree.node other with data := if other = id then data else (tree.node other).data } := by
  by_cases same : other = id
  · subst same
    simp
  · simp [modify_node_of_ne tree _ same, same]

/-- The trees differ in balance factors and maximum upper bounds only. -/
structure Alike (base tree : Itree Bound Data) : Prop where
  root : tree.root = base.root
  allocated : tree.allocated = base.allocated
  node : ∀ id, tree.node id =
    { base.node id with
      balanceFactor := (tree.node id).balanceFactor
      maxUpper := (tree.node id).maxUpper }

namespace Alike

theorem refl (tree : Itree Bound Data) : Alike tree tree :=
  ⟨rfl, rfl, fun _ => rfl⟩

theorem trans (first : Alike base tree) (second : Alike tree later) : Alike base later where
  root := second.root.trans first.root
  allocated := second.allocated.trans first.allocated
  node id := by rw [second.node id, first.node id]

theorem modify_balance (tree : Itree Bound Data) (id : NodeId) (balance : Int) :
    Alike tree (tree.modify id fun node => { node with balanceFactor := balance }) where
  root := rfl
  allocated := rfl
  node other := by
    by_cases same : other = id
    · subst same
      simp
    · simp [modify_node_of_ne tree _ same]

theorem modify_maxUpper (tree : Itree Bound Data) (id : NodeId) (bound : Bound) :
    Alike tree (tree.modify id fun node => { node with maxUpper := bound }) where
  root := rfl
  allocated := rfl
  node other := by
    by_cases same : other = id
    · subst same
      simp
    · simp [modify_node_of_ne tree _ same]

theorem links (alike : Alike base tree) : tree.links = base.links := by
  simp only [Itree.links]
  congr 1
  · funext id
    rw [alike.node id]
  · funext id
    rw [alike.node id]
  · funext id
    rw [alike.node id]

theorem pointerTree (alike : Alike base tree) (pointers : PointerTree base shape) :
    PointerTree tree shape where
  root := alike.root.trans pointers.root
  linked := alike.links ▸ pointers.linked
  nodup := pointers.nodup
  allocated id member := alike.allocated ▸ pointers.allocated id member

theorem lowerKey_eq (order : Comparators Bound Lower Upper) (alike : Alike base tree) :
    lowerKey order tree = lowerKey order base := by
  funext id
  simp only [lowerKey]
  rw [alike.node id]

theorem upperKey_eq (order : Comparators Bound Lower Upper) (alike : Alike base tree) :
    upperKey order tree = upperKey order base := by
  funext id
  simp only [upperKey]
  rw [alike.node id]

variable [LinearOrder Lower] {order : Comparators Bound Lower Upper}
  {contents : Contents Lower Upper Data}

theorem sound (alike : Alike base tree) (sound : Sound order base shape contents) :
    Sound order tree shape contents where
  toPointerTree := alike.pointerTree sound.toPointerTree
  ordered := alike.lowerKey_eq order ▸ sound.ordered
  distinct := by
    simp only [Distinct, alike.lowerKey_eq order, alike.upperKey_eq order]
    exact sound.distinct
  carries := by
    have data : ∀ id, (tree.node id).data = (base.node id).data := by
      intro id
      rw [alike.node id]
    simp only [Carries, alike.lowerKey_eq order, alike.upperKey_eq order, data]
    exact sound.carries

end Alike

variable (pointers : PointerTree tree shape)
include pointers

/-- The walk from a node to the root is shorter than the bound on loops. -/
theorem PointerTree.depth_lt_bound (member : id ∈ shape.ids) : shape.depth id + 1 < tree.bound := by
  have below := Shape.depth_lt member
  have few := pointers.length_le
  simp only [Itree.bound]
  omega

/-- What the parent pointer of a node says. -/
theorem PointerTree.parent_cases (member : id ∈ shape.ids) :
    ((tree.node id).parent = none ∧ shape.top = some id) ∨
    ∃ parent ∈ shape.ids, (tree.node id).parent = some parent ∧
      ((tree.node parent).left = some id ∨ (tree.node parent).right = some id) ∧
      shape.depth parent < shape.depth id := by
  rcases pointers.linked.parent_cases pointers.nodup member with
    ⟨atTop, up⟩ | ⟨parent, found, up, back, higher⟩
  · exact .inl ⟨up, atTop⟩
  · exact .inr ⟨parent, found, up, back, higher⟩

/-- A parent is in the tree and lies higher. -/
theorem PointerTree.parent_spec {parent : NodeId}
    (member : id ∈ shape.ids) (up : (tree.node id).parent = some parent) :
    parent ∈ shape.ids ∧ ((tree.node parent).left = some id ∨ (tree.node parent).right = some id) ∧
      shape.depth parent < shape.depth id := by
  rcases pointers.parent_cases member with ⟨atTop, _⟩ | ⟨other, found, points, back, higher⟩
  · rw [atTop] at up
    cases up
  · rw [points] at up
    cases up
    exact ⟨found, back, higher⟩

omit pointers

/-! ## Maximum upper bounds -/

section MaxUpper

variable [LinearOrder Upper] {order : Comparators Bound Lower Upper}

theorem upper_le_laterUpper_left (first second : Bound) :
    order.upper first ≤ order.upper (laterUpper order first second) := by
  simp only [laterUpper]
  split
  next less => exact less.le
  next => exact le_rfl

theorem upper_le_laterUpper_right (first second : Bound) :
    order.upper second ≤ order.upper (laterUpper order first second) := by
  simp only [laterUpper]
  split
  next => exact le_rfl
  next notLess => exact not_lt.mp notLess

/-- The maximum upper bound of a node is no less than its own upper bound and the
maximum upper bounds of its children. -/
structure Covers (order : Comparators Bound Lower Upper) (tree : Itree Bound Data)
    (id : NodeId) : Prop where
  own : order.upper (tree.node id).upper ≤ order.upper (tree.node id).maxUpper
  left : ∀ child, (tree.node id).left = some child →
    order.upper (tree.node child).maxUpper ≤ order.upper (tree.node id).maxUpper
  right : ∀ child, (tree.node id).right = some child →
    order.upper (tree.node child).maxUpper ≤ order.upper (tree.node id).maxUpper

theorem newMaxUpper_own (tree : Itree Bound Data) (id : NodeId) :
    order.upper (tree.node id).upper ≤ order.upper (newMaxUpper order tree id) := by
  simp only [newMaxUpper]
  split
  next =>
    split
    next => exact le_rfl
    next => exact upper_le_laterUpper_left _ _
  next =>
    refine le_trans ?_ (upper_le_laterUpper_left _ _)
    split
    next => exact le_rfl
    next => exact upper_le_laterUpper_left _ _

variable {child : NodeId}

theorem newMaxUpper_left (points : (tree.node id).left = some child) :
    order.upper (tree.node child).maxUpper ≤ order.upper (newMaxUpper order tree id) := by
  simp only [newMaxUpper, points]
  split
  next => exact upper_le_laterUpper_right _ _
  next => exact (upper_le_laterUpper_right _ _).trans (upper_le_laterUpper_left _ _)

theorem newMaxUpper_right (points : (tree.node id).right = some child) :
    order.upper (tree.node child).maxUpper ≤ order.upper (newMaxUpper order tree id) := by
  simp only [newMaxUpper, points]
  exact upper_le_laterUpper_right _ _

theorem alike_updateMaxUpper (order : Comparators Bound Lower Upper) (tree : Itree Bound Data)
    (id : NodeId) :
    Alike tree (updateMaxUpper order tree id) :=
  .modify_maxUpper tree id _

@[simp] theorem updateMaxUpper_node_self (tree : Itree Bound Data) (id : NodeId) :
    (updateMaxUpper order tree id).node id =
      { tree.node id with maxUpper := newMaxUpper order tree id } := by
  simp [updateMaxUpper]

theorem updateMaxUpper_node_of_ne {other : NodeId} (tree : Itree Bound Data)
    (different : other ≠ id) :
    (updateMaxUpper order tree id).node other = tree.node other := by
  simp [updateMaxUpper, modify_node_of_ne tree _ different]

/-- Nothing has changed of what the maximum upper bound of a node is computed from. -/
structure SameMaxima (base tree : Itree Bound Data) (id : NodeId) : Prop where
  upper : (tree.node id).upper = (base.node id).upper
  left : (tree.node id).left = (base.node id).left
  right : (tree.node id).right = (base.node id).right
  child : ∀ child, (base.node id).left = some child ∨ (base.node id).right = some child →
    (tree.node child).maxUpper = (base.node child).maxUpper

omit [LinearOrder Upper] in
theorem sameMaxima_of_alike (alike : Alike base tree)
    (sameMax : ∀ id, (tree.node id).maxUpper = (base.node id).maxUpper) (id : NodeId) :
    SameMaxima base tree id := by
  constructor
  · rw [alike.node id]
  · rw [alike.node id]
  · rw [alike.node id]
  · exact fun child _ => sameMax child

theorem SameMaxima.newMaxUpper_eq (same : SameMaxima base tree id) :
    newMaxUpper order tree id = newMaxUpper order base id := by
  simp only [newMaxUpper, same.upper, same.left, same.right]
  cases left : (base.node id).left with
  | none =>
    cases right : (base.node id).right with
    | none => rfl
    | some other => simp only [same.child other (.inr right)]
  | some child =>
    cases right : (base.node id).right with
    | none => simp only [same.child child (.inl left)]
    | some other => simp only [same.child child (.inl left), same.child other (.inr right)]

/-- A property of nodes that looks at their maximum upper bounds and at nothing but what these
are computed from, and that holds where they are up to date. -/
structure Local (order : Comparators Bound Lower Upper)
    (good : Itree Bound Data → NodeId → Prop) : Prop where
  recomputed : ∀ {tree id}, (tree.node id).maxUpper = newMaxUpper order tree id → good tree id
  congr : ∀ {base tree id}, good base id → SameMaxima base tree id →
    (tree.node id).maxUpper = (base.node id).maxUpper → good tree id

namespace Local

variable {good : Itree Bound Data → NodeId → Prop}

variable (isLocal : Local order good)
include isLocal

theorem of_alike (alike : Alike base tree)
    (sameMax : ∀ id, (tree.node id).maxUpper = (base.node id).maxUpper) (before : good base id) :
    good tree id :=
  isLocal.congr before (sameMaxima_of_alike alike sameMax id) (sameMax id)

/-- Recomputing the bound of a node makes it good. -/
theorem updateMaxUpper_self (noLeft : (tree.node id).left ≠ some id)
    (noRight : (tree.node id).right ≠ some id) : good (updateMaxUpper order tree id) id := by
  have same : SameMaxima tree (updateMaxUpper order tree id) id := by
    constructor
    · rw [updateMaxUpper_node_self]
    · rw [updateMaxUpper_node_self]
    · rw [updateMaxUpper_node_self]
    · intro child points
      have different : child ≠ id := by
        intro same
        rw [same] at points
        cases points with
        | inl isLeft => exact noLeft isLeft
        | inr isRight => exact noRight isRight
      rw [updateMaxUpper_node_of_ne tree different]
  apply isLocal.recomputed
  rw [same.newMaxUpper_eq, updateMaxUpper_node_self]

/-- It cannot spoil nodes that do not point to it. -/
theorem updateMaxUpper_of_ne {other : NodeId} (before : good tree other) (different : other ≠ id)
    (noLeft : (tree.node other).left ≠ some id) (noRight : (tree.node other).right ≠ some id) :
    good (updateMaxUpper order tree id) other := by
  have here : (updateMaxUpper order tree id).node other = tree.node other :=
    updateMaxUpper_node_of_ne tree different
  refine isLocal.congr before ⟨by rw [here], by rw [here], by rw [here], ?_⟩ (by rw [here])
  intro child points
  have apart : child ≠ id := by
    intro same
    rw [same] at points
    cases points with
    | inl isLeft => exact noLeft isLeft
    | inr isRight => exact noRight isRight
  rw [updateMaxUpper_node_of_ne tree apart]

end Local

theorem covers_local (order : Comparators Bound Lower Upper) :
    Local order (Covers order : Itree Bound Data → NodeId → Prop) where
  recomputed upToDate := by
    constructor
    · rw [upToDate]
      exact newMaxUpper_own _ _
    · intro child points
      rw [upToDate]
      exact newMaxUpper_left points
    · intro child points
      rw [upToDate]
      exact newMaxUpper_right points
  congr before same sameMax := by
    constructor
    · rw [sameMax, same.upper]
      exact before.own
    · intro child points
      rw [same.left] at points
      rw [sameMax, same.child child (.inl points)]
      exact before.left child points
    · intro child points
      rw [same.right] at points
      rw [sameMax, same.child child (.inr points)]
      exact before.right child points

/-- The maximum upper bound of a node is its own upper bound, or the maximum upper bound of one
of its children. -/
def Attained (tree : Itree Bound Data) (id : NodeId) : Prop :=
  (tree.node id).maxUpper = (tree.node id).upper ∨
  ∃ child, ((tree.node id).left = some child ∨ (tree.node id).right = some child) ∧
    (tree.node id).maxUpper = (tree.node child).maxUpper

theorem laterUpper_cases (order : Comparators Bound Lower Upper) (first second : Bound) :
    laterUpper order first second = first ∨ laterUpper order first second = second := by
  simp only [laterUpper]
  split
  next => exact .inr rfl
  next => exact .inl rfl

theorem newMaxUpper_cases (tree : Itree Bound Data) (id : NodeId) :
    newMaxUpper order tree id = (tree.node id).upper ∨
    ∃ child, ((tree.node id).left = some child ∨ (tree.node id).right = some child) ∧
      newMaxUpper order tree id = (tree.node child).maxUpper := by
  unfold newMaxUpper
  cases left : (tree.node id).left with
  | none =>
    cases right : (tree.node id).right with
    | none => exact .inl rfl
    | some other =>
      exact (laterUpper_cases order _ _).imp_right fun chosen => ⟨other, .inr rfl, chosen⟩
  | some child =>
    cases right : (tree.node id).right with
    | none => exact (laterUpper_cases order _ _).imp_right fun chosen => ⟨child, .inl rfl, chosen⟩
    | some other =>
      rcases laterUpper_cases order (laterUpper order (tree.node id).upper
        (tree.node child).maxUpper) (tree.node other).maxUpper with first | second
      · simp only [first]
        exact (laterUpper_cases order _ _).imp_right fun chosen => ⟨child, .inl rfl, chosen⟩
      · exact .inr ⟨other, .inr rfl, second⟩

theorem attained_local (order : Comparators Bound Lower Upper) :
    Local order (Attained : Itree Bound Data → NodeId → Prop) where
  recomputed {tree id} upToDate := by
    unfold Attained
    rw [upToDate]
    exact newMaxUpper_cases tree id
  congr before same sameMax := by
    cases before with
    | inl own => exact .inl (by rw [sameMax, same.upper, own])
    | inr below =>
      rcases below with ⟨child, points, equal⟩
      exact .inr ⟨child, by rw [same.left, same.right]; exact points,
        by rw [sameMax, same.child child points, equal]⟩

/-- All nodes of a shape cover their children. -/
def Covered (order : Comparators Bound Lower Upper) (tree : Itree Bound Data)
    (shape : Shape NodeId) : Prop :=
  ∀ id ∈ shape.ids, Covers order tree id

/-- A child lies lower, so it is neither the node itself nor its parent. -/
theorem PointerTree.left_ne_self (pointers : PointerTree tree shape)
    (member : id ∈ shape.ids) : (tree.node id).left ≠ some id := by
  intro points
  have back := (pointers.linked.left_child member points).2
  have higher := (pointers.parent_spec member back).2.2
  omega

theorem PointerTree.right_ne_self (pointers : PointerTree tree shape)
    (member : id ∈ shape.ids) : (tree.node id).right ≠ some id := by
  intro points
  have back := (pointers.linked.right_child member points).2
  have higher := (pointers.parent_spec member back).2.2
  omega

variable [DecidableEq Bound]

/-- The loop that recomputes maximum upper bounds ends.  When only the node it starts from may
fail to have a property of this kind, all nodes have it in the end. -/
theorem updateMaxUppers_spec (order : Comparators Bound Lower Upper) {fuel : Nat}
    {start : Option NodeId} (pointers : PointerTree tree shape)
    (member : ∀ id, start = some id → id ∈ shape.ids)
    (enough : ∀ id, start = some id → shape.depth id + 1 < fuel) (positive : 0 < fuel) :
    ∃ tree', updateMaxUppers order fuel tree start = some tree' ∧ Alike tree tree' ∧
      (∀ id, (tree'.node id).balanceFactor = (tree.node id).balanceFactor) ∧
      ∀ good, Local order good → (∀ id ∈ shape.ids, start ≠ some id → good tree id) →
        ∀ id ∈ shape.ids, good tree' id := by
  induction fuel generalizing tree start with
  | zero => omega
  | succ fuel ih =>
    cases start with
    | none =>
      refine ⟨tree, rfl, .refl tree, fun _ => rfl, ?_⟩
      intro good _ before id found
      exact before id found (by simp)
    | some id =>
      have here := member id rfl
      have short := enough id rfl
      have noLeft := pointers.left_ne_self here
      have noRight := pointers.right_ne_self here
      simp only [updateMaxUppers]
      split
      next changes =>
        have alike := alike_updateMaxUpper order tree id
        have kept := alike.pointerTree pointers
        have sameParent : ((updateMaxUpper order tree id).node id).parent =
            (tree.node id).parent := by simp
        have next : ∀ parent, ((updateMaxUpper order tree id).node id).parent = some parent →
            parent ∈ shape.ids ∧ shape.depth parent < shape.depth id := by
          intro parent up
          rw [sameParent] at up
          have spec := pointers.parent_spec here up
          exact ⟨spec.1, spec.2.2⟩
        have room : ∀ parent, ((updateMaxUpper order tree id).node id).parent = some parent →
            shape.depth parent + 1 < fuel := by
          intro parent up
          have := (next parent up).2
          omega
        rcases ih kept (fun parent up => (next parent up).1) room (by omega) with
          ⟨tree', equal, laterAlike, balance, establishes⟩
        refine ⟨tree', equal, alike.trans laterAlike, ?_, ?_⟩
        · intro other
          rw [balance other]
          by_cases same : other = id
          · subst same
            simp
          · rw [updateMaxUpper_node_of_ne tree same]
        · intro good isLocal before
          apply establishes good isLocal
          intro other found notParent
          by_cases same : other = id
          · subst same
            exact isLocal.updateMaxUpper_self noLeft noRight
          · have above := before other found fun equal => same (Option.some.inj equal).symm
            refine isLocal.updateMaxUpper_of_ne above same ?_ ?_
            · intro points
              have back := (pointers.linked.left_child found points).2
              exact notParent (sameParent.trans back)
            · intro points
              have back := (pointers.linked.right_child found points).2
              exact notParent (sameParent.trans back)
      next unchanged =>
        refine ⟨tree, rfl, .refl tree, fun _ => rfl, ?_⟩
        intro good isLocal before other found
        by_cases same : other = id
        · subst same
          exact isLocal.recomputed (not_not.mp unchanged)
        · exact before other found fun equal => same (Option.some.inj equal).symm

/-- What is left to do once the climb is over. -/
theorem PointerTree.updateMaxUppers (order : Comparators Bound Lower Upper)
    (pointers : PointerTree tree shape) (member : id ∈ shape.ids) :
    ∃ result, IntervalTree.updateMaxUppers order tree.bound tree (some id) = some result ∧
      Alike tree result ∧
      (∀ id, (result.node id).balanceFactor = (tree.node id).balanceFactor) ∧
      ∀ good, Local order good → (∀ other ∈ shape.ids, other ≠ id → good tree other) →
        ∀ other ∈ shape.ids, good result other := by
  have inside : ∀ other, some id = some other → other ∈ shape.ids := by
    intro other same
    exact Option.some.inj same ▸ member
  have short : ∀ other, some id = some other → shape.depth other + 1 < tree.bound := by
    intro other same
    exact Option.some.inj same ▸ pointers.depth_lt_bound member
  rcases updateMaxUppers_spec order pointers inside short (Nat.succ_pos _) with
    ⟨result, equal, alike, balance, establishes⟩
  refine ⟨result, equal, alike, balance, fun good isLocal before => ?_⟩
  apply establishes good isLocal
  intro other found different
  exact before other found fun same => different (same ▸ rfl)

end MaxUpper

/-! ## Climbing -/

/-- The balance factor of a node that is one level heavier on the side of a child. -/
def heavy (tree : Itree Bound Data) (parent child : NodeId) : Int :=
  if (tree.node parent).left = some child then 1 else -1

/-- The nodes `itree_retrace_insert` comes to in its climb from a start node, with
the balance factor each of them has at that moment. -/
inductive InsertClimb (tree : Itree Bound Data) (start : NodeId) (balance : Int) :
    NodeId → Int → Prop where
  | start : InsertClimb tree start balance start balance
  | up {id parent : NodeId} {current : Int} : InsertClimb tree start balance id current →
      (tree.node id).parent = some parent →
      (tree.node parent).balanceFactor ≠ 1 → (tree.node parent).balanceFactor ≠ -1 →
      InsertClimb tree start balance parent (heavy tree parent id)

/-- A climb whose first parent leans stays where it is. -/
theorem InsertClimb.eq_start {start : NodeId} {balance current : Int}
    (climb : InsertClimb tree start balance id current)
    (stops : ∀ parent, (tree.node start).parent = some parent →
      (tree.node parent).balanceFactor = 1 ∨ (tree.node parent).balanceFactor = -1) :
    id = start := by
  induction climb with
  | start => rfl
  | up _ points notOne notMinus ih =>
    subst ih
    rcases stops _ points with one | minus
    · exact absurd one notOne
    · exact absurd minus notMinus

/-- The nodes `itree_retrace_remove` comes to from a start node, as long as it does
not rotate. -/
inductive RemoveClimb (tree : Itree Bound Data) (start : NodeId) : NodeId → Prop where
  | start : RemoveClimb tree start start
  | up {id parent : NodeId} : RemoveClimb tree start id →
      (tree.node id).parent = some parent → (tree.node parent).balanceFactor ≠ 0 →
      RemoveClimb tree start parent

/-- Where the climb after a removal stops. -/
def RemoveStops (tree : Itree Bound Data) (id : NodeId) : Prop :=
  ∀ parent, (tree.node id).parent = some parent → (tree.node parent).balanceFactor = 0

namespace RemoveClimb

variable {start final : NodeId}

theorem eq_start (climb : RemoveClimb tree start id) (stops : RemoveStops tree start) :
    id = start := by
  induction climb with
  | start => rfl
  | up _ points leaning ih =>
    subst ih
    exact absurd (stops _ points) leaning

/-- The first step of a climb. -/
theorem first_up (climb : RemoveClimb tree start id) :
    id = start ∨ ∃ parent, (tree.node start).parent = some parent ∧
      (tree.node parent).balanceFactor ≠ 0 ∧ RemoveClimb tree parent id := by
  induction climb with
  | start => exact .inl rfl
  | up _ points leaning ih =>
    rcases ih with same | ⟨parent, up, first, rest⟩
    · subst same
      exact .inr ⟨_, points, leaning, .start⟩
    · exact .inr ⟨parent, up, first, .up rest points leaning⟩

/-- The climb comes from every node on its way to where it stops. -/
theorem reaches (climb : RemoveClimb tree start final) (stops : RemoveStops tree final)
    (other : RemoveClimb tree start id) : RemoveClimb tree id final := by
  induction other with
  | start => exact climb
  | up _ points leaning ih =>
    rcases ih.first_up with same | ⟨parent, up, _, rest⟩
    · subst same
      exact absurd (stops _ points) leaning
    · exact Option.some.inj (up.symm.trans points) ▸ rest

theorem stop_unique (climb : RemoveClimb tree start final) (stops : RemoveStops tree final)
    (other : RemoveClimb tree start id) (otherStops : RemoveStops tree id) : final = id :=
  (climb.reaches stops other).eq_start otherStops

end RemoveClimb

/-- The balance factor at which `itree_retrace_remove` rotates: the other side of
the parent is heavy already. -/
def heavyBeside (tree : Itree Bound Data) (parent child : NodeId) : Int :=
  if (tree.node parent).right = some child then 1 else -1

theorem heavy_of_alike (alike : Alike base tree) (parent child : NodeId) :
    heavy tree parent child = heavy base parent child := by
  simp only [heavy]
  rw [alike.node parent]

theorem heavy_cases (tree : Itree Bound Data) (parent child : NodeId) :
    heavy tree parent child = 1 ∨ heavy tree parent child = -1 := by
  simp only [heavy]
  split
  next => exact .inl rfl
  next => exact .inr rfl

theorem heavyBeside_of_alike (alike : Alike base tree) (parent child : NodeId) :
    heavyBeside tree parent child = heavyBeside base parent child := by
  simp only [heavyBeside]
  rw [alike.node parent]

theorem Alike.parent (alike : Alike base tree) (id : NodeId) :
    (tree.node id).parent = (base.node id).parent := by
  rw [alike.node id]

section Climb

variable [LinearOrder Upper] (order : Comparators Bound Lower Upper)

/-- The tree that `itree_retrace_insert` leaves when it rotates at a node: one
rotation, or two when the node leans the other way. -/
def rotateInsert (tree : Itree Bound Data) (id parent : NodeId) : Itree Bound Data :=
  let left := decide ((tree.node parent).left = some id)
  let first :=
    if (tree.node id).balanceFactor = -heavy tree parent id then itreeRotate order tree id left
    else tree
  itreeRotate order first parent (!left)

/-- How a climb after an insertion ends. -/
inductive InsertEnd (base : Itree Bound Data) (start : NodeId) (balance : Int) :
    Itree Bound Data → NodeId → Prop where
  | settled {tree : Itree Bound Data} {id : NodeId} {current : Int} :
      Alike base tree → (∀ id, (tree.node id).maxUpper = (base.node id).maxUpper) →
      InsertClimb base start balance id current → InsertEnd base start balance tree id
  | rotated {tree : Itree Bound Data} {id parent : NodeId} {current : Int} :
      Alike base tree → (∀ id, (tree.node id).maxUpper = (base.node id).maxUpper) →
      InsertClimb base start balance id current →
      (tree.node id).balanceFactor = current → (base.node id).parent = some parent →
      (base.node parent).balanceFactor = heavy base parent id →
      InsertEnd base start balance (rotateInsert order tree id parent) id

variable {fuel : Nat} {start : NodeId}

/-- The climb after an insertion ends, having changed balance factors only, or in a
rotation. -/
theorem retraceInsertLoop_spec (order : Comparators Bound Lower Upper) {balance current : Int}
    (pointers : PointerTree base shape) (member : id ∈ shape.ids) (enough : shape.depth id < fuel)
    (alike : Alike base tree) (sameMax : ∀ id, (tree.node id).maxUpper = (base.node id).maxUpper)
    (climb : InsertClimb base start balance id current)
    (here : (tree.node id).balanceFactor = current)
    (above : ∀ other ∈ shape.ids, shape.depth other < shape.depth id →
      (tree.node other).balanceFactor = (base.node other).balanceFactor) :
    ∃ result final, retraceInsertLoop order fuel tree id = some (result, final) ∧
      final ∈ shape.ids ∧ InsertEnd order base start balance result final := by
  induction fuel generalizing tree id current with
  | zero => omega
  | succ fuel ih =>
    simp only [retraceInsertLoop, alike.parent id]
    cases up : (base.node id).parent with
    | none => exact ⟨tree, id, rfl, member, .settled alike sameMax climb⟩
    | some parent =>
      rcases pointers.parent_spec member up with ⟨found, _, higher⟩
      have parentBalance := above parent found higher
      have side : (if decide ((tree.node parent).left = some id) = true then (1 : Int) else -1) =
          heavy base parent id := by
        rw [← heavy_of_alike alike]
        simp [heavy]
      have otherSide :
          (if decide ((tree.node parent).left = some id) = true then (-1 : Int) else 1) =
          -heavy tree parent id := by
        simp only [heavy, decide_eq_true_eq]
        split
        next => rfl
        next => rfl
      simp only [side, otherSide]
      split
      next turns =>
        refine ⟨rotateInsert order tree id parent, id, rfl, member,
          .rotated alike sameMax climb here up ?_⟩
        rw [← parentBalance, turns]
      next stays =>
        rw [heavy_of_alike alike]
        split
        next absorbed =>
          refine ⟨_, id, rfl, member,
            .settled (alike.trans (.modify_balance tree parent 0)) ?_ climb⟩
          intro other
          rw [← sameMax other]
          by_cases same : other = parent
          · subst same
            simp
          · rw [modify_node_of_ne tree _ same]
        next passed =>
          have ascend : InsertClimb base start balance parent (heavy base parent id) := by
            refine .up climb up ?_ ?_
            · intro one
              rcases heavy_cases base parent id with equal | equal <;> omega
            · intro minus
              rcases heavy_cases base parent id with equal | equal <;> omega
          refine ih found (by omega)
            (alike.trans (.modify_balance tree parent (heavy base parent id))) ?_ ascend
            (by simp) ?_
          · intro other
            rw [← sameMax other]
            by_cases same : other = parent
            · subst same
              simp
            · rw [modify_node_of_ne tree _ same]
          · intro other inside higherStill
            have different : other ≠ parent := fun same => by
              subst same
              omega
            rw [modify_node_of_ne tree _ different]
            exact above other inside (by omega)

/-- The climb after a removal ends with changed balance factors only, when it meets
no parent that asks for a rotation. -/
theorem retraceRemoveLoop_spec (order : Comparators Bound Lower Upper)
    (pointers : PointerTree base shape) (member : id ∈ shape.ids) (enough : shape.depth id < fuel)
    (alike : Alike base tree) (sameMax : ∀ id, (tree.node id).maxUpper = (base.node id).maxUpper)
    (climb : RemoveClimb base start id)
    (above : ∀ other ∈ shape.ids, shape.depth other < shape.depth id →
      (tree.node other).balanceFactor = (base.node other).balanceFactor)
    (still : ∀ id parent, RemoveClimb base start id → (base.node id).parent = some parent →
      (base.node parent).balanceFactor ≠ heavyBeside base parent id) :
    ∃ result final, retraceRemoveLoop order fuel tree id = some (result, final) ∧
      final ∈ shape.ids ∧ RemoveClimb base start final ∧ RemoveStops base final ∧
      Alike base result ∧ ∀ id, (result.node id).maxUpper = (base.node id).maxUpper := by
  induction fuel generalizing tree id with
  | zero => omega
  | succ fuel ih =>
    simp only [retraceRemoveLoop, alike.parent id]
    cases up : (base.node id).parent with
    | none =>
      have stops : RemoveStops base id := fun parent points => by
        rw [up] at points
        cases points
      exact ⟨tree, id, rfl, member, climb, stops, alike, sameMax⟩
    | some parent =>
      rcases pointers.parent_spec member up with ⟨found, _, higher⟩
      have parentBalance := above parent found higher
      have side : (if decide ((tree.node parent).right = some id) = true then (1 : Int) else -1) =
          heavyBeside base parent id := by
        rw [← heavyBeside_of_alike alike]
        simp [heavyBeside]
      have noTurn : ¬(tree.node parent).balanceFactor = heavyBeside base parent id := by
        rw [parentBalance]
        exact still id parent climb up
      have changed : ∀ balance : Int, ∀ other,
          ((tree.modify parent fun node => { node with balanceFactor := balance }).node
            other).maxUpper = (base.node other).maxUpper := by
        intro balance other
        rw [← sameMax other]
        by_cases same : other = parent
        · subst same
          simp
        · rw [modify_node_of_ne tree _ same]
      simp only [side, if_neg noTurn]
      split
      next level =>
        have stops : RemoveStops base id := by
          intro other points
          rw [← Option.some.inj (up.symm.trans points), ← parentBalance]
          exact level
        exact ⟨_, id, rfl, member, climb, stops,
          alike.trans (.modify_balance tree parent _), changed _⟩
      next leaning =>
        have laterAlike := alike.trans (.modify_balance tree parent 0)
        rw [laterAlike.parent id, up]
        refine ih found (by omega) laterAlike (changed 0)
          (.up climb up (by rw [← parentBalance]; exact leaning)) ?_
        intro other inside higherStill
        have different : other ≠ parent := fun same => by
          subst same
          omega
        rw [modify_node_of_ne tree _ different]
        exact above other inside (by omega)

end Climb

end Gzochi.IntervalTree
