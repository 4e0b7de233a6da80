import Gzochi.Itree.Refinement

/-!
# Balance

A tree is balanced when every node records the difference of the heights of its subtrees, and
no difference is greater than one.  The code adjusts the balance factor of the seat of a new
node, and after that climbs only where this one is out of bounds already; after a removal it
climbs from the child that takes the place of a node, if there is one.  So it keeps the tree
balanced where an insertion makes no subtree higher but the whole tree, and where a removal
has such a child and asks for no rotation.
-/

namespace Gzochi.IntervalTree

open Gzochi.Lib Shape

universe u v w x

variable {Bound : Type u} {Lower : Type v} {Upper : Type w} {Data : Type x}
variable {tree base : Itree Bound Data} {shape : Shape NodeId} {id target child : NodeId}

/-- Every node records the difference of the heights of its subtrees, at most one. -/
def Balanced (tree : Itree Bound Data) : Shape NodeId → Prop
  | .nil => True
  | .node id left right =>
      (tree.node id).balanceFactor = (left.height : Int) - right.height ∧
      -1 ≤ (tree.node id).balanceFactor ∧ (tree.node id).balanceFactor ≤ 1 ∧
      Balanced tree left ∧ Balanced tree right

theorem Balanced.congr (balanced : Balanced base shape)
    (same : ∀ id ∈ shape.ids, (tree.node id).balanceFactor = (base.node id).balanceFactor) :
    Balanced tree shape := by
  induction shape with
  | nil => trivial
  | node top left right leftIh rightIh =>
    rcases balanced with ⟨recorded, low, high, inLeft, inRight⟩
    have here := same top (by simp)
    refine ⟨here.trans recorded, here ▸ low, here ▸ high, ?_, ?_⟩
    · exact leftIh inLeft fun id member => same id (by simp [member])
    · exact rightIh inRight fun id member => same id (by simp [member])

theorem height_pos {pointer : Option NodeId} (points : pointer = shape.top)
    (there : pointer ≠ none) : 0 < shape.height := by
  cases shape with
  | nil => exact absurd points there
  | node => exact Nat.succ_pos _

/-- No node of a balanced tree is out of bounds. -/
theorem Balanced.within (balanced : Balanced tree shape) (member : id ∈ shape.ids) :
    ¬((tree.node id).balanceFactor < -1 ∨ (tree.node id).balanceFactor > 1) := by
  induction shape with
  | nil => cases member
  | node top left right leftIh rightIh =>
    rcases balanced with ⟨_, low, high, inLeft, inRight⟩
    simp only [ids_node, List.mem_append, List.mem_cons] at member
    rcases member with member | same | member
    · exact leftIh inLeft member
    · subst same
      omega
    · exact rightIh inRight member

variable {left right : Shape NodeId}

/-- A node whose subtrees differ by at most one level, and that records so. -/
theorem Balanced.node (recorded : (tree.node id).balanceFactor = (left.height : Int) - right.height)
    (notLeft : left.height ≤ right.height + 1) (notRight : right.height ≤ left.height + 1)
    (inLeft : Balanced tree left) (inRight : Balanced tree right) :
    Balanced tree (.node id left right) :=
  ⟨recorded, by omega, by omega, inLeft, inRight⟩

section Subtree

variable {left left' right right' : Shape NodeId}

/-- Another left subtree of the same height. -/
theorem Balanced.replace_left (balanced : Balanced base (.node id left right))
    (kept : Balanced tree left') (sameHeight : left'.height = left.height)
    (here : (tree.node id).balanceFactor = (base.node id).balanceFactor)
    (same : ∀ other ∈ right.ids,
      (tree.node other).balanceFactor = (base.node other).balanceFactor) :
    Balanced tree (.node id left' right) ∧
      (Shape.node id left' right).height = (Shape.node id left right).height := by
  rcases balanced with ⟨recorded, low, high, _, others⟩
  refine ⟨⟨?_, here ▸ low, here ▸ high, kept, others.congr same⟩, ?_⟩
  · rw [here, recorded, sameHeight]
  · simp only [Shape.height, sameHeight]

/-- Another right subtree of the same height. -/
theorem Balanced.replace_right (balanced : Balanced base (.node id left right))
    (kept : Balanced tree right') (sameHeight : right'.height = right.height)
    (here : (tree.node id).balanceFactor = (base.node id).balanceFactor)
    (same : ∀ other ∈ left.ids, (tree.node other).balanceFactor = (base.node other).balanceFactor) :
    Balanced tree (.node id left right') ∧
      (Shape.node id left right').height = (Shape.node id left right).height := by
  rcases balanced with ⟨recorded, low, high, others, _⟩
  refine ⟨⟨?_, here ▸ low, here ▸ high, others.congr same, kept⟩, ?_⟩
  · rw [here, recorded, sameHeight]
  · simp only [Shape.height, sameHeight]

end Subtree

section Insert

variable [LinearOrder Lower] {order : Comparators Bound Lower Upper} {lower upper : Bound}
  {data : Data}

variable {parent : Option NodeId}

/-- A new node below a node that has a child already makes no subtree higher. -/
theorem Balanced.place {key : NodeId → Lower} {fresh seat : NodeId}
    (linked : Linked base.links parent shape) (nodup : shape.ids.Nodup)
    (balanced : Balanced base shape) (seated : shape.seat key (key fresh) = some seat)
    (isFresh : (tree.node fresh).balanceFactor = 0) (adjusted : (tree.node seat).balanceFactor =
      if key fresh < key seat then (base.node seat).balanceFactor + 1
      else (base.node seat).balanceFactor - 1) (frame : ∀ other ∈ shape.ids, other ≠ seat →
      (tree.node other).balanceFactor = (base.node other).balanceFactor)
    (partner : (base.node seat).left ≠ none ∨ (base.node seat).right ≠ none) :
    Balanced tree (shape.place key fresh) ∧ (shape.place key fresh).height = shape.height := by
  induction shape generalizing parent with
  | nil => cases seated
  | node top left right leftIh rightIh =>
    rcases linked with ⟨_, toLeft, toRight, inLeft, inRight⟩
    rcases nodup_node.mp nodup with ⟨leftNodup, rightNodup, notLeft, notRight, apart⟩
    have whole := balanced
    rcases balanced with ⟨recorded, low, high, leftBalanced, rightBalanced⟩
    simp only [Shape.seat] at seated
    simp only [Shape.place]
    split at seated
    next below =>
      rw [if_pos below]
      rcases Option.or_eq_some_iff.mp seated with found | ⟨unseated, here⟩
      · have inside := seat_mem found
        rcases leftIh inLeft leftNodup leftBalanced found
          (fun other member => frame other (by simp [member])) with ⟨kept, sameHeight⟩
        apply whole.replace_left kept sameHeight
        · exact frame top (by simp) fun same => notLeft (same ▸ inside)
        · exact fun other member => frame other (by simp [member]) fun same =>
            apart seat inside (same ▸ member)
      · cases here
        have nothing := eq_nil_of_seat unseated
        subst nothing
        have higher : 0 < right.height := by
          cases partner with
          | inl isLeft => exact absurd toLeft isLeft
          | inr isRight => exact height_pos toRight isRight
        rw [if_pos below] at adjusted
        simp only [Shape.height] at recorded
        have others : Balanced tree right := rightBalanced.congr fun other member =>
          frame other (by simp [member]) fun same => notRight (same ▸ member)
        refine ⟨⟨?_, by omega, by omega, ⟨isFresh, ?_⟩, others⟩, ?_⟩
        · simp only [Shape.place, Shape.height]
          omega
        · rw [isFresh]
          exact ⟨by decide, by decide, trivial, trivial⟩
        · simp only [Shape.place, Shape.height]
          omega
    next above =>
      rw [if_neg above]
      rcases Option.or_eq_some_iff.mp seated with found | ⟨unseated, here⟩
      · have inside := seat_mem found
        rcases rightIh inRight rightNodup rightBalanced found
          (fun other member => frame other (by simp [member])) with ⟨kept, sameHeight⟩
        apply whole.replace_right kept sameHeight
        · exact frame top (by simp) fun same => notRight (same ▸ inside)
        · exact fun other member => frame other (by simp [member]) fun same =>
            apart other member (same ▸ inside)
      · cases here
        have nothing := eq_nil_of_seat unseated
        subst nothing
        have higher : 0 < left.height := by
          cases partner with
          | inl isLeft => exact height_pos toLeft isLeft
          | inr isRight => exact absurd toRight isRight
        rw [if_neg above] at adjusted
        simp only [Shape.height] at recorded
        have others : Balanced tree left := leftBalanced.congr fun other member =>
          frame other (by simp [member]) fun same => notLeft (same ▸ member)
        refine ⟨⟨?_, by omega, by omega, others, ⟨isFresh, ?_⟩⟩, ?_⟩
        · simp only [Shape.place, Shape.height]
          omega
        · rw [isFresh]
          exact ⟨by decide, by decide, trivial, trivial⟩
        · simp only [Shape.place, Shape.height]
          omega

/-- The seat of a new interval has its balance factor adjusted, and the new node none. -/
theorem Balanced.attach (pointers : PointerTree tree shape) (balanced : Balanced tree shape)
    (seated : shape.seat (lowerKey order tree) (order.lower lower) = some id)
    (placed : (tree.node id).left ≠ none ∨ (tree.node id).right ≠ none ∨
      (tree.node id).parent = none) :
    Balanced (IntervalTree.attach order tree id lower upper data)
      (attachedShape order tree shape id lower upper data) := by
  have member := seat_mem seated
  have different := Nat.ne_of_lt (pointers.allocated id member)
  have seatedAfter := seat_attach pointers seated upper data
  have isFresh : ((IntervalTree.attach order tree id lower upper data).node
      tree.allocated).balanceFactor = 0 := by
    rw [attach_node_fresh different]
    rfl
  have adjusted : ((IntervalTree.attach order tree id lower upper data).node id).balanceFactor =
      if lowerKey order (IntervalTree.attach order tree id lower upper data) tree.allocated <
          lowerKey order (IntervalTree.attach order tree id lower upper data) id then
        (tree.node id).balanceFactor + 1
      else (tree.node id).balanceFactor - 1 := by
    rw [attach_balance different, lowerKey_attach_fresh different, attached_keys pointers member]
    rfl
  have frame : ∀ other ∈ shape.ids, other ≠ id →
      ((IntervalTree.attach order tree id lower upper data).node other).balanceFactor =
        (tree.node other).balanceFactor := by
    intro other inside notSeat
    rw [attach_node_of_ne (Nat.ne_of_lt (pointers.allocated other inside)) notSeat]
  by_cases partner : (tree.node id).left ≠ none ∨ (tree.node id).right ≠ none
  · exact (balanced.place pointers.linked pointers.nodup seatedAfter isFresh adjusted frame
      partner).1
  · -- the only node of the tree
    have atTop : (tree.node id).parent = none := by tauto
    have noLeft : (tree.node id).left = none := by tauto
    have noRight : (tree.node id).right = none := by tauto
    have top : shape.top = some id := by
      rcases pointers.parent_cases member with ⟨_, top⟩ | ⟨_, _, up, _⟩
      · exact top
      · rw [atTop] at up
        cases up
    cases shape with
    | nil => cases top
    | node root left right =>
      injection top with same
      subst same
      rcases pointers.linked with ⟨_, toLeft, toRight, _, _⟩
      have emptyLeft := eq_nil_of_top (toLeft.symm.trans noLeft)
      have emptyRight := eq_nil_of_top (toRight.symm.trans noRight)
      subst emptyLeft emptyRight
      rcases balanced with ⟨recorded, _⟩
      have leaf : Balanced (IntervalTree.attach order tree root lower upper data)
          (.node tree.allocated .nil .nil) := by
        refine ⟨isFresh, ?_⟩
        rw [isFresh]
        exact ⟨by decide, by decide, trivial, trivial⟩
      simp only [Shape.height] at recorded
      simp only [attachedShape, Shape.place]
      split at adjusted
      next below =>
        rw [if_pos below]
        refine ⟨?_, by omega, by omega, leaf, trivial⟩
        simp only [Shape.height]
        omega
      next above =>
        rw [if_neg above]
        refine ⟨?_, by omega, by omega, trivial, leaf⟩
        simp only [Shape.height]
        omega

variable [LinearOrder Upper]

/-- Whether or not the tree is in search order, a search ends at the interval or at the seat
of its lower bound. -/
theorem itreeLocationLoop_seat (order : Comparators Bound Lower Upper) (lower upper : Bound)
    {fuel : Nat} (linked : Linked tree.links parent shape) (top : shape.top = some id)
    (enough : shape.ids.length ≤ fuel) :
    ∃ found, itreeLocationLoop order tree lower upper fuel id = some found ∧
      found ∈ shape.ids ∧ (matches? order tree found lower upper = true ∨
        shape.seat (lowerKey order tree) (order.lower lower) = some found) := by
  induction shape generalizing parent fuel id with
  | nil => cases top
  | node current left right leftIh rightIh =>
    cases top
    rcases linked with ⟨_, toLeft, toRight, inLeft, inRight⟩
    simp only [ids_node, List.length_append, List.length_cons] at enough
    cases fuel with
    | zero => omega
    | succ fuel =>
      simp only [itreeLocationLoop]
      split
      next hit => exact ⟨current, rfl, by simp, .inl hit⟩
      next miss =>
        split
        next below =>
          have fits : left.ids.length ≤ fuel := by omega
          have points : (tree.node current).left = left.top := toLeft
          have seat : (Shape.node current left right).seat (lowerKey order tree)
              (order.lower lower) =
              (left.seat (lowerKey order tree) (order.lower lower)).or (some current) :=
            if_pos below
          rw [points, seat]
          cases reached : left.top with
          | none =>
            rw [eq_nil_of_top reached]
            exact ⟨current, rfl, by simp, .inr rfl⟩
          | some child =>
            rcases leftIh inLeft reached fits with ⟨found, equal, inside, ended⟩
            refine ⟨found, equal, by simp [inside], ended.imp_right fun seated => ?_⟩
            exact Option.or_eq_some_iff.mpr (.inl seated)
        next above =>
          have fits : right.ids.length ≤ fuel := by omega
          have points : (tree.node current).right = right.top := toRight
          have seat : (Shape.node current left right).seat (lowerKey order tree)
              (order.lower lower) =
              (right.seat (lowerKey order tree) (order.lower lower)).or (some current) :=
            if_neg above
          rw [points, seat]
          cases reached : right.top with
          | none =>
            rw [eq_nil_of_top reached]
            exact ⟨current, rfl, by simp, .inr rfl⟩
          | some child =>
            rcases rightIh inRight reached fits with ⟨found, equal, inside, ended⟩
            refine ⟨found, equal, by simp [inside], ended.imp_right fun seated => ?_⟩
            exact Option.or_eq_some_iff.mpr (.inl seated)

theorem PointerTree.itreeLocation_seat (order : Comparators Bound Lower Upper)
    (pointers : PointerTree tree shape) (lower upper : Bound) :
    (itreeLocation order tree lower upper = some none ∧ shape = .nil) ∨
    ∃ found, itreeLocation order tree lower upper = some (some found) ∧ found ∈ shape.ids ∧
      (matches? order tree found lower upper = true ∨
        shape.seat (lowerKey order tree) (order.lower lower) = some found) := by
  simp only [itreeLocation, pointers.root]
  cases reached : shape.top with
  | none => exact .inl ⟨rfl, eq_nil_of_top reached⟩
  | some root =>
    have enough : shape.ids.length ≤ tree.bound := Nat.le_succ_of_le pointers.length_le
    rcases itreeLocationLoop_seat order lower upper pointers.linked reached enough with
      ⟨found, equal, inside, ended⟩
    exact .inr ⟨found, by simp [equal], inside, ended⟩

/-- The new interval finds a child beside it, or the root above it: no subtree but the whole
tree becomes higher. -/
def InsertBalances (order : Comparators Bound Lower Upper) (tree : Itree Bound Data)
    (lower upper : Bound) : Prop :=
  ∀ seat, itreeLocation order tree lower upper = some (some seat) →
    matches? order tree seat lower upper = false →
    (tree.node seat).left ≠ none ∨ (tree.node seat).right ≠ none ∨
      (tree.node seat).parent = none

variable [DecidableEq Bound]

/-- Inserting an interval where no subtree but the whole tree becomes higher keeps the tree
balanced. -/
theorem Balanced.gzochidItreeInsert (pointers : PointerTree tree shape)
    (balanced : Balanced tree shape) (data : Data)
    (keeps : InsertBalances order tree lower upper) :
    ∃ result shape', IntervalTree.gzochidItreeInsert order tree lower upper data = some result ∧
      PointerTree result shape' ∧ Balanced result shape' := by
  simp only [IntervalTree.gzochidItreeInsert]
  rcases pointers.itreeLocation_seat order lower upper with
    ⟨nowhere, _⟩ | ⟨found, located, inside, ended⟩
  · rw [nowhere]
    refine ⟨_, _, rfl, pointerTree_first tree lower upper data, ?_⟩
    simp [Balanced, itreeNodeNew, Shape.height]
  · rw [located]
    cases hit : matches? order tree found lower upper with
    | true =>
      simp only [hit, if_true]
      refine ⟨_, _, rfl, pointers.replace found data, balanced.congr fun other member => ?_⟩
      simp only [tree.modify_data_node found data]
    | false =>
      have seated := ended.resolve_left (by simp [hit])
      have attached : PointerTree (IntervalTree.attach order tree found lower upper data)
          (attachedShape order tree shape found lower upper data) := pointers.attach seated
      have kept : Balanced (IntervalTree.attach order tree found lower upper data)
          (attachedShape order tree shape found lower upper data) :=
        balanced.attach pointers seated (keeps found located hit)
      have seatInside : found ∈ (attachedShape order tree shape found lower upper data).ids :=
        mem_ids_place.mpr (.inr inside)
      simp only [hit, Bool.false_eq_true, if_false, IntervalTree.itreeRetraceInsert,
        if_neg (kept.within seatInside)]
      rcases attached.updateMaxUppers order seatInside with
        ⟨result, equal, alike, same, _⟩
      exact ⟨result, _, equal, alike.pointerTree attached, kept.congr fun id _ => same id⟩

end Insert

/-- The tree is balanced but for a subtree with a node at its top, which is one level lower
than the nodes above it record; the number is the height that they account for. -/
inductive Lowered (tree : Itree Bound Data) (id : NodeId) : Shape NodeId → Nat → Prop where
  | here {shape : Shape NodeId} : shape.top = some id → Balanced tree shape →
      Lowered tree id shape (shape.height + 1)
  | left {top : NodeId} {left right : Shape NodeId} {height : Nat} :
      Lowered tree id left height → Balanced tree right →
      (tree.node top).balanceFactor = (height : Int) - right.height →
      -1 ≤ (tree.node top).balanceFactor → (tree.node top).balanceFactor ≤ 1 →
      Lowered tree id (.node top left right) (max height right.height + 1)
  | right {top : NodeId} {left right : Shape NodeId} {height : Nat} :
      Lowered tree id right height → Balanced tree left →
      (tree.node top).balanceFactor = (left.height : Int) - height →
      -1 ≤ (tree.node top).balanceFactor → (tree.node top).balanceFactor ≤ 1 →
      Lowered tree id (.node top left right) (max left.height height + 1)

namespace Lowered

variable {height : Nat}

theorem member (lowered : Lowered tree id shape height) : id ∈ shape.ids := by
  induction lowered with
  | here top => exact mem_ids_of_top top
  | left _ _ _ _ _ ih => simp [ih]
  | right _ _ _ _ _ ih => simp [ih]

theorem at_top (lowered : Lowered tree id shape height) (nodup : shape.ids.Nodup)
    (top : shape.top = some id) : Balanced tree shape ∧ height = shape.height + 1 := by
  cases lowered with
  | here _ balanced => exact ⟨balanced, rfl⟩
  | left inLeft =>
    cases top
    exact absurd inLeft.member (nodup_node.mp nodup).2.2.1
  | right inRight =>
    cases top
    exact absurd inRight.member (nodup_node.mp nodup).2.2.2.1

end Lowered

variable {above : Option NodeId}

/-- The child that takes the place of a node is one level lower than it was. -/
theorem Balanced.cut (linked : Linked base.links above shape) (nodup : shape.ids.Nodup)
    (balanced : Balanced base shape)
    (same : ∀ id ∈ shape.ids, (tree.node id).balanceFactor = (base.node id).balanceFactor)
    (member : target ∈ shape.ids)
    (single : (base.node target).left = none ∨ (base.node target).right = none)
    (replaced : newChild base target = some child) :
    Lowered tree child (shape.cut target) shape.height := by
  induction shape generalizing above with
  | nil => cases member
  | node top left right leftIh rightIh =>
    rcases linked with ⟨_, toLeft, toRight, inLeft, inRight⟩
    rcases nodup_node.mp nodup with ⟨leftNodup, rightNodup, notLeft, notRight, apart⟩
    rcases balanced with ⟨recorded, low, high, leftBalanced, rightBalanced⟩
    have here := same top (by simp)
    have leftSame : ∀ id ∈ left.ids, (tree.node id).balanceFactor = (base.node id).balanceFactor :=
      fun id member => same id (by simp [member])
    have rightSame : ∀ id ∈ right.ids,
        (tree.node id).balanceFactor = (base.node id).balanceFactor :=
      fun id member => same id (by simp [member])
    simp only [Shape.cut]
    split
    next isTarget =>
      subst isTarget
      rw [newChild_eq] at replaced
      have points : (base.node top).left = left.top := toLeft
      have pointsRight : (base.node top).right = right.top := toRight
      cases left with
      | nil =>
        rw [points, top_nil, Option.none_or, pointsRight] at replaced
        have lowered := Lowered.here replaced (rightBalanced.congr rightSame)
        rwa [Shape.height, Shape.height, Nat.zero_max]
      | node below first second =>
        rw [points, top_node, Option.some_or] at replaced
        have noRight := single.resolve_left (by simp [points])
        have nothing := eq_nil_of_top (pointsRight.symm.trans noRight)
        subst nothing
        have lowered : Lowered tree child (.node below first second) _ :=
          .here replaced (leftBalanced.congr leftSame)
        rwa [Shape.height, Shape.height, Nat.max_zero]
    next other =>
      simp only [ids_node, List.mem_append, List.mem_cons] at member
      rcases member with inside | isTop | inside
      · rw [cut_of_not_mem (apart target inside)]
        exact .left (leftIh inLeft leftNodup leftBalanced leftSame inside)
          (rightBalanced.congr rightSame) (here.trans recorded) (here ▸ low) (here ▸ high)
      · exact absurd isTop.symm other
      · have outside : target ∉ left.ids := fun member => apart target member inside
        rw [cut_of_not_mem outside]
        exact .right (rightIh inRight rightNodup rightBalanced rightSame inside)
          (leftBalanced.congr leftSame) (here.trans recorded) (here ▸ low) (here ▸ high)

/-- A node above a subtree that has become lower, which had the recorded height. -/
theorem settled_here {next : Int → Itree Bound Data} {m n : Nat} {factor side : Int}
    (here : ∀ balance, ((next balance).node id).balanceFactor = balance)
    (keptLeft : ∀ balance, Balanced (next balance) left)
    (keptRight : ∀ balance, Balanced (next balance) right) (recorded : factor = (m : Int) - n)
    (low : -1 ≤ factor) (high : factor ≤ 1)
    (lower : m = left.height + 1 ∧ n = right.height ∧ side = -1 ∨
      m = left.height ∧ n = right.height + 1 ∧ side = 1) (stays : factor ≠ side) :
    (factor = 0 → Balanced (next side) (.node id left right) ∧
      (Shape.node id left right).height = max m n + 1) ∧
    (factor ≠ 0 → Lowered (next 0) id (.node id left right) (max m n + 1)) := by
  constructor
  · intro level
    refine ⟨.node ((here side).trans (by omega)) (by omega) (by omega) (keptLeft _) (keptRight _),
      ?_⟩
    simp only [Shape.height]
    omega
  · intro leaning
    have total : max m n + 1 = (Shape.node id left right).height + 1 := by
      simp only [Shape.height]
      omega
    rw [total]
    exact .here rfl
      (.node ((here 0).trans (by omega)) (by omega) (by omega) (keptLeft _) (keptRight _))

/-- Settling the parent of a subtree that has become lower: where it was level nothing is left
to do, and where it leaned to that side it has become lower itself. -/
theorem Lowered.settle {parent : NodeId} {height : Nat} (linked : Linked tree.links above shape)
    (nodup : shape.ids.Nodup) (outside : ∀ other, above = some other → other ∉ shape.ids)
    (lowered : Lowered tree id shape height) (up : (tree.node id).parent = some parent)
    (member : parent ∈ shape.ids)
    (stays : (tree.node parent).balanceFactor ≠ heavyBeside tree parent id) :
    ((tree.node parent).balanceFactor = 0 → Balanced (tree.modify parent fun node =>
        { node with balanceFactor := heavyBeside tree parent id }) shape ∧
      shape.height = height) ∧
    ((tree.node parent).balanceFactor ≠ 0 →
      Lowered (tree.modify parent fun node => { node with balanceFactor := 0 }) parent shape
        height) := by
  have elsewhere : ∀ (balance : Int) (sub : Shape NodeId), parent ∉ sub.ids → Balanced tree sub →
      Balanced (tree.modify parent fun node => { node with balanceFactor := balance }) sub := by
    intro balance sub notThere balanced
    apply balanced.congr
    intro other inside
    have different : other ≠ parent := fun same => notThere (same ▸ inside)
    rw [Itree.modify_node_of_ne tree _ different]
  have set := fun balance : Int => congrArg Node.balanceFactor (Itree.modify_node_self tree parent
    fun node => { node with balanceFactor := balance })
  induction lowered generalizing above with
  | @here shape top _ =>
    have above : above = some parent := by
      cases shape with
      | nil => cases top
      | node root first second =>
        cases top
        exact linked.1.symm.trans up
    exact absurd member (outside parent above)
  | @left top left right height lowered others recorded low high ih =>
    have whole := linked
    rcases linked with ⟨_, toLeft, toRight, inLeft, inRight⟩
    rcases nodup_node.mp nodup with ⟨leftNodup, rightNodup, notLeft, notRight, apart⟩
    rcases inLeft.parent_cases leftNodup lowered.member with
      ⟨atTop, isTop⟩ | ⟨other, inside, isOther, _⟩
    · have same := Option.some.inj (up.symm.trans isTop)
      subst same
      rcases lowered.at_top leftNodup atTop with ⟨balanced, oneMore⟩
      have notBeside : (tree.node parent).right ≠ some id :=
        whole.left_ne_right nodup (by simp) (toLeft.trans atTop)
      have side : heavyBeside tree parent id = -1 := if_neg notBeside
      rw [side] at stays ⊢
      exact settled_here set (elsewhere · left notLeft balanced)
        (elsewhere · right notRight others) recorded low high (.inl ⟨oneMore, rfl, rfl⟩) stays
    · have same := Option.some.inj (up.symm.trans isOther)
      subst same
      have notTop : top ≠ parent := fun same => notLeft (same ▸ inside)
      have below := ih inLeft leftNodup (fun other same => Option.some.inj same ▸ notLeft) inside
      have keptRight := fun balance => elsewhere balance right (apart parent inside) others
      have here := fun balance : Int => congrArg Node.balanceFactor (Itree.modify_node_of_ne tree
        (fun node => { node with balanceFactor := balance }) notTop)
      constructor
      · intro level
        rcases below.1 level with ⟨balanced, sameHeight⟩
        refine ⟨⟨?_, (here _).symm ▸ low, (here _).symm ▸ high, balanced, keptRight _⟩, ?_⟩
        · rw [here, recorded, sameHeight]
        · simp only [Shape.height, sameHeight]
      · intro leaning
        exact .left (below.2 leaning) (keptRight 0) ((here 0).trans recorded)
          ((here 0).symm ▸ low) ((here 0).symm ▸ high)
  | @right top left right height lowered others recorded low high ih =>
    rcases linked with ⟨_, toLeft, toRight, inLeft, inRight⟩
    rcases nodup_node.mp nodup with ⟨leftNodup, rightNodup, notLeft, notRight, apart⟩
    rcases inRight.parent_cases rightNodup lowered.member with
      ⟨atTop, isTop⟩ | ⟨other, inside, isOther, _⟩
    · have same := Option.some.inj (up.symm.trans isTop)
      subst same
      rcases lowered.at_top rightNodup atTop with ⟨balanced, oneMore⟩
      have side : heavyBeside tree parent id = 1 := if_pos (toRight.trans atTop)
      rw [side] at stays ⊢
      exact settled_here set (elsewhere · left notLeft others)
        (elsewhere · right notRight balanced) recorded low high (.inr ⟨rfl, oneMore, rfl⟩) stays
    · have same := Option.some.inj (up.symm.trans isOther)
      subst same
      have notTop : top ≠ parent := fun same => notRight (same ▸ inside)
      have below := ih inRight rightNodup (fun other same => Option.some.inj same ▸ notRight) inside
      have outsideLeft : parent ∉ left.ids := fun member => apart parent member inside
      have keptLeft := fun balance => elsewhere balance left outsideLeft others
      have here := fun balance : Int => congrArg Node.balanceFactor (Itree.modify_node_of_ne tree
        (fun node => { node with balanceFactor := balance }) notTop)
      constructor
      · intro level
        rcases below.1 level with ⟨balanced, sameHeight⟩
        refine ⟨⟨?_, (here _).symm ▸ low, (here _).symm ▸ high, keptLeft _, balanced⟩, ?_⟩
        · rw [here, recorded, sameHeight]
        · simp only [Shape.height, sameHeight]
      · intro leaning
        exact .right (below.2 leaning) (keptLeft 0) ((here 0).trans recorded)
          ((here 0).symm ▸ low) ((here 0).symm ▸ high)

section Climb

variable [LinearOrder Upper]

/-- The climb after a removal settles one parent after the other. -/
theorem retraceRemoveLoop_balanced (order : Comparators Bound Lower Upper) {fuel height : Nat}
    {start : NodeId} (pointers : PointerTree base shape) (enough : shape.depth id < fuel)
    (alike : Alike base tree) (climb : RemoveClimb base start id)
    (above : ∀ other ∈ shape.ids, shape.depth other < shape.depth id →
      (tree.node other).balanceFactor = (base.node other).balanceFactor)
    (still : ∀ id parent, RemoveClimb base start id → (base.node id).parent = some parent →
      (base.node parent).balanceFactor ≠ heavyBeside base parent id)
    (lowered : Lowered tree id shape height) :
    ∃ result final, retraceRemoveLoop order fuel tree id = some (result, final) ∧
      final ∈ shape.ids ∧ Alike base result ∧ Balanced result shape := by
  have member := lowered.member
  induction fuel generalizing tree id with
  | zero => omega
  | succ fuel ih =>
    simp only [retraceRemoveLoop, alike.parent id]
    cases up : (base.node id).parent with
    | none =>
      rcases pointers.parent_cases member with ⟨_, top⟩ | ⟨_, _, other, _⟩
      · exact ⟨tree, id, rfl, member, alike, (lowered.at_top pointers.nodup top).1⟩
      · rw [up] at other
        cases other
    | some parent =>
      rcases pointers.parent_spec member up with ⟨found, _, higher⟩
      have parentBalance := above parent found higher
      have side : (if decide ((tree.node parent).right = some id) = true then (1 : Int)
          else -1) = heavyBeside tree parent id := by simp [heavyBeside]
      have stays : (tree.node parent).balanceFactor ≠ heavyBeside tree parent id := by
        rw [parentBalance, heavyBeside_of_alike alike]
        exact still id parent climb up
      have settled := lowered.settle (alike.pointerTree pointers).linked pointers.nodup
        (by simp) ((alike.parent id).trans up) found stays
      simp only [side, if_neg stays]
      split
      next level =>
        exact ⟨_, id, rfl, member, alike.trans (.modify_balance tree parent _), (settled.1 level).1⟩
      next leaning =>
        have laterAlike := alike.trans (.modify_balance tree parent 0)
        rw [laterAlike.parent id, up]
        apply ih (by omega) laterAlike
          (.up climb up (by rw [← parentBalance]; exact leaning)) ?_ (settled.2 leaning) found
        intro other inside higherStill
        have different : other ≠ parent := fun same => by
          subst same
          omega
        rw [Itree.modify_node_of_ne tree _ different]
        exact above other inside (by omega)

end Climb

section Remove

variable [LinearOrder Lower] [LinearOrder Upper] {order : Comparators Bound Lower Upper}
  {lower upper : Bound}

/-- The node that is taken out is the whole tree, or it has a child that takes its place and no
parent asks the retrace for a rotation. -/
def RemoveBalances (order : Comparators Bound Lower Upper) (tree : Itree Bound Data)
    (lower upper : Bound) : Prop :=
  ∀ id target, itreeLocation order tree lower upper = some (some id) →
    matches? order tree id lower upper = true → removalTarget tree id = some target →
    (newChild tree target = none → (tree.node target).parent = none) ∧
    (newChild tree target ≠ none → ∀ node parent, RemoveClimb tree target node →
      (tree.node node).parent = some parent →
      (tree.node parent).balanceFactor ≠ heavyBeside tree parent node)

omit [LinearOrder Lower] [LinearOrder Upper] in
/-- Nothing is left when the only node is taken out. -/
theorem PointerTree.cut_root (pointers : PointerTree tree shape) (member : target ∈ shape.ids)
    (root : (tree.node target).parent = none) (alone : newChild tree target = none) :
    shape.cut target = .nil := by
  rw [newChild_eq, Option.or_eq_none_iff] at alone
  rcases pointers.parent_cases member with ⟨_, top⟩ | ⟨_, _, up, _⟩
  · cases shape with
    | nil => rfl
    | node first left right =>
      cases top
      rcases pointers.linked with ⟨_, toLeft, toRight, _, _⟩
      have emptyLeft := eq_nil_of_top (toLeft.symm.trans alone.1)
      have emptyRight := eq_nil_of_top (toRight.symm.trans alone.2)
      subst emptyLeft emptyRight
      exact if_pos rfl
  · rw [root] at up
    cases up

variable [DecidableEq Bound]

/-- Removing an interval whose node is replaced by a child, without a rotation, keeps the tree
balanced. -/
theorem Balanced.gzochidItreeRemove (pointers : PointerTree tree shape)
    (balanced : Balanced tree shape) (keeps : RemoveBalances order tree lower upper) :
    ∃ result shape', IntervalTree.gzochidItreeRemove order tree lower upper = some result ∧
      PointerTree result shape' ∧ Balanced result shape' := by
  simp only [IntervalTree.gzochidItreeRemove]
  rcases pointers.itreeLocation_seat order lower upper with
    ⟨nowhere, empty⟩ | ⟨id, located, inside, _⟩
  · rw [nowhere]
    exact ⟨tree, shape, rfl, pointers, balanced⟩
  · rw [located]
    cases hit : matches? order tree id lower upper with
    | false => exact ⟨tree, shape, by simp [hit], pointers, balanced⟩
    | true =>
      simp only [hit, if_true]
      rcases pointers.removalTarget_single order inside with ⟨target, inTarget, equal, single⟩
      rcases keeps id target located hit equal with ⟨alone, still⟩
      have kept : PointerTree (IntervalTree.taken tree id target) (shape.cut target) :=
        pointers.taken inTarget single
      have sameChild : newChild (swapValues tree id target) target = newChild tree target := by
        simp only [newChild, swapValues_node]
      rw [equal]
      simp only [sameChild]
      cases replaced : newChild tree target with
      | none =>
        refine ⟨_, _, rfl, kept, ?_⟩
        rw [pointers.cut_root inTarget (alone replaced) replaced]
        trivial
      | some child =>
        have quiet := still_taken pointers inTarget replaced id (still (by simp [replaced]))
        have childInside := child_mem_cut pointers inTarget replaced single
        have sameBalance : ∀ other ∈ shape.ids,
            ((IntervalTree.taken tree id target).node other).balanceFactor =
              (tree.node other).balanceFactor :=
          fun other member => taken_balance pointers inTarget member
        have lowered := balanced.cut pointers.linked pointers.nodup sameBalance inTarget single
          replaced
        rcases retraceRemoveLoop_balanced order kept
            (Nat.lt_of_succ_lt (kept.depth_lt_bound childInside)) (.refl _) .start
            (fun _ _ _ => rfl) quiet lowered with
          ⟨climbed, final, climbs, finalInside, alike, climbedBalanced⟩
        have climbedPointers := alike.pointerTree kept
        rcases climbedPointers.updateMaxUppers order finalInside with
          ⟨result, settled, laterAlike, same, _⟩
        refine ⟨result, _, ?_, laterAlike.pointerTree climbedPointers,
          climbedBalanced.congr fun id _ => same id⟩
        change IntervalTree.itreeRetraceRemove order (IntervalTree.taken tree id target) child =
          some result
        simp only [IntervalTree.itreeRetraceRemove, climbs, settled]

end Remove

section Runs

variable [LinearOrder Lower] [LinearOrder Upper] [DecidableEq Bound]
  {order : Comparators Bound Lower Upper} {garbage : Node Bound Data}
  {trace : List (Call Bound Data × Unit)}

/-- The calls that keep a tree balanced. -/
def CallBalances (order : Comparators Bound Lower Upper) (tree : Itree Bound Data) :
    Call Bound Data → Prop
  | .insert lower upper _ => InsertBalances order tree lower upper
  | .remove lower upper => RemoveBalances order tree lower upper

/-- The pointers form a tree in which every node records the difference of the heights of its
subtrees, at most one. -/
def IsAvl (tree : Itree Bound Data) : Prop := ∃ shape, PointerTree tree shape ∧ Balanced tree shape

omit [DecidableEq Bound] [LinearOrder Lower] [LinearOrder Upper] in
theorem isAvl_new (garbage : Node Bound Data) : IsAvl (gzochidItreeNew garbage) :=
  ⟨.nil, ⟨rfl, trivial, List.nodup_nil, by simp⟩, trivial⟩

theorem IsAvl.itreeStep (avl : IsAvl tree) {call : Call Bound Data}
    (keeps : CallBalances order tree call) :
    ∃ result, IntervalTree.itreeStep order tree call = some (result, ()) ∧ IsAvl result := by
  rcases avl with ⟨shape, pointers, balanced⟩
  cases call with
  | insert lower upper data =>
    rcases balanced.gzochidItreeInsert pointers data keeps with
      ⟨result, shape', equal, kept, stays⟩
    exact ⟨result, by simp [IntervalTree.itreeStep, equal], shape', kept, stays⟩
  | remove lower upper =>
    rcases balanced.gzochidItreeRemove pointers keeps with
      ⟨result, shape', equal, kept, stays⟩
    exact ⟨result, by simp [IntervalTree.itreeStep, equal], shape', kept, stays⟩

/-- After every sequence of calls that keep it balanced the tree is an AVL tree, and the next
such call returns. -/
theorem itree_is_avl
    (run : Run (itreeStep order) (CallBalances order) (gzochidItreeNew garbage) trace tree) :
    IsAvl tree ∧ ∀ call, CallBalances order tree call → (itreeStep order tree call).isSome := by
  have avl : IsAvl tree := by
    apply run.invariant (fun _ tree => IsAvl tree) (isAvl_new garbage)
    intro trace tree call next observation _ avl keeps taken
    rcases avl.itreeStep keeps with ⟨result, equal, kept⟩
    rw [equal] at taken
    injection taken with pair
    injection pair with same _
    exact same ▸ kept
  refine ⟨avl, fun call keeps => ?_⟩
  rcases avl.itreeStep keeps with ⟨result, equal, _⟩
  simp [equal]

theorem itree_is_avl_after_removal :
    IsAvl (natural [.insert 10 11 1, .insert 5 6 2, .remove 10 11]) := by
  have first : CallBalances naturalOrder (natural []) (.insert 10 11 1) := by
    intro seat located
    cases located
  have second : CallBalances naturalOrder (natural [.insert 10 11 1]) (.insert 5 6 2) := by
    intro seat located _
    have there : itreeLocation naturalOrder (natural [.insert 10 11 1]) 5 6 = some (some 0) := rfl
    have same := Option.some.inj (Option.some.inj (there.symm.trans located))
    subst same
    exact .inr (.inr rfl)
  have third : CallBalances naturalOrder (natural [.insert 10 11 1, .insert 5 6 2])
      (.remove 10 11) := by
    intro id target located _ equal
    have there : itreeLocation naturalOrder (natural [.insert 10 11 1, .insert 5 6 2]) 10 11 =
        some (some 0) := rfl
    have same := Option.some.inj (Option.some.inj (there.symm.trans located))
    subst same
    have itself : removalTarget (natural [.insert 10 11 1, .insert 5 6 2]) 0 = some 0 := rfl
    have same := Option.some.inj (itself.symm.trans equal)
    subst same
    refine ⟨fun _ => rfl, fun _ node parent climb up => ?_⟩
    have stays : node = 0 := climb.eq_start fun _ points => by cases points
    rw [stays] at up
    cases up
  exact (itree_is_avl (.snoc (.snoc (.snoc .nil first rfl) second rfl) third rfl)).1

/-- Three intervals in ascending order: the root has two levels on its right and none on its
left. -/
theorem itree_unbalanced : ∃ trace tree,
    Run (itreeStep naturalOrder) anyAction (gzochidItreeNew (itreeNodeNew 0 0 0)) trace tree ∧
    ¬IsAvl tree := by
  have run : exec (itreeStep naturalOrder) (gzochidItreeNew (itreeNodeNew 0 0 0))
      [.insert 1 2 1, .insert 3 4 2, .insert 5 6 3] =
      some ([(.insert 1 2 1, ()), (.insert 3 4 2, ()), (.insert 5 6 3, ())],
        natural [.insert 1 2 1, .insert 3 4 2, .insert 5 6 3]) := rfl
  refine ⟨_, _, run_of_exec run, ?_⟩
  rintro ⟨shape, pointers, balanced⟩
  have root := pointers.root
  cases shape with
  | nil => cases root
  | node top left right =>
      cases root
      rcases pointers.linked with ⟨_, toLeft, toRight, _, inRight⟩
      have empty := eq_nil_of_top toLeft.symm
      subst empty
      cases right with
      | nil => cases toRight
      | node next inner outer =>
          cases toRight
          have deeper := height_pos inRight.2.2.1 (by decide)
          have recorded : (-1 : Int) = _ := balanced.1
          simp only [Shape.height] at recorded
          omega

end Runs

end Gzochi.IntervalTree
