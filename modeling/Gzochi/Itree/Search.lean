import Gzochi.Itree.Retrace
import Mathlib.Algebra.GroupWithZero.Nat

/-!
# Searching for intersections

`gzochid_itree_search` and `gzochid_itree_search_interval` walk the tree from a stack
of nodes.  They show every interval that meets the wanted point or interval to a search
function, which may end the search, and do not look below a node whose maximum upper
bound says that nothing can be found there.
-/

namespace Gzochi.IntervalTree

open Gzochi.Lib List

universe u v w x y

variable {Bound : Type u} {Lower : Type v} {Upper : Type w} {Data : Type x} {Result : Type y}

/-- A search function with its user data: what it makes of an interval, and whether it
ends the search. -/
abbrev SearchFunc (Bound : Type u) (Data : Type x) (Result : Type y) :=
  Result → Node Bound Data → Result × Bool

/-- Prepend a child to the stack unless it is `NULL`. -/
def push (child : Option NodeId) (stack : List NodeId) : List NodeId :=
  match child with
  | none => stack
  | some child => child :: stack

/-- Show a node to the search function if it meets what is searched for. -/
def showNode (meets : Node Bound Data → Bool) (searchFunc : SearchFunc Bound Data Result)
    (result : Result) (node : Node Bound Data) : Result × Bool :=
  if meets node then searchFunc result node else (result, false)

/-- The loop of both searches. -/
def searchLoop (tree : Itree Bound Data) (meets pruned : Node Bound Data → Bool)
    (searchFunc : SearchFunc Bound Data Result) :
    Nat → List NodeId → Result → Option Result
  | _, [], result => some result
  | 0, _ :: _, _ => none
  | fuel + 1, id :: stack, result =>
      let node := tree.node id
      let shown := showNode meets searchFunc result node
      if shown.2 then some shown.1
      else if pruned node then searchLoop tree meets pruned searchFunc fuel stack shown.1
      else
        searchLoop tree meets pruned searchFunc fuel
          (push node.left (push node.right stack)) shown.1

variable [LinearOrder Lower] [LinearOrder Upper] (order : Comparators Bound Lower Upper)

/-- The point lies in the interval of the node. -/
def meetsPoint (point : Bound) (node : Node Bound Data) : Bool :=
  decide (order.lower node.lower ≤ order.lower point) &&
    decide (order.upper point ≤ order.upper node.upper)

def prunedPoint (point : Bound) (node : Node Bound Data) : Bool :=
  decide (order.upper node.maxUpper < order.upper point)

/-- `gzochid_itree_search`. -/
def gzochidItreeSearch (tree : Itree Bound Data) (point : Bound)
    (searchFunc : SearchFunc Bound Data Result) (result : Result) : Option Result :=
  searchLoop tree (meetsPoint order point) (prunedPoint order point) searchFunc tree.bound
    (push tree.root []) result

/-- One end of the interval lies in the interval of the node, or it contains that
interval. -/
def meetsInterval (lower upper : Bound) (node : Node Bound Data) : Bool :=
  meetsPoint order lower node || meetsPoint order upper node ||
    decide (order.lower lower ≤ order.lower node.lower) &&
      decide (order.upper node.upper ≤ order.upper upper)

def prunedInterval (lower upper : Bound) (node : Node Bound Data) : Bool :=
  prunedPoint order lower node && prunedPoint order upper node

/-- `gzochid_itree_search_interval`. -/
def gzochidItreeSearchInterval (tree : Itree Bound Data) (lower upper : Bound)
    (searchFunc : SearchFunc Bound Data Result) (result : Result) : Option Result :=
  searchLoop tree (meetsInterval order lower upper) (prunedInterval order lower upper)
    searchFunc tree.bound (push tree.root []) result

/-! ## What a search shows -/

/-- The nodes a search comes to when its search function does not end it. -/
def visited (tree : Itree Bound Data) (pruned : Node Bound Data → Bool) :
    Shape NodeId → List NodeId
  | .nil => []
  | .node id left right =>
      id :: if pruned (tree.node id) then []
        else visited tree pruned left ++ visited tree pruned right

/-- Show some nodes to a search function until it ends the search. -/
def showAll (tree : Itree Bound Data) (meets : Node Bound Data → Bool)
    (searchFunc : SearchFunc Bound Data Result) : List NodeId → Result → Result
  | [], result => result
  | id :: rest, result =>
      let shown := showNode meets searchFunc result (tree.node id)
      if shown.2 then shown.1 else showAll tree meets searchFunc rest shown.1

/-- The nodes such a search comes to, from the pointers alone. -/
inductive Visited (tree : Itree Bound Data) (pruned : Node Bound Data → Bool) :
    NodeId → Prop where
  | root {id : NodeId} : tree.root = some id → Visited tree pruned id
  | left {id child : NodeId} : Visited tree pruned id → pruned (tree.node id) = false →
      (tree.node id).left = some child → Visited tree pruned child
  | right {id child : NodeId} : Visited tree pruned id → pruned (tree.node id) = false →
      (tree.node id).right = some child → Visited tree pruned child

/-- Where such a search ends with nodes on its stack: the nodes it comes to. -/
inductive Walks (tree : Itree Bound Data) (pruned : Node Bound Data → Bool) :
    List NodeId → List NodeId → Prop where
  | nil : Walks tree pruned [] []
  | pruned {id : NodeId} {stack ids : List NodeId} : pruned (tree.node id) = true →
      Walks tree pruned stack ids → Walks tree pruned (id :: stack) (id :: ids)
  | node {id : NodeId} {stack ids : List NodeId} : pruned (tree.node id) = false →
      Walks tree pruned (push (tree.node id).left (push (tree.node id).right stack)) ids →
      Walks tree pruned (id :: stack) (id :: ids)

/-- The search does not go round in circles. -/
def WalkEnds (tree : Itree Bound Data) (pruned : Node Bound Data → Bool) : Prop :=
  ∃ ids, Walks tree pruned (push tree.root []) ids ∧ ids.length ≤ tree.bound

section Spec

variable {tree : Itree Bound Data} {meets pruned : Node Bound Data → Bool}
  {searchFunc : SearchFunc Bound Data Result} {shape : Shape NodeId}

omit [LinearOrder Lower] [LinearOrder Upper] in
theorem mem_ids_of_visited {id : NodeId} (member : id ∈ visited tree pruned shape) :
    id ∈ shape.ids := by
  induction shape with
  | nil => cases member
  | node top left right leftIh rightIh =>
    simp only [visited, mem_cons] at member
    simp only [Shape.ids_node, mem_append, mem_cons]
    rcases member with same | member
    · exact .inr (.inl same)
    · split at member
      next => cases member
      next =>
        rcases mem_append.mp member with member | member
        · exact .inl (leftIh member)
        · exact .inr (.inr (rightIh member))

omit [LinearOrder Lower] [LinearOrder Upper] in
/-- The children of a visited node that is not pruned are visited. -/
theorem mem_visited_child {parent : Option NodeId} {id child : NodeId}
    (linked : Linked tree.links parent shape) (nodup : shape.ids.Nodup)
    (member : id ∈ visited tree pruned shape) (kept : pruned (tree.node id) = false)
    (points : (tree.node id).left = some child ∨ (tree.node id).right = some child) :
    child ∈ visited tree pruned shape := by
  induction shape generalizing parent with
  | nil => cases member
  | node top left right leftIh rightIh =>
    rcases linked with ⟨_, toLeft, toRight, inLeft, inRight⟩
    rcases Shape.nodup_node.mp nodup with ⟨leftNodup, rightNodup, _, _, _⟩
    have topVisited : ∀ {sub : Shape NodeId}, sub.top = some child →
        child ∈ visited tree pruned sub := by
      intro sub atTop
      cases sub with
      | nil => cases atTop
      | node other first second =>
        cases atTop
        simp [visited]
    simp only [visited, mem_cons] at member ⊢
    right
    rcases member with same | member
    · subst same
      simp only [kept, Bool.false_eq_true, if_false, mem_append]
      rcases points with points | points
      · exact .inl (topVisited (toLeft.symm.trans points))
      · exact .inr (topVisited (toRight.symm.trans points))
    · split at member
      next => cases member
      next open_ =>
        rw [if_neg open_]
        rcases mem_append.mp member with member | member
        · exact mem_append.mpr (.inl (leftIh inLeft leftNodup member))
        · exact mem_append.mpr (.inr (rightIh inRight rightNodup member))

omit [LinearOrder Lower] [LinearOrder Upper] in
theorem Visited.mem {id : NodeId} (pointers : PointerTree tree shape)
    (visit : Visited tree pruned id) : id ∈ visited tree pruned shape := by
  induction visit with
  | root atRoot =>
    have atTop := pointers.root.symm.trans atRoot
    cases shape with
    | nil => cases atTop
    | node other left right =>
      cases atTop
      simp [visited]
  | left _ kept points ih =>
    exact mem_visited_child pointers.linked pointers.nodup ih kept (.inl points)
  | right _ kept points ih =>
    exact mem_visited_child pointers.linked pointers.nodup ih kept (.inr points)

/-- The number of nodes of some shapes. -/
def total (shapes : List (Shape NodeId)) : Nat :=
  (shapes.map fun shape => shape.ids.length).sum

omit [LinearOrder Lower] [LinearOrder Upper] in
theorem filterMap_top_cons (child : Option NodeId) (shape : Shape NodeId)
    (shapes : List (Shape NodeId)) (atTop : child = shape.top) :
    push child (shapes.filterMap Shape.top) = (shape :: shapes).filterMap Shape.top := by
  subst atTop
  cases shape with
  | nil => rfl
  | node => rfl

omit [LinearOrder Lower] [LinearOrder Upper] in
/-- A search with some shapes on its stack shows their nodes one shape after the
other. -/
theorem searchLoop_spec {fuel : Nat} (shapes : List (Shape NodeId)) (result : Result)
    (linked : ∀ shape ∈ shapes, ∃ parent, Linked tree.links parent shape)
    (enough : total shapes ≤ fuel) :
    searchLoop tree meets pruned searchFunc fuel (shapes.filterMap Shape.top) result =
      some (showAll tree meets searchFunc (shapes.flatMap (visited tree pruned)) result) := by
  induction fuel generalizing shapes result with
  | zero =>
    induction shapes with
    | nil => rfl
    | cons shape rest ih =>
      cases shape with
      | nil =>
        exact ih (fun shape member => linked shape (by simp [member]))
          (by simpa [total] using enough)
      | node id left right => simp [total] at enough
  | succ fuel ih =>
    induction shapes with
    | nil => rfl
    | cons shape rest restIh =>
      cases shape with
      | nil =>
        exact restIh (fun shape member => linked shape (by simp [member]))
          (by simpa [total] using enough)
      | node id left right =>
        rcases linked (.node id left right) (by simp) with
          ⟨parent, _, toLeft, toRight, inLeft, inRight⟩
        have restLinked : ∀ shape ∈ rest, ∃ parent, Linked tree.links parent shape :=
          fun shape member => linked shape (by simp [member])
        have fits : total rest ≤ fuel := by
          simp only [total, map_cons, sum_cons, Shape.ids_node,
            length_append, length_cons] at enough
          simp only [total]
          omega
        simp only [filterMap_cons_some (Shape.top_node id left right),
          flatMap_cons, visited, cons_append, searchLoop, showAll]
        split
        next => rfl
        next =>
          split
          next => rw [ih rest _ restLinked fits, nil_append]
          next =>
            have points : (tree.node id).left = left.top := toLeft
            have pointsRight : (tree.node id).right = right.top := toRight
            rw [filterMap_top_cons _ right rest pointsRight,
              filterMap_top_cons _ left (right :: rest) points, ih]
            · simp only [flatMap_cons, append_assoc]
            · intro shape member
              simp only [mem_cons] at member
              rcases member with same | same | member
              · exact ⟨some id, same ▸ inLeft⟩
              · exact ⟨some id, same ▸ inRight⟩
              · exact restLinked shape member
            · simp only [total, map_cons, sum_cons, Shape.ids_node,
                length_append, length_cons] at enough ⊢
              omega

omit [LinearOrder Lower] [LinearOrder Upper] in
/-- A search shows the visited nodes of a sound tree. -/
theorem PointerTree.searchLoop_eq (pointers : PointerTree tree shape) (result : Result) :
    searchLoop tree meets pruned searchFunc tree.bound (push tree.root []) result =
      some (showAll tree meets searchFunc (visited tree pruned shape) result) := by
  have stack : push tree.root [] = [shape].filterMap Shape.top :=
    filterMap_top_cons tree.root shape [] pointers.root
  have enough : total [shape] ≤ tree.bound := by
    have := pointers.length_le
    simp only [total, map_cons, map_nil, sum_cons, sum_nil, Itree.bound]
    omega
  have linked : ∀ other ∈ [shape], ∃ parent, Linked tree.links parent other := by
    intro other member
    exact ⟨none, mem_singleton.mp member ▸ pointers.linked⟩
  rw [stack, searchLoop_spec [shape] result linked enough, flatMap_singleton]

/-- A search function takes intervals with a property, and keeps what it has taken. -/
structure Takes (searchFunc : SearchFunc Bound Data (Option Result))
    (test : Node Bound Data → Bool) : Prop where
  misses : ∀ node, test node = false → searchFunc none node = (none, false)
  finds : ∀ node, test node = true → (searchFunc none node).1 ≠ none
  keeps : ∀ node found, found ≠ none → (searchFunc found node).1 ≠ none

omit [LinearOrder Lower] [LinearOrder Upper] in
/-- A tree in which the visited nodes have their children still, and are pruned no more than
before, has them visited. -/
theorem Visited.transfer {later : Itree Bound Data} (root : later.root = tree.root)
    (kept : ∀ id, Visited tree pruned id →
      (pruned (tree.node id) = false → pruned (later.node id) = false) ∧
      (∀ child, (tree.node id).left = some child → (later.node id).left = some child) ∧
      ∀ child, (tree.node id).right = some child → (later.node id).right = some child)
    {id : NodeId} (visit : Visited tree pruned id) : Visited later pruned id := by
  induction visit with
  | root atRoot => exact .root (root.trans atRoot)
  | left before open_ points ih =>
    exact .left ih ((kept _ before).1 open_) ((kept _ before).2.1 _ points)
  | right before open_ points ih =>
    exact .right ih ((kept _ before).1 open_) ((kept _ before).2.2 _ points)

section Walks

omit [LinearOrder Lower] [LinearOrder Upper]

section Takes

variable {seeking : SearchFunc Bound Data (Option Result)} {test : Node Bound Data → Bool}
  (takes : Takes seeking test)
include takes

theorem Takes.searchLoop_some (fuel : Nat) (stack : List NodeId) {found : Option Result}
    (taken : found ≠ none) : searchLoop tree meets pruned seeking fuel stack found ≠ some none := by
  induction fuel generalizing stack found with
  | zero =>
    cases stack with
    | nil => exact fun nothing => taken (Option.some.inj nothing)
    | cons => nofun
  | succ fuel ih =>
    cases stack with
    | nil => exact fun nothing => taken (Option.some.inj nothing)
    | cons id stack =>
      have kept : (showNode meets seeking found (tree.node id)).1 ≠ none := by
        unfold showNode
        split
        next => exact takes.keeps _ _ taken
        next => exact taken
      rw [searchLoop]
      split
      next => exact fun nothing => kept (Option.some.inj nothing)
      next =>
        split
        next => exact ih _ kept
        next => exact ih _ kept

/-- A search with nodes on its stack comes back with nothing when it ends, and comes to nothing
that its function takes. -/
theorem Takes.searchLoop_none_iff (fuel : Nat) (stack : List NodeId) :
    searchLoop tree meets pruned seeking fuel stack none = some none ↔
      ∃ ids, Walks tree pruned stack ids ∧ ids.length ≤ fuel ∧
        ∀ id ∈ ids, (meets (tree.node id) && test (tree.node id)) = false := by
  induction fuel generalizing stack with
  | zero =>
    cases stack with
    | nil => exact ⟨fun _ => ⟨[], .nil, Nat.le_refl 0, nofun⟩, fun _ => rfl⟩
    | cons id stack =>
      refine ⟨nofun, ?_⟩
      rintro ⟨ids, walks, short, _⟩
      cases walks with | pruned | node => cases short
  | succ fuel ih =>
    cases stack with
    | nil => exact ⟨fun _ => ⟨[], .nil, Nat.zero_le _, nofun⟩, fun _ => rfl⟩
    | cons id stack =>
      have shape : ∀ {ids}, Walks tree pruned (id :: stack) ids → ∃ rest, ids = id :: rest := by
        rintro ids ⟨⟩ <;> exact ⟨_, rfl⟩
      cases seen : meets (tree.node id) && test (tree.node id) with
      | true =>
        obtain ⟨meeting, passes⟩ := (Bool.and_eq_true _ _).mp seen
        have taken : (showNode meets seeking none (tree.node id)).1 ≠ none := by
          rw [showNode, if_pos meeting]
          exact takes.finds _ passes
        constructor
        · intro nothing
          rw [searchLoop] at nothing
          split at nothing
          next => exact absurd (Option.some.inj nothing) taken
          next =>
            split at nothing
            next => exact absurd nothing (takes.searchLoop_some _ _ taken)
            next => exact absurd nothing (takes.searchLoop_some _ _ taken)
        · rintro ⟨ids, walks, _, unseen⟩
          obtain ⟨rest, rfl⟩ := shape walks
          cases seen.symm.trans (unseen id List.mem_cons_self)
      | false =>
        have shown : showNode meets seeking none (tree.node id) = (none, false) := by
          unfold showNode
          split
          next meeting => exact takes.misses _ (by rwa [meeting, Bool.true_and] at seen)
          next => rfl
        simp only [searchLoop, shown, Bool.false_eq_true, if_false]
        cases turns : pruned (tree.node id) with
        | true =>
          rw [if_pos rfl, ih]
          constructor
          · rintro ⟨ids, walks, short, unseen⟩
            exact ⟨id :: ids, .pruned turns walks, Nat.succ_le_succ short,
              List.forall_mem_cons.mpr ⟨seen, unseen⟩⟩
          · rintro ⟨ids, walks, short, unseen⟩
            cases walks with
            | pruned _ walks =>
              exact ⟨_, walks, Nat.le_of_succ_le_succ short, (List.forall_mem_cons.mp unseen).2⟩
            | node open_ => cases turns.symm.trans open_
        | false =>
          rw [if_neg Bool.false_ne_true, ih]
          constructor
          · rintro ⟨ids, walks, short, unseen⟩
            exact ⟨id :: ids, .node turns walks, Nat.succ_le_succ short,
              List.forall_mem_cons.mpr ⟨seen, unseen⟩⟩
          · rintro ⟨ids, walks, short, unseen⟩
            cases walks with
            | pruned closed => cases turns.symm.trans closed
            | node _ walks =>
              exact ⟨_, walks, Nat.le_of_succ_le_succ short, (List.forall_mem_cons.mp unseen).2⟩

end Takes

theorem mem_push {child : Option NodeId} {stack : List NodeId} {id : NodeId} :
    id ∈ push child stack ↔ child = some id ∨ id ∈ stack := by
  cases child <;> simp [push, eq_comm]

theorem Walks.mem_of_stack {stack ids : List NodeId} (walks : Walks tree pruned stack ids)
    {id : NodeId} (inside : id ∈ stack) : id ∈ ids := by
  induction walks with
  | nil => exact inside
  | pruned _ _ ih => exact List.mem_cons.mpr ((List.mem_cons.mp inside).imp_right ih)
  | node _ _ ih =>
    apply List.mem_cons.mpr
    refine (List.mem_cons.mp inside).imp_right fun later => ih ?_
    exact mem_push.mpr (.inr (mem_push.mpr (.inr later)))

/-- It comes to the children of a node that is not pruned. -/
theorem Walks.child {stack ids : List NodeId} (walks : Walks tree pruned stack ids)
    {id child : NodeId} (inside : id ∈ ids) (kept : pruned (tree.node id) = false)
    (points : (tree.node id).left = some child ∨ (tree.node id).right = some child) :
    child ∈ ids := by
  induction walks with
  | nil => cases inside
  | pruned closed _ ih =>
    rcases List.mem_cons.mp inside with same | inside
    · rw [same, closed] at kept
      cases kept
    · exact List.mem_cons_of_mem _ (ih inside)
  | node _ walks ih =>
    apply List.mem_cons_of_mem
    rcases List.mem_cons.mp inside with same | inside
    · subst same
      apply walks.mem_of_stack
      exact mem_push.mpr (points.imp_right fun isRight => mem_push.mpr (.inl isRight))
    · exact ih inside

/-- It comes to nothing but visited nodes. -/
theorem Walks.visited {stack ids : List NodeId} (walks : Walks tree pruned stack ids)
    (starts : ∀ id ∈ stack, Visited tree pruned id) : ∀ id ∈ ids, Visited tree pruned id := by
  induction walks with
  | nil => nofun
  | pruned _ _ ih =>
    obtain ⟨here, later⟩ := List.forall_mem_cons.mp starts
    exact List.forall_mem_cons.mpr ⟨here, ih later⟩
  | node open_ _ ih =>
    obtain ⟨here, later⟩ := List.forall_mem_cons.mp starts
    refine List.forall_mem_cons.mpr ⟨here, ih fun child inside => ?_⟩
    rcases mem_push.mp inside with isLeft | inside
    · exact .left here open_ isLeft
    · rcases mem_push.mp inside with isRight | inside
      · exact .right here open_ isRight
      · exact later child inside

theorem Walks.mem_iff {ids : List NodeId} (walks : Walks tree pruned (push tree.root []) ids)
    {id : NodeId} : id ∈ ids ↔ Visited tree pruned id := by
  constructor
  · apply walks.visited
    intro id inside
    exact .root ((mem_push.mp inside).resolve_right (by simp))
  · intro visit
    induction visit with
    | root atRoot => exact walks.mem_of_stack (mem_push.mpr (.inl atRoot))
    | left _ kept points ih => exact walks.child ih kept (.inl points)
    | right _ kept points ih => exact walks.child ih kept (.inr points)

/-- A search comes back with nothing when it ends, and comes to nothing that its function
takes. -/
theorem Takes.search_none_iff {seeking : SearchFunc Bound Data (Option Result)}
    {test : Node Bound Data → Bool} (takes : Takes seeking test) :
    searchLoop tree meets pruned seeking tree.bound (push tree.root []) none = some none ↔
      WalkEnds tree pruned ∧ ∀ id, Visited tree pruned id → meets (tree.node id) = true →
        test (tree.node id) = false := by
  rw [takes.searchLoop_none_iff]
  constructor
  · rintro ⟨ids, walks, short, unseen⟩
    refine ⟨⟨ids, walks, short⟩, fun id visit meeting => ?_⟩
    have missed := unseen id (walks.mem_iff.mpr visit)
    rwa [meeting, Bool.true_and] at missed
  · rintro ⟨⟨ids, walks, short⟩, unseen⟩
    refine ⟨ids, walks, short, fun id inside => ?_⟩
    cases meeting : meets (tree.node id) with
    | false => rfl
    | true => exact unseen id (walks.mem_iff.mp inside) meeting

end Walks

variable {order}

omit [LinearOrder Lower] in
/-- The topmost node of a covered shape covers all of it. -/
theorem Covered.le_top {parent : Option NodeId} {top id : NodeId}
    (covered : Covered order tree shape) (linked : Linked tree.links parent shape)
    (atTop : shape.top = some top) (member : id ∈ shape.ids) :
    order.upper (tree.node id).maxUpper ≤ order.upper (tree.node top).maxUpper := by
  induction shape generalizing parent top with
  | nil => cases member
  | node current left right leftIh rightIh =>
    cases atTop
    rcases linked with ⟨_, toLeft, toRight, inLeft, inRight⟩
    have here := covered current (by simp)
    simp only [Shape.ids_node, mem_append, mem_cons] at member
    rcases member with member | same | member
    · cases reached : left.top with
      | none => simp [Shape.eq_nil_of_top reached] at member
      | some child =>
        have below := leftIh (fun id member => covered id (by simp [member])) inLeft reached member
        exact below.trans (here.left child (toLeft.trans reached))
    · exact same ▸ le_rfl
    · cases reached : right.top with
      | none => simp [Shape.eq_nil_of_top reached] at member
      | some child =>
        have below := rightIh (fun id member => covered id (by simp [member])) inRight reached
          member
        exact below.trans (here.right child (toRight.trans reached))

omit [LinearOrder Lower] in
/-- A search of a covered tree comes to every node that is not pruned on account of
the maximum upper bound of the node itself. -/
theorem Covered.mem_visited {parent : Option NodeId} {id : NodeId}
    (covered : Covered order tree shape) (linked : Linked tree.links parent shape)
    (member : id ∈ shape.ids)
    (kept : ∀ node, order.upper (tree.node id).maxUpper ≤ order.upper node.maxUpper →
      pruned node = false) : id ∈ visited tree pruned shape := by
  induction shape generalizing parent with
  | nil => cases member
  | node current left right leftIh rightIh =>
    have open_ := kept (tree.node current) (covered.le_top linked rfl member)
    rcases linked with ⟨_, _, _, inLeft, inRight⟩
    simp only [Shape.ids_node, mem_append, mem_cons] at member
    simp only [visited, mem_cons, open_, Bool.false_eq_true, if_false, mem_append]
    rcases member with member | same | member
    · exact .inr (.inl (leftIh (fun id member => covered id (by simp [member])) inLeft member))
    · exact .inl same
    · exact .inr (.inr (rightIh (fun id member => covered id (by simp [member])) inRight member))

omit [LinearOrder Lower] in
/-- A search for a point comes to every node whose upper bound reaches it. -/
theorem Covered.mem_visited_point {parent : Option NodeId} {id : NodeId} {point : Bound}
    (covered : Covered order tree shape) (linked : Linked tree.links parent shape)
    (member : id ∈ shape.ids) (reaches : order.upper point ≤ order.upper (tree.node id).upper) :
    id ∈ visited tree (prunedPoint order point) shape := by
  refine covered.mem_visited linked member fun node above => ?_
  have bounded := (reaches.trans (covered id member).own).trans above
  simp [prunedPoint, bounded]

omit [LinearOrder Lower] in
/-- A search for an interval comes to every node whose upper bound reaches one of its
ends. -/
theorem Covered.mem_visited_interval {parent : Option NodeId} {id : NodeId}
    {lower upper : Bound} (covered : Covered order tree shape)
    (linked : Linked tree.links parent shape) (member : id ∈ shape.ids)
    (reaches : order.upper lower ≤ order.upper (tree.node id).upper ∨
      order.upper upper ≤ order.upper (tree.node id).upper) :
    id ∈ visited tree (prunedInterval order lower upper) shape := by
  refine covered.mem_visited linked member fun node above => ?_
  have bounded := (covered id member).own.trans above
  have unpruned : ∀ point, order.upper point ≤ order.upper (tree.node id).upper →
      prunedPoint order point node = false := by
    intro point within
    simp [prunedPoint, within.trans bounded]
  rcases reaches with first | second
  · rw [prunedInterval, unpruned lower first, Bool.false_and]
  · rw [prunedInterval, unpruned upper second, Bool.and_false]

end Spec

/-! ## Search functions that stop at a property -/

/-- Stop at the first interval with a property, and return its data. -/
def stopAt (test : Node Bound Data → Bool) : SearchFunc Bound Data (Option Data) :=
  fun found node => if test node then (some node.data, true) else (found, false)

omit [LinearOrder Lower] [LinearOrder Upper] in
theorem showAll_stopAt {tree : Itree Bound Data} {meets : Node Bound Data → Bool}
    (test : Node Bound Data → Bool) (ids : List NodeId) :
    showAll tree meets (stopAt test) ids none =
      (ids.find? fun id => meets (tree.node id) && test (tree.node id)).map
        fun id => (tree.node id).data := by
  induction ids with
  | nil => rfl
  | cons id rest ih =>
    by_cases meeting : meets (tree.node id) = true
    · by_cases holds : test (tree.node id) = true
      · simp [showAll, showNode, stopAt, meeting, holds]
      · simp [showAll, showNode, stopAt, meeting, holds] at ih ⊢
        exact ih
    · simp [showAll, showNode, meeting, ih]

omit [LinearOrder Lower] [LinearOrder Upper]

theorem takes_stopAt (test : Node Bound Data → Bool) : Takes (stopAt test) test where
  misses node missed := by simp [stopAt, missed]
  finds node passes := by simp [stopAt, passes]
  keeps node found taken := by
    unfold stopAt
    split
    next => exact Option.some_ne_none _
    next => exact taken

/-- The searches of a tree whose pointers are in order end. -/
theorem PointerTree.walkEnds {tree : Itree Bound Data} {shape : Shape NodeId}
    (pointers : PointerTree tree shape) (pruned : Node Bound Data → Bool) :
    WalkEnds tree pruned := by
  have nothing : searchLoop tree (fun _ => false) pruned (stopAt fun _ => false) tree.bound
      (push tree.root []) none = some none := by
    rw [pointers.searchLoop_eq, showAll_stopAt]
    simp
  exact ((takes_stopAt _).search_none_iff.mp nothing).1

end Gzochi.IntervalTree
