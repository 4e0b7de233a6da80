import Mathlib.Data.List.Nodup
import Mathlib.Order.Lattice

/-!
# Binary trees behind pointers

A binary tree kept as nodes that point to their parent and to their children.  The
`Shape` of such a tree says which node is where; `Linked` says that the pointers
spell out a given shape.  Changes of pointers are proved to spell out a changed
shape, and searches follow the shape.
-/

namespace Gzochi.Lib

open List

universe u v

/-- The arrangement of nodes in a binary tree. -/
inductive Shape (Id : Type u) where
  | nil
  | node (id : Id) (left right : Shape Id)

/-- The pointers of each node. -/
structure Links (Id : Type u) where
  parent : Id → Option Id
  left : Id → Option Id
  right : Id → Option Id

variable {Id : Type u} {Key : Type v}

namespace Shape

/-- The node at the top. -/
def top : Shape Id → Option Id
  | nil => none
  | node id _ _ => some id

/-- The nodes from left to right. -/
def ids : Shape Id → List Id
  | nil => []
  | node id left right => left.ids ++ id :: right.ids

@[simp] theorem top_nil : (nil : Shape Id).top = none := rfl

@[simp] theorem top_node (id : Id) (left right : Shape Id) :
    (node id left right).top = some id := rfl

@[simp] theorem ids_nil : (nil : Shape Id).ids = [] := rfl

@[simp] theorem ids_node (id : Id) (left right : Shape Id) :
    (node id left right).ids = left.ids ++ id :: right.ids := rfl

/-- The number of levels. -/
def height : Shape Id → Nat
  | nil => 0
  | node _ left right => max left.height right.height + 1

variable {shape : Shape Id}

theorem forall_ids_node {top : Id} {left right : Shape Id} {property : Id → Prop} :
    (∀ id ∈ (node top left right).ids, property id) ↔
      (∀ id ∈ left.ids, property id) ∧ property top ∧ ∀ id ∈ right.ids, property id := by
  simp [or_imp, forall_and]

theorem mem_ids_of_top {id : Id} (top : shape.top = some id) : id ∈ shape.ids := by
  cases shape with
  | nil => cases top
  | node other left right =>
    cases top
    simp

theorem eq_nil_of_top (top : shape.top = none) : shape = nil := by
  cases shape with
  | nil => rfl
  | node => cases top

/-- What distinct nodes mean at the top of a shape. -/
theorem nodup_node {id : Id} {left right : Shape Id} : (node id left right).ids.Nodup ↔
      left.ids.Nodup ∧ right.ids.Nodup ∧ id ∉ left.ids ∧ id ∉ right.ids ∧
        ∀ other ∈ left.ids, other ∉ right.ids := by
  simp only [ids_node, nodup_append, nodup_cons, mem_cons]
  constructor
  · rintro ⟨first, ⟨fresh, second⟩, apart⟩
    refine ⟨first, second, ?_, fresh, ?_⟩
    · intro member
      exact apart id member id (.inl rfl) rfl
    · intro other member again
      exact apart other member other (.inr again) rfl
  · rintro ⟨first, second, outside, fresh, apart⟩
    refine ⟨first, ⟨fresh, second⟩, ?_⟩
    rintro one inLeft two (same | inRight) equal
    · exact outside (same ▸ equal ▸ inLeft)
    · exact apart one inLeft (equal ▸ inRight)

/-- Search order: smaller keys to the left, equal and greater keys to the right. -/
def Ordered [LT Key] [LE Key] (key : Id → Key) : Shape Id → Prop
  | nil => True
  | node id left right =>
      (∀ other ∈ left.ids, key other < key id) ∧
      (∀ other ∈ right.ids, key id ≤ key other) ∧
      left.Ordered key ∧ right.Ordered key

theorem Ordered.congr [LT Key] [LE Key] {key other : Id → Key} (ordered : shape.Ordered key)
    (agree : ∀ id ∈ shape.ids, other id = key id) :
    shape.Ordered other := by
  induction shape with
  | nil => trivial
  | node id left right leftIh rightIh =>
    simp only [ids_node, mem_append, mem_cons] at agree
    have here := agree id (.inr (.inl rfl))
    refine ⟨?_, ?_, leftIh ordered.2.2.1 fun id member => agree id (.inl member),
      rightIh ordered.2.2.2 fun id member => agree id (.inr (.inr member))⟩
    · intro below member
      rw [here, agree below (.inl member)]
      exact ordered.1 below member
    · intro below member
      rw [here, agree below (.inr (.inr member))]
      exact ordered.2.1 below member

end Shape

/-- The pointers of the nodes of a shape agree with it; the parent of the topmost
node is given. -/
def Linked (links : Links Id) : Option Id → Shape Id → Prop
  | _, .nil => True
  | parent, .node id left right =>
      links.parent id = parent ∧ links.left id = left.top ∧ links.right id = right.top ∧
      Linked links (some id) left ∧ Linked links (some id) right

namespace Linked

variable {links changed : Links Id} {parent : Option Id} {shape : Shape Id} {id child : Id}

variable (linked : Linked links parent shape)
include linked

/-- Only the pointers of the nodes of the shape matter. -/
theorem congr (agree : ∀ id ∈ shape.ids, changed.parent id = links.parent id ∧
      changed.left id = links.left id ∧ changed.right id = links.right id) :
    Linked changed parent shape := by
  induction shape generalizing parent with
  | nil => trivial
  | node id left right leftIh rightIh =>
    simp only [Shape.ids_node, mem_append, mem_cons] at agree
    rcases linked with ⟨up, toLeft, toRight, inLeft, inRight⟩
    rcases agree id (.inr (.inl rfl)) with ⟨sameUp, sameLeft, sameRight⟩
    exact ⟨sameUp.trans up, sameLeft.trans toLeft, sameRight.trans toRight,
      leftIh inLeft fun id member => agree id (.inl member),
      rightIh inRight fun id member => agree id (.inr (.inr member))⟩

theorem parent_top (top : shape.top = some child) : links.parent child = parent := by
  cases shape with
  | nil => cases top
  | node =>
    cases top
    exact linked.1

/-- A child is in the shape and points back. -/
theorem child_mem (member : id ∈ shape.ids)
    (points : links.left id = some child ∨ links.right id = some child) :
    child ∈ shape.ids ∧ links.parent child = some id := by
  induction shape generalizing parent with
  | nil => cases member
  | node other left right leftIh rightIh =>
    rcases linked with ⟨_, toLeft, toRight, inLeft, inRight⟩
    simp only [Shape.ids_node, mem_append, mem_cons] at member ⊢
    rcases member with member | same | member
    · exact (leftIh inLeft member).imp_left .inl
    · subst same
      rw [toLeft, toRight] at points
      rcases points with points | points
      · exact ⟨.inl (Shape.mem_ids_of_top points), inLeft.parent_top points⟩
      · exact ⟨.inr (.inr (Shape.mem_ids_of_top points)), inRight.parent_top points⟩
    · exact (rightIh inRight member).imp_left fun found => .inr (.inr found)

theorem left_child (member : id ∈ shape.ids) (points : links.left id = some child) :
    child ∈ shape.ids ∧ links.parent child = some id := linked.child_mem member (.inl points)

theorem right_child (member : id ∈ shape.ids) (points : links.right id = some child) :
    child ∈ shape.ids ∧ links.parent child = some id := linked.child_mem member (.inr points)

/-- No node is both children of another one. -/
theorem left_ne_right (nodup : shape.ids.Nodup)
    (member : id ∈ shape.ids) (points : links.left id = some child) :
    links.right id ≠ some child := by
  induction shape generalizing parent with
  | nil => cases member
  | node other left right leftIh rightIh =>
    rcases linked with ⟨_, toLeft, toRight, inLeft, inRight⟩
    rcases Shape.nodup_node.mp nodup with ⟨leftNodup, rightNodup, _, _, apart⟩
    simp only [Shape.ids_node, mem_append, mem_cons] at member
    rcases member with member | same | member
    · exact leftIh inLeft leftNodup member
    · subst same
      intro again
      exact apart child (Shape.mem_ids_of_top (toLeft.symm.trans points))
        (Shape.mem_ids_of_top (toRight.symm.trans again))
    · exact rightIh inRight rightNodup member

end Linked

section Depth

variable [DecidableEq Id] {links : Links Id} {parent : Option Id} {shape : Shape Id} {id : Id}

namespace Shape

/-- How far below the top a node is. -/
def depth : Shape Id → Id → Nat
  | nil, _ => 0
  | node top left right, id =>
      if id = top then 0
      else if id ∈ left.ids then left.depth id + 1
      else right.depth id + 1

theorem depth_lt {shape : Shape Id} {id : Id} (member : id ∈ shape.ids) :
    shape.depth id < shape.ids.length := by
  induction shape with
  | nil => cases member
  | node top left right leftIh rightIh =>
    simp only [ids_node, mem_append, mem_cons] at member
    simp only [depth, ids_node, length_append, length_cons]
    split
    next => omega
    next other =>
      split
      next inLeft =>
        have := leftIh inLeft
        omega
      next outside =>
        rcases member with inLeft | same | inRight
        · exact absurd inLeft outside
        · exact absurd same other
        · have := rightIh inRight
          omega

end Shape

/-- A node is the topmost one, or its parent points to it and lies higher. -/
theorem Linked.parent_cases (linked : Linked links parent shape) (nodup : shape.ids.Nodup)
    (member : id ∈ shape.ids) :
    (shape.top = some id ∧ links.parent id = parent) ∨
    ∃ above ∈ shape.ids, links.parent id = some above ∧
      (links.left above = some id ∨ links.right above = some id) ∧
      shape.depth above < shape.depth id := by
  induction shape generalizing parent with
  | nil => cases member
  | node top left right leftIh rightIh =>
    rcases linked with ⟨up, toLeft, toRight, inLeft, inRight⟩
    rcases Shape.nodup_node.mp nodup with ⟨leftNodup, rightNodup, notLeft, notRight, apart⟩
    simp only [Shape.ids_node, mem_append, mem_cons] at member
    rcases member with member | same | member
    · right
      have different : id ≠ top := fun same => notLeft (same ▸ member)
      rcases leftIh inLeft leftNodup member with
        ⟨atTop, points⟩ | ⟨above, found, points, back, higher⟩
      · refine ⟨top, by simp, points, .inl (toLeft.trans atTop), ?_⟩
        simp [Shape.depth, different, member]
      · have other : above ≠ top := fun same => notLeft (same ▸ found)
        refine ⟨above, by simp [found], points, back, ?_⟩
        simp [Shape.depth, different, member, other, found, higher]
    · subst same
      exact .inl ⟨rfl, up⟩
    · right
      have different : id ≠ top := fun same => notRight (same ▸ member)
      have outside : id ∉ left.ids := fun inLeft => apart id inLeft member
      rcases rightIh inRight rightNodup member with
        ⟨atTop, points⟩ | ⟨above, found, points, back, higher⟩
      · refine ⟨top, by simp, points, .inr (toRight.trans atTop), ?_⟩
        simp [Shape.depth, different, outside]
      · have other : above ≠ top := fun same => notRight (same ▸ found)
        have elsewhere : above ∉ left.ids := fun inLeft => apart above inLeft found
        refine ⟨above, by simp [found], points, back, ?_⟩
        simp [Shape.depth, different, outside, other, elsewhere, higher]

end Depth

section Place

variable [LinearOrder Key] {links changed : Links Id} {parent : Option Id}
  {key : Id → Key} {fresh location : Id} {shape : Shape Id}

namespace Shape

/-- Add a node below the last one met when searching for its key. -/
def place (key : Id → Key) (fresh : Id) : Shape Id → Shape Id
  | nil => node fresh nil nil
  | node id left right =>
      if key fresh < key id then node id (left.place key fresh) right
      else node id left (right.place key fresh)

/-- The last node met when searching for a key. -/
def seat (key : Id → Key) (value : Key) : Shape Id → Option Id
  | nil => none
  | node id left right =>
      if value < key id then (left.seat key value).or (some id)
      else (right.seat key value).or (some id)

theorem mem_ids_place {other : Id} :
    other ∈ (shape.place key fresh).ids ↔ other = fresh ∨ other ∈ shape.ids := by
  induction shape with
  | nil => simp [place]
  | node id left right leftIh rightIh =>
    simp only [place]
    split
    next => simp only [ids_node, mem_append, mem_cons, leftIh, or_assoc]
    next =>
      simp only [ids_node, mem_append, mem_cons, rightIh]
      constructor
      · rintro (first | second | third | fourth) <;> simp [*]
      · rintro (first | second | third | fourth) <;> simp [*]

theorem nodup_place (nodup : shape.ids.Nodup) (outside : fresh ∉ shape.ids) :
    (shape.place key fresh).ids.Nodup := by
  induction shape with
  | nil => simp [place]
  | node id left right leftIh rightIh =>
    rcases nodup_node.mp nodup with ⟨leftNodup, rightNodup, notLeft, notRight, apart⟩
    simp only [ids_node, mem_append, mem_cons, not_or] at outside
    rcases outside with ⟨outLeft, other, outRight⟩
    simp only [place]
    split
    next =>
      refine nodup_node.mpr ⟨leftIh leftNodup outLeft, rightNodup, ?_, notRight, ?_⟩
      · simp [mem_ids_place, notLeft, Ne.symm other]
      · intro below member
        rcases mem_ids_place.mp member with same | member
        · exact same ▸ outRight
        · exact apart below member
    next =>
      refine nodup_node.mpr ⟨leftNodup, rightIh rightNodup outRight, notLeft, ?_, ?_⟩
      · simp [mem_ids_place, notRight, Ne.symm other]
      · intro below member again
        rcases mem_ids_place.mp again with same | again
        · exact outLeft (same ▸ member)
        · exact apart below member again

theorem Ordered.place (ordered : shape.Ordered key) : (shape.place key fresh).Ordered key := by
  induction shape with
  | nil => simp [Shape.place, Ordered]
  | node id left right leftIh rightIh =>
    rcases ordered with ⟨smaller, greater, leftOrdered, rightOrdered⟩
    simp only [Shape.place]
    split
    next below =>
      refine ⟨?_, greater, leftIh leftOrdered, rightOrdered⟩
      intro other member
      rcases mem_ids_place.mp member with same | member
      · exact same ▸ below
      · exact smaller other member
    next above =>
      refine ⟨smaller, ?_, leftOrdered, rightIh rightOrdered⟩
      intro other member
      rcases mem_ids_place.mp member with same | member
      · exact same ▸ not_lt.mp above
      · exact greater other member

theorem top_place (seated : shape.seat key (key fresh) = some location) :
    (shape.place key fresh).top = shape.top := by
  cases shape with
  | nil => cases seated
  | node id left right =>
    simp only [place]
    split
    next => rfl
    next => rfl

variable {value : Key}

theorem seat_mem (seated : shape.seat key value = some location) : location ∈ shape.ids := by
  induction shape with
  | nil => cases seated
  | node id left right leftIh rightIh =>
    simp only [seat] at seated
    simp only [ids_node, mem_append, mem_cons]
    split at seated
    next =>
      rcases Option.or_eq_some_iff.mp seated with found | ⟨_, here⟩
      · exact .inl (leftIh found)
      · injection here with same
        exact .inr (.inl same.symm)
    next =>
      rcases Option.or_eq_some_iff.mp seated with found | ⟨_, here⟩
      · exact .inr (.inr (rightIh found))
      · injection here with same
        exact .inr (.inl same.symm)

theorem seat_congr {other : Id → Key} (agree : ∀ id ∈ shape.ids, other id = key id) :
    shape.seat other value = shape.seat key value := by
  induction shape with
  | nil => rfl
  | node id left right leftIh rightIh =>
    simp only [ids_node, mem_append, mem_cons] at agree
    simp only [seat]
    rw [agree id (.inr (.inl rfl)), leftIh fun id member => agree id (.inl member),
      rightIh fun id member => agree id (.inr (.inr member))]

theorem eq_nil_of_seat (unseated : shape.seat key value = none) : shape = nil := by
  cases shape with
  | nil => rfl
  | node id left right =>
    simp only [seat] at unseated
    split at unseated
    next => simp at unseated
    next => simp at unseated

end Shape

/-- The seat of a key has no child where the key belongs. -/
theorem Linked.seat_free {value : Key} (linked : Linked links parent shape)
    (seated : shape.seat key value = some location) :
    if value < key location then links.left location = none
    else links.right location = none := by
  induction shape generalizing parent with
  | nil => cases seated
  | node current left right leftIh rightIh =>
    rcases linked with ⟨_, toLeft, toRight, inLeft, inRight⟩
    simp only [Shape.seat] at seated
    split at seated
    next below =>
      rcases Option.or_eq_some_iff.mp seated with found | ⟨empty, here⟩
      · exact leftIh inLeft found
      · cases here
        rw [if_pos below, toLeft, Shape.eq_nil_of_seat empty]
        rfl
    next above =>
      rcases Option.or_eq_some_iff.mp seated with found | ⟨empty, here⟩
      · exact rightIh inRight found
      · cases here
        rw [if_neg above, toRight, Shape.eq_nil_of_seat empty]
        rfl

/-- The pointers of a new node are its own, and its seat points to it. -/
structure Seated (links changed : Links Id) (key : Id → Key) (fresh location : Id) :
    Prop where
  parent : changed.parent fresh = some location
  left : changed.left fresh = none
  right : changed.right fresh = none
  seatParent : changed.parent location = links.parent location
  seatLeft : changed.left location =
    if key fresh < key location then some fresh else links.left location
  seatRight : changed.right location =
    if key fresh < key location then links.right location else some fresh
  frame : ∀ id, id ≠ fresh → id ≠ location → changed.parent id = links.parent id ∧
    changed.left id = links.left id ∧ changed.right id = links.right id

/-- Adding a node behind the pointers adds it to the shape. -/
theorem Linked.place (linked : Linked links parent shape) (nodup : shape.ids.Nodup)
    (outside : fresh ∉ shape.ids) (seated : shape.seat key (key fresh) = some location)
    (pointers : Seated links changed key fresh location) :
    Linked changed parent (shape.place key fresh) := by
  induction shape generalizing parent with
  | nil => cases seated
  | node id left right leftIh rightIh =>
    rcases linked with ⟨up, toLeft, toRight, inLeft, inRight⟩
    rcases Shape.nodup_node.mp nodup with ⟨leftNodup, rightNodup, notLeft, notRight, apart⟩
    simp only [Shape.ids_node, mem_append, mem_cons, not_or] at outside
    rcases outside with ⟨outLeft, other, outRight⟩
    simp only [Shape.seat] at seated
    simp only [Shape.place]
    split at seated
    next below =>
      rw [if_pos below]
      have rightKept : location ∉ right.ids → Linked changed (some id) right := by
        intro elsewhere
        exact inRight.congr fun below member => pointers.frame below
          (fun same => outRight (same ▸ member)) (fun same => elsewhere (same ▸ member))
      rcases Option.or_eq_some_iff.mp seated with found | ⟨empty, here⟩
      · have member := Shape.seat_mem found
        have frame := pointers.frame id (Ne.symm other) (fun same => notLeft (same ▸ member))
        exact ⟨frame.1.trans up, (frame.2.1.trans toLeft).trans (Shape.top_place found).symm,
          frame.2.2.trans toRight, leftIh inLeft leftNodup outLeft found,
          rightKept (apart location member)⟩
      · cases here
        have nothing := Shape.eq_nil_of_seat empty
        subst nothing
        refine ⟨pointers.seatParent.trans up, ?_, ?_, ?_, rightKept notRight⟩
        · rw [pointers.seatLeft, if_pos below]
          rfl
        · rw [pointers.seatRight, if_pos below, toRight]
        · exact ⟨pointers.parent, pointers.left, pointers.right, trivial, trivial⟩
    next above =>
      rw [if_neg above]
      have leftKept : location ∉ left.ids → Linked changed (some id) left := by
        intro elsewhere
        exact inLeft.congr fun below member => pointers.frame below
          (fun same => outLeft (same ▸ member)) (fun same => elsewhere (same ▸ member))
      rcases Option.or_eq_some_iff.mp seated with found | ⟨empty, here⟩
      · have member := Shape.seat_mem found
        have frame := pointers.frame id (Ne.symm other) (fun same => notRight (same ▸ member))
        exact ⟨frame.1.trans up, frame.2.1.trans toLeft,
          (frame.2.2.trans toRight).trans (Shape.top_place found).symm,
          leftKept fun inLeft => apart location inLeft member,
          rightIh inRight rightNodup outRight found⟩
      · cases here
        have nothing := Shape.eq_nil_of_seat empty
        subst nothing
        refine ⟨pointers.seatParent.trans up, ?_, ?_, leftKept notLeft, ?_⟩
        · rw [pointers.seatLeft, if_neg above, toLeft]
        · rw [pointers.seatRight, if_neg above]
          rfl
        · exact ⟨pointers.parent, pointers.left, pointers.right, trivial, trivial⟩

end Place

section Cut

variable [DecidableEq Id] {links changed : Links Id} {parent child : Option Id}
  {target : Id} {shape : Shape Id}

namespace Shape

/-- Take out a node; its left subtree, or else its right one, takes its place. -/
def cut (target : Id) : Shape Id → Shape Id
  | nil => nil
  | node id left right =>
      if id = target then
        match left with
        | nil => right
        | node _ _ _ => left
      else
        node id (left.cut target) (right.cut target)

theorem cut_of_not_mem (outside : target ∉ shape.ids) : shape.cut target = shape := by
  induction shape with
  | nil => rfl
  | node id left right leftIh rightIh =>
    simp only [ids_node, mem_append, mem_cons, not_or] at outside
    simp only [cut]
    rw [if_neg (Ne.symm outside.2.1), leftIh outside.1, rightIh outside.2.2]

theorem ids_cut_sublist : (shape.cut target).ids.Sublist shape.ids := by
  induction shape with
  | nil => exact List.Sublist.refl _
  | node id left right leftIh rightIh =>
    simp only [cut]
    split
    next =>
      cases left with
      | nil => exact sublist_cons_self id right.ids
      | node top below after => exact sublist_append_left _ _
    next => exact leftIh.append (rightIh.cons_cons id)

theorem mem_of_mem_cut {id : Id} (member : id ∈ (shape.cut target).ids) : id ∈ shape.ids :=
  ids_cut_sublist.subset member

theorem Ordered.cut [LT Key] [LE Key] {key : Id → Key} (ordered : shape.Ordered key) :
    (shape.cut target).Ordered key := by
  induction shape with
  | nil => trivial
  | node id left right leftIh rightIh =>
    rcases ordered with ⟨smaller, greater, leftOrdered, rightOrdered⟩
    simp only [Shape.cut]
    split
    next =>
      cases left with
      | nil => exact rightOrdered
      | node => exact leftOrdered
    next =>
      exact ⟨fun other member => smaller other (mem_of_mem_cut member),
        fun other member => greater other (mem_of_mem_cut member),
        leftIh leftOrdered, rightIh rightOrdered⟩

/-- The node taken out is the only one missing, when it had at most one child. -/
theorem mem_ids_cut (linked : Linked links parent shape) (nodup : shape.ids.Nodup)
    (single : links.left target = none ∨ links.right target = none) {id : Id} :
    id ∈ (shape.cut target).ids ↔ id ∈ shape.ids ∧ id ≠ target := by
  induction shape generalizing parent with
  | nil => simp [cut]
  | node top left right leftIh rightIh =>
    rcases linked with ⟨_, toLeft, toRight, inLeft, inRight⟩
    rcases nodup_node.mp nodup with ⟨leftNodup, rightNodup, notLeft, notRight, apart⟩
    simp only [cut]
    split
    next same =>
      subst same
      have others : ∀ id, id ∈ left.ids ∨ id ∈ right.ids → id ≠ top := by
        rintro id (member | member) same
        · exact notLeft (same ▸ member)
        · exact notRight (same ▸ member)
      cases left with
      | nil =>
        have := others id
        simp only [ids_node, ids_nil, nil_append, mem_cons]
        tauto
      | node below first second =>
        rcases single with none | none
        · rw [toLeft] at none
          cases none
        · have nothing := eq_nil_of_top (toRight.symm.trans none)
          subst nothing
          have := others id
          rw [ids_node top]
          simp only [ids_nil, mem_append, mem_cons, not_mem_nil, or_false]
          tauto
    next different =>
      simp only [ids_node, mem_append, mem_cons, leftIh inLeft leftNodup,
        rightIh inRight rightNodup]
      constructor
      · rintro (⟨member, other⟩ | same | ⟨member, other⟩)
        · exact ⟨.inl member, other⟩
        · exact ⟨.inr (.inl same), same ▸ different⟩
        · exact ⟨.inr (.inr member), other⟩
      · rintro ⟨member | same | member, other⟩
        · exact .inl ⟨member, other⟩
        · exact .inr (.inl same)
        · exact .inr (.inr ⟨member, other⟩)

end Shape

/-- The pointers of the nodes around one that is taken out: pointers to it lead to
its child, and the child points to its parent. -/
structure Unlinked (links changed : Links Id) (target : Id) (child : Option Id)
    (ids : List Id) : Prop where
  left : ∀ id ∈ ids, id ≠ target →
    changed.left id = if links.left id = some target then child else links.left id
  right : ∀ id ∈ ids, id ≠ target →
    changed.right id = if links.right id = some target then child else links.right id
  parent : ∀ id ∈ ids, id ≠ target →
    changed.parent id = if child = some id then links.parent target else links.parent id

theorem Unlinked.mono {ids fewer : List Id} (pointers : Unlinked links changed target child ids)
    (fewerIds : ∀ id ∈ fewer, id ∈ ids) : Unlinked links changed target child fewer where
  left id member := pointers.left id (fewerIds id member)
  right id member := pointers.right id (fewerIds id member)
  parent id member := pointers.parent id (fewerIds id member)

namespace Linked

/-- Elsewhere nothing changes. -/
theorem unlinked_elsewhere (linked : Linked links parent shape)
    (pointers : Unlinked links changed target child shape.ids)
    (outside : target ∉ shape.ids) (apart : ∀ id ∈ shape.ids, child ≠ some id) :
    Linked changed parent shape := by
  refine linked.congr fun id member => ?_
  have different : id ≠ target := fun same => outside (same ▸ member)
  refine ⟨?_, ?_, ?_⟩
  · rw [pointers.parent id member different, if_neg (apart id member)]
  · rw [pointers.left id member different, if_neg]
    intro points
    exact outside (linked.left_child member points).1
  · rw [pointers.right id member different, if_neg]
    intro points
    exact outside (linked.right_child member points).1

/-- The subtree that moves up hangs from the parent of the node taken out. -/
theorem unlinked_child (linked : Linked links (some target) shape) (nodup : shape.ids.Nodup)
    (pointers : Unlinked links changed target shape.top shape.ids)
    (outside : target ∉ shape.ids) : Linked changed (links.parent target) shape := by
  cases shape with
  | nil => trivial
  | node id left right =>
    rcases linked with ⟨_, toLeft, toRight, inLeft, inRight⟩
    rcases Shape.nodup_node.mp nodup with ⟨leftNodup, rightNodup, notLeft, notRight, apart⟩
    simp only [Shape.ids_node, mem_append, mem_cons, not_or] at outside
    have here : id ∈ (Shape.node id left right).ids := by simp
    have different : id ≠ target := Ne.symm outside.2.1
    refine ⟨?_, ?_, ?_, ?_, ?_⟩
    · rw [pointers.parent id here different, if_pos (Shape.top_node id left right)]
    · rw [pointers.left id here different, toLeft, if_neg]
      exact fun top => outside.1 (Shape.mem_ids_of_top top)
    · rw [pointers.right id here different, toRight, if_neg]
      exact fun top => outside.2.2 (Shape.mem_ids_of_top top)
    · refine inLeft.unlinked_elsewhere (pointers.mono fun id member => by simp [member])
        outside.1 fun other member top => ?_
      injection top with same
      exact notLeft (same ▸ member)
    · refine inRight.unlinked_elsewhere (pointers.mono fun id member => by simp [member])
        outside.2.2 fun other member top => ?_
      injection top with same
      exact notRight (same ▸ member)

/-- Taking a node out behind the pointers takes it out of the shape. -/
theorem cut (linked : Linked links parent shape) (nodup : shape.ids.Nodup)
    (member : target ∈ shape.ids)
    (single : links.left target = none ∨ links.right target = none)
    (isChild : child = (links.left target).or (links.right target))
    (pointers : Unlinked links changed target child shape.ids) :
    Linked changed parent (shape.cut target) ∧
      (shape.cut target).top = if shape.top = some target then child else shape.top := by
  induction shape generalizing parent with
  | nil => cases member
  | node id left right leftIh rightIh =>
    rcases linked with ⟨up, toLeft, toRight, inLeft, inRight⟩
    rcases Shape.nodup_node.mp nodup with ⟨leftNodup, rightNodup, notLeft, notRight, apart⟩
    have toLeftIds : ∀ other ∈ left.ids, other ∈ (Shape.node id left right).ids :=
      fun other found => by simp [found]
    have toRightIds : ∀ other ∈ right.ids, other ∈ (Shape.node id left right).ids :=
      fun other found => by simp [found]
    have here : id ∈ (Shape.node id left right).ids := by simp
    simp only [Shape.cut]
    split
    next same =>
      subst same
      rw [toLeft, toRight] at isChild
      simp only [Shape.top_node, if_true]
      cases left with
      | nil =>
        rw [Shape.top_nil, Option.none_or] at isChild
        subst isChild
        exact ⟨up ▸ inRight.unlinked_child rightNodup (pointers.mono toRightIds) notRight, rfl⟩
      | node below first second =>
        rw [Shape.top_node, Option.some_or] at isChild
        subst isChild
        exact ⟨up ▸ inLeft.unlinked_child leftNodup (pointers.mono toLeftIds) notLeft, rfl⟩
    next different =>
      simp only [Shape.top_node, Option.some.injEq, if_neg different, and_true]
      simp only [Shape.ids_node, mem_append, mem_cons] at member
      rcases member with inside | same | inside
      · have childInside : ∀ other, child = some other → other ∈ left.ids := by
          intro other same
          rw [isChild] at same
          exact (inLeft.child_mem inside ((Option.or_eq_some_iff.mp same).imp_right And.right)).1
        rcases leftIh inLeft leftNodup inside (pointers.mono toLeftIds) with ⟨kept, top⟩
        have outside := apart target inside
        rw [Shape.cut_of_not_mem outside]
        refine ⟨?_, ?_, ?_, kept, ?_⟩
        · rw [pointers.parent id here different, up, if_neg]
          exact fun same => notLeft (childInside id same)
        · rw [pointers.left id here different, toLeft, top]
        · rw [pointers.right id here different, toRight, if_neg]
          exact fun same => outside (Shape.mem_ids_of_top same)
        · exact inRight.unlinked_elsewhere (pointers.mono toRightIds) outside
            fun other found same => apart other (childInside other same) found
      · exact absurd same.symm different
      · have childInside : ∀ other, child = some other → other ∈ right.ids := by
          intro other same
          rw [isChild] at same
          exact (inRight.child_mem inside ((Option.or_eq_some_iff.mp same).imp_right And.right)).1
        rcases rightIh inRight rightNodup inside (pointers.mono toRightIds) with ⟨kept, top⟩
        have outside : target ∉ left.ids := fun again => apart target again inside
        rw [Shape.cut_of_not_mem outside]
        refine ⟨?_, ?_, ?_, ?_, kept⟩
        · rw [pointers.parent id here different, up, if_neg]
          exact fun same => notRight (childInside id same)
        · rw [pointers.left id here different, toLeft, if_neg]
          exact fun same => outside (Shape.mem_ids_of_top same)
        · rw [pointers.right id here different, toRight, top]
        · exact inLeft.unlinked_elsewhere (pointers.mono toLeftIds) outside
            fun other found same => apart other found (childInside other same)

end Linked

end Cut

section Predecessor

/-- A shape occurs inside another one. -/
inductive Shape.Occurs (sub : Shape Id) : Shape Id → Prop where
  | here : Occurs sub sub
  | left {id : Id} {left right : Shape Id} : Occurs sub left → Occurs sub (.node id left right)
  | right {id : Id} {left right : Shape Id} : Occurs sub right → Occurs sub (.node id left right)

namespace Shape.Occurs

variable {sub shape : Shape Id}

variable (occurs : Occurs sub shape)
include occurs

theorem mem_ids {id : Id} (member : id ∈ sub.ids) : id ∈ shape.ids := by
  induction occurs with
  | here => exact member
  | left _ ih => simp [ih]
  | right _ ih => simp [ih]

theorem nodup (nodup : shape.ids.Nodup) : sub.ids.Nodup := by
  induction occurs with
  | here => exact nodup
  | left _ ih => exact ih (nodup_node.mp nodup).1
  | right _ ih => exact ih (nodup_node.mp nodup).2.1

theorem ordered [LT Key] [LE Key] {key : Id → Key}
    (ordered : shape.Ordered key) : sub.Ordered key := by
  induction occurs with
  | here => exact ordered
  | left _ ih => exact ih ordered.2.2.1
  | right _ ih => exact ih ordered.2.2.2

theorem linked {links : Links Id} {parent : Option Id}
    (linked : Linked links parent shape) : ∃ parent, Linked links parent sub := by
  induction occurs generalizing parent with
  | here => exact ⟨parent, linked⟩
  | left _ ih => exact ih linked.2.2.2.1
  | right _ ih => exact ih linked.2.2.2.2

end Shape.Occurs

/-- Every node of a shape is the top of a shape inside it. -/
theorem Shape.exists_occurs {shape : Shape Id} {id : Id} (member : id ∈ shape.ids) :
    ∃ left right, Occurs (.node id left right) shape := by
  induction shape with
  | nil => cases member
  | node top left right leftIh rightIh =>
    simp only [ids_node, mem_append, mem_cons] at member
    rcases member with member | same | member
    · rcases leftIh member with ⟨first, second, occurs⟩
      exact ⟨first, second, .left occurs⟩
    · subst same
      exact ⟨left, right, .here⟩
    · rcases rightIh member with ⟨first, second, occurs⟩
      exact ⟨first, second, .right occurs⟩

/-- A node may take over the key of a node to its left that is greater than every
other key there, when that one goes. -/
theorem Shape.Ordered.cut_predecessor [DecidableEq Id] [LinearOrder Key]
    {key moved : Id → Key} {shape left right : Shape Id} {id target : Id}
    (ordered : shape.Ordered key) (nodup : shape.ids.Nodup)
    (occurs : Occurs (.node id left right) shape) (member : target ∈ left.ids)
    (greatest : ∀ other ∈ left.ids, other ≠ target → key other < key target)
    (unique : ∀ other ∈ (left.cut target).ids, other ≠ target)
    (here : moved id = key target) (frame : ∀ other, other ≠ id → moved other = key other) :
    (shape.cut target).Ordered moved := by
  have inSub : target ∈ (Shape.node id left right).ids := by simp [member]
  induction occurs with
  | here =>
    rcases ordered with ⟨smaller, greater, leftOrdered, rightOrdered⟩
    rcases nodup_node.mp nodup with ⟨_, _, notLeft, notRight, apart⟩
    have different : id ≠ target := fun same => notLeft (same ▸ member)
    simp only [Shape.cut, if_neg different]
    rw [cut_of_not_mem (apart target member)]
    refine ⟨?_, ?_, ?_, ?_⟩
    · intro other found
      have inLeft := mem_of_mem_cut found
      rw [here, frame other fun same => notLeft (same ▸ inLeft)]
      exact greatest other inLeft (unique other found)
    · intro other found
      rw [here, frame other fun same => notRight (same ▸ found)]
      exact (smaller target member).le.trans (greater other found)
    · exact leftOrdered.cut.congr fun other found =>
        frame other fun same => notLeft (same ▸ mem_of_mem_cut found)
    · exact rightOrdered.congr fun other found =>
        frame other fun same => notRight (same ▸ found)
  | @left top first second inside ih =>
    rcases ordered with ⟨smaller, greater, leftOrdered, rightOrdered⟩
    rcases nodup_node.mp nodup with ⟨leftNodup, _, notLeft, _, apart⟩
    have idInside : id ∈ first.ids := inside.mem_ids (by simp)
    have targetInside : target ∈ first.ids := inside.mem_ids inSub
    have topKept : moved top = key top := frame top fun same => notLeft (same ▸ idInside)
    simp only [Shape.cut, if_neg (show top ≠ target from fun same => notLeft (same ▸ targetInside))]
    rw [cut_of_not_mem (apart target targetInside)]
    refine ⟨?_, ?_, ih leftOrdered leftNodup, ?_⟩
    · intro other found
      rw [topKept]
      by_cases same : other = id
      · rw [same, here]
        exact smaller target targetInside
      · rw [frame other same]
        exact smaller other (mem_of_mem_cut found)
    · intro other found
      rw [topKept, frame other fun same => apart id idInside (same ▸ found)]
      exact greater other found
    · exact rightOrdered.congr fun other found =>
        frame other fun same => apart id idInside (same ▸ found)
  | @right top first second inside ih =>
    rcases ordered with ⟨smaller, greater, leftOrdered, rightOrdered⟩
    rcases nodup_node.mp nodup with ⟨_, rightNodup, _, notRight, apart⟩
    have idInside : id ∈ second.ids := inside.mem_ids (by simp)
    have targetInside : target ∈ second.ids := inside.mem_ids inSub
    have topKept : moved top = key top := frame top fun same => notRight (same ▸ idInside)
    simp only [Shape.cut,
      if_neg (show top ≠ target from fun same => notRight (same ▸ targetInside))]
    rw [cut_of_not_mem fun again => apart target again targetInside]
    refine ⟨?_, ?_, ?_, ih rightOrdered rightNodup⟩
    · intro other found
      rw [topKept, frame other fun same => apart other found (same ▸ idInside)]
      exact smaller other found
    · intro other found
      rw [topKept]
      by_cases same : other = id
      · rw [same, here]
        exact greater target targetInside
      · rw [frame other same]
        exact greater other (mem_of_mem_cut found)
    · exact leftOrdered.congr fun other found =>
        frame other fun same => apart other found (same ▸ idInside)

end Predecessor

end Gzochi.Lib
