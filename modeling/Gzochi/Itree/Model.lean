import Mathlib.Order.Lattice

/-!
# Interval trees

The interval tree of `itree.c`, as it lies in memory: nodes with parent, left and
right pointers, the bounds of an interval, the greatest upper bound recorded for
the subtree, and an AVL balance factor.  A pointer is `none` when it is `NULL`.

The bounds are opaque pointers.  The two comparison functions given to
`gzochid_itree_new` see them through a key in a linear order each, one for lower
and one for upper bounds, so different pointers may compare equal.

Loops walk along pointers, which need not end when the pointers form a cycle.  A
walk that visits more nodes than were ever allocated goes round in circles; such
a walk, and a use of a `NULL` pointer, has no result.
-/

namespace Gzochi.IntervalTree

universe u v w x

/-- How `lower_comparator` and `upper_comparator` see a bound. -/
structure Comparators (Bound : Type u) (Lower : Type v) (Upper : Type w) where
  lower : Bound → Lower
  upper : Bound → Upper

abbrev NodeId := Nat

structure Node (Bound : Type u) (Data : Type x) where
  parent : Option NodeId
  left : Option NodeId
  right : Option NodeId
  lower : Bound
  upper : Bound
  maxUpper : Bound
  data : Data
  balanceFactor : Int

/-- `gzochid_itree`, with the nodes behind its pointers and the number of nodes
allocated so far. -/
structure Itree (Bound : Type u) (Data : Type x) where
  root : Option NodeId
  node : NodeId → Node Bound Data
  allocated : Nat

variable {Bound : Type u} {Lower : Type v} {Upper : Type w} {Data : Type x}

namespace Itree

def modify (tree : Itree Bound Data) (id : NodeId)
    (change : Node Bound Data → Node Bound Data) : Itree Bound Data :=
  { tree with node := fun other =>
      if other = id then change (tree.node id) else tree.node other }

/-- How many nodes a walk may visit before it must have met one of them twice. -/
def bound (tree : Itree Bound Data) : Nat := tree.allocated + 1

end Itree

/-- `itree_node_new`. -/
def itreeNodeNew (lower upper : Bound) (data : Data) : Node Bound Data where
  parent := none
  left := none
  right := none
  lower := lower
  upper := upper
  maxUpper := upper
  data := data
  balanceFactor := 0

/-- `gzochid_itree_new`.  The nodes are garbage until they are allocated. -/
def gzochidItreeNew (garbage : Node Bound Data) : Itree Bound Data where
  root := none
  node := fun _ => garbage
  allocated := 0

variable [LinearOrder Lower] [LinearOrder Upper] (order : Comparators Bound Lower Upper)

/-- Both comparisons of the bounds of a node with the given ones yield zero. -/
def matches? (tree : Itree Bound Data) (id : NodeId) (lower upper : Bound) : Bool :=
  decide (order.lower (tree.node id).lower = order.lower lower) &&
    decide (order.upper (tree.node id).upper = order.upper upper)

/-- The loop of `itree_location`. -/
def itreeLocationLoop (tree : Itree Bound Data) (lower upper : Bound) :
    Nat → NodeId → Option NodeId
  | 0, _ => none
  | fuel + 1, id =>
      if matches? order tree id lower upper then
        some id
      else if order.lower lower < order.lower (tree.node id).lower then
        match (tree.node id).left with
        | none => some id
        | some left => itreeLocationLoop tree lower upper fuel left
      else
        match (tree.node id).right with
        | none => some id
        | some right => itreeLocationLoop tree lower upper fuel right

/-- `itree_location`; the inner `none` is its `NULL`. -/
def itreeLocation (tree : Itree Bound Data) (lower upper : Bound) :
    Option (Option NodeId) :=
  match tree.root with
  | none => some none
  | some root => (itreeLocationLoop order tree lower upper tree.bound root).map some

/-- The greater of two upper bounds, the first one on a tie. -/
def laterUpper (first second : Bound) : Bound :=
  if order.upper first < order.upper second then second else first

/-- The bound `update_max_upper` computes for a node. -/
def newMaxUpper (tree : Itree Bound Data) (id : NodeId) : Bound :=
  let own := (tree.node id).upper
  let left := match (tree.node id).left with
    | none => own
    | some left => laterUpper order own (tree.node left).maxUpper
  match (tree.node id).right with
  | none => left
  | some right => laterUpper order left (tree.node right).maxUpper

/-- `update_max_upper`, without its result. -/
def updateMaxUpper (tree : Itree Bound Data) (id : NodeId) : Itree Bound Data :=
  tree.modify id fun node => { node with maxUpper := newMaxUpper order tree id }

/-- `itree_rotate`. -/
def itreeRotate (tree : Itree Bound Data) (id : NodeId) (left : Bool) :
    Itree Bound Data :=
  match (tree.node id).parent with
  | none =>
      let attached := tree.modify id fun node =>
        if left then { node with left := tree.root } else { node with left := tree.root }
      let rooted := { attached with root := some id }
      updateMaxUpper order (rooted.modify id fun node => { node with parent := none }) id
  | some parent =>
      let turned :=
        if left then
          (tree.modify parent fun node => { node with right := (tree.node id).left }).modify id
            fun node => { node with left := some parent }
        else
          (tree.modify parent fun node => { node with left := (tree.node id).right }).modify id
            fun node => { node with right := some parent }
      let updated := updateMaxUpper order (updateMaxUpper order turned parent) id
      let placed :=
        match (updated.node parent).parent with
        | none =>
            { updated with root := some id }.modify id fun node => { node with parent := none }
        | some grandparent =>
            let linked := updated.modify grandparent fun node =>
              if node.left = some parent then { node with left := some id }
              else { node with right := some id }
            updateMaxUpper order linked grandparent
      placed.modify parent fun node => { node with parent := some id }

section Loops

variable [DecidableEq Bound]

/-- The loop that ends both retraces: recompute the maximum upper bounds towards
the root until one stays the same pointer. -/
def updateMaxUppers : Nat → Itree Bound Data → Option NodeId → Option (Itree Bound Data)
  | 0, _, _ => none
  | _ + 1, tree, none => some tree
  | fuel + 1, tree, some id =>
      if (tree.node id).maxUpper ≠ newMaxUpper order tree id then
        let updated := updateMaxUpper order tree id
        updateMaxUppers fuel updated (updated.node id).parent
      else
        some tree

/-- The climbing loop of `itree_retrace_insert`, with the node it stops at. -/
def retraceInsertLoop : Nat → Itree Bound Data → NodeId →
    Option (Itree Bound Data × NodeId)
  | 0, _, _ => none
  | fuel + 1, tree, id =>
      match (tree.node id).parent with
      | none => some (tree, id)
      | some parent =>
          let left := decide ((tree.node parent).left = some id)
          let needsRotation : Int := if left then 1 else -1
          let canAbsorb : Int := if left then -1 else 1
          if (tree.node parent).balanceFactor = needsRotation then
            let first :=
              if (tree.node id).balanceFactor = canAbsorb then itreeRotate order tree id left
              else tree
            some (itreeRotate order first parent (!left), id)
          else if (tree.node parent).balanceFactor = canAbsorb then
            some (tree.modify parent fun node => { node with balanceFactor := 0 }, id)
          else
            retraceInsertLoop fuel
              (tree.modify parent fun node => { node with balanceFactor := needsRotation })
              parent

/-- `itree_retrace_insert`. -/
def itreeRetraceInsert (tree : Itree Bound Data) (id : NodeId) :
    Option (Itree Bound Data) :=
  let balance := (tree.node id).balanceFactor
  let climbed :=
    if balance < -1 ∨ balance > 1 then retraceInsertLoop order tree.bound tree id
    else some (tree, id)
  match climbed with
  | none => none
  | some (tree, id) => updateMaxUppers order tree.bound tree (some id)

/-- Attach a new node below the given one, on the side its lower bound asks for, and
adjust the balance factor there. -/
def attach (tree : Itree Bound Data) (id : NodeId) (lower upper : Bound) (data : Data) :
    Itree Bound Data :=
  let fresh := tree.allocated
  let created := { tree with allocated := tree.allocated + 1 }.modify fresh fun _ =>
    { itreeNodeNew lower upper data with parent := some id }
  created.modify id fun node =>
    if order.lower lower < order.lower node.lower then
      { node with left := some fresh, balanceFactor := node.balanceFactor + 1 }
    else
      { node with right := some fresh, balanceFactor := node.balanceFactor - 1 }

/-- `gzochid_itree_insert`. -/
def gzochidItreeInsert (tree : Itree Bound Data) (lower upper : Bound) (data : Data) :
    Option (Itree Bound Data) :=
  match itreeLocation order tree lower upper with
  | none => none
  | some none =>
      some ({ tree with root := some tree.allocated, allocated := tree.allocated + 1 }.modify
        tree.allocated fun _ => itreeNodeNew lower upper data)
  | some (some id) =>
      if matches? order tree id lower upper then
        some (tree.modify id fun node => { node with data := data })
      else
        itreeRetraceInsert order (attach order tree id lower upper data) id

/-- The climbing loop of `itree_retrace_remove`.  A rotation reads the balance
factor of the sibling, which may be `NULL`. -/
def retraceRemoveLoop : Nat → Itree Bound Data → NodeId →
    Option (Itree Bound Data × NodeId)
  | 0, _, _ => none
  | fuel + 1, tree, id =>
      match (tree.node id).parent with
      | none => some (tree, id)
      | some parent =>
          let right := decide ((tree.node parent).right = some id)
          let sibling := if right then (tree.node parent).left else (tree.node parent).right
          let needsRotation : Int := if right then 1 else -1
          let canAbsorb : Int := if right then -1 else 1
          let settle (tree : Itree Bound Data) : Option (Itree Bound Data × NodeId) :=
            if (tree.node parent).balanceFactor = 0 then
              some (tree.modify parent fun node => { node with balanceFactor := needsRotation }, id)
            else
              let tree := tree.modify parent fun node => { node with balanceFactor := 0 }
              match (tree.node id).parent with
              | none => none
              | some next => retraceRemoveLoop fuel tree next
          if (tree.node parent).balanceFactor = needsRotation then
            match sibling with
            | none => none
            | some sibling =>
                let first :=
                  if (tree.node sibling).balanceFactor = canAbsorb then
                    itreeRotate order tree sibling right
                  else tree
                let turned := itreeRotate order first parent (!right)
                if (turned.node sibling).balanceFactor = 0 then some (turned, id)
                else settle turned
          else
            settle tree

/-- `itree_retrace_remove`. -/
def itreeRetraceRemove (tree : Itree Bound Data) (id : NodeId) :
    Option (Itree Bound Data) :=
  match retraceRemoveLoop order tree.bound tree id with
  | none => none
  | some (tree, id) => updateMaxUppers order tree.bound tree (some id)

/-- The rightmost node below a node. -/
def rightmost (tree : Itree Bound Data) : Nat → NodeId → Option NodeId
  | 0, _ => none
  | fuel + 1, id =>
      match (tree.node id).right with
      | none => some id
      | some right => rightmost tree fuel right

/-- The node `gzochid_itree_remove` takes out of the structure: the found one, or
its predecessor when the found one has two children. -/
def removalTarget (tree : Itree Bound Data) (id : NodeId) : Option NodeId :=
  match (tree.node id).left, (tree.node id).right with
  | some left, some _ => rightmost tree tree.bound left
  | _, _ => some id

/-- Copy the interval and the data of the target into the found node. -/
def swapValues (tree : Itree Bound Data) (id target : NodeId) : Itree Bound Data :=
  if target = id then tree
  else
    tree.modify id fun node =>
      { node with
        lower := (tree.node target).lower
        upper := (tree.node target).upper
        data := (tree.node target).data }

/-- The child that takes the place of the target. -/
def newChild (tree : Itree Bound Data) (target : NodeId) : Option NodeId :=
  match (tree.node target).left with
  | some left => some left
  | none => (tree.node target).right

/-- Take the target out: its child, if any, takes its place below its parent. -/
def unlink (tree : Itree Bound Data) (target : NodeId) : Itree Bound Data :=
  let parent := (tree.node target).parent
  let child := newChild tree target
  let adopted :=
    match child with
    | none => tree
    | some child => tree.modify child fun node => { node with parent := parent }
  match parent with
  | none => { adopted with root := child }
  | some parent =>
      adopted.modify parent fun node =>
        if node.left = some target then { node with left := child }
        else if node.right = some target then { node with right := child }
        else node

/-- `gzochid_itree_remove`. -/
def gzochidItreeRemove (tree : Itree Bound Data) (lower upper : Bound) :
    Option (Itree Bound Data) :=
  match itreeLocation order tree lower upper with
  | none => none
  | some none => some tree
  | some (some id) =>
      if matches? order tree id lower upper then
        match removalTarget tree id with
        | none => none
        | some target =>
            let swapped := swapValues tree id target
            let unlinked := unlink swapped target
            match newChild swapped target with
            | none => some unlinked
            | some child => itreeRetraceRemove order unlinked child
      else
        some tree

end Loops

end Gzochi.IntervalTree
