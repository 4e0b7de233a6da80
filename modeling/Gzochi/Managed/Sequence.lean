import Mathlib.Algebra.GroupWithZero.Nat
import Mathlib.Data.List.Basic
import Gzochi.Lib.Runs

/-!
# Managed sequences

A managed sequence keeps its elements in list nodes of at most ten elements each, which
are linked to their neighbours.  The sequence refers to its first list node through the
root of a tree and through a connector, and to its last list node through another.

The tree never grows over its root.  `managed-sequence-tree-node-increment!` and
`-decrement!` do nothing for a node without a parent, except that the former splits the
root when it counts more than five children, and what it counts then is the root itself
and the siblings of the root, of which it has none.  The tree nodes are left out here, up
to the child of the root.

An object that was removed cannot be dereferenced any more: whatever refers to it raises.
Elements are given together with the serialization they need, and `#f` is the element
`none`.
-/

namespace Gzochi.Managed.Sequences

abbrev NodeId := Nat

/-- A slot of a managed vector: `#f`, a reference to the entry with an element, or a
reference to an entry that was removed. -/
inductive Slot (Value : Type)
  | empty
  | entry (value : Value)
  | removed
deriving DecidableEq

/-- The vector in a managed vector; sequences have vectors of `max-size` and one slots. -/
abbrev Contents (Value : Type) := Nat → Slot Value

def maxSize : Nat := 10

/-- `managed-sequence-list-node`, with its subsequence. -/
structure ListNode (Value : Type) where
  next : Option NodeId
  prev : Option NodeId
  size : Nat
  subsequenceSize : Nat
  contents : Contents Value
  removed : Bool

/-- `managed-sequence`, with the nodes: the child of the root, and the targets of the
connectors.  Nodes get their numbers one after the other. -/
structure Sequence (Value : Type) where
  node : NodeId → ListNode Value
  allocated : NodeId
  rootChild : NodeId
  head : NodeId
  tail : NodeId

variable {Value Seed : Type}

/-- A new list node. -/
def emptyNode : ListNode Value := ⟨none, none, 0, 0, fun _ => .empty, false⟩

/-- `gzochi:make-managed-sequence`. -/
def makeManagedSequence : Sequence Value := ⟨fun _ => emptyNode, 1, 0, 0, 0⟩

def objectRemoved : String := "gzochi:object-removed"

def outOfBounds : String := "Index out of bounds."

def noEnd : String := "The list nodes have no end."

/-- `gzochi:managed-vector-ref`. -/
def managedVectorRef (contents : Contents Value) (i : Nat) : Except String (Option Value) :=
  match contents i with
  | .empty => .ok none
  | .entry value => .ok (some value)
  | .removed => .error objectRemoved

/-- `gzochi:managed-vector-set!`.  An entry that is set to `#f` is removed, and its
reference stays. -/
def managedVectorSet (contents : Contents Value) (i : Nat) (obj : Option Value) :
    Except String (Contents Value) :=
  match contents i, obj with
  | .empty, none => .ok contents
  | .empty, some value => .ok (Function.update contents i (.entry value))
  | .entry _, none => .ok (Function.update contents i .removed)
  | .entry _, some value => .ok (Function.update contents i (.entry value))
  | .removed, _ => .error objectRemoved

/-- `managed-vector-shift-right!`: the slots from `i` on are moved by one, the last one is
overwritten and slot `i` is cleared. -/
def managedVectorShiftRight (contents : Contents Value) (i : Nat) : Contents Value := fun slot =>
  if slot < i ∨ maxSize < slot then contents slot
  else if slot = i then .empty
  else contents (slot - 1)

/-- `managed-vector-shift-left!`: the slots after `i` are moved by one, slot `i` is
overwritten and the last one is cleared. -/
def managedVectorShiftLeft (contents : Contents Value) (i : Nat) : Contents Value := fun slot =>
  if slot < i ∨ maxSize < slot then contents slot
  else if slot = maxSize then .empty
  else contents (slot + 1)

/-- `managed-vector-transfer!`: the slots of `src` from `srcFrom` up to `srcTo` are moved to
`dst`, from `dstFrom` on.  The result is `dst` and `src`. -/
def managedVectorTransfer (dst : Contents Value) (dstFrom : Nat) (src : Contents Value)
    (srcFrom srcTo : Nat) : Contents Value × Contents Value :=
  (fun slot => if dstFrom ≤ slot ∧ slot - dstFrom + srcFrom < srcTo
      then src (slot - dstFrom + srcFrom) else dst slot,
    fun slot => if srcFrom ≤ slot ∧ slot < srcTo then .empty else src slot)

namespace Sequence

/-- Dereference a list node. -/
def listNode (seq : Sequence Value) (id : NodeId) : Except String (ListNode Value) :=
  if (seq.node id).removed then .error objectRemoved else .ok (seq.node id)

/-- Dereference a link of a node. -/
def neighbour (seq : Sequence Value) : Option NodeId → Except String (Option NodeId)
  | none => .ok none
  | some id => do
      let _ ← seq.listNode id
      .ok (some id)

def modify (seq : Sequence Value) (id : NodeId) (change : ListNode Value → ListNode Value) :
    Sequence Value :=
  { seq with node := Function.update seq.node id (change (seq.node id)) }

/-- `managed-sequence-list-node-split!`. -/
def listNodeSplit (seq : Sequence Value) (id : NodeId) : Except String (Sequence Value) := do
  let node ← seq.listNode id
  let next ← seq.neighbour node.next
  let size := node.subsequenceSize
  let half := size / 2
  let newSize := size - half
  let (contents2, contents) :=
    managedVectorTransfer (fun _ => .empty) 0 node.contents half size
  let id2 := seq.allocated
  let node2 : ListNode Value := ⟨next, some id, newSize, newSize, contents2, false⟩
  let seq : Sequence Value :=
    { seq with node := Function.update seq.node id2 node2, allocated := id2 + 1 }
  let seq := match next with
    | none => seq
    | some next => seq.modify next fun node => { node with prev := some id2 }
  .ok (seq.modify id fun node =>
    { node with next := some id2, size := half, subsequenceSize := half, contents := contents })

/-- `managed-sequence-list-node-insert!`. -/
def listNodeInsert (seq : Sequence Value) (id : NodeId) (i : Nat) (obj : Option Value) :
    Except String (Sequence Value) := do
  let node ← seq.listNode id
  if maxSize < i then throw outOfBounds
  let contents ← managedVectorSet (managedVectorShiftRight node.contents i) i obj
  let seq := seq.modify id fun node =>
    { node with
      size := node.size + 1
      subsequenceSize := node.subsequenceSize + 1
      contents := contents }
  if maxSize ≤ node.size then seq.listNodeSplit id else .ok seq

/-- `managed-sequence-list-node-append!`. -/
def listNodeAppend (seq : Sequence Value) (id : NodeId) (obj : Option Value) :
    Except String (Sequence Value) := do
  let node ← seq.listNode id
  seq.listNodeInsert id node.size obj

/-- `managed-sequence-list-node-prepend!`. -/
def listNodePrepend (seq : Sequence Value) (id : NodeId) (obj : Option Value) :
    Except String (Sequence Value) :=
  seq.listNodeInsert id 0 obj

/-- `managed-sequence-list-node-decrement!`.  A node that gets empty is unlinked and
removed, unless it is the only one. -/
def listNodeDecrement (seq : Sequence Value) (id : NodeId) : Except String (Sequence Value) := do
  let node ← seq.listNode id
  let seq := seq.modify id fun node => { node with size := node.size - 1 }
  if node.size = 1 then do
    let next ← seq.neighbour node.next
    let prev ← seq.neighbour node.prev
    match next, prev with
    | some next, some prev =>
        let seq := seq.modify prev fun node => { node with next := some next }
        let seq := seq.modify next fun node => { node with prev := some prev }
        .ok (seq.modify id fun node => { node with removed := true })
    | some next, none =>
        let seq := seq.modify next fun node => { node with prev := none }
        .ok (seq.modify id fun node => { node with removed := true })
    | none, some prev =>
        let seq := seq.modify prev fun node => { node with next := none }
        .ok (seq.modify id fun node => { node with removed := true })
    | none, none => .ok seq
  else .ok seq

/-- `managed-sequence-list-node-delete-at!`. -/
def listNodeDeleteAt (seq : Sequence Value) (id : NodeId) (i : Nat) :
    Except String (Sequence Value) := do
  let node ← seq.listNode id
  let contents := managedVectorShiftLeft node.contents i
  let seq := seq.modify id fun node =>
    { node with contents := contents, subsequenceSize := node.subsequenceSize - 1 }
  seq.listNodeDecrement id

/-- `search-managed-sequence`, in at most `fuel` nodes. -/
def searchManagedSequence (seq : Sequence Value) (fuel : Nat) (id : NodeId) (start upTo : Nat) :
    Except String (NodeId × Nat) :=
  match fuel with
  | 0 => .error noEnd
  | fuel + 1 => do
      let node ← seq.listNode id
      let offset := start + node.size
      if offset < upTo then
        match node.next with
        | none => .error outOfBounds
        | some next => seq.searchManagedSequence fuel next offset upTo
      else .ok (id, upTo - start - 1)

/-- The search for the element at a position, as the procedures with an index make it. -/
def searchIndex (seq : Sequence Value) (i : Nat) : Except String (NodeId × Nat) :=
  seq.searchManagedSequence (seq.allocated + 1) seq.rootChild 0 (i + 1)

/-- Where the tail was split, the tail connector gets the new node. -/
def updateTail (seq : Sequence Value) (tail : NodeId) : Except String (Sequence Value) := do
  let node ← seq.listNode tail
  let newTail ← seq.neighbour node.next
  match newTail with
  | none => .ok seq
  | some newTail => .ok { seq with tail := newTail }

/-- `gzochi:managed-sequence-insert!`. -/
def managedSequenceInsert (seq : Sequence Value) (i : Nat) (obj : Option Value) :
    Except String (Sequence Value) := do
  let head ← seq.listNode seq.head
  let _ ← seq.listNode seq.tail
  let inserted ←
    if seq.head = seq.tail ∧ head.size = 0 then seq.listNodeAppend seq.tail obj
    else if i = 0 then seq.listNodePrepend seq.head obj
    else do
      let (node, index) ← seq.searchIndex i
      seq.listNodeInsert node index obj
  inserted.updateTail seq.tail

/-- `gzochi:managed-sequence-add!`. -/
def managedSequenceAdd (seq : Sequence Value) (obj : Option Value) :
    Except String (Sequence Value) := do
  let added ← seq.listNodeAppend seq.tail obj
  added.updateTail seq.tail

/-- `gzochi:managed-sequence-ref`. -/
def managedSequenceRef (seq : Sequence Value) (i : Nat) : Except String (Option Value) := do
  let (node, index) ← seq.searchIndex i
  managedVectorRef (seq.node node).contents index

/-- `gzochi:managed-sequence-set!`. -/
def managedSequenceSet (seq : Sequence Value) (i : Nat) (obj : Option Value) :
    Except String (Sequence Value) := do
  let (node, index) ← seq.searchIndex i
  let contents ← managedVectorSet (seq.node node).contents index obj
  .ok (seq.modify node fun node => { node with contents := contents })

/-- `managed-sequence-size-inner`. -/
def sizeInner (seq : Sequence Value) (fuel : Nat) (node : Option NodeId) (size : Nat) :
    Except String Nat :=
  match fuel, node with
  | _, none => .ok size
  | 0, some _ => .error noEnd
  | fuel + 1, some id => do
      let node ← seq.listNode id
      seq.sizeInner fuel node.next (node.size + size)

/-- `gzochi:managed-sequence-size`. -/
def managedSequenceSize (seq : Sequence Value) : Except String Nat :=
  seq.sizeInner seq.allocated (some seq.rootChild) 0

/-- `gzochi:managed-sequence-delete-at!`. -/
def managedSequenceDeleteAt (seq : Sequence Value) (i : Nat) : Except String (Sequence Value) := do
  let (node, index) ← seq.searchIndex i
  seq.listNodeDeleteAt node index

/-- The loop of `managed-sequence-subsequence-delete!`: the slot of the first element that
matches. -/
def subsequenceFind (contents : Contents Value) (matching : Option Value → Bool) (i : Nat) :
    (count : Nat) → Except String (Option Nat)
  | 0 => .ok none
  | count + 1 => do
      let val ← managedVectorRef contents i
      if matching val then .ok (some i) else subsequenceFind contents matching (i + 1) count

/-- The loop of `gzochi:managed-sequence-delete!`: the node and the slot of the first
element that matches. -/
def findMatching (seq : Sequence Value) (matching : Option Value → Bool) (fuel : Nat)
    (node : Option NodeId) : Except String (Option (NodeId × Nat)) :=
  match fuel, node with
  | _, none => .ok none
  | 0, some _ => .error noEnd
  | fuel + 1, some id => do
      let node ← seq.listNode id
      match ← subsequenceFind node.contents matching 0 node.subsequenceSize with
      | some i => .ok (some (id, i))
      | none => seq.findMatching matching fuel node.next

/-- What `gzochi:managed-sequence-delete!` deletes. -/
def deleteTarget (seq : Sequence Value) (obj : Option Value)
    (pred : Option Value → Option Value → Bool) : Except String (Option (NodeId × Nat)) :=
  seq.findMatching (fun val => pred val obj) seq.allocated (some seq.head)

/-- `gzochi:managed-sequence-delete!`. -/
def managedSequenceDelete (seq : Sequence Value) (obj : Option Value)
    (pred : Option Value → Option Value → Bool) : Except String (Sequence Value × Bool) := do
  match ← seq.deleteTarget obj pred with
  | none => .ok (seq, false)
  | some (node, i) => do
      let deleted ← seq.listNodeDeleteAt node i
      .ok (deleted, true)

end Sequence

/-! ## Folds

The values of a fold are a list of seeds, and a single `#f`, as `[none]`, ends it. -/

abbrev FoldFn (Value Seed : Type) := Option Value → List (Option Seed) → List (Option Seed)

/-- `terminate?`. -/
def terminate : List (Option Seed) → Bool
  | [none] => true
  | _ => false

def seedLengthMismatch : String := "Seed length mismatch."

/-- One round of a fold over a vector: the values to go on with, or those it ends with. -/
def foldRound (foldFn : FoldFn Value Seed) (seedsLength : Nat) (val : Option Value)
    (seeds : List (Option Seed))
    (continued : List (Option Seed) → Except String (List (Option Seed))) :
    Except String (List (Option Seed)) :=
  let seeds := foldFn val seeds
  if terminate seeds then .ok [none]
  else if seeds.length = seedsLength then continued seeds
  else .error seedLengthMismatch

/-- `managed-vector-fold-left`. -/
def managedVectorFoldLeft (foldFn : FoldFn Value Seed) (seedsLength : Nat)
    (contents : Contents Value) (i : Nat) :
    (count : Nat) → List (Option Seed) → Except String (List (Option Seed))
  | 0, seeds => .ok seeds
  | count + 1, seeds => do
      let val ← managedVectorRef contents i
      foldRound foldFn seedsLength val seeds
        (managedVectorFoldLeft foldFn seedsLength contents (i + 1) count)

/-- `managed-vector-fold-right`. -/
def managedVectorFoldRight (foldFn : FoldFn Value Seed) (seedsLength : Nat)
    (contents : Contents Value) :
    (size : Nat) → List (Option Seed) → Except String (List (Option Seed))
  | 0, seeds => .ok seeds
  | i + 1, seeds => do
      let val ← managedVectorRef contents i
      foldRound foldFn seedsLength val seeds
        (managedVectorFoldRight foldFn seedsLength contents i)

namespace Sequence

/-- The loop of either fold over the list nodes: what it does with a node, and which node
comes next. -/
def foldNodes (seq : Sequence Value)
    (foldNode : ListNode Value → List (Option Seed) → Except String (List (Option Seed)))
    (following : ListNode Value → Option NodeId) (fuel : Nat) (node : Option NodeId)
    (seeds : List (Option Seed)) : Except String (List (Option Seed)) :=
  match fuel, node with
  | _, none => .ok seeds
  | 0, some _ => .error noEnd
  | fuel + 1, some id => do
      let node ← seq.listNode id
      let seeds ← foldNode node seeds
      if terminate seeds then .ok [none]
      else seq.foldNodes foldNode following fuel (following node) seeds

/-- `gzochi:managed-sequence-fold-left`. -/
def managedSequenceFoldLeft (seq : Sequence Value) (foldFn : FoldFn Value Seed)
    (seeds : List (Option Seed)) : Except String (List (Option Seed)) :=
  seq.foldNodes (fun node => managedVectorFoldLeft foldFn seeds.length node.contents 0
    node.subsequenceSize) ListNode.next seq.allocated (some seq.head) seeds

/-- `gzochi:managed-sequence-fold-right`. -/
def managedSequenceFoldRight (seq : Sequence Value) (foldFn : FoldFn Value Seed)
    (seeds : List (Option Seed)) : Except String (List (Option Seed)) :=
  seq.foldNodes (fun node => managedVectorFoldRight foldFn seeds.length node.contents
    node.subsequenceSize) ListNode.prev seq.allocated (some seq.tail) seeds

/-- `gzochi:managed-sequence-contains?`.  The fold function gives `#f` where it sets the
result, and an unspecified value otherwise. -/
def managedSequenceContains (seq : Sequence Value) (obj : Option Value)
    (pred : Option Value → Option Value → Bool) : Except String Bool := do
  let seeds ← seq.managedSequenceFoldLeft
    (fun obj2 _ => if pred obj obj2 then [none] else [some ()]) []
  .ok (terminate seeds)

/-- `cons`, as a fold function. -/
def consSeed : FoldFn Value (List (Option Value))
  | val, [some list] => [some (val :: list)]
  | _, seeds => seeds

/-- `gzochi:managed-sequence->list`. -/
def managedSequenceToList (seq : Sequence Value) : Except String (List (Option Value)) := do
  match ← seq.managedSequenceFoldRight consSeed [some []] with
  | [some list] => .ok list
  | _ => .ok []

end Sequence

/-- A call of one of the procedures of a sequence. -/
inductive Call (Value Seed : Type)
  | add (obj : Option Value)
  | insert (i : Nat) (obj : Option Value)
  | set (i : Nat) (obj : Option Value)
  | delete (obj : Option Value) (pred : Option Value → Option Value → Bool)
  | deleteAt (i : Nat)
  | contains (obj : Option Value) (pred : Option Value → Option Value → Bool)
  | ref (i : Nat)
  | size
  | toList
  | foldLeft (foldFn : FoldFn Value Seed) (seeds : List (Option Seed))
  | foldRight (foldFn : FoldFn Value Seed) (seeds : List (Option Seed))

/-- What a call gives, or that it raises. -/
inductive Result (Value Seed : Type)
  | unspecified
  | boolean (value : Bool)
  | element (value : Option Value)
  | number (value : Nat)
  | list (elements : List (Option Value))
  | seeds (values : List (Option Seed))
  | raised

/-- A call that raises leaves what it was made on, as its transaction is rolled back. -/
def outcome {State : Type} (state : State) :
    Except String (State × Result Value Seed) → State × Result Value Seed
  | .ok result => result
  | .error _ => (state, .raised)

/-- A call on a sequence. -/
def Sequence.call (seq : Sequence Value) (call : Call Value Seed) :
    Sequence Value × Result Value Seed :=
  outcome seq <| match call with
    | .add obj => do .ok (← seq.managedSequenceAdd obj, .unspecified)
    | .insert i obj => do .ok (← seq.managedSequenceInsert i obj, .unspecified)
    | .set i obj => do .ok (← seq.managedSequenceSet i obj, .unspecified)
    | .delete obj pred => do
        let (deleted, found) ← seq.managedSequenceDelete obj pred
        .ok (deleted, .boolean found)
    | .deleteAt i => do .ok (← seq.managedSequenceDeleteAt i, .unspecified)
    | .contains obj pred => do .ok (seq, .boolean (← seq.managedSequenceContains obj pred))
    | .ref i => do .ok (seq, .element (← seq.managedSequenceRef i))
    | .size => do .ok (seq, .number (← seq.managedSequenceSize))
    | .toList => do .ok (seq, .list (← seq.managedSequenceToList))
    | .foldLeft foldFn seeds => do .ok (seq, .seeds (← seq.managedSequenceFoldLeft foldFn seeds))
    | .foldRight foldFn seeds => do .ok (seq, .seeds (← seq.managedSequenceFoldRight foldFn seeds))

/-- A fold over a plain list, with the same meaning of the values. -/
def foldList (foldFn : FoldFn Value Seed) (seedsLength : Nat) :
    List (Option Value) → List (Option Seed) → Except String (List (Option Seed))
  | [], seeds => .ok seeds
  | val :: list, seeds => foldRound foldFn seedsLength val seeds (foldList foldFn seedsLength list)

/-- The same call on a plain list. -/
def listCall (list : List (Option Value)) (call : Call Value Seed) :
    List (Option Value) × Result Value Seed :=
  match call with
  | .add obj => (list ++ [obj], .unspecified)
  | .insert i obj =>
      if i ≤ list.length then (list.insertIdx i obj, .unspecified) else (list, .raised)
  | .set i obj => if i < list.length then (list.set i obj, .unspecified) else (list, .raised)
  | .delete obj pred => (list.eraseP (pred · obj), .boolean (list.any (pred · obj)))
  | .deleteAt i => if i < list.length then (list.eraseIdx i, .unspecified) else (list, .raised)
  | .contains obj pred => (list, .boolean (list.any (pred obj)))
  | .ref i =>
      match list[i]? with
      | some value => (list, .element value)
      | none => (list, .raised)
  | .size => (list, .number list.length)
  | .toList => (list, .list list)
  | .foldLeft foldFn seeds =>
      outcome list do .ok (list, .seeds (← foldList foldFn seeds.length list seeds))
  | .foldRight foldFn seeds =>
      outcome list do .ok (list, .seeds (← foldList foldFn seeds.length list.reverse seeds))

end Gzochi.Managed.Sequences
