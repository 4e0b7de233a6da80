import Gzochi.Lib.Machine
import Gzochi.Btree.Page

/-!
# Nodes, and how a transaction gets at them

A node keeps its committed header, key and page beside the scratch copies that an
active transaction writes.  The store below is what one transaction works on: the
nodes of a B+tree, the list of nodes it has modified and the locks it holds.  What
the lock manager answers to a request, and whether the transaction still has time, is
given from outside, as a sequence of answers; a transaction that is never refused
meets only positive ones.

Nodes are created under new identifiers.  The lock of the tree wrapper is number 0.
A dangling pointer, a failed assertion or a loop without end is a crash.
-/

namespace Gzochi.Btree

open Lib Program

abbrev NodeId := Nat

/-- The lock of the tree wrapper stands beside those of the nodes. -/
def wrapperLock : NodeId := 0

/-- `btree_node_header`. -/
structure BtreeNodeHeader where
  parent : Option NodeId
  next : Option NodeId
  prev : Option NodeId
  firstChild : Option NodeId
  deriving DecidableEq

/-- `btree_node`; `isNew` and `isDeleted` are its two flags. -/
structure BtreeNode where
  header : BtreeNodeHeader
  newHeader : Option BtreeNodeHeader
  minChildren : Nat
  maxChildren : Nat
  isNew : Bool
  isDeleted : Bool
  key : Datum
  newKey : Datum
  page : Option Page
  newPage : Option Page
  deriving DecidableEq

namespace BtreeNode

/-- `effective_header` for readers. -/
def effectiveHeader (node : BtreeNode) : BtreeNodeHeader := node.newHeader.getD node.header

/-- `effective_key` for readers. -/
def effectiveKey (node : BtreeNode) : Datum := node.newKey <|> node.key

/-- `effective_page` for readers. -/
def effectivePage (node : BtreeNode) : Option Page := node.newPage <|> node.page

/-- `effective_header` for writers, up to the pointer it returns. -/
def prepareHeader (node : BtreeNode) : BtreeNode :=
  if node.isNew then node else { node with newHeader := some node.effectiveHeader }

/-- Write through the pointer that `effective_header` gives to writers. -/
def writeHeader (node : BtreeNode) (change : BtreeNodeHeader → BtreeNodeHeader) : BtreeNode :=
  if node.isNew then { node with header := change node.header }
  else { node with newHeader := node.newHeader.map change }

/-- Write through the pointer that `effective_key` gives to writers. -/
def writeKey (node : BtreeNode) (key : Bytes) : BtreeNode :=
  if node.isNew then { node with key := some key } else { node with newKey := some key }

/-- `effective_page` for writers, up to the pointer it returns. -/
def preparePage (node : BtreeNode) : BtreeNode :=
  if node.isNew then node
  else if node.page.isSome && node.newPage.isNone then { node with newPage := node.page }
  else node

/-- The page that `effective_page` gives to writers. -/
def writerPage (node : BtreeNode) : Option Page :=
  if node.isNew then node.page else node.newPage

/-- Write through the pointer that `effective_page` gives to writers. -/
def writePage (node : BtreeNode) (page : Page) : BtreeNode :=
  if node.isNew then { node with page := some page } else { node with newPage := some page }

end BtreeNode

/-- What a reader sees of a node. -/
structure NodeView where
  header : BtreeNodeHeader
  key : Datum
  page : Option Page
  deriving DecidableEq

def BtreeNode.view (node : BtreeNode) : NodeView :=
  ⟨node.effectiveHeader, node.effectiveKey, node.effectivePage⟩

/-- A B+tree and the transaction at work on it.  `loopBound` bounds the rounds of any
one loop. -/
structure Store where
  node : NodeId → Option BtreeNode
  fresh : NodeId
  root : NodeId
  newRoot : Option NodeId
  modifications : List NodeId
  writeLocks : List NodeId
  readLocks : List NodeId
  rollbackOnly : Bool
  answers : Nat → Bool
  asked : Nat
  loopBound : Nat

abbrev TxM := Machine Store

def load (node : NodeId) : TxM BtreeNode := do
  let store ← Machine.get
  Machine.expect (store.node node)

def Store.setNode (store : Store) (node : NodeId) (content : Option BtreeNode) : Store :=
  { store with node := fun other => if other = node then content else store.node other }

def update (node : NodeId) (change : BtreeNode → BtreeNode) : TxM Unit := do
  let content ← load node
  Machine.modify fun store => store.setNode node (some (change content))

/-- `create_lockable_btree_node`; the key is always absent. -/
def createLockableBtreeNode (parent : Option NodeId) (minChildren maxChildren : Nat) :
    TxM NodeId := do
  let store ← Machine.get
  Machine.modify fun store =>
    { store.setNode store.fresh (some
        { header := ⟨parent, none, none, none⟩, newHeader := none
          minChildren := minChildren, maxChildren := maxChildren
          isNew := true, isDeleted := false
          key := none, newKey := none, page := none, newPage := none }) with
      fresh := store.fresh + 1 }
  pure store.fresh

/-- The next answer from outside. -/
def answer : TxM Bool := do
  let store ← Machine.get
  Machine.modify fun store => { store with asked := store.asked + 1 }
  pure (store.answers store.asked)

/-- `tx_lock`, as far as the transaction itself can see: a lock that is already
sufficient is kept, and an upgrade gives the read lock back before it asks. -/
def txLock (lock : NodeId) (write : Bool) : TxM Bool := do
  let store ← Machine.get
  if write then
    if lock ∈ store.writeLocks then
      pure true
    else
      Machine.modify fun store => { store with readLocks := store.readLocks.erase lock }
      let granted ← answer
      if granted then
        Machine.modify fun store => { store with writeLocks := lock :: store.writeLocks }
      pure granted
  else if lock ∈ store.writeLocks ∨ lock ∈ store.readLocks then
    pure true
  else
    let granted ← answer
    if granted then
      Machine.modify fun store => { store with readLocks := lock :: store.readLocks }
    pure granted

/-- `btree_lock_node_response`. -/
inductive LockNodeResponse where
  | success
  | failure
  | deleted
  deriving DecidableEq

/-- `tx_lock_node`: a node that has been freed is not in the lock table. -/
def txLockNode (node : NodeId) (write : Bool) : TxM LockNodeResponse := do
  let store ← Machine.get
  if (store.node node).isNone then
    pure .deleted
  else
    let granted ← txLock node write
    pure (if granted then .success else .failure)

/-- The lock, or failure. -/
def requireLock (node : NodeId) (write : Bool) : TxM Unit := do
  if (← txLockNode node write) ≠ .success then
    Machine.fail

/-- `mark_modification`. -/
def markModification (node : NodeId) : TxM Unit :=
  Machine.modify fun store =>
    if node ∈ store.modifications then store
    else { store with modifications := node :: store.modifications }

/-- `unmark_modification`. -/
def unmarkModification (node : NodeId) : TxM Unit := do
  let store ← Machine.get
  Machine.assert (decide (node ∈ store.modifications))
  Machine.modify fun store => { store with modifications := store.modifications.erase node }

/-! ## Navigation

The functions that only read are programs of the instructions below, so that they can
also be run with other transactions in between. -/

/-- One look at the tree, or one request for a read lock. -/
inductive Look where
  | lockWrapper
  | roots
  | lockedForWrite (node : NodeId)
  | lockNode (node : NodeId)
  | view (node : NodeId)
  | giveUp
  | crash
  deriving DecidableEq

/-- What comes back; `lockNode` tells whether the node still exists. -/
abbrev Look.Answer : Look → Type
  | .lockWrapper => Unit
  | .roots => NodeId × Option NodeId
  | .lockedForWrite _ => Bool
  | .lockNode _ => Bool
  | .view _ => NodeView
  | .giveUp => Empty
  | .crash => Empty

abbrev Reading := Program Look Look.Answer

/-- An instruction as a single transaction carries it out. -/
def Look.handle : (look : Look) → TxM look.Answer
  | .lockWrapper => do
      let granted ← txLock wrapperLock false
      if granted then pure () else Machine.fail
  | .roots => do
      let store ← Machine.get
      pure (store.root, store.newRoot)
  | .lockedForWrite node => do
      let store ← Machine.get
      pure (decide (node ∈ store.writeLocks))
  | .lockNode node => do
      match ← txLockNode node false with
      | .success => pure true
      | .deleted => pure false
      | .failure => Machine.fail
  | .view node => do
      let content ← load node
      pure content.view
  | .giveUp => Machine.fail
  | .crash => Machine.crash

namespace Reading

def giveUp {α : Type} : Reading α := .ask .giveUp Empty.elim

def crash {α : Type} : Reading α := .ask .crash Empty.elim

/-- Lock a neighbour for reading, if there is one. -/
def follow : Option NodeId → Reading (Option NodeId)
  | none => pure none
  | some target => do
      let present ← perform (Look.lockNode target)
      pure (if present then some target else none)

/-- `tx_first_child`. -/
def txFirstChild (node : NodeId) : Reading (Option NodeId) := do
  let content ← perform (Look.view node)
  follow content.header.firstChild

/-- `tx_parent`. -/
def txParent (node : NodeId) : Reading (Option NodeId) := do
  let content ← perform (Look.view node)
  follow content.header.parent

/-- `tx_next_sibling`. -/
def txNextSibling (node : NodeId) : Reading (Option NodeId) := do
  let content ← perform (Look.view node)
  follow content.header.next

/-- `tx_prev_sibling`. -/
def txPrevSibling (node : NodeId) : Reading (Option NodeId) := do
  let content ← perform (Look.view node)
  follow content.header.prev

/-- The loop of `tx_last_child`. -/
def lastSibling : Nat → NodeId → Reading NodeId
  | 0, _ => crash
  | bound + 1, child => do
      match ← txNextSibling child with
      | none => pure child
      | some next => lastSibling bound next

/-- `tx_last_child`. -/
def txLastChild (bound : Nat) (node : NodeId) : Reading (Option NodeId) := do
  match ← txFirstChild node with
  | none => pure none
  | some child => do
      let last ← lastSibling bound child
      pure (some last)

/-- The loop of `count_children`. -/
def countSiblings : Nat → Option NodeId → Nat → Reading Nat
  | _, none, count => pure count
  | 0, some _, _ => crash
  | bound + 1, some child, count => do
      let next ← txNextSibling child
      countSiblings bound next (count + 1)

/-- `count_children`. -/
def countChildren (bound : Nat) (node : NodeId) : Reading Nat := do
  let child ← txFirstChild node
  countSiblings bound child 0

/-- `tx_root`. -/
def txRoot : Reading NodeId := do
  perform Look.lockWrapper
  let (root, newRoot) ← perform Look.roots
  let own ← match newRoot with
    | none => pure false
    | some created => perform (Look.lockedForWrite created)
  if own then
    pure (newRoot.getD root)
  else
    let present ← perform (Look.lockNode root)
    if present then pure root else giveUp

/-- How the inner loop of `search` ends: it has found the node, or it has stopped at a
child or at the end of the children. -/
inductive Scan where
  | found (node : NodeId)
  | stopped (child prev : Option NodeId) (nodeIsLeafParent : Bool)
  deriving DecidableEq

/-- The inner loop of `search`. -/
def searchChildren (key : Bytes) :
    Nat → Option NodeId → Option NodeId → Bool → Reading Scan
  | _, none, prev, nodeIsLeafParent => pure (.stopped none prev nodeIsLeafParent)
  | 0, some _, _, _ => crash
  | bound + 1, some child, prev, nodeIsLeafParent => do
      let content ← perform (Look.view child)
      match content.page with
      | some page =>
          if comparePageDatumToKey page 0 key = .gt then
            pure (.found (prev.getD child))
          else
            let next ← txNextSibling child
            searchChildren key bound next (some child) true
      | none =>
          if compareDatum key (content.key.getD []) = .lt then
            pure (.stopped (some child) prev nodeIsLeafParent)
          else
            let next ← txNextSibling child
            searchChildren key bound next (some child) nodeIsLeafParent

/-- The outer loop of `search`. -/
def searchFrom (key : Bytes) (width : Nat) : Nat → NodeId → Bool → Reading NodeId
  | 0, _, _ => crash
  | bound + 1, node, isRoot => do
      let child ← txFirstChild node
      match ← searchChildren key width child none false with
      | .found leaf => pure leaf
      | .stopped (some child) _ _ => searchFrom key width bound child false
      | .stopped none prev nodeIsLeafParent =>
          match nodeIsLeafParent, isRoot, prev with
          | false, true, _ => pure node
          | true, _, some last => pure last
          | false, false, some last => searchFrom key width bound last false
          | _, _, none => giveUp

/-- `search`; `NULL` is failure. -/
def search (bound : Nat) (key : Bytes) : Reading NodeId := do
  let root ← txRoot
  searchFrom key bound bound root true

/-- The end of `get_internal`: look the key up in the node that was found. -/
def lookup (node : NodeId) (key : Bytes) : Reading (Option Bytes) := do
  let content ← perform (Look.view node)
  match content.page with
  | none => pure none
  | some page => pure (lookupPageValue page key)

/-- `get_internal` without the lock for an update. -/
def get (bound : Nat) (key : Bytes) : Reading (Option Bytes) := do
  let node ← search bound key
  lookup node key

/-- `find_key_gte`. -/
def findKeyGte (bound : Nat) (key : Bytes) : Reading (Option Bytes) := do
  let node ← search bound key
  let content ← perform (Look.view node)
  match content.page with
  | none => pure none
  | some page => pure (firstKeyGte page key)

end Reading

/-- A program that only reads, run by the transaction. -/
def reading {α : Type} (program : Nat → Reading α) : TxM α := do
  let store ← Machine.get
  (program store.loopBound).run Look.handle

def txFirstChild (node : NodeId) : TxM (Option NodeId) :=
  reading fun _ => Reading.txFirstChild node

def txParent (node : NodeId) : TxM (Option NodeId) := reading fun _ => Reading.txParent node

def txNextSibling (node : NodeId) : TxM (Option NodeId) :=
  reading fun _ => Reading.txNextSibling node

def txPrevSibling (node : NodeId) : TxM (Option NodeId) :=
  reading fun _ => Reading.txPrevSibling node

def txLastChild (node : NodeId) : TxM (Option NodeId) :=
  reading fun bound => Reading.txLastChild bound node

def countChildren (node : NodeId) : TxM Nat :=
  reading fun bound => Reading.countChildren bound node

def search (key : Bytes) : TxM NodeId := reading fun bound => Reading.search bound key

end Gzochi.Btree
