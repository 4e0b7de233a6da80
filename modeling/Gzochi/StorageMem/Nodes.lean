import Gzochi.StorageMem.Calls

/-!
# Nodes, their locks and their pending parts

What transactions do to the nodes of their trees, from the locks up: every call asks for the
lock of its node, may sleep for any time, and goes on when it has the lock.  Changes of a
committed node are made in a pending header, key and page of its own until the transaction
commits; the header is a block of memory that is allocated before the lock is asked for.  The
lock of a node is reference counted, since a node may be freed while calls wait for its lock.

A step is one critical section of the lock manager with what its thread does up to the next
one, so a run is an arbitrary interleaving.  Which calls a transaction makes is left open: the
functions of the tree are sequences of these.  An assertion of the source that fails ends the
run.
-/

namespace Gzochi.StorageMem.Nodes

open Function

/-- A node is named like its lock. -/
abbrev NodeId := LockId

/-- `btree_node_header`. -/
structure BtreeNodeHeader where
  parent : Option NodeId
  firstChild : Option NodeId
  next : Option NodeId
  prev : Option NodeId
  deriving DecidableEq

/-- The fields of a header. -/
inductive Link where
  | parent
  | firstChild
  | next
  | prev
  deriving DecidableEq

def BtreeNodeHeader.get (header : BtreeNodeHeader) : Link → Option NodeId
  | .parent => header.parent
  | .firstChild => header.firstChild
  | .next => header.next
  | .prev => header.prev

def BtreeNodeHeader.set (header : BtreeNodeHeader) (link : Link) (target : Option NodeId) :
    BtreeNodeHeader :=
  match link with
  | .parent => { header with parent := target }
  | .firstChild => { header with firstChild := target }
  | .next => { header with next := target }
  | .prev => { header with prev := target }

@[simp] theorem BtreeNodeHeader.get_set (header : BtreeNodeHeader) (link other : Link)
    (target : Option NodeId) :
    (header.set link target).get other = if other = link then target else header.get other := by
  cases link <;> cases other <;> rfl

/-- Where `new_header` points, and the transaction whose call has allocated it, which the source
does not record. -/
structure NewHeader where
  address : Nat
  creator : TxnId
  deriving DecidableEq

/-- `btree_node`; of `new_key` and `new_page` only whether they are there. -/
structure BtreeNode where
  isNew : Bool
  isDeleted : Bool
  header : BtreeNodeHeader
  newHeader : Option NewHeader
  newKey : Bool
  newPage : Bool
  deriving DecidableEq

/-- What a lock belongs to: a tree wrapper, or a node, which stays in the lock table until it is
freed. -/
inductive Place where
  | absent
  | wrapper
  | node (node : BtreeNode)
  | freed
  deriving DecidableEq

/-- The result of `effective_header` for a writer. -/
inductive HeaderPointer where
  | own
  | block (address : Nat)
  deriving DecidableEq

/-- What a lock is wanted for: a look at the node or a change of its page, or a link to be set,
with the header to set it in and the pending header the node had before. -/
inductive Purpose where
  | visit (write : Bool)
  | set (link : Link) (target : Option NodeId) (header : HeaderPointer)
      (before : Option NewHeader)
  deriving DecidableEq

def Purpose.write : Purpose → Bool
  | .visit write => write
  | .set _ _ _ _ => true

/-- A call that waits for its lock. -/
structure NodeCall where
  lock : LockId
  purpose : Purpose
  deriving DecidableEq

/-- The assertions of the source. -/
inductive Assertion where
  /-- `tx_lock`, on the intents and the readers. -/
  | locking
  /-- `lock_free`. -/
  | lockInUse
  /-- `locked_for_write`, `lock_detach` and `tx_unlock`. -/
  | notLocked
  /-- `delete_node`. -/
  | pending
  deriving DecidableEq

/-- The environment with its lock table, its nodes and the blocks of their pending headers.
`written` remembers what the calls of a transaction have set, until it commits or rolls back. -/
structure NodeStore where
  env : Environment
  place : NodeId → Place
  refCount : LockId → Nat
  heap : Nat → Option BtreeNodeHeader
  modifications : TxnId → List NodeId
  call : TxnId → Option NodeCall
  committing : TxnId → Bool
  written : TxnId → NodeId → Link → Option (Option NodeId)
  aborted : Option Assertion

/-- Before any transaction has begun: committed nodes without pending parts, and wrappers. -/
structure Idle (store : NodeStore) : Prop where
  env : store.env = Environment.empty
  settled : ∀ node content, store.place node = .node content → content.isNew = false ∧
    content.isDeleted = false ∧ content.newHeader = none ∧ content.newKey = false ∧
    content.newPage = false
  counted : ∀ node content, store.place node = .node content → store.refCount node = 1
  modifications : ∀ btx, store.modifications btx = []
  call : ∀ btx, store.call btx = none
  written : ∀ btx node link, store.written btx node link = none
  aborted : store.aborted = none

/-- What is noticed of a step: the return of a function that sets a link, and the commit of a
node. -/
inductive Answer where
  | set (btx : TxnId) (node : NodeId) (link : Link) (target : Option NodeId)
      (before : Option NewHeader) (returned : Bool)
  | committed (btx : TxnId) (node : NodeId)
  | other
  deriving DecidableEq

namespace NodeStore

def abort (store : NodeStore) (assertion : Assertion) : NodeStore :=
  { store with aborted := some assertion }

def setNode (store : NodeStore) (node : NodeId) (content : BtreeNode) : NodeStore :=
  { store with place := update store.place node (.node content) }

def setCall (store : NodeStore) (btx : TxnId) (call : Option NodeCall) : NodeStore :=
  { store with call := update store.call btx call }

def setModifications (store : NodeStore) (btx : TxnId) (nodes : List NodeId) : NodeStore :=
  { store with modifications := update store.modifications btx nodes }

def setBlock (store : NodeStore) (address : Nat) (header : Option BtreeNodeHeader) :
    NodeStore :=
  { store with heap := update store.heap address header }

/-- What the transaction has set on the node, from now on. -/
def setWritten (store : NodeStore) (btx : TxnId) (node : NodeId)
    (links : Link → Option (Option NodeId)) : NodeStore :=
  { store with
    written := update store.written btx (update (store.written btx) node links) }

/-- `effective_header` for a reader. -/
def effectiveHeader (store : NodeStore) (content : BtreeNode) : BtreeNodeHeader :=
  match content.newHeader with
  | none => content.header
  | some pending => (store.heap pending.address).getD content.header

/-- `free`, of the pending header of a node. -/
def freeHeader (store : NodeStore) (content : BtreeNode) : NodeStore :=
  match content.newHeader with
  | none => store
  | some pending => store.setBlock pending.address none

/-- `lock_unref` with `lock_free`. -/
def lockUnref (store : NodeStore) (lock : LockId) : NodeStore :=
  let counted :=
    { store with refCount := update store.refCount lock (store.refCount lock - 1) }
  if counted.refCount lock = 0 ∧
      ((store.env.lock lock).writer ≠ none ∨ (store.env.lock lock).readers ≠ []) then
    counted.abort .lockInUse
  else counted

/-- `mark_modification`. -/
def markModification (store : NodeStore) (btx : TxnId) (node : NodeId) : NodeStore :=
  if node ∈ store.modifications btx then store
  else store.setModifications btx (node :: store.modifications btx)

/-- Writes a link where a header has been fetched from. -/
def writeLink (store : NodeStore) (node : NodeId) (content : BtreeNode)
    (header : HeaderPointer) (link : Link) (target : Option NodeId) : NodeStore :=
  match header with
  | .own => store.setNode node { content with header := content.header.set link target }
  | .block address =>
      store.setBlock address ((store.heap address).map fun header => header.set link target)

/-- The end of `tx_set_first_child` and its siblings, with the lock held. -/
def setLink (store : NodeStore) (btx : TxnId) (node : NodeId) (content : BtreeNode)
    (header : HeaderPointer) (link : Link) (target : Option NodeId) : NodeStore :=
  ((store.writeLink node content header link target).setWritten btx node
    (update (store.written btx node) link (some target))).markModification btx node

/-- The rest of a call after `tx_lock` has returned. -/
def endCall (store : NodeStore) (btx : TxnId) (call : NodeCall) (granted : Bool) :
    NodeStore × Answer :=
  let left := store.setCall btx none
  match store.place call.lock, call.purpose with
  | .wrapper, _ => (left, .other)
  | .node content, .set link target header before =>
      if granted then
        ((left.lockUnref call.lock).setLink btx call.lock content header link target,
          .set btx call.lock link target before true)
      else (left.lockUnref call.lock, .set btx call.lock link target before false)
  | _, .set link target _ before =>
      (left.lockUnref call.lock, .set btx call.lock link target before false)
  | _, .visit _ => (left.lockUnref call.lock, .other)

/-- `tx_lock`, from its entry or from where it waits. -/
def advance (store : NodeStore) (btx : TxnId) (call : NodeCall) (action : Action) :
    NodeStore × Answer :=
  match lockStep store.env action with
  | none => (store.abort .locking, .other)
  | some (env, .waits) => ({ store with env := env }, .other)
  | some (env, outcome) =>
      { store with env := env }.endCall btx call
        (decide (outcome.returned = some true))

theorem advance_waits {store : NodeStore} {btx : TxnId} {call : NodeCall} {action : Action}
    {env : Environment} (attempt : lockStep store.env action = some (env, .waits)) :
    store.advance btx call action = ({ store with env := env }, .other) := by
  rw [advance, attempt]

/-- `lock_ref`, for the lock of a node; that of a wrapper is not counted. -/
def enterCall (store : NodeStore) (btx : TxnId) (call : NodeCall) : NodeStore :=
  { store.setCall btx (some call) with
    refCount :=
      if store.place call.lock = .wrapper then store.refCount
      else update store.refCount call.lock (store.refCount call.lock + 1) }

/-- `tx_lock_node`, or `tx_lock` for a wrapper. -/
def startCall (store : NodeStore) (btx : TxnId) (call : NodeCall) (now : Int) :
    NodeStore × Answer :=
  (store.enterCall btx call).advance btx call (.lock btx call.lock call.purpose.write now)

/-- `effective_header` for a writer; `address` is where `malloc` finds a block. -/
def effectiveHeaderWrite (store : NodeStore) (btx : TxnId) (node : NodeId)
    (content : BtreeNode) (address : Nat) : Option (NodeStore × HeaderPointer) :=
  if content.isNew then some (store, .own)
  else
    match content.newHeader with
    | some pending => some (store, .block pending.address)
    | none =>
        if store.heap address = none then
          some ((store.setNode node { content with newHeader := some ⟨address, btx⟩ }).setBlock
            address (some content.header), .block address)
        else none

/-- `set_node_key_to_key_after`, and `effective_page` for a writer: a committed node gets a
pending key or page, a new one is changed itself. -/
def writeContent (store : NodeStore) (node : NodeId) (content : BtreeNode) (page : Bool) :
    NodeStore :=
  if content.isNew then store
  else if page then store.setNode node { content with newPage := true }
  else store.setNode node { content with newKey := true }

/-- `delete_node`, when `lock_detach` has unlocked the lock. -/
def deleteNode (store : NodeStore) (btx : TxnId) (node : NodeId) (content : BtreeNode)
    (unlocked : Environment) : NodeStore :=
  if content.newKey ∨ content.newPage then store.abort .pending
  else
    let detached :=
      { store with env := unlocked, place := update store.place node .freed }
    ((detached.lockUnref node).freeHeader content).setWritten btx node fun _ => none

/-- `apply_modification`, of a node that is not deleted. -/
def applyModification (store : NodeStore) (btx : TxnId) (node : NodeId) (content : BtreeNode) :
    NodeStore :=
  ((store.setNode node ⟨false, false, store.effectiveHeader content, none, false, false⟩).freeHeader
    content).setWritten btx node fun _ => none

/-- `rollback_modification`, of a node that is not new. -/
def rollbackModification (store : NodeStore) (btx : TxnId) (node : NodeId)
    (content : BtreeNode) : NodeStore :=
  ((store.setNode node ⟨false, false, content.header, none, false, false⟩).freeHeader
    content).setWritten btx node fun _ => none

/-- One turn of the loops of `commit` and `rollback`. -/
def releaseNext (store : NodeStore) (btx : TxnId) : Option (NodeStore × Answer) :=
  match store.env.phase btx with
  | .ending (.modifications (node :: rest)) =>
      match lockStep store.env (.release btx), store.place node with
      | some (env, _), .node content =>
          let listed := store.setModifications btx rest
          if store.committing btx then
            if content.isDeleted then some (listed.deleteNode btx node content env, .other)
            else
              some ({ listed with env := env }.applyModification btx node content,
                .committed btx node)
          else if content.isNew then some (listed.deleteNode btx node content env, .other)
          else some ({ listed with env := env }.rollbackModification btx node content, .other)
      | _, _ => some (store.abort .notLocked, .other)
  | .ending _ =>
      match lockStep store.env (.release btx) with
      | some (env, _) => some ({ store with env := env }, .other)
      | none => some (store.abort .notLocked, .other)
  | _ => none

end NodeStore

/-- One step of one transaction: it begins, asks for a lock, sets a link, wakes up, creates a
node, records a modification, writes a key or a page, marks a node as deleted, gives up a new
node, commits, rolls back, or takes the next turn of these. -/
inductive Event where
  | begin (btx : TxnId) (endTime : Int)
  | visit (btx : TxnId) (lock : LockId) (write : Bool) (now : Int)
  | set (btx : TxnId) (node : NodeId) (link : Link) (target : Option NodeId) (address : Nat)
      (now : Int)
  | wake (btx : TxnId) (now : Int)
  | create (btx : TxnId) (node : NodeId) (parent : Option NodeId)
  | mark (btx : TxnId) (node : NodeId)
  | writeContent (btx : TxnId) (node : NodeId) (page : Bool)
  | markDeleted (btx : TxnId) (node : NodeId)
  | scrap (btx : TxnId) (node : NodeId)
  | commit (btx : TxnId)
  | rollback (btx : TxnId)
  | release (btx : TxnId)
  deriving DecidableEq

/-- The thread of the transaction is at work. -/
def Ready (store : NodeStore) (btx : TxnId) : Prop :=
  store.aborted = none ∧ store.env.phase btx = .running

instance (store : NodeStore) (btx : TxnId) : Decidable (Ready store btx) :=
  inferInstanceAs (Decidable (_ ∧ _))

/-- The content of a node that the transaction has locked for writing. -/
def lockedNode (store : NodeStore) (btx : TxnId) (node : NodeId) : Option BtreeNode :=
  match store.place node with
  | .node content => if (store.env.lock node).writer = some btx then some content else none
  | _ => none

/-- `commit` and `rollback`, up to their loops. -/
def startEnd (store : NodeStore) (btx : TxnId) (committing : Bool) (action : Action) :
    Option (NodeStore × Answer) :=
  (lockStep store.env action).map fun moved =>
    ({ store with
        env := moved.1, committing := update store.committing btx committing }, .other)

/-- One step.  A function of the tree marks a node as modified or deleted only when it has locked
it for writing, and a new node has been marked as modified before it is given up. -/
def nodeStep (store : NodeStore) : Event → Option (NodeStore × Answer)
  | .begin btx endTime =>
      if store.aborted = none then
        (lockStep store.env (.begin btx endTime)).map fun moved =>
          ({ store with env := moved.1 }, .other)
      else none
  | .visit btx lock write now =>
      if Ready store btx then
        match store.place lock with
        | .absent => none
        | .freed => some (store, .other)
        | _ => some (store.startCall btx ⟨lock, .visit write⟩ now)
      else none
  | .set btx node link target address now =>
      if Ready store btx then
        match store.place node with
        | .node content =>
            (store.effectiveHeaderWrite btx node content address).map fun fetched =>
              fetched.1.startCall btx ⟨node, .set link target fetched.2 content.newHeader⟩ now
        | _ => none
      else none
  | .wake btx now =>
      match store.aborted, store.call btx with
      | none, some call => some (store.advance btx call (.wake btx now))
      | _, _ => none
  | .create btx node parent =>
      if Ready store btx ∧ store.place node = .absent then
        some ({ store.setNode node
              ⟨true, false, ⟨parent, none, none, none⟩, none, false, false⟩ with
          refCount := update store.refCount node 1 }, .other)
      else none
  | .mark btx node =>
      if Ready store btx then
        (lockedNode store btx node).map fun _ => (store.markModification btx node, .other)
      else none
  | .writeContent btx node page =>
      if Ready store btx then
        match store.place node with
        | .node content => some (store.writeContent node content page, .other)
        | _ => none
      else none
  | .markDeleted btx node =>
      if Ready store btx then
        (lockedNode store btx node).bind fun content =>
          if content.isNew then none
          else
            some ((store.setNode node { content with
              isDeleted := true, newKey := false, newPage := false }).markModification btx node,
              .other)
      else none
  | .scrap btx node =>
      if Ready store btx ∧ node ∈ store.modifications btx then
        (lockedNode store btx node).bind fun content =>
          if content.isNew then
            match txUnlock store.env node btx with
            | some env =>
                some ((store.setModifications btx ((store.modifications btx).erase node)).deleteNode
                  btx node content env, .other)
            | none => some (store.abort .notLocked, .other)
          else none
      else none
  | .commit btx =>
      if Ready store btx then startEnd store btx true (.commit btx (store.modifications btx))
      else none
  | .rollback btx =>
      if Ready store btx then startEnd store btx false (.rollback btx (store.modifications btx))
      else none
  | .release btx =>
      if store.aborted = none then store.releaseNext btx else none

end Gzochi.StorageMem.Nodes
