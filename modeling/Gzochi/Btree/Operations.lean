import Gzochi.Btree.Model

/-!
# The operations of a transaction

Everything that writes: the setters, the records of a page, borrowing and distributing
children, splitting, and on top of these `put`, `delete`, `commit` and `rollback`.  The
functions follow the source one by one.  A function of the source that reports failure
fails here; where the source does not look at the result of a call, the call is wrapped
in `attempt`.
-/

namespace Gzochi.Btree

open Lib

/-- `BRANCHING_FACTOR`. -/
def branchingFactor : Nat := 8

/-- `MIN_INTERNAL_CHILDREN`. -/
def minInternalChildren : Nat := branchingFactor / 2

/-- `MAX_INTERNAL_CHILDREN`. -/
def maxInternalChildren : Nat := branchingFactor

/-- `MIN_LEAF_CHILDREN`. -/
def minLeafChildren : Nat := branchingFactor / 2

/-- `MAX_LEAF_CHILDREN`. -/
def maxLeafChildren : Nat := branchingFactor - 1

/-- Subtraction of `unsigned int`. -/
def unsignedSub (first second : Nat) : Nat := (first + 2 ^ 32 - second) % 2 ^ 32

/-- Addition of `unsigned int`. -/
def unsignedAdd (first second : Nat) : Nat := (first + second) % 2 ^ 32

/-- What the setters of links have in common. -/
def txSetHeader (change : BtreeNodeHeader → BtreeNodeHeader) (node : NodeId) : TxM Unit := do
  update node BtreeNode.prepareHeader
  requireLock node true
  update node fun content => content.writeHeader change
  markModification node

/-- `tx_set_first_child`. -/
def txSetFirstChild (node : NodeId) (firstChild : Option NodeId) : TxM Unit :=
  txSetHeader (fun header => { header with firstChild := firstChild }) node

/-- `tx_set_next_sibling`. -/
def txSetNextSibling (node : NodeId) (next : Option NodeId) : TxM Unit :=
  txSetHeader (fun header => { header with next := next }) node

/-- `tx_set_prev_sibling`. -/
def txSetPrevSibling (node : NodeId) (prev : Option NodeId) : TxM Unit :=
  txSetHeader (fun header => { header with prev := prev }) node

/-- `tx_set_parent`. -/
def txSetParent (node : NodeId) (parent : Option NodeId) : TxM Unit :=
  txSetHeader (fun header => { header with parent := parent }) node

/-- `tx_set_root`. -/
def txSetRoot (root : NodeId) : TxM Unit := do
  let granted ← txLock wrapperLock true
  if granted then
    Machine.modify fun store => { store with newRoot := some root }
  else
    Machine.fail

/-- `set_node_key_to_key_after`. -/
def setNodeKeyToKeyAfter (node : NodeId) (key : Datum) : TxM Unit :=
  update node fun content => content.writeKey (keyAfter (key.getD []))

/-- `effective_key` of a node, for readers. -/
def effectiveKeyOf (node : NodeId) : TxM Datum := do
  let content ← load node
  pure content.effectiveKey

/-- The loop of `update_key`.  When the lock of the parent is refused, the source does
not notice and goes round again with the same node; the flag is the error it will
report at the end. -/
def updateKeyLoop (key : Bytes) : Nat → NodeId → Bool → TxM Bool
  | 0, _, _ => Machine.crash
  | bound + 1, node, refused => do
      let content ← load node
      match ← txLockNode node true with
      | .failure => pure true
      | .deleted => pure refused
      | .success =>
          setNodeKeyToKeyAfter node (some key)
          if content.effectiveHeader.next = none then
            match ← Machine.attempt (txParent node) with
            | none => updateKeyLoop key bound node true
            | some none => updateKeyLoop key bound node refused
            | some (some parent) =>
                let above ← load parent
                if above.effectiveHeader.parent = none then
                  pure refused
                else
                  updateKeyLoop key bound parent refused
          else
            pure refused

/-- `update_key`.  The source reads the key from the page, at the offset it is given;
after the removal of the last record that is what the removed record has left there. -/
def updateKey (node : NodeId) (key : Bytes) : TxM Unit := do
  let store ← Machine.get
  let refused ← updateKeyLoop key store.loopBound node false
  if refused then Machine.fail

/-- The page for writers; a node without one is a crash. -/
def writerPageOf (node : NodeId) : TxM Page := do
  let content ← load node
  Machine.expect content.writerPage

/-- `insert_page_record`. -/
def insertPageRecord (leaf : NodeId) (offset : Nat) (record : Record) : TxM Unit := do
  match ← txLockNode leaf true with
  | .failure => Machine.fail
  | .deleted => pure ()
  | .success =>
      update leaf BtreeNode.preparePage
      let page ← writerPageOf leaf
      Machine.assert (decide (pageSize page + record.size ≤ maxPageSize))
      update leaf fun content => content.writePage (page.insertIdx offset record)
      markModification leaf
      if offset = page.length then
        updateKey leaf record.key

/-- `remove_page_record`. -/
def removePageRecord (leaf : NodeId) (offset : Nat) : TxM Unit := do
  match ← txLockNode leaf true with
  | .failure => Machine.fail
  | .deleted => pure ()
  | .success =>
      update leaf BtreeNode.preparePage
      let page ← writerPageOf leaf
      let record ← Machine.expect page[offset]?
      update leaf fun content => content.writePage (page.eraseIdx offset)
      markModification leaf
      if offset + 1 = page.length ∧ 0 < offset then
        updateKey leaf record.key

/-- `unlink_node`. -/
def unlinkNode (node : NodeId) : TxM Unit := do
  let next ← txNextSibling node
  let prev ← txPrevSibling node
  if prev = none then
    match ← Machine.attempt (txParent node) with
    | some (some parent) =>
        let parentFirstChild ← txFirstChild parent
        if parentFirstChild = some node then
          txSetFirstChild parent next
    | _ => Machine.crash
  match next with
  | none => pure ()
  | some after => txSetPrevSibling after prev
  match prev with
  | none => pure ()
  | some before => txSetNextSibling before next

/-- `delete_node`, with `lock_detach`. -/
def deleteNode (node : NodeId) : TxM Unit := do
  let content ← load node
  Machine.assert content.newKey.isNone
  Machine.assert content.newPage.isNone
  let store ← Machine.get
  Machine.assert (decide (node ∈ store.writeLocks))
  Machine.modify fun store =>
    { store.setNode node none with writeLocks := store.writeLocks.erase node }

/-- `mark_node_deleted`. -/
def markNodeDeleted (node : NodeId) : TxM Unit := do
  requireLock node true
  let content ← load node
  if content.isNew then
    unmarkModification node
    unlinkNode node
    deleteNode node
  else
    unlinkNode node
    update node fun content => { content with isDeleted := true }
    markModification node
    update node fun content => { content with newKey := none, newPage := none }

/-- The loop of `merge_borrow` over the previous sibling. -/
def borrowFromPrev (node minChildren : Nat) :
    Nat → Nat → Option NodeId → TxM (Nat × Option NodeId)
  | 0, numChildren, lastPrevChild => pure (numChildren, lastPrevChild)
  | spare + 1, numChildren, lastPrevChild =>
      if numChildren < minChildren then do
        let child ← Machine.expect lastPrevChild
        let before ← txPrevSibling child
        txSetParent child (some node)
        borrowFromPrev node minChildren spare (numChildren + 1) before
      else
        pure (numChildren, lastPrevChild)

/-- The loop of `merge_borrow` over the next sibling. -/
def borrowFromNext (node minChildren : Nat) :
    Nat → Nat → Option NodeId → TxM (Option NodeId)
  | 0, _, firstNextChild => pure firstNextChild
  | spare + 1, numChildren, firstNextChild =>
      if numChildren < minChildren then do
        let child ← Machine.expect firstNextChild
        let after ← txNextSibling child
        txSetParent child (some node)
        borrowFromNext node minChildren spare (numChildren + 1) after
      else
        pure firstNextChild

/-- The part of `merge_borrow` that takes children of the previous sibling. -/
def mergeBorrowPrev (prev : Option NodeId) (node minChildren sparePrev numChildren : Nat)
    (firstChild lastPrevChild : Option NodeId) : TxM Nat := do
  if 0 < sparePrev then
    let last ← Machine.expect lastPrevChild
    txSetNextSibling last firstChild
    match firstChild with
    | none => pure ()
    | some first => txSetPrevSibling first (some last)
  let (numChildren, lastPrevChild) ←
    borrowFromPrev node minChildren sparePrev numChildren lastPrevChild
  if 0 < sparePrev then
    let last ← Machine.expect lastPrevChild
    let prevNext ← txNextSibling last
    txSetFirstChild node prevNext
    txSetNextSibling last none
    let first ← Machine.expect prevNext
    txSetPrevSibling first none
    let target ← Machine.expect prev
    setNodeKeyToKeyAfter target (← effectiveKeyOf last)
  pure numChildren

/-- The part of `merge_borrow` that takes children of the next sibling. -/
def mergeBorrowNext (next : Option NodeId) (node minChildren spareNext numChildren : Nat)
    (lastChild firstNextChild : Option NodeId) : TxM Unit := do
  if 0 < spareNext ∧ numChildren < minChildren then
    match lastChild with
    | none => pure ()
    | some last => txSetNextSibling last firstNextChild
    let first ← Machine.expect firstNextChild
    txSetPrevSibling first lastChild
    let rest ← borrowFromNext node minChildren spareNext numChildren firstNextChild
    let first ← Machine.expect rest
    let nextPrev ← txPrevSibling first
    let target ← Machine.expect next
    txSetFirstChild target (some first)
    let last ← Machine.expect nextPrev
    txSetNextSibling last none
    txSetPrevSibling first none
    setNodeKeyToKeyAfter node (← effectiveKeyOf last)

/-- `merge_borrow`. -/
def mergeBorrow (prev : Option NodeId) (node : NodeId) (next : Option NodeId)
    (sparePrev numChildren spareNext : Nat) : TxM Unit := do
  let firstChild ← txFirstChild node
  let lastChild ← txLastChild node
  let firstNextChild ←
    if 0 < spareNext then do
      let sibling ← Machine.expect next
      txFirstChild sibling
    else
      pure none
  let lastPrevChild ←
    if 0 < sparePrev then do
      let sibling ← Machine.expect prev
      txLastChild sibling
    else
      pure none
  let content ← load node
  let numChildren ← mergeBorrowPrev prev node content.minChildren sparePrev numChildren
    firstChild lastPrevChild
  mergeBorrowNext next node content.minChildren spareNext numChildren lastChild firstNextChild

/-- The loop of `merge_distribute` over the slots of the previous sibling. -/
def distributeToPrev (prev : Option NodeId) :
    Nat → Nat → Option NodeId → Option NodeId →
      TxM (Nat × Option NodeId × Option NodeId)
  | slots + 1, numChildren + 1, child, lastPrevChild => do
      let moved ← Machine.expect child
      let childNext ← txNextSibling moved
      let last ← Machine.expect lastPrevChild
      txSetNextSibling last (some moved)
      txSetNextSibling moved none
      txSetParent moved prev
      txSetPrevSibling moved (some last)
      match childNext with
      | none => pure ()
      | some after => txSetPrevSibling after none
      distributeToPrev prev slots numChildren childNext (some moved)
  | _, numChildren, child, lastPrevChild => pure (numChildren, child, lastPrevChild)

/-- The loop of `merge_distribute` over the slots of the next sibling. -/
def distributeToNext (next firstNextChild : Option NodeId) :
    Nat → Nat → Option NodeId → TxM Unit
  | slots + 1, numChildren + 1, child => do
      let moved ← Machine.expect child
      let childNext ← txNextSibling moved
      txSetParent moved next
      if childNext = none then
        txSetNextSibling moved firstNextChild
        let first ← Machine.expect firstNextChild
        txSetPrevSibling first (some moved)
      distributeToNext next firstNextChild slots numChildren childNext
  | _, _, _ => pure ()

/-- `merge_distribute`. -/
def mergeDistribute (prev : Option NodeId) (node : NodeId) (next : Option NodeId)
    (prevSlots numChildren nextSlots : Nat) : TxM Unit := do
  let child ← txFirstChild node
  let lastPrevChild ←
    if 0 < prevSlots then do
      let sibling ← Machine.expect prev
      txLastChild sibling
    else
      pure none
  let firstNextChild ←
    if 0 < nextSlots then do
      let sibling ← Machine.expect next
      txFirstChild sibling
    else
      pure none
  let (numChildren, child, lastPrevChild) ←
    distributeToPrev prev prevSlots numChildren child lastPrevChild
  match lastPrevChild with
  | none => pure ()
  | some last => do
      let target ← Machine.expect prev
      setNodeKeyToKeyAfter target (← effectiveKeyOf last)
  if 0 < numChildren then
    let target ← Machine.expect next
    txSetFirstChild target child
  distributeToNext next firstNextChild nextSlots numChildren child
  markNodeDeleted node

/-- The loop of `merge` over the children of an only child.  It ends with the pointer
at `NULL`. -/
def adoptChildren (parent : NodeId) : Nat → Option NodeId → TxM (Option NodeId)
  | _, none => pure none
  | 0, some _ => Machine.crash
  | bound + 1, some child => do
      let _ ← Machine.attempt (txSetParent child (some parent))
      let after ← txNextSibling child
      adoptChildren parent bound after

/-- The case of `merge` in which the node is the only child of its parent. -/
def mergeOnlyChild (node parent : NodeId) : TxM Unit := do
  let child ← Machine.attempt (txFirstChild node)
  markNodeDeleted node
  match child with
  | none => Machine.fail
  | some child =>
      let store ← Machine.get
      let childPtr ← adoptChildren parent store.loopBound child
      txSetFirstChild parent childPtr

/-- How many children a sibling has, none if it does not exist. -/
def countOf : Option NodeId → TxM Nat
  | none => pure 0
  | some sibling => countChildren sibling

/-- The spare children and the free slots of a sibling that has this many children. -/
def roomOf (count : Nat) : Option NodeId → TxM (Nat × Nat)
  | none => pure (0, 0)
  | some sibling => do
      let content ← load sibling
      pure (unsignedSub count content.minChildren, unsignedSub content.maxChildren count)

/-- `merge`. -/
def merge (node numChildren : Nat) : TxM Unit := do
  let content ← load node
  let requiredChildren := unsignedSub content.minChildren numChildren
  let parent ← txParent node
  let next ← txNextSibling node
  let numNext ← countOf next
  let prev ← txPrevSibling node
  let numPrev ← countOf prev
  match next, prev, parent with
  | none, none, some parent => mergeOnlyChild node parent
  | _, _, _ =>
      let (spareNext, nextSlots) ← roomOf numNext next
      let (sparePrev, prevSlots) ← roomOf numPrev prev
      if unsignedAdd spareNext sparePrev ≥ requiredChildren then
        mergeBorrow prev node next sparePrev numChildren spareNext
      else if unsignedAdd nextSlots prevSlots ≥ numChildren then
        mergeDistribute prev node next prevSlots numChildren nextSlots
      else
        Machine.crash

/-- The loop of `maybe_merge`. -/
def maybeMergeLoop : Nat → NodeId → TxM Unit
  | 0, _ => Machine.crash
  | bound + 1, node => do
      let numChildren ← countChildren node
      let content ← load node
      if numChildren < content.minChildren then
        match ← txParent node with
        | none => pure ()
        | some parent =>
            merge node numChildren
            maybeMergeLoop bound parent

/-- `maybe_merge`. -/
def maybeMerge (node : NodeId) : TxM Unit := do
  let store ← Machine.get
  maybeMergeLoop store.loopBound node

/-- The first loop of `split`: the last child that stays and the first that goes. -/
def findSplitPoint :
    Nat → Option NodeId → Option NodeId → TxM (Option NodeId × Option NodeId)
  | 0, preSplitPoint, splitPoint => pure (preSplitPoint, splitPoint)
  | steps + 1, _, splitPoint => do
      let point ← Machine.expect splitPoint
      let after ← txNextSibling point
      findSplitPoint steps (some point) after

/-- The second loop of `split`: the children that go get their new parent. -/
def moveToNewNode (newNode : NodeId) :
    Nat → Option NodeId → Option NodeId → TxM (Option NodeId)
  | _, preSplitPoint, none => pure preSplitPoint
  | 0, _, some _ => Machine.crash
  | bound + 1, _, some point => do
      txSetParent point (some newNode)
      let after ← txNextSibling point
      moveToNewNode newNode bound (some point) after

/-- `split`. -/
def split (node : NodeId) (leafParent : Bool) : TxM NodeId := do
  let newNode ←
    if leafParent then createLockableBtreeNode none minLeafChildren maxLeafChildren
    else createLockableBtreeNode none minInternalChildren maxInternalChildren
  requireLock newNode true
  let next ← txNextSibling node
  let parent ← txParent node
  let firstChild ← txFirstChild node
  let content ← load node
  let (preSplitPoint, splitPoint) ←
    findSplitPoint (content.maxChildren / 2) none firstChild
  let last ← Machine.expect preSplitPoint
  setNodeKeyToKeyAfter node (← effectiveKeyOf last)
  txSetNextSibling last none
  let first ← Machine.expect splitPoint
  txSetPrevSibling first none
  txSetFirstChild newNode (some first)
  txSetNextSibling newNode next
  txSetNextSibling node (some newNode)
  txSetParent newNode parent
  txSetPrevSibling newNode (some node)
  match next with
  | none => pure ()
  | some after => txSetPrevSibling after (some newNode)
  let store ← Machine.get
  let preSplitPoint ← moveToNewNode newNode store.loopBound (some last) (some first)
  let last ← Machine.expect preSplitPoint
  setNodeKeyToKeyAfter newNode (← effectiveKeyOf last)
  pure newNode

/-- The end of `maybe_split` after the root has been split: a new root above the two
halves. -/
def growRoot (node newNode : NodeId) : TxM Unit := do
  let parent ← createLockableBtreeNode none 1 (branchingFactor - 1)
  requireLock parent true
  update node fun content =>
    { content with minChildren := minInternalChildren, maxChildren := maxInternalChildren }
  txSetFirstChild parent (some node)
  txSetParent node (some parent)
  txSetParent newNode (some parent)
  txSetRoot parent
  maybeMerge node

/-- The loop of `maybe_split`. -/
def maybeSplitLoop : Nat → NodeId → Bool → TxM Unit
  | 0, _, _ => Machine.crash
  | bound + 1, node, leafParent => do
      let numChildren ← countChildren node
      let content ← load node
      if content.maxChildren < numChildren then
        let parent ← txParent node
        let newNode ← split node leafParent
        match parent with
        | none => growRoot node newNode
        | some parent => maybeSplitLoop bound parent false

/-- `maybe_split`. -/
def maybeSplit (node : NodeId) : TxM Unit := do
  let store ← Machine.get
  maybeSplitLoop store.loopBound node true

/-- The part of `insert_leaf_with_record` for a parent without children. -/
def linkFirstLeaf (parent newChild : NodeId) : TxM Unit := do
  let firstChild ← txFirstChild parent
  if firstChild ≠ none then
    txSetNextSibling newChild none
    Machine.crash
  txSetFirstChild parent (some newChild)

/-- The node that goes into the list of siblings: the new leaf itself, or a node
around it when its siblings are not leaves.  Such a node needs a merge. -/
def wrapLeaf (parent prev newChild : NodeId) : TxM (NodeId × Bool) := do
  let content ← load prev
  if content.effectivePage = none then
    let interstitial ←
      createLockableBtreeNode (some parent) minInternalChildren maxInternalChildren
    requireLock interstitial true
    let _ ← Machine.attempt (txSetFirstChild interstitial (some newChild))
    let _ ← Machine.attempt (txSetParent newChild (some interstitial))
    pure (interstitial, decide (1 < minInternalChildren))
  else
    pure (newChild, false)

/-- The part of `insert_leaf_with_record` that links the new leaf behind a sibling. -/
def linkLeafAfter (parent prev newChild : NodeId) : TxM Unit := do
  let next ← Machine.attempt (txNextSibling prev)
  let (newSibling, needsMerge) ← wrapLeaf parent prev newChild
  match next with
  | none => Machine.fail
  | some none => pure ()
  | some (some after) =>
      txSetNextSibling newSibling (some after)
      txSetPrevSibling after (some newSibling)
  txSetNextSibling prev (some newSibling)
  txSetPrevSibling newSibling (some prev)
  if needsMerge then
    merge newSibling 1
    maybeMerge parent

/-- `insert_leaf_with_record`. -/
def insertLeafWithRecord (parent : NodeId) (after : Option NodeId) (record : Record) :
    TxM NodeId := do
  let newChild ← createLockableBtreeNode (some parent) 0 0
  requireLock newChild true
  let prev ←
    match after with
    | some sibling => pure (some sibling)
    | none => txLastChild parent
  match prev with
  | none => linkFirstLeaf parent newChild
  | some prev => linkLeafAfter parent prev newChild
  markModification newChild
  update newChild fun content => { content with page := some [] }
  insertPageRecord newChild 0 record
  maybeSplit parent
  pure newChild

/-- The loop of `put_internal` that moves the records behind the offset to the new
leaf. -/
def moveRecords (node newLeaf : NodeId) (offset : Nat) : Nat → TxM Unit
  | 0 => pure ()
  | bound + 1 => do
      let page ← writerPageOf node
      match page[offset]? with
      | none => pure ()
      | some record =>
          let newPage ← writerPageOf newLeaf
          insertPageRecord newLeaf newPage.length record
          removePageRecord node offset
          moveRecords node newLeaf offset bound

/-- The part of `put_internal` that moves what comes after the offset to a leaf of its
own. -/
def splitPage (newParent node : NodeId) (offset : Nat) (record : Record) : TxM Unit := do
  let newLeaf ← insertLeafWithRecord newParent (some node) record
  removePageRecord node offset
  let page ← writerPageOf node
  moveRecords node newLeaf offset page.length

/-- `put_internal`. -/
def putInternal (node : NodeId) (record : Record) : TxM Unit := do
  update node BtreeNode.preparePage
  let page ← writerPageOf node
  let offset := pageKeyOffset page record.key
  if comparePageDatumToKey page offset record.key = .eq then
    removePageRecord node offset
  let page ← writerPageOf node
  if pageSize page + record.size ≤ maxPageSize then
    insertPageRecord node offset record
  else
    let newParent ← Machine.expect (← txParent node)
    match page[offset]? with
    | none => pure ()
    | some following => splitPage newParent node offset following
    let remaining ← writerPageOf node
    if offset < page.length ∧ pageSize remaining + record.size ≤ maxPageSize then
      insertPageRecord node offset record
    else
      let newParent ← Machine.expect (← txParent node)
      let _ ← insertLeafWithRecord newParent (some node) record

/-- `check_tx`. -/
def checkTx : TxM Bool := do
  let store ← Machine.get
  if store.rollbackOnly then
    pure false
  else
    let inTime ← answer
    if !inTime then
      Machine.modify fun store => { store with rollbackOnly := true }
    pure inTime

/-- `mark_for_rollback`. -/
def markForRollback : TxM Unit :=
  Machine.modify fun store => { store with rollbackOnly := true }

/-- What `transaction_put` does once the transaction has been checked. -/
def putRecord (record : Record) : TxM Unit := do
  let node ← search record.key
  requireLock node true
  let content ← load node
  if content.effectivePage.isSome then
    putInternal node record
  else
    let _ ← insertLeafWithRecord node none record

/-- `transaction_put`. -/
def transactionPut (key value : Bytes) : TxM Unit := do
  if ← checkTx then
    let outcome ← Machine.attempt (putRecord ⟨key, value⟩)
    if outcome.isNone then
      markForRollback

/-- What `transaction_delete` returns. -/
inductive DeleteResult where
  | success
  | notFound
  | txFailure
  deriving DecidableEq

/-- The removal of a leaf whose last record has gone. -/
def removeLeaf (node : NodeId) : TxM Unit := do
  let parent ← txParent node
  markNodeDeleted node
  let parent ← Machine.expect parent
  maybeMerge parent

/-- What `transaction_delete` does once the transaction has been checked. -/
def deleteRecord (key : Bytes) : TxM DeleteResult := do
  let node ← search key
  requireLock node true
  update node BtreeNode.preparePage
  let content ← load node
  match content.writerPage with
  | none => pure .notFound
  | some page =>
      let offset := pageKeyOffset page key
      if comparePageDatumToKey page offset key ≠ .eq then
        pure .notFound
      else
        removePageRecord node offset
        let remaining ← writerPageOf node
        if remaining = [] then
          removeLeaf node
        pure .success

/-- `transaction_delete`. -/
def transactionDelete (key : Bytes) : TxM DeleteResult := do
  if ← checkTx then
    match ← Machine.attempt (deleteRecord key) with
    | some result => pure result
    | none =>
        markForRollback
        pure .txFailure
  else
    pure .txFailure

/-- `get_internal`. -/
def getInternal (key : Bytes) (forUpdate : Bool) : TxM (Option Bytes) := do
  let node ← search key
  if forUpdate then
    requireLock node true
  reading fun _ => Reading.lookup node key

/-- `transaction_get` and `transaction_get_for_update`. -/
def transactionGet (key : Bytes) (forUpdate : Bool) : TxM (Option Bytes) := do
  if ← checkTx then
    match ← Machine.attempt (getInternal key forUpdate) with
    | some result => pure result
    | none =>
        markForRollback
        pure none
  else
    pure none

/-- What `transaction_first_key` and `transaction_next_key` share.  A search that fails
reports no error, so the transaction is not marked. -/
def keyFrom (key : Bytes) : TxM (Option Bytes) := do
  if ← checkTx then
    let found ← Machine.attempt (reading fun bound => Reading.findKeyGte bound key)
    pure (found.getD none)
  else
    pure none

/-- `transaction_first_key`: the key it starts from is one zero byte. -/
def transactionFirstKey : TxM (Option Bytes) := keyFrom [0]

/-- `transaction_next_key`. -/
def transactionNextKey (key : Bytes) : TxM (Option Bytes) := keyFrom (keyAfter key)

/-- `tx_unlock_node`. -/
def txUnlockNode (node : NodeId) : TxM Unit := do
  let store ← Machine.get
  Machine.assert (decide (node ∈ store.writeLocks))
  Machine.modify fun store => { store with writeLocks := store.writeLocks.erase node }

/-- `rollback_modification`. -/
def rollbackModification (node : NodeId) : TxM Unit := do
  let store ← Machine.get
  Machine.assert (decide (node ∈ store.writeLocks))
  let content ← load node
  if content.isNew then
    deleteNode node
  else
    update node fun content =>
      { content with
        newKey := none, newPage := none, newHeader := none
        isNew := false, isDeleted := false }
    txUnlockNode node

/-- `apply_modification`. -/
def applyModification (node : NodeId) : TxM Unit := do
  let store ← Machine.get
  let content ← load node
  Machine.assert (content.isNew || decide (node ∈ store.writeLocks))
  if content.isDeleted then
    deleteNode node
  else
    update node fun content =>
      { content with
        key := content.effectiveKey, newKey := none
        page := content.effectivePage, newPage := none
        header := content.effectiveHeader, newHeader := none
        isNew := false, isDeleted := false }
    txUnlockNode node

/-- The end of `commit` and `rollback`: the remaining locks are given back. -/
def cleanupTransaction : TxM Unit :=
  Machine.modify fun store =>
    { store with modifications := [], writeLocks := [], readLocks := [], rollbackOnly := false }

/-- `rollback`. -/
def rollback : TxM Unit := do
  Machine.modify fun store =>
    if store.newRoot.isSome ∧ wrapperLock ∈ store.writeLocks then
      { store with newRoot := none }
    else store
  let store ← Machine.get
  store.modifications.forM rollbackModification
  cleanupTransaction

/-- `commit`. -/
def commit : TxM Unit := do
  Machine.modify fun store =>
    if wrapperLock ∈ store.writeLocks then
      { store with root := store.newRoot.getD store.root, newRoot := none }
    else store
  let store ← Machine.get
  store.modifications.forM applyModification
  cleanupTransaction

end Gzochi.Btree
