import Mathlib.Order.WithBot
import Gzochi.Itree.Search

/-!
# The lock table of the meta server

The in-memory lock table of `lock-mem.c`: read and write locks on single keys, and
exclusive locks on ranges of keys, held by nodes.  A lock is an allocated structure that
several indexes point to, so the table has the structures behind the pointers and, for
each index, the pointers it contains.

Keys are `GBytes`, which are compared by their content.  Times are what `gettimeofday`
returned, in no particular order.  An operation has no result when it uses a `NULL`
pointer, fails an assertion or does not end.
-/

namespace Gzochi.LockMem

open Gzochi.IntervalTree

universe u

abbrev LockId := Nat

/-- A `GBytes`: where it is, and what it contains. -/
structure GBytes (Key : Type u) where
  address : Nat
  content : Key
  deriving DecidableEq

/-- `gzochid_lock`. -/
structure Lock (Key : Type u) where
  nodeId : Nat
  key : GBytes Key
  forWrite : Bool
  timestamp : Nat

/-- `gzochid_range_lock`; the bounds are inclusive, and infinite when they are
`NULL`. -/
structure RangeLock (Key : Type u) where
  nodeId : Nat
  fromKey : Option (GBytes Key)
  toKey : Option (GBytes Key)
  timestamp : Nat

/-- `gzochid_locks`: the locks on one key, of which there is at least one. -/
structure Locks where
  first : LockId
  rest : List LockId

def Locks.locks (entry : Locks) : List LockId := entry.first :: entry.rest

/-- `gzochid_node_locks`. -/
structure NodeLocks where
  locks : List LockId
  rangeLocks : List LockId

/-- `gzochid_lock_table`, with the structures behind its pointers. -/
structure LockTable (Key : Type u) where
  lock : LockId → Lock Key
  rangeLock : LockId → RangeLock Key
  allocated : Nat
  locks : List Locks
  locksByTimestamp : List LockId
  rangeLocks : Itree (Option (GBytes Key)) LockId
  rangeLocksByTimestamp : List LockId
  nodesToLocks : Nat → Option NodeLocks

/-- The result of a request; a refusal comes with the time of the lock in the way. -/
inductive Answer where
  | granted
  | refused (timestamp : Nat)
  deriving DecidableEq

variable {Key : Type u}

/-- `gzochid_util_bytes_compare_null_first` and `gzochid_util_bytes_compare_null_last`. -/
def nullOrder : Comparators (Option (GBytes Key)) (WithBot Key) (WithTop Key) where
  lower
    | none => ⊥
    | some bytes => bytes.content
  upper
    | none => ⊤
    | some bytes => bytes.content

/-- `gzochid_lock_table_new`, over memory whose content does not matter. -/
def gzochidLockTableNew (lock : LockId → Lock Key) (rangeLock : LockId → RangeLock Key)
    (garbage : IntervalTree.Node (Option (GBytes Key)) LockId) : LockTable Key where
  lock := lock
  rangeLock := rangeLock
  allocated := 0
  locks := []
  locksByTimestamp := []
  rangeLocks := gzochidItreeNew garbage
  rangeLocksByTimestamp := []
  nodesToLocks := fun _ => none

/-- `g_sequence_insert_sorted`, with the order of the elements as a time or key. -/
def insertSorted {Element : Type} {Rank : Type u} [LT Rank] [DecidableLT Rank]
    (rank : Element → Rank) (element : Element) : List Element → List Element
  | [] => [element]
  | other :: rest =>
      if rank element < rank other then element :: other :: rest
      else other :: insertSorted rank element rest

/-- A position in the sequence of locks by key, between what comes before and after. -/
structure Position where
  before : List Locks
  entry : Locks
  after : List Locks

/-- The first position that satisfies a test. -/
def findPosition (test : Locks → Bool) : List Locks → Option Position
  | [] => none
  | entry :: rest =>
      if test entry then some ⟨[], entry, rest⟩
      else (findPosition test rest).map fun position =>
        { position with before := entry :: position.before }

namespace LockTable

def setLock (table : LockTable Key) (id : LockId) (lock : Lock Key) : LockTable Key :=
  { table with lock := fun other => if other = id then lock else table.lock other }

def setNodeLocks (table : LockTable Key) (nodeId : Nat) (nodeLocks : Option NodeLocks) :
    LockTable Key :=
  { table with nodesToLocks := fun other =>
      if other = nodeId then nodeLocks else table.nodesToLocks other }

/-- The key of an entry is that of its first lock. -/
def entryKey (table : LockTable Key) (entry : Locks) : Key :=
  (table.lock entry.first).key.content

/-- `ensure_node_registration`. -/
def ensureNodeRegistration (table : LockTable Key) (nodeId : Nat) : NodeLocks :=
  (table.nodesToLocks nodeId).getD ⟨[], []⟩

end LockTable

variable [LinearOrder Key]

/-- `find_locks_by_key` with a key. -/
def findLocksByKey (table : LockTable Key) (key : GBytes Key) : Option Position :=
  findPosition (fun entry => decide (table.entryKey entry = key.content)) table.locks

/-- `find_locks_by_key` with `NULL`: every comparison yields zero, so the element at
the root of the balanced tree inside the sequence is found, wherever that is. -/
def findLocksByNull (table : LockTable Key) (probe : Nat) : Option Position :=
  match table.locks.drop (probe % table.locks.length) with
  | [] => none
  | entry :: after => some ⟨table.locks.take (probe % table.locks.length), entry, after⟩

/-- `find_most_recent_covering_range_lock`. -/
def findMostRecentCoveringRangeLock (table : LockTable Key) (excludedNodeId : Nat) :
    SearchFunc (Option (GBytes Key)) LockId (Option LockId) :=
  fun found node =>
    let rangeLock := table.rangeLock node.data
    let newer : Bool := match found with
      | none => true
      | some found => decide ((table.rangeLock found).timestamp < rangeLock.timestamp)
    if rangeLock.nodeId ≠ excludedNodeId ∧ newer then (some node.data, false)
    else (found, false)

/-- `most_recent_covering_range_lock`; the inner `none` is its `NULL`. -/
def mostRecentCoveringRangeLock (table : LockTable Key) (key : GBytes Key)
    (excludedNodeId : Nat) : Option (Option LockId) :=
  gzochidItreeSearch nullOrder table.rangeLocks (some key)
    (findMostRecentCoveringRangeLock table excludedNodeId) none

/-- A new lock in the timestamp sequence and in the list of its node. -/
def registerLock (table : LockTable Key) (lock : Lock Key) : LockTable Key :=
  let id := table.allocated
  let created := { table.setLock id lock with allocated := table.allocated + 1 }
  let nodeLocks := table.ensureNodeRegistration lock.nodeId
  let registered :=
    created.setNodeLocks lock.nodeId (some { nodeLocks with locks := id :: nodeLocks.locks })
  { registered with
    locksByTimestamp :=
      insertSorted (fun id => (created.lock id).timestamp) id table.locksByTimestamp }

/-- Lock a key that is not locked yet. -/
def newLock (table : LockTable Key) (lock : Lock Key) : LockTable Key :=
  let registered := registerLock table lock
  { registered with
    locks := insertSorted registered.entryKey ⟨table.allocated, []⟩ table.locks }

/-- Share the locks on a key that is locked for read. -/
def shareLock (table : LockTable Key) (position : Position) (lock : Lock Key) :
    LockTable Key :=
  { registerLock table lock with
    locks :=
      position.before ++ ⟨table.allocated, position.entry.locks⟩ :: position.after }

/-- Turn a lock for read into one for write. -/
def upgradeLock (table : LockTable Key) (id : LockId) (now : Nat) : LockTable Key :=
  let upgraded := table.setLock id { table.lock id with forWrite := true, timestamp := now }
  { upgraded with
    locksByTimestamp :=
      insertSorted (fun id => (upgraded.lock id).timestamp) id (table.locksByTimestamp.erase id) }

/-- `gzochid_lock_check_and_set`. -/
def gzochidLockCheckAndSet (table : LockTable Key) (nodeId : Nat) (key : GBytes Key)
    (forWrite : Bool) (now : Nat) : Option (LockTable Key × Answer) :=
  let lock : Lock Key := ⟨nodeId, key, forWrite, now⟩
  match findLocksByKey table key with
  | some position =>
      let locks := position.entry.locks
      match locks.find? fun id => decide ((table.lock id).nodeId = nodeId) with
      | some existing =>
          if (table.lock existing).forWrite ∨ ¬forWrite then some (table, .granted)
          else if locks.length > 1 then
            match locks.find? fun id => decide ((table.lock id).nodeId ≠ nodeId) with
            | some other => some (table, .refused (table.lock other).timestamp)
            | none => none
          else
            match mostRecentCoveringRangeLock table key nodeId with
            | none => none
            | some (some rangeLock) =>
                some (table, .refused (table.rangeLock rangeLock).timestamp)
            | some none => some (upgradeLock table existing now, .granted)
      | none =>
          if forWrite ∨ (table.lock position.entry.first).forWrite then
            some (table, .refused (table.lock position.entry.first).timestamp)
          else
            some (shareLock table position lock, .granted)
  | none =>
      if forWrite then
        match mostRecentCoveringRangeLock table key nodeId with
        | none => none
        | some (some rangeLock) =>
            some (table, .refused (table.rangeLock rangeLock).timestamp)
        | some none => some (newLock table lock, .granted)
      else
        some (newLock table lock, .granted)

/-- `find_overlapping_range_lock`. -/
def findOverlappingRangeLock (table : LockTable Key) (excludedNodeId : Nat) :
    SearchFunc (Option (GBytes Key)) LockId (Option LockId) :=
  fun found node =>
    if (table.rangeLock node.data).nodeId ≠ excludedNodeId then (some node.data, true)
    else (found, false)

/-- The range lock of another node that is found in the way of a range. -/
def overlappingRangeLock (table : LockTable Key) (nodeId : Nat)
    (fromKey toKey : Option (GBytes Key)) : Option (Option LockId) :=
  gzochidItreeSearchInterval nullOrder table.rangeLocks fromKey toKey
    (findOverlappingRangeLock table nodeId) none

/-- The entries that are scanned for write locks. -/
def scanned (table : LockTable Key) (fromKey : Option (GBytes Key)) (probe : Nat) :
    List Locks :=
  let position := match fromKey with
    | some key => findLocksByKey table key
    | none => findLocksByNull table probe
  match position with
  | none => []
  | some position => position.entry :: position.after

/-- The first lock of an entry is one for write by another node. -/
def writtenByOther (table : LockTable Key) (nodeId : Nat) (entry : Locks) : Bool :=
  (table.lock entry.first).forWrite && decide ((table.lock entry.first).nodeId ≠ nodeId)

/-- A new lock on a range. -/
def newRangeLock (table : LockTable Key) (rangeLocks : Itree (Option (GBytes Key)) LockId)
    (rangeLock : RangeLock Key) : LockTable Key :=
  let id := table.allocated
  let created :=
    { table with
      rangeLock := fun other => if other = id then rangeLock else table.rangeLock other
      allocated := table.allocated + 1
      rangeLocks := rangeLocks }
  let nodeLocks := table.ensureNodeRegistration rangeLock.nodeId
  let registered :=
    created.setNodeLocks rangeLock.nodeId
      (some { nodeLocks with rangeLocks := id :: nodeLocks.rangeLocks })
  { registered with
    rangeLocksByTimestamp :=
      insertSorted (fun id => (created.rangeLock id).timestamp) id table.rangeLocksByTimestamp }

/-- `gzochid_lock_range_check_and_set`. -/
def gzochidLockRangeCheckAndSet (table : LockTable Key) (nodeId : Nat)
    (fromKey toKey : Option (GBytes Key)) (now probe : Nat) :
    Option (LockTable Key × Answer) :=
  match overlappingRangeLock table nodeId fromKey toKey with
  | none => none
  | some (some rangeLock) => some (table, .refused (table.rangeLock rangeLock).timestamp)
  | some none =>
      match (scanned table fromKey probe).find? (writtenByOther table nodeId) with
      | some entry => some (table, .refused (table.lock entry.first).timestamp)
      | none =>
          match gzochidItreeInsert nullOrder table.rangeLocks fromKey toKey table.allocated with
          | none => none
          | some rangeLocks =>
              some (newRangeLock table rangeLocks ⟨nodeId, fromKey, toKey, now⟩, .granted)

/-- Take an empty registration out of the table. -/
def deregister (nodeLocks : NodeLocks) : Option NodeLocks :=
  match nodeLocks.locks, nodeLocks.rangeLocks with
  | [], [] => none
  | _, _ => some nodeLocks

/-- The entries after a lock is taken out of one of them. -/
def withoutLock (position : Position) (id : LockId) : List Locks :=
  match position.entry.locks.erase id with
  | [] => position.before ++ position.after
  | first :: rest => position.before ++ ⟨first, rest⟩ :: position.after

/-- `remove_lock`. -/
def removeLock (table : LockTable Key) (id : LockId) : Option (LockTable Key) :=
  let lock := table.lock id
  match findLocksByKey table lock.key with
  | none => some table
  | some position =>
      match table.nodesToLocks lock.nodeId with
      | none => none
      | some nodeLocks =>
          let released := table.setNodeLocks lock.nodeId
            (deregister { nodeLocks with locks := nodeLocks.locks.erase id })
          some
            { released with
              locks := withoutLock position id
              locksByTimestamp := table.locksByTimestamp.erase id }

/-- `gzochid_lock_release`. -/
def gzochidLockRelease (table : LockTable Key) (nodeId : Nat) (key : GBytes Key) :
    Option (LockTable Key) :=
  match findLocksByKey table key with
  | none => some table
  | some position =>
      match position.entry.locks.find? fun id => decide ((table.lock id).nodeId = nodeId) with
      | none => some table
      | some id => removeLock table id

/-- `find_range_lock_with_owner`. -/
def findRangeLockWithOwner (table : LockTable Key) (nodeId : Nat)
    (fromKey toKey : Option (GBytes Key)) :
    SearchFunc (Option (GBytes Key)) LockId (Option LockId) :=
  fun found node =>
    if nullOrder.lower fromKey = nullOrder.lower node.lower ∧
        nullOrder.upper toKey = nullOrder.upper node.upper ∧
        (table.rangeLock node.data).nodeId = nodeId then
      (some node.data, true)
    else
      (found, false)

/-- `remove_range_lock`. -/
def removeRangeLock (table : LockTable Key) (id : LockId) : Option (LockTable Key) :=
  let rangeLock := table.rangeLock id
  match table.nodesToLocks rangeLock.nodeId with
  | none => none
  | some nodeLocks =>
      match gzochidItreeRemove nullOrder table.rangeLocks rangeLock.fromKey rangeLock.toKey with
      | none => none
      | some rangeLocks =>
          let released := table.setNodeLocks rangeLock.nodeId
            (deregister { nodeLocks with rangeLocks := nodeLocks.rangeLocks.erase id })
          some
            { released with
              rangeLocks := rangeLocks
              rangeLocksByTimestamp := table.rangeLocksByTimestamp.erase id }

/-- `gzochid_lock_release_range`. -/
def gzochidLockReleaseRange (table : LockTable Key) (nodeId : Nat)
    (fromKey toKey : Option (GBytes Key)) : Option (LockTable Key) :=
  match gzochidItreeSearch nullOrder table.rangeLocks fromKey
      (findRangeLockWithOwner table nodeId fromKey toKey) none with
  | none => none
  | some none => some table
  | some (some id) => removeRangeLock table id

/-- `g_list_foreach` with a function that may have no result. -/
def foreach (remove : LockTable Key → LockId → Option (LockTable Key)) :
    List LockId → LockTable Key → Option (LockTable Key)
  | [], table => some table
  | id :: rest, table =>
      match remove table id with
      | none => none
      | some next => foreach remove rest next

/-- `gzochid_lock_release_all`. -/
def gzochidLockReleaseAll (table : LockTable Key) (nodeId : Nat) : Option (LockTable Key) :=
  match table.nodesToLocks nodeId with
  | none => some table
  | some nodeLocks =>
      match foreach removeLock nodeLocks.locks table with
      | none => none
      | some next =>
          match next.nodesToLocks nodeId with
          | none => some next
          | some nodeLocks => foreach removeRangeLock nodeLocks.rangeLocks next

inductive Call (Key : Type u) where
  | checkAndSet (nodeId : Nat) (key : GBytes Key) (forWrite : Bool) (now : Nat)
  | rangeCheckAndSet (nodeId : Nat) (fromKey toKey : Option (GBytes Key)) (now probe : Nat)
  | release (nodeId : Nat) (key : GBytes Key)
  | releaseRange (nodeId : Nat) (fromKey toKey : Option (GBytes Key))
  | releaseAll (nodeId : Nat)

/-- One call; a release observes nothing. -/
def lockTableStep (table : LockTable Key) :
    Call Key → Option (LockTable Key × Option Answer)
  | .checkAndSet nodeId key forWrite now =>
      (gzochidLockCheckAndSet table nodeId key forWrite now).map fun (table, answer) =>
        (table, some answer)
  | .rangeCheckAndSet nodeId fromKey toKey now probe =>
      (gzochidLockRangeCheckAndSet table nodeId fromKey toKey now probe).map
        fun (table, answer) => (table, some answer)
  | .release nodeId key => (gzochidLockRelease table nodeId key).map fun table => (table, none)
  | .releaseRange nodeId fromKey toKey =>
      (gzochidLockReleaseRange table nodeId fromKey toKey).map fun table => (table, none)
  | .releaseAll nodeId => (gzochidLockReleaseAll table nodeId).map fun table => (table, none)

end Gzochi.LockMem
