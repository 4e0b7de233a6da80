import Mathlib.Data.List.Nodup
import Gzochi.Lib.Runs

/-!
# Point locks of the data client

An application server of a cluster gets locks on keys from the meta server and keeps
them in the lock table of `storage-dataclient.c` for all its transactions.  A granted
request brings a release callback after some time.  The lock goes back to the meta server
when nothing refers to it any more: no release callback that is still to come, and no
transaction that uses it.

Whether a transaction that waits for a lock sends a request of its own, waits for that of
another one or gives up is left open, and so are the times.  Locks are memory: `none` is
what is freed.
-/

namespace Gzochi.DataClient

open Lib Function

abbrev Bytes := List UInt8

/-- `dataclient_qualified_key`. -/
structure QualifiedKey where
  store : Bytes
  key : Bytes
  deriving DecidableEq

/-- A key of the store `oids`. -/
def someKey : QualifiedKey := ⟨[111, 105, 100, 115], [7]⟩

abbrev LockId := Nat

abbrev TxId := Nat

/-- `dataclient_lock`. -/
structure Lock where
  key : QualifiedKey
  forWrite : Bool
  refCount : Int
  deriving DecidableEq

/-- The locks of the environment, the locks of each active transaction, the requests that
the meta server has not answered yet and the release callbacks that are still to come. -/
structure LockTable where
  lock : LockId → Option Lock
  nextLock : LockId
  locks : QualifiedKey → Option LockId
  evictedKeys : List QualifiedKey
  active : List TxId
  nextTx : TxId
  held : TxId → List (QualifiedKey × LockId)
  registrations : List (QualifiedKey × Bool)
  timers : List QualifiedKey

def LockTable.empty : LockTable where
  lock _ := none
  nextLock := 0
  locks _ := none
  evictedKeys := []
  active := []
  nextTx := 0
  held _ := []
  registrations := []
  timers := []

namespace LockTable

/-- `lock_unref`; whether the lock has been released and freed. -/
def lockUnref (table : LockTable) (id : LockId) : Option (LockTable × Bool) :=
  match table.lock id with
  | none => none
  | some lock =>
      if lock.refCount - 1 ≤ 0 then
        some ({ table with
          lock := update table.lock id none
          evictedKeys := table.evictedKeys.erase lock.key }, true)
      else
        some ({ table with
          lock := update table.lock id
            (some { lock with refCount := lock.refCount - 1 }) }, false)

/-- The part of `lock_success_callback` that is about the lock. -/
def lockSuccessCallback (table : LockTable) (key : QualifiedKey) (forWrite : Bool) :
    Option LockTable :=
  match table.locks key with
  | none =>
      some { table with
        lock := update table.lock table.nextLock (some ⟨key, forWrite, 1⟩)
        nextLock := table.nextLock + 1
        locks := update table.locks key (some table.nextLock) }
  | some id =>
      match table.lock id with
      | none => none
      | some lock =>
          if forWrite then
            some { table with
              lock := update table.lock id
                (some { lock with refCount := lock.refCount + 1, forWrite := true }) }
          else some table

/-- `lock_release_callback`; whether the lock has been released. -/
def lockReleaseCallback (table : LockTable) (key : QualifiedKey) : Option (LockTable × Bool) :=
  match table.locks key with
  | none => some (table, false)
  | some id =>
      match table.lockUnref id with
      | none => none
      | some (after, false) =>
          some (if key ∈ after.evictedKeys then after
            else { after with evictedKeys := key :: after.evictedKeys }, false)
      | some (after, true) =>
          some ({ after with locks := update after.locks key none }, true)

/-- The lock that the transaction has for a key, in its own table. -/
def heldLock (table : LockTable) (tx : TxId) (key : QualifiedKey) : Option LockId :=
  ((table.held tx).find? fun entry => entry.1 = key).map Prod.snd

/-- `check_and_set_lock`. -/
def checkAndSetLock (table : LockTable) (tx : TxId) (key : QualifiedKey) (forWrite : Bool) :
    Option (LockTable × Bool) :=
  match table.locks key with
  | none => some (table, false)
  | some id =>
      match table.lock id with
      | none => none
      | some lock =>
          if !forWrite || lock.forWrite then
            if (table.heldLock tx key).isSome then some (table, true)
            else
              some ({ table with
                lock := update table.lock id
                  (some { lock with refCount := lock.refCount + 1 })
                held := update table.held tx (table.held tx ++ [(key, id)]) }, true)
          else some (table, false)

/-- The traversal of the locks of a transaction in `cleanup_transaction`, with the keys that
have been released. -/
def unrefLocks : LockTable → List (QualifiedKey × LockId) → Option (LockTable × List QualifiedKey)
  | table, [] => some (table, [])
  | table, (key, id) :: rest =>
      match table.lockUnref id with
      | none => none
      | some (after, freed) =>
          match unrefLocks after rest with
          | none => none
          | some (last, released) => some (last, if freed then key :: released else released)

/-- Remove the released keys from the lock table of the environment. -/
def removeKeys (table : LockTable) : List QualifiedKey → LockTable
  | [] => table
  | key :: rest => removeKeys { table with locks := update table.locks key none } rest

/-- The part of `cleanup_transaction` that is about point locks. -/
def cleanupTransaction (table : LockTable) (tx : TxId) :
    Option (LockTable × List QualifiedKey) :=
  match table.unrefLocks (table.held tx) with
  | none => none
  | some (after, released) =>
      let removed := after.removeKeys released
      some ({ removed with
        active := removed.active.erase tx
        held := update removed.held tx [] }, released)

/-- `create_transaction`. -/
def createTransaction (table : LockTable) : LockTable :=
  { table with
    active := table.active ++ [table.nextTx]
    nextTx := table.nextTx + 1
    held := update table.held table.nextTx [] }

end LockTable

/-- What can happen to the lock table. -/
inductive LockAction where
  | begin
  | acquire (tx : TxId) (key : QualifiedKey) (forWrite : Bool)
  | request (tx : TxId) (key : QualifiedKey) (forWrite : Bool)
  | respond (success : Bool)
  | release (key : QualifiedKey)
  | finish (tx : TxId)
  deriving DecidableEq

namespace LockTable

/-- The response to the oldest request, in `process_queued_callback`. -/
def processQueuedCallback (table : LockTable) (success : Bool) : Option LockTable :=
  match table.registrations with
  | [] => none
  | (key, forWrite) :: rest =>
      let popped := { table with registrations := rest }
      if success then
        (popped.lockSuccessCallback key forWrite).map fun after =>
          { after with timers := after.timers ++ [key] }
      else some popped

/-- One step, with the keys that are released to the meta server in it. -/
def step (table : LockTable) : LockAction → Option (LockTable × List QualifiedKey)
  | .begin => some (table.createTransaction, [])
  | .acquire tx key forWrite =>
      if tx ∈ table.active then
        (table.checkAndSetLock tx key forWrite).map fun result => (result.1, [])
      else none
  | .request tx key forWrite =>
      if tx ∈ table.active then
        some ({ table with registrations := table.registrations ++ [(key, forWrite)] }, [])
      else none
  | .respond success => (table.processQueuedCallback success).map fun after => (after, [])
  | .release key =>
      if key ∈ table.timers then
        let fired : LockTable := { table with timers := table.timers.erase key }
        (fired.lockReleaseCallback key).map fun result =>
          (result.1, if result.2 then [key] else [])
      else none
  | .finish tx => if tx ∈ table.active then table.cleanupTransaction tx else none

end LockTable

end Gzochi.DataClient
