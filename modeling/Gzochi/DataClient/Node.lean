import Gzochi.DataClient.References
import Gzochi.DataClient.Changesets

/-!
# The values of a node

The value cache, the local store and the list of released keys, with the locks that say
when they may be used.  A grant puts the delivered value into the cache; a commit of a
transaction makes its writes visible in the store and later takes the keys that it has
deleted out of the cache; a release callback that drops the last reference to a lock takes
the key out of the cache and marks it for a purge.

The local store is taken as a correct transactional map: it keeps a key that a transaction
has changed to that transaction until it ends.
-/

namespace Gzochi.DataClient

open Lib Function

/-- Where a transaction is: between its commit and its end, its deletions are still in the
cache. -/
inductive Status where
  | running
  | committed
  | ended
  deriving DecidableEq

/-- `dataclient_purgeable_key`. -/
structure PurgeableKey where
  key : QualifiedKey
  releaseTimestamp : Nat
  deriving DecidableEq

/-- The part of the environment that is about keys and their values. -/
structure Node where
  table : LockTable
  clock : Nat
  cache : Values
  store : Values
  transaction : TxId → Transaction
  status : TxId → Status
  purgeableKeys : List PurgeableKey

inductive NodeAction where
  | begin
  | request (tx : TxId) (key : QualifiedKey) (forWrite : Bool)
  | grant (now : Nat) (data : Option Bytes)
  | refuse
  | release (now : Nat) (key : QualifiedKey)
  | get (tx : TxId) (key : QualifiedKey) (forUpdate : Bool)
  | put (tx : TxId) (now : Nat) (key : QualifiedKey) (value : Bytes)
  | delete (tx : TxId) (key : QualifiedKey)
  | commit (tx : TxId)
  | rollback (tx : TxId)
  | uncache (tx : TxId)
  | finish (tx : TxId)
  | purge
  deriving DecidableEq

/-- What is seen of a step. -/
inductive NodeReport where
  | done
  | granted (key : QualifiedKey) (data : Option Bytes)
  | released (key : QualifiedKey)
  | read (found : Option (Option Bytes))
  | deleted (found : Bool)
  | committed (changes : List Change)
  deriving DecidableEq

/-- Remove a value that is not later than the release of the key. -/
def purgeValue (values : Values) (purgeable : PurgeableKey) : Values :=
  if getTimestampFromCache values purgeable.key ≤ purgeable.releaseTimestamp then
    update values purgeable.key none
  else values

/-- `purge_key`, on the store and on the cache. -/
def purgeKey (values : Values × Values) (purgeable : PurgeableKey) : Values × Values :=
  (purgeValue values.1 purgeable, purgeValue values.2 purgeable)

/-- `purge_keys`. -/
def purgeKeys (values : Values × Values) (purgeableKeys : List PurgeableKey) : Values × Values :=
  purgeableKeys.foldl purgeKey values

namespace Node

def initial : Node where
  table := .empty
  clock := 0
  cache _ := none
  store _ := none
  transaction _ := .begin
  status _ := .ended
  purgeableKeys := []

/-- A transaction that goes on. -/
def Running (node : Node) (tx : TxId) : Prop := tx ∈ node.table.active ∧ node.status tx = .running

/-- Its deletions are in the store, and not in the cache yet. -/
def Committed (node : Node) (tx : TxId) : Prop :=
  tx ∈ node.table.active ∧ node.status tx = .committed

/-- No other transaction that goes on has changed the key. -/
def Unchanged (node : Node) (tx : TxId) (key : QualifiedKey) : Prop :=
  ∀ other ∈ node.table.active, node.status other = .running → other ≠ tx →
    ∀ change ∈ (node.transaction other).changeset, change.key ≠ key

instance (node : Node) (tx : TxId) : Decidable (node.Running tx) :=
  inferInstanceAs (Decidable (_ ∧ _))

instance (node : Node) (tx : TxId) (key : QualifiedKey) : Decidable (node.Unchanged tx key) :=
  inferInstanceAs (Decidable (∀ other ∈ node.table.active, _))

/-- `ensure_lock`, when the transaction has the lock already or it is there. -/
def ensureLock (node : Node) (tx : TxId) (key : QualifiedKey) (forWrite : Bool) : Option Node :=
  if node.Running tx then
    match (node.table.heldLock tx key).map node.table.lock with
    | some none => none
    | some (some lock) =>
        if !forWrite || lock.forWrite then some node
        else
          match node.table.checkAndSetLock tx key forWrite with
          | some (table, true) => some { node with table := table }
          | _ => none
    | none =>
        match node.table.checkAndSetLock tx key forWrite with
        | some (table, true) => some { node with table := table }
        | _ => none
  else none

/-- One step. -/
def step (node : Node) : NodeAction → Option (Node × NodeReport)
  | .begin =>
      some ({ node with
        table := node.table.createTransaction
        transaction := update node.transaction node.table.nextTx .begin
        status := update node.status node.table.nextTx .running }, .done)
  | .request tx key forWrite =>
      if node.Running tx then
        (node.table.step (.request tx key forWrite)).map fun after =>
          ({ node with table := after.1 }, .done)
      else none
  | .grant now data =>
      match node.table.registrations with
      | [] => none
      | (key, _) :: _ =>
          if node.clock ≤ now then
            (node.table.processQueuedCallback true).map fun table =>
              ({ node with
                table := table
                clock := now
                cache := update node.cache key (some (grantedValue now data)) },
                .granted key data)
          else none
  | .refuse =>
      (node.table.processQueuedCallback false).map fun table =>
        ({ node with table := table }, .done)
  | .release now key =>
      if node.clock ≤ now ∧ key ∈ node.table.timers then
        let fired : LockTable := { node.table with timers := node.table.timers.erase key }
        match fired.lockReleaseCallback key with
        | none => none
        | some (table, false) => some ({ node with table := table, clock := now }, .done)
        | some (table, true) =>
            some ({ node with
              table := table
              clock := now
              cache := update node.cache key none
              purgeableKeys := node.purgeableKeys ++ [⟨key, now⟩] }, .released key)
      else none
  | .get tx key forUpdate =>
      (node.ensureLock tx key forUpdate).map fun locked =>
        (locked, .read (getInternal locked.cache locked.store (locked.transaction tx) key))
  | .put tx now key value =>
      if node.clock ≤ now ∧ node.Unchanged tx key then
        (node.ensureLock tx key true).map fun locked =>
          ({ locked with
            clock := now
            transaction := update locked.transaction tx
              (transactionPut now (locked.transaction tx) key value) }, .done)
      else none
  | .delete tx key =>
      if node.Unchanged tx key then
        (node.ensureLock tx key true).map fun locked =>
          let deleted := transactionDelete locked.cache locked.store (locked.transaction tx) key
          ({ locked with transaction := update locked.transaction tx deleted.1 },
            .deleted deleted.2)
      else none
  | .commit tx =>
      if node.Running tx then
        some ({ node with
          store := (node.transaction tx).view node.store
          status := update node.status tx .committed },
          .committed (node.transaction tx).changeset)
      else none
  | .rollback tx =>
      if node.Running tx then
        some ({ node with status := update node.status tx .ended }, .done)
      else none
  | .uncache tx =>
      if tx ∈ node.table.active ∧ node.status tx = .committed then
        some ({ node with
          cache := fun key =>
            if key ∈ (node.transaction tx).deletedKeys then none else node.cache key
          status := update node.status tx .ended }, .done)
      else none
  | .finish tx =>
      if tx ∈ node.table.active ∧ node.status tx = .ended then
        (node.table.cleanupTransaction tx).map fun after => ({ node with table := after.1 }, .done)
      else none
  | .purge =>
      if node.table.active = [] then
        let purged := purgeKeys (node.store, node.cache) node.purgeableKeys
        some ({ node with store := purged.1, cache := purged.2, purgeableKeys := [] }, .done)
      else none

/-- A grant counts its reference, delivers no empty value and comes later than what is
stored for the key and than the releases of it that are still to be purged; no transaction
that goes on has put the key before, and none has deleted it that is committed and not
ended.  Nothing empty is put.  What is read is not missing because of a deletion that is
committed and not out of the cache yet. -/
def Fresh (node : Node) : NodeAction → Prop
  | .grant now data => data ≠ some [] ∧ ∀ registration ∈ node.table.registrations.head?,
      (registration.2 = false → node.table.locks registration.1 = none) ∧
      getTimestampFromCache node.store registration.1 < now ∧
      (∀ purgeable ∈ node.purgeableKeys, purgeable.key = registration.1 →
        purgeable.releaseTimestamp < now) ∧
      (∀ tx ∈ node.table.active, node.status tx = .running →
        ∀ write ∈ (node.transaction tx).writes registration.1, ∀ put ∈ write, now ≤ put.timestamp) ∧
      ∀ tx ∈ node.table.active, node.status tx = .committed →
        registration.1 ∉ (node.transaction tx).deletedKeys
  | .put _ _ _ value => value ≠ []
  | .get _ key _ => node.store key = none → ∀ tx ∈ node.table.active,
      node.status tx = .committed → key ∉ (node.transaction tx).deletedKeys
  | .begin | .request _ _ _ | .refuse | .release _ _ | .delete _ _ | .commit _ | .rollback _
  | .uncache _ | .finish _ | .purge => True

end Node

/-! ## What should be read -/

/-- What the last grants have delivered and the transactions that were committed since have
written. -/
def latest (trace : List (NodeAction × NodeReport)) : Contents :=
  trace.foldl (fun contents entry =>
    match entry.2 with
    | .granted key data => update contents key data
    | .committed changes => replay contents changes
    | _ => contents) fun _ => none

/-- The key to which a step gives a value, and when. -/
def stamped : NodeAction × NodeReport → Option (QualifiedKey × Nat)
  | (.grant now _, .granted key _) => some (key, now)
  | (.put _ now key _, _) => some (key, now)
  | _ => none

end Gzochi.DataClient
