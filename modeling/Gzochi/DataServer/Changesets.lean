import Gzochi.LockMem.Checks

/-!
# Changesets in the data server

The data server applies the changes of a node in one transaction of its storage engine.
Each change has to name a store and a key that the node has locked for write; the first
one that does not, or that the engine cannot write, ends the loop, and the transaction is
rolled back.

The storage engine is a parameter.  What is asked of it is that a transaction is committed
as a whole or not at all; at any operation it may mark the transaction for rollback.
-/

namespace Gzochi.DataServer

open Gzochi.LockMem
open Gzochi.Lib

universe u v

/-- The stores of an application that have locks. -/
inductive StoreName where
  | oids
  | names
  deriving DecidableEq

/-- `gzochid_data_change`; a change without data is a deletion.  The records with nothing in
them that the decoder leaves of a changeset that is cut off are no changes. -/
structure Change (Key : Type u) (Value : Type v) where
  store : String
  key : GBytes Key
  data : Option Value

/-- `gzochid_data_changeset`. -/
structure Changeset (Key : Type u) (Value : Type v) where
  app : String
  changes : List (Change Key Value)

/-- The codes of `GZOCHI_METAD_DATASERVER_ERROR`. -/
inductive ErrorCode where
  | storeName
  | lockConflict
  | failed
  deriving DecidableEq

/-- What is put in the place of `%s` in a message. -/
inductive Argument (Key : Type u) where
  | name (name : String)
  | key (key : Key)
  | nothing

/-- `GError`. -/
structure GError (Key : Type u) where
  code : ErrorCode
  format : String
  argument : Argument Key

/-- What is in the stores of an application. -/
abbrev Contents (Key : Type u) (Value : Type v) := StoreName → Key → Option Value

section Contents

variable {Key : Type u} {Value : Type v} [DecidableEq Key]

/-- The contents with one value changed, or removed. -/
def Contents.set (contents : Contents Key Value) (store : StoreName) (key : Key)
    (value : Option Value) : Contents Key Value :=
  fun otherStore otherKey =>
    if otherStore = store ∧ otherKey = key then value else contents otherStore otherKey

end Contents

/-- `gzochid_storage_engine_interface`, as far as the data server uses it to write. -/
structure StorageEngine (Key : Type u) (Value : Type v) where
  Transaction : Type (max u v)
  transactionBegin : Contents Key Value → Transaction
  transactionPut : Transaction → StoreName → Key → Value → Transaction
  transactionDelete : Transaction → StoreName → Key → Transaction
  transactionPrepare : Transaction → Transaction
  transactionCommit : Transaction → Contents Key Value
  transactionRollback : Transaction → Contents Key Value
  /-- The field `rollback` of a transaction. -/
  rollback : Transaction → Bool

/-- A storage engine that commits a transaction as a whole, or rolls it back. -/
structure AtomicEngine (Key : Type u) (Value : Type v) [LinearOrder Key] extends
    StorageEngine Key Value where
  /-- What the stores had in them when the transaction began. -/
  before : Transaction → Contents Key Value
  /-- What the transaction has made of that. -/
  changed : Transaction → Contents Key Value
  begin_before : ∀ contents, before (transactionBegin contents) = contents
  begin_changed : ∀ contents, changed (transactionBegin contents) = contents
  put_before : ∀ transaction store key value,
    before (transactionPut transaction store key value) = before transaction
  put_changed : ∀ transaction store key value,
    rollback (transactionPut transaction store key value) = false →
      changed (transactionPut transaction store key value) =
        (changed transaction).set store key (some value)
  delete_before : ∀ transaction store key,
    before (transactionDelete transaction store key) = before transaction
  delete_changed : ∀ transaction store key,
    rollback (transactionDelete transaction store key) = false →
      changed (transactionDelete transaction store key) = (changed transaction).set store key none
  prepare_before : ∀ transaction, before (transactionPrepare transaction) = before transaction
  prepare_changed : ∀ transaction, rollback (transactionPrepare transaction) = false →
    changed (transactionPrepare transaction) = changed transaction
  commit_changed : ∀ transaction, rollback transaction = false →
    transactionCommit transaction = changed transaction
  rollback_before : ∀ transaction, transactionRollback transaction = before transaction

/-- `GzochiMetadDataServer`: what is stored for each application, and the lock tables of
the applications whose stores are open. -/
structure Server (Key : Type u) (Value : Type v) where
  storage : String → Contents Key Value
  applicationStores : String → Option (StoreName → LockTable Key)

/-- `get_lockable_store`. -/
def getLockableStore {Key : Type u} (name : String) : Except (GError Key) StoreName :=
  if name = "oids" then .ok .oids
  else if name = "names" then .ok .names
  else .error ⟨.storeName, "Invalid store name '%s'.", .name name⟩

variable {Key : Type u} {Value : Type v} [LinearOrder Key]

/-- `ensure_open_application_store`; `unlocked` are the lock tables of a store that is
opened. -/
def ensureOpenApplicationStore (unlocked : StoreName → LockTable Key) (server : Server Key Value)
    (app : String) : Server Key Value × (StoreName → LockTable Key) :=
  match server.applicationStores app with
  | some tables => (server, tables)
  | none =>
      ({ server with
          applicationStores := Function.update server.applicationStores app (some unlocked) },
        unlocked)

section Engine

variable (engine : StorageEngine Key Value)

/-- Write a change to the store it names. -/
def writeChange (transaction : engine.Transaction) (store : StoreName)
    (change : Change Key Value) : engine.Transaction :=
  match change.data with
  | none => engine.transactionDelete transaction store change.key.content
  | some data => engine.transactionPut transaction store change.key.content data

/-- The loop of `gzochi_metad_dataserver_process_changeset`, with the error that ends it. -/
def writeChanges (tables : StoreName → LockTable Key) (nodeId : Nat) :
    engine.Transaction → List (Change Key Value) → engine.Transaction × Option (GError Key)
  | transaction, [] => (transaction, none)
  | transaction, change :: changes =>
      match getLockableStore change.store with
      | .error error => (transaction, some error)
      | .ok store =>
          if gzochidLockCheck (tables store) nodeId change.key true then
            let written := writeChange engine transaction store change
            if engine.rollback written then
              (written, some ⟨.lockConflict, "Transaction failure writing oid '%s'.",
                .key change.key.content⟩)
            else writeChanges tables nodeId written changes
          else
            (transaction, some ⟨.lockConflict,
              "Attempted to commit change to oid '%s' without write lock.",
              .key change.key.content⟩)

/-- `gzochi_metad_dataserver_process_changeset`. -/
def processChangeset (unlocked : StoreName → LockTable Key) (server : Server Key Value)
    (nodeId : Nat) (changeset : Changeset Key Value) :
    Server Key Value × Option (GError Key) :=
  let opened := ensureOpenApplicationStore unlocked server changeset.app
  let begun := engine.transactionBegin (opened.1.storage changeset.app)
  let stored (contents : Contents Key Value) : Server Key Value :=
    { opened.1 with storage := Function.update opened.1.storage changeset.app contents }
  match writeChanges engine opened.2 nodeId begun changeset.changes with
  | (transaction, some error) => (stored (engine.transactionRollback transaction), some error)
  | (transaction, none) =>
      let prepared := engine.transactionPrepare transaction
      if engine.rollback prepared then
        (stored (engine.transactionRollback prepared),
          some ⟨.failed, "Transaction failed to prepare.", .nothing⟩)
      else (stored (engine.transactionCommit prepared), none)

/-- The engine does not mark the transaction for rollback while it writes the changes and
prepares. -/
def Completes : engine.Transaction → List (Change Key Value) → Prop
  | transaction, [] => engine.rollback (engine.transactionPrepare transaction) = false
  | transaction, change :: changes =>
      ∀ store, (getLockableStore change.store : Except (GError Key) StoreName) = .ok store →
        engine.rollback (writeChange engine transaction store change) = false ∧
          Completes (writeChange engine transaction store change) changes

end Engine

/-! ## All or nothing -/

/-- A change names a store, and the node has its key locked for write there. -/
def Permitted (tables : StoreName → LockTable Key) (nodeId : Nat) (change : Change Key Value) :
    Prop :=
  ∃ store, (getLockableStore change.store : Except (GError Key) StoreName) = .ok store ∧
    HoldsWriteLock (tables store) nodeId change.key.content

/-- The change of one value, where the store exists. -/
def Contents.apply (contents : Contents Key Value) (change : Change Key Value) :
    Contents Key Value :=
  match (getLockableStore change.store : Except (GError Key) StoreName) with
  | .error _ => contents
  | .ok store => contents.set store change.key.content change.data

variable {engine : AtomicEngine Key Value} {tables : StoreName → LockTable Key} {nodeId : Nat}
  {transaction : engine.Transaction} {store : StoreName} {change : Change Key Value}
  {changes : List (Change Key Value)}

theorem writeChange_before :
    engine.before (writeChange engine.toStorageEngine transaction store change) =
      engine.before transaction := by
  unfold writeChange
  split
  · exact engine.delete_before _ _ _
  · exact engine.put_before _ _ _ _

theorem writeChange_changed
    (unmarked : engine.rollback (writeChange engine.toStorageEngine transaction store change) =
      false) :
    engine.changed (writeChange engine.toStorageEngine transaction store change) =
      (engine.changed transaction).set store change.key.content change.data := by
  unfold writeChange at unmarked ⊢
  split at unmarked
  · rename_i none
    simp only [none]
    exact engine.delete_changed _ _ _ unmarked
  · rename_i data some
    simp only [some]
    exact engine.put_changed _ _ _ _ unmarked

theorem writeChanges_before : engine.before
        (writeChanges engine.toStorageEngine tables nodeId transaction changes).1 =
      engine.before transaction := by
  induction changes generalizing transaction with
  | nil => rfl
  | cons change changes ih =>
    unfold writeChanges
    split
    · rfl
    · split
      · dsimp only
        split
        · exact writeChange_before
        · rw [ih]
          exact writeChange_before
      · rfl

/-- The loop ends without an error when all changes are permitted and written, and then the
transaction has applied them from left to right. -/
theorem writeChanges_none_iff (reached : ∀ store, Reached (tables store)) :
    ((writeChanges engine.toStorageEngine tables nodeId transaction changes).2 = none ∧
      engine.rollback (engine.transactionPrepare
        (writeChanges engine.toStorageEngine tables nodeId transaction changes).1) = false) ↔
    (∀ change ∈ changes, Permitted tables nodeId change) ∧
      Completes engine.toStorageEngine transaction changes := by
  induction changes generalizing transaction with
  | nil => simp [writeChanges, Completes]
  | cons change changes ih =>
    unfold writeChanges Completes
    rw [List.forall_mem_cons]
    split
    · rename_i error wrong
      refine ⟨fun done => absurd done.1 (Option.some_ne_none _), ?_⟩
      rintro ⟨⟨⟨store, named, -⟩, -⟩, -⟩
      rw [wrong] at named
      cases named
    · rename_i store named
      have onlyStore : ∀ other, (getLockableStore change.store : Except (GError Key) StoreName) =
          .ok other → other = store := by
        intro other same
        rw [named] at same
        cases same
        rfl
      have holds : gzochidLockCheck (tables store) nodeId change.key true = true ↔
          HoldsWriteLock (tables store) nodeId change.key.content :=
        lockCheck_iff (reached store).points
      split
      · rename_i checked
        dsimp only
        split
        · rename_i marked
          refine ⟨fun done => absurd done.1 (Option.some_ne_none _), ?_⟩
          rintro ⟨-, completes⟩
          rw [(completes store named).1] at marked
          cases marked
        · rename_i unmarked
          rw [ih]
          constructor
          · rintro ⟨permitted, completes⟩
            refine ⟨⟨⟨store, named, holds.mp checked⟩, permitted⟩, fun other same => ?_⟩
            rw [onlyStore other same]
            exact ⟨Bool.not_eq_true _ ▸ unmarked, completes⟩
          · rintro ⟨⟨-, permitted⟩, completes⟩
            exact ⟨permitted, (completes store named).2⟩
      · rename_i unchecked
        refine ⟨fun done => absurd done.1 (Option.some_ne_none _), ?_⟩
        rintro ⟨⟨⟨other, same, held⟩, -⟩, -⟩
        rw [onlyStore other same] at held
        exact absurd (holds.mpr held) unchecked

theorem writeChanges_changed
    (done : (writeChanges engine.toStorageEngine tables nodeId transaction changes).2 = none) :
    engine.changed (writeChanges engine.toStorageEngine tables nodeId transaction changes).1 =
      changes.foldl Contents.apply (engine.changed transaction) := by
  induction changes generalizing transaction with
  | nil => rfl
  | cons change changes ih =>
    unfold writeChanges at done ⊢
    split at done
    · cases done
    · rename_i store named
      split at done
      · rename_i checked
        dsimp only at done
        split at done
        · cases done
        · rename_i unmarked
          have applied : (engine.changed transaction).apply change =
              (engine.changed transaction).set store change.key.content change.data := by
            simp only [Contents.apply, named]
          simp only [if_pos checked, if_neg unmarked]
          rw [ih done, List.foldl_cons, applied,
            writeChange_changed (Bool.eq_false_iff.mpr unmarked)]
      · cases done

/-- The tables of the application as the loop sees them. -/
def Server.locks (unlocked : StoreName → LockTable Key) (server : Server Key Value)
    (app : String) : StoreName → LockTable Key :=
  (server.applicationStores app).getD unlocked

omit [LinearOrder Key] in
theorem ensureOpenApplicationStore_eq (unlocked : StoreName → LockTable Key)
    (server : Server Key Value) (app : String) :
    (ensureOpenApplicationStore unlocked server app).1.storage = server.storage ∧
    (ensureOpenApplicationStore unlocked server app).2 = server.locks unlocked app := by
  unfold ensureOpenApplicationStore Server.locks
  split
  · rename_i tables opened
    simp only [opened, Option.getD_some, and_self]
  · rename_i closed
    simp only [closed, Option.getD_none, and_self]

/-- The stores of the application after a changeset, and the error. -/
theorem processChangeset_eq (engine : StorageEngine Key Value)
    (unlocked : StoreName → LockTable Key) (server : Server Key Value) (nodeId : Nat)
    (changeset : Changeset Key Value) {written : engine.Transaction × Option (GError Key)}
    (loop : writeChanges engine (server.locks unlocked changeset.app) nodeId
      (engine.transactionBegin (server.storage changeset.app)) changeset.changes = written) :
    ((processChangeset engine unlocked server nodeId changeset).1.storage,
        (processChangeset engine unlocked server nodeId changeset).2) =
      match written with
      | (transaction, some error) =>
        (Function.update server.storage changeset.app (engine.transactionRollback transaction),
          some error)
      | (transaction, none) =>
        if engine.rollback (engine.transactionPrepare transaction) then
          (Function.update server.storage changeset.app
              (engine.transactionRollback (engine.transactionPrepare transaction)),
            some ⟨.failed, "Transaction failed to prepare.", .nothing⟩)
        else
          (Function.update server.storage changeset.app
              (engine.transactionCommit (engine.transactionPrepare transaction)), none) := by
  obtain ⟨storage, tables⟩ := ensureOpenApplicationStore_eq unlocked server changeset.app
  unfold processChangeset
  simp only [storage, tables, loop]
  obtain ⟨transaction, error⟩ := written
  cases error with
  | some error => rfl
  | none =>
    dsimp only
    split
    · rfl
    · rfl

/-- An engine that never fails. -/
def plainEngine (Key : Type u) (Value : Type v) [LinearOrder Key] : AtomicEngine Key Value where
  Transaction := Contents Key Value × Contents Key Value
  transactionBegin contents := (contents, contents)
  transactionPut transaction store key value :=
    (transaction.1, transaction.2.set store key (some value))
  transactionDelete transaction store key := (transaction.1, transaction.2.set store key none)
  transactionPrepare transaction := transaction
  transactionCommit transaction := transaction.2
  transactionRollback transaction := transaction.1
  rollback _ := false
  before transaction := transaction.1
  changed transaction := transaction.2
  begin_before _ := rfl
  begin_changed _ := rfl
  put_before _ _ _ _ := rfl
  put_changed _ _ _ _ _ := rfl
  delete_before _ _ _ := rfl
  delete_changed _ _ _ _ := rfl
  prepare_before _ := rfl
  prepare_changed _ _ := rfl
  commit_changed _ _ := rfl
  rollback_before _ := rfl

theorem plainEngine_completes (changes : List (Change Bytes Nat))
    (transaction : (plainEngine Bytes Nat).Transaction) :
    Completes (plainEngine Bytes Nat).toStorageEngine transaction changes := by
  induction changes generalizing transaction with
  | nil => rfl
  | cons change changes ih => exact fun _ _ => ⟨rfl, ih _⟩

/-- Node 1 has the key `m` of the objects locked for write. -/
def lockedServer : Server Bytes Nat where
  storage _ _ _ := none
  applicationStores app :=
    if app = "chat" then some fun
      | .oids => afterCalls [lockM]
      | .names => afterCalls []
    else none

/-- It is put, deleted and put again. -/
def threeChanges : List (Change Bytes Nat) :=
  [⟨"oids", ⟨7, [109]⟩, some 5⟩, ⟨"oids", ⟨8, [109]⟩, none⟩, ⟨"oids", ⟨9, [109]⟩, some 6⟩]

end Gzochi.DataServer
