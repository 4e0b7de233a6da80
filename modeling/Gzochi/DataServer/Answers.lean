import Mathlib.Data.Set.Finite.Lemmas
import Gzochi.DataServer.Changesets
import Gzochi.LockMem.Grants

/-!
# Answers of the data server

The data server answers a request for a key with the key's value once the node has a lock on it,
and a request for the next key with the least key after the given one once the node has a lock on
the range up to it.  A request that is denied is answered with a time to wait, which nothing sets:
its seconds are the empty pointer to the data, with which it shares its memory, and its
microseconds are what was in the memory before.

The storage engine is a parameter, a map that is ordered by its keys.
-/

namespace Gzochi.DataServer

open Gzochi.LockMem
open Gzochi.Lib
open IntervalTree (PointerTree Visited)

universe u v w

/-- `struct timeval`. -/
structure Timeval where
  sec : Nat
  usec : Nat
  deriving DecidableEq

/-- `gzochid_data_response`.  The data and the timeout are members of a union: the pointer to the
data and the seconds are the same memory, and the microseconds come after it. -/
structure DataResponse (Content : Type w) where
  app : String
  store : String
  success : Bool
  data : Option Content
  usec : Nat

/-- The other member of the union; without data, the seconds are `NULL`. -/
def DataResponse.timeout {Content : Type w} (response : DataResponse Content) : Option Timeval :=
  match response.data with
  | none => some ⟨0, response.usec⟩
  | some _ => none

/-- `gzochid_data_response_new`, which leaves the memory after the pointer to the data as it
was. -/
def gzochidDataResponseNew {Content : Type w} (memory : DataResponse Content) (app store : String)
    (success : Bool) (data : Option Content) : Option (DataResponse Content) :=
  if data.isSome && !success then none
  else some { memory with app := app, store := store, success := success, data := data }

/-- `gzochid_storage_engine_interface`, with what the data server uses to read. -/
structure LookupEngine (Key : Type u) (Value : Type v) extends StorageEngine Key Value where
  transactionGet : Transaction → StoreName → Key → Transaction × Option Value
  transactionFirstKey : Transaction → StoreName → Transaction × Option Key
  transactionNextKey : Transaction → StoreName → Key → Transaction × Option Key

section Contents

variable {Key : Type u} {Value : Type v} [LinearOrder Key]

/-- The keys in a store, or those after one. -/
def Contents.keysAfter (contents : Contents Key Value) (store : StoreName) (after : Option Key) :
    Set Key :=
  fun key => contents store key ≠ none ∧ ∀ bound, after = some bound → bound < key

/-- The least of them, if there are any. -/
def Contents.IsNext (contents : Contents Key Value) (store : StoreName) (after : Option Key) :
    Option Key → Prop
  | some key => IsLeast (contents.keysAfter store after) key
  | none => ∀ key, key ∉ contents.keysAfter store after

/-- There are finitely many keys in every store. -/
def Contents.Stored (contents : Contents Key Value) : Prop :=
  ∀ store, (contents.keysAfter store none).Finite

theorem Contents.IsNext.unique {contents : Contents Key Value} {store : StoreName}
    {after first second : Option Key} (isFirst : contents.IsNext store after first)
    (isSecond : contents.IsNext store after second) : first = second := by
  cases first with
  | none =>
    cases second with
    | none => rfl
    | some key => exact absurd isSecond.1 (isFirst key)
  | some key =>
    cases second with
    | none => exact absurd isFirst.1 (isSecond key)
    | some other => exact congrArg some (IsLeast.unique isFirst isSecond)

end Contents

/-- A storage engine that reads what is stored, in the order of the keys. -/
structure OrderedEngine (Key : Type u) (Value : Type v) [LinearOrder Key] extends
    LookupEngine Key Value where
  get_value : ∀ contents store key,
    (transactionGet (transactionBegin contents) store key).2 = contents store key
  get_rollback : ∀ contents store key,
    transactionRollback (transactionGet (transactionBegin contents) store key).1 = contents
  first_key : ∀ (contents : Contents Key Value) store, contents.Stored →
    contents.IsNext store none (transactionFirstKey (transactionBegin contents) store).2
  first_unmarked : ∀ contents store,
    rollback (transactionFirstKey (transactionBegin contents) store).1 = false
  first_rollback : ∀ contents store,
    transactionRollback (transactionFirstKey (transactionBegin contents) store).1 = contents
  next_key : ∀ (contents : Contents Key Value) store key, contents.Stored →
    contents.IsNext store (some key) (transactionNextKey (transactionBegin contents) store key).2
  next_unmarked : ∀ contents store key,
    rollback (transactionNextKey (transactionBegin contents) store key).1 = false
  next_rollback : ∀ contents store key,
    transactionRollback (transactionNextKey (transactionBegin contents) store key).1 = contents

theorem OrderedEngine.exists_next {Key : Type u} {Value : Type v} [LinearOrder Key]
    (engine : OrderedEngine Key Value) {contents : Contents Key Value} (stored : contents.Stored)
    (store : StoreName) (after : Option Key) : ∃ next, contents.IsNext store after next := by
  cases after with
  | none => exact ⟨_, engine.first_key contents store stored⟩
  | some key => exact ⟨_, engine.next_key contents store key stored⟩

variable {Key : Type u} {Value : Type v}

/-- An application whose stores are open has one of its lock tables changed. -/
def Server.setLocks (server : Server Key Value) (app : String)
    (tables : StoreName → LockTable Key) (store : StoreName) (table : LockTable Key) :
    Server Key Value :=
  { server with
    applicationStores := Function.update server.applicationStores app
      (some (Function.update tables store table)) }

def Server.setStorage (server : Server Key Value) (app : String) (contents : Contents Key Value) :
    Server Key Value :=
  { server with storage := Function.update server.storage app contents }

variable [LinearOrder Key]

/-- What is around a request: the engine, the lock tables of stores that are opened, the time,
where a search without a key begins, and where a new key is put. -/
structure Surroundings (Key : Type u) (Value : Type v) where
  engine : LookupEngine Key Value
  unlocked : StoreName → LockTable Key
  now : Nat
  probe : Nat
  address : Nat

/-- `gzochi_metad_dataserver_request_value`. -/
def Surroundings.requestValue (around : Surroundings Key Value) (memory : DataResponse Value)
    (server : Server Key Value) (nodeId : Nat) (app storeName : String) (key : GBytes Key)
    (forWrite : Bool) :
    Option (Server Key Value × Except (GError Key) (DataResponse Value)) :=
  let opened := ensureOpenApplicationStore around.unlocked server app
  match getLockableStore storeName with
  | .error error => some (opened.1, .error error)
  | .ok store =>
      match gzochidLockCheckAndSet (opened.2 store) nodeId key forWrite around.now with
      | none => none
      | some (table, .granted) =>
          let locked := opened.1.setLocks app opened.2 store table
          let begun := around.engine.transactionBegin (opened.1.storage app)
          let found := around.engine.transactionGet begun store key.content
          (gzochidDataResponseNew memory app storeName true found.2).map fun response =>
            (locked.setStorage app (around.engine.transactionRollback found.1), .ok response)
      | some (table, .refused _) =>
          (gzochidDataResponseNew memory app storeName false none).map fun response =>
            (opened.1.setLocks app opened.2 store table, .ok response)

/-- `gzochi_metad_dataserver_request_next_key`. -/
def Surroundings.requestNextKey (around : Surroundings Key Value)
    (memory : DataResponse (GBytes Key)) (server : Server Key Value) (nodeId : Nat)
    (app storeName : String)
    (key : Option (GBytes Key)) :
    Option (Server Key Value × Except (GError Key) (DataResponse (GBytes Key))) :=
  let opened := ensureOpenApplicationStore around.unlocked server app
  match getLockableStore storeName with
  | .error error => some (opened.1, .error error)
  | .ok store =>
      let begun := around.engine.transactionBegin (opened.1.storage app)
      let found :=
        match key with
        | none => around.engine.transactionFirstKey begun store
        | some key => around.engine.transactionNextKey begun store key.content
      if around.engine.rollback found.1 then none
      else
        let toKey := found.2.map fun content => ⟨around.address, content⟩
        let read := opened.1.setStorage app (around.engine.transactionRollback found.1)
        match gzochidLockRangeCheckAndSet (opened.2 store) nodeId key toKey around.now
            around.probe with
        | none => none
        | some (table, .refused _) =>
            (gzochidDataResponseNew memory app storeName false none).map fun response =>
              (read.setLocks app opened.2 store table, .ok response)
        | some (table, .granted) =>
            (gzochidDataResponseNew memory app storeName true toKey).map fun response =>
              (read.setLocks app opened.2 store table, .ok response)

section

variable (around : Surroundings Key Value) (server : Server Key Value) (nodeId : Nat)
  (app storeName : String) (store : StoreName)

/-- Neither the stores nor the lock tables are changed. -/
def Unchanged (after : Server Key Value) : Prop :=
  after.storage = server.storage ∧
    ∀ app, after.locks around.unlocked app = server.locks around.unlocked app

/-- A request for a value is answered truthfully, whatever the memory of the answer has had
in it. -/
structure ValueTruthful (key : GBytes Key) (forWrite : Bool) : Prop where
  granted : ∀ memory, ∃ after response,
    around.requestValue memory server nodeId app storeName key forWrite =
      some (after, .ok response) ∧
    (response.success = true ↔
      PointGrantable (server.locks around.unlocked app store) nodeId key.content forWrite)
  value : ∀ memory after response,
    around.requestValue memory server nodeId app storeName key forWrite =
      some (after, .ok response) → response.success = true →
    response.data = server.storage app store key.content ∧ after.storage = server.storage
  denied : ∀ memory after response,
    around.requestValue memory server nodeId app storeName key forWrite =
      some (after, .ok response) → response.success = false → Unchanged around server after
  waits : ∃ wait, ∀ memory after response,
    around.requestValue memory server nodeId app storeName key forWrite =
      some (after, .ok response) → response.success = false → response.timeout = some wait

/-- The range from a key to its successor. -/
def toSuccessor (successor : Option Key) : Option (GBytes Key) :=
  successor.map fun content => ⟨around.address, content⟩

/-- A request for the next key is answered truthfully. -/
structure NextKeyTruthful (key : Option (GBytes Key)) : Prop where
  granted : ∀ memory, ∃ after response,
    around.requestNextKey memory server nodeId app storeName key = some (after, .ok response) ∧
    (response.success = true ↔ ∀ successor,
      (server.storage app).IsNext store (key.map GBytes.content) successor →
      RangeGrantable (server.locks around.unlocked app store) nodeId key
        (toSuccessor around successor))
  successor : ∀ memory after response,
    around.requestNextKey memory server nodeId app storeName key = some (after, .ok response) →
    response.success = true →
    (server.storage app).IsNext store (key.map GBytes.content)
        (response.data.map GBytes.content) ∧
      after.storage = server.storage ∧
      ∃ id, rangeLocksOf (after.locks around.unlocked app store) nodeId =
          id :: rangeLocksOf (server.locks around.unlocked app store) nodeId ∧
        (after.locks around.unlocked app store).rangeLock id =
          ⟨nodeId, key, response.data, around.now⟩
  denied : ∀ memory after response,
    around.requestNextKey memory server nodeId app storeName key = some (after, .ok response) →
    response.success = false → Unchanged around server after
  waits : ∃ wait, ∀ memory after response,
    around.requestNextKey memory server nodeId app storeName key = some (after, .ok response) →
    response.success = false → response.timeout = some wait

end

section

variable {server after : Server Key Value} {unlocked : StoreName → LockTable Key}
  {tables : StoreName → LockTable Key} {store : StoreName} {table : LockTable Key}
  {app : String}

omit [LinearOrder Key] in
theorem locks_setLocks (other : String) :
    (server.setLocks app tables store table).locks unlocked other =
      if other = app then Function.update tables store table else server.locks unlocked other := by
  unfold Server.locks Server.setLocks
  by_cases same : other = app
  · subst same
    simp
  · simp [same]

omit [LinearOrder Key] in
theorem locks_ensureOpen (other : String) :
    (ensureOpenApplicationStore unlocked server app).1.locks unlocked other =
      server.locks unlocked other := by
  unfold ensureOpenApplicationStore Server.locks
  split
  next => rfl
  next closed =>
    by_cases same : other = app
    · subst same
      simp [closed]
    · simp [same]

omit [LinearOrder Key] in
theorem setStorage_self : server.setStorage app (server.storage app) = server := by
  unfold Server.setStorage
  rw [Function.update_eq_self]

end

section

variable {engine : OrderedEngine Key Value} {around : Surroundings Key Value}
  {server after : Server Key Value} {nodeId : Nat} {app storeName : String} {store : StoreName}
  {table : LockTable Key} {timestamp : Nat}

/-- The server after a lock table has been changed. -/
def locked (around : Surroundings Key Value) (server : Server Key Value) (app : String)
    (store : StoreName) (table : LockTable Key) : Server Key Value :=
  (ensureOpenApplicationStore around.unlocked server app).1.setLocks app
    (server.locks around.unlocked app) store table

omit [LinearOrder Key] in
theorem locked_storage : (locked around server app store table).storage = server.storage :=
  (ensureOpenApplicationStore_eq around.unlocked server app).1

omit [LinearOrder Key] in
theorem locked_locks : (locked around server app store table).locks around.unlocked app store =
    table := by
  unfold locked
  rw [locks_setLocks, if_pos rfl, Function.update_self]

omit [LinearOrder Key] in
/-- What a changed application is stored under stays what it was. -/
theorem locked_setStorage :
    (locked around server app store table).setStorage app (server.storage app) =
      locked around server app store table := by
  have same : (locked around server app store table).storage app = server.storage app := by
    rw [locked_storage]
  rw [← same, setStorage_self]

section

variable {Content : Type w} {memory : DataResponse Content} {data : Option Content}
  {call : Option (LockTable Key × Answer)} {response : DataResponse Content}

/-- What is answered when the lock table has been asked. -/
def answer (around : Surroundings Key Value) (server : Server Key Value)
    (app storeName : String) (store : StoreName) (memory : DataResponse Content)
    (call : Option (LockTable Key × Answer)) (data : Option Content) :
    Option (Server Key Value × Except (GError Key) (DataResponse Content)) :=
  match call with
  | none => none
  | some (table, .refused _) =>
      some (locked around server app store table,
        .ok { memory with app := app, store := storeName, success := false, data := none })
  | some (table, .granted) =>
      some (locked around server app store table,
        .ok { memory with app := app, store := storeName, success := true, data := data })

omit [LinearOrder Key] in
theorem answer_granted (answered : answer around server app storeName store memory call data =
      some (after, .ok response)) (success : response.success = true) :
    ∃ table, call = some (table, .granted) ∧ after = locked around server app store table ∧
      response.data = data := by
  unfold answer at answered
  split at answered
  next => cases answered
  next =>
    cases answered
    cases success
  next table =>
    cases answered
    exact ⟨table, rfl, rfl, rfl⟩

omit [LinearOrder Key] in
/-- The time to wait comes from what has been in the memory. -/
theorem answer_denied (answered : answer around server app storeName store memory call data =
      some (after, .ok response)) (denied : response.success = false) :
    ∃ table timestamp, call = some (table, .refused timestamp) ∧
      after = locked around server app store table ∧
      response.timeout = some ⟨0, memory.usec⟩ := by
  unfold answer at answered
  split at answered
  next => cases answered
  next table timestamp =>
    cases answered
    exact ⟨table, timestamp, rfl, rfl, rfl⟩
  next =>
    cases answered
    cases denied

omit [LinearOrder Key] in
/-- An answer that has one time to wait in it, whatever has been in the memory, is not a
denial. -/
theorem granted_of_waits (answers : ∀ memory, ∃ after response,
      answer around server app storeName store memory call data = some (after, .ok response))
    (waits : ∃ wait, ∀ memory after response,
      answer around server app storeName store memory call data = some (after, .ok response) →
      response.success = false → response.timeout = some wait) :
    ∃ table, call = some (table, .granted) := by
  obtain ⟨wait, same⟩ := waits
  have answered := answers ⟨app, storeName, false, none, wait.usec + 1⟩
  obtain ⟨after, response, equal⟩ := answered
  cases success : response.success with
  | true =>
    obtain ⟨table, called, _⟩ := answer_granted equal success
    exact ⟨table, called⟩
  | false =>
    obtain ⟨_, _, _, _, timeout⟩ := answer_denied equal success
    have waited := same _ _ _ equal success
    rw [timeout] at waited
    exact absurd (congrArg Timeval.usec (Option.some.inj waited)) (Nat.succ_ne_self _)

omit [LinearOrder Key] in
/-- So a request that is answered truthfully has been granted its lock. -/
theorem granted_of_truthful {granted : Prop}
    {request : DataResponse Content →
      Option (Server Key Value × Except (GError Key) (DataResponse Content))}
    (answered : ∀ memory, request memory =
      answer around server app storeName store memory call data)
    (grants : ∀ memory, ∃ after response, request memory = some (after, .ok response) ∧
      (response.success = true ↔ granted))
    (waits : ∃ wait, ∀ memory after response, request memory = some (after, .ok response) →
      response.success = false → response.timeout = some wait) :
    granted ∧ ∃ table, call = some (table, .granted) := by
  simp only [answered] at grants waits
  obtain ⟨table, called⟩ := granted_of_waits (fun memory => by
    obtain ⟨after, response, equal, _⟩ := grants memory
    exact ⟨after, response, equal⟩) waits
  obtain ⟨after, response, equal, only⟩ := grants ⟨app, storeName, false, none, 0⟩
  rw [called] at equal
  cases equal
  exact ⟨only.mp rfl, table, called⟩

end

section

variable {memory : DataResponse Value} {key : GBytes Key} {forWrite : Bool}

theorem requestValue_eq
    (named : (getLockableStore storeName : Except (GError Key) StoreName) = .ok store)
    (isEngine : around.engine = engine.toLookupEngine) :
    around.requestValue memory server nodeId app storeName key forWrite =
      answer around server app storeName store memory
        (gzochidLockCheckAndSet (server.locks around.unlocked app store) nodeId key forWrite
          around.now)
        (server.storage app store key.content) := by
  obtain ⟨storage, tables⟩ := ensureOpenApplicationStore_eq around.unlocked server app
  have read : (around.engine.transactionGet (around.engine.transactionBegin (server.storage app))
      store key.content).2 = server.storage app store key.content := by
    rw [isEngine]
    exact engine.get_value _ _ _
  have restored : around.engine.transactionRollback (around.engine.transactionGet
      (around.engine.transactionBegin (server.storage app)) store key.content).1 =
        server.storage app := by
    rw [isEngine]
    exact engine.get_rollback _ _ _
  simp only [Surroundings.requestValue, named, tables, storage, read, restored]
  generalize gzochidLockCheckAndSet (server.locks around.unlocked app store) nodeId key forWrite
    around.now = call
  match call with
  | none => rfl
  | some (table, .refused _) => rfl
  | some (table, .granted) =>
    have kept : (locked around server app store table).setStorage app (server.storage app) =
        locked around server app store table := locked_setStorage
    simp only [gzochidDataResponseNew, answer, Bool.not_true, Bool.and_false, Bool.false_eq_true,
      if_false, Option.map_some]
    exact congrArg some (Prod.ext kept rfl)

/-- A request for a value is answered truthfully just when it is granted. -/
theorem valueTruthful_iff
    (named : (getLockableStore storeName : Except (GError Key) StoreName) = .ok store)
    (isEngine : around.engine = engine.toLookupEngine)
    (reached : Reached (server.locks around.unlocked app store)) :
    ValueTruthful around server nodeId app storeName store key forWrite ↔
      PointGrantable (server.locks around.unlocked app store) nodeId key.content forWrite ∧
        CoveringUnseen (server.locks around.unlocked app store) nodeId key forWrite := by
  have answered : ∀ memory, around.requestValue memory server nodeId app storeName key forWrite =
      answer around server app storeName store memory
        (gzochidLockCheckAndSet (server.locks around.unlocked app store) nodeId key forWrite
          around.now)
        (server.storage app store key.content) := fun _ => requestValue_eq named isEngine
  constructor
  · intro truthful
    obtain ⟨grantable, called⟩ := granted_of_truthful answered truthful.granted truthful.waits
    exact ⟨grantable, (checkAndSet_granted_iff reached.points grantable).mp called⟩
  · intro ⟨grantable, searched⟩
    obtain ⟨table, called⟩ := (checkAndSet_granted_iff reached.points grantable).mpr searched
    have response : ∀ memory, around.requestValue memory server nodeId app storeName key forWrite =
          some (locked around server app store table, .ok { memory with
              app := app
              store := storeName
              success := true
              data := server.storage app store key.content }) := by
      intro memory
      rw [answered, called]
      rfl
    constructor
    · intro memory
      exact ⟨_, _, response memory, by simp only [grantable]⟩
    · intro memory after result equal _
      rw [response] at equal
      cases equal
      exact ⟨rfl, locked_storage⟩
    · intro memory after result equal denied
      rw [response] at equal
      cases equal
      cases denied
    · refine ⟨⟨0, 0⟩, ?_⟩
      intro memory after result equal denied
      rw [response] at equal
      cases equal
      cases denied

end

section

variable {memory : DataResponse (GBytes Key)} {key : Option (GBytes Key)}
  {successor : Option Key}

omit [LinearOrder Key] in
theorem toSuccessor_content : (toSuccessor around successor).map GBytes.content = successor := by
  cases successor with
  | none => rfl
  | some key => rfl

theorem requestNextKey_eq
    (named : (getLockableStore storeName : Except (GError Key) StoreName) = .ok store)
    (isEngine : around.engine = engine.toLookupEngine) (stored : (server.storage app).Stored)
    (isNext : (server.storage app).IsNext store (key.map GBytes.content) successor) :
    around.requestNextKey memory server nodeId app storeName key =
      answer around server app storeName store memory
        (gzochidLockRangeCheckAndSet (server.locks around.unlocked app store) nodeId key
          (toSuccessor around successor) around.now around.probe)
        (toSuccessor around successor) := by
  obtain ⟨storage, tables⟩ := ensureOpenApplicationStore_eq around.unlocked server app
  have found : ∃ transaction, (match key with
      | none => around.engine.transactionFirstKey
          (around.engine.transactionBegin (server.storage app)) store
      | some key => around.engine.transactionNextKey
          (around.engine.transactionBegin (server.storage app)) store key.content) =
        (transaction, successor) ∧ around.engine.rollback transaction = false ∧
      around.engine.transactionRollback transaction = server.storage app := by
    rw [isEngine]
    cases key with
    | none =>
      have least := engine.first_key (server.storage app) store stored
      refine ⟨_, Prod.ext rfl (least.unique isNext), ?_, ?_⟩
      · exact engine.first_unmarked _ _
      · exact engine.first_rollback _ _
    | some key =>
      have least := engine.next_key (server.storage app) store key.content stored
      refine ⟨_, Prod.ext rfl (least.unique isNext), ?_, ?_⟩
      · exact engine.next_unmarked _ _ _
      · exact engine.next_rollback _ _ _
  obtain ⟨transaction, read, unmarked, restored⟩ := found
  have kept : (ensureOpenApplicationStore around.unlocked server app).1.setStorage app
      (server.storage app) = (ensureOpenApplicationStore around.unlocked server app).1 := by
    rw [← storage, setStorage_self]
  simp only [Surroundings.requestNextKey, toSuccessor, named, tables, storage, read, unmarked,
    restored, kept, Bool.false_eq_true, if_false]
  generalize gzochidLockRangeCheckAndSet (server.locks around.unlocked app store) nodeId key
    (successor.map fun content => ⟨around.address, content⟩) around.now around.probe = call
  match call with
  | none => rfl
  | some (table, .refused _) => rfl
  | some (table, .granted) =>
    simp only [gzochidDataResponseNew, answer, Bool.not_true, Bool.and_false, Bool.false_eq_true,
      if_false, Option.map_some]
    rfl

/-- The range to the successor can be granted, and nothing is seen in its way. -/
def NextKeyGrants (around : Surroundings Key Value) (server : Server Key Value) (nodeId : Nat)
    (app : String) (store : StoreName) (key : Option (GBytes Key)) : Prop :=
  ∀ successor, (server.storage app).IsNext store (key.map GBytes.content) successor →
    RangeGrantable (server.locks around.unlocked app store) nodeId key
      (toSuccessor around successor) ∧
    RangeUnseen (server.locks around.unlocked app store) nodeId key
      (toSuccessor around successor) around.probe

section

variable (named : (getLockableStore storeName : Except (GError Key) StoreName) = .ok store)
  (isEngine : around.engine = engine.toLookupEngine) (stored : (server.storage app).Stored)
  (reached : Reached (server.locks around.unlocked app store))
include named isEngine stored reached

/-- A request for the next key is answered truthfully only when it is granted. -/
theorem NextKeyTruthful.grants
    (truthful : NextKeyTruthful around server nodeId app storeName store key) :
    NextKeyGrants around server nodeId app store key := by
  intro successor isNext
  obtain ⟨grantable, table, called⟩ := granted_of_truthful
    (fun _ => requestNextKey_eq named isEngine stored isNext) truthful.granted truthful.waits
  exact ⟨grantable successor isNext, .of_granted reached.points reached.exclude called⟩

/-- And when it is granted, it is, as long as the tree of ranges is in order. -/
theorem NextKeyGrants.truthful (grants : NextKeyGrants around server nodeId app store key)
    (untangled : Untangled (server.locks around.unlocked app store)) :
    NextKeyTruthful around server nodeId app storeName store key := by
  obtain ⟨successor, isNext⟩ := engine.exists_next stored store (key.map GBytes.content)
  obtain ⟨grantable, unseen⟩ := grants successor isNext
  obtain ⟨table, called⟩ := unseen.granted reached.points reached.exclude untangled around.now
  have response : ∀ memory, around.requestNextKey memory server nodeId app storeName key =
      some (locked around server app store table, .ok { memory with
          app := app
          store := storeName
          success := true
          data := toSuccessor around successor }) := by
    intro memory
    rw [requestNextKey_eq named isEngine stored isNext, called]
    rfl
  obtain ⟨listed, recorded⟩ := rangeCheckAndSet_recorded called
  constructor
  · intro memory
    refine ⟨_, _, response memory, ?_⟩
    simp only [true_iff]
    intro other isOther
    rw [isOther.unique isNext]
    exact grantable
  · intro memory after result equal _
    rw [response] at equal
    cases equal
    refine ⟨?_, locked_storage, ?_⟩
    · rw [toSuccessor_content]
      exact isNext
    · rw [locked_locks]
      exact ⟨_, listed, recorded⟩
  · intro memory after result equal denied
    rw [response] at equal
    cases equal
    cases denied
  · refine ⟨⟨0, 0⟩, ?_⟩
    intro memory after result equal denied
    rw [response] at equal
    cases equal
    cases denied

end

end

end

/-- An application has no stores but its objects and its names; a request for another one errs,
and changes nothing. -/
theorem request_unnamed (memory : DataResponse Value)
    (nextMemory : DataResponse (GBytes Key)) (around : Surroundings Key Value)
    (server : Server Key Value) (nodeId : Nat) (app : String) {storeName : String}
    {error : GError Key} (unnamed : getLockableStore storeName = .error error) :
    ∃ after, Unchanged around server after ∧
      (∀ key forWrite, around.requestValue memory server nodeId app storeName key forWrite =
        some (after, .error error)) ∧
      ∀ key, around.requestNextKey nextMemory server nodeId app storeName key =
        some (after, .error error) := by
  refine ⟨(ensureOpenApplicationStore around.unlocked server app).1, ?_, ?_, ?_⟩
  · exact ⟨(ensureOpenApplicationStore_eq around.unlocked server app).1,
      fun other => locks_ensureOpen other⟩
  · intro key forWrite
    simp only [Surroundings.requestValue, unnamed]
  · intro key
    simp only [Surroundings.requestNextKey, unnamed]

theorem Contents.Stored.exists_next {contents : Contents Key Value} (stored : contents.Stored)
    (store : StoreName) (after : Option Key) : ∃ next, contents.IsNext store after next := by
  have finite : (contents.keysAfter store after).Finite := by
    apply (stored store).subset
    intro key ⟨present, _⟩
    exact ⟨present, fun bound absent => by cases absent⟩
  by_cases nonempty : (contents.keysAfter store after).Nonempty
  · obtain ⟨key, inside, least⟩ := Set.exists_min_image _ id finite nonempty
    exact ⟨some key, inside, least⟩
  · refine ⟨none, ?_⟩
    intro key inside
    exact nonempty ⟨key, inside⟩

open Classical in
/-- The least key after one, if any. -/
noncomputable def Contents.next (contents : Contents Key Value) (store : StoreName)
    (after : Option Key) : Option Key :=
  if stored : contents.Stored then (stored.exists_next store after).choose else none

theorem Contents.Stored.isNext {contents : Contents Key Value} (stored : contents.Stored)
    (store : StoreName) (after : Option Key) :
    contents.IsNext store after (contents.next store after) := by
  unfold Contents.next
  rw [dif_pos stored]
  exact (stored.exists_next store after).choose_spec

/-- An engine whose transactions read what there was when they began. -/
noncomputable def readingEngine (Key : Type u) (Value : Type v) [LinearOrder Key] :
    OrderedEngine Key Value where
  toStorageEngine := (plainEngine Key Value).toStorageEngine
  transactionGet transaction store key := (transaction, transaction.2 store key)
  transactionFirstKey transaction store := (transaction, transaction.2.next store none)
  transactionNextKey transaction store key := (transaction, transaction.2.next store (some key))
  get_value _ _ _ := rfl
  get_rollback _ _ _ := rfl
  first_key _ store stored := stored.isNext store none
  first_unmarked _ _ := rfl
  first_rollback _ _ := rfl
  next_key _ store key stored := stored.isNext store (some key)
  next_unmarked _ _ _ := rfl
  next_rollback _ _ _ := rfl

/-- The key `m` has the value 5, and no store has been opened. -/
def storedServer : Server Bytes Nat where
  storage app store key := if app = "chat" ∧ store = .oids ∧ key = [109] then some 5 else none
  applicationStores _ := none

noncomputable def aroundRequest : Surroundings Bytes Nat where
  engine := (readingEngine Bytes Nat).toLookupEngine
  unlocked _ := emptyTable
  now := 3
  probe := 0
  address := 8

end Gzochi.DataServer
