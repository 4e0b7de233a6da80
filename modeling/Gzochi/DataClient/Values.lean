import Gzochi.DataClient.LockTable

/-!
# Values in a transaction of the data client

A transaction reads a key from up to four places: the keys that it has deleted, the value
that came with the lock, which stands in the value cache, and the local store, to which it
writes through a transaction of its own.  The times in front of the cached and the stored
value tell which is the newer one.

The local store is taken as a correct transactional map.
-/

namespace Gzochi.DataClient

open Lib Function

/-- A value with a timestamp in front of it. -/
structure Prefixed where
  timestamp : Nat
  value : Bytes
  deriving DecidableEq

abbrev Values := QualifiedKey → Option Prefixed

/-- `gzochid_data_change`; a deletion has no data. -/
structure Change where
  key : QualifiedKey
  data : Option Bytes
  deriving DecidableEq

/-- The values of a `dataclient_transaction`, with what its delegate transaction has
written. -/
structure Transaction where
  writes : QualifiedKey → Option (Option Prefixed)
  deletedKeys : List QualifiedKey
  changeset : List Change

namespace Transaction

def begin : Transaction := ⟨fun _ => none, [], []⟩

/-- The local store as the delegate transaction sees it. -/
def view (transaction : Transaction) (store : Values) : Values := fun key =>
  (transaction.writes key).getD (store key)

end Transaction

/-- `get_timestamp_from_cache`. -/
def getTimestampFromCache (cache : Values) (key : QualifiedKey) : Nat :=
  match cache key with
  | none => 0
  | some cached => cached.timestamp

/-- `get_value_from_cache`. -/
def getValueFromCache (cache : Values) (key : QualifiedKey) : Option Bytes :=
  match cache key with
  | none => none
  | some cached => if cached.value = [] then none else some cached.value

/-- `get_internal`, once the lock is there.  Without a result, its assertion has failed. -/
def getInternal (cache store : Values) (transaction : Transaction) (key : QualifiedKey) :
    Option (Option Bytes) :=
  if key ∈ transaction.deletedKeys then some none
  else
    match transaction.view store key with
    | none =>
        some (if 0 < getTimestampFromCache cache key then getValueFromCache cache key else none)
    | some stored =>
        if stored.value = [] then none
        else if stored.timestamp < getTimestampFromCache cache key then
          some (getValueFromCache cache key)
        else some (some stored.value)

/-- `transaction_put`, once the lock is there. -/
def transactionPut (now : Nat) (transaction : Transaction) (key : QualifiedKey) (value : Bytes) :
    Transaction :=
  { transaction with
    writes := update transaction.writes key (some (some ⟨now, value⟩))
    changeset := transaction.changeset ++ [⟨key, some value⟩] }

/-- The change that a deletion adds. -/
def Transaction.recordDelete (transaction : Transaction) (key : QualifiedKey) : Transaction :=
  { transaction with
    deletedKeys := transaction.deletedKeys ++ [key]
    changeset := transaction.changeset ++ [⟨key, none⟩] }

/-- `transaction_delete`, once the lock is there; whether the key was found. -/
def transactionDelete (cache store : Values) (transaction : Transaction) (key : QualifiedKey) :
    Transaction × Bool :=
  match transaction.view store key with
  | some _ =>
      ({ transaction with
        writes := update transaction.writes key (some none) }.recordDelete key, true)
  | none =>
      if (cache key).isSome ∧ key ∉ transaction.deletedKeys then
        (transaction.recordDelete key, true)
      else (transaction, false)

/-- The value that `lock_success_callback` puts into the cache. -/
def grantedValue (now : Nat) (data : Option Bytes) : Prefixed := ⟨now, data.getD []⟩

/-! ## One transaction -/

inductive Operation where
  | get (key : QualifiedKey)
  | getForUpdate (key : QualifiedKey)
  | put (key : QualifiedKey) (value : Bytes)
  | delete (key : QualifiedKey)
  deriving DecidableEq

namespace Operation

def key : Operation → QualifiedKey
  | .get key | .getForUpdate key | .put key _ | .delete key => key

def forWrite : Operation → Bool
  | .get _ => false
  | .getForUpdate _ | .put _ _ | .delete _ => true

/-- What the operation writes, if it does. -/
def written : Operation → Option (Option Bytes)
  | .get _ | .getForUpdate _ => none
  | .put _ value => some (some value)
  | .delete _ => some none

end Operation

/-- A call of a transaction: the time, what the meta server delivers if a lock is missing,
and what the transaction does. -/
structure Call where
  now : Nat
  granted : Option Bytes
  operation : Operation
  deriving DecidableEq

/-- What the caller gets. -/
inductive Answer where
  | value (found : Option Bytes)
  | written
  | deleted (found : Bool)
  | aborted
  deriving DecidableEq

/-- A transaction and what it works on: the locks of the server, with their level, the
cache and the local store. -/
structure Session where
  clock : Nat
  locks : QualifiedKey → Option Bool
  cache : Values
  store : Values
  transaction : Transaction

namespace Session

/-- `ensure_lock`, when the lock is granted. -/
def ensureLock (session : Session) (now : Nat) (granted : Option Bytes) (key : QualifiedKey)
    (forWrite : Bool) : Session :=
  if session.locks key = some true ∨ (session.locks key = some false ∧ forWrite = false) then
    session
  else
    { session with
      locks := update session.locks key (some forWrite)
      cache := update session.cache key (some (grantedValue now granted)) }

/-- One call of the storage engine interface. -/
def step (session : Session) (call : Call) : Option (Session × Answer) :=
  let locked := { session with clock := call.now }.ensureLock call.now call.granted
    call.operation.key call.operation.forWrite
  match call.operation with
  | .get key | .getForUpdate key =>
      some (locked, match getInternal locked.cache locked.store locked.transaction key with
        | none => .aborted
        | some found => .value found)
  | .put key value =>
      some ({ locked with
        transaction := transactionPut call.now locked.transaction key value }, .written)
  | .delete key =>
      let deleted := transactionDelete locked.cache locked.store locked.transaction key
      some ({ locked with transaction := deleted.1 }, .deleted deleted.2)

/-- The clock does not go back. -/
def Timely (session : Session) (call : Call) : Prop := session.clock ≤ call.now

/-- The transaction has just begun, and what is cached is not from the future. -/
structure Fresh (session : Session) : Prop where
  begun : session.transaction = .begin
  past : ∀ key cached, session.cache key = some cached → cached.timestamp ≤ session.clock

/-- What the last write of the transaction to a key was. -/
def lastWrite (trace : List (Call × Answer)) (key : QualifiedKey) : Option (Option Bytes) :=
  trace.foldl (fun last entry =>
    if entry.1.operation.key = key then (entry.1.operation.written).or last else last) none

/-- The newer one of the granted and the stored value. -/
def localValue (session : Session) (key : QualifiedKey) : Option Bytes :=
  match session.store key with
  | none => if 0 < getTimestampFromCache session.cache key then getValueFromCache session.cache key
      else none
  | some stored =>
      if stored.timestamp < getTimestampFromCache session.cache key then
        getValueFromCache session.cache key
      else some stored.value

/-- What a read of the key should return. -/
def expected (trace : List (Call × Answer)) (session : Session) (key : QualifiedKey) :
    Option Bytes :=
  (lastWrite trace key).getD (session.localValue key)

/-- The last write to the key is not a put of nothing or after a deletion; where there was
no write, nothing empty is stored. -/
def Readable (trace : List (Call × Answer)) (session : Session) (key : QualifiedKey) : Prop :=
  match lastWrite trace key with
  | none => ∀ stored, session.store key = some stored → stored.value ≠ []
  | some none => True
  | some (some value) => value ≠ [] ∧ key ∉ session.transaction.deletedKeys

variable {session next start : Session} {trace : List (Call × Answer)} {key other : QualifiedKey}

theorem lastWrite_snoc (trace : List (Call × Answer)) (call : Call) (answer : Answer)
    (key : QualifiedKey) :
    lastWrite (trace ++ [(call, answer)]) key =
      if call.operation.key = key then (call.operation.written).or (lastWrite trace key)
      else lastWrite trace key := by
  simp [lastWrite]

/-- What a transaction has noted of its writes. -/
structure Noted (trace : List (Call × Answer)) (session : Session) : Prop where
  past : ∀ key cached, session.cache key = some cached → cached.timestamp ≤ session.clock
  unwritten : ∀ key, lastWrite trace key = none →
    session.transaction.writes key = none ∧ key ∉ session.transaction.deletedKeys
  deleted : ∀ key, lastWrite trace key = some none →
    session.locks key = some true ∧ session.transaction.view session.store key = none ∧
    (key ∈ session.transaction.deletedKeys ∨ session.cache key = none)
  put : ∀ key value, lastWrite trace key = some (some value) →
    session.locks key = some true ∧ ∃ time,
      session.transaction.writes key = some (some ⟨time, value⟩) ∧
      getTimestampFromCache session.cache key ≤ time

theorem Fresh.noted (fresh : start.Fresh) : Noted [] start where
  past := fresh.past
  unwritten key _ := by simp [fresh.begun, Transaction.begin]
  deleted := nofun
  put := nofun

theorem ensureLock_transaction (now : Nat) (granted : Option Bytes) (forWrite : Bool) :
    (session.ensureLock now granted key forWrite).transaction = session.transaction ∧
    (session.ensureLock now granted key forWrite).store = session.store ∧
    (session.ensureLock now granted key forWrite).clock = session.clock := by
  unfold ensureLock
  split <;> exact ⟨rfl, rfl, rfl⟩

/-- A key that is locked for write is not granted again. -/
theorem ensureLock_other (now : Nat) (granted : Option Bytes) (forWrite : Bool)
    (kept : session.locks other = some true) :
    (session.ensureLock now granted key forWrite).locks other = some true ∧
    (session.ensureLock now granted key forWrite).cache other = session.cache other := by
  unfold ensureLock
  split
  · exact ⟨kept, rfl⟩
  · rename_i missing
    have apart : other ≠ key := fun same => missing (.inl (same ▸ kept))
    exact ⟨(update_of_ne apart _ _).trans kept, update_of_ne apart _ _⟩

theorem ensureLock_forWrite (now : Nat) (granted : Option Bytes) :
    (session.ensureLock now granted key true).locks key = some true := by
  unfold ensureLock
  split
  · rename_i enough
    exact enough.resolve_right fun read => Bool.noConfusion read.2
  · exact update_self _ _ _

/-- The session in which the lock is there. -/
def locked (session : Session) (call : Call) : Session :=
  { session with clock := call.now }.ensureLock call.now call.granted call.operation.key
    call.operation.forWrite

variable {call : Call}

theorem Noted.locked (noted : Noted trace session) (timely : session.Timely call) :
    Noted trace (session.locked call) := by
  obtain ⟨sameTransaction, sameStore, sameClock⟩ : (session.locked call).transaction =
      session.transaction ∧ (session.locked call).store = session.store ∧
      (session.locked call).clock = call.now := ensureLock_transaction _ _ _
  have untouched : ∀ other, session.locks other = some true →
      (session.locked call).locks other = some true ∧
      (session.locked call).cache other = session.cache other :=
    fun other kept => ensureLock_other _ _ _ kept
  refine ⟨?_, ?_, ?_, ?_⟩
  · intro key cached found
    rw [sameClock]
    unfold Session.locked ensureLock at found
    split at found
    · exact Nat.le_trans (noted.past key cached found) timely
    · by_cases here : key = call.operation.key
      · rw [here] at found
        cases (update_self _ _ _).symm.trans found
        exact Nat.le_refl _
      · exact Nat.le_trans (noted.past key cached ((update_of_ne here _ _).symm.trans found)) timely
  · rw [sameTransaction]
    exact noted.unwritten
  · intro key wasDeleted
    obtain ⟨lock, gone, known⟩ := noted.deleted key wasDeleted
    obtain ⟨still, same⟩ := untouched key lock
    rw [sameTransaction, sameStore, same]
    exact ⟨still, gone, known⟩
  · intro key value wasPut
    obtain ⟨lock, time, wrote, later⟩ := noted.put key value wasPut
    obtain ⟨still, same⟩ := untouched key lock
    rw [sameTransaction]
    refine ⟨still, time, wrote, ?_⟩
    rw [getTimestampFromCache, same]
    exact later

variable {answer : Answer} {transaction : Transaction}

/-- A write to one key leaves what is noted of the others. -/
theorem Noted.write (noted : Noted trace session) {written : Option Bytes}
    (isKey : call.operation.key = key) (writes : call.operation.written = some written)
    (others : ∀ other, other ≠ key → transaction.writes other = session.transaction.writes other ∧
      (other ∈ transaction.deletedKeys ↔ other ∈ session.transaction.deletedKeys))
    (deleted : written = none → session.locks key = some true ∧
      transaction.view session.store key = none ∧
      (key ∈ transaction.deletedKeys ∨ session.cache key = none))
    (put : ∀ value, written = some value → session.locks key = some true ∧ ∃ time,
      transaction.writes key = some (some ⟨time, value⟩) ∧
      getTimestampFromCache session.cache key ≤ time) :
    Noted (trace ++ [(call, answer)]) { session with transaction := transaction } := by
  have last : ∀ other, lastWrite (trace ++ [(call, answer)]) other =
      if key = other then some written else lastWrite trace other := by
    intro other
    rw [lastWrite_snoc, isKey, writes]
    rfl
  refine ⟨noted.past, ?_, ?_, ?_⟩
  · intro other never
    rw [last] at never
    split at never
    · cases never
    · rename_i apart
      obtain ⟨unwritten, kept⟩ := noted.unwritten other never
      obtain ⟨same, members⟩ := others other (Ne.symm apart)
      exact ⟨same.trans unwritten, fun member => kept (members.mp member)⟩
  · intro other wasDeleted
    rw [last] at wasDeleted
    split at wasDeleted
    · rename_i same
      subst same
      exact deleted (Option.some.inj wasDeleted)
    · rename_i apart
      obtain ⟨lock, gone, known⟩ := noted.deleted other wasDeleted
      obtain ⟨same, members⟩ := others other (Ne.symm apart)
      refine ⟨lock, ?_, known.imp_left members.mpr⟩
      change (transaction.writes other).getD (session.store other) = none
      rw [same]
      exact gone
  · intro other value wasPut
    rw [last] at wasPut
    split at wasPut
    · rename_i same
      subst same
      exact put value (Option.some.inj wasPut)
    · rename_i apart
      obtain ⟨lock, time, wrote, later⟩ := noted.put other value wasPut
      exact ⟨lock, time, (others other (Ne.symm apart)).1.trans wrote, later⟩

theorem Noted.read (noted : Noted trace session) (answer : Answer)
    (reads : call.operation.written = none) : Noted (trace ++ [(call, answer)]) session := by
  have last : ∀ key, lastWrite (trace ++ [(call, answer)]) key = lastWrite trace key := by
    intro key
    rw [lastWrite_snoc, reads]
    simp
  refine ⟨noted.past, ?_, ?_, ?_⟩
  · intro key never
    exact noted.unwritten key ((last key).symm.trans never)
  · intro key wasDeleted
    exact noted.deleted key ((last key).symm.trans wasDeleted)
  · intro key value wasPut
    exact noted.put key value ((last key).symm.trans wasPut)

theorem mem_recordDelete (apart : other ≠ key) :
    other ∈ (transaction.recordDelete key).deletedKeys ↔ other ∈ transaction.deletedKeys := by
  simp [Transaction.recordDelete, apart]

theorem self_mem_recordDelete (transaction : Transaction) (key : QualifiedKey) :
    key ∈ (transaction.recordDelete key).deletedKeys := by
  simp [Transaction.recordDelete]

/-- What a deletion does to the values of a transaction. -/
structure Deletes (cache store : Values) (key : QualifiedKey)
    (before after : Transaction) : Prop where
  others : ∀ other, other ≠ key → after.writes other = before.writes other ∧
    (other ∈ after.deletedKeys ↔ other ∈ before.deletedKeys)
  gone : after.view store key = none
  known : key ∈ after.deletedKeys ∨ cache key = none

theorem transactionDelete_deletes (cache store : Values) (transaction : Transaction)
    (key : QualifiedKey) :
    Deletes cache store key transaction (transactionDelete cache store transaction key).1 := by
  unfold transactionDelete
  split
  · refine ⟨?_, ?_, .inl (self_mem_recordDelete _ key)⟩
    · intro other apart
      exact ⟨update_of_ne apart _ _, mem_recordDelete apart⟩
    · simp [Transaction.view, Transaction.recordDelete]
  · rename_i missing
    split
    · exact ⟨fun other apart => ⟨rfl, mem_recordDelete apart⟩, missing,
        .inl (self_mem_recordDelete _ key)⟩
    · rename_i unknown
      refine ⟨fun other _ => ⟨rfl, Iff.rfl⟩, missing, ?_⟩
      by_cases listed : key ∈ transaction.deletedKeys
      · exact .inl listed
      · refine .inr (Option.not_isSome_iff_eq_none.mp fun present => ?_)
        exact unknown ⟨present, listed⟩

variable (noted : Noted trace session)
include noted

theorem Noted.timestamp_le (key : QualifiedKey) :
    getTimestampFromCache session.cache key ≤ session.clock := by
  unfold getTimestampFromCache
  cases cached : session.cache key with
  | none => exact Nat.zero_le _
  | some content => exact noted.past key content cached

theorem step_noted (timely : session.Timely call)
    (taken : session.step call = some (next, answer)) :
    Noted (trace ++ [(call, answer)]) next := by
  have there := noted.locked timely
  obtain ⟨now, granted, operation⟩ := call
  cases operation with
  | get key | getForUpdate key =>
    cases taken
    exact there.read _ rfl
  | put key value =>
    cases taken
    have lock : (session.locked ⟨now, granted, .put key value⟩).locks key = some true :=
      ensureLock_forWrite now granted
    have clock : (session.locked ⟨now, granted, .put key value⟩).clock = now :=
      (ensureLock_transaction _ _ _).2.2
    have later := clock ▸ there.timestamp_le key
    refine there.write rfl rfl (fun other apart => ⟨update_of_ne apart _ _, Iff.rfl⟩)
      nofun fun written same => ?_
    cases same
    exact ⟨lock, now, update_self _ _ _, later⟩
  | delete key =>
    cases taken
    have lock : (session.locked ⟨now, granted, .delete key⟩).locks key = some true :=
      ensureLock_forWrite now granted
    have deletes := transactionDelete_deletes (session.locked ⟨now, granted, .delete key⟩).cache
      (session.locked ⟨now, granted, .delete key⟩).store
      (session.locked ⟨now, granted, .delete key⟩).transaction key
    exact there.write rfl rfl deletes.others (fun _ => ⟨lock, deletes.gone, deletes.known⟩) nofun

/-- A read returns what it should if and only if the key is readable. -/
theorem Noted.getInternal_iff (key : QualifiedKey) :
    getInternal session.cache session.store session.transaction key =
        some (session.expected trace key) ↔ session.Readable trace key := by
  unfold expected Readable
  cases last : lastWrite trace key with
  | none =>
    obtain ⟨unwritten, kept⟩ := noted.unwritten key last
    have seen : session.transaction.view session.store key = session.store key := by
      simp [Transaction.view, unwritten]
    simp only [getInternal, kept, if_false, seen, localValue, Option.getD_none]
    cases session.store key with
    | none => simp
    | some stored =>
      by_cases empty : stored.value = []
      · simp [empty]
      · simp only [empty, if_false]
        constructor
        · intro _ content same
          cases same
          exact empty
        · intro _
          split <;> rfl
  | some written =>
    cases written with
    | none =>
      obtain ⟨_, gone, known⟩ := noted.deleted key last
      simp only [Option.getD_some, iff_true]
      unfold getInternal
      split
      · rfl
      · rename_i unlisted
        have uncached := known.resolve_left unlisted
        simp only [gone, getTimestampFromCache, uncached, Nat.lt_irrefl, if_false]
    | some value =>
      obtain ⟨_, time, wrote, later⟩ := noted.put key value last
      have seen : session.transaction.view session.store key = some ⟨time, value⟩ := by
        simp [Transaction.view, wrote]
      simp only [Option.getD_some]
      by_cases listed : key ∈ session.transaction.deletedKeys
      · simp [getInternal, listed]
      · by_cases empty : value = []
        · simp [getInternal, listed, seen, empty]
        · simp [getInternal, listed, seen, empty, Nat.not_lt.mpr later]

end Session

/-- A read in a transaction returns the value of the last put of the key, nothing after a
deletion, and the newer one of the granted and the stored value where the transaction has
written nothing, if and only if the last write was not a put of nothing or after a
deletion. -/
theorem get_returns_expected_iff {start session next : Session} {trace : List (Call × Answer)}
    {call : Call} {answer : Answer} (fresh : start.Fresh)
    (run : Run Session.step Session.Timely start trace session) (timely : session.Timely call)
    {key : QualifiedKey} (gets : call.operation = .get key ∨ call.operation = .getForUpdate key)
    (taken : session.step call = some (next, answer)) :
    answer = .value (next.expected trace key) ↔ next.Readable trace key := by
  have noted : Session.Noted trace session :=
    run.invariant Session.Noted fresh.noted fun _ noted timely taken =>
      Session.step_noted noted timely taken
  have there := noted.locked timely
  have answered : next = session.locked call ∧
      answer = match getInternal next.cache next.store next.transaction key with
        | none => .aborted
        | some found => .value found := by
    obtain ⟨now, granted, operation⟩ := call
    rcases gets with rfl | rfl
    · cases taken
      exact ⟨rfl, rfl⟩
    · cases taken
      exact ⟨rfl, rfl⟩
  obtain ⟨rfl, same⟩ := answered
  rw [← there.getInternal_iff key, same]
  cases getInternal (session.locked call).cache (session.locked call).store
      (session.locked call).transaction key with
  | none => simp
  | some found => simp

/-- A transaction that has just begun, with nothing locked, cached or stored. -/
def Session.initial : Session where
  clock := 0
  locks _ := none
  cache _ := none
  store _ := none
  transaction := .begin

theorem Session.initial_fresh : Session.initial.Fresh := ⟨rfl, nofun⟩

instance (session : Session) : DecidablePred session.Timely :=
  fun call => inferInstanceAs (Decidable (session.clock ≤ call.now))

/-- A transaction reads an object that is delivered with its lock, and changes it. -/
def readAndChange : List Call :=
  [⟨3, some [5], .get someKey⟩, ⟨4, some [5], .put someKey [6]⟩]

/-- What it then reads is what it has written. -/
theorem get_returns_expected_iff_change :
    ∃ trace session next, Run Session.step Session.Timely Session.initial trace session ∧
      trace.map Prod.fst = readAndChange ∧
      session.step ⟨5, none, .get someKey⟩ = some (next, .value (some [6])) ∧
      next.Readable trace someKey := by
  have observed : (exec (fun session call => if session.Timely call then session.step call
      else none) Session.initial readAndChange).map
      (fun result => (result.1.map Prod.fst, result.2.clock,
        Session.lastWrite result.1 someKey)) = some (readAndChange, 4, some (some [6])) := by
    decide +kernel
  obtain ⟨⟨trace, session⟩, executed, seen⟩ := Option.map_eq_some_iff.mp observed
  have answered : ((exec (fun session call => if session.Timely call then session.step call
      else none) Session.initial readAndChange).bind
      fun result => result.2.step ⟨5, none, .get someKey⟩).map Prod.snd =
      some (.value (some [6])) := by
    decide +kernel
  rw [executed] at answered
  obtain ⟨⟨next, answer⟩, taken, same⟩ := Option.map_eq_some_iff.mp answered
  simp only [Prod.mk.injEq] at seen same
  obtain ⟨actions, clock, last⟩ := seen
  subst same
  have run := run_of_tested_exec executed
  have timely : session.Timely ⟨5, none, .get someKey⟩ := by
    change session.clock ≤ 5
    omega
  refine ⟨trace, session, next, run, actions, taken, ?_⟩
  refine (get_returns_expected_iff Session.initial_fresh run timely (.inl rfl) taken).mp ?_
  simp [Session.expected, last]

/-- A transaction deletes an object that is delivered with its lock, and stores it again. -/
def deleteAndPut : List Call :=
  [⟨3, some [5], .delete someKey⟩, ⟨4, none, .put someKey [6]⟩]

/-- Then it does not see what it has stored. -/
theorem put_after_delete_unseen :
    ∃ trace session next, Run Session.step Session.Timely Session.initial trace session ∧
      trace.map Prod.fst = deleteAndPut ∧
      Session.lastWrite trace someKey = some (some [6]) ∧
      session.step ⟨5, none, .get someKey⟩ = some (next, .value none) := by
  have observed : (exec (fun session call => if session.Timely call then session.step call
      else none) Session.initial deleteAndPut).map
      (fun result => (result.1.map Prod.fst, Session.lastWrite result.1 someKey)) =
      some (deleteAndPut, some (some [6])) := by
    decide +kernel
  have answered : ((exec (fun session call => if session.Timely call then session.step call
      else none) Session.initial deleteAndPut).bind
      fun result => result.2.step ⟨5, none, .get someKey⟩).map Prod.snd =
      some (.value none) := by
    decide +kernel
  obtain ⟨⟨trace, session⟩, executed, seen⟩ := Option.map_eq_some_iff.mp observed
  rw [executed] at answered
  obtain ⟨⟨next, answer⟩, taken, same⟩ := Option.map_eq_some_iff.mp answered
  simp only [Prod.mk.injEq] at seen same
  subst same
  exact ⟨trace, session, next, run_of_tested_exec executed, seen.1, seen.2, taken⟩

end Gzochi.DataClient
