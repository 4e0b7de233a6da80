import Gzochi.DataClient.RangeLocks

/-!
# What a transaction sees

The meta server, the value cache, the local store and the changes of the transaction, read
as one map: a transaction sees what the meta server will have stored once it commits, but
for the keys that it has put again after deleting them.
-/

namespace Gzochi.DataClient

open Lib Function Transaction Session

variable {session next : Session} {engine : Engine} {key other : QualifiedKey}
  {server written : Option Bytes}

/-! ## What is known of a key -/

/-- Data of no bytes are no data. -/
def nonempty (value : Bytes) : Option Bytes := if value = [] then none else some value

/-- What is known of a key that has the given values at the meta server, now and after the
changes of the transaction. -/
structure KeyRecord (session : Session) (server written : Option Bytes) (key : QualifiedKey) :
    Prop where
  stored : server ≠ some []
  past : session.locks key ≠ none → getTimestampFromCache session.cache key ≤ session.clock
  unstored : session.locks key ≠ some true → session.store key = none
  base : session.locks key ≠ none →
    (getInternal session.cache session.store .begin key).join = server
  reading : session.locks key ≠ some true →
    session.transaction.writes key = none ∧ key ∉ session.transaction.deletedKeys ∧
      written = server
  put : ∀ stored, session.transaction.writes key = some (some stored) →
    getTimestampFromCache session.cache key ≤ stored.timestamp ∧
      written = nonempty stored.value
  deleted : session.transaction.writes key = some none →
    key ∈ session.transaction.deletedKeys ∧ written = none
  unwritten : session.transaction.writes key = none →
    if key ∈ session.transaction.deletedKeys then session.store key = none ∧ written = none
    else written = server

variable {cache : Values} {transaction : Transaction}

/-- What a `get` returns depends on what is cached, what is stored and what is deleted. -/
theorem getInternal_congr {cache' values values' : Values} {transaction' : Transaction}
    (cached : cache' key = cache key)
    (view : transaction'.view values' key = transaction.view values key)
    (listed : key ∈ transaction'.deletedKeys ↔ key ∈ transaction.deletedKeys) :
    getInternal cache' values' transaction' key = getInternal cache values transaction key := by
  unfold getInternal getTimestampFromCache getValueFromCache
  rw [view, cached]
  simp only [listed]

variable {now : Nat}

/-- A key that is not stored has the value it has been granted with. -/
theorem getInternal_granted {store : Values} (ticking : 0 < now) (filled : server ≠ some [])
    (granted : cache key = some (grantedValue now server)) (unstored : store key = none) :
    getInternal cache store .begin key = some server := by
  have view : begin.view store key = none := unstored
  have unlisted : key ∉ begin.deletedKeys := List.not_mem_nil
  unfold getInternal
  rw [if_neg unlisted, view]
  simp only [getTimestampFromCache, getValueFromCache, granted, grantedValue, ticking, if_true]
  cases server with
  | none => rfl
  | some value =>
    have nonempty : value ≠ [] := fun empty => filled (congrArg some empty)
    simp [nonempty]

variable (record : KeyRecord session server written key)
include record

/-- The record of a key depends on nothing but what is kept of it. -/
theorem KeyRecord.congr
    (locks : next.locks key = session.locks key) (cache : next.cache key = session.cache key)
    (store : next.store key = session.store key) (clock : session.clock ≤ next.clock)
    (writes : next.transaction.writes key = session.transaction.writes key)
    (deletedKeys : key ∈ next.transaction.deletedKeys ↔ key ∈ session.transaction.deletedKeys) :
    KeyRecord next server written key where
  stored := record.stored
  past held := by
    simp only [getTimestampFromCache, cache] at *
    exact (record.past (locks ▸ held)).trans clock
  unstored held := store.trans (record.unstored (locks ▸ held))
  base held := by
    have view : begin.view next.store key = begin.view session.store key := store
    rw [← record.base (locks ▸ held), getInternal_congr cache view Iff.rfl]
  reading held := by
    rw [writes, deletedKeys]
    exact record.reading (locks ▸ held)
  put stored wrote := by
    simp only [getTimestampFromCache, cache]
    exact record.put stored (writes.symm.trans wrote)
  deleted gone := by
    rw [deletedKeys]
    exact record.deleted (writes.symm.trans gone)
  unwritten unwritten := by
    rw [store]
    simp only [deletedKeys]
    exact record.unwritten (writes.symm.trans unwritten)

/-- What a `get` returns once the lock is there. -/
theorem KeyRecord.getInternal (held : session.locks key ≠ none) :
    (getInternal session.cache session.store session.transaction key).join =
      if key ∈ session.transaction.deletedKeys then none else written := by
  by_cases listed : key ∈ session.transaction.deletedKeys
  · simp [DataClient.getInternal, listed]
  · rw [if_neg listed]
    cases wrote : session.transaction.writes key with
    | none =>
      have same := record.unwritten wrote
      rw [if_neg listed] at same
      have view : session.transaction.view session.store key = begin.view session.store key := by
        simp [Transaction.view, begin, wrote]
      have unlisted : key ∈ session.transaction.deletedKeys ↔ key ∈ begin.deletedKeys :=
        ⟨fun member => absurd member listed, fun member => by cases member⟩
      rw [same, ← record.base held, getInternal_congr rfl view unlisted]
    | some written =>
      cases written with
      | none => exact absurd (record.deleted wrote).1 listed
      | some stored =>
        obtain ⟨later, same⟩ := record.put stored wrote
        rw [same]
        unfold nonempty
        by_cases empty : stored.value = []
        · simp [DataClient.getInternal, listed, Transaction.view, wrote, empty]
        · simp [DataClient.getInternal, listed, Transaction.view, wrote, empty,
            Nat.not_lt.mpr later]

/-- A lock that is granted comes with what the meta server has stored. -/
theorem KeyRecord.ensureLock
    (ticking : 0 < session.clock) (timely : session.clock ≤ now) (forWrite : Bool) :
    KeyRecord ({ session with clock := now }.ensureLock now server key forWrite) server written
      key := by
  unfold Session.ensureLock
  split
  · exact record.congr rfl rfl rfl timely rfl Iff.rfl
  · rename_i missing
    have held : session.locks key ≠ some true := fun write => missing (.inl write)
    obtain ⟨unwritten, unlisted, same⟩ := record.reading held
    have unstored := record.unstored held
    have granted : update session.cache key (some (grantedValue now server)) key =
        some (grantedValue now server) := update_self _ _ _
    refine ⟨record.stored, ?_, fun _ => unstored, ?_, fun _ => ⟨unwritten, unlisted, same⟩, ?_,
      ?_, fun _ => ?_⟩
    · intro _
      simp only [getTimestampFromCache, granted]
      exact Nat.le_refl now
    · intro _
      rw [getInternal_granted (ticking.trans_le timely) record.stored granted unstored]
      rfl
    · intro stored wrote
      exact absurd (unwritten.symm.trans wrote) (by simp)
    · intro gone
      exact absurd (unwritten.symm.trans gone) (by simp)
    · rw [if_neg unlisted]
      exact same

omit record

theorem locks_ensureLock (session : Session) (now : Nat) (granted : Option Bytes)
    (key : QualifiedKey) (forWrite : Bool) :
    (session.ensureLock now granted key forWrite).locks key ≠ none := by
  unfold Session.ensureLock
  split
  · rename_i enough
    rcases enough with write | ⟨read, _⟩
    · rw [write]
      exact Option.some_ne_none _
    · rw [read]
      exact Option.some_ne_none _
  · simp

/-- Granting one lock leaves what is kept of the other keys. -/
theorem KeyRecord.ensureLock_other (record : KeyRecord session server written other)
    (timely : session.clock ≤ now) (granted : Option Bytes) (forWrite : Bool)
    (apart : other ≠ key) :
    KeyRecord ({ session with clock := now }.ensureLock now granted key forWrite) server written
      other := by
  unfold Session.ensureLock
  split
  · exact record.congr rfl rfl rfl timely rfl Iff.rfl
  · exact record.congr (update_of_ne apart _ _) (update_of_ne apart _ _) rfl timely rfl Iff.rfl

theorem filter_nonempty (value : Bytes) : (some value).filter (· ≠ []) = nonempty value := by
  unfold nonempty
  by_cases empty : value = []
  · simp [empty]
  · simp [empty]

theorem writes_transactionPut (now : Nat) (transaction : Transaction) (key : QualifiedKey)
    (value : Bytes) :
    (transactionPut now transaction key value).writes key = some (some ⟨now, value⟩) :=
  update_self _ _ _

include record

/-- A put of a key that is locked for write. -/
theorem KeyRecord.transactionPut (write : session.locks key = some true) (value : Bytes) :
    KeyRecord { session with
      transaction := transactionPut session.clock session.transaction key value } server
      (nonempty value) key where
  stored := record.stored
  past := record.past
  unstored := record.unstored
  base := record.base
  reading held := absurd write held
  put stored wrote := by
    cases (writes_transactionPut session.clock session.transaction key value).symm.trans wrote
    exact ⟨record.past (write ▸ Option.some_ne_none true), rfl⟩
  deleted gone := by
    cases (writes_transactionPut session.clock session.transaction key value).symm.trans gone
  unwritten unwritten := by
    cases (writes_transactionPut session.clock session.transaction key value).symm.trans unwritten

/-- The transaction has noted a deletion. -/
theorem KeyRecord.recordDelete
    (write : session.locks key = some true) (wrote : transaction.writes key = some none ∨
      transaction.writes key = none ∧ session.store key = none) :
    KeyRecord { session with transaction := transaction.recordDelete key } server none key where
  stored := record.stored
  past := record.past
  unstored := record.unstored
  base := record.base
  reading held := absurd write held
  put stored written := by
    rcases wrote with gone | ⟨never, _⟩
    · exact absurd (gone.symm.trans written) (by simp)
    · exact absurd (never.symm.trans written) (by simp)
  deleted _ := ⟨self_mem_recordDelete transaction key, rfl⟩
  unwritten never := by
    rw [if_pos (self_mem_recordDelete transaction key)]
    rcases wrote with gone | ⟨_, unstored⟩
    · exact absurd (gone.symm.trans never) (by simp)
    · exact ⟨unstored, rfl⟩

/-- A key that a deletion has not found is not seen. -/
theorem KeyRecord.missing (held : session.locks key ≠ none)
    (view : session.transaction.view session.store key = none)
    (unknown : ¬((session.cache key).isSome ∧ key ∉ session.transaction.deletedKeys)) :
    (if key ∈ session.transaction.deletedKeys then none else written) = none := by
  rw [← record.getInternal held]
  by_cases listed : key ∈ session.transaction.deletedKeys
  · simp [DataClient.getInternal, listed]
  · have uncached : session.cache key = none :=
      Option.not_isSome_iff_eq_none.mp fun present => unknown ⟨present, listed⟩
    simp [DataClient.getInternal, listed, view, getTimestampFromCache, uncached]

omit record

/-! ## What is seen of all keys -/

namespace Engine

/-- What the meta server has stored once the transaction is committed. -/
def committing (engine : Engine) : QualifiedKey → Option Bytes :=
  applyChanges engine.server engine.session.transaction.changeset

structure Recorded (engine : Engine) : Prop where
  ticking : 0 < engine.session.clock
  record : ∀ key, KeyRecord engine.session (engine.server key) (engine.committing key) key

theorem applyChanges_snoc (stored : QualifiedKey → Option Bytes) (changes : List Change)
    (change : Change) :
    applyChanges stored (changes ++ [change]) =
      update (applyChanges stored changes) change.key (change.data.filter (· ≠ [])) := by
  simp [applyChanges]

theorem gets_eq_join (engine : Engine) (key : QualifiedKey) {locked : Session}
    (granted : locked = engine.session.locked ⟨engine.session.clock, engine.server key, .get key⟩) :
    engine.gets key = (getInternal locked.cache locked.store locked.transaction key).join := by
  have same : ({ engine.session with clock := engine.session.clock }.ensureLock
      engine.session.clock (engine.server key) key false) = locked := granted.symm
  simp only [gets, Session.step, Operation.key, Operation.forWrite, same]
  cases getInternal locked.cache locked.store locked.transaction key with
  | none => rfl
  | some found => rfl

/-- A transaction sees what it commits, but for what it has put after deleting it. -/
theorem Recorded.gets (recorded : engine.Recorded) (key : QualifiedKey) : engine.gets key =
      if key ∈ engine.session.transaction.deletedKeys then none else engine.committing key := by
  have record : KeyRecord
      (engine.session.locked ⟨engine.session.clock, engine.server key, .get key⟩)
      (engine.server key) (engine.committing key) key :=
    (recorded.record key).ensureLock recorded.ticking (Nat.le_refl _) false
  have same : (engine.session.locked
      ⟨engine.session.clock, engine.server key, .get key⟩).transaction =
      engine.session.transaction := (ensureLock_transaction _ _ _).1
  rw [gets_eq_join engine key rfl, record.getInternal (locks_ensureLock _ _ _ _ _), same]

/-- The engine once the lock of an access is there. -/
def locked (engine : Engine) (now : Nat) (operation : Operation) : Engine :=
  { engine with session := engine.session.locked ⟨now, engine.server operation.key, operation⟩ }

theorem locked_session (engine : Engine) (now : Nat) (operation : Operation) :
    (engine.locked now operation).session.transaction = engine.session.transaction ∧
    (engine.locked now operation).session.store = engine.session.store ∧
    (engine.locked now operation).session.clock = now :=
  ensureLock_transaction now (engine.server operation.key) operation.forWrite

variable {now : Nat}

theorem Recorded.locked (recorded : engine.Recorded) (operation : Operation)
    (timely : engine.session.clock ≤ now) : (engine.locked now operation).Recorded where
  ticking := by
    rw [(locked_session engine now operation).2.2]
    exact recorded.ticking.trans_le timely
  record other := by
    unfold committing
    rw [(locked_session engine now operation).1]
    by_cases same : other = operation.key
    · subst same
      exact (recorded.record _).ensureLock recorded.ticking timely _
    · exact (recorded.record other).ensureLock_other timely _ _ same

/-- A lock that is granted does not change what is seen. -/
theorem Recorded.gets_locked (recorded : engine.Recorded) (operation : Operation)
    (timely : engine.session.clock ≤ now) (key : QualifiedKey) :
    (engine.locked now operation).gets key = engine.gets key := by
  rw [recorded.gets, (recorded.locked operation timely).gets]
  unfold committing
  rw [(locked_session engine now operation).1]
  rfl

def setTransaction (engine : Engine) (transaction : Transaction) : Engine :=
  { engine with session := { engine.session with transaction := transaction } }

/-- The changes of a transaction to one key. -/
structure Writes (engine : Engine) (key : QualifiedKey) (transaction : Transaction)
    (value : Option Bytes) : Prop where
  record : KeyRecord { engine.session with transaction := transaction } (engine.server key) value
    key
  committing : applyChanges engine.server transaction.changeset =
    update engine.committing key value
  others : ∀ other, other ≠ key →
    transaction.writes other = engine.session.transaction.writes other ∧
      (other ∈ transaction.deletedKeys ↔ other ∈ engine.session.transaction.deletedKeys)

variable {transaction : Transaction} {value : Option Bytes}

variable (recorded : engine.Recorded)
include recorded

theorem Recorded.write (writes : engine.Writes key transaction value) :
    (engine.setTransaction transaction).Recorded where
  ticking := recorded.ticking
  record other := by
    have new : (engine.setTransaction transaction).committing other =
        update engine.committing key value other :=
      congrFun writes.committing other
    rw [new]
    by_cases same : other = key
    · subst same
      rw [update_self]
      exact writes.record
    · rw [update_of_ne same]
      obtain ⟨kept, listed⟩ := writes.others other same
      exact (recorded.record other).congr rfl rfl rfl (Nat.le_refl _) kept listed

/-- What is seen after the changes. -/
theorem Recorded.gets_write (writes : engine.Writes key transaction value) (other : QualifiedKey) :
    (engine.setTransaction transaction).gets other =
      if other = key then if key ∈ transaction.deletedKeys then none else value
      else engine.gets other := by
  rw [(recorded.write writes).gets, recorded.gets]
  have new : (engine.setTransaction transaction).committing other =
      update engine.committing key value other :=
    congrFun writes.committing other
  rw [new]
  change (if other ∈ transaction.deletedKeys then none else _) = _
  by_cases same : other = key
  · subst same
    rw [update_self, if_pos rfl]
  · rw [update_of_ne same, if_neg same]
    simp only [(writes.others other same).2]

theorem Recorded.put (write : engine.session.locks key = some true) (value : Bytes) :
    engine.Writes key (transactionPut engine.session.clock engine.session.transaction key value)
      (nonempty value) where
  record := (recorded.record key).transactionPut write value
  committing := by
    change applyChanges _ (_ ++ [_]) = _
    rw [applyChanges_snoc, filter_nonempty]
    rfl
  others other apart := ⟨update_of_ne apart _ _, Iff.rfl⟩

/-- A deletion; without a change, the key was not seen before. -/
theorem Recorded.delete (write : engine.session.locks key = some true) {found : Bool}
    (deleted : transactionDelete engine.session.cache engine.session.store
      engine.session.transaction key = (transaction, found)) :
    (engine.Writes key transaction none ∧ key ∈ transaction.deletedKeys) ∨
      transaction = engine.session.transaction ∧ engine.gets key = none := by
  have noted : ∀ before : Transaction, before.changeset = engine.session.transaction.changeset →
      applyChanges engine.server (before.recordDelete key).changeset =
        update engine.committing key none := by
    intro before same
    change applyChanges _ (before.changeset ++ [_]) = _
    rw [applyChanges_snoc, same]
    rfl
  unfold transactionDelete at deleted
  split at deleted
  · cases deleted
    refine .inl ⟨⟨?_, noted _ rfl, ?_⟩, self_mem_recordDelete _ key⟩
    · exact (recorded.record key).recordDelete write (.inl (update_self _ _ _))
    · intro other apart
      exact ⟨update_of_ne apart _ _, mem_recordDelete apart⟩
  · rename_i missing
    split at deleted
    · rename_i known
      cases deleted
      refine .inl ⟨⟨?_, noted _ rfl, ?_⟩, self_mem_recordDelete _ key⟩
      · apply (recorded.record key).recordDelete write
        cases wrote : engine.session.transaction.writes key with
        | none =>
          rw [Transaction.view, wrote] at missing
          exact .inr ⟨rfl, missing⟩
        | some changed =>
          rw [Transaction.view, wrote] at missing
          exact .inl (congrArg some missing)
      · intro other apart
        exact ⟨rfl, mem_recordDelete apart⟩
    · rename_i unknown
      injection deleted with same _
      refine .inr ⟨same.symm, ?_⟩
      rw [recorded.gets]
      exact (recorded.record key).missing (write ▸ Option.some_ne_none true) missing unknown

omit recorded

/-- What is seen of a key after an access. -/
def getsAfter (engine : Engine) : Operation → QualifiedKey → Option Bytes
  | .get _, other | .getForUpdate _, other => engine.gets other
  | .put key value, other =>
      if other = key then
        if key ∈ engine.session.transaction.deletedKeys then none else nonempty value
      else engine.gets other
  | .delete key, other => if other = key then none else engine.gets other

/-- What an access to a key leaves. -/
structure Accessed (engine next : Engine) (operation : Operation) : Prop where
  recorded : next.Recorded
  server : next.server = engine.server
  databaseLocks : next.databaseLocks = engine.databaseLocks
  transactionLocks : next.transactionLocks = engine.transactionLocks
  rollback : next.rollback = engine.rollback
  gets : ∀ key, next.gets key = engine.getsAfter operation key

variable {outcome : Outcome} {operation : Operation}

theorem exists_step {next : Engine} (taken : engine.access now operation = some (next, outcome)) :
    ∃ session answer, engine.session.step ⟨now, engine.server operation.key, operation⟩ =
      some (session, answer) ∧ next = { engine with session := session } := by
  unfold Engine.access at taken
  split at taken
  · cases taken
  · cases taken
  · rename_i session answer _ step
    injection taken with taken
    injection taken with same _
    exact ⟨session, answer, step, same.symm⟩

theorem Recorded.access {next : Engine} (recorded : engine.Recorded)
    (timely : engine.session.clock ≤ now)
    (taken : engine.access now operation = some (next, outcome)) :
    Accessed engine next operation := by
  have there := recorded.locked operation timely
  have same := recorded.gets_locked operation timely
  have unchanged := (locked_session engine now operation).1
  have clock := (locked_session engine now operation).2.2
  obtain ⟨session, answer, step, rfl⟩ := exists_step taken
  cases operation with
  | get key | getForUpdate key =>
    cases step
    exact ⟨there, rfl, rfl, rfl, rfl, same⟩
  | put key value =>
    cases step
    have write : (engine.locked now (.put key value)).session.locks key = some true :=
      ensureLock_forWrite now (engine.server key)
    have writes := there.put write value
    rw [clock] at writes
    refine ⟨there.write writes, rfl, rfl, rfl, rfl, fun other => ?_⟩
    refine (there.gets_write writes other).trans ?_
    rw [same]
    change (if other = key then
      if key ∈ (engine.locked now (.put key value)).session.transaction.deletedKeys then none
      else nonempty value else _) = _
    rw [unchanged]
    rfl
  | delete key =>
    cases step
    have write : (engine.locked now (.delete key)).session.locks key = some true :=
      ensureLock_forWrite now (engine.server key)
    rcases there.delete write (Prod.eta _).symm with ⟨writes, listed⟩ | ⟨unwritten, unseen⟩
    · refine ⟨there.write writes, rfl, rfl, rfl, rfl, fun other => ?_⟩
      refine (there.gets_write writes other).trans ?_
      rw [if_pos listed, same]
      rfl
    · change Accessed engine ((engine.locked now (.delete key)).setTransaction
        (transactionDelete (engine.locked now (.delete key)).session.cache
          (engine.locked now (.delete key)).session.store
          (engine.locked now (.delete key)).session.transaction key).1) (.delete key)
      rw [unwritten]
      rw [same] at unseen
      refine ⟨there, rfl, rfl, rfl, rfl, fun other => (same other).trans ?_⟩
      change _ = if other = key then none else engine.gets other
      split
      · rename_i here
        rw [here, unseen]
      · rfl

/-- The record of a key for a transaction that has just begun. -/
theorem begun_record (begun : session.transaction = .begin) (stored : value ≠ some [])
    (past : session.locks key ≠ none → getTimestampFromCache session.cache key ≤ session.clock)
    (unstored : session.locks key ≠ some true → session.store key = none)
    (base : session.locks key ≠ none →
      (getInternal session.cache session.store .begin key).join = value) :
    KeyRecord session value value key where
  stored := stored
  past := past
  unstored := unstored
  base := base
  reading _ := by
    rw [begun]
    exact ⟨rfl, List.not_mem_nil, rfl⟩
  put stored wrote := by
    rw [begun] at wrote
    cases wrote
  deleted gone := by
    rw [begun] at gone
    cases gone
  unwritten _ := by
    rw [begun]
    exact rfl

theorem Recorded.stored_committing (recorded : engine.Recorded) (key : QualifiedKey) :
    engine.committing key ≠ some [] := by
  have record := recorded.record key
  intro empty
  cases wrote : engine.session.transaction.writes key with
  | none =>
    have same := record.unwritten wrote
    split at same
    · cases same.2.symm.trans empty
    · exact record.stored (same.symm.trans empty)
  | some changed =>
    cases changed with
    | none => cases (record.deleted wrote).2.symm.trans empty
    | some stored =>
      have same := (record.put stored wrote).2.symm.trans empty
      obtain ⟨filled, same⟩ := Option.ite_none_left_eq_some.mp same
      exact filled (Option.some.inj same)

/-- A deleted key is out of the cache after the commit, and the others are as they were. -/
theorem commit_cache (engine : Engine) (key : QualifiedKey) : engine.commit.session.cache key =
      if key ∈ engine.session.transaction.deletedKeys then none else engine.session.cache key :=
  rfl

theorem commit_store (engine : Engine) (key : QualifiedKey) :
    engine.commit.session.store key = engine.session.transaction.view engine.session.store key :=
  rfl

/-- What the next transaction reads of a key is what was committed. -/
theorem getInternal_commit (record : KeyRecord engine.session server written key)
    (held : engine.session.locks key ≠ none) :
    (getInternal engine.commit.session.cache engine.commit.session.store .begin key).join =
      written := by
  have view : begin.view engine.commit.session.store key =
      engine.session.transaction.view engine.session.store key := rfl
  by_cases listed : key ∈ engine.session.transaction.deletedKeys
  · have uncached : engine.commit.session.cache key = none := by
      rw [commit_cache, if_pos listed]
    have unlisted : key ∉ begin.deletedKeys := List.not_mem_nil
    unfold getInternal getTimestampFromCache
    rw [if_neg unlisted, uncached, view]
    unfold Transaction.view
    cases wrote : engine.session.transaction.writes key with
    | none =>
      have gone := record.unwritten wrote
      rw [if_pos listed] at gone
      rw [gone.2]
      simp [gone.1]
    | some changed =>
      cases changed with
      | none => simp [(record.deleted wrote).2]
      | some stored =>
        rw [(record.put stored wrote).2, nonempty]
        by_cases empty : stored.value = []
        · simp [empty]
        · simp [empty]
  · have uncommitted := record.getInternal held
    rw [if_neg listed] at uncommitted
    have cached : engine.commit.session.cache key = engine.session.cache key := by
      rw [commit_cache, if_neg listed]
    have unlisted : key ∈ begin.deletedKeys ↔ key ∈ engine.session.transaction.deletedKeys :=
      ⟨fun member => absurd member List.not_mem_nil, fun member => absurd member listed⟩
    rw [getInternal_congr cached view unlisted, uncommitted]

include recorded

theorem Recorded.commit : engine.commit.Recorded where
  ticking := recorded.ticking
  record key := by
    have record := recorded.record key
    apply begun_record rfl (recorded.stored_committing key)
    · intro held
      unfold getTimestampFromCache
      rw [commit_cache]
      split
      · exact Nat.zero_le _
      · rename_i cached found
        obtain ⟨_, found⟩ := Option.ite_none_left_eq_some.mp found
        have past := record.past held
        rw [getTimestampFromCache, found] at past
        exact past
    · intro held
      rw [commit_store, Transaction.view, (record.reading held).1]
      exact record.unstored held
    · intro held
      exact getInternal_commit record held

/-- The next transaction sees what was committed. -/
theorem Recorded.gets_commit (key : QualifiedKey) : engine.commit.gets key = engine.committing key ∧
      engine.commit.server key = engine.committing key := by
  constructor
  · rw [recorded.commit.gets]
    rfl
  · rfl

theorem Recorded.abandon : engine.abandon.Recorded where
  ticking := recorded.ticking
  record key :=
    begun_record rfl (recorded.record key).stored (recorded.record key).past
      (recorded.record key).unstored (recorded.record key).base

theorem Recorded.gets_abandon (key : QualifiedKey) :
    engine.abandon.gets key = engine.server key := by
  rw [recorded.abandon.gets]
  rfl

end Engine

end Gzochi.DataClient
