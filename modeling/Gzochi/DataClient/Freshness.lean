import Gzochi.DataClient.Node

/-!
# Freshness of what is read

For every key that the node has locked, one of the cache and the store has the newest
value, and the timestamps tell which one: the cache after a grant, the store after a commit,
neither of them after a deletion.  Timestamps of values that a release does not concern are
later than the release, so the purge of the key leaves them.
-/

namespace Gzochi.DataClient

open Lib List Function LockTable Transaction Option

namespace LockTable

variable {table next : LockTable} {tx : TxId} {key other : QualifiedKey}

/-- The transaction has the lock of the key. -/
def Holds (table : LockTable) (tx : TxId) (key : QualifiedKey) : Prop :=
  key ∈ (table.held tx).map Prod.fst

/-- Transactions that go on keep their locks. -/
structure Follows (table next : LockTable) : Prop where
  active : ∀ tx ∈ next.active, tx ∈ table.active
  held : ∀ tx ∈ next.active, ∀ key, table.Holds tx key → next.Holds tx key

theorem Follows.refl (table : LockTable) : Follows table table :=
  ⟨fun _ member => member, fun _ _ _ holds => holds⟩

theorem Counted.locked (counted : Counted table) (active : tx ∈ table.active)
    (holds : table.Holds tx key) : table.locks key ≠ none := by
  obtain ⟨entry, member, rfl⟩ := mem_map.mp holds
  rw [counted.held tx active entry member]
  nofun

variable {forWrite : Bool}

theorem checkAndSetLock_follows (set : table.checkAndSetLock tx key forWrite = some (next, true)) :
    Follows table next ∧ next.active = table.active ∧ table.locks key ≠ none ∧
      next.Holds tx key := by
  unfold checkAndSetLock at set
  split at set
  · cases set
  · rename_i id there
    have locked : table.locks key ≠ none := by
      rw [there]
      nofun
    split at set
    · cases set
    · split at set
      · split at set
        · rename_i found
          cases set
          exact ⟨.refl _, rfl, locked, heldLock_isSome.mp found⟩
        · cases set
          refine ⟨⟨fun _ member => member, fun who _ other holds => ?_⟩, rfl, locked, ?_⟩
          · by_cases here : who = tx
            · subst here
              simp only [Holds, update_self, map_append, mem_append]
              exact .inl holds
            · simp only [Holds, update_of_ne here]
              exact holds
          · simp [Holds]
      · cases set

theorem processQueuedCallback_frame {success : Bool}
    (processed : table.processQueuedCallback success = some next) :
    next.active = table.active ∧ next.held = table.held := by
  unfold processQueuedCallback at processed
  split at processed
  · cases processed
  · split at processed
    · obtain ⟨granted, succeeded, rfl⟩ := map_eq_some_iff.mp processed
      unfold lockSuccessCallback at succeeded
      split at succeeded
      · cases succeeded
        exact ⟨rfl, rfl⟩
      · split at succeeded
        · cases succeeded
        · split at succeeded
          · cases succeeded
            exact ⟨rfl, rfl⟩
          · cases succeeded
            exact ⟨rfl, rfl⟩
    · cases processed
      exact ⟨rfl, rfl⟩

theorem processQueuedCallback_locks {rest : List (QualifiedKey × Bool)}
    (queued : table.registrations = (key, forWrite) :: rest)
    (processed : table.processQueuedCallback true = some next) (apart : other ≠ key) :
    next.locks other = table.locks other := by
  unfold processQueuedCallback at processed
  rw [queued] at processed
  obtain ⟨granted, succeeded, rfl⟩ := map_eq_some_iff.mp processed
  unfold lockSuccessCallback at succeeded
  split at succeeded
  · cases succeeded
    exact update_of_ne apart _ _
  · split at succeeded
    · cases succeeded
    · split at succeeded
      · cases succeeded
        rfl
      · cases succeeded
        rfl

theorem processQueuedCallback_refused (processed : table.processQueuedCallback false = some next) :
    next.locks = table.locks := by
  unfold processQueuedCallback at processed
  split at processed
  · cases processed
  · cases processed
    rfl

variable {freed : Bool}

theorem lockUnref_frame {id : LockId} (unref : table.lockUnref id = some (next, freed)) :
    next.active = table.active ∧ next.held = table.held ∧ next.locks = table.locks := by
  unfold lockUnref at unref
  split at unref
  · cases unref
  · split at unref
    · cases unref
      exact ⟨rfl, rfl, rfl⟩
    · cases unref
      exact ⟨rfl, rfl, rfl⟩

theorem lockReleaseCallback_frame (released : table.lockReleaseCallback key = some (next, freed)) :
    next.active = table.active ∧ next.held = table.held ∧
      ∀ other, next.locks other =
        if freed = true ∧ other = key then none else table.locks other := by
  unfold lockReleaseCallback at released
  split at released
  · cases released
    exact ⟨rfl, rfl, fun _ => (if_neg fun both => Bool.noConfusion both.1).symm⟩
  · split at released
    · cases released
    · rename_i after unref
      obtain ⟨active, held, locks⟩ := lockUnref_frame unref
      cases released
      refine ⟨?_, ?_, fun other => ?_⟩
      · split <;> exact active
      · split <;> exact held
      · split <;> simp [locks]
    · rename_i after unref
      obtain ⟨active, held, locks⟩ := lockUnref_frame unref
      cases released
      refine ⟨active, held, fun other => ?_⟩
      by_cases here : other = key
      · subst here
        simp
      · simp [here, locks]

variable {released : List QualifiedKey}

theorem unrefLocks_frame {entries : List (QualifiedKey × LockId)}
    (unref : table.unrefLocks entries = some (next, released)) :
    next.active = table.active ∧ next.held = table.held ∧ next.locks = table.locks := by
  induction entries generalizing table next released with
  | nil =>
    cases unref
    exact ⟨rfl, rfl, rfl⟩
  | cons entry entries ih =>
    obtain ⟨key, id⟩ := entry
    simp only [unrefLocks] at unref
    split at unref
    · cases unref
    · rename_i after freed first
      obtain ⟨active, held, locks⟩ := lockUnref_frame first
      split at unref
      · cases unref
      · rename_i last others rest
        obtain ⟨lastActive, lastHeld, lastLocks⟩ := ih rest
        cases unref
        exact ⟨lastActive.trans active, lastHeld.trans held, lastLocks.trans locks⟩

theorem cleanupTransaction_frame (cleaned : table.cleanupTransaction tx = some (next, released)) :
    next.active = table.active.erase tx ∧ next.held = update table.held tx [] ∧
      ∀ key, next.locks key ≠ none → table.locks key ≠ none := by
  unfold cleanupTransaction at cleaned
  split at cleaned
  · cases cleaned
  · rename_i after keys unref
    obtain ⟨active, held, locks⟩ := unrefLocks_frame unref
    simp only [removeKeys_eq] at cleaned
    cases cleaned
    refine ⟨by rw [active], by rw [held], fun key there => ?_⟩
    simp only at there
    split at there
    · exact absurd rfl there
    · rw [← locks]
      exact there

end LockTable

/-- The time of the value comes after the releases of the key that are still to be purged. -/
def After (purgeableKeys : List PurgeableKey) (key : QualifiedKey) (time : Nat) : Prop :=
  ∀ purgeable ∈ purgeableKeys, purgeable.key = key → purgeable.releaseTimestamp < time

/-- What a transaction that goes on knows of the keys that it has changed. -/
structure Tidy (cache store : Values) (purgeableKeys : List PurgeableKey)
    (transaction : Transaction) : Prop where
  described : Describes store transaction
  put : ∀ key value, transaction.writes key = some (some value) → value.value ≠ [] ∧
    getTimestampFromCache cache key ≤ value.timestamp ∧ After purgeableKeys key value.timestamp
  deleted : ∀ change ∈ transaction.changeset, transaction.view store change.key = none →
    change.key ∈ transaction.deletedKeys
  absent : ∀ change ∈ transaction.changeset, transaction.writes change.key = none →
    store change.key = none
  listed : ∀ key ∈ transaction.deletedKeys, ∃ change ∈ transaction.changeset, change.key = key

namespace Tidy

variable {cache store : Values} {purgeableKeys : List PurgeableKey}
variable {transaction other : Transaction} {key : QualifiedKey}

theorem begin (cache store : Values) (purgeableKeys : List PurgeableKey) :
    Tidy cache store purgeableKeys .begin where
  described := .begin store
  put := nofun
  deleted := nofun
  absent := nofun
  listed := nofun

variable (tidy : Tidy cache store purgeableKeys transaction)
include tidy

/-- A key that is written has been changed. -/
theorem changed {write : Option Prefixed} (written : transaction.writes key = some write) :
    ∃ change ∈ transaction.changeset, change.key = key := by
  by_contra none_
  have unwritten := tidy.described.only key fun change member same => none_ ⟨change, member, same⟩
  rw [written] at unwritten
  cases unwritten

/-- Other values in the cache, and other releases. -/
theorem around {cache' : Values} {purgeableKeys' : List PurgeableKey}
    (earlier : ∀ key value, transaction.writes key = some (some value) →
      getTimestampFromCache cache' key ≤ value.timestamp)
    (after : ∀ key value, transaction.writes key = some (some value) →
      After purgeableKeys' key value.timestamp) : Tidy cache' store purgeableKeys' transaction where
  described := tidy.described
  put key value written := ⟨(tidy.put key value written).1, earlier key value written,
    after key value written⟩
  deleted := tidy.deleted
  absent := tidy.absent
  listed := tidy.listed

theorem transactionPut {now : Nat} {value : Bytes}
    (filled : value ≠ []) (later : getTimestampFromCache cache key ≤ now)
    (after : After purgeableKeys key now) :
    Tidy cache store purgeableKeys (transactionPut now transaction key value) := by
  refine ⟨tidy.described.transactionPut now key value, ?_, ?_, ?_, ?_⟩
  · intro other stored written
    by_cases here : other = key
    · subst here
      cases (update_self _ _ _).symm.trans written
      exact ⟨filled, later, after⟩
    · exact tidy.put other stored ((update_of_ne here _ _).symm.trans written)
  · intro change member gone
    by_cases here : change.key = key
    · rw [here] at gone
      simp [view, DataClient.transactionPut] at gone
    · rcases mem_append.mp member with old | new
      · refine tidy.deleted change old ?_
        simpa [view, DataClient.transactionPut, update_of_ne here] using gone
      · exact absurd (congrArg Change.key (mem_singleton.mp new)) here
  · intro change member unwritten
    by_cases here : change.key = key
    · rw [here] at unwritten
      simp [DataClient.transactionPut] at unwritten
    · rcases mem_append.mp member with old | new
      · exact tidy.absent change old ((update_of_ne here _ _).symm.trans unwritten)
      · exact absurd (congrArg Change.key (mem_singleton.mp new)) here
  · intro other member
    obtain ⟨change, inside, same⟩ := tidy.listed other member
    exact ⟨change, mem_append_left _ inside, same⟩

theorem transactionDelete (key : QualifiedKey) :
    Tidy cache store purgeableKeys (transactionDelete cache store transaction key).1 := by
  cases found : (DataClient.transactionDelete cache store transaction key).2 with
  | false =>
    rw [transactionDelete_missing found]
    exact tidy
  | true =>
    have deletes := Session.transactionDelete_deletes cache store transaction key
    obtain ⟨changeset, deletedKeys⟩ := transactionDelete_found found
    have described := tidy.described.transactionDelete cache key
    generalize (DataClient.transactionDelete cache store transaction key).1 = after at *
    refine ⟨described, ?_, ?_, ?_, ?_⟩
    · intro other stored written
      have apart : other ≠ key := by
        rintro rfl
        have gone := deletes.gone
        simp [view, written] at gone
      exact tidy.put other stored ((deletes.others other apart).1.symm.trans written)
    · intro change member gone
      rw [deletedKeys]
      by_cases here : change.key = key
      · rw [here]
        exact mem_append_right _ mem_cons_self
      · rw [changeset] at member
        rcases mem_append.mp member with old | new
        · refine mem_append_left _ (tidy.deleted change old ?_)
          rw [view, (deletes.others change.key here).1] at gone
          exact gone
        · exact absurd (congrArg Change.key (mem_singleton.mp new)) here
    · intro change member unwritten
      by_cases here : change.key = key
      · have gone := deletes.gone
        rw [← here, view, unwritten] at gone
        exact gone
      · rw [changeset] at member
        rcases mem_append.mp member with old | new
        · exact tidy.absent change old ((deletes.others change.key here).1.symm.trans unwritten)
        · exact absurd (congrArg Change.key (mem_singleton.mp new)) here
    · intro other member
      rw [changeset]
      rw [deletedKeys] at member
      rcases mem_append.mp member with old | new
      · obtain ⟨change, inside, same⟩ := tidy.listed other old
        exact ⟨change, mem_append_left _ inside, same⟩
      · exact ⟨⟨key, none⟩, mem_append_right _ mem_cons_self, (mem_singleton.mp new).symm⟩

/-- Another transaction commits, which has changed other keys. -/
theorem commit (committing : Describes store other)
    (apart : ∀ change ∈ transaction.changeset, ∀ taken ∈ other.changeset, change.key ≠ taken.key) :
    Tidy cache (other.view store) purgeableKeys transaction := by
  have untouched : ∀ change ∈ transaction.changeset,
      other.view store change.key = store change.key := by
    intro change member
    have unwritten := committing.only change.key fun taken takes =>
      (apart change member taken takes).symm
    simp [view, unwritten]
  refine ⟨tidy.described.commit committing apart, tidy.put, ?_, ?_, tidy.listed⟩
  · intro change member gone
    refine tidy.deleted change member ?_
    rw [view, untouched change member] at gone
    exact gone
  · intro change member unwritten
    rw [untouched change member]
    exact tidy.absent change member unwritten

end Tidy

namespace Node

/-- A transaction that has deleted the key is committed, and the key may be in the cache. -/
def Deleting (node : Node) (key : QualifiedKey) : Prop :=
  ∃ tx, node.Committed tx ∧ key ∈ (node.transaction tx).deletedKeys

/-- Where the newest value of a key is. -/
inductive Newest (node : Node) (key : QualifiedKey) : Option Bytes → Prop where
  | granted {time : Nat} {data : Option Bytes} :
      node.cache key = some (grantedValue time data) → data ≠ some [] →
      getTimestampFromCache node.store key < time → After node.purgeableKeys key time →
      ¬ node.Deleting key → Newest node key data
  | written {value : Prefixed} :
      node.store key = some value → getTimestampFromCache node.cache key ≤ value.timestamp →
      After node.purgeableKeys key value.timestamp → Newest node key (some value.value)
  | deleted : node.store key = none → (node.cache key = none ∨ node.Deleting key) →
      Newest node key none

variable {node next : Node} {key : QualifiedKey} {value : Option Bytes} {tx : TxId}

theorem running_iff (active : next.table.active = node.table.active)
    (status : next.status = node.status) : next.Running tx ↔ node.Running tx := by
  rw [Running, Running, active, status]

theorem deleting_iff (active : next.table.active = node.table.active)
    (status : next.status = node.status) (transaction : next.transaction = node.transaction)
    (key : QualifiedKey) : next.Deleting key ↔ node.Deleting key := by
  simp only [Deleting, Committed, active, status, transaction]

theorem timestamp_congr {first second : Values} (same : first key = second key) :
    getTimestampFromCache first key = getTimestampFromCache second key := by
  rw [getTimestampFromCache, getTimestampFromCache, same]

/-- A step that does nothing to the key. -/
theorem Newest.same (newest : node.Newest key value) (cache : next.cache key = node.cache key)
    (store : next.store key = node.store key)
    (after : ∀ time, After node.purgeableKeys key time → After next.purgeableKeys key time)
    (deleting : next.Deleting key ↔ node.Deleting key) : next.Newest key value := by
  cases newest with
  | granted cached filled newer later kept =>
    refine .granted (cache.trans cached) filled ?_ (after _ later) fun still =>
      kept (deleting.mp still)
    rw [timestamp_congr store]
    exact newer
  | written stored newer later =>
    refine .written (store.trans stored) ?_ (after _ later)
    rw [timestamp_congr cache]
    exact newer
  | deleted gone cached =>
    refine .deleted (store.trans gone) ?_
    rw [cache, deleting]
    exact cached

/-- Where the newest value is, there is the value that a transaction reads that has not
changed the key. -/
theorem Newest.read (newest : node.Newest key value) {transaction : Transaction}
    (unwritten : transaction.writes key = none) (kept : key ∉ transaction.deletedKeys)
    (filled : ∀ stored, node.store key = some stored → stored.value ≠ [])
    (fresh : node.store key = none → ¬ node.Deleting key) :
    getInternal node.cache node.store transaction key = some value := by
  have seen : transaction.view node.store key = node.store key := by
    simp [view, unwritten]
  unfold getInternal
  rw [if_neg kept, seen]
  cases newest with
  | @granted time data cached delivered newer _ _ =>
    have stamp : getTimestampFromCache node.cache key = time := by
      rw [getTimestampFromCache, cached]
      rfl
    have content : getValueFromCache node.cache key = value := by
      rw [getValueFromCache, cached]
      cases value with
      | none => rfl
      | some bytes => exact if_neg fun empty => delivered (congrArg some empty)
    cases stored : node.store key with
    | none =>
      have positive : 0 < time := Nat.lt_of_le_of_lt (Nat.zero_le _) newer
      simp [stamp, content, positive]
    | some old =>
      rw [getTimestampFromCache, stored] at newer
      simp [stamp, content, newer, filled old stored]
  | written stored newer _ =>
    simp [stored, filled _ stored, Nat.not_lt.mpr newer]
  | deleted gone cached =>
    have uncached := cached.resolve_right (fresh gone)
    simp [gone, getTimestampFromCache, uncached]

end Node

/-- The release of the key is in the trace; it has not been purged since, and values that the
key has got since are later. -/
def Scheduled (trace : List (NodeAction × NodeReport)) (purgeable : PurgeableKey) : Prop :=
  ∃ early late, trace = early ++
      (.release purgeable.releaseTimestamp purgeable.key, .released purgeable.key) :: late ∧
    ∀ entry ∈ late, entry.1 ≠ .purge ∧
      ∀ now, stamped entry = some (purgeable.key, now) → purgeable.releaseTimestamp < now

theorem Scheduled.snoc {trace : List (NodeAction × NodeReport)} {purgeable : PurgeableKey}
    (scheduled : Scheduled trace purgeable) {entry : NodeAction × NodeReport}
    (notPurge : entry.1 ≠ .purge)
    (later : ∀ now, stamped entry = some (purgeable.key, now) → purgeable.releaseTimestamp < now) :
    Scheduled (trace ++ [entry]) purgeable := by
  obtain ⟨early, late, whole, since⟩ := scheduled
  refine ⟨early, late ++ [entry], ?_, fun other member => ?_⟩
  · rw [whole, append_assoc, cons_append]
  · rcases mem_append.mp member with old | new
    · exact since other old
    · rw [mem_singleton.mp new]
      exact ⟨notPurge, later⟩

theorem purgeKeys_eq (values : Values × Values) (purgeableKeys : List PurgeableKey) :
    purgeKeys values purgeableKeys =
      (purgeableKeys.foldl purgeValue values.1, purgeableKeys.foldl purgeValue values.2) := by
  induction purgeableKeys generalizing values with
  | nil => rfl
  | cons purgeable rest ih => exact ih (purgeKey values purgeable)

/-- A purge only removes values that are not later than a release of the key. -/
theorem purgeValue_cases (purgeableKeys : List PurgeableKey) (values : Values)
    (key : QualifiedKey) :
    purgeableKeys.foldl purgeValue values key = values key ∨
      purgeableKeys.foldl purgeValue values key = none ∧ ∃ purgeable ∈ purgeableKeys,
        purgeable.key = key ∧ getTimestampFromCache values key ≤ purgeable.releaseTimestamp := by
  induction purgeableKeys generalizing values with
  | nil => exact .inl rfl
  | cons purgeable rest ih =>
    have first : purgeValue values purgeable key = values key ∨
        purgeValue values purgeable key = none ∧ purgeable.key = key ∧
          getTimestampFromCache values key ≤ purgeable.releaseTimestamp := by
      unfold purgeValue
      split
      · rename_i stale
        by_cases here : key = purgeable.key
        · subst here
          exact .inr ⟨update_self _ _ _, rfl, stale⟩
        · exact .inl (update_of_ne here _ _)
      · exact .inl rfl
    rcases ih (purgeValue values purgeable) with kept | ⟨gone, cause, member, isKey, stale⟩
    · rcases first with same | ⟨gone, isKey, stale⟩
      · exact .inl (kept.trans same)
      · exact .inr ⟨kept.trans gone, purgeable, mem_cons_self, isKey, stale⟩
    · rcases first with same | ⟨_, firstKey, firstStale⟩
      · refine .inr ⟨gone, cause, mem_cons_of_mem _ member, isKey, ?_⟩
        rw [← Node.timestamp_congr same]
        exact stale
      · exact .inr ⟨gone, purgeable, mem_cons_self, firstKey, firstStale⟩

variable {purgeableKeys : List PurgeableKey} {values : Values} {key : QualifiedKey}

/-- A value that is later than the releases of its key is not purged. -/
theorem purgeValue_later (later : After purgeableKeys key (getTimestampFromCache values key)) :
    purgeableKeys.foldl purgeValue values key = values key := by
  rcases purgeValue_cases purgeableKeys values key with kept | ⟨_, cause, member, isKey, stale⟩
  · exact kept
  · exact absurd (later cause member isKey) (Nat.not_lt.mpr stale)

theorem purgeValue_timestamp_le (purgeableKeys : List PurgeableKey) (values : Values)
    (key : QualifiedKey) :
    getTimestampFromCache (purgeableKeys.foldl purgeValue values) key ≤
      getTimestampFromCache values key := by
  rcases purgeValue_cases purgeableKeys values key with kept | ⟨gone, _⟩
  · exact Nat.le_of_eq (Node.timestamp_congr kept)
  · rw [getTimestampFromCache, gone]
    exact Nat.zero_le _

theorem purgeValue_none (missing : values key = none) :
    purgeableKeys.foldl purgeValue values key = none := by
  rcases purgeValue_cases purgeableKeys values key with kept | ⟨gone, _⟩
  · exact kept.trans missing
  · exact gone

namespace Node

variable {node next : Node} {trace : List (NodeAction × NodeReport)} {tx : TxId}
variable {entry : NodeAction × NodeReport} {key : QualifiedKey}

/-- Every locked key has its newest value where the timestamps say. -/
structure Coherent (trace : List (NodeAction × NodeReport)) (node : Node) : Prop where
  counted : node.table.Counted
  tidy : ∀ tx, node.Running tx →
    Tidy node.cache node.store node.purgeableKeys (node.transaction tx)
  holds : ∀ tx, node.Running tx → ∀ change ∈ (node.transaction tx).changeset,
    node.table.Holds tx change.key
  apart : ∀ tx, node.Running tx → ∀ other, node.Running other → tx ≠ other →
    ∀ change ∈ (node.transaction tx).changeset, ∀ taken ∈ (node.transaction other).changeset,
      change.key ≠ taken.key
  newest : ∀ key, node.table.locks key ≠ none → node.Newest key (latest trace key)
  past : ∀ key, getTimestampFromCache node.cache key ≤ node.clock
  released : ∀ key, node.table.locks key ≠ none → After node.purgeableKeys key node.clock
  filled : ∀ key stored, node.store key = some stored → stored.value ≠ []
  scheduled : ∀ purgeable ∈ node.purgeableKeys, Scheduled trace purgeable

theorem initial_coherent : Coherent [] initial where
  counted := empty_counted
  tidy _ running := absurd running.1 not_mem_nil
  holds _ running := absurd running.1 not_mem_nil
  apart _ running := absurd running.1 not_mem_nil
  newest _ locked := absurd rfl locked
  past _ := Nat.zero_le _
  released _ locked := absurd rfl locked
  filled := nofun
  scheduled := nofun

namespace Coherent

theorem latest_snoc (trace : List (NodeAction × NodeReport)) (entry : NodeAction × NodeReport) :
    latest (trace ++ [entry]) =
      match entry.2 with
      | .granted key data => update (latest trace) key data
      | .committed changes => replay (latest trace) changes
      | _ => latest trace := by
  unfold latest
  rw [foldl_append]
  rfl

variable (coherent : Coherent trace node)
include coherent

section Still

variable (counted : next.table.Counted) (cache : next.cache = node.cache)
  (store : next.store = node.store) (purgeable : next.purgeableKeys = node.purgeableKeys)
  (clock : node.clock ≤ next.clock) (silent : latest (trace ++ [entry]) = latest trace)
  (notPurge : entry.1 ≠ .purge)
include counted cache store purgeable clock silent notPurge

/-- A step that gives no value to a key. -/
theorem quiet (locks : ∀ key, next.table.locks key ≠ none → node.table.locks key ≠ none)
    (tidy : ∀ tx, next.Running tx →
      Tidy node.cache node.store node.purgeableKeys (next.transaction tx))
    (holds : ∀ tx, next.Running tx → ∀ change ∈ (next.transaction tx).changeset,
      next.table.Holds tx change.key)
    (apart : ∀ tx, next.Running tx → ∀ other, next.Running other → tx ≠ other →
      ∀ change ∈ (next.transaction tx).changeset, ∀ taken ∈ (next.transaction other).changeset,
        change.key ≠ taken.key)
    (deleting : ∀ key, next.Deleting key ↔ node.Deleting key)
    (later : ∀ purgeable ∈ node.purgeableKeys, ∀ now,
      stamped entry = some (purgeable.key, now) → purgeable.releaseTimestamp < now) :
    Coherent (trace ++ [entry]) next where
  counted := counted
  tidy := by
    rw [cache, store, purgeable]
    exact tidy
  holds := holds
  apart := apart
  newest key locked := by
    rw [silent]
    refine (coherent.newest key (locks key locked)).same (congrFun cache key) (congrFun store key)
      (fun time after => ?_) (deleting key)
    rw [purgeable]
    exact after
  past key := by
    rw [cache]
    exact Nat.le_trans (coherent.past key) clock
  released key locked := by
    rw [purgeable]
    intro entry member isKey
    exact Nat.lt_of_lt_of_le (coherent.released key (locks key locked) entry member isKey) clock
  filled := by
    rw [store]
    exact coherent.filled
  scheduled entry member := by
    rw [purgeable] at member
    exact (coherent.scheduled entry member).snoc notPurge (later entry member)

/-- A step in which no transaction changes a key. -/
theorem idle (locks : ∀ key, next.table.locks key ≠ none → node.table.locks key ≠ none)
    (running : ∀ tx, next.Running tx →
      (node.Running tx ∧ next.transaction tx = node.transaction tx ∧
        ∀ key, node.table.Holds tx key → next.table.Holds tx key) ∨
      next.transaction tx = .begin)
    (deleting : ∀ key, next.Deleting key ↔ node.Deleting key)
    (unstamped : stamped entry = none) : Coherent (trace ++ [entry]) next := by
  refine coherent.quiet counted cache store purgeable clock silent notPurge locks ?_ ?_ ?_
    deleting fun _ _ _ stamp => by rw [unstamped] at stamp; cases stamp
  · intro tx runs
    rcases running tx runs with ⟨before, same, _⟩ | begun
    · rw [same]
      exact coherent.tidy tx before
    · rw [begun]
      exact .begin _ _ _
  · intro tx runs change member
    rcases running tx runs with ⟨before, same, kept⟩ | begun
    · rw [same] at member
      exact kept _ (coherent.holds tx before change member)
    · rw [begun] at member
      cases member
  · intro tx runs other otherRuns different change member taken takes
    rcases running tx runs with ⟨before, same, _⟩ | begun
    · rcases running other otherRuns with ⟨otherBefore, otherSame, _⟩ | begun
      · rw [same] at member
        rw [otherSame] at takes
        exact coherent.apart tx before other otherBefore different change member taken takes
      · rw [begun] at takes
        cases takes
    · rw [begun] at member
      cases member

/-- A transaction changes a key. -/
theorem record {transaction : Transaction}
    (locks : next.table.locks = node.table.locks)
    (follows : node.table.Follows next.table) (active : next.table.active = node.table.active)
    (holds : next.table.Holds tx key)
    (unchanged : node.Unchanged tx key) (running : node.Running tx)
    (tidy : Tidy node.cache node.store node.purgeableKeys transaction)
    (changes : ∀ change ∈ transaction.changeset,
      change ∈ (node.transaction tx).changeset ∨ change.key = key)
    (transactions : next.transaction = update node.transaction tx transaction)
    (status : next.status = node.status)
    (later : ∀ purgeable ∈ node.purgeableKeys, ∀ now,
      stamped entry = some (purgeable.key, now) → purgeable.releaseTimestamp < now) :
    Coherent (trace ++ [entry]) next := by
  have runs : ∀ other, next.Running other → node.Running other := by
    intro other isRunning
    exact ⟨active ▸ isRunning.1, status ▸ isRunning.2⟩
  have foreign : ∀ other, node.Running other → other ≠ tx → ∀ change ∈ transaction.changeset,
      ∀ taken ∈ (node.transaction other).changeset, change.key ≠ taken.key := by
    intro other otherRuns different change member taken takes
    rcases changes change member with old | isKey
    · exact coherent.apart tx running other otherRuns different.symm change old taken takes
    · rw [isKey]
      exact (unchanged other otherRuns.1 otherRuns.2 different taken takes).symm
  have same : ∀ other, other ≠ tx → next.transaction other = node.transaction other := by
    intro other different
    rw [transactions]
    exact update_of_ne different _ _
  have own : next.transaction tx = transaction := by
    rw [transactions]
    exact update_self _ _ _
  refine coherent.quiet counted cache store purgeable clock silent notPurge
    (fun key locked => locks ▸ locked) ?_ ?_ ?_ ?_ later
  · intro other isRunning
    by_cases isTx : other = tx
    · rw [isTx, own]
      exact tidy
    · rw [same other isTx]
      exact coherent.tidy other (runs other isRunning)
  · intro other isRunning change member
    by_cases isTx : other = tx
    · subst isTx
      rw [own] at member
      rcases changes change member with old | isKey
      · exact follows.held other isRunning.1 _ (coherent.holds other running change old)
      · rw [isKey]
        exact holds
    · rw [same other isTx] at member
      exact follows.held other isRunning.1 _
        (coherent.holds other (runs other isRunning) change member)
  · intro first firstRuns second secondRuns different change member taken takes
    by_cases isFirst : first = tx
    · subst isFirst
      rw [own] at member
      rw [same second different.symm] at takes
      exact foreign second (runs second secondRuns) different.symm change member taken takes
    · rw [same first isFirst] at member
      by_cases isSecond : second = tx
      · subst isSecond
        rw [own] at takes
        exact (foreign first (runs first firstRuns) isFirst taken takes change member).symm
      · rw [same second isSecond] at takes
        exact coherent.apart first (runs first firstRuns) second (runs second secondRuns) different
          change member taken takes
  · intro key
    have isCommitted : ∀ other, next.Committed other ↔ node.Committed other := by
      intro other
      rw [Committed, Committed, active, status]
    have apart : ∀ other, node.Committed other → other ≠ tx := by
      rintro other committed rfl
      have both := committed.2.symm.trans running.2
      cases both
    constructor
    · rintro ⟨other, committed, member⟩
      have before := (isCommitted other).mp committed
      rw [same other (apart other before)] at member
      exact ⟨other, before, member⟩
    · rintro ⟨other, committed, member⟩
      refine ⟨other, (isCommitted other).mpr committed, ?_⟩
      rw [same other (apart other committed)]
      exact member

end Still

variable {table : LockTable}

/-- A step of the locks alone. -/
theorem relock {clock : Nat} (counted : table.Counted)
    (locks : ∀ key, table.locks key ≠ none → node.table.locks key ≠ none)
    (active : table.active = node.table.active)
    (held : ∀ tx ∈ table.active, ∀ key, node.table.Holds tx key → table.Holds tx key)
    (timely : node.clock ≤ clock) (silent : latest (trace ++ [entry]) = latest trace)
    (notPurge : entry.1 ≠ .purge) (unstamped : stamped entry = none) :
    Coherent (trace ++ [entry]) { node with table := table, clock := clock } := by
  refine coherent.idle counted rfl rfl rfl timely silent notPurge locks (fun tx running => ?_)
    (fun key => ?_) unstamped
  · exact .inl ⟨⟨active ▸ running.1, running.2⟩, rfl, held tx running.1⟩
  · apply deleting_iff
    · exact active
    · rfl
    · rfl

variable {now : Nat}

theorem grant {data : Option Bytes} {forWrite : Bool}
    {rest : List (QualifiedKey × Bool)}
    (queued : node.table.registrations = (key, forWrite) :: rest)
    (processed : node.table.processQueuedCallback true = some table) (timely : node.clock ≤ now)
    (fresh : node.Fresh (.grant now data)) :
    Coherent (trace ++ [(.grant now data, .granted key data)]) { node with
        table := table
        clock := now
        cache := update node.cache key (some (grantedValue now data)) } := by
  let after : Node := { node with
    table := table
    clock := now
    cache := update node.cache key (some (grantedValue now data)) }
  obtain ⟨delivered, conditions⟩ := fresh
  obtain ⟨counts, newer, released, puts, deletions⟩ :=
    conditions (key, forWrite) (by rw [queued]; rfl)
  obtain ⟨active, held⟩ := LockTable.processQueuedCallback_frame processed
  have allowed : node.table.CountsGrants (.respond true) := by
    intro registration first _ reads
    rw [queued] at first
    cases first
    exact counts reads
  have responded : node.table.step (.respond true) = some (table, []) := by
    rw [LockTable.step, processed]
    rfl
  have counted : table.Counted :=
    (step_releases coherent.counted allowed responded).counted
  have runs : ∀ tx, after.Running tx ↔ node.Running tx := fun tx => running_iff active rfl
  have deleting : ∀ key, after.Deleting key ↔ node.Deleting key := deleting_iff active rfl rfl
  have here : getTimestampFromCache after.cache key = now := by
    simp [getTimestampFromCache, after, grantedValue]
  have elsewhere : ∀ other, other ≠ key → after.cache other = node.cache other :=
    fun other apart => update_of_ne apart _ _
  change Coherent _ after
  refine ⟨counted, ?_, ?_, ?_, ?_, ?_, ?_, coherent.filled, ?_⟩
  · intro tx running
    have before := (runs tx).mp running
    have tidy := coherent.tidy tx before
    refine tidy.around (fun other value written => ?_) fun other value written =>
      (tidy.put other value written).2.2
    by_cases isKey : other = key
    · subst isKey
      rw [here]
      exact puts tx before.1 before.2 _ written _ rfl
    · rw [timestamp_congr (elsewhere other isKey)]
      exact (tidy.put other value written).2.1
  · intro tx running change member
    change change.key ∈ (table.held tx).map Prod.fst
    rw [held]
    exact coherent.holds tx ((runs tx).mp running) change member
  · intro tx running other otherRuns
    exact coherent.apart tx ((runs tx).mp running) other ((runs other).mp otherRuns)
  · intro other locked
    rw [latest_snoc]
    by_cases isKey : other = key
    · subst isKey
      simp only [update_self]
      refine .granted (update_self _ _ _) delivered newer released ?_
      rintro ⟨tx, committed, member⟩
      exact deletions tx (active ▸ committed.1) committed.2 member
    · simp only [update_of_ne isKey]
      refine (coherent.newest other ?_).same (elsewhere other isKey) rfl (fun _ after => after)
        (deleting other)
      rw [← LockTable.processQueuedCallback_locks queued processed isKey]
      exact locked
  · intro other
    by_cases isKey : other = key
    · exact Nat.le_of_eq (isKey ▸ here)
    · rw [timestamp_congr (elsewhere other isKey)]
      exact Nat.le_trans (coherent.past other) timely
  · intro other locked
    by_cases isKey : other = key
    · subst isKey
      exact released
    · intro purgeable member same
      refine Nat.lt_of_lt_of_le (coherent.released other ?_ purgeable member same) timely
      rw [← LockTable.processQueuedCallback_locks queued processed isKey]
      exact locked
  · intro purgeable member
    refine (coherent.scheduled purgeable member).snoc (by simp) fun time stamp => ?_
    obtain ⟨isKey, isNow⟩ := Prod.mk.inj (Option.some.inj stamp)
    exact isNow ▸ released purgeable member isKey.symm

/-- The last reference to a lock is dropped by its release callback. -/
theorem release (timely : node.clock ≤ now)
    (timer : key ∈ node.table.timers) (fired : LockTable.lockReleaseCallback
      { node.table with timers := node.table.timers.erase key } key = some (table, true)) :
    Coherent (trace ++ [(.release now key, .released key)])
      { node with
        table := table
        clock := now
        cache := update node.cache key none
        purgeableKeys := node.purgeableKeys ++ [⟨key, now⟩] } := by
  let after : Node := { node with
    table := table
    clock := now
    cache := update node.cache key none
    purgeableKeys := node.purgeableKeys ++ [⟨key, now⟩] }
  have releases := lockReleaseCallback_releases coherent.counted timer fired
  obtain ⟨active, held, locks⟩ := LockTable.lockReleaseCallback_frame fired
  have counted : table.Counted := releases.counted
  have unlocked : table.locks key = none := by
    rw [locks, if_pos ⟨rfl, rfl⟩]
  have apart : ∀ other, table.locks other ≠ none → other ≠ key :=
    fun other locked same => locked (same ▸ unlocked)
  have before : ∀ other, table.locks other ≠ none → node.table.locks other ≠ none := by
    intro other locked
    have different := apart other locked
    rw [locks, if_neg fun both => different both.2] at locked
    exact locked
  have elsewhere : ∀ other, other ≠ key → after.cache other = node.cache other :=
    fun other different => update_of_ne different _ _
  have still : ∀ other, other ≠ key → ∀ time, After node.purgeableKeys other time →
      After after.purgeableKeys other time := by
    intro other different time later purgeable member same
    rcases mem_append.mp member with old | new
    · exact later purgeable old same
    · rw [mem_singleton.mp new] at same
      exact absurd same.symm different
  have runs : ∀ tx, after.Running tx ↔ node.Running tx := fun tx => running_iff active rfl
  have deleting : ∀ key, after.Deleting key ↔ node.Deleting key := deleting_iff active rfl rfl
  have holds : ∀ tx, after.Running tx → ∀ change ∈ (node.transaction tx).changeset,
      table.Holds tx change.key := by
    intro tx running change member
    change change.key ∈ (table.held tx).map Prod.fst
    rw [held]
    exact coherent.holds tx ((runs tx).mp running) change member
  change Coherent _ after
  refine ⟨counted, ?_, holds, ?_, ?_, ?_, ?_, coherent.filled, ?_⟩
  · intro tx running
    have tidy := coherent.tidy tx ((runs tx).mp running)
    have different : ∀ other value, (node.transaction tx).writes other = some (some value) →
        other ≠ key := by
      intro other value written
      obtain ⟨change, member, rfl⟩ := tidy.changed written
      exact apart change.key (counted.locked running.1 (holds tx running change member))
    refine tidy.around (fun other value written => ?_) fun other value written => ?_
    · rw [timestamp_congr (elsewhere other (different other value written))]
      exact (tidy.put other value written).2.1
    · exact still other (different other value written) _ (tidy.put other value written).2.2
  · intro tx running other otherRuns
    exact coherent.apart tx ((runs tx).mp running) other ((runs other).mp otherRuns)
  · intro other locked
    rw [latest_snoc]
    exact (coherent.newest other (before other locked)).same (elsewhere other (apart other locked))
      rfl (still other (apart other locked)) (deleting other)
  · intro other
    by_cases isKey : other = key
    · subst isKey
      simp [getTimestampFromCache, after]
    · rw [timestamp_congr (elsewhere other isKey)]
      exact Nat.le_trans (coherent.past other) timely
  · intro other locked
    refine still other (apart other locked) now fun purgeable member same => ?_
    exact Nat.lt_of_lt_of_le (coherent.released other (before other locked) purgeable member same)
      timely
  · intro purgeable member
    rcases mem_append.mp member with old | new
    · exact (coherent.scheduled purgeable old).snoc (by simp) (by rintro _ ⟨⟩)
    · rw [mem_singleton.mp new]
      exact ⟨trace, [], rfl, by simp⟩

omit coherent

theorem replay_changed {first second : Contents} {changes : List Change}
    (changed : ∃ change ∈ changes, change.key = key) :
    replay first changes key = replay second changes key := by
  obtain ⟨change, member, rfl⟩ := changed
  obtain ⟨early, late, rfl⟩ := append_of_mem member
  rw [replay_append, replay_append]
  refine replay_congr late ?_
  simp

variable (coherent : Coherent trace node)
include coherent

theorem commit (running : node.Running tx) :
    Coherent (trace ++ [(.commit tx, .committed (node.transaction tx).changeset)]) { node with
        store := (node.transaction tx).view node.store
        status := update node.status tx .committed } := by
  let after : Node := { node with
    store := (node.transaction tx).view node.store
    status := update node.status tx .committed }
  have tidy := coherent.tidy tx running
  have runs : ∀ other, after.Running other → node.Running other ∧ other ≠ tx := by
    rintro other ⟨active, status⟩
    have different : other ≠ tx := by
      rintro rfl
      cases (update_self _ _ _).symm.trans status
    exact ⟨⟨active, (update_of_ne different _ _).symm.trans status⟩, different⟩
  have isCommitted : ∀ other, after.Committed other ↔ node.Committed other ∨ other = tx := by
    intro other
    by_cases isTx : other = tx
    · subst isTx
      exact ⟨fun _ => .inr rfl, fun _ => ⟨running.1, update_self _ _ _⟩⟩
    · simp [Committed, after, isTx]
  change Coherent _ after
  refine ⟨coherent.counted, ?_, ?_, ?_, ?_, coherent.past, coherent.released, ?_, ?_⟩
  · intro other isRunning
    obtain ⟨before, different⟩ := runs other isRunning
    exact (coherent.tidy other before).commit tidy.described
      (coherent.apart other before tx running different)
  · intro other isRunning
    exact coherent.holds other (runs other isRunning).1
  · intro first firstRuns second secondRuns
    exact coherent.apart first (runs first firstRuns).1 second (runs second secondRuns).1
  · intro key locked
    rw [latest_snoc]
    simp only
    by_cases changed : ∃ change ∈ (node.transaction tx).changeset, change.key = key
    · rw [replay_changed changed, tidy.described.same]
      obtain ⟨change, member, rfl⟩ := changed
      cases seen : (node.transaction tx).view node.store change.key with
      | none =>
        rw [contents, seen]
        exact .deleted seen (.inr ⟨tx, (isCommitted tx).mpr (.inr rfl),
          tidy.deleted change member seen⟩)
      | some value =>
        have written : (node.transaction tx).writes change.key = some (some value) := by
          cases write : (node.transaction tx).writes change.key with
          | none =>
            rw [view, write, tidy.absent change member write] at seen
            cases seen
          | some write_ =>
            rw [view, write] at seen
            exact congrArg some seen
        obtain ⟨_, newer, later⟩ := tidy.put change.key value written
        rw [contents, seen]
        exact .written seen newer later
    · have others : ∀ change ∈ (node.transaction tx).changeset, change.key ≠ key :=
        fun change member same => changed ⟨change, member, same⟩
      rw [replay_of_ne others]
      have store : after.store key = node.store key := by
        simp [after, view, tidy.described.only key others]
      refine (coherent.newest key locked).same rfl store (fun _ later => later) ?_
      constructor
      · rintro ⟨other, committed, member⟩
        rcases (isCommitted other).mp committed with before | rfl
        · exact ⟨other, before, member⟩
        · exact absurd (tidy.listed key member) changed
      · rintro ⟨other, committed, member⟩
        exact ⟨other, (isCommitted other).mpr (.inl committed), member⟩
  · intro key stored found
    change (node.transaction tx).view node.store key = some stored at found
    cases write : (node.transaction tx).writes key with
    | none =>
      rw [view, write] at found
      exact coherent.filled key stored found
    | some write_ =>
      rw [view, write] at found
      have written := write.trans (congrArg some found)
      exact (tidy.put key stored written).1
  · intro purgeable member
    exact (coherent.scheduled purgeable member).snoc (by simp) (by rintro _ ⟨⟩)

theorem uncache (committed : node.Committed tx) :
    Coherent (trace ++ [(.uncache tx, .done)]) { node with
        cache := fun key => if key ∈ (node.transaction tx).deletedKeys then none else node.cache key
        status := update node.status tx .ended } := by
  let after : Node := { node with
    cache := fun key => if key ∈ (node.transaction tx).deletedKeys then none else node.cache key
    status := update node.status tx .ended }
  have lower : ∀ key, getTimestampFromCache after.cache key ≤
      getTimestampFromCache node.cache key := by
    intro key
    by_cases member : key ∈ (node.transaction tx).deletedKeys
    · simp [getTimestampFromCache, after, member]
    · exact Nat.le_of_eq (timestamp_congr (if_neg member))
  have runs : ∀ other, after.Running other → node.Running other := by
    rintro other ⟨active, status⟩
    by_cases isTx : other = tx
    · subst isTx
      cases (update_self _ _ _).symm.trans status
    · exact ⟨active, (update_of_ne isTx _ _).symm.trans status⟩
  have remains : ∀ other, after.Committed other → node.Committed other := by
    rintro other ⟨active, status⟩
    by_cases isTx : other = tx
    · subst isTx
      cases (update_self _ _ _).symm.trans status
    · exact ⟨active, (update_of_ne isTx _ _).symm.trans status⟩
  change Coherent _ after
  refine ⟨coherent.counted, ?_, ?_, ?_, ?_, ?_, coherent.released, coherent.filled, ?_⟩
  · intro other isRunning
    have tidy := coherent.tidy other (runs other isRunning)
    exact tidy.around (fun key value written => Nat.le_trans (lower key)
      (tidy.put key value written).2.1) fun key value written => (tidy.put key value written).2.2
  · intro other isRunning
    exact coherent.holds other (runs other isRunning)
  · intro first firstRuns second secondRuns
    exact coherent.apart first (runs first firstRuns) second (runs second secondRuns)
  · intro key locked
    rw [latest_snoc]
    change after.Newest key (latest trace key)
    have newest := coherent.newest key locked
    generalize latest trace key = value at newest ⊢
    by_cases member : key ∈ (node.transaction tx).deletedKeys
    · have uncached : after.cache key = none := if_pos member
      cases newest with
      | granted _ _ _ _ kept => exact absurd ⟨tx, committed, member⟩ kept
      | written stored newer later => exact .written stored (Nat.le_trans (lower key) newer) later
      | deleted gone _ => exact .deleted gone (.inl uncached)
    · refine newest.same (if_neg member) rfl (fun _ later => later) ?_
      constructor
      · rintro ⟨other, isCommitted, inside⟩
        exact ⟨other, remains other isCommitted, inside⟩
      · rintro ⟨other, isCommitted, inside⟩
        have different : other ≠ tx := fun isTx => member (isTx ▸ inside)
        exact ⟨other, ⟨isCommitted.1, (update_of_ne different _ _).trans isCommitted.2⟩, inside⟩
  · exact fun key => Nat.le_trans (lower key) (coherent.past key)
  · intro purgeable member
    exact (coherent.scheduled purgeable member).snoc (by simp) (by rintro _ ⟨⟩)

theorem purge (noActive : node.table.active = []) :
    Coherent (trace ++ [(.purge, .done)]) { node with
        store := (purgeKeys (node.store, node.cache) node.purgeableKeys).1
        cache := (purgeKeys (node.store, node.cache) node.purgeableKeys).2
        purgeableKeys := [] } := by
  let after : Node := { node with
    store := (purgeKeys (node.store, node.cache) node.purgeableKeys).1
    cache := (purgeKeys (node.store, node.cache) node.purgeableKeys).2
    purgeableKeys := [] }
  have store : after.store = node.purgeableKeys.foldl purgeValue node.store := by
    simp [after, purgeKeys_eq]
  have cache : after.cache = node.purgeableKeys.foldl purgeValue node.cache := by
    simp [after, purgeKeys_eq]
  have nobody : ∀ tx, tx ∉ node.table.active := by
    intro tx
    rw [noActive]
    exact not_mem_nil
  have noDeletion : ∀ key, ¬ node.Deleting key := by
    rintro key ⟨tx, committed, _⟩
    exact nobody tx committed.1
  change Coherent _ after
  refine ⟨coherent.counted, ?_, ?_, ?_, ?_, ?_, by rintro _ _ _ ⟨⟩, ?_, by rintro _ ⟨⟩⟩
  · exact fun tx running => absurd running.1 (nobody tx)
  · exact fun tx running => absurd running.1 (nobody tx)
  · exact fun tx running => absurd running.1 (nobody tx)
  · intro key locked
    rw [latest_snoc]
    change after.Newest key (latest trace key)
    have newest := coherent.newest key locked
    generalize latest trace key = value at newest ⊢
    cases newest with
    | @granted time data cached delivered newer later _ =>
      have stamp : getTimestampFromCache node.cache key = time := by
        rw [getTimestampFromCache, cached]
        rfl
      have unscheduled : After after.purgeableKeys key time := by rintro _ ⟨⟩
      refine .granted ?_ delivered ?_ unscheduled (noDeletion key)
      · rw [cache, purgeValue_later (stamp ▸ later)]
        exact cached
      · rw [store]
        exact Nat.lt_of_le_of_lt (purgeValue_timestamp_le _ _ _) newer
    | @written value stored newer later =>
      have stamp : getTimestampFromCache node.store key = value.timestamp := by
        rw [getTimestampFromCache, stored]
      have unscheduled : After after.purgeableKeys key value.timestamp := by rintro _ ⟨⟩
      refine .written ?_ ?_ unscheduled
      · rw [store, purgeValue_later (stamp ▸ later)]
        exact stored
      · rw [cache]
        exact Nat.le_trans (purgeValue_timestamp_le _ _ _) newer
    | deleted gone cached =>
      have uncached := cached.resolve_right (noDeletion key)
      refine .deleted ?_ (.inl ?_)
      · rw [store]
        exact purgeValue_none gone
      · rw [cache]
        exact purgeValue_none uncached
  · intro key
    rw [cache]
    exact Nat.le_trans (purgeValue_timestamp_le _ _ _) (coherent.past key)
  · intro key stored found
    rw [store] at found
    rcases purgeValue_cases node.purgeableKeys node.store key with kept | ⟨gone, _⟩
    · exact coherent.filled key stored (kept.symm.trans found)
    · rw [gone] at found
      cases found

end Coherent

/-- What it means for the locks that a transaction has got one. -/
structure Ensured (table : LockTable) (tx : TxId) (key : QualifiedKey)
    (after : LockTable) : Prop where
  counted : after.Counted
  locks : after.locks = table.locks
  locked : table.locks key ≠ none
  active : after.active = table.active
  follows : table.Follows after
  holds : after.Holds tx key

theorem ensureLock_cases (counted : node.table.Counted) {forWrite : Bool} {locked : Node}
    (ensured : node.ensureLock tx key forWrite = some locked) : node.Running tx ∧ ∃ table,
      Ensured node.table tx key table ∧ locked = { node with table := table } := by
  obtain ⟨running, ensured⟩ := ite_none_right_eq_some.mp ensured
  refine ⟨running, ?_⟩
  have checked : ∀ table, node.table.checkAndSetLock tx key forWrite = some (table, true) →
      Ensured node.table tx key table := by
    intro table set
    obtain ⟨follows, active, isLocked, holds⟩ := LockTable.checkAndSetLock_follows set
    exact ⟨checkAndSetLock_counted counted running.1 set,
      checkAndSetLock_locks set, isLocked, active, follows, holds⟩
  split at ensured
  · cases ensured
  · rename_i lock found
    split at ensured
    · cases ensured
      obtain ⟨id, held, _⟩ := map_eq_some_iff.mp found
      have holds : node.table.Holds tx key :=
        LockTable.heldLock_isSome.mp (isSome_iff_exists.mpr ⟨id, held⟩)
      exact ⟨node.table, ⟨counted, rfl, counted.locked running.1 holds, rfl, .refl _, holds⟩, rfl⟩
    · split at ensured
      · rename_i table set
        cases ensured
        exact ⟨table, checked table set, rfl⟩
      · cases ensured
  · split at ensured
    · rename_i table set
      cases ensured
      exact ⟨table, checked table set, rfl⟩
    · cases ensured

theorem Fresh.not_deleting {forUpdate : Bool} (fresh : node.Fresh (.get tx key forUpdate))
    (missing : node.store key = none) : ¬ node.Deleting key := by
  rintro ⟨other, committed, member⟩
  exact fresh missing other committed.1 committed.2 member

variable {report : NodeReport}

theorem Coherent.begin (coherent : Coherent trace node)
    (taken : node.step .begin = some (next, report)) :
    Coherent (trace ++ [(.begin, report)]) next := by
  cases taken
  have new : ∀ tx ∈ node.table.active, tx ≠ node.table.nextTx :=
    fun tx member => Nat.ne_of_lt (coherent.counted.old tx member)
  refine coherent.idle (createTransaction_counted coherent.counted) rfl rfl rfl (Nat.le_refl _)
    (Coherent.latest_snoc _ _) nofun (fun _ locked => locked) ?_ ?_ rfl
  · rintro tx ⟨member, status⟩
    by_cases isNew : tx = node.table.nextTx
    · subst isNew
      exact .inr (update_self _ _ _)
    · refine .inl ⟨⟨?_, (update_of_ne isNew _ _).symm.trans status⟩,
        update_of_ne isNew _ _, fun key holds => ?_⟩
      · rcases mem_append.mp member with old | last
        · exact old
        · exact absurd (mem_singleton.mp last) isNew
      · change key ∈ ((update node.table.held node.table.nextTx [] tx).map Prod.fst)
        rw [update_of_ne isNew]
        exact holds
  · intro key
    constructor
    · rintro ⟨tx, ⟨member, status⟩, inside⟩
      have isOld : tx ≠ node.table.nextTx := by
        rintro rfl
        cases (update_self _ _ _).symm.trans status
      refine ⟨tx, ⟨?_, (update_of_ne isOld _ _).symm.trans status⟩, ?_⟩
      · rcases mem_append.mp member with old | last
        · exact old
        · exact absurd (mem_singleton.mp last) isOld
      · simpa only [update_of_ne isOld] using inside
    · rintro ⟨tx, ⟨member, status⟩, inside⟩
      refine ⟨tx, ⟨mem_append_left _ member, (update_of_ne (new tx member) _ _).trans status⟩, ?_⟩
      simpa only [update_of_ne (new tx member)] using inside

theorem Coherent.refuse (coherent : Coherent trace node)
    (taken : node.step .refuse = some (next, report)) :
    Coherent (trace ++ [(.refuse, report)]) next := by
  obtain ⟨table, processed, same⟩ := map_eq_some_iff.mp taken
  cases same
  obtain ⟨active, held⟩ := LockTable.processQueuedCallback_frame processed
  have responded : node.table.step (.respond false) = some (table, []) := by
    rw [LockTable.step, processed]
    rfl
  have refused : node.table.CountsGrants (.respond false) :=
    fun _ _ success => Bool.noConfusion success
  have counted := (step_releases coherent.counted refused responded).counted
  refine coherent.relock counted (fun key locked => ?_) active (fun tx _ key holds => ?_)
    (Nat.le_refl _) (Coherent.latest_snoc _ _) nofun rfl
  · rw [← LockTable.processQueuedCallback_refused processed]
    exact locked
  · rw [LockTable.Holds, held]
    exact holds

theorem Coherent.put (coherent : Coherent trace node)
    (fresh : node.Fresh (.put tx now key value))
    (taken : node.step (.put tx now key value) = some (next, report)) :
    Coherent (trace ++ [(.put tx now key value, report)]) next := by
  obtain ⟨conditions, taken⟩ := ite_none_right_eq_some.mp taken
  obtain ⟨timely, unchanged⟩ := conditions
  obtain ⟨locked, ensured, same⟩ := map_eq_some_iff.mp taken
  cases same
  obtain ⟨running, table, set, rfl⟩ := ensureLock_cases coherent.counted ensured
  have later : After node.purgeableKeys key now := fun purgeable member isKey =>
    Nat.lt_of_lt_of_le (coherent.released key set.locked purgeable member isKey) timely
  refine coherent.record set.counted rfl rfl rfl timely (Coherent.latest_snoc _ _) nofun set.locks
    set.follows set.active set.holds unchanged running
    ((coherent.tidy tx running).transactionPut fresh
      (Nat.le_trans (coherent.past key) timely) later)
    (fun change member => ?_) rfl rfl fun purgeable member time stamp => ?_
  · rcases mem_append.mp member with old | new
    · exact .inl old
    · exact .inr (congrArg Change.key (mem_singleton.mp new))
  · obtain ⟨isKey, isNow⟩ := Prod.mk.inj (Option.some.inj stamp)
    exact isNow ▸ later purgeable member isKey.symm

theorem Coherent.delete (coherent : Coherent trace node)
    (taken : node.step (.delete tx key) = some (next, report)) :
    Coherent (trace ++ [(.delete tx key, report)]) next := by
  obtain ⟨unchanged, taken⟩ := ite_none_right_eq_some.mp taken
  obtain ⟨locked, ensured, same⟩ := map_eq_some_iff.mp taken
  cases same
  obtain ⟨running, table, set, rfl⟩ := ensureLock_cases coherent.counted ensured
  refine coherent.record set.counted rfl rfl rfl (Nat.le_refl _) (Coherent.latest_snoc _ _) nofun
    set.locks set.follows set.active set.holds unchanged running
    ((coherent.tidy tx running).transactionDelete key) (fun change member => ?_) rfl rfl nofun
  cases found : (transactionDelete node.cache node.store (node.transaction tx) key).2 with
  | false =>
    rw [transactionDelete_missing found] at member
    exact .inl member
  | true =>
    rw [(transactionDelete_found found).1] at member
    rcases mem_append.mp member with old | new
    · exact .inl old
    · exact .inr (congrArg Change.key (mem_singleton.mp new))

theorem Coherent.rollback (coherent : Coherent trace node)
    (taken : node.step (.rollback tx) = some (next, report)) :
    Coherent (trace ++ [(.rollback tx, report)]) next := by
  obtain ⟨running, taken⟩ := ite_none_right_eq_some.mp taken
  cases taken
  refine coherent.idle coherent.counted rfl rfl rfl (Nat.le_refl _) (Coherent.latest_snoc _ _)
    nofun (fun _ locked => locked) (fun other runs => ?_) (fun key => ?_) rfl
  · obtain ⟨member, status⟩ := runs
    by_cases isTx : other = tx
    · subst isTx
      cases (update_self _ _ _).symm.trans status
    · exact .inl ⟨⟨member, (update_of_ne isTx _ _).symm.trans status⟩, rfl,
        fun _ holds => holds⟩
  · have remains : ∀ other, update node.status tx .ended other = .committed ↔
        node.status other = .committed := by
      intro other
      by_cases isTx : other = tx
      · subst isTx
        rw [update_self, running.2]
        exact ⟨nofun, nofun⟩
      · rw [update_of_ne isTx]
    simp only [Deleting, Committed, remains]

theorem Coherent.finish (coherent : Coherent trace node)
    (taken : node.step (.finish tx) = some (next, report)) :
    Coherent (trace ++ [(.finish tx, report)]) next := by
  obtain ⟨conditions, taken⟩ := ite_none_right_eq_some.mp taken
  obtain ⟨active, ended⟩ := conditions
  obtain ⟨⟨table, released⟩, cleaned, same⟩ := map_eq_some_iff.mp taken
  cases same
  obtain ⟨rest, held, locks⟩ := LockTable.cleanupTransaction_frame cleaned
  have counted := (cleanupTransaction_releases coherent.counted active cleaned).counted
  have others : ∀ other, other ∈ table.active ↔ other ∈ node.table.active ∧ other ≠ tx := by
    intro other
    rw [rest, coherent.counted.distinct.mem_erase_iff, and_comm]
  refine coherent.idle counted rfl rfl rfl (Nat.le_refl _) (Coherent.latest_snoc _ _) nofun locks
    (fun other runs => ?_) (fun key => ?_) rfl
  · obtain ⟨member, status⟩ := runs
    obtain ⟨was, different⟩ := (others other).mp member
    refine .inl ⟨⟨was, status⟩, rfl, fun key holds => ?_⟩
    rw [LockTable.Holds, held, update_of_ne different]
    exact holds
  · have remains : ∀ other, (other ∈ table.active ∧ node.status other = .committed) ↔
        (other ∈ node.table.active ∧ node.status other = .committed) := by
      intro other
      rw [others]
      constructor
      · exact fun ⟨member, status⟩ => ⟨member.1, status⟩
      · rintro ⟨member, status⟩
        refine ⟨⟨member, fun isTx => ?_⟩, status⟩
        cases (isTx ▸ status).symm.trans ended
    exact exists_congr fun other => and_congr_left fun _ => remains other

theorem step_coherent (coherent : Coherent trace node) {action : NodeAction}
    (fresh : node.Fresh action) (taken : node.step action = some (next, report)) :
    Coherent (trace ++ [(action, report)]) next := by
  cases action with
  | begin => exact coherent.begin taken
  | request tx key forWrite =>
    obtain ⟨running, taken⟩ := ite_none_right_eq_some.mp taken
    obtain ⟨⟨table, released⟩, requested, same⟩ := map_eq_some_iff.mp taken
    cases same
    rw [LockTable.step, if_pos running.1] at requested
    cases requested
    exact coherent.idle { coherent.counted with } rfl rfl rfl (Nat.le_refl _)
      (Coherent.latest_snoc _ _) nofun (fun _ locked => locked)
      (fun _ runs => .inl ⟨runs, rfl, fun _ holds => holds⟩) (fun _ => Iff.rfl) rfl
  | grant now data =>
    simp only [step] at taken
    split at taken
    · cases taken
    · rename_i key forWrite rest queued
      obtain ⟨timely, taken⟩ := ite_none_right_eq_some.mp taken
      obtain ⟨table, processed, same⟩ := map_eq_some_iff.mp taken
      cases same
      exact coherent.grant queued processed timely fresh
  | refuse => exact coherent.refuse taken
  | release now key =>
    obtain ⟨conditions, taken⟩ := ite_none_right_eq_some.mp taken
    obtain ⟨timely, timer⟩ := conditions
    split at taken
    · cases taken
    · rename_i table fired
      cases taken
      obtain ⟨active, held, locks⟩ := LockTable.lockReleaseCallback_frame fired
      have counted := (lockReleaseCallback_releases coherent.counted timer fired).counted
      refine coherent.relock counted (fun key locked => ?_) active (fun tx _ key holds => ?_)
        timely (Coherent.latest_snoc _ _) nofun rfl
      · rw [locks, if_neg fun both => Bool.noConfusion both.1] at locked
        exact locked
      · rw [LockTable.Holds, held]
        exact holds
    · rename_i table fired
      cases taken
      exact coherent.release timely timer fired
  | get tx key forUpdate =>
    obtain ⟨locked, ensured, same⟩ := map_eq_some_iff.mp taken
    cases same
    obtain ⟨_, table, set, rfl⟩ := ensureLock_cases coherent.counted ensured
    refine coherent.relock set.counted (fun key locked => ?_) set.active set.follows.held
      (Nat.le_refl _) (Coherent.latest_snoc _ _) nofun rfl
    rw [← set.locks]
    exact locked
  | put tx now key value => exact coherent.put fresh taken
  | delete tx key => exact coherent.delete taken
  | commit tx =>
    obtain ⟨running, taken⟩ := ite_none_right_eq_some.mp taken
    cases taken
    exact coherent.commit running
  | rollback tx => exact coherent.rollback taken
  | uncache tx =>
    obtain ⟨committed, taken⟩ := ite_none_right_eq_some.mp taken
    cases taken
    exact coherent.uncache committed
  | finish tx => exact coherent.finish taken
  | purge =>
    obtain ⟨noActive, taken⟩ := ite_none_right_eq_some.mp taken
    cases taken
    exact coherent.purge noActive

end Node

/-- In every run in which grants come later than what is stored and than the pending releases
of their keys, and nothing is granted, put or read in the cases that `Fresh` leaves out, a
transaction that has not changed a key reads what the last grant has delivered or the last
commit since has written.  A purge removes a value only for a release that is not earlier
than the value, since which every value that the key has got is later. -/
theorem get_returns_latest {trace : List (NodeAction × NodeReport)} {node : Node}
    (run : Run Node.step Node.Fresh Node.initial trace node) :
    (∀ tx key forUpdate next report, node.Fresh (.get tx key forUpdate) →
      (∀ change ∈ (node.transaction tx).changeset, change.key ≠ key) →
      node.step (.get tx key forUpdate) = some (next, report) →
      report = .read (some (latest trace key))) ∧
    ∀ next report, node.step .purge = some (next, report) → ∀ key,
      (∀ stored, node.store key = some stored → next.store key = some stored ∨
        ∃ purgeable, purgeable.key = key ∧ stored.timestamp ≤ purgeable.releaseTimestamp ∧
          Scheduled trace purgeable) ∧
      ∀ cached, node.cache key = some cached → next.cache key = some cached ∨
        ∃ purgeable, purgeable.key = key ∧ cached.timestamp ≤ purgeable.releaseTimestamp ∧
          Scheduled trace purgeable := by
  have coherent : Node.Coherent trace node :=
    run.invariant Node.Coherent Node.initial_coherent fun _ coherent fresh taken =>
      Node.step_coherent coherent fresh taken
  constructor
  · intro tx key forUpdate next report fresh unchanged taken
    obtain ⟨locked, ensured, same⟩ := map_eq_some_iff.mp taken
    cases same
    obtain ⟨running, table, set, rfl⟩ := Node.ensureLock_cases coherent.counted ensured
    have tidy := coherent.tidy tx running
    have kept : key ∉ (node.transaction tx).deletedKeys := by
      intro member
      obtain ⟨change, inside, isKey⟩ := tidy.listed key member
      exact unchanged change inside isKey
    exact congrArg NodeReport.read ((coherent.newest key set.locked).read
      (tidy.described.only key unchanged) kept (coherent.filled key) fresh.not_deleting)
  · intro next report taken key
    obtain ⟨_, taken⟩ := ite_none_right_eq_some.mp taken
    cases taken
    rw [purgeKeys_eq]
    have removed : ∀ (values : Values) content, values key = some content →
        node.purgeableKeys.foldl purgeValue values key = some content ∨
        ∃ purgeable, purgeable.key = key ∧ content.timestamp ≤ purgeable.releaseTimestamp ∧
          Scheduled trace purgeable := by
      intro values content found
      rcases purgeValue_cases node.purgeableKeys values key with kept | ⟨_, cause⟩
      · exact .inl (kept.trans found)
      · obtain ⟨purgeable, member, isKey, stale⟩ := cause
        rw [getTimestampFromCache, found] at stale
        exact .inr ⟨purgeable, isKey, stale, coherent.scheduled purgeable member⟩
    exact ⟨removed node.store, removed node.cache⟩

instance (node : Node) : DecidablePred node.Fresh
  | .grant _ data => inferInstanceAs (Decidable (data ≠ some [] ∧
      ∀ registration ∈ node.table.registrations.head?, _))
  | .put _ _ _ value => inferInstanceAs (Decidable (value ≠ []))
  | .get _ key _ => inferInstanceAs (Decidable (node.store key = none → _))
  | .begin | .request _ _ _ | .refuse | .release _ _ | .delete _ _ | .commit _ | .rollback _
  | .uncache _ | .finish _ | .purge => .isTrue trivial

/-- A key is changed, released and granted again, and then the release is purged. -/
def grantedAgain : List NodeAction :=
  [.begin, .request 0 someKey true, .grant 3 (some [1]), .put 0 4 someKey [2], .commit 0,
    .uncache 0, .finish 0, .release 5 someKey, .begin, .request 1 someKey false,
    .grant 6 (some [3]), .rollback 1, .finish 1, .purge, .begin]

theorem get_returns_latest_regrant :
    ∃ trace node next, Run Node.step Node.Fresh Node.initial trace node ∧
      trace.map Prod.fst = grantedAgain ∧ latest trace someKey = some [3] ∧
      node.step (.get 2 someKey false) = some (next, .read (some (some [3]))) := by
  have observed : (exec (fun node action => if node.Fresh action then node.step action else none)
      Node.initial grantedAgain).map
      (fun result => (result.1.map Prod.fst, latest result.1 someKey,
        (result.2.transaction 2).changeset, decide (result.2.Fresh (.get 2 someKey false)),
        (result.2.step (.get 2 someKey false)).isSome)) =
      some (grantedAgain, some [3], [], true, true) := by
    decide +kernel
  obtain ⟨⟨trace, node⟩, executed, seen⟩ := map_eq_some_iff.mp observed
  simp only [Prod.mk.injEq, decide_eq_true_eq] at seen
  obtain ⟨actions, newest, changeset, fresh, steps⟩ := seen
  obtain ⟨⟨next, report⟩, taken⟩ := isSome_iff_exists.mp steps
  have run := run_of_tested_exec executed
  have unchanged : ∀ change ∈ (node.transaction 2).changeset, change.key ≠ someKey := by
    rw [changeset]
    nofun
  have answer := (get_returns_latest run).1 2 someKey false next report fresh unchanged taken
  rw [newest] at answer
  exact ⟨trace, node, next, run, actions, newest, answer ▸ taken⟩

/-- Another transaction reads a key that was deleted, before the deletion is out of the
cache. -/
def readWhileDeleting : List NodeAction :=
  [.begin, .request 0 someKey true, .grant 3 (some [1]), .delete 0 someKey, .commit 0, .begin]

/-- A key is granted again at the time of its release, and then the release is purged. -/
def grantedAtRelease : List NodeAction :=
  [.begin, .request 0 someKey false, .grant 3 (some [1]), .rollback 0, .finish 0, .begin,
    .request 1 someKey true, .release 5 someKey, .grant 5 (some [2]), .rollback 1, .finish 1]

/-- What has been deleted is read, and a value is purged that was granted after the
release. -/
theorem stale_read_and_purge : (∃ trace node next, Run Node.step anyAction Node.initial trace node ∧
      trace.map Prod.fst = readWhileDeleting ∧ latest trace someKey = none ∧
      (node.transaction 1).changeset = [] ∧
      node.step (.get 1 someKey false) = some (next, .read (some (some [1])))) ∧
    ∃ trace node next, Run Node.step anyAction Node.initial trace node ∧
      trace.map Prod.fst = grantedAtRelease ∧ node.cache someKey = some ⟨5, [2]⟩ ∧
      node.step .purge = some (next, .done) ∧ next.cache someKey = none := by
  constructor
  · have observed : (exec Node.step Node.initial readWhileDeleting).map
        (fun result => (result.1.map Prod.fst, latest result.1 someKey,
          (result.2.transaction 1).changeset)) = some (readWhileDeleting, none, []) := by
      decide +kernel
    have answered : ((exec Node.step Node.initial readWhileDeleting).bind
        fun result => result.2.step (.get 1 someKey false)).map Prod.snd =
        some (.read (some (some [1]))) := by
      decide +kernel
    obtain ⟨⟨trace, node⟩, executed, seen⟩ := map_eq_some_iff.mp observed
    rw [executed] at answered
    obtain ⟨⟨next, report⟩, taken, same⟩ := map_eq_some_iff.mp answered
    simp only [Prod.mk.injEq] at seen same
    subst same
    exact ⟨trace, node, next, run_of_exec executed, seen.1, seen.2.1, seen.2.2, taken⟩
  · have observed : (exec Node.step Node.initial grantedAtRelease).map
        (fun result => (result.1.map Prod.fst, result.2.cache someKey)) =
        some (grantedAtRelease, some ⟨5, [2]⟩) := by
      decide +kernel
    have purged : ((exec Node.step Node.initial grantedAtRelease).bind
        fun result => result.2.step .purge).map (fun after => (after.1.cache someKey, after.2)) =
        some (none, .done) := by
      decide +kernel
    obtain ⟨⟨trace, node⟩, executed, seen⟩ := map_eq_some_iff.mp observed
    rw [executed] at purged
    obtain ⟨⟨next, report⟩, taken, same⟩ := map_eq_some_iff.mp purged
    simp only [Prod.mk.injEq] at seen same
    obtain ⟨gone, rfl⟩ := same
    exact ⟨trace, node, next, run_of_exec executed, seen.1, seen.2, taken, gone⟩

end Gzochi.DataClient
