import Gzochi.DataClient.LockTable

/-!
# References to point locks

The reference count of a lock is the number of the release callbacks that are still to
come for it and of the active transactions that use it, as long as a lock for read is not
granted on a key that the server has locked already: `lock_success_callback` does not count
such a grant, though a release callback follows it.
-/

namespace Gzochi.DataClient

open Lib List Function LockTable Option

/-- A lock with one reference less, or freed. -/
def Lock.lowered (lock : Lock) : Option Lock :=
  if lock.refCount - 1 ≤ 0 then none else some { lock with refCount := lock.refCount - 1 }

namespace LockTable

variable {table next : LockTable} {key other : QualifiedKey} {tx : TxId} {id : LockId}

/-- The number of active transactions that use the lock of a key. -/
def users (table : LockTable) (key : QualifiedKey) : Nat :=
  table.active.countP fun tx => key ∈ (table.held tx).map Prod.fst

/-- What the reference count of the lock of a key should be. -/
def references (table : LockTable) (key : QualifiedKey) : Nat :=
  table.timers.count key + table.users key

structure Counted (table : LockTable) : Prop where
  found : ∀ key id, table.locks key = some id → ∃ lock, table.lock id = some lock ∧
    lock.key = key ∧ lock.refCount = table.references key ∧ 0 < table.references key
  known : ∀ id lock, table.lock id = some lock → table.locks lock.key = some id
  held : ∀ tx ∈ table.active, ∀ entry ∈ table.held tx, table.locks entry.1 = some entry.2
  once : ∀ tx ∈ table.active, ((table.held tx).map Prod.fst).Nodup
  distinct : table.active.Nodup
  old : ∀ tx ∈ table.active, tx < table.nextTx
  allocated : ∀ id lock, table.lock id = some lock → id < table.nextLock
  timed : ∀ key ∈ table.timers, table.locks key ≠ none

variable (counted : Counted table)
include counted

theorem users_eq_zero (missing : table.locks key = none) : table.users key = 0 := by
  rw [users, countP_eq_zero]
  intro tx member inside
  obtain ⟨entry, there, rfl⟩ := mem_map.mp (of_decide_eq_true inside)
  rw [counted.held tx member entry there] at missing
  cases missing

theorem count_timers_eq_zero (missing : table.locks key = none) : table.timers.count key = 0 :=
  count_eq_zero.mpr fun member => counted.timed key member missing

/-- Different keys have different locks. -/
theorem Counted.injective {first second : QualifiedKey}
    (one : table.locks first = some id) (two : table.locks second = some id) : first = second := by
  obtain ⟨lock, there, rfl, _⟩ := counted.found first id one
  obtain ⟨same, again, rfl, _⟩ := counted.found second id two
  rw [there] at again
  cases again
  rfl

theorem createTransaction_counted : Counted table.createTransaction := by
  have apart : ∀ tx ∈ table.active, tx ≠ table.nextTx := fun tx member =>
    Nat.ne_of_lt (counted.old tx member)
  have unchanged : ∀ tx ∈ table.active, table.createTransaction.held tx = table.held tx :=
    fun tx member => update_of_ne (apart tx member) _ _
  have isEmpty : table.createTransaction.held table.nextTx = [] := update_self _ _ _
  have same : ∀ key, table.createTransaction.users key = table.users key := by
    intro key
    have whole : table.createTransaction.active = table.active ++ [table.nextTx] := rfl
    rw [users, users, whole, countP_append, countP_singleton]
    have equal : table.active.countP
        (fun tx => key ∈ (table.createTransaction.held tx).map Prod.fst) =
        table.active.countP fun tx => key ∈ (table.held tx).map Prod.fst :=
      countP_congr fun tx member => by rw [unchanged tx member]
    rw [equal]
    simp [isEmpty]
  have old : ∀ tx ∈ table.createTransaction.active, tx ∈ table.active ∨ tx = table.nextTx := by
    intro tx member
    simpa [createTransaction] using member
  refine ⟨?_, counted.known, ?_, ?_, ?_, ?_, counted.allocated, counted.timed⟩
  · intro key id there
    have sameReferences : table.createTransaction.references key = table.references key := by
      rw [references, references, same key]
      rfl
    rw [sameReferences]
    exact counted.found key id there
  · intro tx member entry inside
    rcases old tx member with earlier | rfl
    · rw [unchanged tx earlier] at inside
      exact counted.held tx earlier entry inside
    · rw [isEmpty] at inside
      cases inside
  · intro tx member
    rcases old tx member with earlier | rfl
    · rw [unchanged tx earlier]
      exact counted.once tx earlier
    · rw [isEmpty]
      exact nodup_nil
  · simp only [createTransaction]
    rw [nodup_append]
    refine ⟨counted.distinct, nodup_singleton _, fun tx member fresh new => ?_⟩
    rw [mem_singleton.mp new]
    exact apart tx member
  · intro tx member
    rcases old tx member with earlier | rfl
    · exact Nat.lt_succ_of_lt (counted.old tx earlier)
    · exact Nat.lt_succ_self _

omit counted

theorem heldLock_isSome : (table.heldLock tx key).isSome = true ↔
    key ∈ (table.held tx).map Prod.fst := by
  simp [heldLock, List.find?_isSome]

/-- One of the transactions of a list without duplicates comes to satisfy a property. -/
theorem countP_gain {Item : Type} [DecidableEq Item] {items : List Item} {item : Item}
    {before after : Item → Bool} (nodup : items.Nodup) (member : item ∈ items)
    (no : before item = false) (yes : after item = true)
    (same : ∀ other, other ≠ item → after other = before other) :
    items.countP after = items.countP before + 1 := by
  induction items with
  | nil => cases member
  | cons head rest ih =>
    obtain ⟨outside, restNodup⟩ := nodup_cons.mp nodup
    by_cases here : head = item
    · subst here
      have equal : rest.countP after = rest.countP before :=
        countP_congr fun other inside => by
          rw [same other fun equal => outside (equal ▸ inside)]
      rw [countP_cons_of_pos yes, countP_cons_of_neg (by simp [no]), equal]
    · have inside : item ∈ rest := (mem_cons.mp member).resolve_left fun equal =>
        here equal.symm
      rw [countP_cons, countP_cons, same head here, ih restNodup inside]
      omega

variable {lock : Lock}

/-- The table after a transaction has taken a reference to a lock. -/
theorem Counted.take (counted : Counted table) (active : tx ∈ table.active)
    (there : table.locks key = some id) (found : table.lock id = some lock)
    (unheld : key ∉ (table.held tx).map Prod.fst) :
    Counted { table with
      lock := update table.lock id (some { lock with refCount := lock.refCount + 1 })
      held := update table.held tx (table.held tx ++ [(key, id)]) } := by
  obtain ⟨same, again, isKey, counts, positive⟩ := counted.found key id there
  rw [found] at again
  cases again
  let after : LockTable := { table with
    lock := update table.lock id (some { lock with refCount := lock.refCount + 1 })
    held := update table.held tx (table.held tx ++ [(key, id)]) }
  have gained : after.users key = table.users key + 1 := by
    refine countP_gain counted.distinct active (by simpa using unheld) (by simp [after]) ?_
    intro other apart
    simp [after, update_of_ne apart]
  have others : ∀ other, other ≠ key → after.users other = table.users other := by
    intro other apart
    refine countP_congr fun who member => ?_
    by_cases here : who = tx
    · subst here
      simp [after, apart]
    · simp [after, update_of_ne here]
  refine ⟨?_, ?_, ?_, ?_, counted.distinct, counted.old, ?_, counted.timed⟩
  · intro other number located
    by_cases here : other = key
    · subst here
      rw [there] at located
      cases located
      have more : after.references other = table.references other + 1 := by
        simp only [references, gained]
        exact (Nat.add_assoc _ _ _).symm
      refine ⟨_, update_self _ _ _, isKey, ?_, ?_⟩
      · rw [more]
        change lock.refCount + 1 = _
        omega
      · rw [more]
        exact Nat.succ_pos _
    · have apart : number ≠ id := fun equal => here (counted.injective located (equal ▸ there))
      have less : after.references other = table.references other := by
        simp only [references, others other here]
        rfl
      obtain ⟨content, stored, isOther, rest⟩ := counted.found other number located
      refine ⟨content, (update_of_ne apart _ _).trans stored, isOther, ?_⟩
      rw [less]
      exact rest
  · intro number content stored
    by_cases here : number = id
    · subst here
      cases (update_self _ _ _).symm.trans stored
      exact counted.known number lock found
    · exact counted.known number content ((update_of_ne here _ _).symm.trans stored)
  · intro who member entry inside
    by_cases here : who = tx
    · subst here
      simp only [update_self, mem_append, mem_singleton] at inside
      rcases inside with old | rfl
      · exact counted.held who member entry old
      · exact there
    · simp only [update_of_ne here] at inside
      exact counted.held who member entry inside
  · intro who member
    by_cases here : who = tx
    · subst here
      simp only [update_self, map_append, map_cons, map_nil]
      rw [nodup_append]
      refine ⟨counted.once who member, nodup_singleton _, fun first inside second single => ?_⟩
      rw [mem_singleton.mp single]
      exact fun equal => unheld (equal ▸ inside)
    · simp only [update_of_ne here]
      exact counted.once who member
  · intro number content stored
    by_cases here : number = id
    · subst here
      exact counted.allocated number lock found
    · exact counted.allocated number content ((update_of_ne here _ _).symm.trans stored)

variable {forWrite : Bool}

variable {taken : Bool}

theorem checkAndSetLock_locks (set : table.checkAndSetLock tx key forWrite = some (next, taken)) :
    next.locks = table.locks := by
  unfold checkAndSetLock at set
  split at set
  · cases set
    rfl
  · split at set
    · cases set
    · split at set
      · split at set
        · cases set
          rfl
        · cases set
          rfl
      · cases set
        rfl

theorem checkAndSetLock_counted (counted : Counted table) (active : tx ∈ table.active)
    (set : table.checkAndSetLock tx key forWrite = some (next, taken)) :
    Counted next := by
  unfold checkAndSetLock at set
  split at set
  · cases set
    exact counted
  · rename_i id there
    split at set
    · cases set
    · rename_i lock found
      split at set
      · split at set
        · cases set
          exact counted
        · rename_i unheld
          cases set
          exact counted.take active there found fun inside => unheld (heldLock_isSome.mpr inside)
      · cases set
        exact counted

theorem references_timer (timers : next.timers = table.timers ++ [key])
    (active : next.active = table.active) (held : next.held = table.held) (other : QualifiedKey) :
    next.references other = table.references other + if other = key then 1 else 0 := by
  simp only [references, users, timers, active, held, count_append, count_singleton]
  by_cases here : other = key
  · subst here
    simp only [beq_self_eq_true, if_true]
    omega
  · have apart : (key == other) = false := by simpa using Ne.symm here
    simp only [apart, here, Bool.false_eq_true, if_false, Nat.add_zero]

include counted

/-- A lock that the server did not have is granted. -/
theorem Counted.grantNew (missing : table.locks key = none) (forWrite : Bool) : Counted { table with
      lock := update table.lock table.nextLock (some ⟨key, forWrite, 1⟩)
      nextLock := table.nextLock + 1
      locks := update table.locks key (some table.nextLock)
      timers := table.timers ++ [key] } := by
  let after : LockTable := { table with
    lock := update table.lock table.nextLock (some ⟨key, forWrite, 1⟩)
    nextLock := table.nextLock + 1
    locks := update table.locks key (some table.nextLock)
    timers := table.timers ++ [key] }
  have total : ∀ other, after.references other =
      table.references other + if other = key then 1 else 0 := references_timer rfl rfl rfl
  have zero : table.references key = 0 := by
    rw [references, count_timers_eq_zero counted missing, users_eq_zero counted missing]
  have others : ∀ other, other ≠ key → after.locks other = table.locks other :=
    fun other apart => update_of_ne apart _ _
  have located : ∀ {other number}, table.locks other = some number →
      after.locks other = some number := by
    intro other number there
    refine (others other ?_).trans there
    rintro rfl
    rw [missing] at there
    cases there
  have cases_of : ∀ number lock, after.lock number = some lock →
      (number = table.nextLock ∧ lock = ⟨key, forWrite, 1⟩) ∨ table.lock number = some lock := by
    intro number lock stored
    by_cases here : number = table.nextLock
    · have isNew : after.lock table.nextLock = some ⟨key, forWrite, 1⟩ :=
        update_self _ _ _
      rw [here, isNew] at stored
      cases stored
      exact .inl ⟨here, rfl⟩
    · exact .inr ((update_of_ne here _ _).symm.trans stored)
  refine ⟨?_, ?_, ?_, counted.once, counted.distinct, counted.old, ?_, ?_⟩
  · intro other number there
    by_cases here : other = key
    · subst here
      cases (update_self _ _ _).symm.trans there
      have one : after.references other = 1 := by rw [total, zero, if_pos rfl]
      refine ⟨_, update_self _ _ _, rfl, ?_, ?_⟩
      · change (1 : Int) = after.references other
        rw [one]
        rfl
      · change 0 < after.references other
        rw [one]
        exact Nat.one_pos
    · obtain ⟨lock, stored, isOther, rest⟩ :=
        counted.found other number ((others other here).symm.trans there)
      have apart : number ≠ table.nextLock := Nat.ne_of_lt (counted.allocated number lock stored)
      refine ⟨lock, (update_of_ne apart _ _).trans stored, isOther, ?_⟩
      change lock.refCount = after.references other ∧ 0 < after.references other
      rw [total, if_neg here]
      exact rest
  · intro number lock stored
    rcases cases_of number lock stored with ⟨rfl, rfl⟩ | before
    · exact update_self _ _ _
    · exact located (counted.known number lock before)
  · exact fun who member entry inside => located (counted.held who member entry inside)
  · intro number lock stored
    rcases cases_of number lock stored with ⟨rfl, _⟩ | before
    · exact Nat.lt_succ_self _
    · exact Nat.lt_succ_of_lt (counted.allocated number lock before)
  · intro other member
    change after.locks other ≠ none
    by_cases here : other = key
    · rw [here, show after.locks key = some table.nextLock from update_self _ _ _]
      nofun
    · rw [others other here]
      have old : other ∈ table.timers :=
        (mem_append.mp member).resolve_right fun new => here (mem_singleton.mp new)
      exact counted.timed other old

/-- The lock of a key changes, and its reference count and what it should be alike. -/
theorem Counted.change (there : table.locks key = some id)
    (found : table.lock id = some lock) (changed : Lock) (sameKey : changed.key = lock.key)
    (active : next.active = table.active) (nextTx : next.nextTx = table.nextTx)
    (held : next.held = table.held) (locks : next.locks = table.locks)
    (nextLock : next.nextLock = table.nextLock)
    (stored : next.lock = update table.lock id (some changed))
    (counts : changed.refCount = next.references key) (positive : 0 < next.references key)
    (others : ∀ other, other ≠ key → next.references other = table.references other)
    (timed : ∀ other ∈ next.timers, table.locks other ≠ none) : Counted next := by
  obtain ⟨same, again, isKey, _⟩ := counted.found key id there
  rw [found] at again
  cases again
  have cases_of : ∀ number content, next.lock number = some content →
      ∃ before, table.lock number = some before ∧ content.key = before.key := by
    intro number content holds
    rw [stored] at holds
    by_cases here : number = id
    · subst here
      cases (update_self _ _ _).symm.trans holds
      exact ⟨lock, found, sameKey⟩
    · exact ⟨content, (update_of_ne here _ _).symm.trans holds, rfl⟩
  refine ⟨?_, ?_, ?_, ?_, ?_, ?_, ?_, ?_⟩
  · intro other number located
    rw [locks] at located
    rw [stored]
    by_cases here : other = key
    · subst here
      rw [there] at located
      cases located
      exact ⟨changed, update_self _ _ _, sameKey.trans isKey, counts, positive⟩
    · have apart : number ≠ id := fun equal => here (counted.injective located (equal ▸ there))
      obtain ⟨content, holds, isOther, rest⟩ := counted.found other number located
      refine ⟨content, (update_of_ne apart _ _).trans holds, isOther, ?_⟩
      rw [others other here]
      exact rest
  · intro number content holds
    obtain ⟨before, was, same⟩ := cases_of number content holds
    rw [locks, same]
    exact counted.known number before was
  · rw [active, held, locks]
    exact counted.held
  · rw [active, held]
    exact counted.once
  · rw [active]
    exact counted.distinct
  · rw [active, nextTx]
    exact counted.old
  · intro number content holds
    obtain ⟨before, was, _⟩ := cases_of number content holds
    rw [nextLock]
    exact counted.allocated number before was
  · rw [locks]
    exact timed

/-- A grant brings a release callback; it must be counted. -/
theorem lockSuccessCallback_counted (fits : forWrite = true ∨ table.locks key = none)
    (granted : table.lockSuccessCallback key forWrite = some next) :
    Counted { next with timers := next.timers ++ [key] } := by
  unfold lockSuccessCallback at granted
  split at granted
  · rename_i missing
    cases granted
    exact counted.grantNew missing forWrite
  · rename_i id there
    split at granted
    · cases granted
    · rename_i lock found
      rw [if_pos (fits.resolve_right (by rw [there]; nofun))] at granted
      cases granted
      obtain ⟨same, again, _, counts, _⟩ := counted.found key id there
      rw [found] at again
      cases again
      let after : LockTable := { table with
        lock := update table.lock id
          (some { lock with refCount := lock.refCount + 1, forWrite := true })
        timers := table.timers ++ [key] }
      have total : ∀ other, after.references other =
          table.references other + if other = key then 1 else 0 := references_timer rfl rfl rfl
      have more : after.references key = table.references key + 1 := by rw [total, if_pos rfl]
      have kept : Counted after := by
        refine counted.change there found
          { lock with refCount := lock.refCount + 1, forWrite := true } rfl rfl rfl rfl rfl rfl rfl
          ?_ ?_ ?_ ?_
        · rw [more]
          change lock.refCount + 1 = _
          omega
        · rw [more]
          exact Nat.succ_pos _
        · intro other apart
          rw [total, if_neg apart]
          rfl
        · intro other member
          rcases mem_append.mp member with old | new
          · exact counted.timed other old
          · rw [mem_singleton.mp new, there]
            nofun
      exact kept

omit counted

theorem lockSuccessCallback_locks (granted : table.lockSuccessCallback key forWrite = some next)
    (before : table.locks other ≠ none) :
    next.locks other ≠ none := by
  unfold lockSuccessCallback at granted
  split at granted
  · rename_i missing
    cases granted
    have apart : other ≠ key := fun same => before (same ▸ missing)
    change update table.locks key _ other ≠ none
    rw [update_of_ne apart]
    exact before
  · split at granted
    · cases granted
    · split at granted
      · cases granted
        exact before
      · cases granted
        exact before

/-- The locks with the given ids have one reference less. -/
def lowerLocks (table : LockTable) (ids : List LockId) : LockId → Option Lock := fun id =>
  if id ∈ ids then (table.lock id).bind Lock.lowered else table.lock id

/-- The lock of the key has one reference left at most. -/
def lastReference (table : LockTable) (id : LockId) : Bool :=
  match table.lock id with
  | none => false
  | some lock => lock.refCount - 1 ≤ 0

theorem lockUnref_ends (found : table.lock id = some lock) : ∃ evicted, table.lockUnref id =
      some ({ table with
        lock := update table.lock id lock.lowered
        evictedKeys := evicted }, table.lastReference id) := by
  unfold lockUnref lastReference Lock.lowered
  rw [found]
  by_cases last : lock.refCount - 1 ≤ 0
  · exact ⟨table.evictedKeys.erase lock.key, by simp [last]⟩
  · exact ⟨table.evictedKeys, by simp [last]⟩

theorem unrefLocks_ends (entries : List (QualifiedKey × LockId))
    (nodup : (entries.map Prod.snd).Nodup)
    (present : ∀ entry ∈ entries, ∃ lock, table.lock entry.2 = some lock) :
    ∃ evicted, table.unrefLocks entries = some ({ table with
        lock := table.lowerLocks (entries.map Prod.snd)
        evictedKeys := evicted },
        (entries.filter fun entry => table.lastReference entry.2).map Prod.fst) := by
  induction entries generalizing table with
  | nil =>
    have same : table.lowerLocks [] = table.lock := rfl
    exact ⟨table.evictedKeys, by rw [map_nil, same]; rfl⟩
  | cons entry rest ih =>
    obtain ⟨key, id⟩ := entry
    obtain ⟨outside, restNodup⟩ := nodup_cons.mp nodup
    obtain ⟨lock, found⟩ := present (key, id) mem_cons_self
    obtain ⟨evicted, unref⟩ := lockUnref_ends found
    let middle : LockTable := { table with
      lock := update table.lock id lock.lowered
      evictedKeys := evicted }
    have untouched : ∀ entry ∈ rest, middle.lock entry.2 = table.lock entry.2 := by
      intro entry member
      refine update_of_ne (fun same => outside ?_) _ _
      rw [show (key, id).2 = entry.2 from same.symm]
      exact mem_map_of_mem member
    have stillPresent : ∀ entry ∈ rest, ∃ lock, middle.lock entry.2 = some lock := by
      intro entry member
      rw [untouched entry member]
      exact present entry (mem_cons_of_mem _ member)
    obtain ⟨later, ended⟩ := ih restNodup stillPresent
    have sameLocks : middle.lowerLocks (rest.map Prod.snd) =
        table.lowerLocks (((key, id) :: rest).map Prod.snd) := by
      funext number
      by_cases here : number = id
      · subst here
        have notLater : number ∉ rest.map Prod.snd := outside
        have stored : middle.lock number = lock.lowered := update_self _ _ _
        simp only [lowerLocks, notLater, if_false, stored, map_cons, mem_cons, true_or,
          if_true, found, bind_some]
      · have stored : middle.lock number = table.lock number := update_of_ne here _ _
        simp only [lowerLocks, stored, map_cons, mem_cons, here, false_or]
    have sameReleased : (rest.filter fun entry => middle.lastReference entry.2) =
        rest.filter fun entry => table.lastReference entry.2 := by
      refine filter_congr fun entry member => ?_
      simp only [lastReference, untouched entry member]
    rw [sameLocks, sameReleased] at ended
    refine ⟨later, ?_⟩
    rw [unrefLocks, unref]
    simp only
    rw [show unrefLocks _ rest = _ from ended, filter_cons]
    cases table.lastReference id
    · rfl
    · rfl

theorem removeKeys_eq (keys : List QualifiedKey) : table.removeKeys keys =
      { table with locks := fun key => if key ∈ keys then none else table.locks key } := by
  induction keys generalizing table with
  | nil => rfl
  | cons first rest ih =>
    rw [removeKeys, ih]
    congr 1
    funext key
    by_cases here : key = first
    · subst here
      simp
    · simp [here]

variable {entries : List (QualifiedKey × LockId)}

/-- The keys that lose their last references. -/
theorem Counted.lower_gone (counted : Counted table)
    (located : ∀ entry ∈ entries, table.locks entry.1 = some entry.2)
    (fewer : ∀ key, table.references key =
      next.references key + if key ∈ entries.map Prod.fst then 1 else 0) (key : QualifiedKey) :
    key ∈ (entries.filter fun entry => table.lastReference entry.2).map Prod.fst ↔
      key ∈ entries.map Prod.fst ∧ next.references key = 0 := by
  have last : ∀ key id, table.locks key = some id →
      (table.lastReference id = true ↔ table.references key ≤ 1) := by
    intro key id there
    obtain ⟨lock, stored, _, counts, _⟩ := counted.found key id there
    simp only [lastReference, stored, decide_eq_true_eq]
    omega
  have total := fewer key
  constructor
  · intro member
    obtain ⟨entry, inside, rfl⟩ := mem_map.mp member
    obtain ⟨there, isLast⟩ := mem_filter.mp inside
    have few := (last entry.1 entry.2 (located entry there)).mp isLast
    have listed : entry.1 ∈ entries.map Prod.fst := mem_map_of_mem there
    rw [if_pos listed] at total
    exact ⟨listed, by omega⟩
  · rintro ⟨listed, zero⟩
    obtain ⟨entry, there, rfl⟩ := mem_map.mp listed
    rw [if_pos listed] at total
    exact mem_map_of_mem (mem_filter.mpr
      ⟨there, (last entry.1 entry.2 (located entry there)).mpr (by omega)⟩)

/-- Some locks lose a reference each, and go when it was the last one. -/
theorem Counted.lower (counted : Counted table)
    (located : ∀ entry ∈ entries, table.locks entry.1 = some entry.2)
    (lock : next.lock = table.lowerLocks (entries.map Prod.snd)) (locks : ∀ key, next.locks key =
      if key ∈ (entries.filter fun entry => table.lastReference entry.2).map Prod.fst then none
      else table.locks key) (fewer : ∀ key, table.references key =
      next.references key + if key ∈ entries.map Prod.fst then 1 else 0)
    (active : ∀ tx ∈ next.active, tx ∈ table.active ∧ next.held tx = table.held tx)
    (distinct : next.active.Nodup) (nextTx : next.nextTx = table.nextTx)
    (nextLock : next.nextLock = table.nextLock) (timers : ∀ key ∈ next.timers, key ∈ table.timers) :
    Counted next := by
  have gone := counted.lower_gone located fewer
  have stays : ∀ key, 0 < next.references key → next.locks key = table.locks key := by
    intro key positive
    rw [locks, if_neg fun member => Nat.ne_of_gt positive ((gone key).mp member).2]
  have listedId : ∀ key id, table.locks key = some id →
      (id ∈ entries.map Prod.snd ↔ key ∈ entries.map Prod.fst) := by
    intro key id there
    constructor
    · intro member
      obtain ⟨entry, inside, rfl⟩ := mem_map.mp member
      rw [counted.injective there (located entry inside)]
      exact mem_map_of_mem inside
    · intro member
      obtain ⟨entry, inside, rfl⟩ := mem_map.mp member
      rw [located entry inside] at there
      cases there
      exact mem_map_of_mem inside
  refine ⟨?_, ?_, ?_, ?_, distinct, ?_, ?_, ?_⟩
  · intro key id there
    have notGone : key ∉ (entries.filter fun entry => table.lastReference entry.2).map
        Prod.fst := by
      intro member
      rw [locks, if_pos member] at there
      cases there
    rw [locks, if_neg notGone] at there
    obtain ⟨content, stored, isKey, counts, positive⟩ := counted.found key id there
    have total := fewer key
    rw [lock]
    by_cases listed : key ∈ entries.map Prod.fst
    · rw [if_pos listed] at total
      have nonzero : next.references key ≠ 0 := fun zero => notGone ((gone key).mpr ⟨listed, zero⟩)
      have more : ¬ content.refCount - 1 ≤ 0 := by omega
      refine ⟨{ content with refCount := content.refCount - 1 }, ?_, isKey, ?_,
        Nat.pos_of_ne_zero nonzero⟩
      · simp only [lowerLocks, (listedId key id there).mpr listed, if_true, stored,
          bind_some, Lock.lowered, more, if_false]
      · change content.refCount - 1 = _
        omega
    · rw [if_neg listed] at total
      refine ⟨content, ?_, isKey, by omega, by omega⟩
      have unlisted : id ∉ entries.map Prod.snd := fun member =>
        listed ((listedId key id there).mp member)
      simp only [lowerLocks, unlisted, if_false, stored]
  · intro id content stored
    rw [lock] at stored
    by_cases listed : id ∈ entries.map Prod.snd
    · simp only [lowerLocks, listed, if_true] at stored
      obtain ⟨before, was, lowered⟩ := bind_eq_some_iff.mp stored
      unfold Lock.lowered at lowered
      obtain ⟨more, lowered⟩ := ite_none_left_eq_some.mp lowered
      cases lowered
      have there := counted.known id before was
      obtain ⟨same, again, _, counts, _⟩ := counted.found before.key id there
      rw [was] at again
      cases again
      refine (stays before.key ?_).trans there
      have total := fewer before.key
      rw [if_pos ((listedId before.key id there).mp listed)] at total
      omega
    · simp only [lowerLocks, listed, if_false] at stored
      have there := counted.known id content stored
      refine (stays content.key ?_).trans there
      obtain ⟨same, _, _, _, positive⟩ := counted.found content.key id there
      have total := fewer content.key
      rw [if_neg fun member => listed ((listedId content.key id there).mpr member)] at total
      omega
  · intro tx member entry inside
    obtain ⟨before, same⟩ := active tx member
    have used : 0 < next.users entry.1 :=
      countP_pos_iff.mpr ⟨tx, member, decide_eq_true (mem_map_of_mem inside)⟩
    rw [same] at inside
    exact (stays entry.1 (Nat.add_pos_right _ used)).trans (counted.held tx before entry inside)
  · intro tx member
    obtain ⟨before, same⟩ := active tx member
    rw [same]
    exact counted.once tx before
  · intro tx member
    rw [nextTx]
    exact counted.old tx (active tx member).1
  · intro id content stored
    rw [nextLock]
    rw [lock] at stored
    by_cases listed : id ∈ entries.map Prod.snd
    · simp only [lowerLocks, listed, if_true] at stored
      obtain ⟨before, was, _⟩ := bind_eq_some_iff.mp stored
      exact counted.allocated id before was
    · simp only [lowerLocks, listed, if_false] at stored
      exact counted.allocated id content stored
  · intro key member
    rw [stays key (Nat.add_pos_left (count_pos_iff.mpr member) _)]
    exact counted.timed key (timers key member)

/-- What the release of keys in a step means. -/
structure Releases (table next : LockTable) (released : List QualifiedKey) : Prop where
  counted : Counted next
  once : released.Nodup
  had : ∀ key ∈ released, table.locks key ≠ none
  unused : ∀ key ∈ released, next.locks key = none ∧ next.references key = 0
  only : ∀ key, table.locks key ≠ none → next.locks key = none → key ∈ released

theorem Releases.of_counted (counted : Counted next)
    (more : ∀ key, table.locks key ≠ none → next.locks key ≠ none) : Releases table next [] where
  counted := counted
  once := nodup_nil
  had _ member := absurd member not_mem_nil
  unused _ member := absurd member not_mem_nil
  only key before after := absurd after (more key before)

theorem references_fired (member : key ∈ table.timers)
    (active : next.active = table.active) (held : next.held = table.held)
    (timers : next.timers = table.timers.erase key) (other : QualifiedKey) :
    table.references other = next.references other + if other = key then 1 else 0 := by
  simp only [references, users, active, held, timers]
  by_cases here : other = key
  · subst here
    have positive := count_pos_iff.mpr member
    rw [count_erase_self, if_pos rfl]
    omega
  · rw [count_erase_of_ne here, if_neg here, Nat.add_zero]

/-- A release callback drops a reference, and releases the lock if it was the last one. -/
theorem lockReleaseCallback_releases (counted : Counted table) (member : key ∈ table.timers)
    {freed : Bool}
    (released : lockReleaseCallback { table with timers := table.timers.erase key } key =
      some (next, freed)) : Releases table next (if freed then [key] else []) := by
  obtain ⟨id, there⟩ := ne_none_iff_exists'.mp (counted.timed key member)
  obtain ⟨lock, found, isKey, counts, positive⟩ := counted.found key id there
  let fired : LockTable := { table with timers := table.timers.erase key }
  have stored : fired.lock id = some lock := found
  obtain ⟨evicted, unref⟩ := lockUnref_ends stored
  have lowered : update table.lock id lock.lowered = table.lowerLocks [id] := by
    funext number
    by_cases here : number = id
    · subst here
      simp [lowerLocks, found]
    · simp [lowerLocks, here]
  have located : ∀ entry ∈ [(key, id)], table.locks entry.1 = some entry.2 := by
    intro entry single
    rw [mem_singleton.mp single]
    exact there
  have subset : ∀ other ∈ table.timers.erase key, other ∈ table.timers :=
    fun other inside => mem_of_mem_erase inside
  have fewer : ∀ {next : LockTable}, next.active = table.active → next.held = table.held →
      next.timers = table.timers.erase key → ∀ other, table.references other =
        next.references other + if other ∈ [(key, id)].map Prod.fst then 1 else 0 := by
    intro next active held timers other
    rw [references_fired member active held timers other]
    simp
  have isLast : fired.lastReference id = table.lastReference id := rfl
  unfold lockReleaseCallback at released
  rw [show ({ table with timers := table.timers.erase key } : LockTable).locks key = some id from
    there] at released
  cases last : table.lastReference id with
  | false =>
    rw [isLast, last] at unref
    have after : ∃ evicted, next = { fired with
        lock := update table.lock id lock.lowered
        evictedKeys := evicted } ∧ freed = false := by
      simp only [fired] at unref
      simp only [unref] at released
      split at released
      · cases released
        exact ⟨_, rfl, rfl⟩
      · cases released
        exact ⟨_, rfl, rfl⟩
    obtain ⟨evicted, rfl, rfl⟩ := after
    refine .of_counted (counted.lower located ?_ ?_ (fewer rfl rfl rfl)
      (fun tx active => ⟨active, rfl⟩) counted.distinct rfl rfl subset) fun _ before => before
    · exact lowered
    · intro other
      simp [last, fired]
  | true =>
    rw [isLast, last] at unref
    simp only [fired] at unref
    simp only [unref] at released
    cases released
    have gone : ∀ other, other ∈ ([(key, id)].filter fun entry =>
        table.lastReference entry.2).map Prod.fst ↔ other = key := by
      intro other
      simp [last]
    refine ⟨counted.lower located lowered ?_ (fewer rfl rfl rfl)
      (fun tx active => ⟨active, rfl⟩) counted.distinct rfl rfl subset, nodup_singleton _,
      ?_, ?_, ?_⟩
    · intro other
      by_cases here : other = key
      · rw [if_pos ((gone other).mpr here), here]
        exact update_self _ _ _
      · rw [if_neg fun inside => here ((gone other).mp inside)]
        exact update_of_ne here _ _
    · intro other single
      rw [mem_singleton.mp single, there]
      nofun
    · intro other single
      rw [mem_singleton.mp single]
      refine ⟨update_self _ _ _,
        ((counted.lower_gone located (fewer ?_ ?_ ?_) key).mp ((gone key).mpr rfl)).2⟩ <;> rfl
    · intro other before after
      by_cases here : other = key
      · exact mem_singleton.mpr here
      · exact absurd ((update_of_ne here _ _).symm.trans after) before

variable {released : List QualifiedKey}

/-- The end of a transaction drops its references, and releases the locks of which it had
the last one. -/
theorem cleanupTransaction_releases (counted : Counted table) (active : tx ∈ table.active)
    (cleaned : table.cleanupTransaction tx = some (next, released)) :
    Releases table next released := by
  have located := counted.held tx active
  have distinctIds : ((table.held tx).map Prod.snd).Nodup := by
    refine List.Nodup.map_on ?_ ((counted.once tx active).of_map _)
    intro first inside second also same
    have firstThere := located first inside
    rw [same] at firstThere
    have keys := counted.injective firstThere (located second also)
    exact Prod.ext keys same
  obtain ⟨evicted, ended⟩ := unrefLocks_ends (table.held tx) distinctIds fun entry inside =>
    have ⟨lock, stored, _⟩ := counted.found entry.1 entry.2 (located entry inside)
    ⟨lock, stored⟩
  simp only [cleanupTransaction, ended, removeKeys_eq] at cleaned
  cases cleaned
  let after : LockTable := { table with
    lock := table.lowerLocks ((table.held tx).map Prod.snd)
    locks := fun key =>
      if key ∈ ((table.held tx).filter fun entry => table.lastReference entry.2).map Prod.fst then
        none
      else table.locks key
    evictedKeys := evicted
    active := table.active.erase tx
    held := update table.held tx [] }
  have remaining : ∀ other ∈ after.active, other ∈ table.active ∧ other ≠ tx := by
    intro other inside
    exact ⟨mem_of_mem_erase inside, fun same =>
      counted.distinct.not_mem_erase (same ▸ inside)⟩
  have unchanged : ∀ other ∈ after.active, after.held other = table.held other :=
    fun other inside => update_of_ne (remaining other inside).2 _ _
  have fewer : ∀ key, table.references key =
      after.references key + if key ∈ (table.held tx).map Prod.fst then 1 else 0 := by
    intro key
    have same : after.users key =
        (table.active.erase tx).countP fun tx => key ∈ (table.held tx).map Prod.fst :=
      countP_congr fun other inside => by rw [unchanged other inside]
    have split := (perm_cons_erase active).countP_eq
      fun tx => decide (key ∈ (table.held tx).map Prod.fst)
    rw [countP_cons] at split
    simp only [references, same]
    rw [users, split]
    simp only [decide_eq_true_eq]
    exact (Nat.add_assoc _ _ _).symm
  have kept : Counted after := counted.lower located rfl (fun _ => rfl) fewer
    (fun other inside => ⟨(remaining other inside).1, unchanged other inside⟩)
    (counted.distinct.erase tx) rfl rfl fun _ inside => inside
  refine ⟨kept, ?_, ?_, ?_, ?_⟩
  · exact (counted.once tx active).sublist (List.Sublist.map _ filter_sublist)
  · intro key inside
    obtain ⟨entry, there, rfl⟩ := mem_map.mp inside
    rw [located entry (mem_of_mem_filter there)]
    nofun
  · intro key inside
    exact ⟨if_pos inside, ((counted.lower_gone located fewer key).mp inside).2⟩
  · intro key before gone
    by_contra outside
    exact before ((if_neg outside).symm.trans gone)

/-- A lock for read is not granted where the server has a lock. -/
def CountsGrants (table : LockTable) : LockAction → Prop
  | .respond success => ∀ registration ∈ table.registrations.head?,
      success = true → registration.2 = false → table.locks registration.1 = none
  | .begin | .acquire _ _ _ | .request _ _ _ | .release _ | .finish _ => True

theorem step_releases {action : LockAction} (counted : Counted table)
    (counts : table.CountsGrants action) (taken : table.step action = some (next, released)) :
    Releases table next released := by
  cases action with
  | begin =>
    cases taken
    exact .of_counted (createTransaction_counted counted) fun _ before => before
  | acquire tx key forWrite =>
    obtain ⟨active, taken⟩ := ite_none_right_eq_some.mp taken
    obtain ⟨⟨after, set⟩, checked, same⟩ := map_eq_some_iff.mp taken
    cases same
    exact .of_counted (checkAndSetLock_counted counted active checked)
      fun _ before => by rw [checkAndSetLock_locks checked]; exact before
  | request tx key forWrite =>
    obtain ⟨_, taken⟩ := ite_none_right_eq_some.mp taken
    cases taken
    exact .of_counted { counted with } fun _ before => before
  | respond success =>
    obtain ⟨after, processed, same⟩ := map_eq_some_iff.mp taken
    cases same
    unfold processQueuedCallback at processed
    split at processed
    · cases processed
    · rename_i key forWrite rest queued
      have popped : Counted { table with registrations := rest } := { counted with }
      cases success with
      | false =>
        cases processed
        exact .of_counted popped fun _ before => before
      | true =>
        obtain ⟨granted, succeeded, rfl⟩ := map_eq_some_iff.mp processed
        have fits : forWrite = true ∨ table.locks key = none := by
          cases forWrite with
          | true => exact .inl rfl
          | false =>
            refine .inr (counts (key, false) ?_ rfl rfl)
            rw [queued]
            rfl
        exact .of_counted (lockSuccessCallback_counted popped fits succeeded)
          fun other before => show granted.locks other ≠ none from
            lockSuccessCallback_locks succeeded before
  | release key =>
    obtain ⟨member, taken⟩ := ite_none_right_eq_some.mp taken
    obtain ⟨⟨after, freed⟩, fired, same⟩ := map_eq_some_iff.mp taken
    cases same
    exact lockReleaseCallback_releases counted member fired
  | finish tx =>
    obtain ⟨active, taken⟩ := ite_none_right_eq_some.mp taken
    exact cleanupTransaction_releases counted active taken

theorem empty_counted : Counted empty where
  found := nofun
  known := nofun
  held _ member := absurd member not_mem_nil
  once _ member := absurd member not_mem_nil
  distinct := nodup_nil
  old _ member := absurd member not_mem_nil
  allocated := nofun
  timed _ member := absurd member not_mem_nil

end LockTable

/-- In every run in which no lock for read is granted on a key that the server has locked,
the reference count of every lock is the number of its outstanding release callbacks and of
the active transactions that hold it, and there is at least one.  A step that releases keys
to the meta server releases exactly those whose locks it removes, each once, and then
nothing refers to them. -/
theorem lock_references_counted {trace : List (LockAction × List QualifiedKey)} {table : LockTable}
    (run : Run step LockTable.CountsGrants empty trace table) :
    (∀ key id, table.locks key = some id → ∃ lock, table.lock id = some lock ∧ lock.key = key ∧
      lock.refCount = table.timers.count key + table.users key ∧
      0 < table.timers.count key + table.users key) ∧
    (∀ tx ∈ table.active, ∀ entry ∈ table.held tx, table.locks entry.1 = some entry.2) ∧
    ∀ action next released, table.CountsGrants action →
      table.step action = some (next, released) → released.Nodup ∧
      (∀ key ∈ released, table.locks key ≠ none ∧ next.locks key = none ∧
        next.timers.count key = 0 ∧ next.users key = 0) ∧
      ∀ key, table.locks key ≠ none → next.locks key = none → key ∈ released := by
  have counted : LockTable.Counted table :=
    run.state_invariant LockTable.Counted LockTable.empty_counted fun counted counts taken =>
      (LockTable.step_releases counted counts taken).counted
  refine ⟨?_, counted.held, ?_⟩
  · intro key id there
    obtain ⟨lock, stored, isKey, counts, positive⟩ := counted.found key id there
    refine ⟨lock, stored, isKey, ?_, positive⟩
    rw [counts, LockTable.references]
    omega
  · intro action next released counts taken
    have releases := LockTable.step_releases counted counts taken
    refine ⟨releases.once, fun key member => ?_, releases.only⟩
    obtain ⟨gone, zero⟩ := releases.unused key member
    exact ⟨releases.had key member, gone, Nat.eq_zero_of_add_eq_zero zero⟩

instance (table : LockTable) : DecidablePred table.CountsGrants
  | .respond success => inferInstanceAs (Decidable (∀ registration ∈ table.registrations.head?,
      success = true → registration.2 = false → table.locks registration.1 = none))
  | .begin | .acquire _ _ _ | .request _ _ _ | .release _ | .finish _ => .isTrue trivial

/-- A transaction reads a key and then writes it, while another one reads it. -/
def readThenWrite : List LockAction :=
  [.begin, .begin, .request 0 someKey false, .respond true, .acquire 0 someKey false,
    .acquire 1 someKey false, .request 0 someKey true, .respond true, .acquire 0 someKey true,
    .release someKey, .release someKey, .finish 0]

theorem lock_references_counted_upgrade :
    ∃ trace table, Run step LockTable.CountsGrants empty trace table ∧
      trace.map Prod.fst = readThenWrite ∧ table.locks someKey = some 0 ∧
      ∃ lock, table.lock 0 = some lock ∧
        lock.refCount = table.timers.count someKey + table.users someKey := by
  have observed : (exec (fun table action => if table.CountsGrants action then table.step action
      else none) empty readThenWrite).map
      (fun result => (result.1.map Prod.fst, result.2.locks someKey)) =
      some (readThenWrite, some 0) := by
    decide +kernel
  obtain ⟨⟨trace, table⟩, executed, seen⟩ := map_eq_some_iff.mp observed
  simp only [Prod.mk.injEq] at seen
  have run := run_of_tested_exec executed
  obtain ⟨lock, stored, _, counts, _⟩ := (lock_references_counted run).1 someKey 0 seen.2
  exact ⟨trace, table, run, seen.1, seen.2, lock, stored, counts⟩

/-- Two transactions ask for a lock at the same time, one for write and one for read, and
both requests are granted. -/
def grantedTwice : List LockAction :=
  [.begin, .begin, .request 0 someKey true, .request 1 someKey false, .respond true, .respond true,
    .acquire 0 someKey true, .acquire 1 someKey false, .release someKey, .release someKey]

/-- When one of the two transactions ends, the lock is released, though the other one still
uses it. -/
theorem lock_released_in_use : ∃ trace table next, Run step anyAction empty trace table ∧
      table.step (.finish 1) = some (next, [someKey]) ∧ next.active = [0] ∧
      next.users someKey = 1 := by
  have observed : (exec step empty grantedTwice).isSome = true := by
    decide +kernel
  have released : ((exec step empty grantedTwice).bind
      fun result => result.2.step (.finish 1)).map
      (fun after => (after.2, after.1.active, after.1.users someKey)) =
      some ([someKey], [0], 1) := by
    decide +kernel
  obtain ⟨⟨trace, table⟩, executed⟩ := isSome_iff_exists.mp observed
  rw [executed] at released
  obtain ⟨⟨next, keys⟩, taken, seen⟩ := map_eq_some_iff.mp released
  simp only [Prod.mk.injEq] at seen
  obtain ⟨rfl, active, users⟩ := seen
  exact ⟨trace, table, next, run_of_exec executed, taken, active, users⟩

end Gzochi.DataClient
