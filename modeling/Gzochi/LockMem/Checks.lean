import Gzochi.LockMem.Consistency

/-!
# Checking for a lock

`gzochid_lock_check` only reads the sequence of locks by key.  Its answer rests on the
indexes of locks on keys alone, and these stay in step in every run, whatever happens to
the interval tree of the locks on ranges.
-/

namespace Gzochi.LockMem

open Gzochi.IntervalTree
open Gzochi.Lib

universe u

variable {Key : Type u} [LinearOrder Key] {table next : LockTable Key} {nodeId now probe : Nat}
  {key : GBytes Key} {forWrite : Bool} {fromKey toKey : Option (GBytes Key)} {id : LockId}
  {answer : Answer}

/-- `gzochid_lock_check`. -/
def gzochidLockCheck (table : LockTable Key) (nodeId : Nat) (key : GBytes Key)
    (forWrite : Bool) : Bool :=
  match findLocksByKey table key with
  | none => false
  | some position =>
      match position.entry.locks.find? fun id => decide ((table.lock id).nodeId = nodeId) with
      | none => false
      | some existing => (table.lock existing).forWrite || !forWrite

/-- The node has a lock for write on the key. -/
def HoldsWriteLock (table : LockTable Key) (nodeId : Nat) (key : Key) : Prop :=
  ∃ id, InKeys table id ∧ (table.lock id).nodeId = nodeId ∧
    (table.lock id).key.content = key ∧ (table.lock id).forWrite = true

theorem lockCheck_iff (points : PointIndexes table) :
    gzochidLockCheck table nodeId key true = true ↔ HoldsWriteLock table nodeId key.content := by
  unfold gzochidLockCheck
  constructor
  · intro checked
    split at checked
    · cases checked
    · rename_i position found
      have here := entry_mem found
      split at checked
      · cases checked
      · rename_i existing own
        have inside := List.mem_of_find?_eq_some own
        have owner : (table.lock existing).nodeId = nodeId := by simpa using List.find?_some own
        have written : (table.lock existing).forWrite = true := by simpa using checked
        exact ⟨existing, ⟨position.entry, here, inside⟩, owner,
          points.found_key found inside, written⟩
  · rintro ⟨id, member, owner, sameKey, written⟩
    obtain ⟨position, found, inside⟩ := points.find_of_inKeys member sameKey
    have here := entry_mem found
    simp only [found]
    cases own : position.entry.locks.find? fun id => decide ((table.lock id).nodeId = nodeId) with
    | none =>
      have other := List.find?_eq_none.mp own id inside
      exact absurd (decide_eq_true owner) other
    | some existing =>
      have existingOwner : (table.lock existing).nodeId = nodeId := by
        simpa using List.find?_some own
      have same : existing = id :=
        points.single _ here existing (List.mem_of_find?_eq_some own) id inside
          (existingOwner.trans owner.symm)
      simp only [same, written, Bool.true_or]

/-! ## Every call keeps the indexes of locks on keys -/

theorem checkAndSet_points (points : PointIndexes table)
    (called : gzochidLockCheckAndSet table nodeId key forWrite now = some (next, answer)) :
    PointIndexes next := (checkAndSet_outcome called).points points

theorem rangeCheckAndSet_points (points : PointIndexes table)
    (called : gzochidLockRangeCheckAndSet table nodeId fromKey toKey now probe =
      some (next, answer)) : PointIndexes next := by
  simp only [gzochidLockRangeCheckAndSet] at called
  split at called
  · cases called
  · cases called
    exact points
  · split at called
    · cases called
      exact points
    · split at called
      · cases called
      · cases called
        exact points.frame rfl rfl rfl (locksOf_newRangeLock table _ _) (Nat.le_succ _)

theorem release_points (points : PointIndexes table)
    (called : gzochidLockRelease table nodeId key = some next) : PointIndexes next := by
  simp only [gzochidLockRelease] at called
  split at called
  · cases called
    exact points
  · rename_i position found
    split at called
    · cases called
      exact points
    · rename_i id own
      have here := entry_mem found
      obtain ⟨removed, equal, kept, -⟩ :=
        points.removeLock ⟨_, here, List.mem_of_find?_eq_some own⟩
      rw [called] at equal
      cases equal
      exact kept

theorem removeRangeLock_onlyRanges (called : removeRangeLock table id = some next) :
    OnlyRanges table next := by
  simp only [removeRangeLock] at called
  split at called
  · cases called
  · rename_i nodeLocks registered
    split at called
    · cases called
    · cases called
      refine ⟨rfl, rfl, rfl, rfl, fun other => ?_, rfl⟩
      change locksOf (table.setNodeLocks _ _) other = _
      rw [locksOf_setNodeLocks]
      split
      · rename_i same
        subst same
        simp only [locksOf, LockTable.ensureNodeRegistration, registered, Option.getD_some]
        unfold deregister
        split
        · rename_i empty _
          exact empty.symm
        · rfl
      · rfl

theorem foreach_onlyRanges {ids : List LockId}
    (called : foreach removeRangeLock ids table = some next) : OnlyRanges table next := by
  induction ids generalizing table with
  | nil =>
    cases called
    exact .refl _
  | cons id ids ih =>
    simp only [foreach] at called
    split at called
    · cases called
    · rename_i middle removed
      exact (removeRangeLock_onlyRanges removed).trans (ih called)

theorem releaseRange_points (points : PointIndexes table)
    (called : gzochidLockReleaseRange table nodeId fromKey toKey = some next) :
    PointIndexes next := by
  simp only [gzochidLockReleaseRange] at called
  split at called
  · cases called
  · cases called
    exact points
  · exact (removeRangeLock_onlyRanges called).points points

theorem releaseAll_points (points : PointIndexes table)
    (called : gzochidLockReleaseAll table nodeId = some next) : PointIndexes next := by
  simp only [gzochidLockReleaseAll] at called
  split at called
  · cases called
    exact points
  · rename_i nodeLocks registered
    obtain ⟨middle, removed, kept, -⟩ := foreach_registered points registered
    simp only [removed] at called
    split at called
    · cases called
      exact kept
    · exact (foreach_onlyRanges called).points kept

theorem lockTableStep_points {call : Call Key} {observed : Option Answer}
    (points : PointIndexes table) (called : lockTableStep table call = some (next, observed)) :
    PointIndexes next := by
  cases call with
  | checkAndSet nodeId key forWrite now =>
    obtain ⟨⟨after, answer⟩, equal, same⟩ := Option.map_eq_some_iff.mp called
    cases same
    exact checkAndSet_points points equal
  | rangeCheckAndSet nodeId fromKey toKey now probe =>
    obtain ⟨⟨after, answer⟩, equal, same⟩ := Option.map_eq_some_iff.mp called
    cases same
    exact rangeCheckAndSet_points points equal
  | release nodeId key =>
    obtain ⟨after, equal, same⟩ := Option.map_eq_some_iff.mp called
    cases same
    exact release_points points equal
  | releaseRange nodeId fromKey toKey =>
    obtain ⟨after, equal, same⟩ := Option.map_eq_some_iff.mp called
    cases same
    exact releaseRange_points points equal
  | releaseAll nodeId =>
    obtain ⟨after, equal, same⟩ := Option.map_eq_some_iff.mp called
    cases same
    exact releaseAll_points points equal

/-- A lock table after any calls. -/
def Reached (table : LockTable Key) : Prop :=
  ∃ lock rangeLock garbage trace,
    Run lockTableStep anyAction (gzochidLockTableNew lock rangeLock garbage) trace table

theorem Reached.points (reached : Reached table) : PointIndexes table := by
  obtain ⟨lock, rangeLock, garbage, trace, run⟩ := reached
  exact run.state_invariant PointIndexes (consistent_new lock rangeLock garbage).points
    fun points _ called => lockTableStep_points points called

end Gzochi.LockMem
