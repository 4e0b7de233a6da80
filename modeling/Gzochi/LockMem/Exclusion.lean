import Gzochi.LockMem.Grants

/-!
# Locks exclude each other

A key that one node has locked for write is locked by no other node and lies in no range
of another node, and ranges of different nodes do not overlap.  Requests keep this as
long as they see the locks in their way.
-/

namespace Gzochi.LockMem

open Gzochi.Lib Gzochi.IntervalTree

universe u

variable {Key : Type u} [LinearOrder Key] {table next : LockTable Key} {nodeId now probe : Nat}
  {key : GBytes Key} {forWrite : Bool} {fromKey toKey : Option (GBytes Key)} {id : LockId}
  {answer : Answer}

/-- No node stands in the way of another one. -/
structure Exclusive (table : LockTable Key) : Prop where
  keys : ∀ nodeId otherId first second, nodeId ≠ otherId → first ∈ locksOf table nodeId →
    second ∈ locksOf table otherId → (table.lock first).forWrite = true →
    (table.lock first).key.content ≠ (table.lock second).key.content
  covered : ∀ nodeId otherId range lock, nodeId ≠ otherId →
    range ∈ rangeLocksOf table nodeId → lock ∈ locksOf table otherId →
    (table.lock lock).forWrite = true → ¬RangeCovers table range (table.lock lock).key.content
  ranges : ∀ nodeId otherId first second, nodeId ≠ otherId →
    first ∈ rangeLocksOf table nodeId → second ∈ rangeLocksOf table otherId →
    ¬∃ key, RangeCovers table first key ∧ RangeCovers table second key

/-- The same, of the locks in the indexes. -/
structure Excludes (table : LockTable Key) : Prop where
  keys : ∀ first second, InKeys table first → InKeys table second →
    (table.lock first).nodeId ≠ (table.lock second).nodeId →
    (table.lock first).forWrite = true →
    (table.lock first).key.content ≠ (table.lock second).key.content
  covered : ∀ range lock, range ∈ table.rangeLocksByTimestamp → InKeys table lock →
    (table.rangeLock range).nodeId ≠ (table.lock lock).nodeId →
    (table.lock lock).forWrite = true → ¬RangeCovers table range (table.lock lock).key.content
  ranges : ∀ first second, first ∈ table.rangeLocksByTimestamp →
    second ∈ table.rangeLocksByTimestamp →
    (table.rangeLock first).nodeId ≠ (table.rangeLock second).nodeId →
    ¬∃ key, RangeCovers table first key ∧ RangeCovers table second key

theorem Excludes.exclusive (excludes : Excludes table) (consistent : Consistent table) :
    Exclusive table := by
  rcases consistent with ⟨points, ranges⟩
  refine ⟨?_, ?_, ?_⟩
  · intro nodeId otherId first second different inFirst inSecond written
    rcases (points.nodes _ _).mp inFirst with ⟨firstLive, firstOwner⟩
    rcases (points.nodes _ _).mp inSecond with ⟨secondLive, secondOwner⟩
    refine excludes.keys first second firstLive secondLive ?_ written
    rw [firstOwner, secondOwner]
    exact different
  · intro nodeId otherId range lock different inRange inLock written
    rcases (ranges.nodes _ _).mp inRange with ⟨rangeLive, rangeOwner⟩
    rcases (points.nodes _ _).mp inLock with ⟨lockLive, lockOwner⟩
    refine excludes.covered range lock rangeLive lockLive ?_ written
    rw [rangeOwner, lockOwner]
    exact different
  · intro nodeId otherId first second different inFirst inSecond
    rcases (ranges.nodes _ _).mp inFirst with ⟨firstLive, firstOwner⟩
    rcases (ranges.nodes _ _).mp inSecond with ⟨secondLive, secondOwner⟩
    refine excludes.ranges first second firstLive secondLive ?_
    rw [firstOwner, secondOwner]
    exact different

/-- Fewer locks exclude each other all the more. -/
theorem Excludes.mono (excludes : Excludes table) (lock : next.lock = table.lock)
    (rangeLock : next.rangeLock = table.rangeLock)
    (inKeys : ∀ id, InKeys next id → InKeys table id)
    (timestamps : ∀ id, id ∈ next.rangeLocksByTimestamp → id ∈ table.rangeLocksByTimestamp) :
    Excludes next := by
  refine ⟨?_, ?_, ?_⟩
  · simp only [lock]
    exact fun first second inFirst inSecond =>
      excludes.keys first second (inKeys first inFirst) (inKeys second inSecond)
  · simp only [lock, rangeLock, RangeCovers, rangeLower, rangeUpper]
    exact fun range lock inRange inLock =>
      excludes.covered range lock (timestamps range inRange) (inKeys lock inLock)
  · simp only [rangeLock, RangeCovers, rangeLower, rangeUpper]
    exact fun first second inFirst inSecond =>
      excludes.ranges first second (timestamps first inFirst) (timestamps second inSecond)

section Keys

variable (consistent : Consistent table) (excludes : Excludes table)
include consistent excludes

/-- A new lock on a key does not stand in the way, if no other node has a lock on the
key that either of them excludes, or a range over a key to write. -/
theorem excludes_registered {lock : Lock Key} {locks : List Locks}
    (inKeys : ∀ id, (∃ entry ∈ locks, id ∈ entry.locks) ↔ id = table.allocated ∨ InKeys table id)
    (keys : KeysExclude { registerLock table lock with locks := locks })
    (uncovered : lock.forWrite = true → ∀ range ∈ table.rangeLocksByTimestamp,
      (table.rangeLock range).nodeId ≠ lock.nodeId → ¬RangeCovers table range lock.key.content) :
    Excludes { registerLock table lock with locks := locks } := by
  have points := consistent.points
  have new : (registerLock table lock).lock table.allocated = lock := by
    rw [registerLock_lock, if_pos rfl]
  refine ⟨keys, ?_, excludes.ranges⟩
  intro range id live inside different written
  change (table.rangeLock range).nodeId ≠ ((registerLock table lock).lock id).nodeId at different
  change ((registerLock table lock).lock id).forWrite = true at written
  change ¬RangeCovers table range ((registerLock table lock).lock id).key.content
  rcases (inKeys id).mp inside with isNew | inside
  · rw [isNew, new] at different written ⊢
    exact uncovered written range live different
  · rw [points.registerLock_lock_old inside] at different written ⊢
    exact excludes.covered range id live inside different written

/-- Locking a key keeps locks from standing in each other's way. -/
theorem excludes_of_check
    (outcome : CheckOutcome table nodeId key forWrite now next answer) : Excludes next := by
  have points := consistent.points
  have keys : KeysExclude next := outcome.exclude points excludes.keys
  have uncovered : mostRecentCoveringRangeLock table key nodeId = some none →
      ∀ range ∈ table.rangeLocksByTimestamp, (table.rangeLock range).nodeId ≠ nodeId →
        ¬RangeCovers table range key.content := by
    intro searched
    rcases consistent.ranges.covering nodeId key with ⟨answer, equal, free⟩
    exact free (Option.some.inj (searched.symm.trans equal)).symm
  cases outcome with
  | kept | excluded | covered => exact excludes
  | @upgraded position id found sole owner searched =>
    have idKey := points.found_key found (show id ∈ position.entry.locks by simp [sole])
    refine ⟨keys, ?_, excludes.ranges⟩
    intro range other live inside different written
    change ¬RangeCovers table range ((upgradeLock table id now).lock other).key.content
    change (table.rangeLock range).nodeId ≠
      ((upgradeLock table id now).lock other).nodeId at different
    change ((upgradeLock table id now).lock other).forWrite = true at written
    rw [upgradeLock_key]
    rw [upgradeLock_nodeId] at different
    by_cases isUpgraded : other = id
    · rw [isUpgraded, idKey]
      rw [isUpgraded, owner] at different
      exact uncovered searched range live different
    · rw [upgradeLock_lock, if_neg isUpgraded] at written
      exact excludes.covered range other live inside different written
  | @shared position found others isRead firstRead =>
    refine excludes_registered consistent excludes
      (inKeys_shareLock table (findLocksByKey_some found).1 ⟨nodeId, key, forWrite, now⟩) keys ?_
    intro written
    rw [isRead] at written
    cases written
  | created missing searched =>
    exact excludes_registered consistent excludes
      (inKeys_newLock table ⟨nodeId, key, forWrite, now⟩) keys
      fun written => uncovered (searched written)

end Keys

/-- A key in the range that another node has locked for write is seen: the scan starts
at the lower bound itself, or, when that is infinite, not after all such keys. -/
def SeesWriters (table : LockTable Key) (nodeId : Nat) (fromKey toKey : Option (GBytes Key))
    (probe : Nat) : Prop :=
  ∀ otherId lock, otherId ≠ nodeId → lock ∈ locksOf table otherId →
    (table.lock lock).forWrite = true →
    nullOrder.lower fromKey ≤ ((table.lock lock).key.content : WithBot Key) →
    ((table.lock lock).key.content : WithTop Key) ≤ nullOrder.upper toKey →
    match fromKey with
    | some key => ∃ id, InKeys table id ∧ (table.lock id).key.content = key.content
    | none => ∃ entry ∈ table.locks.drop (probe % table.locks.length),
        writtenByOther table nodeId entry = true

/-- A range of another node that overlaps one without a lower bound is seen: the search
does not leave out all such ranges below those that end too early. -/
def SeesRanges (table : LockTable Key) (nodeId : Nat) (fromKey toKey : Option (GBytes Key)) :
    Prop :=
  fromKey = none → ∀ otherId range, otherId ≠ nodeId → range ∈ rangeLocksOf table otherId →
    (∃ key : Key, RangeCovers table range key ∧ (key : WithTop Key) ≤ nullOrder.upper toKey) →
    ∃ node, Visited table.rangeLocks (prunedInterval nullOrder fromKey toKey) node ∧
      (table.rangeLock (table.rangeLocks.node node).data).nodeId ≠ nodeId ∧
      RangeMeets table fromKey toKey (table.rangeLocks.node node).data

section Ranges

variable (consistent : Consistent table) (excludes : Excludes table)
  (free : RangeFree table nodeId fromKey toKey probe)
include consistent free

include excludes in
/-- A free range holds no key that another node has locked for write. -/
theorem no_writer_in_range (sees : SeesWriters table nodeId fromKey toKey probe)
    {lock : LockId} (inside : InKeys table lock) (other : (table.lock lock).nodeId ≠ nodeId)
    (written : (table.lock lock).forWrite = true)
    (above : nullOrder.lower fromKey ≤ ((table.lock lock).key.content : WithBot Key)) :
    ¬((table.lock lock).key.content : WithTop Key) ≤ nullOrder.upper toKey := by
  intro below
  have points := consistent.points
  have seen := sees _ lock other ((points.nodes _ lock).mpr ⟨inside, rfl⟩) written above below
  cases fromKey with
  | none =>
    rcases seen with ⟨entry, later, foreign⟩
    rw [← scanned_null table probe] at later
    rw [free.2 entry later] at foreign
    cases foreign
  | some key =>
    rcases seen with ⟨id, idInside, idKey⟩
    rcases points.find_of_inKeys idInside idKey with ⟨position, found, _⟩
    rcases findLocksByKey_some found with ⟨split, positionKey⟩
    rcases inside with ⟨entry, inEntries, inEntry⟩
    have entryKey := points.keyed entry inEntries lock inEntry
    have notBefore : entry ∉ position.before := by
      intro early
      have less := (points.around split).1 entry early
      rw [positionKey, ← entryKey] at less
      exact absurd less (not_lt.mpr (WithBot.coe_le_coe.mp above))
    have scan : entry ∈ scanned table (some key) probe := by
      rw [split] at inEntries
      simp only [List.mem_append, List.mem_cons] at inEntries
      simp only [scanned, found, List.mem_cons]
      rcases inEntries with early | here
      · exact absurd early notBefore
      · exact here
    have same := KeysExclude.alone excludes.keys consistent.points inEntries inEntry entry.first_mem
      written
    have unseen := free.2 entry scan
    rw [same] at written other
    simp [writtenByOther, written, other] at unseen

/-- A free range shares no key with a range of another node. -/
theorem no_range_in_range (sees : SeesRanges table nodeId fromKey toKey) {range : LockId}
    (live : range ∈ table.rangeLocksByTimestamp)
    (other : (table.rangeLock range).nodeId ≠ nodeId) {key : Key}
    (covers : RangeCovers table range key)
    (above : nullOrder.lower fromKey ≤ (key : WithBot Key)) :
    ¬(key : WithTop Key) ≤ nullOrder.upper toKey := by
  intro below
  have ranges := consistent.ranges
  rcases ranges.overlapping nodeId fromKey toKey with ⟨answer, equal, unvisited, unreached⟩
  have nothing := (Option.some.inj (free.1.symm.trans equal)).symm
  cases fromKey with
  | none =>
    rcases sees rfl _ range other ((ranges.nodes _ range).mpr ⟨live, rfl⟩) ⟨key, covers, below⟩
      with ⟨node, visit, foreign, meeting⟩
    exact unvisited nothing node visit foreign meeting
  | some bytes =>
    have reaches : (bytes.content : WithTop Key) ≤ rangeUpper table range :=
      (WithTop.coe_le_coe.mpr (WithBot.coe_le_coe.mp above)).trans covers.2
    exact unreached nothing range live other (.inl reaches)
      (rangeMeets_of_shared covers above below)

include excludes in
/-- Locking a free range keeps locks from standing in each other's way. -/
theorem excludes_newRangeLock (writers : SeesWriters table nodeId fromKey toKey probe)
    (others : SeesRanges table nodeId fromKey toKey)
    (rangeLocks : Itree (Option (GBytes Key)) LockId) :
    Excludes (newRangeLock table rangeLocks ⟨nodeId, fromKey, toKey, now⟩) := by
  have perm := newRangeLock_perm table rangeLocks ⟨nodeId, fromKey, toKey, now⟩
  have old : ∀ range ∈ table.rangeLocksByTimestamp,
      (newRangeLock table rangeLocks ⟨nodeId, fromKey, toKey, now⟩).rangeLock range =
        table.rangeLock range := by
    intro range live
    rw [newRangeLock_rangeLock, if_neg (Nat.ne_of_lt (consistent.ranges.allocated range live))]
  have new : (newRangeLock table rangeLocks ⟨nodeId, fromKey, toKey, now⟩).rangeLock
      table.allocated = ⟨nodeId, fromKey, toKey, now⟩ := by
    rw [newRangeLock_rangeLock, if_pos rfl]
  refine ⟨excludes.keys, ?_, ?_⟩
  · intro range lock live inside different written covers
    simp only [RangeCovers, rangeLower, rangeUpper] at covers
    rcases List.mem_cons.mp (perm.mem_iff.mp live) with isNew | live
    · rw [isNew, new] at different covers
      exact no_writer_in_range consistent excludes free writers inside (Ne.symm different)
        written covers.1 covers.2
    · rw [old range live] at different covers
      exact excludes.covered range lock live inside different written covers
  · rintro first second inFirst inSecond different ⟨key, coversFirst, coversSecond⟩
    simp only [RangeCovers, rangeLower, rangeUpper] at coversFirst coversSecond
    rcases List.mem_cons.mp (perm.mem_iff.mp inFirst) with isFirst | inFirst
    · rw [isFirst, new] at different coversFirst
      rcases List.mem_cons.mp (perm.mem_iff.mp inSecond) with isSecond | inSecond
      · rw [isSecond, new] at different
        exact different rfl
      · rw [old second inSecond] at different coversSecond
        exact no_range_in_range consistent free others inSecond (Ne.symm different) coversSecond
          coversFirst.1 coversFirst.2
    · rw [old first inFirst] at different coversFirst
      rcases List.mem_cons.mp (perm.mem_iff.mp inSecond) with isSecond | inSecond
      · rw [isSecond, new] at different coversSecond
        exact no_range_in_range consistent free others inFirst different coversFirst
          coversSecond.1 coversSecond.2
      · rw [old second inSecond] at different coversSecond
        exact excludes.ranges first second inFirst inSecond different
          ⟨key, coversFirst, coversSecond⟩

end Ranges

/-- The calls that keep the indexes in step and see the locks in their way. -/
def ExclusionKeeps (table : LockTable Key) (call : Call Key) : Prop :=
  TableKeeps table call ∧
  match call with
  | .rangeCheckAndSet nodeId fromKey toKey _ probe =>
      SeesWriters table nodeId fromKey toKey probe ∧ SeesRanges table nodeId fromKey toKey
  | _ => True

theorem lockTableStep_excludes (consistent : Consistent table) (excludes : Excludes table)
    {call : Call Key} (keeps : ExclusionKeeps table call) {answer : Option Answer}
    (taken : lockTableStep table call = some (next, answer)) : Excludes next := by
  cases call with
  | checkAndSet nodeId key forWrite now =>
    rcases checkAndSet_cases consistent nodeId key forWrite now with
      ⟨other, _, equal, outcome⟩
    rw [lockTableStep, equal] at taken
    cases taken
    exact excludes_of_check consistent excludes outcome
  | rangeCheckAndSet nodeId fromKey toKey now probe =>
    rcases rangeCheckAndSet_cases consistent keeps.1 now with ⟨other, _, equal, outcome⟩
    rw [lockTableStep, equal] at taken
    cases taken
    cases outcome with
    | overlapped | written => exact excludes
    | created free =>
      exact excludes_newRangeLock consistent excludes free keeps.2.1 keeps.2.2 _
  | release nodeId key =>
    rcases release_spec consistent nodeId key with ⟨other, equal, _, only, left⟩
    rw [lockTableStep, equal] at taken
    cases taken
    exact excludes.mono only.lock only.rangeLock (fun id inside => ((left id).mp inside).1)
      fun id live => only.rangeTimestamps ▸ live
  | releaseRange nodeId fromKey toKey =>
    rcases releaseRange_spec consistent keeps.1 with ⟨other, equal, _, only, left⟩
    rw [lockTableStep, equal] at taken
    cases taken
    refine excludes.mono only.lock only.rangeLock (fun id inside => ?_)
      fun id live => ((left id).mp live).1
    simpa only [InKeys, only.locks] using inside
  | releaseAll nodeId =>
    rcases releaseAll_spec consistent keeps.1 with
      ⟨other, equal, _, lock, rangeLock, left, leftRanges⟩
    rw [lockTableStep, equal] at taken
    cases taken
    exact excludes.mono lock rangeLock (fun id inside => ((left id).mp inside).1)
      fun id live => ((leftRanges id).mp live).1

variable {lock : LockId → Lock Key} {rangeLock : LockId → RangeLock Key}
  {garbage : IntervalTree.Node (Option (GBytes Key)) LockId}
  {trace : List (Call Key × Option Answer)}

theorem run_excludes {allowed : LockTable Key → Call Key → Prop}
    (sees : ∀ table call, allowed table call → ExclusionKeeps table call)
    (run : Run lockTableStep allowed (gzochidLockTableNew lock rangeLock garbage) trace table) :
    Consistent table ∧ Excludes table := by
  refine run.state_invariant (fun table => Consistent table ∧ Excludes table)
    ⟨consistent_new lock rangeLock garbage, ?_⟩ ?_
  · constructor <;> simp [gzochidLockTableNew, InKeys]
  · intro table call next answer holds permitted taken
    have keeps := sees table call permitted
    refine ⟨?_, lockTableStep_excludes holds.1 holds.2 keeps taken⟩
    rcases lockTableStep_consistent holds.1 keeps.1 with ⟨other, _, equal, kept⟩
    rw [equal] at taken
    injection taken with pair
    injection pair with same _
    exact same ▸ kept

/-- After every run of calls that see the locks in their way, no node stands in the way
of another one, and the next such call returns. -/
theorem locks_exclude (run : Run lockTableStep ExclusionKeeps
    (gzochidLockTableNew lock rangeLock garbage) trace table) :
    Exclusive table ∧ ∀ call, ExclusionKeeps table call → (lockTableStep table call).isSome := by
  have both := run_excludes (fun _ _ keeps => keeps) run
  refine ⟨both.2.exclusive both.1, fun call keeps => ?_⟩
  rcases lockTableStep_consistent both.1 keeps.1 with ⟨_, _, equal, _⟩
  simp [equal]

theorem locks_exclude_after_two : Exclusive (afterCalls [lockM, lockAToB]) := by
  have first : ExclusionKeeps (afterCalls []) lockM := ⟨trivial, trivial⟩
  have second : ExclusionKeeps (afterCalls [lockM]) lockAToB := by
    refine ⟨fun _ => ⟨?_, ?_, ?_⟩, ?_, ?_⟩
    · rintro id ⟨held, _⟩
      exact absurd held List.not_mem_nil
    · intro seat located
      cases located
    · intro seat located
      cases located
    · intro otherId held _ inside _ _ below
      by_cases isHolder : otherId = 1
      · subst isHolder
        have same : held = 0 := List.mem_singleton.mp inside
        subst same
        exact absurd (WithTop.coe_le_coe.mp below) (by decide)
      · have nothing : locksOf (afterCalls [lockM]) otherId = [] := by
          change ((if otherId = 1 then _ else none : Option NodeLocks).getD ⟨[], []⟩).locks = []
          rw [if_neg isHolder]
          rfl
        rw [nothing] at inside
        cases inside
    · intro none
      cases none
  exact (locks_exclude (.snoc (.snoc .nil first rfl) second rfl)).1

/-- A lock on the range from `a` to `z`. -/
def lockAToZ : Call Bytes := .rangeCheckAndSet 2 (some ⟨2, [97]⟩) (some ⟨3, [122]⟩) 6 0

/-- The key `m` is locked for write by one node, and then the range from `a` to `z` by
another one. -/
theorem range_over_written_key : ∃ trace table,
    Run lockTableStep anyAction emptyTable trace table ∧ ¬Exclusive table := by
  rcases exists_run_stateAfter lockTableStep emptyTable [lockM, lockAToZ] with ⟨trace, run⟩
  refine ⟨trace, _, run, fun exclusive => ?_⟩
  have covered := exclusive.covered 2 1 1 0 (by decide) (by decide) (by decide) (by decide)
  exact covered ⟨WithBot.coe_le_coe.mpr (by decide), WithTop.coe_le_coe.mpr (by decide)⟩

end Gzochi.LockMem
