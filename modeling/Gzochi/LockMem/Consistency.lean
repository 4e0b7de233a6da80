import Mathlib.Order.Fin.Basic
import Gzochi.Lib.Runs
import Gzochi.LockMem.Searches
import Gzochi.Btree.Page

/-!
# The indexes stay in step

Runs of the lock table.  What a call can do is said once for each call, and from that
follows that the five indexes describe the same locks after every run, and that a
release takes out exactly the locks it names.
-/

namespace Gzochi.LockMem

open Gzochi.Lib Gzochi.IntervalTree List

universe u

variable {Key : Type u} [LinearOrder Key] {table next : LockTable Key} {nodeId now probe : Nat}
  {key : GBytes Key} {forWrite : Bool} {fromKey toKey : Option (GBytes Key)} {id : LockId}
  {answer : Answer}

structure Consistent (table : LockTable Key) : Prop where
  points : PointIndexes table
  ranges : RangeIndexes table

/-- What `gzochid_lock_check_and_set` can do, and when. -/
inductive CheckOutcome (table : LockTable Key) (nodeId : Nat) (key : GBytes Key)
    (forWrite : Bool) (now : Nat) : LockTable Key → Answer → Prop where
  | kept {position : Position} {id : LockId} :
      findLocksByKey table key = some position → id ∈ position.entry.locks →
      (table.lock id).nodeId = nodeId → (table.lock id).forWrite = true ∨ forWrite = false →
      CheckOutcome table nodeId key forWrite now table .granted
  | excluded {position : Position} {id : LockId} :
      findLocksByKey table key = some position → id ∈ position.entry.locks →
      (table.lock id).nodeId ≠ nodeId → forWrite = true ∨ (table.lock id).forWrite = true →
      CheckOutcome table nodeId key forWrite now table (.refused (table.lock id).timestamp)
  | covered {range : LockId} :
      forWrite = true → mostRecentCoveringRangeLock table key nodeId = some (some range) →
      CheckOutcome table nodeId key forWrite now table (.refused (table.rangeLock range).timestamp)
  | upgraded {position : Position} {id : LockId} :
      findLocksByKey table key = some position → position.entry.locks = [id] →
      (table.lock id).nodeId = nodeId →
      mostRecentCoveringRangeLock table key nodeId = some none →
      CheckOutcome table nodeId key forWrite now (upgradeLock table id now) .granted
  | shared {position : Position} :
      findLocksByKey table key = some position →
      (∀ id ∈ position.entry.locks, (table.lock id).nodeId ≠ nodeId) → forWrite = false →
      (table.lock position.entry.first).forWrite = false →
      CheckOutcome table nodeId key forWrite now
        (shareLock table position ⟨nodeId, key, forWrite, now⟩) .granted
  | created :
      findLocksByKey table key = none →
      (forWrite = true → mostRecentCoveringRangeLock table key nodeId = some none) →
      CheckOutcome table nodeId key forWrite now
        (newLock table ⟨nodeId, key, forWrite, now⟩) .granted

/-- What locking a key has done, if it has returned. -/
theorem checkAndSet_outcome
    (called : gzochidLockCheckAndSet table nodeId key forWrite now = some (next, answer)) :
    CheckOutcome table nodeId key forWrite now next answer := by
  simp only [gzochidLockCheckAndSet] at called
  cases found : findLocksByKey table key with
  | none =>
    simp only [found] at called
    cases forWrite with
    | false =>
      cases called
      exact .created found nofun
    | true =>
      cases searched : mostRecentCoveringRangeLock table key nodeId with
      | none =>
        simp only [searched] at called
        cases called
      | some covering =>
        simp only [searched] at called
        cases covering with
        | none =>
          cases called
          exact .created found fun _ => searched
        | some rangeLock =>
          cases called
          exact .covered rfl searched
  | some position =>
    simp only [found] at called
    cases own : position.entry.locks.find? fun id =>
        decide ((table.lock id).nodeId = nodeId) with
    | none =>
      have others : ∀ id ∈ position.entry.locks, (table.lock id).nodeId ≠ nodeId := by
        intro id inside
        simpa using List.find?_eq_none.mp own id inside
      simp only [own] at called
      split at called
      next excluded =>
        cases called
        have first := position.entry.first_mem
        exact .excluded found first (others _ first) excluded
      next free =>
        cases called
        simp only [not_or, Bool.not_eq_true] at free
        exact .shared found others free.1 free.2
    | some existing =>
      have inside := mem_of_find?_eq_some own
      have owner : (table.lock existing).nodeId = nodeId := by
        simpa using List.find?_some own
      simp only [own] at called
      split at called
      next enough =>
        cases called
        exact .kept found inside owner (enough.imp_right Bool.eq_false_iff.mpr)
      next upgrade =>
        have isWrite : forWrite = true := by simpa using (not_or.mp upgrade).2
        split at called
        next =>
          split at called
          next other isOther =>
            cases called
            exact .excluded found (mem_of_find?_eq_some isOther)
              (by simpa using List.find?_some isOther) (.inl isWrite)
          next => cases called
        next few =>
          have sole : position.entry.locks = [existing] := by
            have short : position.entry.locks.length = 1 := by
              have positive := length_pos_of_mem inside
              omega
            rcases length_eq_one_iff.mp short with ⟨only, equal⟩
            rw [equal] at inside ⊢
            rw [mem_singleton.mp inside]
          split at called
          next => cases called
          next searched =>
            cases called
            exact .covered isWrite searched
          next searched =>
            cases called
            exact .upgraded found sole owner searched

/-- `gzochid_lock_check_and_set` returns, with one of the outcomes. -/
theorem checkAndSet_cases (consistent : Consistent table) (nodeId : Nat) (key : GBytes Key)
    (forWrite : Bool) (now : Nat) :
    ∃ next answer, gzochidLockCheckAndSet table nodeId key forWrite now = some (next, answer) ∧
      CheckOutcome table nodeId key forWrite now next answer := by
  rcases consistent.ranges.covering nodeId key with ⟨covering, searched, _⟩
  cases called : gzochidLockCheckAndSet table nodeId key forWrite now with
  | some result => exact ⟨result.1, result.2, rfl, checkAndSet_outcome called⟩
  | none =>
    exfalso
    simp only [gzochidLockCheckAndSet, searched] at called
    split at called
    next position found =>
      split at called
      next existing own =>
        split at called
        next => cases called
        next =>
          split at called
          next several =>
            split at called
            next => cases called
            next none =>
              have here := entry_mem found
              have owner : (table.lock existing).nodeId = nodeId := by
                simpa using List.find?_some own
              have onlyOwn : position.entry.locks ⊆ [existing] := by
                intro id inOther
                have same : (table.lock id).nodeId = nodeId := by
                  simpa using List.find?_eq_none.mp none id inOther
                exact mem_singleton.mpr (consistent.points.single _ here id inOther
                  existing (mem_of_find?_eq_some own) (same.trans owner.symm))
              have few := ((consistent.points.nodup _ here).subperm onlyOwn).length_le
              simp only [length_singleton] at few
              omega
          next => cases covering <;> cases called
      next => split at called <;> cases called
    next =>
      split at called
      next => cases covering <;> cases called
      next => cases called

/-- No lock is in the way of a range, as far as the code looks. -/
def RangeFree (table : LockTable Key) (nodeId : Nat) (fromKey toKey : Option (GBytes Key))
    (probe : Nat) : Prop :=
  overlappingRangeLock table nodeId fromKey toKey = some none ∧
    ∀ entry ∈ scanned table fromKey probe, writtenByOther table nodeId entry = false

/-- The node has a lock on that very range. -/
def HoldsRange (table : LockTable Key) (nodeId : Nat) (fromKey toKey : Option (GBytes Key))
    (id : LockId) : Prop :=
  id ∈ rangeLocksOf table nodeId ∧ rangeLower table id = nullOrder.lower fromKey ∧
    rangeUpper table id = nullOrder.upper toKey

/-- What `gzochid_lock_range_check_and_set` can do, and when. -/
inductive RangeOutcome (table : LockTable Key) (nodeId : Nat)
    (fromKey toKey : Option (GBytes Key)) (now probe : Nat) :
    LockTable Key → Answer → Prop where
  | overlapped {range : LockId} :
      overlappingRangeLock table nodeId fromKey toKey = some (some range) →
      RangeOutcome table nodeId fromKey toKey now probe table
        (.refused (table.rangeLock range).timestamp)
  | written {entry : Locks} :
      (scanned table fromKey probe).find? (writtenByOther table nodeId) = some entry →
      RangeOutcome table nodeId fromKey toKey now probe table
        (.refused (table.lock entry.first).timestamp)
  | created {rangeLocks : Itree (Option (GBytes Key)) LockId} :
      RangeFree table nodeId fromKey toKey probe →
      RangeIndexes (newRangeLock table rangeLocks ⟨nodeId, fromKey, toKey, now⟩) →
      RangeOutcome table nodeId fromKey toKey now probe
        (newRangeLock table rangeLocks ⟨nodeId, fromKey, toKey, now⟩) .granted

/-- A range that is granted goes into the tree as a new one, without harm to it. -/
def RangeKeeps (table : LockTable Key) (nodeId : Nat) (fromKey toKey : Option (GBytes Key))
    (probe : Nat) : Prop :=
  RangeFree table nodeId fromKey toKey probe →
    (∀ id, ¬HoldsRange table nodeId fromKey toKey id) ∧
    InsertKeeps nullOrder table.rangeLocks fromKey toKey ∧
    InsertCovers nullOrder table.rangeLocks fromKey toKey

/-- A range that is locked already is not free. -/
theorem RangeIndexes.missing (indexes : RangeIndexes table)
    {contents : Contents (WithBot Key) (WithTop Key) LockId}
    (describes : Describes table contents)
    (nothing : overlappingRangeLock table nodeId fromKey toKey = some none)
    (notHeld : ∀ id, ¬HoldsRange table nodeId fromKey toKey id) :
    contents (nullOrder.lower fromKey) (nullOrder.upper toKey) = none := by
  cases stored : contents (nullOrder.lower fromKey) (nullOrder.upper toKey) with
  | none => rfl
  | some id =>
    rcases (describes _ _ _).mp stored with ⟨live, low, high⟩
    by_cases own : (table.rangeLock id).nodeId = nodeId
    · exact absurd ⟨(indexes.nodes nodeId id).mpr ⟨live, own⟩, low, high⟩ (notHeld id)
    · rcases indexes.overlapping nodeId fromKey toKey with ⟨answer, equal, _, free⟩
      have none := Option.some.inj (nothing.symm.trans equal)
      refine absurd ?_ (free none.symm id live own (.inr high.ge))
      exact .inr (.inr ⟨low.ge, high.le⟩)

/-- `gzochid_lock_range_check_and_set` returns, with one of the outcomes. -/
theorem rangeCheckAndSet_cases (consistent : Consistent table)
    (keeps : RangeKeeps table nodeId fromKey toKey probe) (now : Nat) :
    ∃ next answer, gzochidLockRangeCheckAndSet table nodeId fromKey toKey now probe =
        some (next, answer) ∧
      RangeOutcome table nodeId fromKey toKey now probe next answer := by
  have indexes := consistent.ranges
  rcases indexes.overlapping nodeId fromKey toKey with ⟨found, searched, _, _⟩
  simp only [gzochidLockRangeCheckAndSet, searched]
  cases found with
  | some rangeLock => exact ⟨_, _, rfl, .overlapped searched⟩
  | none =>
    simp only
    cases scan : (scanned table fromKey probe).find? (writtenByOther table nodeId) with
    | some entry => exact ⟨_, _, rfl, .written scan⟩
    | none =>
      have free : RangeFree table nodeId fromKey toKey probe := by
        refine ⟨searched, fun entry inside => ?_⟩
        simpa using List.find?_eq_none.mp scan entry inside
      rcases keeps free with ⟨notHeld, keepsTree, covers⟩
      rcases indexes.tree with ⟨shape, contents, sound, covered, describes⟩
      rcases sound.gzochidItreeInsert table.allocated keepsTree with
        ⟨rangeLocks, shape', inserted, sound', covering, _⟩
      simp only [inserted]
      refine ⟨_, _, rfl, .created free ?_⟩
      exact indexes.newRangeLock describes (indexes.missing describes searched notHeld)
        sound' (covering covered covers)

theorem CheckOutcome.points (outcome : CheckOutcome table nodeId key forWrite now next answer)
    (points : PointIndexes table) : PointIndexes next := by
  cases outcome with
  | kept | excluded | covered => exact points
  | @upgraded position id found sole _ _ =>
    have member : InKeys table id := by
      refine ⟨position.entry, ?_, by simp [sole]⟩
      rw [(findLocksByKey_some found).1]
      simp
    exact points.upgradeLock member now
  | shared found others => exact points.shareLock found others
  | created missing => exact points.newLock missing

theorem CheckOutcome.consistent (outcome : CheckOutcome table nodeId key forWrite now next answer)
    (consistent : Consistent table) : Consistent next := by
  refine ⟨outcome.points consistent.points, ?_⟩
  have ranges := consistent.ranges
  cases outcome with
  | kept | excluded | covered => exact ranges
  | upgraded => exact ranges.frame rfl rfl rfl (fun _ => rfl) le_rfl
  | shared | created =>
        exact ranges.frame rfl rfl rfl (rangeLocksOf_registerLock table _) (Nat.le_succ _)

theorem RangeOutcome.consistent
    (outcome : RangeOutcome table nodeId fromKey toKey now probe next answer)
    (consistent : Consistent table) : Consistent next := by
  rcases consistent with ⟨points, ranges⟩
  cases outcome with
  | overlapped | written => exact ⟨points, ranges⟩
  | created _ kept =>
    exact ⟨points.frame rfl rfl rfl (locksOf_newRangeLock table _ _) (Nat.le_succ _), kept⟩

omit [LinearOrder Key] in
theorem OnlyKeys.refl (table : LockTable Key) : OnlyKeys table table :=
  ⟨rfl, rfl, rfl, rfl, fun _ => rfl, rfl⟩

omit [LinearOrder Key] in
theorem OnlyKeys.trans {middle : LockTable Key} (first : OnlyKeys table middle)
    (second : OnlyKeys middle next) : OnlyKeys table next :=
  ⟨second.lock.trans first.lock, second.rangeLock.trans first.rangeLock,
    second.rangeLocks.trans first.rangeLocks,
    second.rangeTimestamps.trans first.rangeTimestamps,
    fun nodeId => (second.rangeNodes nodeId).trans (first.rangeNodes nodeId),
    second.allocated.trans first.allocated⟩

theorem OnlyKeys.ranges (only : OnlyKeys table next) (indexes : RangeIndexes table) :
    RangeIndexes next :=
  indexes.frame only.rangeLock only.rangeLocks only.rangeTimestamps only.rangeNodes
    only.allocated.ge

omit [LinearOrder Key] in
theorem OnlyRanges.refl (table : LockTable Key) : OnlyRanges table table :=
  ⟨rfl, rfl, rfl, rfl, fun _ => rfl, rfl⟩

omit [LinearOrder Key] in
theorem OnlyRanges.trans {middle : LockTable Key} (first : OnlyRanges table middle)
    (second : OnlyRanges middle next) : OnlyRanges table next :=
  ⟨second.lock.trans first.lock, second.rangeLock.trans first.rangeLock,
    second.locks.trans first.locks, second.timestamps.trans first.timestamps,
    fun nodeId => (second.nodes nodeId).trans (first.nodes nodeId),
    second.allocated.trans first.allocated⟩

theorem OnlyRanges.points (only : OnlyRanges table next) (indexes : PointIndexes table) :
    PointIndexes next :=
  indexes.frame only.lock only.locks only.timestamps only.nodes only.allocated.ge

/-- `gzochid_lock_release` takes out the lock of the node on the key. -/
theorem release_spec (consistent : Consistent table) (nodeId : Nat) (key : GBytes Key) :
    ∃ next, gzochidLockRelease table nodeId key = some next ∧ Consistent next ∧
      OnlyKeys table next ∧ ∀ id, InKeys next id ↔ InKeys table id ∧
        ¬((table.lock id).nodeId = nodeId ∧ (table.lock id).key.content = key.content) := by
  have points := consistent.points
  have unchanged : (∀ id, InKeys table id → (table.lock id).key.content = key.content →
      (table.lock id).nodeId ≠ nodeId) →
      Consistent table ∧ OnlyKeys table table ∧ ∀ id, InKeys table id ↔ InKeys table id ∧
        ¬((table.lock id).nodeId = nodeId ∧ (table.lock id).key.content = key.content) := by
    intro nothing
    refine ⟨consistent, .refl table, fun id => ⟨fun member => ⟨member, ?_⟩, fun held => held.1⟩⟩
    rintro ⟨owner, sameKey⟩
    exact nothing id member sameKey owner
  simp only [gzochidLockRelease]
  cases found : findLocksByKey table key with
  | none =>
    refine ⟨table, rfl, unchanged fun id member sameKey => ?_⟩
    rcases points.find_of_inKeys member sameKey with ⟨position, other, _⟩
    rw [found] at other
    cases other
  | some position =>
    have here := entry_mem found
    simp only
    cases own : position.entry.locks.find? fun id =>
        decide ((table.lock id).nodeId = nodeId) with
    | none =>
      refine ⟨table, rfl, unchanged fun id member sameKey => ?_⟩
      simpa using List.find?_eq_none.mp own id (points.onKey found member sameKey)
    | some id =>
      have inside := mem_of_find?_eq_some own
      have owner : (table.lock id).nodeId = nodeId := by
        simpa using List.find?_some own
      have idKey := points.found_key found inside
      rcases points.removeLock ⟨_, here, inside⟩ with ⟨next, removed, kept, left, only⟩
      refine ⟨next, removed, ⟨kept, only.ranges consistent.ranges⟩, only, fun other => ?_⟩
      rw [left]
      refine and_congr_right fun member => not_congr ⟨?_, ?_⟩
      · intro same
        subst same
        exact ⟨owner, idKey⟩
      · rintro ⟨otherOwner, otherKey⟩
        exact points.single _ here other (points.onKey found member otherKey) id inside
          (otherOwner.trans owner.symm)

/-- A lock of the node on that very range is taken out without harm to the tree, when it
is found. -/
def ReleaseRangeKeeps (table : LockTable Key) (nodeId : Nat)
    (fromKey toKey : Option (GBytes Key)) : Prop :=
  ∀ id, HoldsRange table nodeId fromKey toKey id →
    nullOrder.upper fromKey ≤ nullOrder.upper toKey →
    RemoveKeeps nullOrder table.rangeLocks (table.rangeLock id).fromKey
      (table.rangeLock id).toKey

/-- `gzochid_lock_release_range` takes out the lock of the node on the range, provided
that the lower bound, taken as an upper one, lies in it. -/
theorem releaseRange_spec (consistent : Consistent table)
    (keeps : ReleaseRangeKeeps table nodeId fromKey toKey) :
    ∃ next, gzochidLockReleaseRange table nodeId fromKey toKey = some next ∧ Consistent next ∧
      OnlyRanges table next ∧ ∀ id, id ∈ next.rangeLocksByTimestamp ↔
        id ∈ table.rangeLocksByTimestamp ∧ ¬(HoldsRange table nodeId fromKey toKey id ∧
          nullOrder.upper fromKey ≤ nullOrder.upper toKey) := by
  have ranges := consistent.ranges
  rcases ranges.releasing nodeId fromKey toKey with ⟨answer, searched, found, missed⟩
  simp only [gzochidLockReleaseRange, searched]
  cases answer with
  | none =>
    refine ⟨table, rfl, consistent, .refl table, fun id => ⟨fun live => ⟨live, ?_⟩,
      fun held => held.1⟩⟩
    rintro ⟨⟨inNode, low, high⟩, inside⟩
    exact missed rfl id live ((ranges.nodes nodeId id).mp inNode).2 low high inside
  | some id =>
    rcases found id rfl with ⟨live, owner, low, high, inside⟩
    have holds : HoldsRange table nodeId fromKey toKey id :=
      ⟨(ranges.nodes nodeId id).mpr ⟨live, owner⟩, low, high⟩
    rcases ranges.removeRangeLock live (keeps id holds inside) with
      ⟨next, removed, kept, left, only, _⟩
    refine ⟨next, removed, ⟨only.points consistent.points, kept⟩, only, fun other => ?_⟩
    rw [left]
    refine and_congr_right fun otherLive => not_congr ⟨?_, ?_⟩
    · intro same
      subst same
      exact ⟨holds, inside⟩
    · rintro ⟨⟨_, otherLow, otherHigh⟩, _⟩
      rcases ranges.tree with ⟨_, contents, _, _, describes⟩
      have first := (describes _ _ other).mpr ⟨otherLive, otherLow, otherHigh⟩
      have second := (describes _ _ id).mpr ⟨live, low, high⟩
      exact Option.some.inj (first.symm.trans second)

/-- Taking some locks on keys out one after the other. -/
theorem foreach_removeLock {ids : List LockId} (points : PointIndexes table)
    (live : ∀ id ∈ ids, InKeys table id) (nodup : ids.Nodup) :
    ∃ next, foreach removeLock ids table = some next ∧ PointIndexes next ∧
      OnlyKeys table next ∧ ∀ id, InKeys next id ↔ InKeys table id ∧ id ∉ ids := by
  induction ids generalizing table with
  | nil => exact ⟨table, rfl, points, .refl table, by simp⟩
  | cons id rest ih =>
    rcases nodup_cons.mp nodup with ⟨fresh, restNodup⟩
    rcases points.removeLock (live id (by simp)) with ⟨middle, removed, kept, left, only⟩
    have restLive : ∀ other ∈ rest, InKeys middle other := by
      intro other inside
      exact (left other).mpr ⟨live other (by simp [inside]), fun same => fresh (same ▸ inside)⟩
    rcases ih kept restLive restNodup with ⟨next, rest_, kept', only', left'⟩
    refine ⟨next, by simp [foreach, removed, rest_], kept', only.trans only', fun other => ?_⟩
    rw [left', left, mem_cons, not_or, and_assoc]

/-- Taking all locks of a node on keys out. -/
theorem foreach_registered (points : PointIndexes table) {nodeLocks : NodeLocks}
    (registered : table.nodesToLocks nodeId = some nodeLocks) :
    ∃ next, foreach removeLock nodeLocks.locks table = some next ∧ PointIndexes next ∧
      OnlyKeys table next ∧ locksOf table nodeId = nodeLocks.locks ∧
      ∀ id, InKeys next id ↔ InKeys table id ∧ id ∉ nodeLocks.locks := by
  have list : locksOf table nodeId = nodeLocks.locks := by
    simp [locksOf, LockTable.ensureNodeRegistration, registered]
  have listed : ∀ id ∈ nodeLocks.locks, InKeys table id := by
    intro id inside
    rw [← list] at inside
    exact ((points.nodes nodeId id).mp inside).1
  obtain ⟨next, removed, kept, only, left⟩ :=
    foreach_removeLock points listed (list ▸ points.nodesNodup nodeId)
  exact ⟨next, removed, kept, only, list, left⟩

/-- The locks on ranges can be taken out of the tree one after the other without harm
to it. -/
def RemovalsKeep : Itree (Option (GBytes Key)) LockId → List (RangeLock Key) → Prop
  | _, [] => True
  | tree, rangeLock :: rest =>
      RemoveKeeps nullOrder tree rangeLock.fromKey rangeLock.toKey ∧
      ∀ next, gzochidItreeRemove nullOrder tree rangeLock.fromKey rangeLock.toKey = some next →
        RemovalsKeep next rest

/-- Taking some locks on ranges out one after the other. -/
theorem foreach_removeRangeLock {ids : List LockId} (ranges : RangeIndexes table)
    (live : ∀ id ∈ ids, id ∈ table.rangeLocksByTimestamp) (nodup : ids.Nodup)
    (keeps : RemovalsKeep table.rangeLocks (ids.map table.rangeLock)) :
    ∃ next, foreach removeRangeLock ids table = some next ∧ RangeIndexes next ∧
      OnlyRanges table next ∧ ∀ id, id ∈ next.rangeLocksByTimestamp ↔
        id ∈ table.rangeLocksByTimestamp ∧ id ∉ ids := by
  induction ids generalizing table with
  | nil => exact ⟨table, rfl, ranges, .refl table, by simp⟩
  | cons id rest ih =>
    rcases nodup_cons.mp nodup with ⟨fresh, restNodup⟩
    rcases keeps with ⟨keepsFirst, keepsRest⟩
    rcases ranges.removeRangeLock (live id (by simp)) keepsFirst with
      ⟨middle, removed, kept, left, only, tree⟩
    have restLive : ∀ other ∈ rest, other ∈ middle.rangeLocksByTimestamp := by
      intro other inside
      exact (left other).mpr ⟨live other (by simp [inside]), fun same => fresh (same ▸ inside)⟩
    have keepsNext : RemovalsKeep middle.rangeLocks (rest.map middle.rangeLock) := by
      rw [only.rangeLock]
      exact keepsRest _ tree
    rcases ih kept restLive restNodup keepsNext with ⟨next, rest_, kept', only', left'⟩
    refine ⟨next, by simp [foreach, removed, rest_], kept', only.trans only', fun other => ?_⟩
    rw [left', left, mem_cons, not_or, and_assoc]

/-- Releasing all locks of a node does not harm the tree. -/
def ReleaseAllKeeps (table : LockTable Key) (nodeId : Nat) : Prop :=
  RemovalsKeep table.rangeLocks ((rangeLocksOf table nodeId).map table.rangeLock)

/-- `gzochid_lock_release_all` takes out the locks of the node. -/
theorem releaseAll_spec (consistent : Consistent table) (keeps : ReleaseAllKeeps table nodeId) :
    ∃ next, gzochidLockReleaseAll table nodeId = some next ∧ Consistent next ∧
      next.lock = table.lock ∧ next.rangeLock = table.rangeLock ∧
      (∀ id, InKeys next id ↔ InKeys table id ∧ (table.lock id).nodeId ≠ nodeId) ∧
      ∀ id, id ∈ next.rangeLocksByTimestamp ↔
        id ∈ table.rangeLocksByTimestamp ∧ (table.rangeLock id).nodeId ≠ nodeId := by
  have points := consistent.points
  have ranges := consistent.ranges
  have ofNode : ∀ id, InKeys table id → (id ∉ locksOf table nodeId ↔
      (table.lock id).nodeId ≠ nodeId) := by
    intro id member
    rw [points.nodes nodeId id]
    simp [member]
  have ofNodeRange : ∀ id, id ∈ table.rangeLocksByTimestamp →
      (id ∉ rangeLocksOf table nodeId ↔ (table.rangeLock id).nodeId ≠ nodeId) := by
    intro id live
    rw [ranges.nodes nodeId id]
    simp [live]
  simp only [gzochidLockReleaseAll]
  cases registered : table.nodesToLocks nodeId with
  | none =>
    have noLocks : locksOf table nodeId = [] := by
      simp [locksOf, LockTable.ensureNodeRegistration, registered]
    have noRanges : rangeLocksOf table nodeId = [] := by
      simp [rangeLocksOf, LockTable.ensureNodeRegistration, registered]
    refine ⟨table, rfl, consistent, rfl, rfl, fun id => ?_, fun id => ?_⟩
    · refine ⟨fun member => ⟨member, (ofNode id member).mp (by simp [noLocks])⟩,
        fun held => held.1⟩
    · refine ⟨fun live => ⟨live, (ofNodeRange id live).mp (by simp [noRanges])⟩,
        fun held => held.1⟩
  | some nodeLocks =>
    obtain ⟨middle, removed, kept, only, list, left⟩ := foreach_registered points registered
    have left' : ∀ id, InKeys middle id ↔ InKeys table id ∧ (table.lock id).nodeId ≠ nodeId := by
      intro id
      rw [left, ← list]
      exact and_congr_right (ofNode id)
    have middleRanges := only.ranges ranges
    have sameRanges : ∀ id, id ∈ middle.rangeLocksByTimestamp ↔
        id ∈ table.rangeLocksByTimestamp := by
      intro id
      rw [only.rangeTimestamps]
    simp only [removed]
    cases registered' : middle.nodesToLocks nodeId with
    | none =>
      have noRanges : rangeLocksOf table nodeId = [] := by
        rw [← only.rangeNodes nodeId]
        simp [rangeLocksOf, LockTable.ensureNodeRegistration, registered']
      refine ⟨middle, rfl, ⟨kept, middleRanges⟩, only.lock, only.rangeLock, left', fun id => ?_⟩
      rw [sameRanges]
      exact ⟨fun live => ⟨live, (ofNodeRange id live).mp (by simp [noRanges])⟩,
        fun held => held.1⟩
    | some nodeLocks' =>
      have rangeList : nodeLocks'.rangeLocks = rangeLocksOf table nodeId := by
        rw [← only.rangeNodes nodeId]
        simp [rangeLocksOf, LockTable.ensureNodeRegistration, registered']
      have rangeLive : ∀ id ∈ nodeLocks'.rangeLocks, id ∈ middle.rangeLocksByTimestamp := by
        intro id inside
        rw [rangeList] at inside
        exact (sameRanges id).mpr ((ranges.nodes nodeId id).mp inside).1
      have keeps' : RemovalsKeep middle.rangeLocks
          (nodeLocks'.rangeLocks.map middle.rangeLock) := by
        rw [rangeList, only.rangeLock, only.rangeLocks]
        exact keeps
      rcases foreach_removeRangeLock middleRanges rangeLive
          (rangeList ▸ ranges.nodesNodup nodeId) keeps' with
        ⟨next, removed', kept', only', leftRanges⟩
      refine ⟨next, removed', ⟨only'.points kept, kept'⟩, only'.lock.trans only.lock,
        only'.rangeLock.trans only.rangeLock, fun id => ?_, fun id => ?_⟩
      · simp only [InKeys, only'.locks]
        exact left' id
      · rw [leftRanges, sameRanges, rangeList]
        exact and_congr_right (ofNodeRange id)

/-- The calls that keep the indexes in step. -/
def TableKeeps (table : LockTable Key) : Call Key → Prop
  | .checkAndSet _ _ _ _ => True
  | .rangeCheckAndSet nodeId fromKey toKey _ probe =>
      RangeKeeps table nodeId fromKey toKey probe
  | .release _ _ => True
  | .releaseRange nodeId fromKey toKey => ReleaseRangeKeeps table nodeId fromKey toKey
  | .releaseAll nodeId => ReleaseAllKeeps table nodeId

theorem lockTableStep_consistent (consistent : Consistent table) {call : Call Key}
    (keeps : TableKeeps table call) :
    ∃ next answer, lockTableStep table call = some (next, answer) ∧ Consistent next := by
  cases call with
  | checkAndSet nodeId key forWrite now =>
    rcases checkAndSet_cases consistent nodeId key forWrite now with
      ⟨next, answer, equal, outcome⟩
    exact ⟨next, some answer, by simp [lockTableStep, equal], outcome.consistent consistent⟩
  | rangeCheckAndSet nodeId fromKey toKey now probe =>
    rcases rangeCheckAndSet_cases consistent keeps now with ⟨next, answer, equal, outcome⟩
    exact ⟨next, some answer, by simp [lockTableStep, equal], outcome.consistent consistent⟩
  | release nodeId key =>
    rcases release_spec consistent nodeId key with ⟨next, equal, kept, _⟩
    exact ⟨next, none, by simp [lockTableStep, equal], kept⟩
  | releaseRange nodeId fromKey toKey =>
    rcases releaseRange_spec consistent keeps with ⟨next, equal, kept, _⟩
    exact ⟨next, none, by simp [lockTableStep, equal], kept⟩
  | releaseAll nodeId =>
    rcases releaseAll_spec consistent keeps with ⟨next, equal, kept, _⟩
    exact ⟨next, none, by simp [lockTableStep, equal], kept⟩

variable {lock : LockId → Lock Key} {rangeLock : LockId → RangeLock Key}
  {garbage : IntervalTree.Node (Option (GBytes Key)) LockId}
  {trace : List (Call Key × Option Answer)}

theorem consistent_new (lock : LockId → Lock Key) (rangeLock : LockId → RangeLock Key)
    (garbage : IntervalTree.Node (Option (GBytes Key)) LockId) :
    Consistent (gzochidLockTableNew lock rangeLock garbage) where
  points := by
    constructor <;> simp [gzochidLockTableNew, InKeys, locksOf, LockTable.ensureNodeRegistration]
  ranges := by
    refine ⟨⟨.nil, fun _ _ => none, ?_, ?_, ?_⟩, ?_, ?_, ?_, ?_⟩
    · refine ⟨⟨rfl, trivial, nodup_nil, by simp⟩, trivial, by simp [Distinct], by simp [Carries]⟩
    · simp [Covered]
    · simp [Describes, gzochidLockTableNew]
    · simp [gzochidLockTableNew]
    · simp [gzochidLockTableNew, rangeLocksOf, LockTable.ensureNodeRegistration]
    · simp [gzochidLockTableNew, rangeLocksOf, LockTable.ensureNodeRegistration]
    · simp [gzochidLockTableNew]

/-- The five indexes describe the same locks: each lock on a key is in the sequence of
keys, under its key, in the timestamp sequence and in the list of its node, once each;
and likewise each lock on a range with the interval tree. -/
structure SameLocks (table : LockTable Key) : Prop where
  keys : (table.locks.flatMap Locks.locks).Perm table.locksByTimestamp
  underKey : ∀ entry ∈ table.locks, ∀ id ∈ entry.locks,
    (table.lock id).key.content = table.entryKey entry
  nodes : ∀ nodeId, (locksOf table nodeId).Perm
    (table.locksByTimestamp.filter fun id => decide ((table.lock id).nodeId = nodeId))
  nodup : table.locksByTimestamp.Nodup
  tree : ∃ shape, PointerTree table.rangeLocks shape ∧
    (shape.ids.map fun node => (table.rangeLocks.node node).data).Perm
      table.rangeLocksByTimestamp ∧
    ∀ node ∈ shape.ids,
      nullOrder.lower (table.rangeLocks.node node).lower =
        rangeLower table (table.rangeLocks.node node).data ∧
      nullOrder.upper (table.rangeLocks.node node).upper =
        rangeUpper table (table.rangeLocks.node node).data
  rangeNodes : ∀ nodeId, (rangeLocksOf table nodeId).Perm
    (table.rangeLocksByTimestamp.filter fun id =>
      decide ((table.rangeLock id).nodeId = nodeId))
  rangeNodup : table.rangeLocksByTimestamp.Nodup

theorem PointIndexes.keys_nodup (points : PointIndexes table) :
    (table.locks.flatMap Locks.locks).Nodup := by
  refine nodup_flatMap.mpr ⟨points.nodup, ?_⟩
  refine points.sorted.imp_of_mem fun {first second} inFirst inSecond less => ?_
  intro id inside again
  have same := (points.keyed first inFirst id inside).symm.trans
    (points.keyed second inSecond id again)
  exact less.ne same

theorem Consistent.sameLocks (consistent : Consistent table) : SameLocks table := by
  rcases consistent with ⟨points, ranges⟩
  refine ⟨?_, points.keyed, ?_, points.timestampsNodup, ?_, ?_, ranges.timestampsNodup⟩
  · refine (perm_ext_iff_of_nodup points.keys_nodup points.timestampsNodup).mpr fun id => ?_
    rw [points.timestamps, mem_flatMap]
    rfl
  · intro nodeId
    refine (perm_ext_iff_of_nodup (points.nodesNodup nodeId)
      (points.timestampsNodup.filter _)).mpr fun id => ?_
    rw [points.nodes, mem_filter, points.timestamps, decide_eq_true_eq]
  · rcases ranges.tree with ⟨shape, contents, sound, _, describes⟩
    refine ⟨shape, sound.toPointerTree, ?_, fun node member => ?_⟩
    · have injective : ∀ first ∈ shape.ids, ∀ second ∈ shape.ids,
          (table.rangeLocks.node first).data = (table.rangeLocks.node second).data →
          first = second := by
        intro first inFirst second inSecond same
        rcases lock_of_node sound describes inFirst with ⟨_, low, high⟩
        rcases lock_of_node sound describes inSecond with ⟨_, low', high'⟩
        rw [same] at low high
        exact sound.distinct first inFirst second inSecond (low.symm.trans low')
          (high.symm.trans high')
      refine (perm_ext_iff_of_nodup (sound.nodup.map_on injective)
        ranges.timestampsNodup).mpr fun id => ?_
      rw [mem_map]
      constructor
      · rintro ⟨node, member, data⟩
        exact data ▸ (lock_of_node sound describes member).1
      · intro live
        rcases node_of_lock sound describes live with ⟨node, member, data, _⟩
        exact ⟨node, member, data⟩
    · rcases lock_of_node sound describes member with ⟨_, low, high⟩
      exact ⟨low.symm, high.symm⟩
  · intro nodeId
    refine (perm_ext_iff_of_nodup (ranges.nodesNodup nodeId)
      (ranges.timestampsNodup.filter _)).mpr fun id => ?_
    rw [ranges.nodes, mem_filter, decide_eq_true_eq]

/-- The calls of a run in which every release also finds the range it names. -/
def IndexKeeps (table : LockTable Key) (call : Call Key) : Prop :=
  TableKeeps table call ∧ ∀ nodeId fromKey toKey id, call = .releaseRange nodeId fromKey toKey →
    HoldsRange table nodeId fromKey toKey id →
    nullOrder.upper fromKey ≤ nullOrder.upper toKey

theorem run_consistent (run : Run lockTableStep IndexKeeps
    (gzochidLockTableNew lock rangeLock garbage) trace table) : Consistent table := by
  refine run.state_invariant Consistent (consistent_new lock rangeLock garbage) ?_
  intro table call next answer consistent keeps taken
  rcases lockTableStep_consistent consistent keeps.1 with ⟨other, _, equal, kept⟩
  rw [equal] at taken
  injection taken with pair
  injection pair with same _
  exact same ▸ kept

/-- The locks that are left are the old ones but for the given ones, and unchanged. -/
structure Without (table next : LockTable Key) (gone rangeGone : LockId → Prop) : Prop where
  lock : next.lock = table.lock
  rangeLock : next.rangeLock = table.rangeLock
  left : ∀ id, id ∈ next.locksByTimestamp ↔ id ∈ table.locksByTimestamp ∧ ¬gone id
  leftRanges : ∀ id, id ∈ next.rangeLocksByTimestamp ↔
    id ∈ table.rangeLocksByTimestamp ∧ ¬rangeGone id

/-- After every run of calls that keep the indexes in step, the indexes describe the same
locks and the next such call returns.  A release takes out the locks it names in all
indexes, and no other. -/
theorem lock_indexes_agree (run : Run lockTableStep IndexKeeps
    (gzochidLockTableNew lock rangeLock garbage) trace table) :
    SameLocks table ∧
    (∀ call, IndexKeeps table call → (lockTableStep table call).isSome) ∧
    (∀ nodeId key next, gzochidLockRelease table nodeId key = some next →
      SameLocks next ∧ Without table next
        (fun id => (table.lock id).nodeId = nodeId ∧ (table.lock id).key.content = key.content)
        fun _ => False) ∧
    (∀ nodeId fromKey toKey next, IndexKeeps table (.releaseRange nodeId fromKey toKey) →
      gzochidLockReleaseRange table nodeId fromKey toKey = some next →
      SameLocks next ∧ Without table next (fun _ => False)
        (HoldsRange table nodeId fromKey toKey)) ∧
    (∀ nodeId next, IndexKeeps table (.releaseAll nodeId) →
      gzochidLockReleaseAll table nodeId = some next →
      SameLocks next ∧ locksOf next nodeId = [] ∧ rangeLocksOf next nodeId = [] ∧
      Without table next (fun id => (table.lock id).nodeId = nodeId)
        fun id => (table.rangeLock id).nodeId = nodeId) := by
  have consistent := run_consistent run
  refine ⟨consistent.sameLocks, ?_, ?_, ?_, ?_⟩
  · intro call keeps
    rcases lockTableStep_consistent consistent keeps.1 with ⟨_, _, equal, _⟩
    simp [equal]
  · intro nodeId key next released
    rcases release_spec consistent nodeId key with ⟨other, equal, kept, only, left⟩
    have same := Option.some.inj (equal.symm.trans released)
    subst same
    refine ⟨kept.sameLocks, only.lock, only.rangeLock, fun id => ?_, fun id => ?_⟩
    · rw [kept.points.timestamps, consistent.points.timestamps, left]
    · rw [only.rangeTimestamps]
      simp
  · intro nodeId fromKey toKey next keeps released
    rcases releaseRange_spec consistent keeps.1 with ⟨other, equal, kept, only, left⟩
    have same := Option.some.inj (equal.symm.trans released)
    subst same
    refine ⟨kept.sameLocks, only.lock, only.rangeLock, fun id => ?_, fun id => ?_⟩
    · rw [only.timestamps]
      simp
    · rw [left]
      refine and_congr_right fun _ => not_congr ⟨fun held => held.1, fun holds => ⟨holds, ?_⟩⟩
      exact keeps.2 nodeId fromKey toKey id rfl holds
  · intro nodeId next keeps released
    rcases releaseAll_spec consistent keeps.1 with
      ⟨other, equal, kept, sameLock, sameRange, left, leftRanges⟩
    have same := Option.some.inj (equal.symm.trans released)
    subst same
    refine ⟨kept.sameLocks, ?_, ?_, sameLock, sameRange, fun id => ?_, leftRanges⟩
    · refine eq_nil_iff_forall_not_mem.mpr fun id held => ?_
      rcases (kept.points.nodes nodeId id).mp held with ⟨member, owner⟩
      rw [sameLock] at owner
      exact ((left id).mp member).2 owner
    · refine eq_nil_iff_forall_not_mem.mpr fun id held => ?_
      rcases (kept.ranges.nodes nodeId id).mp held with ⟨member, owner⟩
      rw [sameRange] at owner
      exact ((leftRanges id).mp member).2 owner
    · rw [kept.points.timestamps, consistent.points.timestamps, left]

/-- Byte strings, in the order of `g_bytes_compare`. -/
abbrev Bytes := List (Fin 256)

/-- A table without locks. -/
def emptyTable : LockTable Bytes :=
  gzochidLockTableNew (fun _ => ⟨0, ⟨0, []⟩, false, 0⟩) (fun _ => ⟨0, none, none, 0⟩)
    (itreeNodeNew none none 0)

/-- The table some calls lead to. -/
def afterCalls (calls : List (Call Bytes)) : LockTable Bytes :=
  stateAfter lockTableStep emptyTable calls

/-- A write lock on `m`. -/
def lockM : Call Bytes := .checkAndSet 1 ⟨1, [109]⟩ true 5

/-- A lock on the range from `a` to `b`. -/
def lockAToB : Call Bytes := .rangeCheckAndSet 2 (some ⟨2, [97]⟩) (some ⟨3, [98]⟩) 6 0

theorem lock_indexes_agree_after_two : SameLocks (afterCalls [lockM, lockAToB]) ∧
    (afterCalls [lockM, lockAToB]).locksByTimestamp = [0] ∧
    (afterCalls [lockM, lockAToB]).rangeLocksByTimestamp = [1] := by
  have first : IndexKeeps (afterCalls []) lockM :=
    ⟨trivial, fun _ _ _ _ other => by cases other⟩
  have second : IndexKeeps (afterCalls [lockM]) lockAToB := by
    refine ⟨fun _ => ⟨?_, ?_, ?_⟩, fun _ _ _ _ other => by cases other⟩
    · rintro id ⟨held, _⟩
      exact absurd held (not_mem_nil)
    · intro seat located
      cases located
    · intro seat located
      cases located
  refine ⟨?_, by decide, by decide⟩
  exact (lock_indexes_agree (.snoc (.snoc .nil first rfl) second rfl)).1

/-- A range that its holder locks again is twice in the timestamp sequence, but once in
the tree. -/
theorem relocked_range_disagrees : ∃ trace table,
    Run lockTableStep anyAction emptyTable trace table ∧ ¬SameLocks table := by
  have run := exists_run_stateAfter lockTableStep emptyTable [lockAToB, lockAToB]
  rcases run with ⟨trace, run⟩
  refine ⟨trace, _, run, fun same => ?_⟩
  rcases same.tree with ⟨shape, pointers, perm, _⟩
  have two : (afterCalls [lockAToB, lockAToB]).rangeLocksByTimestamp = [0, 1] := by decide
  have root : (afterCalls [lockAToB, lockAToB]).rangeLocks.root = some 0 := by decide
  have noLeft : ((afterCalls [lockAToB, lockAToB]).rangeLocks.node 0).left = none := by decide
  have noRight : ((afterCalls [lockAToB, lockAToB]).rangeLocks.node 0).right = none := by decide
  have top := pointers.root.symm.trans root
  cases shape with
  | nil => cases top
  | node id left right =>
      cases top
      rcases pointers.linked with ⟨_, toLeft, toRight, _, _⟩
      have leftNil := Shape.eq_nil_of_top (toLeft.symm.trans noLeft)
      have rightNil := Shape.eq_nil_of_top (toRight.symm.trans noRight)
      subst leftNil rightNil
      have length := perm.length_eq
      change 1 = (afterCalls [lockAToB, lockAToB]).rangeLocksByTimestamp.length at length
      rw [two] at length
      cases length

end Gzochi.LockMem
