import Gzochi.LockMem.Exclusion
import Gzochi.LockMem.Overlaps

/-!
# Requests are decided rightly

A request for a lock is granted if no lock of another node conflicts with it, and refused with
the time of a conflicting lock otherwise.  Requests for keys are always decided so; requests for
ranges if the search sees the ranges in the way, and the scan the keys in the range and no others.
-/

namespace Gzochi.LockMem

open Gzochi.Lib Gzochi.IntervalTree

universe u

variable {Key : Type u} [LinearOrder Key] {table next : LockTable Key} {nodeId now probe : Nat}
  {key : GBytes Key} {forWrite : Bool} {fromKey toKey : Option (GBytes Key)} {id : LockId}
  {answer : Answer}

/-- The time of a lock of another node that conflicts with locking a key. -/
inductive PointConflict (table : LockTable Key) (nodeId : Nat) (key : Key) (forWrite : Bool) :
    Nat → Prop where
  | key {other : Nat} {id : LockId} : other ≠ nodeId → id ∈ locksOf table other →
      (table.lock id).key.content = key → forWrite = true ∨ (table.lock id).forWrite = true →
      PointConflict table nodeId key forWrite (table.lock id).timestamp
  | range {other : Nat} {range : LockId} : forWrite = true → other ≠ nodeId →
      range ∈ rangeLocksOf table other → RangeCovers table range key →
      PointConflict table nodeId key forWrite (table.rangeLock range).timestamp

/-- The time of a lock of another node that conflicts with locking a range. -/
inductive RangeConflict (table : LockTable Key) (nodeId : Nat)
    (fromKey toKey : Option (GBytes Key)) : Nat → Prop where
  | key {other : Nat} {id : LockId} : other ≠ nodeId → id ∈ locksOf table other →
      (table.lock id).forWrite = true → Between fromKey toKey (table.lock id).key.content →
      RangeConflict table nodeId fromKey toKey (table.lock id).timestamp
  | range {other : Nat} {range : LockId} {key : Key} : other ≠ nodeId →
      range ∈ rangeLocksOf table other → RangeCovers table range key →
      Between fromKey toKey key →
      RangeConflict table nodeId fromKey toKey (table.rangeLock range).timestamp

/-- The answer is right. -/
structure Decides (table next : LockTable Key) (answer : Answer) (conflict : Nat → Prop) :
    Prop where
  granted : answer = .granted ↔ ∀ timestamp, ¬conflict timestamp
  refused : ∀ timestamp, answer = .refused timestamp → next = table ∧ conflict timestamp

omit [LinearOrder Key] in
theorem decides_granted {conflict : Nat → Prop} (free : ∀ timestamp, ¬conflict timestamp) :
    Decides table next .granted conflict :=
  ⟨⟨fun _ => free, fun _ => rfl⟩, nofun⟩

omit [LinearOrder Key] in
theorem decides_refused {conflict : Nat → Prop} {timestamp : Nat} (there : conflict timestamp) :
    Decides table table (.refused timestamp) conflict := by
  refine ⟨⟨nofun, fun free => absurd there (free timestamp)⟩, ?_⟩
  intro other same
  injection same with same
  exact ⟨rfl, same ▸ there⟩

/-- Locking a key is decided rightly. -/
theorem CheckOutcome.decides (outcome : CheckOutcome table nodeId key forWrite now next answer)
    (consistent : Consistent table) (excludes : Excludes table) :
    Decides table next answer (PointConflict table nodeId key.content forWrite) := by
  rcases consistent with ⟨points, ranges⟩
  have keyed : ∀ {position : Position}, findLocksByKey table key = some position →
      ∀ id ∈ position.entry.locks, InKeys table id ∧ (table.lock id).key.content = key.content := by
    intro position found id inside
    exact ⟨⟨_, entry_mem found, inside⟩, points.found_key found inside⟩
  have uncovered : mostRecentCoveringRangeLock table key nodeId = some none →
      ∀ other range, other ≠ nodeId → range ∈ rangeLocksOf table other →
        ¬RangeCovers table range key.content := by
    intro searched other range different inside
    rcases ranges.covering nodeId key with ⟨answer, equal, free⟩
    rcases (ranges.nodes other range).mp inside with ⟨live, owner⟩
    exact free (Option.some.inj (searched.symm.trans equal)).symm range live (owner ▸ different)
  cases outcome with
  | @kept position id found inside owner enough =>
    rcases keyed found id inside with ⟨live, idKey⟩
    apply decides_granted
    intro timestamp conflict
    cases conflict with
    | @key other otherId different inOther sameKey conflicts =>
      rcases (points.nodes other otherId).mp inOther with ⟨otherLive, otherOwner⟩
      have apart : (table.lock id).nodeId ≠ (table.lock otherId).nodeId := by
        rw [owner, otherOwner]
        exact different.symm
      by_cases written : (table.lock id).forWrite = true
      · exact excludes.keys id otherId live otherLive apart written (idKey.trans sameKey.symm)
      · have isRead := enough.resolve_left written
        have otherWritten := conflicts.resolve_left (by simp [isRead])
        exact excludes.keys otherId id otherLive live apart.symm otherWritten
          (sameKey.trans idKey.symm)
    | @range other range isWrite different inOther covers =>
      rcases (ranges.nodes other range).mp inOther with ⟨otherLive, otherOwner⟩
      have written := enough.resolve_right (by simp [isWrite])
      refine excludes.covered range id otherLive live ?_ written (idKey ▸ covers)
      rw [owner, otherOwner]
      exact different
  | @excluded position id found inside foreign conflicts =>
    rcases keyed found id inside with ⟨live, idKey⟩
    exact decides_refused (.key foreign ((points.nodes _ id).mpr ⟨live, rfl⟩) idKey conflicts)
  | covered isWrite searched =>
    rcases ranges.covering_found searched with ⟨inside, foreign, covers⟩
    exact decides_refused (.range isWrite foreign inside covers)
  | @upgraded position id found sole owner searched =>
    apply decides_granted
    intro timestamp conflict
    cases conflict with
    | @key other otherId different inOther sameKey _ =>
      rcases (points.nodes other otherId).mp inOther with ⟨otherLive, otherOwner⟩
      have onKey := points.onKey found otherLive sameKey
      rw [sole, List.mem_singleton] at onKey
      rw [onKey, owner] at otherOwner
      exact different otherOwner.symm
    | range _ different inOther covers => exact uncovered searched _ _ different inOther covers
  | @shared position found others isRead firstRead =>
    apply decides_granted
    intro timestamp conflict
    cases conflict with
    | @key other otherId different inOther sameKey conflicts =>
      rcases (points.nodes other otherId).mp inOther with ⟨otherLive, _⟩
      have written := conflicts.resolve_left (by simp [isRead])
      have onKey := points.onKey found otherLive sameKey
      have here := entry_mem found
      have same := KeysExclude.alone excludes.keys points here onKey position.entry.first_mem
        written
      rw [same, firstRead] at written
      cases written
    | range isWrite =>
      rw [isRead] at isWrite
      cases isWrite
  | created missing searched =>
    apply decides_granted
    intro timestamp conflict
    cases conflict with
    | @key other otherId different inOther sameKey _ =>
      rcases points.find_of_inKeys ((points.nodes other otherId).mp inOther).1 sameKey with
        ⟨position, found, _⟩
      rw [missing] at found
      cases found
    | range isWrite different inOther covers =>
      exact uncovered (searched isWrite) _ _ different inOther covers

/-- The scan sees a key to write only if there is one in the range, too. -/
def ScanStays (table : LockTable Key) (nodeId : Nat) (fromKey toKey : Option (GBytes Key))
    (probe : Nat) : Prop :=
  ∀ entry ∈ scanned table fromKey probe, writtenByOther table nodeId entry = true →
    ∃ first ∈ scanned table fromKey probe, writtenByOther table nodeId first = true ∧
      (table.entryKey first : WithTop Key) ≤ nullOrder.upper toKey

/-- Neither the range nor those of the other nodes end before they begin, and the scan stays
in the range. -/
structure RangeSeen (table : LockTable Key) (nodeId : Nat) (fromKey toKey : Option (GBytes Key))
    (probe : Nat) : Prop where
  proper : Proper fromKey toKey
  others : ∀ other range, other ≠ nodeId → range ∈ rangeLocksOf table other →
    AtMost (rangeLower table range) (rangeUpper table range)
  stays : ScanStays table nodeId fromKey toKey probe

theorem AtMost.exists_key [Nonempty Key] {lower : WithBot Key} {upper : WithTop Key}
    (atMost : AtMost lower upper) :
    ∃ key : Key, lower ≤ (key : WithBot Key) ∧ (key : WithTop Key) ≤ upper := by
  cases lower with
  | coe low =>
    refine ⟨low, le_rfl, ?_⟩
    cases upper with
    | top => exact le_top
    | coe high => exact WithTop.coe_le_coe.mpr (atMost low high rfl rfl)
  | bot =>
    cases upper with
    | top => exact ⟨Classical.arbitrary Key, bot_le, le_top⟩
    | coe high => exact ⟨high, bot_le, le_rfl⟩

/-- Ranges that pass the test share a key. -/
theorem RangeMeets.exists_shared [Nonempty Key] (meets : RangeMeets table fromKey toKey id)
    (wanted : Proper fromKey toKey)
    (stored : AtMost (rangeLower table id) (rangeUpper table id)) :
    ∃ key, RangeCovers table id key ∧ Between fromKey toKey key := by
  have meeting : meetsInterval nullOrder fromKey toKey
      (itreeNodeNew (table.rangeLock id).fromKey (table.rangeLock id).toKey id) = true :=
    (meetsInterval_iff rfl rfl).mpr meets
  have isProper : Proper (table.rangeLock id).fromKey (table.rangeLock id).toKey := stored
  rcases ((meetsInterval_iff_overlaps isProper wanted).mp meeting).exists_key with
    ⟨key, low, high⟩
  exact ⟨key, ⟨(le_max_right _ _).trans low, high.trans (min_le_right _ _)⟩,
    (le_max_left _ _).trans low, high.trans (min_le_left _ _)⟩

/-- The entry that ends the scan is in the range. -/
theorem ScanStays.between (points : PointIndexes table) {entry : Locks}
    (stays : ScanStays table nodeId fromKey toKey probe)
    (found : (scanned table fromKey probe).find? (writtenByOther table nodeId) = some entry) :
    Between fromKey toKey (table.entryKey entry) := by
  rcases scanned_spec points fromKey probe with ⟨suffix, above⟩
  have inside := List.mem_of_find?_eq_some found
  refine ⟨above entry inside, ?_⟩
  rcases stays entry inside (List.find?_some found) with ⟨first, firstInside, foreign, below⟩
  refine le_trans ?_ below
  rcases List.find?_eq_some_iff_append.mp found with ⟨_, before, after, split, unseen⟩
  have sorted := points.sorted.sublist suffix.sublist
  rw [split] at firstInside sorted
  rcases List.mem_append.mp firstInside with early | here
  · have missed := unseen first early
    rw [foreign] at missed
    cases missed
  · rcases List.mem_cons.mp here with same | later
    · rw [same]
    · have ordered := (List.pairwise_cons.mp (List.pairwise_append.mp sorted).2.1).1 first later
      exact WithTop.coe_le_coe.mpr ordered.le

/-- Locking a range is decided rightly. -/
theorem RangeOutcome.decides [Nonempty Key]
    (outcome : RangeOutcome table nodeId fromKey toKey now probe next answer)
    (consistent : Consistent table) (excludes : Excludes table)
    (writers : SeesWriters table nodeId fromKey toKey probe)
    (others : SeesRanges table nodeId fromKey toKey)
    (seen : RangeSeen table nodeId fromKey toKey probe) :
    Decides table next answer (RangeConflict table nodeId fromKey toKey) := by
  have points := consistent.points
  cases outcome with
  | overlapped searched =>
    rcases consistent.ranges.overlapping_found searched with ⟨inside, foreign, meets⟩
    rcases meets.exists_shared seen.proper (seen.others _ _ foreign inside) with
      ⟨key, covers, between⟩
    exact decides_refused (.range foreign inside covers between)
  | @written entry found =>
    have inScan := List.mem_of_find?_eq_some found
    have inTable := (scanned_spec points _ _).1.subset inScan
    have first := entry.first_mem
    rcases writtenByOther_iff.mp (List.find?_some found) with ⟨isWrite, foreign⟩
    refine decides_refused (.key foreign ((points.nodes _ _).mpr ⟨⟨_, inTable, first⟩, rfl⟩)
      isWrite ?_)
    rw [points.keyed _ inTable _ first]
    exact seen.stays.between points found
  | created free =>
    apply decides_granted
    intro timestamp conflict
    cases conflict with
    | @key other lock different inOther written between =>
      rcases (points.nodes other lock).mp inOther with ⟨live, owner⟩
      exact no_writer_in_range consistent excludes free writers live (owner ▸ different) written
        between.1 between.2
    | @range other range key different inOther covers between =>
      rcases (consistent.ranges.nodes other range).mp inOther with ⟨live, owner⟩
      exact no_range_in_range consistent free others live (owner ▸ different) covers between.1
        between.2

/-- The requests that are decided rightly. -/
def CallDecides (table : LockTable Key) : Call Key → Prop
  | .rangeCheckAndSet nodeId fromKey toKey now probe =>
      ExclusionKeeps table (.rangeCheckAndSet nodeId fromKey toKey now probe) ∧
        RangeSeen table nodeId fromKey toKey probe
  | _ => True

/-- A request returns, and with the right answer. -/
def Decided (table : LockTable Key) : Call Key → Prop
  | .checkAndSet nodeId key forWrite now =>
      ∃ next answer, gzochidLockCheckAndSet table nodeId key forWrite now = some (next, answer) ∧
        Decides table next answer (PointConflict table nodeId key.content forWrite)
  | .rangeCheckAndSet nodeId fromKey toKey now probe =>
      ∃ next answer, gzochidLockRangeCheckAndSet table nodeId fromKey toKey now probe =
          some (next, answer) ∧
        Decides table next answer (RangeConflict table nodeId fromKey toKey)
  | _ => True

/-- After every run of calls that see the locks in their way, every request for a key is decided
rightly, and every request for a range that sees the ranges and keys in it and no others. -/
theorem requests_decided [Nonempty Key] {lock : LockId → Lock Key}
    {rangeLock : LockId → RangeLock Key}
    {garbage : IntervalTree.Node (Option (GBytes Key)) LockId}
    {trace : List (Call Key × Option Answer)}
    (run : Run lockTableStep ExclusionKeeps
      (gzochidLockTableNew lock rangeLock garbage) trace table)
    (call : Call Key) (condition : CallDecides table call) : Decided table call := by
  rcases run_excludes (fun _ _ keeps => keeps) run with ⟨consistent, excludes⟩
  cases call with
  | checkAndSet nodeId key forWrite now =>
      rcases checkAndSet_cases consistent nodeId key forWrite now with
        ⟨next, answer, equal, outcome⟩
      exact ⟨next, answer, equal, outcome.decides consistent excludes⟩
  | rangeCheckAndSet nodeId fromKey toKey now probe =>
      rcases condition with ⟨⟨keeps, writers, others⟩, seen⟩
      rcases rangeCheckAndSet_cases consistent keeps now with ⟨next, answer, equal, outcome⟩
      exact ⟨next, answer, equal, outcome.decides consistent excludes writers others seen⟩
  | release | releaseRange | releaseAll => trivial

theorem requests_decided_after_one :
    ∃ next answer, gzochidLockCheckAndSet (afterCalls [lockM]) 2 ⟨7, [109]⟩ false 6 =
        some (next, answer) ∧
      Decides (afterCalls [lockM]) next answer
        (PointConflict (afterCalls [lockM]) 2 [109] false) := by
  have first : ExclusionKeeps (afterCalls []) lockM := ⟨trivial, trivial⟩
  exact requests_decided (.snoc .nil first rfl) (.checkAndSet 2 ⟨7, [109]⟩ false 6) trivial

/-- A lock on the range from `a` to `z` is granted over a key that is locked for write. -/
theorem range_over_written_key_granted : ∃ trace table,
    Run lockTableStep anyAction emptyTable trace table ∧ ¬Decided table lockAToZ := by
  rcases exists_run_stateAfter lockTableStep emptyTable [lockM] with ⟨trace, run⟩
  refine ⟨trace, _, run, ?_⟩
  rintro ⟨next, answer, equal, decides⟩
  have granted : (lockTableStep (afterCalls [lockM]) lockAToZ).bind Prod.snd = some .granted := by
    decide
  have isGranted : answer = .granted := by
    change (gzochidLockRangeCheckAndSet (afterCalls [lockM]) _ _ _ _ _) = _ at equal
    simpa [lockTableStep, lockAToZ, equal] using granted
  have different : 1 ≠ 2 := by decide
  have inside : 0 ∈ locksOf (afterCalls [lockM]) 1 := by decide
  have written : ((afterCalls [lockM]).lock 0).forWrite = true := by decide
  refine decides.granted.mp isGranted _ (.key different inside written ⟨?_, ?_⟩)
  · exact WithBot.coe_le_coe.mpr (by decide)
  · exact WithTop.coe_le_coe.mpr (by decide)

end Gzochi.LockMem
