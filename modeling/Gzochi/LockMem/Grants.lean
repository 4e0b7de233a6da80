import Gzochi.Itree.Ends
import Gzochi.LockMem.Checks

/-!
# Which locks can be granted

A lock on a key can be granted to a node that has it already, or when no other node has a lock
that excludes it.  A lock on a range can be granted when no other node has a range that shares a
key with it, or a key in it for write.

Keys that are locked for write are locked by one node in every run, whatever happens to the
interval tree of the locks on ranges; so the request for a lock on a key errs only when the search
in the tree does.
-/

namespace Gzochi.LockMem

open Gzochi.Lib Gzochi.IntervalTree List

universe u

variable {Key : Type u} [LinearOrder Key] {table next : LockTable Key} {nodeId now probe : Nat}
  {key : GBytes Key} {forWrite : Bool} {fromKey toKey : Option (GBytes Key)} {id : LockId}
  {answer : Answer}

/-- A key that is locked for write is locked by one node. -/
def KeysExclude (table : LockTable Key) : Prop :=
  ∀ first second, InKeys table first → InKeys table second →
    (table.lock first).nodeId ≠ (table.lock second).nodeId →
    (table.lock first).forWrite = true →
    (table.lock first).key.content ≠ (table.lock second).key.content

/-- A call that takes out some locks on keys, or none. -/
structure FewerKeys (table next : LockTable Key) : Prop where
  lock : next.lock = table.lock
  inKeys : ∀ id, InKeys next id → InKeys table id

omit [LinearOrder Key] in
theorem OnlyRanges.fewer (only : OnlyRanges table next) : FewerKeys table next where
  lock := only.lock
  inKeys := by
    intro id inside
    unfold InKeys at inside ⊢
    rwa [only.locks] at inside

omit [LinearOrder Key] in
theorem FewerKeys.exclude (fewer : FewerKeys table next) (exclude : KeysExclude table) :
    KeysExclude next := by
  intro first second inFirst inSecond
  rw [fewer.lock]
  exact exclude first second (fewer.inKeys first inFirst) (fewer.inKeys second inSecond)

/-- A new lock on a key does not stand in the way if no other lock on the key excludes it. -/
theorem KeysExclude.registered {lock : Lock Key} {locks : List Locks} (exclude : KeysExclude table)
    (points : PointIndexes table)
    (inKeys : ∀ id, (∃ entry ∈ locks, id ∈ entry.locks) ↔ id = table.allocated ∨ InKeys table id)
    (others : ∀ id, InKeys table id → (table.lock id).key.content = lock.key.content →
      (table.lock id).forWrite = false ∧ lock.forWrite = false) :
    KeysExclude { registerLock table lock with locks := locks } := by
  have new : (registerLock table lock).lock table.allocated = lock := by
    rw [registerLock_lock, if_pos rfl]
  intro first second inFirst inSecond different written same
  change ((registerLock table lock).lock first).nodeId ≠
    ((registerLock table lock).lock second).nodeId at different
  change ((registerLock table lock).lock first).forWrite = true at written
  change ((registerLock table lock).lock first).key.content =
    ((registerLock table lock).lock second).key.content at same
  rcases (inKeys first).mp inFirst with isFirst | inFirst
  · rw [isFirst, new] at different written same
    rcases (inKeys second).mp inSecond with isSecond | inSecond
    · rw [isSecond, new] at different
      exact different rfl
    · rw [points.registerLock_lock_old inSecond] at same
      rw [(others second inSecond same.symm).2] at written
      cases written
  · rw [points.registerLock_lock_old inFirst] at different written same
    rcases (inKeys second).mp inSecond with isSecond | inSecond
    · rw [isSecond, new] at same
      rw [(others first inFirst same).1] at written
      cases written
    · rw [points.registerLock_lock_old inSecond] at different same
      exact exclude first second inFirst inSecond different written same

/-- A lock for write is the only one on its key. -/
theorem KeysExclude.alone {entry : Locks} {first second : LockId} (exclude : KeysExclude table)
    (points : PointIndexes table) (inEntry : entry ∈ table.locks) (inFirst : first ∈ entry.locks)
    (inSecond : second ∈ entry.locks) (written : (table.lock first).forWrite = true) :
    first = second := by
  refine points.single _ inEntry first inFirst second inSecond ?_
  by_contra different
  refine exclude first second ⟨_, inEntry, inFirst⟩ ⟨_, inEntry, inSecond⟩ different written ?_
  rw [points.keyed _ inEntry first inFirst, points.keyed _ inEntry second inSecond]

theorem CheckOutcome.exclude (outcome : CheckOutcome table nodeId key forWrite now next answer)
    (points : PointIndexes table) (exclude : KeysExclude table) : KeysExclude next := by
  cases outcome with
  | kept | excluded | covered => exact exclude
  | @upgraded position id found sole owner searched =>
    have idKey := points.found_key found (show id ∈ position.entry.locks by simp [sole])
    intro first second inFirst inSecond different written
    rw [upgradeLock_nodeId, upgradeLock_nodeId] at different
    rw [upgradeLock_key, upgradeLock_key]
    by_cases isUpgraded : first = id
    · intro sameKey
      rw [isUpgraded, idKey] at sameKey
      have member := points.onKey found inSecond sameKey.symm
      rw [sole, mem_singleton] at member
      exact different (by rw [isUpgraded, member])
    · rw [upgradeLock_lock, if_neg isUpgraded] at written
      exact exclude first second inFirst inSecond different written
  | @shared position found others isRead firstRead =>
    rcases findLocksByKey_some found with ⟨split, _⟩
    have here := entry_mem found
    refine exclude.registered points (inKeys_shareLock table split ⟨nodeId, key, forWrite, now⟩) ?_
    intro id inside sameKey
    refine ⟨?_, isRead⟩
    cases written : (table.lock id).forWrite with
    | false => rfl
    | true =>
      have same := exclude.alone points here (points.onKey found inside sameKey)
        position.entry.first_mem written
      rw [same, firstRead] at written
      cases written
  | created missing searched =>
    refine exclude.registered points (inKeys_newLock table ⟨nodeId, key, forWrite, now⟩) ?_
    intro id inside sameKey
    rcases points.find_of_inKeys inside sameKey with ⟨position, found, _⟩
    rw [missing] at found
    cases found

theorem lockTableStep_exclude {call : Call Key} {observed : Option Answer}
    (points : PointIndexes table) (exclude : KeysExclude table)
    (called : lockTableStep table call = some (next, observed)) : KeysExclude next := by
  cases call with
  | checkAndSet nodeId key forWrite now =>
    obtain ⟨⟨after, answer⟩, equal, same⟩ := Option.map_eq_some_iff.mp called
    cases same
    exact (checkAndSet_outcome equal).exclude points exclude
  | rangeCheckAndSet nodeId fromKey toKey now probe =>
    obtain ⟨⟨after, answer⟩, equal, same⟩ := Option.map_eq_some_iff.mp called
    cases same
    simp only [gzochidLockRangeCheckAndSet] at equal
    split at equal
    next => cases equal
    next =>
      cases equal
      exact exclude
    next =>
      split at equal
      next =>
        cases equal
        exact exclude
      next =>
        split at equal
        next => cases equal
        next =>
          cases equal
          exact exclude
  | release nodeId key =>
    obtain ⟨after, equal, same⟩ := Option.map_eq_some_iff.mp called
    cases same
    simp only [gzochidLockRelease] at equal
    split at equal
    next =>
      cases equal
      exact exclude
    next position found =>
      split at equal
      next =>
        cases equal
        exact exclude
      next id own =>
        have here := entry_mem found
        obtain ⟨removed, isRemoved, _, left, only⟩ :=
          points.removeLock ⟨_, here, mem_of_find?_eq_some own⟩
        rw [equal] at isRemoved
        cases isRemoved
        have fewer : FewerKeys table next :=
          ⟨only.lock, fun id inside => ((left id).mp inside).1⟩
        exact fewer.exclude exclude
  | releaseRange nodeId fromKey toKey =>
    obtain ⟨after, equal, same⟩ := Option.map_eq_some_iff.mp called
    cases same
    simp only [gzochidLockReleaseRange] at equal
    split at equal
    next => cases equal
    next =>
      cases equal
      exact exclude
    next => exact (removeRangeLock_onlyRanges equal).fewer.exclude exclude
  | releaseAll nodeId =>
    obtain ⟨after, equal, same⟩ := Option.map_eq_some_iff.mp called
    cases same
    simp only [gzochidLockReleaseAll] at equal
    split at equal
    next =>
      cases equal
      exact exclude
    next nodeLocks registered =>
      obtain ⟨middle, removed, _, only, _, left⟩ := foreach_registered points registered
      have fewer : FewerKeys table middle :=
        ⟨only.lock, fun id inside => ((left id).mp inside).1⟩
      simp only [removed] at equal
      split at equal
      next =>
        cases equal
        exact fewer.exclude exclude
      next => exact (foreach_onlyRanges equal).fewer.exclude (fewer.exclude exclude)

theorem Reached.exclude (reached : Reached table) : KeysExclude table := by
  obtain ⟨lock, rangeLock, garbage, trace, run⟩ := reached
  have both : PointIndexes table ∧ KeysExclude table := by
    apply run.state_invariant fun table => PointIndexes table ∧ KeysExclude table
    · refine ⟨(consistent_new lock rangeLock garbage).points, ?_⟩
      intro first second inFirst
      obtain ⟨entry, member, _⟩ := inFirst
      cases member
    · exact fun holds _ called => ⟨lockTableStep_points holds.1 called,
        lockTableStep_exclude holds.1 holds.2 called⟩
  exact both.2

/-- The node has a lock on the key that is enough. -/
def HoldsPoint (table : LockTable Key) (nodeId : Nat) (key : Key) (forWrite : Bool) : Prop :=
  ∃ id ∈ locksOf table nodeId, (table.lock id).key.content = key ∧
    (forWrite = true → (table.lock id).forWrite = true)

/-- No other node has a lock that excludes one on the key. -/
structure PointFree (table : LockTable Key) (nodeId : Nat) (key : Key) (forWrite : Bool) :
    Prop where
  keys : ∀ other id, other ≠ nodeId → id ∈ locksOf table other →
    (table.lock id).key.content = key → forWrite = false ∧ (table.lock id).forWrite = false
  ranges : forWrite = true → ∀ other range, other ≠ nodeId → range ∈ rangeLocksOf table other →
    ¬RangeCovers table range key

def PointGrantable (table : LockTable Key) (nodeId : Nat) (key : Key) (forWrite : Bool) : Prop :=
  HoldsPoint table nodeId key forWrite ∨ PointFree table nodeId key forWrite

/-- A key lies between two bounds. -/
def Between (fromKey toKey : Option (GBytes Key)) (key : Key) : Prop :=
  nullOrder.lower fromKey ≤ (key : WithBot Key) ∧ (key : WithTop Key) ≤ nullOrder.upper toKey

/-- No other node has a lock that excludes one on the range. -/
structure RangeGrantable (table : LockTable Key) (nodeId : Nat)
    (fromKey toKey : Option (GBytes Key)) : Prop where
  ranges : ∀ other range, other ≠ nodeId → range ∈ rangeLocksOf table other →
    ¬∃ key, RangeCovers table range key ∧ Between fromKey toKey key
  keys : ∀ other id, other ≠ nodeId → id ∈ locksOf table other →
    (table.lock id).forWrite = true → ¬Between fromKey toKey (table.lock id).key.content

/-- Where a key to write is not locked yet, the search for ranges over it ends, and comes to none
of another node. -/
def CoveringUnseen (table : LockTable Key) (nodeId : Nat) (key : GBytes Key)
    (forWrite : Bool) : Prop :=
  HoldsPoint table nodeId key.content forWrite ∨ forWrite = false ∨
    WalkEnds table.rangeLocks (prunedPoint nullOrder (some key)) ∧
      ∀ node, Visited table.rangeLocks (prunedPoint nullOrder (some key)) node →
        meetsPoint nullOrder (some key) (table.rangeLocks.node node) = true →
        (table.rangeLock (table.rangeLocks.node node).data).nodeId = nodeId

/-- A lock on a range of another node. -/
def foreign (table : LockTable Key) (nodeId : Nat)
    (node : IntervalTree.Node (Option (GBytes Key)) LockId) : Bool :=
  decide ((table.rangeLock node.data).nodeId ≠ nodeId)

omit [LinearOrder Key] in
theorem foreign_eq_false {node : IntervalTree.Node (Option (GBytes Key)) LockId} :
    foreign table nodeId node = false ↔ (table.rangeLock node.data).nodeId = nodeId := by
  simp [foreign]

theorem takes_covering :
    Takes (findMostRecentCoveringRangeLock table nodeId) (foreign table nodeId) where
  misses node own := by simp [findMostRecentCoveringRangeLock, foreign_eq_false.mp own]
  finds node other := by
    have apart : (table.rangeLock node.data).nodeId ≠ nodeId := of_decide_eq_true other
    simp [findMostRecentCoveringRangeLock, apart]
  keeps node found taken := by
    rcases findMostRecentCoveringRangeLock_cases table nodeId found node with kept | ⟨taken, _⟩
    · rwa [kept]
    · rw [taken]
      exact Option.some_ne_none _

theorem covering_none_iff : mostRecentCoveringRangeLock table key nodeId = some none ↔
    WalkEnds table.rangeLocks (prunedPoint nullOrder (some key)) ∧
      ∀ node, Visited table.rangeLocks (prunedPoint nullOrder (some key)) node →
        meetsPoint nullOrder (some key) (table.rangeLocks.node node) = true →
        (table.rangeLock (table.rangeLocks.node node).data).nodeId = nodeId := by
  simp only [mostRecentCoveringRangeLock, gzochidItreeSearch, takes_covering.search_none_iff,
    foreign_eq_false]

/-- A lock on a key that can be granted is granted unless the search gets in the way. -/
theorem checkAndSet_granted_iff (points : PointIndexes table)
    (grantable : PointGrantable table nodeId key.content forWrite) :
    (∃ next, gzochidLockCheckAndSet table nodeId key forWrite now = some (next, .granted)) ↔
      CoveringUnseen table nodeId key forWrite := by
  simp only [gzochidLockCheckAndSet, CoveringUnseen, ← covering_none_iff]
  cases found : findLocksByKey table key with
  | none =>
    have notHeld : ¬HoldsPoint table nodeId key.content forWrite := by
      rintro ⟨id, own, sameKey, _⟩
      rcases points.find_of_inKeys ((points.nodes nodeId id).mp own).1 sameKey with
        ⟨position, other, _⟩
      rw [found] at other
      cases other
    cases forWrite with
    | false => simp
    | true =>
      cases searched : mostRecentCoveringRangeLock table key nodeId with
      | none => simp [notHeld]
      | some covering => cases covering <;> simp [notHeld]
  | some position =>
    have here := entry_mem found
    have keyed : ∀ id ∈ position.entry.locks, (table.lock id).key.content = key.content :=
      fun id inside => points.found_key found inside
    have listed : ∀ id ∈ position.entry.locks, id ∈ locksOf table (table.lock id).nodeId :=
      fun id inside => (points.nodes _ id).mpr ⟨⟨_, here, inside⟩, rfl⟩
    simp only
    cases own : position.entry.locks.find? fun id =>
        decide ((table.lock id).nodeId = nodeId) with
    | none =>
      have others : ∀ id ∈ position.entry.locks, (table.lock id).nodeId ≠ nodeId := by
        intro id inside
        simpa using List.find?_eq_none.mp own id inside
      have notHeld : ¬HoldsPoint table nodeId key.content forWrite := by
        rintro ⟨id, mine, sameKey, _⟩
        obtain ⟨inside, owner⟩ := (points.nodes nodeId id).mp mine
        exact others id (points.onKey found inside sameKey) owner
      have first := position.entry.first_mem
      obtain ⟨isRead, firstRead⟩ := (grantable.resolve_left notHeld).keys _ _
        (others _ first) (listed _ first) (keyed _ first)
      simp [isRead, firstRead]
    | some existing =>
      have inside := mem_of_find?_eq_some own
      have owner : (table.lock existing).nodeId = nodeId := by
        simpa using List.find?_some own
      have mine : existing ∈ locksOf table nodeId := owner ▸ listed existing inside
      simp only
      split
      next enough =>
        have held : HoldsPoint table nodeId key.content forWrite := by
          refine ⟨existing, mine, keyed existing inside, ?_⟩
          intro isWrite
          simpa [isWrite] using enough
        simp [held]
      next upgrade =>
        simp only [not_or, Bool.not_eq_true, Bool.not_eq_false] at upgrade
        have notHeld : ¬HoldsPoint table nodeId key.content forWrite := by
          rintro ⟨id, isMine, sameKey, enough⟩
          obtain ⟨live, idOwner⟩ := (points.nodes nodeId id).mp isMine
          have same := points.single _ here id (points.onKey found live sameKey) existing
            inside (idOwner.trans owner.symm)
          have written := enough (by simpa using upgrade.2)
          rw [same, upgrade.1] at written
          cases written
        have free := grantable.resolve_left notHeld
        -- Another lock on the key would be in the way.
        have alone : ¬position.entry.locks.length > 1 := by
          intro several
          have onlyOwn : position.entry.locks ⊆ [existing] := by
            intro id inOther
            by_cases same : (table.lock id).nodeId = nodeId
            · exact mem_singleton.mpr (points.single _ here id inOther existing inside
                (same.trans owner.symm))
            · have excluded := (free.keys _ id same (listed id inOther) (keyed id inOther)).1
              simp [excluded] at upgrade
          have few := ((points.nodup _ here).subperm onlyOwn).length_le
          simp only [length_singleton] at few
          omega
        rw [if_neg alone]
        have isWrite : forWrite = true := by simpa using upgrade.2
        subst isWrite
        cases searched : mostRecentCoveringRangeLock table key nodeId with
        | none => simp [notHeld]
        | some covering => cases covering <;> simp [notHeld]

/-- If the lower bound itself is locked, no other node has a key for write from there on, even
beyond the upper bound; without a lower bound, none of the keys from some place on. -/
def ScanPasses (table : LockTable Key) (nodeId : Nat) (probe : Nat) :
    Option (GBytes Key) → Prop
  | some key =>
      (∃ id, InKeys table id ∧ (table.lock id).key.content = key.content) →
        ∀ other id, other ≠ nodeId → id ∈ locksOf table other →
          (table.lock id).forWrite = true → ¬key.content ≤ (table.lock id).key.content
  | none => ∀ entry ∈ table.locks.drop (probe % table.locks.length),
      writtenByOther table nodeId entry = false

theorem scanned_null (table : LockTable Key) (probe : Nat) :
    scanned table none probe = table.locks.drop (probe % table.locks.length) := by
  simp only [scanned, findLocksByNull]
  split
  next none =>
    split at none
    next empty => rw [empty]
    next => cases none
  next position found =>
    split at found
    next => cases found
    next entry after equal =>
      injection found with same
      rw [equal, ← same]

/-- The entries from the lower bound on. -/
theorem scanned_spec (points : PointIndexes table) (fromKey : Option (GBytes Key)) (probe : Nat) :
    scanned table fromKey probe <:+ table.locks ∧ ∀ entry ∈ scanned table fromKey probe,
        nullOrder.lower fromKey ≤ (table.entryKey entry : WithBot Key) := by
  cases fromKey with
  | none =>
    rw [scanned_null]
    exact ⟨drop_suffix _ _, fun _ _ => bot_le⟩
  | some key =>
    cases found : findLocksByKey table key with
    | none => simp [scanned, found]
    | some position =>
      rcases findLocksByKey_some found with ⟨split, entryKey⟩
      simp only [scanned, found]
      refine ⟨⟨position.before, split.symm⟩, fun entry inside => ?_⟩
      change (key.content : WithBot Key) ≤ _
      rw [← entryKey]
      apply WithBot.coe_le_coe.mpr
      cases mem_cons.mp inside with
      | inl same => rw [same]
      | inr later => exact ((points.around split).2 entry later).le

omit [LinearOrder Key] in
theorem writtenByOther_iff {entry : Locks} : writtenByOther table nodeId entry = true ↔
    (table.lock entry.first).forWrite = true ∧ (table.lock entry.first).nodeId ≠ nodeId := by
  unfold writtenByOther
  rw [Bool.and_eq_true, decide_eq_true_iff]

theorem scan_none_iff (points : PointIndexes table) (exclude : KeysExclude table) :
    (scanned table fromKey probe).find? (writtenByOther table nodeId) = none ↔
      ScanPasses table nodeId probe fromKey := by
  cases fromKey with
  | none =>
    rw [scanned_null, List.find?_eq_none]
    simp only [ScanPasses, Bool.not_eq_true]
  | some key =>
    unfold ScanPasses
    cases found : findLocksByKey table key with
    | none =>
      have nothing : scanned table (some key) probe = [] := by simp only [scanned, found]
      rw [nothing, List.find?_nil]
      simp only [true_iff]
      rintro ⟨id, live, sameKey⟩
      rcases points.find_of_inKeys live sameKey with ⟨position, other, _⟩
      rw [found] at other
      cases other
    | some position =>
      rcases findLocksByKey_some found with ⟨split, entryKey⟩
      have smaller := (points.around split).1
      have entries : scanned table (some key) probe = position.entry :: position.after := by
        simp only [scanned, found]
      have spec := scanned_spec points (some key) probe
      rw [entries] at spec
      have members : ∀ entry ∈ position.entry :: position.after, entry ∈ table.locks :=
        fun entry inside => spec.1.subset inside
      rw [entries, List.find?_eq_none]
      constructor
      · intro passes _ other id different own written beyond
        obtain ⟨⟨entry, inTable, inside⟩, owner⟩ := (points.nodes other id).mp own
        have later : entry ∈ position.entry :: position.after := by
          rw [split] at inTable
          cases mem_append.mp inTable with
          | inl early =>
            have below := smaller entry early
            rw [entryKey, ← points.keyed entry (by rw [split]; exact inTable) id inside] at below
            exact absurd beyond (not_le.mpr below)
          | inr later => exact later
        have alone := exclude.alone points (members entry later) inside entry.first_mem written
        refine passes entry later (writtenByOther_iff.mpr ?_)
        rw [← alone, owner]
        exact ⟨written, different⟩
      · intro passes entry inside seen
        obtain ⟨written, different⟩ := writtenByOther_iff.mp seen
        have inTable := members entry inside
        have live : InKeys table entry.first := ⟨entry, inTable, entry.first_mem⟩
        have start : ∃ id, InKeys table id ∧ (table.lock id).key.content = key.content :=
          ⟨_, ⟨_, members _ mem_cons_self, position.entry.first_mem⟩, entryKey⟩
        exact passes start _ _ different ((points.nodes _ _).mpr ⟨live, rfl⟩) written
          (WithBot.coe_le_coe.mp (spec.2 entry inside))

/-- The search for ranges in the way ends, and comes to none of another node; and the scan
passes. -/
structure RangeUnseen (table : LockTable Key) (nodeId : Nat)
    (fromKey toKey : Option (GBytes Key)) (probe : Nat) : Prop where
  ends : WalkEnds table.rangeLocks (prunedInterval nullOrder fromKey toKey)
  ranges : ∀ node, Visited table.rangeLocks (prunedInterval nullOrder fromKey toKey) node →
    meetsInterval nullOrder fromKey toKey (table.rangeLocks.node node) = true →
    (table.rangeLock (table.rangeLocks.node node).data).nodeId = nodeId
  scan : ScanPasses table nodeId probe fromKey

/-- The pointers of the tree of ranges are in order. -/
def Untangled (table : LockTable Key) : Prop := ∃ shape, PointerTree table.rangeLocks shape

theorem overlapping_none_iff : overlappingRangeLock table nodeId fromKey toKey = some none ↔
    WalkEnds table.rangeLocks (prunedInterval nullOrder fromKey toKey) ∧
      ∀ node, Visited table.rangeLocks (prunedInterval nullOrder fromKey toKey) node →
        meetsInterval nullOrder fromKey toKey (table.rangeLocks.node node) = true →
        (table.rangeLock (table.rangeLocks.node node).data).nodeId = nodeId := by
  have takes : Takes (findOverlappingRangeLock table nodeId) (foreign table nodeId) := by
    rw [findOverlappingRangeLock_eq]
    exact takes_stopAt _
  simp only [overlappingRangeLock, gzochidItreeSearchInterval, takes.search_none_iff,
    foreign_eq_false]

/-- A range is granted only when nothing is seen in the way. -/
theorem RangeUnseen.of_granted (points : PointIndexes table) (exclude : KeysExclude table)
    (called : gzochidLockRangeCheckAndSet table nodeId fromKey toKey now probe =
      some (next, .granted)) : RangeUnseen table nodeId fromKey toKey probe := by
  simp only [gzochidLockRangeCheckAndSet] at called
  split at called
  next => cases called
  next => cases called
  next searched =>
    split at called
    next => cases called
    next scan =>
      obtain ⟨ends, ranges⟩ := overlapping_none_iff.mp searched
      exact ⟨ends, ranges, (scan_none_iff points exclude).mp scan⟩

/-- And it is, as long as the tree is in order. -/
theorem RangeUnseen.granted (unseen : RangeUnseen table nodeId fromKey toKey probe)
    (points : PointIndexes table) (exclude : KeysExclude table) (untangled : Untangled table)
    (now : Nat) : ∃ next, gzochidLockRangeCheckAndSet table nodeId fromKey toKey now probe =
      some (next, .granted) := by
  obtain ⟨shape, pointers⟩ := untangled
  obtain ⟨rangeLocks, inserted⟩ :=
    pointers.exists_insert nullOrder fromKey toKey table.allocated
  simp only [gzochidLockRangeCheckAndSet, overlapping_none_iff.mpr ⟨unseen.ends, unseen.ranges⟩,
    (scan_none_iff points exclude).mpr unseen.scan, inserted]
  exact ⟨_, rfl⟩

/-- The lock that is recorded is on that very range. -/
theorem rangeCheckAndSet_recorded
    (called : gzochidLockRangeCheckAndSet table nodeId fromKey toKey now probe =
      some (next, .granted)) :
    rangeLocksOf next nodeId = table.allocated :: rangeLocksOf table nodeId ∧
      next.rangeLock table.allocated = ⟨nodeId, fromKey, toKey, now⟩ := by
  simp only [gzochidLockRangeCheckAndSet] at called
  split at called
  next => cases called
  next => cases called
  next =>
    split at called
    next => cases called
    next =>
      split at called
      next => cases called
      next rangeLocks inserted =>
        cases called
        rw [rangeLocksOf_newRangeLock, if_pos rfl, newRangeLock_rangeLock, if_pos rfl]
        exact ⟨rfl, rfl⟩

end Gzochi.LockMem
