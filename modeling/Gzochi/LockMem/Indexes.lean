import Gzochi.Itree.Insert
import Gzochi.Itree.Remove
import Gzochi.LockMem.Model

/-!
# The indexes of the lock table

Each lock is kept in several indexes: a lock on a key in the sequence of keys, in a
timestamp sequence and in the list of its node; a lock on a range in the interval tree,
in a timestamp sequence and in the list of its node.  `PointIndexes` and `RangeIndexes`
say that these indexes describe the same locks, and every operation is shown to keep
them in step.
-/

namespace Gzochi.LockMem

open Gzochi.Lib Gzochi.IntervalTree List LockTable

universe u

variable {Key : Type u}

section Sequences

variable {Element : Type} {Rank : Type u}

theorem insertSorted_perm [LT Rank] [DecidableLT Rank] (rank : Element → Rank) (element : Element)
    (list : List Element) :
    (insertSorted rank element list).Perm (element :: list) := by
  induction list with
  | nil => exact .refl _
  | cons other rest ih =>
    simp only [insertSorted]
    split
    next => exact .refl _
    next => exact (ih.cons other).trans (.swap element other rest)

theorem insertSorted_sorted [LinearOrder Rank] {rank : Element → Rank} {element : Element}
    {list : List Element} (sorted : list.Pairwise fun first second => rank first < rank second)
    (apart : ∀ other ∈ list, rank other ≠ rank element) :
    (insertSorted rank element list).Pairwise fun first second => rank first < rank second := by
  induction list with
  | nil => simp [insertSorted]
  | cons other rest ih =>
    rcases pairwise_cons.mp sorted with ⟨least, restSorted⟩
    simp only [insertSorted]
    split
    next less =>
      refine pairwise_cons.mpr ⟨?_, sorted⟩
      intro later member
      rcases mem_cons.mp member with same | member
      · exact same ▸ less
      · exact less.trans (least later member)
    next notLess =>
      refine pairwise_cons.mpr
        ⟨?_, ih restSorted fun later member => apart later (by simp [member])⟩
      intro later member
      rcases mem_cons.mp ((insertSorted_perm rank element rest).mem_iff.mp member) with
        same | member
      · exact same ▸ lt_of_le_of_ne (not_lt.mp notLess) (apart other (by simp))
      · exact least later member

variable {test : Locks → Bool} {list : List Locks}

/-- What a position found in a sequence says about it. -/
theorem findPosition_some {position : Position} (found : findPosition test list = some position) :
    list = position.before ++ position.entry :: position.after ∧ test position.entry = true := by
  induction list generalizing position with
  | nil => cases found
  | cons entry rest ih =>
    simp only [findPosition] at found
    split at found
    next holds =>
      cases found
      exact ⟨rfl, holds⟩
    next =>
      rcases Option.map_eq_some_iff.mp found with ⟨inner, equal, same⟩
      subst same
      rcases ih equal with ⟨split, holds⟩
      exact ⟨by simp [← split], holds⟩

theorem findPosition_none (missing : findPosition test list = none) :
    ∀ entry ∈ list, test entry = false := by
  induction list with
  | nil => simp
  | cons entry rest ih =>
    simp only [findPosition] at missing
    split at missing
    next => cases missing
    next fails =>
      intro other member
      rcases mem_cons.mp member with same | member
      · subst same
        simpa using fails
      · exact ih (Option.map_eq_none_iff.mp missing) other member

end Sequences

section Owners

variable {Entry : Type u} {owner : Entry → Nat} {entry : Entry} {entries : LockId → Entry}
  {held : LockId → Prop} {new : LockId} {nodeId : Nat} {owned : List LockId}
  (nodes : ∀ id, id ∈ owned ↔ held id ∧ owner (entries id) = nodeId) (fresh : ¬held new)
include nodes fresh

/-- What a node owns when there is a new lock. -/
theorem mem_owned (id : LockId) : (id ∈ if nodeId = owner entry then new :: owned else owned) ↔
    (id = new ∨ held id) ∧ owner (if id = new then entry else entries id) = nodeId := by
  by_cases isNew : id = new
  · subst isNew
    have missing : id ∉ owned := fun member => fresh ((nodes id).mp member).1
    simp only [if_true, true_or, true_and]
    split
    next same => simp [same]
    next different => simp [missing, Ne.symm different]
  · simp only [isNew, if_false, false_or]
    rw [← nodes id]
    split
    next => simp [isNew]
    next => rfl

theorem nodup_owned (nodup : owned.Nodup) :
    (if nodeId = owner entry then new :: owned else owned).Nodup := by
  split
  next => exact nodup_cons.mpr ⟨fun member => fresh ((nodes _).mp member).1, nodup⟩
  next => exact nodup

end Owners

/-- The lock is in the sequence of locks by key. -/
def InKeys (table : LockTable Key) (id : LockId) : Prop :=
  ∃ entry ∈ table.locks, id ∈ entry.locks

/-- The locks on keys in the list of a node. -/
def locksOf (table : LockTable Key) (nodeId : Nat) : List LockId :=
  (table.ensureNodeRegistration nodeId).locks

/-- The locks on ranges in the list of a node. -/
def rangeLocksOf (table : LockTable Key) (nodeId : Nat) : List LockId :=
  (table.ensureNodeRegistration nodeId).rangeLocks

variable [LinearOrder Key]

/-- The indexes of locks on keys describe the same locks, of which a node has at most
one on each key. -/
structure PointIndexes (table : LockTable Key) : Prop where
  sorted : table.locks.Pairwise fun first second =>
    table.entryKey first < table.entryKey second
  keyed : ∀ entry ∈ table.locks, ∀ id ∈ entry.locks,
    (table.lock id).key.content = table.entryKey entry
  single : ∀ entry ∈ table.locks, ∀ first ∈ entry.locks, ∀ second ∈ entry.locks,
    (table.lock first).nodeId = (table.lock second).nodeId → first = second
  nodup : ∀ entry ∈ table.locks, entry.locks.Nodup
  timestamps : ∀ id, id ∈ table.locksByTimestamp ↔ InKeys table id
  timestampsNodup : table.locksByTimestamp.Nodup
  nodes : ∀ nodeId id, id ∈ locksOf table nodeId ↔
    InKeys table id ∧ (table.lock id).nodeId = nodeId
  nodesNodup : ∀ nodeId, (locksOf table nodeId).Nodup
  allocated : ∀ id, InKeys table id → id < table.allocated

/-- The bounds of a lock as the interval tree compares them. -/
def rangeLower (table : LockTable Key) (id : LockId) : WithBot Key :=
  nullOrder.lower (table.rangeLock id).fromKey

def rangeUpper (table : LockTable Key) (id : LockId) : WithTop Key :=
  nullOrder.upper (table.rangeLock id).toKey

/-- The map from ranges to locks that the interval tree has to stand for. -/
def Describes (table : LockTable Key)
    (contents : Contents (WithBot Key) (WithTop Key) LockId) : Prop :=
  ∀ lower upper id, contents lower upper = some id ↔
    id ∈ table.rangeLocksByTimestamp ∧ rangeLower table id = lower ∧
      rangeUpper table id = upper

/-- The indexes of locks on ranges describe the same locks. -/
structure RangeIndexes (table : LockTable Key) : Prop where
  tree : ∃ shape contents, Sound nullOrder table.rangeLocks shape contents ∧
    Covered nullOrder table.rangeLocks shape ∧ Describes table contents
  timestampsNodup : table.rangeLocksByTimestamp.Nodup
  nodes : ∀ nodeId id, id ∈ rangeLocksOf table nodeId ↔
    id ∈ table.rangeLocksByTimestamp ∧ (table.rangeLock id).nodeId = nodeId
  nodesNodup : ∀ nodeId, (rangeLocksOf table nodeId).Nodup
  allocated : ∀ id ∈ table.rangeLocksByTimestamp, id < table.allocated

section Frame

variable {table next : LockTable Key}

omit [LinearOrder Key] in
theorem locksOf_setNodeLocks (table : LockTable Key) (nodeId : Nat)
    (nodeLocks : Option NodeLocks) (other : Nat) :
    locksOf (table.setNodeLocks nodeId nodeLocks) other =
      if other = nodeId then (nodeLocks.getD ⟨[], []⟩).locks else locksOf table other := by
  simp only [locksOf, ensureNodeRegistration, setNodeLocks]
  split
  next => rfl
  next => rfl

omit [LinearOrder Key] in
theorem rangeLocksOf_setNodeLocks (table : LockTable Key) (nodeId : Nat)
    (nodeLocks : Option NodeLocks) (other : Nat) :
    rangeLocksOf (table.setNodeLocks nodeId nodeLocks) other =
      if other = nodeId then (nodeLocks.getD ⟨[], []⟩).rangeLocks
      else rangeLocksOf table other := by
  simp only [rangeLocksOf, ensureNodeRegistration, setNodeLocks]
  split
  next => rfl
  next => rfl

theorem getD_deregister (nodeLocks : NodeLocks) :
    (deregister nodeLocks).getD ⟨[], []⟩ = nodeLocks := by
  rcases nodeLocks with ⟨locks, rangeLocks⟩
  cases locks with
  | nil =>
    cases rangeLocks with
    | nil => rfl
    | cons => rfl
  | cons => rfl

/-- Operations on keys leave the indexes of ranges alone. -/
theorem RangeIndexes.frame (indexes : RangeIndexes table)
    (rangeLock : next.rangeLock = table.rangeLock) (tree : next.rangeLocks = table.rangeLocks)
    (timestamps : next.rangeLocksByTimestamp = table.rangeLocksByTimestamp)
    (nodes : ∀ nodeId, rangeLocksOf next nodeId = rangeLocksOf table nodeId)
    (allocated : table.allocated ≤ next.allocated) : RangeIndexes next where
  tree := by
    rcases indexes.tree with ⟨shape, contents, sound, covered, describes⟩
    refine ⟨shape, contents, tree ▸ sound, tree ▸ covered, ?_⟩
    simp only [Describes, rangeLower, rangeUpper, rangeLock, timestamps]
    exact describes
  timestampsNodup := timestamps ▸ indexes.timestampsNodup
  nodes nodeId id := by
    rw [nodes, timestamps, rangeLock]
    exact indexes.nodes nodeId id
  nodesNodup nodeId := by
    rw [nodes]
    exact indexes.nodesNodup nodeId
  allocated id member := by
    rw [timestamps] at member
    exact Nat.lt_of_lt_of_le (indexes.allocated id member) allocated

/-- Operations on ranges leave the indexes of keys alone. -/
theorem PointIndexes.frame (indexes : PointIndexes table)
    (lock : next.lock = table.lock) (locks : next.locks = table.locks)
    (timestamps : next.locksByTimestamp = table.locksByTimestamp)
    (nodes : ∀ nodeId, locksOf next nodeId = locksOf table nodeId)
    (allocated : table.allocated ≤ next.allocated) : PointIndexes next where
  sorted := by
    simp only [LockTable.entryKey, lock, locks]
    exact indexes.sorted
  keyed := by
    simp only [LockTable.entryKey, lock, locks]
    exact indexes.keyed
  single := by
    simp only [lock, locks]
    exact indexes.single
  nodup := locks ▸ indexes.nodup
  timestamps := by
    simp only [InKeys, timestamps, locks]
    exact indexes.timestamps
  timestampsNodup := timestamps ▸ indexes.timestampsNodup
  nodes := by
    simp only [nodes, InKeys, locks, lock]
    exact indexes.nodes
  nodesNodup nodeId := by
    rw [nodes]
    exact indexes.nodesNodup nodeId
  allocated id member := by
    simp only [InKeys, locks] at member
    exact Nat.lt_of_lt_of_le (indexes.allocated id member) allocated

end Frame

section Keys

variable {table : LockTable Key} {key : GBytes Key} {lock : Lock Key} {id : LockId}
  {position : Position}

theorem findLocksByKey_some (found : findLocksByKey table key = some position) :
    table.locks = position.before ++ position.entry :: position.after ∧
      table.entryKey position.entry = key.content := by
  rcases findPosition_some found with ⟨split, holds⟩
  exact ⟨split, of_decide_eq_true holds⟩

theorem entry_mem (found : findLocksByKey table key = some position) :
    position.entry ∈ table.locks := by
  rw [(findLocksByKey_some found).1]
  exact mem_append_right _ mem_cons_self

theorem findLocksByKey_none (missing : findLocksByKey table key = none) :
    ∀ entry ∈ table.locks, table.entryKey entry ≠ key.content := by
  intro entry member
  exact of_decide_eq_false (findPosition_none missing entry member)

omit [LinearOrder Key] in
theorem Locks.first_mem (entry : Locks) : entry.first ∈ entry.locks := by
  simp [Locks.locks]

omit [LinearOrder Key] in
theorem exists_mem_split (before after : List Locks) (entry : Locks) (id : LockId) :
    (∃ other ∈ before ++ entry :: after, id ∈ other.locks) ↔
      (∃ other ∈ before, id ∈ other.locks) ∨ id ∈ entry.locks ∨
        ∃ other ∈ after, id ∈ other.locks := by
  simp only [mem_append, mem_cons, or_and_right, exists_or, exists_eq_left]

variable (table)

omit [LinearOrder Key] in
theorem locksOf_registerLock (lock : Lock Key) (nodeId : Nat) :
    locksOf (registerLock table lock) nodeId =
      if nodeId = lock.nodeId then table.allocated :: locksOf table nodeId
      else locksOf table nodeId := by
  change locksOf (({ table.setLock table.allocated lock with
    allocated := table.allocated + 1 } : LockTable Key).setNodeLocks lock.nodeId _) nodeId = _
  rw [locksOf_setNodeLocks]
  split
  next same =>
    subst same
    rfl
  next => rfl

omit [LinearOrder Key] in
theorem rangeLocksOf_registerLock (lock : Lock Key) (nodeId : Nat) :
    rangeLocksOf (registerLock table lock) nodeId = rangeLocksOf table nodeId := by
  change rangeLocksOf (({ table.setLock table.allocated lock with
    allocated := table.allocated + 1 } : LockTable Key).setNodeLocks lock.nodeId _) nodeId = _
  rw [rangeLocksOf_setNodeLocks]
  split
  next same =>
    subst same
    rfl
  next => rfl

omit [LinearOrder Key] in
theorem registerLock_lock (lock : Lock Key) (id : LockId) :
    (registerLock table lock).lock id = if id = table.allocated then lock else table.lock id :=
  rfl

omit [LinearOrder Key] in
theorem upgradeLock_lock (id other : LockId) (now : Nat) :
    (upgradeLock table id now).lock other =
      if other = id then { table.lock id with forWrite := true, timestamp := now }
      else table.lock other := rfl

omit [LinearOrder Key] in
theorem upgradeLock_nodeId (id other : LockId) (now : Nat) :
    ((upgradeLock table id now).lock other).nodeId = (table.lock other).nodeId := by
  rw [upgradeLock_lock]
  split
  next same => rw [same]
  next => rfl

omit [LinearOrder Key] in
theorem upgradeLock_key (id other : LockId) (now : Nat) :
    ((upgradeLock table id now).lock other).key = (table.lock other).key := by
  rw [upgradeLock_lock]
  split
  next same => rw [same]
  next => rfl

theorem inKeys_newLock (lock : Lock Key) :
    ∀ id, InKeys (newLock table lock) id ↔ id = table.allocated ∨ InKeys table id := by
  intro id
  have perm : (newLock table lock).locks.Perm (⟨table.allocated, []⟩ :: table.locks) :=
    insertSorted_perm _ _ _
  simp only [InKeys, perm.mem_iff, mem_cons, exists_eq_or_imp]
  simp [Locks.locks]

omit [LinearOrder Key] in
theorem inKeys_shareLock
    (split : table.locks = position.before ++ position.entry :: position.after)
    (lock : Lock Key) :
    ∀ id, InKeys (shareLock table position lock) id ↔ id = table.allocated ∨ InKeys table id := by
  intro id
  have shared : id ∈ (⟨table.allocated, position.entry.locks⟩ : Locks).locks ↔
      id = table.allocated ∨ id ∈ position.entry.locks := by simp [Locks.locks]
  change (∃ entry ∈ position.before ++ ⟨table.allocated, position.entry.locks⟩ :: position.after,
    id ∈ entry.locks) ↔ _
  rw [InKeys, split, exists_mem_split, exists_mem_split, shared]
  constructor
  · rintro (early | (isNew | inside) | late)
    · exact .inr (.inl early)
    · exact .inl isNew
    · exact .inr (.inr (.inl inside))
    · exact .inr (.inr (.inr late))
  · rintro (isNew | early | inside | late)
    · exact .inr (.inl (.inl isNew))
    · exact .inl early
    · exact .inr (.inl (.inr inside))
    · exact .inr (.inr late)

variable {table}

namespace PointIndexes

variable (indexes : PointIndexes table)
include indexes

theorem registerLock_lock_old {id : LockId} (member : InKeys table id) :
    (registerLock table lock).lock id = table.lock id := by
  rw [registerLock_lock, if_neg (Nat.ne_of_lt (indexes.allocated id member))]

theorem registerLock_entryKey {entry : Locks} (member : entry ∈ table.locks) :
    (registerLock table lock).entryKey entry = table.entryKey entry := by
  simp only [LockTable.entryKey]
  rw [indexes.registerLock_lock_old ⟨entry, member, entry.first_mem⟩]

/-- A new lock is in step in all indexes once the sequence of keys has it. -/
theorem registered {locks : List Locks}
    (inKeys : ∀ id, (∃ entry ∈ locks, id ∈ entry.locks) ↔ id = table.allocated ∨ InKeys table id)
    (sorted : locks.Pairwise fun first second =>
      (registerLock table lock).entryKey first < (registerLock table lock).entryKey second)
    (keyed : ∀ entry ∈ locks, ∀ id ∈ entry.locks,
      ((registerLock table lock).lock id).key.content = (registerLock table lock).entryKey entry)
    (single : ∀ entry ∈ locks, ∀ first ∈ entry.locks, ∀ second ∈ entry.locks,
      ((registerLock table lock).lock first).nodeId =
        ((registerLock table lock).lock second).nodeId → first = second)
    (nodup : ∀ entry ∈ locks, entry.locks.Nodup) :
    PointIndexes { registerLock table lock with locks := locks } := by
  have fresh : ¬InKeys table table.allocated := fun member =>
    Nat.lt_irrefl _ (indexes.allocated _ member)
  have perm : (registerLock table lock).locksByTimestamp.Perm
      (table.allocated :: table.locksByTimestamp) := insertSorted_perm _ _ _
  refine ⟨sorted, keyed, single, nodup, ?_, ?_, ?_, ?_, ?_⟩
  · intro id
    change id ∈ (registerLock table lock).locksByTimestamp ↔ _
    rw [perm.mem_iff, mem_cons, indexes.timestamps]
    exact (inKeys id).symm
  · refine perm.nodup_iff.mpr (nodup_cons.mpr ⟨?_, indexes.timestampsNodup⟩)
    rw [indexes.timestamps]
    exact fresh
  · intro nodeId id
    change id ∈ locksOf (registerLock table lock) nodeId ↔
      (∃ entry ∈ locks, id ∈ entry.locks) ∧ ((registerLock table lock).lock id).nodeId = nodeId
    rw [locksOf_registerLock, inKeys, registerLock_lock]
    exact mem_owned (indexes.nodes nodeId) fresh id
  · intro nodeId
    change (locksOf (registerLock table lock) nodeId).Nodup
    rw [locksOf_registerLock]
    exact nodup_owned (indexes.nodes nodeId) fresh (indexes.nodesNodup nodeId)
  · intro id member
    change id < table.allocated + 1
    rcases (inKeys id).mp member with isNew | old
    · exact isNew ▸ Nat.lt_succ_self _
    · exact Nat.lt_succ_of_lt (indexes.allocated id old)

/-- Locking a key that nobody has locked. -/
theorem newLock (missing : findLocksByKey table lock.key = none) :
    PointIndexes (newLock table lock) := by
  have perm : (insertSorted (registerLock table lock).entryKey
      (⟨table.allocated, []⟩ : Locks) table.locks).Perm
        (⟨table.allocated, []⟩ :: table.locks) := insertSorted_perm _ _ _
  have newKey : (registerLock table lock).entryKey ⟨table.allocated, []⟩ = lock.key.content := by
    simp [LockTable.entryKey, registerLock_lock]
  refine indexes.registered ?_ ?_ ?_ ?_ ?_
  · exact inKeys_newLock table lock
  · refine insertSorted_sorted ?_ ?_
    · refine indexes.sorted.imp_of_mem ?_
      intro first second inFirst inSecond less
      rw [indexes.registerLock_entryKey inFirst, indexes.registerLock_entryKey inSecond]
      exact less
    · intro other member
      rw [newKey, indexes.registerLock_entryKey member]
      exact findLocksByKey_none missing other member
  · intro entry member id inside
    rcases mem_cons.mp (perm.mem_iff.mp member) with same | member
    · subst same
      simp only [Locks.locks, mem_singleton] at inside
      subst inside
      rfl
    · rw [indexes.registerLock_lock_old ⟨entry, member, inside⟩,
        indexes.registerLock_entryKey member]
      exact indexes.keyed entry member id inside
  · intro entry member first inFirst second inSecond sameNode
    rcases mem_cons.mp (perm.mem_iff.mp member) with same | member
    · subst same
      simp only [Locks.locks, mem_singleton] at inFirst inSecond
      exact inFirst.trans inSecond.symm
    · rw [indexes.registerLock_lock_old ⟨entry, member, inFirst⟩,
        indexes.registerLock_lock_old ⟨entry, member, inSecond⟩] at sameNode
      exact indexes.single entry member first inFirst second inSecond sameNode
  · intro entry member
    rcases mem_cons.mp (perm.mem_iff.mp member) with same | member
    · subst same
      simp [Locks.locks]
    · exact indexes.nodup entry member

/-- Sharing a key that is locked for read. -/
theorem shareLock (found : findLocksByKey table lock.key = some position)
    (other : ∀ id ∈ position.entry.locks, (table.lock id).nodeId ≠ lock.nodeId) :
    PointIndexes (shareLock table position lock) := by
  rcases findLocksByKey_some found with ⟨split, sameKey⟩
  have here := entry_mem found
  have old : ∀ entry, entry ∈ position.before ∨ entry ∈ position.after → entry ∈ table.locks := by
    rw [split]
    rintro entry (member | member) <;> simp [member]
  have newKey : (registerLock table lock).entryKey ⟨table.allocated, position.entry.locks⟩ =
      lock.key.content := by
    simp [LockTable.entryKey, registerLock_lock]
  have cases_ : ∀ entry ∈ position.before ++
      ⟨table.allocated, position.entry.locks⟩ :: position.after,
      entry = ⟨table.allocated, position.entry.locks⟩ ∨ entry ∈ table.locks := by
    intro entry member
    simp only [mem_append, mem_cons] at member
    rcases member with member | same | member
    · exact .inr (old entry (.inl member))
    · exact .inl same
    · exact .inr (old entry (.inr member))
  have fresh : ∀ id ∈ position.entry.locks, id ≠ table.allocated := fun id inside =>
    Nat.ne_of_lt (indexes.allocated id ⟨_, here, inside⟩)
  refine indexes.registered ?_ ?_ ?_ ?_ ?_
  · exact inKeys_shareLock table split lock
  · have kept : (position.before ++ ⟨table.allocated, position.entry.locks⟩ :: position.after).map
          (registerLock table lock).entryKey = table.locks.map table.entryKey := by
      rw [split, map_append, map_cons, map_append, map_cons, newKey, sameKey]
      congr 1
      · exact map_congr_left fun entry member =>
          indexes.registerLock_entryKey (old entry (.inl member))
      · congr 1
        exact map_congr_left fun entry member =>
          indexes.registerLock_entryKey (old entry (.inr member))
    rw [← pairwise_map (f := (registerLock table lock).entryKey) (R := (· < ·)), kept, pairwise_map]
    exact indexes.sorted
  · intro entry member id inside
    rcases cases_ entry member with same | member
    · subst same
      rw [newKey]
      simp only [Locks.locks, mem_cons] at inside
      rcases inside with isNew | inside
      · rw [registerLock_lock, if_pos isNew]
      · have inside : id ∈ position.entry.locks := by simpa [Locks.locks] using inside
        rw [indexes.registerLock_lock_old ⟨_, here, inside⟩,
          indexes.keyed _ here id inside, sameKey]
    · rw [indexes.registerLock_lock_old ⟨entry, member, inside⟩,
        indexes.registerLock_entryKey member]
      exact indexes.keyed entry member id inside
  · intro entry member first inFirst second inSecond sameNode
    rcases cases_ entry member with same | member
    · subst same
      have split_ : ∀ id ∈ (⟨table.allocated, position.entry.locks⟩ : Locks).locks,
          id = table.allocated ∨ id ∈ position.entry.locks := by
        intro id inside
        simpa [Locks.locks] using inside
      rcases split_ first inFirst with isFirst | inFirst
      · rcases split_ second inSecond with isSecond | inSecond
        · exact isFirst.trans isSecond.symm
        · rw [registerLock_lock, if_pos isFirst,
            indexes.registerLock_lock_old ⟨_, here, inSecond⟩] at sameNode
          exact absurd sameNode.symm (other second inSecond)
      · rcases split_ second inSecond with isSecond | inSecond
        · rw [indexes.registerLock_lock_old ⟨_, here, inFirst⟩, registerLock_lock,
            if_pos isSecond] at sameNode
          exact absurd sameNode (other first inFirst)
        · rw [indexes.registerLock_lock_old ⟨_, here, inFirst⟩,
            indexes.registerLock_lock_old ⟨_, here, inSecond⟩] at sameNode
          exact indexes.single _ here first inFirst second inSecond sameNode
    · rw [indexes.registerLock_lock_old ⟨entry, member, inFirst⟩,
        indexes.registerLock_lock_old ⟨entry, member, inSecond⟩] at sameNode
      exact indexes.single entry member first inFirst second inSecond sameNode
  · intro entry member
    rcases cases_ entry member with same | member
    · subst same
      refine nodup_cons.mpr ⟨?_, indexes.nodup _ here⟩
      exact fun inside => fresh _ inside rfl
    · exact indexes.nodup entry member

/-- Turning a lock for read into one for write. -/
theorem upgradeLock (member : InKeys table id) (now : Nat) :
    PointIndexes (upgradeLock table id now) := by
  have owners : ∀ other, ((LockMem.upgradeLock table id now).lock other).nodeId =
      (table.lock other).nodeId := fun other => upgradeLock_nodeId table id other now
  have keys : ∀ other, ((LockMem.upgradeLock table id now).lock other).key =
      (table.lock other).key := fun other => upgradeLock_key table id other now
  have live := (indexes.timestamps id).mpr member
  have perm : (LockMem.upgradeLock table id now).locksByTimestamp.Perm table.locksByTimestamp :=
    (insertSorted_perm _ _ _).trans (perm_cons_erase live).symm
  refine ⟨?_, ?_, ?_, indexes.nodup, ?_, ?_, ?_, indexes.nodesNodup, indexes.allocated⟩
  · simp only [LockTable.entryKey, keys]
    exact indexes.sorted
  · simp only [LockTable.entryKey, keys]
    exact indexes.keyed
  · simp only [owners]
    exact indexes.single
  · intro other
    rw [perm.mem_iff]
    exact indexes.timestamps other
  · exact perm.nodup_iff.mpr indexes.timestampsNodup
  · intro nodeId other
    rw [owners]
    exact indexes.nodes nodeId other

end PointIndexes

end Keys

section Release

variable {table : LockTable Key} {key : GBytes Key} {id : LockId} {position : Position}

/-- The table before and after an operation that takes locks on keys out. -/
structure OnlyKeys (table next : LockTable Key) : Prop where
  lock : next.lock = table.lock
  rangeLock : next.rangeLock = table.rangeLock
  rangeLocks : next.rangeLocks = table.rangeLocks
  rangeTimestamps : next.rangeLocksByTimestamp = table.rangeLocksByTimestamp
  rangeNodes : ∀ nodeId, rangeLocksOf next nodeId = rangeLocksOf table nodeId
  allocated : next.allocated = table.allocated

omit [LinearOrder Key] in
/-- The entries that are left are old ones, but for the one that lost a lock. -/
theorem mem_withoutLock {entry : Locks} (member : entry ∈ withoutLock position id) :
    (entry ∈ position.before ∨ entry ∈ position.after) ∨
      entry.locks = position.entry.locks.erase id := by
  simp only [withoutLock] at member
  split at member
  next => exact .inl (mem_append.mp member)
  next first rest left =>
    simp only [mem_append, mem_cons] at member
    rcases member with member | same | member
    · exact .inl (.inl member)
    · right
      rw [left, same]
      rfl
    · exact .inl (.inr member)

omit [LinearOrder Key] in
theorem exists_mem_withoutLock (position : Position) (id other : LockId) :
    (∃ entry ∈ withoutLock position id, other ∈ entry.locks) ↔
      (∃ entry ∈ position.before, other ∈ entry.locks) ∨ other ∈ position.entry.locks.erase id ∨
        ∃ entry ∈ position.after, other ∈ entry.locks := by
  simp only [withoutLock]
  split
  next empty =>
    simp only [mem_append, or_and_right, exists_or, empty, not_mem_nil, false_or]
  next first rest left =>
    rw [exists_mem_split, left]
    rfl

namespace PointIndexes

variable (indexes : PointIndexes table)
include indexes

/-- Keys before a position are smaller, keys after it greater. -/
theorem around (split : table.locks = position.before ++ position.entry :: position.after) :
    (∀ entry ∈ position.before, table.entryKey entry < table.entryKey position.entry) ∧
      ∀ entry ∈ position.after, table.entryKey position.entry < table.entryKey entry := by
  have sorted := indexes.sorted
  rw [split] at sorted
  rcases pairwise_append.mp sorted with ⟨_, rest, across⟩
  exact ⟨fun entry member => across entry member position.entry (by simp),
    (pairwise_cons.mp rest).1⟩

/-- What is found under a key are locks on that key. -/
theorem found_key (found : findLocksByKey table key = some position)
    (inside : id ∈ position.entry.locks) : (table.lock id).key.content = key.content :=
  (indexes.keyed _ (entry_mem found) id inside).trans (findLocksByKey_some found).2

/-- A lock on a key is found under that key. -/
theorem find_of_inKeys (member : InKeys table id)
    (sameKey : (table.lock id).key.content = key.content) :
    ∃ position, findLocksByKey table key = some position ∧ id ∈ position.entry.locks := by
  rcases member with ⟨entry, inEntry, inside⟩
  have entryKey := (indexes.keyed entry inEntry id inside).symm.trans sameKey
  cases found : findLocksByKey table key with
  | none => exact absurd entryKey (findLocksByKey_none found entry inEntry)
  | some position =>
    refine ⟨position, rfl, ?_⟩
    rcases findLocksByKey_some found with ⟨split, positionKey⟩
    rcases indexes.around split with ⟨smaller, greater⟩
    have same : table.entryKey entry = table.entryKey position.entry :=
      entryKey.trans positionKey.symm
    rw [split] at inEntry
    simp only [mem_append, mem_cons] at inEntry
    rcases inEntry with early | here | late
    · exact absurd same (smaller entry early).ne
    · exact here ▸ inside
    · exact absurd same.symm (greater entry late).ne

/-- The locks on a key are in the entry that is found. -/
theorem onKey (found : findLocksByKey table key = some position) (inside : InKeys table id)
    (sameKey : (table.lock id).key.content = key.content) : id ∈ position.entry.locks := by
  rcases indexes.find_of_inKeys inside sameKey with ⟨other, equal, member⟩
  exact Option.some.inj (found.symm.trans equal) ▸ member

theorem sorted_withoutLock
    (split : table.locks = position.before ++ position.entry :: position.after) :
    (withoutLock position id).Pairwise fun first second =>
      table.entryKey first < table.entryKey second := by
  have here : position.entry ∈ table.locks := by
    rw [split]
    simp
  have sorted := indexes.sorted
  rw [split] at sorted
  simp only [withoutLock]
  cases left : position.entry.locks.erase id with
  | nil =>
    refine sorted.sublist ?_
    exact (List.Sublist.refl _).append (sublist_cons_self _ _)
  | cons first rest =>
    have inside : first ∈ position.entry.locks := by
      have kept : first ∈ position.entry.locks.erase id := by
        rw [left]
        simp
      exact mem_of_mem_erase kept
    have sameKey : table.entryKey ⟨first, rest⟩ = table.entryKey position.entry :=
      indexes.keyed _ here first inside
    rw [← pairwise_map (f := table.entryKey) (R := (· < ·))] at sorted ⊢
    rw [map_append, map_cons] at sorted ⊢
    rw [sameKey]
    exact sorted

/-- `remove_lock` takes a lock out of all indexes, and no other. -/
theorem removeLock (member : InKeys table id) :
    ∃ next, LockMem.removeLock table id = some next ∧ PointIndexes next ∧
      (∀ other, InKeys next other ↔ InKeys table other ∧ other ≠ id) ∧
      OnlyKeys table next := by
  rcases indexes.find_of_inKeys member rfl with ⟨position, found, inside⟩
  rcases findLocksByKey_some found with ⟨split, sameKey⟩
  rcases indexes.around split with ⟨smaller, greater⟩
  have here := entry_mem found
  have old : ∀ entry, entry ∈ position.before ∨ entry ∈ position.after → entry ∈ table.locks := by
    rw [split]
    rintro entry (member | member) <;> simp [member]
  have inNode := (indexes.nodes (table.lock id).nodeId id).mpr ⟨member, rfl⟩
  cases registered : table.nodesToLocks (table.lock id).nodeId with
  | none => simp [locksOf, ensureNodeRegistration, registered] at inNode
  | some nodeLocks =>
    have nodeList : locksOf table (table.lock id).nodeId = nodeLocks.locks := by
      simp [locksOf, ensureNodeRegistration, registered]
    have nodeRanges : rangeLocksOf table (table.lock id).nodeId = nodeLocks.rangeLocks := by
      simp [rangeLocksOf, ensureNodeRegistration, registered]
    have erased : ∀ other, other ∈ position.entry.locks.erase id ↔
        other ≠ id ∧ other ∈ position.entry.locks := fun other =>
      (indexes.nodup _ here).mem_erase_iff
    have notElsewhere : ∀ entry, entry ∈ position.before ∨ entry ∈ position.after →
        id ∉ entry.locks := by
      intro entry side inEntry
      have equal := indexes.keyed entry (old entry side) id inEntry
      rw [← sameKey] at equal
      rcases side with early | late
      · exact (smaller entry early).ne equal.symm
      · exact (greater entry late).ne equal
    have inKeys : ∀ other, (∃ entry ∈ withoutLock position id, other ∈ entry.locks) ↔
        InKeys table other ∧ other ≠ id := by
      intro other
      rw [exists_mem_withoutLock, InKeys, split, exists_mem_split, erased]
      constructor
      · rintro (⟨entry, early, inEntry⟩ | ⟨different, inEntry⟩ | ⟨entry, late, inEntry⟩)
        · exact ⟨.inl ⟨entry, early, inEntry⟩,
            fun same => notElsewhere entry (.inl early) (same ▸ inEntry)⟩
        · exact ⟨.inr (.inl inEntry), different⟩
        · exact ⟨.inr (.inr ⟨entry, late, inEntry⟩),
            fun same => notElsewhere entry (.inr late) (same ▸ inEntry)⟩
      · rintro ⟨early | inEntry | late, different⟩
        · exact .inl early
        · exact .inr (.inl ⟨different, inEntry⟩)
        · exact .inr (.inr late)
    have shrunk : ∀ entry ∈ withoutLock position id, ∃ before ∈ table.locks,
        (∀ other ∈ entry.locks, other ∈ before.locks) ∧ entry.locks.Nodup ∧
        table.entryKey entry = table.entryKey before := by
      intro entry member
      rcases mem_withoutLock member with side | left
      · exact ⟨entry, old entry side, fun _ inEntry => inEntry,
          indexes.nodup entry (old entry side), rfl⟩
      · have within : ∀ other ∈ entry.locks, other ∈ position.entry.locks := by
          intro other inEntry
          rw [left] at inEntry
          exact mem_of_mem_erase inEntry
        refine ⟨position.entry, here, within, left ▸ (indexes.nodup _ here).erase id, ?_⟩
        exact indexes.keyed _ here _ (within _ entry.first_mem)
    simp only [LockMem.removeLock, found, registered]
    refine ⟨_, rfl, ⟨?_, ?_, ?_, ?_, ?_, ?_, ?_, ?_, ?_⟩, inKeys, ⟨rfl, rfl, rfl, rfl, ?_, rfl⟩⟩
    · exact indexes.sorted_withoutLock split
    · intro entry inEntries other inEntry
      rcases shrunk entry inEntries with ⟨before, inBefore, within, _, equal⟩
      exact (indexes.keyed before inBefore other (within other inEntry)).trans equal.symm
    · intro entry inEntries first inFirst second inSecond sameNode
      rcases shrunk entry inEntries with ⟨before, inBefore, within, _, _⟩
      exact indexes.single before inBefore first (within first inFirst) second
        (within second inSecond) sameNode
    · intro entry inEntries
      rcases shrunk entry inEntries with ⟨_, _, _, nodup, _⟩
      exact nodup
    · intro other
      change other ∈ table.locksByTimestamp.erase id ↔ _
      rw [indexes.timestampsNodup.mem_erase_iff, indexes.timestamps, and_comm]
      exact (inKeys other).symm
    · exact indexes.timestampsNodup.erase id
    · intro nodeId other
      change other ∈ locksOf (table.setNodeLocks _ _) nodeId ↔
        (∃ entry ∈ withoutLock position id, other ∈ entry.locks) ∧
          (table.lock other).nodeId = nodeId
      rw [locksOf_setNodeLocks, getD_deregister, inKeys, and_right_comm, ← indexes.nodes]
      split
      next same =>
        subst same
        have nodup := indexes.nodesNodup (table.lock id).nodeId
        rw [nodeList] at nodup ⊢
        rw [nodup.mem_erase_iff, and_comm]
      next different =>
        constructor
        · intro held
          refine ⟨held, fun same => different ?_⟩
          rw [same] at held
          exact ((indexes.nodes nodeId id).mp held).2.symm
        · exact fun held => held.1
    · intro nodeId
      change (locksOf (table.setNodeLocks _ _) nodeId).Nodup
      rw [locksOf_setNodeLocks, getD_deregister]
      split
      next => exact (nodeList ▸ indexes.nodesNodup _).erase id
      next => exact indexes.nodesNodup nodeId
    · intro other inside
      exact indexes.allocated other ((inKeys other).mp inside).1
    · intro nodeId
      change rangeLocksOf (table.setNodeLocks _ _) nodeId = _
      rw [rangeLocksOf_setNodeLocks, getD_deregister]
      split
      next same => rw [same, nodeRanges]
      next => rfl

end PointIndexes

end Release

section Ranges

variable {table : LockTable Key} {id : LockId}

/-- The table before and after an operation that takes locks on ranges out. -/
structure OnlyRanges (table next : LockTable Key) : Prop where
  lock : next.lock = table.lock
  rangeLock : next.rangeLock = table.rangeLock
  locks : next.locks = table.locks
  timestamps : next.locksByTimestamp = table.locksByTimestamp
  nodes : ∀ nodeId, locksOf next nodeId = locksOf table nodeId
  allocated : next.allocated = table.allocated

section NewLock

omit [LinearOrder Key]
variable (table : LockTable Key) (rangeLocks : Itree (Option (GBytes Key)) LockId)
  (rangeLock : RangeLock Key)

theorem newRangeLock_rangeLock (id : LockId) :
    (newRangeLock table rangeLocks rangeLock).rangeLock id =
      if id = table.allocated then rangeLock else table.rangeLock id := rfl

theorem rangeLocksOf_newRangeLock (nodeId : Nat) :
    rangeLocksOf (newRangeLock table rangeLocks rangeLock) nodeId =
      if nodeId = rangeLock.nodeId then table.allocated :: rangeLocksOf table nodeId
      else rangeLocksOf table nodeId := by
  change rangeLocksOf (setNodeLocks _ rangeLock.nodeId _) nodeId = _
  rw [rangeLocksOf_setNodeLocks]
  split
  next same =>
    subst same
    rfl
  next => rfl

theorem locksOf_newRangeLock (nodeId : Nat) :
    locksOf (newRangeLock table rangeLocks rangeLock) nodeId = locksOf table nodeId := by
  change locksOf (setNodeLocks _ rangeLock.nodeId _) nodeId = _
  rw [locksOf_setNodeLocks]
  split
  next same =>
    subst same
    rfl
  next => rfl

theorem newRangeLock_perm :
    (newRangeLock table rangeLocks rangeLock).rangeLocksByTimestamp.Perm
      (table.allocated :: table.rangeLocksByTimestamp) :=
  insertSorted_perm _ _ _

end NewLock

namespace RangeIndexes

variable (indexes : RangeIndexes table)
include indexes

/-- A new lock is in step in all indexes once the tree has it. -/
theorem newRangeLock {rangeLock : RangeLock Key}
    {contents : Contents (WithBot Key) (WithTop Key) LockId}
    {rangeLocks : Itree (Option (GBytes Key)) LockId} {shape : Shape NodeId}
    (describes : Describes table contents)
    (missing : contents (nullOrder.lower rangeLock.fromKey)
      (nullOrder.upper rangeLock.toKey) = none)
    (sound : Sound nullOrder rangeLocks shape (contents.insert (nullOrder.lower rangeLock.fromKey)
        (nullOrder.upper rangeLock.toKey) table.allocated))
    (covered : Covered nullOrder rangeLocks shape) :
    RangeIndexes (newRangeLock table rangeLocks rangeLock) := by
  have fresh : table.allocated ∉ table.rangeLocksByTimestamp := fun member =>
    Nat.lt_irrefl _ (indexes.allocated _ member)
  have perm := newRangeLock_perm table rangeLocks rangeLock
  refine ⟨⟨shape, _, sound, covered, ?_⟩, ?_, ?_, ?_, ?_⟩
  · intro lower upper id
    rw [perm.mem_iff, mem_cons]
    simp only [Contents.insert, rangeLower, rangeUpper, newRangeLock_rangeLock]
    by_cases isNew : id = table.allocated
    · subst isNew
      simp only [if_true, true_or, true_and]
      constructor
      · intro stored
        split at stored
        next same => exact ⟨same.1.symm, same.2.symm⟩
        next => exact absurd ((describes _ _ _).mp stored).1 fresh
      · rintro ⟨low, high⟩
        rw [if_pos ⟨low.symm, high.symm⟩]
    · simp only [isNew, if_false, false_or]
      constructor
      · intro stored
        split at stored
        next => exact absurd (Option.some.inj stored).symm isNew
        next => exact (describes _ _ _).mp stored
      · intro held
        have stored := (describes lower upper id).mpr held
        rw [if_neg]
        · exact stored
        · rintro ⟨low, high⟩
          rw [low, high, missing] at stored
          cases stored
  · exact perm.nodup_iff.mpr (nodup_cons.mpr ⟨fresh, indexes.timestampsNodup⟩)
  · intro nodeId id
    rw [rangeLocksOf_newRangeLock, perm.mem_iff, mem_cons, newRangeLock_rangeLock]
    exact mem_owned (indexes.nodes nodeId) fresh id
  · intro nodeId
    rw [rangeLocksOf_newRangeLock]
    exact nodup_owned (indexes.nodes nodeId) fresh (indexes.nodesNodup nodeId)
  · intro id member
    change id < table.allocated + 1
    rcases mem_cons.mp (perm.mem_iff.mp member) with isNew | old
    · exact isNew ▸ Nat.lt_succ_self _
    · exact Nat.lt_succ_of_lt (indexes.allocated id old)

/-- `remove_range_lock` takes a lock out of all indexes, and no other. -/
theorem removeRangeLock (member : id ∈ table.rangeLocksByTimestamp)
    (keeps : RemoveKeeps nullOrder table.rangeLocks (table.rangeLock id).fromKey
      (table.rangeLock id).toKey) :
    ∃ next, LockMem.removeRangeLock table id = some next ∧ RangeIndexes next ∧
      (∀ other, other ∈ next.rangeLocksByTimestamp ↔
        other ∈ table.rangeLocksByTimestamp ∧ other ≠ id) ∧
      OnlyRanges table next ∧
      gzochidItreeRemove nullOrder table.rangeLocks (table.rangeLock id).fromKey
        (table.rangeLock id).toKey = some next.rangeLocks := by
  rcases indexes.tree with ⟨shape, contents, sound, covered, describes⟩
  rcases sound.gzochidItreeRemove keeps with ⟨rangeLocks, shape', removed, sound', covering, _⟩
  have inNode := (indexes.nodes (table.rangeLock id).nodeId id).mpr ⟨member, rfl⟩
  have here := (describes _ _ id).mpr ⟨member, rfl, rfl⟩
  have erased : ∀ other, other ∈ table.rangeLocksByTimestamp.erase id ↔
      other ∈ table.rangeLocksByTimestamp ∧ other ≠ id := fun other => by
    rw [indexes.timestampsNodup.mem_erase_iff, and_comm]
  cases registered : table.nodesToLocks (table.rangeLock id).nodeId with
  | none => simp [rangeLocksOf, ensureNodeRegistration, registered] at inNode
  | some nodeLocks =>
    have nodeList : rangeLocksOf table (table.rangeLock id).nodeId = nodeLocks.rangeLocks := by
      simp [rangeLocksOf, ensureNodeRegistration, registered]
    have nodeKeys : locksOf table (table.rangeLock id).nodeId = nodeLocks.locks := by
      simp [locksOf, ensureNodeRegistration, registered]
    simp only [LockMem.removeRangeLock, registered, removed]
    refine ⟨_, rfl, ⟨⟨shape', _, sound', covering covered, ?_⟩, ?_, ?_, ?_, ?_⟩, erased,
      ⟨rfl, rfl, rfl, rfl, ?_, rfl⟩, rfl⟩
    · intro lower upper other
      change contents.remove _ _ lower upper = some other ↔
        other ∈ table.rangeLocksByTimestamp.erase id ∧ rangeLower table other = lower ∧
          rangeUpper table other = upper
      simp only [Contents.remove, erased]
      constructor
      · intro stored
        obtain ⟨elsewhere, stored⟩ := Option.ite_none_left_eq_some.mp stored
        rcases (describes _ _ _).mp stored with ⟨live, low, high⟩
        refine ⟨⟨live, fun same => elsewhere ?_⟩, low, high⟩
        subst same
        exact ⟨low.symm, high.symm⟩
      · rintro ⟨⟨live, different⟩, low, high⟩
        have stored := (describes lower upper other).mpr ⟨live, low, high⟩
        rw [if_neg]
        · exact stored
        · rintro ⟨sameLow, sameHigh⟩
          rw [sameLow, sameHigh] at stored
          exact different (Option.some.inj (stored.symm.trans here))
    · exact indexes.timestampsNodup.erase id
    · intro nodeId other
      change other ∈ rangeLocksOf (table.setNodeLocks _ _) nodeId ↔
        other ∈ table.rangeLocksByTimestamp.erase id ∧ (table.rangeLock other).nodeId = nodeId
      rw [rangeLocksOf_setNodeLocks, getD_deregister, erased, and_right_comm, ← indexes.nodes]
      split
      next same =>
        subst same
        have nodup := indexes.nodesNodup (table.rangeLock id).nodeId
        rw [nodeList] at nodup ⊢
        rw [nodup.mem_erase_iff, and_comm]
      next different =>
        constructor
        · intro held
          refine ⟨held, fun same => different ?_⟩
          rw [same] at held
          exact ((indexes.nodes nodeId id).mp held).2.symm
        · exact fun held => held.1
    · intro nodeId
      change (rangeLocksOf (table.setNodeLocks _ _) nodeId).Nodup
      rw [rangeLocksOf_setNodeLocks, getD_deregister]
      split
      next => exact (nodeList ▸ indexes.nodesNodup _).erase id
      next => exact indexes.nodesNodup nodeId
    · intro other live
      exact indexes.allocated other ((erased other).mp live).1
    · intro nodeId
      change locksOf (table.setNodeLocks _ _) nodeId = _
      rw [locksOf_setNodeLocks, getD_deregister]
      split
      next same => rw [same, nodeKeys]
      next => rfl

end RangeIndexes

end Ranges

end Gzochi.LockMem
