import Gzochi.Itree.Growth
import Gzochi.Itree.Refinement
import Gzochi.DataClient.Visibility

/-!
# First and next keys

A range lock answers for the next key as long as what the transaction sees has no key inside
its range and has the key at its end.  Puts and deletions do not look at range locks, and the
meta server does not know what a transaction has not committed.
-/

namespace Gzochi.DataClient

open Lib Function IntervalTree Option
open IntervalTree (Sound Covered Grown Contents SearchFunc lookup meetsInterval prunedInterval
  gzochidItreeInsert gzochidItreeSearchInterval itreeLocation matches? stopAt Attained Visited)
open LockMem (GBytes nullOrder)

variable {engine : Engine} {store : Bytes} {lock : KeyRange} {tree : RangeTree}
  {fromKey reply : Option KeyBytes} {kept : KeyRange → Prop} {stored : Bytes → Prop}

/-- The least key after a bound, if there is one. -/
def IsNextKey (stored : Bytes → Prop) (after : WithBot Bytes) : Option Bytes → Prop
  | none => ∀ key : Bytes, after < key → ¬stored key
  | some key =>
      after < key ∧ stored key ∧ ∀ other : Bytes, after < other → stored other → key ≤ other

namespace KeyRange

/-- The key is one of the range, and not at its ends. -/
def Inside (lock : KeyRange) (key : Bytes) : Prop :=
  nullOrder.lower lock.fromKey < (key : WithBot Bytes) ∧
    (key : WithTop Bytes) < nullOrder.upper lock.toKey

def EndsAt (lock : KeyRange) (key : Bytes) : Prop := lock.toKey.map GBytes.content = some key

/-- The lock answers for the keys of its range: its end is the first one of them. -/
def Answers (lock : KeyRange) (stored : Bytes → Prop) : Prop :=
  (∀ key, lock.Inside key → ¬stored key) ∧ ∀ key, lock.EndsAt key → stored key

/-- The lock is one that `find_range_lock_covering_point` looks for. -/
def Covers (lock : KeyRange) (store : Bytes) : Option KeyBytes → Prop
  | none => lock.store = store ∧ lock.fromKey = none
  | some key => lock.store = store ∧ nullOrder.lower lock.fromKey ≤ (key.content : WithBot Bytes) ∧
      (key.content : WithTop Bytes) < nullOrder.upper lock.toKey

end KeyRange

/-- The tree is in order, and its locks have a property. -/
def Keeps (tree : RangeTree) (kept : KeyRange → Prop) : Prop :=
  ∃ shape contents, Sound nullOrder tree shape contents ∧ Covered nullOrder tree shape ∧
    Grown tree ∧ (∀ id ∈ shape.ids, Attained tree id) ∧
      ∀ lower upper lock, contents lower upper = some lock →
      nullOrder.lower lock.fromKey = lower ∧ nullOrder.upper lock.toKey = upper ∧ kept lock

theorem keeps_new (kept : KeyRange → Prop) : Keeps newRangeTree kept :=
  ⟨.nil, fun _ _ => none, sound_new nullOrder _, nofun, grown_new _, nofun, nofun⟩

theorem Keeps.imp {weaker : KeyRange → Prop} (keeps : Keeps tree kept)
    (implies : ∀ lock, lookup nullOrder tree lock.fromKey lock.toKey = some (some lock) →
      kept lock → weaker lock) : Keeps tree weaker := by
  obtain ⟨shape, contents, sound, covered, grown, attained, described⟩ := keeps
  refine ⟨shape, contents, sound, covered, grown, attained, ?_⟩
  intro lower upper lock present
  obtain ⟨low, high, holds⟩ := described lower upper lock present
  refine ⟨low, high, implies lock ?_ holds⟩
  rw [sound.lookup_eq, low, high, present]

/-- A node that a search has stopped at. -/
structure StoppedAt (tree : RangeTree) (kept : KeyRange → Prop)
    (test : IntervalTree.Node (Option KeyBytes) KeyRange → Bool) (lock : KeyRange) : Prop where
  node : ∃ node, test node = true ∧ node.data = lock ∧
    nullOrder.lower node.lower = nullOrder.lower lock.fromKey ∧
    nullOrder.upper node.upper = nullOrder.upper lock.toKey
  kept : kept lock
  present : lookup nullOrder tree lock.fromKey lock.toKey = some (some lock)

/-- Searches end, and what they find are locks of the tree; they find a lock whose end lies
beyond the lower end of what is searched for. -/
theorem Keeps.search (keeps : Keeps tree kept) (lower upper : Option KeyBytes)
    (test : IntervalTree.Node (Option KeyBytes) KeyRange → Bool) :
    ∃ found, gzochidItreeSearchInterval nullOrder tree lower upper (stopAt test) none = some found ∧
      (∀ lock, found = some lock → StoppedAt tree kept test lock) ∧
      ∀ lock, lookup nullOrder tree lock.fromKey lock.toKey = some (some lock) →
        nullOrder.lower lock.fromKey ≤ nullOrder.lower lower →
        nullOrder.upper lower ≤ nullOrder.upper lock.toKey →
        (∀ node : IntervalTree.Node (Option KeyBytes) KeyRange, node.data = lock →
          nullOrder.lower node.lower = nullOrder.lower lock.fromKey →
          nullOrder.upper node.upper = nullOrder.upper lock.toKey → test node = true) →
        found ≠ none := by
  obtain ⟨shape, contents, sound, covered, _, _, described⟩ := keeps
  have shown : gzochidItreeSearchInterval nullOrder tree lower upper (stopAt test) none =
      some (showAll tree (meetsInterval nullOrder lower upper) (stopAt test)
        (visited tree (prunedInterval nullOrder lower upper) shape) none) :=
    sound.searchLoop_eq none
  rw [showAll_stopAt] at shown
  refine ⟨_, shown, ?_, ?_⟩
  · intro lock found
    obtain ⟨id, first, same⟩ := map_eq_some_iff.mp found
    have member := mem_ids_of_visited (List.mem_of_find?_eq_some first)
    have passed := List.find?_some first
    rw [Bool.and_eq_true] at passed
    have present := (sound.carries _ _ lock).mpr ⟨id, member, rfl, rfl, same⟩
    obtain ⟨low, high, holds⟩ := described _ _ lock present
    refine ⟨⟨tree.node id, passed.2, same, low.symm, high.symm⟩, holds, ?_⟩
    rw [sound.lookup_eq, low, high, present]
  · intro lock present below within passes nothing
    rw [sound.lookup_eq] at present
    injection present with present
    obtain ⟨id, member, low, high, same⟩ := (sound.carries _ _ lock).mp present
    have reached : id ∈ visited tree (prunedInterval nullOrder lower upper) shape := by
      apply covered.mem_visited_interval sound.linked member
      left
      exact within.trans (le_of_eq high.symm)
    have missed := List.find?_eq_none.mp (map_eq_none_iff.mp nothing) id reached
    apply missed
    rw [Bool.and_eq_true]
    constructor
    · have meets : nullOrder.lower (tree.node id).lower ≤ nullOrder.lower lower ∧
          nullOrder.upper lower ≤ nullOrder.upper (tree.node id).upper :=
        ⟨(le_of_eq low).trans below, within.trans (le_of_eq high.symm)⟩
      simp [meetsInterval, meetsPoint, meets.1, meets.2]
    · exact passes (tree.node id) same low high

/-- What `find_range_lock_covering_point` tests. -/
def coversPoint (store : Bytes) (fromKey : Option KeyBytes)
    (node : IntervalTree.Node (Option KeyBytes) KeyRange) : Bool :=
  match fromKey with
  | none => decide (node.data.store = store ∧ node.lower = none)
  | some key => decide (node.data.store = store ∧
      nullOrder.lower node.lower ≤ nullOrder.lower (some key) ∧
      nullOrder.upper (some key) < nullOrder.upper node.upper)

theorem findRangeLockCoveringPoint_eq (store : Bytes) (fromKey : Option KeyBytes) :
    findRangeLockCoveringPoint store fromKey = stopAt (coversPoint store fromKey) := by
  funext found node
  unfold findRangeLockCoveringPoint stopAt coversPoint
  cases fromKey with
  | none | some key => by_cases same : node.data.store = store <;> simp [same]

theorem findExactRangeLock_eq (store : Bytes) (fromKey toKey : Option KeyBytes) :
    findExactRangeLock store fromKey toKey = stopAt fun node =>
      decide (node.data.store = store ∧ gBytesEqual node.lower fromKey ∧
        gBytesEqual node.upper toKey) := by
  funext found node
  simp [findExactRangeLock, stopAt]

theorem lower_eq_bot (bound : Option KeyBytes) : nullOrder.lower bound = ⊥ ↔ bound = none := by
  cases bound with
  | none => simp [nullOrder]
  | some key => simp [nullOrder]

/-- What a search for a key finds covers it; and a lock that covers a key is found. -/
theorem Keeps.searchCovering (keeps : Keeps tree kept) (store : Bytes) (fromKey : Option KeyBytes) :
    ∃ found, searchCovering tree store fromKey = some found ∧
      (∀ lock, found = some lock → kept lock ∧ lock.Covers store fromKey ∧
        lookup nullOrder tree lock.fromKey lock.toKey = some (some lock)) ∧
      ∀ lock key, fromKey = some key → lock.Covers store fromKey →
        lookup nullOrder tree lock.fromKey lock.toKey = some (some lock) → found ≠ none := by
  obtain ⟨found, searched, stopped, complete⟩ :=
    keeps.search fromKey none (coversPoint store fromKey)
  rw [← findRangeLockCoveringPoint_eq] at searched
  refine ⟨found, searched, ?_, ?_⟩
  · intro lock same
    obtain ⟨⟨node, passed, data, low, high⟩, holds, present⟩ := stopped lock same
    refine ⟨holds, ?_, present⟩
    cases fromKey with
    | none =>
      obtain ⟨named, unbounded⟩ := of_decide_eq_true passed
      rw [data] at named
      rw [unbounded] at low
      exact ⟨named, (lower_eq_bot lock.fromKey).mp low.symm⟩
    | some key =>
      obtain ⟨named, below, above⟩ := of_decide_eq_true passed
      rw [data] at named
      rw [low] at below
      rw [high] at above
      exact ⟨named, below, above⟩
  · intro lock key point covers present
    subst point
    obtain ⟨named, below, above⟩ := covers
    apply complete lock present below (le_of_lt above)
    intro node data low high
    apply decide_eq_true
    rw [data, low, high]
    exact ⟨named, below, above⟩

/-- A lock can be put into a tree that keeps such locks. -/
theorem Keeps.insert (keeps : Keeps tree kept) (holds : kept lock) :
    ∃ result, gzochidItreeInsert nullOrder tree lock.fromKey lock.toKey lock = some result ∧
      Keeps result kept ∧ lookup nullOrder result lock.fromKey lock.toKey = some (some lock) ∧
      ∀ lower upper, (∃ held, lookup nullOrder tree lower upper = some (some held)) →
        ∃ held, lookup nullOrder result lower upper = some (some held) := by
  obtain ⟨shape, contents, sound, covered, grown, attained, described⟩ := keeps
  obtain ⟨result, shape', inserted, kept', covered', grown', attaining⟩ :=
    sound.grow covered grown lock.fromKey lock.toKey lock
  refine ⟨result, inserted, ⟨shape', _, kept', covered', grown', attaining attained, ?_⟩, ?_, ?_⟩
  · intro lower upper found present
    unfold Contents.insert at present
    split at present
    · rename_i same
      cases present
      exact ⟨same.1.symm, same.2.symm, holds⟩
    · exact described lower upper found present
  · rw [kept'.lookup_eq]
    simp [Contents.insert]
  · rintro lower upper ⟨held, present⟩
    rw [kept'.lookup_eq]
    rw [sound.lookup_eq] at present
    injection present with present
    unfold Contents.insert
    split
    · exact ⟨lock, rfl⟩
    · exact ⟨held, congrArg some present⟩

/-- There is nothing else in the tree after that. -/
theorem Keeps.of_insert (lock : KeyRange) {result : RangeTree} {lower : Option KeyBytes}
    {upper : Option KeyBytes}
    {held : KeyRange} (keeps : Keeps tree kept)
    (inserted : gzochidItreeInsert nullOrder tree lock.fromKey lock.toKey lock = some result)
    (present : lookup nullOrder result lower upper = some (some held)) :
    held = lock ∨ lookup nullOrder tree lower upper = some (some held) := by
  obtain ⟨shape, contents, sound, covered, grown, _⟩ := keeps
  obtain ⟨_, _, equal, kept', _⟩ := sound.grow covered grown lock.fromKey lock.toKey lock
  cases equal.symm.trans inserted
  rw [kept'.lookup_eq] at present
  rw [sound.lookup_eq]
  injection present with present
  unfold Contents.insert at present
  split at present
  next =>
    injection present with same
    exact .inl same.symm
  next => exact .inr (congrArg some present)

variable {seen : Bytes → Prop}

theorem KeyRange.Answers.congr (answers : lock.Answers stored)
    (same : ∀ key, seen key ↔ stored key) : lock.Answers seen :=
  ⟨fun key inside present => answers.1 key inside ((same key).mp present),
    fun key ends => (same key).mpr (answers.2 key ends)⟩

/-- The answer of the meta server is the end of the lock that comes with it. -/
theorem KeyRange.answers_of_reply
    (right : IsNextKey stored (nullOrder.lower lock.fromKey) (lock.toKey.map GBytes.content)) :
    lock.Answers stored := by
  cases bound : lock.toKey with
  | none =>
    rw [bound] at right
    constructor
    · intro key inside
      exact right key inside.1
    · intro key ends
      rw [KeyRange.EndsAt, bound] at ends
      cases ends
  | some last =>
    rw [bound] at right
    obtain ⟨_, present, least⟩ := right
    constructor
    · intro key inside there
      obtain ⟨above, below⟩ := inside
      rw [bound] at below
      exact absurd (WithTop.coe_lt_coe.mp below) (not_lt.mpr (least key above there))
    · intro key ends
      rw [KeyRange.EndsAt, bound] at ends
      injection ends with same
      exact same ▸ present

/-- A lock that covers a key has the next one at its end. -/
theorem KeyRange.Answers.next (answers : lock.Answers stored) {key : KeyBytes}
    (covers : lock.Covers store (some key)) :
    IsNextKey stored (key.content : WithBot Bytes) (lock.toKey.map GBytes.content) := by
  obtain ⟨_, below, above⟩ := covers
  cases bound : lock.toKey with
  | none =>
    intro other greater
    apply answers.1 other
    refine ⟨lt_of_le_of_lt below greater, ?_⟩
    rw [bound]
    exact WithTop.coe_lt_top other
  | some last =>
    rw [bound] at above
    refine ⟨WithBot.coe_lt_coe.mpr (WithTop.coe_lt_coe.mp above), answers.2 _ ?_, ?_⟩
    · rw [KeyRange.EndsAt, bound]
      rfl
    · intro other greater present
      by_contra before
      apply answers.1 other _ present
      refine ⟨lt_of_le_of_lt below greater, ?_⟩
      rw [bound]
      exact WithTop.coe_lt_coe.mpr (not_le.mp before)

/-- A lock from the beginning of a key space that is not empty has the first key at its
end. -/
theorem KeyRange.Answers.first (answers : lock.Answers stored) (begins : lock.fromKey = none)
    {key : Bytes} (present : stored key) :
    ∃ last, lock.toKey = some last ∧ IsNextKey stored ⊥ (some last.content) := by
  have above : ∀ key : Bytes, nullOrder.lower lock.fromKey < (key : WithBot Bytes) := by
    intro key
    rw [begins]
    exact WithBot.bot_lt_coe key
  cases bound : lock.toKey with
  | none =>
    refine absurd present (answers.1 key ⟨above key, ?_⟩)
    rw [bound]
    exact WithTop.coe_lt_top key
  | some last =>
    refine ⟨last, rfl, WithBot.bot_lt_coe _, answers.2 _ ?_, ?_⟩
    · rw [KeyRange.EndsAt, bound]
      rfl
    · intro other _ there
      by_contra before
      apply answers.1 other _ there
      refine ⟨above other, ?_⟩
      rw [bound]
      exact WithTop.coe_lt_coe.mpr (not_le.mp before)

/-- One key is put outside the range, or deleted away from its end. -/
theorem KeyRange.Answers.update (answers : lock.Answers stored) (key : Bytes)
    (others : ∀ other, other ≠ key → (seen other ↔ stored other))
    (appears : seen key → stored key ∨ ¬lock.Inside key)
    (vanishes : ¬seen key → ¬stored key ∨ ¬lock.EndsAt key) : lock.Answers seen := by
  constructor
  · intro other inside present
    by_cases same : other = key
    · subst same
      rcases appears present with before | outside
      · exact answers.1 other inside before
      · exact outside inside
    · exact answers.1 other inside ((others other same).mp present)
  · intro other ends
    by_cases same : other = key
    · subst same
      by_contra gone
      rcases vanishes gone with before | away
      · exact before (answers.2 other ends)
      · exact away ends
    · exact (others other same).mpr (answers.2 other ends)

namespace Engine

/-- The node has a range lock with the bounds of this one. -/
def HoldsRange (engine : Engine) (lock : KeyRange) : Prop :=
  ∃ held, lookup nullOrder (engine.databaseLocks lock.store) lock.fromKey lock.toKey =
    some (some held)

def Sees (engine : Engine) (store key : Bytes) : Prop := engine.gets ⟨store, key⟩ ≠ none

def Stores (engine : Engine) (store key : Bytes) : Prop := engine.server ⟨store, key⟩ ≠ none

/-- No range lock of the node has the key inside its range. -/
def Outside (engine : Engine) (key : QualifiedKey) : Prop :=
  ∀ lock, engine.HoldsRange lock → lock.store = key.store → ¬lock.Inside key.key

/-- No range lock of the node ends at the key. -/
def NoEnd (engine : Engine) (key : QualifiedKey) : Prop :=
  ∀ lock, engine.HoldsRange lock → lock.store = key.store → ¬lock.EndsAt key.key

/-- Neither the transaction nor the store has a range lock that answers. -/
def Asks (engine : Engine) (store : Bytes) (fromKey : Option KeyBytes) : Prop :=
  searchCovering engine.transactionLocks store fromKey = some none ∧
    searchCovering (engine.databaseLocks store) store fromKey = some none

/-- The transaction has put no key inside the range, and has left the key at its end. -/
def Unchanged (engine : Engine) (lock : KeyRange) : Prop :=
  (∀ key stored, lock.Inside key →
    engine.session.transaction.writes ⟨lock.store, key⟩ = some (some stored) →
    stored.value = [] ∨ ⟨lock.store, key⟩ ∈ engine.session.transaction.deletedKeys) ∧
  ∀ key, lock.EndsAt key → ⟨lock.store, key⟩ ∉ engine.session.transaction.deletedKeys ∧
    ∀ stored, engine.session.transaction.writes ⟨lock.store, key⟩ = some (some stored) →
      stored.value ≠ []

/-- The search for a lock at the beginning of the key space comes to one: no node above it has a
finite maximum upper bound. -/
def ShowsStart (tree : RangeTree) (store : Bytes) : Prop :=
  ∃ id, Visited tree (prunedInterval nullOrder none none) id ∧
    (tree.node id).data.store = store ∧ (tree.node id).lower = none

/-- A range from the beginning of the key space goes to such a place: its end is infinite, or
the search comes to the seat of the range, and goes on below it. -/
def StartOpen (tree : RangeTree) (toKey : Option KeyBytes) : Prop :=
  toKey = none ∨ ∀ seat, itreeLocation nullOrder tree none toKey = some (some seat) →
    Visited tree (prunedInterval nullOrder none none) seat ∧
      (matches? nullOrder tree seat none toKey = true ∨ (tree.node seat).maxUpper = none)

/-- The search comes to a lock in the tree of the transaction, or in that of the store, or to the
place of the one that is granted; and in the tree of the transaction, to the place of the lock
that is taken from there. -/
def StartReached (engine : Engine) (store : Bytes) (reply : Option KeyBytes) : Prop :=
  ShowsStart engine.transactionLocks store ∨
  (∀ lock, engine.HoldsRange lock → lock.store = store → lock.fromKey = none →
      StartOpen engine.transactionLocks lock.toKey) ∧
    (ShowsStart (engine.databaseLocks store) store ∨
      StartOpen (engine.databaseLocks store) reply ∧ StartOpen engine.transactionLocks reply)

/-- The clock does not go back, and the meta server answers with the next key it has. -/
def Proper (engine : Engine) : Event → Prop
  | .access now _ => engine.session.clock ≤ now
  | .firstKey store reply => IsNextKey (engine.Stores store) ⊥ (reply.map GBytes.content)
  | .nextKey store key reply =>
      IsNextKey (engine.Stores store) (key.content : WithBot Bytes) (reply.map GBytes.content)
  | .commit | .rollback => True

/-- A key that was not seen is put outside the range locks of the node, a key that was seen is
deleted, or put without a value, where none of them ends; the meta server is asked only about
keys that the transaction has not changed; and the first key is asked for where there is one,
and where the search finds its lock. -/
def Undisturbed (engine : Engine) : Event → Prop
  | .access _ (.put key value) =>
      if value ≠ [] ∧ key ∉ engine.session.transaction.deletedKeys then
        engine.gets key ≠ none ∨ engine.Outside key
      else engine.gets key = none ∨ engine.NoEnd key
  | .access _ (.delete key) => engine.gets key = none ∨ engine.NoEnd key
  | .access _ (.get _) | .access _ (.getForUpdate _) => True
  | .firstKey store reply =>
      (∃ key, engine.Sees store key) ∧
      (engine.Asks store none → engine.Unchanged ⟨store, none, reply⟩) ∧
      engine.StartReached store reply
  | .nextKey store key reply =>
      engine.Asks store (some key) → engine.Unchanged ⟨store, some key, reply⟩
  | .commit => ∀ key ∈ engine.session.transaction.deletedKeys, ∀ stored,
      engine.session.transaction.writes key = some (some stored) → stored.value ≠ [] →
      engine.Outside key
  | .rollback => True

/-- What a step may be. -/
def Allowed (engine : Engine) (event : Event) : Prop :=
  engine.Proper event ∧ engine.Undisturbed event

/-- A node without locks and values, whose transaction has just begun. -/
structure Fresh (engine : Engine) : Prop where
  begun : engine.session.transaction = .begin
  ticking : 0 < engine.session.clock
  unlocked : ∀ key, engine.session.locks key = none
  unstored : ∀ key, engine.session.store key = none
  stored : ∀ key, engine.server key ≠ some []
  databaseLocks : ∀ store, engine.databaseLocks store = newRangeTree
  transactionLocks : engine.transactionLocks = newRangeTree
  inTime : engine.rollback = false

/-- The lock answers for what is seen and for what the meta server has. -/
def Fits (engine : Engine) (lock : KeyRange) : Prop :=
  lock.Answers (engine.Sees lock.store) ∧ lock.Answers (engine.Stores lock.store)

structure Upheld (engine : Engine) : Prop where
  recorded : engine.Recorded
  inTime : engine.rollback = false
  database : ∀ store, Keeps (engine.databaseLocks store) fun lock =>
    lock.store = store ∧ engine.Fits lock
  transaction : Keeps engine.transactionLocks fun lock => engine.HoldsRange lock ∧ engine.Fits lock

variable {next : Engine}

theorem Fresh.upheld (fresh : engine.Fresh) : engine.Upheld where
  recorded :=
    { ticking := fresh.ticking
      record := fun key => by
        have same : engine.committing key = engine.server key := by
          rw [committing, fresh.begun]
          rfl
        rw [same]
        apply begun_record fresh.begun (fresh.stored key)
        · exact fun held => absurd (fresh.unlocked key) held
        · exact fun _ => fresh.unstored key
        · exact fun held => absurd (fresh.unlocked key) held }
  inTime := fresh.inTime
  database store := by
    rw [fresh.databaseLocks store]
    exact keeps_new _
  transaction := by
    rw [fresh.transactionLocks]
    exact keeps_new _

/-- A step that leaves the range locks of the node, or takes those of a transaction away. -/
theorem Upheld.carry (upheld : engine.Upheld) (recorded : next.Recorded)
    (inTime : next.rollback = false) (database : next.databaseLocks = engine.databaseLocks)
    (transaction : next.transactionLocks = engine.transactionLocks ∨
      next.transactionLocks = newRangeTree)
    (fits : ∀ lock, engine.HoldsRange lock → engine.Fits lock → next.Fits lock) : next.Upheld where
  recorded := recorded
  inTime := inTime
  database store := by
    rw [database]
    apply (upheld.database store).imp
    rintro lock present ⟨named, fit⟩
    exact ⟨named, fits lock ⟨lock, named ▸ present⟩ fit⟩
  transaction := by
    rcases transaction with same | new
    · rw [same]
      apply upheld.transaction.imp
      rintro lock _ ⟨held, fit⟩
      refine ⟨?_, fits lock held fit⟩
      unfold HoldsRange
      rw [database]
      exact held
    · rw [new]
      exact keeps_new _

/-- What the transaction sees changes at one key. -/
theorem fits_of_change (key : QualifiedKey) (fit : engine.Fits lock)
    (server : next.server = engine.server)
    (others : ∀ other, other ≠ key → next.gets other = engine.gets other)
    (appears : next.gets key ≠ none → engine.gets key ≠ none ∨
      (lock.store = key.store → ¬lock.Inside key.key))
    (vanishes : next.gets key = none → engine.gets key = none ∨
      (lock.store = key.store → ¬lock.EndsAt key.key)) : next.Fits lock := by
  constructor
  · by_cases named : lock.store = key.store
    · apply fit.1.update key.key
      · intro other apart
        unfold Sees
        rw [others ⟨lock.store, other⟩ fun same => apart (congrArg QualifiedKey.key same)]
      · unfold Sees
        rw [named]
        exact fun present => (appears present).imp_right fun outside => outside named
      · unfold Sees
        rw [named]
        intro gone
        refine (vanishes (not_not.mp gone)).imp (fun before => not_not.mpr before)
          fun away => away named
    · apply fit.1.congr
      intro other
      unfold Sees
      rw [others ⟨lock.store, other⟩ fun same => named (congrArg QualifiedKey.store same)]
  · apply fit.2.congr
    intro other
    unfold Stores
    rw [server]

variable {outcome : Outcome}

variable (upheld : engine.Upheld)
include upheld

theorem Upheld.access {now : Nat} {operation : Operation}
    (allowed : engine.Allowed (.access now operation))
    (taken : engine.access now operation = some (next, outcome)) : next.Upheld := by
  obtain ⟨timely, undisturbed⟩ := allowed
  have accessed := upheld.recorded.access timely taken
  apply upheld.carry accessed.recorded (accessed.rollback.trans upheld.inTime)
    accessed.databaseLocks (.inl accessed.transactionLocks)
  intro lock held fit
  cases operation with
  | get key | getForUpdate key =>
    apply fits_of_change key fit accessed.server
    · exact fun other _ => accessed.gets other
    · intro present
      rw [accessed.gets] at present
      exact .inl present
    · exact fun gone => .inl ((accessed.gets key).symm.trans gone)
  | put key value =>
    have new : next.gets key = if key ∈ engine.session.transaction.deletedKeys then none
        else nonempty value := (accessed.gets key).trans (if_pos rfl)
    have condition : if value ≠ [] ∧ key ∉ engine.session.transaction.deletedKeys then
        engine.gets key ≠ none ∨ engine.Outside key
      else engine.gets key = none ∨ engine.NoEnd key := undisturbed
    apply fits_of_change key fit accessed.server
    · exact fun other apart => (accessed.gets other).trans (if_neg apart)
    · intro present
      rw [new] at present
      split at condition
      · exact condition.imp_right fun outside => outside lock held
      · rename_i unseen
        refine absurd ?_ present
        by_cases listed : key ∈ engine.session.transaction.deletedKeys
        · exact if_pos listed
        · have empty : value = [] := by
            by_contra filled
            exact unseen ⟨filled, listed⟩
          rw [if_neg listed, empty]
          rfl
    · intro gone
      rw [new] at gone
      split at condition
      · rename_i seen
        rw [if_neg seen.2, nonempty, if_neg seen.1] at gone
        cases gone
      · exact condition.imp_right fun away => away lock held
  | delete key =>
    apply fits_of_change key fit accessed.server
    · exact fun other apart => (accessed.gets other).trans (if_neg apart)
    · exact fun present => absurd ((accessed.gets key).trans (if_pos rfl)) present
    · exact fun _ => undisturbed.imp_right fun away => away lock held

/-- What is committed is what was seen, and keys that were put again. -/
theorem Upheld.commit (undisturbed : engine.Undisturbed .commit) : engine.commit.Upheld := by
  apply upheld.carry upheld.recorded.commit rfl rfl (.inr rfl)
  intro lock held fit
  have committed : lock.Answers fun key => engine.committing ⟨lock.store, key⟩ ≠ none := by
    constructor
    · intro key inside present
      by_cases listed : ⟨lock.store, key⟩ ∈ engine.session.transaction.deletedKeys
      · have record := upheld.recorded.record ⟨lock.store, key⟩
        cases wrote : engine.session.transaction.writes ⟨lock.store, key⟩ with
        | none =>
          have gone := record.unwritten wrote
          rw [if_pos listed] at gone
          exact present gone.2
        | some changed =>
          cases changed with
          | none => exact present (record.deleted wrote).2
          | some stored =>
            have same := (record.put stored wrote).2
            have filled : stored.value ≠ [] := by
              intro empty
              rw [empty] at same
              exact present same
            exact undisturbed _ listed stored wrote filled lock held rfl inside
      · apply fit.1.1 key inside
        unfold Sees
        rw [upheld.recorded.gets, if_neg listed]
        exact present
    · intro key ends
      have seen := fit.1.2 key ends
      unfold Sees at seen
      rw [upheld.recorded.gets] at seen
      split at seen
      · exact absurd rfl seen
      · exact seen
  constructor
  · apply committed.congr
    intro key
    unfold Sees
    rw [(upheld.recorded.gets_commit _).1]
  · apply committed.congr
    intro key
    unfold Stores
    rw [(upheld.recorded.gets_commit _).2]

theorem Upheld.abandon : engine.abandon.Upheld := by
  apply upheld.carry upheld.recorded.abandon rfl rfl (.inr rfl)
  intro lock _ fit
  constructor
  · apply fit.2.congr
    intro key
    unfold Sees Stores
    rw [upheld.recorded.gets_abandon]
  · exact fit.2

omit upheld

/-- A lock that the meta server grants answers for what is seen, too. -/
theorem answers_of_unchanged (recorded : engine.Recorded) (unchanged : engine.Unchanged lock)
    (answers : lock.Answers (engine.Stores lock.store)) :
    lock.Answers (engine.Sees lock.store) := by
  constructor
  · intro key inside present
    have missing := not_not.mp (answers.1 key inside)
    have record := recorded.record ⟨lock.store, key⟩
    unfold Sees at present
    rw [recorded.gets] at present
    split at present
    · exact present rfl
    · rename_i unlisted
      cases wrote : engine.session.transaction.writes ⟨lock.store, key⟩ with
      | none =>
        have same := record.unwritten wrote
        rw [if_neg unlisted] at same
        exact present (same.trans missing)
      | some changed =>
        cases changed with
        | none => exact unlisted (record.deleted wrote).1
        | some stored =>
          rcases unchanged.1 key stored inside wrote with empty | listed
          · have same := (record.put stored wrote).2
            rw [empty] at same
            exact present same
          · exact unlisted listed
  · intro key ends
    have there := answers.2 key ends
    obtain ⟨unlisted, filled⟩ := unchanged.2 key ends
    have record := recorded.record ⟨lock.store, key⟩
    unfold Sees
    rw [recorded.gets, if_neg unlisted]
    cases wrote : engine.session.transaction.writes ⟨lock.store, key⟩ with
    | none =>
      have same := record.unwritten wrote
      rw [if_neg unlisted] at same
      rw [same]
      exact there
    | some changed =>
      cases changed with
      | none => exact absurd (record.deleted wrote).1 unlisted
      | some stored =>
        rw [(record.put stored wrote).2, nonempty, if_neg (filled stored wrote)]
        exact some_ne_none _

/-- The search finds a lock that it comes to. -/
theorem ShowsStart.searchCovering (shows : ShowsStart tree store) (keeps : Keeps tree kept) :
    ∃ lock, searchCovering tree store none = some (some lock) := by
  obtain ⟨shape, contents, sound, _⟩ := keeps
  obtain ⟨id, visit, named, unbounded⟩ := shows
  have shown : DataClient.searchCovering tree store none =
      some (showAll tree (meetsInterval nullOrder none none) (stopAt (coversPoint store none))
        (visited tree (prunedInterval nullOrder none none) shape) none) := by
    unfold DataClient.searchCovering
    rw [findRangeLockCoveringPoint_eq]
    exact sound.searchLoop_eq none
  rw [showAll_stopAt] at shown
  have passes : (meetsInterval nullOrder none none (tree.node id) &&
      coversPoint store none (tree.node id)) = true := by
    rw [Bool.and_eq_true]
    constructor
    · simp [meetsInterval, nullOrder]
    · exact decide_eq_true ⟨named, unbounded⟩
  have found : ((visited tree (prunedInterval nullOrder none none) shape).find? fun id =>
      meetsInterval nullOrder none none (tree.node id) &&
        coversPoint store none (tree.node id)) ≠ none := by
    intro nothing
    exact List.find?_eq_none.mp nothing id (visit.mem sound.toPointerTree) passes
  obtain ⟨first, isFirst⟩ := ne_none_iff_exists'.mp found
  rw [isFirst] at shown
  exact ⟨_, shown⟩

/-- It comes to a lock whose place it comes to. -/
theorem StartOpen.searchCovering (lock : KeyRange) {result : RangeTree} {later : KeyRange → Prop}
    (isOpen : StartOpen tree lock.toKey) (keeps : Keeps tree kept)
    (keepsResult : Keeps result later) (begins : lock.fromKey = none)
    (inserted : gzochidItreeInsert nullOrder tree lock.fromKey lock.toKey lock = some result)
    (present : lookup nullOrder result lock.fromKey lock.toKey = some (some lock)) :
    ∃ found, searchCovering result lock.store none = some (some found) := by
  rcases isOpen with unbounded | reached
  · obtain ⟨found, searched, _, complete⟩ :=
      keepsResult.search none none (coversPoint lock.store none)
    rw [← findRangeLockCoveringPoint_eq] at searched
    have there : found ≠ none := by
      apply complete lock present
      · rw [begins]
      · rw [unbounded]
      · intro node data low _
        rw [begins] at low
        exact decide_eq_true ⟨congrArg KeyRange.store data, (lower_eq_bot node.lower).mp low⟩
    obtain ⟨first, same⟩ := ne_none_iff_exists'.mp there
    exact ⟨first, same ▸ searched⟩
  · obtain ⟨shape, contents, sound, _, grown, attained, _⟩ := keeps
    have infinite : ∀ node : IntervalTree.Node (Option KeyBytes) KeyRange,
        prunedInterval nullOrder none none node = false ↔
          nullOrder.upper none ≤ nullOrder.upper node.maxUpper := by
      intro node
      simp [prunedInterval, prunedPoint]
    have below : ∀ seat, itreeLocation nullOrder tree lock.fromKey lock.toKey = some (some seat) →
        Visited tree (prunedInterval nullOrder none none) seat ∧
          (matches? nullOrder tree seat lock.fromKey lock.toKey = true ∨
            prunedInterval nullOrder none none (tree.node seat) = false) := by
      rw [begins]
      intro seat located
      obtain ⟨visit, here⟩ := reached seat located
      refine ⟨visit, here.imp_right fun widest => (infinite _).mpr ?_⟩
      rw [widest]
    obtain ⟨id, visit, data, low⟩ := sound.insert_visited grown attained
      (fun first second wider open_ => (infinite _).mpr (((infinite _).mp open_).trans wider))
      below inserted
    rw [begins] at low
    exact ShowsStart.searchCovering ⟨id, visit, congrArg KeyRange.store data,
      (lower_eq_bot _).mp low⟩ keepsResult

/-- A lock of the store goes into the tree of the transaction. -/
theorem Upheld.checkAndSet (upheld : engine.Upheld)
    (searched : searchCovering (engine.databaseLocks store) store fromKey = some (some lock)) :
    ∃ later, gzochidItreeInsert nullOrder engine.transactionLocks lock.fromKey lock.toKey lock =
        some later ∧
      engine.checkAndSetRangeLock store fromKey =
        some ({ engine with transactionLocks := later }, true) ∧
      Upheld { engine with transactionLocks := later } ∧
      lookup nullOrder later lock.fromKey lock.toKey = some (some lock) ∧
      lock.Covers store fromKey := by
  obtain ⟨found, equal, sound, _⟩ := (upheld.database store).searchCovering store fromKey
  rw [searched] at equal
  injection equal with equal
  obtain ⟨⟨named, fit⟩, covers, present⟩ := sound lock equal.symm
  have held : engine.HoldsRange lock := ⟨lock, named ▸ present⟩
  obtain ⟨later, inserted, keeps, listed, _⟩ := upheld.transaction.insert ⟨held, fit⟩
  refine ⟨later, inserted, ?_, ?_, listed, covers⟩
  · simp only [checkAndSetRangeLock, searched, inserted, map_some]
  · exact ⟨⟨upheld.recorded.ticking, upheld.recorded.record⟩, upheld.inTime, upheld.database, keeps⟩

variable {bound : Option KeyBytes}

theorem lower_of_gBytesEqual (same : gBytesEqual bound fromKey) :
    ∃ key, fromKey = some key ∧ nullOrder.lower bound = (key.content : WithBot Bytes) := by
  cases bound with
  | none => cases same
  | some first =>
    cases fromKey with
    | none => cases same
    | some key => exact ⟨key, rfl, congrArg _ (of_decide_eq_true same)⟩

theorem upper_of_gBytesEqual (same : gBytesEqual bound fromKey) :
    ∃ key, fromKey = some key ∧ nullOrder.upper bound = (key.content : WithTop Bytes) := by
  cases bound with
  | none => cases same
  | some first =>
    cases fromKey with
    | none => cases same
    | some key => exact ⟨key, rfl, congrArg _ (of_decide_eq_true same)⟩

/-- A lock that the meta server grants goes into the tree of the store. -/
theorem Upheld.success (upheld : engine.Upheld)
    (right : IsNextKey (engine.Stores store) (nullOrder.lower fromKey) (reply.map GBytes.content))
    (asks : engine.Asks store fromKey) (unchanged : engine.Unchanged ⟨store, fromKey, reply⟩) :
    ∃ tree, gzochidItreeInsert nullOrder (engine.databaseLocks store) fromKey reply
        ⟨store, fromKey, reply⟩ = some tree ∧
      engine.rangeLockSuccessCallback store fromKey reply = some { engine with
        databaseLocks := update engine.databaseLocks store tree } ∧
      Upheld { engine with databaseLocks := update engine.databaseLocks store tree } ∧
      lookup nullOrder tree fromKey reply = some (some ⟨store, fromKey, reply⟩) := by
  have stores : KeyRange.Answers ⟨store, fromKey, reply⟩ (engine.Stores store) :=
    KeyRange.answers_of_reply right
  have fit : engine.Fits ⟨store, fromKey, reply⟩ :=
    ⟨answers_of_unchanged upheld.recorded unchanged stores, stores⟩
  have here : (⟨store, fromKey, reply⟩ : KeyRange).store = store ∧
      engine.Fits ⟨store, fromKey, reply⟩ := ⟨rfl, fit⟩
  obtain ⟨tree, inserted, keeps, listed, persists⟩ := (upheld.database store).insert here
  refine ⟨tree, inserted, ?_, ?_, listed⟩
  · obtain ⟨found, searched, stopped, _⟩ := (upheld.database store).search fromKey reply
      fun node => decide (node.data.store = store ∧ gBytesEqual node.lower fromKey ∧
        gBytesEqual node.upper reply)
    rw [← findExactRangeLock_eq] at searched
    cases found with
    | none => simp only [rangeLockSuccessCallback, searched, inserted, map_some]
    | some same =>
      -- a lock with just these bounds would have covered the key
      exfalso
      obtain ⟨⟨node, passed, data, low, high⟩, _, present⟩ := stopped same rfl
      obtain ⟨named, sameLower, sameUpper⟩ := of_decide_eq_true passed
      obtain ⟨key, point, lowest⟩ := lower_of_gBytesEqual sameLower
      obtain ⟨last, bound, highest⟩ := upper_of_gBytesEqual sameUpper
      subst point bound
      obtain ⟨missing, searchedNone, _, complete⟩ :=
        (upheld.database store).searchCovering store (some key)
      rw [asks.2] at searchedNone
      injection searchedNone with nothing
      refine complete same key rfl ⟨data ▸ named, ?_, ?_⟩ present nothing.symm
      · rw [← low, lowest]
      · rw [← high, highest]
        exact WithTop.coe_lt_coe.mpr (WithBot.coe_lt_coe.mp right.1)
  · refine ⟨⟨upheld.recorded.ticking, upheld.recorded.record⟩, upheld.inTime, ?_, ?_⟩
    · intro other
      change Keeps (update engine.databaseLocks store tree other) fun lock =>
        lock.store = other ∧ engine.Fits lock
      by_cases same : other = store
      · subst same
        rw [update_self]
        exact keeps
      · rw [update_of_ne same]
        exact upheld.database other
    · apply upheld.transaction.imp
      rintro lock _ ⟨held, fits⟩
      refine ⟨?_, fits⟩
      change ∃ held, lookup nullOrder (update engine.databaseLocks store tree lock.store)
        lock.fromKey lock.toKey = some (some held)
      by_cases same : lock.store = store
      · rw [same, update_self]
        exact persists lock.fromKey lock.toKey (same ▸ held)
      · rw [update_of_ne same]
        exact held

/-- What `ensure_range_lock` leaves: the transaction finds a lock. -/
structure Ensured (engine next : Engine) (store : Bytes) (fromKey : Option KeyBytes) : Prop where
  upheld : next.Upheld
  session : next.session = engine.session
  server : next.server = engine.server
  found : ∃ lock, searchCovering next.transactionLocks store fromKey = some (some lock)

variable {key : KeyBytes}

include upheld

/-- A transaction with a lock that covers a key finds one. -/
theorem Upheld.finds (covers : lock.Covers store (some key))
    (present : lookup nullOrder engine.transactionLocks lock.fromKey lock.toKey =
      some (some lock)) :
    ∃ lock, searchCovering engine.transactionLocks store (some key) = some (some lock) := by
  obtain ⟨found, searched, _, complete⟩ := upheld.transaction.searchCovering store (some key)
  obtain ⟨other, same⟩ := ne_none_iff_exists'.mp (complete lock key rfl covers present)
  exact ⟨other, same ▸ searched⟩

theorem Upheld.ensureNext (allowed : engine.Allowed (.nextKey store key reply)) :
    ∃ next, engine.ensureRangeLock store (some key) reply = some (next, true) ∧
      Ensured engine next store (some key) := by
  obtain ⟨proper, undisturbed⟩ := allowed
  have right : IsNextKey (engine.Stores store) (nullOrder.lower (some key))
      (reply.map GBytes.content) := proper
  obtain ⟨own, searched, _, _⟩ := upheld.transaction.searchCovering store (some key)
  unfold ensureRangeLock
  rw [searched]
  cases own with
  | some lock => exact ⟨engine, rfl, upheld, rfl, rfl, lock, searched⟩
  | none =>
    obtain ⟨cached, searchedStore, _, _⟩ :=
      (upheld.database store).searchCovering store (some key)
    cases cached with
    | some lock =>
      obtain ⟨later, _, checked, kept, present, covers⟩ := upheld.checkAndSet searchedStore
      rw [checked]
      exact ⟨_, rfl, kept, rfl, rfl, kept.finds covers present⟩
    | none =>
      have asks : engine.Asks store (some key) := ⟨searched, searchedStore⟩
      have missed : engine.checkAndSetRangeLock store (some key) = some (engine, false) := by
        simp only [checkAndSetRangeLock, searchedStore]
      obtain ⟨tree, _, granted, keptGranted, presentGranted⟩ :=
        upheld.success right asks (undisturbed asks)
      have coversGranted : KeyRange.Covers ⟨store, some key, reply⟩ store (some key) := by
        refine ⟨rfl, le_refl _, ?_⟩
        cases reply with
        | none => exact WithTop.coe_lt_top _
        | some last => exact WithTop.coe_lt_coe.mpr (WithBot.coe_lt_coe.mp right.1)
      obtain ⟨found, searchedGranted, _, complete⟩ :=
        (keptGranted.database store).searchCovering store (some key)
      have there : lookup nullOrder (update engine.databaseLocks store tree store)
          (some key) reply = some (some ⟨store, some key, reply⟩) := by
        rw [update_self]
        exact presentGranted
      obtain ⟨lock, same⟩ := ne_none_iff_exists'.mp
        (complete ⟨store, some key, reply⟩ key rfl coversGranted there)
      subst same
      obtain ⟨later, _, checked, kept, present, covers⟩ :=
        keptGranted.checkAndSet searchedGranted
      rw [missed, granted]
      dsimp only
      rw [checked]
      exact ⟨_, rfl, kept, rfl, rfl, kept.finds covers present⟩

theorem Upheld.ensureFirst (allowed : engine.Allowed (.firstKey store reply)) :
    ∃ next, engine.ensureRangeLock store none reply = some (next, true) ∧
      Ensured engine next store none := by
  obtain ⟨proper, _, unchanged, reached⟩ := allowed
  have right : IsNextKey (engine.Stores store) (nullOrder.lower none)
      (reply.map GBytes.content) := proper
  obtain ⟨own, searched, _, _⟩ := upheld.transaction.searchCovering store none
  unfold ensureRangeLock
  rw [searched]
  cases own with
  | some lock => exact ⟨engine, rfl, upheld, rfl, rfl, lock, searched⟩
  | none =>
    obtain ⟨known, either⟩ := reached.resolve_left fun shows => by
      obtain ⟨lock, found⟩ := shows.searchCovering upheld.transaction
      cases searched.symm.trans found
    obtain ⟨cached, searchedStore, held, _⟩ := (upheld.database store).searchCovering store none
    cases cached with
    | some lock =>
      obtain ⟨later, inserted, checked, kept, present, named, begins⟩ :=
        upheld.checkAndSet searchedStore
      have here : engine.HoldsRange lock := ⟨lock, named ▸ (held lock rfl).2.2⟩
      rw [checked]
      refine ⟨_, rfl, kept, rfl, rfl, ?_⟩
      exact named ▸ (known lock here named begins).searchCovering _ upheld.transaction
        kept.transaction begins inserted present
    | none =>
      have asks : engine.Asks store none := ⟨searched, searchedStore⟩
      have missed : engine.checkAndSetRangeLock store none = some (engine, false) := by
        simp only [checkAndSetRangeLock, searchedStore]
      obtain ⟨seat, ownSeat⟩ := either.resolve_left fun shows => by
        obtain ⟨lock, found⟩ := shows.searchCovering (upheld.database store)
        cases searchedStore.symm.trans found
      obtain ⟨tree, insertedGranted, granted, keptGranted, presentGranted⟩ :=
        upheld.success right asks (unchanged asks)
      have keepsTree := keptGranted.database store
      dsimp only at keepsTree
      have there : update engine.databaseLocks store tree store = tree := update_self _ _ _
      obtain ⟨lock, searchedGranted⟩ := StartOpen.searchCovering ⟨store, none, reply⟩ seat
        (upheld.database store) keepsTree rfl (insertedGranted.trans (congrArg some there.symm))
        (there.symm ▸ presentGranted)
      obtain ⟨same, equal, held, _⟩ := keepsTree.searchCovering store none
      cases searchedGranted.symm.trans equal
      obtain ⟨later, inserted, checked, kept, present, named, begins⟩ :=
        keptGranted.checkAndSet searchedGranted
      -- the lock that is found is the one that was granted, or was there before
      have isOpen : StartOpen engine.transactionLocks lock.toKey := by
        have listed := (held lock rfl).2.2
        rw [there] at listed
        rcases (upheld.database store).of_insert ⟨store, none, reply⟩ insertedGranted listed with
          new | old
        · exact new ▸ ownSeat
        · exact known lock ⟨lock, named ▸ old⟩ named begins
      rw [missed, granted]
      dsimp only
      rw [checked]
      refine ⟨_, rfl, kept, rfl, rfl, ?_⟩
      exact named ▸ isOpen.searchCovering _ upheld.transaction kept.transaction begins inserted
        present

/-- The key that `transaction_next_key` returns is the next one that is seen. -/
theorem Upheld.nextKey (allowed : engine.Allowed (.nextKey store key reply)) :
    ∃ next found, engine.transactionNextKey store key reply = some (next, found) ∧
      next.Upheld ∧ IsNextKey (next.Sees store) (key.content : WithBot Bytes) found := by
  obtain ⟨next, ensured, reached⟩ := upheld.ensureNext allowed
  obtain ⟨lock, searched⟩ := reached.found
  obtain ⟨found, equal, sound, _⟩ := reached.upheld.transaction.searchCovering store (some key)
  cases searched.symm.trans equal
  obtain ⟨⟨_, fit⟩, covers, _⟩ := sound lock rfl
  refine ⟨next, lock.toKey.map GBytes.content, ?_, reached.upheld, ?_⟩
  · simp only [transactionNextKey, ensured, searched, map_some, bind_some]
  · have answers := fit.1
    rw [covers.1] at answers
    exact answers.next covers

omit upheld

theorem Ensured.sees {fromKey : Option KeyBytes} (ensured : Ensured engine next store fromKey)
    (key : Bytes) : next.Sees store key ↔ engine.Sees store key := by
  unfold Sees gets
  rw [ensured.session, ensured.server]

theorem Upheld.firstKey (upheld : engine.Upheld)
    (allowed : engine.Allowed (.firstKey store reply)) :
    ∃ next found, engine.transactionFirstKey store reply = some (next, found) ∧
      next.Upheld ∧ IsNextKey (next.Sees store) ⊥ found := by
  obtain ⟨next, ensured, reached⟩ := upheld.ensureFirst allowed
  obtain ⟨lock, searched⟩ := reached.found
  obtain ⟨found, equal, sound, _⟩ := reached.upheld.transaction.searchCovering store none
  cases searched.symm.trans equal
  obtain ⟨⟨_, fit⟩, ⟨named, begins⟩, _⟩ := sound lock rfl
  obtain ⟨key, seen⟩ := allowed.2.1
  have answers := fit.1
  rw [named] at answers
  obtain ⟨last, bound, right⟩ := answers.first begins ((reached.sees key).mpr seen)
  refine ⟨next, some last.content, ?_, reached.upheld, right⟩
  simp only [transactionFirstKey, ensured, searched, map_some, bound]

theorem Upheld.step (upheld : engine.Upheld) {event : Event} (allowed : engine.Allowed event)
    (taken : engine.step event = some (next, outcome)) :
    next.Upheld := by
  unfold Engine.step at taken
  rw [upheld.inTime] at taken
  cases event with
  | access now operation => exact upheld.access allowed taken
  | firstKey store reply =>
    obtain ⟨reached, found, called, kept, _⟩ := upheld.firstKey allowed
    simp only [called, Bool.false_eq_true, if_false, map_some] at taken
    cases taken
    exact kept
  | nextKey store key reply =>
    obtain ⟨reached, found, called, kept, _⟩ := upheld.nextKey allowed
    simp only [called, Bool.false_eq_true, if_false, map_some] at taken
    cases taken
    exact kept
  | commit =>
    cases taken
    exact upheld.commit allowed.2
  | rollback =>
    cases taken
    exact upheld.abandon

theorem Fresh.run {start : Engine} (fresh : start.Fresh) {trace : List (Event × Outcome)}
    (run : Run Engine.step Allowed start trace engine) : engine.Upheld :=
  run.state_invariant Upheld fresh.upheld fun upheld allowed taken => upheld.step allowed taken

end Engine

/-- In a run whose steps are all undisturbed, the first key and the next one that a
transaction gets are the least ones for which it would get a value. -/
theorem key_iteration_agrees {start : Engine} (fresh : start.Fresh)
    {trace : List (Engine.Event × Engine.Outcome)}
    (run : Run Engine.step Engine.Allowed start trace engine) :
    (∀ store reply, engine.Allowed (.firstKey store reply) →
      ∃ next found, engine.step (.firstKey store reply) = some (next, .key found) ∧
        IsNextKey (fun key => next.gets ⟨store, key⟩ ≠ none) ⊥ found) ∧
    ∀ store key reply, engine.Allowed (.nextKey store key reply) →
      ∃ next found, engine.step (.nextKey store key reply) = some (next, .key found) ∧
        IsNextKey (fun other => next.gets ⟨store, other⟩ ≠ none) (key.content : WithBot Bytes)
          found := by
  have upheld := fresh.run run
  constructor
  · intro store reply allowed
    obtain ⟨next, found, called, _, right⟩ := upheld.firstKey allowed
    refine ⟨next, found, ?_, right⟩
    simp only [Engine.step, upheld.inTime, called, Bool.false_eq_true, if_false, map_some]
  · intro store key reply allowed
    obtain ⟨next, found, called, _, right⟩ := upheld.nextKey allowed
    refine ⟨next, found, ?_, right⟩
    simp only [Engine.step, upheld.inTime, called, Bool.false_eq_true, if_false, map_some]

namespace Engine

/-- A node without locks, when the meta server has the given keys in a store. -/
def connected (keys : List Bytes) : Engine where
  session := { Session.initial with clock := 1 }
  server key := if key.store = someKey.store ∧ key.key ∈ keys then some [9] else none
  databaseLocks _ := newRangeTree
  transactionLocks := newRangeTree
  rollback := false

theorem connected_fresh (keys : List Bytes) : (connected keys).Fresh where
  begun := rfl
  ticking := Nat.one_pos
  unlocked _ := rfl
  unstored _ := rfl
  stored key := by
    simp only [connected]
    split
    · simp
    · simp
  databaseLocks _ := rfl
  transactionLocks := rfl
  inTime := rfl

/-- A key is put, and committed. -/
def putLast : List Event := [.access 2 (.put ⟨someKey.store, [5]⟩ [7]), .commit]

def committed : Engine := stateAfter step (connected [[1], [3]]) putLast

theorem stores_committed (key : Bytes) :
    committed.Stores someKey.store key ↔ key = [5] ∨ key = [1] ∨ key = [3] := by
  have server : committed.server = update (connected [[1], [3]]).server
      ⟨someKey.store, [5]⟩ (some [7]) := rfl
  unfold Stores
  rw [server]
  by_cases last : key = [5]
  · subst last
    simp
  · have apart : (⟨someKey.store, key⟩ : QualifiedKey) ≠ ⟨someKey.store, [5]⟩ :=
      fun same => last (congrArg QualifiedKey.key same)
    rw [update_of_ne apart]
    simp [connected, last, or_iff_not_imp_left]

theorem run_committed : ∃ trace, Run step Allowed (connected [[1], [3]]) trace committed := by
  have outside : (connected [[1], [3]]).Outside ⟨someKey.store, [5]⟩ := by
    rintro lock ⟨held, found⟩
    cases found
  have put : Allowed (connected [[1], [3]]) (.access 2 (.put ⟨someKey.store, [5]⟩ [7])) := by
    have filled : ([7] : Bytes) ≠ [] ∧
        ⟨someKey.store, [5]⟩ ∉ (connected [[1], [3]]).session.transaction.deletedKeys := by
      decide
    refine ⟨Nat.le_succ 1, ?_⟩
    dsimp only [Undisturbed]
    rw [if_pos filled]
    exact .inr outside
  have start : Run step Allowed (connected [[1], [3]]) [] (connected [[1], [3]]) := .nil
  have first := start.snoc put rfl
  exact ⟨_, first.snoc (show Allowed _ .commit from ⟨trivial, nofun⟩) rfl⟩

/-- The transaction after that finds it, and the first key. -/
theorem key_iteration_agrees_committed :
    (∃ next found, committed.step (.firstKey someKey.store (some ⟨1, [1]⟩)) =
        some (next, .key found) ∧
      IsNextKey (fun other => next.gets ⟨someKey.store, other⟩ ≠ none) ⊥ found) ∧
    ∃ next found, committed.step (.nextKey someKey.store ⟨0, [3]⟩ (some ⟨1, [5]⟩)) =
        some (next, .key found) ∧
      IsNextKey (fun other => next.gets ⟨someKey.store, other⟩ ≠ none)
        (([3] : Bytes) : WithBot Bytes) found := by
  obtain ⟨trace, run⟩ := run_committed
  have unchanged : ∀ lock, Unchanged committed lock := fun lock =>
    ⟨fun key stored inside wrote => (by cases wrote),
      fun key ends => ⟨List.not_mem_nil, fun stored wrote => (by cases wrote)⟩⟩
  obtain ⟨first, nextKey⟩ := key_iteration_agrees (connected_fresh _) run
  refine ⟨first _ _ ⟨⟨?_, ?_, ?_⟩, ?_, ?_, ?_⟩, nextKey _ _ _ ⟨⟨?_, ?_, ?_⟩, ?_⟩⟩
  · exact WithBot.bot_lt_coe _
  · exact (stores_committed _).mpr (.inr (.inl rfl))
  · intro other _ stored
    rcases (stores_committed other).mp stored with same | same | same
    · exact same ▸ (by decide)
    · exact le_of_eq same.symm
    · exact same ▸ (by decide)
  · exact ⟨[5], show committed.gets ⟨someKey.store, [5]⟩ ≠ none by decide⟩
  · exact fun _ => unchanged _
  · refine .inr ⟨?_, .inr ⟨.inr nofun, .inr nofun⟩⟩
    rintro lock ⟨held, found⟩
    cases found
  · exact WithBot.coe_lt_coe.mpr (by decide)
  · exact (stores_committed _).mpr (.inl rfl)
  · intro other above stored
    rcases (stores_committed other).mp stored with same | same | same
    · exact le_of_eq same.symm
    · rw [same] at above
      exact absurd (WithBot.coe_lt_coe.mp above) (by decide)
    · rw [same] at above
      exact absurd above (lt_irrefl _)
  · exact fun _ => unchanged _

/-- A transaction asks for the key after another one. -/
def askNext : Event := .nextKey someKey.store ⟨0, [1]⟩ (some ⟨1, [3]⟩)

theorem right_askNext : IsNextKey ((connected [[1], [3]]).Stores someKey.store)
    (([1] : Bytes) : WithBot Bytes) (some [3]) := by
  have stores : ∀ key, (connected [[1], [3]]).Stores someKey.store key ↔ key = [1] ∨ key = [3] := by
    intro key
    simp [Stores, connected, or_iff_not_imp_left]
  refine ⟨WithBot.coe_lt_coe.mpr (by decide), (stores _).mpr (.inr rfl), ?_⟩
  intro other above stored
  rcases (stores other).mp stored with same | same
  · rw [same] at above
    exact absurd above (lt_irrefl _)
  · exact le_of_eq same.symm

/-- A key that the transaction puts inside the range is passed over.  Where there is no key,
the first one has no bytes.  And a first key that is asked for after another key's successor
is not found. -/
theorem iteration_disagrees :
    (∃ trace engine next found, Run step Proper (connected [[1], [3]]) trace engine ∧
      engine.step askNext = some (next, .key found) ∧
      ¬IsNextKey (fun key => next.gets ⟨someKey.store, key⟩ ≠ none) (([1] : Bytes) : WithBot Bytes)
        found) ∧
    (∃ next found, (connected []).step (.firstKey someKey.store none) = some (next, .key found) ∧
      ¬IsNextKey (fun key => next.gets ⟨someKey.store, key⟩ ≠ none) ⊥ found) ∧
    ∃ trace engine next found, Run step Proper (connected [[1], [3]]) trace engine ∧
      engine.step (.firstKey someKey.store (some ⟨2, [1]⟩)) = some (next, .key found) ∧
      ¬IsNextKey (fun key => next.gets ⟨someKey.store, key⟩ ≠ none) ⊥ found := by
  have start : Run step Proper (connected [[1], [3]]) [] (connected [[1], [3]]) := .nil
  have asked := start.snoc (show Proper _ askNext from right_askNext) rfl
  refine ⟨?_, ?_, ?_⟩
  · have put := asked.snoc (show Proper _ (.access 2 (.put ⟨someKey.store, [2]⟩ [7])) from
      Nat.le_succ 1) rfl
    refine ⟨_, _, _, some [3], put, rfl, ?_⟩
    rintro ⟨_, _, least⟩
    exact absurd (least [2] (WithBot.coe_lt_coe.mpr (by decide)) (by decide)) (by decide)
  · refine ⟨_, some [], rfl, ?_⟩
    rintro ⟨_, present, _⟩
    exact present rfl
  · refine ⟨_, _, _, none, asked, rfl, ?_⟩
    intro nothing
    exact nothing [1] (WithBot.bot_lt_coe _) (by decide)

end Engine

end Gzochi.DataClient
