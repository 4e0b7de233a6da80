import Gzochi.LockMem.Indexes

/-!
# What the lock table finds

The searches of the interval tree, read as statements about range locks: which locks a
request runs into, and which lock a release finds.
-/

namespace Gzochi.LockMem

open Gzochi.Lib Gzochi.IntervalTree

universe u

variable {Key : Type u} {table : LockTable Key} {nodeId : Nat} {id : LockId}

/-! ## Search functions -/

section SearchFuncs

variable {tree : Itree (Option (GBytes Key)) LockId}
  {meets : IntervalTree.Node (Option (GBytes Key)) LockId → Bool}

/-- A search function that stops at the first interval with a property. -/
def firstWith (test : IntervalTree.Node (Option (GBytes Key)) LockId → Bool) :
    SearchFunc (Option (GBytes Key)) LockId (Option LockId) :=
  fun found node => if test node then (some node.data, true) else (found, false)

theorem showAll_firstWith
    (test : IntervalTree.Node (Option (GBytes Key)) LockId → Bool) (ids : List NodeId) :
    showAll tree meets (firstWith test) ids none =
      (ids.find? fun id => meets (tree.node id) && test (tree.node id)).map
        fun id => (tree.node id).data :=
  showAll_stopAt test ids

/-- The search for a covering lock finds one if there is one among the nodes shown. -/
theorem showAll_covering [LinearOrder Key] (table : LockTable Key) (nodeId : Nat)
    (tree : Itree (Option (GBytes Key)) LockId)
    (meets : IntervalTree.Node (Option (GBytes Key)) LockId → Bool) (ids : List NodeId)
    (found : Option LockId) :
    (showAll tree meets (findMostRecentCoveringRangeLock table nodeId) ids found).isSome =
      (found.isSome || ids.any fun id => meets (tree.node id) &&
        decide ((table.rangeLock (tree.node id).data).nodeId ≠ nodeId)) := by
  induction ids generalizing found with
  | nil => simp [showAll]
  | cons id rest ih =>
    by_cases meeting : meets (tree.node id) = true
    · by_cases own : (table.rangeLock (tree.node id).data).nodeId = nodeId
      · simp [showAll, showNode, meeting, findMostRecentCoveringRangeLock, own, ih]
      · cases found with
        | none => simp [showAll, showNode, meeting, findMostRecentCoveringRangeLock, own, ih]
        | some earlier =>
          simp only [showAll, showNode, meeting, if_true, findMostRecentCoveringRangeLock]
          split <;> simp [ih]
    · simp [showAll, showNode, meeting, ih]

theorem findMostRecentCoveringRangeLock_cases [LinearOrder Key] (table : LockTable Key)
    (nodeId : Nat) (found : Option LockId)
    (node : IntervalTree.Node (Option (GBytes Key)) LockId) :
    findMostRecentCoveringRangeLock table nodeId found node = (found, false) ∨
      findMostRecentCoveringRangeLock table nodeId found node = (some node.data, false) ∧
        (table.rangeLock node.data).nodeId ≠ nodeId := by
  cases found with
  | none =>
    by_cases own : (table.rangeLock node.data).nodeId = nodeId
    · exact .inl (by simp [findMostRecentCoveringRangeLock, own])
    · exact .inr ⟨by simp [findMostRecentCoveringRangeLock, own], own⟩
  | some earlier =>
    simp only [findMostRecentCoveringRangeLock]
    split
    next newer => exact .inr ⟨rfl, newer.1⟩
    next => exact .inl rfl

/-- What the search for a covering lock finds is among the nodes shown. -/
theorem mem_of_showAll_covering [LinearOrder Key] {ids : List NodeId} {found : Option LockId}
    (shown : showAll tree meets (findMostRecentCoveringRangeLock table nodeId) ids found =
      some id) :
    found = some id ∨ ∃ other ∈ ids, meets (tree.node other) = true ∧ (tree.node other).data = id ∧
      (table.rangeLock id).nodeId ≠ nodeId := by
  induction ids generalizing found with
  | nil => exact .inl shown
  | cons first rest ih =>
    have later : ∀ {middle : Option LockId},
        showAll tree meets (findMostRecentCoveringRangeLock table nodeId) rest middle = some id →
        (middle = found ∨ meets (tree.node first) = true ∧ middle = some (tree.node first).data ∧
          (table.rangeLock (tree.node first).data).nodeId ≠ nodeId) →
        found = some id ∨ ∃ other ∈ first :: rest, meets (tree.node other) = true ∧
          (tree.node other).data = id ∧ (table.rangeLock id).nodeId ≠ nodeId := by
      intro middle shown here
      rcases ih shown with same | ⟨other, inside, there⟩
      · rcases here with kept | ⟨meeting, taken, foreign⟩
        · exact .inl (kept ▸ same)
        · cases taken.symm.trans same
          exact .inr ⟨first, List.mem_cons_self, meeting, rfl, foreign⟩
      · exact .inr ⟨other, List.mem_cons_of_mem first inside, there⟩
    by_cases meeting : meets (tree.node first) = true
    · simp only [showAll, showNode, meeting, if_true] at shown
      rcases findMostRecentCoveringRangeLock_cases table nodeId found (tree.node first) with
        kept | ⟨taken, foreign⟩
      · simp only [kept, Bool.false_eq_true, if_false] at shown
        exact later shown (.inl rfl)
      · simp only [taken, Bool.false_eq_true, if_false] at shown
        exact later shown (.inr ⟨meeting, rfl, foreign⟩)
    · simp only [showAll, showNode, meeting, Bool.false_eq_true, if_false] at shown
      exact later shown (.inl rfl)

end SearchFuncs

/-! ## Locks and nodes of the tree -/

section Tree

variable [LinearOrder Key] {shape : Shape NodeId}
  {contents : Contents (WithBot Key) (WithTop Key) LockId} {fromKey toKey : Option (GBytes Key)}
  {key : GBytes Key}

/-- The range of a lock covers a key. -/
def RangeCovers (table : LockTable Key) (id : LockId) (key : Key) : Prop :=
  rangeLower table id ≤ (key : WithBot Key) ∧ (key : WithTop Key) ≤ rangeUpper table id

/-- A node of the tree stands for a lock with its bounds. -/
theorem lock_of_node (sound : Sound nullOrder table.rangeLocks shape contents)
    (describes : Describes table contents) {node : NodeId} (member : node ∈ shape.ids) :
    (table.rangeLocks.node node).data ∈ table.rangeLocksByTimestamp ∧
      rangeLower table (table.rangeLocks.node node).data =
        nullOrder.lower (table.rangeLocks.node node).lower ∧
      rangeUpper table (table.rangeLocks.node node).data =
        nullOrder.upper (table.rangeLocks.node node).upper :=
  (describes _ _ _).mp ((sound.carries _ _ _).mpr ⟨node, member, rfl, rfl, rfl⟩)

/-- Every lock has a node with its bounds. -/
theorem node_of_lock (sound : Sound nullOrder table.rangeLocks shape contents)
    (describes : Describes table contents) (live : id ∈ table.rangeLocksByTimestamp) :
    ∃ node ∈ shape.ids, (table.rangeLocks.node node).data = id ∧
      nullOrder.lower (table.rangeLocks.node node).lower = rangeLower table id ∧
      nullOrder.upper (table.rangeLocks.node node).upper = rangeUpper table id := by
  rcases (sound.carries _ _ _).mp ((describes _ _ id).mpr ⟨live, rfl, rfl⟩) with
    ⟨node, member, low, high, data⟩
  exact ⟨node, member, data, low, high⟩

/-- The test of an interval search, on the bounds of a lock. -/
def RangeMeets (table : LockTable Key) (fromKey toKey : Option (GBytes Key)) (id : LockId) :
    Prop :=
  (rangeLower table id ≤ nullOrder.lower fromKey ∧
    nullOrder.upper fromKey ≤ rangeUpper table id) ∨
  (rangeLower table id ≤ nullOrder.lower toKey ∧
    nullOrder.upper toKey ≤ rangeUpper table id) ∨
  (nullOrder.lower fromKey ≤ rangeLower table id ∧
    rangeUpper table id ≤ nullOrder.upper toKey)

theorem meetsInterval_iff {node : IntervalTree.Node (Option (GBytes Key)) LockId}
    (low : nullOrder.lower node.lower = rangeLower table id)
    (high : nullOrder.upper node.upper = rangeUpper table id) :
    meetsInterval nullOrder fromKey toKey node = true ↔ RangeMeets table fromKey toKey id := by
  simp only [meetsInterval, meetsPoint, low, high, Bool.or_eq_true, Bool.and_eq_true,
    decide_eq_true_eq, RangeMeets, or_assoc]

/-- Ranges that share a key pass the test. -/
theorem rangeMeets_of_shared {shared : Key} (covers : RangeCovers table id shared)
    (above : nullOrder.lower fromKey ≤ (shared : WithBot Key))
    (below : (shared : WithTop Key) ≤ nullOrder.upper toKey) :
    RangeMeets table fromKey toKey id := by
  rcases covers with ⟨low, high⟩
  by_cases first : rangeLower table id ≤ nullOrder.lower fromKey ∧
      nullOrder.upper fromKey ≤ rangeUpper table id
  · exact .inl first
  · have starts : nullOrder.lower fromKey ≤ rangeLower table id := by
      cases fromKey with
      | none => exact bot_le
      | some bytes =>
        have within : (bytes.content : WithTop Key) ≤ rangeUpper table id :=
          (WithTop.coe_le_coe.mpr (WithBot.coe_le_coe.mp above)).trans high
        exact le_of_not_ge fun inside => first ⟨inside, within⟩
    by_cases ends : rangeUpper table id ≤ nullOrder.upper toKey
    · exact .inr (.inr ⟨starts, ends⟩)
    · cases toKey with
      | none => exact absurd le_top ends
      | some bytes =>
        refine .inr (.inl ⟨low.trans ?_, le_of_not_ge ends⟩)
        exact WithBot.coe_le_coe.mpr (WithTop.coe_le_coe.mp below)

omit [LinearOrder Key] in
theorem findOverlappingRangeLock_eq : findOverlappingRangeLock table nodeId = firstWith fun node =>
      decide ((table.rangeLock node.data).nodeId ≠ nodeId) := by
  funext found node
  simp [findOverlappingRangeLock, firstWith]

theorem findRangeLockWithOwner_eq :
    findRangeLockWithOwner table nodeId fromKey toKey = firstWith fun node =>
      decide (nullOrder.lower fromKey = nullOrder.lower node.lower ∧
        nullOrder.upper toKey = nullOrder.upper node.upper ∧
        (table.rangeLock node.data).nodeId = nodeId) := by
  funext found node
  simp [findRangeLockWithOwner, firstWith]

namespace RangeIndexes

variable (indexes : RangeIndexes table)
include indexes

/-- The search for a lock in the way of a range ends.  If it finds none, then every
lock of another node that it comes to fails the test. -/
theorem overlapping (nodeId : Nat) (fromKey toKey : Option (GBytes Key)) :
    ∃ answer, overlappingRangeLock table nodeId fromKey toKey = some answer ∧
      (answer = none → ∀ node,
        Visited table.rangeLocks (prunedInterval nullOrder fromKey toKey) node →
        (table.rangeLock (table.rangeLocks.node node).data).nodeId ≠ nodeId →
        ¬RangeMeets table fromKey toKey (table.rangeLocks.node node).data) ∧
      (answer = none → ∀ id ∈ table.rangeLocksByTimestamp, (table.rangeLock id).nodeId ≠ nodeId →
        nullOrder.upper fromKey ≤ rangeUpper table id ∨
          nullOrder.upper toKey ≤ rangeUpper table id →
        ¬RangeMeets table fromKey toKey id) := by
  rcases indexes.tree with ⟨shape, contents, sound, covered, describes⟩
  have spare : ∀ node ∈ visited table.rangeLocks (prunedInterval nullOrder fromKey toKey) shape,
      showAll table.rangeLocks (meetsInterval nullOrder fromKey toKey)
        (findOverlappingRangeLock table nodeId)
        (visited table.rangeLocks (prunedInterval nullOrder fromKey toKey) shape) none = none →
      (table.rangeLock (table.rangeLocks.node node).data).nodeId ≠ nodeId →
      ¬RangeMeets table fromKey toKey (table.rangeLocks.node node).data := by
    intro node inside nothing other meeting
    rw [findOverlappingRangeLock_eq, showAll_firstWith, Option.map_eq_none_iff,
      List.find?_eq_none] at nothing
    rcases lock_of_node sound describes (mem_ids_of_visited inside) with ⟨_, low, high⟩
    refine nothing node inside ?_
    rw [(meetsInterval_iff low.symm high.symm).mpr meeting]
    simp [other]
  refine ⟨_, sound.searchLoop_eq none, ?_, ?_⟩
  · intro nothing node visit
    exact spare node (visit.mem sound.toPointerTree) nothing
  · intro nothing id live other reaches
    rcases node_of_lock sound describes live with ⟨node, member, data, _, high⟩
    subst data
    rw [← high] at reaches
    exact spare node (covered.mem_visited_interval sound.linked member reaches) nothing other

/-- The search for a lock that covers a key ends, and finds one if another node has
one. -/
theorem covering (nodeId : Nat) (key : GBytes Key) :
    ∃ answer, mostRecentCoveringRangeLock table key nodeId = some answer ∧
      (answer = none → ∀ id ∈ table.rangeLocksByTimestamp,
        (table.rangeLock id).nodeId ≠ nodeId → ¬RangeCovers table id key.content) := by
  rcases indexes.tree with ⟨shape, contents, sound, covered, describes⟩
  refine ⟨_, sound.searchLoop_eq none, ?_⟩
  intro nothing id live other covers
  rcases node_of_lock sound describes live with ⟨node, member, data, low, high⟩
  have reaches : nullOrder.upper (some key) ≤
      nullOrder.upper (table.rangeLocks.node node).upper := by
    rw [high]
    exact covers.2
  have inside := covered.mem_visited_point sound.linked member reaches
  have found := showAll_covering table nodeId table.rangeLocks (meetsPoint nullOrder (some key))
    (visited table.rangeLocks (prunedPoint nullOrder (some key)) shape) none
  rw [nothing, Option.isSome_none, Bool.false_or] at found
  have meeting : meetsPoint nullOrder (some key) (table.rangeLocks.node node) = true := by
    simp only [meetsPoint, low, high, Bool.and_eq_true, decide_eq_true_eq]
    exact covers
  refine absurd (List.any_eq_false.mp found.symm node inside) ?_
  simp [meeting, data, other]

/-- A lock that is found in the way of a key covers it. -/
theorem covering_found {nodeId : Nat} {key : GBytes Key}
    (searched : mostRecentCoveringRangeLock table key nodeId = some (some id)) :
    id ∈ rangeLocksOf table (table.rangeLock id).nodeId ∧ (table.rangeLock id).nodeId ≠ nodeId ∧
      RangeCovers table id key.content := by
  rcases indexes.tree with ⟨shape, contents, sound, covered, describes⟩
  have shown := Option.some.inj ((sound.searchLoop_eq none).symm.trans searched)
  rcases mem_of_showAll_covering shown with missing | ⟨node, inside, meeting, data, other⟩
  · cases missing
  · subst data
    rcases lock_of_node sound describes (mem_ids_of_visited inside) with ⟨live, low, high⟩
    refine ⟨(indexes.nodes _ _).mpr ⟨live, rfl⟩, other, ?_⟩
    simp only [meetsPoint, Bool.and_eq_true, decide_eq_true_eq, ← low, ← high] at meeting
    exact meeting

/-- A lock that is found in the way of a range passes the test. -/
theorem overlapping_found {nodeId : Nat}
    (searched : overlappingRangeLock table nodeId fromKey toKey = some (some id)) :
    id ∈ rangeLocksOf table (table.rangeLock id).nodeId ∧ (table.rangeLock id).nodeId ≠ nodeId ∧
      RangeMeets table fromKey toKey id := by
  rcases indexes.tree with ⟨shape, contents, sound, covered, describes⟩
  have shown := Option.some.inj ((sound.searchLoop_eq none).symm.trans searched)
  rw [findOverlappingRangeLock_eq, showAll_firstWith] at shown
  rcases Option.map_eq_some_iff.mp shown with ⟨node, first, data⟩
  subst data
  have holds := List.find?_some first
  simp only [Bool.and_eq_true, decide_eq_true_eq] at holds
  rcases lock_of_node sound describes (mem_ids_of_visited (List.mem_of_find?_eq_some first)) with
    ⟨live, low, high⟩
  exact ⟨(indexes.nodes _ _).mpr ⟨live, rfl⟩, holds.2,
    (meetsInterval_iff low.symm high.symm).mp holds.1⟩

/-- The search for the lock to release ends.  It finds a lock of the node on that very
range, unless the lower bound does not lie in it. -/
theorem releasing (nodeId : Nat) (fromKey toKey : Option (GBytes Key)) :
    ∃ answer, gzochidItreeSearch nullOrder table.rangeLocks fromKey
        (findRangeLockWithOwner table nodeId fromKey toKey) none = some answer ∧
      (∀ id, answer = some id → id ∈ table.rangeLocksByTimestamp ∧
        (table.rangeLock id).nodeId = nodeId ∧
        rangeLower table id = nullOrder.lower fromKey ∧
        rangeUpper table id = nullOrder.upper toKey ∧
        nullOrder.upper fromKey ≤ nullOrder.upper toKey) ∧
      (answer = none → ∀ id ∈ table.rangeLocksByTimestamp,
        (table.rangeLock id).nodeId = nodeId → rangeLower table id = nullOrder.lower fromKey →
        rangeUpper table id = nullOrder.upper toKey →
        ¬nullOrder.upper fromKey ≤ nullOrder.upper toKey) := by
  rcases indexes.tree with ⟨shape, contents, sound, covered, describes⟩
  refine ⟨_, sound.searchLoop_eq none, ?_, ?_⟩
  · intro id found
    rw [findRangeLockWithOwner_eq, showAll_firstWith] at found
    rcases Option.map_eq_some_iff.mp found with ⟨node, first, data⟩
    subst data
    have holds := List.find?_some first
    simp only [meetsPoint, Bool.and_eq_true, decide_eq_true_eq] at holds
    rcases holds with ⟨⟨_, inside⟩, sameLower, sameUpper, owner⟩
    rcases lock_of_node sound describes
      (mem_ids_of_visited (List.mem_of_find?_eq_some first)) with ⟨live, low, high⟩
    exact ⟨live, owner, low.trans sameLower.symm, high.trans sameUpper.symm, sameUpper ▸ inside⟩
  · intro nothing id live owner low high inside
    rw [findRangeLockWithOwner_eq, showAll_firstWith, Option.map_eq_none_iff,
      List.find?_eq_none] at nothing
    rcases node_of_lock sound describes live with ⟨node, member, data, nodeLow, nodeHigh⟩
    have reaches : nullOrder.upper fromKey ≤
        nullOrder.upper (table.rangeLocks.node node).upper := by
      rw [nodeHigh, high]
      exact inside
    refine nothing node (covered.mem_visited_point sound.linked member reaches) ?_
    simp only [meetsPoint, nodeLow, nodeHigh, data, low, high, owner, inside, le_refl,
      decide_true, Bool.and_self, and_self]

end RangeIndexes

end Tree

end Gzochi.LockMem
