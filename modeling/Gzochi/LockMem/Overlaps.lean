import Gzochi.Itree.Refinement
import Gzochi.LockMem.Model

/-!
# Searches with infinite bounds

The interval trees of the meta server compare a `NULL` lower bound as minus infinity and a
`NULL` upper bound as plus infinity.  A search shows the comparison functions its bounds as
lower and as upper bounds both; for the bound of an interval without a beginning this means
that it lies beyond every finite maximum, and the search leaves out what is below.
-/

namespace Gzochi.LockMem

open Gzochi.Lib Gzochi.IntervalTree List Shape

universe u v w

variable {Key : Type u} {Data : Type v} [LinearOrder Key]

/-- A lower bound is not above an upper one. -/
def AtMost (lower : WithBot Key) (upper : WithTop Key) : Prop :=
  ∀ low high : Key, lower = low → upper = high → low ≤ high

/-- The bounds of an interval. -/
def Proper (fromKey toKey : Option (GBytes Key)) : Prop :=
  AtMost (nullOrder.lower fromKey) (nullOrder.upper toKey)

/-- Two closed intervals overlap: the later beginning is not above the earlier end. -/
def Overlaps (fromKey toKey : Option (GBytes Key)) (lower : WithBot Key) (upper : WithTop Key) :
    Prop :=
  AtMost (max (nullOrder.lower fromKey) lower) (min (nullOrder.upper toKey) upper)

/-- An interval contains a point. -/
def Contains (point : GBytes Key) (lower : WithBot Key) (upper : WithTop Key) : Prop :=
  lower ≤ (point.content : WithBot Key) ∧ (point.content : WithTop Key) ≤ upper

/-- A search function that never stops the search. -/
def onward {Bound : Type u} {Result : Type w}
    (step : Result → IntervalTree.Node Bound Data → Result) : SearchFunc Bound Data Result :=
  fun result node => (step result node, false)

/-- The intervals of the map with a property are reported, with their data, and nothing else,
each of them once. -/
structure Reports (contents : Contents (WithBot Key) (WithTop Key) Data)
    (wanted : WithBot Key → WithTop Key → Prop)
    (reported : List (IntervalTree.Node (Option (GBytes Key)) Data)) : Prop where
  once : (reported.map fun node => (nullOrder.lower node.lower, nullOrder.upper node.upper)).Nodup
  exact : ∀ lower upper data,
    (∃ node ∈ reported, nullOrder.lower node.lower = lower ∧
      nullOrder.upper node.upper = upper ∧ node.data = data) ↔
    contents lower upper = some data ∧ wanted lower upper

theorem showAll_onward {Bound : Type u} {Result : Type w}
    (tree : Itree Bound Data) (meets : IntervalTree.Node Bound Data → Bool)
    (step : Result → IntervalTree.Node Bound Data → Result) (ids : List NodeId)
    (result : Result) :
    showAll tree meets (onward step) ids result =
      ((ids.filter fun id => meets (tree.node id)).map tree.node).foldl step result := by
  induction ids generalizing result with
  | nil => rfl
  | cons id rest ih =>
    by_cases meeting : meets (tree.node id) = true
    · simp [showAll, showNode, onward, meeting, ih]
    · simp [showAll, showNode, meeting, ih]

section Tree

variable {tree : Itree (Option (GBytes Key)) Data} {shape : Shape NodeId}
  {contents : Contents (WithBot Key) (WithTop Key) Data} {fromKey toKey : Option (GBytes Key)}

variable {lower : WithBot Key} {upper : WithTop Key}

variable {low : WithBot Key}

theorem AtMost.of_le_left (le : low ≤ lower) (atMost : AtMost lower upper) : AtMost low upper := by
  intro first last isFirst isLast
  cases lower with
  | bot =>
    rw [isFirst] at le
    exact absurd le (WithBot.not_coe_le_bot first)
  | coe key =>
    rw [isFirst] at le
    exact (WithBot.coe_le_coe.mp le).trans (atMost key last rfl isLast)

variable {high : WithTop Key}

theorem AtMost.of_le_right (le : upper ≤ high) (atMost : AtMost lower upper) :
    AtMost lower high := by
  intro first last isFirst isLast
  cases upper with
  | top =>
    rw [isLast] at le
    exact absurd le (WithTop.not_top_le_coe last)
  | coe key =>
    rw [isLast] at le
    exact (atMost first key isFirst rfl).trans (WithTop.coe_le_coe.mp le)

/-- A bound is not above itself. -/
theorem atMost_self (bound : Option (GBytes Key)) :
    AtMost (nullOrder.lower bound) (nullOrder.upper bound) := by
  intro first last isFirst isLast
  cases bound with
  | none => cases isFirst
  | some bytes =>
    rw [← WithBot.coe_inj.mp isFirst, ← WithTop.coe_inj.mp isLast]

variable {bytes : GBytes Key}

theorem atMost_from (atMost : AtMost (nullOrder.lower (some bytes)) upper) :
    nullOrder.upper (some bytes) ≤ upper := by
  cases upper with
  | top => exact le_top
  | coe key => exact WithTop.coe_le_coe.mpr (atMost bytes.content key rfl rfl)

theorem atMost_to (atMost : AtMost lower (nullOrder.upper (some bytes))) :
    lower ≤ nullOrder.lower (some bytes) := by
  cases lower with
  | bot => exact bot_le
  | coe key => exact WithBot.coe_le_coe.mpr (atMost key bytes.content rfl rfl)

theorem atMost_max : AtMost (max low lower) upper ↔ AtMost low upper ∧ AtMost lower upper := by
  constructor
  · intro atMost
    exact ⟨atMost.of_le_left (le_max_left low lower), atMost.of_le_left (le_max_right low lower)⟩
  · rintro ⟨first, second⟩
    rcases le_total low lower with le | le
    · rw [max_eq_right le]
      exact second
    · rw [max_eq_left le]
      exact first

theorem atMost_min : AtMost lower (min upper high) ↔ AtMost lower upper ∧ AtMost lower high := by
  constructor
  · intro atMost
    exact ⟨atMost.of_le_right (min_le_left upper high),
      atMost.of_le_right (min_le_right upper high)⟩
  · rintro ⟨first, second⟩
    rcases le_total upper high with le | le
    · rw [min_eq_left le]
      exact first
    · rw [min_eq_right le]
      exact second

/-- Intervals overlap when neither ends before the other one begins. -/
theorem overlaps_iff (stored : AtMost lower upper) :
    Overlaps fromKey toKey lower upper ↔ Proper fromKey toKey ∧
      AtMost lower (nullOrder.upper toKey) ∧ AtMost (nullOrder.lower fromKey) upper := by
  simp only [Overlaps, atMost_max, atMost_min, Proper]
  constructor
  · rintro ⟨⟨proper, first⟩, second, _⟩
    exact ⟨proper, first, second⟩
  · rintro ⟨proper, first, second⟩
    exact ⟨⟨proper, first⟩, second, stored⟩

section Node

variable {node : IntervalTree.Node (Option (GBytes Key)) Data}

/-- The test of a search says of two intervals whether they overlap. -/
theorem meetsInterval_iff_overlaps (stored : Proper node.lower node.upper)
    (wanted : Proper fromKey toKey) :
    meetsInterval nullOrder fromKey toKey node = true ↔
      Overlaps fromKey toKey (nullOrder.lower node.lower) (nullOrder.upper node.upper) := by
  simp only [overlaps_iff stored, wanted, true_and, meetsInterval, meetsPoint, Bool.or_eq_true,
    Bool.and_eq_true, decide_eq_true_eq]
  constructor
  · rintro ((⟨low, high⟩ | ⟨low, high⟩) | ⟨low, high⟩)
    · exact ⟨wanted.of_le_left low, (atMost_self fromKey).of_le_right high⟩
    · exact ⟨(atMost_self toKey).of_le_left low, wanted.of_le_right high⟩
    · exact ⟨stored.of_le_right high, stored.of_le_left low⟩
  · rintro ⟨first, second⟩
    by_cases starts : nullOrder.lower fromKey ≤ nullOrder.lower node.lower
    · by_cases ends : nullOrder.upper node.upper ≤ nullOrder.upper toKey
      · exact .inr ⟨starts, ends⟩
      · cases toKey with
        | none => exact absurd le_top ends
        | some bytes => exact .inl (.inr ⟨atMost_to first, le_of_not_ge ends⟩)
    · cases fromKey with
      | none => exact absurd bot_le starts
      | some bytes => exact .inl (.inl ⟨le_of_not_ge starts, atMost_from second⟩)

theorem meetsPoint_iff_contains {point : GBytes Key} :
    meetsPoint nullOrder (some point) node = true ↔
      Contains point (nullOrder.lower node.lower) (nullOrder.upper node.upper) := by
  simp only [meetsPoint, Bool.and_eq_true, decide_eq_true_eq]
  exact Iff.rfl

/-- Without a lower bound a search is cut off by the upper one alone. -/
theorem prunedInterval_none : prunedInterval nullOrder none toKey node = true ↔
      nullOrder.upper node.maxUpper < nullOrder.upper toKey := by
  simp only [prunedInterval, prunedPoint, Bool.and_eq_true, decide_eq_true_eq]
  exact ⟨fun both => both.2, fun beyond => ⟨beyond.trans_le le_top, beyond⟩⟩

end Node

omit [LinearOrder Key] in
theorem nodup_visited {Bound : Type u} {tree : Itree Bound Data} {shape : Shape NodeId}
    (pruned : IntervalTree.Node Bound Data → Bool) (nodup : shape.ids.Nodup) :
    (visited tree pruned shape).Nodup := by
  induction shape with
  | nil => exact nodup_nil
  | node top left right leftIh rightIh =>
    rcases nodup_node.mp nodup with ⟨leftNodup, rightNodup, notLeft, notRight, apart⟩
    simp only [visited]
    split
    next => exact nodup_singleton top
    next =>
      apply nodup_cons.mpr
      constructor
      · intro member
        rcases mem_append.mp member with inside | inside
        · exact notLeft (mem_ids_of_visited inside)
        · exact notRight (mem_ids_of_visited inside)
      · apply nodup_append.mpr
        refine ⟨leftIh leftNodup, rightIh rightNodup, ?_⟩
        intro first inLeft second inRight same
        exact apart first (mem_ids_of_visited inLeft) (same ▸ mem_ids_of_visited inRight)

variable {pruned : IntervalTree.Node (Option (GBytes Key)) Data → Bool}

/-- A search reports what is wanted when it comes to every node that it wants. -/
theorem reports_iff (sound : Sound nullOrder tree shape contents)
    {meets : IntervalTree.Node (Option (GBytes Key)) Data → Bool}
    {wanted : WithBot Key → WithTop Key → Prop}
    (test : ∀ id ∈ shape.ids, meets (tree.node id) = true ↔
      wanted (nullOrder.lower (tree.node id).lower) (nullOrder.upper (tree.node id).upper)) :
    Reports contents wanted
        (((visited tree pruned shape).filter fun id => meets (tree.node id)).map tree.node) ↔
      ∀ id ∈ shape.ids, meets (tree.node id) = true → id ∈ visited tree pruned shape := by
  have reported : ∀ node, node ∈ ((visited tree pruned shape).filter fun id =>
      meets (tree.node id)).map tree.node ↔
      ∃ id ∈ visited tree pruned shape, meets (tree.node id) = true ∧ tree.node id = node := by
    intro node
    simp only [mem_map, mem_filter, and_assoc]
  constructor
  · intro reports id member meeting
    have stored := (sound.carries _ _ _).mpr ⟨id, member, rfl, rfl, rfl⟩
    rcases (reports.exact _ _ _).mpr ⟨stored, (test id member).mp meeting⟩ with
      ⟨node, inside, low, high, _⟩
    rcases (reported node).mp inside with ⟨other, there, _, isNode⟩
    subst isNode
    have same := sound.distinct other (mem_ids_of_visited there) id member low high
    exact same ▸ there
  · intro complete
    constructor
    · rw [map_map]
      apply List.Nodup.map_on
      · intro first inFirst second inSecond sameKeys
        rcases Prod.mk.inj sameKeys with ⟨low, high⟩
        have firstThere := mem_ids_of_visited (mem_filter.mp inFirst).1
        have secondThere := mem_ids_of_visited (mem_filter.mp inSecond).1
        exact sound.distinct first firstThere second secondThere low high
      · exact (nodup_visited pruned sound.nodup).filter _
    · intro lower upper data
      constructor
      · rintro ⟨node, inside, low, high, value⟩
        rcases (reported node).mp inside with ⟨id, there, meeting, isNode⟩
        subst isNode
        have member := mem_ids_of_visited there
        refine ⟨(sound.carries _ _ _).mpr ⟨id, member, low, high, value⟩, ?_⟩
        rw [← low, ← high]
        exact (test id member).mp meeting
      · rintro ⟨stored, isWanted⟩
        rcases (sound.carries _ _ _).mp stored with ⟨id, member, low, high, value⟩
        have meeting : meets (tree.node id) = true := by
          apply (test id member).mpr
          change wanted (lowerKey nullOrder tree id) (upperKey nullOrder tree id)
          rw [low, high]
          exact isWanted
        exact ⟨tree.node id, (reported _).mpr ⟨id, complete id member meeting, meeting, rfl⟩,
          low, high, value⟩

variable {parent : Option NodeId} {id : NodeId}

/-- Below a node that is cut off something is missed. -/
theorem missed_below {child : NodeId} (covered : Covered nullOrder tree shape)
    (linked : Linked tree.links parent shape) (nodup : shape.ids.Nodup) (member : id ∈ shape.ids)
    (points : (tree.node id).left = some child ∨ (tree.node id).right = some child)
    (cutOff : pruned (tree.node id) = true) :
    ∃ top ∈ shape.ids, pruned (tree.node top) = true ∧
      ∃ below ∈ shape.ids, below ∉ visited tree pruned shape ∧
        nullOrder.upper (tree.node below).maxUpper ≤ nullOrder.upper (tree.node top).maxUpper := by
  induction shape generalizing parent with
  | nil => cases member
  | node top left right leftIh rightIh =>
    rcases linked with ⟨_, toLeft, toRight, inLeft, inRight⟩
    rcases nodup_node.mp nodup with ⟨leftNodup, rightNodup, notLeft, notRight, apart⟩
    simp only [ids_node, mem_append, mem_cons] at member
    by_cases here : pruned (tree.node top) = true
    · have children : ∃ other, (tree.node top).left = some other ∨
          (tree.node top).right = some other := by
        rcases member with inside | same | inside
        · cases reached : left.top with
          | none => simp [eq_nil_of_top reached] at inside
          | some other => exact ⟨other, .inl (toLeft.trans reached)⟩
        · exact ⟨child, same ▸ points⟩
        · cases reached : right.top with
          | none => simp [eq_nil_of_top reached] at inside
          | some other => exact ⟨other, .inr (toRight.trans reached)⟩
      rcases children with ⟨other, points⟩
      have covers := covered top (by simp)
      have inside : (other ∈ left.ids ∨ other ∈ right.ids) ∧
          nullOrder.upper (tree.node other).maxUpper ≤
            nullOrder.upper (tree.node top).maxUpper := by
        cases points with
        | inl isLeft =>
          exact ⟨.inl (mem_ids_of_top (toLeft.symm.trans isLeft)), covers.left other isLeft⟩
        | inr isRight =>
          exact ⟨.inr (mem_ids_of_top (toRight.symm.trans isRight)), covers.right other isRight⟩
      have notTop : other ≠ top := by
        intro same
        subst same
        cases inside.1 with
        | inl inLeft => exact notLeft inLeft
        | inr inRight => exact notRight inRight
      refine ⟨top, by simp, here, other, ?_, ?_, inside.2⟩
      · simp only [ids_node, mem_append, mem_cons]
        exact inside.1.imp_right .inr
      · simp [visited, here, notTop]
    · rcases member with inside | same | inside
      · rcases leftIh (fun id member => covered id (by simp [member])) inLeft leftNodup inside
          with ⟨cut, cutInside, isCut, below, belowInside, unvisited, bounded⟩
        refine ⟨cut, by simp [cutInside], isCut, below, by simp [belowInside], ?_, bounded⟩
        have notTop : below ≠ top := fun same => notLeft (same ▸ belowInside)
        have elsewhere : below ∉ visited tree pruned right := fun there =>
          apart below belowInside (mem_ids_of_visited there)
        simp [visited, here, notTop, unvisited, elsewhere]
      · exact absurd (same ▸ cutOff) here
      · rcases rightIh (fun id member => covered id (by simp [member])) inRight rightNodup inside
          with ⟨cut, cutInside, isCut, below, belowInside, unvisited, bounded⟩
        refine ⟨cut, by simp [cutInside], isCut, below, by simp [belowInside], ?_, bounded⟩
        have notTop : below ≠ top := fun same => notRight (same ▸ belowInside)
        have elsewhere : below ∉ visited tree pruned left := fun there =>
          apart below (mem_ids_of_visited there) belowInside
        simp [visited, here, notTop, unvisited, elsewhere]

/-- A search for an interval without a beginning looks below every node that has children. -/
def Reaches (tree : Itree (Option (GBytes Key)) Data) (toKey : Option (GBytes Key)) : Prop :=
  ∀ root id child, tree.root = some root → Below tree root id →
    (tree.node id).left = some child ∨ (tree.node id).right = some child →
    nullOrder.upper toKey ≤ nullOrder.upper (tree.node id).maxUpper

theorem Reaches.visits (reaches : Reaches tree toKey) {part : Shape NodeId}
    (linked : Linked tree.links parent part)
    (within : ∀ top, part.top = some top → ∃ root, tree.root = some root ∧ Below tree root top)
    (member : id ∈ part.ids) :
    id ∈ visited tree (prunedInterval nullOrder none toKey) part := by
  induction part generalizing parent with
  | nil => cases member
  | node top left right leftIh rightIh =>
    rcases linked with ⟨_, toLeft, toRight, inLeft, inRight⟩
    rcases within top rfl with ⟨root, atRoot, below⟩
    have opens : ∀ child, (tree.node top).left = some child ∨ (tree.node top).right = some child →
        ¬prunedInterval nullOrder none toKey (tree.node top) = true := by
      intro child points cutOff
      exact absurd (prunedInterval_none.mp cutOff)
        (not_lt.mpr (reaches root top child atRoot below points))
    simp only [ids_node, mem_append, mem_cons] at member
    rcases member with inside | same | inside
    · cases reached : left.top with
      | none => simp [eq_nil_of_top reached] at inside
      | some child =>
        have points : (tree.node top).left = some child := toLeft.trans reached
        have visits := leftIh inLeft
          (fun other atTop => ⟨root, atRoot, below.left (toLeft.trans atTop)⟩) inside
        simp [visited, opens child (.inl points), visits]
    · simp [visited, same]
    · cases reached : right.top with
      | none => simp [eq_nil_of_top reached] at inside
      | some child =>
        have points : (tree.node top).right = some child := toRight.trans reached
        have visits := rightIh inRight
          (fun other atTop => ⟨root, atRoot, below.right (toRight.trans atTop)⟩) inside
        simp [visited, opens child (.inr points), visits]

/-- A search for an interval reports the intervals that overlap it, when it has a beginning or
looks below every node; otherwise it does not. -/
theorem search_interval_reports (sound : Sound nullOrder tree shape contents)
    (covered : Covered nullOrder tree shape)
    (stored : ∀ id ∈ shape.ids, Proper (tree.node id).lower (tree.node id).upper)
    (wanted : Proper fromKey toKey) :
    Reports contents (Overlaps fromKey toKey)
        (((visited tree (prunedInterval nullOrder fromKey toKey) shape).filter fun id =>
          meetsInterval nullOrder fromKey toKey (tree.node id)).map tree.node) ↔
      fromKey ≠ none ∨ Reaches tree toKey := by
  rw [reports_iff sound fun id member => meetsInterval_iff_overlaps (stored id member) wanted]
  constructor
  · intro complete
    by_contra neither
    rw [not_or, not_not] at neither
    rcases neither with ⟨isNone, shallow⟩
    subst isNone
    apply shallow
    intro root id child atRoot below points
    by_contra short
    have inRoot := mem_ids_of_top (sound.root.symm.trans atRoot)
    have member := (covered.below sound.toPointerTree inRoot below).1
    rcases missed_below covered sound.linked sound.nodup member points
      (prunedInterval_none.mpr (lt_of_not_ge short)) with
      ⟨top, _, cutOff, missed, inside, unvisited, bounded⟩
    have ends := ((covered missed inside).own.trans bounded).trans
      (prunedInterval_none.mp cutOff).le
    have overlaps : Overlaps none toKey (nullOrder.lower (tree.node missed).lower)
        (nullOrder.upper (tree.node missed).upper) := by
      apply (overlaps_iff (stored missed inside)).mpr
      refine ⟨wanted, (stored missed inside).of_le_right ends, ?_⟩
      intro low high isLow isHigh
      cases isLow
    exact unvisited (complete missed inside
      ((meetsInterval_iff_overlaps (stored missed inside) wanted).mpr overlaps))
  · intro answer id member meeting
    cases fromKey with
    | none =>
      have reaches := answer.resolve_left fun begins => begins rfl
      exact reaches.visits sound.linked
        (fun top atTop => ⟨top, sound.root.trans atTop, .refl⟩) member
    | some bytes =>
      have overlaps := (meetsInterval_iff_overlaps (stored id member) wanted).mp meeting
      have above := ((overlaps_iff (stored id member)).mp overlaps).2.2
      exact covered.mem_visited_interval sound.linked member (.inl (atMost_from above))

/-- No interval of the map contains an end of the wanted one. -/
def NoneContainsEnd (contents : Contents (WithBot Key) (WithTop Key) Data)
    (fromKey toKey : Option (GBytes Key)) : Prop :=
  ∀ lower upper data point, contents lower upper = some data →
    fromKey = some point ∨ toKey = some point → ¬Contains point lower upper

/-- An interval that ends before it begins overlaps nothing, but a search for it reports the
intervals that contain one of its ends. -/
theorem search_reversed_reports (sound : Sound nullOrder tree shape contents)
    (covered : Covered nullOrder tree shape)
    (stored : ∀ id ∈ shape.ids, Proper (tree.node id).lower (tree.node id).upper)
    (reversed : ¬Proper fromKey toKey) :
    Reports contents (Overlaps fromKey toKey)
        (((visited tree (prunedInterval nullOrder fromKey toKey) shape).filter fun id =>
          meetsInterval nullOrder fromKey toKey (tree.node id)).map tree.node) ↔
      NoneContainsEnd contents fromKey toKey := by
  have nothing : ∀ id ∈ shape.ids, ¬Overlaps fromKey toKey
      (nullOrder.lower (tree.node id).lower) (nullOrder.upper (tree.node id).upper) := by
    intro id member overlaps
    exact reversed ((overlaps_iff (stored id member)).mp overlaps).1
  constructor
  · intro reports lower upper data point inMap isEnd contains
    rcases (sound.carries _ _ _).mp inMap with ⟨id, member, low, high, value⟩
    subst low high
    have reaches : nullOrder.upper fromKey ≤ nullOrder.upper (tree.node id).upper ∨
        nullOrder.upper toKey ≤ nullOrder.upper (tree.node id).upper := by
      rcases isEnd with isEnd | isEnd
      · exact .inl (isEnd ▸ contains.2)
      · exact .inr (isEnd ▸ contains.2)
    have meeting : meetsInterval nullOrder fromKey toKey (tree.node id) = true := by
      have meetsIt := meetsPoint_iff_contains.mpr contains
      rcases isEnd with isEnd | isEnd
      · simp [meetsInterval, isEnd, meetsIt]
      · simp [meetsInterval, isEnd, meetsIt]
    have inside := covered.mem_visited_interval sound.linked member reaches
    have wanted := ((reports.exact _ _ _).mp ⟨tree.node id,
      mem_map_of_mem (mem_filter.mpr ⟨inside, meeting⟩), rfl, rfl, rfl⟩).2
    exact nothing id member wanted
  · intro free
    have missesAll : ∀ id ∈ shape.ids,
        meetsInterval nullOrder fromKey toKey (tree.node id) = false := by
      intro id member
      apply Bool.eq_false_iff.mpr
      intro meeting
      have inMap := (sound.carries _ _ _).mpr ⟨id, member, rfl, rfl, rfl⟩
      simp only [meetsInterval, Bool.or_eq_true, Bool.and_eq_true, decide_eq_true_eq] at meeting
      rcases meeting with (first | last) | ⟨low, high⟩
      · cases fromKey with
        | none => exact reversed fun low high isLow => by cases isLow
        | some point => exact free _ _ _ point inMap (.inl rfl) (meetsPoint_iff_contains.mp first)
      · cases toKey with
        | none => exact reversed fun low high isLow isHigh => by cases isHigh
        | some point => exact free _ _ _ point inMap (.inr rfl) (meetsPoint_iff_contains.mp last)
      · exact reversed (((stored id member).of_le_left low).of_le_right high)
    have empty : (visited tree (prunedInterval nullOrder fromKey toKey) shape).filter (fun id =>
        meetsInterval nullOrder fromKey toKey (tree.node id)) = [] := by
      apply filter_eq_nil_iff.mpr
      intro id there
      simp [missesAll id (mem_ids_of_visited there)]
    rw [empty]
    refine ⟨nodup_nil, fun lower upper data => ?_⟩
    constructor
    · rintro ⟨node, inside, _⟩
      exact absurd inside not_mem_nil
    · rintro ⟨inMap, overlaps⟩
      rcases (sound.carries _ _ _).mp inMap with ⟨id, member, low, high, value⟩
      subst low high
      exact absurd overlaps (nothing id member)

/-- A search for a key reports the intervals that contain it. -/
theorem search_point_reports (sound : Sound nullOrder tree shape contents)
    (covered : Covered nullOrder tree shape) (point : GBytes Key) :
    Reports contents (Contains point)
      (((visited tree (prunedPoint nullOrder (some point)) shape).filter fun id =>
        meetsPoint nullOrder (some point) (tree.node id)).map tree.node) := by
  apply (reports_iff sound fun id member => meetsPoint_iff_contains).mpr
  intro id member meeting
  exact covered.mem_visited_point sound.linked member (meetsPoint_iff_contains.mp meeting).2

end Tree

/-- The calls after which searches are as good as before. -/
def CallReports (tree : Itree (Option (GBytes Key)) Data) :
    IntervalTree.Call (Option (GBytes Key)) Data → Prop
  | .insert lower upper _ => InsertKeeps nullOrder tree lower upper ∧
      InsertCovers nullOrder tree lower upper ∧ Proper lower upper
  | .remove lower upper => RemoveKeeps nullOrder tree lower upper

/-- The intervals for which a search reports what it should. -/
structure Answerable (tree : Itree (Option (GBytes Key)) Data)
    (contents : Contents (WithBot Key) (WithTop Key) Data) (fromKey toKey : Option (GBytes Key)) :
    Prop where
  proper : Proper fromKey toKey → fromKey ≠ none ∨ Reaches tree toKey
  reversed : ¬Proper fromKey toKey → NoneContainsEnd contents fromKey toKey

/-- A tree in order, whose searches cut off nothing below a recorded maximum, with intervals
that do not end before they begin. -/
structure Searchable (tree : Itree (Option (GBytes Key)) Data)
    (contents : Contents (WithBot Key) (WithTop Key) Data) (shape : Shape NodeId) : Prop where
  sound : Sound nullOrder tree shape contents
  covered : Covered nullOrder tree shape
  proper : ∀ lower upper data, contents lower upper = some data → AtMost lower upper

section Runs

variable [DecidableEq Key] {tree : Itree (Option (GBytes Key)) Data} {shape : Shape NodeId}
  {contents : Contents (WithBot Key) (WithTop Key) Data}
  {garbage : IntervalTree.Node (Option (GBytes Key)) Data}
  {trace : List (IntervalTree.Call (Option (GBytes Key)) Data × Unit)}

theorem Searchable.itreeStep (searchable : Searchable tree contents shape)
    {call : IntervalTree.Call (Option (GBytes Key)) Data} (keeps : CallReports tree call) :
    ∃ result shape', IntervalTree.itreeStep nullOrder tree call = some (result, ()) ∧
      Searchable result (contents.after nullOrder call) shape' := by
  rcases searchable with ⟨sound, covered, proper⟩
  cases call with
  | insert lower upper data =>
    rcases keeps with ⟨keepsOrder, covers, isProper⟩
    rcases sound.gzochidItreeInsert data keepsOrder with
      ⟨result, shape', equal, kept, covering, _⟩
    refine ⟨result, shape', by simp [IntervalTree.itreeStep, equal], kept,
      covering covered covers, ?_⟩
    intro low high value inMap
    simp only [Contents.after, Contents.insert] at inMap
    split at inMap
    next same => exact same.1 ▸ same.2 ▸ isProper
    next => exact proper low high value inMap
  | remove lower upper =>
    rcases sound.gzochidItreeRemove keeps with ⟨result, shape', equal, kept, covering, _⟩
    refine ⟨result, shape', by simp [IntervalTree.itreeStep, equal], kept, covering covered, ?_⟩
    intro low high value inMap
    simp only [Contents.after, Contents.remove] at inMap
    split at inMap
    next => cases inMap
    next => exact proper low high value inMap

theorem run_searchable
    (run : Run (itreeStep nullOrder) CallReports (gzochidItreeNew garbage) trace tree) :
    ∃ shape, Searchable tree (contentsOf nullOrder trace) shape := by
  apply run.invariant (fun trace tree =>
    ∃ shape, Searchable tree (contentsOf nullOrder trace) shape)
  · exact ⟨.nil, sound_new nullOrder garbage, fun _ member => absurd member not_mem_nil,
      fun _ _ _ inMap => by cases inMap⟩
  · intro trace tree call next observation _ before keeps taken
    rcases before with ⟨shape, searchable⟩
    rcases searchable.itreeStep keeps with ⟨result, shape', equal, kept⟩
    rw [equal] at taken
    cases taken
    exact ⟨shape', by simpa [contentsOf] using kept⟩

/-- After every sequence of such calls a search for a key reports the intervals that contain
it, and a search for an interval reports those that overlap it exactly when it is answerable. -/
theorem itree_search_reports
    (run : Run (itreeStep nullOrder) CallReports (gzochidItreeNew garbage) trace tree) :
    (∀ fromKey toKey, ∃ reported,
      (∀ (Result : Type w) (step : Result → IntervalTree.Node (Option (GBytes Key)) Data → Result)
        (result : Result), gzochidItreeSearchInterval nullOrder tree fromKey toKey (onward step)
          result = some (reported.foldl step result)) ∧
      (Reports (contentsOf nullOrder trace) (Overlaps fromKey toKey) reported ↔
        Answerable tree (contentsOf nullOrder trace) fromKey toKey)) ∧
    ∀ point, ∃ reported,
      (∀ (Result : Type w) (step : Result → IntervalTree.Node (Option (GBytes Key)) Data → Result)
        (result : Result), gzochidItreeSearch nullOrder tree (some point) (onward step) result =
          some (reported.foldl step result)) ∧
      Reports (contentsOf nullOrder trace) (Contains point) reported := by
  rcases run_searchable run with ⟨shape, sound, covered, proper⟩
  have stored : ∀ id ∈ shape.ids, Proper (tree.node id).lower (tree.node id).upper := by
    intro id member
    exact proper _ _ _ ((sound.carries _ _ _).mpr ⟨id, member, rfl, rfl, rfl⟩)
  constructor
  · intro fromKey toKey
    refine ⟨_, fun Result step result =>
      (sound.toPointerTree.searchLoop_eq result).trans (congrArg some
        (showAll_onward tree (meetsInterval nullOrder fromKey toKey) step _ result)), ?_⟩
    by_cases isProper : Proper fromKey toKey
    · rw [search_interval_reports sound covered stored isProper]
      exact ⟨fun answer => ⟨fun _ => answer, fun reversed => absurd isProper reversed⟩,
        fun answerable => answerable.proper isProper⟩
    · rw [search_reversed_reports sound covered stored isProper]
      exact ⟨fun free => ⟨fun isProper' => absurd isProper' isProper, fun _ => free⟩,
        fun answerable => answerable.reversed isProper⟩
  · intro point
    exact ⟨_, fun Result step result =>
      (sound.toPointerTree.searchLoop_eq result).trans (congrArg some
        (showAll_onward tree (meetsPoint nullOrder (some point)) step _ result)),
      search_point_reports sound covered point⟩

end Runs

/-- Numbers as keys. -/
def number (content : Nat) : Option (GBytes Nat) := some ⟨content, content⟩

/-- The tree some calls build from the empty one. -/
def ranges (calls : List (IntervalTree.Call (Option (GBytes Nat)) Nat)) :
    Itree (Option (GBytes Nat)) Nat :=
  stateAfter (itreeStep nullOrder) (gzochidItreeNew (itreeNodeNew none none 0)) calls

theorem itree_search_reports_from_six : ∃ reported, gzochidItreeSearchInterval nullOrder
        (ranges [.insert (number 5) (number 6) 1, .insert (number 7) (number 8) 2]) (number 6) none
        (onward fun found _ => found + 1) 0 =
      some (reported.foldl (fun found _ => found + 1) 0) ∧
    Reports (contentsOf nullOrder [(.insert (number 5) (number 6) 1, ()),
      (.insert (number 7) (number 8) 2, ())]) (Overlaps (number 6) none) reported := by
  have first : CallReports (ranges []) (.insert (number 5) (number 6) 1) := by
    refine ⟨?_, ?_, ?_⟩
    · intro seat located
      cases located
    · intro seat located
      cases located
    · intro low high isLow isHigh
      rw [← WithBot.coe_inj.mp isLow, ← WithTop.coe_inj.mp isHigh]
      decide
  have upright : ∀ seat, itreeLocation nullOrder
        (ranges [.insert (number 5) (number 6) 1]) (number 7) (number 8) = some (some seat) →
      ¬(seatBalance nullOrder (ranges [.insert (number 5) (number 6) 1]) seat (number 7) < -1 ∨
        seatBalance nullOrder (ranges [.insert (number 5) (number 6) 1]) seat (number 7) > 1) := by
    intro seat located
    have there : itreeLocation nullOrder (ranges [.insert (number 5) (number 6) 1]) (number 7)
        (number 8) = some (some 0) := rfl
    have same := Option.some.inj (Option.some.inj (there.symm.trans located))
    subst same
    decide
  have second : CallReports (ranges [.insert (number 5) (number 6) 1])
      (.insert (number 7) (number 8) 2) := by
    refine ⟨?_, ?_, ?_⟩
    · exact fun seat located _ leans => absurd leans (upright seat located)
    · exact fun seat located _ leans => absurd leans (upright seat located)
    · intro low high isLow isHigh
      rw [← WithBot.coe_inj.mp isLow, ← WithTop.coe_inj.mp isHigh]
      decide
  have searches := (itree_search_reports (.snoc (.snoc .nil first rfl) second rfl)).1
  rcases searches (number 6) none with ⟨reported, search, iff⟩
  refine ⟨reported, search Nat _ 0, iff.mpr ⟨?_, ?_⟩⟩
  · exact fun _ => .inl (by simp [number])
  · exact fun reversed => absurd (fun low high _ isHigh => by cases isHigh) reversed

/-- A search for what begins before everything and ends beyond the greatest upper bound leaves
out the second interval. -/
theorem itree_search_misses_interval : ∃ trace tree,
    Run (itreeStep nullOrder) anyAction (gzochidItreeNew (itreeNodeNew none none 0)) trace tree ∧
    ¬∃ reported, gzochidItreeSearchInterval nullOrder tree none (number 10)
        (onward fun found node => node.data :: found) [] =
          some (reported.foldl (fun found node => node.data :: found) ([] : List Nat)) ∧
      Reports (contentsOf nullOrder trace) (Overlaps none (number 10)) reported := by
  have run : exec (itreeStep nullOrder) (gzochidItreeNew (itreeNodeNew none none 0))
      [.insert (number 5) (number 6) 1, .insert (number 7) (number 8) 2] =
      some ([(.insert (number 5) (number 6) 1, ()), (.insert (number 7) (number 8) 2, ())],
        ranges [.insert (number 5) (number 6) 1, .insert (number 7) (number 8) 2]) := rfl
  refine ⟨_, _, run_of_exec run, ?_⟩
  rintro ⟨reported, search, reports⟩
  have found : gzochidItreeSearchInterval nullOrder
      (ranges [.insert (number 5) (number 6) 1, .insert (number 7) (number 8) 2]) none
      (number 10) (onward fun found node => node.data :: found) [] = some [1] := rfl
  have shown := Option.some.inj (found.symm.trans search)
  rw [foldl_flip_cons_eq_append, append_nil] at shown
  have overlaps : Overlaps none (number 10) (nullOrder.lower (number 7))
      (nullOrder.upper (number 8)) := by
    intro low high isLow isHigh
    rw [← WithBot.coe_inj.mp isLow, ← WithTop.coe_inj.mp isHigh]
    decide
  rcases (reports.exact _ _ 2).mpr ⟨rfl, overlaps⟩ with ⟨node, inside, _, _, data⟩
  have missing : 2 ∈ [1] := by
    rw [shown, mem_reverse, ← data]
    exact mem_map_of_mem inside
  exact absurd missing (by decide)

end Gzochi.LockMem
