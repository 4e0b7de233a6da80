import Gzochi.Itree.Rotation

/-!
# Insertion

A new interval is attached below the last node of its search, after which the code
retraces.  The tree stays sound unless the retrace comes to a rotation that breaks the
pointers.
-/

namespace Gzochi.IntervalTree

open Gzochi.Lib Shape

universe u v w x

variable {Bound : Type u} {Lower : Type v} {Upper : Type w} {Data : Type x}
variable [LinearOrder Lower] {order : Comparators Bound Lower Upper}
  {tree : Itree Bound Data} {shape : Shape NodeId} {contents : Contents Lower Upper Data}
  {id : NodeId} {lower upper : Bound} {data : Data}

/-! ## Attaching -/

section Attach

theorem attach_node_fresh (different : id ≠ tree.allocated) :
    (attach order tree id lower upper data).node tree.allocated =
      { itreeNodeNew lower upper data with parent := some id } := by
  simp [attach, Itree.modify, Ne.symm different]

theorem attach_node_seat (different : id ≠ tree.allocated) :
    (attach order tree id lower upper data).node id =
      if order.lower lower < lowerKey order tree id then
        { tree.node id with
          left := some tree.allocated
          balanceFactor := (tree.node id).balanceFactor + 1 }
      else
        { tree.node id with
          right := some tree.allocated
          balanceFactor := (tree.node id).balanceFactor - 1 } := by
  simp only [attach, Itree.modify, if_pos, if_neg different]
  rfl

variable {other : NodeId}

theorem attach_node_of_ne (notFresh : other ≠ tree.allocated) (notSeat : other ≠ id) :
    (attach order tree id lower upper data).node other = tree.node other := by
  simp [attach, Itree.modify, notFresh, notSeat]

/-- The old nodes keep their intervals, their data and their parents. -/
theorem attach_node_old (notFresh : other ≠ tree.allocated) :
    ((attach order tree id lower upper data).node other).parent = (tree.node other).parent ∧
    ((attach order tree id lower upper data).node other).lower = (tree.node other).lower ∧
    ((attach order tree id lower upper data).node other).upper = (tree.node other).upper ∧
    ((attach order tree id lower upper data).node other).maxUpper = (tree.node other).maxUpper ∧
    ((attach order tree id lower upper data).node other).data = (tree.node other).data := by
  by_cases same : other = id
  · subst same
    rw [attach_node_seat notFresh]
    split
    next => simp
    next => simp
  · rw [attach_node_of_ne notFresh same]
    simp

theorem lowerKey_attach_fresh (different : id ≠ tree.allocated) :
    lowerKey order (attach order tree id lower upper data) tree.allocated = order.lower lower := by
  simp only [lowerKey, attach_node_fresh different, itreeNodeNew]

theorem lowerKey_attach_old (notFresh : other ≠ tree.allocated) :
    lowerKey order (attach order tree id lower upper data) other = lowerKey order tree other := by
  simp only [lowerKey, (attach_node_old notFresh).2.1]

theorem upperKey_attach_fresh (different : id ≠ tree.allocated) :
    upperKey order (attach order tree id lower upper data) tree.allocated = order.upper upper := by
  simp only [upperKey, attach_node_fresh different, itreeNodeNew]

theorem upperKey_attach_old (notFresh : other ≠ tree.allocated) :
    upperKey order (attach order tree id lower upper data) other = upperKey order tree other := by
  simp only [upperKey, (attach_node_old notFresh).2.2.1]

theorem seated_attach (different : id ≠ tree.allocated) :
    Seated tree.links (attach order tree id lower upper data).links
      (lowerKey order (attach order tree id lower upper data)) tree.allocated id where
  parent := by simp only [Itree.links, attach_node_fresh different]
  left := by simp only [Itree.links, attach_node_fresh different, itreeNodeNew]
  right := by simp only [Itree.links, attach_node_fresh different, itreeNodeNew]
  seatParent := (attach_node_old different).1
  seatLeft := by
    simp only [Itree.links, attach_node_seat different, lowerKey_attach_fresh different,
      lowerKey_attach_old different]
    split
    next => rfl
    next => rfl
  seatRight := by
    simp only [Itree.links, attach_node_seat different, lowerKey_attach_fresh different,
      lowerKey_attach_old different]
    split
    next => rfl
    next => rfl
  frame other notFresh notSeat := by
    simp only [Itree.links, attach_node_of_ne notFresh notSeat, and_self]

/-- The shape with the new node in its place. -/
def attachedShape (order : Comparators Bound Lower Upper) (tree : Itree Bound Data)
    (shape : Shape NodeId) (id : NodeId) (lower upper : Bound) (data : Data) : Shape NodeId :=
  shape.place (lowerKey order (attach order tree id lower upper data)) tree.allocated

section Seated

variable (pointers : PointerTree tree shape)
include pointers

theorem attached_keys {other : NodeId} (member : other ∈ shape.ids) :
    lowerKey order (attach order tree id lower upper data) other = lowerKey order tree other :=
  lowerKey_attach_old (Nat.ne_of_lt (pointers.allocated other member))

variable (seated : shape.seat (lowerKey order tree) (order.lower lower) = some id)
include seated

theorem seat_attach (upper : Bound) (data : Data) :
    shape.seat (lowerKey order (attach order tree id lower upper data))
      (lowerKey order (attach order tree id lower upper data) tree.allocated) = some id := by
  rw [lowerKey_attach_fresh (Nat.ne_of_lt (pointers.allocated id (seat_mem seated))),
    seat_congr fun other member => attached_keys pointers member, seated]

/-- Attaching a node puts it into the shape, whether or not the tree is in search order. -/
theorem PointerTree.attach : PointerTree (attach order tree id lower upper data)
      (attachedShape order tree shape id lower upper data) := by
  have outside : tree.allocated ∉ shape.ids := fun member =>
    absurd (pointers.allocated _ member) (Nat.lt_irrefl _)
  have different := Nat.ne_of_lt (pointers.allocated id (seat_mem seated))
  have seatedAfter := seat_attach pointers seated upper data
  constructor
  · exact pointers.root.trans (top_place seatedAfter).symm
  · exact pointers.linked.place pointers.nodup outside seatedAfter (seated_attach different)
  · exact nodup_place pointers.nodup outside
  · intro other member
    change other < tree.allocated + 1
    rcases mem_ids_place.mp member with same | member
    · exact same ▸ Nat.lt_succ_self _
    · exact Nat.lt_succ_of_lt (pointers.allocated other member)

end Seated

variable [LinearOrder Upper]

/-- Attaching a missing interval adds it to the map. -/
theorem Sound.attach (sound : Sound order tree shape contents) (data : Data)
    (miss : ∀ other ∈ shape.ids, ¬matches? order tree other lower upper = true)
    (seated : shape.seat (lowerKey order tree) (order.lower lower) = some id) :
    Sound order (attach order tree id lower upper data)
      (attachedShape order tree shape id lower upper data)
      (contents.insert (order.lower lower) (order.upper upper) data) := by
  have old : ∀ other ∈ shape.ids, other ≠ tree.allocated := fun other member =>
    Nat.ne_of_lt (sound.allocated other member)
  have different := old id (seat_mem seated)
  have keys : ∀ other ∈ shape.ids,
      lowerKey order (IntervalTree.attach order tree id lower upper data) other =
        lowerKey order tree other := fun other member => attached_keys sound.toPointerTree member
  constructor
  · exact sound.toPointerTree.attach seated
  · exact (sound.ordered.congr keys).place
  · intro first inFirst second inSecond sameLower sameUpper
    rcases mem_ids_place.mp inFirst with isFresh | inFirst
    · rcases mem_ids_place.mp inSecond with same | inSecond
      · rw [isFresh, same]
      · rw [isFresh, lowerKey_attach_fresh different, keys second inSecond] at sameLower
        rw [isFresh, upperKey_attach_fresh different,
          upperKey_attach_old (old second inSecond)] at sameUpper
        exact absurd (matches?_iff.mpr ⟨sameLower.symm, sameUpper.symm⟩) (miss second inSecond)
    · rcases mem_ids_place.mp inSecond with isFresh | inSecond
      · rw [isFresh, lowerKey_attach_fresh different, keys first inFirst] at sameLower
        rw [isFresh, upperKey_attach_fresh different,
          upperKey_attach_old (old first inFirst)] at sameUpper
        exact absurd (matches?_iff.mpr ⟨sameLower, sameUpper⟩) (miss first inFirst)
      · rw [keys first inFirst, keys second inSecond] at sameLower
        rw [upperKey_attach_old (old first inFirst),
          upperKey_attach_old (old second inSecond)] at sameUpper
        exact sound.distinct first inFirst second inSecond sameLower sameUpper
  · intro low high value
    simp only [Contents.insert]
    constructor
    · intro stored
      split at stored
      next same =>
        injection stored with equal
        refine ⟨tree.allocated, mem_ids_place.mpr (.inl rfl), ?_, ?_, ?_⟩
        · rw [lowerKey_attach_fresh different, same.1]
        · rw [upperKey_attach_fresh different, same.2]
        · rw [attach_node_fresh different, ← equal]
          rfl
      next =>
        rcases (sound.carries low high value).mp stored with ⟨other, member, low', high', value'⟩
        refine ⟨other, mem_ids_place.mpr (.inr member), ?_, ?_, ?_⟩
        · rw [keys other member, low']
        · rw [upperKey_attach_old (old other member), high']
        · rw [(attach_node_old (old other member)).2.2.2.2, value']
    · rintro ⟨other, member, low', high', value'⟩
      rcases mem_ids_place.mp member with isFresh | member
      · rw [isFresh, lowerKey_attach_fresh different] at low'
        rw [isFresh, upperKey_attach_fresh different] at high'
        rw [if_pos ⟨low'.symm, high'.symm⟩, ← value', isFresh, attach_node_fresh different]
        rfl
      · rw [keys other member] at low'
        rw [upperKey_attach_old (old other member)] at high'
        rw [(attach_node_old (old other member)).2.2.2.2] at value'
        rw [if_neg]
        · exact (sound.carries low high value).mpr ⟨other, member, low', high', value'⟩
        · intro same
          exact miss other member (matches?_iff.mpr ⟨low'.trans same.1, high'.trans same.2⟩)

end Attach

/-! ## Inserting -/

section Insert

/-- The balance factor of a node after an interval is attached to it. -/
def seatBalance (order : Comparators Bound Lower Upper) (tree : Itree Bound Data)
    (id : NodeId) (lower : Bound) : Int :=
  if order.lower lower < lowerKey order tree id then (tree.node id).balanceFactor + 1
  else (tree.node id).balanceFactor - 1

theorem attach_balance (different : id ≠ tree.allocated) :
    ((attach order tree id lower upper data).node id).balanceFactor =
      seatBalance order tree id lower := by
  rw [attach_node_seat different]
  simp only [seatBalance]
  split
  next => rfl
  next => rfl

section Above

variable (pointers : PointerTree tree shape) (member : id ∈ shape.ids)
include pointers member

/-- Attaching changes nothing above the seat. -/
theorem attach_node_above {above : NodeId} (inside : above ∈ shape.ids)
    (higher : shape.depth above < shape.depth id) :
    (attach order tree id lower upper data).node above = tree.node above := by
  refine attach_node_of_ne (Nat.ne_of_lt (pointers.allocated above inside)) fun same => ?_
  subst same
  omega

/-- The climb in the tree with the new node is the climb in the tree before. -/
theorem insertClimb_attach {balance current : Int} {node : NodeId}
    (climb : InsertClimb (attach order tree id lower upper data) id balance node current) :
    node ∈ shape.ids ∧ shape.depth node ≤ shape.depth id ∧
      InsertClimb tree id balance node current := by
  induction climb with
  | start => exact ⟨member, Nat.le_refl _, .start⟩
  | @up node parent current climb points notOne notMinus ih =>
    rcases ih with ⟨inside, deep, climb⟩
    rw [(attach_node_old (Nat.ne_of_lt (pointers.allocated node inside))).1] at points
    rcases pointers.parent_spec inside points with ⟨found, _, higher⟩
    have unchanged : (attach order tree id lower upper data).node parent = tree.node parent :=
      attach_node_above pointers member found (by omega)
    rw [unchanged] at notOne notMinus
    have sameSide : heavy (attach order tree id lower upper data) parent node =
        heavy tree parent node := by
      simp only [heavy, unchanged]
    rw [sameSide]
    exact ⟨found, by omega, .up climb points notOne notMinus⟩

end Above

/-- A rotation that keeps the old tree keeps it with the new node as well. -/
theorem Turnable.attach {node parent : NodeId} {balance : Int} {later : Itree Bound Data}
    (pointers : PointerTree tree shape) (member : id ∈ shape.ids)
    (inside : node ∈ shape.ids) (deep : shape.depth node ≤ shape.depth id)
    (up : (tree.node node).parent = some parent)
    (alike : Alike (IntervalTree.attach order tree id lower upper data) later)
    (turnable : Turnable order tree node parent balance) :
    Turnable order later node parent balance := by
  rcases turnable.atRoot with ⟨grandparent, above, top, placed⟩
  rcases pointers.parent_spec inside up with ⟨parentInside, _, parentHigher⟩
  rcases pointers.parent_spec parentInside above with ⟨grandparentInside, _, higher⟩
  have parentNode : (IntervalTree.attach order tree id lower upper data).node parent =
      tree.node parent := attach_node_above pointers member parentInside (by omega)
  have grandparentNode : (IntervalTree.attach order tree id lower upper data).node grandparent =
      tree.node grandparent := attach_node_above pointers member grandparentInside (by omega)
  have single : balance ≠ -heavy later parent node := by
    rw [heavy_of_alike alike]
    simp only [heavy, parentNode]
    exact turnable.single
  refine ⟨single, grandparent, ?_, ?_, ?_⟩
  · rw [alike.node parent, parentNode]
    exact above
  · rw [alike.node grandparent, grandparentNode]
    exact top
  · simp only [lowerKey] at placed ⊢
    rw [alike.node parent, alike.node grandparent, parentNode, grandparentNode]
    exact placed

variable [LinearOrder Upper]

/-- Inserting the interval brings the retrace to no rotation but one that keeps the
pointers in order. -/
def InsertKeeps (order : Comparators Bound Lower Upper) (tree : Itree Bound Data)
    (lower upper : Bound) : Prop :=
  ∀ seat, itreeLocation order tree lower upper = some (some seat) →
    matches? order tree seat lower upper = false →
    seatBalance order tree seat lower < -1 ∨ seatBalance order tree seat lower > 1 →
    ∀ id parent balance, InsertClimb tree seat (seatBalance order tree seat lower) id balance →
      (tree.node id).parent = some parent →
      (tree.node parent).balanceFactor = heavy tree parent id →
      Turnable order tree id parent balance

/-- Inserting the interval recomputes the maximum upper bound of its seat, or need
not: the retrace does not climb past the seat before. -/
def InsertCovers (order : Comparators Bound Lower Upper) (tree : Itree Bound Data)
    (lower upper : Bound) : Prop :=
  ∀ seat, itreeLocation order tree lower upper = some (some seat) →
    matches? order tree seat lower upper = false →
    seatBalance order tree seat lower < -1 ∨ seatBalance order tree seat lower > 1 →
    order.upper upper ≤ order.upper (tree.node seat).maxUpper ∨
      ∀ parent, (tree.node seat).parent = some parent →
        (tree.node parent).balanceFactor = 1 ∨ (tree.node parent).balanceFactor = -1

variable {other : NodeId}

/-- The new node covers itself, and the old ones cover their old children; the seat
may have to be told about the new child. -/
theorem covers_attach (sound : Sound order tree shape contents)
    (seated : shape.seat (lowerKey order tree) (order.lower lower) = some id)
    (covered : Covered order tree shape)
    (member : other ∈ (attachedShape order tree shape id lower upper data).ids)
    (excused : other = id → order.upper upper ≤ order.upper (tree.node id).maxUpper) :
    Covers order (attach order tree id lower upper data) other := by
  have old : ∀ other ∈ shape.ids, other ≠ tree.allocated := fun other member =>
    Nat.ne_of_lt (sound.allocated other member)
  have different := old id (seat_mem seated)
  have oldMax : ∀ child, child ∈ shape.ids →
      ((attach order tree id lower upper data).node child).maxUpper =
        (tree.node child).maxUpper := fun child inside =>
          (attach_node_old (old child inside)).2.2.2.1
  have freshMax : ((attach order tree id lower upper data).node tree.allocated).maxUpper =
      upper := by
    rw [attach_node_fresh different]
    rfl
  rcases mem_ids_place.mp member with isFresh | member
  · subst isFresh
    constructor
    · rw [freshMax, attach_node_fresh different]
      exact le_rfl
    · intro child points
      rw [attach_node_fresh different] at points
      cases points
    · intro child points
      rw [attach_node_fresh different] at points
      cases points
  · have before := covered other member
    have sameMax := oldMax other member
    have sameUpper : ((attach order tree id lower upper data).node other).upper =
        (tree.node other).upper := (attach_node_old (old other member)).2.2.1
    have oldLeft : ∀ child, (tree.node other).left = some child →
        order.upper ((attach order tree id lower upper data).node child).maxUpper ≤
          order.upper (tree.node other).maxUpper := by
      intro child points
      rw [oldMax child (sound.linked.left_child member points).1]
      exact before.left child points
    have oldRight : ∀ child, (tree.node other).right = some child →
        order.upper ((attach order tree id lower upper data).node child).maxUpper ≤
          order.upper (tree.node other).maxUpper := by
      intro child points
      rw [oldMax child (sound.linked.right_child member points).1]
      exact before.right child points
    constructor
    · rw [sameMax, sameUpper]
      exact before.own
    · intro child points
      rw [sameMax]
      by_cases same : other = id
      · subst same
        rw [attach_node_seat different] at points
        split at points
        next =>
          injection points with isFresh
          rw [← isFresh, freshMax]
          exact excused rfl
        next => exact oldLeft child points
      · rw [attach_node_of_ne (old other member) same] at points
        exact oldLeft child points
    · intro child points
      rw [sameMax]
      by_cases same : other = id
      · subst same
        rw [attach_node_seat different] at points
        split at points
        next => exact oldRight child points
        next =>
          injection points with isFresh
          rw [← isFresh, freshMax]
          exact excused rfl
      · rw [attach_node_of_ne (old other member) same] at points
        exact oldRight child points

omit [LinearOrder Lower] [LinearOrder Upper] in
theorem PointerTree.replace (pointers : PointerTree tree shape) (id : NodeId) (data : Data) :
    PointerTree (tree.modify id fun node => { node with data := data }) shape := by
  have links : (tree.modify id fun node => { node with data := data }).links = tree.links := by
    simp only [Itree.links, tree.modify_data_node id data]
  exact ⟨pointers.root, links ▸ pointers.linked, pointers.nodup, pointers.allocated⟩

/-- Replacing the data of an interval. -/
theorem Sound.replace (sound : Sound order tree shape contents) (data : Data)
    (member : id ∈ shape.ids) (hit : matches? order tree id lower upper = true) :
    Sound order (tree.modify id fun node => { node with data := data }) shape
      (contents.insert (order.lower lower) (order.upper upper) data) := by
  have fields := tree.modify_data_node id data
  have lowers : lowerKey order (tree.modify id fun node => { node with data := data }) =
      lowerKey order tree := by
    funext other
    simp only [lowerKey, fields]
  have uppers : upperKey order (tree.modify id fun node => { node with data := data }) =
      upperKey order tree := by
    funext other
    simp only [upperKey, fields]
  rcases matches?_iff.mp hit with ⟨low, high⟩
  refine ⟨sound.toPointerTree.replace id data, lowers ▸ sound.ordered, ?_, ?_⟩
  · simp only [Distinct, lowers, uppers]
    exact sound.distinct
  · intro lower' upper' value
    simp only [Contents.insert, lowers, uppers, fields]
    constructor
    · intro stored
      split at stored
      next same =>
        injection stored with equal
        exact ⟨id, member, low.trans same.1.symm, high.trans same.2.symm, by simp [equal]⟩
      next other =>
        rcases (sound.carries _ _ _).mp stored with ⟨node, inside, low', high', value'⟩
        have different : node ≠ id := by
          intro same
          subst same
          exact other ⟨low'.symm.trans low, high'.symm.trans high⟩
        exact ⟨node, inside, low', high', by simp [different, value']⟩
    · rintro ⟨node, inside, low', high', value'⟩
      by_cases same : node = id
      · subst same
        rw [if_pos ⟨low'.symm.trans low, high'.symm.trans high⟩]
        simpa using value'
      · rw [if_neg]
        · simp only [same, if_false] at value'
          exact (sound.carries _ _ _).mpr ⟨node, inside, low', high', value'⟩
        · intro equal
          exact same (sound.distinct node inside id member
            (low'.trans (equal.1.trans low.symm)) (high'.trans (equal.2.trans high.symm)))

omit [LinearOrder Lower] in
variable {good : Itree Bound Data → NodeId → Prop}

omit [LinearOrder Lower] in
theorem Local.replace (isLocal : Local order good) (before : good tree other) (id : NodeId)
    (data : Data) :
    good (tree.modify id fun node => { node with data := data }) other := by
  have fields := tree.modify_data_node id data
  refine isLocal.congr before ⟨?_, ?_, ?_, fun child _ => ?_⟩ ?_
  all_goals simp only [fields]

/-- The tree with a single node. -/
def first (tree : Itree Bound Data) (lower upper : Bound) (data : Data) : Itree Bound Data :=
  { tree with root := some tree.allocated, allocated := tree.allocated + 1 }.modify
    tree.allocated fun _ => itreeNodeNew lower upper data

omit [LinearOrder Lower] [LinearOrder Upper] in
theorem pointerTree_first (tree : Itree Bound Data) (lower upper : Bound) (data : Data) :
    PointerTree (first tree lower upper data) (.node tree.allocated .nil .nil) := by
  refine ⟨rfl, ?_, by simp, ?_⟩
  · simp [Linked, Itree.links, first, itreeNodeNew]
  · intro id member
    simp only [ids_node, ids_nil, List.nil_append, List.mem_singleton] at member
    exact member ▸ Nat.lt_succ_self _

theorem Sound.first (sound : Sound order tree .nil contents) (lower upper : Bound) (data : Data) :
    Sound order (first tree lower upper data) (.node tree.allocated .nil .nil)
      (contents.insert (order.lower lower) (order.upper upper) data) := by
  have node : (IntervalTree.first tree lower upper data).node tree.allocated =
      itreeNodeNew lower upper data := by simp [IntervalTree.first]
  have nothing : ∀ low high, contents low high = none := by
    intro low high
    cases stored : contents low high with
    | none => rfl
    | some value =>
      rcases (sound.carries _ _ _).mp stored with ⟨_, impossible, _⟩
      cases impossible
  refine ⟨pointerTree_first tree lower upper data, by simp [Ordered], ?_, ?_⟩
  · intro one inOne two inTwo _ _
    simp only [ids_node, ids_nil, List.nil_append, List.mem_singleton] at inOne inTwo
    exact inOne.trans inTwo.symm
  · intro low high value
    simp only [Contents.insert, nothing, ids_node, ids_nil, List.nil_append,
      List.mem_singleton, exists_eq_left, lowerKey, upperKey, node, itreeNodeNew]
    constructor
    · intro stored
      split at stored
      next same => exact ⟨same.1.symm, same.2.symm, Option.some.inj stored⟩
      next => cases stored
    · rintro ⟨low', high', value'⟩
      rw [if_pos ⟨low'.symm, high'.symm⟩, value']

omit [LinearOrder Lower] in
theorem Local.first (isLocal : Local order good) (tree : Itree Bound Data) (lower upper : Bound)
    (data : Data) :
    ∀ id ∈ (Shape.node tree.allocated .nil .nil).ids,
      good (IntervalTree.first tree lower upper data) id := by
  intro id member
  simp only [ids_node, ids_nil, List.nil_append, List.mem_singleton] at member
  subst member
  apply isLocal.recomputed
  simp [newMaxUpper, IntervalTree.first, itreeNodeNew]

omit [LinearOrder Upper] in
/-- The new node has its own maximum, and the old ones have theirs as before. -/
theorem attained_attach (pointers : PointerTree tree shape)
    (seated : shape.seat (lowerKey order tree) (order.lower lower) = some id)
    (attained : ∀ other ∈ shape.ids, Attained tree other) :
    ∀ other ∈ (attachedShape order tree shape id lower upper data).ids,
      Attained (attach order tree id lower upper data) other := by
  have old : ∀ other ∈ shape.ids, other ≠ tree.allocated := fun other member =>
    Nat.ne_of_lt (pointers.allocated other member)
  have different := old id (seat_mem seated)
  have free := pointers.linked.seat_free seated
  intro other member
  rcases mem_ids_place.mp member with isFresh | member
  · subst isFresh
    left
    rw [attach_node_fresh different]
    rfl
  · have sameUpper : ((attach order tree id lower upper data).node other).upper =
        (tree.node other).upper := (attach_node_old (old other member)).2.2.1
    have sameMax : ((attach order tree id lower upper data).node other).maxUpper =
        (tree.node other).maxUpper := (attach_node_old (old other member)).2.2.2.1
    cases attained other member with
    | inl own => exact .inl (by rw [sameMax, sameUpper, own])
    | inr below =>
      rcases below with ⟨child, points, equal⟩
      have childOld : child ∈ shape.ids := (pointers.linked.child_mem member points).1
      refine .inr ⟨child, ?_, ?_⟩
      · by_cases same : other = id
        · subst same
          simp only [Itree.links] at free
          rw [attach_node_seat different]
          split
          next isBelow =>
            rw [if_pos isBelow] at free
            exact .inr (points.resolve_left (by simp [free]))
          next isAbove =>
            rw [if_neg isAbove] at free
            exact .inl (points.resolve_right (by simp [free]))
        · rw [attach_node_of_ne (old other member) same]
          exact points
      · rw [sameMax, equal, (attach_node_old (old child childOld)).2.2.2.1]

variable [DecidableEq Bound]

/-- Retracing after a new node was attached keeps the tree sound. -/
theorem Sound.itreeRetraceInsert (sound : Sound order tree shape contents)
    (located : itreeLocation order tree lower upper = some (some id))
    (miss : ∀ other ∈ shape.ids, ¬matches? order tree other lower upper = true)
    (seated : shape.seat (lowerKey order tree) (order.lower lower) = some id)
    (keeps : InsertKeeps order tree lower upper) :
    ∃ result shape', IntervalTree.itreeRetraceInsert order
        (IntervalTree.attach order tree id lower upper data) id = some result ∧
      Sound order result shape' (contents.insert (order.lower lower) (order.upper upper) data) ∧
      ∀ good, Local order good →
        (∀ other ∈ (attachedShape order tree shape id lower upper data).ids, other ≠ id →
          good (IntervalTree.attach order tree id lower upper data) other) →
        (seatBalance order tree id lower < -1 ∨ seatBalance order tree id lower > 1 →
          good (IntervalTree.attach order tree id lower upper data) id ∨
          ∀ parent, (tree.node id).parent = some parent →
            (tree.node parent).balanceFactor = 1 ∨ (tree.node parent).balanceFactor = -1) →
        ∀ other ∈ shape'.ids, good result other := by
  have member := seat_mem seated
  have different := Nat.ne_of_lt (sound.allocated id member)
  have attached := sound.attach data miss seated
  have missHere : matches? order tree id lower upper = false := by
    simpa using miss id member
  have seatInside : id ∈ (attachedShape order tree shape id lower upper data).ids :=
    mem_ids_place.mpr (.inr member)
  simp only [IntervalTree.itreeRetraceInsert, attach_balance different]
  by_cases leans : seatBalance order tree id lower < -1 ∨ seatBalance order tree id lower > 1
  · rw [if_pos leans]
    have short := attached.depth_lt_bound seatInside
    rcases retraceInsertLoop_spec order attached.toPointerTree seatInside
        (Nat.lt_of_succ_lt short) (.refl _) (fun _ => rfl) .start (attach_balance different)
        (fun _ _ _ => rfl) with ⟨climbed, final, equal, finalInside, ended⟩
    rw [equal]
    have beside : ∀ {current : Int},
        InsertClimb (IntervalTree.attach order tree id lower upper data) id
          (seatBalance order tree id lower) final current →
        ∀ {good : Itree Bound Data → NodeId → Prop},
        (∀ other ∈ (attachedShape order tree shape id lower upper data).ids, other ≠ id →
          good (IntervalTree.attach order tree id lower upper data) other) →
        (good (IntervalTree.attach order tree id lower upper data) id ∨
          ∀ parent, (tree.node id).parent = some parent →
            (tree.node parent).balanceFactor = 1 ∨ (tree.node parent).balanceFactor = -1) →
        ∀ other ∈ (attachedShape order tree shape id lower upper data).ids, other ≠ final →
          good (IntervalTree.attach order tree id lower upper data) other := by
      intro current climb good others atSeat other inside notFinal
      by_cases isSeat : other = id
      · subst isSeat
        rcases atSeat with here | stops
        · exact here
        · have stayed := (insertClimb_attach sound.toPointerTree member climb).2.2.eq_start stops
          exact absurd stayed.symm notFinal
      · exact others other inside isSeat
    cases ended with
    | settled alike sameMax climb =>
      have climbedSound := alike.sound attached
      rcases climbedSound.toPointerTree.updateMaxUppers order finalInside with
        ⟨result, equal, later, _, establishes⟩
      refine ⟨result, _, equal, later.sound climbedSound, ?_⟩
      intro good isLocal others atSeat
      apply establishes good isLocal
      intro other inside notFinal
      exact isLocal.of_alike alike sameMax
        (beside climb others (atSeat leans) other inside notFinal)
    | @rotated climbedTree _ parent current alike sameMax climb here up turns =>
      rcases insertClimb_attach sound.toPointerTree member climb with ⟨old, deep, before⟩
      rw [(attach_node_old (Nat.ne_of_lt (sound.allocated final old))).1] at up
      rcases sound.parent_spec old up with ⟨parentOld, _, higher⟩
      have parentNode : (IntervalTree.attach order tree id lower upper data).node parent =
          tree.node parent := attach_node_above sound.toPointerTree member parentOld (by omega)
      simp only [heavy, parentNode] at turns
      have turnable := (keeps id located missHere leans final parent current before up
        turns).attach sound.toPointerTree member old deep up alike
      have parentInside : parent ∈ (attachedShape order tree shape id lower upper data).ids :=
        mem_ids_place.mpr (.inr parentOld)
      rcases (alike.sound attached).rotateInsert parentInside turnable here with
        ⟨turned, sameIds, kept, keeping⟩
      rcases kept.toPointerTree.updateMaxUppers order (sameIds ▸ finalInside) with
        ⟨result, equal, later, _, establishes⟩
      refine ⟨result, turned, equal, later.sound kept, ?_⟩
      intro good isLocal others atSeat
      apply establishes good isLocal
      rw [sameIds]
      intro other inside notFinal
      exact keeping good isLocal other inside (isLocal.of_alike alike sameMax
        (beside climb others (atSeat leans) other inside notFinal))
  · rw [if_neg leans]
    rcases attached.toPointerTree.updateMaxUppers order seatInside with
      ⟨result, equal, later, _, establishes⟩
    exact ⟨result, _, equal, later.sound attached,
      fun good isLocal others _ => establishes good isLocal others⟩

/-- Inserting an interval keeps the tree sound and puts it into the map. -/
theorem Sound.gzochidItreeInsert (sound : Sound order tree shape contents) (data : Data)
    (keeps : InsertKeeps order tree lower upper) :
    ∃ result shape', IntervalTree.gzochidItreeInsert order tree lower upper data = some result ∧
      Sound order result shape' (contents.insert (order.lower lower) (order.upper upper) data) ∧
      (Covered order tree shape → InsertCovers order tree lower upper →
        Covered order result shape') ∧
      ((∀ id ∈ shape.ids, Attained tree id) → ∀ id ∈ shape'.ids, Attained result id) := by
  simp only [IntervalTree.gzochidItreeInsert]
  rcases sound.itreeLocation_spec lower upper with
    ⟨nowhere, _, empty⟩ | ⟨found, located, spec⟩
  · subst empty
    rw [nowhere]
    exact ⟨_, _, rfl, sound.first lower upper data,
      fun _ _ => (covers_local order).first tree lower upper data,
      fun _ => (attained_local order).first tree lower upper data⟩
  · rw [located]
    rcases spec.outcome with hit | ⟨miss, seated⟩
    · simp only [hit, if_true]
      exact ⟨_, shape, rfl, sound.replace data spec.member hit,
        fun covered _ id member => (covers_local order).replace (covered id member) found data,
        fun attained id member =>
          (attained_local order).replace (attained id member) found data⟩
    · have missHere : matches? order tree found lower upper = false := by
        simpa using miss found spec.member
      simp only [missHere]
      rcases sound.itreeRetraceInsert located miss seated keeps with
        ⟨result, shape', equal, kept, establishes⟩
      refine ⟨result, shape', equal, kept, ?_, ?_⟩
      · intro covered recomputes
        apply establishes _ (covers_local order)
        · exact fun other inside notSeat =>
            covers_attach sound seated covered inside fun same => absurd same notSeat
        · intro leans
          refine (recomputes found located missHere leans).imp_left fun within => ?_
          exact covers_attach sound seated covered
            (mem_ids_place.mpr (.inr spec.member)) fun _ => within
      · intro attained
        have placed : ∀ other ∈ (attachedShape order tree shape found lower upper data).ids,
            Attained (IntervalTree.attach order tree found lower upper data) other :=
          attained_attach sound.toPointerTree seated attained
        apply establishes _ (attained_local order)
        · exact fun other inside _ => placed other inside
        · exact fun _ => .inl (placed found (mem_ids_place.mpr (.inr spec.member)))

end Insert

end Gzochi.IntervalTree
