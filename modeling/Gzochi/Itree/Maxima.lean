import Gzochi.Itree.Refinement

/-!
# Maximum upper bounds

What a node records is the greatest of the upper bounds at and below it, and the bound of an
interval that is there.  Insertions keep this up, as long as the retrace comes by the seat; a
removal does so where the nodes that lose a bound record another one, or where the retrace
stops, since nothing is computed anew elsewhere.
-/

namespace Gzochi.IntervalTree

open Gzochi.Lib

universe u v w x

variable {Bound : Type u} {Lower : Type v} {Upper : Type w} {Data : Type x}
variable [LinearOrder Upper] {order : Comparators Bound Lower Upper} {tree : Itree Bound Data}
  {shape : Shape NodeId} {contents : Contents Lower Upper Data} {id : NodeId}

/-- A node records the greatest upper bound in its subtree, that of an interval there. -/
structure IsMaximum (order : Comparators Bound Lower Upper) (tree : Itree Bound Data)
    (id : NodeId) : Prop where
  greatest : ∀ other, Below tree id other →
    order.upper (tree.node other).upper ≤ order.upper (tree.node id).maxUpper
  there : ∃ other, Below tree id other ∧ (tree.node other).upper = (tree.node id).maxUpper

/-- Every node at or below the root records its maximum. -/
def Maximal (order : Comparators Bound Lower Upper) (tree : Itree Bound Data) : Prop :=
  ∀ root id, tree.root = some root → Below tree root id → IsMaximum order tree id

omit [LinearOrder Upper] in
/-- What is attained step by step is the bound of an interval below. -/
theorem exists_below {parent : Option NodeId} {top : NodeId}
    (linked : Linked tree.links parent shape) (attained : ∀ id ∈ shape.ids, Attained tree id)
    (atTop : shape.top = some top) :
    ∃ other, Below tree top other ∧ (tree.node other).upper = (tree.node top).maxUpper := by
  induction shape generalizing parent top with
  | nil => cases atTop
  | node current left right leftIh rightIh =>
    cases atTop
    rcases linked with ⟨_, toLeft, toRight, inLeft, inRight⟩
    cases attained current (by simp) with
    | inl own => exact ⟨current, .refl, own.symm⟩
    | inr below =>
      rcases below with ⟨child, points, equal⟩
      rw [equal]
      cases points with
      | inl isLeft =>
        rcases leftIh inLeft (fun id member => attained id (by simp [member]))
          (toLeft.symm.trans isLeft) with ⟨other, below, bound⟩
        exact ⟨other, (Below.refl.left isLeft).trans below, bound⟩
      | inr isRight =>
        rcases rightIh inRight (fun id member => attained id (by simp [member]))
          (toRight.symm.trans isRight) with ⟨other, below, bound⟩
        exact ⟨other, (Below.refl.right isRight).trans below, bound⟩

theorem Covered.maximal (covered : Covered order tree shape) (pointers : PointerTree tree shape)
    (attained : ∀ id ∈ shape.ids, Attained tree id) : Maximal order tree := by
  intro root id atRoot below
  have inRoot := Shape.mem_ids_of_top (pointers.root.symm.trans atRoot)
  have member := (covered.below pointers inRoot below).1
  constructor
  · intro other under
    rcases covered.below pointers member under with ⟨inside, bounded⟩
    exact (covered other inside).own.trans bounded
  · rcases Shape.exists_occurs member with ⟨left, right, occurs⟩
    rcases occurs.linked pointers.linked with ⟨parent, linked⟩
    exact exists_below linked (fun other inside => attained other (occurs.mem_ids inside)) rfl

/-! ## Runs -/

variable [LinearOrder Lower]

/-- The calls after which every node still records its maximum. -/
def CallAttains (order : Comparators Bound Lower Upper) (tree : Itree Bound Data) :
    Call Bound Data → Prop
  | .insert lower upper _ =>
      InsertKeeps order tree lower upper ∧ InsertCovers order tree lower upper
  | .remove lower upper =>
      RemoveKeeps order tree lower upper ∧ RemoveAttains order tree lower upper

/-- A tree in order, with the maximum upper bounds of all its nodes. -/
structure UpToDate (order : Comparators Bound Lower Upper) (tree : Itree Bound Data)
    (contents : Contents Lower Upper Data) (shape : Shape NodeId) : Prop where
  sound : Sound order tree shape contents
  covered : Covered order tree shape
  attained : ∀ id ∈ shape.ids, Attained tree id

variable [DecidableEq Bound] {garbage : Node Bound Data}
  {trace : List (Call Bound Data × Unit)}

theorem UpToDate.itreeStep (upToDate : UpToDate order tree contents shape)
    {call : Call Bound Data} (keeps : CallAttains order tree call) :
    ∃ result shape', IntervalTree.itreeStep order tree call = some (result, ()) ∧
      UpToDate order result (contents.after order call) shape' := by
  rcases upToDate with ⟨sound, covered, attained⟩
  cases call with
  | insert lower upper data =>
    rcases sound.gzochidItreeInsert data keeps.1 with
      ⟨result, shape', equal, kept, covering, attaining⟩
    exact ⟨result, shape', by simp [IntervalTree.itreeStep, equal], kept,
      covering covered keeps.2, attaining attained⟩
  | remove lower upper =>
    rcases sound.gzochidItreeRemove keeps.1 with
      ⟨result, shape', equal, kept, covering, attaining⟩
    exact ⟨result, shape', by simp [IntervalTree.itreeStep, equal], kept, covering covered,
      attaining attained keeps.2⟩

omit [DecidableEq Bound] in
theorem upToDate_new (order : Comparators Bound Lower Upper) (garbage : Node Bound Data) :
    UpToDate order (gzochidItreeNew garbage) (fun _ _ => none) .nil :=
  ⟨sound_new order garbage, fun _ member => absurd member List.not_mem_nil,
    fun _ member => absurd member List.not_mem_nil⟩

theorem run_upToDate
    (run : Run (itreeStep order) (CallAttains order) (gzochidItreeNew garbage) trace tree) :
    ∃ shape, UpToDate order tree (contentsOf order trace) shape := by
  apply run.invariant
    (fun trace tree => ∃ shape, UpToDate order tree (contentsOf order trace) shape)
      ⟨.nil, upToDate_new order garbage⟩
  intro trace tree call next observation _ before keeps taken
  rcases before with ⟨shape, upToDate⟩
  rcases upToDate.itreeStep keeps with ⟨result, shape', equal, kept⟩
  rw [equal] at taken
  cases taken
  exact ⟨shape', by simpa [contentsOf] using kept⟩

/-- After every sequence of such calls every node records the greatest upper bound in its
subtree, and the next such call returns. -/
theorem itree_maximal
    (run : Run (itreeStep order) (CallAttains order) (gzochidItreeNew garbage) trace tree) :
    Maximal order tree ∧
      ∀ call, CallAttains order tree call → (itreeStep order tree call).isSome := by
  rcases run_upToDate run with ⟨shape, upToDate⟩
  refine ⟨upToDate.covered.maximal upToDate.sound.toPointerTree upToDate.attained, ?_⟩
  intro call keeps
  rcases upToDate.itreeStep keeps with ⟨result, _, equal, _⟩
  simp [equal]

theorem itree_maximal_after_removal :
    Maximal naturalOrder (natural [.insert 10 30 1, .insert 20 21 2, .remove 20 21]) := by
  have first : CallAttains naturalOrder (natural []) (.insert 10 30 1) := by
    constructor
    · intro seat located
      cases located
    · intro seat located
      cases located
  have upright : ∀ seat, itreeLocation naturalOrder (natural [.insert 10 30 1]) 20 21 =
      some (some seat) → ¬(seatBalance naturalOrder (natural [.insert 10 30 1]) seat 20 < -1 ∨
        seatBalance naturalOrder (natural [.insert 10 30 1]) seat 20 > 1) := by
    intro seat located
    have there : itreeLocation naturalOrder (natural [.insert 10 30 1]) 20 21 = some (some 0) :=
      rfl
    have same := Option.some.inj (Option.some.inj (there.symm.trans located))
    subst same
    decide
  have second : CallAttains naturalOrder (natural [.insert 10 30 1]) (.insert 20 21 2) := by
    constructor
    · exact fun seat located _ leans => absurd leans (upright seat located)
    · exact fun seat located _ leans => absurd leans (upright seat located)
  have found : ∀ id target, itreeLocation naturalOrder
        (natural [.insert 10 30 1, .insert 20 21 2]) 20 21 = some (some id) →
      removalTarget (natural [.insert 10 30 1, .insert 20 21 2]) id = some target →
      id = 1 ∧ target = 1 := by
    intro id target located equal
    have there : itreeLocation naturalOrder (natural [.insert 10 30 1, .insert 20 21 2]) 20 21 =
        some (some 1) := rfl
    have same := Option.some.inj (Option.some.inj (there.symm.trans located))
    subst same
    have itself : removalTarget (natural [.insert 10 30 1, .insert 20 21 2]) 1 = some 1 := rfl
    exact ⟨rfl, (Option.some.inj (itself.symm.trans equal)).symm⟩
  have third : CallAttains naturalOrder (natural [.insert 10 30 1, .insert 20 21 2])
      (.remove 20 21) := by
    constructor
    · intro id target located _ equal
      rcases found id target located equal with ⟨isId, isTarget⟩
      subst isId isTarget
      exact ⟨fun different => absurd rfl different, fun there => absurd rfl there⟩
    · intro id target located _ equal other notTarget loses
      rcases found id target located equal with ⟨isId, isTarget⟩
      subst isId isTarget
      have isRoot : other = 0 := by
        have up := loses.resolve_left notTarget
        injection up with same
        exact same.symm
      subst isRoot
      exact .inl (.inl rfl)
  exact (itree_maximal (.snoc (.snoc (.snoc .nil first rfl) second rfl) third rfl)).1

/-- When the interval with the greatest upper bound is removed from a leaf, the root records it
as before. -/
theorem itree_keeps_removed_maximum : ∃ trace tree,
    Run (itreeStep naturalOrder) anyAction (gzochidItreeNew (itreeNodeNew 0 0 0)) trace tree ∧
    ¬Maximal naturalOrder tree := by
  have run : exec (itreeStep naturalOrder) (gzochidItreeNew (itreeNodeNew 0 0 0))
      [.insert 5 6 1, .insert 7 20 2, .remove 7 20] =
      some ([(.insert 5 6 1, ()), (.insert 7 20 2, ()), (.remove 7 20, ())],
        natural [.insert 5 6 1, .insert 7 20 2, .remove 7 20]) := rfl
  refine ⟨_, _, run_of_exec run, fun maximal => ?_⟩
  rcases (maximal 0 0 rfl .refl).there with ⟨other, below, bound⟩
  have alone : other = 0 := by
    clear bound
    induction below with
    | refl => rfl
    | left _ points ih | right _ points ih =>
        subst ih
        cases points
  subst alone
  cases bound

end Gzochi.IntervalTree
