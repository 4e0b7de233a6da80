import Gzochi.Lib.Runs
import Gzochi.Itree.Insert
import Gzochi.Itree.Remove

/-!
# Interval trees as maps

Sequences of `gzochid_itree_insert` and `gzochid_itree_remove` calls, and the map each
of them defines.  A tree stands for that map as long as no call comes to a rotation
that breaks its pointers or to an ambiguous predecessor.
-/

namespace Gzochi.IntervalTree

open Gzochi.Lib

universe u v w x

variable {Bound : Type u} {Lower : Type v} {Upper : Type w} {Data : Type x}

inductive Call (Bound : Type u) (Data : Type x) where
  | insert (lower upper : Bound) (data : Data)
  | remove (lower upper : Bound)

variable [LinearOrder Lower] [LinearOrder Upper] [DecidableEq Bound]
  (order : Comparators Bound Lower Upper)

def itreeStep (tree : Itree Bound Data) : Call Bound Data → Option (Itree Bound Data × Unit)
  | .insert lower upper data =>
      (gzochidItreeInsert order tree lower upper data).map fun result => (result, ())
  | .remove lower upper =>
      (gzochidItreeRemove order tree lower upper).map fun result => (result, ())

/-- What a call does to the map. -/
def Contents.after (contents : Contents Lower Upper Data) : Call Bound Data →
    Contents Lower Upper Data
  | .insert lower upper data => contents.insert (order.lower lower) (order.upper upper) data
  | .remove lower upper => contents.remove (order.lower lower) (order.upper upper)

/-- The map a sequence of calls defines. -/
def contentsOf (trace : List (Call Bound Data × Unit)) : Contents Lower Upper Data :=
  trace.foldl (fun contents call => contents.after order call.1) .empty

/-- The tree stands for the map: its pointers form a finite tree with one node for
each entry of the map, and every lookup ends and finds what the map holds. -/
structure HoldsMap (tree : Itree Bound Data) (contents : Contents Lower Upper Data) :
    Prop where
  nodes : ∃ shape, PointerTree tree shape ∧ Distinct order tree shape ∧
    Carries order tree shape contents
  found : ∀ lower upper, lookup order tree lower upper =
    some (contents (order.lower lower) (order.upper upper))

/-- The calls that keep a tree in order. -/
def CallKeeps (tree : Itree Bound Data) : Call Bound Data → Prop
  | .insert lower upper _ => InsertKeeps order tree lower upper
  | .remove lower upper => RemoveKeeps order tree lower upper

variable {order} {tree : Itree Bound Data} {shape : Shape NodeId}
  {contents : Contents Lower Upper Data} {garbage : Node Bound Data}
  {trace : List (Call Bound Data × Unit)}

omit [LinearOrder Upper] [DecidableEq Bound] in
theorem sound_new (order : Comparators Bound Lower Upper) (garbage : Node Bound Data) :
    Sound order (gzochidItreeNew garbage) .nil (fun _ _ => none) where
  root := rfl
  linked := trivial
  nodup := List.nodup_nil
  allocated := by simp
  ordered := trivial
  distinct := by simp [Distinct]
  carries := by simp [Carries]

omit [DecidableEq Bound] in
theorem Sound.holdsMap (sound : Sound order tree shape contents) :
    HoldsMap order tree contents where
  nodes := ⟨shape, sound.toPointerTree, sound.distinct, sound.carries⟩
  found := sound.lookup_eq

/-- A call that keeps the tree in order returns, and does to it what it does to the
map. -/
theorem Sound.itreeStep (sound : Sound order tree shape contents) {call : Call Bound Data}
    (keeps : CallKeeps order tree call) :
    ∃ result shape', IntervalTree.itreeStep order tree call = some (result, ()) ∧
      Sound order result shape' (contents.after order call) := by
  cases call with
  | insert lower upper data =>
    rcases sound.gzochidItreeInsert data keeps with
      ⟨result, shape', equal, kept, _⟩
    exact ⟨result, shape', by simp [IntervalTree.itreeStep, equal], kept⟩
  | remove lower upper =>
    rcases sound.gzochidItreeRemove keeps with ⟨result, shape', equal, kept, _⟩
    exact ⟨result, shape', by simp [IntervalTree.itreeStep, equal], kept⟩

theorem run_sound (run : Run (itreeStep order) (CallKeeps order) (gzochidItreeNew garbage)
    trace tree) : ∃ shape, Sound order tree shape (contentsOf order trace) := by
  refine run.invariant (fun trace tree => ∃ shape, Sound order tree shape (contentsOf order trace))
    ⟨.nil, sound_new order garbage⟩ ?_
  intro trace tree call next observation _ sound keeps taken
  rcases sound with ⟨shape, sound⟩
  rcases sound.itreeStep keeps with ⟨result, shape', equal, kept⟩
  rw [equal] at taken
  cases taken
  exact ⟨shape', by simpa [contentsOf] using kept⟩

/-- After every sequence of calls that keep the tree in order the tree stands for the
map the sequence defines, and the next such call returns. -/
theorem itree_holds_map
    (run : Run (itreeStep order) (CallKeeps order) (gzochidItreeNew garbage) trace tree) :
    HoldsMap order tree (contentsOf order trace) ∧
      ∀ call, CallKeeps order tree call → (itreeStep order tree call).isSome := by
  rcases run_sound run with ⟨shape, sound⟩
  refine ⟨sound.holdsMap, fun call keeps => ?_⟩
  rcases sound.itreeStep keeps with ⟨result, _, equal, _⟩
  simp [equal]

/-- Numbers as bounds, compared as numbers. -/
def naturalOrder : Comparators Nat Nat Nat where
  lower := id
  upper := id

/-- The tree some calls build from the empty one. -/
def natural (calls : List (Call Nat Nat)) : Itree Nat Nat :=
  stateAfter (itreeStep naturalOrder) (gzochidItreeNew (itreeNodeNew 0 0 0)) calls

theorem itree_holds_map_after_removal :
    HoldsMap naturalOrder (natural [.insert 10 11 1, .insert 5 6 2, .remove 10 11])
      (contentsOf naturalOrder
        [(.insert 10 11 1, ()), (.insert 5 6 2, ()), (.remove 10 11, ())]) := by
  have first : CallKeeps naturalOrder (natural []) (.insert 10 11 1) := by
    intro seat located
    cases located
  have second : CallKeeps naturalOrder (natural [.insert 10 11 1]) (.insert 5 6 2) := by
    intro seat located _ leans
    have there : itreeLocation naturalOrder (natural [.insert 10 11 1]) 5 6 = some (some 0) := rfl
    have same := Option.some.inj (Option.some.inj (there.symm.trans located))
    subst same
    exact absurd leans (by decide)
  have third : CallKeeps naturalOrder (natural [.insert 10 11 1, .insert 5 6 2])
      (.remove 10 11) := by
    intro id target located _ equal
    have there : itreeLocation naturalOrder (natural [.insert 10 11 1, .insert 5 6 2]) 10 11 =
        some (some 0) := rfl
    have same := Option.some.inj (Option.some.inj (there.symm.trans located))
    subst same
    have itself : removalTarget (natural [.insert 10 11 1, .insert 5 6 2]) 0 = some 0 := rfl
    have same := Option.some.inj (itself.symm.trans equal)
    subst same
    refine ⟨fun different => absurd rfl different, fun _ node parent climb up => ?_⟩
    have stays : node = 0 := climb.eq_start fun _ points => by cases points
    rw [stays] at up
    cases up
  exact (itree_holds_map (.snoc (.snoc (.snoc .nil first rfl) second rfl) third rfl)).1

/-- An interval that shares its lower bound with the predecessor of a removed one is
lost. -/
theorem itree_loses_interval : ∃ trace tree,
    Run (itreeStep naturalOrder) anyAction (gzochidItreeNew (itreeNodeNew 0 0 0)) trace tree ∧
    ¬HoldsMap naturalOrder tree (contentsOf naturalOrder trace) := by
  have run : exec (itreeStep naturalOrder) (gzochidItreeNew (itreeNodeNew 0 0 0))
      [.insert 10 11 1, .insert 5 6 2, .insert 5 7 3, .insert 20 21 4, .remove 10 11] =
      some ([(.insert 10 11 1, ()), (.insert 5 6 2, ()), (.insert 5 7 3, ()),
        (.insert 20 21 4, ()), (.remove 10 11, ())],
        natural [.insert 10 11 1, .insert 5 6 2, .insert 5 7 3, .insert 20 21 4,
          .remove 10 11]) := rfl
  refine ⟨_, _, run_of_exec run, fun holds => ?_⟩
  have lost : lookup naturalOrder (natural [.insert 10 11 1, .insert 5 6 2, .insert 5 7 3,
      .insert 20 21 4, .remove 10 11]) 5 6 = some none := by decide
  exact absurd (lost.symm.trans (holds.found 5 6)) (by decide)

end Gzochi.IntervalTree
