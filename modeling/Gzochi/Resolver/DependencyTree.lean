import Gzochi.Resolver.Model

/-!
# The dependency tree is found by a depth-first search

The stack of the loop holds the path from the type that is required to the one being looked
at, so that the loop does what a search does below that path.
-/

namespace Gzochi.Resolver

open Lib
open DepthFirst (Explores Failure)

variable {classes : Classes} {context : Context}

/-- Searches below a path of types. -/
abbrev Searches (classes : Classes) (context : Context) (path types : List GType)
    (result : Except (Failure GType ResolutionError) (List (RoseTree Constructor))) : Prop :=
  Explores (injectableConstructorForType classes) extractDependencies
    (fun type => context.contains type = true) path types result

/-- The error of a search that fails. -/
def errorOf : Failure GType ResolutionError → ResolutionError
  | .circular type => .circularDependency type
  | .refused err => err

/-- With enough fuel, and with any more, the loop comes to a result. -/
def Builds (classes : Classes) (context : Context) (state : TreeState)
    (below : List TreeState) (result : Except ResolutionError (RoseTree Constructor)) : Prop :=
  ∃ enough, ∀ fuel ≥ enough, buildLoop classes context fuel state below = some result

/-- The path to a state. -/
def pathOf (stack : List TreeState) : List GType := stack.map fun state => state.ctor.type

theorem hasAncestorWithType_iff (stack : List TreeState) (type : GType) :
    hasAncestorWithType stack type = true ↔ type ∈ pathOf stack := by
  unfold hasAncestorWithType pathOf
  rw [List.any_eq_true, List.mem_map]
  simp only [decide_eq_true_eq]

variable {type : GType} {ctor : Constructor}

theorem type_of_constructor (made : injectableConstructorForType classes type = .ok ctor) :
    ctor.type = type := by
  unfold injectableConstructorForType at made
  split at made
  next => cases made
  next =>
    cases made
    rfl

variable {state : TreeState} {below : List TreeState}
  {result : Except ResolutionError (RoseTree Constructor)}

theorem Builds.of_step {next : TreeState} {nextBelow : List TreeState}
    (steps : ∀ fuel, buildLoop classes context (fuel + 1) state below =
      buildLoop classes context fuel next nextBelow)
    (builds : Builds classes context next nextBelow result) :
    Builds classes context state below result := by
  obtain ⟨enough, more⟩ := builds
  refine ⟨enough + 1, ?_⟩
  intro fuel least
  cases fuel with
  | zero => cases least
  | succ fuel =>
    rw [steps]
    exact more fuel (Nat.le_of_succ_le_succ least)

theorem Builds.of_result
    (ends : ∀ fuel, buildLoop classes context (fuel + 1) state below = some result) :
    Builds classes context state below result := by
  refine ⟨1, ?_⟩
  intro fuel least
  cases fuel with
  | zero => cases least
  | succ fuel => exact ends fuel

section Steps

variable {ctor made : Constructor} {type : GType} {types : List GType}
  {children inner : List (RoseTree Constructor)} {below : List TreeState}

theorem loop_passes (isCut : context.contains type = true) (fuel : Nat) :
    buildLoop classes context (fuel + 1) ⟨ctor, type :: types, children⟩ below =
      buildLoop classes context fuel ⟨ctor, types, children⟩ below := by
  simp only [buildLoop, buildDependencyTreeInner, isCut, if_true]

/-- A state for a type that is neither cut off nor on the path is pushed. -/
theorem loop_descends (uncut : ¬context.contains type = true)
    (new : type ∉ pathOf (⟨ctor, type :: types, children⟩ :: below))
    (expands : injectableConstructorForType classes type = .ok made) (fuel : Nat) :
    buildLoop classes context (fuel + 1) ⟨ctor, type :: types, children⟩ below =
      buildLoop classes context fuel ⟨made, extractDependencies made, []⟩
        (⟨ctor, types, children⟩ :: below) := by
  have noAncestor : ¬hasAncestorWithType (⟨ctor, types, children⟩ :: below) type = true :=
    (hasAncestorWithType_iff _ type).not.mpr new
  simp only [buildLoop, buildDependencyTreeInner, uncut, noAncestor, expands]
  rfl

/-- A state without types left is popped. -/
theorem loop_ascends (fuel : Nat) :
    buildLoop classes context (fuel + 1) ⟨made, [], inner⟩ (⟨ctor, types, children⟩ :: below) =
      buildLoop classes context fuel ⟨ctor, types, children ++ [.node made inner]⟩ below :=
  rfl

/-- The path of what is built for a type is longer by the type. -/
theorem pathOf_expanded {path : List GType}
    (expands : injectableConstructorForType classes type = .ok made)
    (isPath : path = pathOf (⟨ctor, types, children⟩ :: below)) :
    type :: path =
      pathOf (⟨made, extractDependencies made, []⟩ :: ⟨ctor, types, children⟩ :: below) := by
  rw [pathOf, List.map_cons, type_of_constructor expands, isPath]
  rfl

end Steps

/-- The loop below a state does what a search does: where the search fails it stops with the
error, and where it succeeds the state is left with the trees. -/
theorem builds_of_searches {path types : List GType}
    {result : Except (Failure GType ResolutionError) (List (RoseTree Constructor))}
    (searches : Searches classes context path types result) :
    ∀ (ctor : Constructor) (children : List (RoseTree Constructor)) (below : List TreeState),
      path = pathOf (⟨ctor, types, children⟩ :: below) →
      match result with
      | .error failure =>
        Builds classes context ⟨ctor, types, children⟩ below (.error (errorOf failure))
      | .ok trees => ∀ {final}, Builds classes context ⟨ctor, [], children ++ trees⟩ below final →
          Builds classes context ⟨ctor, types, children⟩ below final := by
  induction searches with
  | done =>
    intro ctor children below _ final builds
    rw [List.append_nil] at builds
    exact builds
  | @passed path type rest result isCut later ih =>
    intro ctor children below isPath
    have inner := ih ctor children below isPath
    cases result with
    | error failure => exact inner.of_step (loop_passes isCut)
    | ok trees =>
      intro final builds
      exact (inner builds).of_step (loop_passes isCut)
  | @circular path type rest uncut onPath =>
    intro ctor children below isPath
    have isAncestor : hasAncestorWithType (⟨ctor, rest, children⟩ :: below) type = true :=
      (hasAncestorWithType_iff _ type).mpr (isPath ▸ onPath)
    apply Builds.of_result
    intro fuel
    simp only [buildLoop, buildDependencyTreeInner, uncut, isAncestor, if_true]
    rfl
  | @refused path type rest err uncut new refuses =>
    intro ctor children below isPath
    have noAncestor : ¬hasAncestorWithType (⟨ctor, rest, children⟩ :: below) type = true :=
      (hasAncestorWithType_iff _ type).not.mpr (isPath ▸ new)
    apply Builds.of_result
    intro fuel
    simp only [buildLoop, buildDependencyTreeInner, uncut, noAncestor, refuses]
    rfl
  | @failedBelow path type rest made failure uncut new expands search ih =>
    intro ctor children below isPath
    exact (ih made [] (⟨ctor, rest, children⟩ :: below) (pathOf_expanded expands isPath)).of_step
      (loop_descends uncut (isPath ▸ new) expands)
  | @failedLater path type rest made trees failure uncut new expands search later ihBelow ihLater =>
      intro ctor children below isPath
      have fails := ihLater ctor (children ++ [.node made trees]) below isPath
      have found := ihBelow made [] (⟨ctor, rest, children⟩ :: below)
        (pathOf_expanded expands isPath)
        (fails.of_step loop_ascends)
      exact found.of_step (loop_descends uncut (isPath ▸ new) expands)
  | @found path type rest made inner trees uncut new expands search later ihBelow ihLater =>
    intro ctor children below isPath final builds
    have whole : children ++ .node made inner :: trees =
        (children ++ [.node made inner]) ++ trees := by
      rw [List.append_assoc, List.singleton_append]
    rw [whole] at builds
    have later := ihLater ctor (children ++ [.node made inner]) below isPath builds
    have found := ihBelow made [] (⟨ctor, rest, children⟩ :: below) (pathOf_expanded expands isPath)
      (later.of_step loop_ascends)
    exact found.of_step (loop_descends uncut (isPath ▸ new) expands)

/-- The dependency tree of a type, for which with enough fuel there is a result. -/
theorem buildDependencyTree_eq
    {result : Except (Failure GType ResolutionError) (List (RoseTree Constructor))}
    (made : injectableConstructorForType classes type = .ok ctor)
    (searches : Searches classes context [type] (extractDependencies ctor) result) :
    ∃ enough, ∀ fuel ≥ enough, buildDependencyTree classes context type fuel =
      some (match result with
        | .error failure => .error (errorOf failure)
        | .ok children => .ok (.node ctor children)) := by
  have isPath : [type] = pathOf [⟨ctor, extractDependencies ctor, []⟩] := by
    rw [pathOf, List.map_cons, type_of_constructor made]
    rfl
  have builds := builds_of_searches searches ctor [] [] isPath
  unfold buildDependencyTree
  rw [made]
  cases result with
  | error failure => exact builds
  | ok children => exact builds (Builds.of_result fun _ => rfl)

end Gzochi.Resolver
