import Mathlib.Logic.Basic

/-!
# Runs of partial transition functions

A system is a partial function from a state and an action to a next state and an
observation.  A run lists its actions with what was observed, and may be confined
to actions that are allowed in the state in which they are taken.
-/

namespace Gzochi.Lib

open List

universe u v w

/-- An entry of a list with one more at its end is the last one or an earlier one. -/
theorem split_snoc {Entry : Type u} {front early late : List Entry} {last entry : Entry}
    (whole : front ++ [last] = early ++ entry :: late) :
    (front = early ∧ last = entry ∧ late = []) ∨
      ∃ shorter, front = early ++ entry :: shorter ∧ late = shorter ++ [last] := by
  rcases eq_nil_or_concat late with rfl | ⟨shorter, final, rfl⟩
  · obtain ⟨same, ends⟩ := append_inj' whole rfl
    exact .inl ⟨same, singleton_inj.mp ends, rfl⟩
  · rw [concat_eq_append, ← cons_append, ← append_assoc] at whole
    obtain ⟨same, ends⟩ := append_inj' whole rfl
    exact .inr ⟨shorter, same, by rw [concat_eq_append, ends]⟩

variable {State : Type u} {Action : Type v} {Observation : Type w}
variable {step : State → Action → Option (State × Observation)}
variable {allowed : State → Action → Prop} {start : State}

/-- Finite runs from `start`, each step allowed where it is taken. -/
inductive Run (step : State → Action → Option (State × Observation))
    (allowed : State → Action → Prop) (start : State) :
    List (Action × Observation) → State → Prop where
  | nil : Run step allowed start [] start
  | snoc {trace : List (Action × Observation)} {state next : State} {action : Action}
      {observation : Observation} :
      Run step allowed start trace state → allowed state action →
      step state action = some (next, observation) →
      Run step allowed start (trace ++ [(action, observation)]) next

/-- No restriction on the actions taken. -/
def anyAction (_ : State) (_ : Action) : Prop := True

namespace Run

variable {state : State}

variable {trace : List (Action × Observation)}

/-- A property of the trace and the state it leads to holds after every run when
it holds at the start and every allowed step keeps it. -/
theorem invariant (property : List (Action × Observation) → State → Prop)
    (initial : property [] start) (preserved : ∀ {trace state action next observation},
      Run step allowed start trace state → property trace state →
      allowed state action → step state action = some (next, observation) →
      property (trace ++ [(action, observation)]) next) (run : Run step allowed start trace state) :
    property trace state := by
  induction run with
  | nil => exact initial
  | snoc run permitted taken ih => exact preserved run ih permitted taken

/-- A property of states alone. -/
theorem state_invariant (property : State → Prop) (initial : property start)
    (preserved : ∀ {state action next observation}, property state →
      allowed state action → step state action = some (next, observation) →
      property next) (run : Run step allowed start trace state) : property state :=
  run.invariant (fun _ state => property state) initial
    fun _ holds permitted taken => preserved holds permitted taken

end Run

/-- Take the given actions one after the other. -/
def exec (step : State → Action → Option (State × Observation)) :
    State → List Action → Option (List (Action × Observation) × State)
  | state, [] => some ([], state)
  | state, action :: rest =>
      match step state action with
      | none => none
      | some (next, observation) =>
          match exec step next rest with
          | none => none
          | some (trace, final) => some ((action, observation) :: trace, final)

variable {state final : State} {actions : List Action} {trace : List (Action × Observation)}

/-- Executing actions that are allowed everywhere continues a run. -/
theorem Run.append_exec {early : List (Action × Observation)}
    (run : Run step allowed start early state)
    (permitted : ∀ action ∈ actions, ∀ state, allowed state action)
    (executed : exec step state actions = some (trace, final)) :
    Run step allowed start (early ++ trace) final := by
  induction actions generalizing early state trace with
  | nil =>
    simp only [exec, Option.some.injEq, Prod.mk.injEq] at executed
    obtain ⟨rfl, rfl⟩ := executed
    simpa using run
  | cons action rest ih =>
    simp only [exec] at executed
    split at executed
    next => cases executed
    next next observation taken =>
      split at executed
      next => cases executed
      next later final restExecuted =>
        simp only [Option.some.injEq, Prod.mk.injEq] at executed
        obtain ⟨rfl, rfl⟩ := executed
        have extended := ih (run.snoc (permitted action mem_cons_self state) taken)
          (fun action member => permitted action (mem_cons_of_mem _ member))
          restExecuted
        simpa using extended

/-- Executing actions gives a run. -/
theorem run_of_exec (executed : exec step start actions = some (trace, final)) :
    Run step anyAction start trace final := by
  simpa using Run.append_exec (.nil : Run step anyAction start [] start)
    (fun _ _ _ => trivial) executed

/-- Executing actions, each tested before it is taken, gives a run of allowed steps. -/
theorem run_of_tested_exec [∀ state action, Decidable (allowed state action)]
    (executed : exec (fun state action => if allowed state action then step state action else none)
      start actions = some (trace, final)) :
    Run step allowed start trace final := by
  have run := run_of_exec executed
  refine run.invariant (Run step allowed start) .nil ?_
  intro trace state action next observation _ holds _ taken
  split at taken
  next permitted => exact holds.snoc permitted taken
  next => cases taken

theorem exec_append {middle : State} {early late : List Action}
    {before after : List (Action × Observation)}
    (first : exec step state early = some (before, middle))
    (second : exec step middle late = some (after, final)) :
    exec step state (early ++ late) = some (before ++ after, final) := by
  induction early generalizing state before with
  | nil =>
    simp only [exec, Option.some.injEq, Prod.mk.injEq] at first
    obtain ⟨rfl, rfl⟩ := first
    exact second
  | cons action rest ih =>
    simp only [exec] at first
    split at first
    next => cases first
    next next observation taken =>
      split at first
      next => cases first
      next trace reached executed =>
        simp only [Option.some.injEq, Prod.mk.injEq] at first
        obtain ⟨rfl, rfl⟩ := first
        simp only [cons_append, exec, taken, ih executed]

/-- A run is what executing its actions gives. -/
theorem Run.exec_eq (run : Run step allowed start trace state) :
    exec step start (trace.map Prod.fst) = some (trace, state) := by
  induction run with
  | nil => rfl
  | snoc run permitted taken ih =>
    rw [map_append]
    refine exec_append ih ?_
    simp only [map_cons, map_nil, exec, taken]

/-- The state some actions lead to, or the start when they cannot be taken. -/
def stateAfter (step : State → Action → Option (State × Observation)) (start : State)
    (actions : List Action) : State :=
  match exec step start actions with
  | none => start
  | some (_, final) => final

/-- Actions that are allowed everywhere, taken one after the other. -/
theorem exists_allowed_run_stateAfter (step : State → Action → Option (State × Observation))
    (start : State) (permitted : ∀ action ∈ actions, ∀ state, allowed state action) :
    ∃ trace, Run step allowed start trace (stateAfter step start actions) := by
  unfold stateAfter
  split
  next => exact ⟨[], .nil⟩
  next trace final executed => exact ⟨[] ++ trace, Run.nil.append_exec permitted executed⟩

theorem exists_run_stateAfter (step : State → Action → Option (State × Observation))
    (start : State) (actions : List Action) :
    ∃ trace, Run step anyAction start trace (stateAfter step start actions) :=
  exists_allowed_run_stateAfter step start fun _ _ _ => trivial

end Gzochi.Lib
