import Gzochi.Lib.Runs
import Mathlib.Data.List.Forall2

/-!
# Transactions on a sequential object

A sequential object answers calls one after the other.  In transactions, the calls work on
the committed state, and what they do becomes the committed state when the transaction
commits; a transaction that is doomed can only be rolled back.
-/

namespace Gzochi.Lib

/-! ## Simulation -/

section

variable {State Action Observation State' Action' Observation' : Type*}
  {step : State → Action → Option (State × Observation)}
  {step' : State' → Action' → Option (State' × Observation')}
  {allowed : State → Action → Prop} {start : State} {start' : State'}

/-- Where every allowed step of one system is answered by a step of another, every run is. -/
theorem Run.simulates (related : State → State' → Prop)
    (corresponds : Action × Observation → Action' × Observation' → Prop)
    (initial : related start start')
    (forward : ∀ {state state' action next observation}, related state state' →
      allowed state action → step state action = some (next, observation) →
      ∃ action' next' observation', step' state' action' = some (next', observation') ∧
        related next next' ∧ corresponds (action, observation) (action', observation'))
    {trace : List (Action × Observation)} {state : State}
    (run : Run step allowed start trace state) :
    ∃ trace' state', Run step' anyAction start' trace' state' ∧
      List.Forall₂ corresponds trace trace' ∧ related state state' := by
  induction run with
  | nil => exact ⟨[], start', .nil, .nil, initial⟩
  | snoc run permitted taken ih =>
    obtain ⟨trace', state', run', paired, held⟩ := ih
    obtain ⟨action', next', observation', taken', held', pair⟩ := forward held permitted taken
    refine ⟨trace' ++ [(action', observation')], next', run'.snoc trivial taken', ?_, held'⟩
    exact List.rel_append paired (.cons pair .nil)

end

/-! ## Transactional objects -/

variable {State Call Reply : Type*}

/-- Where the current transaction is. -/
inductive Current (State : Type*) where
  | idle
  | running (state : State)
  | doomed

structure Transactional (State : Type*) where
  committed : State
  current : Current State

/-- Calls come with their places in transactions; `skip` is a step that does not concern the
object. -/
inductive TransactionalAction (Call : Type*) where
  | begin
  | call (call : Call)
  | skip
  | doom
  | commit
  | rollback

/-- One step; only calls have a reply. -/
def transactionalStep (perform : State → Call → State × Reply) (object : Transactional State) :
    TransactionalAction Call → Option (Transactional State × Option Reply)
  | .begin =>
      match object.current with
      | .idle => some ({ object with current := .running object.committed }, none)
      | _ => none
  | .call call =>
      match object.current with
      | .running state =>
          let (after, reply) := perform state call
          some ({ object with current := .running after }, some reply)
      | _ => none
  | .skip => some (object, none)
  | .doom =>
      match object.current with
      | .idle => none
      | _ => some ({ object with current := .doomed }, none)
  | .commit =>
      match object.current with
      | .running state => some ({ committed := state, current := .idle }, none)
      | _ => none
  | .rollback =>
      match object.current with
      | .idle => none
      | _ => some ({ object with current := .idle }, none)

theorem transactionalStep_doom {perform : State → Call → State × Reply}
    {object after : Transactional State} {reply : Option Reply}
    (taken : transactionalStep perform object .doom = some (after, reply)) :
    after.current = .doomed := by
  obtain ⟨committed, current⟩ := object
  cases current with
  | idle => cases taken
  | running state =>
    cases taken
    rfl
  | doomed =>
    cases taken
    rfl

end Gzochi.Lib
