import Gzochi.Lib.Runs
import Mathlib.Data.List.Basic

/-!
# Finite state machines

A machine calls the functions for leaving a state and for entering another one, and they may
ask it for further states while it is between the two.  Such requests queue up behind the one
that is being met, so the outermost call meets all of them in their order.
-/

namespace Gzochi

open Lib List Option

namespace Fsm

/-- `gzochid_fsm_state`. -/
structure FsmState where
  enterFunctions : List Nat
  exitFunctions : List Nat

/-- What a machine is made of before it is started. -/
structure Config where
  initial : Int
  states : Int → Option FsmState
  transitions : Int → List Int
  initialThere : (states initial).isSome

/-- A pair of the state that is left and the one that is entered. -/
abbrev Transition := Int × Int

inductive Event
  | exit (transition : Transition) (function : Nat)
  | enter (transition : Transition) (function : Nat)
  | changed (transition : Transition)
deriving DecidableEq

def Event.transition : Event → Transition
  | exit transition _ | enter transition _ | changed transition => transition

end Fsm

open Fsm

/-- `gzochid_fsm`, with what has happened.  While a function runs, `rest` has the calls that
follow it and the state that the machine is in after them. -/
structure Fsm where
  currentState : Int
  started : Bool := false
  pendingStates : List Int := []
  rest : Option (List Event × Option Int) := none
  events : List Event := []
deriving DecidableEq

namespace Fsm

/-- A call of one of the functions of the interface, or the return of a function that the
machine has called.  `pointer` is what the address of a state is as an `int`. -/
inductive Action
  | start (pointer : Int)
  | toState (state : Int)
  | return

variable (config : Config)

/-- The calls of `to_state`. -/
def Config.calls (transition : Transition) : List Event :=
  ((config.states transition.1).elim [] FsmState.exitFunctions).map (.exit transition) ++
    ((config.states transition.2).elim [] FsmState.enterFunctions).map (.enter transition)

/-- The calls of `gzochid_fsm_start`. -/
def Config.opening : List Event :=
  ((config.states config.initial).elim [] FsmState.enterFunctions).map
    (.enter (config.initial, config.initial))

/-- What `to_state` asserts. -/
def Config.Declared (transition : Transition) : Prop :=
  (config.states transition.2).isSome ∧ transition.2 ∈ config.transitions transition.1

instance (transition : Transition) : Decidable (config.Declared transition) :=
  inferInstanceAs (Decidable (_ ∧ _))

def new : Fsm := { currentState := config.initial }

def call (fsm : Fsm) (event : Event) : Fsm := { fsm with events := fsm.events ++ [event] }

/-- The end of `to_state`. -/
def change (fsm : Fsm) (state : Int) : Fsm :=
  { fsm.call (.changed (fsm.currentState, state)) with currentState := state }

/-- The loop over the pending states, up to the first function that is called. -/
def loop (fsm : Fsm) : List Int → Option Fsm
  | [] => some { fsm with pendingStates := [], rest := none }
  | state :: pending =>
      if state = fsm.currentState then fsm.loop pending
      else if config.Declared (fsm.currentState, state) then
        match config.calls (fsm.currentState, state) with
        | [] => (fsm.change state).loop pending
        | event :: events =>
            some { fsm.call event with
              pendingStates := state :: pending, rest := some (events, some state) }
      else none

/-- The calls that follow, and the loop after the last of them. -/
def resume (fsm : Fsm) : List Event × Option Int → Option Fsm
  | (event :: events, target) => some { fsm.call event with rest := some (events, target) }
  | ([], some state) => (fsm.change state).loop config fsm.pendingStates.tail
  | ([], none) => fsm.loop config fsm.pendingStates.tail

/-- One step.  There is none when an assertion fails. -/
def step (fsm : Fsm) : Action → Option (Fsm × Unit)
  | .start pointer =>
      if fsm.started then none
      else
        let started := { fsm with
          started := true, pendingStates := fsm.pendingStates ++ [pointer] }
        (started.resume config (config.opening, none)).map (·, ())
  | .toState state =>
      if fsm.started then
        if fsm.pendingStates = [] then (fsm.loop config [state]).map (·, ())
        else some ({ fsm with pendingStates := fsm.pendingStates ++ [state] }, ())
      else none
  | .return => do
      let rest ← fsm.rest
      ({ fsm with rest := none }.resume config rest).map (·, ())

/-! ## What the requests ask for -/

/-- The states that have been asked for. -/
def requests (trace : List (Action × Unit)) : List Int :=
  trace.filterMap fun step => match step.1 with
    | .toState state => some state
    | .start _ | .return => none

/-- Going from state to state, and nowhere when the state is the one the machine is in. -/
def Config.script (current : Int) : List Int → List Event
  | [] => []
  | state :: states =>
      (if state = current then []
        else config.calls (current, state) ++ [.changed (current, state)]) ++
      script state states

variable {config : Config} {fsm next before : Fsm} {done pending requested : List Int}
variable {state current : Int} {events : List Event}

theorem Config.script_append (states more : List Int) : config.script current (states ++ more) =
    config.script current states ++ config.script (states.getLastD current) more := by
  induction states generalizing current with
  | nil => rfl
  | cons state states ih => rw [cons_append, script, script, ih, getLastD_cons, append_assoc]

theorem Config.calls_transition {transition : Transition} {event : Event}
    (member : event ∈ config.calls transition) : event.transition = transition := by
  simp only [calls, mem_append, List.mem_map] at member
  rcases member with ⟨function, _, rfl⟩ | ⟨function, _, rfl⟩ <;> rfl

/-- The machine is in the last of the states asked for, after what they ask for. -/
structure Met (config : Config) (done : List Int) (fsm : Fsm) : Prop where
  started : fsm.started = true
  current : fsm.currentState = done.getLastD config.initial
  events : fsm.events = config.opening ++ config.script config.initial done
  declared : ∀ event ∈ config.script config.initial done, config.Declared event.transition

/-- How far a machine is with what it has been asked for. -/
inductive Progress (config : Config) (requested : List Int) (fsm : Fsm) : Prop
  | unstarted (new : fsm = .new config) (none : requested = [])
  | idle (met : Met config requested fsm) (settled : fsm.pendingStates = [])
      (returned : fsm.rest = none)
  | opening {pointer : Int} {events : List Event} (started : fsm.started = true)
      (current : fsm.currentState = config.initial)
      (pending : fsm.pendingStates = pointer :: requested)
      (rest : fsm.rest = some (events, none)) (calls : fsm.events ++ events = config.opening)
  | between {done later : List Int} {state : Int} {events : List Event} {before : Fsm}
      (met : Met config done before) (moves : state ≠ before.currentState)
      (declared : config.Declared (before.currentState, state))
      (asked : requested = done ++ state :: later)
      (started : fsm.started = true) (current : fsm.currentState = before.currentState)
      (pending : fsm.pendingStates = state :: later) (rest : fsm.rest = some (events, some state))
      (calls : fsm.events ++ events = before.events ++ config.calls (before.currentState, state))

/-- A request for the state that the machine is in. -/
theorem Met.skip (met : Met config done fsm) (same : state = fsm.currentState) :
    Met config (done ++ [state]) fsm := by
  have nothing : config.script config.initial (done ++ [state]) =
      config.script config.initial done := by
    rw [Config.script_append, ← met.current, Config.script, if_pos same]
    simp [Config.script]
  refine ⟨met.started, ?_, nothing ▸ met.events, nothing ▸ met.declared⟩
  rw [getLastD_concat, same]

/-- A request for another state, once the functions have been called. -/
theorem Met.change (met : Met config done before) (moves : state ≠ before.currentState)
    (declared : config.Declared (before.currentState, state)) (started : fsm.started = true)
    (current : fsm.currentState = before.currentState)
    (calls : fsm.events = before.events ++ config.calls (before.currentState, state)) :
    Met config (done ++ [state]) (fsm.change state) := by
  have whole : config.script config.initial (done ++ [state]) =
      config.script config.initial done ++ (config.calls (before.currentState, state) ++
        [.changed (before.currentState, state)]) := by
    rw [Config.script_append, ← met.current, Config.script, if_neg moves]
    simp [Config.script]
  refine ⟨started, by simp [Fsm.change], ?_, ?_⟩
  · simp [Fsm.change, call, whole, calls, current, met.events]
  · intro event member
    rw [whole, mem_append, mem_append, mem_singleton] at member
    rcases member with earlier | called | rfl
    · exact met.declared event earlier
    · exact Config.calls_transition called ▸ declared
    · exact declared

/-- The loop meets requests until it calls a function. -/
theorem loop_progress (met : Met config done fsm) (looped : fsm.loop config pending = some next) :
    Progress config (done ++ pending) next := by
  induction pending generalizing done fsm with
  | nil =>
    cases looped
    exact .idle ⟨met.started, by simpa using met.current, by simpa using met.events,
      by simpa using met.declared⟩ rfl rfl
  | cons state pending ih =>
    rw [append_cons]
    simp only [loop] at looped
    split at looped
    next same => exact ih (met.skip same) looped
    next moves =>
      obtain ⟨declared, looped⟩ := ite_none_right_eq_some.mp looped
      split at looped
      next none =>
        exact ih (met.change moves declared met.started rfl (by simp [none])) looped
      next event events calls =>
        cases looped
        refine .between met moves declared (append_assoc _ _ _) met.started rfl rfl rfl ?_
        simp [call, calls]

theorem step_progress {action : Action} (progress : Progress config requested fsm)
    (taken : fsm.step config action = some (next, ())) :
    Progress config (requested ++ requests [(action, ())]) next := by
  cases action with
  | start pointer =>
    cases progress with
    | unstarted new none =>
      cases new
      cases none
      simp only [step, new, Bool.false_eq_true, if_false, map_eq_some_iff] at taken
      obtain ⟨_, resumed, same⟩ := taken
      cases same
      cases calls : config.opening with
      | nil =>
        rw [calls] at resumed
        have met : Met config [] { Fsm.new config with
            started := true, pendingStates := [pointer] } :=
          ⟨rfl, rfl, by simp [calls, Config.script, Fsm.new], by simp [Config.script]⟩
        exact loop_progress met resumed
      | cons event events =>
        rw [calls] at resumed
        cases resumed
        exact .opening rfl rfl rfl rfl (by simp [call, calls])
    | idle met => simp [step, met.started] at taken
    | opening started | between _ _ _ _ started => simp [step, started] at taken
  | toState state =>
    cases progress with
    | unstarted new => simp [step, new, Fsm.new] at taken
    | idle met settled =>
      simp only [step, met.started, settled, if_true, map_eq_some_iff] at taken
      obtain ⟨_, looped, same⟩ := taken
      cases same
      exact loop_progress met looped
    | opening started current pending rest calls =>
      simp only [step, started, pending, if_true, reduceCtorEq, if_false] at taken
      cases taken
      exact .opening rfl current rfl rest calls
    | between met moves declared asked started current pending rest calls =>
      simp only [step, started, pending, if_true, reduceCtorEq, if_false] at taken
      cases taken
      exact .between met moves declared (by simp [asked, requests]) rfl current rfl rest calls
  | «return» =>
    rw [show requests [(Action.return, ())] = [] from rfl, append_nil]
    cases progress with
    | unstarted new => simp [step, new, Fsm.new] at taken
    | idle _ _ returned => simp [step, returned] at taken
    | @opening _ events started current pending rest calls =>
      simp only [step, rest, bind_eq_bind, bind_some, map_eq_some_iff] at taken
      obtain ⟨_, resumed, same⟩ := taken
      cases same
      cases events with
      | nil =>
        have met : Met config [] { fsm with rest := none } :=
          ⟨started, current, by simpa [Config.script] using calls, by simp [Config.script]⟩
        have left : fsm.pendingStates.tail = requested := by rw [pending, tail_cons]
        rw [← left]
        exact loop_progress met resumed
      | cons event events =>
        cases resumed
        exact .opening started current pending rfl (by simpa [call] using calls)
    | @between done later state events _ met moves declared asked started current pending rest
        calls =>
        simp only [step, rest, bind_eq_bind, bind_some, map_eq_some_iff] at taken
        obtain ⟨_, resumed, same⟩ := taken
        cases same
        cases events with
        | nil =>
          have changed : Met config (done ++ [state])
              (Fsm.change { fsm with rest := none } state) :=
            met.change moves declared started current (by simpa using calls)
          have left : fsm.pendingStates.tail = later := by rw [pending, tail_cons]
          rw [asked, append_cons, ← left]
          exact loop_progress changed resumed
        | cons event events =>
          cases resumed
          exact .between met moves declared asked started current pending rfl
            (by simpa [call] using calls)

theorem run_progress {trace : List (Action × Unit)}
    (run : Run (step config) anyAction (.new config) trace fsm) :
    Progress config (requests trace) fsm :=
  run.invariant (fun trace fsm => Progress config (requests trace) fsm) (.unstarted rfl rfl)
    fun _ progress _ taken => by
      rw [requests, filterMap_append]
      exact step_progress progress taken

/-- The functions that are called while a machine runs are those that the requests ask for, in
the order of the requests, and all transitions are declared ones.  Once the outermost call has
returned, nothing is pending and the machine is in the last state asked for. -/
theorem requests_met (config : Config) (trace : List (Action × Unit)) (fsm : Fsm)
    (run : Run (step config) anyAction (.new config) trace fsm) :
    fsm.events <+: config.opening ++ config.script config.initial (requests trace) ∧
      (∀ event ∈ fsm.events, event ∈ config.opening ∨ config.Declared event.transition) ∧
      (fsm.started → fsm.rest = none → fsm.pendingStates = [] ∧
        fsm.currentState = (requests trace).getLastD config.initial ∧
        fsm.events = config.opening ++ config.script config.initial (requests trace)) := by
  cases run_progress run with
  | unstarted new => simp [new, Fsm.new]
  | idle met settled =>
      refine ⟨met.events ▸ prefix_rfl, ?_, fun _ _ => ⟨settled, met.current, met.events⟩⟩
      intro event member
      rw [met.events, mem_append] at member
      exact member.imp_right (met.declared event)
  | opening _ _ _ rest calls =>
      refine ⟨calls ▸ (prefix_append _ _).trans (prefix_append _ _), ?_, by simp [rest]⟩
      exact fun event member => .inl (calls ▸ mem_append_left _ member)
  | @between done later state events before met moves declared asked _ _ _ rest calls =>
      have part : fsm.events <+: before.events ++ config.calls (before.currentState, state) :=
        calls ▸ prefix_append _ _
      refine ⟨?_, ?_, by simp [rest]⟩
      · rw [asked, Config.script_append, ← met.current, Config.script, if_neg moves,
          ← append_assoc, ← met.events, append_assoc, ← append_assoc]
        exact part.trans (prefix_append _ _)
      · intro event member
        rcases mem_append.mp (part.subset member) with earlier | called
        · rw [met.events, mem_append] at earlier
          exact earlier.imp_right (met.declared event)
        · exact .inr (Config.calls_transition called ▸ declared)

/-- Three states in a row, with a function for entering each of them. -/
def row : Config where
  initial := 0
  states _ := some ⟨[0], [1]⟩
  transitions state := [state + 1]
  initialThere := rfl

/-- The function for entering the second state asks for the third one. -/
theorem requests_met_from_inside : (∃ trace fsm,
    exec (step row) (.new row) [.start 7, .return, .toState 1, .return, .toState 2, .return,
      .return, .return] = some (trace, fsm) ∧ fsm.currentState = 2 ∧
    fsm.events = row.opening ++ row.script 0 [1, 2]) := by
  have taken : exec (step row) (.new row) [.start 7, .return, .toState 1, .return, .toState 2,
    .return, .return, .return] = some (_, _) := rfl
  have met := requests_met row _ _ (run_of_exec taken)
  exact ⟨_, _, taken, (met.2.2 rfl rfl).2⟩

end Gzochi.Fsm
