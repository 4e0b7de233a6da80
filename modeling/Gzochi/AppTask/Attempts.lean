import Gzochi.AppTask.Model

/-!
# Attempts, then the catch task, then the cleanup task

Both transactional workers do the same thing by different routes.  The task is attempted
while its attempts end with a retryable failure and there are attempts left; the task that
catches is attempted once if the last attempt was no success; the task that cleans up is
run once, after everything else.
-/

namespace Gzochi.AppTask

open Lib List
open Tx (TransactionResult)

universe u

variable {Task : Type u}

/-- The attempts of a task, one after the other. -/
def attempts (task : Task) (outcomes : List Outcome) : List (Event Task) :=
  outcomes.flatMap (attempt task)

variable (task : Task)
include task

theorem attempts_cons (outcome : Outcome) (outcomes : List Outcome) :
    attempts task (outcome :: outcomes) = attempt task outcome ++ attempts task outcomes :=
  rfl

theorem attempts_append (early late : List Outcome) :
    attempts task (early ++ late) = attempts task early ++ attempts task late :=
  flatMap_append

theorem attempts_snoc (outcomes : List Outcome) (outcome : Outcome) :
    attempts task (outcomes ++ [outcome]) =
      attempts task outcomes ++ [.attemptStarted task, .attemptEnded task outcome] :=
  attempts_append task outcomes [outcome]

theorem length_attempts (outcomes : List Outcome) :
    (attempts task outcomes).length = 2 * outcomes.length := by
  induction outcomes with
  | nil => rfl
  | cons outcome outcomes ih =>
    rw [attempts_cons, length_append, ih, length_cons]
    simp only [attempt, length_cons, length_nil]
    omega

omit task

/-- The attempt of the task that catches, after a last attempt that was no success. -/
def catchAttempt (execution : Execution Task) (last caught : Outcome) : List (Event Task) :=
  match execution.catchTask with
  | some catchTask => if last ≠ .success then attempt catchTask caught else []
  | none => []

/-- The outcomes of all attempts of the task: each but the last one can be retried, there
are at most as many as configured, and the last one is retryable only if it is the last of
these. -/
structure Attempted (execution : Execution Task) (retried : List Outcome) (last : Outcome) :
    Prop where
  retryable : ∀ outcome ∈ retried, outcome.result = .shouldRetry
  within : retried.length < execution.maxAttempts
  exhausted : last.result = .shouldRetry → retried.length + 1 = execution.maxAttempts

/-- All that is to be observed of an execution. -/
def Complete (execution : Execution Task) (events : List (Event Task)) : Prop :=
  ∃ retried last caught, Attempted execution retried last ∧
    events = attempts execution.task (retried ++ [last]) ++
      catchAttempt execution last caught ++ cleanup execution.cleanupTask

theorem length_catchAttempt_le (execution : Execution Task) (last caught : Outcome) :
    (catchAttempt execution last caught).length ≤ 2 := by
  unfold catchAttempt
  split
  next => split <;> simp [attempt]
  next => simp

theorem length_cleanup_le (cleanupTask : Option Task) : (cleanup cleanupTask).length ≤ 2 := by
  cases cleanupTask <;> simp [cleanup]

variable {execution : Execution Task} {events : List (Event Task)}

theorem Complete.length_le (complete : Complete execution events) :
    events.length ≤ 2 * (execution.maxAttempts + 2) := by
  obtain ⟨retried, last, caught, attempted, same⟩ := complete
  have within := attempted.within
  have catches := length_catchAttempt_le execution last caught
  have cleans := length_cleanup_le execution.cleanupTask
  rw [same]
  simp only [length_append, length_attempts, length_cons, length_nil]
  omega

theorem Outcome.result_eq_success {outcome : Outcome} :
    outcome.result = .success ↔ outcome = .success := by
  cases outcome <;> simp [Outcome.result]

theorem shouldRetry_iff (execution : Execution Task) :
    gzochidApplicationShouldRetry execution = true ↔
      execution.result = .shouldRetry ∧ execution.attempts < execution.maxAttempts := by
  simp [gzochidApplicationShouldRetry]

/-- Whether an execution is retried after one more attempt. -/
theorem attempted_shouldRetry_iff (execution : Execution Task) (outcome : Outcome) :
    gzochidApplicationShouldRetry
        (gzochidApplicationTransactionalTaskWorker execution outcome) = true ↔
      outcome.result = .shouldRetry ∧ execution.attempts + 1 < execution.maxAttempts :=
  shouldRetry_iff _

/-- The loop of the re-executing worker, from any number of attempts. -/
theorem reexecute_spec (execution : Execution Task) (outcomes : Nat → Outcome)
    (started : execution.attempts < execution.maxAttempts) :
    ∃ last, (∀ earlier < last, (outcomes earlier).result = .shouldRetry) ∧
      execution.attempts + last < execution.maxAttempts ∧
      ((outcomes last).result = .shouldRetry →
        execution.attempts + last + 1 = execution.maxAttempts) ∧
      (reexecute execution outcomes).1 = attempts execution.task ((range (last + 1)).map outcomes) ∧
      (reexecute execution outcomes).2.1 = { execution with
          result := (outcomes last).result
          attempts := execution.attempts + last + 1 } := by
  induction execution, outcomes using reexecute.induct with
  | case1 execution outcomes attempted retried ih =>
    have again := (attempted_shouldRetry_iff execution (outcomes 0)).mp retried
    obtain ⟨last, before, within, exhausted, events, final⟩ := ih again.2
    simp only [attempted, gzochidApplicationTransactionalTaskWorker] at within exhausted
    refine ⟨last + 1, ?_, by omega, fun failed => ?_, ?_, ?_⟩
    · intro earlier isBefore
      cases earlier with
      | zero => exact again.1
      | succ earlier => exact before earlier (by omega)
    · have reached := exhausted failed
      omega
    · rw [reexecute, if_pos retried, range_succ_eq_map, map_cons, attempts_cons, map_map]
      exact congrArg (attempt execution.task (outcomes 0) ++ ·) events
    · rw [reexecute, if_pos retried]
      refine final.trans ?_
      simp only [attempted, gzochidApplicationTransactionalTaskWorker, Execution.mk.injEq,
        true_and, and_true]
      omega
  | case2 execution outcomes attempted exhausted =>
    have stopped := (attempted_shouldRetry_iff execution (outcomes 0)).not.mp exhausted
    refine ⟨0, by simp, started, fun failed => ?_, ?_, ?_⟩
    · have bound : ¬ execution.attempts + 1 < execution.maxAttempts :=
        fun more => stopped ⟨failed, more⟩
      omega
    · rw [reexecute, if_neg exhausted]
      rfl
    · rw [reexecute, if_neg exhausted]
      rfl

/-- An execution of a task that catches is a single attempt. -/
theorem reexecuting_catch (execution : Execution Task) (catchTask : Task)
    (outcomes : Nat → Outcome) :
    (gzochidApplicationReexecutingTransactionalTaskWorker
        (reexecutingCatch execution catchTask) outcomes).1 =
      attempt catchTask (outcomes 0) := by
  have stopped : ¬ gzochidApplicationShouldRetry
      (gzochidApplicationTransactionalTaskWorker (reexecutingCatch execution catchTask)
        (outcomes 0)) = true := by
    simp [attempted_shouldRetry_iff]
  rw [reexecutingTransactionalTaskWorker_eq, reexecute, if_neg stopped]
  simp [gzochidApplicationTransactionalTaskWorker, cleanup]

/-- The re-executing worker does all that is to be done, whatever the outcomes. -/
theorem reexecuting_complete (execution : NewExecution Task) (outcomes : Nat → Outcome) :
    Complete execution.toExecution
      (gzochidApplicationReexecutingTransactionalTaskWorker execution.toExecution outcomes).1 := by
  have started : execution.attempts < execution.maxAttempts := by
    rw [execution.fresh]
    exact execution.configured
  obtain ⟨final, before, within, exhausted, events, after⟩ :=
    reexecute_spec execution.toExecution outcomes started
  rw [execution.fresh, Nat.zero_add] at within exhausted
  have attempted : Attempted execution.toExecution ((range final).map outcomes) (outcomes final) :=
    ⟨by simpa using before, by simpa using within, by simpa using exhausted⟩
  refine ⟨_, _, (reexecute execution.toExecution outcomes).2.2 0, attempted, ?_⟩
  rw [reexecutingTransactionalTaskWorker_eq]
  simp only [after, events, range_succ, map_append, map_cons, map_nil]
  unfold catchAttempt
  cases execution.catchTask with
  | none => simp
  | some catchTask =>
    simp only [ne_eq, Outcome.result_eq_success]
    by_cases succeeded : outcomes final = .success
    · simp [succeeded]
    · simp [succeeded, reexecuting_catch]

/-- What has been done of an execution before the task that is left of it is started. -/
inductive Left (execution : Execution Task) : List (Event Task) → Job Task → Prop where
  | body {retried : List Outcome} {result : TransactionResult}
      (retryable : ∀ outcome ∈ retried, outcome.result = .shouldRetry)
      (within : retried.length < execution.maxAttempts) :
      Left execution (attempts execution.task retried)
        (.resubmitting { execution with result := result, attempts := retried.length })
  | catching {retried : List Outcome} {last : Outcome} {catchTask : Task}
      (attempted : Attempted execution retried last) (failed : last ≠ .success)
      (catches : execution.catchTask = some catchTask) :
      Left execution (attempts execution.task (retried ++ [last]))
        (.resubmitting (resubmittingCatch execution catchTask))
  | cleaning {retried : List Outcome} {last caught : Outcome} {cleanupTask : Task}
      (attempted : Attempted execution retried last)
      (cleans : execution.cleanupTask = some cleanupTask) :
      Left execution
        (attempts execution.task (retried ++ [last]) ++ catchAttempt execution last caught)
        (.cleanup cleanupTask)

/-- A task that is left, or nothing where all has been done. -/
def Remains (execution : Execution Task) (events : List (Event Task)) :
    Option (Job Task) → Prop
  | none => Complete execution events
  | some job => Left execution events job

/-- Whatever the outcome of the attempts, cleaning up comes next. -/
theorem Attempted.remains {retried : List Outcome} {last : Outcome}
    (attempted : Attempted execution retried last) (caught : Outcome) :
    Remains execution
      (attempts execution.task (retried ++ [last]) ++ catchAttempt execution last caught)
      (execution.cleanupTask.map .cleanup) := by
  cases cleans : execution.cleanupTask with
  | none => exact ⟨retried, last, caught, attempted, by simp [cleans, cleanup]⟩
  | some cleanupTask => exact .cleaning attempted cleans

variable {job : Job Task}

/-- A task that is left is finished, and the task that it submits is what is left then. -/
theorem Left.next (left : Left execution events job) (outcome : Outcome) :
    Remains execution (events ++ [job.started, job.ended outcome]) (job.next outcome) := by
  cases left with
  | @body retried result retryable within =>
    simp only [Job.started, Job.ended, Job.next]
    rw [← attempts_snoc]
    unfold gzochidApplicationResubmittingTransactionalTaskWorker
    simp only
    split
    next again =>
      have more := (attempted_shouldRetry_iff _ outcome).mp again
      have length : (retried ++ [outcome]).length = retried.length + 1 :=
        length_append
      have retryable : ∀ earlier ∈ retried ++ [outcome], earlier.result = .shouldRetry := by
        intro earlier member
        cases mem_append.mp member with
        | inl member => exact retryable earlier member
        | inr member => exact mem_singleton.mp member ▸ more.1
      have left : Left execution (attempts execution.task (retried ++ [outcome])) (.resubmitting
            { execution with
              result := .pending
              attempts := (retried ++ [outcome]).length }) :=
        .body retryable (length ▸ more.2)
      rw [length] at left
      exact left
    next stopped =>
      have attempted : Attempted execution retried outcome := by
        refine ⟨retryable, within, ?_⟩
        intro failed
        have last : ¬ retried.length + 1 < execution.maxAttempts :=
          fun more => stopped ((attempted_shouldRetry_iff _ outcome).mpr ⟨failed, more⟩)
        omega
      have remains := attempted.remains outcome
      unfold catchAttempt at remains
      simp only [gzochidApplicationTransactionalTaskWorker, ne_eq, Outcome.result_eq_success]
      cases catches : execution.catchTask with
      | none => simpa [catches] using remains
      | some catchTask =>
        by_cases succeeded : outcome = .success
        · simpa [catches, succeeded] using remains
        · simp only [succeeded, not_false_eq_true, if_true]
          exact .catching attempted succeeded catches
  | @catching retried last catchTask attempted failed catches =>
    have stopped : ¬ gzochidApplicationShouldRetry (gzochidApplicationTransactionalTaskWorker
          (resubmittingCatch execution catchTask) outcome) = true := by
      rw [attempted_shouldRetry_iff]
      simp [resubmittingCatch, gzochidTransactionalApplicationTaskExecutionNew, executionNew]
    have remains := attempted.remains outcome
    simp only [catchAttempt, catches, ne_eq, failed, not_false_eq_true, if_true] at remains
    simp only [Job.next, gzochidApplicationResubmittingTransactionalTaskWorker, if_neg stopped]
    exact remains
  | @cleaning retried last caught cleanupTask attempted cleans =>
    refine ⟨retried, last, caught, attempted, ?_⟩
    rw [cleans]
    rfl

/-- What is left to do can be done. -/
theorem Left.completes (left : Left execution events job) :
    ∃ later, Complete execution (events ++ job.started :: later) := by
  cases left with
  | @body retried result retryable within =>
    have attempted : Attempted execution retried .success :=
      ⟨retryable, within, fun failed => by cases failed⟩
    refine ⟨.attemptEnded execution.task .success :: cleanup execution.cleanupTask,
      retried, .success, .success, attempted, ?_⟩
    rw [attempts_snoc]
    cases catches : execution.catchTask with
    | none | some catchTask => simp [catchAttempt, catches, Job.started]
  | @catching retried last catchTask attempted failed catches =>
    refine ⟨.attemptEnded catchTask .success :: cleanup execution.cleanupTask,
      retried, last, .success, attempted, ?_⟩
    simp [catchAttempt, catches, failed, attempt, Job.started,
      resubmittingCatch, gzochidTransactionalApplicationTaskExecutionNew, executionNew]
  | @cleaning retried last caught cleanupTask attempted cleans =>
    refine ⟨[.cleanupEnded cleanupTask], retried, last, caught, attempted, ?_⟩
    simp [cleans, cleanup, Job.started]

/-- The executions submitted in a run, in order. -/
def submitted (trace : List (Action Task × Option (Event Task))) : List (NewExecution Task) :=
  trace.filterMap fun
    | (.submit execution, _) => some execution
    | _ => none

/-- The execution that an action is about. -/
def Action.concerns : Action Task → Option Nat
  | .submit _ => none
  | .start index => some index
  | .finish index _ => some index

/-- What is observed in a run of the execution with the given place. -/
def eventsOf (index : Nat) (trace : List (Action Task × Option (Event Task))) :
    List (Event Task) :=
  trace.filterMap fun taken => if taken.1.concerns = some index then taken.2 else none

/-- A thread that runs a task has started it. -/
def begun : Activity × Job Task → List (Event Task)
  | (.queued, _) => []
  | (.running, job) => [job.started]

/-- What has been observed of an execution, and the task that is left of it. -/
def Follows (execution : Execution Task) (events : List (Event Task)) :
    Option (Activity × Job Task) → Prop
  | none => Complete execution events
  | some task => ∃ done, Left execution done task.2 ∧ events = done ++ begun task

theorem Follows.completes {left : Option (Activity × Job Task)}
    (follows : Follows execution events left) :
    ∃ later, Complete execution (events ++ later) := by
  cases left with
  | none => exact ⟨[], (append_nil events).symm ▸ follows⟩
  | some task =>
    obtain ⟨activity, job⟩ := task
    obtain ⟨done, left, same⟩ := follows
    obtain ⟨later, complete⟩ := left.completes
    cases activity with
    | queued => exact ⟨job.started :: later, by simpa [same, begun] using complete⟩
    | running => exact ⟨later, by simpa [same, begun] using complete⟩

theorem submitted_append (early late : List (Action Task × Option (Event Task))) :
    submitted (early ++ late) = submitted early ++ submitted late :=
  filterMap_append

theorem eventsOf_append (index : Nat) (early late : List (Action Task × Option (Event Task))) :
    eventsOf index (early ++ late) = eventsOf index early ++ eventsOf index late :=
  filterMap_append

/-- What a run has to do with the task queue it leads to. -/
structure Tracked (trace : List (Action Task × Option (Event Task)))
    (scheduler : Scheduler Task) : Prop where
  length_eq : scheduler.length = (submitted trace).length
  follows : ∀ {index : Nat} {execution : NewExecution Task},
    (submitted trace)[index]? = some execution →
      ∃ left, scheduler[index]? = some left ∧
        Follows execution.toExecution (eventsOf index trace) left
  unseen : ∀ {index : Nat}, scheduler.length ≤ index → eventsOf index trace = []

theorem Tracked.nil : Tracked [] ([] : Scheduler Task) where
  length_eq := rfl
  follows := by
    intro index execution found
    cases found
  unseen := fun _ => rfl

/-- A new execution has all its attempts left. -/
theorem NewExecution.follows (execution : NewExecution Task) : Follows execution.toExecution []
      (some (.queued, .resubmitting execution.toExecution)) := by
  refine ⟨[], ?_, rfl⟩
  have left : Left execution.toExecution (attempts execution.task []) (.resubmitting
        { execution.toExecution with result := execution.result, attempts := 0 }) :=
    .body (fun _ member => nomatch member) execution.configured
  rw [← execution.fresh] at left
  exact left

variable {trace : List (Action Task × Option (Event Task))} {scheduler : Scheduler Task}

theorem Tracked.submit (tracked : Tracked trace scheduler) (execution : NewExecution Task) :
    Tracked (trace ++ [(.submit execution, none)])
      (scheduler ++ [some (.queued, .resubmitting execution.toExecution)]) := by
  have more : submitted (trace ++ [(.submit execution, none)]) =
      submitted trace ++ [execution] := submitted_append _ _
  have same : ∀ index, eventsOf index (trace ++ [(.submit execution, none)]) =
      eventsOf index trace := by
    intro index
    rw [eventsOf_append]
    exact append_nil _
  constructor
  · rw [more, length_append, length_append, tracked.length_eq]
    rfl
  · intro index found submittedThere
    rw [more] at submittedThere
    rw [same]
    by_cases earlier : index < scheduler.length
    · rw [List.getElem?_append_left (tracked.length_eq ▸ earlier)] at submittedThere
      rw [List.getElem?_append_left earlier]
      exact tracked.follows submittedThere
    · have later : scheduler.length ≤ index := Nat.le_of_not_lt earlier
      rw [List.getElem?_append_right (tracked.length_eq ▸ later), List.getElem?_singleton]
        at submittedThere
      rw [List.getElem?_append_right later, List.getElem?_singleton, tracked.length_eq]
      split at submittedThere
      next last =>
        cases submittedThere
        rw [if_pos last, tracked.unseen later]
        exact ⟨_, rfl, execution.follows⟩
      next => cases submittedThere
  · intro index beyond
    rw [length_append] at beyond
    rw [same]
    exact tracked.unseen (Nat.le_of_succ_le beyond)

/-- A thread works on what is left of one execution, and nothing else changes. -/
theorem Tracked.work (tracked : Tracked trace scheduler) {action : Action Task}
    {event : Event Task} {index : Nat} {before after : Option (Activity × Job Task)}
    (concerned : action.concerns = some index) (here : scheduler[index]? = some before)
    (worked : ∀ {execution events}, Follows execution events before →
      Follows execution (events ++ [event]) after) :
    Tracked (trace ++ [(action, some event)]) (scheduler.set index after) := by
  have same : submitted (trace ++ [(action, some event)]) = submitted trace := by
    rw [submitted_append]
    cases action with
    | submit execution => cases concerned
    | start _ => exact append_nil _
    | finish _ _ => exact append_nil _
  have seen : eventsOf index (trace ++ [(action, some event)]) =
      eventsOf index trace ++ [event] := by
    rw [eventsOf_append]
    simp [eventsOf, concerned]
  have others : ∀ other, other ≠ index →
      eventsOf other (trace ++ [(action, some event)]) = eventsOf other trace := by
    intro other different
    rw [eventsOf_append]
    simp [eventsOf, concerned, Ne.symm different]
  obtain ⟨inside, _⟩ := List.getElem?_eq_some_iff.mp here
  constructor
  · rw [same, length_set]
    exact tracked.length_eq
  · intro other execution found
    rw [same] at found
    obtain ⟨left, present, follows⟩ := tracked.follows found
    by_cases this : other = index
    · subst this
      rw [here] at present
      cases present
      rw [seen, List.getElem?_set_self inside]
      exact ⟨after, rfl, worked follows⟩
    · rw [others other this, List.getElem?_set_ne (Ne.symm this)]
      exact ⟨left, present, follows⟩
  · intro other beyond
    rw [length_set] at beyond
    have different : other ≠ index := fun this => by omega
    rw [others other different]
    exact tracked.unseen beyond

theorem Follows.start (follows : Follows execution events (some (.queued, job))) :
    Follows execution (events ++ [job.started]) (some (.running, job)) := by
  obtain ⟨done, left, same⟩ := follows
  refine ⟨done, left, ?_⟩
  rw [same, begun, append_nil, begun]

theorem Follows.finish (follows : Follows execution events (some (.running, job)))
    (outcome : Outcome) :
    Follows execution (events ++ [job.ended outcome])
      ((job.next outcome).map fun next => (.queued, next)) := by
  obtain ⟨done, left, same⟩ := follows
  have remains := left.next outcome
  have whole : events ++ [job.ended outcome] = done ++ [job.started, job.ended outcome] := by
    simp [same, begun]
  rw [whole]
  cases submits : job.next outcome with
  | none =>
    rw [submits] at remains
    exact remains
  | some next =>
    rw [submits] at remains
    exact ⟨_, remains, (append_nil _).symm⟩

theorem Tracked.step {next : Scheduler Task} {action : Action Task}
    {observed : Option (Event Task)} (tracked : Tracked trace scheduler)
    (taken : AppTask.step scheduler action = some (next, observed)) :
    Tracked (trace ++ [(action, observed)]) next := by
  cases action with
  | submit execution =>
    cases taken
    exact tracked.submit execution
  | start index =>
    simp only [AppTask.step] at taken
    split at taken
    next job here =>
      cases taken
      exact tracked.work rfl here Follows.start
    next => cases taken
  | finish index outcome =>
    simp only [AppTask.step] at taken
    split at taken
    next job here =>
      cases taken
      exact tracked.work rfl here fun follows => follows.finish outcome
    next => cases taken

/-- A task with one to catch its failure and one to clean up. -/
def caughtExecution : NewExecution Nat := .ofExecutionNew 0 (some 1) (some 2) none

end Gzochi.AppTask
