import Gzochi.Tx.TwoPhase
import Gzochi.Lib.Runs

/-!
# Executions of application tasks

The transactional task workers of `app-task.c`.  An execution has a task to be attempted
in a transaction, up to a number of times, an optional task to catch its failure, attempted
once in a transaction, and an optional task to clean up, run once outside of transactions.

What a task does inside of its transaction is code of other modules, and only how the
transaction ends comes back from it.  The type `Task` stands for
`gzochid_application_task`.
-/

namespace Gzochi.AppTask

open Lib
open Tx (TransactionResult Timeval)

universe u

variable {Task : Type u}

/-- How the transaction of an attempt ends. -/
inductive Outcome where
  | success
  | retryable
  | fatal
  | timeout
  deriving DecidableEq

/-- What `gzochid_transaction_end` returns.  A transaction that has timed out may be
retried. -/
def Outcome.result : Outcome → TransactionResult
  | .success => .success
  | .retryable => .shouldRetry
  | .fatal => .failure
  | .timeout => .shouldRetry

/-- `gzochid_transactional_application_task_execution`. -/
structure Execution (Task : Type u) where
  task : Task
  catchTask : Option Task
  cleanupTask : Option Task
  timeout : Option Timeval
  attempts : Nat
  maxAttempts : Nat
  result : TransactionResult

/-- `GZOCHID_APPLICATION_MAX_ATTEMPTS_DEFAULT`. -/
def maxAttemptsDefault : Nat := 3

/-- `execution_new`. -/
def executionNew (task : Task) (catchTask cleanupTask : Option Task)
    (timeout : Option Timeval) : Execution Task where
  task := task
  catchTask := catchTask
  cleanupTask := cleanupTask
  timeout := timeout
  attempts := 0
  maxAttempts := maxAttemptsDefault
  result := .pending

/-- `gzochid_transactional_application_task_execution_new`. -/
def gzochidTransactionalApplicationTaskExecutionNew (task : Task)
    (catchTask cleanupTask : Option Task) : Execution Task :=
  executionNew task catchTask cleanupTask none

/-- `gzochid_transactional_application_task_timed_execution_new`. -/
def gzochidTransactionalApplicationTaskTimedExecutionNew (task : Task)
    (catchTask cleanupTask : Option Task) (timeout : Timeval) : Execution Task :=
  executionNew task catchTask cleanupTask (some timeout)

/-- An execution that has not been attempted, for which some number of attempts is
configured. -/
structure NewExecution (Task : Type u) extends Execution Task where
  fresh : attempts = 0
  configured : 0 < maxAttempts

/-- The constructors make such executions. -/
def NewExecution.ofExecutionNew (task : Task) (catchTask cleanupTask : Option Task)
    (timeout : Option Timeval) : NewExecution Task where
  toExecution := executionNew task catchTask cleanupTask timeout
  fresh := rfl
  configured := Nat.succ_pos 2

/-- What workers do that can be observed: attempts of tasks in transactions, and runs of
tasks that clean up. -/
inductive Event (Task : Type u) where
  | attemptStarted (task : Task)
  | attemptEnded (task : Task) (outcome : Outcome)
  | cleanupStarted (task : Task)
  | cleanupEnded (task : Task)
  deriving DecidableEq

/-- One attempt of a task. -/
def attempt (task : Task) (outcome : Outcome) : List (Event Task) :=
  [.attemptStarted task, .attemptEnded task outcome]

/-- The run of a task that cleans up, where there is one. -/
def cleanup : Option Task → List (Event Task)
  | none => []
  | some task => [.cleanupStarted task, .cleanupEnded task]

/-- `gzochid_application_transactional_task_worker`. -/
def gzochidApplicationTransactionalTaskWorker (execution : Execution Task)
    (outcome : Outcome) : Execution Task :=
  { execution with
    result := outcome.result
    attempts := execution.attempts + 1 }

/-- `gzochid_application_should_retry`. -/
def gzochidApplicationShouldRetry (execution : Execution Task) : Bool :=
  decide (execution.result = .shouldRetry) &&
    decide (execution.attempts < execution.maxAttempts)

/-! ## The re-executing worker -/

/-- The attempts a re-executing worker makes, one after the other: what can be observed,
the execution afterwards and the outcomes still to come. -/
def reexecute (execution : Execution Task) (outcomes : Nat → Outcome) :
    List (Event Task) × Execution Task × (Nat → Outcome) :=
  let attempted := gzochidApplicationTransactionalTaskWorker execution (outcomes 0)
  if gzochidApplicationShouldRetry attempted then
    let later := reexecute attempted fun index => outcomes (index + 1)
    (attempt execution.task (outcomes 0) ++ later.1, later.2)
  else
    (attempt execution.task (outcomes 0), attempted, fun index => outcomes (index + 1))
termination_by execution.maxAttempts - execution.attempts
decreasing_by
  rename_i retried
  simp only [attempted, gzochidApplicationShouldRetry,
    gzochidApplicationTransactionalTaskWorker, Bool.and_eq_true, decide_eq_true_eq] at retried ⊢
  omega

/-- The execution a re-executing worker makes of the task that catches: with the same
timeout, and a single attempt. -/
def reexecutingCatch (execution : Execution Task) (catchTask : Task) : Execution Task :=
  let catchExecution :=
    match execution.timeout with
    | some timeout =>
        gzochidTransactionalApplicationTaskTimedExecutionNew catchTask none none timeout
    | none => gzochidTransactionalApplicationTaskExecutionNew catchTask none none
  { catchExecution with maxAttempts := 1 }

variable (execution : Execution Task)
include execution

variable (catchTask : Task)
include catchTask

@[simp] theorem reexecutingCatch_catchTask :
    (reexecutingCatch execution catchTask).catchTask = none := by
  unfold reexecutingCatch
  cases execution.timeout <;> rfl

@[simp] theorem reexecutingCatch_task :
    (reexecutingCatch execution catchTask).task = catchTask := by
  unfold reexecutingCatch
  cases execution.timeout <;> rfl

@[simp] theorem reexecutingCatch_cleanupTask :
    (reexecutingCatch execution catchTask).cleanupTask = none := by
  unfold reexecutingCatch
  cases execution.timeout <;> rfl

@[simp] theorem reexecutingCatch_attempts :
    (reexecutingCatch execution catchTask).attempts = 0 := by
  unfold reexecutingCatch
  cases execution.timeout <;> rfl

@[simp] theorem reexecutingCatch_maxAttempts :
    (reexecutingCatch execution catchTask).maxAttempts = 1 := rfl

omit catchTask

/-- Attempts change nothing but their number and the last result. -/
theorem reexecute_catchTask (outcomes : Nat → Outcome) :
    (reexecute execution outcomes).2.1.catchTask = execution.catchTask := by
  induction execution, outcomes using reexecute.induct with
  | case1 execution outcomes attempted retried ih =>
    rw [reexecute, if_pos retried]
    exact ih
  | case2 execution outcomes attempted exhausted =>
    rw [reexecute, if_neg exhausted]
    rfl

omit execution

/-- `gzochid_application_reexecuting_transactional_task_worker`: what can be observed, and
the outcomes still to come. -/
def gzochidApplicationReexecutingTransactionalTaskWorker (execution : Execution Task)
    (outcomes : Nat → Outcome) : List (Event Task) × (Nat → Outcome) :=
  match reexecute execution outcomes, reexecute_catchTask execution outcomes with
  | (events, final, rest), _ =>
      match _ : final.catchTask with
      | some catchTask =>
          if final.result ≠ .success then
            let (catchEvents, rest) := gzochidApplicationReexecutingTransactionalTaskWorker
              (reexecutingCatch final catchTask) rest
            (events ++ catchEvents ++ cleanup final.cleanupTask, rest)
          else
            (events ++ cleanup final.cleanupTask, rest)
      | none => (events ++ cleanup final.cleanupTask, rest)
termination_by (if execution.catchTask.isSome then 1 else 0 : Nat)
decreasing_by
  rename_i same caught _
  simp only at same
  simp [← same, caught]

/-- The worker without the proof that it ends. -/
theorem reexecutingTransactionalTaskWorker_eq (execution : Execution Task)
    (outcomes : Nat → Outcome) :
    gzochidApplicationReexecutingTransactionalTaskWorker execution outcomes =
      let (events, final, rest) := reexecute execution outcomes
      match final.catchTask with
      | some catchTask =>
        if final.result ≠ .success then
          let (catchEvents, rest) := gzochidApplicationReexecutingTransactionalTaskWorker
            (reexecutingCatch final catchTask) rest
          (events ++ catchEvents ++ cleanup final.cleanupTask, rest)
        else
          (events ++ cleanup final.cleanupTask, rest)
      | none => (events ++ cleanup final.cleanupTask, rest) := by
  rw [gzochidApplicationReexecutingTransactionalTaskWorker]
  split
  next events final rest _ attempted _ =>
    rw [attempted]
    simp only
    split
    next catchTask caught => rw [caught]
    next uncaught => rw [uncaught]

/-! ## The resubmitting worker -/

/-- A task in the queue of the server: an application task whose worker is the resubmitting
worker, with its execution, or a task that cleans up, with a worker of its own. -/
inductive Job (Task : Type u) where
  | resubmitting (execution : Execution Task)
  | cleanup (task : Task)

/-- The execution a resubmitting worker makes of the task that catches: without a timeout,
with a single attempt, and with the task that cleans up. -/
def resubmittingCatch (execution : Execution Task) (catchTask : Task) : Execution Task :=
  { gzochidTransactionalApplicationTaskExecutionNew catchTask none execution.cleanupTask with
    maxAttempts := 1 }

/-- `gzochid_application_resubmitting_transactional_task_worker`: the task that it submits
after its attempt. -/
def gzochidApplicationResubmittingTransactionalTaskWorker (execution : Execution Task)
    (outcome : Outcome) : Option (Job Task) :=
  let attempted := gzochidApplicationTransactionalTaskWorker execution outcome
  if gzochidApplicationShouldRetry attempted then
    some (.resubmitting { attempted with result := .pending })
  else
    match attempted.catchTask with
    | some catchTask =>
        if attempted.result ≠ .success then
          some (.resubmitting (resubmittingCatch attempted catchTask))
        else
          attempted.cleanupTask.map .cleanup
    | none => attempted.cleanupTask.map .cleanup

/-- A task waits in the queue or is run by a thread. -/
inductive Activity where
  | queued
  | running
  deriving DecidableEq

/-- The task queue with its threads: for each execution that was ever submitted, the task
that is left of it.  The place in the list tells the executions apart and nothing in the
code depends on it. -/
abbrev Scheduler (Task : Type u) := List (Option (Activity × Job Task))

inductive Action (Task : Type u) where
  | submit (execution : NewExecution Task)
  | start (index : Nat)
  | finish (index : Nat) (outcome : Outcome)

/-- What a thread is seen to do when it starts a task. -/
def Job.started : Job Task → Event Task
  | .resubmitting execution => .attemptStarted execution.task
  | .cleanup task => .cleanupStarted task

/-- What a thread is seen to do when it finishes a task. -/
def Job.ended : Job Task → Outcome → Event Task
  | .resubmitting execution, outcome => .attemptEnded execution.task outcome
  | .cleanup task, _ => .cleanupEnded task

/-- The task that is submitted in the end of a task. -/
def Job.next : Job Task → Outcome → Option (Job Task)
  | .resubmitting execution, outcome =>
      gzochidApplicationResubmittingTransactionalTaskWorker execution outcome
  | .cleanup _, _ => none

/-- Executions are submitted, and any thread takes any task from the queue and finishes it,
in any order. -/
def step (scheduler : Scheduler Task) :
    Action Task → Option (Scheduler Task × Option (Event Task))
  | .submit execution =>
      some (scheduler ++ [some (.queued, .resubmitting execution.toExecution)], none)
  | .start index =>
      match scheduler[index]? with
      | some (some (.queued, job)) =>
          some (scheduler.set index (some (.running, job)), some job.started)
      | _ => none
  | .finish index outcome =>
      match scheduler[index]? with
      | some (some (.running, job)) =>
          some (scheduler.set index ((job.next outcome).map fun next => (.queued, next)),
            some (job.ended outcome))
      | _ => none

end Gzochi.AppTask
