import Gzochi.Data.References
import Gzochi.Lib.Machine

/-!
# Durable tasks

A durable task of `durable-task.c` is a handle in the object store, a binding
`s.pendingTask.<oid>` to it, by which a restarted server finds it, and an entry in the
task queue of the running server.  A chain of tasks is a durable queue of handles served
by a coordinator, which is no durable task itself; a bootstrap task, which is one, starts
the coordinator again after a restart.

The data layer is taken as what it is for: a transaction works on objects in memory, and
those that are new or marked are stored when it commits.  Times, periods and identities
play no part.  A failure of the storage engine marks the transaction for rollback, so the
only error that a transaction can see and still commit is that something is not found.
-/

namespace Gzochi.DurableTask

open Lib
open Data (Oid update)

/-- The functions that a handle can have as its worker. -/
inductive Worker where
  | application
  | taskChainBootstrap
  deriving DecidableEq

/-- `gzochid_durable_application_task_handle`.  A binding is given by the number in its
name. -/
structure Handle where
  worker : Worker
  taskData : Oid
  binding : Option Oid
  repeats : Bool
  deriving DecidableEq

/-- The objects that are stored: data of application tasks, handles, contexts of chains
and durable queues of handles. -/
inductive Object where
  | taskData
  | handle (handle : Handle)
  | chainContext (bootstrap chain : Oid)
  | queue (tasks : List Oid)
  deriving DecidableEq

/-- What a transaction has for an id that it has looked at: the object in memory, and
whether it is to be stored. -/
inductive Reference where
  | fetched (object : Object) (modified : Bool)
  | removed (object : Option Object)
  deriving DecidableEq

/-- The workers of tasks in the queue of the server, with their arguments. -/
inductive TaskKind where
  | durable (oid : Oid)
  | durableCatch (oid : Oid)
  | coordinator (context : Oid)
  | coordinatorCatch (context : Oid)
  deriving DecidableEq

/-- `gzochid_transactional_application_task_execution`. -/
structure Task where
  kind : TaskKind
  attempts : Nat
  deriving DecidableEq

/-- The ids of a chain that has been scheduled. -/
structure Chain where
  bootstrap : Oid
  context : Oid
  queue : Oid
  tasks : List Oid
  deriving DecidableEq

/-- What a transaction has done, for its observers: the one-shot and periodic tasks and
the chains it has scheduled, the periodic tasks it has cancelled, the tasks whose own
worker it has run and those it has scheduled for their next period. -/
structure Report where
  scheduled : List Oid
  periodic : List Oid
  chains : List Chain
  cancelled : List Oid
  executed : List Oid
  rescheduled : List Oid
  deriving DecidableEq

def Report.empty : Report := ⟨[], [], [], [], [], []⟩

/-- A transaction: what the store will be if it commits, the objects in memory, and the
tasks to be submitted then. -/
structure Context where
  objects : Oid → Option Object
  names : Oid → Option Oid
  nextOid : Oid
  reference : Oid → Option Reference
  submitted : List Task
  report : Report

/-- `gzochid_data_dereference`; the failure is that the object is not found. -/
def dereference (oid : Oid) : Machine Context Object := fun context =>
  match context.reference oid with
  | some (.fetched object _) | some (.removed (some object)) => .ok object context
  | some (.removed none) => .crashed
  | none =>
      match context.objects oid with
      | none => .failed context
      | some object =>
          .ok object
            { context with
              reference := update context.reference oid (some (.fetched object false)) }

/-- `gzochid_data_mark` of an object in memory. -/
def mark (oid : Oid) : Machine Context Unit := fun context =>
  match context.reference oid with
  | some (.fetched object _) | some (.removed (some object)) =>
      .ok ()
        { context with
          reference := update context.reference oid (some (.fetched object true))
          objects := update context.objects oid (some object) }
  | some (.removed none) | none => .crashed

/-- `gzochid_data_dereference_for_update`. -/
def dereferenceForUpdate (oid : Oid) : Machine Context Object := do
  let object ← dereference oid
  mark oid
  pure object

/-- The object in memory is changed; the store only where the object is to be stored. -/
def assign (oid : Oid) (object : Object) : Machine Context Unit := fun context =>
  match context.reference oid with
  | some (.fetched _ modified) =>
      .ok ()
        { context with
          reference := update context.reference oid (some (.fetched object modified))
          objects := if modified then update context.objects oid (some object)
            else context.objects }
  | some (.removed (some _)) =>
      .ok () { context with
        reference := update context.reference oid (some (.removed (some object))) }
  | some (.removed none) | none => .crashed

/-- `gzochid_data_remove_object`. -/
def removeObject (oid : Oid) : Machine Context Unit := fun context =>
  match context.reference oid with
  | some (.removed _) => .ok () context
  | some (.fetched object _) =>
      .ok ()
        { context with
          reference := update context.reference oid (some (.removed (some object)))
          objects := update context.objects oid none }
  | none =>
      let after :=
        { context with
          reference := update context.reference oid (some (.removed none))
          objects := update context.objects oid none }
      if (context.objects oid).isNone then .failed after else .ok () after

/-- `gzochid_data_create_reference` to an object that is new. -/
def createReference (object : Object) : Machine Context Oid := fun context =>
  .ok context.nextOid
    { context with
      nextOid := context.nextOid + 1
      reference := update context.reference context.nextOid (some (.fetched object true))
      objects := update context.objects context.nextOid (some object) }

/-- `gzochid_data_set_binding_to_oid` for a pending task. -/
def setBindingToOid (number oid : Oid) : Machine Context Unit :=
  Machine.modify fun context => { context with names := update context.names number (some oid) }

/-- `gzochid_data_remove_binding` for a pending task. -/
def removeBinding (number : Oid) : Machine Context Unit := fun context =>
  if (context.names number).isNone then .failed context
  else .ok () { context with names := update context.names number none }

/-- A dereference whose caller takes the object for a handle. -/
def handleOf (oid : Oid) : Machine Context Handle := do
  match ← dereference oid with
  | .handle handle => pure handle
  | .taskData | .chainContext _ _ | .queue _ => Machine.crash

/-- A task is added to `scheduled_tasks`. -/
def submit (kind : TaskKind) : Machine Context Unit :=
  Machine.modify fun context => { context with submitted := context.submitted ++ [⟨kind, 0⟩] }

def note (change : Report → Report) : Machine Context Unit :=
  Machine.modify fun context => { context with report := change context.report }

/-- `gzochid_schedule_durable_task_handle`.  The handle is in memory; that it has a binding
now is not marked. -/
def scheduleDurableTaskHandle (oid : Oid) : Machine Context Unit := do
  let handle ← handleOf oid
  assign oid (.handle { handle with binding := some oid })
  setBindingToOid oid oid
  submit (.durable oid)

/-- `gzochid_create_durable_application_task_handle`, and the reference to the handle. -/
def createDurableApplicationTaskHandle (repeats : Bool) : Machine Context Oid := do
  let taskData ← createReference .taskData
  createReference (.handle ⟨.application, taskData, none, repeats⟩)

/-- `gzochid_schedule_durable_task`, at once or with a delay. -/
def scheduleDurableTask : Machine Context Unit := do
  let oid ← createDurableApplicationTaskHandle false
  scheduleDurableTaskHandle oid
  note fun report => { report with scheduled := report.scheduled ++ [oid] }

/-- `gzochid_schedule_periodic_durable_task`. -/
def schedulePeriodicDurableTask : Machine Context Unit := do
  let oid ← createDurableApplicationTaskHandle true
  scheduleDurableTaskHandle oid
  note fun report => { report with periodic := report.periodic ++ [oid] }

/-- `primitive-cancel-task`, with `gzochid_cancel_periodic_task`. -/
def cancelTask (oid : Oid) : Machine Context Unit := do
  match ← (handleOf oid).attempt with
  | none => pure ()
  | some handle =>
      assign oid (.handle { handle with repeats := false })
      mark oid
      note fun report => { report with cancelled := report.cancelled ++ [oid] }

/-- Handles for the tasks of a chain. -/
def createChainTasks : Nat → Machine Context (List Oid)
  | 0 => pure []
  | count + 1 => do
      let oid ← createDurableApplicationTaskHandle false
      let rest ← createChainTasks count
      pure (oid :: rest)

/-- `schedule_coordinator_task`. -/
def scheduleCoordinatorTask (context : Oid) : Machine Context Unit := submit (.coordinator context)

/-- A durable queue of new tasks, and `gzochid_schedule_durable_task_chain` for it. -/
def scheduleDurableTaskChain (count : Nat) : Machine Context Unit := do
  let tasks ← createChainTasks count
  let queue ← createReference (.queue tasks)
  let chainContext ← createReference (.chainContext 0 0)
  let bootstrap ← createReference (.handle ⟨.taskChainBootstrap, chainContext, none, false⟩)
  assign chainContext (.chainContext bootstrap 0)
  setBindingToOid bootstrap bootstrap
  assign chainContext (.chainContext bootstrap queue)
  scheduleCoordinatorTask chainContext
  note fun report =>
    { report with chains := report.chains ++ [⟨bootstrap, chainContext, queue, tasks⟩] }

/-- What an application asks for. -/
inductive Request where
  | schedule
  | schedulePeriodic
  | cancel (oid : Oid)
  | scheduleChain (count : Nat)
  deriving DecidableEq

def perform : Request → Machine Context Unit
  | .schedule => scheduleDurableTask
  | .schedulePeriodic => schedulePeriodicDurableTask
  | .cancel oid => cancelTask oid
  | .scheduleChain count => scheduleDurableTaskChain count

/-- The code of the application, as far as it concerns durable tasks. -/
def performAll : List Request → Machine Context Unit
  | [] => pure ()
  | request :: rest => do
      perform request
      performAll rest

/-- `remove_durable_task`. -/
def removeDurableTask (oid : Oid) : Machine Context Unit := do
  let handle ← handleOf oid
  match handle.binding with
  | none => pure ()
  | some number => removeBinding number
  removeObject oid

/-- The worker of the task itself. -/
def runWorker (requests : List Request) (oid : Oid) (handle : Handle) : Machine Context Unit :=
  match handle.worker with
  | .application => do
      note fun report => { report with executed := report.executed ++ [oid] }
      performAll requests
  | .taskChainBootstrap => scheduleCoordinatorTask handle.taskData

/-- The end of `durable_task_application_worker`. -/
def finishTask (oid : Oid) : Machine Context Unit := do
  let handle ← handleOf oid
  if handle.repeats then
    mark oid
    scheduleDurableTaskHandle oid
    note fun report => { report with rescheduled := report.rescheduled ++ [oid] }
  else
    let _ ← (removeDurableTask oid).attempt
    pure ()

/-- `durable_task_application_worker`. -/
def durableTaskApplicationWorker (requests : List Request) (oid : Oid) : Machine Context Unit := do
  match ← (handleOf oid).attempt with
  | none => pure ()
  | some handle =>
      match ← (dereference handle.taskData).attempt with
      | none => pure ()
      | some _ => do
          runWorker requests oid handle
          finishTask oid

/-- `durable_task_catch_worker`. -/
def durableTaskCatchWorker (oid : Oid) : Machine Context Unit := do
  let _ ← (removeDurableTask oid).attempt
  pure ()

/-- `gzochid_durable_queue_pop`, for a queue that is not empty. -/
def popTask (queue task : Oid) (rest : List Oid) : Machine Context Handle := do
  assign queue (.queue rest)
  let handle ← handleOf task
  mark queue
  pure handle

/-- The loop of `cleanup_coordinator_task`. -/
def drainQueue (queue : Oid) : List Oid → Machine Context Unit
  | [] => pure ()
  | task :: rest => do
      let _ ← popTask queue task rest
      removeObject task
      drainQueue queue rest

/-- A dereference for update whose caller takes the object for a queue. -/
def queueOf (oid : Oid) : Machine Context (List Oid) := do
  match ← dereferenceForUpdate oid with
  | .queue tasks => pure tasks
  | .taskData | .handle _ | .chainContext _ _ => Machine.crash

/-- A dereference whose caller takes the object for the context of a chain. -/
def chainContextOf (oid : Oid) : Machine Context (Oid × Oid) := do
  match ← dereference oid with
  | .chainContext bootstrap chain => pure (bootstrap, chain)
  | .taskData | .handle _ | .queue _ => Machine.crash

/-- `cleanup_coordinator_task`, up to its first error. -/
def cleanupCoordinatorTask (context bootstrap chain : Oid) : Machine Context Unit := do
  removeObject bootstrap
  removeBinding bootstrap
  let tasks ← queueOf chain
  drainQueue chain tasks
  removeObject chain
  removeObject context

/-- `coordinator_worker`, after it has popped a task. -/
def runChainTask (requests : List Request) (context bootstrap chain task : Oid)
    (rest : List Oid) (handle : Handle) : Machine Context Unit := do
  Machine.assert (!handle.repeats)
  mark task
  durableTaskApplicationWorker requests task
  match ← (removeObject task).attempt with
  | none => pure ()
  | some _ =>
      match rest with
      | [] => do
          let _ ← (cleanupCoordinatorTask context bootstrap chain).attempt
          pure ()
      | next :: _ => do
          match ← (handleOf next).attempt with
          | none => pure ()
          | some _ => scheduleCoordinatorTask context

/-- `coordinator_worker`. -/
def coordinatorWorker (requests : List Request) (context : Oid) : Machine Context Unit := do
  match ← (chainContextOf context).attempt with
  | none => pure ()
  | some (bootstrap, chain) =>
      match ← (queueOf chain).attempt with
      | none | some [] => pure ()
      | some (task :: rest) =>
          match ← (popTask chain task rest).attempt with
          | none => pure ()
          | some handle => runChainTask requests context bootstrap chain task rest handle

/-- `coordinator_catch_worker`. -/
def coordinatorCatchWorker (context : Oid) : Machine Context Unit := do
  match ← (chainContextOf context).attempt with
  | none => pure ()
  | some (bootstrap, chain) => do
      let _ ← (cleanupCoordinatorTask context bootstrap chain).attempt
      pure ()

def work (requests : List Request) : TaskKind → Machine Context Unit
  | .durable oid => durableTaskApplicationWorker requests oid
  | .durableCatch oid => durableTaskCatchWorker oid
  | .coordinator context => coordinatorWorker requests context
  | .coordinatorCatch context => coordinatorCatchWorker context

/-- One pending binding in the loop of `gzochid_restart_tasks`. -/
def restartTask (number : Oid) : Machine Context Unit := do
  let context ← Machine.get
  let oid ← Machine.expect (context.names number)
  match ← (handleOf oid).attempt with
  | none => removeBinding number
  | some _ => scheduleDurableTaskHandle oid

/-- `gzochid_restart_tasks`, with the pending bindings in the order of their names. -/
def restartTasks : List Oid → Machine Context Unit
  | [] => pure ()
  | number :: rest => do
      restartTask number
      restartTasks rest

/-- What is stored, and the task queue of the running server. -/
structure Server where
  objects : Oid → Option Object
  names : Oid → Option Oid
  nextOid : Oid
  scheduled : List Task

def Server.empty : Server := ⟨fun _ => none, fun _ => none, 0, []⟩

/-- How an attempt to execute a task ends. -/
inductive Attempt where
  | commit (requests : List Request)
  | rollback (shouldRetry : Bool)
  deriving DecidableEq

inductive Action where
  | transaction (requests : List Request)
  | execute (task : Task) (attempt : Attempt)
  | restart (order : List Oid) (commits : Bool)
  | reserve (count : Nat)
  deriving DecidableEq

namespace Server

/-- A transaction begins. -/
def begin (server : Server) : Context where
  objects := server.objects
  names := server.names
  nextOid := server.nextOid
  reference _ := none
  submitted := []
  report := .empty

/-- A transaction commits while the given tasks are in the queue. -/
def commit (context : Context) (queued : List Task) : Server where
  objects := context.objects
  names := context.names
  nextOid := context.nextOid
  scheduled := queued ++ context.submitted

/-- `GZOCHID_APPLICATION_MAX_ATTEMPTS_DEFAULT`; a catch task has one attempt. -/
def maxAttempts : TaskKind → Nat
  | .durable _ | .coordinator _ => 3
  | .durableCatch _ | .coordinatorCatch _ => 1

/-- What `gzochid_application_resubmitting_transactional_task_worker` submits after an
attempt that was rolled back. -/
def resubmit (task : Task) (shouldRetry : Bool) : List Task :=
  if shouldRetry ∧ task.attempts + 1 < maxAttempts task.kind then
    [{ task with attempts := task.attempts + 1 }]
  else
    match task.kind with
    | .durable oid => [⟨.durableCatch oid, 0⟩]
    | .coordinator context => [⟨.coordinatorCatch context, 0⟩]
    | .durableCatch _ | .coordinatorCatch _ => []

/-- The pending bindings. -/
def bound (server : Server) : List Oid :=
  (List.range server.nextOid).filter fun number => (server.names number).isSome

/-- The outcome of a transaction that commits. -/
def settle (queued : List Task) : Outcome Context Unit → Option (Server × Report)
  | .ok _ context => some (commit context queued, context.report)
  | .failed _ | .crashed => none

/-- One transaction of the server.  A restart loses the task queue, whether its own
transaction commits or not; other transactions may use up ids. -/
def step (server : Server) : Action → Option (Server × Report)
  | .transaction requests => settle server.scheduled (performAll requests server.begin)
  | .execute task attempt =>
      if task ∈ server.scheduled then
        match attempt with
        | .commit requests =>
            settle (server.scheduled.erase task) (work requests task.kind server.begin)
        | .rollback shouldRetry =>
            some ({ server with
              scheduled := server.scheduled.erase task ++ resubmit task shouldRetry }, .empty)
      else none
  | .restart order commits =>
      if order.Perm server.bound then
        if commits then settle [] (restartTasks order server.begin)
        else some ({ server with scheduled := [] }, .empty)
      else none
  | .reserve count => some ({ server with nextOid := server.nextOid + count }, .empty)

end Server

end Gzochi.DurableTask
