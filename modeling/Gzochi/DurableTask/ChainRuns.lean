import Gzochi.DurableTask.Coordinator

/-!
# Runs with chains

In every run in which no bootstrap task is executed, each task of a chain is executed at
most once, in the order of the chain, and the binding of the bootstrap task stays with what
it leads to until nothing of the chain is left.
-/

namespace Gzochi.DurableTask

open Lib List
open Data (Oid update update_same update_other update_unchanged update_update)

/-- A transaction that has only looked at handles. -/
def Looking (context : Context) : Prop :=
  ∀ oid reference, context.reference oid = some reference →
    ∃ handle, reference = .fetched (.handle handle) false

variable {context : Context}

theorem restartTask_ends {number : Oid} {handle : Handle} (looking : Looking context)
    (named : context.names number = some number)
    (found : context.objects number = some (.handle handle)) :
    ∃ reference, Looking { context with reference := reference } ∧
      restartTask number context =
        .ok ()
          { context with
            reference := reference
            submitted := context.submitted ++ [⟨.durable number, 0⟩] } := by
  have fetched : ∃ held reference, handleOf number context =
      .ok held { context with reference := reference } ∧
      reference number = some (.fetched (.handle held) false) ∧
      Looking { context with reference := reference } := by
    cases looked : context.reference number with
    | none =>
      refine ⟨handle, update context.reference number (some (.fetched (.handle handle) false)),
        by simp [handleOf, dereference, looked, found], update_same _ _ _, ?_⟩
      intro oid reference there
      by_cases same : oid = number
      · rw [same] at there
        exact ⟨handle, (Option.some.inj ((update_same _ _ _).symm.trans there)).symm⟩
      · exact looking oid reference ((update_other _ _ same).symm.trans there)
    | some reference =>
      obtain ⟨held, rfl⟩ := looking number reference looked
      exact ⟨held, context.reference, by simp [handleOf, dereference, looked], looked, looking⟩
  obtain ⟨held, reference, ended, looked, still⟩ := fetched
  have again : handleOf number { context with reference := reference } =
      .ok held { context with reference := reference } := by
    simp [handleOf, dereference, looked]
  refine ⟨update reference number
    (some (.fetched (.handle { held with binding := some number }) false)), ?_, ?_⟩
  · intro oid content there
    by_cases same : oid = number
    · rw [same] at there
      exact ⟨_, (Option.some.inj ((update_same _ _ _).symm.trans there)).symm⟩
    · exact still oid content ((update_other _ _ same).symm.trans there)
  · simp [restartTask, Machine.get, named, Machine.expect, Machine.attempt, ended,
      scheduleDurableTaskHandle, again, assign, looked, setBindingToOid, submit, Machine.modify,
      update_present named]

/-- Where every binding leads to a handle, a restart submits all tasks and changes nothing in
the store. -/
theorem restartTasks_ends (order : List Oid) (looking : Looking context)
    (bound : ∀ number ∈ order, context.names number = some number ∧
      ∃ handle, context.objects number = some (.handle handle)) :
    ∃ reference, restartTasks order context = .ok () { context with
          reference := reference
          submitted := context.submitted ++ order.map fun number => ⟨.durable number, 0⟩ } := by
  induction order generalizing context with
  | nil => exact ⟨context.reference, by simp [restartTasks]⟩
  | cons number rest ih =>
    obtain ⟨named, handle, found⟩ := bound number mem_cons_self
    obtain ⟨reference, still, first⟩ := restartTask_ends looking named found
    have later : Looking { context with
        reference := reference
        submitted := context.submitted ++ [⟨.durable number, 0⟩] } := still
    obtain ⟨last, ended⟩ := ih later fun other member =>
      bound other (mem_cons_of_mem _ member)
    refine ⟨last, ?_⟩
    simp only [restartTasks, Machine.bind_apply, first, ended, append_assoc, map_cons,
      singleton_append]

variable {chain : Chain}

/-- The bootstrap task, when it is executed, starts the coordinator.  It is removed then, but
its binding is not. -/
theorem bootstrap_executes {done : Nat} (coherent : Coherent context)
    (live : Live chain done context.objects context.names) (requests : List Request) :
    ∃ reference, durableTaskApplicationWorker requests chain.bootstrap context = .ok ()
        { context with
          objects := update context.objects chain.bootstrap none
          reference := reference
          submitted := context.submitted ++ [⟨.coordinator chain.context, 0⟩] } := by
  obtain ⟨first, looked, coherent, _⟩ := handleOf_found coherent live.bootstrap
  obtain ⟨second, fetched, coherent, _⟩ := dereference_found coherent live.context
  have later : Coherent { context with
      reference := second
      submitted := context.submitted ++ [⟨.coordinator chain.context, 0⟩] } := { coherent with }
  obtain ⟨third, again, coherent, modified, held⟩ := handleOf_found later live.bootstrap
  have once : handleOf chain.bootstrap { context with
      reference := third
      submitted := context.submitted ++ [⟨.coordinator chain.context, 0⟩] } =
      .ok ⟨.taskChainBootstrap, chain.context, none, false⟩ { context with
        reference := third
        submitted := context.submitted ++ [⟨.coordinator chain.context, 0⟩] } := by
    simp [handleOf, dereference, held]
  refine ⟨update third chain.bootstrap
    (some (.removed (some (.handle ⟨.taskChainBootstrap, chain.context, none, false⟩)))), ?_⟩
  simp [durableTaskApplicationWorker, Machine.attempt, looked, fetched, runWorker,
    scheduleCoordinatorTask, submit, Machine.modify, finishTask, again, removeDurableTask, once,
    removeObject, held]

/-- The tasks of the chain that the transaction has executed. -/
def Report.ofChain (report : Report) (chain : Chain) : List Oid :=
  report.executed.filter (· ∈ chain.tasks)

/-- The coordinator of the chain has failed for good. -/
def Action.Abandons (action : Action) (chain : Chain) : Prop :=
  ∃ attempts requests,
    action = .execute ⟨.coordinatorCatch chain.context, attempts⟩ (.commit requests)

theorem ofChain_nil {report : Report} (apart : ∀ oid ∈ report.executed, oid ∉ chain.tasks) :
    report.ofChain chain = [] := by
  simpa [Report.ofChain, filter_eq_nil_iff] using apart

namespace Server

/-- The chain is in the state in which the server has it. -/
def Same (server : Server) (chain : Chain) (objects : Oid → Option Object)
    (names : Oid → Option Oid) : Prop :=
  (∀ done, Live chain done server.objects server.names → Live chain done objects names) ∧
    (Finished chain server.objects server.names → Finished chain objects names)

/-- What holds of a server with chains. -/
structure Held (chains : List Chain) (server : Server) : Prop extends
    Sound chains server.objects server.names server.nextOid where
  states : ∀ chain ∈ chains, (∃ done, Live chain done server.objects server.names) ∨
    Finished chain server.objects server.names
  known : ∀ task ∈ server.scheduled, task.kind.Known chains server.nextOid

/-- The id is that of a bootstrap task that is still there. -/
def isBootstrap (server : Server) (oid : Oid) : Bool :=
  match server.objects oid with
  | some (.handle handle) => handle.worker = .taskChainBootstrap
  | some .taskData | some (.chainContext _ _) | some (.queue _) | none => false

/-- No execution of a bootstrap task commits, and no empty chain is scheduled. -/
def Spares (server : Server) : Action → Prop
  | .transaction requests => ∀ request ∈ requests, request.Filled
  | .execute ⟨.durable oid, _⟩ (.commit requests)
  | .execute ⟨.durableCatch oid, _⟩ (.commit requests) =>
      server.isBootstrap oid = false ∧ ∀ request ∈ requests, request.Filled
  | .execute ⟨.coordinator _, _⟩ (.commit requests)
  | .execute ⟨.coordinatorCatch _, _⟩ (.commit requests) => ∀ request ∈ requests, request.Filled
  | .execute _ (.rollback _) | .restart _ _ | .reserve _ => True

variable {chains : List Chain} {server next : Server} {report : Report} {action : Action}

theorem same_facts (held : server.Held chains) :
    ∀ chain ∈ chains, ChainFact chain (server.Same chain) := by
  intro chain member
  refine ⟨?_, ?_⟩
  · intro objects names objects' names' same sameObjects sameNames data
    exact ⟨fun done live =>
      (live_fact chain done).stable (same.1 done live) sameObjects sameNames data,
      fun finished => (finished_fact chain).stable (same.2 finished) sameObjects sameNames data⟩
  · intro objects names same
    rcases held.states chain member with ⟨done, live⟩ | finished
    · exact (live_fact chain done).calm (same.1 done live)
    · exact (finished_fact chain).calm (same.2 finished)

theorem Held.begin (held : server.Held chains) :
    Steady chains server.Same server.nextOid [] server.begin where
  toSound := by
    rw [show chains ++ server.begin.report.chains = chains from append_nil _]
    exact held.toSound
  held _ _ := ⟨fun _ live => live, fun finished => finished⟩
  fresh _ member := absurd member not_mem_nil
  low := Nat.le_refl _
  recent oid owned := absurd owned owned_nil
  sameExecuted := rfl
  known _ member := absurd member not_mem_nil
  fetched := nofun
  unremoved := nofun

/-- What a step does to a chain: nothing, or one more of its tasks is executed, or it is
abandoned. -/
structure Moves (abandons : Prop) (server next : Server) (report : Report) (chain : Chain) :
    Prop where
  live : ∀ done, Live chain done server.objects server.names →
    (report.ofChain chain = [] ∧ Live chain done next.objects next.names) ∨
    (∃ task, chain.tasks[done]? = some task ∧ report.ofChain chain = [task] ∧
      (Live chain (done + 1) next.objects next.names ∨
        (done + 1 = chain.tasks.length ∧ Finished chain next.objects next.names))) ∨
    (report.ofChain chain = [] ∧ abandons ∧ Finished chain next.objects next.names)
  finished : Finished chain server.objects server.names →
    report.ofChain chain = [] ∧ Finished chain next.objects next.names

structure Advances (chains : List Chain) (action : Action) (server next : Server)
    (report : Report) : Prop where
  held : next.Held (chains ++ report.chains)
  more : server.nextOid ≤ next.nextOid
  fresh : ∀ chain ∈ report.chains, Live chain 0 next.objects next.names ∧
    ∀ oid ∈ chain.oids, server.nextOid ≤ oid
  executed : ∀ oid ∈ report.executed, oid < server.nextOid
  moves : ∀ chain ∈ chains, Moves (action.Abandons chain) server next report chain

variable {chain : Chain}

variable {abandons : Prop}

theorem Moves.same (same : server.Same chain next.objects next.names)
    (none : report.ofChain chain = []) :
    Moves abandons server next report chain :=
  ⟨fun done live => .inl ⟨none, same.1 done live⟩, fun finished => ⟨none, same.2 finished⟩⟩

/-- After a step, too, a chain is live or nothing of it is left. -/
theorem Moves.states (moves : Moves abandons server next report chain)
    (state : (∃ done, Live chain done server.objects server.names) ∨
      Finished chain server.objects server.names) :
    (∃ done, Live chain done next.objects next.names) ∨ Finished chain next.objects next.names := by
  rcases state with ⟨done, live⟩ | finished
  · rcases moves.live done live with ⟨_, live⟩ | ⟨_, _, _, live | ⟨_, finished⟩⟩ | ⟨_, _, finished⟩
    · exact .inl ⟨done, live⟩
    · exact .inl ⟨done + 1, live⟩
    · exact .inr finished
    · exact .inr finished
  · exact .inr (moves.finished finished).2

variable {queued : List Task}

theorem settle_eq_some {outcome : Outcome Context Unit}
    (taken : settle queued outcome = some (next, report)) :
    ∃ context, outcome = .ok () context ∧ next = commit context queued ∧
      report = context.report := by
  cases outcome with
  | failed context | crashed => cases taken
  | ok value context =>
    cases taken
    exact ⟨context, rfl, rfl, rfl⟩

variable {context : Context}

variable {executed : List Oid}

variable (held : server.Held chains)
include held

/-- A transaction commits. -/
theorem advances_commit {fact : Chain → (Oid → Option Object) → (Oid → Option Oid) → Prop}
    (kept : Kept chains fact server.nextOid executed context)
    (known : ∀ task ∈ queued, task ∈ server.scheduled)
    (low : ∀ oid ∈ executed, oid < server.nextOid)
    (moves : ∀ chain ∈ chains, fact chain context.objects context.names →
      Moves (action.Abandons chain) server (commit context queued) context.report chain) :
    Advances chains action server (commit context queued) context.report where
  held :=
    { toSound := kept.toSound
      states := by
        intro chain member
        rcases mem_append.mp member with old | new
        · exact (moves chain old (kept.held chain old)).states (held.states chain old)
        · exact .inl ⟨0, kept.fresh chain new⟩
      known := by
        intro task member
        rcases mem_append.mp member with old | new
        · exact (held.known task (known task old)).extend kept.low kept.recent
        · exact kept.known task new }
  more := kept.low
  fresh chain member := ⟨kept.fresh chain member, fun oid inside =>
    kept.recent oid ⟨chain, member, inside⟩⟩
  executed := by
    rw [kept.sameExecuted]
    exact low
  moves chain member := moves chain member (kept.held chain member)

/-- A transaction commits that has only to do with tasks outside the chains. -/
theorem advances_apart (kept : Kept chains server.Same server.nextOid executed context)
    (known : ∀ task ∈ queued, task ∈ server.scheduled)
    (free : ∀ oid ∈ executed, oid < server.nextOid ∧ ¬ Owned chains oid) :
    Advances chains action server (commit context queued) context.report := by
  refine advances_commit held kept known (fun oid member => (free oid member).1) ?_
  intro chain member same
  refine .same same (ofChain_nil fun oid executes inside => ?_)
  rw [kept.sameExecuted] at executes
  exact (free oid executes).2 ⟨chain, member, mem_oids_task inside⟩

/-- A step that leaves the store alone. -/
theorem advances_quiet (count : Nat) {scheduled : List Task}
    (known : ∀ task ∈ scheduled, task.kind.Known chains server.nextOid) :
    Advances chains action server
      { server with nextOid := server.nextOid + count, scheduled := scheduled } .empty where
  held := by
    rw [show chains ++ Report.empty.chains = chains from append_nil _]
    exact {
      distinct := held.distinct
      old := fun oid owned => Nat.lt_add_right count (held.old oid owned)
      below := fun oid high => held.below oid (Nat.le_of_add_right_le high)
      named := held.named
      plain := held.plain
      states := held.states
      known := fun task member => by
        have more : task.kind.Known (chains ++ []) (server.nextOid + count) :=
          (known task member).extend (Nat.le_add_right _ count)
            fun oid owned => absurd owned owned_nil
        rwa [append_nil] at more }
  more := Nat.le_add_right _ _
  fresh _ member := absurd member not_mem_nil
  executed _ member := absurd member not_mem_nil
  moves chain member := .same ⟨fun _ live => live, fun finished => finished⟩ rfl

omit held

theorem resubmit_known {task : Task} (known : task.kind.Known chains server.nextOid)
    (shouldRetry : Bool) :
    ∀ other ∈ resubmit task shouldRetry, other.kind.Known chains server.nextOid := by
  intro other member
  obtain ⟨kind, attempts⟩ := task
  unfold resubmit at member
  split at member
  · rw [mem_singleton.mp member]
    exact known
  · cases kind with
    | durable oid | coordinator oid =>
      rw [mem_singleton.mp member]
      exact known
    | durableCatch oid | coordinatorCatch oid => cases member

variable {objects : Oid → Option Object} {names : Oid → Option Oid}

theorem live_unique {first second : Nat} (one : Live chain first objects names)
    (other : Live chain second objects names) : first = second := by
  have same : chain.tasks.drop first = chain.tasks.drop second :=
    Object.queue.inj (Option.some.inj (one.queue.symm.trans other.queue))
  have lengths := congrArg List.length same
  have low := one.unfinished
  have high := other.unfinished
  rw [length_drop, length_drop] at lengths
  omega

variable {done : Nat}

theorem live_unfinished (live : Live chain done objects names) :
    ¬ Finished chain objects names := by
  intro finished
  have bound := live.bound
  rw [finished.unbound] at bound
  cases bound

variable {oid : Oid}

/-- A task that may be executed is no part of a chain, or is no longer there. -/
theorem Held.free_or_missing (held : server.Held chains)
    (known : ∀ chain ∈ chains, oid ∈ chain.oids → oid = chain.bootstrap)
    (spared : server.isBootstrap oid = false) :
    ¬ Owned chains oid ∨ server.objects oid = none := by
  by_cases owned : Owned chains oid
  · obtain ⟨chain, member, inside⟩ := owned
    rcases held.states chain member with ⟨done, live⟩ | finished
    · rw [known chain member inside] at spared
      simp [isBootstrap, live.bootstrap] at spared
    · exact .inr (finished.removed oid inside)
  · exact .inl owned

/-- Nothing has happened. -/
theorem advances_begin (held : server.Held chains)
    (known : ∀ task ∈ queued, task ∈ server.scheduled) :
    Advances chains action server (commit server.begin queued) server.begin.report :=
  advances_apart held held.begin.toKept known fun _ member => absurd member not_mem_nil

variable {requests : List Request}

include held

theorem durable_advances (known : ∀ task ∈ queued, task ∈ server.scheduled)
    (isKnown : TaskKind.Known chains server.nextOid (.durable oid))
    (spared : server.isBootstrap oid = false) (filled : ∀ request ∈ requests, request.Filled)
    (taken : settle queued (durableTaskApplicationWorker requests oid server.begin) =
      some (next, report)) : Advances chains action server next report := by
  obtain ⟨context, ended, rfl, rfl⟩ := settle_eq_some taken
  rcases held.free_or_missing isKnown.2 spared with free | missing
  · have kept := durableTaskApplicationWorker_kept (same_facts held) requests filled free isKnown.1
      server.begin held.begin
    rw [ended] at kept
    rcases kept with kept | kept
    · exact advances_apart held kept known fun _ member => absurd member not_mem_nil
    · refine advances_apart held kept known fun other member => ?_
      rw [mem_singleton.mp member]
      exact ⟨isKnown.1, free⟩
  · rw [durableTaskApplicationWorker_missing held.begin.toCoherent missing] at ended
    cases ended
    exact advances_begin held known

theorem durableCatch_advances (known : ∀ task ∈ queued, task ∈ server.scheduled)
    (isKnown : TaskKind.Known chains server.nextOid (.durableCatch oid))
    (spared : server.isBootstrap oid = false)
    (taken : settle queued (durableTaskCatchWorker oid server.begin) = some (next, report)) :
    Advances chains action server next report := by
  obtain ⟨context, ended, rfl, rfl⟩ := settle_eq_some taken
  rcases held.free_or_missing isKnown.2 spared with free | missing
  · have kept := durableTaskCatchWorker_kept (same_facts held) free isKnown.1 server.begin
      held.begin
    rw [ended] at kept
    exact advances_apart held kept known fun _ member => absurd member not_mem_nil
  · rw [durableTaskCatchWorker_missing held.begin.toCoherent missing] at ended
    cases ended
    exact advances_begin held known

/-- A transaction has executed the next task of a chain. -/
theorem advances_chain (member : chain ∈ chains)
    (live : Live chain done server.objects server.names) {task : Oid}
    (isFirst : chain.tasks[done]? = some task) (known : ∀ task ∈ queued, task ∈ server.scheduled)
    (advanced : Advanced chains server.Same server.nextOid chain done task context) :
    Advances chains action server (commit context queued) context.report := by
  have inside : task ∈ chain.tasks := mem_of_getElem? isFirst
  have low : ∀ oid ∈ [task], oid < server.nextOid := by
    intro oid single
    rw [mem_singleton.mp single]
    exact held.old task ⟨chain, member, mem_oids_task inside⟩
  have others : ∀ other ∈ chains, other ≠ chain → context.report.executed = [task] →
      context.report.ofChain other = [] := by
    intro other there apart executed
    refine ofChain_nil fun oid executes within => ?_
    rw [executed] at executes
    rw [mem_singleton.mp executes] at within
    exact held.toSound.disjoint there member apart (mem_oids_task within) (mem_oids_task inside)
  have own : context.report.executed = [task] → context.report.ofChain chain = [task] := by
    intro executed
    simp [Report.ofChain, executed, inside]
  rcases advanced with kept | ⟨last, kept⟩
  · refine advances_commit held kept known low fun other there state => ?_
    by_cases same : other = chain
    · subst same
      rw [Function.update_self] at state
      refine ⟨fun number alive => ?_, fun finished => absurd finished (live_unfinished live)⟩
      rw [live_unique alive live]
      exact .inr (.inl ⟨task, isFirst, own kept.sameExecuted, .inl state⟩)
    · rw [Function.update_of_ne same] at state
      exact .same state (others other there same kept.sameExecuted)
  · refine advances_commit held kept known low fun other there state => ?_
    by_cases same : other = chain
    · subst same
      rw [Function.update_self] at state
      refine ⟨fun number alive => ?_, fun finished => absurd finished (live_unfinished live)⟩
      rw [live_unique alive live]
      exact .inr (.inl ⟨task, isFirst, own kept.sameExecuted, .inr ⟨last, state⟩⟩)
    · rw [Function.update_of_ne same] at state
      exact .same state (others other there same kept.sameExecuted)

theorem coordinator_advances (known : ∀ task ∈ queued, task ∈ server.scheduled)
    (isKnown : TaskKind.Known chains server.nextOid (.coordinator oid))
    (filled : ∀ request ∈ requests, request.Filled)
    (taken : settle queued (coordinatorWorker requests oid server.begin) = some (next, report)) :
    Advances chains action server next report := by
  obtain ⟨context, ended, rfl, rfl⟩ := settle_eq_some taken
  obtain ⟨chain, member, rfl⟩ := isKnown
  rcases held.states chain member with ⟨done, live⟩ | finished
  · have advanced := coordinatorWorker_advanced (same_facts held) member done requests filled
      server.begin ⟨held.begin, live⟩
    rw [ended] at advanced
    obtain ⟨task, isFirst, advanced⟩ := advanced
    exact advances_chain held member live isFirst known advanced
  · rw [coordinatorWorker_missing held.begin.toCoherent
      (finished.removed _ (mem_oids_context chain))] at ended
    cases ended
    exact advances_begin held known

theorem coordinatorCatch_advances {oid attempts : Nat}
    (known : ∀ task ∈ queued, task ∈ server.scheduled)
    (isKnown : TaskKind.Known chains server.nextOid (.coordinatorCatch oid))
    (taken : settle queued (coordinatorCatchWorker oid server.begin) = some (next, report)) :
    Advances chains (.execute ⟨.coordinatorCatch oid, attempts⟩ (.commit requests)) server next
      report := by
  obtain ⟨context, ended, rfl, rfl⟩ := settle_eq_some taken
  obtain ⟨chain, member, rfl⟩ := isKnown
  rcases held.states chain member with ⟨done, live⟩ | finished
  · obtain ⟨after, cleaned, kept⟩ :=
      coordinatorCatchWorker_finished (same_facts held) member held.begin live
    rw [cleaned] at ended
    cases ended
    have nothing : ∀ other, context.report.ofChain other = [] := fun other =>
      ofChain_nil (by simp [kept.sameExecuted])
    refine advances_commit held kept known (fun _ member => absurd member not_mem_nil)
      fun other there state => ?_
    by_cases same : other = chain
    · subst same
      rw [Function.update_self] at state
      exact ⟨fun number alive => .inr (.inr ⟨nothing other, ⟨attempts, requests, rfl⟩, state⟩),
        fun finished => absurd finished (live_unfinished live)⟩
    · rw [Function.update_of_ne same] at state
      exact .same state (nothing other)
  · rw [coordinatorCatchWorker_missing held.begin.toCoherent
      (finished.removed _ (mem_oids_context chain))] at ended
    cases ended
    exact advances_begin held known

/-- Every binding leads to a handle of the same number. -/
theorem Held.bound_handles {number : Oid} (member : number ∈ server.bound) :
    server.names number = some number ∧ (∃ handle, server.objects number = some (.handle handle)) ∧
      ∀ chain ∈ chains, number ∈ chain.oids → number = chain.bootstrap := by
  obtain ⟨oid, bound⟩ := Option.isSome_iff_exists.mp (mem_filter.mp member).2
  obtain ⟨rfl, origin⟩ := held.named number oid bound
  refine ⟨bound, ?_⟩
  rcases origin with ⟨chain, there, rfl⟩ | ⟨free, found⟩
  · rcases held.states chain there with ⟨done, live⟩ | finished
    · refine ⟨⟨_, live.bootstrap⟩, fun other otherThere inside => ?_⟩
      by_cases same : other = chain
      · rw [same]
      · exact absurd (mem_oids_bootstrap chain) (held.toSound.disjoint otherThere there same inside)
    · rw [finished.unbound] at bound
      cases bound
  · exact ⟨found, fun chain there inside => absurd ⟨chain, there, inside⟩ free⟩

omit held

variable {order : List Oid}

include held

/-- A restart changes nothing in the store, and submits all tasks that are bound. -/
theorem Held.restarts (permuted : order.Perm server.bound) :
    ∃ reference, restartTasks order server.begin = .ok () { server.begin with
          reference := reference
          submitted := order.map fun number => ⟨.durable number, 0⟩ } := by
  have looking : Looking server.begin := nofun
  exact restartTasks_ends order looking fun number member =>
    have ⟨named, found, _⟩ := held.bound_handles (permuted.mem_iff.mp member)
    ⟨named, found⟩

theorem restart_advances (permuted : order.Perm server.bound)
    (taken : settle [] (restartTasks order server.begin) = some (next, report)) :
    Advances chains action server next report := by
  obtain ⟨context, ended, rfl, rfl⟩ := settle_eq_some taken
  obtain ⟨reference, restarted⟩ := held.restarts permuted
  rw [restarted] at ended
  cases ended
  refine advances_apart held { held.begin.toKept with known := ?_ }
    (fun _ member => absurd member not_mem_nil) fun _ member => absurd member not_mem_nil
  intro task member
  obtain ⟨number, there, rfl⟩ := mem_map.mp member
  have inBound := permuted.mem_iff.mp there
  rw [show chains ++ server.begin.report.chains = chains from append_nil _]
  exact ⟨mem_range.mp (mem_filter.mp inBound).1, (held.bound_handles inBound).2.2⟩

theorem step_advances (spares : server.Spares action)
    (taken : server.step action = some (next, report)) :
    Advances chains action server next report := by
  cases action with
  | transaction requests =>
    obtain ⟨context, ended, rfl, rfl⟩ := settle_eq_some taken
    have steady := performAll_steady (same_facts held) requests spares server.begin held.begin
    rw [ended] at steady
    exact advances_apart held steady.toKept (fun _ member => member)
      fun _ member => absurd member not_mem_nil
  | execute task attempt =>
    obtain ⟨member, taken⟩ := Option.ite_none_right_eq_some.mp taken
    have fewer : ∀ other ∈ server.scheduled.erase task, other ∈ server.scheduled :=
      fun other there => mem_of_mem_erase there
    have isKnown := held.known task member
    cases attempt with
    | commit requests =>
      obtain ⟨kind, attempts⟩ := task
      cases kind with
      | durable oid => exact durable_advances held fewer isKnown spares.1 spares.2 taken
      | durableCatch oid => exact durableCatch_advances held fewer isKnown spares.1 taken
      | coordinator oid => exact coordinator_advances held fewer isKnown spares taken
      | coordinatorCatch oid => exact coordinatorCatch_advances held fewer isKnown taken
    | rollback shouldRetry =>
      cases taken
      exact advances_quiet held 0 fun other there =>
        (mem_append.mp there).elim (fun old => held.known other (fewer other old))
          (resubmit_known isKnown shouldRetry other)
  | restart order commits =>
    obtain ⟨permuted, taken⟩ := Option.ite_none_right_eq_some.mp taken
    split at taken
    · exact restart_advances held permuted taken
    · cases taken
      exact advances_quiet held 0 fun _ member => absurd member not_mem_nil
  | reserve count =>
    cases taken
    exact advances_quiet held count held.known

omit held

/-- A restart can be done and submits the bootstrap task, whose execution starts the
coordinator on the chain as it is. -/
def Resumes (server : Server) (chain : Chain) : Prop :=
  ∀ order, order.Perm server.bound → ∃ restarted resumed first second,
    server.step (.restart order true) = some (restarted, first) ∧
    restarted.objects = server.objects ∧ restarted.names = server.names ∧
    restarted.step (.execute ⟨.durable chain.bootstrap, 0⟩ (.commit [])) = some (resumed, second) ∧
    ⟨.coordinator chain.context, 0⟩ ∈ resumed.scheduled ∧
    ∀ oid, oid ≠ chain.bootstrap → resumed.objects oid = server.objects oid

theorem Held.resumes (held : server.Held chains)
    (live : Live chain done server.objects server.names) : server.Resumes chain := by
  intro order permuted
  obtain ⟨reference, restarted⟩ := held.restarts permuted
  let started : Server :=
    ⟨server.objects, server.names, server.nextOid, order.map fun number => ⟨.durable number, 0⟩⟩
  have coherent : Coherent started.begin := ⟨nofun, nofun⟩
  obtain ⟨memory, executed⟩ := bootstrap_executes coherent live []
  have low : chain.bootstrap < server.nextOid := by
    by_contra high
    have found := live.bootstrap
    rw [held.below _ (Nat.le_of_not_lt high)] at found
    cases found
  have isBound : chain.bootstrap ∈ server.bound :=
    mem_filter.mpr ⟨mem_range.mpr low, by rw [live.bound]; rfl⟩
  have submitted : (⟨.durable chain.bootstrap, 0⟩ : Task) ∈ started.scheduled :=
    mem_map.mpr ⟨_, permuted.mem_iff.mpr isBound, rfl⟩
  have restarts : server.step (.restart order true) = some (started, .empty) := by
    simp only [step, permuted, if_true, restarted, settle]
    rfl
  let resumed : Server :=
    ⟨update server.objects chain.bootstrap none, server.names, server.nextOid,
      started.scheduled.erase ⟨.durable chain.bootstrap, 0⟩ ++ [⟨.coordinator chain.context, 0⟩]⟩
  have resumes : started.step (.execute ⟨.durable chain.bootstrap, 0⟩ (.commit [])) =
      some (resumed, .empty) := by
    simp only [step, submitted, if_true, work, executed, settle]
    rfl
  exact ⟨started, resumed, .empty, .empty, restarts, rfl, rfl, resumes,
    mem_append_right _ (mem_singleton.mpr rfl), fun oid apart => update_other _ _ apart⟩

/-- The chains that have been scheduled. -/
def chainsOf (trace : List (Action × Report)) : List Chain :=
  trace.flatMap fun entry => entry.2.chains

/-- The tasks that have been executed, in this order. -/
def executedIn (trace : List (Action × Report)) : List Oid :=
  trace.flatMap fun entry => entry.2.executed

/-- Of the chain the first `done` tasks have been executed, in this order.  The rest is
waiting, or nothing of the chain is left, because there was no more to do or it has been
abandoned. -/
structure Progressed (trace : List (Action × Report)) (server : Server) (chain : Chain)
    (done : Nat) : Prop where
  bounded : done ≤ chain.tasks.length
  inOrder : (executedIn trace).filter (· ∈ chain.tasks) = chain.tasks.take done
  state : Live chain done server.objects server.names ∨
    (Finished chain server.objects server.names ∧
      (done = chain.tasks.length ∨ ∃ entry ∈ trace, entry.1.Abandons chain))

structure TracksChains (trace : List (Action × Report)) (server : Server) : Prop where
  held : server.Held (chainsOf trace)
  old : ∀ oid ∈ executedIn trace, oid < server.nextOid
  progressed : ∀ chain ∈ chainsOf trace, ∃ done, Progressed trace server chain done

theorem filter_executedIn (trace : List (Action × Report)) (action : Action) (report : Report)
    (chain : Chain) :
    (executedIn (trace ++ [(action, report)])).filter (· ∈ chain.tasks) =
      (executedIn trace).filter (· ∈ chain.tasks) ++ report.ofChain chain := by
  simp [executedIn, Report.ofChain]

variable {trace : List (Action × Report)}

theorem Progressed.snoc (progressed : Progressed trace server chain done)
    (moves : Moves (action.Abandons chain) server next report chain) :
    ∃ done, Progressed (trace ++ [(action, report)]) next chain done := by
  have order := filter_executedIn trace action report chain
  rw [progressed.inOrder] at order
  have older : ∀ {property : Action × Report → Prop}, (∃ entry ∈ trace, property entry) →
      ∃ entry ∈ trace ++ [(action, report)], property entry := by
    rintro property ⟨entry, member, holds⟩
    exact ⟨entry, mem_append_left _ member, holds⟩
  rcases progressed.state with live | ⟨finished, why⟩
  · rcases moves.live done live with ⟨none, live⟩ | ⟨task, isFirst, one, state⟩ |
      ⟨none, abandons, finished⟩
    · rw [none, append_nil] at order
      exact ⟨done, progressed.bounded, order, .inl live⟩
    · rw [one] at order
      have more : chain.tasks.take (done + 1) = chain.tasks.take done ++ [task] := by
        rw [take_add_one, isFirst]
        rfl
      refine ⟨done + 1, live.unfinished, order.trans more.symm, ?_⟩
      exact state.imp id fun ⟨last, finished⟩ => ⟨finished, .inl last⟩
    · rw [none, append_nil] at order
      exact ⟨done, progressed.bounded, order, .inr ⟨finished, .inr
        ⟨_, mem_append_right _ (mem_singleton.mpr rfl), abandons⟩⟩⟩
  · obtain ⟨none, finished⟩ := moves.finished finished
    rw [none, append_nil] at order
    exact ⟨done, progressed.bounded, order, .inr ⟨finished, why.imp id older⟩⟩

theorem TracksChains.snoc (tracks : TracksChains trace server)
    (advances : Advances (chainsOf trace) action server next report) :
    TracksChains (trace ++ [(action, report)]) next := by
  have all : chainsOf (trace ++ [(action, report)]) = chainsOf trace ++ report.chains := by
    simp [chainsOf]
  have executed : ∀ oid ∈ executedIn (trace ++ [(action, report)]), oid < server.nextOid := by
    intro oid member
    simp only [executedIn, flatMap_append, flatMap_cons, flatMap_nil, append_nil] at member
    rcases mem_append.mp member with old | new
    · exact tracks.old oid old
    · exact advances.executed oid new
  refine ⟨by rw [all]; exact advances.held, fun oid member =>
    Nat.lt_of_lt_of_le (executed oid member) advances.more, ?_⟩
  intro chain member
  rw [all] at member
  rcases mem_append.mp member with old | new
  · obtain ⟨done, progressed⟩ := tracks.progressed chain old
    exact progressed.snoc (advances.moves chain old)
  · obtain ⟨live, high⟩ := advances.fresh chain new
    refine ⟨0, Nat.zero_le _, ?_, .inl live⟩
    rw [take_zero, filter_eq_nil_iff]
    intro oid executes
    have apart : oid ∉ chain.tasks := fun inside =>
      absurd (executed oid executes) (Nat.not_lt.mpr (high oid (mem_oids_task inside)))
    simpa using apart

theorem empty_tracksChains : TracksChains [] Server.empty where
  held :=
    { distinct := nodup_nil
      old := fun _ owned => absurd owned owned_nil
      below := fun _ _ => rfl
      named := nofun
      plain := nofun
      states := fun _ member => absurd member not_mem_nil
      known := fun _ member => absurd member not_mem_nil }
  old _ member := absurd member not_mem_nil
  progressed _ member := absurd member not_mem_nil

end Server

/-- In every run in which no execution of a bootstrap task commits and no empty chain is
scheduled, the tasks of a chain that have been executed are the first ones of the chain,
each executed once and in this order.  The others are in the queue of the chain, to which
the binding of its bootstrap task leads and from which a restart resumes the chain; or
nothing of the chain is left, after its last task or because its coordinator has failed for
good. -/
theorem chains_survive {trace : List (Action × Report)} {server : Server}
    (run : Run Server.step Server.Spares Server.empty trace server) :
    ∀ chain ∈ Server.chainsOf trace, chain.tasks.Nodup ∧ ∃ done ≤ chain.tasks.length,
      (Server.executedIn trace).filter (· ∈ chain.tasks) = chain.tasks.take done ∧
      ((Live chain done server.objects server.names ∧ server.Resumes chain) ∨
        (Finished chain server.objects server.names ∧
          (done = chain.tasks.length ∨ ∃ entry ∈ trace, entry.1.Abandons chain))) := by
  have tracks : Server.TracksChains trace server :=
    run.invariant Server.TracksChains Server.empty_tracksChains fun _ tracks spares taken =>
      tracks.snoc (Server.step_advances tracks.held spares taken)
  intro chain member
  have nodup := tracks.held.toSound.nodup member
  simp only [Chain.oids, nodup_cons] at nodup
  obtain ⟨done, progressed⟩ := tracks.progressed chain member
  refine ⟨nodup.2.2.2, done, progressed.bounded, progressed.inOrder, ?_⟩
  exact progressed.state.imp (fun live => ⟨live, tracks.held.resumes live⟩) id

instance : DecidablePred Request.Filled
  | .schedule | .schedulePeriodic | .cancel _ => .isTrue trivial
  | .scheduleChain count => inferInstanceAs (Decidable (0 < count))

instance (server : Server) : DecidablePred server.Spares
  | .transaction requests | .execute ⟨.coordinator _, _⟩ (.commit requests)
  | .execute ⟨.coordinatorCatch _, _⟩ (.commit requests) =>
      inferInstanceAs (Decidable (∀ request ∈ requests, request.Filled))
  | .execute ⟨.durable oid, _⟩ (.commit requests)
  | .execute ⟨.durableCatch oid, _⟩ (.commit requests) =>
      inferInstanceAs (Decidable (server.isBootstrap oid = false ∧
        ∀ request ∈ requests, request.Filled))
  | .execute ⟨.durable _, _⟩ (.rollback _) | .execute ⟨.durableCatch _, _⟩ (.rollback _)
  | .execute ⟨.coordinator _, _⟩ (.rollback _) | .execute ⟨.coordinatorCatch _, _⟩ (.rollback _)
  | .restart _ _ | .reserve _ => .isTrue trivial

/-- The coordinator of a chain is rolled back once, its first task cancels a periodic task
outside the chain, and the server is restarted. -/
def chainWithRetry : List Action :=
  [.transaction [.scheduleChain 2, .schedulePeriodic], .execute ⟨.coordinator 5, 0⟩
    (.rollback true),
    .execute ⟨.coordinator 5, 1⟩ (.commit [.cancel 8]), .execute ⟨.durable 8, 0⟩ (.commit []),
    .restart [6] true]

theorem chains_survive_retry :
    ∃ trace server, Run Server.step Server.Spares Server.empty trace server ∧
      trace.map Prod.fst = chainWithRetry ∧ Server.executedIn trace = [1, 8] ∧
      ∃ chain ∈ Server.chainsOf trace, chain.tasks = [1, 3] ∧ ∃ done ≤ 2,
        (Server.executedIn trace).filter (· ∈ [1, 3]) = [1, 3].take done ∧
        (Live chain done server.objects server.names ∨
          Finished chain server.objects server.names) := by
  have observed : (exec (fun server action => if server.Spares action then server.step action
      else none) Server.empty chainWithRetry).map
      (fun result => (result.1.map Prod.fst, Server.chainsOf result.1,
        Server.executedIn result.1)) =
      some (chainWithRetry, [⟨6, 5, 4, [1, 3]⟩], [1, 8]) := by
    decide +kernel
  obtain ⟨⟨trace, server⟩, executed, seen⟩ := Option.map_eq_some_iff.mp observed
  simp only [Prod.mk.injEq] at seen
  obtain ⟨actions, chains, tasks⟩ := seen
  have run := run_of_tested_exec executed
  have member : ⟨6, 5, 4, [1, 3]⟩ ∈ Server.chainsOf trace := by
    rw [chains]
    exact mem_cons_self
  obtain ⟨_, done, bounded, order, state⟩ := chains_survive run _ member
  exact ⟨trace, server, run, actions, tasks, _, member, rfl, done, bounded, order,
    state.imp And.left And.left⟩

/-- A chain is scheduled, the server is restarted, and the bootstrap task is executed. -/
def chainRestarted : List Action :=
  [.transaction [.scheduleChain 2], .restart [6] true, .execute ⟨.durable 6, 0⟩ (.commit [])]

/-- No task of the chain has been executed, and its binding, the only one, leads nowhere.
The next restart drops the binding and has nothing to do. -/
theorem resumed_chain_lost : ∃ trace server, Run Server.step anyAction Server.empty trace server ∧
      Server.chainsOf trace = [⟨6, 5, 4, [1, 3]⟩] ∧ Server.executedIn trace = [] ∧
      server.bound = [6] ∧ server.names 6 = some 6 ∧ server.objects 6 = none ∧
      ∃ next report, server.step (.restart [6] true) = some (next, report) ∧
        next.bound = [] ∧ next.scheduled = [] := by
  have observed : (exec Server.step Server.empty chainRestarted).map
      (fun result => (Server.chainsOf result.1, Server.executedIn result.1, result.2.bound,
        result.2.names 6, result.2.objects 6)) =
      some ([⟨6, 5, 4, [1, 3]⟩], [], [6], some 6, none) := by
    decide +kernel
  have dropped : ((exec Server.step Server.empty chainRestarted).bind
      fun result => result.2.step (.restart [6] true)).map
      (fun after => (after.1.bound, after.1.scheduled)) = some ([], []) := by
    decide +kernel
  obtain ⟨⟨trace, server⟩, executed, seen⟩ := Option.map_eq_some_iff.mp observed
  rw [executed] at dropped
  simp only [Prod.mk.injEq] at seen
  obtain ⟨chains, tasks, bound, name, object⟩ := seen
  obtain ⟨⟨next, report⟩, taken, lost⟩ := Option.map_eq_some_iff.mp dropped
  simp only [Prod.mk.injEq] at lost
  exact ⟨trace, server, run_of_exec executed, chains, tasks, bound, name, object, next, report,
    taken, lost.1, lost.2⟩

end Gzochi.DurableTask
