import Gzochi.DurableTask.Bindings
import Mathlib.Data.List.Nodup

/-!
# Chains of durable tasks

As long as a chain has tasks to execute, its queue holds exactly these, and the binding of
its bootstrap task leads to them.  A committed execution of the coordinator executes the
first of them and takes it off the queue; when none is left, or when the coordinator has
failed for good, all that belongs to the chain is removed.

The bootstrap task itself is not as good: once it has been executed, the chain can no
longer be found, and can no longer be cleaned up.
-/

namespace Gzochi.DurableTask

open Lib List Context
open Data (Oid update update_same update_other update_unchanged)

/-- The ids of the objects that a chain is made of. -/
def Chain.oids (chain : Chain) : List Oid :=
  chain.bootstrap :: chain.context :: chain.queue :: chain.tasks

/-- A task of a chain, with its data. -/
def ChainTask (objects : Oid → Option Object) (task : Oid) : Prop :=
  ∃ data, objects task = some (.handle ⟨.application, data, none, false⟩) ∧
    objects data = some .taskData

/-- The first `done` tasks of the chain are gone and the others, of which there are some, are
there.  The pending binding leads to a bootstrap task, this to the context of the chain and
this to the queue. -/
structure Stage (chain : Chain) (done : Nat) (queued : List Oid) (objects : Oid → Option Object)
    (names : Oid → Option Oid) : Prop where
  unfinished : done < chain.tasks.length
  bound : names chain.bootstrap = some chain.bootstrap
  bootstrap : objects chain.bootstrap =
    some (.handle ⟨.taskChainBootstrap, chain.context, none, false⟩)
  context : objects chain.context = some (.chainContext chain.bootstrap chain.queue)
  queue : objects chain.queue = some (.queue queued)
  waiting : ∀ task ∈ chain.tasks.drop done, ChainTask objects task
  removed : ∀ task ∈ chain.tasks.take done, objects task = none

/-- The tasks that are left are in the queue. -/
def Live (chain : Chain) (done : Nat) (objects : Oid → Option Object)
    (names : Oid → Option Oid) : Prop :=
  Stage chain done (chain.tasks.drop done) objects names

/-- Nothing of the chain is left. -/
structure Finished (chain : Chain) (objects : Oid → Option Object)
    (names : Oid → Option Oid) : Prop where
  unbound : names chain.bootstrap = none
  removed : ∀ oid ∈ chain.oids, objects oid = none

/-- A fact about a chain that depends only on what belongs to it, and in which no handle is
one of a periodic task. -/
structure ChainFact (chain : Chain)
    (fact : (Oid → Option Object) → (Oid → Option Oid) → Prop) : Prop where
  stable : ∀ {objects names objects' names'}, fact objects names →
    (∀ oid ∈ chain.oids, objects' oid = objects oid) →
    names' chain.bootstrap = names chain.bootstrap →
    (∀ oid, objects oid = some .taskData → objects' oid = some .taskData) →
    fact objects' names'
  calm : ∀ {objects names}, fact objects names → ∀ oid ∈ chain.oids, ∀ handle,
    objects oid = some (.handle handle) → handle.repeats = false

variable (chain : Chain)
include chain

theorem mem_oids_bootstrap : chain.bootstrap ∈ chain.oids := mem_cons_self

theorem mem_oids_context : chain.context ∈ chain.oids :=
  mem_cons_of_mem _ mem_cons_self

theorem mem_oids_queue : chain.queue ∈ chain.oids :=
  mem_cons_of_mem _ (mem_cons_of_mem _ mem_cons_self)

omit chain

variable {task : Oid}

theorem mem_oids_task {chain : Chain} (member : task ∈ chain.tasks) : task ∈ chain.oids :=
  mem_cons_of_mem _ (mem_cons_of_mem _ (mem_cons_of_mem _ member))

include chain

theorem stage_fact (done : Nat) (queued : List Oid) :
    ChainFact chain (Stage chain done queued) where
  stable := by
    intro objects names objects' names' live same sameName data
    have inTasks : ∀ task ∈ chain.tasks.drop done, task ∈ chain.tasks :=
      fun task member => mem_of_mem_drop member
    refine ⟨live.unfinished, sameName.trans live.bound, ?_, ?_, ?_, ?_, ?_⟩
    · rw [same _ (mem_oids_bootstrap chain)]
      exact live.bootstrap
    · rw [same _ (mem_oids_context chain)]
      exact live.context
    · rw [same _ (mem_oids_queue chain)]
      exact live.queue
    · intro task member
      obtain ⟨taskData, handle, there⟩ := live.waiting task member
      exact ⟨taskData, by rw [same _ (mem_oids_task (inTasks task member)), handle],
        data taskData there⟩
    · intro task member
      rw [same _ (mem_oids_task (mem_of_mem_take member))]
      exact live.removed task member
  calm := by
    intro objects names live oid member handle found
    rcases mem_cons.mp member with rfl | member
    · rw [live.bootstrap] at found
      cases found
      rfl
    rcases mem_cons.mp member with rfl | member
    · rw [live.context] at found
      cases found
    rcases mem_cons.mp member with rfl | member
    · rw [live.queue] at found
      cases found
    rw [← take_append_drop done chain.tasks] at member
    rcases mem_append.mp member with early | late
    · rw [live.removed oid early] at found
      cases found
    · obtain ⟨taskData, handle, _⟩ := live.waiting oid late
      rw [handle] at found
      cases found
      rfl

theorem live_fact (done : Nat) : ChainFact chain (Live chain done) :=
  stage_fact chain done _

theorem finished_fact : ChainFact chain (Finished chain) where
  stable := by
    intro objects names objects' names' finished same sameName _
    refine ⟨sameName.trans finished.unbound, fun oid member => ?_⟩
    rw [same oid member]
    exact finished.removed oid member
  calm := by
    intro objects names finished oid member handle found
    rw [finished.removed oid member] at found
    cases found

omit chain

/-- The object belongs to one of the chains. -/
def Owned (chains : List Chain) (oid : Oid) : Prop := ∃ chain ∈ chains, oid ∈ chain.oids

/-- A handle outside the chains: it is bound, and knows its binding. -/
def Plain (names : Oid → Option Oid) (oid : Oid) (handle : Handle) : Prop :=
  handle.worker = .application ∧ handle.binding = some oid ∧ names oid = some oid

/-- What holds of the store, apart from the states of the chains. -/
structure Sound (chains : List Chain) (objects : Oid → Option Object)
    (names : Oid → Option Oid) (nextOid : Oid) : Prop where
  distinct : (chains.flatMap Chain.oids).Nodup
  old : ∀ oid, Owned chains oid → oid < nextOid
  below : ∀ oid, nextOid ≤ oid → objects oid = none
  named : ∀ number oid, names number = some oid → oid = number ∧
    ((∃ chain ∈ chains, number = chain.bootstrap) ∨
      (¬ Owned chains number ∧ ∃ handle, objects number = some (.handle handle)))
  plain : ∀ oid handle, objects oid = some (.handle handle) → ¬ Owned chains oid →
    Plain names oid handle

section

variable {chains created : List Chain} {objects : Oid → Option Object}
  {names : Oid → Option Oid} {nextOid nextOid' : Oid}

variable {oid : Oid}

theorem owned_append : Owned (chains ++ created) oid ↔ Owned chains oid ∨ Owned created oid := by
  constructor
  · rintro ⟨chain, member, inside⟩
    rcases mem_append.mp member with old | new
    · exact .inl ⟨chain, old, inside⟩
    · exact .inr ⟨chain, new, inside⟩
  · rintro (⟨chain, member, inside⟩ | ⟨chain, member, inside⟩)
    · exact ⟨chain, mem_append_left _ member, inside⟩
    · exact ⟨chain, mem_append_right _ member, inside⟩

theorem mem_flatMap_oids : oid ∈ chains.flatMap Chain.oids ↔ Owned chains oid :=
  mem_flatMap

/-- No name beyond the ids in use. -/
theorem Sound.unnamed (sound : Sound chains objects names nextOid) {number : Oid}
    (new : nextOid ≤ number) : names number = none := by
  cases bound : names number with
  | none => rfl
  | some oid =>
    rcases (sound.named number oid bound).2 with ⟨chain, member, rfl⟩ | ⟨_, handle, found⟩
    · exact absurd (sound.old _ ⟨chain, member, mem_oids_bootstrap chain⟩) (Nat.not_lt.mpr new)
    · rw [sound.below number new] at found
      cases found

/-- New objects and chains are added. -/
theorem Sound.extend (sound : Sound chains objects names nextOid) (created : List Chain)
    (objects' : Oid → Option Object) (names' : Oid → Option Oid) (more : nextOid ≤ nextOid')
    (sameObjects : ∀ oid < nextOid, objects' oid = objects oid)
    (sameNames : ∀ oid < nextOid, names' oid = names oid)
    (below : ∀ oid, nextOid' ≤ oid → objects' oid = none)
    (distinct : (created.flatMap Chain.oids).Nodup)
    (new : ∀ oid, Owned created oid → nextOid ≤ oid ∧ oid < nextOid')
    (named : ∀ number oid, nextOid ≤ number → names' number = some oid → oid = number ∧
      ((∃ chain ∈ created, number = chain.bootstrap) ∨
        (¬ Owned created number ∧ ∃ handle, objects' number = some (.handle handle))))
    (plain : ∀ oid handle, nextOid ≤ oid → objects' oid = some (.handle handle) →
      ¬ Owned created oid → Plain names' oid handle) :
    Sound (chains ++ created) objects' names' nextOid' where
  distinct := by
    rw [flatMap_append, nodup_append]
    refine ⟨sound.distinct, distinct, fun first inside second fresh same => ?_⟩
    subst same
    have low := sound.old first (mem_flatMap_oids.mp inside)
    exact absurd (new first (mem_flatMap_oids.mp fresh)).1 (Nat.not_le.mpr low)
  old := by
    intro oid owned
    rcases owned_append.mp owned with before | fresh
    · exact Nat.lt_of_lt_of_le (sound.old oid before) more
    · exact (new oid fresh).2
  below := below
  named := by
    intro number oid bound
    by_cases low : number < nextOid
    · rw [sameNames number low] at bound
      obtain ⟨same, origin⟩ := sound.named number oid bound
      refine ⟨same, ?_⟩
      rcases origin with ⟨chain, member, rfl⟩ | ⟨free, handle, found⟩
      · exact .inl ⟨chain, mem_append_left _ member, rfl⟩
      · refine .inr ⟨fun owned => ?_, handle, by rw [sameObjects number low, found]⟩
        rcases owned_append.mp owned with before | fresh
        · exact free before
        · exact absurd (new number fresh).1 (Nat.not_le.mpr low)
    · have high := Nat.le_of_not_lt low
      obtain ⟨same, origin⟩ := named number oid high bound
      refine ⟨same, ?_⟩
      rcases origin with ⟨chain, member, rfl⟩ | ⟨free, found⟩
      · exact .inl ⟨chain, mem_append_right _ member, rfl⟩
      · refine .inr ⟨fun owned => ?_, found⟩
        rcases owned_append.mp owned with before | fresh
        · exact low (sound.old number before)
        · exact free fresh
  plain := by
    intro oid handle found free
    by_cases low : oid < nextOid
    · rw [sameObjects oid low] at found
      have known := sound.plain oid handle found fun owned => free (owned_append.mpr (.inl owned))
      exact ⟨known.1, known.2.1, by rw [sameNames oid low, known.2.2]⟩
    · exact plain oid handle (Nat.le_of_not_lt low) found fun owned =>
        free (owned_append.mpr (.inr owned))

end

/-- A task that the server may have in its queue. -/
def TaskKind.Known (chains : List Chain) (nextOid : Oid) : TaskKind → Prop
  | .durable oid | .durableCatch oid =>
      oid < nextOid ∧ ∀ chain ∈ chains, oid ∈ chain.oids → oid = chain.bootstrap
  | .coordinator context | .coordinatorCatch context =>
      ∃ chain ∈ chains, chain.context = context

/-- A transaction on a store with chains, for each of which a fact is kept.  Its new chains
are made of ids from a given one on. -/
structure Kept (before : List Chain)
    (fact : Chain → (Oid → Option Object) → (Oid → Option Oid) → Prop) (floor : Oid)
    (executed : List Oid) (context : Context) : Prop extends
    Sound (before ++ context.report.chains) context.objects context.names context.nextOid where
  held : ∀ chain ∈ before, fact chain context.objects context.names
  fresh : ∀ chain ∈ context.report.chains, Live chain 0 context.objects context.names
  low : floor ≤ context.nextOid
  recent : ∀ oid, Owned context.report.chains oid → floor ≤ oid
  sameExecuted : context.report.executed = executed
  known : ∀ task ∈ context.submitted,
    task.kind.Known (before ++ context.report.chains) context.nextOid

/-- Such a transaction that has removed nothing yet. -/
structure Steady (before : List Chain)
    (fact : Chain → (Oid → Option Object) → (Oid → Option Oid) → Prop) (floor : Oid)
    (executed : List Oid) (context : Context) : Prop extends
    Kept before fact floor executed context, Coherent context

variable {before : List Chain}
  {fact : Chain → (Oid → Option Object) → (Oid → Option Oid) → Prop} {floor : Oid}
  {executed : List Oid} {context after : Context} {oid : Oid}

variable {chains : List Chain} {nextOid : Oid}

theorem TaskKind.Known.extend {created : List Chain} {nextOid' : Oid} {kind : TaskKind}
    (known : kind.Known chains nextOid) (more : nextOid ≤ nextOid')
    (new : ∀ oid, Owned created oid → nextOid ≤ oid) : kind.Known (chains ++ created) nextOid' := by
  cases kind with
  | durable oid | durableCatch oid =>
    refine ⟨Nat.lt_of_lt_of_le known.1 more, fun chain member inside => ?_⟩
    rcases mem_append.mp member with old | fresh
    · exact known.2 chain old inside
    · exact absurd (new oid ⟨chain, fresh, inside⟩) (Nat.not_le.mpr known.1)
  | coordinator oid | coordinatorCatch oid =>
    obtain ⟨chain, member, same⟩ := known
    exact ⟨chain, mem_append_left _ member, same⟩

/-- The transaction adds objects and chains, and leaves the old ones alone. -/
theorem Steady.extend (steady : Steady before fact floor executed context)
    (facts : ∀ chain ∈ before, ChainFact chain (fact chain)) (created : List Chain)
    (extra : List Task)
    (sameObjects : ∀ oid < context.nextOid, after.objects oid = context.objects oid)
    (sameNames : ∀ oid < context.nextOid, after.names oid = context.names oid)
    (sound : Sound ((before ++ context.report.chains) ++ created) after.objects after.names
      after.nextOid)
    (more : context.nextOid ≤ after.nextOid)
    (new : ∀ oid, Owned created oid → context.nextOid ≤ oid)
    (coherent : Coherent after)
    (sameChains : after.report.chains = context.report.chains ++ created)
    (live : ∀ chain ∈ created, Live chain 0 after.objects after.names)
    (sameExecuted : after.report.executed = context.report.executed)
    (sameSubmitted : after.submitted = context.submitted ++ extra)
    (known : ∀ task ∈ extra,
      task.kind.Known ((before ++ context.report.chains) ++ created) after.nextOid) :
    Steady before fact floor executed after := by
  have all : before ++ after.report.chains = (before ++ context.report.chains) ++ created := by
    rw [sameChains, append_assoc]
  have stays : ∀ chain ∈ before ++ context.report.chains,
      ∀ property : (Oid → Option Object) → (Oid → Option Oid) → Prop, ChainFact chain property →
      property context.objects context.names → property after.objects after.names := by
    intro chain member property isFact holds
    have low : ∀ oid ∈ chain.oids, oid < context.nextOid :=
      fun oid inside => steady.old oid ⟨chain, member, inside⟩
    refine isFact.stable holds (fun oid inside => sameObjects oid (low oid inside))
      (sameNames _ (low _ (mem_oids_bootstrap chain))) fun oid data => ?_
    rw [sameObjects oid ?_]
    · exact data
    · by_contra high
      rw [steady.below oid (Nat.le_of_not_lt high)] at data
      cases data
  refine ⟨⟨by rw [all]; exact sound, ?_, ?_, Nat.le_trans steady.low more, ?_,
    sameExecuted.trans steady.sameExecuted, ?_⟩, coherent⟩
  · intro chain member
    exact stays chain (mem_append_left _ member) (fact chain) (facts chain member)
      (steady.held chain member)
  · intro chain member
    rw [sameChains] at member
    rcases mem_append.mp member with old | fresh
    · exact stays chain (mem_append_right _ old) _ (live_fact chain 0) (steady.fresh chain old)
    · exact live chain fresh
  · intro oid owned
    rw [sameChains] at owned
    rcases owned_append.mp owned with old | fresh
    · exact steady.recent oid old
    · exact Nat.le_trans steady.low (new oid fresh)
  · intro task member
    rw [all]
    rw [sameSubmitted] at member
    rcases mem_append.mp member with old | fresh
    · exact (steady.known task old).extend more new
    · exact known task fresh

theorem owned_nil : ¬ Owned [] oid := by
  rintro ⟨_, member, _⟩
  cases member

/-- A new task outside the chains. -/
theorem Steady.withTask (steady : Steady before fact floor executed context)
    (facts : ∀ chain ∈ before, ChainFact chain (fact chain)) (repeats : Bool)
    (change : Report → Report) (sameChains : (change context.report).chains = context.report.chains)
    (sameExecuted : (change context.report).executed = context.report.executed) :
    Steady before fact floor executed
      { context.withTask repeats with report := change context.report } := by
  have new : ∀ oid, context.nextOid ≤ oid → oid ≠ context.nextOid + 1 →
      (context.withTask repeats).names oid = none ∧
      ∀ handle, (context.withTask repeats).objects oid ≠ some (.handle handle) := by
    intro oid high apart
    refine ⟨?_, fun handle found => ?_⟩
    · simp only [Context.withTask, update_other _ _ apart]
      exact steady.unnamed high
    · by_cases first : oid = context.nextOid
      · subst first
        simp only [Context.withTask, update_other _ _ apart, update_same] at found
        cases found
      · simp only [Context.withTask, update_other _ _ apart, update_other _ _ first] at found
        rw [steady.below oid high] at found
        cases found
  have sound := steady.toSound.extend [] (context.withTask repeats).objects
    (context.withTask repeats).names (Nat.le_add_right context.nextOid 2)
    (fun oid low => (withTask_old context repeats low).1)
    (fun oid low => (withTask_old context repeats low).2)
    (by
      intro oid high
      have later : context.nextOid + 1 < oid := high
      simp only [Context.withTask, update_other _ _ (Nat.ne_of_gt later),
        update_other _ _ (Nat.ne_of_gt (Nat.lt_of_succ_lt later))]
      exact steady.below oid (Nat.le_of_lt (Nat.lt_of_succ_lt later)))
    nodup_nil (fun oid owned => absurd owned owned_nil)
    (by
      intro number oid high bound
      by_cases same : number = context.nextOid + 1
      · subst same
        simp only [Context.withTask, update_same] at bound
        cases bound
        exact ⟨rfl, .inr ⟨owned_nil, _, by simp only [Context.withTask, update_same]; rfl⟩⟩
      · rw [(new number high same).1] at bound
        cases bound)
    (by
      intro oid handle high found _
      by_cases same : oid = context.nextOid + 1
      · subst same
        simp only [Context.withTask, update_same] at found
        cases found
        exact ⟨rfl, rfl, by simp only [Context.withTask, update_same]⟩
      · exact absurd found ((new oid high same).2 handle))
  refine steady.extend facts [] [⟨.durable (context.nextOid + 1), 0⟩]
    (fun oid low => (withTask_old context repeats low).1)
    (fun oid low => (withTask_old context repeats low).2) sound (Nat.le_add_right _ 2)
    (fun oid owned => absurd owned owned_nil)
    { steady.toCoherent.withTask repeats with } (by rw [append_nil]; exact sameChains)
    (by simp) sameExecuted rfl ?_
  intro task member
  rw [mem_singleton.mp member]
  refine ⟨Nat.lt_succ_self _, fun chain there inside => ?_⟩
  have low := steady.old _ ⟨chain, by simpa using there, inside⟩
  exact absurd low (Nat.not_lt.mpr (Nat.le_succ _))

variable {handle : Handle}

/-- Every chain is in a state that changes elsewhere do not touch. -/
theorem Steady.apart (steady : Steady before fact floor executed context)
    (facts : ∀ chain ∈ before, ChainFact chain (fact chain))
    (found : context.objects oid = some (.handle handle)) (repeats : handle.repeats = true) :
    ¬ Owned (before ++ context.report.chains) oid := by
  rintro ⟨chain, member, inside⟩
  have calm : handle.repeats = false := by
    rcases mem_append.mp member with old | fresh
    · exact (facts chain old).calm (steady.held chain old) oid inside handle found
    · exact (live_fact chain 0).calm (steady.fresh chain fresh) oid inside handle found
  rw [calm] at repeats
  cases repeats

/-- The objects outside the chains change, and no data of a task. -/
theorem Kept.elsewhere (kept : Kept before fact floor executed context)
    (facts : ∀ chain ∈ before, ChainFact chain (fact chain))
    (sound : Sound (before ++ context.report.chains) after.objects after.names after.nextOid)
    (same : ∀ oid, Owned (before ++ context.report.chains) oid →
      after.objects oid = context.objects oid)
    (sameNames : ∀ oid, Owned (before ++ context.report.chains) oid →
      after.names oid = context.names oid)
    (data : ∀ oid, context.objects oid = some .taskData → after.objects oid = some .taskData)
    (more : context.nextOid ≤ after.nextOid)
    (sameChains : after.report.chains = context.report.chains)
    (sameExecuted : after.report.executed = context.report.executed)
    (known : ∀ task ∈ after.submitted,
      task.kind.Known (before ++ context.report.chains) after.nextOid) :
    Kept before fact floor executed after := by
  refine ⟨by rw [sameChains]; exact sound, ?_, ?_, Nat.le_trans kept.low more,
    by rw [sameChains]; exact kept.recent, sameExecuted.trans kept.sameExecuted,
    by rw [sameChains]; exact known⟩
  · intro chain member
    have there := mem_append_left context.report.chains member
    exact (facts chain member).stable (kept.held chain member)
      (fun oid inside => same oid ⟨chain, there, inside⟩)
      (sameNames _ ⟨chain, there, mem_oids_bootstrap chain⟩) data
  · intro chain member
    rw [sameChains] at member
    have there := mem_append_right before member
    exact (live_fact chain 0).stable (kept.fresh chain member)
      (fun oid inside => same oid ⟨chain, there, inside⟩)
      (sameNames _ ⟨chain, there, mem_oids_bootstrap chain⟩) data

variable {objects : Oid → Option Object}

theorem Sound.lower {names : Oid → Option Oid} (sound : Sound chains objects names nextOid)
    (found : objects oid = some (.handle handle)) (free : ¬ Owned chains oid) :
    Sound chains (update objects oid (some (.handle { handle with repeats := false }))) names
      nextOid where
  distinct := sound.distinct
  old := sound.old
  below := by
    intro other high
    have apart : other ≠ oid := by
      rintro rfl
      rw [sound.below other high] at found
      cases found
    rw [update_other _ _ apart]
    exact sound.below other high
  named := by
    intro number target bound
    obtain ⟨same, origin⟩ := sound.named number target bound
    refine ⟨same, origin.imp_right fun ⟨unowned, content, there⟩ => ⟨unowned, ?_⟩⟩
    by_cases here : number = oid
    · exact ⟨_, by rw [here, update_same]⟩
    · exact ⟨content, by rw [update_other _ _ here, there]⟩
  plain := by
    intro other content there unowned
    by_cases same : other = oid
    · subst same
      rw [update_same] at there
      cases there
      exact sound.plain other handle found free
    · rw [update_other _ _ same] at there
      exact sound.plain other content there unowned

theorem cancelTask_steady (facts : ∀ chain ∈ before, ChainFact chain (fact chain)) (oid : Oid) :
    Machine.Keeps (Steady before fact floor executed) (cancelTask oid) := by
  intro context steady
  cases handleOf_cases steady.toCoherent oid with
  | missing found =>
    simp only [cancelTask, Machine.bind_apply, Machine.attempt,
      handleOf_missing steady.toCoherent found, Machine.pure_apply]
    exact steady
  | held handle found =>
    obtain ⟨reference, coherent, ended⟩ := cancelTask_ends steady.toCoherent found
    rw [ended]
    have putBack := coherent.put oid (.handle { handle with repeats := false }) true
    cases repeats : handle.repeats with
    | false =>
      have same : { handle with repeats := false } = handle := by rw [← repeats]
      rw [same] at putBack
      simp only [lowered, same] at putBack ⊢
      rw [update_present found] at putBack ⊢
      exact ⟨steady.toKept.elsewhere facts steady.toSound (fun _ _ => rfl) (fun _ _ => rfl)
        (fun _ => id) (Nat.le_refl _) rfl rfl steady.known, { putBack with }⟩
    | true =>
      have free := steady.apart facts found repeats
      refine ⟨steady.toKept.elsewhere facts (steady.toSound.lower found free) ?_
        (fun _ _ => rfl) ?_ (Nat.le_refl _) rfl rfl steady.known, { putBack with }⟩
      · intro other owned
        exact update_other _ _ fun same => free (same ▸ owned)
      · intro other data
        have apart : other ≠ oid := by
          rintro rfl
          rw [found] at data
          cases data
        exact (update_other _ _ apart).trans data
  | other ended => simp only [cancelTask, Machine.bind_apply, Machine.attempt, ended]

/-- Handles for a chain have been made. -/
structure CreatedTasks (context after : Context) (tasks : List Oid) : Prop where
  more : context.nextOid ≤ after.nextOid
  names : after.names = context.names
  submitted : after.submitted = context.submitted
  report : after.report = context.report
  sameObjects : ∀ oid < context.nextOid, after.objects oid = context.objects oid
  below : ∀ oid, after.nextOid ≤ oid → after.objects oid = none
  handles : ∀ oid handle, context.nextOid ≤ oid → after.objects oid = some (.handle handle) →
    oid ∈ tasks
  isTask : ∀ task ∈ tasks, context.nextOid ≤ task ∧ task < after.nextOid ∧
    ChainTask after.objects task
  nodup : tasks.Nodup
  coherent : Coherent after

theorem ChainTask.below (below : ∀ oid, nextOid ≤ oid → objects oid = none)
    (isTask : ChainTask objects task) {objects' : Oid → Option Object}
    (same : ∀ oid < nextOid, objects' oid = objects oid) :
    ChainTask objects' task := by
  have low : ∀ oid object, objects oid = some object → oid < nextOid := by
    intro oid object found
    by_contra high
    rw [below oid (Nat.le_of_not_lt high)] at found
    cases found
  obtain ⟨data, handle, there⟩ := isTask
  exact ⟨data, by rw [same task (low _ _ handle), handle], by rw [same data (low _ _ there), there]⟩

theorem createChainTasks_ends (count : Nat) (coherent : Coherent context)
    (below : ∀ oid, context.nextOid ≤ oid → context.objects oid = none) :
    ∃ tasks after, createChainTasks count context = .ok tasks after ∧ tasks.length = count ∧
      CreatedTasks context after tasks := by
  induction count generalizing context with
  | zero =>
    refine ⟨[], context, rfl, rfl, ?_⟩
    exact {
      more := Nat.le_refl _
      names := rfl
      submitted := rfl
      report := rfl
      sameObjects := fun _ _ => rfl
      below := below
      handles := fun oid handle high found => by rw [below oid high] at found; cases found
      isTask := fun _ member => absurd member not_mem_nil
      nodup := nodup_nil
      coherent := coherent }
  | succ count ih =>
    let middle : Context :=
      { context with
        nextOid := context.nextOid + 2
        objects := update (update context.objects context.nextOid (some .taskData))
          (context.nextOid + 1) (some (.handle ⟨.application, context.nextOid, none, false⟩))
        reference := update
          (update context.reference context.nextOid (some (.fetched .taskData true)))
          (context.nextOid + 1)
          (some (.fetched (.handle ⟨.application, context.nextOid, none, false⟩) true)) }
    have first : createDurableApplicationTaskHandle false context =
        .ok (context.nextOid + 1) middle := rfl
    have apart : context.nextOid ≠ context.nextOid + 1 := Nat.ne_of_lt (Nat.lt_succ_self _)
    have ownTask : ChainTask middle.objects (context.nextOid + 1) :=
      ⟨context.nextOid, update_same _ _ _, by
        simp only [middle, update_other _ _ apart, update_same]⟩
    have middleBelow : ∀ oid, middle.nextOid ≤ oid → middle.objects oid = none := by
      intro oid high
      have later : context.nextOid + 1 < oid := high
      simp only [middle, update_other _ _ (Nat.ne_of_gt later),
        update_other _ _ (Nat.ne_of_gt (Nat.lt_of_succ_lt later))]
      exact below oid (Nat.le_of_lt (Nat.lt_of_succ_lt later))
    have middleSame : ∀ oid < context.nextOid, middle.objects oid = context.objects oid := by
      intro oid low
      simp only [middle, update_other _ _ (Nat.ne_of_lt (Nat.lt_succ_of_lt low)),
        update_other _ _ (Nat.ne_of_lt low)]
    have middleCoherent : Coherent middle :=
      { (coherent.put context.nextOid .taskData true).put (context.nextOid + 1) _ true with }
    obtain ⟨rest, after, ended, length, made⟩ := ih middleCoherent middleBelow
    have more : context.nextOid + 2 ≤ after.nextOid := made.more
    refine ⟨(context.nextOid + 1) :: rest, after, ?_, ?_, ?_⟩
    · simp only [createChainTasks, Machine.bind_apply, first, ended, Machine.pure_apply]
    · rw [length_cons, length]
    · exact {
        more := Nat.le_of_add_right_le more
        names := made.names
        submitted := made.submitted
        report := made.report
        sameObjects := fun oid low =>
          (made.sameObjects oid (Nat.lt_add_right 2 low)).trans (middleSame oid low)
        below := made.below
        handles := by
          intro oid handle high found
          by_cases later : context.nextOid + 2 ≤ oid
          · exact mem_cons_of_mem _ (made.handles oid handle later found)
          · rw [made.sameObjects oid (Nat.lt_of_not_le later)] at found
            have choices : oid = context.nextOid ∨ oid = context.nextOid + 1 := by grind
            rcases choices with rfl | rfl
            · simp only [middle, update_other _ _ apart, update_same] at found
              cases found
            · exact mem_cons_self
        isTask := by
          intro task member
          rcases mem_cons.mp member with rfl | member
          · exact ⟨Nat.le_succ _, more, ownTask.below middleBelow made.sameObjects⟩
          · obtain ⟨high, low, isTask⟩ := made.isTask task member
            exact ⟨Nat.le_of_add_right_le high, low, isTask⟩
        nodup := by
          refine nodup_cons.mpr ⟨fun member => ?_, made.nodup⟩
          have high : context.nextOid + 2 ≤ context.nextOid + 1 := (made.isTask _ member).1
          exact absurd high (Nat.not_succ_le_self _)
        coherent := made.coherent }

/-- The chain that is made of the given tasks. -/
def Context.newChain (context : Context) (tasks : List Oid) : Chain :=
  ⟨context.nextOid + 2, context.nextOid + 1, context.nextOid, tasks⟩

/-- The chain is scheduled. -/
def Context.withChain (context : Context) (tasks : List Oid) : Context :=
  let queue := context.nextOid
  let chainContext := context.nextOid + 1
  let bootstrap := context.nextOid + 2
  let handle := Object.handle ⟨.taskChainBootstrap, chainContext, none, false⟩
  { context with
    objects :=
      update (update (update (update context.objects queue (some (.queue tasks)))
        chainContext (some (.chainContext 0 0))) bootstrap (some handle))
        chainContext (some (.chainContext bootstrap queue))
    names := update context.names bootstrap (some bootstrap)
    nextOid := context.nextOid + 3
    reference :=
      update (update (update (update context.reference queue (some (.fetched (.queue tasks) true)))
        chainContext (some (.fetched (.chainContext 0 0) true)))
        bootstrap (some (.fetched handle true)))
        chainContext (some (.fetched (.chainContext bootstrap queue) true))
    submitted := context.submitted ++ [⟨.coordinator chainContext, 0⟩]
    report := { context.report with
      chains := context.report.chains ++ [context.newChain tasks] } }

variable {count : Nat}

theorem scheduleDurableTaskChain_ends {tasks : List Oid} {middle : Context}
    (made : createChainTasks count context = .ok tasks middle) :
    scheduleDurableTaskChain count context = .ok () (middle.withChain tasks) := by
  have apart : middle.nextOid + 1 ≠ middle.nextOid + 2 := Nat.ne_of_lt (Nat.lt_succ_self _)
  simp [scheduleDurableTaskChain, made, createReference, assign, setBindingToOid,
    scheduleCoordinatorTask, submit, note, Machine.modify, withChain, newChain,
    update_other _ _ apart]

theorem withChain_objects (context : Context) (tasks : List Oid) :
    (context.withChain tasks).objects context.nextOid = some (.queue tasks) ∧
    (context.withChain tasks).objects (context.nextOid + 1) =
      some (.chainContext (context.nextOid + 2) context.nextOid) ∧
    (context.withChain tasks).objects (context.nextOid + 2) =
      some (.handle ⟨.taskChainBootstrap, context.nextOid + 1, none, false⟩) ∧
    ∀ oid, oid ≠ context.nextOid → oid ≠ context.nextOid + 1 → oid ≠ context.nextOid + 2 →
      (context.withChain tasks).objects oid = context.objects oid := by
  refine ⟨?_, ?_, ?_, ?_⟩
  · simp [withChain, update]
  · simp [withChain, update]
  · simp [withChain, update]
  · intro oid first second third
    simp [withChain, update, first, second, third]

theorem Coherent.withChain (coherent : Coherent context) (tasks : List Oid) :
    Coherent (context.withChain tasks) :=
  { (((coherent.put _ _ true).put _ _ true).put _ _ true).put _ _ true with }

theorem scheduleDurableTaskChain_steady (facts : ∀ chain ∈ before, ChainFact chain (fact chain))
    (some : 0 < count) :
    Machine.Keeps (Steady before fact floor executed) (scheduleDurableTaskChain count) := by
  intro context steady
  obtain ⟨tasks, middle, ended, length, made⟩ :=
    createChainTasks_ends count steady.toCoherent steady.below
  rw [scheduleDurableTaskChain_ends ended]
  obtain ⟨isQueue, isContext, isBootstrap, others⟩ := withChain_objects middle tasks
  have low : ∀ oid < middle.nextOid, (middle.withChain tasks).objects oid = middle.objects oid := by
    intro oid low
    exact others oid (Nat.ne_of_lt low) (Nat.ne_of_lt (Nat.lt_succ_of_lt low))
      (Nat.ne_of_lt (Nat.lt_add_right 2 low))
  have lowNames : ∀ oid, oid ≠ middle.nextOid + 2 →
      (middle.withChain tasks).names oid = context.names oid := by
    intro oid apart
    simp only [withChain, update_other _ _ apart, made.names]
  have sameObjects : ∀ oid < context.nextOid,
      (middle.withChain tasks).objects oid = context.objects oid := fun oid below =>
    (low oid (Nat.lt_of_lt_of_le below made.more)).trans (made.sameObjects oid below)
  have sameNames : ∀ oid < context.nextOid,
      (middle.withChain tasks).names oid = context.names oid := fun oid below =>
    lowNames oid (Nat.ne_of_lt (Nat.lt_add_right 2 (Nat.lt_of_lt_of_le below made.more)))
  have sameChains : (middle.withChain tasks).report.chains =
      context.report.chains ++ [middle.newChain tasks] := by
    simp only [withChain, made.report]
  have new : ∀ oid, Owned [middle.newChain tasks] oid →
      context.nextOid ≤ oid ∧ oid < middle.nextOid + 3 := by
    rintro oid ⟨chain, member, inside⟩
    rw [mem_singleton.mp member] at inside
    have more := made.more
    simp only [newChain, Chain.oids, mem_cons] at inside
    rcases inside with rfl | rfl | rfl | inside
    · exact ⟨Nat.le_add_right_of_le more, Nat.lt_succ_self _⟩
    · exact ⟨Nat.le_add_right_of_le more, Nat.lt_succ_of_lt (Nat.lt_succ_self _)⟩
    · exact ⟨more, Nat.lt_add_of_pos_right (Nat.succ_pos 2)⟩
    · obtain ⟨high, below, _⟩ := made.isTask oid inside
      exact ⟨high, Nat.lt_add_right 3 below⟩
  have distinct : ([middle.newChain tasks].flatMap Chain.oids).Nodup := by
    have outside : ∀ oid, middle.nextOid ≤ oid → oid ∉ tasks := fun oid high member =>
      absurd (made.isTask oid member).2.1 (Nat.not_lt.mpr high)
    simp only [flatMap_cons, flatMap_nil, append_nil, Chain.oids, newChain,
      nodup_cons, mem_cons, not_or]
    refine ⟨⟨?_, ?_, outside _ (Nat.le_add_right _ _)⟩, ⟨?_, outside _ (Nat.le_add_right _ _)⟩,
      outside _ (Nat.le_refl _), made.nodup⟩
    · exact Nat.ne_of_gt (Nat.lt_succ_self _)
    · exact Nat.ne_of_gt (Nat.lt_add_of_pos_right (Nat.succ_pos 1))
    · exact Nat.ne_of_gt (Nat.lt_succ_self _)
  have live : Live (middle.newChain tasks) 0 (middle.withChain tasks).objects
      (middle.withChain tasks).names := by
    refine ⟨by rw [show (middle.newChain tasks).tasks = tasks from rfl, length]; exact some,
      update_same _ _ _, isBootstrap, isContext, isQueue, ?_, ?_⟩
    · intro task member
      exact (made.isTask task (mem_of_mem_drop member)).2.2.below made.below low
    · intro task member
      rw [take_zero] at member
      cases member
  have sound := steady.toSound.extend [middle.newChain tasks] (middle.withChain tasks).objects
    (middle.withChain tasks).names (Nat.le_add_right_of_le made.more) sameObjects sameNames
    (by
      intro oid high
      have later : middle.nextOid + 2 < oid := high
      rw [others oid (Nat.ne_of_gt (by grind)) (Nat.ne_of_gt (by grind)) (Nat.ne_of_gt later)]
      exact made.below oid (by grind))
    distinct new
    (by
      intro number oid high bound
      by_cases same : number = middle.nextOid + 2
      · subst same
        simp only [withChain, update_same] at bound
        cases bound
        exact ⟨rfl, .inl ⟨_, mem_singleton.mpr rfl, rfl⟩⟩
      · rw [lowNames number same, steady.unnamed high] at bound
        cases bound)
    (by
      intro oid handle high found free
      refine absurd ⟨_, mem_singleton.mpr rfl, ?_⟩ free
      by_cases third : oid = middle.nextOid + 2
      · rw [third]
        exact mem_oids_bootstrap (middle.newChain tasks)
      by_cases second : oid = middle.nextOid + 1
      · rw [second]
        exact mem_oids_context (middle.newChain tasks)
      by_cases first : oid = middle.nextOid
      · rw [first]
        exact mem_oids_queue (middle.newChain tasks)
      rw [others oid first second third] at found
      exact mem_oids_task (made.handles oid handle high found))
  refine steady.extend facts [middle.newChain tasks] [⟨.coordinator (middle.nextOid + 1), 0⟩]
    sameObjects sameNames sound (Nat.le_add_right_of_le made.more)
    (fun oid owned => (new oid owned).1)
    (made.coherent.withChain tasks) sameChains ?_ ?_ ?_ ?_
  · intro chain member
    rw [mem_singleton.mp member]
    exact live
  · simp only [withChain, made.report]
  · simp only [withChain, made.submitted]
  · intro task member
    rw [mem_singleton.mp member]
    exact ⟨middle.newChain tasks, mem_append_right _ (mem_singleton.mpr rfl), rfl⟩

/-- The application schedules no empty chain. -/
def Request.Filled : Request → Prop
  | .schedule | .schedulePeriodic | .cancel _ => True
  | .scheduleChain count => 0 < count

theorem performAll_steady (facts : ∀ chain ∈ before, ChainFact chain (fact chain))
    (requests : List Request) (filled : ∀ request ∈ requests, request.Filled) :
    Machine.Keeps (Steady before fact floor executed) (performAll requests) := by
  induction requests with
  | nil => exact .pure ()
  | cons request rest ih =>
    refine .bind ?_ fun _ => ih fun other member => filled other (mem_cons_of_mem _ member)
    cases request with
    | schedule =>
      intro context steady
      rw [show perform .schedule context = _ from scheduleDurableTask_ends context]
      exact steady.withTask facts false (fun report => { report with
          scheduled := report.scheduled ++ [context.nextOid + 1] }) rfl rfl
    | schedulePeriodic =>
      intro context steady
      rw [show perform .schedulePeriodic context = _ from schedulePeriodicDurableTask_ends context]
      exact steady.withTask facts true (fun report => { report with
          periodic := report.periodic ++ [context.nextOid + 1] }) rfl rfl
    | cancel oid => exact cancelTask_steady facts oid
    | scheduleChain count =>
      exact scheduleDurableTaskChain_steady facts (filled _ mem_cons_self)

end Gzochi.DurableTask
