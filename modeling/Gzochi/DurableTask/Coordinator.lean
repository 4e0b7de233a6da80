import Gzochi.DurableTask.Chains
import Mathlib.Data.List.Pairwise

/-!
# The coordinator of a chain

A committed execution of the coordinator takes the first task off the queue of its chain
and executes it.  With the last task, or after the coordinator has failed for good, all
that belongs to the chain is removed.
-/

namespace Gzochi.DurableTask

open Lib List Machine
open Data (Oid update update_same update_other update_unchanged update_update)

variable {context after : Context} {oid : Oid} {object : Object}

/-- The object is in the store, and in memory at most as it is there. -/
def Agrees (context : Context) (oid : Oid) (object : Object) : Prop :=
  context.objects oid = some object ∧
    (context.reference oid = none ∨
      ∃ modified, context.reference oid = some (.fetched object modified))

/-- Nothing but the given objects has changed, in the store and in memory. -/
structure Frame (inside : Oid → Prop) (context after : Context) : Prop where
  objects : ∀ oid, ¬ inside oid → after.objects oid = context.objects oid
  reference : ∀ oid, ¬ inside oid → after.reference oid = context.reference oid
  nextOid : after.nextOid = context.nextOid
  submitted : after.submitted = context.submitted
  report : after.report = context.report

theorem Frame.trans {inside : Oid → Prop} {middle : Context} (first : Frame inside context middle)
    (second : Frame inside middle after) : Frame inside context after where
  objects oid outside := (second.objects oid outside).trans (first.objects oid outside)
  reference oid outside := (second.reference oid outside).trans (first.reference oid outside)
  nextOid := second.nextOid.trans first.nextOid
  submitted := second.submitted.trans first.submitted
  report := second.report.trans first.report

theorem Frame.weaken {inside wider : Oid → Prop} (frame : Frame inside context after)
    (implies : ∀ oid, inside oid → wider oid) : Frame wider context after where
  objects oid outside := frame.objects oid fun within => outside (implies oid within)
  reference oid outside := frame.reference oid fun within => outside (implies oid within)
  nextOid := frame.nextOid
  submitted := frame.submitted
  report := frame.report

theorem Frame.agrees {inside : Oid → Prop} (frame : Frame inside context after)
    (outside : ¬ inside oid) (agrees : Agrees context oid object) : Agrees after oid object :=
  ⟨(frame.objects oid outside).trans agrees.1, by
    rw [frame.reference oid outside]
    exact agrees.2⟩

/-- One object is replaced, in the store and in memory. -/
theorem frame_replace (context : Context) (oid : Oid) (content : Option Object)
    (reference : Option Reference) :
    Frame (· = oid) context { context with
        objects := update context.objects oid content
        reference := update context.reference oid reference } where
  objects _ apart := update_other _ _ apart
  reference _ apart := update_other _ _ apart
  nextOid := rfl
  submitted := rfl
  report := rfl

theorem Coherent.agrees (coherent : Coherent context) (found : context.objects oid = some object) :
    Agrees context oid object := by
  refine ⟨found, ?_⟩
  cases looked : context.reference oid with
  | none => exact .inl rfl
  | some reference =>
    cases reference with
    | removed content => exact absurd looked (coherent.unremoved oid content)
    | fetched content modified =>
      have same := coherent.fetched oid content modified looked
      rw [found] at same
      cases same
      exact .inr ⟨modified, rfl⟩

/-- After a dereference the object is in memory. -/
theorem Agrees.dereference (agrees : Agrees context oid object) :
    ∃ modified, dereference oid context = .ok object { context with
          reference := update context.reference oid (some (.fetched object modified)) } := by
  obtain ⟨found, looked | ⟨modified, looked⟩⟩ := agrees
  · exact ⟨false, by simp only [DurableTask.dereference, looked, found]⟩
  · refine ⟨modified, ?_⟩
    simp only [DurableTask.dereference, looked, update_present looked]

variable {handle : Handle}

theorem Agrees.handleOf (agrees : Agrees context oid (.handle handle)) :
    ∃ modified, handleOf oid context = .ok handle { context with
          reference := update context.reference oid
            (some (.fetched (.handle handle) modified)) } := by
  obtain ⟨modified, ended⟩ := agrees.dereference
  exact ⟨modified, by simp only [DurableTask.handleOf, bind_apply, ended]; rfl⟩

variable {tasks : List Oid}

theorem Agrees.queueOf (agrees : Agrees context oid (.queue tasks)) : queueOf oid context =
      .ok tasks { context with
          reference := update context.reference oid (some (.fetched (.queue tasks) true)) } := by
  obtain ⟨modified, ended⟩ := agrees.dereference
  simp [DurableTask.queueOf, dereferenceForUpdate, ended, mark, update_present agrees.1,
    update_update]

theorem Agrees.chainContextOf {bootstrap chain : Oid}
    (agrees : Agrees context oid (.chainContext bootstrap chain)) :
    ∃ modified, chainContextOf oid context = .ok (bootstrap, chain) { context with
          reference := update context.reference oid
            (some (.fetched (.chainContext bootstrap chain) modified)) } := by
  obtain ⟨modified, ended⟩ := agrees.dereference
  exact ⟨modified, by simp only [DurableTask.chainContextOf, bind_apply, ended]; rfl⟩

theorem Agrees.removeObject (agrees : Agrees context oid object) :
    ∃ content, removeObject oid context = .ok () { context with
          objects := update context.objects oid none
          reference := update context.reference oid (some (.removed content)) } := by
  obtain ⟨found, looked | ⟨modified, looked⟩⟩ := agrees
  · exact ⟨none, by simp [DurableTask.removeObject, looked, found]⟩
  · exact ⟨some object, by simp only [DurableTask.removeObject, looked]⟩

/-- The queue is in memory and will be stored. -/
def Popped (context : Context) (queue task : Oid) (handle : Handle) (rest : List Oid)
    (modified : Bool) : Context :=
  { context with
    objects := update context.objects queue (some (.queue rest))
    reference := update (update context.reference queue (some (.fetched (.queue rest) true))) task
      (some (.fetched (.handle handle) modified)) }

variable {task : Oid}

theorem popTask_ends {queue : Oid}
    (held : context.reference queue = some (.fetched (.queue tasks) true)) (apart : task ≠ queue)
    (agrees : Agrees context task (.handle handle)) (rest : List Oid) :
    ∃ modified, popTask queue task rest context =
      .ok handle (Popped context queue task handle rest modified) := by
  have assigned : assign queue (.queue rest) context = .ok ()
      { context with
        objects := update context.objects queue (some (.queue rest))
        reference := update context.reference queue (some (.fetched (.queue rest) true)) } := by
    simp only [assign, held, if_true]
  have later := (frame_replace context queue (some (.queue rest))
    (some (.fetched (.queue rest) true))).agrees apart agrees
  obtain ⟨modified, ended⟩ := later.handleOf
  refine ⟨modified, ?_⟩
  have marked : mark queue (Popped context queue task handle rest modified) =
      .ok () (Popped context queue task handle rest modified) := by
    have looked : (Popped context queue task handle rest modified).reference queue =
        some (.fetched (.queue rest) true) := by
      simp only [Popped, update_other _ _ (Ne.symm apart), update_same]
    have stored : (Popped context queue task handle rest modified).objects queue =
        some (.queue rest) := update_same _ _ _
    simp only [mark, looked, update_present looked, update_present stored]
  have fetched : handleOf task
      { context with
        objects := update context.objects queue (some (.queue rest))
        reference := update context.reference queue (some (.fetched (.queue rest) true)) } =
      .ok handle (Popped context queue task handle rest modified) := ended
  simp only [popTask, bind_apply, assigned, fetched, marked, pure_apply]

theorem frame_popped (context : Context) (queue task : Oid) (handle : Handle) (rest : List Oid)
    (modified : Bool) :
    Frame (fun oid => oid = queue ∨ oid = task) context
      (Popped context queue task handle rest modified) where
  objects oid apart := update_other _ _ fun same => apart (.inl same)
  reference oid apart := by
    simp only [Popped, update_other _ _ fun same => apart (.inr same),
      update_other _ _ fun same => apart (.inl same)]
  nextOid := rfl
  submitted := rfl
  report := rfl

/-- All tasks of the queue are removed. -/
theorem drainQueue_ends {queue : Oid} (nodup : tasks.Nodup) (apart : queue ∉ tasks)
    (held : context.reference queue = some (.fetched (.queue tasks) true))
    (stored : context.objects queue = some (.queue tasks))
    (present : ∀ task ∈ tasks, ∃ handle, Agrees context task (.handle handle)) :
    ∃ after, drainQueue queue tasks context = .ok () after ∧
      Frame (fun oid => oid = queue ∨ oid ∈ tasks) context after ∧ after.names = context.names ∧
      Agrees after queue (.queue []) ∧ ∀ task ∈ tasks, after.objects task = none := by
  induction tasks generalizing context with
  | nil =>
    exact ⟨context, rfl, ⟨fun _ _ => rfl, fun _ _ => rfl, rfl, rfl, rfl⟩, rfl,
      ⟨stored, .inr ⟨true, held⟩⟩, fun _ member => absurd member not_mem_nil⟩
  | cons task rest ih =>
    obtain ⟨handle, agrees⟩ := present task mem_cons_self
    have taskApart : task ≠ queue := fun same => apart (same ▸ mem_cons_self)
    have unrepeated : task ∉ rest := (nodup_cons.mp nodup).1
    obtain ⟨modified, popped⟩ := popTask_ends held taskApart agrees rest
    have taskThere : Agrees (Popped context queue task handle rest modified) task
        (.handle handle) :=
      ⟨by simp only [Popped, update_other _ _ taskApart, agrees.1],
        .inr ⟨modified, update_same _ _ _⟩⟩
    obtain ⟨content, removed⟩ := taskThere.removeObject
    let last : Context :=
      { Popped context queue task handle rest modified with
        objects := update (Popped context queue task handle rest modified).objects task none
        reference := update (Popped context queue task handle rest modified).reference task
          (some (.removed content)) }
    have frame : Frame (fun oid => oid = queue ∨ oid = task) context last :=
      (frame_popped context queue task handle rest modified).trans
        ((frame_replace _ task none (some (.removed content))).weaken fun _ => .inr)
    have lastHeld : last.reference queue = some (.fetched (.queue rest) true) := by
      simp only [last, Popped, update_other _ _ (Ne.symm taskApart), update_same]
    have lastStored : last.objects queue = some (.queue rest) := by
      simp only [last, Popped, update_other _ _ (Ne.symm taskApart), update_same]
    obtain ⟨after, drained, later, sameNames, emptied, gone⟩ := ih (nodup_cons.mp nodup).2
      (fun member => apart (mem_cons_of_mem _ member)) lastHeld lastStored (by
        intro other member
        obtain ⟨content, there⟩ := present other (mem_cons_of_mem _ member)
        refine ⟨content, frame.agrees ?_ there⟩
        rintro (rfl | rfl)
        · exact apart (mem_cons_of_mem _ member)
        · exact unrepeated member)
    refine ⟨after, ?_, ?_, sameNames, emptied, ?_⟩
    · simp only [drainQueue, bind_apply, popped, removed]
      exact drained
    · refine (frame.weaken ?_).trans (later.weaken ?_)
      · rintro other (same | rfl)
        · exact .inl same
        · exact .inr mem_cons_self
      · rintro other (same | member)
        · exact .inl same
        · exact .inr (mem_cons_of_mem _ member)
    · intro other member
      rcases mem_cons.mp member with rfl | member
      · rw [later.objects other (not_or.mpr ⟨taskApart, unrepeated⟩)]
        exact update_same _ _ _
      · exact gone other member

variable {chain : Chain}

variable {queued : List Oid}

/-- All that is left of a chain is removed. -/
theorem cleanupCoordinatorTask_ends (nodup : chain.oids.Nodup) (inside : queued.Sublist chain.tasks)
    (contextThere : Agrees context chain.context (.chainContext chain.bootstrap chain.queue))
    (bound : context.names chain.bootstrap = some chain.bootstrap)
    (bootstrap : ∃ handle, Agrees context chain.bootstrap (.handle handle))
    (queueThere : Agrees context chain.queue (.queue queued))
    (present : ∀ task ∈ queued, ∃ handle, Agrees context task (.handle handle))
    (absent : ∀ task ∈ chain.tasks, task ∉ queued → context.objects task = none) :
    ∃ after,
      cleanupCoordinatorTask chain.context chain.bootstrap chain.queue context = .ok () after ∧
      Frame (· ∈ chain.oids) context after ∧
      after.names = update context.names chain.bootstrap none ∧
      Finished chain after.objects after.names := by
  simp only [Chain.oids, nodup_cons, mem_cons, not_or] at nodup
  obtain ⟨⟨bootContext, bootQueue, bootTask⟩, ⟨contextQueue, contextTask⟩, queueTask, nodup⟩ :=
    nodup
  obtain ⟨handle, bootstrap⟩ := bootstrap
  obtain ⟨content, removedBootstrap⟩ := bootstrap.removeObject
  let unbound : Context :=
    { context with
      objects := update context.objects chain.bootstrap none
      names := update context.names chain.bootstrap none
      reference := update context.reference chain.bootstrap (some (.removed content)) }
  have unbinds : removeBinding chain.bootstrap
      { context with
        objects := update context.objects chain.bootstrap none
        reference := update context.reference chain.bootstrap (some (.removed content)) } =
      .ok () unbound := by
    simp [removeBinding, bound, unbound]
  have frame : Frame (· = chain.bootstrap) context unbound :=
    { frame_replace context chain.bootstrap none (some (.removed content)) with }
  have queueThere := frame.agrees (Ne.symm bootQueue) queueThere
  have contextThere := frame.agrees (Ne.symm bootContext) contextThere
  have outsideQueued : ∀ task ∈ queued, task ≠ chain.bootstrap ∧ task ≠ chain.context ∧
      task ≠ chain.queue := fun task member =>
    ⟨fun same => bootTask (same ▸ inside.subset member),
      fun same => contextTask (same ▸ inside.subset member),
      fun same => queueTask (same ▸ inside.subset member)⟩
  let held : Context :=
    { unbound with
      reference := update unbound.reference chain.queue (some (.fetched (.queue queued) true)) }
  have holds : queueOf chain.queue unbound = .ok queued held := queueThere.queueOf
  have frameHeld : Frame (· = chain.queue) unbound held :=
    ⟨fun _ _ => rfl, fun _ apart => update_other _ _ apart, rfl, rfl, rfl⟩
  have inMemory : held.reference chain.queue = some (.fetched (.queue queued) true) :=
    update_same _ _ _
  have stored : held.objects chain.queue = some (.queue queued) := queueThere.1
  obtain ⟨drained, drains, frameDrained, sameNames, emptied, gone⟩ :=
    drainQueue_ends (inside.nodup nodup) (fun member => (outsideQueued _ member).2.2 rfl)
      inMemory stored (by
        intro task member
        obtain ⟨handle, there⟩ := present task member
        obtain ⟨first, _, second⟩ := outsideQueued task member
        exact ⟨handle, frameHeld.agrees second (frame.agrees first there)⟩)
  obtain ⟨queueContent, removedQueue⟩ := emptied.removeObject
  have frameQueue := frame_replace drained chain.queue none (some (.removed queueContent))
  have contextLast := frameQueue.agrees contextQueue (frameDrained.agrees
    (not_or.mpr ⟨contextQueue, fun member => (outsideQueued _ member).2.1 rfl⟩)
    (frameHeld.agrees contextQueue contextThere))
  obtain ⟨contextContent, removedContext⟩ := contextLast.removeObject
  have frameContext := frame_replace
    { drained with
      objects := update drained.objects chain.queue none
      reference := update drained.reference chain.queue (some (.removed queueContent)) }
    chain.context none (some (.removed contextContent))
  have beforeDrain : Frame (fun oid => oid = chain.bootstrap ∨ oid = chain.queue ∨ oid ∈ queued)
      context drained := by
    refine (frame.weaken fun _ => .inl).trans
      ((frameHeld.weaken fun _ same => .inr (.inl same)).trans
      (frameDrained.weaken fun _ => .inr))
  have drainedInside : Frame (· ∈ chain.oids) context drained := by
    refine beforeDrain.weaken ?_
    rintro oid (rfl | rfl | member)
    · exact mem_oids_bootstrap chain
    · exact mem_oids_queue chain
    · exact mem_oids_task (inside.subset member)
  have whole := drainedInside.trans
    ((frameQueue.weaken fun oid same => same ▸ mem_oids_queue chain).trans
      (frameContext.weaken fun oid same => same ▸ mem_oids_context chain))
  refine ⟨_, ?_, whole, ?_, ?_⟩
  · simp only [cleanupCoordinatorTask, bind_apply, removedBootstrap, unbinds, holds, drains,
      removedQueue, removedContext]
  · exact sameNames
  · refine ⟨(congrFun sameNames chain.bootstrap).trans (update_same _ _ _), ?_⟩
    have last : ∀ oid, oid ≠ chain.queue → oid ≠ chain.context →
        update (update drained.objects chain.queue none) chain.context none oid =
          drained.objects oid := by
      intro oid first second
      rw [update_other _ _ second, update_other _ _ first]
    intro oid member
    by_cases isContext : oid = chain.context
    · rw [isContext]
      exact update_same _ _ _
    by_cases isQueue : oid = chain.queue
    · rw [isQueue]
      exact (update_other _ _ (Ne.symm contextQueue)).trans (update_same _ _ _)
    refine (last oid isQueue isContext).trans ?_
    by_cases isQueued : oid ∈ queued
    · exact gone oid isQueued
    · rw [frameDrained.objects oid (not_or.mpr ⟨isQueue, isQueued⟩)]
      by_cases isBootstrap : oid = chain.bootstrap
      · rw [isBootstrap]
        exact update_same _ _ _
      · refine (frame.objects oid isBootstrap).trans ?_
        simp only [Chain.oids, mem_cons, isBootstrap, isContext, isQueue, false_or] at member
        exact absent oid member isQueued

section

variable {chains : List Chain} {objects : Oid → Option Object} {names : Oid → Option Oid}
  {nextOid : Oid}

variable (sound : Sound chains objects names nextOid)
include sound

theorem Sound.nodup {chain : Chain} (member : chain ∈ chains) : chain.oids.Nodup :=
  (nodup_flatMap.mp sound.distinct).1 chain member

theorem Sound.disjoint {first second : Chain}
    (firstMember : first ∈ chains) (secondMember : second ∈ chains) (apart : first ≠ second)
    (inside : oid ∈ first.oids) : oid ∉ second.oids := by
  have pairs := (nodup_flatMap.mp sound.distinct).2
  have : Std.Symm (Function.onFun List.Disjoint Chain.oids) :=
    ⟨fun _ _ disjoint => disjoint_symm disjoint⟩
  exact fun also => pairs.forall firstMember secondMember apart inside also

/-- Chains change, and the rest of the store does not. -/
theorem Sound.inside {objects' : Oid → Option Object} {names' : Oid → Option Oid}
    (sameObjects : ∀ oid, ¬ Owned chains oid → objects' oid = objects oid)
    (sameNames : ∀ oid, ¬ Owned chains oid → names' oid = names oid)
    (fewer : ∀ number oid, names' number = some oid → names number = some oid) :
    Sound chains objects' names' nextOid where
  distinct := sound.distinct
  old := sound.old
  below oid high := by
    rw [sameObjects oid fun owned => absurd (sound.old oid owned) (Nat.not_lt.mpr high)]
    exact sound.below oid high
  named number oid bound := by
    obtain ⟨same, origin⟩ := sound.named number oid (fewer number oid bound)
    refine ⟨same, origin.imp_right fun ⟨free, handle, found⟩ => ⟨free, handle, ?_⟩⟩
    rw [sameObjects number free]
    exact found
  plain oid handle found free := by
    rw [sameObjects oid free] at found
    obtain ⟨worker, binding, bound⟩ := sound.plain oid handle found free
    exact ⟨worker, binding, (sameNames oid free).trans bound⟩

end

variable {before : List Chain}
  {fact fact' : Chain → (Oid → Option Object) → (Oid → Option Oid) → Prop} {floor : Oid}
  {executed : List Oid}

/-- A transaction goes on inside one of the chains. -/
theorem Kept.inside (kept : Kept before fact floor executed context)
    (facts : ∀ chain ∈ before, ChainFact chain (fact chain)) (member : chain ∈ before)
    (sameObjects : ∀ oid, oid ∉ chain.oids → after.objects oid = context.objects oid)
    (sameNames : ∀ oid, oid ∉ chain.oids → after.names oid = context.names oid)
    (fewer : ∀ number oid, after.names number = some oid → context.names number = some oid)
    (data : ∀ oid ∈ chain.oids, context.objects oid ≠ some .taskData)
    (sameNextOid : after.nextOid = context.nextOid) (sameReport : after.report = context.report)
    (others : ∀ other ∈ before, other ≠ chain → fact' other = fact other)
    (own : fact' chain after.objects after.names) (known : ∀ task ∈ after.submitted,
      task.kind.Known (before ++ context.report.chains) context.nextOid) :
    Kept before fact' floor executed after := by
  have dataStays : ∀ oid, context.objects oid = some .taskData →
      after.objects oid = some .taskData := by
    intro oid found
    rw [sameObjects oid fun inside => data oid inside found]
    exact found
  have there : chain ∈ before ++ context.report.chains := mem_append_left _ member
  have apartNew : ∀ oid, Owned context.report.chains oid → oid ∉ chain.oids := by
    intro oid owned inside
    have distinct := kept.distinct
    rw [flatMap_append, nodup_append] at distinct
    exact distinct.2.2 oid (mem_flatMap_oids.mpr ⟨chain, member, inside⟩) oid
      (mem_flatMap_oids.mpr owned) rfl
  have sound : Sound (before ++ context.report.chains) after.objects after.names context.nextOid :=
    kept.toSound.inside (fun oid free => sameObjects oid fun inside => free ⟨chain, there, inside⟩)
      (fun oid free => sameNames oid fun inside => free ⟨chain, there, inside⟩) fewer
  refine ⟨by rw [sameReport, sameNextOid]; exact sound, ?_, ?_, by rw [sameNextOid]; exact kept.low,
    by rw [sameReport]; exact kept.recent, by rw [sameReport]; exact kept.sameExecuted,
    by rw [sameReport, sameNextOid]; exact known⟩
  · intro other otherMember
    by_cases same : other = chain
    · rw [same]
      exact own
    · rw [others other otherMember same]
      have apart : ∀ oid ∈ other.oids, oid ∉ chain.oids := fun oid inside =>
        kept.toSound.disjoint (mem_append_left _ otherMember) there same inside
      exact (facts other otherMember).stable (kept.held other otherMember)
        (fun oid inside => sameObjects oid (apart oid inside))
        (sameNames _ (apart _ (mem_oids_bootstrap other))) dataStays
  · intro other otherMember
    rw [sameReport] at otherMember
    have apart : ∀ oid ∈ other.oids, oid ∉ chain.oids := fun oid inside =>
      apartNew oid ⟨other, otherMember, inside⟩
    exact (live_fact other 0).stable (kept.fresh other otherMember)
      (fun oid inside => sameObjects oid (apart oid inside))
      (sameNames _ (apart _ (mem_oids_bootstrap other))) dataStays

variable {objects : Oid → Option Object} {names : Oid → Option Oid}

theorem Sound.remove {chains : List Chain} {nextOid : Oid}
    (sound : Sound chains objects names nextOid) :
    Sound chains (update objects oid none) (update names oid none) nextOid where
  distinct := sound.distinct
  old := sound.old
  below other high := by
    by_cases same : other = oid
    · rw [same]
      exact update_same _ _ _
    · rw [update_other _ _ same]
      exact sound.below other high
  named number target bound := by
    by_cases same : number = oid
    · rw [same, update_same] at bound
      cases bound
    · rw [update_other _ _ same] at bound
      obtain ⟨own, origin⟩ := sound.named number target bound
      refine ⟨own, origin.imp_right fun ⟨unowned, handle, found⟩ => ⟨unowned, handle, ?_⟩⟩
      rw [update_other _ _ same]
      exact found
  plain other handle found unowned := by
    by_cases same : other = oid
    · rw [same, update_same] at found
      cases found
    · rw [update_other _ _ same] at found
      obtain ⟨worker, binding, bound⟩ := sound.plain other handle found unowned
      exact ⟨worker, binding, by rw [update_other _ _ same, bound]⟩

/-- An id from before the transaction that belongs to no chain. -/
theorem Kept.free (kept : Kept before fact floor executed context) (free : ¬ Owned before oid)
    (low : oid < floor) : ¬ Owned (before ++ context.report.chains) oid := by
  intro owned
  rcases owned_append.mp owned with old | new
  · exact free old
  · exact absurd (kept.recent oid new) (Nat.not_le.mpr low)

theorem Kept.remove (kept : Kept before fact floor executed context)
    (facts : ∀ chain ∈ before, ChainFact chain (fact chain))
    (free : ¬ Owned (before ++ context.report.chains) oid)
    (found : context.objects oid = some (.handle handle)) (reference : Oid → Option Reference) :
    Kept before fact floor executed { context with
        objects := update context.objects oid none
        names := update context.names oid none
        reference := reference } := by
  have apart : ∀ other, Owned (before ++ context.report.chains) other → other ≠ oid :=
    fun other owned same => free (same ▸ owned)
  refine kept.elsewhere facts kept.toSound.remove
    (fun other owned => update_other _ _ (apart other owned))
    (fun other owned => update_other _ _ (apart other owned)) ?_ (Nat.le_refl _) rfl rfl kept.known
  intro other data
  have apart : other ≠ oid := by
    rintro rfl
    rw [found] at data
    cases data
  exact (update_other _ _ apart).trans data

theorem Steady.withReference (steady : Steady before fact floor executed context)
    {reference : Oid → Option Reference}
    (coherent : Coherent { context with reference := reference }) :
    Steady before fact floor executed { context with reference := reference } :=
  { toKept := { steady.toKept with }
    toCoherent := coherent }

theorem finishTask_kept (facts : ∀ chain ∈ before, ChainFact chain (fact chain))
    (free : ¬ Owned before oid) (low : oid < floor) :
    Triple (Steady before fact floor executed) (finishTask oid)
      (fun _ => Kept before fact floor executed) fun _ => True := by
  intro context steady
  have unowned := steady.toKept.free free low
  cases handleOf_cases steady.toCoherent oid with
  | missing found =>
    simp only [finishTask, bind_apply, handleOf_missing steady.toCoherent found]
  | held handle found =>
    obtain ⟨_, binding, named⟩ := steady.plain oid handle found unowned
    obtain ⟨reference, ended, holds, modified, fetched⟩ :=
      handleOf_found steady.toCoherent found
    cases repeats : handle.repeats with
    | true =>
      have marked : mark oid { context with reference := reference } = .ok () { context with
            reference := update reference oid (some (.fetched (.handle handle) true)) } := by
        simp [mark, fetched, update_present found]
      obtain ⟨later, coherent, scheduled⟩ :=
        scheduleDurableTaskHandle_ends (holds.fetch found true) found binding named
      simp only [finishTask, bind_apply, ended, repeats, if_true, marked, scheduled,
        note, Machine.modify]
      refine steady.toKept.elsewhere facts steady.toSound (fun _ _ => rfl) (fun _ _ => rfl)
        (fun _ => id) (Nat.le_refl _) rfl rfl ?_
      intro task member
      rcases mem_append.mp member with old | new
      · exact steady.known task old
      · rw [mem_singleton.mp new]
        exact ⟨Nat.lt_of_lt_of_le low steady.low, fun chain there inside =>
          absurd ⟨chain, there, inside⟩ unowned⟩
    | false =>
      obtain ⟨later, removed⟩ := removeDurableTask_ends holds found binding named
      simp only [finishTask, bind_apply, ended, repeats, Bool.false_eq_true,
        if_false, Machine.attempt, removed, pure_apply]
      exact steady.toKept.remove facts unowned found later
  | other ended => simp only [finishTask, bind_apply, ended]

/-- A transaction that has executed one task at most. -/
def Executes (before : List Chain)
    (fact : Chain → (Oid → Option Object) → (Oid → Option Oid) → Prop) (floor oid : Oid)
    (context : Context) : Prop :=
  Kept before fact floor [] context ∨ Kept before fact floor [oid] context

theorem durableTaskApplicationWorker_missing (coherent : Coherent context)
    (missing : context.objects oid = none) (requests : List Request) :
    durableTaskApplicationWorker requests oid context = .ok () context := by
  simp only [durableTaskApplicationWorker, bind_apply, Machine.attempt,
    handleOf_missing coherent missing, pure_apply]

theorem durableTaskApplicationWorker_kept
    (facts : ∀ chain ∈ before, ChainFact chain (fact chain)) (requests : List Request)
    (filled : ∀ request ∈ requests, request.Filled) (free : ¬ Owned before oid)
    (low : oid < floor) :
    Triple (Steady before fact floor []) (durableTaskApplicationWorker requests oid)
      (fun _ => Executes before fact floor oid) fun _ => True := by
  intro context steady
  cases handleOf_cases steady.toCoherent oid with
  | missing found =>
    rw [durableTaskApplicationWorker_missing steady.toCoherent found]
    exact .inl steady.toKept
  | held handle found =>
    obtain ⟨worker, _⟩ := steady.plain oid handle found (steady.toKept.free free low)
    obtain ⟨first, ended, coherent, _⟩ := handleOf_found steady.toCoherent found
    have looked := steady.withReference coherent
    cases data : context.objects handle.taskData with
    | none =>
      simp only [durableTaskApplicationWorker, bind_apply, Machine.attempt, ended,
        dereference_missing coherent data, pure_apply]
      exact .inl looked.toKept
    | some content =>
      obtain ⟨second, fetched, coherent, _⟩ := dereference_found coherent data
      simp only [durableTaskApplicationWorker, bind_apply, Machine.attempt, ended,
        fetched, runWorker, worker, note, Machine.modify]
      have started : Steady before fact floor [oid] { context with
          reference := second
          report := { context.report with executed := context.report.executed ++ [oid] } } :=
        { toKept := { steady.toKept with
            sameExecuted := by simp [steady.sameExecuted] }
          toCoherent := { coherent with } }
      have rest : Triple (Steady before fact floor [oid])
          (performAll requests >>= fun _ => finishTask oid)
          (fun _ => Executes before fact floor oid) fun _ => True := .bind
        ((performAll_steady facts requests filled).weaken (fun _ holds => holds)
          (fun _ _ holds => holds) fun _ _ => trivial)
        fun _ => (finishTask_kept facts free low).weaken (fun _ holds => holds)
          (fun _ _ => .inr) fun _ _ => trivial
      exact rest _ started
  | other ended => simp only [durableTaskApplicationWorker, bind_apply, Machine.attempt, ended]

theorem durableTaskCatchWorker_missing (coherent : Coherent context)
    (missing : context.objects oid = none) :
    durableTaskCatchWorker oid context = .ok () context := by
  simp only [durableTaskCatchWorker, bind_apply, Machine.attempt,
    removeDurableTask_missing coherent missing, pure_apply]

theorem durableTaskCatchWorker_kept (facts : ∀ chain ∈ before, ChainFact chain (fact chain))
    (free : ¬ Owned before oid) (low : oid < floor) :
    Triple (Steady before fact floor executed) (durableTaskCatchWorker oid)
      (fun _ => Kept before fact floor executed) fun _ => True := by
  intro context steady
  have unowned := steady.toKept.free free low
  cases handleOf_cases steady.toCoherent oid with
  | missing found =>
    rw [durableTaskCatchWorker_missing steady.toCoherent found]
    exact steady.toKept
  | held handle found =>
    obtain ⟨_, binding, named⟩ := steady.plain oid handle found unowned
    obtain ⟨reference, removed⟩ :=
      removeDurableTask_ends steady.toCoherent found binding named
    simp only [durableTaskCatchWorker, bind_apply, Machine.attempt, removed, pure_apply]
    exact steady.toKept.remove facts unowned found reference
  | other ended =>
    simp only [durableTaskCatchWorker, bind_apply, Machine.attempt, removeDurableTask, ended]

theorem facts_update (facts : ∀ chain ∈ before, ChainFact chain (fact chain))
    {own : (Oid → Option Object) → (Oid → Option Oid) → Prop} (isFact : ChainFact chain own) :
    ∀ other ∈ before, ChainFact other (Function.update fact chain own other) := by
  intro other member
  by_cases same : other = chain
  · subst same
    rw [Function.update_self]
    exact isFact
  · rw [Function.update_of_ne same]
    exact facts other member

variable {done : Nat}

theorem Stage.no_data (stage : Stage chain done queued objects names) :
    ∀ oid ∈ chain.oids, objects oid ≠ some .taskData := by
  intro oid member found
  simp only [Chain.oids, mem_cons] at member
  rcases member with rfl | rfl | rfl | member
  · rw [stage.bootstrap] at found
    cases found
  · rw [stage.context] at found
    cases found
  · rw [stage.queue] at found
    cases found
  · rw [← take_append_drop done chain.tasks] at member
    rcases mem_append.mp member with early | late
    · rw [stage.removed oid early] at found
      cases found
    · obtain ⟨taskData, handle, _⟩ := stage.waiting oid late
      rw [handle] at found
      cases found

/-- The first task is taken off the queue of a chain. -/
theorem coordinatorWorker_pops (facts : ∀ chain ∈ before, ChainFact chain (fact chain))
    (member : chain ∈ before) (steady : Steady before fact floor executed context)
    (live : Live chain done context.objects context.names) (requests : List Request) :
    ∃ task handle middle, chain.tasks[done]? = some task ∧
      Steady before (Function.update fact chain (Stage chain done (chain.tasks.drop (done + 1))))
        floor executed middle ∧
      middle.objects task = some (.handle handle) ∧
      (∃ modified, middle.reference task = some (.fetched (.handle handle) modified)) ∧
      coordinatorWorker requests chain.context context =
        runChainTask requests chain.context chain.bootstrap chain.queue task
          (chain.tasks.drop (done + 1)) handle middle := by
  have nodup := steady.toSound.nodup (mem_append_left _ member)
  simp only [Chain.oids, nodup_cons, mem_cons, not_or] at nodup
  obtain ⟨⟨bootContext, bootQueue, bootTask⟩, ⟨contextQueue, contextTask⟩, queueTask, nodup⟩ :=
    nodup
  have first : chain.tasks.drop done = chain.tasks.get ⟨done, live.unfinished⟩ ::
      chain.tasks.drop (done + 1) := drop_eq_getElem_cons live.unfinished
  have inside : chain.tasks.get ⟨done, live.unfinished⟩ ∈ chain.tasks := get_mem _ _
  have waits := live.waiting _ (first ▸ mem_cons_self)
  have queued := live.queue
  have isFirst : chain.tasks[done]? = some (chain.tasks.get ⟨done, live.unfinished⟩) :=
    List.getElem?_eq_getElem live.unfinished
  rw [first] at queued
  generalize chain.tasks.get ⟨done, live.unfinished⟩ = task at first inside waits queued isFirst
  obtain ⟨data, found, dataThere⟩ := waits
  have taskApart : task ≠ chain.queue := fun same => queueTask (same ▸ inside)
  obtain ⟨modified, looked⟩ := (steady.toCoherent.agrees live.context).chainContextOf
  have coherent := steady.toCoherent.fetch live.context modified
  have holds := (coherent.agrees queued).queueOf
  have coherent := coherent.fetch queued true
  obtain ⟨modified, popped⟩ := popTask_ends (update_same _ _ _) taskApart (coherent.agrees found)
    (chain.tasks.drop (done + 1))
  have foundAfter : update context.objects chain.queue (some (.queue (chain.tasks.drop (done + 1))))
      task = some (.handle ⟨.application, data, none, false⟩) := by
    rw [update_other _ _ taskApart]
    exact found
  have coherent := (coherent.put chain.queue (.queue (chain.tasks.drop (done + 1))) true).fetch
    foundAfter modified
  refine ⟨task, _, _, isFirst, ⟨?_, coherent⟩, foundAfter, ⟨modified, update_same _ _ _⟩, ?_⟩
  · refine steady.toKept.inside facts member
      (fun oid outside => update_other _ _ fun same => outside (same ▸ mem_oids_queue chain))
      (fun _ _ => rfl) (fun _ _ => id) live.no_data rfl rfl
      (fun other _ apart => Function.update_of_ne apart _ _) ?_ steady.known
    rw [Function.update_self]
    exact {
      unfinished := live.unfinished
      bound := live.bound
      bootstrap := (update_other _ _ bootQueue).trans live.bootstrap
      context := (update_other _ _ contextQueue).trans live.context
      queue := update_same _ _ _
      waiting := by
        intro other waits
        obtain ⟨content, handle, there⟩ := live.waiting other waits
        refine ⟨content, (update_other _ _ ?_).trans handle, (update_other _ _ ?_).trans there⟩
        · exact fun same => queueTask (same ▸ mem_of_mem_drop waits)
        · rintro rfl
          rw [queued] at there
          cases there
      removed := by
        intro other gone
        refine (update_other _ _ ?_).trans (live.removed other gone)
        exact fun same => queueTask (same ▸ mem_of_mem_take gone) }
  · simp only [coordinatorWorker, bind_apply, Machine.attempt, looked, holds, popped]
    rfl

/-- A task of a chain is removed at the end of its execution; it has no binding. -/
theorem finishTask_chain {data : Oid}
    (agrees : Agrees context oid (.handle ⟨.application, data, none, false⟩)) :
    ∃ content, finishTask oid context = .ok () { context with
          objects := update context.objects oid none
          reference := update context.reference oid (some (.removed content)) } := by
  obtain ⟨modified, ended⟩ := agrees.handleOf
  have again : handleOf oid
      { context with
        reference := update context.reference oid
          (some (.fetched (.handle ⟨.application, data, none, false⟩) modified)) } =
      .ok ⟨.application, data, none, false⟩
        { context with
          reference := update context.reference oid
            (some (.fetched (.handle ⟨.application, data, none, false⟩) modified)) } := by
    simp [handleOf, dereference]
  refine ⟨some (.handle ⟨.application, data, none, false⟩), ?_⟩
  simp [finishTask, ended, removeDurableTask, Machine.attempt, again, removeObject, update_update]

/-- One more task of the chain has been executed. -/
def Advanced (before : List Chain)
    (fact : Chain → (Oid → Option Object) → (Oid → Option Oid) → Prop) (floor : Oid)
    (chain : Chain) (done : Nat) (task : Oid) (context : Context) : Prop :=
  Kept before (Function.update fact chain (Live chain (done + 1))) floor [task] context ∨
    (done + 1 = chain.tasks.length ∧
      Kept before (Function.update fact chain (Finished chain)) floor [task] context)

/-- The end of the coordinator, after the execution of a task. -/
def coordinatorEnd (context bootstrap chain task : Oid) (rest : List Oid) :
    Machine Context Unit := do
  match ← (removeObject task).attempt with
  | none => pure ()
  | some _ =>
      match rest with
      | [] => do
          let _ ← (cleanupCoordinatorTask context bootstrap chain).attempt
          pure ()
      | next :: _ => do
          match ← (handleOf next).attempt with
          | none => pure ()
          | some _ => scheduleCoordinatorTask context

theorem Stage.tasks_left (stage : Stage chain done queued objects names)
    (isFirst : chain.tasks[done]? = some task) :
    chain.tasks.drop done = task :: chain.tasks.drop (done + 1) := by
  rw [List.getElem?_eq_getElem stage.unfinished] at isFirst
  cases isFirst
  exact drop_eq_getElem_cons stage.unfinished

theorem Stage.taken (stage : Stage chain done queued objects names)
    (isFirst : chain.tasks[done]? = some task) :
    ∀ other ∈ chain.tasks.take (done + 1), update objects task none other = none := by
  intro other early
  rw [take_add_one, isFirst] at early
  by_cases same : other = task
  · rw [same]
    exact update_same _ _ _
  · rw [update_other _ _ same]
    refine stage.removed other ?_
    simpa [same] using early

theorem Chain.task_apart (nodup : chain.oids.Nodup) (inside : task ∈ chain.tasks) :
    chain.bootstrap ≠ task ∧ chain.context ≠ task ∧ chain.queue ≠ task := by
  simp only [Chain.oids, nodup_cons, mem_cons, not_or] at nodup
  obtain ⟨⟨_, _, bootTask⟩, ⟨_, contextTask⟩, queueTask, _⟩ := nodup
  exact ⟨fun same => bootTask (same ▸ inside), fun same => contextTask (same ▸ inside),
    fun same => queueTask (same ▸ inside)⟩

theorem Stage.unrepeated (stage : Stage chain done queued objects names)
    (nodup : chain.oids.Nodup) (isFirst : chain.tasks[done]? = some task) :
    task ∉ chain.tasks.drop (done + 1) := by
  simp only [Chain.oids, nodup_cons] at nodup
  have sub := nodup.2.2.2.sublist (drop_sublist done chain.tasks)
  rw [stage.tasks_left isFirst] at sub
  exact (nodup_cons.mp sub).1

/-- Without the task that has been executed, the chain is one task further. -/
theorem Stage.live (stage : Stage chain done (chain.tasks.drop (done + 1)) objects names)
    (nodup : chain.oids.Nodup) (isFirst : chain.tasks[done]? = some task)
    (unfinished : done + 1 < chain.tasks.length) :
    Live chain (done + 1) (update objects task none) names := by
  have inside : task ∈ chain.tasks := mem_of_getElem? isFirst
  obtain ⟨bootApart, contextApart, queueApart⟩ := Chain.task_apart nodup inside
  exact {
    unfinished := unfinished
    bound := stage.bound
    bootstrap := (update_other _ _ bootApart).trans stage.bootstrap
    context := (update_other _ _ contextApart).trans stage.context
    queue := (update_other _ _ queueApart).trans stage.queue
    waiting := by
      intro other waits
      obtain ⟨data, handle, there⟩ := stage.waiting other (by
        rw [stage.tasks_left isFirst]
        exact mem_cons_of_mem _ waits)
      refine ⟨data, (update_other _ _ ?_).trans handle, (update_other _ _ ?_).trans there⟩
      · exact fun same => stage.unrepeated nodup isFirst (same ▸ waits)
      · rintro rfl
        exact stage.no_data data (mem_oids_task inside) there
    removed := stage.taken isFirst }

/-- After the last task the coordinator cleans up. -/
theorem coordinatorEnd_finished (facts : ∀ chain ∈ before, ChainFact chain (fact chain))
    (member : chain ∈ before) (isFirst : chain.tasks[done]? = some task)
    (steady : Steady before
      (Function.update fact chain (Stage chain done (chain.tasks.drop (done + 1)))) floor [task]
      context) (content : Option Object) (last : chain.tasks.drop (done + 1) = []) :
    ∃ after, coordinatorEnd chain.context chain.bootstrap chain.queue task []
        { context with
          objects := update context.objects task none
          reference := update context.reference task (some (.removed content)) } = .ok () after ∧
      Kept before (Function.update fact chain (Finished chain)) floor [task] after := by
  have nodup := steady.toSound.nodup (mem_append_left _ member)
  have stage := steady.held chain member
  rw [Function.update_self] at stage
  have inside : task ∈ chain.tasks := mem_of_getElem? isFirst
  obtain ⟨bootApart, contextApart, queueApart⟩ := Chain.task_apart nodup inside
  let removed : Context :=
    { context with
      objects := update context.objects task none
      reference := update context.reference task (some (.removed content)) }
  have frame : Frame (· = task) context removed :=
    frame_replace context task none (some (.removed content))
  have gone : removeObject task removed = .ok () removed := by
    simp [removeObject, removed]
  have bound : removed.names chain.bootstrap = some chain.bootstrap := stage.bound
  have bootstrapThere := frame.agrees bootApart (steady.toCoherent.agrees stage.bootstrap)
  have contextThere := frame.agrees contextApart (steady.toCoherent.agrees stage.context)
  have queueThere := frame.agrees queueApart (steady.toCoherent.agrees stage.queue)
  rw [last] at queueThere
  obtain ⟨after, cleaned, changed, sameNames, finished⟩ :=
    cleanupCoordinatorTask_ends nodup (nil_sublist _) contextThere bound
      ⟨_, bootstrapThere⟩ queueThere (fun _ member => absurd member not_mem_nil) (by
        intro other within _
        refine stage.taken isFirst other ?_
        rw [take_of_length_le (drop_eq_nil_iff.mp last)]
        exact within)
  refine ⟨after, ?_, ?_⟩
  · change coordinatorEnd chain.context chain.bootstrap chain.queue task [] removed = .ok () after
    simp only [coordinatorEnd, bind_apply, Machine.attempt, gone, cleaned, pure_apply]
  · have names : ∀ oid, oid ≠ chain.bootstrap → after.names oid = context.names oid := by
      intro oid apart
      rw [sameNames]
      exact update_other _ _ apart
    refine steady.toKept.inside
      (facts_update facts (stage_fact chain done (chain.tasks.drop (done + 1)))) member ?_ ?_ ?_
      stage.no_data changed.nextOid changed.report ?_ ?_ ?_
    · intro oid outside
      rw [changed.objects oid outside]
      exact update_other _ _ fun same => outside (same ▸ mem_oids_task inside)
    · exact fun oid outside => names oid fun same => outside (same ▸ mem_oids_bootstrap chain)
    · intro number oid bound
      by_cases same : number = chain.bootstrap
      · rw [same, finished.unbound] at bound
        cases bound
      · rw [← names number same]
        exact bound
    · intro other _ apart
      rw [Function.update_of_ne apart, Function.update_of_ne apart]
    · rw [Function.update_self]
      exact finished
    · rw [changed.submitted]
      exact steady.known

/-- Before the next task the coordinator schedules itself again. -/
theorem coordinatorEnd_live (facts : ∀ chain ∈ before, ChainFact chain (fact chain))
    (member : chain ∈ before) (isFirst : chain.tasks[done]? = some task)
    (steady : Steady before
      (Function.update fact chain (Stage chain done (chain.tasks.drop (done + 1)))) floor [task]
      context) (content : Option Object) {next : Oid} {rest : List Oid}
    (more : chain.tasks.drop (done + 1) = next :: rest) :
    ∃ after, coordinatorEnd chain.context chain.bootstrap chain.queue task (next :: rest)
        { context with
          objects := update context.objects task none
          reference := update context.reference task (some (.removed content)) } = .ok () after ∧
      Kept before (Function.update fact chain (Live chain (done + 1))) floor [task] after := by
  have nodup := steady.toSound.nodup (mem_append_left _ member)
  have stage := steady.held chain member
  rw [Function.update_self] at stage
  have inside : task ∈ chain.tasks := mem_of_getElem? isFirst
  let removed : Context :=
    { context with
      objects := update context.objects task none
      reference := update context.reference task (some (.removed content)) }
  have frame : Frame (· = task) context removed :=
    frame_replace context task none (some (.removed content))
  have gone : removeObject task removed = .ok () removed := by
    simp [removeObject, removed]
  obtain ⟨data, handle, there⟩ := stage.waiting next (by
    rw [stage.tasks_left isFirst, more]
    exact mem_cons_of_mem _ mem_cons_self)
  have apart : next ≠ task := fun same => stage.unrepeated nodup isFirst (by
    rw [more, ← same]
    exact mem_cons_self)
  obtain ⟨modified, looked⟩ := (frame.agrees apart (steady.toCoherent.agrees handle)).handleOf
  have ended : coordinatorEnd chain.context chain.bootstrap chain.queue task (next :: rest)
      removed = .ok ()
        { removed with
          reference := update removed.reference next
            (some (.fetched (.handle ⟨.application, data, none, false⟩) modified))
          submitted := removed.submitted ++ [⟨.coordinator chain.context, 0⟩] } := by
    simp only [coordinatorEnd, bind_apply, Machine.attempt, gone, looked]
    rfl
  refine ⟨_, ended, ?_⟩
  refine steady.toKept.inside
    (facts_update facts (stage_fact chain done (chain.tasks.drop (done + 1)))) member ?_
    (fun _ _ => rfl) (fun _ _ => id) stage.no_data rfl rfl ?_ ?_ ?_
  · exact fun oid outside => update_other _ _ fun same => outside (same ▸ mem_oids_task inside)
  · intro other _ apart
    rw [Function.update_of_ne apart, Function.update_of_ne apart]
  · rw [Function.update_self]
    refine stage.live nodup isFirst ?_
    by_contra finished
    rw [drop_eq_nil_of_le (Nat.le_of_not_lt finished)] at more
    cases more
  · intro task member
    rcases mem_append.mp member with old | new
    · exact steady.known task old
    · rw [mem_singleton.mp new]
      exact ⟨chain, mem_append_left _ ‹_›, rfl⟩

theorem coordinatorEnd_advanced (facts : ∀ chain ∈ before, ChainFact chain (fact chain))
    (member : chain ∈ before) (isFirst : chain.tasks[done]? = some task)
    (steady : Steady before
      (Function.update fact chain (Stage chain done (chain.tasks.drop (done + 1)))) floor [task]
      context) (content : Option Object) :
    ∃ after, coordinatorEnd chain.context chain.bootstrap chain.queue task
        (chain.tasks.drop (done + 1))
        { context with
          objects := update context.objects task none
          reference := update context.reference task (some (.removed content)) } = .ok () after ∧
      Advanced before fact floor chain done task after := by
  have stage := steady.held chain member
  rw [Function.update_self] at stage
  cases more : chain.tasks.drop (done + 1) with
  | nil =>
    obtain ⟨after, ended, kept⟩ :=
      coordinatorEnd_finished facts member isFirst steady content more
    exact ⟨after, ended, .inr ⟨Nat.le_antisymm stage.unfinished (drop_eq_nil_iff.mp more), kept⟩⟩
  | cons next rest =>
    obtain ⟨after, ended, kept⟩ := coordinatorEnd_live facts member isFirst steady content more
    exact ⟨after, ended, .inl kept⟩

theorem runChainTask_eq (requests : List Request) (context bootstrap chain task : Oid)
    (rest : List Oid) (handle : Handle) :
    runChainTask requests context bootstrap chain task rest handle = (do
      Machine.assert (!handle.repeats)
      mark task
      durableTaskApplicationWorker requests task
      coordinatorEnd context bootstrap chain task rest) := rfl

theorem Stage.next (stage : Stage chain done queued objects names)
    (isFirst : chain.tasks[done]? = some task) :
    ChainTask objects task := by
  refine stage.waiting task ?_
  rw [stage.tasks_left isFirst]
  exact mem_cons_self

/-- The task that has been taken off the queue is executed. -/
theorem chainTask_executed (facts : ∀ chain ∈ before, ChainFact chain (fact chain))
    (member : chain ∈ before) (isFirst : chain.tasks[done]? = some task) (requests : List Request)
    (filled : ∀ request ∈ requests, request.Filled) :
    Triple
      (Steady before (Function.update fact chain (Stage chain done (chain.tasks.drop (done + 1))))
        floor [])
      (do
        durableTaskApplicationWorker requests task
        coordinatorEnd chain.context chain.bootstrap chain.queue task (chain.tasks.drop (done + 1)))
      (fun _ => Advanced before fact floor chain done task) fun _ => True := by
  have popped := facts_update facts (stage_fact chain done (chain.tasks.drop (done + 1)))
  have stageOf : ∀ {executed : List Oid} {context : Context}, Steady before
      (Function.update fact chain (Stage chain done (chain.tasks.drop (done + 1)))) floor executed
      context → ChainTask context.objects task := by
    intro executed context steady
    have stage := steady.held chain member
    rw [Function.update_self] at stage
    exact stage.next isFirst
  intro context steady
  obtain ⟨data, found, there⟩ := stageOf steady
  obtain ⟨first, looked, coherent, _⟩ := handleOf_found steady.toCoherent found
  obtain ⟨second, fetched, coherent, _⟩ := dereference_found coherent there
  have started : Steady before
      (Function.update fact chain (Stage chain done (chain.tasks.drop (done + 1)))) floor [task]
      { context with
        reference := second
        report := { context.report with executed := context.report.executed ++ [task] } } :=
    { toKept := { steady.toKept with sameExecuted := by simp [steady.sameExecuted] }
      toCoherent := { coherent with } }
  have performed := performAll_steady popped requests filled _ started
  simp only [durableTaskApplicationWorker, bind_apply, Machine.attempt, looked, fetched,
    runWorker, note, Machine.modify]
  cases outcome : performAll requests
      { context with
        reference := second
        report := { context.report with executed := context.report.executed ++ [task] } } with
  | failed last => trivial
  | crashed => trivial
  | ok value last =>
    rw [outcome] at performed
    obtain ⟨data, found, _⟩ := stageOf performed
    obtain ⟨content, ended⟩ := finishTask_chain (performed.toCoherent.agrees found)
    obtain ⟨after, closed, advanced⟩ :=
      coordinatorEnd_advanced facts member isFirst performed content
    simp only [ended, closed]
    exact advanced

/-- The coordinator of a live chain executes its next task. -/
theorem coordinatorWorker_advanced (facts : ∀ chain ∈ before, ChainFact chain (fact chain))
    (member : chain ∈ before) (done : Nat) (requests : List Request)
    (filled : ∀ request ∈ requests, request.Filled) :
    Triple (fun context => Steady before fact floor [] context ∧
        Live chain done context.objects context.names)
      (coordinatorWorker requests chain.context)
      (fun _ context => ∃ task, chain.tasks[done]? = some task ∧
        Advanced before fact floor chain done task context) fun _ => True := by
  rintro context ⟨steady, live⟩
  obtain ⟨task, handle, middle, isFirst, steady, found, ⟨modified, fetched⟩, ended⟩ :=
    coordinatorWorker_pops facts member steady live requests
  have stage := steady.held chain member
  rw [Function.update_self] at stage
  obtain ⟨data, same, _⟩ := stage.next isFirst
  rw [found] at same
  cases same
  have marked : mark task middle = .ok () { middle with
        reference := update middle.reference task
          (some (.fetched (.handle ⟨.application, data, none, false⟩) true)) } := by
    simp only [mark, fetched, update_present found]
  have marks := steady.withReference (steady.toCoherent.fetch found true)
  have started : runChainTask requests chain.context chain.bootstrap chain.queue task
      (chain.tasks.drop (done + 1)) ⟨.application, data, none, false⟩ middle =
      (do
        durableTaskApplicationWorker requests task
        coordinatorEnd chain.context chain.bootstrap chain.queue task (chain.tasks.drop (done + 1)))
        { middle with
          reference := update middle.reference task
            (some (.fetched (.handle ⟨.application, data, none, false⟩) true)) } := by
    simp only [runChainTask_eq, bind_apply, Machine.assert, Bool.not_false, if_true,
      pure_apply, marked]
  rw [ended, started]
  exact (chainTask_executed facts member isFirst requests filled).weaken (fun _ holds => holds)
    (fun _ _ advanced => ⟨task, isFirst, advanced⟩) (fun _ _ => trivial) _ marks

/-- The coordinator of a chain of which nothing is left does nothing. -/
theorem coordinatorWorker_missing (coherent : Coherent context)
    (missing : context.objects oid = none) (requests : List Request) :
    coordinatorWorker requests oid context = .ok () context := by
  simp only [coordinatorWorker, chainContextOf, bind_apply, Machine.attempt,
    dereference_missing coherent missing, pure_apply]

theorem coordinatorCatchWorker_missing (coherent : Coherent context)
    (missing : context.objects oid = none) :
    coordinatorCatchWorker oid context = .ok () context := by
  simp only [coordinatorCatchWorker, chainContextOf, bind_apply, Machine.attempt,
    dereference_missing coherent missing, pure_apply]

/-- When the coordinator of a live chain has failed for good, the chain is removed. -/
theorem coordinatorCatchWorker_finished (facts : ∀ chain ∈ before, ChainFact chain (fact chain))
    (member : chain ∈ before) (steady : Steady before fact floor executed context)
    (live : Live chain done context.objects context.names) :
    ∃ after, coordinatorCatchWorker chain.context context = .ok () after ∧
      Kept before (Function.update fact chain (Finished chain)) floor executed after := by
  have nodup := steady.toSound.nodup (mem_append_left _ member)
  obtain ⟨modified, looked⟩ := (steady.toCoherent.agrees live.context).chainContextOf
  have coherent := steady.toCoherent.fetch live.context modified
  obtain ⟨after, cleaned, changed, sameNames, finished⟩ :=
    cleanupCoordinatorTask_ends nodup (drop_sublist done chain.tasks)
      (coherent.agrees live.context) live.bound ⟨_, coherent.agrees live.bootstrap⟩
      (coherent.agrees live.queue)
      (fun task waits => by
        obtain ⟨data, handle, _⟩ := live.waiting task waits
        exact ⟨_, coherent.agrees handle⟩)
      (fun task within absent => by
        rw [← take_append_drop done chain.tasks] at within
        exact live.removed task ((mem_append.mp within).resolve_right absent))
  have names : ∀ oid, oid ≠ chain.bootstrap → after.names oid = context.names oid := by
    intro oid apart
    rw [sameNames]
    exact update_other _ _ apart
  refine ⟨after, ?_, ?_⟩
  · simp only [coordinatorCatchWorker, bind_apply, Machine.attempt, looked, cleaned, pure_apply]
  · refine steady.toKept.inside facts member changed.objects ?_ ?_ live.no_data changed.nextOid
      changed.report (fun other _ apart => Function.update_of_ne apart _ _) ?_ ?_
    · exact fun oid outside => names oid fun same => outside (same ▸ mem_oids_bootstrap chain)
    · intro number oid bound
      by_cases same : number = chain.bootstrap
      · rw [same, finished.unbound] at bound
        cases bound
      · rw [← names number same]
        exact bound
    · rw [Function.update_self]
      exact finished
    · rw [changed.submitted]
      exact steady.known

end Gzochi.DurableTask
