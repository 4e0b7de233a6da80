import Gzochi.DurableTask.Model
import Mathlib.Tactic.ByContra

/-!
# Bindings of durable tasks

As long as no chains are scheduled, the binding of a pending task and its handle come and
go together.  A task that has been cancelled, or is to be executed once only, never
becomes periodic again, and loses both when its execution commits.
-/

namespace Gzochi.DurableTask

open Lib List Machine
open Data (Oid update update_same update_other)

/-- The store without chains: exactly the handles are bound, each under its own number,
and each has its data. -/
structure TidyStore (objects : Oid → Option Object) (names : Oid → Option Oid)
    (nextOid : Oid) : Prop where
  bound : ∀ oid, names oid ≠ none ↔ ∃ handle, objects oid = some (.handle handle)
  own : ∀ number oid, names number = some oid → oid = number
  plain : ∀ oid handle, objects oid = some (.handle handle) →
    handle.worker = .application ∧ handle.binding = some oid ∧
      objects handle.taskData = some .taskData
  below : ∀ oid, nextOid ≤ oid → objects oid = none

/-- A transaction that has not removed anything yet, with the objects in memory as they are
in the store. -/
structure Coherent (context : Context) : Prop where
  fetched : ∀ oid object modified, context.reference oid = some (.fetched object modified) →
    context.objects oid = some object
  unremoved : ∀ oid object, context.reference oid ≠ some (.removed object)

/-- Such a transaction on a store without chains. -/
structure Tidy (context : Context) : Prop extends
    TidyStore context.objects context.names context.nextOid, Coherent context

/-- The task will not be scheduled for another period. -/
def Retired (objects : Oid → Option Object) (nextOid oid : Oid) : Prop :=
  oid < nextOid ∧ ∀ handle, objects oid = some (.handle handle) → handle.repeats = false

/-- The task has no handle and will not have one again. -/
def Gone (objects : Oid → Option Object) (nextOid oid : Oid) : Prop :=
  oid < nextOid ∧ objects oid = none

/-- No old object is changed, except that it is removed or will no longer be repeated. -/
def Lowers (before after : Oid → Option Object) (bound : Oid) : Prop :=
  ∀ oid < bound, after oid = before oid ∨ after oid = none ∨
    ∃ handle, before oid = some (.handle handle) ∧
      after oid = some (.handle { handle with repeats := false })

theorem Lowers.refl (objects : Oid → Option Object) (bound : Oid) : Lowers objects objects bound :=
  fun _ _ => .inl rfl

variable {nextOid : Oid}

variable {before after : Oid → Option Object} {bound : Oid}

theorem Retired.lowers {oid : Oid} (retired : Retired before bound oid)
    (lowers : Lowers before after bound) (more : bound ≤ nextOid) : Retired after nextOid oid := by
  refine ⟨Nat.lt_of_lt_of_le retired.1 more, fun handle found => ?_⟩
  rcases lowers oid retired.1 with same | gone | ⟨old, _, new⟩
  · exact retired.2 handle (same ▸ found)
  · rw [gone] at found
    cases found
  · rw [new] at found
    cases found
    rfl

theorem Gone.lowers {oid : Oid} (gone : Gone before bound oid)
    (lowers : Lowers before after bound) (more : bound ≤ nextOid) :
    Gone after nextOid oid := by
  refine ⟨Nat.lt_of_lt_of_le gone.1 more, ?_⟩
  rcases lowers oid gone.1 with same | absent | ⟨old, found, _⟩
  · rw [same]
    exact gone.2
  · exact absent
  · rw [gone.2] at found
    cases found

/-- A task of the server that is not about a chain. -/
def TaskKind.Unchained : TaskKind → Prop
  | .durable _ | .durableCatch _ => True
  | .coordinator _ | .coordinatorCatch _ => False

/-- The state of a transaction that has run some of the application's requests. -/
structure Progress (retired gone : Oid → Prop) (executed rescheduled : List Oid)
    (context : Context) : Prop extends Tidy context where
  staysRetired : ∀ oid, retired oid → Retired context.objects context.nextOid oid
  staysGone : ∀ oid, gone oid → Gone context.objects context.nextOid oid
  scheduledRetired : ∀ oid ∈ context.report.scheduled,
    Retired context.objects context.nextOid oid
  cancelledRetired : ∀ oid ∈ context.report.cancelled,
    Retired context.objects context.nextOid oid
  sameExecuted : context.report.executed = executed
  sameRescheduled : context.report.rescheduled = rescheduled
  unchained : ∀ task ∈ context.submitted, task.kind.Unchained

variable {retired gone : Oid → Prop} {executed rescheduled : List Oid}
  {context after : Context} {oid : Oid}

theorem dereference_missing (coherent : Coherent context) (missing : context.objects oid = none) :
    dereference oid context = .failed context := by
  unfold dereference
  cases looked : context.reference oid with
  | none => simp only [missing]
  | some reference =>
    cases reference with
    | fetched object modified =>
      rw [coherent.fetched oid object modified looked] at missing
      cases missing
    | removed object => exact absurd looked (coherent.unremoved oid object)

theorem update_present {Content : Type} {map : Oid → Option Content} {content : Content}
    (present : map oid = some content) : update map oid (some content) = map := by
  rw [← present, Data.update_unchanged]

/-- An object is put into memory and into the store. -/
theorem Coherent.put (coherent : Coherent context) (oid : Oid) (object : Object) (modified : Bool) :
    Coherent { context with
      objects := update context.objects oid (some object)
      reference := update context.reference oid (some (.fetched object modified)) } where
  fetched := by
    intro other content flag held
    by_cases same : other = oid
    · subst same
      simp only [update_same] at held ⊢
      cases held
      rfl
    · simp only [update_other _ _ same] at held ⊢
      exact coherent.fetched other content flag held
  unremoved := by
    intro other content held
    by_cases same : other = oid
    · subst same
      simp only [update_same] at held
      cases held
    · simp only [update_other _ _ same] at held
      exact coherent.unremoved other content held

variable {object : Object}

variable (coherent : Coherent context)
include coherent

/-- An object is in memory as it is in the store. -/
theorem Coherent.fetch (found : context.objects oid = some object) (modified : Bool) :
    Coherent { context with
      reference := update context.reference oid (some (.fetched object modified)) } := by
  have done := coherent.put oid object modified
  rw [update_present found] at done
  exact done

/-- After a dereference the object is in memory, as it is in the store. -/
theorem dereference_found (found : context.objects oid = some object) :
    ∃ reference, dereference oid context = .ok object { context with reference := reference } ∧
      Coherent { context with reference := reference } ∧
      ∃ modified, reference oid = some (.fetched object modified) := by
  unfold dereference
  cases looked : context.reference oid with
  | none =>
    simp only [found]
    exact ⟨_, rfl, coherent.fetch found false, false, update_same _ _ _⟩
  | some reference =>
    cases reference with
    | removed object => exact absurd looked (coherent.unremoved oid object)
    | fetched content modified =>
      have same := coherent.fetched oid content modified looked
      rw [found] at same
      cases same
      exact ⟨context.reference, rfl, coherent, modified, looked⟩

theorem handleOf_missing (missing : context.objects oid = none) :
    handleOf oid context = .failed context := by
  simp only [handleOf, bind_apply, dereference_missing coherent missing]

omit coherent

variable {handle : Handle}

theorem handleOf_found (coherent : Coherent context)
    (found : context.objects oid = some (.handle handle)) :
    ∃ reference, handleOf oid context = .ok handle { context with reference := reference } ∧
      Coherent { context with reference := reference } ∧
      ∃ modified, reference oid = some (.fetched (.handle handle) modified) := by
  obtain ⟨reference, ended, holds, fetched⟩ := dereference_found coherent found
  exact ⟨reference, by simp only [handleOf, bind_apply, ended]; rfl, holds, fetched⟩

/-- How `handleOf` ends. -/
inductive HandleOf (oid : Oid) (context : Context) : Prop
  | missing (absent : context.objects oid = none)
  | held (handle : Handle) (found : context.objects oid = some (.handle handle))
  | other (ended : handleOf oid context = .crashed)

theorem handleOf_cases (coherent : Coherent context) (oid : Oid) : HandleOf oid context := by
  cases found : context.objects oid with
  | none => exact .missing found
  | some object =>
    cases object with
    | handle handle => exact .held handle found
    | taskData | chainContext _ _ | queue _ =>
      obtain ⟨reference, ended, _⟩ := dereference_found coherent found
      exact .other (by simp only [handleOf, bind_apply, ended, crash])

/-- A new task, with its data. -/
def Context.withTask (context : Context) (repeats : Bool) : Context :=
  let oid := context.nextOid + 1
  let handle := Object.handle ⟨.application, context.nextOid, some oid, repeats⟩
  { context with
    objects := update (update context.objects context.nextOid (some .taskData)) oid (some handle)
    names := update context.names oid (some oid)
    nextOid := context.nextOid + 2
    reference :=
      update (update context.reference context.nextOid (some (.fetched .taskData true))) oid
        (some (.fetched handle true))
    submitted := context.submitted ++ [⟨.durable oid, 0⟩] }

theorem scheduleDurableTask_ends (context : Context) : scheduleDurableTask context = .ok ()
        { context.withTask false with
          report :=
            { context.report with
              scheduled := context.report.scheduled ++ [context.nextOid + 1] } } := by
  simp [scheduleDurableTask, createDurableApplicationTaskHandle, scheduleDurableTaskHandle,
    createReference, handleOf, dereference, assign, setBindingToOid, submit, note, Machine.modify,
    Context.withTask]

theorem schedulePeriodicDurableTask_ends (context : Context) : schedulePeriodicDurableTask context =
      .ok () { context.withTask true with
          report :=
            { context.report with
              periodic := context.report.periodic ++ [context.nextOid + 1] } } := by
  simp [schedulePeriodicDurableTask, createDurableApplicationTaskHandle, scheduleDurableTaskHandle,
    createReference, handleOf, dereference, assign, setBindingToOid, submit, note, Machine.modify,
    Context.withTask]

theorem withTask_old (context : Context) (repeats : Bool) {oid : Oid}
    (old : oid < context.nextOid) :
    (context.withTask repeats).objects oid = context.objects oid ∧
    (context.withTask repeats).names oid = context.names oid := by
  have first : oid ≠ context.nextOid := Nat.ne_of_lt old
  have second : oid ≠ context.nextOid + 1 := Nat.ne_of_lt (Nat.lt_succ_of_lt old)
  simp only [Context.withTask, update_other _ _ first, update_other _ _ second, and_self]

theorem withTask_lowers (context : Context) (repeats : Bool) :
    Lowers context.objects (context.withTask repeats).objects context.nextOid :=
  fun _ old => .inl (withTask_old context repeats old).1

theorem Coherent.withTask (coherent : Coherent context) (repeats : Bool) :
    Coherent (context.withTask repeats) :=
  { (coherent.put context.nextOid .taskData true).put (context.nextOid + 1) _ true with }

theorem Tidy.withTask (tidy : Tidy context) (repeats : Bool) : Tidy (context.withTask repeats) := by
  have unnamed : ∀ oid, context.nextOid ≤ oid → context.names oid = none := by
    intro oid new
    by_contra bound
    obtain ⟨handle, found⟩ := (tidy.bound oid).mp bound
    rw [tidy.below oid new] at found
    cases found
  have apart : context.nextOid ≠ context.nextOid + 1 := Nat.ne_of_lt (Nat.lt_succ_self _)
  have dataThere : (context.withTask repeats).objects context.nextOid = some .taskData := by
    simp only [Context.withTask, update_other _ _ apart, update_same]
  have cases_of : ∀ oid, oid = context.nextOid ∨ oid = context.nextOid + 1 ∨
      (oid ≠ context.nextOid ∧ oid ≠ context.nextOid + 1) := by
    intro oid
    by_cases first : oid = context.nextOid
    · exact .inl first
    · by_cases second : oid = context.nextOid + 1
      · exact .inr (.inl second)
      · exact .inr (.inr ⟨first, second⟩)
  refine ⟨⟨?_, ?_, ?_, ?_⟩, tidy.toCoherent.withTask repeats⟩
  · intro oid
    rcases cases_of oid with rfl | rfl | ⟨first, second⟩
    · rw [dataThere]
      simp [Context.withTask, update_other _ _ apart, unnamed _ (Nat.le_refl _)]
    · simp [Context.withTask]
    · simp only [Context.withTask, update_other _ _ first, update_other _ _ second]
      exact tidy.bound oid
  · intro number oid bound
    by_cases same : number = context.nextOid + 1
    · subst same
      simp only [Context.withTask, update_same] at bound
      cases bound
      rfl
    · simp only [Context.withTask, update_other _ _ same] at bound
      exact tidy.own number oid bound
  · intro oid handle found
    rcases cases_of oid with rfl | rfl | ⟨first, second⟩
    · rw [dataThere] at found
      cases found
    · simp only [Context.withTask, update_same] at found
      cases found
      exact ⟨rfl, rfl, dataThere⟩
    · simp only [Context.withTask, update_other _ _ first, update_other _ _ second] at found
      obtain ⟨worker, binding, data⟩ := tidy.plain oid handle found
      refine ⟨worker, binding, ?_⟩
      have old : handle.taskData < context.nextOid := by
        by_contra new
        rw [tidy.below _ (Nat.le_of_not_lt new)] at data
        cases data
      rw [(withTask_old context repeats old).1]
      exact data
  · intro oid new
    have later : context.nextOid + 1 < oid := new
    have first : oid ≠ context.nextOid := Nat.ne_of_gt (Nat.lt_of_succ_lt later)
    have second : oid ≠ context.nextOid + 1 := Nat.ne_of_gt later
    simp only [Context.withTask, update_other _ _ first, update_other _ _ second]
    exact tidy.below oid (Nat.le_of_lt (Nat.lt_of_succ_lt later))

/-- The state of a transaction goes on where only old objects are lowered. -/
theorem Progress.onward (progress : Progress retired gone executed rescheduled context)
    (tidy : Tidy after) (lowers : Lowers context.objects after.objects context.nextOid)
    (more : context.nextOid ≤ after.nextOid)
    (scheduled : ∀ oid ∈ after.report.scheduled, oid ∈ context.report.scheduled ∨
      Retired after.objects after.nextOid oid)
    (cancelled : ∀ oid ∈ after.report.cancelled, oid ∈ context.report.cancelled ∨
      Retired after.objects after.nextOid oid)
    (sameExecuted : after.report.executed = executed)
    (sameRescheduled : after.report.rescheduled = rescheduled)
    (unchained : ∀ task ∈ after.submitted, task ∈ context.submitted ∨ task.kind.Unchained) :
    Progress retired gone executed rescheduled after where
  toTidy := tidy
  staysRetired := fun oid member => (progress.staysRetired oid member).lowers lowers more
  staysGone := fun oid member => (progress.staysGone oid member).lowers lowers more
  scheduledRetired := fun oid member => (scheduled oid member).elim
    (fun old => (progress.scheduledRetired oid old).lowers lowers more) id
  cancelledRetired := fun oid member => (cancelled oid member).elim
    (fun old => (progress.cancelledRetired oid old).lowers lowers more) id
  sameExecuted := sameExecuted
  sameRescheduled := sameRescheduled
  unchained := fun task member => (unchained task member).elim (progress.unchained task) id

theorem mem_submitted {tasks : List Task} {task : Task} {kind : TaskKind}
    (unchained : kind.Unchained) (member : task ∈ tasks ++ [⟨kind, 0⟩]) :
    task ∈ tasks ∨ task.kind.Unchained := by
  rcases mem_append.mp member with old | new
  · exact .inl old
  · rw [mem_singleton.mp new]
    exact .inr unchained

theorem scheduleDurableTask_progress :
    Keeps (Progress retired gone executed rescheduled) scheduleDurableTask := by
  intro context progress
  rw [scheduleDurableTask_ends]
  refine progress.onward { progress.toTidy.withTask false with } (withTask_lowers context false)
    (Nat.le_add_right _ 2) ?_ (fun _ => .inl) progress.sameExecuted progress.sameRescheduled
    (fun _ => mem_submitted trivial)
  intro oid member
  rcases mem_append.mp member with old | new
  · exact .inl old
  · rw [mem_singleton.mp new]
    refine .inr ⟨Nat.lt_succ_self _, fun handle found => ?_⟩
    simp only [Context.withTask, update_same] at found
    cases found
    rfl

theorem schedulePeriodicDurableTask_progress :
    Keeps (Progress retired gone executed rescheduled) schedulePeriodicDurableTask := by
  intro context progress
  rw [schedulePeriodicDurableTask_ends]
  exact progress.onward { progress.toTidy.withTask true with } (withTask_lowers context true)
    (Nat.le_add_right _ 2) (fun _ => .inl) (fun _ => .inl) progress.sameExecuted
    progress.sameRescheduled (fun _ => mem_submitted trivial)

/-- A handle in memory and in the store, with the flag of its period cleared. -/
def Context.lowered (context : Context) (oid : Oid) (handle : Handle) : Context :=
  { context with
    objects := update context.objects oid (some (.handle { handle with repeats := false }))
    reference :=
      update context.reference oid
        (some (.fetched (.handle { handle with repeats := false }) true)) }

theorem cancelTask_ends (coherent : Coherent context)
    (found : context.objects oid = some (.handle handle)) :
    ∃ reference, Coherent { context with reference := reference } ∧
      cancelTask oid context =
        .ok ()
          { Context.lowered { context with reference := reference } oid handle with
            report :=
              { context.report with cancelled := context.report.cancelled ++ [oid] } } := by
  obtain ⟨reference, ended, holds, modified, fetched⟩ := handleOf_found coherent found
  refine ⟨reference, holds, ?_⟩
  cases modified <;>
    simp [cancelTask, Machine.attempt, ended, assign, fetched, mark, note, Machine.modify,
      Context.lowered]

theorem Tidy.lowered (tidy : Tidy context) (found : context.objects oid = some (.handle handle)) :
    Tidy (context.lowered oid handle) := by
  have handles : ∀ other, (∃ found, (context.lowered oid handle).objects other =
      some (.handle found)) ↔ ∃ found, context.objects other = some (.handle found) := by
    intro other
    by_cases same : other = oid
    · subst same
      simp [Context.lowered, found]
    · simp [Context.lowered, update_other _ _ same]
  refine ⟨⟨fun other => (tidy.bound other).trans (handles other).symm, tidy.own, ?_, ?_⟩,
    tidy.toCoherent.put oid _ true⟩
  · intro other content held
    have data : ∀ content : Handle, context.objects content.taskData = some .taskData →
        (context.lowered oid handle).objects content.taskData = some .taskData := by
      intro content data
      have apart : content.taskData ≠ oid := by
        intro same
        rw [same, found] at data
        cases data
      simpa [Context.lowered, update_other _ _ apart] using data
    by_cases same : other = oid
    · subst same
      simp only [Context.lowered, update_same] at held
      cases held
      obtain ⟨worker, binding, there⟩ := tidy.plain other handle found
      exact ⟨worker, binding, data handle there⟩
    · simp only [Context.lowered, update_other _ _ same] at held
      obtain ⟨worker, binding, there⟩ := tidy.plain other content held
      exact ⟨worker, binding, data content there⟩
  · intro other new
    have apart : other ≠ oid := by
      rintro rfl
      rw [tidy.below other new] at found
      cases found
    simp only [Context.lowered, update_other _ _ apart]
    exact tidy.below other new

theorem lowered_lowers (found : context.objects oid = some (.handle handle)) (bound : Oid) :
    Lowers context.objects (context.lowered oid handle).objects bound := by
  intro other _
  by_cases same : other = oid
  · subst same
    exact .inr (.inr ⟨handle, found, by simp [Context.lowered]⟩)
  · exact .inl (by simp [Context.lowered, update_other _ _ same])

theorem cancelTask_progress (oid : Oid) :
    Keeps (Progress retired gone executed rescheduled) (cancelTask oid) := by
  intro context progress
  cases handleOf_cases progress.toCoherent oid with
  | missing found =>
    simp only [cancelTask, bind_apply, Machine.attempt,
      handleOf_missing progress.toCoherent found, pure_apply]
    exact progress
  | held handle found =>
    obtain ⟨reference, coherent, ended⟩ := cancelTask_ends progress.toCoherent found
    have tidy : Tidy { context with reference := reference } :=
      { progress.toTidy with toCoherent := coherent }
    rw [ended]
    refine progress.onward { tidy.lowered found with } (lowered_lowers found _)
      (Nat.le_refl _) (fun _ => .inl) ?_ progress.sameExecuted progress.sameRescheduled
      (fun _ => .inl)
    intro other member
    rcases mem_append.mp member with old | new
    · exact .inl old
    · rw [mem_singleton.mp new]
      refine .inr ⟨?_, fun content held => ?_⟩
      · by_contra new
        rw [progress.below oid (Nat.le_of_not_lt new)] at found
        cases found
      · simp only [Context.lowered, update_same] at held
        cases held
        rfl
  | other ended => simp only [cancelTask, bind_apply, Machine.attempt, ended]

/-- The application schedules no chain. -/
def Request.Unchained : Request → Prop
  | .schedule | .schedulePeriodic | .cancel _ => True
  | .scheduleChain _ => False

theorem performAll_progress (requests : List Request)
    (unchained : ∀ request ∈ requests, request.Unchained) :
    Keeps (Progress retired gone executed rescheduled) (performAll requests) := by
  induction requests with
  | nil => exact .pure ()
  | cons request rest ih =>
    refine .bind ?_ fun _ => ih fun other member =>
      unchained other (mem_cons_of_mem _ member)
    cases request with
    | schedule => exact scheduleDurableTask_progress
    | schedulePeriodic => exact schedulePeriodicDurableTask_progress
    | cancel oid => exact cancelTask_progress oid
    | scheduleChain count => exact (unchained _ mem_cons_self).elim

variable {objects : Oid → Option Object} {names : Oid → Option Oid}

theorem TidyStore.binding (tidy : TidyStore objects names nextOid)
    (found : objects oid = some (.handle handle)) :
    handle.binding = some oid ∧ names oid = some oid := by
  refine ⟨(tidy.plain oid handle found).2.1, ?_⟩
  obtain ⟨target, bound⟩ := Option.ne_none_iff_exists'.mp ((tidy.bound oid).mpr ⟨handle, found⟩)
  rw [tidy.own oid target bound] at bound
  exact bound

/-- A handle that is bound can be scheduled again, and nothing in the store changes. -/
theorem scheduleDurableTaskHandle_ends (coherent : Coherent context)
    (found : context.objects oid = some (.handle handle)) (binding : handle.binding = some oid)
    (named : context.names oid = some oid) :
    ∃ reference, Coherent { context with reference := reference } ∧
      scheduleDurableTaskHandle oid context =
        .ok ()
          { context with
            reference := reference
            submitted := context.submitted ++ [⟨.durable oid, 0⟩] } := by
  obtain ⟨reference, ended, holds, modified, fetched⟩ := handleOf_found coherent found
  have same : { handle with binding := some oid } = handle := by rw [← binding]
  refine ⟨reference, holds, ?_⟩
  cases modified <;>
    simp [scheduleDurableTaskHandle, ended, assign, fetched, same, setBindingToOid, submit,
      Machine.modify, update_present fetched, update_present found, update_present named]

theorem scheduleDurableTaskHandle_progress (oid : Oid) :
    Keeps (Progress retired gone executed rescheduled) (scheduleDurableTaskHandle oid) := by
  intro context progress
  cases handleOf_cases progress.toCoherent oid with
  | missing found =>
    simp only [scheduleDurableTaskHandle, bind_apply, handleOf_missing progress.toCoherent found]
    exact progress
  | held handle found =>
    obtain ⟨binding, named⟩ := progress.toTidyStore.binding found
    obtain ⟨reference, coherent, ended⟩ :=
      scheduleDurableTaskHandle_ends progress.toCoherent found binding named
    rw [ended]
    exact progress.onward
      { progress.toTidyStore with fetched := coherent.fetched, unremoved := coherent.unremoved }
      (.refl _ _) (Nat.le_refl _) (fun _ => .inl)
      (fun _ => .inl) progress.sameExecuted progress.sameRescheduled
      (fun _ => mem_submitted trivial)
  | other ended => simp only [scheduleDurableTaskHandle, bind_apply, ended]

theorem removeDurableTask_ends (coherent : Coherent context)
    (found : context.objects oid = some (.handle handle)) (binding : handle.binding = some oid)
    (named : context.names oid = some oid) :
    ∃ reference, removeDurableTask oid context = .ok () { context with
          objects := update context.objects oid none
          names := update context.names oid none
          reference := reference } := by
  obtain ⟨reference, ended, holds, modified, fetched⟩ := handleOf_found coherent found
  refine ⟨update reference oid (some (.removed (some (.handle handle)))), ?_⟩
  simp [removeDurableTask, ended, binding, removeBinding, named, removeObject, fetched]

theorem removeDurableTask_missing (coherent : Coherent context)
    (missing : context.objects oid = none) : removeDurableTask oid context = .failed context := by
  simp only [removeDurableTask, bind_apply, handleOf_missing coherent missing]

theorem TidyStore.remove (tidy : TidyStore objects names nextOid)
    (found : objects oid = some (.handle handle)) :
    TidyStore (update objects oid none) (update names oid none) nextOid where
  bound := by
    intro other
    by_cases same : other = oid
    · subst same
      simp
    · rw [update_other _ _ same, update_other _ _ same]
      exact tidy.bound other
  own := by
    intro number target bound
    by_cases same : number = oid
    · subst same
      rw [update_same] at bound
      cases bound
    · rw [update_other _ _ same] at bound
      exact tidy.own number target bound
  plain := by
    intro other content held
    by_cases same : other = oid
    · subst same
      rw [update_same] at held
      cases held
    · rw [update_other _ _ same] at held
      obtain ⟨worker, binding, data⟩ := tidy.plain other content held
      have apart : content.taskData ≠ oid := by
        intro same
        rw [same, found] at data
        cases data
      exact ⟨worker, binding, by rwa [update_other _ _ apart]⟩
  below := by
    intro other new
    by_cases same : other = oid
    · subst same
      exact update_same _ _ _
    · rw [update_other _ _ same]
      exact tidy.below other new

theorem lowers_remove (objects : Oid → Option Object) (oid bound : Oid) :
    Lowers objects (update objects oid none) bound := by
  intro other _
  by_cases same : other = oid
  · subst same
    exact .inr (.inl (update_same _ _ _))
  · exact .inl (update_other _ _ same)

/-- What a transaction has done when it commits. -/
structure Settled (retired gone : Oid → Prop) (context : Context) : Prop extends
    TidyStore context.objects context.names context.nextOid where
  staysRetired : ∀ oid, retired oid → Retired context.objects context.nextOid oid ∧
    oid ∉ context.report.rescheduled
  staysGone : ∀ oid, gone oid → Gone context.objects context.nextOid oid ∧
    oid ∉ context.report.executed
  scheduledRetired : ∀ oid ∈ context.report.scheduled,
    Retired context.objects context.nextOid oid ∧ oid ∉ context.report.rescheduled
  cancelledRetired : ∀ oid ∈ context.report.cancelled,
    Retired context.objects context.nextOid oid ∧ oid ∉ context.report.rescheduled
  executedGone : ∀ oid ∈ context.report.executed,
    Gone context.objects context.nextOid oid ∨ oid ∈ context.report.rescheduled
  unchained : ∀ task ∈ context.submitted, task.kind.Unchained

theorem Progress.settled (progress : Progress retired gone [] [] context) :
    Settled retired gone context where
  toTidyStore := progress.toTidyStore
  staysRetired oid member := ⟨progress.staysRetired oid member, by simp [progress.sameRescheduled]⟩
  staysGone oid member := ⟨progress.staysGone oid member, by simp [progress.sameExecuted]⟩
  scheduledRetired oid member :=
    ⟨progress.scheduledRetired oid member, by simp [progress.sameRescheduled]⟩
  cancelledRetired oid member :=
    ⟨progress.cancelledRetired oid member, by simp [progress.sameRescheduled]⟩
  executedGone := by simp [progress.sameExecuted]
  unchained := progress.unchained

/-- The one task that has been executed was not gone. -/
theorem Progress.unexecuted (progress : Progress retired gone executed rescheduled context)
    (found : context.objects oid = some (.handle handle)) (only : ∀ other ∈ executed, other = oid)
    (other : Oid) (missing : gone other) :
    other ∉ context.report.executed := by
  intro member
  rw [progress.sameExecuted] at member
  have absent := (progress.staysGone other missing).2
  rw [only other member, found] at absent
  cases absent

/-- A transaction ends with the removal of a task, the only one that it may have executed. -/
theorem Progress.remove (progress : Progress retired gone executed [] context)
    (found : context.objects oid = some (.handle handle)) (only : ∀ other ∈ executed, other = oid)
    (reference : Oid → Option Reference) :
    Settled retired gone { context with
        objects := update context.objects oid none
        names := update context.names oid none
        reference := reference } where
  toTidyStore := progress.toTidyStore.remove found
  staysRetired other member :=
    ⟨(progress.staysRetired other member).lowers (lowers_remove _ oid _) (Nat.le_refl _),
      by simp [progress.sameRescheduled]⟩
  staysGone other member :=
    ⟨(progress.staysGone other member).lowers (lowers_remove _ oid _) (Nat.le_refl _),
      progress.unexecuted found only other member⟩
  scheduledRetired other member :=
    ⟨(progress.scheduledRetired other member).lowers (lowers_remove _ oid _) (Nat.le_refl _),
      by simp [progress.sameRescheduled]⟩
  cancelledRetired other member :=
    ⟨(progress.cancelledRetired other member).lowers (lowers_remove _ oid _) (Nat.le_refl _),
      by simp [progress.sameRescheduled]⟩
  executedGone := by
    intro other member
    rw [show context.report.executed = executed from progress.sameExecuted] at member
    have same := only other member
    subst same
    refine .inl ⟨?_, update_same _ _ _⟩
    by_contra new
    rw [progress.below other (Nat.le_of_not_lt new)] at found
    cases found
  unchained := progress.unchained

/-- A transaction ends with a periodic task scheduled again. -/
theorem Progress.reschedule (progress : Progress retired gone executed [] context)
    (found : context.objects oid = some (.handle handle)) (repeats : handle.repeats = true)
    (only : ∀ other ∈ executed, other = oid) {submitted : List Task}
    (unchained : ∀ task ∈ submitted, task.kind.Unchained) :
    Settled retired gone { context with
        submitted := submitted
        report := { context.report with rescheduled := context.report.rescheduled ++ [oid] } } := by
  have periodic : ∀ other, Retired context.objects context.nextOid other →
      other ∉ context.report.rescheduled ++ [oid] := by
    intro other retired member
    rw [progress.sameRescheduled] at member
    rw [mem_singleton.mp member] at retired
    rw [retired.2 handle found] at repeats
    cases repeats
  exact {
    toTidyStore := progress.toTidyStore
    staysRetired := fun other member =>
      ⟨progress.staysRetired other member, periodic other (progress.staysRetired other member)⟩
    staysGone := fun other member =>
      ⟨progress.staysGone other member, progress.unexecuted found only other member⟩
    scheduledRetired := fun other member =>
      ⟨progress.scheduledRetired other member,
        periodic other (progress.scheduledRetired other member)⟩
    cancelledRetired := fun other member =>
      ⟨progress.cancelledRetired other member,
        periodic other (progress.cancelledRetired other member)⟩
    executedGone := by
      intro other member
      rw [show context.report.executed = executed from progress.sameExecuted] at member
      exact .inr (mem_append_right _ (mem_singleton.mpr (only other member)))
    unchained := unchained }

theorem finishTask_settled (oid : Oid) (only : ∀ other ∈ executed, other = oid) :
    Triple (Progress retired gone executed []) (finishTask oid)
      (fun _ => Settled retired gone) fun _ => True := by
  intro context progress
  cases handleOf_cases progress.toCoherent oid with
  | missing found =>
    simp only [finishTask, bind_apply, handleOf_missing progress.toCoherent found]
  | held handle found =>
    obtain ⟨reference, ended, holds, modified, fetched⟩ :=
      handleOf_found progress.toCoherent found
    have after : Progress retired gone executed [] { context with reference := reference } :=
      { progress with toCoherent := holds }
    cases repeats : handle.repeats with
    | true =>
      have marked : mark oid { context with reference := reference } = .ok () { context with
            reference := update reference oid (some (.fetched (.handle handle) true)) } := by
        simp [mark, fetched, update_present found]
      obtain ⟨binding, named⟩ := progress.toTidyStore.binding found
      obtain ⟨later, coherent, scheduled⟩ :=
        scheduleDurableTaskHandle_ends (holds.fetch found true) found binding named
      simp only [finishTask, bind_apply, ended, repeats, if_true, marked, scheduled,
        note, Machine.modify]
      have last : Progress retired gone executed [] { context with reference := later } :=
        { progress with toTidy := ⟨progress.toTidyStore, coherent⟩ }
      exact last.reschedule found repeats only
        fun task member => (mem_submitted (show TaskKind.Unchained (.durable oid) from trivial)
          member).elim (progress.unchained task) id
    | false =>
      obtain ⟨binding, named⟩ := progress.toTidyStore.binding found
      obtain ⟨later, removed⟩ := removeDurableTask_ends holds found binding named
      simp only [finishTask, bind_apply, ended, repeats, Bool.false_eq_true,
        if_false, Machine.attempt, removed, pure_apply]
      exact after.remove found only later
  | other ended => simp only [finishTask, bind_apply, ended]

theorem durableTaskApplicationWorker_settled (requests : List Request) (oid : Oid)
    (unchained : ∀ request ∈ requests, request.Unchained) :
    Triple (Progress retired gone [] []) (durableTaskApplicationWorker requests oid)
      (fun _ => Settled retired gone) fun _ => True := by
  intro context progress
  cases handleOf_cases progress.toCoherent oid with
  | missing found =>
    simp only [durableTaskApplicationWorker, bind_apply, Machine.attempt,
      handleOf_missing progress.toCoherent found, pure_apply]
    exact progress.settled
  | held handle found =>
    obtain ⟨worker, _, data⟩ := progress.plain oid handle found
    obtain ⟨first, ended, coherent, _⟩ := handleOf_found progress.toCoherent found
    obtain ⟨second, fetched, coherent, _⟩ := dereference_found coherent data
    simp only [durableTaskApplicationWorker, bind_apply, Machine.attempt, ended,
      fetched, runWorker, worker, note, Machine.modify]
    have started : Progress retired gone [oid] [] { context with
        reference := second
        report := { context.report with executed := context.report.executed ++ [oid] } } :=
      { progress with
        toCoherent := { coherent with }
        sameExecuted := by simp [progress.sameExecuted] }
    have rest : Triple (Progress retired gone [oid] [])
        (performAll requests >>= fun _ => finishTask oid) (fun _ => Settled retired gone)
        fun _ => True := .bind
      ((performAll_progress requests unchained).weaken (fun _ holds => holds)
        (fun _ _ holds => holds) fun _ _ => trivial)
      fun _ => finishTask_settled oid fun other member => mem_singleton.mp member
    exact rest _ started
  | other ended => simp only [durableTaskApplicationWorker, bind_apply, Machine.attempt, ended]

theorem durableTaskCatchWorker_settled (oid : Oid) :
    Triple (Progress retired gone [] []) (durableTaskCatchWorker oid)
      (fun _ => Settled retired gone) fun _ => True := by
  intro context progress
  cases handleOf_cases progress.toCoherent oid with
  | missing found =>
    simp only [durableTaskCatchWorker, bind_apply, Machine.attempt,
      removeDurableTask_missing progress.toCoherent found, pure_apply]
    exact progress.settled
  | held handle found =>
    obtain ⟨binding, named⟩ := progress.toTidyStore.binding found
    obtain ⟨reference, removed⟩ :=
      removeDurableTask_ends progress.toCoherent found binding named
    simp only [durableTaskCatchWorker, bind_apply, Machine.attempt, removed, pure_apply]
    exact progress.remove found (by simp) reference
  | other ended =>
    simp only [durableTaskCatchWorker, bind_apply, Machine.attempt, removeDurableTask, ended]

theorem restartTask_progress (number : Oid) :
    Keeps (Progress retired gone executed rescheduled) (restartTask number) := by
  intro context progress
  simp only [restartTask, bind_apply, Machine.get]
  cases bound : context.names number with
  | none => simp only [Machine.expect, Machine.crash]
  | some oid =>
    have same := progress.own number oid bound
    subst same
    obtain ⟨handle, found⟩ := (progress.bound oid).mp (by rw [bound]; simp)
    obtain ⟨reference, ended, coherent, _⟩ := handleOf_found progress.toCoherent found
    simp only [Machine.expect, pure_apply, Machine.attempt, ended]
    exact scheduleDurableTaskHandle_progress oid { context with reference := reference }
      { progress with toCoherent := coherent }

theorem restartTasks_progress (order : List Oid) :
    Keeps (Progress retired gone executed rescheduled) (restartTasks order) := by
  induction order with
  | nil => exact .pure ()
  | cons number rest ih => exact .bind (restartTask_progress number) fun _ => ih

namespace Server

/-- What holds of a server without chains. -/
structure Orderly (server : Server) : Prop extends
    TidyStore server.objects server.names server.nextOid where
  unchained : ∀ task ∈ server.scheduled, task.kind.Unchained

/-- No transaction schedules a chain. -/
def Unchained (_ : Server) : Action → Prop
  | .transaction requests | .execute _ (.commit requests) =>
      ∀ request ∈ requests, request.Unchained
  | .execute _ (.rollback _) | .restart _ _ | .reserve _ => True

/-- What one step does. -/
structure Follows (server next : Server) (report : Report) : Prop where
  orderly : next.Orderly
  staysRetired : ∀ oid, Retired server.objects server.nextOid oid →
    Retired next.objects next.nextOid oid ∧ oid ∉ report.rescheduled
  staysGone : ∀ oid, Gone server.objects server.nextOid oid →
    Gone next.objects next.nextOid oid ∧ oid ∉ report.executed
  scheduledRetired : ∀ oid ∈ report.scheduled,
    Retired next.objects next.nextOid oid ∧ oid ∉ report.rescheduled
  cancelledRetired : ∀ oid ∈ report.cancelled,
    Retired next.objects next.nextOid oid ∧ oid ∉ report.rescheduled
  executedGone : ∀ oid ∈ report.executed,
    Gone next.objects next.nextOid oid ∨ oid ∈ report.rescheduled

variable {server : Server}

theorem Orderly.begin (orderly : server.Orderly) :
    Progress (Retired server.objects server.nextOid) (Gone server.objects server.nextOid) [] []
      server.begin where
  toTidyStore := orderly.toTidyStore
  fetched := nofun
  unremoved := nofun
  staysRetired := fun _ retired => retired
  staysGone := fun _ gone => gone
  scheduledRetired := nofun
  cancelledRetired := nofun
  sameExecuted := rfl
  sameRescheduled := rfl
  unchained := nofun

variable {next : Server} {report : Report}

variable {action : Machine Context Unit}

/-- A transaction that commits. -/
theorem follows_settle {queued : List Task} (done : Triple
      (Progress (Retired server.objects server.nextOid) (Gone server.objects server.nextOid) [] [])
      action
      (fun _ => Settled (Retired server.objects server.nextOid)
        (Gone server.objects server.nextOid)) fun _ => True) (orderly : server.Orderly)
    (unchained : ∀ task ∈ queued, task.kind.Unchained)
    (taken : settle queued (action server.begin) = some (next, report)) :
    server.Follows next report := by
  have ended := done server.begin orderly.begin
  cases outcome : action server.begin with
  | failed after | crashed =>
    rw [outcome] at taken
    cases taken
  | ok value after =>
    rw [outcome] at taken ended
    cases taken
    exact {
      orderly := {
        toTidyStore := ended.toTidyStore
        unchained := fun task member => (mem_append.mp member).elim (unchained task)
          (ended.unchained task) }
      staysRetired := ended.staysRetired
      staysGone := ended.staysGone
      scheduledRetired := ended.scheduledRetired
      cancelledRetired := ended.cancelledRetired
      executedGone := ended.executedGone }

theorem settled_of_progress (kept : Keeps (Progress retired gone [] []) action) :
    Triple (Progress retired gone [] []) action (fun _ => Settled retired gone) fun _ => True :=
  kept.weaken (fun _ holds => holds) (fun _ _ holds => holds.settled) fun _ _ => trivial

/-- A step that leaves the store alone. -/
theorem follows_quiet (orderly : server.Orderly) (count : Nat) {scheduled : List Task}
    (unchained : ∀ task ∈ scheduled, task.kind.Unchained) :
    server.Follows { server with nextOid := server.nextOid + count, scheduled := scheduled }
      .empty where
  orderly :=
    { bound := orderly.bound
      own := orderly.own
      plain := orderly.plain
      below := fun oid new => orderly.below oid (Nat.le_trans (Nat.le_add_right _ _) new)
      unchained := unchained }
  staysRetired _ retired :=
    ⟨retired.lowers (.refl _ _) (Nat.le_add_right _ _), not_mem_nil⟩
  staysGone _ gone := ⟨gone.lowers (.refl _ _) (Nat.le_add_right _ _), not_mem_nil⟩
  scheduledRetired := nofun
  cancelledRetired := nofun
  executedGone := nofun

theorem resubmit_unchained {task : Task} (unchained : task.kind.Unchained) (shouldRetry : Bool) :
    ∀ other ∈ resubmit task shouldRetry, other.kind.Unchained := by
  intro other member
  obtain ⟨kind, attempts⟩ := task
  unfold resubmit at member
  split at member
  · rw [mem_singleton.mp member]
    exact unchained
  · cases kind with
    | durable oid =>
      rw [mem_singleton.mp member]
      trivial
    | durableCatch oid => cases member
    | coordinator context | coordinatorCatch context => exact unchained.elim

theorem step_follows {action : Action} (orderly : server.Orderly)
    (unchained : server.Unchained action) (taken : server.step action = some (next, report)) :
    server.Follows next report := by
  cases action with
  | transaction requests =>
    exact follows_settle (settled_of_progress (performAll_progress requests unchained)) orderly
      orderly.unchained taken
  | execute task attempt =>
    obtain ⟨member, taken⟩ := Option.ite_none_right_eq_some.mp taken
    have kept : ∀ other ∈ server.scheduled.erase task, other.kind.Unchained :=
      fun other there => orderly.unchained other (mem_of_mem_erase there)
    have plain := orderly.unchained task member
    cases attempt with
    | commit requests =>
      obtain ⟨kind, attempts⟩ := task
      cases kind with
      | durable oid =>
        exact follows_settle (durableTaskApplicationWorker_settled requests oid unchained)
          orderly kept taken
      | durableCatch oid =>
        exact follows_settle (durableTaskCatchWorker_settled oid) orderly kept taken
      | coordinator context | coordinatorCatch context => exact plain.elim
    | rollback shouldRetry =>
      cases taken
      exact follows_quiet orderly 0 fun other there =>
        (mem_append.mp there).elim (kept other) (resubmit_unchained plain shouldRetry other)
  | restart order commits =>
    obtain ⟨_, taken⟩ := Option.ite_none_right_eq_some.mp taken
    split at taken
    · exact follows_settle (settled_of_progress (restartTasks_progress order)) orderly
        (fun _ member => absurd member not_mem_nil) taken
    · cases taken
      exact follows_quiet orderly 0 fun _ member => absurd member not_mem_nil
  | reserve count =>
    cases taken
    exact follows_quiet orderly count orderly.unchained

theorem follows_ends (follows : server.Follows next report) {oid : Oid}
    (ends : Retired server.objects server.nextOid oid ∨ oid ∈ report.scheduled ∨
      oid ∈ report.cancelled) :
    Retired next.objects next.nextOid oid ∧ oid ∉ report.rescheduled := by
  rcases ends with retired | scheduled | cancelled
  · exact follows.staysRetired oid retired
  · exact follows.scheduledRetired oid scheduled
  · exact follows.cancelledRetired oid cancelled

/-- What holds after every run.  A task that was cancelled, or scheduled for one execution,
has not been scheduled for another period since, and is gone if it has been executed. -/
structure Tracked (trace : List (Action × Report)) (server : Server) : Prop where
  orderly : server.Orderly
  retired : ∀ entry ∈ trace, ∀ oid, oid ∈ entry.2.scheduled ∨ oid ∈ entry.2.cancelled →
    Retired server.objects server.nextOid oid
  ends : ∀ early action report late oid, trace = early ++ (action, report) :: late →
    oid ∈ report.scheduled ∨ oid ∈ report.cancelled →
    (∀ entry ∈ (action, report) :: late, oid ∉ entry.2.rescheduled) ∧
    ((∃ entry ∈ (action, report) :: late, oid ∈ entry.2.executed) →
      Gone server.objects server.nextOid oid) ∧
    ((action, report) :: late).countP (fun entry => decide (oid ∈ entry.2.executed)) ≤ 1

theorem Tracked.snoc {trace : List (Action × Report)} {action : Action}
    (tracked : Tracked trace server) (follows : server.Follows next report) :
    Tracked (trace ++ [(action, report)]) next := by
  have leaves : ∀ oid, Retired server.objects server.nextOid oid ∨ oid ∈ report.scheduled ∨
      oid ∈ report.cancelled → oid ∈ report.executed → Gone next.objects next.nextOid oid := by
    intro oid ends executed
    exact (follows.executedGone oid executed).resolve_right (follows_ends follows ends).2
  refine ⟨follows.orderly, ?_, ?_⟩
  · intro entry member oid ends
    rcases mem_append.mp member with old | new
    · exact (follows.staysRetired oid (tracked.retired entry old oid ends)).1
    · rw [mem_singleton.mp new] at ends
      exact (follows_ends follows (.inr ends)).1
  · intro early act rep late oid whole ends
    rcases split_snoc whole with ⟨_, same, rfl⟩ | ⟨shorter, front, rfl⟩
    · cases same
      refine ⟨fun entry member => ?_, fun executed => ?_, countP_le_length⟩
      · rw [mem_singleton.mp member]
        exact (follows_ends follows (.inr ends)).2
      · obtain ⟨entry, member, executed⟩ := executed
        rw [mem_singleton.mp member] at executed
        exact leaves oid (.inr ends) executed
    · have before := tracked.ends early act rep shorter oid front ends
      have retired := tracked.retired (act, rep) (by rw [front]; simp) oid ends
      rw [← cons_append]
      refine ⟨fun entry member => ?_, fun executed => ?_, ?_⟩
      · rcases mem_append.mp member with old | new
        · exact before.1 entry old
        · rw [mem_singleton.mp new]
          exact (follows.staysRetired oid retired).2
      · obtain ⟨entry, member, executed⟩ := executed
        rcases mem_append.mp member with old | new
        · exact (follows.staysGone oid (before.2.1 ⟨entry, old, executed⟩)).1
        · rw [mem_singleton.mp new] at executed
          exact leaves oid (.inl retired) executed
      · rw [countP_append]
        by_cases earlier : ∃ entry ∈ (act, rep) :: shorter, oid ∈ entry.2.executed
        · have unexecuted := (follows.staysGone oid (before.2.1 earlier)).2
          simpa [unexecuted] using before.2.2
        · have never : ((act, rep) :: shorter).countP
              (fun entry => decide (oid ∈ entry.2.executed)) = 0 := by
            rw [countP_eq_zero]
            intro entry member
            simpa using fun executed => earlier ⟨entry, member, executed⟩
          rw [never, Nat.zero_add]
          exact countP_le_length

theorem empty_tracked : Tracked [] Server.empty where
  orderly :=
    { bound := fun oid => ⟨fun bound => absurd rfl bound, nofun⟩
      own := nofun
      plain := nofun
      below := fun _ _ => rfl
      unchained := fun _ member => absurd member not_mem_nil }
  retired := nofun
  ends := by
    intro early action report late oid whole
    simp at whole

end Server

/-- A periodic task is cancelled by a one-shot task, survives a restart and is executed a
last time. -/
def cancelAndRestart : List Action :=
  [.transaction [.schedule, .schedulePeriodic], .execute ⟨.durable 3, 0⟩ (.commit []),
    .execute ⟨.durable 1, 0⟩ (.commit [.cancel 3]), .restart [3] true,
    .execute ⟨.durable 3, 0⟩ (.commit [])]

end Gzochi.DurableTask
