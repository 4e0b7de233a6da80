import Gzochi.Data.ObjectStore
import Gzochi.Lib.Machine
import Gzochi.Tx.Model
import Mathlib.Data.List.Dedup

/-!
# Serializers that call back

A serializer is code of the application.  It may write the id of an object that it has a
reference to, and it may call the data layer: `gzochi:serialize` creates a reference to a
record and writes its id.  Serializers run while references are flushed, when the
transaction is preparing and can no longer be joined.
-/

namespace Gzochi.Data

open Lib Machine DataContext List

/-- What a serializer does, one action after the other. -/
inductive Serializing (Kind Value Bytes Name : Type) where
  | finish (out : Option Bytes)
  | writeReference (oid : Oid) (next : Serializing Kind Value Bytes Name)
  | call (operation : Operation Kind Value Name)
      (next : Reply → Serializing Kind Value Bytes Name)

variable {Kind Value Bytes Name : Type}

/-- `gzochi:serialize`. -/
def Serializing.gzochiSerialize (serialization : Kind) (address : Address) (fresh : Oid)
    (next : Serializing Kind Value Bytes Name) : Serializing Kind Value Bytes Name :=
  .call (.createReference serialization address fresh) fun reply =>
    match reply with
    | .reference (some oid) none => .writeReference oid next
    | _ => .finish none

/-- The serializer calls the data layer. -/
def Serializing.Reenters : Serializing Kind Value Bytes Name → Prop
  | .finish _ => False
  | .writeReference _ next => next.Reenters
  | .call _ _ => True

/-- The ids that a serializer writes before it ends or calls the data layer. -/
def Serializing.writes : Serializing Kind Value Bytes Name → List Oid
  | .finish _ | .call _ _ => []
  | .writeReference oid next => oid :: next.writes

/-- What a serializer that does not call the data layer ends with. -/
def Serializing.result : Serializing Kind Value Bytes Name → Option Bytes
  | .finish out => out
  | .writeReference _ next => next.result
  | .call _ _ => none

/-- The transaction of the thread, the timing that the thread has for it, the data layer's part
of it, and the ids written into objects so far. -/
structure Flush (Kind Value Bytes Name : Type) where
  scope : Tx.Scope
  threadTiming : Option Tx.Timing
  context : DataContext Kind Value Bytes Name
  written : List Oid

/-- `data_participant`; joining looks at its name only. -/
def dataParticipant : Tx.Participant where
  name := "data"
  prepare := ⟨[], true⟩
  commit := .set
  rollback := .set

/-- `gzochid_transaction_active`. -/
def transactionActive (scope : Tx.Scope) : Bool :=
  match scope.transaction with
  | none => false
  | some transaction => transaction.state = .active

/-- `gzochid_transaction_timed`, with its assertion that the thread has a timing. -/
def gzochidTransactionTimed : Machine (Flush Kind Value Bytes Name) Bool := do
  let flush ← Machine.get
  let timing ← Machine.expect flush.threadTiming
  pure timing.timeout.isSome

/-- `join_transaction`.  The data layer has joined before its references are flushed.  A
context of its own would be made for the time remaining, if there is a limit. -/
def joinTransaction : Machine (Flush Kind Value Bytes Name) Unit := do
  let flush ← Machine.get
  if transactionActive flush.scope then
    pure ()
  else
    let _timed ← gzochidTransactionTimed
    match Tx.gzochidTransactionJoin flush.scope dataParticipant with
    | none => Machine.crash
    | some scope => Machine.modify fun flush => { flush with scope := scope }

/-- Run a serializer. -/
def serialize [DecidableEq Name] (codec : Codec Kind Value Bytes) :
    Serializing Kind Value Bytes Name → Machine (Flush Kind Value Bytes Name) Bytes
  | .finish none => Machine.fail
  | .finish (some out) => pure out
  | .writeReference oid next => do
      Machine.modify fun flush => { flush with written := flush.written ++ [oid] }
      serialize codec next
  | .call operation next => do
      joinTransaction
      let flush ← Machine.get
      match flush.context.step codec operation with
      | none => Machine.crash
      | some (context, reply) => do
          Machine.modify fun flush => { flush with context := context }
          serialize codec (next reply)

/-- The serializers of an application. -/
abbrev Serializers (Kind Value Bytes Name : Type) :=
  Kind → Value → Serializing Kind Value Bytes Name

/-- The call of the storage engine that `flush_reference` makes. -/
def storeObject (oid : Oid) (out : Bytes) : Machine (Flush Kind Value Bytes Name) Unit := do
  let flush ← Machine.get
  if flush.context.rollback then
    Machine.fail
  else
    Machine.modify fun flush => { flush with context := flush.context.touch }
    let flush ← Machine.get
    if flush.context.rollback then
      Machine.fail
    else
      Machine.modify fun flush =>
        { flush with
          context := { flush.context with oids := update flush.context.oids oid (some out) } }

/-- `flush_reference`, with its assertion that there is an object to flush. -/
def flushReference [DecidableEq Name] (codec : Codec Kind Value Bytes)
    (serializers : Serializers Kind Value Bytes Name) (oid : Oid)
    (reference : ManagedReference Kind) : Machine (Flush Kind Value Bytes Name) Unit :=
  match reference.state with
  | .new | .modified => do
      let flush ← Machine.get
      let address ← Machine.expect reference.obj
      let value ← Machine.expect (flush.context.memory address)
      let out ← serialize codec (serializers reference.serialization value)
      storeObject oid out
  | .empty | .failed | .notModified | .removedEmpty | .removedFetched => pure ()

/-- The loop of `data_prepare` over the references listed before it began. -/
def flushEach [DecidableEq Name] (codec : Codec Kind Value Bytes)
    (serializers : Serializers Kind Value Bytes Name) :
    List Oid → Machine (Flush Kind Value Bytes Name) Unit
  | [] => pure ()
  | oid :: rest => do
      let flush ← Machine.get
      match flush.context.reference oid with
      | none => flushEach codec serializers rest
      | some reference => do
          flushReference codec serializers oid reference
          flushEach codec serializers rest

/-- `data_prepare`. -/
def prepareWith [DecidableEq Name] (codec : Codec Kind Value Bytes)
    (serializers : Serializers Kind Value Bytes Name) (order : List Oid) :
    Machine (Flush Kind Value Bytes Name) Unit := do
  flushEach codec serializers order
  Machine.modify fun flush => { flush with context := flush.context.touch }
  let flush ← Machine.get
  if flush.context.rollback then Machine.fail else pure ()

/-- The transaction as `prepare` of the coordinator leaves it to its participants.  Before that
`gzochid_transaction_end` has taken the timing from the thread. -/
def preparing (transaction : Tx.Transaction) (timing : Tx.Timing)
    (context : DataContext Kind Value Bytes Name) : Flush Kind Value Bytes Name where
  scope := ⟨some { transaction with state := .preparing }, timing⟩
  threadTiming := none
  context := context
  written := []

/-- The object is in memory and has not been removed. -/
def ManagedReference.InMemory (reference : ManagedReference Kind) : Prop :=
  reference.state = .new ∨ reference.state = .modified ∨ reference.state = .notModified

/-- The flush has to serialize the object. -/
def ManagedReference.NeedsFlush (reference : ManagedReference Kind) : Prop :=
  reference.state = .new ∨ reference.state = .modified

/-- What holds of the references of a transaction whatever is called. -/
structure Placed (context : DataContext Kind Value Bytes Name) : Prop where
  allocated : ∀ oid reference address, context.reference oid = some reference →
    reference.obj = some address →
      context.memory address ≠ none ∧ context.byAddress address ≠ none
  held : ∀ oid reference, context.reference oid = some reference → reference.InMemory →
    reference.obj ≠ none
  stored : ∀ oid reference, context.reference oid = some reference →
    reference.state = .notModified → context.oids oid ≠ none
  managed : ∀ address oid, context.byAddress address = some oid →
    ∃ reference, context.reference oid = some reference ∧ reference.obj = some address
  finite : ∃ known : List Oid, ∀ oid, context.reference oid ≠ none → oid ∈ known

section

variable {context after : DataContext Kind Value Bytes Name} {oid : Oid}

theorem update_some_ne_none {Content : Type} {map : Address → Option Content} (address : Address)
    (content : Content) (other : Address) (there : map other ≠ none) :
    update map address (some content) other ≠ none := by
  unfold update
  split
  · nofun
  · exact there

/-- One more reference is known. -/
theorem finite_update {map : Oid → Option (ManagedReference Kind)} (oid : Oid)
    (new : ManagedReference Kind)
    (finite : ∃ known : List Oid, ∀ oid, map oid ≠ none → oid ∈ known) :
    ∃ known : List Oid, ∀ other, update map oid (some new) other ≠ none → other ∈ known := by
  obtain ⟨known, covers⟩ := finite
  refine ⟨oid :: known, fun other there => ?_⟩
  by_cases same : other = oid
  · exact mem_cons.mpr (.inl same)
  · rw [update_other _ _ same] at there
    exact mem_cons_of_mem _ (covers other there)

variable (placed : Placed context)
include placed

theorem Placed.touch : Placed context.touch := { placed with }

/-- The state of one reference changes. -/
theorem Placed.change (oid : Oid) (new : ManagedReference Kind)
    (view : Option Bytes) (sameObj : new.obj = (context.reference oid).bind ManagedReference.obj)
    (held : new.InMemory → new.obj ≠ none) (stored : new.state = .notModified → view ≠ none) :
    Placed { context.setReference oid new with oids := update context.oids oid view } where
  allocated := by
    intro other reference address present has
    rcases update_some present with ⟨rfl, rfl⟩ | ⟨same, present⟩
    · rw [sameObj] at has
      obtain ⟨before, found, has⟩ := Option.bind_eq_some_iff.mp has
      exact placed.allocated other before address found has
    · exact placed.allocated other reference address present has
  held := by
    intro other reference present inMemory
    rcases update_some present with ⟨rfl, rfl⟩ | ⟨same, present⟩
    · exact held inMemory
    · exact placed.held other reference present inMemory
  stored := by
    intro other reference present unmodified
    rcases update_some present with ⟨rfl, rfl⟩ | ⟨same, present⟩
    · simpa using stored unmodified
    · simpa [update_other _ _ same] using placed.stored other reference present unmodified
  managed := by
    intro address other located
    obtain ⟨reference, present, has⟩ := placed.managed address other located
    by_cases same : other = oid
    · subst same
      refine ⟨new, by simp [setReference], ?_⟩
      rw [sameObj, present]
      exact has
    · exact ⟨reference, by simpa [setReference, update_other _ _ same] using present, has⟩
  finite := finite_update oid new placed.finite

variable {reference : ManagedReference Kind}

/-- The state of one reference changes, and the store does not. -/
theorem Placed.setState
    (present : context.reference oid = some reference) (state : ReferenceState)
    (held : reference.obj ≠ none ∨
      (state ≠ .new ∧ state ≠ .modified ∧ state ≠ .notModified)) (changed : state ≠ .notModified) :
    Placed (context.setReference oid { reference with state := state }) := by
  have done := placed.change oid { reference with state := state } (context.oids oid)
    (by rw [present]; rfl)
    (fun inMemory => held.resolve_right fun ⟨notNew, notModified, notFetched⟩ =>
      inMemory.elim notNew (Or.rec notModified notFetched))
    (fun unmodified => absurd unmodified changed)
  rw [update_unchanged] at done
  exact done

variable {address : Address}

/-- A reference gets its object, which is new in the table of addresses. -/
theorem Placed.place (oid : Oid) (new : ManagedReference Kind)
    (memory : Address → Option Value) (nextAddress : Address)
    (unplaced : ∀ reference, context.reference oid = some reference → reference.obj = none)
    (has : new.obj = some address) (stored : new.state = .notModified → context.oids oid ≠ none)
    (allocated : memory address ≠ none)
    (more : ∀ other, context.memory other ≠ none → memory other ≠ none) :
    Placed { context.setReference oid new with
        memory := memory, nextAddress := nextAddress
        byAddress := update context.byAddress address (some oid) } where
  allocated := by
    intro other reference place present hasPlace
    rcases update_some present with ⟨rfl, rfl⟩ | ⟨same, present⟩
    · rw [has] at hasPlace
      cases hasPlace
      exact ⟨allocated, by simp⟩
    · obtain ⟨there, located⟩ := placed.allocated other reference place present hasPlace
      exact ⟨more place there, update_some_ne_none address oid place located⟩
  held := by
    intro other reference present inMemory
    rcases update_some present with ⟨rfl, rfl⟩ | ⟨same, present⟩
    · rw [has]
      simp
    · exact placed.held other reference present inMemory
  stored := by
    intro other reference present unmodified
    rcases update_some present with ⟨rfl, rfl⟩ | ⟨same, present⟩
    · exact stored unmodified
    · exact placed.stored other reference present unmodified
  managed := by
    intro place other located
    rcases update_some located with ⟨rfl, rfl⟩ | ⟨same, located⟩
    · exact ⟨new, by simp [setReference], has⟩
    · obtain ⟨reference, present, hasPlace⟩ := placed.managed place other located
      refine ⟨reference, ?_, hasPlace⟩
      have apart : other ≠ oid := by
        rintro rfl
        rw [unplaced reference present] at hasPlace
        cases hasPlace
      simpa [setReference, update_other _ _ apart] using present
  finite := finite_update oid new placed.finite

theorem Placed.remember (memory : Address → Option Value)
    (nextAddress : Address)
    (more : ∀ other, context.memory other ≠ none → memory other ≠ none) :
    Placed { context with memory := memory, nextAddress := nextAddress } :=
  { placed with
    allocated := fun other reference address present has =>
      (placed.allocated other reference address present has).imp_left (more address) }

variable {serialization : Kind} {fresh : Oid}

theorem getReferenceByPtr_placed
    {result : Option Oid × Option DataError} (allocated : (context.memory address).isSome)
    (isFresh : context.byAddress address = none → context.fresh fresh = true)
    (called : context.getReferenceByPtr address serialization fresh = (after, result)) :
    Placed after := by
  unfold getReferenceByPtr at called
  split at called
  · cases called
    exact placed
  · rename_i unmanaged
    split at called
    · cases called
      exact placed
    · simp only at called
      split at called
      · cases called
        exact placed.touch
      · cases called
        have absent : context.reference fresh = none := by
          have known := isFresh unmanaged
          simp only [DataContext.fresh, Bool.and_eq_true, Option.isNone_iff_eq_none] at known
          exact known.2
        refine placed.touch.place fresh ⟨.new, serialization, some address⟩ context.memory
          context.nextAddress ?_ rfl (by simp) (Option.isSome_iff_ne_none.mp allocated)
          fun _ there => there
        intro reference present
        rw [show context.reference fresh = some reference from present] at absent
        cases absent

variable {error : Option DataError}

theorem getReferenceByPtr_managed
    (called : context.getReferenceByPtr address serialization fresh = (after, some oid, error)) :
    ∃ reference, after.reference oid = some reference ∧ reference.obj = some address := by
  unfold getReferenceByPtr at called
  split at called
  · rename_i located
    cases called
    exact placed.managed address oid located
  · split at called
    · cases called
    · simp only at called
      split at called
      · cases called
      · cases called
        exact ⟨_, update_same _ _ _, rfl⟩

theorem mark_placed (allocated : (context.memory address).isSome)
    (isFresh : context.byAddress address = none → context.fresh fresh = true)
    (called : context.mark serialization address fresh = (after, error)) : Placed after := by
  unfold DataContext.mark at called
  split at called
  · rename_i located
    cases called
    exact getReferenceByPtr_placed placed allocated isFresh located
  · rename_i middle oid failure located
    have reached := getReferenceByPtr_placed placed allocated isFresh located
    obtain ⟨reference, present, has⟩ := getReferenceByPtr_managed placed located
    simp only [present] at called
    have marked := reached.setState present .modified (.inl (by rw [has]; nofun)) nofun
    split at called
    · split at called <;> cases called <;> exact marked.touch
    · cases called
      exact reached

omit placed

variable {codec : Codec Kind Value Bytes}

variable (placed : Placed context)
include placed

theorem dereference_placed {forUpdate : Bool} {result : Option Address × Option DataError}
    (present : context.reference oid = some reference)
    (called : context.dereference codec oid reference forUpdate = (after, result)) :
    Placed after := by
  unfold DataContext.dereference at called
  split at called
  · split at called
    · rename_i address has
      obtain ⟨allocated, located⟩ := placed.allocated oid reference address present has
      split at called
      · cases marked : context.mark reference.serialization address oid with
        | mk middle error =>
          rw [marked] at called
          cases called
          exact mark_placed placed (Option.isSome_iff_ne_none.mpr allocated)
            (fun unmanaged => absurd unmanaged located) marked
      · cases called
        exact placed
    · cases called
      exact placed
  · rename_i absent
    simp only [not_or, Bool.not_eq_true, Option.isSome_eq_false_iff, Option.isNone_iff_eq_none]
      at absent
    simp only at called
    split at called
    · cases called
      exact placed.touch
    · split at called
      · cases called
        exact placed.touch
      · rename_i data found
        split at called
        · cases called
          exact placed.touch.setState present .failed (.inr ⟨by simp, by simp, by simp⟩) (by simp)
        · cases called
          refine placed.touch.place oid _ _ _ ?_ rfl ?_ ?_ ?_
          · intro other there
            rw [show context.reference oid = some other from there] at present
            cases present
            exact absent.1
          · intro _
            rw [found]
            simp
          · rw [update_same]
            simp
          · exact update_some_ne_none _ _

theorem removeObject_placed (new : ManagedReference Kind)
    (called : context.removeObject oid = (after, error))
    (sameObj : new.obj = (context.reference oid).bind ManagedReference.obj)
    (removed : ¬ new.InMemory) : Placed (after.setReference oid new) := by
  have unfetched : new.state ≠ .notModified := fun fetched => removed (.inr (.inr fetched))
  simp only [DataContext.removeObject] at called
  split at called
  · cases called
    have done := placed.touch.change oid new (context.oids oid) sameObj
      (fun inMemory => absurd inMemory removed) (fun fetched => absurd fetched unfetched)
    rw [show context.touch.oids = context.oids from rfl, update_unchanged] at done
    exact done
  · cases called
    exact placed.touch.change oid new none sameObj (fun inMemory => absurd inMemory removed)
      (fun fetched => absurd fetched unfetched)

theorem removeReference_placed (present : context.reference oid = some reference)
    (called : context.removeReference oid reference = (after, error)) : Placed after := by
  cases removed : context.removeObject oid with
  | mk middle failure =>
    unfold removeReference at called
    rw [removed] at called
    split at called <;> cases called
    · exact removeObject_placed placed _ removed (by rw [present]; rfl)
        (by simp [ManagedReference.InMemory])
    · exact removeObject_placed placed _ removed (by rw [present]; rfl)
        (by simp [ManagedReference.InMemory])
    · exact removeObject_placed placed _ removed (by rw [present]; rfl)
        (by simp [ManagedReference.InMemory])
    · exact removeObject_placed placed _ removed (by rw [present]; rfl)
        (by simp [ManagedReference.InMemory])
    · exact placed.setState present .removedFetched (.inr ⟨nofun, nofun, nofun⟩) nofun
    · exact placed
    · exact placed

theorem getReferenceByOid_placed (serialization : Kind) (oid : Oid) :
    Placed (context.getReferenceByOid oid serialization).1 ∧
    (context.getReferenceByOid oid serialization).1.reference oid =
      some (context.getReferenceByOid oid serialization).2 := by
  unfold getReferenceByOid
  cases present : context.reference oid with
  | some reference => exact ⟨placed, present⟩
  | none =>
    refine ⟨?_, update_same _ _ _⟩
    have done := placed.change oid ⟨.empty, serialization, none⟩ (context.oids oid)
      (by rw [present]; rfl) (by simp [ManagedReference.InMemory]) nofun
    rw [update_unchanged] at done
    exact done

omit placed

variable {name : Name}

include placed

theorem getBinding_placed {found : Except DataError Oid}
    (called : context.getBinding name = (after, found)) : Placed after := by
  simp only [DataContext.getBinding] at called
  split at called
  · cases called
    exact placed.touch
  · split at called <;> cases called <;> exact placed.touch

theorem setBinding_placed [DecidableEq Name]
    (called : context.setBinding name oid = (after, error)) :
    Placed after := by
  simp only [DataContext.setBinding] at called
  split at called <;> cases called
  · exact placed.touch
  · exact { placed with }

theorem step_placed [DecidableEq Name] {operation : Operation Kind Value Name} {reply : Reply}
    (taken : context.step codec operation = some (after, reply)) : Placed after := by
  cases does_of_step taken with
  | allocate | assign => exact placed.remember _ _ (update_some_ne_none _ _)
  | createReference allocated isFresh located | unplaced allocated isFresh located =>
    exact getReferenceByPtr_placed placed allocated (fun _ => isFresh) located
  | createReferenceToOid serialization oid =>
    exact (getReferenceByOid_placed placed serialization oid).1
  | dereference present looked => exact dereference_placed placed present looked
  | mark allocated isFresh marked => exact mark_placed placed allocated (fun _ => isFresh) marked
  | removeObject present removed => exact removeReference_placed placed present removed
  | unbound got | bindingExists got => exact getBinding_placed placed got
  | getBinding got looked =>
    obtain ⟨reached, present⟩ := getReferenceByOid_placed (getBinding_placed placed got) _ _
    exact dereference_placed reached present looked
  | setBinding allocated isFresh located bound =>
    have reached := getReferenceByPtr_placed placed allocated (fun _ => isFresh) located
    exact setBinding_placed reached bound
  | setBindingToOid bound => exact setBinding_placed placed bound
  | unremoved => exact placed.touch
  | removeBinding => exact { placed with }

end

section

variable {codec : Codec Kind Value Bytes}
  {serializers : Serializers Kind Value Bytes Name} {flush after : Flush Kind Value Bytes Name}
  {oid : Oid}

variable {program : Serializing Kind Value Bytes Name} {transaction : Tx.Transaction}

/-- A serializer that calls the data layer while the transaction is preparing brings the
server down. -/
theorem serialize_crashes [DecidableEq Name] (codec : Codec Kind Value Bytes)
    (reenters : program.Reenters) (running : flush.scope.transaction = some transaction)
    (inactive : transaction.state ≠ .active) (untimed : flush.threadTiming = none) :
    serialize codec program flush = .crashed := by
  induction program generalizing flush with
  | finish out => exact reenters.elim
  | writeReference oid next ih => exact ih reenters running untimed
  | call operation next _ =>
    have idle : transactionActive flush.scope = false := by
      simp only [transactionActive, running, decide_eq_false_iff_not]
      exact inactive
    simp only [serialize, joinTransaction, gzochidTransactionTimed, bind_apply, Machine.get, idle,
      Bool.false_eq_true, if_false, untimed, Machine.expect, Machine.crash]

/-- Any other serializer writes its ids and leaves the transaction as it is. -/
theorem serialize_quiet [DecidableEq Name] (codec : Codec Kind Value Bytes)
    (flush : Flush Kind Value Bytes Name) (quiet : ¬ program.Reenters) :
    serialize codec program flush =
      match program.result with
      | none => .failed { flush with written := flush.written ++ program.writes }
      | some out => .ok out { flush with written := flush.written ++ program.writes } := by
  induction program generalizing flush with
  | finish out =>
    simp only [Serializing.writes, append_nil]
    cases out <;> rfl
  | writeReference oid next ih =>
    have rest := ih { flush with written := flush.written ++ [oid] } quiet
    simp only [append_assoc, singleton_append] at rest
    exact rest
  | call operation next _ => exact absurd trivial quiet

/-- No object to be flushed has a serializer that calls the data layer. -/
def Quiet (serializers : Serializers Kind Value Bytes Name)
    (context : DataContext Kind Value Bytes Name) : Prop :=
  ∀ oid reference address value, context.reference oid = some reference →
    reference.NeedsFlush → reference.obj = some address → context.memory address = some value →
    ¬ (serializers reference.serialization value).Reenters

/-- Every object to be flushed is in memory, and its serializer keeps to itself. -/
def Flushable (serializers : Serializers Kind Value Bytes Name)
    (context : DataContext Kind Value Bytes Name) : Prop :=
  ∀ oid reference, context.reference oid = some reference → reference.NeedsFlush →
    ∃ address value, reference.obj = some address ∧ context.memory address = some value ∧
      ¬ (serializers reference.serialization value).Reenters

variable {context : DataContext Kind Value Bytes Name} {reference : ManagedReference Kind}

theorem Placed.object (placed : Placed context) (present : context.reference oid = some reference)
    (needs : reference.NeedsFlush) :
    ∃ address value, reference.obj = some address ∧ context.memory address = some value := by
  have inMemory : reference.InMemory := needs.elim .inl fun modified => .inr (.inl modified)
  obtain ⟨address, has⟩ := Option.ne_none_iff_exists'.mp
    (placed.held oid reference present inMemory)
  obtain ⟨value, holds⟩ := Option.ne_none_iff_exists'.mp
    (placed.allocated oid reference address present has).1
  exact ⟨address, value, has, holds⟩

theorem Quiet.flushable (quiet : Quiet serializers context) (placed : Placed context) :
    Flushable serializers context := by
  intro oid reference present needs
  obtain ⟨address, value, has, holds⟩ := placed.object present needs
  exact ⟨address, value, has, holds, quiet oid reference address value present needs has holds⟩

theorem Flushable.of_same {after : DataContext Kind Value Bytes Name}
    (same : SameReferences context after) (flushable : Flushable serializers context) :
    Flushable serializers after := by
  unfold Flushable
  rw [same.reference, same.memory]
  exact flushable

/-- The object is to be flushed. -/
def Pending (context : DataContext Kind Value Bytes Name) (oid : Oid) : Prop :=
  ∃ reference, context.reference oid = some reference ∧ reference.NeedsFlush

/-- The flush of the object writes the other id. -/
def Writes (serializers : Serializers Kind Value Bytes Name)
    (context : DataContext Kind Value Bytes Name) (oid other : Oid) : Prop :=
  ∃ reference address value, context.reference oid = some reference ∧ reference.NeedsFlush ∧
    reference.obj = some address ∧ context.memory address = some value ∧
    other ∈ (serializers reference.serialization value).writes

theorem Writes.of_same {after : DataContext Kind Value Bytes Name}
    (same : SameReferences context after) (oid other : Oid) :
    Writes serializers after oid other ↔ Writes serializers context oid other := by
  unfold Writes
  rw [same.reference, same.memory]

/-- How one flush, or several, may end where all is well. -/
def Flushed (serializers : Serializers Kind Value Bytes Name) (flush : Flush Kind Value Bytes Name)
    (listed : Oid → Prop) : Outcome (Flush Kind Value Bytes Name) Unit → Prop
  | .crashed => False
  | .failed _ => True
  | .ok _ after =>
      SameReferences flush.context after.context ∧
      (∀ oid, after.context.oids oid ≠ none ↔
        flush.context.oids oid ≠ none ∨ listed oid ∧ Pending flush.context oid) ∧
      ∀ other, other ∈ after.written ↔
        other ∈ flush.written ∨ ∃ oid, listed oid ∧ Writes serializers flush.context oid other

variable {listed : Oid → Prop} {outcome : Outcome (Flush Kind Value Bytes Name) Unit}

/-- Only the listed ids that have a reference matter. -/
theorem Flushed.congr {others : Oid → Prop} (flushed : Flushed serializers flush listed outcome)
    (same : ∀ oid, flush.context.reference oid ≠ none → (others oid ↔ listed oid)) :
    Flushed serializers flush others outcome := by
  cases outcome with
  | crashed => exact flushed
  | failed after => trivial
  | ok _ after =>
    obtain ⟨kept, stored, written⟩ := flushed
    refine ⟨kept, fun oid => (stored oid).trans ?_, fun other => (written other).trans ?_⟩
    · apply or_congr_right
      apply and_congr_left
      rintro ⟨reference, present, _⟩
      exact (same oid (by rw [present]; nofun)).symm
    · apply or_congr_right
      apply exists_congr
      intro oid
      apply and_congr_left
      rintro ⟨reference, _, _, present, _⟩
      exact (same oid (by rw [present]; nofun)).symm

/-- One flush after another. -/
theorem Flushed.andThen {later : Oid → Prop} {value : Unit}
    (first : Flushed serializers flush listed (.ok value after))
    (second : Flushed serializers after later outcome) :
    Flushed serializers flush (fun oid => listed oid ∨ later oid) outcome := by
  cases outcome with
  | crashed => exact second
  | failed final => trivial
  | ok _ final =>
    obtain ⟨same, stored, written⟩ := first
    obtain ⟨sameLater, storedLater, writtenLater⟩ := second
    refine ⟨same.trans sameLater, fun oid => ?_, fun other => ?_⟩
    · rw [storedLater, stored, or_assoc, or_and_right]
      unfold Pending
      rw [same.reference]
    · rw [writtenLater, written, or_assoc]
      simp only [Writes.of_same same, or_and_right, exists_or]

theorem storeObject_eq (flush : Flush Kind Value Bytes Name) (oid : Oid) (out : Bytes) :
    storeObject oid out flush =
      if flush.context.rollback then .failed flush
      else if flush.context.touch.rollback then
        .failed { flush with context := flush.context.touch }
      else
        .ok () { flush with
          context := { flush.context.touch with
            oids := update flush.context.oids oid (some out) } } := by
  simp only [storeObject, bind_apply, Machine.get]
  split
  · rfl
  · simp only [bind_apply, Machine.modify, Machine.get]
    split <;> rfl

theorem flushReference_pending [DecidableEq Name] (codec : Codec Kind Value Bytes)
    {address : Address} {value : Value} (needs : reference.NeedsFlush)
    (has : reference.obj = some address) (holds : flush.context.memory address = some value)
    (quiet : ¬(serializers reference.serialization value).Reenters) :
    flushReference codec serializers oid reference flush =
      let wrote := { flush with
        written := flush.written ++ (serializers reference.serialization value).writes }
      match (serializers reference.serialization value).result with
      | none => .failed wrote
      | some out => storeObject oid out wrote := by
  rcases needs with state | state
  all_goals
    simp only [flushReference, state, bind_apply, Machine.get, has, Machine.expect, pure_apply,
      holds, serialize_quiet codec flush quiet]
    cases (serializers reference.serialization value).result <;> rfl

theorem flushReference_idle [DecidableEq Name] (codec : Codec Kind Value Bytes)
    (clean : ¬reference.NeedsFlush) :
    flushReference codec serializers oid reference flush = .ok () flush := by
  cases state : reference.state with
  | new => exact absurd (.inl state) clean
  | modified => exact absurd (.inr state) clean
  | empty | failed | notModified | removedEmpty | removedFetched =>
    simp only [flushReference, state]
    rfl

theorem flushReference_flushed [DecidableEq Name] (codec : Codec Kind Value Bytes)
    (flushable : Flushable serializers flush.context)
    (present : flush.context.reference oid = some reference) :
    Flushed serializers flush (· = oid) (flushReference codec serializers oid reference flush) := by
  by_cases needs : reference.NeedsFlush
  · obtain ⟨address, value, has, holds, quiet⟩ := flushable oid reference present needs
    have writes : ∀ other, (∃ found, found = oid ∧ Writes serializers flush.context found other) ↔
        other ∈ (serializers reference.serialization value).writes := by
      intro other
      constructor
      · rintro ⟨_, rfl, found, place, object, present', _, has', holds', wrote⟩
        rw [present] at present'
        cases present'
        rw [has] at has'
        cases has'
        rw [holds] at holds'
        cases holds'
        exact wrote
      · exact fun wrote => ⟨oid, rfl, reference, address, value, present, needs, has, holds, wrote⟩
    rw [flushReference_pending codec needs has holds quiet]
    cases (serializers reference.serialization value).result with
    | none => trivial
    | some out =>
      simp only [storeObject_eq]
      split
      · trivial
      · split
        · trivial
        · refine ⟨⟨rfl, rfl, rfl⟩, fun other => ?_, fun other => ?_⟩
          · by_cases same : other = oid
            · subst same
              simp [Pending, present, needs]
            · simp [update_other _ _ same, same]
          · rw [writes, mem_append]
  · rw [flushReference_idle codec needs]
    have idle : ¬Pending flush.context oid := by
      rintro ⟨found, present', needs'⟩
      rw [present] at present'
      cases present'
      exact needs needs'
    refine ⟨⟨rfl, rfl, rfl⟩, fun other => ?_, fun other => ?_⟩
    · refine (or_iff_left ?_).symm
      rintro ⟨rfl, pending⟩
      exact idle pending
    · refine (or_iff_left ?_).symm
      rintro ⟨_, rfl, found, _, _, present', needs', _⟩
      exact idle ⟨found, present', needs'⟩

theorem flushEach_flushed [DecidableEq Name] (codec : Codec Kind Value Bytes) (order : List Oid)
    (flushable : Flushable serializers flush.context) :
    Flushed serializers flush (· ∈ order) (flushEach codec serializers order flush) := by
  induction order generalizing flush with
  | nil => exact ⟨⟨rfl, rfl, rfl⟩, by simp, by simp⟩
  | cons first rest ih =>
    simp only [flushEach, bind_apply, Machine.get]
    cases present : flush.context.reference first with
    | none =>
      refine (ih flushable).congr fun oid found => ?_
      rw [mem_cons]
      refine or_iff_right ?_
      rintro rfl
      exact found present
    | some reference =>
      have one := flushReference_flushed codec flushable present
      simp only [bind_apply]
      cases ended : flushReference codec serializers first reference flush with
      | crashed =>
        rw [ended] at one
        exact one
      | failed after => trivial
      | ok _ middle =>
        rw [ended] at one
        exact (one.andThen (ih (flushable.of_same one.1))).congr fun oid _ => mem_cons

theorem prepareWith_flushed [DecidableEq Name] (codec : Codec Kind Value Bytes)
    (flush : Flush Kind Value Bytes Name) (order : List Oid)
    (flushable : Flushable serializers flush.context) :
    Flushed serializers flush (· ∈ order) (prepareWith codec serializers order flush) := by
  have each := flushEach_flushed codec order flushable
  simp only [prepareWith, bind_apply]
  cases ended : flushEach codec serializers order flush with
  | crashed =>
    rw [ended] at each
    exact each
  | failed after => trivial
  | ok _ after =>
    rw [ended] at each
    obtain ⟨same, stored, written⟩ := each
    simp only [Machine.modify, Machine.get]
    split
    · trivial
    · exact ⟨{ same with }, stored, written⟩

instance (reference : ManagedReference Kind) : Decidable reference.NeedsFlush :=
  inferInstanceAs (Decidable (_ ∨ _))

/-- The storage engine accepts this many more calls. -/
def Accepts (context : DataContext Kind Value Bytes Name) (calls : Nat) : Prop :=
  context.rollback = false ∧ ∀ call < calls, context.answers (context.asked + call) = true

/-- How many of the listed objects are to be flushed. -/
def pendingCount (context : DataContext Kind Value Bytes Name) (order : List Oid) : Nat :=
  order.countP fun oid => (context.reference oid).any fun reference => decide reference.NeedsFlush

/-- The prepare phase goes through: each object to be flushed can be serialized, and the storage
engine accepts it, and one call more at the end. -/
def Succeeds (serializers : Serializers Kind Value Bytes Name)
    (context : DataContext Kind Value Bytes Name) (order : List Oid) : Prop :=
  Accepts context (pendingCount context order + 1) ∧
  ∀ oid ∈ order, ∀ reference address value, context.reference oid = some reference →
    reference.NeedsFlush → reference.obj = some address → context.memory address = some value →
    (serializers reference.serialization value).result ≠ none

theorem accepts_succ (calls : Nat) : Accepts context (calls + 1) ↔ Accepts context.touch calls := by
  constructor
  · rintro ⟨fine, answers⟩
    refine ⟨?_, fun call below => ?_⟩
    · simp only [DataContext.touch, fine, Bool.false_or, Bool.not_eq_false']
      exact answers 0 (Nat.succ_pos calls)
    · have later := answers (call + 1) (Nat.succ_lt_succ below)
      rwa [← Nat.add_assoc, Nat.add_right_comm] at later
  · rintro ⟨fine, answers⟩
    refine ⟨touch_fine fine, fun call below => ?_⟩
    cases call with
    | zero =>
      simp only [DataContext.touch, Bool.or_eq_false_iff, Bool.not_eq_false'] at fine
      exact fine.2
    | succ call =>
      have later := answers call (Nat.lt_of_succ_lt_succ below)
      rwa [← Nat.add_assoc, Nat.add_right_comm]

/-- Whether the flush of one object goes through, and leaves the engine with calls to accept. -/
theorem flushReference_succeeds [DecidableEq Name] (oid : Oid) (codec : Codec Kind Value Bytes)
    {address : Address} {value : Value} (needs : reference.NeedsFlush)
    (has : reference.obj = some address) (holds : flush.context.memory address = some value)
    (quiet : ¬(serializers reference.serialization value).Reenters) (calls : Nat) :
    (∃ after, flushReference codec serializers oid reference flush = .ok () after ∧
      Accepts after.context calls) ↔
    Accepts flush.context (calls + 1) ∧
      (serializers reference.serialization value).result ≠ none := by
  rw [flushReference_pending codec needs has holds quiet, accepts_succ]
  cases (serializers reference.serialization value).result with
  | none => simp
  | some out =>
    simp only [storeObject_eq]
    split
    next marked => simp [Accepts, DataContext.touch, marked]
    next =>
      split
      next refused => simp [Accepts, refused]
      next => simp [Accepts]

theorem Succeeds.of_same {after : DataContext Kind Value Bytes Name}
    (same : SameReferences context after) (order : List Oid) :
    Succeeds serializers after order ↔
      Accepts after (pendingCount context order + 1) ∧
      ∀ oid ∈ order, ∀ reference address value, context.reference oid = some reference →
        reference.NeedsFlush → reference.obj = some address →
        context.memory address = some value →
        (serializers reference.serialization value).result ≠ none := by
  unfold Succeeds pendingCount
  rw [same.reference, same.memory]

theorem succeeds_cons_idle (idle : ¬Pending context oid) (rest : List Oid) :
    Succeeds serializers context (oid :: rest) ↔ Succeeds serializers context rest := by
  have uncounted : pendingCount context (oid :: rest) = pendingCount context rest := by
    apply countP_cons_of_neg
    rw [Option.any_eq_true_iff_get]
    rintro ⟨there, needs⟩
    exact idle ⟨_, Option.eq_some_of_isSome there, of_decide_eq_true needs⟩
  unfold Succeeds
  rw [uncounted, forall_mem_cons]
  refine and_congr_right fun _ => and_iff_right ?_
  intro reference _ _ present needs
  exact absurd ⟨reference, present, needs⟩ idle

theorem flushEach_succeeds [DecidableEq Name] (codec : Codec Kind Value Bytes) (order : List Oid)
    (flushable : Flushable serializers flush.context) :
    (∃ after, flushEach codec serializers order flush = .ok () after ∧ Accepts after.context 1) ↔
      Succeeds serializers flush.context order := by
  induction order generalizing flush with
  | nil => simp [flushEach, Succeeds, pendingCount]
  | cons first rest ih =>
    simp only [flushEach, bind_apply, Machine.get]
    cases present : flush.context.reference first with
    | none =>
      rw [succeeds_cons_idle (by rintro ⟨_, found, _⟩; rw [present] at found; cases found)]
      exact ih flushable
    | some reference =>
      simp only [bind_apply]
      by_cases needs : reference.NeedsFlush
      · obtain ⟨address, value, has, holds, quiet⟩ := flushable first reference present needs
        have one := flushReference_succeeds first codec needs has holds quiet
          (pendingCount flush.context rest + 1)
        have counted : pendingCount flush.context (first :: rest) =
            pendingCount flush.context rest + 1 :=
          countP_cons_of_pos (by rw [present]; exact decide_eq_true needs)
        have whole : Succeeds serializers flush.context (first :: rest) ↔
            (∃ after, flushReference codec serializers first reference flush = .ok () after ∧
              Accepts after.context (pendingCount flush.context rest + 1)) ∧
            ∀ oid ∈ rest, ∀ reference address value,
              flush.context.reference oid = some reference → reference.NeedsFlush →
              reference.obj = some address → flush.context.memory address = some value →
              (serializers reference.serialization value).result ≠ none := by
          unfold Succeeds
          rw [one, counted, forall_mem_cons, and_assoc]
          refine and_congr_right fun _ => and_congr_left fun _ => ⟨?_, ?_⟩
          · exact fun each => each reference address value present needs has holds
          · intro serialized found place object present' _ has' holds'
            rw [present] at present'
            cases present'
            rw [has] at has'
            cases has'
            rw [holds] at holds'
            cases holds'
            exact serialized
        have flushed := flushReference_flushed codec flushable present
        rw [whole]
        cases ended : flushReference codec serializers first reference flush with
        | crashed | failed => simp
        | ok _ middle =>
          rw [ended] at flushed
          simp only [ih (flushable.of_same flushed.1), Succeeds.of_same flushed.1]
          simp
      · rw [flushReference_idle codec needs, succeeds_cons_idle]
        · exact ih flushable
        · rintro ⟨_, found, needs'⟩
          rw [present] at found
          cases found
          exact needs needs'

theorem prepareWith_succeeds [DecidableEq Name] (codec : Codec Kind Value Bytes) (order : List Oid)
    (flushable : Flushable serializers flush.context) :
    (∃ after, prepareWith codec serializers order flush = .ok () after) ↔
      Succeeds serializers flush.context order := by
  rw [← flushEach_succeeds codec order flushable]
  simp only [prepareWith, bind_apply]
  cases flushEach codec serializers order flush with
  | crashed | failed => simp
  | ok _ after =>
    simp only [Machine.modify, Machine.get, accepts_succ]
    cases refused : after.context.touch.rollback with
    | true => simp [Accepts, refused, Machine.fail]
    | false => simp [Accepts, refused]

/-- The flush of one object whose serializer calls the data layer. -/
theorem flushReference_crashes [DecidableEq Name] (codec : Codec Kind Value Bytes)
    (flush : Flush Kind Value Bytes Name) (oid : Oid) {address : Address} {value : Value}
    (needs : reference.NeedsFlush) (has : reference.obj = some address)
    (holds : flush.context.memory address = some value)
    (reenters : (serializers reference.serialization value).Reenters)
    (running : flush.scope.transaction = some transaction)
    (inactive : transaction.state ≠ .active) (untimed : flush.threadTiming = none) :
    flushReference codec serializers oid reference flush = .crashed := by
  have crashes := serialize_crashes codec reenters running inactive untimed
  rcases needs with state | state <;>
    simp only [flushReference, state, bind_apply, Machine.get, has, Machine.expect,
      pure_apply, holds, crashes]

end

/-- The order lists the table of references. -/
def Lists (order : List Oid) (context : DataContext Kind Value Bytes Name) : Prop :=
  order.Nodup ∧ ∀ oid, oid ∈ order ↔ context.reference oid ≠ none

/-- The server goes on, and if the transaction can commit, every object created in it and
not removed is in the store, and so is every object whose id has been written. -/
def Closed : Outcome (Flush Kind Value Bytes Name) Unit → Prop
  | .crashed => False
  | .failed _ => True
  | .ok _ after =>
      (∀ oid reference, after.context.reference oid = some reference →
        reference.state = .new → after.context.oids oid ≠ none) ∧
      ∀ oid ∈ after.written, after.context.oids oid ≠ none

/-- Every id that is written is that of a stored object, or of one to be flushed. -/
def Resolved (serializers : Serializers Kind Value Bytes Name)
    (context : DataContext Kind Value Bytes Name) : Prop :=
  ∀ oid other, Writes serializers context oid other →
    context.oids other ≠ none ∨ Pending context other

theorem begin_placed (oids : Oid → Option Bytes) (names : Name → Option Oid)
    (answers : Nat → Bool) :
    Placed (begin oids names answers : DataContext Kind Value Bytes Name) where
  allocated := nofun
  held := nofun
  stored := nofun
  managed := nofun
  finite := ⟨[], fun _ there => absurd rfl there⟩

variable {context : DataContext Kind Value Bytes Name}

/-- The table can be listed with any of its references first. -/
theorem exists_lists (placed : Placed context) (oid : Oid)
    (present : context.reference oid ≠ none) :
    ∃ rest, Lists (oid :: rest) context := by
  obtain ⟨known, covers⟩ := placed.finite
  let others := (known.dedup.filter fun other => (context.reference other).isSome).erase oid
  have nodup : (known.dedup.filter fun other => (context.reference other).isSome).Nodup :=
    (nodup_dedup known).filter _
  refine ⟨others, nodup_cons.mpr ⟨nodup.not_mem_erase, nodup.erase oid⟩, fun other => ?_⟩
  rw [mem_cons, nodup.mem_erase_iff, mem_filter, mem_dedup, Option.isSome_iff_ne_none]
  constructor
  · rintro (rfl | ⟨_, _, there⟩)
    · exact present
    · exact there
  · intro there
    by_cases same : other = oid
    · exact .inl same
    · exact .inr ⟨same, covers other there, there⟩

theorem prepareWith_crashes [DecidableEq Name] (codec : Codec Kind Value Bytes)
    {serializers : Serializers Kind Value Bytes Name} (transaction : Tx.Transaction)
    (timing : Tx.Timing) (rest : List Oid) {oid : Oid} (reference : ManagedReference Kind)
    (address : Address) (value : Value) (present : context.reference oid = some reference)
    (needs : reference.NeedsFlush) (has : reference.obj = some address)
    (holds : context.memory address = some value)
    (reenters : (serializers reference.serialization value).Reenters) :
    prepareWith codec serializers (oid :: rest) (preparing transaction timing context) =
      .crashed := by
  have one := flushReference_crashes codec (preparing transaction timing context) oid needs has
    holds reenters rfl nofun rfl
  simp only [prepareWith, flushEach, bind_apply, Machine.get]
  rw [show (preparing transaction timing context).context.reference oid = some reference
    from present]
  simp only [bind_apply, one]

/-- Whatever a transaction has done and in whatever order its references are flushed, the
prepare phase goes well and leaves no dangling id exactly if no serializer calls back and, unless
the phase fails, none writes an id that stands for nothing. -/
theorem prepare_closed_iff [DecidableEq Name] (codec : Codec Kind Value Bytes)
    (serializers : Serializers Kind Value Bytes Name) (transaction : Tx.Transaction)
    (timing : Tx.Timing) (oids : Oid → Option Bytes) (names : Name → Option Oid)
    (answers : Nat → Bool) {trace : List (Operation Kind Value Name × Reply)}
    {context : DataContext Kind Value Bytes Name}
    (run : Run (step codec) anyAction (.begin oids names answers) trace context) :
    (∀ order, Lists order context →
      Closed (prepareWith codec serializers order (preparing transaction timing context))) ↔
    Quiet serializers context ∧
      ∀ order, Lists order context → Succeeds serializers context order →
        Resolved serializers context := by
  have placed : Placed context := run.state_invariant Placed (begin_placed oids names answers)
    fun placed _ taken => step_placed placed taken
  constructor
  · intro closed
    have quiet : Quiet serializers context := by
      intro oid reference address value present needs has holds reenters
      obtain ⟨rest, lists⟩ := exists_lists placed oid (by rw [present]; nofun)
      have impossible := closed _ lists
      rw [prepareWith_crashes codec transaction timing rest reference address value present needs
        has holds reenters] at impossible
      exact impossible
    refine ⟨quiet, fun order lists succeeds oid other writes => ?_⟩
    have flushable := quiet.flushable placed
    have flushed := prepareWith_flushed codec (preparing transaction timing context) order flushable
    have ends := closed order lists
    obtain ⟨after, ended⟩ : ∃ after, prepareWith codec serializers order
        (preparing transaction timing context) = .ok () after :=
      (prepareWith_succeeds codec order flushable).mpr succeeds
    rw [ended] at flushed ends
    obtain ⟨_, stored, written⟩ := flushed
    have listed : oid ∈ order := by
      obtain ⟨reference, _, _, present, _⟩ := writes
      exact (lists.2 oid).mpr (by rw [present]; nofun)
    have there := ends.2 other ((written other).mpr (.inr ⟨oid, listed, writes⟩))
    exact ((stored other).mp there).imp_right And.right
  · rintro ⟨quiet, resolved⟩ order lists
    have flushable := quiet.flushable placed
    have flushed := prepareWith_flushed codec (preparing transaction timing context) order flushable
    cases ended : prepareWith codec serializers order (preparing transaction timing context) with
    | crashed =>
        rw [ended] at flushed
        exact flushed
    | failed after => trivial
    | ok _ after =>
        have succeeds : Succeeds serializers context order :=
          (prepareWith_succeeds codec order flushable).mp ⟨after, ended⟩
        rw [ended] at flushed
        obtain ⟨same, stored, written⟩ := flushed
        have listed : ∀ oid, Pending context oid → oid ∈ order := by
          rintro oid ⟨reference, present, _⟩
          exact (lists.2 oid).mpr (by rw [present]; nofun)
        constructor
        · intro oid reference present state
          rw [same.reference] at present
          have pending : Pending context oid := ⟨reference, present, .inl state⟩
          exact (stored oid).mpr (.inr ⟨listed oid pending, pending⟩)
        · intro other member
          rcases (written other).mp member with early | ⟨oid, _, writes⟩
          · cases early
          · rcases resolved order lists succeeds oid other writes with there | pending
            · exact (stored other).mpr (.inl there)
            · exact (stored other).mpr (.inr ⟨listed other pending, pending⟩)

/-- A transaction without participants or time limit, for examples. -/
def plainTransaction : Tx.Transaction := Tx.transactionNew

def plainTiming : Tx.Timing := ⟨.zero, none⟩

/-- An object is created with a reference to another, and both are stored. -/
theorem prepare_closed_iff_plain : ∃ trace context, Run (step plainCodec) anyAction
        (.begin (fun _ => none) (fun _ : Nat => none) fun _ => true) trace context ∧
      ∀ order, Lists order context → Closed (prepareWith plainCodec
          (fun _ value => .writeReference 1 (.finish (some value))) order
          (preparing plainTransaction plainTiming context)) := by
  have run : Run (step plainCodec) anyAction
      (.begin (fun _ => none) (fun _ : Nat => none) fun _ => true) _ _ :=
    run_of_exec (show exec _ _ [.allocate 5, .createReference () 0 0, .allocate 6,
      .createReference () 1 1] = some (_, _) from rfl)
  refine ⟨_, _, run, (prepare_closed_iff plainCodec _ plainTransaction plainTiming _ _ _ run).mpr
    ⟨fun _ _ _ _ _ _ _ _ reenters => reenters, fun _ _ _ => ?_⟩⟩
  rintro oid other ⟨reference, address, value, _, _, _, _, wrote⟩
  cases mem_singleton.mp wrote
  exact .inr ⟨_, rfl, .inl rfl⟩

/-- An object is created whose serializer calls `gzochi:serialize` on another one that has
no reference yet.  The assertion of `gzochid_transaction_join`, which would come next, does not
hold either. -/
theorem serializer_ends_server : ∃ trace context, Run (step plainCodec) anyAction
        (.begin (fun _ => none) (fun _ : Nat => none) fun _ => true) trace context ∧
      Lists [0] context ∧
      Tx.gzochidTransactionJoin (preparing plainTransaction plainTiming context).scope
        dataParticipant = none ∧
      ¬ Closed (prepareWith plainCodec (fun kind value =>
          if value = 5 then .gzochiSerialize kind 1 1 (.finish (some value))
          else .finish (some value)) [0]
        (preparing plainTransaction plainTiming context)) := by
  have run : Run (step plainCodec) anyAction
      (.begin (fun _ => none) (fun _ : Nat => none) fun _ => true) _ _ :=
    run_of_exec (show exec _ _ [.allocate 5, .createReference () 0 0, .allocate 6] =
      some (_, _) from rfl)
  refine ⟨_, _, run, ⟨nodup_singleton 0, fun oid => ?_⟩, rfl, ?_⟩
  · rcases oid with _ | oid
    · exact ⟨fun _ => nofun, fun _ => mem_cons_self⟩
    · exact ⟨fun member => absurd (mem_singleton.mp member) nofun,
        fun present => absurd rfl present⟩
  · intro closed
    rw [prepareWith_crashes plainCodec _ _ [] ⟨.new, (), some 0⟩ 0 5] at closed
    · exact closed
    · rfl
    · exact .inl rfl
    · rfl
    · rfl
    · trivial

end Gzochi.Data
