import Gzochi.Data.References
import Mathlib.Tactic.ByContra

/-!
# What the data layer is for

An object store maps ids to objects and names to ids.  A transaction on it may look at
objects, change them in memory, create and remove them.  When it ends, the objects that
are new or were marked are stored as they are in memory then, the removed ones are gone
and all others are as they were.
-/

namespace Gzochi.Data

open Lib DataContext

def Reply.error : Reply → Option DataError
  | .address _ => none
  | .reference _ error | .object _ error | .flag _ error | .status error => error

/-- What a transaction has done about an object. -/
inductive Knowledge (Kind : Type) where
  | unknown
  | named (serialization : Kind)
  | failed (serialization : Kind)
  | loaded (serialization : Kind) (address : Address)
  | changed (serialization : Kind) (address : Address)
  | removed

structure ObjectStore (Kind Value Bytes Name : Type) where
  stored : Oid → Option Bytes
  names : Name → Option Oid
  knowledge : Oid → Knowledge Kind
  managed : Address → Option Oid
  memory : Address → Option Value
  nextAddress : Address

variable {Kind Value Bytes Name : Type}

namespace ObjectStore

def know (store : ObjectStore Kind Value Bytes Name) (oid : Oid) (knowledge : Knowledge Kind) :
    ObjectStore Kind Value Bytes Name :=
  { store with knowledge := update store.knowledge oid knowledge }

/-- From now on the object at the address is one of the store. -/
def manage (store : ObjectStore Kind Value Bytes Name) (serialization : Kind)
    (address : Address) (fresh : Oid) : ObjectStore Kind Value Bytes Name × Oid :=
  match store.managed address with
  | some oid => (store, oid)
  | none =>
      ({ store.know fresh (.changed serialization address) with
        managed := update store.managed address (some fresh) }, fresh)

/-- A removed or missing object is not found.  Any other is in memory afterwards, unless its
bytes cannot be read. -/
def look (codec : Codec Kind Value Bytes) (store : ObjectStore Kind Value Bytes Name)
    (oid : Oid) (forUpdate : Bool) : Option (ObjectStore Kind Value Bytes Name × Reply) :=
  match store.knowledge oid with
  | .unknown => none
  | .removed => some (store, .object none (some .notFound))
  | .failed _ => some (store, .object none (some .deserializer))
  | .changed _ address => some (store, .object (some address) none)
  | .loaded serialization address =>
      some (if forUpdate then store.know oid (.changed serialization address) else store,
        .object (some address) none)
  | .named serialization =>
      match store.stored oid with
      | none => some (store, .object none (some .notFound))
      | some data =>
          match codec.deserializer serialization data with
          | none =>
              some (store.know oid (.failed serialization), .object none (some .deserializer))
          | some value =>
              let address := store.nextAddress
              some ({ store.know oid
                  (if forUpdate then .changed serialization address
                    else .loaded serialization address) with
                memory := update store.memory address (some value)
                nextAddress := address + 1
                managed := update store.managed address (some oid) },
                .object (some address) none)

/-- A reference to an id, whether there is an object or not. -/
def name (store : ObjectStore Kind Value Bytes Name) (serialization : Kind) (oid : Oid) :
    ObjectStore Kind Value Bytes Name :=
  match store.knowledge oid with
  | .unknown => store.know oid (.named serialization)
  | _ => store

/-- An object that is in memory will be stored, unless it has been removed. -/
def markFor (store : ObjectStore Kind Value Bytes Name) (oid : Oid) :
    ObjectStore Kind Value Bytes Name :=
  match store.knowledge oid with
  | .loaded serialization address => store.know oid (.changed serialization address)
  | _ => store

def step [DecidableEq Name] (codec : Codec Kind Value Bytes)
    (store : ObjectStore Kind Value Bytes Name) :
    Operation Kind Value Name → Option (ObjectStore Kind Value Bytes Name × Reply)
  | .allocate value =>
      some ({ store with
        memory := update store.memory store.nextAddress (some value)
        nextAddress := store.nextAddress + 1 }, .address store.nextAddress)
  | .assign address value =>
      if (store.memory address).isSome then
        some ({ store with memory := update store.memory address (some value) }, .status none)
      else none
  | .createReference serialization address fresh =>
      let (store, oid) := store.manage serialization address fresh
      some (store, .reference (some oid) none)
  | .createReferenceToOid serialization oid =>
      some (store.name serialization oid, .reference (some oid) none)
  | .dereference oid forUpdate => store.look codec oid forUpdate
  | .mark serialization address fresh =>
      let (store, oid) := store.manage serialization address fresh
      some (store.markFor oid, .status none)
  | .removeObject oid =>
      match store.knowledge oid with
      | .unknown => none
      | .removed => some (store, .status none)
      | .named _ | .failed _ =>
          some (store.know oid .removed,
            .status (if (store.stored oid).isNone then some .notFound else none))
      | .loaded _ _ | .changed _ _ => some (store.know oid .removed, .status none)
  | .getBinding serialization name =>
      match store.names name with
      | none => some (store, .object none (some .notFound))
      | some oid => (store.name serialization oid).look codec oid false
  | .setBinding serialization name address fresh =>
      let (store, oid) := store.manage serialization address fresh
      some ({ store with names := update store.names name (some oid) }, .status none)
  | .setBindingToOid name oid =>
      some ({ store with names := update store.names name (some oid) }, .status none)
  | .removeBinding name =>
      some ({ store with names := update store.names name none },
        .status (if (store.names name).isNone then some .notFound else none))
  | .bindingExists name => some (store, .flag (store.names name).isSome none)

/-- The objects after the transaction. -/
def commit (codec : Codec Kind Value Bytes) (store : ObjectStore Kind Value Bytes Name)
    (oid : Oid) : Option Bytes :=
  match store.knowledge oid with
  | .changed serialization address =>
      (store.memory address).bind (codec.serializer serialization)
  | .removed => none
  | .unknown | .named _ | .failed _ | .loaded _ _ => store.stored oid

end ObjectStore

/-- What the data layer has for one id, and what that means. -/
inductive Means (stored : Option Bytes) :
    Option (ManagedReference Kind) → Option Bytes → Knowledge Kind → Prop where
  | unknown : Means stored none stored .unknown
  | empty (serialization : Kind) :
      Means stored (some ⟨.empty, serialization, none⟩) stored (.named serialization)
  | failed (serialization : Kind) :
      Means stored (some ⟨.failed, serialization, none⟩) stored (.failed serialization)
  | notModified (serialization : Kind) (address : Address) (present : stored ≠ none) :
      Means stored (some ⟨.notModified, serialization, some address⟩) stored
        (.loaded serialization address)
  | modified (serialization : Kind) (address : Address) (present : stored ≠ none) :
      Means stored (some ⟨.modified, serialization, some address⟩) stored
        (.changed serialization address)
  | new (serialization : Kind) (address : Address) (absent : stored = none) :
      Means stored (some ⟨.new, serialization, some address⟩) none
        (.changed serialization address)
  | removedEmpty (serialization : Kind) (obj : Option Address) :
      Means stored (some ⟨.removedEmpty, serialization, obj⟩) none .removed
  | removedFetched (serialization : Kind) (obj : Option Address) :
      Means stored (some ⟨.removedFetched, serialization, obj⟩) none .removed

/-- The data layer stands for the object store. -/
structure Refines (context : DataContext Kind Value Bytes Name)
    (store : ObjectStore Kind Value Bytes Name) : Prop where
  names : context.names = store.names
  memory : context.memory = store.memory
  nextAddress : context.nextAddress = store.nextAddress
  byAddress : context.byAddress = store.managed
  means : ∀ oid, Means (store.stored oid) (context.reference oid) (context.oids oid)
    (store.knowledge oid)
  located : ∀ oid reference address, context.reference oid = some reference →
    reference.obj = some address → context.byAddress address = some oid
  known : ∀ address oid, context.byAddress address = some oid →
    context.memory address ≠ none ∧
      ∃ reference, context.reference oid = some reference ∧ reference.obj = some address
  below : ∀ address, context.memory address ≠ none → address < context.nextAddress

section

variable {context after : DataContext Kind Value Bytes Name}
  {store : ObjectStore Kind Value Bytes Name} {oid : Oid}

theorem touch_fine (fine : context.touch.rollback = false) : context.rollback = false := by
  simp only [touch, Bool.or_eq_false_iff] at fine
  exact fine.1

/-- The functions that a call runs, with what they give. -/
inductive Does [DecidableEq Name] (codec : Codec Kind Value Bytes)
    (context : DataContext Kind Value Bytes Name) :
    Operation Kind Value Name → DataContext Kind Value Bytes Name → Reply → Prop where
  | allocate (value : Value) :
      Does codec context (.allocate value)
        { context with
          memory := update context.memory context.nextAddress (some value)
          nextAddress := context.nextAddress + 1 } (.address context.nextAddress)
  | assign {address : Address} (value : Value) : (context.memory address).isSome →
      Does codec context (.assign address value)
        { context with memory := update context.memory address (some value) } (.status none)
  | createReference {serialization : Kind} {address : Address} {fresh : Oid}
      {after : DataContext Kind Value Bytes Name} {found : Option Oid} {error : Option DataError} :
      (context.memory address).isSome → context.fresh fresh →
      context.getReferenceByPtr address serialization fresh = (after, found, error) →
      Does codec context (.createReference serialization address fresh) after
        (.reference found error)
  | createReferenceToOid (serialization : Kind) (oid : Oid) :
      Does codec context (.createReferenceToOid serialization oid)
        (context.getReferenceByOid oid serialization).1 (.reference (some oid) none)
  | dereference {oid : Oid} {forUpdate : Bool} {reference : ManagedReference Kind}
      {after : DataContext Kind Value Bytes Name} {found : Option Address}
      {error : Option DataError} :
      context.reference oid = some reference →
      context.dereference codec oid reference forUpdate = (after, found, error) →
      Does codec context (.dereference oid forUpdate) after (.object found error)
  | mark {serialization : Kind} {address : Address} {fresh : Oid}
      {after : DataContext Kind Value Bytes Name} {error : Option DataError} :
      (context.memory address).isSome → context.fresh fresh →
      context.mark serialization address fresh = (after, error) →
      Does codec context (.mark serialization address fresh) after (.status error)
  | removeObject {oid : Oid} {reference : ManagedReference Kind}
      {after : DataContext Kind Value Bytes Name} {error : Option DataError} :
      context.reference oid = some reference →
      context.removeReference oid reference = (after, error) →
      Does codec context (.removeObject oid) after (.status error)
  | unbound {serialization : Kind} {name : Name} {after : DataContext Kind Value Bytes Name}
      {error : DataError} : context.getBinding name = (after, .error error) →
      Does codec context (.getBinding serialization name) after (.object none (some error))
  | getBinding {serialization : Kind} {name : Name}
      {middle after : DataContext Kind Value Bytes Name}
      {oid : Oid} {found : Option Address} {error : Option DataError} :
      context.getBinding name = (middle, .ok oid) →
      (middle.getReferenceByOid oid serialization).1.dereference codec oid
        (middle.getReferenceByOid oid serialization).2 false = (after, found, error) →
      Does codec context (.getBinding serialization name) after (.object found error)
  | setBinding {serialization : Kind} {name : Name} {address : Address} {fresh oid : Oid}
      {middle after : DataContext Kind Value Bytes Name} {error : Option DataError} :
      (context.memory address).isSome → context.fresh fresh →
      context.getReferenceByPtr address serialization fresh = (middle, some oid, none) →
      middle.setBinding name oid = (after, error) →
      Does codec context (.setBinding serialization name address fresh) after (.status error)
  | unplaced {serialization : Kind} {name : Name} {address : Address} {fresh : Oid}
      {after : DataContext Kind Value Bytes Name} {found : Option Oid} {error : Option DataError} :
      (context.memory address).isSome → context.fresh fresh →
      context.getReferenceByPtr address serialization fresh = (after, found, error) →
      (∀ oid, found = some oid → error = none → False) →
      Does codec context (.setBinding serialization name address fresh) after (.status error)
  | setBindingToOid {name : Name} {oid : Oid} {after : DataContext Kind Value Bytes Name}
      {error : Option DataError} : context.setBinding name oid = (after, error) →
      Does codec context (.setBindingToOid name oid) after (.status error)
  | unremoved (name : Name) : context.touch.rollback = true →
      Does codec context (.removeBinding name) context.touch (.status (some .transaction))
  | removeBinding (name : Name) : context.touch.rollback = false →
      Does codec context (.removeBinding name)
        { context.touch with names := update context.names name none }
        (.status (if (context.names name).isNone then some .notFound else none))
  | bindingExists {name : Name} {after : DataContext Kind Value Bytes Name}
      {found : Except DataError Oid} : context.getBinding name = (after, found) →
      Does codec context (.bindingExists name) after
        (match found with
        | .ok _ => .flag true none
        | .error .notFound => .flag false none
        | .error error => .flag false (some error))

variable {codec : Codec Kind Value Bytes}

variable {operation : Operation Kind Value Name} {reply : Reply}

theorem does_of_step [DecidableEq Name]
    (taken : context.step codec operation = some (after, reply)) :
    Does codec context operation after reply := by
  cases operation with
  | allocate value =>
    cases taken
    exact .allocate value
  | assign address value =>
    simp only [DataContext.step] at taken
    split at taken <;> cases taken
    exact .assign value ‹_›
  | createReference serialization address fresh =>
    simp only [DataContext.step] at taken
    split at taken <;> cases taken
    rename_i valid
    exact .createReference valid.1 valid.2 rfl
  | createReferenceToOid serialization oid =>
    cases taken
    exact .createReferenceToOid serialization oid
  | dereference oid forUpdate =>
    simp only [DataContext.step] at taken
    split at taken <;> cases taken
    exact .dereference ‹_› rfl
  | mark serialization address fresh =>
    simp only [DataContext.step] at taken
    split at taken <;> cases taken
    rename_i valid
    exact .mark valid.1 valid.2 rfl
  | removeObject oid =>
    simp only [DataContext.step] at taken
    split at taken <;> cases taken
    exact .removeObject ‹_› rfl
  | getBinding serialization name =>
    simp only [DataContext.step] at taken
    split at taken <;> cases taken
    · exact .unbound ‹_›
    · exact .getBinding ‹_› rfl
  | setBinding serialization name address fresh =>
    simp only [DataContext.step] at taken
    split at taken
    · rename_i valid
      split at taken <;> cases taken
      · exact .setBinding valid.1 valid.2 ‹_› rfl
      · exact .unplaced valid.1 valid.2 ‹_› ‹_›
    · cases taken
  | setBindingToOid name oid =>
    cases taken
    exact .setBindingToOid rfl
  | removeBinding name =>
    simp only [DataContext.step] at taken
    split at taken <;> cases taken
    · exact .unremoved name ‹_›
    · exact .removeBinding name (Bool.eq_false_iff.mpr ‹_›)
  | bindingExists name =>
    simp only [DataContext.step] at taken
    split at taken
    · cases taken
      exact .bindingExists ‹_›
    · cases taken
      exact .bindingExists ‹_›
    · rename_i failure other got
      cases taken
      cases failure with
      | notFound => exact absurd rfl other
      | transaction | deserializer => exact .bindingExists got

/-- A call leaves the mark for rollback as it is, or says that the storage engine refuses. -/
def Marks (context after : DataContext Kind Value Bytes Name) (told : Prop) : Prop :=
  after.rollback = context.rollback ∨ after.rollback = true ∧ told

namespace Marks

variable {middle : DataContext Kind Value Bytes Name} {told other : Prop}

variable (marks : Marks context after told)
include marks

/-- A transaction that is marked for rollback stays so. -/
theorem fine (fine : after.rollback = false) : context.rollback = false := by
  rcases marks with same | ⟨doomed, _⟩
  · exact same ▸ fine
  · rw [fine] at doomed
    cases doomed

/-- The first call that the storage engine refuses says so. -/
theorem refused (fine : context.rollback = false) (refused : after.rollback = true) : told := by
  rcases marks with same | ⟨_, said⟩
  · rw [same, fine] at refused
    cases refused
  · exact said

theorem kept (silent : ¬told) : after.rollback = context.rollback :=
  marks.resolve_right fun both => silent both.2

theorem imp (weaker : told → other) : Marks context after other :=
  Or.imp_right (And.imp_right weaker) marks

omit marks

theorem of_eq (marks : Marks middle after told) (same : middle.rollback = context.rollback) :
    Marks context after told := by
  rw [Marks, ← same]
  exact marks

end Marks

theorem touch_accepted (accepted : ¬context.touch.rollback = true) :
    context.touch.rollback = context.rollback := by
  have fine := Bool.eq_false_iff.mpr accepted
  rw [fine, touch_fine fine]

variable {serialization : Kind} {address : Address} {error : Option DataError}

theorem getReferenceByPtr_marks {fresh : Oid} {found : Option Oid}
    (called : context.getReferenceByPtr address serialization fresh = (after, found, error)) :
    Marks context after (found = none ∧ error = some .transaction) := by
  unfold getReferenceByPtr at called
  split at called
  · cases called
    exact .inl rfl
  · split at called
    · cases called
      exact .inl rfl
    · simp only at called
      split at called
      · rename_i refused
        cases called
        exact .inr ⟨refused, rfl, rfl⟩
      · rename_i accepted
        cases called
        exact .inl (touch_accepted accepted)

theorem mark_marks {fresh : Oid}
    (called : context.mark serialization address fresh = (after, error)) :
    Marks context after (error = some .transaction) := by
  unfold DataContext.mark at called
  split at called
  · rename_i located
    cases called
    exact (getReferenceByPtr_marks located).imp And.right
  · rename_i located
    have same := (getReferenceByPtr_marks located).kept nofun
    split at called
    · cases called
      exact .inl same
    · split at called
      · simp only at called
        split at called
        · rename_i refused
          cases called
          exact .inr ⟨refused, rfl⟩
        · rename_i accepted
          cases called
          exact .inl ((touch_accepted accepted).trans same)
      · cases called
        exact .inl same

variable {reference : ManagedReference Kind}

theorem dereference_marks {forUpdate : Bool} {found : Option Address}
    (called : context.dereference codec oid reference forUpdate = (after, found, error)) :
    Marks context after (error = some .transaction) := by
  unfold DataContext.dereference at called
  split at called
  · split at called
    · split at called
      · cases called
        exact mark_marks rfl
      · cases called
        exact .inl rfl
    · cases called
      exact .inl rfl
  · simp only at called
    split at called
    · rename_i refused
      cases called
      exact .inr ⟨refused, rfl⟩
    · rename_i accepted
      have same := touch_accepted accepted
      split at called
      · cases called
        exact .inl same
      · split at called <;> cases called <;> exact .inl same

theorem removeObject_marks (called : context.removeObject oid = (after, error)) :
    Marks context after (error = some .transaction) := by
  simp only [DataContext.removeObject] at called
  split at called
  · rename_i refused
    cases called
    exact .inr ⟨refused, rfl⟩
  · rename_i accepted
    cases called
    exact .inl (touch_accepted accepted)

theorem removeReference_marks (called : context.removeReference oid reference = (after, error)) :
    Marks context after (error = some .transaction) := by
  cases removed : context.removeObject oid with
  | mk middle failure =>
    have marks := removeObject_marks removed
    unfold removeReference at called
    rw [removed] at called
    split at called <;> cases called
    · exact marks
    · exact marks
    · exact marks
    · exact marks
    · exact .inl rfl
    · exact .inl rfl
    · exact .inl rfl

variable {name : Name}

theorem getBinding_marks {found : Except DataError Oid}
    (called : context.getBinding name = (after, found)) :
    Marks context after (found = .error .transaction) := by
  simp only [DataContext.getBinding] at called
  split at called
  · rename_i refused
    cases called
    exact .inr ⟨refused, rfl⟩
  · rename_i accepted
    split at called <;> cases called <;> exact .inl (touch_accepted accepted)

theorem setBinding_marks [DecidableEq Name]
    (called : context.setBinding name oid = (after, error)) :
    Marks context after (error = some .transaction) := by
  simp only [DataContext.setBinding] at called
  split at called
  · rename_i refused
    cases called
    exact .inr ⟨refused, rfl⟩
  · rename_i accepted
    cases called
    exact .inl (touch_accepted accepted)

theorem getReferenceByOid_rollback (oid : Oid) (serialization : Kind) :
    (context.getReferenceByOid oid serialization).1.rollback = context.rollback := by
  unfold getReferenceByOid
  split <;> rfl

theorem step_marks [DecidableEq Name] (taken : context.step codec operation = some (after, reply)) :
    Marks context after (reply.error = some .transaction) := by
  cases does_of_step taken with
  | allocate | assign => exact .inl rfl
  | createReference _ _ located | unplaced _ _ located _ =>
        exact (getReferenceByPtr_marks located).imp And.right
  | createReferenceToOid => exact .inl (getReferenceByOid_rollback _ _)
  | dereference _ looked => exact dereference_marks looked
  | mark _ _ marked => exact mark_marks marked
  | removeObject _ removed => exact removeReference_marks removed
  | unbound got =>
    apply (getBinding_marks got).imp
    intro said
    cases said
    rfl
  | getBinding got looked =>
    apply (dereference_marks looked).of_eq
    exact (getReferenceByOid_rollback _ _).trans ((getBinding_marks got).kept nofun)
  | setBinding _ _ located bound =>
    exact (setBinding_marks bound).of_eq ((getReferenceByPtr_marks located).kept nofun)
  | setBindingToOid bound => exact setBinding_marks bound
  | unremoved _ refused => exact .inr ⟨refused, rfl⟩
  | removeBinding _ accepted =>
    exact .inl (touch_accepted (Bool.eq_false_iff.mp accepted))
  | bindingExists got =>
    apply (getBinding_marks got).imp
    rintro rfl
    rfl

variable (refines : Refines context store)
include refines

variable {entry : Option (ManagedReference Kind)}

/-- What the store knows of an object that has such a reference. -/
theorem Refines.meaning (present : context.reference oid = entry) :
    ∃ bytes knowledge old, context.oids oid = bytes ∧ store.knowledge oid = knowledge ∧
      store.stored oid = old ∧ Means old entry bytes knowledge :=
  ⟨_, _, _, rfl, rfl, rfl, present ▸ refines.means oid⟩

/-- The storage engine's own state is no matter. -/
theorem Refines.touch : Refines context.touch store :=
  { refines with }

/-- What is known of one object changes, and nothing about where objects are. -/
theorem Refines.change (oid : Oid)
    (new : ManagedReference Kind) (view : Option Bytes) {knowledge : Knowledge Kind}
    (sameObj : new.obj = (context.reference oid).bind ManagedReference.obj)
    (means : Means (store.stored oid) (some new) view knowledge) :
    Refines { context.setReference oid new with oids := update context.oids oid view }
      (store.know oid knowledge) where
  names := refines.names
  memory := refines.memory
  nextAddress := refines.nextAddress
  byAddress := refines.byAddress
  means := by
    intro other
    by_cases same : other = oid
    · subst same
      simpa [setReference, ObjectStore.know] using means
    · simpa [setReference, ObjectStore.know, update_other _ _ same] using refines.means other
  located := by
    intro other reference address present has
    rcases update_some present with ⟨rfl, rfl⟩ | ⟨same, present⟩
    · rw [sameObj] at has
      obtain ⟨before, found, has⟩ := Option.bind_eq_some_iff.mp has
      exact refines.located other before address found has
    · exact refines.located other reference address present has
  known := by
    intro address other managed
    obtain ⟨allocated, reference, present, has⟩ := refines.known address other managed
    refine ⟨allocated, ?_⟩
    by_cases same : other = oid
    · subst same
      refine ⟨new, by simp [setReference], ?_⟩
      rw [sameObj, present]
      exact has
    · exact ⟨reference, by simpa [setReference, update_other _ _ same] using present, has⟩
  below := refines.below

/-- An object that was not one of the store becomes one, under an id that had none. -/
theorem Refines.place (oid : Oid) (new : ManagedReference Kind)
    (knowledge : Knowledge Kind) (memory : Address → Option Value) (nextAddress : Address)
    (unplaced : ∀ reference, context.reference oid = some reference → reference.obj = none)
    (unmanaged : context.byAddress address = none) (has : new.obj = some address)
    (means : Means (store.stored oid) (some new) (context.oids oid) knowledge)
    (allocated : memory address ≠ none)
    (more : ∀ other, context.memory other ≠ none → memory other ≠ none)
    (below : ∀ other, memory other ≠ none → other < nextAddress) :
    Refines { context.setReference oid new with
        memory := memory, nextAddress := nextAddress
        byAddress := update context.byAddress address (some oid) }
      { store.know oid knowledge with
        memory := memory, nextAddress := nextAddress
        managed := update store.managed address (some oid) } where
  names := refines.names
  memory := rfl
  nextAddress := rfl
  byAddress := by rw [refines.byAddress]
  means := by
    intro other
    by_cases same : other = oid
    · subst same
      simpa [setReference, ObjectStore.know] using means
    · simpa [setReference, ObjectStore.know, update_other _ _ same] using refines.means other
  located := by
    intro other reference place present hasPlace
    rcases update_some present with ⟨rfl, rfl⟩ | ⟨same, present⟩
    · rw [has] at hasPlace
      cases hasPlace
      simp
    · have old := refines.located other reference place present hasPlace
      have apart : place ≠ address := by
        rintro rfl
        rw [unmanaged] at old
        cases old
      simpa [update_other _ _ apart] using old
  known := by
    intro place other managed
    rcases update_some managed with ⟨rfl, rfl⟩ | ⟨same, managed⟩
    · exact ⟨allocated, new, by simp [setReference], has⟩
    · obtain ⟨there, reference, present, hasPlace⟩ := refines.known place other managed
      refine ⟨more place there, reference, ?_, hasPlace⟩
      have apart : other ≠ oid := by
        rintro rfl
        rw [unplaced reference present] at hasPlace
        cases hasPlace
      simpa [setReference, update_other _ _ apart] using present
  below := below

omit refines

/-- Neither gone nor about to go, nor lost to a failing deserializer. -/
def ManagedReference.Alive (reference : ManagedReference Kind) : Prop :=
  reference.state ≠ .removedEmpty ∧ reference.state ≠ .removedFetched ∧ reference.state ≠ .failed

include refines

theorem Refines.fresh {fresh : Oid} (isFresh : context.fresh fresh = true) :
    context.reference fresh = none ∧ context.oids fresh = none ∧ store.stored fresh = none := by
  simp only [DataContext.fresh, Bool.and_eq_true, Option.isNone_iff_eq_none] at isFresh
  obtain ⟨view, absent⟩ := isFresh
  have means := refines.means fresh
  rw [absent, view] at means
  refine ⟨absent, view, ?_⟩
  generalize store.stored fresh = stored at means
  generalize store.knowledge fresh = knowledge at means
  cases means
  rfl

theorem getReferenceByPtr_refines {fresh : Oid}
    {found : Option Oid} (allocated : (context.memory address).isSome)
    (isFresh : context.byAddress address = none → context.fresh fresh = true)
    (called : context.getReferenceByPtr address serialization fresh = (after, found, error))
    (fine : after.rollback = false) :
    found = some (store.manage serialization address fresh).2 ∧ error = none ∧
    Refines after (store.manage serialization address fresh).1 ∧
    after.byAddress address = some (store.manage serialization address fresh).2 ∧
    (after = context ∨ after.reference (store.manage serialization address fresh).2 =
      some ⟨.new, serialization, some address⟩) := by
  have same : store.managed address = context.byAddress address := by rw [refines.byAddress]
  unfold getReferenceByPtr at called
  unfold ObjectStore.manage
  cases managed : context.byAddress address with
  | some oid =>
    simp only [managed] at called
    rw [same, managed]
    cases called
    exact ⟨rfl, rfl, refines, managed, .inl rfl⟩
  | none =>
    simp only [managed] at called
    rw [same, managed]
    split at called
    · rename_i refused
      cases called
      rw [refused] at fine
      cases fine
    · split at called
      · rename_i refused
        cases called
        rw [refused] at fine
        cases fine
      · cases called
        obtain ⟨absent, view, stored⟩ := refines.fresh (isFresh managed)
        refine ⟨rfl, rfl, ?_, update_same _ _ _, .inr (update_same _ _ _)⟩
        have placed := refines.touch.place fresh ⟨.new, serialization, some address⟩
          (.changed serialization address) context.memory context.nextAddress
          (fun reference present => by
            rw [show context.reference fresh = some reference from present] at absent
            cases absent)
          managed rfl (by
            rw [show context.touch.oids fresh = none from view]
            exact .new serialization address stored)
          (Option.isSome_iff_ne_none.mp allocated) (fun _ there => there) refines.below
        rw [refines.memory, refines.nextAddress] at placed
        have again : context.touch.setReference fresh ⟨.new, serialization, some address⟩ =
            { context.touch.setReference fresh ⟨.new, serialization, some address⟩ with
              memory := store.memory, nextAddress := store.nextAddress } := by
          rw [← refines.memory, ← refines.nextAddress]
          rfl
        rw [again]
        exact placed

theorem mark_refines {fresh : Oid} (allocated : (context.memory address).isSome)
    (isFresh : context.byAddress address = none → context.fresh fresh = true)
    (alive : ∀ oid reference, context.byAddress address = some oid →
      context.reference oid = some reference → reference.Alive)
    (called : context.mark serialization address fresh = (after, error))
    (fine : after.rollback = false) :
    error = none ∧ Refines after ((store.manage serialization address fresh).1.markFor
      (store.manage serialization address fresh).2) := by
  cases located : context.getReferenceByPtr address serialization fresh with
  | mk middle rest =>
    obtain ⟨found, failure⟩ := rest
    have created := getReferenceByPtr_refines refines allocated isFresh located
    simp only [DataContext.mark, located] at called
    cases found with
    | none =>
      cases called
      cases (created fine).1
    | some oid =>
      have calm : middle.rollback = false := by
        simp only at called
        split at called
        · cases called
          exact fine
        · split at called
          · split at called <;> cases called <;> exact touch_fine fine
          · cases called
            exact fine
      obtain ⟨same, noFailure, holds, managed, origin⟩ := created calm
      injection same with same
      subst same noFailure
      obtain ⟨_, reference, present, has⟩ := holds.known address _ managed
      have living : reference.Alive := by
        rcases origin with unchanged | isNew
        · subst unchanged
          exact alive _ reference managed present
        · rw [present] at isNew
          cases isNew
          exact ⟨nofun, nofun, nofun⟩
      simp only [present] at called
      generalize (store.manage serialization address fresh).1 = next at holds ⊢
      generalize (store.manage serialization address fresh).2 = oid at called present ⊢
      obtain ⟨bytes, knowledge, old, view, knows, stored, means⟩ := holds.meaning present
      unfold ObjectStore.markFor
      cases means with
      | empty kind | failed kind => cases has
      | notModified kind place present' =>
        simp only [ne_eq, reduceCtorEq, not_false_eq_true, and_self, if_true] at called
        split at called
        · rename_i refused
          cases called
          rw [refused] at fine
          cases fine
        · cases called
          rw [knows]
          refine ⟨rfl, ?_⟩
          have changed := holds.change oid ⟨.modified, kind, some place⟩
            (middle.oids oid) (by rw [present]; rfl)
            (by rw [stored, view]; exact .modified kind place present')
          rw [update_unchanged] at changed
          exact changed.touch
      | modified kind place present' =>
        simp only [ne_eq, not_true_eq_false, and_false, if_false] at called
        cases called
        rw [knows]
        exact ⟨rfl, holds⟩
      | new kind place absent =>
        simp only [ne_eq, not_true_eq_false, false_and, if_false] at called
        cases called
        rw [knows]
        exact ⟨rfl, holds⟩
      | removedEmpty kind obj => exact absurd rfl living.1
      | removedFetched kind obj => exact absurd rfl living.2.1

/-- A dereference of an object that has not been removed. -/
theorem dereference_refines {forUpdate : Bool}
    {found : Option Address} (present : context.reference oid = some reference)
    (alive : reference.Alive)
    (called : context.dereference codec oid reference forUpdate = (after, found, error))
    (fine : after.rollback = false) :
    ∃ next, store.look codec oid forUpdate = some (next, .object found error) ∧
      Refines after next := by
  obtain ⟨bytes, knowledge, old, view, knows, stored, means⟩ := refines.meaning present
  unfold ObjectStore.look
  rw [knows]
  cases means with
  | empty kind =>
    simp only [DataContext.dereference, Option.isSome_none, Bool.false_eq_true, reduceCtorEq,
      or_self, if_false] at called
    split at called
    · rename_i refused
      cases called
      rw [refused] at fine
      cases fine
    · have sameView : context.touch.oids oid = bytes := view
      simp only [sameView] at called
      rw [stored]
      cases bytes with
      | none =>
        cases called
        exact ⟨store, rfl, refines.touch⟩
      | some data =>
        simp only at called ⊢
        cases decoded : codec.deserializer kind data with
        | none =>
          simp only [decoded] at called ⊢
          cases called
          have changed := refines.touch.change oid ⟨.failed, kind, none⟩ (context.touch.oids oid)
            (by rw [show context.touch.reference oid = some _ from present]; rfl)
            (by rw [stored, sameView]; exact .failed kind)
          rw [update_unchanged] at changed
          exact ⟨_, rfl, changed⟩
        | some value =>
          simp only [decoded] at called ⊢
          cases called
          have new : context.byAddress context.nextAddress = none := by
            cases managed : context.byAddress context.nextAddress with
            | none => rfl
            | some other =>
              have below := refines.below _ (refines.known _ other managed).1
              exact absurd below (Nat.lt_irrefl _)
          have more : ∀ other, update context.memory context.nextAddress (some value) other ≠
              none → other < context.nextAddress + 1 := by
            intro other there
            by_cases same : other = context.nextAddress
            · rw [same]
              exact Nat.lt_succ_self _
            · rw [update_other _ _ same] at there
              exact Nat.lt_succ_of_lt (refines.below other there)
          have kept : ∀ other, context.memory other ≠ none →
              update context.memory context.nextAddress (some value) other ≠ none := by
            intro other there
            have apart := Nat.ne_of_lt (refines.below other there)
            rw [update_other _ _ apart]
            exact there
          have placed := refines.touch.place oid
            ⟨if forUpdate then .modified else .notModified, kind, some context.nextAddress⟩
            (if forUpdate then .changed kind context.nextAddress
              else .loaded kind context.nextAddress)
            (update context.memory context.nextAddress (some value))
            (context.nextAddress + 1)
            (fun reference there => by
              rw [show context.reference oid = some reference from there] at present
              cases present
              rfl)
            new rfl (by
              rw [stored, sameView]
              cases forUpdate
              · exact .notModified kind _ (by simp)
              · exact .modified kind _ (by simp))
            (by simp) kept more
          have sameNext : context.touch.nextAddress = store.nextAddress :=
            refines.nextAddress
          refine ⟨_, ?_, placed⟩
          rw [sameNext, refines.nextAddress, refines.memory]
  | notModified kind address present' =>
    have managed := refines.located oid _ address present rfl
    have allocated := (refines.known address oid managed).1
    cases forUpdate with
    | false =>
      simp only [DataContext.dereference, Option.isSome_some, true_or, if_true,
        Bool.false_eq_true, false_and, if_false] at called
      cases called
      exact ⟨store, rfl, refines⟩
    | true =>
      simp only [DataContext.dereference, Option.isSome_some, true_or, if_true, and_self] at called
      cases marked : context.mark kind address oid with
      | mk middle failure =>
        rw [marked] at called
        cases called
        have manages : store.manage kind address oid = (store, oid) := by
          unfold ObjectStore.manage
          rw [← refines.byAddress, managed]
        obtain ⟨noFailure, holds⟩ := mark_refines refines (Option.isSome_iff_ne_none.mpr allocated)
          (fun unmanaged => by rw [managed] at unmanaged; cases unmanaged)
          (fun other reference located there => by
            rw [managed] at located
            cases located
            rw [present] at there
            cases there
            exact alive)
          marked fine
        rw [manages] at holds
        subst noFailure
        refine ⟨_, rfl, ?_⟩
        simpa [ObjectStore.markFor, knows] using holds
  | modified kind address present' | new kind address absent =>
    simp only [DataContext.dereference, Option.isSome_some, true_or, if_true, reduceCtorEq,
      and_false, if_false] at called
    cases called
    exact ⟨store, rfl, refines⟩
  | removedEmpty kind obj => exact absurd rfl alive.1
  | removedFetched kind obj => exact absurd rfl alive.2.1
  | failed kind => exact absurd rfl alive.2.2

theorem getReferenceByOid_refines (serialization : Kind) (oid : Oid) :
    Refines (context.getReferenceByOid oid serialization).1 (store.name serialization oid) ∧
    (context.getReferenceByOid oid serialization).1.reference oid =
      some (context.getReferenceByOid oid serialization).2 := by
  unfold getReferenceByOid ObjectStore.name
  cases present : context.reference oid with
  | some reference =>
    refine ⟨?_, present⟩
    obtain ⟨bytes, knowledge, old, view, knows, stored, means⟩ := refines.meaning present
    rw [knows]
    cases means <;> exact refines
  | none =>
    obtain ⟨bytes, knowledge, old, view, knows, stored, means⟩ := refines.meaning present
    rw [knows]
    cases means
    refine ⟨?_, by simp [setReference]⟩
    have changed := refines.change oid ⟨.empty, serialization, none⟩
      (context.oids oid) (by rw [present]; rfl)
      (by rw [stored, view]; exact .empty serialization)
    rw [update_unchanged] at changed
    exact changed

omit refines

theorem getReferenceByOid_alive
    (alive : ∀ reference, context.reference oid = some reference → reference.Alive) :
    (context.getReferenceByOid oid serialization).2.Alive := by
  unfold getReferenceByOid
  cases present : context.reference oid with
  | some reference => exact alive reference present
  | none => exact ⟨nofun, nofun, nofun⟩

/-- The removal of an object that the storage transaction knows about. -/
theorem removeObject_refines (refines : Refines context store) (new : ManagedReference Kind)
    (called : context.removeObject oid = (after, error)) (fine : after.rollback = false)
    (sameObj : new.obj = (context.reference oid).bind ManagedReference.obj)
    (means : Means (store.stored oid) (some new) none .removed) :
    error = (if (context.oids oid).isNone then some .notFound else none) ∧
    Refines (after.setReference oid new) (store.know oid .removed) := by
  simp only [DataContext.removeObject] at called
  split at called
  · rename_i refused
    cases called
    rw [refused] at fine
    cases fine
  · cases called
    exact ⟨rfl, refines.touch.change oid new none sameObj means⟩

theorem removeReference_refines [DecidableEq Name] (refines : Refines context store)
    (present : context.reference oid = some reference)
    (called : context.removeReference oid reference = (after, error))
    (fine : after.rollback = false) :
    ∃ next, store.step codec (.removeObject oid) = some (next, .status error) ∧
      Refines after next := by
  obtain ⟨bytes, knowledge, old, view, knows, stored, means⟩ := refines.meaning present
  simp only [ObjectStore.step, knows]
  cases means with
  | empty kind | failed kind =>
    simp only [removeReference] at called
    cases removed : context.removeObject oid with
    | mk middle failure =>
      rw [removed] at called
      cases called
      obtain ⟨sameError, holds⟩ := removeObject_refines refines
        ⟨.removedEmpty, kind, none⟩ removed fine (by rw [present]; rfl) (.removedEmpty kind none)
      rw [view] at sameError
      exact ⟨_, by rw [sameError, stored], holds⟩
  | notModified kind address there | modified kind address there =>
    simp only [removeReference] at called
    cases removed : context.removeObject oid with
    | mk middle failure =>
      rw [removed] at called
      cases called
      obtain ⟨sameError, holds⟩ := removeObject_refines refines
        ⟨.removedFetched, kind, some address⟩ removed fine (by rw [present]; rfl)
        (.removedFetched kind _)
      rw [view, Option.isNone_eq_false_iff.mpr (Option.isSome_iff_ne_none.mpr there)] at sameError
      exact ⟨_, by rw [sameError]; rfl, holds⟩
  | new kind address absent =>
    simp only [removeReference] at called
    cases called
    have changed := refines.change oid ⟨.removedFetched, kind, some address⟩
      (context.oids oid) (by rw [present]; rfl)
      (by rw [stored, view]; exact .removedFetched kind _)
    rw [update_unchanged] at changed
    exact ⟨_, rfl, changed⟩
  | removedEmpty kind obj | removedFetched kind obj =>
    simp only [removeReference] at called
    cases called
    exact ⟨store, rfl, refines⟩

/-- The call neither dereferences nor marks an object that has been removed, or that could
not be deserialized. -/
def SparesLost (context : DataContext Kind Value Bytes Name) :
    Operation Kind Value Name → Prop
  | .dereference oid _ => ∀ reference ∈ context.reference oid, reference.Alive
  | .mark _ address _ =>
      ∀ oid ∈ context.byAddress address, ∀ reference ∈ context.reference oid, reference.Alive
  | .getBinding _ name =>
      ∀ oid ∈ context.names name, ∀ reference ∈ context.reference oid, reference.Alive
  | _ => True

instance (reference : ManagedReference Kind) : Decidable reference.Alive :=
  inferInstanceAs (Decidable (_ ∧ _))

instance (context : DataContext Kind Value Bytes Name) :
    (operation : Operation Kind Value Name) → Decidable (SparesLost context operation)
  | .dereference oid _ =>
      inferInstanceAs (Decidable (∀ reference ∈ context.reference oid, reference.Alive))
  | .mark _ address _ =>
      inferInstanceAs (Decidable (∀ oid ∈ context.byAddress address,
        ∀ reference ∈ context.reference oid, reference.Alive))
  | .getBinding _ name =>
      inferInstanceAs (Decidable (∀ oid ∈ context.names name,
        ∀ reference ∈ context.reference oid, reference.Alive))
  | .allocate _ | .assign _ _ | .createReference _ _ _ | .createReferenceToOid _ _
  | .removeObject _ | .setBinding _ _ _ _ | .setBindingToOid _ _ | .removeBinding _
  | .bindingExists _ => inferInstanceAs (Decidable True)

theorem getBinding_names {found : Except DataError Oid}
    (called : context.getBinding name = (after, found)) (fine : after.rollback = false) :
    after = context.touch ∧
    found = match context.names name with
      | some oid => .ok oid
      | none => .error .notFound := by
  simp only [DataContext.getBinding] at called
  split at called
  · rename_i refused
    cases called
    rw [refused] at fine
    cases fine
  · split at called
    · rename_i oid bound
      cases called
      exact ⟨rfl, by rw [show context.names name = some oid from bound]⟩
    · rename_i unbound
      cases called
      exact ⟨rfl, by rw [show context.names name = none from unbound]⟩

include refines

theorem setBinding_refines [DecidableEq Name]
    (called : context.setBinding name oid = (after, error)) (fine : after.rollback = false) :
    error = none ∧
    Refines after { store with names := update store.names name (some oid) } := by
  simp only [DataContext.setBinding] at called
  split at called
  · rename_i refused
    cases called
    rw [refused] at fine
    cases fine
  · cases called
    refine ⟨rfl, { refines with names := ?_ }⟩
    rw [← refines.names]
    rfl

/-- The application makes an object or changes one. -/
theorem Refines.setMemory (value : Value) {nextAddress : Address}
    (more : context.nextAddress ≤ nextAddress) (within : address < nextAddress) :
    Refines { context with
        memory := update context.memory address (some value)
        nextAddress := nextAddress }
      { store with
        memory := update store.memory address (some value)
        nextAddress := nextAddress } where
  names := refines.names
  memory := by rw [refines.memory]
  nextAddress := rfl
  byAddress := refines.byAddress
  means := refines.means
  located := refines.located
  known := by
    intro other oid managed
    obtain ⟨there, found⟩ := refines.known other oid managed
    refine ⟨?_, found⟩
    show update context.memory address (some value) other ≠ none
    by_cases same : other = address
    · rw [same, update_same]
      nofun
    · rw [update_other _ _ same]
      exact there
  below := by
    intro other there
    show other < nextAddress
    by_cases same : other = address
    · exact same ▸ within
    · have unchanged := update_other context.memory (some value) same
      exact Nat.lt_of_lt_of_le (refines.below other (unchanged ▸ there)) more

theorem Refines.allocate (value : Value) : Refines { context with
        memory := update context.memory context.nextAddress (some value)
        nextAddress := context.nextAddress + 1 }
      { store with
        memory := update store.memory store.nextAddress (some value)
        nextAddress := store.nextAddress + 1 } := by
  rw [← refines.nextAddress]
  exact refines.setMemory value (Nat.le_succ _) (Nat.lt_succ_self _)

theorem Refines.assign (value : Value) (allocated : (context.memory address).isSome) :
    Refines { context with memory := update context.memory address (some value) }
      { store with memory := update store.memory address (some value) } := by
  cases store
  cases refines.nextAddress
  exact refines.setMemory value (Nat.le_refl _)
    (refines.below address (Option.isSome_iff_ne_none.mp allocated))

/-- Where the storage engine has refused nothing, every call that spares what is removed
does what the object store does. -/
theorem step_refines [DecidableEq Name] (spares : SparesLost context operation)
    (taken : context.step codec operation = some (after, reply)) (fine : after.rollback = false) :
    ∃ next, store.step codec operation = some (next, reply) ∧ Refines after next := by
  cases does_of_step taken with
  | allocate value => exact ⟨_, by rw [refines.nextAddress]; rfl, refines.allocate value⟩
  | assign value allocated =>
    simp only [ObjectStore.step]
    rw [if_pos (refines.memory ▸ allocated)]
    exact ⟨_, rfl, refines.assign value allocated⟩
  | createReference allocated isFresh located =>
    obtain ⟨same, noFailure, holds, _⟩ :=
      getReferenceByPtr_refines refines allocated (fun _ => isFresh) located fine
    exact ⟨_, by rw [same, noFailure]; rfl, holds⟩
  | createReferenceToOid serialization oid =>
    exact ⟨_, rfl, (getReferenceByOid_refines refines serialization oid).1⟩
  | dereference present looked =>
    exact dereference_refines refines present (spares _ present) looked fine
  | mark allocated isFresh marked =>
    obtain ⟨noFailure, holds⟩ :=
      mark_refines refines allocated (fun _ => isFresh)
        (fun oid reference managed there => spares oid managed reference there) marked fine
    exact ⟨_, by rw [noFailure]; rfl, holds⟩
  | removeObject present removed => exact removeReference_refines refines present removed fine
  | @unbound serialization name _ failure got =>
    obtain ⟨rfl, same⟩ := getBinding_names got fine
    simp only [ObjectStore.step, ← refines.names]
    cases bound : context.names name with
    | some oid =>
      rw [bound] at same
      cases same
    | none =>
      rw [bound] at same
      cases same
      exact ⟨store, rfl, refines.touch⟩
  | @getBinding serialization name _ _ oid _ _ got looked =>
    have calm := (dereference_marks looked).fine fine
    rw [getReferenceByOid_rollback] at calm
    obtain ⟨rfl, same⟩ := getBinding_names got calm
    simp only [ObjectStore.step, ← refines.names]
    cases bound : context.names name with
    | none =>
      rw [bound] at same
      cases same
    | some target =>
      rw [bound] at same
      cases same
      obtain ⟨named, present⟩ := getReferenceByOid_refines refines.touch serialization oid
      refine dereference_refines named present ?_ looked fine
      exact getReferenceByOid_alive (spares oid bound)
  | setBinding allocated isFresh located bound =>
    obtain ⟨same, _, holds, _⟩ := getReferenceByPtr_refines refines allocated
      (fun _ => isFresh) located ((setBinding_marks bound).fine fine)
    cases same
    obtain ⟨noFailure, named⟩ := setBinding_refines holds bound fine
    exact ⟨_, by rw [noFailure]; rfl, named⟩
  | unplaced allocated isFresh located unfinished =>
    obtain ⟨same, noFailure, _⟩ := getReferenceByPtr_refines refines allocated
      (fun _ => isFresh) located fine
    exact (unfinished _ same noFailure).elim
  | setBindingToOid bound =>
    obtain ⟨noFailure, holds⟩ := setBinding_refines refines bound fine
    exact ⟨_, by rw [noFailure]; rfl, holds⟩
  | unremoved _ refused =>
    rw [refused] at fine
    cases fine
  | removeBinding name =>
    refine ⟨{ store with names := update store.names name none }, ?_,
      { refines.touch with names := ?_ }⟩
    · simp only [ObjectStore.step, ← refines.names]
    · simp only [← refines.names]
  | @bindingExists name _ _ got =>
    obtain ⟨rfl, rfl⟩ := getBinding_names got fine
    refine ⟨store, ?_, refines.touch⟩
    simp only [ObjectStore.step, ← refines.names]
    cases context.names name <;> rfl

omit refines

/-- What the flush leaves in the store for an id. -/
def DataContext.flushed (codec : Codec Kind Value Bytes)
    (context : DataContext Kind Value Bytes Name) (oid : Oid) : Option Bytes :=
  match context.reference oid with
  | some ⟨.new, serialization, some address⟩ | some ⟨.modified, serialization, some address⟩ =>
      (context.memory address).bind (codec.serializer serialization)
  | _ => context.oids oid

/-- Two contexts that differ at most in the stored bytes and the engine's own state. -/
structure SameReferences (context after : DataContext Kind Value Bytes Name) : Prop where
  reference : after.reference = context.reference
  memory : after.memory = context.memory
  names : after.names = context.names

theorem flushReference_spec (present : context.reference oid = some reference)
    (success : context.flushReference codec oid reference = some after) :
    SameReferences context after ∧
    after.oids = update context.oids oid (context.flushed codec oid) ∧
    (after.rollback = false → context.rollback = false) := by
  have unchanged : context.flushed codec oid = context.oids oid →
      context.oids = update context.oids oid (context.flushed codec oid) := by
    intro same
    rw [same, update_unchanged]
  obtain ⟨state, serialization, obj⟩ := reference
  cases state with
  | new | modified =>
    simp only [flushReference, Option.bind_eq_bind, Option.bind_eq_some_iff] at success
    obtain ⟨address, rfl, value, located, out, serialized, success⟩ := success
    split at success
    · cases success
    · split at success
      · cases success
      · cases success
        refine ⟨⟨rfl, rfl, rfl⟩, ?_, touch_fine⟩
        simp only [DataContext.flushed, present, located, Option.bind_some, serialized]
        rfl
  | empty | failed | notModified | removedEmpty | removedFetched =>
    cases success
    exact ⟨⟨rfl, rfl, rfl⟩, unchanged (by simp only [DataContext.flushed, present]), id⟩

theorem SameReferences.trans {middle : DataContext Kind Value Bytes Name}
    (first : SameReferences context middle) (second : SameReferences middle after) :
    SameReferences context after where
  reference := second.reference.trans first.reference
  memory := second.memory.trans first.memory
  names := second.names.trans first.names

/-- A second flush changes nothing. -/
theorem flushed_again (same : SameReferences context after)
    (stored : after.oids oid = context.flushed codec oid) :
    after.flushed codec oid = context.flushed codec oid := by
  unfold DataContext.flushed at stored ⊢
  rw [same.reference, same.memory]
  generalize context.reference oid = reference at stored ⊢
  split <;> simp_all only

variable {order : List Oid}

/-- After the flush of some references, exactly these objects are as flushed. -/
theorem flushAll_spec (success : context.flushAll codec order = some after) :
    SameReferences context after ∧ (after.rollback = false → context.rollback = false) ∧
    ∀ oid, after.oids oid =
      if oid ∈ order then context.flushed codec oid else context.oids oid := by
  induction order generalizing context with
  | nil =>
    cases success
    exact ⟨⟨rfl, rfl, rfl⟩, id, fun oid => by simp⟩
  | cons first rest ih =>
    cases present : context.reference first with
    | none =>
      simp only [flushAll, present] at success
      obtain ⟨same, calm, view⟩ := ih success
      refine ⟨same, calm, fun oid => ?_⟩
      rw [view oid]
      by_cases isFirst : oid = first
      · subst isFirst
        simp [DataContext.flushed, present]
      · simp [isFirst]
    | some reference =>
      simp only [flushAll, present, Option.bind_eq_bind, Option.bind_eq_some_iff] at success
      obtain ⟨middle, flushed, success⟩ := success
      obtain ⟨before, changed, calmBefore⟩ := flushReference_spec present flushed
      obtain ⟨same, calm, view⟩ := ih success
      refine ⟨before.trans same, fun fine => calmBefore (calm fine), fun oid => ?_⟩
      by_cases isFirst : oid = first
      · subst isFirst
        have stored : middle.oids oid = context.flushed codec oid := by
          rw [changed, update_same]
        rw [view oid, flushed_again before stored, stored]
        simp
      · have kept : middle.oids oid = context.oids oid := by
          rw [changed, update_other _ _ isFirst]
        have sameFlush : middle.flushed codec oid = context.flushed codec oid := by
          unfold DataContext.flushed
          rw [before.reference, before.memory, kept]
        rw [view oid, sameFlush, kept]
        simp [isFirst]

theorem flushed_commit (refines : Refines context store) (codec : Codec Kind Value Bytes)
    (oid : Oid) : context.flushed codec oid = store.commit codec oid := by
  have means := refines.means oid
  unfold DataContext.flushed ObjectStore.commit
  rw [← refines.memory]
  generalize context.reference oid = reference at means ⊢
  generalize context.oids oid = view at means ⊢
  generalize store.knowledge oid = knowledge at means ⊢
  generalize store.stored oid = stored at means ⊢
  cases means <;> rfl

theorem dataPrepare_commit (refines : Refines context store)
    (covers : ∀ oid, context.reference oid ≠ none → oid ∈ order)
    (success : context.dataPrepare codec order = some after) :
    after.oids = store.commit codec ∧ after.names = store.names := by
  simp only [dataPrepare, Option.bind_eq_bind, Option.bind_eq_some_iff] at success
  obtain ⟨middle, flushed, success⟩ := success
  obtain ⟨same, _, view⟩ := flushAll_spec flushed
  split at success
  · cases success
  · cases success
    refine ⟨?_, same.names.trans refines.names⟩
    funext oid
    show middle.oids oid = store.commit codec oid
    rw [view oid, ← flushed_commit refines]
    by_cases listed : oid ∈ order
    · rw [if_pos listed]
    · have absent : context.reference oid = none := by
        by_contra present
        exact listed (covers oid present)
      rw [if_neg listed]
      simp only [DataContext.flushed, absent]

theorem dataPrepare_fine (success : context.dataPrepare codec order = some after) :
    context.rollback = false := by
  simp only [dataPrepare, Option.bind_eq_bind, Option.bind_eq_some_iff] at success
  obtain ⟨middle, flushed, success⟩ := success
  split at success
  · cases success
  · rename_i fine
    exact (flushAll_spec flushed).2.1 (touch_fine (Bool.eq_false_iff.mpr fine))

end

/-- A transaction at its start. -/
def DataContext.begin (oids : Oid → Option Bytes) (names : Name → Option Oid)
    (answers : Nat → Bool) : DataContext Kind Value Bytes Name where
  reference _ := none
  byAddress _ := none
  oids := oids
  names := names
  memory _ := none
  nextAddress := 0
  answers := answers
  asked := 0
  rollback := false

def ObjectStore.begin (oids : Oid → Option Bytes) (names : Name → Option Oid) :
    ObjectStore Kind Value Bytes Name where
  stored := oids
  names := names
  knowledge _ := .unknown
  managed _ := none
  memory _ := none
  nextAddress := 0

theorem begin_refines (oids : Oid → Option Bytes) (names : Name → Option Oid)
    (answers : Nat → Bool) :
    Refines (begin oids names answers : DataContext Kind Value Bytes Name)
      (ObjectStore.begin oids names) where
  names := rfl
  memory := rfl
  nextAddress := rfl
  byAddress := rfl
  means _ := .unknown
  located := nofun
  known := nofun
  below := fun _ there => absurd rfl there

/-- Every transaction that spares what it has removed and is prepared with success gives
the replies and the store that the object store gives, whatever order the references are
flushed in. -/
theorem transaction_refines_store [DecidableEq Name] (codec : Codec Kind Value Bytes)
    (oids : Oid → Option Bytes) (names : Name → Option Oid) (answers : Nat → Bool)
    {trace : List (Operation Kind Value Name × Reply)}
    {final prepared : DataContext Kind Value Bytes Name} {order : List Oid}
    (run : Run (DataContext.step codec) SparesLost (.begin oids names answers) trace final)
    (covers : ∀ oid, final.reference oid ≠ none → oid ∈ order)
    (success : final.dataPrepare codec order = some prepared) :
    ∃ store, Run (ObjectStore.step codec) anyAction (.begin oids names) trace store ∧
      prepared.oids = store.commit codec ∧ prepared.names = store.names := by
  have simulated : final.rollback = false →
      ∃ store, Run (ObjectStore.step codec) anyAction (.begin oids names) trace store ∧
        Refines final store := by
    refine run.invariant
      (fun trace context => context.rollback = false →
        ∃ store, Run (ObjectStore.step codec) anyAction (.begin oids names) trace store ∧
          Refines context store)
      (fun _ => ⟨_, .nil, begin_refines oids names answers⟩) ?_
    intro trace context operation next reply _ holds spares taken fine
    obtain ⟨store, abstract, refines⟩ := holds ((step_marks taken).fine fine)
    obtain ⟨after, moved, refines⟩ := step_refines refines spares taken fine
    exact ⟨after, abstract.snoc trivial moved, refines⟩
  obtain ⟨store, abstract, refines⟩ := simulated (dataPrepare_fine success)
  exact ⟨store, abstract, dataPrepare_commit refines covers success⟩

/-- Numbers stored as they are. -/
def plainCodec : Codec Unit Nat Nat where
  serializer _ value := some value
  deserializer _ data := some data

/-- One object is stored, under one name. -/
def oneObject : DataContext Unit Nat Nat Nat :=
  .begin (update (fun _ => none) 0 (some 5)) (update (fun _ => none) 7 (some 0)) fun _ => true

/-- The object is fetched by name, marked and changed; another one is made and the first
removed. -/
theorem transaction_refines_store_changes : ∃ trace final prepared,
      Run (DataContext.step plainCodec) SparesLost oneObject trace final ∧
      final.dataPrepare plainCodec [0, 1] = some prepared ∧
      (prepared.oids 0 = none ∧ prepared.oids 1 = some 9) ∧
      ∃ store : ObjectStore Unit Nat Nat Nat, Run (ObjectStore.step plainCodec) anyAction
          (.begin (update (fun _ => none) 0 (some 5)) (update (fun _ => none) 7 (some 0)))
          trace store ∧
        prepared.oids = store.commit plainCodec ∧ prepared.names = store.names := by
  have run : Run (DataContext.step plainCodec) SparesLost oneObject _ _ :=
    run_of_tested_exec (show exec _ _ [.getBinding () 7, .mark () 0 1, .assign 0 6, .allocate 9,
      .createReference () 1 1, .removeObject 0] = some (_, _) from rfl)
  refine ⟨_, _, _, run, rfl, ⟨rfl, rfl⟩, ?_⟩
  refine transaction_refines_store plainCodec _ _ _ run
    (show ∀ oid, _ → oid ∈ [0, 1] from ?_) rfl
  intro oid present
  rcases oid with _ | _ | oid
  · exact List.mem_cons_self
  · exact List.mem_cons_of_mem _ List.mem_cons_self
  · exact absurd rfl present

/-- An object is fetched, removed and then marked: it is stored again. -/
theorem marked_object_returns : ∃ trace final prepared,
      Run (DataContext.step plainCodec) anyAction oneObject trace final ∧
      (∀ oid, final.reference oid ≠ none → oid ∈ [0]) ∧
      final.dataPrepare plainCodec [0] = some prepared ∧
      ¬ ∃ store : ObjectStore Unit Nat Nat Nat, Run (ObjectStore.step plainCodec) anyAction
          (.begin (update (fun _ => none) 0 (some 5)) (update (fun _ => none) 7 (some 0)))
          trace store ∧
        prepared.oids = store.commit plainCodec ∧ prepared.names = store.names := by
  have run : Run (DataContext.step plainCodec) anyAction oneObject _ _ :=
    run_of_exec (show exec _ _ [.getBinding () 7, .removeObject 0, .mark () 0 1] =
      some (_, _) from rfl)
  refine ⟨_, _, _, run, ?_, rfl, ?_⟩
  · intro oid present
    rcases oid with _ | oid
    · exact List.mem_cons_self
    · exact absurd rfl present
  · rintro ⟨store, abstract, stored, _⟩
    have executed := abstract.exec_eq
    have absent : store.commit plainCodec 0 = none := by
      cases executed
      rfl
    rw [← stored] at absent
    cases absent

end Gzochi.Data
