import Gzochi.Api.Bindings

/-!
# Calls about bindings

The bindings of an application are meant to be a finite map.  In a transaction that can
still commit, every primitive does to its name what the map does and gives the map's reply,
except that the removal of a name that is not bound is not signalled.  The names that the
server uses for itself are neither read nor changed.
-/

namespace Gzochi.Api

open Lib Data DataContext

variable {Kind Value Bytes : Type}

section

variable {Name : Type} [DecidableEq Name] {context after : DataContext Kind Value Bytes Name}
  {codec : Codec Kind Value Bytes}

variable (context)

omit [DecidableEq Name] in
theorem getReferenceByOid_names (oid : Oid)
    (serialization : Kind) :
    (context.getReferenceByOid oid serialization).1.names = context.names := by
  unfold getReferenceByOid
  split <;> rfl

omit [DecidableEq Name] in
theorem getReferenceByPtr_names (address : Address)
    (serialization : Kind) (fresh : Oid) :
    (context.getReferenceByPtr address serialization fresh).1.names = context.names := by
  unfold getReferenceByPtr
  split
  · rfl
  · split
    · rfl
    · simp only
      split <;> rfl

omit [DecidableEq Name] in
theorem mark_names (serialization : Kind)
    (address : Address) (fresh : Oid) :
    (context.mark serialization address fresh).1.names = context.names := by
  have placed := getReferenceByPtr_names context address serialization fresh
  unfold DataContext.mark
  split
  · rename_i located
    rw [located] at placed
    exact placed
  · rename_i located
    rw [located] at placed
    split
    · exact placed
    · split
      · simp only
        split <;> exact placed
      · exact placed

omit [DecidableEq Name] in
theorem dereference_names (oid : Oid)
    (reference : ManagedReference Kind) (forUpdate : Bool) :
    (context.dereference codec oid reference forUpdate).1.names = context.names := by
  unfold DataContext.dereference
  split
  · split
    · split
      · exact mark_names context reference.serialization _ oid
      · rfl
    · rfl
  · simp only
    split
    · rfl
    · split
      · rfl
      · split <;> rfl

omit [DecidableEq Name] in
theorem removeReference_names (oid : Oid)
    (reference : ManagedReference Kind) :
    (context.removeReference oid reference).1.names = context.names := by
  have removed : (context.removeObject oid).1.names = context.names := by
    unfold DataContext.removeObject
    simp only
    split <;> rfl
  unfold removeReference
  split
  · exact removed
  · exact removed
  · exact removed
  · exact removed
  · rfl
  · rfl
  · rfl

omit [DecidableEq Name] in
theorem getBinding_sameNames (name : Name) :
    (context.getBinding name).1.names = context.names := by
  unfold DataContext.getBinding
  simp only
  split
  · rfl
  · split <;> rfl

theorem setBinding_names (name other : Name)
    (oid : Oid) (apart : other ≠ name) :
    (context.setBinding name oid).1.names other = context.names other := by
  unfold DataContext.setBinding
  simp only
  split
  · rfl
  · exact update_other _ _ apart

variable {context}

/-- A call changes no name but the one that it is about. -/
theorem step_names {operation : Operation Kind Value Name} {reply : Reply}
    (taken : context.step codec operation = some (after, reply)) {other : Name}
    (apart : bindingName operation ≠ some other) : after.names other = context.names other := by
  cases does_of_step taken with
  | allocate | assign => rfl
  | createReference _ _ located | unplaced _ _ located =>
    rw [← getReferenceByPtr_names context, located]
  | createReferenceToOid => rw [getReferenceByOid_names]
  | dereference _ looked => rw [← dereference_names context, looked]
  | mark _ _ marked => rw [← mark_names context, marked]
  | removeObject _ removed => rw [← removeReference_names context, removed]
  | unbound got | bindingExists got => rw [← getBinding_sameNames context, got]
  | getBinding got looked =>
    have kept := congrArg (fun result => result.1.names) looked
    simp only [dereference_names, getReferenceByOid_names] at kept
    rw [← kept, ← getBinding_sameNames context, got]
  | @setBinding _ name _ _ oid middle _ _ _ _ located bound =>
    have unequal : other ≠ name := fun same => apart (congrArg some same.symm)
    have kept := setBinding_names middle name other oid unequal
    rw [bound] at kept
    rw [kept, ← getReferenceByPtr_names context, located]
  | @setBindingToOid name oid _ _ bound =>
    have unequal : other ≠ name := fun same => apart (congrArg some same.symm)
    have kept := setBinding_names context name other oid unequal
    rw [bound] at kept
    exact kept
  | unremoved => rfl
  | removeBinding name =>
    exact update_other _ _ fun same => apart (congrArg some same.symm)

end

/-- The bindings of an application. -/
abbrev Bindings := String → Option Oid

inductive BindingCall where
  | get (name : String)
  | set (name : String) (oid : Oid)
  | remove (name : String)

inductive BindingReply where
  | found (oid : Oid)
  | done
  | nameNotBound
  | nameExists
  deriving DecidableEq

/-- A name is bound only once, and found or removed only when it is bound. -/
def performBinding (bindings : Bindings) : BindingCall → Bindings × BindingReply
  | .get name =>
      match bindings name with
      | some oid => (bindings, .found oid)
      | none => (bindings, .nameNotBound)
  | .set name oid =>
      match bindings name with
      | some _ => (bindings, .nameExists)
      | none => (update bindings name (some oid), .done)
  | .remove name =>
      match bindings name with
      | some _ => (update bindings name none, .done)
      | none => (bindings, .nameNotBound)

/-- The call of a primitive as a call of the map, which is told the id of the object bound. -/
def UserCall.toMap (outcome : Outcome) : UserCall → BindingCall
  | .get name => .get name
  | .set name _ _ => .set name (match outcome with | .bound oid => oid | _ => 0)
  | .remove name => .remove name

/-- The outcome of a primitive for a reply of the map.  A name may be bound to an object that
is gone or cannot be read. -/
inductive Answers (cname : CString) : Outcome → BindingReply → Prop where
  | resolved {oid : Oid} {location : Option Address} :
      Answers cname (.resolved oid location) (.found oid)
  | missing {oid : Oid} : Answers cname (.raised .objectRemoved) (.found oid)
  | unreadable {oid : Oid} : Answers cname .false (.found oid)
  | unbound : Answers cname (.raised (.nameNotBound cname)) .nameNotBound
  | exists : Answers cname (.raised (.nameExists cname)) .nameExists
  | bound {oid : Oid} : Answers cname (.bound oid) .done
  | removed : Answers cname .unspecified .done

section

variable {context after : DataContext Kind Value Bytes CString}
  {codec : Codec Kind Value Bytes} {serialization : Kind} {name : CString}

theorem gzochidDataBindingExists_eq (context : DataContext Kind Value Bytes CString)
    (name : CString) :
    gzochidDataBindingExists context name = (context.touch,
      if context.touch.rollback then (false, some .transaction)
      else ((context.names name).isSome, none)) := by
  unfold gzochidDataBindingExists DataContext.getBinding
  have same : context.touch.names = context.names := rfl
  simp only [same]
  cases context.touch.rollback with
  | true => rfl
  | false => cases context.names name <;> rfl

/-- The transaction has tried to read the object, and could not. -/
def Unreadable (context : DataContext Kind Value Bytes CString) (oid : Oid) : Prop :=
  ∃ reference ∈ context.reference oid, reference.state = .failed

instance (context : DataContext Kind Value Bytes CString) (oid : Oid) :
    Decidable (Unreadable context oid) :=
  inferInstanceAs (Decidable (∃ reference ∈ context.reference oid, reference.state = .failed))

theorem getReferenceByOid_present (context : DataContext Kind Value Bytes CString) (oid : Oid)
    (serialization : Kind) : (context.getReferenceByOid oid serialization).1.reference oid =
      some (context.getReferenceByOid oid serialization).2 := by
  unfold getReferenceByOid
  cases present : context.reference oid with
  | some reference => exact present
  | none => exact update_same _ _ _

/-- A new reference is one to an object not read yet. -/
theorem getReferenceByOid_unreadable (context : DataContext Kind Value Bytes CString) (oid : Oid)
    (serialization : Kind) : Unreadable (context.getReferenceByOid oid serialization).1 oid ↔
      Unreadable context oid := by
  unfold getReferenceByOid
  cases present : context.reference oid with
  | some reference => rfl
  | none => exact iff_of_false (by simp [Unreadable, setReference]) (by simp [Unreadable, present])

theorem unreadable_iff (context : DataContext Kind Value Bytes CString) (oid : Oid) :
    ((context.reference oid).any fun reference => decide (reference.state = .failed)) = true ↔
      Unreadable context oid := by
  unfold Unreadable
  cases context.reference oid <;> simp

/-- An object that could not be read looks, the second time, as if it had been. -/
theorem dereference_unreadable {oid : Oid} {reference : ManagedReference Kind}
    {found : Option Address} {error : Option DataError}
    (present : context.reference oid = some reference)
    (called : context.dereference codec oid reference false = (after, found, error)) :
    if error = none then Unreadable after oid ↔ Unreadable context oid
    else ¬Unreadable context oid := by
  have same : Unreadable context oid ↔ reference.state = .failed := by
    simp [Unreadable, present]
  unfold DataContext.dereference at called
  split at called
  · simp only [Bool.false_eq_true, false_and, if_false] at called
    split at called <;> cases called <;> exact if_pos rfl ▸ Iff.rfl
  · rename_i unread
    simp only [not_or] at unread
    have readable : ¬Unreadable context oid := mt same.mp unread.2.1
    simp only at called
    split at called
    · cases called
      exact readable
    · split at called
      · cases called
        exact readable
      · split at called
        · cases called
          exact readable
        · cases called
          exact iff_of_false (by simp [Unreadable, setReference]) readable

theorem getBinding_ok {oid : Oid} (got : context.getBinding name = (after, .ok oid)) :
    after = context.touch ∧ context.names name = some oid := by
  simp only [DataContext.getBinding] at got
  split at got
  · cases got
  · split at got
    · rename_i bound
      cases got
      exact ⟨rfl, bound⟩
    · cases got

/-- An object that is bound is looked up, unless the storage engine refuses. -/
theorem gzochidDataGetBinding_spec {found : Except DataError (Oid × Option Address)}
    (called : gzochidDataGetBinding codec context name serialization = (after, found)) :
    after.names = context.names ∧ (after.rollback = false → context.rollback = false) ∧
    (∀ result, found = .ok result → context.names name = some result.1 ∧
      (Unreadable after result.1 ↔ Unreadable context result.1)) ∧
    ∀ error, found = .error error → after.rollback = false → ∀ oid,
      context.names name = some oid → ¬Unreadable context oid := by
  have kept := getBinding_sameNames context name
  cases got : context.getBinding name with
  | mk middle result =>
    rw [got] at kept
    cases result with
    | error error =>
      simp only [gzochidDataGetBinding, got] at called
      cases called
      refine ⟨kept, (getBinding_marks got).fine, nofun, fun _ _ fine oid bound => ?_⟩
      have answer := (getBinding_names got fine).2
      rw [bound] at answer
      cases answer
    | ok oid =>
      obtain ⟨touched, bound⟩ := getBinding_ok got
      have reached := getReferenceByOid_names middle oid serialization
      have marked : (middle.getReferenceByOid oid serialization).1.rollback = middle.rollback :=
        getReferenceByOid_rollback oid serialization
      cases looked : (middle.getReferenceByOid oid serialization).1.dereference codec
          oid (middle.getReferenceByOid oid serialization).2 false with
      | mk last rest =>
        obtain ⟨location, failure⟩ := rest
        have names : last.names = context.names := by
          have same : ((middle.getReferenceByOid oid serialization).1.dereference codec
              oid (middle.getReferenceByOid oid serialization).2 false).1.names =
                (middle.getReferenceByOid oid serialization).1.names :=
            dereference_names _ _ _ _
          rw [looked] at same
          exact same.trans (reached.trans kept)
        have fine : last.rollback = false → context.rollback = false := by
          intro last_fine
          apply (getBinding_marks got).fine
          rw [← marked]
          exact (dereference_marks looked).fine last_fine
        have read := dereference_unreadable
          (getReferenceByOid_present middle oid serialization) looked
        have unchanged : Unreadable (middle.getReferenceByOid oid serialization).1 oid ↔
            Unreadable context oid := by
          rw [getReferenceByOid_unreadable, touched]
          rfl
        cases failure with
        | none =>
          simp only [gzochidDataGetBinding, got, looked] at called
          cases called
          refine ⟨names, fine, ?_, nofun⟩
          rintro _ ⟨⟩
          exact ⟨bound, (if_pos rfl ▸ read).trans unchanged⟩
        | some error =>
          simp only [gzochidDataGetBinding, got, looked] at called
          cases called
          refine ⟨names, fine, nofun, fun _ _ _ other bound' => ?_⟩
          rw [bound] at bound'
          cases bound'
          exact mt unchanged.mpr read

variable {address : Address} {fresh : Oid} {error : Option DataError}

/-- An object gets a reference, unless the storage engine refuses. -/
theorem getReferenceByPtr_found {found : Option Oid}
    (located : context.getReferenceByPtr address serialization fresh = (after, found, error)) :
    (∃ oid, found = some oid ∧ error = none) ∨ (after.rollback = true ∧ found = none) := by
  unfold getReferenceByPtr at located
  split at located
  · rename_i oid _
    cases located
    exact Or.inl ⟨oid, rfl, rfl⟩
  · split at located
    · rename_i refused
      cases located
      exact Or.inr ⟨refused, rfl⟩
    · simp only at located
      split at located
      · rename_i refused
        cases located
        exact Or.inr ⟨refused, rfl⟩
      · cases located
        exact Or.inl ⟨fresh, rfl, rfl⟩

theorem setBinding_fits {oid : Oid} (bound : context.setBinding name oid = (after, error))
    (fine : after.rollback = false) :
    error = none ∧ after.names = update context.names name (some oid) := by
  simp only [DataContext.setBinding] at bound
  split at bound
  · rename_i refused
    cases bound
    rw [refused] at fine
    cases fine
  · cases bound
    exact ⟨rfl, rfl⟩

theorem gzochidDataSetBinding_spec {result : Except DataError Oid}
    (called : gzochidDataSetBinding context name serialization address fresh = (after, result)) :
    (∀ other, other ≠ name → after.names other = context.names other) ∧
    (after.rollback = false → context.rollback = false) ∧
    (after.rollback = false → ∃ oid, result = .ok oid ∧
      after.names = update context.names name (some oid)) := by
  have kept := getReferenceByPtr_names context address serialization fresh
  cases located : context.getReferenceByPtr address serialization fresh with
  | mk middle rest =>
    obtain ⟨found, failure⟩ := rest
    rw [located] at kept
    rcases getReferenceByPtr_found located with ⟨oid, rfl, rfl⟩ | ⟨refused, rfl⟩
    · cases bound : middle.setBinding name oid with
      | mk last error =>
        have elsewhere := fun other apart => setBinding_names middle name other oid apart
        rw [bound] at elsewhere
        have ended : after = last ∧ (error = none → result = .ok oid) := by
          simp only [gzochidDataSetBinding, located, bound] at called
          cases error with
          | none =>
            cases called
            exact ⟨rfl, fun _ => rfl⟩
          | some error =>
            cases called
            exact ⟨rfl, nofun⟩
        obtain ⟨rfl, answer⟩ := ended
        refine ⟨?_, ?_, ?_⟩
        · intro other apart
          rw [elsewhere other apart, kept]
        · intro fine
          exact (getReferenceByPtr_marks located).fine ((setBinding_marks bound).fine fine)
        · intro fine
          obtain ⟨no_error, names⟩ := setBinding_fits bound fine
          exact ⟨oid, answer no_error, by rw [names, kept]⟩
    · simp only [gzochidDataSetBinding, located] at called
      cases called
      refine ⟨fun other _ => by rw [kept], ?_, ?_⟩
      · exact fun fine => (getReferenceByPtr_marks located).fine fine
      · intro fine
        rw [refused] at fine
        cases fine

end

namespace Transaction

/-- The transaction cannot commit any more. -/
def doomed (transaction : Transaction Kind Value Bytes) : Bool :=
  transaction.timedOut || transaction.rollbackOnly

section

variable {toLocaleString : String → Option CString} {codec : Codec Kind Value Bytes}
  {location : Kind} {transaction after : Transaction Kind Value Bytes} {outcome : Outcome}
  {name : String} {cname : CString} {context : DataContext Kind Value Bytes CString}

theorem not_doomed (fine : transaction.doomed = false) :
    transaction.timedOut = false ∧ transaction.marked = false ∧
      transaction.context.rollback = false := by
  unfold doomed rollbackOnly at fine
  simpa [Bool.or_eq_false_iff, and_assoc] using fine

@[simp] theorem checked_fst (transaction : Transaction Kind Value Bytes)
    (context : DataContext Kind Value Bytes CString) (outcome : Outcome) :
    (transaction.checked context outcome).1 = { transaction with context := context } := rfl

/-- The end of a primitive, in a transaction that can still commit or not. -/
theorem checked_cases {given : Outcome}
    (called : transaction.checked context given = (after, outcome)) :
    after = { transaction with context := context } ∧
      (after.doomed = false → outcome = given) := by
  obtain rfl : { transaction with context := context } = after := congrArg Prod.fst called
  refine ⟨rfl, fun fine => ?_⟩
  obtain ⟨in_time, unmarked, accepted⟩ := not_doomed fine
  simp only at in_time unmarked accepted
  unfold checked checkTransaction rollbackOnly at called
  simpa [in_time, unmarked, accepted, eq_comm] using called

/-- What a primitive keeps of a transaction. -/
structure Extends (transaction after : Transaction Kind Value Bytes) (cname : CString) :
    Prop where
  timedOut : after.timedOut = transaction.timedOut
  marked : after.marked = transaction.marked
  fine : after.context.rollback = false → transaction.context.rollback = false
  elsewhere : ∀ other, other ≠ prefixName cname →
    after.context.names other = transaction.context.names other

theorem Extends.not_doomed (kept : Extends transaction after cname)
    (fine : after.doomed = false) : transaction.doomed = false := by
  obtain ⟨in_time, unmarked, accepted⟩ := Transaction.not_doomed fine
  unfold doomed rollbackOnly
  rw [← kept.timedOut, ← kept.marked, in_time, unmarked, kept.fine accepted]
  rfl

theorem touched_extends (transaction : Transaction Kind Value Bytes) (cname : CString) :
    Extends transaction { transaction with context := transaction.context.touch } cname :=
  ⟨rfl, rfl, touch_fine, fun _ _ => rfl⟩

/-- The storage engine has refused. -/
theorem touched_doomed (refused : transaction.context.touch.rollback = true) :
    ¬ ({ transaction with context := transaction.context.touch } :
      Transaction Kind Value Bytes).doomed = false := by
  intro fine
  have accepted := (not_doomed fine).2.2
  simp only at accepted
  rw [refused] at accepted
  cases accepted

variable (converted : toLocaleString name = some cname)
include converted

theorem primitiveGetBinding_spec
    (called : transaction.primitiveGetBinding toLocaleString codec location name =
      (after, outcome)) :
    Extends transaction after cname ∧ (after.doomed = false →
      after.context.names = transaction.context.names ∧
      match transaction.context.names (prefixName cname) with
      | none => outcome = .raised (.nameNotBound cname)
      | some oid => Answers cname outcome (.found oid) ↔ ¬Unreadable transaction.context oid) := by
  unfold primitiveGetBinding at called
  rw [converted] at called
  simp only [gzochidDataBindingExists_eq] at called
  cases refused : transaction.context.touch.rollback with
  | true =>
    rw [refused] at called
    cases called
    exact ⟨touched_extends transaction cname, fun fine => absurd fine (touched_doomed refused)⟩
  | false =>
    rw [refused] at called
    cases bound : transaction.context.names (prefixName cname) with
    | none =>
      rw [bound] at called
      replace called : transaction.checked transaction.context.touch
        (.raised (.nameNotBound cname)) = (after, outcome) := called
      obtain ⟨rfl, answer⟩ := checked_cases called
      exact ⟨touched_extends transaction cname, fun fine => ⟨rfl, answer fine⟩⟩
    | some oid =>
      rw [bound] at called
      cases got : gzochidDataGetBinding codec transaction.context.touch (prefixName cname)
          location with
      | mk context found =>
        obtain ⟨names, fine_before, answer, failed⟩ := gzochidDataGetBinding_spec got
        have kept : Extends transaction { transaction with context := context } cname :=
          ⟨rfl, rfl, fun fine => touch_fine (fine_before fine), fun other _ => by rw [names]; rfl⟩
        cases found with
        | ok result =>
          replace called : (if (context.reference result.1).any fun reference =>
                reference.state = .failed then
              ({ transaction with context := context }, .crashed)
            else transaction.checked context (.resolved result.1 result.2)) = (after, outcome) := by
              simpa [got] using called
          have crash := unreadable_iff context result.1
          obtain ⟨here, same⟩ := answer result rfl
          cases bound.symm.trans here
          split at called
          next unread =>
            cases called
            exact ⟨kept, fun _ =>
              ⟨names, iff_of_false nofun (not_not.mpr (same.mp (crash.mp unread)))⟩⟩
          next read =>
            obtain ⟨rfl, given⟩ := checked_cases called
            exact ⟨kept, fun fine =>
              ⟨names, iff_of_true (given fine ▸ .resolved) (mt same.mpr (mt crash.mpr read))⟩⟩
        | error error =>
          have readable : context.rollback = false → ¬Unreadable transaction.context oid :=
            fun fine => failed error rfl fine oid bound
          by_cases missing : errorCode error = some .notFound
          · replace called : (({ transaction with context := context },
              .raised .objectRemoved) : Transaction Kind Value Bytes × Outcome) =
                (after, outcome) := by simpa [got, missing] using called
            cases called
            exact ⟨kept, fun fine =>
              ⟨names, iff_of_true .missing (readable (not_doomed fine).2.2)⟩⟩
          · replace called : transaction.checked context .false = (after, outcome) := by
              simpa [got, missing] using called
            obtain ⟨rfl, given⟩ := checked_cases called
            exact ⟨kept, fun fine =>
              ⟨names, iff_of_true (given fine ▸ .unreadable) (readable (not_doomed fine).2.2)⟩⟩

theorem primitiveSetBinding_spec {address : Address} {fresh : Oid}
    (called : transaction.primitiveSetBinding toLocaleString location name address fresh =
      (after, outcome)) :
    Extends transaction after cname ∧ (after.doomed = false →
      match transaction.context.names (prefixName cname) with
      | some _ => outcome = .raised (.nameExists cname) ∧
          after.context.names = transaction.context.names
      | none => ∃ oid, outcome = .bound oid ∧ after.context.names =
          update transaction.context.names (prefixName cname) (some oid)) := by
  unfold primitiveSetBinding at called
  rw [converted] at called
  simp only [gzochidDataBindingExists_eq] at called
  cases refused : transaction.context.touch.rollback with
  | true =>
    rw [refused] at called
    cases called
    exact ⟨touched_extends transaction cname, fun fine => absurd fine (touched_doomed refused)⟩
  | false =>
    rw [refused] at called
    cases bound : transaction.context.names (prefixName cname) with
    | some oid =>
      rw [bound] at called
      cases called
      exact ⟨touched_extends transaction cname, fun _ => ⟨rfl, rfl⟩⟩
    | none =>
      rw [bound] at called
      cases set : gzochidDataSetBinding transaction.context.touch (prefixName cname) location
          address fresh with
      | mk context result =>
        obtain ⟨elsewhere, fine_before, answer⟩ := gzochidDataSetBinding_spec set
        have kept : Extends transaction { transaction with context := context } cname :=
          ⟨rfl, rfl, fun fine => touch_fine (fine_before fine), elsewhere⟩
        have same : after = { transaction with context := context } := by
          cases result with
          | ok oid | error error => simpa [set] using (congrArg Prod.fst called).symm
        refine ⟨same ▸ kept, ?_⟩
        intro fine
        rw [same] at fine
        obtain ⟨oid, rfl, names⟩ := answer (not_doomed fine).2.2
        replace called : transaction.checked context (.bound oid) = (after, outcome) := by
          simpa [set] using called
        obtain ⟨rfl, given⟩ := checked_cases called
        exact ⟨oid, given fine, names⟩

/-- Nothing is signalled, whether there was a binding or not. -/
theorem primitiveRemoveBinding_spec
    (called : transaction.primitiveRemoveBinding toLocaleString name = (after, outcome)) :
    Extends transaction after cname ∧ (after.doomed = false → outcome = .unspecified ∧
      after.context.names = update transaction.context.names (prefixName cname) none) := by
  have unfailed : ∀ error, errorCode error ≠ some .failed := by
    intro error
    cases error <;> nofun
  have ended : transaction.primitiveRemoveBinding toLocaleString name =
      transaction.checked (gzochidDataRemoveBinding transaction.context (prefixName cname)).1
        .unspecified := by
    unfold primitiveRemoveBinding
    rw [converted]
    simp only
    split
    · rename_i removed
      rw [removed]
    · rename_i error removed
      rw [removed, if_neg (unfailed error)]
  rw [ended] at called
  obtain ⟨rfl, given⟩ := checked_cases called
  have touched : gzochidDataRemoveBinding transaction.context (prefixName cname) =
      if transaction.context.touch.rollback then
        (transaction.context.touch, some .transaction)
      else ({ transaction.context.touch with
        names := update transaction.context.names (prefixName cname) none },
        if (transaction.context.names (prefixName cname)).isNone then some .notFound else none) :=
    rfl
  rw [touched] at given ⊢
  cases refused : transaction.context.touch.rollback with
  | true =>
    exact ⟨touched_extends transaction cname, fun fine => absurd fine (touched_doomed refused)⟩
  | false =>
    rw [refused] at given
    exact ⟨⟨rfl, rfl, touch_fine, fun other apart => update_other _ _ apart⟩,
      fun fine => ⟨given fine, rfl⟩⟩

omit converted

/-- A binding to be removed is there, and what is bound to a name to be looked up is not an
object that the transaction has tried to read and could not. -/
def Proper (transaction : Transaction Kind Value Bytes) (cname : CString) : UserCall → Prop
  | .get _ => ∀ oid ∈ transaction.context.names (prefixName cname),
      ¬Unreadable transaction.context oid
  | .remove _ => transaction.context.names (prefixName cname) ≠ none
  | .set _ _ _ => True

theorem checked_unharmed (transaction : Transaction Kind Value Bytes)
    (context : DataContext Kind Value Bytes CString) {given : Outcome}
    (unharmed : given ≠ .crashed) :
    (transaction.checked context given).2 ≠ .crashed := by
  unfold checked checkTransaction
  simp only
  split
  · nofun
  · split
    · nofun
    · exact unharmed

variable (codec location) in
/-- The process ends only with a call that is not proper. -/
theorem call_unharmed {call : UserCall} (converted : toLocaleString call.name = some cname)
    (proper : Proper transaction cname call) :
    (transaction.call toLocaleString codec location call).2 ≠ .crashed := by
  cases call with
  | get name =>
    simp only [UserCall.name] at converted
    simp only [Transaction.call, primitiveGetBinding, converted, gzochidDataBindingExists_eq]
    cases transaction.context.touch.rollback with
    | true => exact checked_unharmed _ _ nofun
    | false =>
      cases bound : transaction.context.names (prefixName cname) with
      | none => exact checked_unharmed _ _ nofun
      | some oid =>
        simp only [Option.isSome_some, Bool.false_eq_true, if_false]
        cases got : gzochidDataGetBinding codec transaction.context.touch (prefixName cname)
            location with
        | mk context found =>
          obtain ⟨_, _, answer, _⟩ := gzochidDataGetBinding_spec got
          cases found with
          | ok result =>
            obtain ⟨here, same⟩ := answer result rfl
            have read : ¬((context.reference result.1).any fun reference =>
                decide (reference.state = .failed)) = true :=
              mt (fun unread => same.mp ((unreadable_iff context result.1).mp unread))
                (proper result.1 here)
            simp only [if_neg read]
            exact checked_unharmed _ _ nofun
          | error error =>
            simp only
            split
            · nofun
            · exact checked_unharmed _ _ nofun
  | set name address fresh =>
    simp only [Transaction.call, primitiveSetBinding]
    split
    · nofun
    · split
      · nofun
      · exact checked_unharmed _ _ nofun
      · split <;> exact checked_unharmed _ _ nofun
  | remove name =>
    simp only [Transaction.call, primitiveRemoveBinding]
    split
    · nofun
    · split
      · exact checked_unharmed _ _ nofun
      · split
        · nofun
        · exact checked_unharmed _ _ nofun

/-- The outcome of a call is the reply of the map exactly when the call is proper; what is bound
afterwards always agrees. -/
theorem call_spec {call : UserCall} (converted : toLocaleString call.name = some cname)
    (called : transaction.call toLocaleString codec location call = (after, outcome)) :
    Extends transaction after cname ∧ (after.doomed = false → ∀ bindings : Bindings,
      bindings call.name = transaction.context.names (prefixName cname) →
      (Answers cname outcome (performBinding bindings (call.toMap outcome)).2 ↔
        Proper transaction cname call) ∧
      (performBinding bindings (call.toMap outcome)).1 call.name =
        after.context.names (prefixName cname) ∧
      ∀ other, other ≠ call.name →
        (performBinding bindings (call.toMap outcome)).1 other = bindings other) := by
  cases call with
  | get name =>
    obtain ⟨kept, answer⟩ := primitiveGetBinding_spec converted called
    refine ⟨kept, ?_⟩
    intro fine bindings agrees
    obtain ⟨names, reply⟩ := answer fine
    rw [UserCall.name] at agrees
    simp only [UserCall.toMap, UserCall.name, performBinding, Proper, names]
    rw [← agrees] at reply ⊢
    cases bound : bindings name with
    | none =>
      rw [bound] at reply
      rw [reply]
      refine ⟨iff_of_true .unbound ?_, bound, fun _ _ => rfl⟩
      intro oid present
      cases present
    | some oid =>
      rw [bound] at reply
      refine ⟨reply.trans ?_, bound, fun _ _ => rfl⟩
      simp
  | set name address fresh =>
    obtain ⟨kept, answer⟩ := primitiveSetBinding_spec converted called
    refine ⟨kept, ?_⟩
    intro fine bindings agrees
    have reply := answer fine
    rw [UserCall.name] at agrees
    rw [← agrees] at reply
    cases bound : bindings name with
    | none =>
      rw [bound] at reply
      obtain ⟨oid, rfl, names⟩ := reply
      simp only [UserCall.toMap, UserCall.name, performBinding, bound, Proper, names]
      refine ⟨iff_of_true .bound trivial, ?_, fun other apart => update_other _ _ apart⟩
      rw [update_same, update_same]
    | some oid =>
      rw [bound] at reply
      obtain ⟨rfl, names⟩ := reply
      simp only [UserCall.toMap, UserCall.name, performBinding, bound, Proper, names]
      exact ⟨iff_of_true .exists trivial, by rw [← bound, agrees], fun _ _ => trivial⟩
  | remove name =>
    obtain ⟨kept, answer⟩ := primitiveRemoveBinding_spec converted called
    refine ⟨kept, ?_⟩
    intro fine bindings agrees
    obtain ⟨rfl, names⟩ := answer fine
    rw [UserCall.name] at agrees
    cases bound : bindings name with
    | none =>
      simp only [UserCall.toMap, UserCall.name, performBinding, bound, Proper, names]
      refine ⟨iff_of_false nofun ?_, by rw [update_same], fun _ _ => trivial⟩
      rw [← agrees, bound]
      exact fun present => present rfl
    | some oid =>
      simp only [UserCall.toMap, UserCall.name, performBinding, bound, Proper, names]
      refine ⟨iff_of_true .removed ?_, by rw [update_same, update_same],
        fun other apart => update_other _ _ apart⟩
      rw [← agrees, bound]
      nofun

end

end Transaction

theorem not_isSystemName_prefixName (cname : CString) : isSystemName (prefixName cname) = false :=
  rfl

/-- The same state of the data layer with other bindings. -/
def withNames (context : DataContext Kind Value Bytes CString) (names : CString → Option Oid) :
    DataContext Kind Value Bytes CString :=
  { context with names := names }

section

variable {context : DataContext Kind Value Bytes CString} {names : CString → Option Oid}
  {name : CString}

theorem getBinding_withNames (same : names name = context.names name) :
    (withNames context names).getBinding name =
      (withNames (context.getBinding name).1 names, (context.getBinding name).2) := by
  have touched : (withNames context names).touch = withNames context.touch names := rfl
  have kept : (withNames context.touch names).rollback = context.touch.rollback := rfl
  have looked : (withNames context.touch names).names name = context.touch.names name := same
  unfold DataContext.getBinding
  simp only [touched, kept, looked]
  split
  · rfl
  · split <;> rfl

theorem getReferenceByOid_withNames (context : DataContext Kind Value Bytes CString)
    (names : CString → Option Oid) (oid : Oid) (serialization : Kind) :
    (withNames context names).getReferenceByOid oid serialization =
      (withNames (context.getReferenceByOid oid serialization).1 names,
        (context.getReferenceByOid oid serialization).2) := by
  have same : (withNames context names).reference = context.reference := rfl
  unfold getReferenceByOid
  rw [same]
  cases context.reference oid <;> rfl

theorem getReferenceByPtr_withNames (context : DataContext Kind Value Bytes CString)
    (names : CString → Option Oid) (address : Address) (serialization : Kind) (fresh : Oid) :
    (withNames context names).getReferenceByPtr address serialization fresh =
      (withNames (context.getReferenceByPtr address serialization fresh).1 names,
        (context.getReferenceByPtr address serialization fresh).2) := by
  have same : (withNames context names).byAddress = context.byAddress := rfl
  have marked : (withNames context names).rollback = context.rollback := rfl
  have touched : (withNames context names).touch = withNames context.touch names := rfl
  have refused : (withNames context.touch names).rollback = context.touch.rollback := rfl
  unfold getReferenceByPtr
  simp only [same, marked, touched, refused]
  cases context.byAddress address with
  | some oid => rfl
  | none =>
    cases context.rollback with
    | true => rfl
    | false => cases context.touch.rollback <;> rfl

variable {codec : Codec Kind Value Bytes}

theorem dereference_withNames (context : DataContext Kind Value Bytes CString)
    (names : CString → Option Oid) (oid : Oid) (reference : ManagedReference Kind) :
    (withNames context names).dereference codec oid reference false =
      (withNames (context.dereference codec oid reference false).1 names,
        (context.dereference codec oid reference false).2) := by
  have touched : (withNames context names).touch = withNames context.touch names := rfl
  have refused : (withNames context.touch names).rollback = context.touch.rollback := rfl
  have stored : (withNames context.touch names).oids = context.touch.oids := rfl
  unfold DataContext.dereference
  simp only [touched, refused, stored]
  split
  · cases reference.obj <;> simp
  · cases context.touch.rollback with
    | true => rfl
    | false =>
      cases context.touch.oids oid with
      | none => rfl
      | some data =>
        simp only
        cases codec.deserializer reference.serialization data <;> rfl

theorem bindingExists_withNames (same : names name = context.names name) :
    gzochidDataBindingExists (withNames context names) name =
      (withNames (gzochidDataBindingExists context name).1 names,
        (gzochidDataBindingExists context name).2) := by
  have looked : (withNames context names).names name = context.names name := same
  have touched : (withNames context names).touch = withNames context.touch names := rfl
  have marked : (withNames context.touch names).rollback = context.touch.rollback := rfl
  rw [gzochidDataBindingExists_eq, gzochidDataBindingExists_eq, looked, touched, marked]

theorem gzochidDataGetBinding_withNames {serialization : Kind}
    (same : names name = context.names name) :
    gzochidDataGetBinding codec (withNames context names) name serialization =
      (withNames (gzochidDataGetBinding codec context name serialization).1 names,
        (gzochidDataGetBinding codec context name serialization).2) := by
  unfold gzochidDataGetBinding
  rw [getBinding_withNames same]
  cases context.getBinding name with
  | mk middle result =>
    cases result with
    | error error => rfl
    | ok oid =>
      simp only [getReferenceByOid_withNames, dereference_withNames]
      cases (middle.getReferenceByOid oid serialization).1.dereference codec oid
          (middle.getReferenceByOid oid serialization).2 false with
      | mk last rest =>
        obtain ⟨found, failure⟩ := rest
        cases failure <;> rfl

/-- The answer of a call that binds or unbinds a name, and whether the storage engine has
refused. -/
def answerOf {Result : Type} (called : DataContext Kind Value Bytes CString × Result) :
    Result × Bool :=
  (called.2, called.1.rollback)

theorem gzochidDataSetBinding_withNames (serialization : Kind) (address : Address) (fresh : Oid) :
    answerOf (gzochidDataSetBinding (withNames context names) name serialization address fresh) =
      answerOf (gzochidDataSetBinding context name serialization address fresh) := by
  have bound : ∀ (middle : DataContext Kind Value Bytes CString) (oid : Oid),
      answerOf ((withNames middle names).setBinding name oid) =
        answerOf (middle.setBinding name oid) := by
    intro middle oid
    have refused : (withNames middle names).touch.rollback = middle.touch.rollback := rfl
    unfold answerOf DataContext.setBinding
    simp only [refused]
    split
    · rfl
    · rfl
  unfold gzochidDataSetBinding
  rw [getReferenceByPtr_withNames]
  cases context.getReferenceByPtr address serialization fresh with
  | mk middle rest =>
    obtain ⟨found, failure⟩ := rest
    cases found with
    | none => cases failure <;> rfl
    | some oid =>
      cases failure with
      | some error => rfl
      | none =>
        have same := bound middle oid
        simp only
        cases first : (withNames middle names).setBinding name oid with
        | mk firstContext firstError =>
          cases second : middle.setBinding name oid with
          | mk secondContext secondError =>
            rw [first, second] at same
            simp only [answerOf, Prod.mk.injEq] at same
            obtain ⟨rfl, refused⟩ := same
            cases firstError with
            | none | some error => exact congrArg (Prod.mk _) refused

theorem gzochidDataRemoveBinding_withNames (same : names name = context.names name) :
    answerOf (gzochidDataRemoveBinding (withNames context names) name) =
      answerOf (gzochidDataRemoveBinding context name) := by
  have refused : (withNames context names).touch.rollback = context.touch.rollback := rfl
  have looked : (withNames context names).touch.names name = context.touch.names name := same
  unfold answerOf gzochidDataRemoveBinding
  simp only [refused, looked]
  split
  · rfl
  · rfl

end

namespace Transaction

variable {toLocaleString : String → Option CString} {codec : Codec Kind Value Bytes}
  {location : Kind} {transaction : Transaction Kind Value Bytes}
  {names : CString → Option Oid} {name : String} {cname : CString}

/-- The same transaction with other bindings. -/
def withNames (transaction : Transaction Kind Value Bytes) (names : CString → Option Oid) :
    Transaction Kind Value Bytes :=
  { transaction with context := Api.withNames transaction.context names }

/-- The check looks at nothing but the marks. -/
theorem checked_withNames {context other : DataContext Kind Value Bytes CString}
    (same : other.rollback = context.rollback) (outcome : Outcome) :
    ((transaction.withNames names).checked other outcome).2 =
      (transaction.checked context outcome).2 := by
  unfold checked checkTransaction rollbackOnly
  simp only [same]
  rfl

/-- What a primitive returns or raises depends on no binding but the one of its name. -/
theorem call_withNames {call : UserCall} (converted : toLocaleString call.name = some cname)
    (same : names (prefixName cname) = transaction.context.names (prefixName cname)) :
    ((transaction.withNames names).call toLocaleString codec location call).2 =
      (transaction.call toLocaleString codec location call).2 := by
  have start : (transaction.withNames names).context =
      Api.withNames transaction.context names := rfl
  cases call with
  | get name =>
    simp only [UserCall.name] at converted
    simp only [call, primitiveGetBinding, converted, start, bindingExists_withNames same]
    cases exists_ : gzochidDataBindingExists transaction.context (prefixName cname) with
    | mk context rest =>
      obtain ⟨found, error⟩ := rest
      have kept : context.names = transaction.context.names := by
        rw [gzochidDataBindingExists_eq] at exists_
        exact (congrArg (fun called => called.1.names) exists_).symm
      cases found with
      | false => cases error <;> exact checked_withNames rfl _
      | true =>
        have here : names (prefixName cname) = context.names (prefixName cname) := by
          rw [kept, same]
        simp only [gzochidDataGetBinding_withNames here]
        cases gzochidDataGetBinding codec context (prefixName cname) location with
        | mk last result =>
          cases result with
          | ok result =>
            have read : (Api.withNames last names).reference = last.reference := rfl
            simp only [read]
            split
            · rfl
            · exact checked_withNames rfl _
          | error error =>
            simp only
            split
            · rfl
            · exact checked_withNames rfl _
  | set name address fresh =>
    simp only [UserCall.name] at converted
    simp only [call, primitiveSetBinding, converted, start, bindingExists_withNames same]
    cases gzochidDataBindingExists transaction.context (prefixName cname) with
    | mk context rest =>
      obtain ⟨found, error⟩ := rest
      cases found with
      | true => rfl
      | false =>
        cases error with
        | some error => exact checked_withNames rfl _
        | none =>
          have answer : answerOf (gzochidDataSetBinding (Api.withNames context names)
              (prefixName cname) location address fresh) =
            answerOf (gzochidDataSetBinding context (prefixName cname) location address
              fresh) := gzochidDataSetBinding_withNames location address fresh
          simp only
          cases first : gzochidDataSetBinding (Api.withNames context names)
              (prefixName cname) location address fresh with
          | mk firstContext firstResult =>
            cases second : gzochidDataSetBinding context (prefixName cname) location
                address fresh with
            | mk secondContext secondResult =>
              rw [first, second] at answer
              simp only [answerOf, Prod.mk.injEq] at answer
              obtain ⟨rfl, refused⟩ := answer
              cases firstResult <;> exact checked_withNames refused _
  | remove name =>
    simp only [UserCall.name] at converted
    have answer : answerOf (gzochidDataRemoveBinding (Api.withNames transaction.context names)
        (prefixName cname)) =
      answerOf (gzochidDataRemoveBinding transaction.context (prefixName cname)) :=
        gzochidDataRemoveBinding_withNames same
    simp only [call, primitiveRemoveBinding, converted, start]
    cases first : gzochidDataRemoveBinding (Api.withNames transaction.context names)
        (prefixName cname) with
    | mk firstContext firstError =>
      cases second : gzochidDataRemoveBinding transaction.context (prefixName cname) with
      | mk secondContext secondError =>
        rw [first, second] at answer
        simp only [answerOf, Prod.mk.injEq] at answer
        obtain ⟨rfl, refused⟩ := answer
        cases firstError with
        | none => exact checked_withNames refused _
        | some error =>
          simp only
          split
          · rfl
          · exact checked_withNames refused _

end Transaction

end Gzochi.Api
