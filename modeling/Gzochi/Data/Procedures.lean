import Gzochi.Data.Contents
import Gzochi.Lib.Machine

/-!
# Procedures on the data layer

Code of the server that calls the data layer and passes the errors of its calls on: it ends
with a value or with an error, or it crashes.  What it does can be read off the object store:
as long as the storage engine refuses nothing it does not fail, and when the engine refuses a
call the transaction is marked for rollback and the error is passed on.
-/

namespace Gzochi.Data

open Lib

variable {Kind Value Bytes Name α β : Type}

/-- Code that may propagate an error to its caller. -/
abbrev Procedure (Kind Value Bytes Name α : Type) :=
  ExceptT DataError (Machine (DataContext Kind Value Bytes Name)) α

namespace Procedure

def crash : Procedure Kind Value Bytes Name α := ExceptT.mk Machine.crash

/-- Take what is there, or crash. -/
def expect : Option α → Procedure Kind Value Bytes Name α
  | some value => pure value
  | none => crash

/-- The object at an address. -/
def load (address : Address) : Procedure Kind Value Bytes Name Value :=
  ExceptT.mk fun context =>
    match context.memory address with
    | some value => .ok (.ok value) context
    | none => .crashed

section Calls

variable [DecidableEq Name] (codec : Codec Kind Value Bytes)

/-- One call, whose error is passed on. -/
def call (operation : Operation Kind Value Name) : Procedure Kind Value Bytes Name Reply :=
  ExceptT.mk fun context =>
    match context.step codec operation with
    | none => .crashed
    | some (after, reply) =>
        .ok (match reply.error with
          | none => .ok reply
          | some error => .error error) after

theorem run_call (operation : Operation Kind Value Name)
    (context : DataContext Kind Value Bytes Name) :
    (call codec operation).run context =
      match context.step codec operation with
      | none => .crashed
      | some (after, reply) =>
        .ok (match reply.error with
          | none => .ok reply
          | some error => .error error) after :=
  rfl

def allocate (value : Value) : Procedure Kind Value Bytes Name Address := do
  match ← call codec (.allocate value) with
  | .address address => pure address
  | .reference _ _ | .object _ _ | .flag _ _ | .status _ => crash

def assign (address : Address) (value : Value) : Procedure Kind Value Bytes Name Unit := do
  let _ ← call codec (.assign address value)

def gzochidDataCreateReference (serialization : Kind) (address : Address) (fresh : Oid) :
    Procedure Kind Value Bytes Name Oid := do
  match ← call codec (.createReference serialization address fresh) with
  | .reference found _ => expect found
  | .address _ | .object _ _ | .flag _ _ | .status _ => crash

def gzochidDataCreateReferenceToOid (serialization : Kind) (oid : Oid) :
    Procedure Kind Value Bytes Name Unit := do
  let _ ← call codec (.createReferenceToOid serialization oid)

/-- `gzochid_data_dereference` and `gzochid_data_dereference_for_update`. -/
def gzochidDataDereference (oid : Oid) (forUpdate : Bool) :
    Procedure Kind Value Bytes Name (Option Address) := do
  match ← call codec (.dereference oid forUpdate) with
  | .object found _ => pure found
  | .address _ | .reference _ _ | .flag _ _ | .status _ => crash

def gzochidDataMark (serialization : Kind) (address : Address) (fresh : Oid) :
    Procedure Kind Value Bytes Name Unit := do
  let _ ← call codec (.mark serialization address fresh)

def gzochidDataRemoveObject (oid : Oid) : Procedure Kind Value Bytes Name Unit := do
  let _ ← call codec (.removeObject oid)

def gzochidDataRemoveBinding (name : Name) : Procedure Kind Value Bytes Name Unit := do
  let _ ← call codec (.removeBinding name)

/-- A call whose error is cleared, unless it is that of a transaction that has failed. -/
def callCleared (operation : Operation Kind Value Name) : Procedure Kind Value Bytes Name Unit :=
  ExceptT.mk fun context =>
    match context.step codec operation with
    | none => .crashed
    | some (after, reply) =>
        .ok (if reply.error = some .transaction then .error .transaction else .ok ()) after

end Calls

end Procedure

section

variable {context : DataContext Kind Value Bytes Name} {store : ObjectStore Kind Value Bytes Name}
  {oid : Oid} {address : Address}

variable (refines : Refines context store)
include refines

theorem Refines.reference_isSome
    (known : store.knowledge oid ≠ .unknown) : (context.reference oid).isSome := by
  have means := refines.means oid
  generalize context.reference oid = reference at means ⊢
  generalize context.oids oid = view at means
  generalize store.knowledge oid = knowledge at means known
  cases means with
  | unknown => exact absurd rfl known
  | empty | failed | notModified | modified | new | removedEmpty | removedFetched => rfl

theorem Refines.alive (remains : store.knowledge oid ≠ .removed)
    (readable : ∀ kind, store.knowledge oid ≠ .failed kind) :
    ∀ reference ∈ context.reference oid, reference.Alive := by
  intro reference present
  obtain ⟨_, _, _, _, knows, _, means⟩ := refines.meaning present
  rw [knows] at remains readable
  cases means with
  | empty | notModified | modified | new => exact ⟨nofun, nofun, nofun⟩
  | removedEmpty | removedFetched => exact absurd rfl remains
  | failed kind => exact absurd rfl (readable kind)

theorem Refines.fresh_of_unused (unused : store.Unused oid) : context.fresh oid = true := by
  have means := refines.means oid
  unfold DataContext.fresh
  rw [unused.1, unused.2] at means
  generalize context.reference oid = reference at means ⊢
  generalize context.oids oid = view at means ⊢
  cases means
  rfl

theorem Refines.unused_of_fresh (fresh : context.fresh oid = true) : store.Unused oid := by
  obtain ⟨absent, view, stored⟩ := refines.fresh fresh
  have means := refines.means oid
  rw [absent, view, stored] at means
  refine ⟨?_, stored⟩
  generalize store.knowledge oid = knowledge at means ⊢
  cases means
  rfl

theorem Refines.removeObject_possible [DecidableEq Name] {codec : Codec Kind Value Bytes}
    (known : store.knowledge oid ≠ .unknown) :
    context.step codec (.removeObject oid) ≠ none := by
  obtain ⟨reference, found⟩ := Option.isSome_iff_exists.mp (refines.reference_isSome known)
  simp only [DataContext.step, found]
  simp

theorem Refines.wellFormed : store.WellFormed where
  located := by
    intro oid kind address located
    rw [← refines.byAddress]
    generalize found : context.reference oid = reference
    obtain ⟨_, _, _, _, knows, _, means⟩ := refines.meaning found
    unfold ObjectStore.Located at located
    rw [knows] at located
    cases means with
    | unknown | empty | failed | removedEmpty | removedFetched =>
      cases located with
      | inl loaded => cases loaded
      | inr changed => cases changed
    | notModified | modified | new =>
      have same := refines.located oid _ _ found rfl
      cases located with
      | inl loaded => cases loaded <;> exact same
      | inr changed => cases changed <;> exact same
  known := by
    intro address oid managed
    rw [← refines.byAddress] at managed
    obtain ⟨there, reference, found, obj⟩ := refines.known address oid managed
    rw [refines.memory] at there
    refine ⟨there, ?_⟩
    obtain ⟨_, _, _, _, knows, _, means⟩ := refines.meaning found
    unfold ObjectStore.Located
    rw [knows]
    cases means with
    | empty | failed => cases obj
    | notModified serialization place =>
      cases obj
      exact .inl ⟨_, .inl rfl⟩
    | modified serialization place | new serialization place =>
      cases obj
      exact .inl ⟨_, .inr rfl⟩
    | removedEmpty | removedFetched => exact .inr rfl
  below := by
    intro address there
    rw [← refines.nextAddress]
    rw [← refines.memory] at there
    exact refines.below address there

end

/-! ## Rules

`Attains store procedure post`: in a transaction in which nothing has been refused, and which
stands for the object store, the procedure ends, with an error only if the engine refuses
something; otherwise `post` holds of its value and of the store that the transaction stands
for then. -/

def Attains (store : ObjectStore Kind Value Bytes Name)
    (procedure : Procedure Kind Value Bytes Name α)
    (post : α → ObjectStore Kind Value Bytes Name → Prop) : Prop :=
  ∀ context, context.rollback = false → Refines context store →
    ∃ result after, procedure.run context = .ok result after ∧
      match result with
      | .ok value => after.rollback = false ∧ ∃ next, Refines after next ∧ post value next
      | .error _ => after.rollback = true

namespace Attains

variable {store : ObjectStore Kind Value Bytes Name}
  {procedure : Procedure Kind Value Bytes Name α}
  {post : α → ObjectStore Kind Value Bytes Name → Prop}

variable {value : α}

theorem pure (holds : post value store) :
    Attains store (Pure.pure value : Procedure Kind Value Bytes Name α) post :=
  fun context fine refines => ⟨.ok value, context, rfl, fine, store, refines, holds⟩

theorem bind {next : α → Procedure Kind Value Bytes Name β}
    {post : β → ObjectStore Kind Value Bytes Name → Prop}
    (attains : Attains store procedure fun value middle => Attains middle (next value) post) :
    Attains store (procedure >>= next) post := by
  intro context fine refines
  obtain ⟨result, middle, ran, done⟩ := attains context fine refines
  have whole : (procedure >>= next).run context = ExceptT.bindCont next result middle := by
    show (procedure.run >>= ExceptT.bindCont next) context = _
    rw [Machine.bind_apply, ran]
  cases result with
  | error error => exact ⟨.error error, middle, whole, done⟩
  | ok value =>
    obtain ⟨calm, reached, refines, holds⟩ := done
    rw [whole]
    exact holds middle calm refines

theorem mono {weaker : α → ObjectStore Kind Value Bytes Name → Prop}
    (attains : Attains store procedure post)
    (implies : ∀ value next, post value next → weaker value next) :
    Attains store procedure weaker := by
  intro context fine refines
  obtain ⟨result, after, ran, done⟩ := attains context fine refines
  refine ⟨result, after, ran, ?_⟩
  cases result with
  | error error => exact done
  | ok value =>
    obtain ⟨calm, next, refines, holds⟩ := done
    exact ⟨calm, next, refines, implies value next holds⟩

theorem expect {found : Option α} (present : found = some value) (holds : post value store) :
    Attains store (Procedure.expect found : Procedure Kind Value Bytes Name α) post := by
  subst present
  exact pure holds

theorem load {address : Address} {value : Value} (object : store.memory address = some value)
    {post : Value → ObjectStore Kind Value Bytes Name → Prop} (holds : post value store) :
    Attains store (Procedure.load address) post := by
  intro context fine refines
  refine ⟨.ok value, context, ?_, fine, store, refines, holds⟩
  have ran : (Procedure.load address).run context = match context.memory address with
      | some value => Outcome.ok (Except.ok value) context
      | none => Outcome.crashed := rfl
  rw [ran, refines.memory, object]

section Calls

variable [DecidableEq Name] {codec : Codec Kind Value Bytes} {oid : Oid} {address : Address}
  {kind : Kind}

variable {operation : Operation Kind Value Name} {reply : Reply}
  {next : ObjectStore Kind Value Bytes Name}

theorem call {post : Reply → ObjectStore Kind Value Bytes Name → Prop}
    (taken : store.step codec operation = some (next, reply)) (noError : reply.error = none)
    (possible : ∀ context : DataContext Kind Value Bytes Name, Refines context store →
      context.step codec operation ≠ none ∧ SparesLost context operation)
    (holds : next.WellFormed → post reply next) :
    Attains store (Procedure.call codec operation) post := by
  intro context fine refines
  obtain ⟨able, spares⟩ := possible context refines
  cases stepped : context.step codec operation with
  | none => exact absurd stepped able
  | some pair =>
    obtain ⟨after, answer⟩ := pair
    have ran := Procedure.run_call codec operation context
    simp only [stepped] at ran
    cases refused : after.rollback with
    | true =>
      rw [(step_marks stepped).refused fine refused] at ran
      exact ⟨_, after, ran, refused⟩
    | false =>
      obtain ⟨reached, moved, refines⟩ := step_refines refines spares stepped refused
      rw [taken] at moved
      cases moved
      rw [noError] at ran
      exact ⟨_, after, ran, refused, next, refines, holds refines.wellFormed⟩

variable {value : Value}

theorem allocate {post : Address → ObjectStore Kind Value Bytes Name → Prop}
    (holds : (store.allocate value).WellFormed → post store.nextAddress (store.allocate value)) :
    Attains store (Procedure.allocate codec value) post := by
  apply bind
  apply call (show store.step codec (.allocate value) = some (_, .address _) from rfl) rfl
  · exact fun _ _ => ⟨nofun, trivial⟩
  · exact fun wellFormed => pure (holds wellFormed)

variable {post : Unit → ObjectStore Kind Value Bytes Name → Prop}

theorem assign (there : store.memory address ≠ none)
    (holds : (store.assign address value).WellFormed → post () (store.assign address value)) :
    Attains store (Procedure.assign codec address value) post := by
  have isThere := Option.isSome_iff_ne_none.mpr there
  apply bind
  apply call (show store.step codec (.assign address value) =
    some (store.assign address value, .status none) from if_pos isThere) rfl
  · intro context refines
    rw [← refines.memory] at isThere
    refine ⟨?_, trivial⟩
    simp only [DataContext.step, if_pos isThere]
    simp
  · exact fun wellFormed => pure (holds wellFormed)

variable {fresh : Oid}

theorem gzochidDataCreateReference (there : store.memory address ≠ none)
    (unused : store.Unused fresh) {post : Oid → ObjectStore Kind Value Bytes Name → Prop}
    (holds : (store.manage kind address fresh).1.WellFormed →
      post (store.manage kind address fresh).2 (store.manage kind address fresh).1) :
    Attains store (Procedure.gzochidDataCreateReference codec kind address fresh) post := by
  apply bind
  apply call (show store.step codec (.createReference kind address fresh) =
    some (_, .reference (some _) none) from rfl) rfl
  · intro context refines
    rw [← refines.memory] at there
    have valid := And.intro (Option.isSome_iff_ne_none.mpr there) (refines.fresh_of_unused unused)
    refine ⟨?_, trivial⟩
    simp only [DataContext.step, if_pos valid]
    simp
  · exact fun wellFormed => pure (holds wellFormed)

theorem gzochidDataCreateReferenceToOid
    (holds : (store.name kind oid).WellFormed → post () (store.name kind oid)) :
    Attains store (Procedure.gzochidDataCreateReferenceToOid codec kind oid) post := by
  apply bind
  apply call (show store.step codec (.createReferenceToOid kind oid) =
    some (_, .reference (some oid) none) from rfl) rfl
  · exact fun _ _ => ⟨nofun, trivial⟩
  · exact fun wellFormed => pure (holds wellFormed)

variable {forUpdate : Bool}

/-- A dereference, with the look into the store that it stands for. -/
theorem dereference_look [DecidableEq Kind] (wellFormed : store.WellFormed)
    (known : store.knowledge oid ≠ .unknown) (stands : store.content codec kind oid = some value)
    {post : Option Address → ObjectStore Kind Value Bytes Name → Prop}
    (holds : ∀ address next, next.WellFormed →
      store.look codec oid forUpdate = some (next, .object (some address) none) →
      ObjectStore.Looked codec store next oid kind address value → post (some address) next) :
    Attains store (Procedure.gzochidDataDereference codec oid forUpdate) post := by
  obtain ⟨address, next, found, looked⟩ := wellFormed.look_spec known stands forUpdate
  apply bind
  apply call (show store.step codec (.dereference oid forUpdate) =
    some (next, .object (some address) none) from found) rfl
  · intro context refines
    have present := refines.reference_isSome known
    constructor
    · obtain ⟨reference, found⟩ := Option.isSome_iff_exists.mp present
      simp only [DataContext.step, found]
      simp
    · exact refines.alive (ObjectStore.content_remains stands)
        (ObjectStore.content_readable stands)
  · exact fun wellFormed => pure (holds address next wellFormed found looked)

theorem gzochidDataDereference [DecidableEq Kind] (wellFormed : store.WellFormed)
    (known : store.knowledge oid ≠ .unknown) (stands : store.content codec kind oid = some value)
    {post : Option Address → ObjectStore Kind Value Bytes Name → Prop}
    (holds : ∀ address next, next.WellFormed →
      ObjectStore.Looked codec store next oid kind address value → post (some address) next) :
    Attains store (Procedure.gzochidDataDereference codec oid forUpdate) post :=
  dereference_look wellFormed known stands fun address next reached _ looked =>
    holds address next reached looked

theorem gzochidDataMark (there : store.memory address ≠ none) (unused : store.Unused fresh)
    (remains : ∀ oid, store.managed address = some oid → store.knowledge oid ≠ .removed)
    (holds : ((store.manage kind address fresh).1.markFor
        (store.manage kind address fresh).2).WellFormed →
      post () ((store.manage kind address fresh).1.markFor (store.manage kind address fresh).2)) :
    Attains store (Procedure.gzochidDataMark codec kind address fresh) post := by
  apply bind
  apply call (show store.step codec (.mark kind address fresh) = some (_, .status none) from rfl)
    rfl
  · intro context refines
    rw [← refines.memory] at there
    have valid := And.intro (Option.isSome_iff_ne_none.mpr there) (refines.fresh_of_unused unused)
    constructor
    · simp only [DataContext.step, if_pos valid]
      simp
    · intro oid managed
      rw [refines.byAddress] at managed
      refine refines.alive (remains oid managed) fun kind failed => ?_
      rcases (refines.wellFormed.known managed).2 with ⟨_, located⟩ | removed
      · rcases located with there | there <;> (rw [failed] at there; cases there)
      · exact remains oid managed removed
  · exact fun wellFormed => pure (holds wellFormed)

/-- What is in memory, or has been removed, is removed without an error. -/
theorem removeObject_fetched (fetched : store.Fetched oid)
    (holds : (store.know oid .removed).WellFormed → post () (store.know oid .removed)) :
    Attains store (Procedure.gzochidDataRemoveObject codec oid) post := by
  obtain ⟨error, taken, _, noError⟩ := ObjectStore.step_removeObject codec fetched.known
  apply bind
  apply call taken (noError fetched)
  · exact fun context refines => ⟨refines.removeObject_possible fetched.known, trivial⟩
  · exact fun wellFormed => pure (holds wellFormed)

theorem gzochidDataRemoveObject (located : store.Located oid kind address)
    (holds : (store.know oid .removed).WellFormed → post () (store.know oid .removed)) :
    Attains store (Procedure.gzochidDataRemoveObject codec oid) post :=
  removeObject_fetched (.located located) holds

/-- A binding that is there is removed. -/
theorem gzochidDataRemoveBinding {name : Name} (bound : store.names name ≠ none)
    (holds : ({ store with names := update store.names name none } :
        ObjectStore Kind Value Bytes Name).WellFormed →
      post () { store with names := update store.names name none }) :
    Attains store (Procedure.gzochidDataRemoveBinding codec name) post := by
  apply bind
  apply call (show store.step codec (.removeBinding name) = some (_, .status _) from rfl)
  · show (if (store.names name).isNone = true then some DataError.notFound else none) = none
    rw [if_neg (by rw [Option.isNone_iff_eq_none]; exact bound)]
  · intro context _
    refine ⟨?_, trivial⟩
    simp only [DataContext.step]
    split
    · simp
    · simp
  · exact fun wellFormed => pure (holds wellFormed)

/-- A call that may find nothing. -/
theorem callCleared
    (taken : store.step codec operation = some (next, reply))
    (fineReply : reply.error ≠ some .transaction)
    (possible : ∀ context : DataContext Kind Value Bytes Name, Refines context store →
      context.step codec operation ≠ none ∧ SparesLost context operation)
    (holds : next.WellFormed → post () next) :
    Attains store (Procedure.callCleared codec operation) post := by
  intro context fine refines
  obtain ⟨able, spares⟩ := possible context refines
  cases stepped : context.step codec operation with
  | none => exact absurd stepped able
  | some pair =>
    obtain ⟨after, answer⟩ := pair
    have ran : (Procedure.callCleared codec operation).run context =
        .ok (if answer.error = some .transaction then .error .transaction else .ok ()) after := by
      have called : (Procedure.callCleared codec operation).run context =
          match context.step codec operation with
          | none => Outcome.crashed
          | some (after, reply) =>
            Outcome.ok (if reply.error = some .transaction then Except.error .transaction
              else Except.ok ()) after := rfl
      rw [called, stepped]
    cases refused : after.rollback with
    | true =>
      rw [(step_marks stepped).refused fine refused, if_pos rfl] at ran
      exact ⟨_, after, ran, refused⟩
    | false =>
      obtain ⟨reached, moved, refines⟩ := step_refines refines spares stepped refused
      rw [taken] at moved
      cases moved
      rw [if_neg fineReply] at ran
      exact ⟨_, after, ran, refused, next, refines, holds refines.wellFormed⟩

/-- The removal of what there may be. -/
theorem removeObject_cleared (known : store.knowledge oid ≠ .unknown)
    (holds : (store.know oid .removed).WellFormed → post () (store.know oid .removed)) :
    Attains store (Procedure.callCleared codec (.removeObject oid)) post := by
  obtain ⟨error, taken, fineReply, _⟩ := ObjectStore.step_removeObject codec known
  apply callCleared taken fineReply
  · exact fun context refines => ⟨refines.removeObject_possible known, trivial⟩
  · exact holds

end Calls

end Attains

/-- A transaction in which something has been refused stays so. -/
def Dooms (procedure : Procedure Kind Value Bytes Name α) : Prop :=
  ∀ context, context.rollback = true →
    match procedure.run context with
    | .ok _ after | .failed after => after.rollback = true
    | .crashed => True

namespace Dooms

variable {procedure : Procedure Kind Value Bytes Name α}

theorem pure (value : α) : Dooms (Pure.pure value : Procedure Kind Value Bytes Name α) :=
  fun _ refused => refused

theorem crash : Dooms (Procedure.crash : Procedure Kind Value Bytes Name α) :=
  fun _ _ => trivial

theorem bind {next : α → Procedure Kind Value Bytes Name β} (first : Dooms procedure)
    (second : ∀ value, Dooms (next value)) : Dooms (procedure >>= next) := by
  intro context refused
  have half := first context refused
  have whole : (procedure >>= next).run context = match procedure.run context with
      | .ok result middle => ExceptT.bindCont next result middle
      | .failed after => .failed after
      | .crashed => .crashed := by
    show (procedure.run >>= ExceptT.bindCont next) context = _
    rw [Machine.bind_apply]
    cases procedure.run context <;> rfl
  rw [whole]
  cases ran : procedure.run context with
  | ok result middle =>
    rw [ran] at half
    cases result with
    | error error => exact half
    | ok value => exact second value middle half
  | failed after =>
    rw [ran] at half
    exact half
  | crashed => trivial

theorem expect (found : Option α) :
    Dooms (Procedure.expect found : Procedure Kind Value Bytes Name α) := by
  cases found with
  | none => exact crash
  | some value => exact pure value

theorem load (address : Address) :
    Dooms (Procedure.load address : Procedure Kind Value Bytes Name Value) := by
  intro context refused
  have ran : (Procedure.load address).run context = match context.memory address with
      | some value => Outcome.ok (Except.ok value) context
      | none => Outcome.crashed := rfl
  rw [ran]
  cases context.memory address with
  | none => trivial
  | some value => exact refused

variable [DecidableEq Name] {codec : Codec Kind Value Bytes}

theorem call (operation : Operation Kind Value Name) : Dooms (Procedure.call codec operation) := by
  intro context refused
  rw [Procedure.run_call]
  cases stepped : context.step codec operation with
  | none => trivial
  | some pair =>
    obtain ⟨after, reply⟩ := pair
    show after.rollback = true
    cases fine : after.rollback with
    | true => rfl
    | false =>
      rw [(step_marks stepped).fine fine] at refused
      cases refused

theorem allocate (value : Value) :
    Dooms (@Procedure.allocate Kind Value Bytes Name _ codec value) := by
  apply bind (call _)
  intro reply
  cases reply with
  | address address => exact pure address
  | reference | object | flag | status => exact crash

theorem assign (address : Address) (value : Value) :
    Dooms (@Procedure.assign Kind Value Bytes Name _ codec address value) :=
  bind (call _) fun _ => pure ()

theorem gzochidDataCreateReference (serialization : Kind) (address : Address) (fresh : Oid) :
    Dooms (@Procedure.gzochidDataCreateReference Kind Value Bytes Name _ codec serialization address
      fresh) := by
  apply bind (call _)
  intro reply
  cases reply with
  | reference found error => exact expect found
  | address | object | flag | status => exact crash

theorem gzochidDataCreateReferenceToOid (serialization : Kind) (oid : Oid) :
    Dooms (@Procedure.gzochidDataCreateReferenceToOid Kind Value Bytes Name _ codec serialization
      oid) :=
  bind (call _) fun _ => pure ()

theorem gzochidDataDereference (oid : Oid) (forUpdate : Bool) :
    Dooms (@Procedure.gzochidDataDereference Kind Value Bytes Name _ codec oid forUpdate) := by
  apply bind (call _)
  intro reply
  cases reply with
  | object found error => exact pure found
  | address | reference | flag | status => exact crash

theorem gzochidDataMark (serialization : Kind) (address : Address) (fresh : Oid) :
    Dooms (@Procedure.gzochidDataMark Kind Value Bytes Name _ codec serialization address fresh) :=
  bind (call _) fun _ => pure ()

theorem gzochidDataRemoveObject (oid : Oid) :
    Dooms (@Procedure.gzochidDataRemoveObject Kind Value Bytes Name _ codec oid) :=
  bind (call _) fun _ => pure ()

end Dooms

end Gzochi.Data
