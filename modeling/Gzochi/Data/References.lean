import Gzochi.Lib.Runs

/-!
# Managed references

What `data.c` keeps for a transaction: a reference for every object it has come across,
found by the id of the object or by its address, and the storage transaction below.  The
effect of a call on the store comes when the references are flushed, in the prepare phase.

Objects live in memory at addresses and may be changed there by the application at any
time.  How an object is turned into bytes and back is given by a codec.  The storage
engine answers every call either as a map would or by marking the transaction for
rollback.
-/

namespace Gzochi.Data

open Lib

abbrev Oid := Nat
abbrev Address := Nat

/-- `gzochid_data_managed_reference_state`, the states in use.  `failed` is `EMPTY` with an
`obj` that is not `NULL` but no object either: what a failing deserializer has returned. -/
inductive ReferenceState where
  | new
  | empty
  | failed
  | notModified
  | modified
  | removedEmpty
  | removedFetched
  deriving DecidableEq

/-- The codes of `GZOCHID_DATA_ERROR`, and any error of a deserializer. -/
inductive DataError where
  | notFound
  | transaction
  | deserializer
  deriving DecidableEq

/-- `gzochid_io_serialization`: one pair of functions for every kind of object. -/
structure Codec (Kind Value Bytes : Type) where
  serializer : Kind → Value → Option Bytes
  deserializer : Kind → Bytes → Option Value

/-- `gzochid_data_managed_reference`; its id is the key under which it is kept. -/
structure ManagedReference (Kind : Type) where
  state : ReferenceState
  serialization : Kind
  obj : Option Address
  deriving DecidableEq

/-- `gzochid_data_transaction_context`, with the storage transaction and the memory of the
application. -/
structure DataContext (Kind Value Bytes Name : Type) where
  reference : Oid → Option (ManagedReference Kind)
  byAddress : Address → Option Oid
  oids : Oid → Option Bytes
  names : Name → Option Oid
  memory : Address → Option Value
  nextAddress : Address
  answers : Nat → Bool
  asked : Nat
  rollback : Bool

/-- What a call gives back. -/
inductive Reply where
  | address (found : Address)
  | reference (found : Option Oid) (error : Option DataError)
  | object (found : Option Address) (error : Option DataError)
  | flag (found : Bool) (error : Option DataError)
  | status (error : Option DataError)
  deriving DecidableEq

/-- The calls of an application.  Where a call may have to create a reference, it comes
with the id that `next_object_id` would return. -/
inductive Operation (Kind Value Name : Type) where
  | allocate (value : Value)
  | assign (address : Address) (value : Value)
  | createReference (serialization : Kind) (address : Address) (fresh : Oid)
  | createReferenceToOid (serialization : Kind) (oid : Oid)
  | dereference (oid : Oid) (forUpdate : Bool)
  | mark (serialization : Kind) (address : Address) (fresh : Oid)
  | removeObject (oid : Oid)
  | getBinding (serialization : Kind) (name : Name)
  | setBinding (serialization : Kind) (name : Name) (address : Address) (fresh : Oid)
  | setBindingToOid (name : Name) (oid : Oid)
  | removeBinding (name : Name)
  | bindingExists (name : Name)

variable {Kind Value Bytes Name : Type} [DecidableEq Name]

/-- One entry of a map is replaced. -/
def update {Key Content : Type} [DecidableEq Key] (map : Key → Content) (key : Key)
    (content : Content) : Key → Content :=
  fun other => if other = key then content else map other

variable {Key Content : Type}

@[simp] theorem update_same [DecidableEq Key] (map : Key → Content) (key : Key)
    (content : Content) : update map key content key = content := by
  simp [update]

theorem update_other [DecidableEq Key] (map : Key → Content) {key other : Key} (content : Content)
    (apart : other ≠ key) :
    update map key content other = map other := by
  simp [update, apart]

theorem update_some [DecidableEq Key] {map : Key → Option Content} {key other : Key}
    {content found : Content} (present : update map key (some content) other = some found) :
    other = key ∧ content = found ∨ other ≠ key ∧ map other = some found := by
  by_cases same : other = key
  · rw [same, update_same] at present
    exact .inl ⟨same, Option.some.inj present⟩
  · rw [update_other _ _ same] at present
    exact .inr ⟨same, present⟩

theorem update_unchanged [DecidableEq Key] (map : Key → Content) (key : Key) :
    update map key (map key) = map := by
  funext other
  by_cases same : other = key
  · rw [same, update_same]
  · rw [update_other map _ same]

@[simp] theorem update_update [DecidableEq Key] (map : Key → Content) (key : Key)
    (first second : Content) :
    update (update map key first) key second = update map key second := by
  funext other
  by_cases same : other = key
  · rw [same, update_same, update_same]
  · rw [update_other _ _ same, update_other _ _ same, update_other _ _ same]

namespace DataContext

/-- The storage engine is called: from the first time that it refuses, the transaction is
marked for rollback. -/
def touch (context : DataContext Kind Value Bytes Name) : DataContext Kind Value Bytes Name :=
  { context with
    asked := context.asked + 1
    rollback := context.rollback || !context.answers context.asked }

def setReference (context : DataContext Kind Value Bytes Name) (oid : Oid)
    (reference : ManagedReference Kind) : DataContext Kind Value Bytes Name :=
  { context with reference := update context.reference oid (some reference) }

/-- `get_reference_by_oid`. -/
def getReferenceByOid (context : DataContext Kind Value Bytes Name) (oid : Oid)
    (serialization : Kind) : DataContext Kind Value Bytes Name × ManagedReference Kind :=
  match context.reference oid with
  | some reference => (context, reference)
  | none =>
      let reference := { state := .empty, serialization := serialization, obj := none }
      (context.setReference oid reference, reference)

/-- `get_reference_by_ptr`, with `create_new_reference`. -/
def getReferenceByPtr (context : DataContext Kind Value Bytes Name) (address : Address)
    (serialization : Kind) (fresh : Oid) :
    DataContext Kind Value Bytes Name × Option Oid × Option DataError :=
  match context.byAddress address with
  | some oid => (context, some oid, none)
  | none =>
      if context.rollback then
        (context, none, some .transaction)
      else
        let context := context.touch
        if context.rollback then
          (context, none, some .transaction)
        else
          let reference := { state := .new, serialization := serialization, obj := some address }
          ({ context.setReference fresh reference with
            byAddress := update context.byAddress address (some fresh) }, some fresh, none)

/-- `gzochid_data_mark`. -/
def mark (context : DataContext Kind Value Bytes Name) (serialization : Kind)
    (address : Address) (fresh : Oid) :
    DataContext Kind Value Bytes Name × Option DataError :=
  match context.getReferenceByPtr address serialization fresh with
  | (context, none, error) => (context, error)
  | (context, some oid, error) =>
      match context.reference oid with
      | none => (context, error)
      | some reference =>
          if reference.state ≠ .new ∧ reference.state ≠ .modified then
            let context := (context.setReference oid { reference with state := .modified }).touch
            if context.rollback then (context, some .transaction) else (context, error)
          else (context, error)

/-- `dereference`, and the object that its callers return. -/
def dereference (codec : Codec Kind Value Bytes) (context : DataContext Kind Value Bytes Name)
    (oid : Oid) (reference : ManagedReference Kind) (forUpdate : Bool) :
    DataContext Kind Value Bytes Name × Option Address × Option DataError :=
  if reference.obj.isSome ∨ reference.state = .failed ∨ reference.state = .removedEmpty then
    match reference.obj with
    | some address =>
        if forUpdate ∧ reference.state = .notModified then
          let (context, error) := context.mark reference.serialization address oid
          (context, some address, error)
        else (context, some address, none)
    | none => (context, none, none)
  else
    let context := context.touch
    if context.rollback then
      (context, none, some .transaction)
    else
      match context.oids oid with
      | none => (context, none, some .notFound)
      | some data =>
          match codec.deserializer reference.serialization data with
          -- The source keeps what the deserializer returns, also when there is an error.
          | none =>
              (context.setReference oid { reference with state := .failed }, none,
                some .deserializer)
          | some value =>
              let address := context.nextAddress
              let fetched :=
                { reference with
                  obj := some address, state := if forUpdate then .modified else .notModified }
              ({ context.setReference oid fetched with
                memory := update context.memory address (some value)
                nextAddress := address + 1
                byAddress := update context.byAddress address (some oid) },
                some address, none)

/-- `remove_object`. -/
def removeObject (context : DataContext Kind Value Bytes Name) (oid : Oid) :
    DataContext Kind Value Bytes Name × Option DataError :=
  let context := context.touch
  if context.rollback then
    (context, some .transaction)
  else
    ({ context with oids := update context.oids oid none },
      if (context.oids oid).isNone then some .notFound else none)

/-- `remove_reference`. -/
def removeReference (context : DataContext Kind Value Bytes Name) (oid : Oid)
    (reference : ManagedReference Kind) : DataContext Kind Value Bytes Name × Option DataError :=
  match reference.state with
  | .empty | .failed =>
      let (context, error) := context.removeObject oid
      (context.setReference oid { reference with state := .removedEmpty }, error)
  | .notModified | .modified =>
      let (context, error) := context.removeObject oid
      (context.setReference oid { reference with state := .removedFetched }, error)
  | .new => (context.setReference oid { reference with state := .removedFetched }, none)
  | .removedEmpty | .removedFetched => (context, none)

/-- `get_binding`. -/
def getBinding (context : DataContext Kind Value Bytes Name) (name : Name) :
    DataContext Kind Value Bytes Name × Except DataError Oid :=
  let context := context.touch
  if context.rollback then
    (context, .error .transaction)
  else
    match context.names name with
    | some oid => (context, .ok oid)
    | none => (context, .error .notFound)

/-- `set_binding`. -/
def setBinding (context : DataContext Kind Value Bytes Name) (name : Name) (oid : Oid) :
    DataContext Kind Value Bytes Name × Option DataError :=
  let context := context.touch
  if context.rollback then
    (context, some .transaction)
  else
    ({ context with names := update context.names name (some oid) }, none)

/-- An id is fresh if the store has no object for it and no reference has been made to it;
`next_object_id` returns only such ids. -/
def fresh (context : DataContext Kind Value Bytes Name) (oid : Oid) : Bool :=
  (context.oids oid).isNone && (context.reference oid).isNone

/-- One call.  An address must be one of an object in memory, a reference one that the
transaction has been given, an id for a new object a fresh one; other calls are not
possible. -/
def step (codec : Codec Kind Value Bytes) (context : DataContext Kind Value Bytes Name) :
    Operation Kind Value Name → Option (DataContext Kind Value Bytes Name × Reply)
  | .allocate value =>
      some ({ context with
        memory := update context.memory context.nextAddress (some value)
        nextAddress := context.nextAddress + 1 }, .address context.nextAddress)
  | .assign address value =>
      if (context.memory address).isSome then
        some ({ context with memory := update context.memory address (some value) }, .status none)
      else none
  | .createReference serialization address fresh =>
      if (context.memory address).isSome ∧ context.fresh fresh then
        let (context, found, error) := context.getReferenceByPtr address serialization fresh
        some (context, .reference found error)
      else none
  | .createReferenceToOid serialization oid =>
      some ((context.getReferenceByOid oid serialization).1, .reference (some oid) none)
  | .dereference oid forUpdate =>
      match context.reference oid with
      | none => none
      | some reference =>
          let (context, found, error) := context.dereference codec oid reference forUpdate
          some (context, .object found error)
  | .mark serialization address fresh =>
      if (context.memory address).isSome ∧ context.fresh fresh then
        let (context, error) := context.mark serialization address fresh
        some (context, .status error)
      else none
  | .removeObject oid =>
      match context.reference oid with
      | none => none
      | some reference =>
          let (context, error) := context.removeReference oid reference
          some (context, .status error)
  | .getBinding serialization name =>
      match context.getBinding name with
      | (context, .error error) => some (context, .object none (some error))
      | (context, .ok oid) =>
          let (context, reference) := context.getReferenceByOid oid serialization
          let (context, found, error) := context.dereference codec oid reference false
          some (context, .object found error)
  | .setBinding serialization name address fresh =>
      if (context.memory address).isSome ∧ context.fresh fresh then
        match context.getReferenceByPtr address serialization fresh with
        | (context, some oid, none) =>
            let (context, error) := context.setBinding name oid
            some (context, .status error)
        | (context, _, error) => some (context, .status error)
      else none
  | .setBindingToOid name oid =>
      let (context, error) := context.setBinding name oid
      some (context, .status error)
  | .removeBinding name =>
      let context := context.touch
      if context.rollback then
        some (context, .status (some .transaction))
      else
        some ({ context with names := update context.names name none },
          .status (if (context.names name).isNone then some .notFound else none))
  | .bindingExists name =>
      match context.getBinding name with
      | (context, .ok _) => some (context, .flag true none)
      | (context, .error .notFound) => some (context, .flag false none)
      | (context, .error error) => some (context, .flag false (some error))

/-! ## The end of the transaction -/

/-- `flush_reference`.  A reference in need of flushing always has an object. -/
def flushReference (codec : Codec Kind Value Bytes) (context : DataContext Kind Value Bytes Name)
    (oid : Oid) (reference : ManagedReference Kind) : Option (DataContext Kind Value Bytes Name) :=
  match reference.state with
  | .new | .modified => do
      let value ← context.memory (← reference.obj)
      let out ← codec.serializer reference.serialization value
      if context.rollback then
        none
      else
        let context := context.touch
        if context.rollback then none
        else some { context with oids := update context.oids oid (some out) }
  | .empty | .failed | .notModified | .removedEmpty | .removedFetched => some context

/-- The loop of `data_prepare`, in the order in which the hash table lists its values. -/
def flushAll (codec : Codec Kind Value Bytes) :
    List Oid → DataContext Kind Value Bytes Name → Option (DataContext Kind Value Bytes Name)
  | [], context => some context
  | oid :: rest, context =>
      match context.reference oid with
      | none => flushAll codec rest context
      | some reference => do
          let context ← context.flushReference codec oid reference
          flushAll codec rest context

/-- `data_prepare`; `none` stands for failure. -/
def dataPrepare (codec : Codec Kind Value Bytes) (order : List Oid)
    (context : DataContext Kind Value Bytes Name) : Option (DataContext Kind Value Bytes Name) := do
  let context ← context.flushAll codec order
  let context := context.touch
  if context.rollback then none else some context

end DataContext

end Gzochi.Data
