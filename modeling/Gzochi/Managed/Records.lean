import Gzochi.Managed.Io
import Mathlib.Data.Vector.Basic

/-!
# Serialized managed records

A managed record is written as the serial uid of its type followed by its fields, those of
the outermost parent type first, each through the serialization its type was registered
with.  It is read by looking the type up under the serial uid and reading the fields
inside nested constructors.

The type is found by its descriptor when the record is written and by its serial uid when
it is read, in a stack of registries over a default one.  Each registry keeps a table for
either search, and `register-type!` sets both.

A record constructor that is given more values than the type has fields ignores the rest;
so does the reference constructor the reader calls with the oid and `#f`.
-/

namespace Gzochi.Managed

open Function List

open Gzochi.Lib (Reader)

/-- A managed record type descriptor.  Descriptors are compared by identity, which `id`
stands for; `managedRecord` is the type every managed type descends from. -/
inductive Rtd
  | managedRecord
  | extend (id : Nat) (name : String) (parent : Rtd) (numFields : Nat)
deriving DecidableEq

/-- `record-type-name`. -/
def Rtd.name : Rtd → String
  | managedRecord => "gzochi:managed-record"
  | extend _ name _ _ => name

variable {Value : Type}

/-- What a field holds: `#f`, a managed reference, or a value of another kind. -/
inductive FieldValue (Value : Type)
  | false
  | reference (oid : Nat)
  | other (value : Value)
deriving DecidableEq

/-- The field values of a record of a type: those of its parents and its own. -/
def Rtd.Fields (Value : Type) : Rtd → Type
  | managedRecord => Unit
  | extend _ _ parent numFields => parent.Fields Value × List.Vector (FieldValue Value) numFields

structure ManagedRecord (Value : Type) where
  rtd : Rtd
  fields : rtd.Fields Value

/-- `gzochi:serialization`. -/
structure Serialization (Value : Type) where
  serializer : FieldValue Value → Except String Bytes
  deserializer : Port (FieldValue Value)

/-- Whatever the serializer writes for the value, the deserializer reads. -/
def Serialization.RoundTrips (serialization : Serialization Value) (value : FieldValue Value) :
    Prop :=
  ∀ written, serialization.serializer value = .ok written →
    serialization.deserializer.Reads written value

/-- `gzochi:serialize-managed-reference`. -/
def serializeManagedReference : FieldValue Value → Except String Bytes
  | .false => .ok (writeBoolean false)
  | .reference oid => .ok (writeBoolean true ++ writeVarint oid)
  | .other _ => .error "Not a managed reference."

/-- `gzochi:deserialize-managed-reference`. -/
def deserializeManagedReference : Port (FieldValue Value) := do
  let present ← readBoolean
  if present then do
    let oid ← readVarint
    pure (.reference oid)
  else
    pure .false

/-- `gzochi:managed-reference-serialization`. -/
def managedReferenceSerialization : Serialization Value :=
  ⟨serializeManagedReference, deserializeManagedReference⟩

theorem managedReferenceSerialization_roundTrips (value : FieldValue Value) :
    managedReferenceSerialization.RoundTrips value := by
  intro written done
  cases value with
  | false =>
    cases done
    rw [← append_nil (writeBoolean false)]
    refine (readBoolean_reads false).bind ?_
    exact Reader.Reads.pure _
  | reference oid =>
    cases done
    refine (readBoolean_reads true).bind ?_
    exact (readVarint_reads oid).map FieldValue.reference
  | other value => cases done

/-- The serialization of a field: `managedReferenceSerialization` where the type gives none. -/
def fieldSerialization (serialization : Option (Serialization Value)) : Serialization Value :=
  serialization.getD managedReferenceSerialization

/-- The values of one type's fields all round-trip, those of them that have a serialization of
their own. -/
def AllRoundTrip {numFields : Nat} (serializations : List (Option (Serialization Value)))
    (values : List.Vector (FieldValue Value) numFields) : Prop :=
  ∀ serialization value, (some serialization, value) ∈ serializations.zip values.toList →
    serialization.RoundTrips value

/-- The loop of `serialize` over the fields of one type. -/
def serializeFields : (numFields : Nat) → List (Option (Serialization Value)) →
    List.Vector (FieldValue Value) numFields → Except String Bytes
  | 0, _, _ => .ok []
  | _ + 1, [], _ => .error "Argument out of range"
  | numFields + 1, serialization :: serializations, values => do
      let field ← (fieldSerialization serialization).serializer values.head
      let others ← serializeFields numFields serializations values.tail
      .ok (field ++ others)

/-- `deserialize`: the fields of one type. -/
def deserializeFields : (numFields : Nat) → List (Option (Serialization Value)) →
    Port (List.Vector (FieldValue Value) numFields)
  | 0, _ => pure .nil
  | _ + 1, [] => throw "Argument out of range"
  | numFields + 1, serialization :: serializations => do
      let value ← (fieldSerialization serialization).deserializer
      let values ← deserializeFields numFields serializations
      pure (value ::ᵥ values)

theorem fieldSerialization_roundTrips {serialization : Option (Serialization Value)}
    {value : FieldValue Value}
    (own : ∀ given, serialization = some given → given.RoundTrips value) :
    (fieldSerialization serialization).RoundTrips value := by
  cases serialization with
  | none => exact managedReferenceSerialization_roundTrips value
  | some serialization => exact own serialization rfl

/-- A sequence of two steps that succeeds. -/
theorem except_bind_ok {α β : Type} {first : Except String α} {next : α → Except String β}
    {last : β}
    (done : (first >>= next) = .ok last) : ∃ value, first = .ok value ∧ next value = .ok last := by
  cases first with
  | error failure => cases done
  | ok value => exact ⟨value, rfl, done⟩

theorem deserializeFields_reads (numFields : Nat)
    (serializations : List (Option (Serialization Value)))
    (values : List.Vector (FieldValue Value) numFields) (all : AllRoundTrip serializations values)
    (written : Bytes) (done : serializeFields numFields serializations values = .ok written) :
    (deserializeFields numFields serializations).Reads written values := by
  induction numFields generalizing serializations written with
  | zero =>
    cases done
    rw [values.eq_nil]
    exact Reader.Reads.pure _
  | succ numFields ih =>
    cases serializations with
    | nil => cases done
    | cons serialization serializations =>
      obtain ⟨field, first, more⟩ := except_bind_ok done
      obtain ⟨others, second, whole⟩ := except_bind_ok more
      cases whole
      rw [← values.cons_head_tail, AllRoundTrip, List.Vector.toList_cons, zip_cons_cons] at all
      have roundTrips : (fieldSerialization serialization).RoundTrips values.head :=
        fieldSerialization_roundTrips fun given same => all given _ (same ▸ mem_cons_self)
      have own := roundTrips field first
      have rest := ih serializations values.tail
        (fun serialization value member => all serialization value (mem_cons_of_mem _ member))
        others second
      rw [← values.cons_head_tail]
      refine own.bind ?_
      exact rest.map fun others => values.head ::ᵥ others

/-- `gzochi:managed-record-type-registration`. -/
structure Registration (Value : Type) where
  serialUid : String
  rtd : Rtd
  fieldSerializations : List (Option (Serialization Value))

/-- `gzochi:managed-record-type-registry`: the two tables of a registry, and how
registering types relates them. -/
structure TypeRegistry (Value : Type) where
  rtds : Rtd → Option (Registration Value)
  serialUids : String → Option (Registration Value)
  rtds_rtd : ∀ {rtd reg}, rtds rtd = some reg → reg.rtd = rtd
  serialUids_serialUid : ∀ {serialUid reg}, serialUids serialUid = some reg →
    reg.serialUid = serialUid
  /-- A type found by a serial uid is found by its descriptor too. -/
  rtds_isSome : ∀ {serialUid reg}, serialUids serialUid = some reg → (rtds reg.rtd).isSome
  /-- The serial uid of a type finds that registration of it, or another type. -/
  latest : ∀ {rtd reg}, rtds rtd = some reg →
    ∃ other, serialUids reg.serialUid = some other ∧ (other.rtd = rtd → other = reg)

namespace TypeRegistry

/-- `gzochi:make-managed-record-type-registry`. -/
def empty : TypeRegistry Value where
  rtds := fun _ => none
  serialUids := fun _ => none
  rtds_rtd := nofun
  serialUids_serialUid := nofun
  rtds_isSome := nofun
  latest := nofun

/-- `gzochi:register-type!`. -/
def registerType (registry : TypeRegistry Value) (reg : Registration Value) :
    TypeRegistry Value where
  rtds := update registry.rtds reg.rtd (some reg)
  serialUids := update registry.serialUids reg.serialUid (some reg)
  rtds_rtd := by
    intro rtd found at_rtd
    by_cases same : rtd = reg.rtd
    · subst same
      rw [update_self] at at_rtd
      cases at_rtd
      rfl
    · rw [update_of_ne same] at at_rtd
      exact registry.rtds_rtd at_rtd
  serialUids_serialUid := by
    intro serialUid found at_uid
    by_cases same : serialUid = reg.serialUid
    · subst same
      rw [update_self] at at_uid
      cases at_uid
      rfl
    · rw [update_of_ne same] at at_uid
      exact registry.serialUids_serialUid at_uid
  rtds_isSome := by
    intro serialUid found at_uid
    by_cases type : found.rtd = reg.rtd
    · rw [type, update_self]
      rfl
    · rw [update_of_ne type]
      by_cases same : serialUid = reg.serialUid
      · subst same
        rw [update_self] at at_uid
        cases at_uid
        exact absurd rfl type
      · rw [update_of_ne same] at at_uid
        exact registry.rtds_isSome at_uid
  latest := by
    intro rtd found at_rtd
    by_cases same : rtd = reg.rtd
    · subst same
      rw [update_self] at at_rtd
      cases at_rtd
      exact ⟨reg, update_self .., fun _ => rfl⟩
    · rw [update_of_ne same] at at_rtd
      by_cases uid : found.serialUid = reg.serialUid
      · refine ⟨reg, ?_, fun type => absurd type.symm same⟩
        rw [uid, update_self]
      · obtain ⟨other, at_uid, only⟩ := registry.latest at_rtd
        refine ⟨other, ?_, only⟩
        rw [update_of_ne uid]
        exact at_uid

/-- A registration that a search of the registry can end with. -/
def Registered (registry : TypeRegistry Value) (reg : Registration Value) : Prop :=
  registry.rtds reg.rtd = some reg ∨ registry.serialUids reg.serialUid = some reg

variable {registry : TypeRegistry Value} {reg : Registration Value}

theorem registered_of_rtds {rtd : Rtd} (found : registry.rtds rtd = some reg) :
    registry.Registered reg := by
  refine .inl ?_
  rw [registry.rtds_rtd found]
  exact found

theorem registered_of_serialUids {serialUid : String}
    (found : registry.serialUids serialUid = some reg) :
    registry.Registered reg := by
  refine .inr ?_
  rw [registry.serialUids_serialUid found]
  exact found

end TypeRegistry

/-- `default-type-registry` and the registries of `type-registry-stack`, innermost first. -/
structure TypeRegistries (Value : Type) where
  stack : List (TypeRegistry Value)
  default : TypeRegistry Value

/-- The search common to `rtd->type-registration` and `serial-uid->type-registration`. -/
def lookupRecursive (inner : TypeRegistry Value → Option (Registration Value))
    (default : TypeRegistry Value) : List (TypeRegistry Value) → Option (Registration Value)
  | [] => inner default
  | registry :: stack =>
      match inner registry with
      | some reg => some reg
      | none => lookupRecursive inner default stack

namespace TypeRegistries

/-- `gzochi:push-type-registry!`. -/
def pushTypeRegistry (registries : TypeRegistries Value) (registry : TypeRegistry Value) :
    TypeRegistries Value :=
  { registries with stack := registry :: registries.stack }

/-- `gzochi:rtd->type-registration`. -/
def rtdToTypeRegistration (registries : TypeRegistries Value) (rtd : Rtd) :
    Option (Registration Value) :=
  lookupRecursive (·.rtds rtd) registries.default registries.stack

/-- `gzochi:serial-uid->type-registration`. -/
def serialUidToTypeRegistration (registries : TypeRegistries Value) (serialUid : String) :
    Option (Registration Value) :=
  lookupRecursive (·.serialUids serialUid) registries.default registries.stack

/-- A registration that a search of the registries can end with. -/
def Registered (registries : TypeRegistries Value) (reg : Registration Value) : Prop :=
  ∃ registry ∈ registries.default :: registries.stack, registry.Registered reg

/-- No serial uid names two types. -/
def UidsNameOneType (registries : TypeRegistries Value) : Prop :=
  ∀ reg other, registries.Registered reg → registries.Registered other →
    reg.serialUid = other.serialUid → reg.rtd = other.rtd

variable {reg : Registration Value}

/-- A search ends with what one of the registries has. -/
theorem lookupRecursive_some {inner : TypeRegistry Value → Option (Registration Value)}
    {default : TypeRegistry Value} {stack : List (TypeRegistry Value)}
    (found : lookupRecursive inner default stack = some reg) :
    ∃ registry ∈ default :: stack, inner registry = some reg := by
  induction stack with
  | nil => exact ⟨default, mem_cons_self, found⟩
  | cons registry stack ih =>
    unfold lookupRecursive at found
    cases here : inner registry with
    | some other =>
      rw [here] at found
      cases found
      exact ⟨registry, by simp, here⟩
    | none =>
      rw [here] at found
      obtain ⟨holder, member, holds⟩ := ih found
      refine ⟨holder, ?_, holds⟩
      rcases mem_cons.1 member with rfl | deeper
      · exact mem_cons_self
      · exact mem_cons_of_mem _ (mem_cons_of_mem _ deeper)

variable {registries : TypeRegistries Value} {rtd : Rtd}

theorem rtdToTypeRegistration_spec (found : registries.rtdToTypeRegistration rtd = some reg) :
    registries.Registered reg ∧ reg.rtd = rtd := by
  obtain ⟨registry, member, holds⟩ := lookupRecursive_some found
  exact ⟨⟨registry, member, TypeRegistry.registered_of_rtds holds⟩, registry.rtds_rtd holds⟩

theorem serialUidToTypeRegistration_spec {serialUid : String}
    (found : registries.serialUidToTypeRegistration serialUid = some reg) :
    registries.Registered reg ∧ reg.serialUid = serialUid := by
  obtain ⟨registry, member, holds⟩ := lookupRecursive_some found
  exact ⟨⟨registry, member, TypeRegistry.registered_of_serialUids holds⟩,
    registry.serialUids_serialUid holds⟩

/-- The registration a record is written with is the one its serial uid finds.  A registry
searched earlier that had the uid would have it for the same type, and so would have been
the one the type was found in. -/
theorem serialUid_found (registries : TypeRegistries Value)
    (unambiguous : registries.UidsNameOneType)
    (found : registries.rtdToTypeRegistration rtd = some reg) :
    registries.serialUidToTypeRegistration reg.serialUid = some reg := by
  obtain ⟨stack, default⟩ := registries
  have type : reg.rtd = rtd := (rtdToTypeRegistration_spec found).2
  have registered := (rtdToTypeRegistration_spec found).1
  -- Within the registry that has the type, the uid finds the same registration.
  have within : ∀ registry ∈ default :: stack, registry.rtds rtd = some reg →
      registry.serialUids reg.serialUid = some reg := by
    intro registry member holds
    obtain ⟨other, at_uid, only⟩ := registry.latest holds
    have same : other.rtd = reg.rtd :=
      unambiguous other reg ⟨registry, member, TypeRegistry.registered_of_serialUids at_uid⟩
        registered (registry.serialUids_serialUid at_uid)
    rw [at_uid, only (same.trans type)]
  -- A registry without the type does not have the uid.
  have without : ∀ registry ∈ default :: stack, registry.rtds rtd = none →
      registry.serialUids reg.serialUid = none := by
    intro registry member lacks
    cases at_uid : registry.serialUids reg.serialUid with
    | none => rfl
    | some other =>
      have same : other.rtd = reg.rtd :=
        unambiguous other reg ⟨registry, member, TypeRegistry.registered_of_serialUids at_uid⟩
          registered (registry.serialUids_serialUid at_uid)
      have has := registry.rtds_isSome at_uid
      rw [same, type, lacks] at has
      cases has
  have search : ∀ rest : List (TypeRegistry Value), (∀ registry ∈ rest, registry ∈ stack) →
      lookupRecursive (·.rtds rtd) default rest = some reg →
      lookupRecursive (·.serialUids reg.serialUid) default rest = some reg := by
    intro rest inside ended
    induction rest with
    | nil => exact within default mem_cons_self ended
    | cons registry rest ih =>
      have member := mem_cons_of_mem default (inside registry mem_cons_self)
      unfold lookupRecursive at ended ⊢
      cases holds : registry.rtds rtd with
      | some other =>
        rw [holds] at ended
        cases ended
        rw [within registry member holds]
      | none =>
        rw [holds] at ended
        rw [without registry member holds]
        exact ih (fun deeper there => inside deeper (mem_cons_of_mem _ there)) ended
  exact search stack (fun _ member => member) found

end TypeRegistries

namespace TypeRegistries

/-- `lookup-registration`. -/
def lookupRegistration (registries : TypeRegistries Value) (message : String → String) (rtd : Rtd) :
    Except String (Registration Value) :=
  match registries.rtdToTypeRegistration rtd with
  | some reg => .ok reg
  | none => .error (message rtd.name)

def unknownSerializedType (name : String) : String :=
  "Attempting to serialize unknown type " ++ name

def unknownDeserializedType (name : String) : String :=
  "Attempting to deserialize unknown type " ++ name ++ "."

/-- The serializations of the fields of a parent type.  The type every managed type
descends from is not looked up, and has no fields. -/
def parentSerializations (registries : TypeRegistries Value) (message : String → String)
    (parent : Rtd) :
    Except String (List (Option (Serialization Value))) :=
  if parent = .managedRecord then .ok []
  else do
    let reg ← registries.lookupRegistration message parent
    .ok reg.fieldSerializations

/-- `serialize`. -/
def serialize (registries : TypeRegistries Value) : (rtd : Rtd) →
    List (Option (Serialization Value)) → rtd.Fields Value → Except String Bytes
  | .managedRecord, _, _ => .ok []
  | .extend _ _ parent numFields, serialization, (above, own) => do
      let inherited ← registries.parentSerializations unknownSerializedType parent
      let before ← registries.serialize parent inherited above
      let fields ← serializeFields numFields serialization own
      .ok (before ++ fields)

/-- `gzochi:serialize-managed-record`. -/
def serializeManagedRecord (registries : TypeRegistries Value) (record : ManagedRecord Value) :
    Except String Bytes := do
  let registration ← registries.lookupRegistration unknownSerializedType record.rtd
  let fields ← registries.serialize record.rtd registration.fieldSerializations record.fields
  .ok (writeSymbol registration.serialUid ++ fields)

/-- `constructor-descriptor`, and the constructor made from it. -/
def deserialize (registries : TypeRegistries Value) : (rtd : Rtd) →
    List (Option (Serialization Value)) → Port (rtd.Fields Value)
  | .managedRecord, _ => pure ()
  | .extend _ _ parent numFields, serialization => do
      let inherited ← registries.parentSerializations unknownDeserializedType parent
      let above ← registries.deserialize parent inherited
      let own ← deserializeFields numFields serialization
      pure (above, own)

/-- `gzochi:deserialize-managed-record`. -/
def deserializeManagedRecord (registries : TypeRegistries Value) : Port (ManagedRecord Value) := do
  let serialUid ← readSymbol
  match registries.serialUidToTypeRegistration serialUid with
  | none => throw (unknownDeserializedType serialUid)
  | some registration => do
      let fields ← registries.deserialize registration.rtd registration.fieldSerializations
      pure ⟨registration.rtd, fields⟩

variable {registries : TypeRegistries Value}

variable {message : String → String} {parent : Rtd}
  {inherited : List (Option (Serialization Value))}

/-- What is looked up of a parent type does not depend on who looks it up. -/
theorem parentSerializations_ok {other : String → String}
    (found : registries.parentSerializations message parent = .ok inherited) :
    registries.parentSerializations other parent = .ok inherited := by
  unfold parentSerializations at found ⊢
  split
  · rename_i base
    rwa [if_pos base] at found
  · rename_i base
    rw [if_neg base] at found
    unfold lookupRegistration at found ⊢
    cases known : registries.rtdToTypeRegistration parent with
    | none =>
      rw [known] at found
      cases found
    | some reg =>
      rw [known] at found
      exact found

/-- The fields of a record round-trip, those of its type and of all its parents. -/
def FieldsRoundTrip (registries : TypeRegistries Value) : (rtd : Rtd) →
    List (Option (Serialization Value)) → rtd.Fields Value → Prop
  | .managedRecord, _, _ => True
  | .extend _ _ parent _, serialization, (above, own) =>
      AllRoundTrip serialization own ∧
        ∀ inherited, registries.parentSerializations unknownSerializedType parent = .ok inherited →
          registries.FieldsRoundTrip parent inherited above

/-- The fields of a record are read back, those of its parents inside its own constructor. -/
theorem deserialize_reads (registries : TypeRegistries Value) (rtd : Rtd)
    (serialization : List (Option (Serialization Value))) (fields : rtd.Fields Value)
    (roundTrip : registries.FieldsRoundTrip rtd serialization fields) (written : Bytes)
    (done : registries.serialize rtd serialization fields = .ok written) :
    (registries.deserialize rtd serialization).Reads written fields := by
  induction rtd generalizing serialization written with
  | managedRecord =>
    cases done
    exact Reader.Reads.pure ()
  | extend id name parent numFields ih =>
    obtain ⟨above, own⟩ := fields
    obtain ⟨all, inheritedToo⟩ := roundTrip
    obtain ⟨inherited, looked, first⟩ := except_bind_ok done
    obtain ⟨before, outer, second⟩ := except_bind_ok first
    obtain ⟨after, inner, whole⟩ := except_bind_ok second
    cases whole
    have parents := ih inherited above (inheritedToo inherited looked) before outer
    have fields := deserializeFields_reads numFields serialization own all after inner
    have known : Reader.Reads
        (registries.parentSerializations unknownDeserializedType parent : Port _) [] inherited := by
      intro rest
      rw [parentSerializations_ok looked]
      rfl
    rw [← nil_append (before ++ after)]
    refine known.bind (parents.bind ?_)
    exact fields.map fun own => (above, own)

variable {record : ManagedRecord Value}

variable {reg : Registration Value} {bytes : Bytes}

/-- What a record is written as. -/
theorem serializeManagedRecord_ok (found : registries.rtdToTypeRegistration record.rtd = some reg)
    (written : registries.serializeManagedRecord record = .ok bytes) :
    ∃ fields, registries.serialize record.rtd reg.fieldSerializations record.fields = .ok fields ∧
      bytes = writeSymbol reg.serialUid ++ fields := by
  obtain ⟨registration, looked, rest⟩ := except_bind_ok written
  unfold lookupRegistration at looked
  rw [found] at looked
  cases looked
  obtain ⟨fields, done, whole⟩ := except_bind_ok rest
  cases whole
  exact ⟨fields, done, rfl⟩

/-- A record whose type has an ASCII serial uid is read back. -/
theorem deserializeManagedRecord_reads (unambiguous : registries.UidsNameOneType)
    (roundTrip : registries.FieldsRoundTrip record.rtd reg.fieldSerializations record.fields)
    (found : registries.rtdToTypeRegistration record.rtd = some reg)
    (written : registries.serializeManagedRecord record = .ok bytes) (ascii : Ascii reg.serialUid) :
    registries.deserializeManagedRecord.Reads bytes record := by
  obtain ⟨rtd, values⟩ := record
  obtain ⟨-, rfl⟩ := rtdToTypeRegistration_spec found
  obtain ⟨fields, done, rfl⟩ := serializeManagedRecord_ok found written
  have inner := registries.deserialize_reads reg.rtd reg.fieldSerializations values roundTrip
    fields done
  refine (readString_reads ascii).bind ?_
  rw [registries.serialUid_found unambiguous found]
  exact inner.map (ManagedRecord.mk reg.rtd)

/-- What is read under another serial uid is a record of a type registered with it. -/
theorem deserializeManagedRecord_ok {input rest : Bytes}
    (read : registries.deserializeManagedRecord input = .ok (record, rest)) :
    ∃ serialUid remaining reg, readSymbol input = .ok (serialUid, remaining) ∧
      registries.serialUidToTypeRegistration serialUid = some reg ∧ reg.rtd = record.rtd := by
  obtain ⟨serialUid, remaining, first, second⟩ := Reader.bind_ok read
  cases known : registries.serialUidToTypeRegistration serialUid with
  | none =>
    simp only [known] at second
    cases second
  | some reg =>
    simp only [known] at second
    obtain ⟨fields, left, inner, last⟩ := Reader.bind_ok second
    cases last
    exact ⟨serialUid, remaining, reg, first, known, rfl⟩

/-- Reading back what was written for a record gives the record and takes exactly the bytes
written, if the serial uid of its type is ASCII.  Where the type has no second serial uid,
only then. -/
theorem managed_record_read_back (registries : TypeRegistries Value)
    (unambiguous : registries.UidsNameOneType) (record : ManagedRecord Value)
    (reg : Registration Value) (bytes : Bytes)
    (roundTrip : registries.FieldsRoundTrip record.rtd reg.fieldSerializations record.fields)
    (found : registries.rtdToTypeRegistration record.rtd = some reg)
    (written : registries.serializeManagedRecord record = .ok bytes) :
    (Ascii reg.serialUid → registries.deserializeManagedRecord.Reads bytes record) ∧
      ((∀ other, registries.Registered other → other.rtd = record.rtd →
          other.serialUid = reg.serialUid) →
        registries.deserializeManagedRecord.Reads bytes record → Ascii reg.serialUid) := by
  refine ⟨deserializeManagedRecord_reads unambiguous roundTrip found written, ?_⟩
  intro only reads
  by_contra wide
  obtain ⟨fields, _, rfl⟩ := serializeManagedRecord_ok found written
  obtain ⟨serialUid, remaining, other, read, known, type⟩ := deserializeManagedRecord_ok (reads [])
  rw [append_assoc] at read
  obtain ⟨registered, uid⟩ := serialUidToTypeRegistration_spec known
  exact readString_other wide read (uid.symm.trans (only other registered type))

end TypeRegistries

/-! A player has a name and a reference to the next player; a wizard is a player with a
reference to its tower. -/

def player : Rtd := .extend 0 "player" .managedRecord 2

def wizard : Rtd := .extend 1 "wizard" player 1

/-- Names are numbers here, written as integers. -/
def nameSerialization : Serialization Nat where
  serializer
    | .other name => .ok (writeVarint name)
    | _ => .error "Not a name."
  deserializer := do
    let name ← readVarint
    pure (.other name)

theorem nameSerialization_roundTrips (value : FieldValue Nat) :
    nameSerialization.RoundTrips value := by
  intro written done
  cases value with
  | false => cases done
  | reference oid => cases done
  | other name =>
    cases done
    exact (readVarint_reads name).map FieldValue.other

def playerRegistration : Registration Nat := ⟨"player", player, [some nameSerialization, none]⟩

def wizardRegistration (serialUid : String) : Registration Nat := ⟨serialUid, wizard, [none]⟩

/-- The players in the default registry and the wizards in one pushed over it. -/
def wizards (serialUid : String) : TypeRegistries Nat :=
  ({ stack := [], default := TypeRegistry.empty.registerType playerRegistration } :
      TypeRegistries Nat).pushTypeRegistry
    (TypeRegistry.empty.registerType (wizardRegistration serialUid))

def merlin : ManagedRecord Nat :=
  ⟨wizard, ((((), ⟨[.other 300, .reference 7], rfl⟩) : player.Fields Nat), ⟨[.false], rfl⟩)⟩

variable {serialUid : String}

theorem wizards_registered {reg : Registration Nat}
    (registered : (wizards serialUid).Registered reg) :
    reg = playerRegistration ∨ reg = wizardRegistration serialUid := by
  obtain ⟨registry, member, holds⟩ := registered
  have cases_of : ∀ entry : Registration Nat,
      (TypeRegistry.empty.registerType entry).Registered reg → reg = entry := by
    intro entry holds
    rcases holds with at_rtd | at_uid
    · simp only [TypeRegistry.registerType, TypeRegistry.empty, update_apply] at at_rtd
      split at at_rtd
      · exact (Option.some.inj at_rtd).symm
      · cases at_rtd
    · simp only [TypeRegistry.registerType, TypeRegistry.empty, update_apply] at at_uid
      split at at_uid
      · exact (Option.some.inj at_uid).symm
      · cases at_uid
  rcases mem_cons.1 member with rfl | pushed
  · exact .inl (cases_of _ holds)
  · rw [show registry = TypeRegistry.empty.registerType (wizardRegistration serialUid) by
      simpa [wizards, TypeRegistries.pushTypeRegistry] using pushed] at holds
    exact .inr (cases_of _ holds)

theorem wizards_uids (differs : serialUid ≠ "player") : (wizards serialUid).UidsNameOneType := by
  intro reg other first second same
  rcases wizards_registered first with rfl | rfl <;> rcases wizards_registered second with rfl | rfl
  · rfl
  · exact absurd same.symm differs
  · exact absurd same differs
  · rfl

theorem merlin_roundTrip (serialUid : String) : (wizards serialUid).FieldsRoundTrip merlin.rtd
    (wizardRegistration serialUid).fieldSerializations merlin.fields := by
  have known : (wizards serialUid).parentSerializations TypeRegistries.unknownSerializedType
      player = .ok [some nameSerialization, none] := rfl
  refine ⟨fun serialization value member => ?_, fun inherited looked => ?_⟩
  · simp [wizardRegistration] at member
  · obtain rfl := Except.ok.inj (known.symm.trans looked)
    refine ⟨fun serialization value member => ?_, fun _ _ => trivial⟩
    have isName : some serialization ∈ [some nameSerialization, none] := (of_mem_zip member).1
    obtain rfl : serialization = nameSerialization := by simpa using isName
    exact nameSerialization_roundTrips value

/-- The bytes of a wizard, after those of its serial uid. -/
def merlinFields : Bytes := [0xac, 0x02, 0x01, 0x07, 0x00]

theorem merlin_read_back : (wizards "wizard").deserializeManagedRecord.Reads
    ([0x06, 0x77, 0x69, 0x7a, 0x61, 0x72, 0x64] ++ merlinFields) merlin := by
  refine (TypeRegistries.managed_record_read_back (wizards "wizard") (wizards_uids (by decide))
    merlin (wizardRegistration "wizard") _ (merlin_roundTrip _) ?_ ?_).1 ?_
  · rfl
  · decide +kernel
  · simp [Ascii, wizardRegistration]

/-- The symbol is written with its length of one character and its two bytes, and read as
one byte, which encodes nothing. -/
theorem lambda_not_read_back : (wizards "λ").UidsNameOneType ∧
      (wizards "λ").FieldsRoundTrip merlin.rtd (wizardRegistration "λ").fieldSerializations
        merlin.fields ∧
      (∃ bytes, (wizards "λ").serializeManagedRecord merlin = .ok bytes ∧
        ¬ (wizards "λ").deserializeManagedRecord.Reads bytes merlin) := by
  refine ⟨wizards_uids (by decide), merlin_roundTrip _,
    [0x01, 0xce, 0xbb] ++ merlinFields, by decide +kernel, ?_⟩
  intro reads
  have raised : ((wizards "λ").deserializeManagedRecord
      (([0x01, 0xce, 0xbb] ++ merlinFields) ++ [])).isOk = false := by decide +kernel
  rw [reads []] at raised
  cases raised

end Gzochi.Managed
