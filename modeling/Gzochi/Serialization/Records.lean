import Gzochi.DataClient.RoundTrips
import Gzochi.Queue.Storage

/-!
# Serialized records

Client sessions, callbacks and the handles of durable tasks as they are kept in the object
store: field after field, optional parts behind a flag, strings and lists behind their
length, times as two numbers of four bytes.  What cannot be read leaves no value, whether
the input ends too early or an assertion fails.
-/

namespace Gzochi.Serialization

open Lib List
open Data (Oid)
open DataClient (Name Timeval readInt writeInt)
open Queue (Bytes ByteReader ReadError gzochidUtilSerializeOid gzochidUtilDeserializeOid
  gzochidUtilSerializeBoolean gzochidUtilDeserializeBoolean gzochiCommonIoReadLong_reads
  gzochidUtilDeserializeBoolean_reads)

variable {Item Worker : Type}

def gzochidUtilSerializeInt (n : Int) : Bytes := writeInt n

def gzochidUtilSerializeBytes (str : Bytes) : Bytes := gzochidUtilSerializeInt str.length ++ str

def gzochidUtilSerializeString (str : Name) : Bytes := gzochidUtilSerializeBytes (str.bytes ++ [0])

def gzochidUtilSerializeList (serializer : Item → Bytes) (list : List Item) : Bytes :=
  gzochidUtilSerializeInt list.length ++ list.flatMap serializer

def gzochidUtilSerializeTimeval (tv : Timeval) : Bytes :=
  gzochidUtilSerializeInt tv.tvSec ++ gzochidUtilSerializeInt tv.tvUsec

/-- An identity is its name. -/
def gzochidAuthIdentitySerializer (identity : Name) : Bytes := identity.bytes ++ [0]

def gzochidUtilDeserializeInt : ByteReader Int
  | first :: second :: third :: fourth :: rest => .ok (readInt first second third fourth, rest)
  | _ => .error .tooShort

/-- `memcpy` from the input, and the removal of what has been copied. -/
def copyBytes (len : Int) : ByteReader Bytes := fun input =>
  if 0 ≤ len ∧ len ≤ input.length then .ok (input.take len.toNat, input.drop len.toNat)
  else .error .tooShort

def gzochidUtilDeserializeBytes : ByteReader Bytes := gzochidUtilDeserializeInt >>= copyBytes

/-- The string that begins where the bytes do. -/
def stringOf (bytes : Bytes) : Name :=
  ⟨bytes.takeWhile (· ≠ 0), fun zero => by simpa using all_eq_true.mp all_takeWhile 0 zero⟩

def gzochidUtilDeserializeString : ByteReader Name := do
  let str ← gzochidUtilDeserializeBytes
  if 0 ∈ str then pure (stringOf str) else throw .tooShort

/-- The loop of `gzochid_util_deserialize_list`. -/
def deserializeItems (deserializer : ByteReader Item) : Nat → ByteReader (List Item)
  | 0 => pure []
  | len + 1 => do
      let item ← deserializer
      let items ← deserializeItems deserializer len
      pure (item :: items)

def gzochidUtilDeserializeList (deserializer : ByteReader Item) : ByteReader (List Item) := do
  let len ← gzochidUtilDeserializeInt
  deserializeItems deserializer len.toNat

def gzochidUtilDeserializeTimeval : ByteReader Timeval := do
  let tvSec ← gzochidUtilDeserializeInt
  let tvUsec ← gzochidUtilDeserializeInt
  pure ⟨tvSec, tvUsec⟩

def gzochidAuthIdentityDeserializer : ByteReader Name := fun input =>
  match input.dropWhile (· ≠ 0) with
  | [] => .error .tooShort
  | _ :: rest => .ok (stringOf input, rest)

/-- `gzochid_application_callback`. -/
structure ApplicationCallback where
  procedure : Name
  module : List Name
  scmOid : Oid

/-- `gzochid_client_session_handler`. -/
structure ClientSessionHandler where
  receivedMessage : ApplicationCallback
  disconnected : ApplicationCallback

/-- `gzochid_client_session`, without the connection; the handler and the id of its object
are set together. -/
structure ClientSession where
  identity : Name
  scmOid : Oid
  handler : Option ClientSessionHandler
  handlerScmOid : Oid
  together : handler = none → handlerScmOid = 0

def serializeCallback (callback : ApplicationCallback) : Bytes :=
  gzochidUtilSerializeString callback.procedure ++
    (gzochidUtilSerializeList gzochidUtilSerializeString callback.module ++
      gzochidUtilSerializeOid callback.scmOid)

def deserializeCallback : ByteReader ApplicationCallback := do
  let procedure ← gzochidUtilDeserializeString
  let module ← gzochidUtilDeserializeList gzochidUtilDeserializeString
  let scmOid ← gzochidUtilDeserializeOid
  pure ⟨procedure, module, scmOid⟩

def serializeHandler (handler : ClientSessionHandler) : Bytes :=
  serializeCallback handler.receivedMessage ++ serializeCallback handler.disconnected

def deserializeHandler : ByteReader ClientSessionHandler := do
  let receivedMessage ← deserializeCallback
  let disconnected ← deserializeCallback
  pure ⟨receivedMessage, disconnected⟩

def serializeClientSession (session : ClientSession) : Bytes :=
  gzochidAuthIdentitySerializer session.identity ++ (gzochidUtilSerializeOid session.scmOid ++
    match session.handler with
    | some handler =>
        gzochidUtilSerializeBoolean true ++
          (serializeHandler handler ++ gzochidUtilSerializeOid session.handlerScmOid)
    | none => gzochidUtilSerializeBoolean false)

def deserializeClientSession : ByteReader ClientSession := do
  let identity ← gzochidAuthIdentityDeserializer
  let scmOid ← gzochidUtilDeserializeOid
  if ← gzochidUtilDeserializeBoolean then
    let handler ← deserializeHandler
    let handlerScmOid ← gzochidUtilDeserializeOid
    pure ⟨identity, scmOid, some handler, handlerScmOid,
      fun absent => absurd absent (Option.some_ne_none _)⟩
  else pure ⟨identity, scmOid, none, 0, fun _ => rfl⟩

/-- `gzochid_application_task_serialization`; the worker is read from what was written. -/
structure TaskSerialization (Worker : Type) where
  name : Name
  serializer : Worker → Bytes
  deserializer : ByteReader Worker
  reads : ∀ worker, deserializer.Reads (serializer worker) worker

/-- `gzochid_durable_application_task_handle`; there is a period where `repeats` is set. -/
structure DurableApplicationTaskHandle (Worker : Type) where
  taskData : Oid
  serialization : TaskSerialization Worker
  binding : Option Name
  taskWorker : Worker
  identity : Name
  period : Option Timeval
  targetExecutionTime : Timeval

def serializeDurableTaskHandle (handle : DurableApplicationTaskHandle Worker) : Bytes :=
  gzochidUtilSerializeOid handle.taskData ++
    (gzochidUtilSerializeString handle.serialization.name ++
      ((gzochidUtilSerializeBoolean handle.binding.isSome ++
        (handle.binding.map gzochidUtilSerializeString).getD []) ++
        (handle.serialization.serializer handle.taskWorker ++
          (gzochidAuthIdentitySerializer handle.identity ++
            ((gzochidUtilSerializeBoolean handle.period.isSome ++
              (handle.period.map gzochidUtilSerializeTimeval).getD []) ++
              gzochidUtilSerializeTimeval handle.targetExecutionTime)))))

/-- A part behind a flag. -/
def deserializeOptional (deserializer : ByteReader Item) : ByteReader (Option Item) := do
  if ← gzochidUtilDeserializeBoolean then
    let item ← deserializer
    pure (some item)
  else pure none

/-- The registry is that of `gzochid_lookup_task_serialization`. -/
def deserializeDurableTaskHandle (registry : Name → Option (TaskSerialization Worker)) :
    ByteReader (DurableApplicationTaskHandle Worker) := do
  let oid ← gzochidUtilDeserializeOid
  let serializationName ← gzochidUtilDeserializeString
  match registry serializationName with
  | none => throw .tooShort
  | some serialization => do
      let binding ← deserializeOptional gzochidUtilDeserializeString
      let taskWorker ← serialization.deserializer
      let identity ← gzochidAuthIdentityDeserializer
      let period ← deserializeOptional gzochidUtilDeserializeTimeval
      let targetExecutionTime ← gzochidUtilDeserializeTimeval
      pure ⟨oid, serialization, binding, taskWorker, identity, period, targetExecutionTime⟩

/-- What an `int` keeps of a number. -/
def asInt (value : Int) : Int := (value + 2 ^ 31) % 2 ^ 32 - 2 ^ 31

/-- The strings and lists of a record have lengths that an `int` can count. -/
abbrev Countable (str : Name) : Prop := str.bytes.length + 1 < 2 ^ 31

theorem deserializeInt_reads (value : Int) :
    gzochidUtilDeserializeInt.Reads (gzochidUtilSerializeInt value) (asInt value) := by
  intro rest
  show Except.ok (_, rest) = Except.ok (asInt value, rest)
  congr 2
  simp only [readInt, asInt, UInt8.toNat_ofNat']
  split <;> omega

theorem deserializeInt_reads_nat {value : Nat} (small : value < 2 ^ 31) :
    gzochidUtilDeserializeInt.Reads (gzochidUtilSerializeInt value) value := by
  have read := deserializeInt_reads value
  rwa [asInt, show ((value : Int) + 2 ^ 31) % 2 ^ 32 - 2 ^ 31 = value by omega] at read

theorem spanned (str : Name) (rest : Bytes) :
    stringOf (str.bytes ++ 0 :: rest) = str ∧
      (str.bytes ++ 0 :: rest).dropWhile (· ≠ 0) = 0 :: rest := by
  obtain ⟨bytes, terminated⟩ := str
  have all : ∀ byte ∈ bytes, decide (byte ≠ 0) = true := by
    intro byte member
    exact decide_eq_true fun zero => terminated (zero ▸ member)
  rw [stringOf, DataClient.Name.mk.injEq]
  simp only [takeWhile_append_of_pos all, dropWhile_append_of_pos all]
  simp

theorem deserializeString_reads {str : Name} (countable : Countable str) :
    gzochidUtilDeserializeString.Reads (gzochidUtilSerializeString str) str := by
  have length : (str.bytes ++ [0]).length = str.bytes.length + 1 := length_append
  have bytes : gzochidUtilDeserializeBytes.Reads (gzochidUtilSerializeString str)
      (str.bytes ++ [0]) := by
    refine (deserializeInt_reads_nat (by rw [length]; exact countable)).bind ?_
    intro rest
    rw [copyBytes, if_pos (by simp; omega), Int.toNat_natCast, take_left, drop_left]
  have found : 0 ∈ str.bytes ++ [0] := mem_append_right _ mem_cons_self
  have terminated : Reader.Reads (if 0 ∈ str.bytes ++ [0] then pure (stringOf (str.bytes ++ [0]))
      else throw .tooShort : ByteReader Name) [] str := by
    rw [if_pos found, (spanned str []).1]
    exact Reader.Reads.pure str
  have read : gzochidUtilDeserializeString.Reads (_ ++ []) str := bytes.bind terminated
  rwa [append_nil] at read

theorem deserializeIdentity_reads (identity : Name) :
    gzochidAuthIdentityDeserializer.Reads (gzochidAuthIdentitySerializer identity) identity := by
  intro rest
  obtain ⟨name, remaining⟩ := spanned identity rest
  rw [gzochidAuthIdentitySerializer, append_assoc, singleton_append,
    gzochidAuthIdentityDeserializer, remaining, name]

theorem deserializeItems_reads {deserializer : ByteReader Item} {serializer : Item → Bytes}
    (items : List Item) (reads : ∀ item ∈ items, deserializer.Reads (serializer item) item) :
    (deserializeItems deserializer items.length).Reads (items.flatMap serializer) items := by
  induction items with
  | nil => exact Reader.Reads.pure []
  | cons item items ih =>
    refine (reads item mem_cons_self).bind ?_
    exact (ih fun other member => reads other (mem_cons_of_mem _ member)).map (item :: ·)

theorem deserializeList_reads {items : List Name} (few : items.length < 2 ^ 31)
    (countable : ∀ item ∈ items, Countable item) :
    (gzochidUtilDeserializeList gzochidUtilDeserializeString).Reads
      (gzochidUtilSerializeList gzochidUtilSerializeString items) items := by
  refine (deserializeInt_reads_nat few).bind ?_
  exact deserializeItems_reads items fun item member =>
    deserializeString_reads (countable item member)

theorem deserializeOptional_reads {deserializer : ByteReader Item} {serializer : Item → Bytes}
    {read : Item → Item} (item : Option Item)
    (reads : ∀ present ∈ item, deserializer.Reads (serializer present) (read present)) :
    (deserializeOptional deserializer).Reads
      (gzochidUtilSerializeBoolean item.isSome ++ (item.map serializer).getD [])
      (item.map read) := by
  cases item with
  | none => exact (gzochidUtilDeserializeBoolean_reads false).bind (Reader.Reads.pure none)
  | some item =>
    exact (gzochidUtilDeserializeBoolean_reads true).bind ((reads item rfl).map some)

/-- The time that is read back. -/
def asRead (tv : Timeval) : Timeval := ⟨asInt tv.tvSec, asInt tv.tvUsec⟩

theorem deserializeTimeval_reads (tv : Timeval) :
    gzochidUtilDeserializeTimeval.Reads (gzochidUtilSerializeTimeval tv) (asRead tv) :=
  (deserializeInt_reads tv.tvSec).bind ((deserializeInt_reads tv.tvUsec).map (Timeval.mk _))

/-- Ids are of eight bytes, and lengths can be counted. -/
structure ApplicationCallback.Storable (callback : ApplicationCallback) : Prop where
  procedure : Countable callback.procedure
  names : ∀ name ∈ callback.module, Countable name
  few : callback.module.length < 2 ^ 31
  scmOid : callback.scmOid < 2 ^ 64

theorem deserializeCallback_reads {callback : ApplicationCallback} (storable : callback.Storable) :
    deserializeCallback.Reads (serializeCallback callback) callback :=
  (deserializeString_reads storable.procedure).bind
    ((deserializeList_reads storable.few storable.names).bind
      ((gzochiCommonIoReadLong_reads storable.scmOid).map
        (ApplicationCallback.mk callback.procedure callback.module)))

/-- A client session is read back from its serialization, and nothing more is taken. -/
theorem client_session_read_back (session : ClientSession) (scmOid : session.scmOid < 2 ^ 64)
    (handlerScmOid : session.handlerScmOid < 2 ^ 64)
    (storable : ∀ handler ∈ session.handler,
      handler.receivedMessage.Storable ∧ handler.disconnected.Storable) :
    deserializeClientSession.Reads (serializeClientSession session) session := by
  obtain ⟨identity, oid, handler, handlerOid, together⟩ := session
  refine (deserializeIdentity_reads identity).bind ((gzochiCommonIoReadLong_reads scmOid).bind ?_)
  cases handler with
  | none =>
    cases together rfl
    exact (gzochidUtilDeserializeBoolean_reads false).bind (Reader.Reads.pure _)
  | some handler =>
    obtain ⟨received, disconnected⟩ := storable handler rfl
    have callbacks : deserializeHandler.Reads (serializeHandler handler) handler :=
      (deserializeCallback_reads received).bind
        ((deserializeCallback_reads disconnected).map (ClientSessionHandler.mk _))
    exact (gzochidUtilDeserializeBoolean_reads true).bind (callbacks.bind
      ((gzochiCommonIoReadLong_reads handlerScmOid).map fun _ => _))

def someCallback : ApplicationCallback := ⟨⟨[104], by decide⟩, [⟨[109], by decide⟩], 7⟩

theorem client_session_read_back_some :
    deserializeClientSession.Reads (serializeClientSession
      ⟨⟨[106], by decide⟩, 5, some ⟨someCallback, someCallback⟩, 6,
      fun absent => absurd absent (Option.some_ne_none _)⟩)
      ⟨⟨[106], by decide⟩, 5, some ⟨someCallback, someCallback⟩, 6,
      fun absent => absurd absent (Option.some_ne_none _)⟩ := by
  have storable : someCallback.Storable :=
    ⟨by decide, by decide, by decide, by decide⟩
  apply client_session_read_back _ (by decide) (by decide)
  rintro _ ⟨⟩
  exact ⟨storable, storable⟩

/-- A handle is read back with its times as two `int`s keep them. -/
theorem deserializeDurableTaskHandle_reads {registry : Name → Option (TaskSerialization Worker)}
    {handle : DurableApplicationTaskHandle Worker}
    (registered : registry handle.serialization.name = some handle.serialization)
    (taskData : handle.taskData < 2 ^ 64) (name : Countable handle.serialization.name)
    (binding : ∀ name ∈ handle.binding, Countable name) :
    (deserializeDurableTaskHandle registry).Reads (serializeDurableTaskHandle handle)
      { handle with
        period := handle.period.map asRead
        targetExecutionTime := asRead handle.targetExecutionTime } := by
  refine (gzochiCommonIoReadLong_reads taskData).bind ((deserializeString_reads name).bind ?_)
  rw [registered]
  have optional := @deserializeOptional_reads _ _ _ id handle.binding fun name member =>
    deserializeString_reads (binding name member)
  rw [Option.map_id] at optional
  exact optional.bind ((handle.serialization.reads handle.taskWorker).bind
    ((deserializeIdentity_reads handle.identity).bind
      ((deserializeOptional_reads handle.period fun period _ =>
        deserializeTimeval_reads period).bind
        ((deserializeTimeval_reads handle.targetExecutionTime).map _))))

/-- Seconds and microseconds are `int`s. -/
abbrev Small (tv : Timeval) : Prop :=
  (-2 ^ 31 ≤ tv.tvSec ∧ tv.tvSec < 2 ^ 31) ∧ -2 ^ 31 ≤ tv.tvUsec ∧ tv.tvUsec < 2 ^ 31

theorem asRead_eq_iff (tv : Timeval) : asRead tv = tv ↔ Small tv := by
  obtain ⟨sec, usec⟩ := tv
  simp only [asRead, asInt, Small, Timeval.mk.injEq]
  omega

/-- The handle of a durable task is read back if and only if its times, that is, when it is
due and the period of a task that repeats, are such that an `int` can hold the seconds. -/
theorem durable_task_handle_read_back_iff (registry : Name → Option (TaskSerialization Worker))
    (handle : DurableApplicationTaskHandle Worker)
    (registered : registry handle.serialization.name = some handle.serialization)
    (taskData : handle.taskData < 2 ^ 64) (name : Countable handle.serialization.name)
    (binding : ∀ name ∈ handle.binding, Countable name) :
    (deserializeDurableTaskHandle registry).Reads (serializeDurableTaskHandle handle) handle ↔
      Small handle.targetExecutionTime ∧ ∀ period ∈ handle.period, Small period := by
  have reads := deserializeDurableTaskHandle_reads registered taskData name binding
  have same : { handle with
      period := handle.period.map asRead
      targetExecutionTime := asRead handle.targetExecutionTime } = handle ↔
      Small handle.targetExecutionTime ∧ ∀ period ∈ handle.period, Small period := by
    obtain ⟨_, _, _, _, _, period, target⟩ := handle
    cases period <;> simp [← asRead_eq_iff, and_comm]
  rw [← same]
  constructor
  · intro readBack
    exact (Prod.mk.inj (Except.ok.inj ((reads []).symm.trans (readBack [])))).1
  · intro kept
    rwa [kept] at reads

def someSerialization : TaskSerialization Unit :=
  ⟨⟨[116], by decide⟩, fun _ => [], pure (), Reader.Reads.pure⟩

/-- A task that is due when the seconds no longer fit is not read back. -/
theorem durable_task_handle_read_back_late :
    ¬(deserializeDurableTaskHandle fun _ => some someSerialization).Reads
      (serializeDurableTaskHandle
        ⟨5, someSerialization, none, (), ⟨[106], by decide⟩, some ⟨60, 0⟩, ⟨2 ^ 31, 0⟩⟩)
      ⟨5, someSerialization, none, (), ⟨[106], by decide⟩, some ⟨60, 0⟩, ⟨2 ^ 31, 0⟩⟩ := by
  rw [durable_task_handle_read_back_iff _ _ rfl (by decide) (by unfold Countable; decide) (by simp)]
  unfold Small
  decide

end Gzochi.Serialization
