import Gzochi.Data.Procedures
import Gzochi.Lib.Reader
import Gzochi.Lib.Transactions
import Mathlib.Algebra.Group.Nat.Defs

/-!
# Durable queues

The durable FIFO queue of `queue.c`: a list of link nodes, each an object of the store of its
own, with a head and a tail pointer in the outer structure, which is an object of the store
too.  A pointer to a managed reference is given by the id of the reference, of which a
transaction has one for each id.
-/

namespace Gzochi.Queue

open Lib Data Procedure

abbrev Bytes := List UInt8

/-- `gzochid_durable_queue_element`. -/
structure DurableQueueElement where
  oid : Oid
  next : Option Oid
  deriving DecidableEq

/-- `gzochid_durable_queue`. -/
structure DurableQueue where
  head : Option Oid
  tail : Option Oid
  deriving DecidableEq

/-- The objects that a queue is made of, and those that are put into it. -/
inductive Object (Payload : Type) where
  | queue (queue : DurableQueue)
  | element (element : DurableQueueElement)
  | data (payload : Payload)
  deriving DecidableEq

/-- The serializations that are in use. -/
inductive Kind where
  | queue
  | element
  | data
  deriving DecidableEq

/-- The `gzochid_io_serialization` of the objects that are put into the queue. -/
structure Serialization (Payload : Type) where
  serializer : Payload → Option Bytes
  deserializer : Bytes → Option Payload
  roundTrip : ∀ {payload out}, serializer payload = some out → deserializer out = some payload

variable {Payload : Type}

def Object.kind : Object Payload → Kind
  | .queue _ => .queue
  | .element _ => .element
  | .data _ => .data

/-- `gzochi_common_io_write_long`. -/
def gzochiCommonIoWriteLong (val : Nat) : Bytes :=
  [UInt8.ofNat (val >>> 56), UInt8.ofNat (val >>> 48), UInt8.ofNat (val >>> 40),
    UInt8.ofNat (val >>> 32), UInt8.ofNat (val >>> 24), UInt8.ofNat (val >>> 16),
    UInt8.ofNat (val >>> 8), UInt8.ofNat val]

def gzochidUtilSerializeOid (oid : Oid) : Bytes := gzochiCommonIoWriteLong oid

def gzochidUtilSerializeBoolean (bool : Bool) : Bytes := [if bool then 1 else 0]

def serializeElement (elt : DurableQueueElement) : Bytes :=
  gzochidUtilSerializeOid elt.oid ++
    match elt.next with
    | some next => gzochidUtilSerializeBoolean true ++ gzochidUtilSerializeOid next
    | none => gzochidUtilSerializeBoolean false

/-- The tail is followed when there is a head. -/
def serializeQueue (queue : DurableQueue) : Option Bytes :=
  match queue.head with
  | some head =>
      queue.tail.map fun tail =>
        gzochidUtilSerializeBoolean true ++ gzochidUtilSerializeOid head ++
          gzochidUtilSerializeOid tail
  | none => some (gzochidUtilSerializeBoolean false)

/-- The input ends too early. -/
inductive ReadError where
  | tooShort
  deriving DecidableEq

abbrev ByteReader := Reader UInt8 ReadError

/-- `gzochi_common_io_read_long`, with the removal of what has been read. -/
def gzochiCommonIoReadLong : ByteReader Nat
  | b₀ :: b₁ :: b₂ :: b₃ :: b₄ :: b₅ :: b₆ :: b₇ :: rest =>
      .ok ((b₀.toNat <<< 56) + (b₁.toNat <<< 48) + (b₂.toNat <<< 40) + (b₃.toNat <<< 32) +
        (b₄.toNat <<< 24) + (b₅.toNat <<< 16) + (b₆.toNat <<< 8) + b₇.toNat, rest)
  | _ => .error .tooShort

def gzochidUtilDeserializeOid : ByteReader Oid := gzochiCommonIoReadLong

def gzochidUtilDeserializeBoolean : ByteReader Bool
  | b :: rest => .ok (b = 1, rest)
  | [] => .error .tooShort

def deserializeElement : ByteReader DurableQueueElement := do
  let oid ← gzochidUtilDeserializeOid
  if ← gzochidUtilDeserializeBoolean then
    let next ← gzochidUtilDeserializeOid
    pure ⟨oid, some next⟩
  else pure ⟨oid, none⟩

def deserializeQueue : ByteReader DurableQueue := do
  if ← gzochidUtilDeserializeBoolean then
    let head ← gzochidUtilDeserializeOid
    let tail ← gzochidUtilDeserializeOid
    pure ⟨some head, some tail⟩
  else pure ⟨none, none⟩

/-- What a reader makes of a stored object. -/
def ofStored {Value : Type} (reader : ByteReader Value) (data : Bytes) : Option Value :=
  match reader data with
  | .ok (value, _) => some value
  | .error _ => none

/-- The serializer of a kind of objects. -/
def serialize (serialization : Serialization Payload) : Kind → Object Payload → Option Bytes
  | .queue, .queue queue => serializeQueue queue
  | .element, .element elt => some (serializeElement elt)
  | .data, .data payload => serialization.serializer payload
  | _, _ => none

def deserialize (serialization : Serialization Payload) (kind : Kind) (data : Bytes) :
    Option (Object Payload) :=
  match kind with
  | .queue => (ofStored deserializeQueue data).map .queue
  | .element => (ofStored deserializeElement data).map .element
  | .data => (serialization.deserializer data).map .data

def codec (serialization : Serialization Payload) : Codec Kind (Object Payload) Bytes where
  serializer := serialize serialization
  deserializer := deserialize serialization

abbrev Name := Bytes

abbrev Context (Payload : Type) := DataContext Kind (Object Payload) Bytes Name

abbrev QueueProcedure (Payload α : Type) := Procedure Kind (Object Payload) Bytes Name α

/-- The references that a deserializer makes: those to the ids it has read. -/
def Object.pointers : Object Payload → List Oid
  | .queue contents => contents.head.toList ++ contents.tail.toList
  | .element elt => elt.next.toList
  | .data _ => []

/-- The ids that `next_object_id` would return in an offer: for the link node, for the object,
and for a queue that has no reference yet. -/
structure FreshIds where
  element : Oid
  data : Oid
  mark : Oid
  deriving DecidableEq

section Operations

variable (serialization : Serialization Payload)

def createReferencesToOids : List Oid → QueueProcedure Payload Unit
  | [] => pure ()
  | oid :: rest => do
      gzochidDataCreateReferenceToOid (codec serialization) .element oid
      createReferencesToOids rest

/-- A dereference, with the references that are made when the object is deserialized; there
are references already to the ids in objects that are in memory. -/
def dereference (oid : Oid) (forUpdate : Bool) : QueueProcedure Payload (Option Address) := do
  match ← gzochidDataDereference (codec serialization) oid forUpdate with
  | none => pure none
  | some address => do
      let object ← load address
      createReferencesToOids serialization object.pointers
      pure (some address)

/-- What is in a queue in memory. -/
def loadQueue (address : Address) : QueueProcedure Payload DurableQueue := do
  match ← load address with
  | .queue queue => pure queue
  | .element _ | .data _ => crash

/-- What is in a link node in memory. -/
def loadElement (address : Address) : QueueProcedure Payload DurableQueueElement := do
  match ← load address with
  | .element elt => pure elt
  | .queue _ | .data _ => crash

def gzochidDurableQueueNew : QueueProcedure Payload Address :=
  Procedure.allocate (codec serialization) (.queue ⟨none, none⟩)

/-- The new node becomes the `next` of the current tail, and the tail. -/
def appendElement (queue : Address) (contents : DurableQueue) (eltRef fresh : Oid) :
    QueueProcedure Payload Unit := do
  let tailRef ← expect contents.tail
  let tail ← expect (← dereference serialization tailRef false)
  let tailElt ← loadElement tail
  assign (codec serialization) tail (.element { tailElt with next := some eltRef })
  assign (codec serialization) queue (.queue { contents with tail := some eltRef })
  gzochidDataMark (codec serialization) .element tail fresh

/-- The branches of an offer; in an empty queue the new node is the head and the tail. -/
def linkElement (queue : Address) (eltRef fresh : Oid) : QueueProcedure Payload Unit := do
  let contents ← loadQueue queue
  match contents.head with
  | none => assign (codec serialization) queue (.queue ⟨some eltRef, some eltRef⟩)
  | some _ => appendElement serialization queue contents eltRef fresh

def gzochidDurableQueueOffer (queue data : Address) (fresh : FreshIds) :
    QueueProcedure Payload Unit := do
  let elt ← Procedure.allocate (codec serialization) (.element ⟨0, none⟩)
  let eltRef ← gzochidDataCreateReference (codec serialization) .element elt fresh.element
  let dataRef ← gzochidDataCreateReference (codec serialization) .data data fresh.data
  assign (codec serialization) elt (.element ⟨dataRef, none⟩)
  linkElement serialization queue eltRef fresh.mark
  gzochidDataMark (codec serialization) .queue queue fresh.mark

def gzochidDurableQueuePeek (queue : Address) : QueueProcedure Payload (Option Address) := do
  let contents ← loadQueue queue
  match contents.head with
  | none => pure none
  | some headRef => do
      let elt ← expect (← dereference serialization headRef false)
      let element ← loadElement elt
      gzochidDataCreateReferenceToOid (codec serialization) .data element.oid
      dereference serialization element.oid false

def gzochidDurableQueuePop (queue : Address) (fresh : Oid) :
    QueueProcedure Payload (Option Address) := do
  let contents ← loadQueue queue
  match contents.head with
  | none => pure none
  | some headRef => do
      let elt ← expect (← dereference serialization headRef true)
      let element ← loadElement elt
      assign (codec serialization) queue
        (.queue ⟨element.next, if element.next.isNone then none else contents.tail⟩)
      gzochidDataCreateReferenceToOid (codec serialization) .data element.oid
      let data ← dereference serialization element.oid false
      gzochidDataRemoveObject (codec serialization) headRef
      gzochidDataMark (codec serialization) .queue queue fresh
      pure data

/-- An application looks at its queue. -/
def findQueue (oid : Oid) (forUpdate : Bool) : QueueProcedure Payload (Option Address) := do
  gzochidDataCreateReferenceToOid (codec serialization) .queue oid
  dereference serialization oid forUpdate

end Operations

/-- The data layer's part of a transaction, and the queue where it is in memory. -/
structure Transaction (Payload : Type) where
  context : Context Payload
  queue : Option Address

/-- The store, the id of the queue in it, and the transaction that is going on; the storage
engine lets them look as if there was one at a time. -/
structure Server (Payload : Type) where
  oids : Oid → Option Bytes
  names : Name → Option Oid
  queue : Option Oid
  transaction : Option (Transaction Payload)

inductive Call where
  | offer (data : Address) (fresh : FreshIds)
  | peek
  | pop (fresh : Oid)
  deriving DecidableEq

/-- An object that is put into the queue. -/
structure Entry (Payload : Type) where
  oid : Oid
  payload : Payload
  deriving DecidableEq

/-- What a call comes to.  The object offered or returned is kept for the record. -/
inductive Outcome (Payload : Type) where
  | done
  | offered (entry : Option (Entry Payload))
  | returned (found : Option (Address × Option (Entry Payload)))
  | failed (error : DataError)
  | crashed
  deriving DecidableEq

/-- The actions of an application: it makes a queue or finds the one that is stored, makes a
reference to it, makes objects and calls the functions of the queue. -/
inductive Action (Payload : Type) where
  | begin (answers : Nat → Bool)
  | create
  | find (forUpdate : Bool)
  | createReference (fresh : Oid)
  | allocate (payload : Payload)
  | call (call : Call)
  | commit (order : List Oid)
  | rollback

/-- The object of the store at an address. -/
def entryAt (context : Context Payload) (address : Address) : Option (Entry Payload) :=
  match context.byAddress address, context.memory address with
  | some oid, some (.data payload) => some ⟨oid, payload⟩
  | _, _ => none

/-- An id is fresh, and one that can be written. -/
def available (context : Context Payload) (oid : Oid) : Bool :=
  context.fresh oid && decide (oid < 2 ^ 64)

/-- An object that is offered is one of the application, and `next_object_id` returns fresh ids. -/
def Call.possible (context : Context Payload) : Call → Bool
  | .offer data fresh =>
      (match context.memory data with
        | some (.data _) => true
        | _ => false) &&
      available context fresh.element && available context fresh.data &&
      available context fresh.mark && decide [fresh.element, fresh.data, fresh.mark].Nodup
  | .peek => true
  | .pop fresh => available context fresh

namespace Transaction

variable (serialization : Serialization Payload)

/-- The transaction after a procedure has been run. -/
def settle {α : Type} (transaction : Transaction Payload) (procedure : QueueProcedure Payload α)
    (done : α → Context Payload → Option Address × Outcome Payload) :
    Transaction Payload × Outcome Payload :=
  match procedure.run transaction.context with
  | .ok (.ok value) after => (⟨after, (done value after).1⟩, (done value after).2)
  | .ok (.error error) after => ({ transaction with context := after }, .failed error)
  | .failed after => ({ transaction with context := after }, .crashed)
  | .crashed => (transaction, .crashed)

def call (transaction : Transaction Payload) (queue : Address) :
    Call → Transaction Payload × Outcome Payload
  | .offer data fresh =>
      transaction.settle (gzochidDurableQueueOffer serialization queue data fresh)
        fun _ after => (some queue, .offered (entryAt after data))
  | .peek =>
      transaction.settle (gzochidDurableQueuePeek serialization queue)
        fun found after => (some queue, .returned (found.map fun address =>
          (address, entryAt after address)))
  | .pop fresh =>
      transaction.settle (gzochidDurableQueuePop serialization queue fresh)
        fun found after => (some queue, .returned (found.map fun address =>
          (address, entryAt after address)))

end Transaction

namespace Server

variable (serialization : Serialization Payload)

/-- The server with another state of its transaction. -/
def goOn (server : Server Payload) (pair : Transaction Payload × Outcome Payload) :
    Option (Server Payload × Option (Outcome Payload)) :=
  some ({ server with transaction := some pair.1 }, some pair.2)

/-- One step; `none` stands for an action that is not possible. -/
def step (server : Server Payload) :
    Action Payload → Option (Server Payload × Option (Outcome Payload))
  | .begin answers =>
      match server.transaction with
      | none =>
          some ({ server with
            transaction := some ⟨.begin server.oids server.names answers, none⟩ }, none)
      | some _ => none
  | .create => do
      let transaction ← server.transaction
      if transaction.queue.isNone && server.queue.isNone then
        server.goOn (transaction.settle (gzochidDurableQueueNew serialization)
          fun address _ => (some address, .done))
      else none
  | .find forUpdate => do
      let transaction ← server.transaction
      let oid ← server.queue
      server.goOn (transaction.settle (findQueue serialization oid forUpdate)
        fun found _ => (found, .done))
  | .createReference fresh => do
      let transaction ← server.transaction
      let queue ← transaction.queue
      if available transaction.context fresh then
        server.goOn (transaction.settle
          (gzochidDataCreateReference (codec serialization) .queue queue fresh)
          fun _ _ => (some queue, .done))
      else none
  | .allocate payload => do
      let transaction ← server.transaction
      server.goOn (transaction.settle (Procedure.allocate (codec serialization) (.data payload))
        fun _ _ => (transaction.queue, .done))
  | .call call => do
      let transaction ← server.transaction
      let queue ← transaction.queue
      if call.possible transaction.context then
        server.goOn (transaction.call serialization queue call)
      else none
  | .commit order => do
      let transaction ← server.transaction
      let prepared ← transaction.context.dataPrepare (codec serialization) order
      let queue :=
        match transaction.queue with
        | none => server.queue
        | some address => transaction.context.byAddress address
      some (⟨prepared.oids, prepared.names, queue, none⟩, none)
  | .rollback => do
      let _ ← server.transaction
      some ({ server with transaction := none }, none)

end Server

inductive QueueCall (Element : Type) where
  | offer (element : Element)
  | peek
  | pop

/-- A queue that is a list. -/
def performQueue {Element : Type} (elements : List Element) :
    QueueCall Element → List Element × Option Element
  | .offer element => (elements ++ [element], none)
  | .peek => (elements, elements.head?)
  | .pop => (elements.tail, elements.head?)

end Gzochi.Queue
