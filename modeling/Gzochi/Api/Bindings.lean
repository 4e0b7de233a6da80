import Gzochi.Data.ObjectStore
import Gzochi.Lib.Transactions

/-!
# Bindings from Scheme

The primitives of `api/data.c` for the bindings of an application, and the functions of
`data.c` that they call.  Every name of the application gets a prefix; the names that the
server uses have another one.  A string becomes a string of C in the encoding of the locale.
-/

namespace Gzochi.Api

open Lib Data

abbrev CString := List UInt8

/-- `prefix_name`: the prefix is `o.`. -/
def prefixName (name : CString) : CString := 111 :: 46 :: name

/-- The names that the server uses begin with `s.`. -/
def isSystemName : CString → Bool
  | 115 :: 46 :: _ => true
  | _ => false

/-- The conditions that the primitives raise; the last one is raised by
`scm_to_locale_string`. -/
inductive Condition where
  | nameNotBound (name : CString)
  | nameExists (name : CString)
  | objectRemoved
  | transactionTimeout
  | transactionAborted
  | misc
  deriving DecidableEq

/-- What a primitive returns or raises, unless the process ends with it.  The id of the object
that has been bound or found is kept for the record. -/
inductive Outcome where
  | unspecified
  | bound (oid : Oid)
  | resolved (oid : Oid) (location : Option Address)
  | false
  | raised (condition : Condition)
  | crashed
  deriving DecidableEq

/-- The transaction of a thread: the part of the data layer, whether its time is over, and
whether another participant has marked it for rollback. -/
structure Transaction (Kind Value Bytes : Type) where
  context : DataContext Kind Value Bytes CString
  timedOut : Bool
  marked : Bool

/-- `GzochidDataError`. -/
inductive ErrorCode where
  | notFound
  | transaction
  | failed
  deriving DecidableEq

/-- The code of an error of the data layer; those of deserializers are of other domains. -/
def errorCode : DataError → Option ErrorCode
  | .notFound => some .notFound
  | .transaction => some .transaction
  | .deserializer => none

variable {Kind Value Bytes : Type}

/-- `gzochid_data_binding_exists`. -/
def gzochidDataBindingExists (context : DataContext Kind Value Bytes CString) (name : CString) :
    DataContext Kind Value Bytes CString × Bool × Option DataError :=
  match context.getBinding name with
  | (context, .ok _) => (context, true, none)
  | (context, .error .notFound) => (context, false, none)
  | (context, .error error) => (context, false, some error)

/-- `gzochid_data_get_binding`. -/
def gzochidDataGetBinding (codec : Codec Kind Value Bytes)
    (context : DataContext Kind Value Bytes CString) (name : CString) (serialization : Kind) :
    DataContext Kind Value Bytes CString × Except DataError (Oid × Option Address) :=
  match context.getBinding name with
  | (context, .error error) => (context, .error error)
  | (context, .ok oid) =>
      let (context, reference) := context.getReferenceByOid oid serialization
      match context.dereference codec oid reference false with
      | (context, found, none) => (context, .ok (oid, found))
      | (context, _, some error) => (context, .error error)

/-- `gzochid_data_set_binding`, with the id of the object. -/
def gzochidDataSetBinding (context : DataContext Kind Value Bytes CString) (name : CString)
    (serialization : Kind) (address : Address) (fresh : Oid) :
    DataContext Kind Value Bytes CString × Except DataError Oid :=
  match context.getReferenceByPtr address serialization fresh with
  | (context, some oid, none) =>
      match context.setBinding name oid with
      | (context, none) => (context, .ok oid)
      | (context, some error) => (context, .error error)
  | (context, _, error) => (context, .error (error.getD .transaction))

/-- `gzochid_data_remove_binding`. -/
def gzochidDataRemoveBinding (context : DataContext Kind Value Bytes CString) (name : CString) :
    DataContext Kind Value Bytes CString × Option DataError :=
  let context := context.touch
  if context.rollback then (context, some .transaction)
  else
    ({ context with names := update context.names name none },
      if (context.names name).isNone then some .notFound else none)

namespace Transaction

variable (toLocaleString : String → Option CString) (codec : Codec Kind Value Bytes)
  (location : Kind)

/-- `gzochid_transaction_rollback_only`. -/
def rollbackOnly (transaction : Transaction Kind Value Bytes) : Bool :=
  transaction.marked || transaction.context.rollback

/-- `gzochid_api_check_transaction`, before a primitive ends. -/
def checkTransaction (transaction : Transaction Kind Value Bytes) (outcome : Outcome) : Outcome :=
  if transaction.timedOut then .raised .transactionTimeout
  else if transaction.rollbackOnly then .raised .transactionAborted
  else outcome

/-- The transaction with another state of the data layer, and the outcome after the check. -/
def checked (transaction : Transaction Kind Value Bytes)
    (context : DataContext Kind Value Bytes CString) (outcome : Outcome) :
    Transaction Kind Value Bytes × Outcome :=
  let transaction := { transaction with context := context }
  (transaction, transaction.checkTransaction outcome)

/-- `primitive-get-binding`. -/
def primitiveGetBinding (transaction : Transaction Kind Value Bytes) (name : String) :
    Transaction Kind Value Bytes × Outcome :=
  match toLocaleString name with
  | none => (transaction, .raised .misc)
  | some cname =>
      match gzochidDataBindingExists transaction.context (prefixName cname) with
      | (context, false, none) => transaction.checked context (.raised (.nameNotBound cname))
      | (context, false, some _) => transaction.checked context .false
      | (context, true, _) =>
          match gzochidDataGetBinding codec context (prefixName cname) location with
          | (context, .ok (oid, found)) =>
              -- What a failing deserializer has left is resolved like a location.
              if (context.reference oid).any fun reference => reference.state = .failed then
                ({ transaction with context := context }, .crashed)
              else transaction.checked context (.resolved oid found)
          | (context, .error error) =>
              if errorCode error = some .notFound then
                ({ transaction with context := context }, .raised .objectRemoved)
              else transaction.checked context .false

/-- `primitive-set-binding!`. -/
def primitiveSetBinding (transaction : Transaction Kind Value Bytes) (name : String)
    (address : Address) (fresh : Oid) : Transaction Kind Value Bytes × Outcome :=
  match toLocaleString name with
  | none => (transaction, .raised .misc)
  | some cname =>
      match gzochidDataBindingExists transaction.context (prefixName cname) with
      | (context, true, _) =>
          ({ transaction with context := context }, .raised (.nameExists cname))
      | (context, false, some _) => transaction.checked context .unspecified
      | (context, false, none) =>
          match gzochidDataSetBinding context (prefixName cname) location address fresh with
          | (context, .ok oid) => transaction.checked context (.bound oid)
          | (context, .error _) => transaction.checked context .unspecified

/-- `primitive-remove-binding!`. -/
def primitiveRemoveBinding (transaction : Transaction Kind Value Bytes) (name : String) :
    Transaction Kind Value Bytes × Outcome :=
  match toLocaleString name with
  | none => (transaction, .raised .misc)
  | some cname =>
      match gzochidDataRemoveBinding transaction.context (prefixName cname) with
      | (context, none) => transaction.checked context .unspecified
      | (context, some error) =>
          if errorCode error = some .failed then
            ({ transaction with context := context }, .raised (.nameNotBound cname))
          else transaction.checked context .unspecified

end Transaction

/-- A call of one of the primitives; `set` comes with the id that a new object would get. -/
inductive UserCall where
  | get (name : String)
  | set (name : String) (address : Address) (fresh : Oid)
  | remove (name : String)

def UserCall.name : UserCall → String
  | .get name | .set name _ _ | .remove name => name

/-- An object to be bound is in memory, and the id of a new object is fresh. -/
def UserCall.possible (context : DataContext Kind Value Bytes CString) : UserCall → Bool
  | .set _ address fresh => (context.memory address).isSome && context.fresh fresh
  | _ => true

def Transaction.call (toLocaleString : String → Option CString) (codec : Codec Kind Value Bytes)
    (location : Kind) (transaction : Transaction Kind Value Bytes) :
    UserCall → Transaction Kind Value Bytes × Outcome
  | .get name => transaction.primitiveGetBinding toLocaleString codec location name
  | .set name address fresh =>
      transaction.primitiveSetBinding toLocaleString location name address fresh
  | .remove name => transaction.primitiveRemoveBinding toLocaleString name

/-- The store, and the transaction that is going on; the storage engine lets them look as if
there was one at a time. -/
structure Server (Kind Value Bytes : Type) where
  oids : Oid → Option Bytes
  names : CString → Option Oid
  transaction : Option (Transaction Kind Value Bytes)

/-- The name of a binding that a call of the data layer is about. -/
def bindingName {Name : Type} : Operation Kind Value Name → Option Name
  | .getBinding _ name | .setBinding _ name _ _ | .setBindingToOid name _ | .removeBinding name
  | .bindingExists name => some name
  | _ => none

inductive Action (Kind Value : Type) where
  | begin (answers : Nat → Bool)
  | call (call : UserCall)
  | perform (operation : Operation Kind Value CString)
  | timeOut
  | mark
  | commit (order : List Oid)
  | rollback

namespace Server

/-- An empty store. -/
def initial : Server Kind Value Bytes := ⟨fun _ => none, fun _ => none, none⟩

/-- One step.  Whatever else the application and the server do about bindings has to do with
the server's own names.  Only calls of a primitive have an outcome; `none` stands for an
action that is not possible.  After a crash the server begins again with its store. -/
def step (toLocaleString : String → Option CString) (codec : Codec Kind Value Bytes)
    (location : Kind) (server : Server Kind Value Bytes) :
    Action Kind Value → Option (Server Kind Value Bytes × Option Outcome)
  | .begin answers =>
      match server.transaction with
      | none =>
          some ({ server with
            transaction := some ⟨.begin server.oids server.names answers, false, false⟩ }, none)
      | some _ => none
  | .call call => do
      let transaction ← server.transaction
      if call.possible transaction.context then
        let (transaction, outcome) := transaction.call toLocaleString codec location call
        some ({ server with
          transaction := if outcome = .crashed then none else some transaction }, some outcome)
      else none
  | .perform operation => do
      let transaction ← server.transaction
      if (bindingName operation).all isSystemName then
        let (context, _) ← transaction.context.step codec operation
        some ({ server with transaction := some { transaction with context := context } }, none)
      else none
  | .timeOut => do
      let transaction ← server.transaction
      some ({ server with transaction := some { transaction with timedOut := true } }, none)
  | .mark => do
      let transaction ← server.transaction
      some ({ server with transaction := some { transaction with marked := true } }, none)
  | .commit order => do
      let transaction ← server.transaction
      if transaction.timedOut || transaction.marked then none
      else
        let prepared ← transaction.context.dataPrepare codec order
        some (⟨prepared.oids, prepared.names, none⟩, none)
  | .rollback => do
      let _ ← server.transaction
      some ({ server with transaction := none }, none)

end Server

end Gzochi.Api
