import Mathlib.Data.List.Lex
import Gzochi.LockMem.Model
import Gzochi.DataClient.Values

/-!
# Range locks of the data client

The least key of a store, and the key after another one, come from range locks: the meta
server answers a request for the key after `from` with the key `to`, and the lock that
comes with it covers the keys from `from` up to `to`.  A store keeps its range locks in an
interval tree, and a transaction those that it uses in a tree of its own, over all stores.
A later request for a key that a lock covers is answered from the lock.

One transaction of the node is active at a time.  All locks are granted; no range lock is
released.  The meta server has the changesets that were submitted to it.
-/

namespace Gzochi.DataClient

open Lib
open IntervalTree (Itree SearchFunc gzochidItreeInsert gzochidItreeNew gzochidItreeSearchInterval
  itreeNodeNew)
open LockMem (GBytes nullOrder)

/-- Bytes as `memcmp` compares them. -/
instance byteOrder : LinearOrder UInt8 where
  le_refl _ := UInt8.le_refl _
  le_trans _ _ _ := UInt8.le_trans
  le_antisymm _ _ := UInt8.le_antisymm
  le_total := UInt8.le_total
  lt_iff_le_not_ge _ _ := by
    rw [UInt8.not_le]
    exact ⟨fun below => ⟨UInt8.le_of_lt below, below⟩, And.right⟩
  toDecidableLE := inferInstance

abbrev KeyBytes := GBytes Bytes

/-- `dataclient_qualified_key_range`, the range of a `dataclient_range_lock`. -/
structure KeyRange where
  store : Bytes
  fromKey : Option KeyBytes
  toKey : Option KeyBytes
  deriving DecidableEq

abbrev RangeTree := Itree (Option KeyBytes) KeyRange

def newRangeTree : RangeTree := gzochidItreeNew (itreeNodeNew none none ⟨[], none, none⟩)

/-- `g_bytes_equal`, which is false when its check for `NULL` fails. -/
def gBytesEqual : Option KeyBytes → Option KeyBytes → Bool
  | some first, some second => decide (first.content = second.content)
  | _, _ => false

/-- `find_exact_range_lock`. -/
def findExactRangeLock (store : Bytes) (fromKey toKey : Option KeyBytes) :
    SearchFunc (Option KeyBytes) KeyRange (Option KeyRange) := fun found node =>
  if node.data.store = store ∧ gBytesEqual node.lower fromKey ∧ gBytesEqual node.upper toKey then
    (some node.data, true)
  else (found, false)

/-- `find_range_lock_covering_point`. -/
def findRangeLockCoveringPoint (store : Bytes) (fromKey : Option KeyBytes) :
    SearchFunc (Option KeyBytes) KeyRange (Option KeyRange) := fun found node =>
  if node.data.store = store then
    match fromKey with
    | none => if node.lower = none then (some node.data, true) else (found, false)
    | some _ =>
        if nullOrder.lower node.lower ≤ nullOrder.lower fromKey ∧
            nullOrder.upper fromKey < nullOrder.upper node.upper then
          (some node.data, true)
        else (found, false)
  else (found, false)

/-- The range lock of a tree that covers a key, or the beginning of the key space. -/
def searchCovering (tree : RangeTree) (store : Bytes) (fromKey : Option KeyBytes) :
    Option (Option KeyRange) :=
  gzochidItreeSearchInterval nullOrder tree fromKey none
    (findRangeLockCoveringPoint store fromKey) none

/-- The engine on one node with its active transaction, and what the meta server has stored. -/
structure Engine where
  session : Session
  server : QualifiedKey → Option Bytes
  databaseLocks : Bytes → RangeTree
  transactionLocks : RangeTree
  rollback : Bool

namespace Engine

/-- `check_and_set_range_lock`. -/
def checkAndSetRangeLock (engine : Engine) (store : Bytes) (fromKey : Option KeyBytes) :
    Option (Engine × Bool) :=
  match searchCovering (engine.databaseLocks store) store fromKey with
  | none => none
  | some none => some (engine, false)
  | some (some lock) =>
      (gzochidItreeInsert nullOrder engine.transactionLocks lock.fromKey lock.toKey lock).map
        fun tree => ({ engine with transactionLocks := tree }, true)

/-- `range_lock_success_callback`. -/
def rangeLockSuccessCallback (engine : Engine) (store : Bytes) (fromKey toKey : Option KeyBytes) :
    Option Engine :=
  match gzochidItreeSearchInterval nullOrder (engine.databaseLocks store) fromKey toKey
      (findExactRangeLock store fromKey toKey) none with
  | none => none
  | some (some _) => some engine
  | some none =>
      (gzochidItreeInsert nullOrder (engine.databaseLocks store) fromKey toKey
        ⟨store, fromKey, toKey⟩).map fun tree =>
          { engine with databaseLocks := Function.update engine.databaseLocks store tree }

/-- `ensure_range_lock`, with the key that the meta server answers a request with.  A
transaction that does not find the lock when it is woken waits until its time is over. -/
def ensureRangeLock (engine : Engine) (store : Bytes) (fromKey reply : Option KeyBytes) :
    Option (Engine × Bool) :=
  match searchCovering engine.transactionLocks store fromKey with
  | none => none
  | some (some _) => some (engine, true)
  | some none =>
      match engine.checkAndSetRangeLock store fromKey with
      | none => none
      | some (next, true) => some (next, true)
      | some (_, false) =>
          match engine.rangeLockSuccessCallback store fromKey reply with
          | none => none
          | some granted =>
              match granted.checkAndSetRangeLock store fromKey with
              | none => none
              | some (next, true) => some (next, true)
              | some (next, false) => some ({ next with rollback := true }, false)

/-- `transaction_first_key`.  The bytes of an upper end that is `NULL` are copied as a key
of no bytes. -/
def transactionFirstKey (engine : Engine) (store : Bytes) (reply : Option KeyBytes) :
    Option (Engine × Option Bytes) :=
  match engine.ensureRangeLock store none reply with
  | none => none
  | some (next, false) => some (next, none)
  | some (next, true) =>
      (searchCovering next.transactionLocks store none).map fun found =>
        (next, found.map fun lock =>
          match lock.toKey with
          | none => []
          | some key => key.content)

/-- `transaction_next_key`. -/
def transactionNextKey (engine : Engine) (store : Bytes) (key : KeyBytes)
    (reply : Option KeyBytes) : Option (Engine × Option Bytes) :=
  match engine.ensureRangeLock store (some key) reply with
  | none => none
  | some (next, false) => some (next, none)
  | some (next, true) =>
      (searchCovering next.transactionLocks store (some key)).map fun found =>
        (next, found.bind fun lock => lock.toKey.map GBytes.content)

/-- What the meta server has stored after the changes; data of no bytes are a deletion. -/
def applyChanges (server : QualifiedKey → Option Bytes) (changes : List Change) :
    QualifiedKey → Option Bytes :=
  changes.foldl (fun stored change =>
    Function.update stored change.key (change.data.filter (· ≠ []))) server

/-- `transaction_commit`; the next transaction has begun. -/
def commit (engine : Engine) : Engine where
  session := { engine.session with
    cache := fun key =>
      if key ∈ engine.session.transaction.deletedKeys then none else engine.session.cache key
    store := engine.session.transaction.view engine.session.store
    transaction := .begin }
  server := applyChanges engine.server engine.session.transaction.changeset
  databaseLocks := engine.databaseLocks
  transactionLocks := newRangeTree
  rollback := false

/-- `transaction_rollback`; the next transaction has begun. -/
def abandon (engine : Engine) : Engine :=
  { engine with
    session := { engine.session with transaction := .begin }
    transactionLocks := newRangeTree
    rollback := false }

/-- What happens at a node. -/
inductive Event where
  | access (now : Nat) (operation : Operation)
  | firstKey (store : Bytes) (reply : Option KeyBytes)
  | nextKey (store : Bytes) (key : KeyBytes) (reply : Option KeyBytes)
  | commit
  | rollback
  deriving DecidableEq

inductive Outcome where
  | answered (answer : Answer)
  | key (found : Option Bytes)
  | ended
  deriving DecidableEq

/-- An access to a key; a lock is delivered with what the meta server has stored.  Nothing
follows on a failed assertion. -/
def access (engine : Engine) (now : Nat) (operation : Operation) : Option (Engine × Outcome) :=
  match engine.session.step ⟨now, engine.server operation.key, operation⟩ with
  | none => none
  | some (_, .aborted) => none
  | some (session, answer) => some ({ engine with session := session }, .answered answer)

/-- A transaction that ran out of time is rolled back. -/
def step (engine : Engine) : Event → Option (Engine × Outcome)
  | .access now operation => if engine.rollback then none else engine.access now operation
  | .firstKey store reply =>
      if engine.rollback then none
      else (engine.transactionFirstKey store reply).map fun next => (next.1, .key next.2)
  | .nextKey store key reply =>
      if engine.rollback then none
      else (engine.transactionNextKey store key reply).map fun next => (next.1, .key next.2)
  | .commit => if engine.rollback then none else some (engine.commit, .ended)
  | .rollback => some (engine.abandon, .ended)

/-- What a `get` in the transaction returns. -/
def gets (engine : Engine) (key : QualifiedKey) : Option Bytes :=
  match engine.session.step ⟨engine.session.clock, engine.server key, .get key⟩ with
  | some (_, .value found) => found
  | _ => none

end Engine

end Gzochi.DataClient
