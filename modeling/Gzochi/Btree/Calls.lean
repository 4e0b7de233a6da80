import Gzochi.Lib.Runs
import Gzochi.Btree.Rollback
import Gzochi.Btree.PageOrder

/-!
# Runs of calls

A tree as `create_btree` makes it, and one transaction after the other at work on it.  A
transaction begins with its first call and ends with its commit or rollback.  What the
lock manager answers, and whether there is time left, comes with each call.
-/

namespace Gzochi.Btree

open Lib

/-- The root that the transaction sees. -/
def Store.effectiveRoot (store : Store) : NodeId :=
  match store.newRoot with
  | none => store.root
  | some created => if created ∈ store.writeLocks then created else store.root

/-- The records of a node, of the nodes below it and of the siblings after it. -/
def recordsFrom (store : Store) : Nat → Option NodeId → List Record
  | 0, _ => []
  | _ + 1, none => []
  | bound + 1, some id =>
      match store.node id with
      | none => []
      | some content =>
          content.effectivePage.getD [] ++
            recordsFrom store bound content.effectiveHeader.firstChild ++
            recordsFrom store bound content.effectiveHeader.next

/-- The records that the transaction sees, from left to right.  No path through the tree
is longer than there are nodes. -/
def Store.records (store : Store) : List Record :=
  recordsFrom store store.fresh (some store.effectiveRoot)

/-- `create_btree`. -/
def createBtree (loopBound : Nat) : Store :=
  { node := fun id =>
      if id = 1 then some (committedNode none none none none 1 (branchingFactor - 1) none none)
      else none
    fresh := 2, root := 1, newRoot := none, modifications := [], writeLocks := [], readLocks := []
    rollbackOnly := false, answers := fun _ => true, asked := 0, loopBound := loopBound }

inductive Call where
  | operation (made : Operation)
  | query (made : Query)
  | commit
  | rollback

/-- `transaction_commit` asserts that the transaction has not been marked. -/
def Call.perform : Call → TxM (Option Bytes)
  | .operation made => do
      made.perform
      pure none
  | .query made => made.perform
  | .commit => do
      let store ← Machine.get
      Machine.assert (!store.rollbackOnly)
      Btree.commit
      pure none
  | .rollback => do
      Btree.rollback
      pure none

def Store.withAnswers (store : Store) (answers : Nat → Bool) : Store :=
  { store with answers := answers, asked := 0 }

/-- One call, with the answers it will get; a crash ends the run. -/
def step (store : Store) (action : Call × (Nat → Bool)) : Option (Store × Option Bytes) :=
  match action.1.perform (store.withAnswers action.2) with
  | .ok reply after => some (after, reply)
  | _ => none

/-- `next_key` again and again, until there is no next key. -/
def visitKeys : Nat → Option Bytes → TxM (List Bytes)
  | _, none => pure []
  | 0, some _ => Machine.crash
  | bound + 1, some key => do
      let next ← transactionNextKey key
      let rest ← visitKeys bound next
      pure (key :: rest)

/-- From `first_key` through all the keys. -/
def iterateKeys (bound : Nat) : TxM (List Bytes) := do
  let first ← transactionFirstKey
  visitKeys bound first

/-- Every lock is granted, and in time. -/
def Store.granted (store : Store) : Store := store.withAnswers fun _ => true

/-- The keys that a transaction stores are found, one after the other, in ascending order. -/
structure FindsKeys (store : Store) : Prop where
  firstKey : ∃ found after, transactionFirstKey store.granted = .ok found after ∧
    LeastOf (keysOf store.records) found
  nextKey : ∀ key, ∃ found after, transactionNextKey key store.granted = .ok found after ∧
    LeastOf {other | other ∈ keysOf store.records ∧ key < other} found
  iteration : ∀ bound, store.records.length ≤ bound →
    ∃ keys after, iterateKeys bound store.granted = .ok keys after ∧
      keys.Pairwise (· < ·) ∧ ∀ key, key ∈ keys ↔ key ∈ keysOf store.records

end Gzochi.Btree
