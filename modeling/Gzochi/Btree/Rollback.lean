import Gzochi.Btree.Readers
import Gzochi.Btree.Tracking

/-!
# Undoing a transaction

`rollback` goes through the list of modifications, drops the scratch fields of every node
on it and frees the nodes that are new.  What is not on the list stays as it is.  The
committed tree comes back exactly if everything that has been written is on the list.
-/

namespace Gzochi.Btree

open Lib Machine Store List

/-- A scratch field that no transaction will take back. -/
def BtreeNode.Pending (node : BtreeNode) : Prop :=
  node.newHeader ≠ none ∨ node.newKey ≠ none ∨ node.newPage ≠ none

/-- Nobody is at work on the store, and its pointers lead to nodes. -/
structure Committed (store : Store) : Prop where
  settled : ∀ id node, store.node id = some node → ¬node.Pending ∧ node.isNew = false
  closed : ∀ id node, store.node id = some node → ∀ target, node.view.PointsTo target →
    store.node target ≠ none
  root : store.node store.root ≠ none
  newRoot : store.newRoot = none
  modifications : store.modifications = []
  wrapper : store.node wrapperLock = none ∧ wrapperLock < store.fresh
  bounded : ∀ id, store.fresh ≤ id → store.node id = none

/-- The store as a transaction finds it that has no locks yet and will get these
answers. -/
def Store.asSeenBy (store : Store) (answers : Nat → Bool) : Store :=
  { store with
    modifications := [], writeLocks := [], readLocks := [], rollbackOnly := false
    answers := answers, asked := 0 }

/-- The calls that only read. -/
inductive Query where
  | get (key : Bytes)
  | firstKey
  | nextKey (key : Bytes)

def Query.perform : Query → TxM (Option Bytes)
  | .get key => transactionGet key false
  | .firstKey => transactionFirstKey
  | .nextKey key => transactionNextKey key

/-- The second store has every node of the first, with the same things to see. -/
structure SameTree (licences : Licence → Prop) (first second : Store) : Prop where
  closed : ∀ id node, first.node id = some node → ∀ target, node.view.PointsTo target →
    first.node target ≠ none
  rootThere : first.node first.root ≠ none
  wrapper : first.node wrapperLock = none ∧ second.node wrapperLock = none
  views : ∀ id node, first.node id = some node →
    ∃ other, second.node id = some other ∧ other.view = node.view
  root : second.root = first.root
  newRoot : first.newRoot = none ∧ second.newRoot = none
  writeLocks : second.writeLocks = first.writeLocks
  readLocks : second.readLocks = first.readLocks
  rollbackOnly : second.rollbackOnly = first.rollbackOnly
  answers : second.answers = first.answers
  asked : second.asked = first.asked
  loopBound : second.loopBound = first.loopBound
  known : ∀ id, licences (.known id) → first.node id ≠ none
  lockedNodes : ∀ id, licences (.locked id) → id ≠ wrapperLock → first.node id ≠ none
  created : ∀ id, ¬licences (.created id)

/-- Nothing is known at first. -/
def unlicensed : Licence → Prop := fun _ => False

section Alike

variable {licences : Licence → Prop} {first second : Store} {id : NodeId}

theorem SameTree.forget (same : SameTree licences first second) :
    SameTree unlicensed first second :=
  { same with known := nofun, lockedNodes := nofun, created := nofun }

theorem SameTree.learn (same : SameTree licences first second) {more : Licence → Prop}
    (known : ∀ id, more (.known id) → first.node id ≠ none)
    (locked : ∀ id, more (.locked id) → id ≠ wrapperLock → first.node id ≠ none)
    (created : ∀ id, ¬more (.created id)) :
    SameTree (fun licence => licences licence ∨ more licence) first second :=
  { same with
    known := fun id member => member.elim (same.known id) (known id)
    lockedNodes := fun id member => member.elim (same.lockedNodes id) (locked id)
    created := fun id member => member.elim (same.created id) (created id) }

/-- A request for a lock depends on the locks and on the answers, not on the nodes. -/
theorem txLock_alike (lock : NodeId) (write : Bool) :
    Machine.Alike (SameTree licences) (txLock lock write)
      (fun _ => SameTree licences) (SameTree licences) := by
  intro first second same
  have answers : second.answers second.asked = first.answers first.asked := by
    rw [same.answers, same.asked]
  have grant : ∀ (writes reads : List NodeId) (granted : Bool), Outcome.Agree (SameTree licences)
      (fun _ => SameTree licences)
      (.ok granted { first with
        writeLocks := writes, readLocks := reads, asked := first.asked + 1 })
      (.ok granted { second with
        writeLocks := writes, readLocks := reads, asked := second.asked + 1 }) := by
    intro writes reads granted
    exact ⟨rfl, { same with
      writeLocks := rfl, readLocks := rfl, asked := congrArg (· + 1) same.asked }⟩
  cases write with
  | true =>
    by_cases held : lock ∈ first.writeLocks
    · simp [txLock, Machine.get, same.writeLocks, held, Outcome.Agree, same]
    · cases granted : first.answers first.asked <;>
        simp [txLock, Machine.get, Machine.modify, answer, same.writeLocks, same.readLocks, held,
          granted, answers, grant]
  | false =>
    by_cases held : lock ∈ first.writeLocks ∨ lock ∈ first.readLocks
    · simp [txLock, Machine.get, same.writeLocks, same.readLocks, held, Outcome.Agree, same]
    · cases granted : first.answers first.asked <;>
        simp [txLock, Machine.get, Machine.modify, answer, same.writeLocks, same.readLocks, held,
          granted, answers, grant]

/-- A node that is there on one side is there on the other. -/
theorem SameTree.there (same : SameTree licences first second)
    (present : first.node id ≠ none) : second.node id ≠ none := by
  cases found : first.node id with
  | none => exact absurd found present
  | some node =>
    obtain ⟨other, holds, _⟩ := same.views id node found
    rw [holds]
    nofun

theorem txLockNode_alike (id : NodeId) (write : Bool)
    (present : ∀ first second, SameTree licences first second →
      first.node id ≠ none) :
    Machine.Alike (SameTree licences) (txLockNode id write)
      (fun _ => SameTree licences) (SameTree licences) := by
  intro first second same
  have here := present first second same
  have there := same.there here
  have done := txLock_alike id write first second same
  simp only [txLockNode, bind_apply, Machine.get, Option.isNone_iff_eq_none, here, there, if_false]
  revert done
  cases txLock id write first <;> cases txLock id write second <;> simp +contextual [Outcome.Agree]

theorem handle_alike (look : Look) (licences : Licence → Prop)
    (covered : ∀ licence, look.Needs licence → licences licence) :
    Machine.Alike (SameTree licences) look.handle
      (fun answer => SameTree fun licence => licences licence ∨ look.Gives answer licence)
      (SameTree unlicensed) := by
  cases look with
  | lockWrapper =>
    refine ((txLock_alike wrapperLock false).weaken (fun _ _ same => same)
      (fun _ _ _ same => same) fun _ _ same => same.forget).bind fun granted => ?_
    refine .ite (.pure fun first second same => ?_) (.fail fun first second same => same.forget)
    refine same.learn nofun ?_ nofun
    intro id given apart
    injection given with given
    exact absurd given apart
  | roots =>
    intro first second same
    refine ⟨?_, ?_⟩
    · simp [same.root, same.newRoot]
    · refine same.learn ?_ ?_ ?_
      · rintro id (given | ⟨node, pending, _⟩)
        · cases given
          exact same.rootThere
        · rw [same.newRoot.1] at pending
          cases pending
      · rintro id (given | ⟨node, pending, given⟩)
        · cases given
        · rw [same.newRoot.1] at pending
          cases pending
      · rintro id (given | ⟨node, pending, given⟩)
        · cases given
        · rw [same.newRoot.1] at pending
          cases pending
  | lockedForWrite node =>
    intro first second same
    exact absurd (covered _ rfl) (same.created node)
  | lockNode node =>
    intro first second same
    have here := same.known node (covered _ rfl)
    refine (Machine.Alike.bind ((txLockNode_alike node false
      fun _ _ held => held.known node (covered _ rfl)).weaken (fun _ _ held => held)
        (fun _ _ _ held => held) fun _ _ held => held.forget) fun response => ?_)
        first second same
    cases response with
    | success =>
      refine .pure fun first second held => held.learn nofun ?_ nofun
      rintro id ⟨_, given⟩ _
      injection given with given
      subst given
      exact held.known id (covered _ rfl)
    | deleted =>
      refine .pure fun first second held => held.learn ?_ ?_ ?_
      · rintro id ⟨absurd, _⟩
        cases absurd
      · rintro id ⟨absurd, _⟩
        cases absurd
      · rintro id ⟨absurd, _⟩
        cases absurd
    | failure => exact .fail fun _ _ held => held.forget
  | view node =>
    intro first second same
    cases found : first.node node with
    | none =>
      by_cases apart : node = wrapperLock
      · subst apart
        simp [Look.handle, load, Machine.get, Machine.expect, Machine.crash, same.wrapper,
          Outcome.Agree]
      · exact absurd found (same.lockedNodes node (covered _ rfl) apart)
    | some content =>
      obtain ⟨other, holds, view⟩ := same.views node content found
      simp only [Look.handle, load, bind_apply, Machine.get, Machine.expect, found,
        holds, pure_apply]
      refine ⟨view.symm, same.learn ?_ ?_ ?_⟩
      · rintro id ⟨target, pointed, given⟩
        cases given
        exact same.closed node content found id pointed
      · rintro id ⟨target, pointed, given⟩
        cases given
      · rintro id ⟨target, pointed, given⟩
        cases given
  | giveUp => exact .fail fun _ _ same => same.forget
  | crash => exact .crash

theorem reading_alike {α : Type} {program : Nat → Reading α} {post : (Licence → Prop) → α → Prop}
    (guarded : ∀ bound, Guarded licences (program bound) post) :
    Machine.Alike (SameTree licences) (reading program)
      (fun value first second => ∃ after, SameTree after first second ∧ post after value)
      (SameTree unlicensed) := by
  intro first second same
  have done := (guarded first.loopBound).alike handle_alike first second same
  simp only [reading, bind_apply, Machine.get, same.loopBound]
  exact done

theorem checkTx_alike : Machine.Alike (SameTree unlicensed) checkTx (fun _ => SameTree unlicensed)
      (SameTree unlicensed) := by
  intro first second same
  have answers : second.answers second.asked = first.answers first.asked := by
    rw [same.answers, same.asked]
  have asked := congrArg (· + 1) same.asked
  cases marked : first.rollbackOnly with
  | true => simp [checkTx, Machine.get, same.rollbackOnly, marked, Outcome.Agree, same]
  | false =>
    cases inTime : first.answers first.asked with
    | true | false =>
      simp [checkTx, Machine.get, Machine.modify, answer, same.rollbackOnly, marked, answers,
        inTime]
      exact ⟨rfl, { same with asked := asked, rollbackOnly := rfl }⟩

theorem markForRollback_alike :
    Machine.Alike (SameTree unlicensed) markForRollback (fun _ => SameTree unlicensed)
      (SameTree unlicensed) :=
  fun _ _ same => ⟨rfl, { same with rollbackOnly := rfl }⟩

/-- One call of a reader gives the same on both sides. -/
theorem query_alike (query : Query) :
    Machine.Alike (SameTree unlicensed) query.perform (fun _ => SameTree unlicensed)
      (SameTree unlicensed) := by
  have scan : ∀ key, Machine.Alike (SameTree unlicensed) (keyFrom key)
      (fun _ => SameTree unlicensed) (SameTree unlicensed) := by
    intro key
    refine checkTx_alike.bind fun _ => .ite ?_ (.pure fun _ _ same => same)
    have body := (reading_alike fun bound => guarded_findKeyGte bound key unlicensed).weaken
      (fun _ _ same => same) (fun _ first second held => held.choose_spec.1.forget)
      (fun _ _ same => same)
    exact (Machine.Alike.attempt (fun _ => SameTree unlicensed) body).bind fun _ =>
      .pure fun _ _ same => same
  cases query with
  | get key =>
    refine checkTx_alike.bind fun _ => .ite ?_ (.pure fun _ _ same => same)
    have body : Machine.Alike (SameTree unlicensed) (getInternal key false)
        (fun _ => SameTree unlicensed) (SameTree unlicensed) := by
      refine (reading_alike fun bound => guarded_search bound key unlicensed).bind ?_
      rintro node first second ⟨after, held, secured⟩
      have looked : ∀ bound : Nat, Guarded after (Reading.lookup node key) fun _ _ => True := by
        intro _
        apply (guarded_view (secured.2 node rfl)).bind
        intro later view _
        cases view.page <;> trivial
      exact ((reading_alike looked).weaken (fun _ _ same => same)
        (fun _ _ _ done => done.choose_spec.1.forget) fun _ _ same => same) first second held
    refine (Machine.Alike.attempt (fun _ => SameTree unlicensed) body).bind ?_
    intro outcome
    cases outcome with
    | some result => exact .pure fun _ _ same => same
    | none => exact markForRollback_alike.bind fun _ => .pure fun _ _ same => same
  | firstKey => exact scan [0]
  | nextKey key => exact scan (keyAfter key)

theorem queries_alike (queries : List Query) :
    Machine.Alike (SameTree unlicensed) (queries.mapM Query.perform)
      (fun _ => SameTree unlicensed) (SameTree unlicensed) := by
  induction queries with
  | nil => exact .pure fun _ _ same => same
  | cons query rest ih =>
    rw [mapM_cons]
    exact (query_alike query).bind fun _ => ih.bind fun _ => .pure fun _ _ same => same

end Alike

/-- The calls a transaction may make before it ends. -/
inductive Operation where
  | get (key : Bytes) (forUpdate : Bool)
  | put (key value : Bytes)
  | delete (key : Bytes)

def Operation.perform : Operation → TxM Unit
  | .get key forUpdate => do
      let _ ← transactionGet key forUpdate
  | .put key value => transactionPut key value
  | .delete key => do
      let _ ← transactionDelete key

variable {start store after : Store} {kept : NodeId → Prop} {id : NodeId}

theorem Committed.tracks (committed : Committed start) : Tracks start (fun _ => False) start where
  base := committed.bounded
  old := fun id before present =>
    ⟨before, present, (committed.settled id before present).2, rfl, rfl, rfl⟩
  created := by
    intro id node present absent
    rw [present] at absent
    cases absent
  root := rfl
  newRoot := fun pending => absurd committed.newRoot pending
  wrapper := committed.wrapper
  locked := by
    rintro id (member | member) _
    · rw [committed.modifications] at member
      cases member
    · exact member.elim
  nodup := by
    rw [committed.modifications]
    exact nodup_nil
  bounded := by
    intro id above
    refine ⟨committed.bounded id above, ?_, fun absurd => absurd⟩
    rw [committed.modifications]
    nofun
  fresh := Nat.le_refl _
  loopBound := rfl

theorem keeps_perform (operation : Operation) : Keeps (Tracks start kept) operation.perform := by
  cases operation with
  | get key forUpdate => exact .bind (keeps_transactionGet key forUpdate) fun _ => .pure ()
  | put key value => exact keeps_transactionPut key value
  | delete key => exact .bind (keeps_transactionDelete key) fun _ => .pure ()

theorem keeps_operations (operations : List Operation) :
    Keeps (Tracks start kept) (operations.forM Operation.perform) := by
  induction operations with
  | nil => exact .pure ()
  | cons operation rest ih =>
    exact Keeps.bind (keeps_perform operation) fun _ => ih

/-- What `rollback_modification` makes of a node. -/
def undone (node : BtreeNode) : Option BtreeNode :=
  if node.isNew then none
  else some { node with
    newKey := none, newPage := none, newHeader := none, isNew := false, isDeleted := false }

/-- A node that is ready to be undone. -/
def Undoable (store : Store) (id : NodeId) : Prop :=
  ∃ node, store.node id = some node ∧ id ∈ store.writeLocks ∧
    (node.isNew = true → node.newKey = none ∧ node.newPage = none)

theorem rollbackModification_ends {node : BtreeNode} (found : store.node id = some node)
    (locked : id ∈ store.writeLocks)
    (clean : node.isNew = true → node.newKey = none ∧ node.newPage = none) :
    rollbackModification id store =
      .ok () { store.setNode id (undone node) with writeLocks := store.writeLocks.erase id } := by
  cases isNew : node.isNew with
  | true =>
    obtain ⟨key, page⟩ := clean isNew
    simp [rollbackModification, deleteNode, load, Machine.get, Machine.expect, Machine.assert,
      Machine.modify, found, locked, isNew, key, page, undone]
  | false =>
    simp [rollbackModification, txUnlockNode, update, load, Machine.get, Machine.expect,
      Machine.assert, Machine.modify, found, locked, isNew, undone, setNode]

/-- A node that is gone stops the rollback. -/
theorem rollbackModification_gone (gone : store.node id = none) :
    rollbackModification id store = .crashed := by
  by_cases locked : id ∈ store.writeLocks
  · simp [rollbackModification, load, Machine.get, Machine.expect, Machine.assert, Machine.crash,
      gone, locked]
  · simp [rollbackModification, Machine.get, Machine.assert, Machine.crash, locked]

theorem rollbackAll_cons {rest : List NodeId}
    (first : rollbackModification id store = .ok () after) :
    (id :: rest).forM rollbackModification store = rest.forM rollbackModification after := by
  show (rollbackModification id >>= fun _ => rest.forM rollbackModification) store = _
  rw [bind_apply, first]

/-- Undoing one node leaves the others ready. -/
theorem Undoable.other {content : Option BtreeNode} {other : NodeId} (apart : other ≠ id)
    (ready : Undoable store other) :
    Undoable { store.setNode id content with writeLocks := store.writeLocks.erase id } other := by
  obtain ⟨node, present, held, clean⟩ := ready
  exact ⟨node, by simp [setNode, apart, present], (mem_erase_of_ne apart).mpr held, clean⟩

/-- A pass over a list of nodes that settles each of them and gives its lock back. -/
theorem settleAll_ends {settle : NodeId → TxM Unit} {change : BtreeNode → Option BtreeNode}
    {fit : BtreeNode → Prop}
    (one : ∀ {store id node}, store.node id = some node → id ∈ store.writeLocks → fit node →
      settle id store = .ok () { store.setNode id (change node) with
        writeLocks := store.writeLocks.erase id })
    (ids : List NodeId) (nodup : ids.Nodup)
    (ready : ∀ id ∈ ids, ∃ node, store.node id = some node ∧ id ∈ store.writeLocks ∧ fit node) :
    ∃ locks, ids.forM settle store =
      .ok () { store with
        node := fun id => if id ∈ ids then (store.node id).bind change else store.node id
        writeLocks := locks } := by
  induction ids generalizing store with
  | nil => exact ⟨store.writeLocks, by simp⟩
  | cons id rest ih =>
    obtain ⟨fresh, distinct⟩ := nodup_cons.mp nodup
    obtain ⟨node, found, locked, holds⟩ := ready id mem_cons_self
    have later : ∀ other ∈ rest, ∃ content, ({ store.setNode id (change node) with
          writeLocks := store.writeLocks.erase id } : Store).node other = some content ∧
        other ∈ store.writeLocks.erase id ∧ fit content := by
      intro other member
      have apart : other ≠ id := by
        rintro rfl
        exact fresh member
      obtain ⟨content, present, held, holds⟩ := ready other (mem_cons_of_mem _ member)
      exact ⟨content, by simp [setNode, apart, present], (mem_erase_of_ne apart).mpr held, holds⟩
    obtain ⟨locks, done⟩ := ih distinct later
    refine ⟨locks, ?_⟩
    change (settle id >>= fun _ => rest.forM settle) store = _
    rw [bind_apply, one found locked holds]
    refine done.trans ?_
    congr 2
    funext other
    by_cases same : other = id
    · subst same
      simp [fresh, setNode, found]
    · simp [same, setNode]

theorem rollbackAll_ends (ids : List NodeId) (nodup : ids.Nodup)
    (ready : ∀ id ∈ ids, Undoable store id) :
    ∃ locks, ids.forM rollbackModification store = .ok () { store with
        node := fun id => if id ∈ ids then (store.node id).bind undone else store.node id
        writeLocks := locks } :=
  settleAll_ends rollbackModification_ends ids nodup ready

/-- A rollback that comes to its end has found every node of the list. -/
theorem rollbackAll_found (ids : List NodeId) (nodup : ids.Nodup)
    (ready : ∀ id ∈ ids, store.node id ≠ none → Undoable store id)
    (ended : ids.forM rollbackModification store = .ok () after) :
    ∀ id ∈ ids, store.node id ≠ none := by
  induction ids generalizing store with
  | nil => nofun
  | cons id rest ih =>
    obtain ⟨fresh, distinct⟩ := nodup_cons.mp nodup
    have present : store.node id ≠ none := by
      intro gone
      have crashed : (id :: rest).forM rollbackModification store = .crashed := by
        show (rollbackModification id >>= fun _ => rest.forM rollbackModification) store = _
        rw [bind_apply, rollbackModification_gone gone]
      rw [crashed] at ended
      cases ended
    obtain ⟨node, found, locked, clean⟩ := ready id mem_cons_self present
    have one := rollbackModification_ends found locked clean
    rw [rollbackAll_cons one] at ended
    have apart : ∀ other ∈ rest, other ≠ id := by
      rintro other member rfl
      exact fresh member
    have others := ih distinct (by
      intro other member there
      refine (ready other (mem_cons_of_mem _ member) ?_).other (apart other member)
      simpa [setNode, apart other member] using there) ended
    intro other member
    rcases mem_cons.mp member with rfl | member
    · exact present
    · have there := others other member
      simpa [setNode, apart other member] using there

/-- Everything that is pending is on the list, and everything on the list is there. -/
def Recorded (store : Store) : Prop :=
  (∀ id node, store.node id = some node → node.Pending → id ∈ store.modifications) ∧
  ∀ id ∈ store.modifications, store.node id ≠ none

/-- How two ways to run something compare for an observer. -/
def SameResult {α : Type} : Outcome Store α → Outcome Store α → Prop :=
  Outcome.Agree (fun _ _ => True) fun _ _ _ => True

/-- The store is as it was at the start, for all that can be seen of it. -/
structure Restored (start after : Store) : Prop where
  nothingPending : ∀ id node, after.node id = some node → ¬node.Pending
  newRoot : after.newRoot = none
  root : after.root = start.root
  views : ∀ id before, start.node id = some before →
    ∃ node, after.node id = some node ∧ node.view = before.view
  queries : ∀ answers (queries : List Query),
    SameResult (queries.mapM Query.perform (start.asSeenBy answers))
      (queries.mapM Query.perform (after.asSeenBy answers))

theorem Tracks.undoable (tracks : Tracks start kept store) (member : id ∈ store.modifications)
    (present : store.node id ≠ none) : Undoable store id := by
  cases found : store.node id with
  | none => exact absurd found present
  | some node =>
    refine ⟨node, found, tracks.locked id (.inl member) present, fun isNew => ?_⟩
    obtain ⟨_, _, key, page⟩ := tracks.created id node found ((tracks.isNew_iff found).mp isNew)
    exact ⟨key, page⟩

/-- `rollback` forgets the new root, undoes the list and cleans up. -/
theorem rollback_eq (tracks : Tracks start kept store) :
    rollback store = (store.modifications.forM rollbackModification >>= fun _ =>
      cleanupTransaction) { store with newRoot := none } := by
  cases pending : store.newRoot with
  | none =>
    have same : { store with newRoot := none } = store := by rw [← pending]
    simp only [rollback, bind_apply, Machine.modify, Machine.get, pending, same]
    rfl
  | some root =>
    have held := tracks.newRoot (by rw [pending]; simp)
    simp only [rollback, bind_apply, Machine.modify, Machine.get, pending, held]
    rfl

/-- What is left after a rollback that finds all nodes of its list. -/
def Store.rolledBack (store : Store) : Store :=
  { store with
    node := fun id =>
      if id ∈ store.modifications then (store.node id).bind undone else store.node id
    newRoot := none, modifications := [], writeLocks := [], readLocks := []
    rollbackOnly := false }

theorem rollback_ends (tracks : Tracks start kept store)
    (there : ∀ id ∈ store.modifications, store.node id ≠ none) :
    rollback store = .ok () store.rolledBack := by
  obtain ⟨locks, done⟩ := @rollbackAll_ends { store with newRoot := none }
    store.modifications tracks.nodup fun id member => tracks.undoable member (there id member)
  rw [rollback_eq tracks, bind_apply, done]
  rfl

theorem rollback_found (tracks : Tracks start kept store) (ended : rollback store = .ok () after) :
    ∀ id ∈ store.modifications, store.node id ≠ none := by
  rw [rollback_eq tracks, bind_apply] at ended
  cases undo : store.modifications.forM rollbackModification { store with newRoot := none } with
  | ok value middle =>
    exact @rollbackAll_found { store with newRoot := none } _ store.modifications
      tracks.nodup (fun id member present => tracks.undoable member present) undo
  | failed middle | crashed =>
    rw [undo] at ended
    cases ended

/-- Without anything pending, a reader sees the committed fields. -/
theorem BtreeNode.view_settled {node : BtreeNode} (settled : ¬node.Pending) :
    node.view = ⟨node.header, node.key, node.page⟩ := by
  simp only [BtreeNode.Pending, not_or, not_not] at settled
  obtain ⟨header, key, page⟩ := settled
  simp [BtreeNode.view, BtreeNode.effectiveHeader, BtreeNode.effectiveKey,
    BtreeNode.effectivePage, header, key, page]

/-- Whatever is left has nothing pending, and has the committed fields it had. -/
theorem Recorded.rolledBack_node (recorded : Recorded store) {node : BtreeNode}
    (left : store.rolledBack.node id = some node) :
    ¬node.Pending ∧ ∃ content, store.node id = some content ∧ node.header = content.header ∧
      node.key = content.key ∧ node.page = content.page := by
  simp only [rolledBack] at left
  split at left
  · cases found : store.node id with
    | none =>
      rw [found] at left
      cases left
    | some content =>
      rw [found] at left
      simp only [Option.bind_some, undone] at left
      split at left
      · cases left
      · cases left
        exact ⟨by simp [BtreeNode.Pending], content, rfl, rfl, rfl, rfl⟩
  · rename_i missing
    exact ⟨fun pending => missing (recorded.1 id node left pending), node, left, rfl, rfl, rfl⟩

theorem Tracks.rolledBack_old (tracks : Tracks start kept store) (recorded : Recorded store)
    {before : BtreeNode} (present : start.node id = some before) (settled : ¬before.Pending) :
    ∃ node, store.rolledBack.node id = some node ∧ node.view = before.view := by
  obtain ⟨content, found, isOld, header, key, page⟩ := tracks.old id before present
  have left : ∃ node, store.rolledBack.node id = some node := by
    simp only [rolledBack, found]
    split
    · simp [undone, isOld]
    · exact ⟨content, rfl⟩
  obtain ⟨node, left⟩ := left
  refine ⟨node, left, ?_⟩
  obtain ⟨clean, same, foundSame, header', key', page'⟩ := recorded.rolledBack_node left
  rw [found] at foundSame
  cases foundSame
  rw [BtreeNode.view_settled clean, BtreeNode.view_settled settled, header', key', page', header,
    key, page]

/-- For a reader the store is the one of the start. -/
theorem Tracks.sameTree (tracks : Tracks start kept store) (committed : Committed start)
    (recorded : Recorded store) (answers : Nat → Bool) :
    SameTree unlicensed (start.asSeenBy answers) (store.rolledBack.asSeenBy answers) where
  closed := committed.closed
  rootThere := committed.root
  wrapper := by
    refine ⟨committed.wrapper.1, ?_⟩
    simp [asSeenBy, rolledBack, tracks.wrapper.1]
  views := by
    intro id before present
    exact tracks.rolledBack_old recorded present (committed.settled id before present).1
  root := tracks.root
  newRoot := ⟨committed.newRoot, rfl⟩
  writeLocks := rfl
  readLocks := rfl
  rollbackOnly := rfl
  answers := rfl
  asked := rfl
  loopBound := tracks.loopBound
  known := nofun
  lockedNodes := nofun
  created := nofun

/-- A rollback brings the committed tree back exactly if every node with something
pending is on the list of modifications, and no node of the list has been freed. -/
theorem rollback_restores_iff (committed : Committed start) (operations : List Operation)
    (ran : operations.forM Operation.perform start = .ok () store) :
    (∃ after, rollback store = .ok () after ∧ Restored start after) ↔ Recorded store := by
  have tracks : Tracks start (fun _ => False) store := by
    have kept := keeps_operations operations start committed.tracks
    rw [ran] at kept
    exact kept
  constructor
  · rintro ⟨after, ended, restored⟩
    have there := rollback_found tracks ended
    rw [rollback_ends tracks there] at ended
    injection ended with _ same
    subst same
    refine ⟨fun id node found pending => ?_, there⟩
    by_contra missing
    refine restored.nothingPending id node ?_ pending
    simp [rolledBack, missing, found]
  · intro recorded
    refine ⟨store.rolledBack, rollback_ends tracks recorded.2, ?_⟩
    exact {
      nothingPending := fun id node left => (recorded.rolledBack_node left).1
      newRoot := rfl
      root := tracks.root
      views := fun id before present =>
        tracks.rolledBack_old recorded present (committed.settled id before present).1
      queries := fun answers queries => Machine.Alike.weaken (queries_alike queries)
        (fun _ _ same => same) (fun _ _ _ _ => trivial) (fun _ _ _ => trivial) _ _
        (tracks.sameTree committed recorded answers) }

/-! ## A small tree

A root with two inner nodes, each with four leaves.  The last leaf has three records. -/

/-- A node that no transaction is at work on. -/
def committedNode (parent next prev firstChild : Option NodeId) (minChildren maxChildren : Nat)
    (key : Datum) (page : Option Page) : BtreeNode :=
  { header := ⟨parent, next, prev, firstChild⟩, newHeader := none
    minChildren := minChildren, maxChildren := maxChildren, isNew := false, isDeleted := false
    key := key, newKey := none, page := page, newPage := none }

def committedLeaf (parent : NodeId) (next prev : Option NodeId) (keys : List Byte) : BtreeNode :=
  committedNode (some parent) next prev none 0 0 (keys.getLast?.map fun byte => [byte, 0])
    (some (keys.map fun byte => ⟨[byte], [byte]⟩))

def smallTree : List (Option BtreeNode) :=
  [none, some (committedNode none none none (some 2) 1 7 none none),
    some (committedNode (some 1) (some 3) none (some 4) 4 8 (some [7, 0, 0]) none),
    some (committedNode (some 1) none (some 2) (some 8) 4 7 (some [13, 0]) none),
    some (committedLeaf 2 (some 5) none [4]),
    some (committedLeaf 2 (some 6) (some 4) [5]),
    some (committedLeaf 2 (some 7) (some 5) [6]),
    some (committedLeaf 2 none (some 6) [7]),
    some (committedLeaf 3 (some 9) none [8]),
    some (committedLeaf 3 (some 10) (some 8) [9]),
    some (committedLeaf 3 (some 11) (some 9) [10]),
    some (committedLeaf 3 none (some 10) [11, 12, 13])]

def smallStore : Store :=
  { node := fun id => (smallTree[id]?).join, fresh := 12, root := 1, newRoot := none
    modifications := [], writeLocks := [], readLocks := [], rollbackOnly := false
    answers := fun _ => true, asked := 0, loopBound := 12 }

/-- The nodes that a header may name. -/
def BtreeNodeHeader.pointers (header : BtreeNodeHeader) : List (Option NodeId) :=
  [header.parent, header.next, header.prev, header.firstChild]

theorem smallStore_committed : Committed smallStore := by
  have bounded : ∀ id, 12 ≤ id → smallStore.node id = none := by
    intro id above
    have outside : smallTree[id]? = none := List.getElem?_eq_none above
    simp [smallStore, outside]
  have below : ∀ id node, smallStore.node id = some node → id < 12 := by
    intro id node found
    by_contra above
    rw [bounded id (Nat.le_of_not_lt above)] at found
    cases found
  have checked : ∀ id < 12, ∀ node ∈ smallStore.node id,
      node.newHeader = none ∧ node.newKey = none ∧ node.newPage = none ∧ node.isNew = false ∧
      ∀ pointer ∈ node.view.header.pointers, ∀ target ∈ pointer,
        (smallStore.node target).isSome := by
    decide +kernel
  exact {
    settled := by
      intro id node found
      obtain ⟨header, key, page, isOld, _⟩ := checked id (below id node found) node found
      exact ⟨by simp [BtreeNode.Pending, header, key, page], isOld⟩
    closed := by
      intro id node found target pointed
      obtain ⟨_, _, _, _, pointers⟩ := checked id (below id node found) node found
      have there : (smallStore.node target).isSome := by
        rcases pointed with pointed | pointed | pointed | pointed <;>
          exact pointers _ (by simp [BtreeNodeHeader.pointers]) target pointed
      intro absent
      rw [absent] at there
      cases there
    root := by decide
    newRoot := rfl
    modifications := rfl
    wrapper := by decide
    bounded := bounded }

/-- The computation ends well, in a state that passes the check. -/
def endsIn {α : Type} (check : α → Store → Bool) : Outcome Store α → Bool
  | .ok value store => check value store
  | _ => false

theorem endsIn_ok {α : Type} {check : α → Store → Bool} {outcome : Outcome Store α}
    (ends : endsIn check outcome = true) :
    ∃ value store, outcome = .ok value store ∧ check value store = true := by
  cases outcome with
  | ok value store => exact ⟨value, store, rfl, ends⟩
  | failed store | crashed => cases ends

/-- Every node with something pending is on the list, and every node of the list is there,
as far as nodes have been created. -/
def recordedBelow (store : Store) : Bool :=
  (List.range store.fresh).all fun id =>
    match store.node id with
    | none => decide (id ∉ store.modifications)
    | some node =>
        decide (id ∈ store.modifications) ||
          (node.newHeader.isNone && node.newKey.isNone && node.newPage.isNone)

theorem Tracks.recorded (tracks : Tracks start kept store)
    (checked : recordedBelow store = true) : Recorded store := by
  have each : ∀ id, id < store.fresh → _ :=
    fun id below => all_eq_true.mp checked id (mem_range.mpr below)
  constructor
  · intro id node found pending
    have below : id < store.fresh := by
      by_contra above
      rw [(tracks.bounded id (Nat.le_of_not_lt above)).1] at found
      cases found
    have this := each id below
    simp only [found, Bool.or_eq_true, decide_eq_true_eq, Bool.and_eq_true,
      Option.isNone_iff_eq_none] at this
    rcases this with member | ⟨⟨header, key⟩, page⟩
    · exact member
    · rcases pending with pending | pending | pending
      · exact absurd header pending
      · exact absurd key pending
      · exact absurd page pending
  · intro id member absent
    have below : id < store.fresh := by
      by_contra above
      exact (tracks.bounded id (Nat.le_of_not_lt above)).2.1 member
    have this := each id below
    simp only [absent, decide_eq_true_eq] at this
    exact this member

/-- A new value in one leaf and the removal of another, with the merge that follows, are
taken back without a trace. -/
theorem rollback_restores_iff_merge : ∃ store after,
    [Operation.put [5] [1, 2], .delete [6]].forM Operation.perform smallStore = .ok () store ∧
    store.modifications ≠ [] ∧ rollback store = .ok () after ∧ Restored smallStore after := by
  have ends : endsIn (fun _ store => recordedBelow store && !store.modifications.isEmpty)
      ([Operation.put [5] [1, 2], .delete [6]].forM Operation.perform smallStore) = true := by
    decide +kernel
  obtain ⟨_, store, ran, checked⟩ := endsIn_ok ends
  obtain ⟨recorded, modified⟩ := Bool.and_eq_true_iff.mp checked
  have tracks : Tracks smallStore (fun _ => False) store := by
    have kept := keeps_operations [Operation.put [5] [1, 2], .delete [6]] smallStore
      smallStore_committed.tracks
    rw [ran] at kept
    exact kept
  obtain ⟨after, ended, restored⟩ :=
    (rollback_restores_iff smallStore_committed _ ran).mpr (tracks.recorded recorded)
  refine ⟨store, after, ran, ?_, ended, restored⟩
  intro empty
  rw [empty] at modified
  cases modified

/-- Two deletions in the last leaf lower the key of the node above it, which is not put on
the list.  After the rollback the last record cannot be found any more. -/
theorem rollback_leaves_separator :
    ¬∀ (start store : Store) (operations : List Operation), Committed start →
      operations.forM Operation.perform start = .ok () store →
      ∃ after, rollback store = .ok () after ∧ Restored start after := by
  intro claim
  have ends : endsIn
      (fun _ store => endsIn (fun _ after =>
          endsIn (fun answers _ => decide (answers = [none]))
            ([Query.get [13]].mapM Query.perform (after.asSeenBy fun _ => true)))
        (rollback store))
      ([Operation.delete [13], .delete [12]].forM Operation.perform smallStore) = true := by
    decide +kernel
  have before : endsIn (fun answers _ => decide (answers = [some [13]]))
      ([Query.get [13]].mapM Query.perform (smallStore.asSeenBy fun _ => true)) = true := by
    decide +kernel
  obtain ⟨_, store, ran, rolled⟩ := endsIn_ok ends
  obtain ⟨_, after, ended, missing⟩ := endsIn_ok rolled
  obtain ⟨answers, _, asked, lost⟩ := endsIn_ok missing
  obtain ⟨answers', _, asked', found⟩ := endsIn_ok before
  obtain ⟨restoredStore, ended', restored⟩ := claim smallStore store _ smallStore_committed ran
  rw [ended] at ended'
  injection ended' with _ same
  subst same
  have agree := restored.queries (fun _ => true) [.get [13]]
  rw [asked, asked'] at agree
  rw [of_decide_eq_true lost, of_decide_eq_true found] at agree
  cases agree.1

end Gzochi.Btree
