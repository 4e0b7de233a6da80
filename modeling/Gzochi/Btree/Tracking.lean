import Gzochi.Btree.Operations

/-!
# What a transaction leaves alone

Everything a transaction writes on a node that existed before it goes to the scratch
fields of the node; the committed header, key and page stay as they were.  Nodes that it
creates have no scratch fields at all.  Every function of the source keeps to this, also
when it fails half-way.

The second thing every function keeps is that the nodes on the list of modifications are
locked for writing, as far as they still exist.
-/

namespace Gzochi.Btree

open Lib Machine

/-- `store` is what a transaction has made of `start`.  The nodes of `kept` are locked
for writing as well. -/
structure Tracks (start : Store) (kept : NodeId → Prop) (store : Store) : Prop where
  base : ∀ id, start.fresh ≤ id → start.node id = none
  old : ∀ id before, start.node id = some before → ∃ node, store.node id = some node ∧
    node.isNew = false ∧ node.header = before.header ∧ node.key = before.key ∧
    node.page = before.page
  created : ∀ id node, store.node id = some node → start.node id = none →
    node.isNew = true ∧ node.newHeader = none ∧ node.newKey = none ∧ node.newPage = none
  root : store.root = start.root
  newRoot : store.newRoot ≠ none → wrapperLock ∈ store.writeLocks
  wrapper : store.node wrapperLock = none ∧ wrapperLock < store.fresh
  locked : ∀ id, id ∈ store.modifications ∨ kept id → store.node id ≠ none →
    id ∈ store.writeLocks
  nodup : store.modifications.Nodup
  bounded : ∀ id, store.fresh ≤ id →
    store.node id = none ∧ id ∉ store.modifications ∧ ¬kept id
  fresh : start.fresh ≤ store.fresh
  loopBound : store.loopBound = start.loopBound

variable {start store : Store} {kept : NodeId → Prop} {α : Type} {id : NodeId}

/-- One more node is known to be locked. -/
def alsoKept (kept : NodeId → Prop) (id : NodeId) : NodeId → Prop :=
  fun other => kept other ∨ other = id

theorem Tracks.forget {less : NodeId → Prop} (tracks : Tracks start kept store)
    (fewer : ∀ id, less id → kept id) : Tracks start less store :=
  { tracks with
    locked := by
      intro id member
      exact tracks.locked id (member.imp_right (fewer id))
    bounded := by
      intro id above
      obtain ⟨absent, unmodified, free⟩ := tracks.bounded id above
      exact ⟨absent, unmodified, fun member => free (fewer id member)⟩ }

theorem Tracks.forgetLast (tracks : Tracks start (alsoKept kept id) store) :
    Tracks start kept store :=
  tracks.forget fun _ member => .inl member

/-- A new node and a node of the past cannot be mistaken for each other. -/
theorem Tracks.isNew_iff (tracks : Tracks start kept store) {node : BtreeNode}
    (found : store.node id = some node) : node.isNew = true ↔ start.node id = none := by
  constructor
  · intro isNew
    cases before : start.node id with
    | none => rfl
    | some content =>
      obtain ⟨same, equal, isOld, _⟩ := tracks.old id content before
      rw [found] at equal
      cases equal
      rw [isOld] at isNew
      cases isNew
  · intro absent
    exact (tracks.created id node found absent).1

/-- What a request for a lock can do: it changes nothing but the locks, and loses none
that is held for writing. -/
theorem txLock_ends (lock : NodeId) (write : Bool) (store : Store) : ∃ granted writes reads asked,
      txLock lock write store = .ok granted
        { store with writeLocks := writes, readLocks := reads, asked := asked } ∧
      (∀ id ∈ store.writeLocks, id ∈ writes) ∧
      (granted = true → write = true → lock ∈ writes) ∧
      ((∀ index, store.answers index = true) → granted = true) := by
  cases write with
  | true =>
    by_cases held : lock ∈ store.writeLocks
    · exact ⟨true, store.writeLocks, store.readLocks, store.asked,
        by simp [txLock, Machine.get, held], fun _ => id, fun _ _ => held, fun _ => rfl⟩
    · cases granted : store.answers store.asked with
      | true =>
        exact ⟨true, lock :: store.writeLocks, store.readLocks.erase lock, store.asked + 1,
          by simp [txLock, Machine.get, Machine.modify, answer, held, granted],
          fun _ => List.mem_cons_of_mem _, fun _ _ => List.mem_cons_self, fun _ => rfl⟩
      | false =>
        refine ⟨false, store.writeLocks, store.readLocks.erase lock, store.asked + 1,
          by simp [txLock, Machine.get, Machine.modify, answer, held, granted],
          fun _ => id, nofun, fun always => ?_⟩
        rw [always] at granted
        cases granted
  | false =>
    by_cases held : lock ∈ store.writeLocks ∨ lock ∈ store.readLocks
    · exact ⟨true, store.writeLocks, store.readLocks, store.asked,
        by simp [txLock, Machine.get, held], fun _ => id, nofun, fun _ => rfl⟩
    · cases granted : store.answers store.asked with
      | true =>
        exact ⟨true, store.writeLocks, lock :: store.readLocks, store.asked + 1,
          by simp [txLock, Machine.get, Machine.modify, answer, held, granted],
          fun _ => id, nofun, fun _ => rfl⟩
      | false =>
        refine ⟨false, store.writeLocks, store.readLocks, store.asked + 1,
          by simp [txLock, Machine.get, Machine.modify, answer, held, granted],
          fun _ => id, nofun, fun always => ?_⟩
        rw [always] at granted
        cases granted

/-- The same for the lock of a node. -/
theorem txLockNode_ends (node : NodeId) (write : Bool) (store : Store) :
    ∃ response writes reads asked, txLockNode node write store = .ok response
        { store with writeLocks := writes, readLocks := reads, asked := asked } ∧
      (∀ id ∈ store.writeLocks, id ∈ writes) ∧
      (response = .success → store.node node ≠ none ∧ (write = true → node ∈ writes)) ∧
      ((∀ index, store.answers index = true) → store.node node ≠ none →
        response = .success) := by
  by_cases absent : store.node node = none
  · exact ⟨.deleted, store.writeLocks, store.readLocks, store.asked,
      by simp [txLockNode, Machine.get, absent], fun _ => id, nofun,
      fun _ present => absurd absent present⟩
  · obtain ⟨granted, writes, reads, asked, ended, more, held, always⟩ :=
      txLock_ends node write store
    refine ⟨if granted then .success else .failure, writes, reads, asked,
      by simp [txLockNode, Machine.get, absent, ended], more, ?_, ?_⟩
    · intro success
      cases granted with
      | true => exact ⟨absent, held rfl⟩
      | false => cases success
    · intro answers _
      rw [always answers]
      rfl

/-- More locks make no difference. -/
theorem Tracks.moreLocks (tracks : Tracks start kept store) {writes : List NodeId}
    (reads : List NodeId) (asked : Nat) (more : ∀ id ∈ store.writeLocks, id ∈ writes) :
    Tracks start kept { store with writeLocks := writes, readLocks := reads, asked := asked } :=
  { tracks with
    newRoot := fun pending => more _ (tracks.newRoot pending)
    locked := fun id member present => more _ (tracks.locked id member present) }

theorem keeps_txLock (lock : NodeId) (write : Bool) :
    Keeps (Tracks start kept) (txLock lock write) := by
  intro store tracks
  obtain ⟨granted, writes, reads, asked, ended, more, _⟩ := txLock_ends lock write store
  rw [ended]
  exact tracks.moreLocks _ _ more

theorem keeps_txLockNode (node : NodeId) (write : Bool) :
    Keeps (Tracks start kept) (txLockNode node write) :=
  .bind .get fun _ => .ite (.pure _) (.bind (keeps_txLock node write) fun _ => .pure _)

/-- Success in locking a node for writing makes it one of those that are kept. -/
theorem txLockNode_tracks (node : NodeId) : Triple (Tracks start kept) (txLockNode node true)
      (fun response store => Tracks start kept store ∧
        (response = .success → Tracks start (alsoKept kept node) store))
      (Tracks start kept) := by
  intro store tracks
  obtain ⟨response, writes, reads, asked, ended, more, held, _⟩ :=
    txLockNode_ends node true store
  rw [ended]
  have after := tracks.moreLocks reads asked more
  refine ⟨after, fun success => { after with locked := ?_, bounded := ?_ }⟩
  · rintro id (member | member | rfl) present
    · exact after.locked id (.inl member) present
    · exact after.locked id (.inr member) present
    · exact (held success).2 rfl
  · intro id above
    obtain ⟨absent, unmodified, free⟩ := after.bounded id above
    refine ⟨absent, unmodified, ?_⟩
    rintro (member | rfl)
    · exact free member
    · exact (held success).1 absent

variable {node : NodeId}

/-- The rest of a function after a lock for writing. -/
theorem keeps_afterLock {next : LockNodeResponse → TxM α}
    (success : Keeps (Tracks start (alsoKept kept node)) (next .success))
    (failure : Keeps (Tracks start kept) (next .failure))
    (deleted : Keeps (Tracks start kept) (next .deleted)) :
    Keeps (Tracks start kept) (txLockNode node true >>= next) := by
  refine Triple.bind (txLockNode_tracks node) fun response => ?_
  cases response with
  | success =>
    exact success.weaken (fun _ held => held.2 rfl) (fun _ _ => Tracks.forgetLast)
      fun _ => Tracks.forgetLast
  | failure =>
    exact failure.weaken (fun _ held => held.1) (fun _ _ same => same) fun _ same => same
  | deleted =>
    exact deleted.weaken (fun _ held => held.1) (fun _ _ same => same) fun _ same => same

theorem keeps_requireLock (node : NodeId) (write : Bool) :
    Keeps (Tracks start kept) (requireLock node write) :=
  .bind (keeps_txLockNode node write) fun _ => .ite .fail (.pure ())

theorem keeps_afterRequire {rest : TxM α} (kept' : Keeps (Tracks start (alsoKept kept node)) rest) :
    Keeps (Tracks start kept) (requireLock node true >>= fun _ => rest) := by
  rw [requireLock, bind_assoc]
  exact keeps_afterLock kept' .fail .fail

theorem keeps_load (node : NodeId) : Keeps (Tracks start kept) (load node) :=
  .bind .get fun _ => .expect _

/-- What a look at a node tells about it. -/
theorem keeps_afterLoad {next : BtreeNode → TxM α}
    (kept' : ∀ content, id ≠ wrapperLock → (content.isNew = true → start.node id = none) →
      Keeps (Tracks start kept) (next content)) :
    Keeps (Tracks start kept) (load id >>= next) := by
  intro store tracks
  cases found : store.node id with
  | none => simp [load, Machine.get, Machine.expect, Machine.crash, found]
  | some content =>
    have apart : id ≠ wrapperLock := by
      rintro rfl
      rw [tracks.wrapper.1] at found
      cases found
    simp only [load, bind_apply, Machine.get, Machine.expect, found, pure_apply]
    exact kept' content apart (tracks.isNew_iff found).mp store tracks

/-- A change of a node that leaves its committed part alone, or that gives a new node no
scratch fields. -/
def Tame (start : Store) (id : NodeId) (change : BtreeNode → BtreeNode) : Prop :=
  ∀ node, (change node).isNew = node.isNew ∧
    (start.node id ≠ none → node.isNew = false → (change node).header = node.header ∧
      (change node).key = node.key ∧ (change node).page = node.page) ∧
    (node.isNew = true → node.newHeader = none → node.newKey = none → node.newPage = none →
      (change node).newHeader = none ∧ (change node).newKey = none ∧
        (change node).newPage = none)

variable {change : BtreeNode → BtreeNode}

theorem Tracks.setNode (tracks : Tracks start kept store) (tame : Tame start id change)
    {node : BtreeNode} (found : store.node id = some node) :
    Tracks start kept (store.setNode id (some (change node))) :=
  { tracks with
    old := by
      intro other before present
      by_cases same : other = id
      · subst same
        obtain ⟨content, holds, isOld, header, key, page⟩ := tracks.old other before present
        rw [found] at holds
        cases holds
        obtain ⟨flag, committed, _⟩ := tame node
        obtain ⟨header', key', page'⟩ := committed (by rw [present]; nofun) isOld
        exact ⟨change node, by simp [Store.setNode], flag.trans isOld, header'.trans header,
          key'.trans key, page'.trans page⟩
      · obtain ⟨content, holds, rest⟩ := tracks.old other before present
        exact ⟨content, by simp [Store.setNode, same, holds], rest⟩
    created := by
      intro other content holds absent
      by_cases same : other = id
      · subst same
        simp only [Store.setNode, if_true] at holds
        cases holds
        obtain ⟨isNew, header, key, page⟩ := tracks.created other node found absent
        obtain ⟨flag, _, scratch⟩ := tame node
        exact ⟨flag.trans isNew, scratch isNew header key page⟩
      · simp only [Store.setNode, same, if_false] at holds
        exact tracks.created other content holds absent
    wrapper := by
      refine ⟨?_, tracks.wrapper.2⟩
      by_cases same : wrapperLock = id
      · rw [← same, tracks.wrapper.1] at found
        cases found
      · simp only [Store.setNode, same, if_false]
        exact tracks.wrapper.1
    locked := by
      intro other member present
      by_cases same : other = id
      · exact tracks.locked other member (by rw [same, found]; nofun)
      · simp only [Store.setNode, same, if_false] at present
        exact tracks.locked other member present
    bounded := by
      intro other above
      obtain ⟨absent, unmodified, free⟩ := tracks.bounded other above
      refine ⟨?_, unmodified, free⟩
      by_cases same : other = id
      · rw [← same, absent] at found
        cases found
      · simp only [Store.setNode, same, if_false]
        exact absent }

theorem keeps_update (tame : Tame start id change) :
    Keeps (Tracks start kept) (update id change) := by
  intro store tracks
  cases found : store.node id with
  | none => simp [update, load, Machine.get, Machine.expect, Machine.crash, found]
  | some node =>
    simp only [update, load, bind_apply, Machine.get, Machine.expect, found,
      pure_apply, Machine.modify]
    exact tracks.setNode tame found

theorem tame_prepareHeader : Tame start id BtreeNode.prepareHeader := by
  intro node
  unfold BtreeNode.prepareHeader
  split <;> simp_all

theorem tame_writeHeader (change : BtreeNodeHeader → BtreeNodeHeader) :
    Tame start id fun node => node.writeHeader change := by
  intro node
  simp only [BtreeNode.writeHeader]
  split <;> simp_all

theorem tame_writeKey (key : Bytes) : Tame start id fun node => node.writeKey key := by
  intro node
  simp only [BtreeNode.writeKey]
  split <;> simp_all

theorem tame_preparePage : Tame start id BtreeNode.preparePage := by
  intro node
  unfold BtreeNode.preparePage
  split
  · simp_all
  · split <;> simp_all

theorem tame_writePage (page : Page) : Tame start id fun node => node.writePage page := by
  intro node
  simp only [BtreeNode.writePage]
  split <;> simp_all

/-- A node that is created was not there at the start. -/
theorem create_tracks (parent : Option NodeId) (minChildren maxChildren : Nat) :
    Triple (Tracks start kept) (createLockableBtreeNode parent minChildren maxChildren)
      (fun id store => Tracks start kept store ∧ start.node id = none)
      (Tracks start kept) := by
  intro store tracks
  have absent := (tracks.bounded store.fresh (Nat.le_refl _)).1
  have unborn : start.node store.fresh = none := tracks.base _ tracks.fresh
  refine ⟨{ tracks with
    old := ?_, created := ?_, wrapper := ?_, locked := ?_, bounded := ?_, fresh := ?_ }, unborn⟩
  · intro other before present
    have different : other ≠ store.fresh := by
      rintro rfl
      rw [unborn] at present
      cases present
    obtain ⟨content, holds, rest⟩ := tracks.old other before present
    exact ⟨content, by simp [Store.setNode, different, holds], rest⟩
  · intro other content holds before
    by_cases same : other = store.fresh
    · simp only [Store.setNode, same, if_true] at holds
      cases holds
      exact ⟨rfl, rfl, rfl, rfl⟩
    · simp only [Store.setNode, same, if_false] at holds
      exact tracks.created other content holds before
  · have below := tracks.wrapper.2
    refine ⟨?_, Nat.lt_succ_of_lt below⟩
    simp only [Store.setNode, Nat.ne_of_lt below, if_false]
    exact tracks.wrapper.1
  · intro other member present
    by_cases same : other = store.fresh
    · obtain ⟨_, unmodified, free⟩ := tracks.bounded store.fresh (Nat.le_refl _)
      subst same
      exact (member.elim unmodified free).elim
    · simp only [Store.setNode, same, if_false] at present
      exact tracks.locked other member present
  · intro other above
    have further : store.fresh < other := above
    obtain ⟨absent, rest⟩ := tracks.bounded other (Nat.le_of_lt further)
    refine ⟨?_, rest⟩
    simp only [Store.setNode, Nat.ne_of_gt further, if_false]
    exact absent
  · exact Nat.le_succ_of_le tracks.fresh

theorem keeps_afterCreate {parent : Option NodeId} {minChildren maxChildren : Nat}
    {next : NodeId → TxM α}
    (kept' : ∀ id, start.node id = none → Keeps (Tracks start kept) (next id)) :
    Keeps (Tracks start kept)
      (createLockableBtreeNode parent minChildren maxChildren >>= next) := by
  refine Triple.bind (create_tracks parent minChildren maxChildren) ?_
  rintro id store ⟨tracks, unborn⟩
  exact kept' id unborn store tracks

/-- A node that is locked for writing may be put on the list. -/
theorem keeps_markModification (locked : kept id) :
    Keeps (Tracks start kept) (markModification id) := by
  refine .modify fun store tracks => ?_
  split
  · exact tracks
  · rename_i fresh
    exact { tracks with
      locked := by
        rintro other (member | member) present
        · rcases List.mem_cons.mp member with rfl | member
          · exact tracks.locked other (.inr locked) present
          · exact tracks.locked other (.inl member) present
        · exact tracks.locked other (.inr member) present
      nodup := List.nodup_cons.mpr ⟨fresh, tracks.nodup⟩
      bounded := by
        intro other above
        obtain ⟨absent, unmodified, free⟩ := tracks.bounded other above
        refine ⟨absent, fun member => ?_, free⟩
        rcases List.mem_cons.mp member with rfl | member
        · exact free locked
        · exact unmodified member }

theorem keeps_unmarkModification (id : NodeId) :
    Keeps (Tracks start kept) (unmarkModification id) := by
  refine .bind .get fun _ => .bind (.assert _) fun _ => .modify fun store tracks => ?_
  exact { tracks with
    locked := fun other member present =>
      tracks.locked other (member.imp_left List.mem_of_mem_erase) present
    nodup := tracks.nodup.erase _
    bounded := by
      intro other above
      obtain ⟨absent, unmodified, free⟩ := tracks.bounded other above
      exact ⟨absent, fun member => unmodified (List.mem_of_mem_erase member), free⟩ }

/-- Only nodes that were not there at the start are freed. -/
theorem keeps_deleteNode (unborn : start.node id = none) :
    Keeps (Tracks start kept) (deleteNode id) := by
  refine keeps_afterLoad fun _ apart _ => .bind (.assert _) fun _ => .bind (.assert _) fun _ => ?_
  refine .bind .get fun _ => .bind (.assert _) fun _ => .modify fun store tracks => ?_
  refine { tracks with
    old := ?_, created := ?_, newRoot := ?_, wrapper := ?_, locked := ?_, bounded := ?_ }
  · intro other before present
    have different : other ≠ id := by
      rintro rfl
      rw [unborn] at present
      cases present
    obtain ⟨content, holds, rest⟩ := tracks.old other before present
    exact ⟨content, by simp [Store.setNode, different, holds], rest⟩
  · intro other content holds absent
    by_cases same : other = id
    · simp [Store.setNode, same] at holds
    · simp only [Store.setNode, same, if_false] at holds
      exact tracks.created other content holds absent
  · exact fun pending => (List.mem_erase_of_ne apart.symm).mpr (tracks.newRoot pending)
  · refine ⟨?_, tracks.wrapper.2⟩
    by_cases same : wrapperLock = id
    · simp [Store.setNode, same]
    · simp only [Store.setNode, same, if_false]
      exact tracks.wrapper.1
  · intro other member present
    by_cases same : other = id
    · simp [Store.setNode, same] at present
    · simp only [Store.setNode, same, if_false] at present
      exact (List.mem_erase_of_ne same).mpr (tracks.locked other member present)
  · intro other above
    obtain ⟨absent, rest⟩ := tracks.bounded other above
    refine ⟨?_, rest⟩
    by_cases same : other = id
    · simp [Store.setNode, same]
    · simp only [Store.setNode, same, if_false]
      exact absent

theorem keeps_handle (look : Look) : Keeps (Tracks start kept) look.handle := by
  cases look with
  | lockWrapper => exact .bind (keeps_txLock wrapperLock false) fun _ => .ite (.pure ()) .fail
  | roots | lockedForWrite node => exact .bind .get fun _ => .pure _
  | lockNode node =>
    refine .bind (keeps_txLockNode node false) fun response => ?_
    cases response with
    | success => exact .pure true
    | deleted => exact .pure false
    | failure => exact .fail
  | view node => exact .bind (keeps_load node) fun _ => .pure _
  | giveUp => exact .fail
  | crash => exact .crash

theorem keeps_reading (program : Nat → Reading α) : Keeps (Tracks start kept) (reading program) :=
  .bind .get fun _ => Program.run_keeps keeps_handle _

theorem keeps_txSetHeader (change : BtreeNodeHeader → BtreeNodeHeader) (node : NodeId) :
    Keeps (Tracks start kept) (txSetHeader change node) :=
  .bind (keeps_update tame_prepareHeader) fun _ => keeps_afterRequire
    (.bind (keeps_update (tame_writeHeader change)) fun _ =>
      keeps_markModification (.inr rfl))

theorem keeps_txSetRoot (root : NodeId) : Keeps (Tracks start kept) (txSetRoot root) := by
  intro store tracks
  obtain ⟨granted, writes, reads, asked, ended, more, held, _⟩ :=
    txLock_ends wrapperLock true store
  have after := tracks.moreLocks reads asked more
  simp only [txSetRoot, bind_apply, ended]
  cases granted with
  | true => exact { after with newRoot := fun _ => held rfl rfl }
  | false => exact after

theorem keeps_setNodeKeyToKeyAfter (node : NodeId) (key : Datum) :
    Keeps (Tracks start kept) (setNodeKeyToKeyAfter node key) :=
  keeps_update (tame_writeKey _)

theorem keeps_effectiveKeyOf (node : NodeId) : Keeps (Tracks start kept) (effectiveKeyOf node) :=
  .bind (keeps_load node) fun _ => .pure _

theorem keeps_updateKeyLoop (key : Bytes) (bound : Nat) (node : NodeId) (refused : Bool) :
    Keeps (Tracks start kept) (updateKeyLoop key bound node refused) := by
  induction bound generalizing node refused with
  | zero => exact .crash
  | succ bound ih =>
    refine .bind (keeps_load node) fun content => .bind (keeps_txLockNode node true) ?_
    intro response
    cases response with
    | failure => exact .pure true
    | deleted => exact .pure refused
    | success =>
      refine .bind (keeps_setNodeKeyToKeyAfter node _) fun _ => .ite ?_ (.pure refused)
      refine .bind (.attempt (keeps_reading _)) fun answer => ?_
      rcases answer with _ | _ | parent
      · exact ih node true
      · exact ih node refused
      · exact .bind (keeps_load parent) fun _ => .ite (.pure refused) (ih parent refused)

theorem keeps_updateKey (node : NodeId) (key : Bytes) :
    Keeps (Tracks start kept) (updateKey node key) :=
  .bind .get fun _ => .bind (keeps_updateKeyLoop key _ node false) fun _ =>
    .ite .fail (.pure ())

theorem keeps_writerPageOf (node : NodeId) : Keeps (Tracks start kept) (writerPageOf node) :=
  .bind (keeps_load node) fun _ => .expect _

theorem keeps_insertPageRecord (leaf : NodeId) (offset : Nat) (record : Record) :
    Keeps (Tracks start kept) (insertPageRecord leaf offset record) := by
  refine keeps_afterLock ?_ .fail (.pure ())
  refine .bind (keeps_update tame_preparePage) fun _ => .bind (keeps_writerPageOf leaf) ?_
  refine fun page => .bind (.assert _) fun _ => .bind (keeps_update (tame_writePage _)) fun _ => ?_
  exact .bind (keeps_markModification (.inr rfl)) fun _ =>
    .ite (keeps_updateKey leaf _) (.pure ())

theorem keeps_removePageRecord (leaf : NodeId) (offset : Nat) :
    Keeps (Tracks start kept) (removePageRecord leaf offset) := by
  refine keeps_afterLock ?_ .fail (.pure ())
  refine .bind (keeps_update tame_preparePage) fun _ => .bind (keeps_writerPageOf leaf) ?_
  refine fun page => .bind (.expect _) fun _ => .bind (keeps_update (tame_writePage _)) fun _ => ?_
  exact .bind (keeps_markModification (.inr rfl)) fun _ =>
    .ite (keeps_updateKey leaf _) (.pure ())

theorem keeps_unlinkNode (node : NodeId) : Keeps (Tracks start kept) (unlinkNode node) := by
  refine .bind (keeps_reading _) fun next => .bind (keeps_reading _) fun prev => ?_
  suffices relink : Keeps (Tracks start kept) _ from
    .ite (.bind (.attempt (keeps_reading _)) fun answer =>
      match answer with
      | none => .crash
      | some none => .crash
      | some (some parent) => .bind (keeps_reading _) fun _ =>
        .ite (.bind (keeps_txSetHeader _ parent) fun _ => relink) relink) relink
  cases next <;> cases prev <;> first
    | exact .pure ()
    | exact keeps_txSetHeader _ _
    | exact .bind (keeps_txSetHeader _ _) fun _ => .pure ()
    | exact .bind (keeps_txSetHeader _ _) fun _ => keeps_txSetHeader _ _

theorem keeps_markNodeDeleted (node : NodeId) :
    Keeps (Tracks start kept) (markNodeDeleted node) := by
  refine keeps_afterRequire (keeps_afterLoad fun content _ unborn => ?_)
  split
  · rename_i isNew
    exact .bind (keeps_unmarkModification node) fun _ => .bind (keeps_unlinkNode node) fun _ =>
      keeps_deleteNode (unborn isNew)
  · refine .bind (keeps_unlinkNode node) fun _ => .bind (keeps_update ?_) fun _ =>
      .bind (keeps_markModification (.inr rfl)) fun _ => keeps_update ?_
    · intro content
      simp_all
    · intro content
      simp_all

theorem keeps_borrowFromPrev (node minChildren spare numChildren : Nat)
    (lastPrevChild : Option NodeId) :
    Keeps (Tracks start kept)
      (borrowFromPrev node minChildren spare numChildren lastPrevChild) := by
  induction spare generalizing numChildren lastPrevChild with
  | zero => exact .pure _
  | succ spare ih =>
    refine .ite (.bind (.expect _) fun child => ?_) (.pure _)
    exact .bind (keeps_reading _) fun before => .bind (keeps_txSetHeader _ child) fun _ =>
      ih (numChildren + 1) before

theorem keeps_borrowFromNext (node minChildren spare numChildren : Nat)
    (firstNextChild : Option NodeId) :
    Keeps (Tracks start kept)
      (borrowFromNext node minChildren spare numChildren firstNextChild) := by
  induction spare generalizing numChildren firstNextChild with
  | zero => exact .pure _
  | succ spare ih =>
    refine .ite (.bind (.expect _) fun child => ?_) (.pure _)
    exact .bind (keeps_reading _) fun after => .bind (keeps_txSetHeader _ child) fun _ =>
      ih (numChildren + 1) after

theorem keeps_mergeBorrowPrev (prev : Option NodeId)
    (node minChildren sparePrev numChildren : Nat) (firstChild lastPrevChild : Option NodeId) :
    Keeps (Tracks start kept)
      (mergeBorrowPrev prev node minChildren sparePrev numChildren firstChild lastPrevChild) := by
  suffices rest : Keeps (Tracks start kept) _ from
    .ite (.bind (.expect _) fun last => .bind (keeps_txSetHeader _ last) fun _ =>
      match firstChild with
      | none => rest
      | some first => .bind (keeps_txSetHeader _ first) fun _ => rest) rest
  refine .bind (keeps_borrowFromPrev _ _ _ _ _) fun taken => .ite ?_ (.pure _)
  refine .bind (.expect _) fun last => .bind (keeps_reading _) fun prevNext => ?_
  refine .bind (keeps_txSetHeader _ node) fun _ => .bind (keeps_txSetHeader _ last) fun _ => ?_
  refine .bind (.expect _) fun first => .bind (keeps_txSetHeader _ first) fun _ => ?_
  refine .bind (.expect _) fun target => .bind (keeps_effectiveKeyOf last) fun key => ?_
  exact .bind (keeps_setNodeKeyToKeyAfter target key) fun _ => .pure _

theorem keeps_mergeBorrowNext (next : Option NodeId)
    (node minChildren spareNext numChildren : Nat) (lastChild firstNextChild : Option NodeId) :
    Keeps (Tracks start kept) (mergeBorrowNext next node minChildren spareNext numChildren lastChild
        firstNextChild) := by
  refine .ite ?_ (.pure ())
  have rest : Keeps (Tracks start kept) (do
      let first ← Machine.expect firstNextChild
      txSetPrevSibling first lastChild
      let rest ← borrowFromNext node minChildren spareNext numChildren firstNextChild
      let first ← Machine.expect rest
      let nextPrev ← txPrevSibling first
      let target ← Machine.expect next
      txSetFirstChild target (some first)
      let last ← Machine.expect nextPrev
      txSetNextSibling last none
      txSetPrevSibling first none
      setNodeKeyToKeyAfter node (← effectiveKeyOf last)) := by
    refine .bind (.expect _) fun first => .bind (keeps_txSetHeader _ first) fun _ => ?_
    refine .bind (keeps_borrowFromNext _ _ _ _ _) fun _ => .bind (.expect _) fun first => ?_
    refine .bind (keeps_reading _) fun nextPrev => .bind (.expect _) fun target => ?_
    refine .bind (keeps_txSetHeader _ target) fun _ => .bind (.expect _) fun last => ?_
    refine .bind (keeps_txSetHeader _ last) fun _ => .bind (keeps_txSetHeader _ first) fun _ => ?_
    exact .bind (keeps_effectiveKeyOf last) fun key => keeps_setNodeKeyToKeyAfter node key
  cases lastChild with
  | none => exact rest
  | some last => exact .bind (keeps_txSetHeader _ last) fun _ => rest

/-- A look at a sibling that is made only if there is a reason for it. -/
theorem keeps_optional {condition : Prop} [Decidable condition] {sibling : Option NodeId}
    {look : NodeId → TxM (Option NodeId)} {next : Option NodeId → TxM α}
    (first : ∀ node, Keeps (Tracks start kept) (look node))
    (second : ∀ found, Keeps (Tracks start kept) (next found)) :
    Keeps (Tracks start kept)
      (if condition then Machine.expect sibling >>= fun node => look node >>= next
        else next none) :=
  .ite (.bind (.expect _) fun node => .bind (first node) second) (second none)

theorem keeps_mergeBorrow (prev : Option NodeId) (node : NodeId) (next : Option NodeId)
    (sparePrev numChildren spareNext : Nat) :
    Keeps (Tracks start kept) (mergeBorrow prev node next sparePrev numChildren spareNext) := by
  refine .bind (keeps_reading _) fun firstChild => .bind (keeps_reading _) fun lastChild => ?_
  refine keeps_optional (fun _ => keeps_reading _) fun firstNextChild => ?_
  refine keeps_optional (fun _ => keeps_reading _) fun lastPrevChild => ?_
  exact .bind (keeps_load node) fun _ => .bind (keeps_mergeBorrowPrev _ _ _ _ _ _ _) fun _ =>
    keeps_mergeBorrowNext _ _ _ _ _ _ _

theorem keeps_distributeToPrev (prev : Option NodeId) (slots numChildren : Nat)
    (child lastPrevChild : Option NodeId) :
    Keeps (Tracks start kept) (distributeToPrev prev slots numChildren child lastPrevChild) := by
  induction slots generalizing numChildren child lastPrevChild with
  | zero => exact .pure _
  | succ slots ih =>
    cases numChildren with
    | zero => exact .pure _
    | succ numChildren =>
      refine .bind (.expect _) fun moved => .bind (keeps_reading _) fun childNext => ?_
      refine .bind (.expect _) fun last => .bind (keeps_txSetHeader _ last) fun _ => ?_
      refine .bind (keeps_txSetHeader _ moved) fun _ => ?_
      refine .bind (keeps_txSetHeader _ moved) fun _ => ?_
      refine .bind (keeps_txSetHeader _ moved) fun _ => ?_
      cases childNext with
      | none => exact ih numChildren none (some moved)
      | some after =>
        exact .bind (keeps_txSetHeader _ after) fun _ =>
          ih numChildren (some after) (some moved)

theorem keeps_distributeToNext (next firstNextChild : Option NodeId) (slots numChildren : Nat)
    (child : Option NodeId) :
    Keeps (Tracks start kept) (distributeToNext next firstNextChild slots numChildren child) := by
  induction slots generalizing numChildren child with
  | zero => exact .pure _
  | succ slots ih =>
    cases numChildren with
    | zero => exact .pure _
    | succ numChildren =>
      refine .bind (.expect _) fun moved => .bind (keeps_reading _) fun childNext => ?_
      refine .bind (keeps_txSetHeader _ moved) fun _ => .ite ?_ (ih numChildren childNext)
      exact .bind (keeps_txSetHeader _ moved) fun _ => .bind (.expect _) fun first =>
        .bind (keeps_txSetHeader _ first) fun _ => ih numChildren childNext

theorem keeps_mergeDistribute (prev : Option NodeId) (node : NodeId) (next : Option NodeId)
    (prevSlots numChildren nextSlots : Nat) :
    Keeps (Tracks start kept) (mergeDistribute prev node next prevSlots numChildren nextSlots) := by
  refine .bind (keeps_reading _) fun child => ?_
  refine keeps_optional (fun _ => keeps_reading _) fun lastPrevChild => ?_
  refine keeps_optional (fun _ => keeps_reading _) fun firstNext => ?_
  refine .bind (keeps_distributeToPrev _ _ _ _ _) fun moved => ?_
  obtain ⟨numChildren, child, lastPrevChild⟩ := moved
  suffices rest : Keeps (Tracks start kept) _ from
    match lastPrevChild with
    | none => rest
    | some last => .bind (.expect _) fun target => .bind (keeps_effectiveKeyOf last) fun key =>
      .bind (keeps_setNodeKeyToKeyAfter target key) fun _ => rest
  suffices finish : Keeps (Tracks start kept) _ from
    .ite (.bind (.expect _) fun target => .bind (keeps_txSetHeader _ target) fun _ => finish) finish
  exact .bind (keeps_distributeToNext _ _ _ _ _) fun _ => keeps_markNodeDeleted node

theorem keeps_adoptChildren (parent : NodeId) (bound : Nat) (child : Option NodeId) :
    Keeps (Tracks start kept) (adoptChildren parent bound child) := by
  induction bound generalizing child with
  | zero => cases child <;> first | exact .pure _ | exact .crash
  | succ bound ih =>
    cases child with
    | none => exact .pure _
    | some child =>
      exact .bind (.attempt (keeps_txSetHeader _ child)) fun _ =>
        .bind (keeps_reading _) fun after => ih after

theorem keeps_mergeOnlyChild (node parent : NodeId) :
    Keeps (Tracks start kept) (mergeOnlyChild node parent) := by
  refine .bind (.attempt (keeps_reading _)) fun child => ?_
  refine .bind (keeps_markNodeDeleted node) fun _ => ?_
  cases child with
  | none => exact .fail
  | some child =>
    exact .bind .get fun _ => .bind (keeps_adoptChildren parent _ child) fun _ =>
      keeps_txSetHeader _ parent

theorem keeps_countOf (sibling : Option NodeId) : Keeps (Tracks start kept) (countOf sibling) := by
  cases sibling with
  | none => exact .pure _
  | some sibling => exact keeps_reading fun bound => Reading.countChildren bound sibling

theorem keeps_roomOf (count : Nat) (sibling : Option NodeId) :
    Keeps (Tracks start kept) (roomOf count sibling) := by
  cases sibling with
  | none => exact .pure _
  | some sibling => exact .bind (keeps_load sibling) fun _ => .pure _

theorem keeps_merge (node numChildren : Nat) :
    Keeps (Tracks start kept) (merge node numChildren) := by
  refine .bind (keeps_load node) fun content => .bind (keeps_reading _) fun parent => ?_
  refine .bind (keeps_reading _) fun next => .bind (keeps_countOf next) fun numNext => ?_
  refine .bind (keeps_reading _) fun prev => .bind (keeps_countOf prev) fun numPrev => ?_
  split
  · exact keeps_mergeOnlyChild node _
  · exact .bind (keeps_roomOf _ _) fun _ => .bind (keeps_roomOf _ _) fun _ =>
      .ite (keeps_mergeBorrow _ _ _ _ _ _) (.ite (keeps_mergeDistribute _ _ _ _ _ _) .crash)

theorem keeps_maybeMergeLoop (bound : Nat) (node : NodeId) :
    Keeps (Tracks start kept) (maybeMergeLoop bound node) := by
  induction bound generalizing node with
  | zero => exact .crash
  | succ bound ih =>
    refine .bind (keeps_reading _) fun numChildren => .bind (keeps_load node) fun _ => ?_
    refine .ite (.bind (keeps_reading _) fun parent => ?_) (.pure ())
    cases parent with
    | none => exact .pure ()
    | some parent => exact .bind (keeps_merge node numChildren) fun _ => ih parent

theorem keeps_maybeMerge (node : NodeId) : Keeps (Tracks start kept) (maybeMerge node) :=
  .bind .get fun _ => keeps_maybeMergeLoop _ node

theorem keeps_findSplitPoint (steps : Nat) (preSplitPoint splitPoint : Option NodeId) :
    Keeps (Tracks start kept) (findSplitPoint steps preSplitPoint splitPoint) := by
  induction steps generalizing preSplitPoint splitPoint with
  | zero => exact .pure _
  | succ steps ih =>
    exact .bind (.expect _) fun point => .bind (keeps_reading _) fun after => ih _ after

theorem keeps_moveToNewNode (newNode : NodeId) (bound : Nat)
    (preSplitPoint splitPoint : Option NodeId) :
    Keeps (Tracks start kept) (moveToNewNode newNode bound preSplitPoint splitPoint) := by
  induction bound generalizing preSplitPoint splitPoint with
  | zero => cases splitPoint <;> first | exact .pure _ | exact .crash
  | succ bound ih =>
    cases splitPoint with
    | none => exact .pure _
    | some point =>
      exact .bind (keeps_txSetHeader _ point) fun _ => .bind (keeps_reading _) fun after =>
        ih _ after

theorem keeps_split (node : NodeId) (leafParent : Bool) :
    Keeps (Tracks start kept) (split node leafParent) := by
  suffices filled : ∀ newNode, Keeps (Tracks start kept) _ from
    .ite (keeps_afterCreate fun newNode _ => filled newNode)
      (keeps_afterCreate fun newNode _ => filled newNode)
  intro newNode
  refine .bind (keeps_requireLock newNode true) fun _ => ?_
  refine .bind (keeps_reading _) fun next => .bind (keeps_reading _) fun parent => ?_
  refine .bind (keeps_reading _) fun firstChild => .bind (keeps_load node) fun content => ?_
  refine .bind (keeps_findSplitPoint _ _ _) fun points => .bind (.expect _) fun last => ?_
  refine .bind (keeps_effectiveKeyOf last) fun key => ?_
  refine .bind (keeps_setNodeKeyToKeyAfter node key) fun _ => ?_
  refine .bind (keeps_txSetHeader _ last) fun _ => .bind (.expect _) fun first => ?_
  refine .bind (keeps_txSetHeader _ first) fun _ => ?_
  refine .bind (keeps_txSetHeader _ newNode) fun _ => ?_
  refine .bind (keeps_txSetHeader _ newNode) fun _ => ?_
  refine .bind (keeps_txSetHeader _ node) fun _ => ?_
  refine .bind (keeps_txSetHeader _ newNode) fun _ => ?_
  refine .bind (keeps_txSetHeader _ newNode) fun _ => ?_
  suffices finish : Keeps (Tracks start kept) _ from
    match next with
    | none => finish
    | some after => .bind (keeps_txSetHeader _ after) fun _ => finish
  exact .bind .get fun _ => .bind (keeps_moveToNewNode _ _ _ _) fun _ =>
    .bind (.expect _) fun last => .bind (keeps_effectiveKeyOf last) fun _ =>
      .bind (keeps_setNodeKeyToKeyAfter newNode _) fun _ => .pure newNode

theorem keeps_growRoot (node newNode : NodeId) :
    Keeps (Tracks start kept) (growRoot node newNode) := by
  refine keeps_afterCreate fun parent _ => ?_
  refine .bind (keeps_requireLock parent true) fun _ => ?_
  refine .bind (keeps_update ?_) fun _ => ?_
  · intro content
    simp_all
  refine .bind (keeps_txSetHeader _ parent) fun _ => .bind (keeps_txSetHeader _ node) fun _ => ?_
  exact .bind (keeps_txSetHeader _ newNode) fun _ => .bind (keeps_txSetRoot parent) fun _ =>
    keeps_maybeMerge node

theorem keeps_maybeSplitLoop (bound : Nat) (node : NodeId) (leafParent : Bool) :
    Keeps (Tracks start kept) (maybeSplitLoop bound node leafParent) := by
  induction bound generalizing node leafParent with
  | zero => exact .crash
  | succ bound ih =>
    refine .bind (keeps_reading _) fun _ => .bind (keeps_load node) fun _ => .ite ?_ (.pure ())
    refine .bind (keeps_reading _) fun parent => .bind (keeps_split node leafParent) ?_
    intro newNode
    cases parent with
    | none => exact keeps_growRoot node newNode
    | some parent => exact ih parent false

theorem keeps_maybeSplit (node : NodeId) : Keeps (Tracks start kept) (maybeSplit node) :=
  .bind .get fun _ => keeps_maybeSplitLoop _ node true

theorem keeps_linkFirstLeaf (parent newChild : NodeId) :
    Keeps (Tracks start kept) (linkFirstLeaf parent newChild) :=
  .bind (keeps_reading _) fun _ => .ite
    (.bind (keeps_txSetHeader _ newChild) fun _ => .bind .crash fun _ =>
      keeps_txSetHeader _ parent)
    (keeps_txSetHeader _ parent)

theorem keeps_wrapLeaf (parent prev newChild : NodeId) :
    Keeps (Tracks start kept) (wrapLeaf parent prev newChild) := by
  refine .bind (keeps_load prev) fun _ => .ite ?_ (.pure _)
  refine keeps_afterCreate fun interstitial _ => ?_
  refine .bind (keeps_requireLock interstitial true) ?_
  exact fun _ => .bind (.attempt (keeps_txSetHeader _ interstitial)) fun _ =>
    .bind (.attempt (keeps_txSetHeader _ newChild)) fun _ => .pure _

theorem keeps_linkLeafAfter (parent prev newChild : NodeId) :
    Keeps (Tracks start kept) (linkLeafAfter parent prev newChild) := by
  refine .bind (.attempt (keeps_reading _)) fun next => ?_
  refine .bind (keeps_wrapLeaf parent prev newChild) fun placed => ?_
  obtain ⟨newSibling, needsMerge⟩ := placed
  suffices finish : Keeps (Tracks start kept) _ from
    match next with
    | none => .bind .fail fun _ => finish
    | some none => finish
    | some (some after) => .bind (keeps_txSetHeader _ newSibling) fun _ =>
      .bind (keeps_txSetHeader _ after) fun _ => finish
  exact .bind (keeps_txSetHeader _ prev) fun _ => .bind (keeps_txSetHeader _ newSibling) fun _ =>
    .ite (.bind (keeps_merge newSibling 1) fun _ => keeps_maybeMerge parent) (.pure ())

theorem keeps_insertLeafWithRecord (parent : NodeId) (after : Option NodeId) (record : Record) :
    Keeps (Tracks start kept) (insertLeafWithRecord parent after record) := by
  refine keeps_afterCreate fun newChild unborn => keeps_afterRequire ?_
  suffices placed : ∀ prev, Keeps (Tracks start (alsoKept kept newChild)) _ from
    match after with
    | some sibling => placed (some sibling)
    | none => .bind (keeps_reading _) fun prev => placed prev
  intro prev
  suffices filled : Keeps (Tracks start (alsoKept kept newChild)) _ from
    match prev with
    | none => .bind (keeps_linkFirstLeaf parent newChild) fun _ => filled
    | some prev => .bind (keeps_linkLeafAfter parent prev newChild) fun _ => filled
  refine .bind (keeps_markModification (.inr rfl)) fun _ => .bind (keeps_update ?_) fun _ => ?_
  · intro content
    exact ⟨rfl, fun born => absurd unborn born, fun _ header key page => ⟨header, key, page⟩⟩
  · exact .bind (keeps_insertPageRecord newChild 0 record) fun _ =>
      .bind (keeps_maybeSplit parent) fun _ => .pure newChild

theorem keeps_moveRecords (node newLeaf : NodeId) (offset bound : Nat) :
    Keeps (Tracks start kept) (moveRecords node newLeaf offset bound) := by
  induction bound with
  | zero => exact .pure ()
  | succ bound ih =>
    refine .bind (keeps_writerPageOf node) fun page => ?_
    cases page[offset]? with
    | none => exact .pure ()
    | some record =>
      exact .bind (keeps_writerPageOf newLeaf) fun _ =>
        .bind (keeps_insertPageRecord newLeaf _ record) fun _ =>
          .bind (keeps_removePageRecord node offset) fun _ => ih

theorem keeps_splitPage (newParent node : NodeId) (offset : Nat) (record : Record) :
    Keeps (Tracks start kept) (splitPage newParent node offset record) :=
  .bind (keeps_insertLeafWithRecord newParent _ record) fun newLeaf =>
    .bind (keeps_removePageRecord node offset) fun _ => .bind (keeps_writerPageOf node) fun _ =>
      keeps_moveRecords node newLeaf offset _

theorem keeps_putInternal (node : NodeId) (record : Record) :
    Keeps (Tracks start kept) (putInternal node record) := by
  refine .bind (keeps_update tame_preparePage) fun _ => .bind (keeps_writerPageOf node) ?_
  intro before
  suffices placed : Keeps (Tracks start kept) _ from
    .ite (.bind (keeps_removePageRecord node _) fun _ => placed) placed
  refine .bind (keeps_writerPageOf node) fun page => .ite (keeps_insertPageRecord node _ _) ?_
  refine .bind (keeps_reading _) fun _ => .bind (.expect _) fun newParent => ?_
  suffices remainder : Keeps (Tracks start kept) _ from
    match page[pageKeyOffset before record.key]? with
    | none => remainder
    | some following => .bind (keeps_splitPage newParent node _ following) fun _ => remainder
  refine .bind (keeps_writerPageOf node) fun _ => .ite (keeps_insertPageRecord node _ _) ?_
  exact .bind (keeps_reading _) fun _ => .bind (.expect _) fun _ =>
    .bind (keeps_insertLeafWithRecord _ _ record) fun _ => .pure ()

theorem keeps_answer : Keeps (Tracks start kept) answer :=
  .bind .get fun _ => .bind (.modify fun _ tracks => { tracks with }) fun _ => .pure _

theorem keeps_checkTx : Keeps (Tracks start kept) checkTx :=
  .bind .get fun _ => .ite (.pure _) (.bind keeps_answer fun _ =>
    .ite (.bind (.modify fun _ tracks => { tracks with }) fun _ => .pure _) (.pure _))

theorem keeps_markForRollback : Keeps (Tracks start kept) markForRollback :=
  .modify fun _ tracks => { tracks with }

theorem keeps_transactionPut (key value : Bytes) :
    Keeps (Tracks start kept) (transactionPut key value) := by
  have body : Keeps (Tracks start kept) (putRecord ⟨key, value⟩) :=
    .bind (keeps_reading _) fun node => .bind (keeps_requireLock node true) fun _ =>
      .bind (keeps_load node) fun _ => .ite (keeps_putInternal node _)
        (.bind (keeps_insertLeafWithRecord node none _) fun _ => .pure ())
  exact .bind keeps_checkTx fun _ => .ite
    (.bind (.attempt body) fun _ => .ite keeps_markForRollback (.pure ())) (.pure ())

theorem keeps_removeLeaf (node : NodeId) : Keeps (Tracks start kept) (removeLeaf node) :=
  .bind (keeps_reading _) fun _ => .bind (keeps_markNodeDeleted node) fun _ =>
    .bind (.expect _) fun parent => keeps_maybeMerge parent

theorem keeps_transactionDelete (key : Bytes) :
    Keeps (Tracks start kept) (transactionDelete key) := by
  have body : Keeps (Tracks start kept) (deleteRecord key) := by
    refine .bind (keeps_reading _) fun node => .bind (keeps_requireLock node true) fun _ => ?_
    refine .bind (keeps_update tame_preparePage) fun _ => .bind (keeps_load node) fun content => ?_
    split
    · exact .pure _
    · refine .ite (.pure _) (.bind (keeps_removePageRecord node _) fun _ => ?_)
      exact .bind (keeps_writerPageOf node) fun _ =>
        .ite (.bind (keeps_removeLeaf node) fun _ => .pure _) (.pure _)
  refine .bind keeps_checkTx fun _ => .ite (.bind (.attempt body) fun outcome => ?_) (.pure _)
  cases outcome with
  | some result => exact .pure result
  | none => exact .bind keeps_markForRollback fun _ => .pure _

theorem keeps_transactionGet (key : Bytes) (forUpdate : Bool) :
    Keeps (Tracks start kept) (transactionGet key forUpdate) := by
  have body : Keeps (Tracks start kept) (getInternal key forUpdate) :=
    .bind (keeps_reading _) fun node => .ite
      (.bind (keeps_requireLock node true) fun _ => keeps_reading _) (keeps_reading _)
  refine .bind keeps_checkTx fun _ => .ite (.bind (.attempt body) fun outcome => ?_) (.pure _)
  cases outcome with
  | some result => exact .pure result
  | none => exact .bind keeps_markForRollback fun _ => .pure _

end Gzochi.Btree
