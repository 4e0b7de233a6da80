import Gzochi.Btree.SingleLeaf

/-!
# The calls on a tree of a single leaf

What each call makes of the layout.  A call that fails leaves a layout behind in which the
committed leaf is the same, and so does one that cannot get a lock.
-/

namespace Gzochi.Btree

open Lib Machine Program Reading

variable {root id leaf : NodeId} {store after : Store} {content rootContent : BtreeNode}
  {old current : Option (NodeId × Page)} {before : Option Page} {page : Page}
  {fails : Store → Prop} {post : Unit → Store → Prop}

/-- The page after the record has been put on it. -/
def withRecord (page : Page) (record : Record) : Page :=
  (otherRecords record.key page).insertIdx (pageKeyOffset page record.key) record

/-- `put_internal` where the record fits. -/
theorem SingleLeaf.ends_putInternal (single : SingleLeaf root old (some (leaf, page)) store)
    (held : leaf ∈ store.writeLocks) (rootHeld : store.Holds root) (ascending : Ascending page)
    (record : Record)
    (fits : pageSize (otherRecords record.key page) + record.size ≤ maxPageSize)
    (done : ∀ after, SingleLeaf root old (some (leaf, withRecord page record)) after →
      Kept store after → post () after) :
    Ends (putInternal leaf record) post fails store := by
  have insert : ∀ (otherwise : Page → TxM Unit) middle,
      SingleLeaf root old (some (leaf, otherRecords record.key page)) middle →
      Kept store middle → middle.WriterPage leaf (otherRecords record.key page) →
      Ends (writerPageOf leaf >>= fun remaining =>
        if pageSize remaining + record.size ≤ maxPageSize then
          insertPageRecord leaf (pageKeyOffset page record.key) record
        else otherwise remaining) post fails middle := by
    intro otherwise middle there kept writes
    rw [ends_bind, ends_writerPageOf]
    refine ⟨_, writes, ?_⟩
    rw [if_pos fits]
    apply there.ends_insertPageRecord (kept.writeLocks leaf held) (kept.holds root rootHeld) _ _
      fits
    intro after inserted more
    exact done after inserted (kept.trans more)
  rw [putInternal, ends_bind]
  apply single.ends_preparePage
  intro prepared ready kept writes
  rw [ends_bind, ends_writerPageOf]
  refine ⟨page, writes, ?_⟩
  dsimp only
  split
  next found =>
    rw [ends_bind]
    apply ready.ends_removePageRecord (kept.writeLocks leaf held) (kept.holds root rootHeld) _
      (pageKeyOffset_lt_length found)
    rw [eraseIdx_pageKeyOffset ascending found]
    intro removed there more writes
    exact insert _ removed there (kept.trans more) writes
  next missing =>
    have same := otherRecords_of_missing ascending missing
    exact insert _ prepared (same.symm ▸ ready) kept (same.symm ▸ writes)

/-- A prepared header is the one there was. -/
theorem SingleLeaf.prepareRoot (single : SingleLeaf root old current store)
    (isRoot : IsRoot (old.map Prod.fst) (current.map Prod.fst) content) :
    SingleLeaf root old current (store.setNode root (some content.prepareHeader)) :=
  { single with
    rootThere := ⟨_, setNode_self, isRoot.prepareHeader⟩
    leafThere := by
      intro leaf page same
      obtain ⟨apart, below, there⟩ := single.leafThere leaf page same
      exact ⟨apart, below, (setNode_other apart).symm ▸ there⟩
    oldThere := by
      intro leaf page same
      obtain ⟨apart, below, there⟩ := single.oldThere leaf page same
      exact ⟨apart, below, (setNode_other apart).symm ▸ there⟩ }

/-- The root has been written and is on the list. -/
structure Rerooted (root : NodeId) (content : BtreeNode) (store after : Store) : Prop where
  node : after.node = (store.setNode root (some content)).node
  fresh : after.fresh = store.fresh
  rootIs : after.root = store.root
  newRoot : after.newRoot = store.newRoot
  loopBound : after.loopBound = store.loopBound
  modifications : after.modifications = (store.marked root).modifications
  kept : Kept store after
  locked : root ∈ after.writeLocks

variable {committed child : Option NodeId}

/-- `tx_set_first_child` on the root.  The header is prepared before the lock is asked
for, which may still be refused. -/
theorem ends_txSetFirstChild {target : Option NodeId} (present : store.node root = some content)
    (isRoot : IsRoot committed child content)
    (granted : ∀ after rootContent, IsRoot committed target rootContent →
      Rerooted root rootContent store after → post () after)
    (refused : ∀ after, Relocked (store.setNode root (some content.prepareHeader)) after →
      store.Refused → root ∉ store.writeLocks → fails after) :
    Ends (txSetFirstChild root target) post fails store := by
  rw [txSetFirstChild, txSetHeader, ends_bind, ends_update]
  refine ⟨content, present, ?_⟩
  rw [ends_bind]
  apply ends_requireLock (by simp [setNode_self])
  · intro locked grown held
    simp only [ends_bind, ends_update, ends_markModification]
    refine ⟨content.prepareHeader, by rw [grown.node, setNode_self], ?_⟩
    exact granted _ _ isRoot.setFirstChild {
      node := by
        simp only [Store.marked, Store.setNode, grown.node]
        funext other
        split <;> rfl
      fresh := grown.fresh
      rootIs := grown.root
      newRoot := grown.newRoot
      loopBound := grown.loopBound
      modifications := by
        simp only [Store.marked, Store.setNode, grown.modifications]
      kept := (kept_setNode.trans grown.kept).trans (kept_setNode.trans kept_marked)
      locked := held }
  · intro after relocked refusal missing
    exact refused after relocked refusal missing

/-- The child of a root, which is locked already. -/
theorem txFirstChild_isRoot (present : store.node root = some content)
    (isRoot : IsRoot committed child content)
    (held : ∀ id, child = some id → store.node id ≠ none ∧ store.Holds id) :
    (Reading.txFirstChild root).run Look.handle store = .ok child store := by
  rw [Reading.txFirstChild, run_bind, run_perform, bind_apply, handle_view present]
  simp only [isRoot.view_header]
  exact follow_held held

variable (single : SingleLeaf root old current store)
include single

variable (held : ∀ leaf page, current = some (leaf, page) → store.Holds leaf)
include held

theorem SingleLeaf.txFirstChild_root :
    (Reading.txFirstChild root).run Look.handle store = .ok (current.map Prod.fst) store := by
  obtain ⟨content, present, isRoot⟩ := single.rootThere
  apply txFirstChild_isRoot present isRoot
  intro id same
  cases current with
  | none => cases same
  | some found =>
    obtain ⟨leaf, page⟩ := found
    cases same
    obtain ⟨_, _, leafContent, there, _⟩ := single.leafThere leaf page rfl
    exact ⟨by simp [there], held leaf page rfl⟩

/-- `count_children` of the root. -/
theorem SingleLeaf.countChildren_root :
    countChildren root store = .ok current.toList.length store := by
  have first := single.txFirstChild_root held
  obtain ⟨bound, rounds⟩ := Nat.exists_eq_add_of_le single.loopBound
  have counted : countChildren root store =
      (countSiblings store.loopBound (current.map Prod.fst) 0).run Look.handle store := by
    simp only [countChildren, reading, bind_apply, Machine.get, Reading.countChildren,
      run_bind, first]
  rw [counted]
  cases current with
  | none => simp [countSiblings]
  | some found =>
    obtain ⟨leaf, page⟩ := found
    obtain ⟨_, _, content, present, isLeaf⟩ := single.leafThere leaf page rfl
    rw [rounds, Nat.add_comm 2 bound, Option.map_some, countSiblings, run_bind,
      bind_apply, Reading.txNextSibling, run_bind, run_perform, bind_apply,
      handle_view present]
    simp [isLeaf.view_header, follow, countSiblings]

/-- A root with one child has not too many. -/
theorem SingleLeaf.maybeSplit_root : maybeSplit root store = .ok () store := by
  obtain ⟨content, present, isRoot⟩ := single.rootThere
  obtain ⟨bound, rounds⟩ := Nat.exists_eq_add_of_le single.loopBound
  have few : ¬content.maxChildren < current.toList.length := by
    rw [isRoot.maxChildren]
    cases current <;> simp [branchingFactor]
  simp only [maybeSplit, bind_apply, Machine.get]
  rw [rounds, Nat.add_comm 2 bound, maybeSplitLoop]
  simp [single.countChildren_root held, load, Machine.get, Machine.expect, present, few]

omit held single

/-- And a root without children is not merged. -/
theorem SingleLeaf.maybeMerge_root (single : SingleLeaf root old none store) :
    maybeMerge root store = .ok () store := by
  obtain ⟨content, present, isRoot⟩ := single.rootThere
  obtain ⟨bound, rounds⟩ := Nat.exists_eq_add_of_le single.loopBound
  have parent : txParent root store = .ok none store := by
    rw [txParent, reading]
    simp only [bind_apply, Machine.get, Reading.txParent, run_bind, run_perform,
      handle_view present, isRoot.view_header]
    rfl
  simp only [maybeMerge, bind_apply, Machine.get]
  rw [rounds, Nat.add_comm 2 bound, maybeMergeLoop]
  simp [single.countChildren_root (by simp), load, Machine.get, Machine.expect, present,
    isRoot.minChildren, parent]

/-- What `create_lockable_btree_node` creates for a leaf. -/
def newLeaf (root : NodeId) : BtreeNode :=
  { header := ⟨some root, none, none, none⟩, newHeader := none, minChildren := 0, maxChildren := 0
    isNew := true, isDeleted := false, key := none, newKey := none, page := none, newPage := none }

def Store.withNewLeaf (store : Store) (root : NodeId) : Store :=
  { store.setNode store.fresh (some (newLeaf root)) with fresh := store.fresh + 1 }

theorem createLeaf_eq (root : NodeId) (store : Store) :
    createLockableBtreeNode (some root) 0 0 store = .ok store.fresh (store.withNewLeaf root) := rfl

/-- A node that nothing points to does not matter. -/
theorem SingleLeaf.withNewLeaf (single : SingleLeaf root old current store) :
    SingleLeaf root old current (store.withNewLeaf root) := by
  have stays : ∀ other < store.fresh, (store.withNewLeaf root).node other = store.node other :=
    fun other below => setNode_other (Nat.ne_of_lt below)
  exact { single with
    below := Nat.lt_succ_of_lt single.below
    rootThere := by
      rw [stays root single.below]
      exact single.rootThere
    leafThere := by
      intro leaf page same
      obtain ⟨apart, below, there⟩ := single.leafThere leaf page same
      rw [stays leaf below]
      exact ⟨apart, Nat.lt_succ_of_lt below, there⟩
    oldThere := by
      intro leaf page same
      obtain ⟨apart, below, there⟩ := single.oldThere leaf page same
      rw [stays leaf below]
      exact ⟨apart, Nat.lt_succ_of_lt below, there⟩ }

theorem pageBefore_fresh (single : SingleLeaf root old current store) :
    pageBefore old store.fresh = none := by
  cases old with
  | none => rfl
  | some committed =>
    obtain ⟨leaf, page⟩ := committed
    obtain ⟨_, below, _⟩ := single.oldThere leaf page rfl
    exact if_neg (Nat.ne_of_lt below)

theorem isLeaf_newLeaf (page : Page) :
    IsLeaf root none page { newLeaf root with page := some page } :=
  ⟨rfl, rfl, rfl, rfl, nofun, rfl, fun _ => ⟨rfl, rfl⟩⟩

/-- A new leaf becomes the child of the root. -/
theorem SingleLeaf.link (single : SingleLeaf root old none store)
    (apart : leaf ≠ root) (below : leaf < store.fresh) (new : pageBefore old leaf = none)
    (held : leaf ∈ store.writeLocks)
    (isRoot : IsRoot (old.map Prod.fst) (some leaf) rootContent)
    (rerooted : Rerooted root rootContent store after) (isLeaf : IsLeaf root none page content) :
    SingleLeaf root old (some (leaf, page)) ((after.marked leaf).setNode leaf (some content)) := by
  have listed : ∀ id, id ∈ (after.marked leaf).modifications ↔
      id = leaf ∨ id = root ∨ id ∈ store.modifications := by
    intro id
    rw [mem_marked, rerooted.modifications, mem_marked]
  have other : ∀ committed page, old = some (committed, page) → committed ≠ leaf := by
    rintro committed page rfl same
    rw [pageBefore, if_pos same] at new
    cases new
  exact {
    rootIs := rerooted.rootIs.trans single.rootIs
    newRoot := rerooted.newRoot.trans single.newRoot
    loopBound := le_of_le_of_eq single.loopBound rerooted.loopBound.symm
    below := lt_of_lt_of_eq single.below rerooted.fresh.symm
    rootThere := by
      refine ⟨rootContent, ?_, isRoot⟩
      rw [setNode_other apart.symm]
      exact rerooted.node ▸ setNode_self
    leafThere := by
      rintro other page' same
      cases same
      refine ⟨apart, lt_of_lt_of_eq below rerooted.fresh.symm, content, setNode_self, ?_⟩
      rw [new]
      exact isLeaf
    oldThere := by
      intro committed page' same
      obtain ⟨different, under, there⟩ := single.oldThere committed page' same
      refine ⟨different, lt_of_lt_of_eq under rerooted.fresh.symm, .inr ?_⟩
      rcases there with absurd | ⟨removed, present, isRemoved⟩
      · cases absurd
      · refine ⟨removed, ?_, isRemoved⟩
        rw [setNode_other (other committed page' same)]
        exact rerooted.node ▸ (setNode_other different).trans present
    rootListed := fun _ => (listed root).mpr (.inr (.inl rfl))
    leafListed := by
      rintro other page' same _
      injection same with same
      injection same with same _
      exact (listed other).mpr (.inl same.symm)
    removedListed := by
      intro committed page' same _
      exact (listed committed).mpr (.inr (.inr (single.removedListed committed page' same nofun)))
    listed := by
      intro id member
      rcases (listed id).mp member with same | same | member
      · exact .inr (.inl (congrArg some same.symm))
      · exact .inl same
      · rcases single.listed id member with same | absurd | same
        · exact .inl same
        · cases absurd
        · exact .inr (.inr same)
    nodup := nodup_marked (rerooted.modifications ▸ nodup_marked single.nodup)
    locked := by
      intro id member
      rcases (listed id).mp member with same | same | member
      · exact same ▸ rerooted.kept.writeLocks leaf held
      · exact same ▸ rerooted.locked
      · exact rerooted.kept.writeLocks id (single.locked id member) }

theorem kept_withNewLeaf : Kept store (store.withNewLeaf root) :=
  ⟨rfl, rfl, fun _ held => held, fun _ held => held⟩

/-- `insert_leaf_with_record` in an empty tree. -/
theorem SingleLeaf.ends_insertFirstLeaf (single : SingleLeaf root old none store)
    (held : root ∈ store.writeLocks) (record : Record) (fits : record.size ≤ maxPageSize)
    {post : NodeId → Store → Prop}
    (done : ∀ leaf after, SingleLeaf root old (some (leaf, [record])) after → Kept store after →
      post leaf after)
    (refused : ∀ after, SingleLeaf root old none after → store.Refused → fails after) :
    Ends (insertLeafWithRecord root none record) post fails store := by
  have apart : store.fresh ≠ root := (Nat.ne_of_lt single.below).symm
  have created : SingleLeaf root old none (store.withNewLeaf root) := single.withNewLeaf
  rw [insertLeafWithRecord, ends_bind]
  apply ends_of_ok (createLeaf_eq root store)
  rw [ends_bind]
  apply ends_requireLock (by simp [Store.withNewLeaf, setNode_self])
  · intro locked grown leafHeld
    have there : SingleLeaf root old none locked := created.relocked grown.toRelocked
    have rootHeld : root ∈ locked.writeLocks := grown.writeLocks root held
    have noChild : txFirstChild root locked = .ok none locked := by
      simp only [txFirstChild, reading, bind_apply, Machine.get, there.txFirstChild_root (by simp),
        Option.map_none]
    have noLast : txLastChild root locked = .ok none locked := by
      simp only [txLastChild, reading, bind_apply, Machine.get, Reading.txLastChild,
        run_bind, there.txFirstChild_root (by simp), Option.map_none, run_pure,
        pure_apply]
    obtain ⟨content, present, isRoot⟩ := there.rootThere
    dsimp only
    rw [ends_bind]
    apply ends_of_ok noLast
    dsimp only
    rw [ends_bind, linkFirstLeaf, ends_bind]
    apply ends_of_ok noChild
    rw [if_neg (by simp)]
    apply ends_txSetFirstChild present isRoot
    · intro linked rootContent isLinked rerooted
      have fresh : linked.node store.fresh = some (newLeaf root) := by
        rw [rerooted.node, setNode_other apart, grown.node]
        exact setNode_self
      have leaf : SingleLeaf root old (some (store.fresh, [])) ((linked.marked store.fresh).setNode
          store.fresh (some { newLeaf root with page := some [] })) :=
        there.link apart (lt_of_lt_of_eq (Nat.lt_succ_self _) grown.fresh.symm)
          (pageBefore_fresh single) leafHeld isLinked rerooted (isLeaf_newLeaf [])
      have stays : Kept store ((linked.marked store.fresh).setNode store.fresh
          (some { newLeaf root with page := some [] })) :=
        (kept_withNewLeaf.trans grown.kept).trans
          (rerooted.kept.trans (kept_marked.trans kept_setNode))
      rw [ends_bind, ends_markModification, ends_bind, ends_update]
      refine ⟨newLeaf root, fresh, ?_⟩
      rw [ends_bind]
      apply leaf.ends_insertPageRecord (rerooted.kept.writeLocks _ leafHeld) (.inl rerooted.locked)
        0 record (by simpa [pageSize] using fits)
      intro after inserted kept
      rw [ends_bind]
      apply ends_of_ok (inserted.maybeSplit_root ?_)
      · exact done _ after inserted (stays.trans kept)
      · rintro leaf page same
        cases same
        exact .inl (kept.writeLocks _ (rerooted.kept.writeLocks _ leafHeld))
    · intro after relocked refusal _
      exact refused after ((there.prepareRoot isRoot).relocked relocked) (grown.refused.mp refusal)
  · intro after relocked refusal _
    exact refused after (created.relocked relocked) refusal

/-- `unlink_node` for the child of the root. -/
theorem ends_unlinkNode (leafPresent : store.node leaf = some content)
    (isLeaf : IsLeaf root before page content) (rootPresent : store.node root = some rootContent)
    (isRoot : IsRoot committed (some leaf) rootContent) (rootHeld : store.Holds root)
    (leafHeld : store.Holds leaf) (granted : ∀ after unlinked, IsRoot committed none unlinked →
      Rerooted root unlinked store after → post () after)
    (refused : ∀ after, Relocked (store.setNode root (some rootContent.prepareHeader)) after →
      store.Refused → root ∉ store.writeLocks → fails after) :
    Ends (unlinkNode leaf) post fails store := by
  have noNext : txNextSibling leaf store = .ok none store := by
    simp only [txNextSibling, reading, bind_apply, Machine.get, Reading.txNextSibling,
      run_bind, run_perform, handle_view leafPresent,
      isLeaf.view_header]
    rfl
  have noPrev : txPrevSibling leaf store = .ok none store := by
    simp only [txPrevSibling, reading, bind_apply, Machine.get, Reading.txPrevSibling,
      run_bind, run_perform, handle_view leafPresent,
      isLeaf.view_header]
    rfl
  have child : txFirstChild root store = .ok (some leaf) store := by
    simp only [txFirstChild, reading, bind_apply, Machine.get]
    apply txFirstChild_isRoot rootPresent isRoot
    rintro id same
    cases same
    exact ⟨by simp [leafPresent], leafHeld⟩
  rw [unlinkNode, ends_bind]
  apply ends_of_ok noNext
  rw [ends_bind]
  apply ends_of_ok noPrev
  simp only [if_true, ends_bind, ends_attempt]
  apply ends_of_ok (txParent_leaf leafPresent isLeaf rootPresent rootHeld)
  rw [ends_bind]
  apply ends_of_ok child
  simp only [if_true, ends_bind]
  apply ends_txSetFirstChild rootPresent isRoot
  · intro after unlinked isUnlinked rerooted
    exact granted after unlinked isUnlinked rerooted
  · intro after relocked refusal missing
    exact refused after relocked refusal missing

/-- After a leaf of its own has gone, the transaction sees an empty tree. -/
theorem SingleLeaf.unlinkNew (single : SingleLeaf root old (some (leaf, page)) store)
    (new : pageBefore old leaf = none)
    (isRoot : IsRoot (old.map Prod.fst) none rootContent)
    (rerooted : Rerooted root rootContent
      { store with modifications := store.modifications.erase leaf } after) :
    SingleLeaf root old none
      { after.setNode leaf none with writeLocks := after.writeLocks.erase leaf } := by
  obtain ⟨apart, below, _⟩ := single.leafThere leaf page rfl
  have other : ∀ committed page, old = some (committed, page) → committed ≠ leaf := by
    rintro committed page rfl same
    rw [pageBefore, if_pos same] at new
    cases new
  have listed : ∀ id, id ∈ after.modifications ↔
      id = root ∨ id ≠ leaf ∧ id ∈ store.modifications := by
    intro id
    rw [rerooted.modifications, mem_marked, single.nodup.mem_erase_iff]
  exact {
    rootIs := rerooted.rootIs.trans single.rootIs
    newRoot := rerooted.newRoot.trans single.newRoot
    loopBound := le_of_le_of_eq single.loopBound rerooted.loopBound.symm
    below := lt_of_lt_of_eq single.below rerooted.fresh.symm
    rootThere := by
      refine ⟨rootContent, ?_, isRoot⟩
      exact (setNode_other apart.symm).trans (rerooted.node ▸ setNode_self)
    leafThere := nofun
    oldThere := by
      intro committed page' same
      obtain ⟨different, under, there⟩ := single.oldThere committed page' same
      refine ⟨different, lt_of_lt_of_eq under rerooted.fresh.symm, .inr ?_⟩
      rcases there with same' | ⟨removed, present, isRemoved⟩
      · injection same' with same'
        exact absurd same'.symm (other committed page' same)
      · refine ⟨removed, (setNode_other (other committed page' same)).trans ?_, isRemoved⟩
        exact rerooted.node ▸ (setNode_other different).trans present
    rootListed := fun _ => (listed root).mpr (.inl rfl)
    leafListed := nofun
    removedListed := by
      intro committed page' same _
      have different := other committed page' same
      refine (listed committed).mpr (.inr ⟨different, ?_⟩)
      apply single.removedListed committed page' same
      intro absurd
      injection absurd with same'
      exact different same'.symm
    listed := by
      intro id member
      rcases (listed id).mp member with same | ⟨different, member⟩
      · exact .inl same
      · rcases single.listed id member with same | same | same
        · exact .inl same
        · injection same with same
          exact absurd same.symm different
        · exact .inr (.inr same)
    nodup := by
      have unlisted : ({ store with modifications := store.modifications.erase leaf } :
          Store).modifications.Nodup := single.nodup.erase leaf
      exact rerooted.modifications ▸ nodup_marked unlisted
    locked := by
      intro id member
      rcases (listed id).mp member with same | ⟨different, member⟩
      · rw [same]
        exact (List.mem_erase_of_ne apart.symm).mpr rerooted.locked
      · exact (List.mem_erase_of_ne different).mpr
          (rerooted.kept.writeLocks id (single.locked id member)) }

/-- After the committed leaf has been removed, the transaction sees an empty tree. -/
theorem SingleLeaf.unlinkOld {committed : Page}
    (single : SingleLeaf root (some (leaf, committed)) (some (leaf, page)) store)
    (held : leaf ∈ store.writeLocks)
    (isRoot : IsRoot (some leaf) none rootContent)
    (rerooted : Rerooted root rootContent store after)
    (isRemoved : IsRemoved root committed content) :
    SingleLeaf root (some (leaf, committed)) none
      ((after.marked leaf).setNode leaf (some content)) := by
  obtain ⟨apart, below, _⟩ := single.leafThere leaf page rfl
  have listed : ∀ id, id ∈ (after.marked leaf).modifications ↔
      id = leaf ∨ id = root ∨ id ∈ store.modifications := by
    intro id
    rw [mem_marked, rerooted.modifications, mem_marked]
  exact {
    rootIs := rerooted.rootIs.trans single.rootIs
    newRoot := rerooted.newRoot.trans single.newRoot
    loopBound := le_of_le_of_eq single.loopBound rerooted.loopBound.symm
    below := lt_of_lt_of_eq single.below rerooted.fresh.symm
    rootThere := by
      refine ⟨rootContent, ?_, isRoot⟩
      exact (setNode_other apart.symm).trans (rerooted.node ▸ setNode_self)
    leafThere := nofun
    oldThere := by
      rintro other page' same
      cases same
      exact ⟨apart, lt_of_lt_of_eq below rerooted.fresh.symm,
        .inr ⟨content, setNode_self, isRemoved⟩⟩
    rootListed := fun _ => (listed root).mpr (.inr (.inl rfl))
    leafListed := nofun
    removedListed := by
      rintro other page' same _
      injection same with same
      injection same with same _
      exact (listed other).mpr (.inl same.symm)
    listed := by
      intro id member
      rcases (listed id).mp member with same | same | member
      · exact .inr (.inr (congrArg some same.symm))
      · exact .inl same
      · rcases single.listed id member with same | same | same
        · exact .inl same
        · exact .inr (.inr same)
        · exact .inr (.inr same)
    nodup := nodup_marked (rerooted.modifications ▸ nodup_marked single.nodup)
    locked := by
      intro id member
      rcases (listed id).mp member with same | same | member
      · exact same ▸ rerooted.kept.writeLocks leaf held
      · exact same ▸ rerooted.locked
      · exact rerooted.kept.writeLocks id (single.locked id member) }

/-- `mark_node_deleted` for a leaf that is new: it is freed at once. -/
theorem SingleLeaf.ends_markNewDeleted (single : SingleLeaf root old (some (leaf, page)) store)
    (new : pageBefore old leaf = none)
    (done : ∀ after, SingleLeaf root old none after → after.rollbackOnly = store.rollbackOnly →
      after.answers = store.answers → post () after) :
    Ends (markNodeDeleted leaf) post fails store := by
  obtain ⟨apart, _, content, present, isLeaf⟩ := single.leafThere leaf page rfl
  obtain ⟨rootContent, rootPresent, isRoot⟩ := single.rootThere
  rw [new] at isLeaf
  have listed : leaf ∈ store.modifications := by
    apply single.leafListed leaf page rfl
    rw [new]
    nofun
  have held : leaf ∈ store.writeLocks := single.locked leaf listed
  have rootLocked : root ∈ store.writeLocks := by
    apply single.locked root (single.rootListed _)
    intro same
    cases old with
    | none => cases same
    | some old =>
      injection same with same
      rw [pageBefore, if_pos same.symm] at new
      cases new
  let unlisted : Store := { store with modifications := store.modifications.erase leaf }
  have unlink : Ends (unlinkNode leaf) (fun _ => Ends (deleteNode leaf) post fails) fails
      unlisted := by
    apply ends_unlinkNode (show unlisted.node leaf = some content from present) isLeaf
      (show unlisted.node root = some rootContent from rootPresent) isRoot (.inl rootLocked)
      (.inl held)
    · intro after unlinked isUnlinked rerooted
      have stays : after.node leaf = some content := by
        rw [rerooted.node, setNode_other apart]
        exact present
      obtain ⟨key, pending⟩ := isLeaf.clean rfl
      rw [deleteNode]
      simp only [ends_bind, ends_load, ends_get, ends_assert, ends_modify]
      refine ⟨content, stays, by simp [key], by simp [pending], ?_, ?_⟩
      · exact decide_eq_true (rerooted.kept.writeLocks leaf held)
      · exact done _ (single.unlinkNew new isUnlinked rerooted) rerooted.kept.rollbackOnly
          rerooted.kept.answers
    · intro after relocked refusal missing
      exact absurd rootLocked missing
  have isNew : content.isNew = true := isLeaf.isNew
  rw [markNodeDeleted, ends_bind]
  apply ends_of_ok (requireLock_held (by simp [present]) held)
  rw [ends_bind, ends_load]
  refine ⟨content, present, ?_⟩
  rw [if_pos isNew, unmarkModification]
  simp only [ends_bind, ends_get, ends_assert, ends_modify]
  exact ⟨decide_eq_true listed, unlink⟩

/-- `mark_node_deleted` for the committed leaf. -/
theorem SingleLeaf.ends_markOldDeleted {committed : Page}
    (single : SingleLeaf root (some (leaf, committed)) (some (leaf, page)) store)
    (held : leaf ∈ store.writeLocks) (rootHeld : store.Holds root)
    (done : ∀ after, SingleLeaf root (some (leaf, committed)) none after →
      after.rollbackOnly = store.rollbackOnly → after.answers = store.answers → post () after)
    (refused : ∀ after current, SingleLeaf root (some (leaf, committed)) current after →
      store.Refused → fails after) :
    Ends (markNodeDeleted leaf) post fails store := by
  obtain ⟨apart, _, content, present, isLeaf⟩ := single.leafThere leaf page rfl
  obtain ⟨rootContent, rootPresent, isRoot⟩ := single.rootThere
  rw [pageBefore, if_pos rfl] at isLeaf
  have isOld : content.isNew = false := isLeaf.isNew
  rw [markNodeDeleted, ends_bind]
  apply ends_of_ok (requireLock_held (by simp [present]) held)
  rw [ends_bind, ends_load]
  refine ⟨content, present, ?_⟩
  rw [if_neg (by simp [isOld]), ends_bind]
  apply ends_unlinkNode present isLeaf rootPresent isRoot rootHeld (.inl held)
  · intro after unlinked isUnlinked rerooted
    have stays : after.node leaf = some content := by
      rw [rerooted.node, setNode_other apart]
      exact present
    simp only [ends_bind, ends_update, ends_markModification]
    refine ⟨content, stays, _, setNode_self, ?_⟩
    change post () (((after.marked leaf).setNode leaf _).setNode leaf _)
    rw [setNode_setNode]
    exact done _ (single.unlinkOld held isUnlinked rerooted ⟨isLeaf.header, isLeaf.newHeader, isOld,
      rfl, isLeaf.committed committed rfl, rfl, rfl⟩) rerooted.kept.rollbackOnly
      rerooted.kept.answers
  · intro after relocked refusal _
    exact refused after _ ((single.prepareRoot isRoot).relocked relocked) refusal

/-- The records that the transaction sees. -/
def pageOf (current : Option (NodeId × Page)) : Page := (current.map Prod.snd).getD []

/-- What the nodes found by a search have in common. -/
theorem SingleLeaf.foundNode_present (single : SingleLeaf root old current store) :
    store.node (foundNode root current) ≠ none := by
  cases current with
  | none =>
    obtain ⟨content, present, _⟩ := single.rootThere
    simp [foundNode, present]
  | some found =>
    obtain ⟨leaf, page⟩ := found
    obtain ⟨_, _, content, present, _⟩ := single.leafThere leaf page rfl
    simp [foundNode, present]

/-- A search, and the lock on what it finds. -/
theorem SingleLeaf.ends_searchLocked (single : SingleLeaf root old current store) {key : Bytes}
    {Result : Type} {rest : NodeId → TxM Result} {post : Result → Store → Prop}
    (granted : ∀ after, SingleLeaf root old current after → Kept store after →
      foundNode root current ∈ after.writeLocks → after.Holds root →
      Ends (rest (foundNode root current)) post fails after)
    (refused : ∀ after, SingleLeaf root old current after → store.Refused → fails after) :
    Ends (do
      let node ← search key
      requireLock node true
      rest node) post fails store := by
  rw [ends_bind]
  apply single.ends_search
  · intro found grown rootHeld
    have there : SingleLeaf root old current found := single.relocked grown.toRelocked
    rw [ends_bind]
    apply ends_requireLock there.foundNode_present
    · intro locked more held
      exact granted locked (there.relocked more.toRelocked) (grown.kept.trans more.kept) held
        (more.holds root rootHeld)
    · intro after relocked refusal _
      exact refused after (there.relocked relocked) (grown.refused.mp refusal)
  · intro after relocked refusal
    exact refused after (single.relocked relocked) refusal

/-- What `transaction_put` does for a record that fits. -/
theorem SingleLeaf.ends_putRecord (single : SingleLeaf root old current store)
    (ascending : Ascending (pageOf current)) (record : Record)
    (fits : pageSize (otherRecords record.key (pageOf current)) + record.size ≤ maxPageSize)
    (done : ∀ leaf after,
      SingleLeaf root old (some (leaf, withRecord (pageOf current) record)) after →
      Kept store after → post () after)
    (refused : ∀ after current, SingleLeaf root old current after → store.Refused → fails after) :
    Ends (putRecord record) post fails store := by
  refine single.ends_searchLocked ?_ fun after there => refused after current there
  intro locked stays kept held rootStays
  rw [ends_bind, ends_load]
  cases current with
  | none =>
    obtain ⟨content, present, isRoot⟩ := stays.rootThere
    refine ⟨content, present, ?_⟩
    have noPage : content.effectivePage = none := isRoot.view_page
    simp only [noPage, Option.isSome_none, Bool.false_eq_true, if_false, ends_bind]
    apply stays.ends_insertFirstLeaf held record
    · simpa [pageOf, otherRecords, pageSize] using fits
    · intro leaf after inserted last
      exact done leaf after inserted (kept.trans last)
    · intro after emptied refusal
      exact refused after none emptied (kept.refused.mp refusal)
  | some current =>
    obtain ⟨leaf, page⟩ := current
    obtain ⟨_, _, content, present, isLeaf⟩ := stays.leafThere leaf page rfl
    refine ⟨content, present, ?_⟩
    rw [isLeaf.effectivePage]
    apply stays.ends_putInternal held rootStays ascending record fits
    intro after inserted last
    exact done leaf after inserted (kept.trans last)

/-- `mark_node_deleted` for the leaf. -/
theorem SingleLeaf.ends_markNodeDeleted (single : SingleLeaf root old (some (leaf, page)) store)
    (held : leaf ∈ store.writeLocks) (rootHeld : store.Holds root)
    (done : ∀ after, SingleLeaf root old none after → after.rollbackOnly = store.rollbackOnly →
      after.answers = store.answers → post () after)
    (refused : ∀ after current, SingleLeaf root old current after → store.Refused → fails after) :
    Ends (markNodeDeleted leaf) post fails store := by
  cases committed : pageBefore old leaf with
  | none => exact single.ends_markNewDeleted committed done
  | some before =>
    have same : old = some (leaf, before) := by
      cases old with
      | none => cases committed
      | some old =>
        obtain ⟨other, page⟩ := old
        obtain ⟨same, committed⟩ := Option.ite_none_right_eq_some.mp committed
        injection committed with pages
        rw [same, pages]
    subst same
    exact single.ends_markOldDeleted held rootHeld done refused

/-- The leaf is removed, and the root needs no merge. -/
theorem SingleLeaf.ends_removeLeaf (single : SingleLeaf root old (some (leaf, page)) store)
    (held : leaf ∈ store.writeLocks) (rootHeld : store.Holds root)
    (done : ∀ after, SingleLeaf root old none after → after.rollbackOnly = store.rollbackOnly →
      post () after)
    (refused : ∀ after current, SingleLeaf root old current after → store.Refused → fails after) :
    Ends (removeLeaf leaf) post fails store := by
  obtain ⟨_, _, content, present, isLeaf⟩ := single.leafThere leaf page rfl
  obtain ⟨rootContent, rootPresent, _⟩ := single.rootThere
  rw [removeLeaf, ends_bind]
  apply ends_of_ok (txParent_leaf present isLeaf rootPresent rootHeld)
  rw [ends_bind]
  apply single.ends_markNodeDeleted held rootHeld
  · intro after emptied marked _
    rw [ends_bind, ends_expect]
    refine ⟨root, rfl, ?_⟩
    apply ends_of_ok emptied.maybeMerge_root
    exact done after emptied marked
  · intro after current there refusal
    exact refused after current there refusal

include single

/-- What `transaction_delete` does. -/
theorem SingleLeaf.ends_deleteRecord
    (ascending : Ascending (pageOf current)) (key : Bytes) {post : DeleteResult → Store → Prop}
    (done : ∀ result current' after, pageOf current' = otherRecords key (pageOf current) →
      SingleLeaf root old current' after → after.rollbackOnly = store.rollbackOnly →
      post result after)
    (refused : ∀ after current, SingleLeaf root old current after → store.Refused → fails after) :
    Ends (deleteRecord key) post fails store := by
  refine single.ends_searchLocked ?_ fun after there => refused after current there
  intro locked stays kept held rootHeld
  rw [ends_bind]
  cases current with
  | none =>
    obtain ⟨content, present, isRoot⟩ := stays.rootThere
    rw [ends_update]
    refine ⟨content, present, ?_⟩
    rw [isRoot.preparePage, ends_bind, ends_load]
    refine ⟨content, setNode_self, ?_⟩
    rw [isRoot.writerPage]
    have same : locked.setNode root (some content) = locked := by
      simp only [Store.setNode, ← present]
      congr 1
      funext other
      split
      next same => rw [same]
      next => rfl
    exact done .notFound none _ rfl (same.symm ▸ stays) kept.rollbackOnly
  | some current =>
    obtain ⟨leaf, page⟩ := current
    change Ascending page at ascending
    apply stays.ends_preparePage
    intro prepared ready more' writes
    obtain ⟨content, present, writes⟩ := writes
    have still := kept.trans more'
    have heldStill : leaf ∈ prepared.writeLocks := more'.writeLocks leaf held
    have rootStill : prepared.Holds root := more'.holds root rootHeld
    rw [ends_bind, ends_load]
    refine ⟨content, present, ?_⟩
    rw [writes]
    dsimp only
    split
    next missing =>
      exact done _ (some (leaf, page)) _ (otherRecords_of_missing ascending missing).symm
        ready still.rollbackOnly
    next found =>
      have found := not_not.mp found
      rw [ends_bind]
      apply ready.ends_removePageRecord heldStill rootStill _ (pageKeyOffset_lt_length found)
      rw [eraseIdx_pageKeyOffset ascending found]
      intro removed rest last writes
      rw [ends_bind, ends_writerPageOf]
      refine ⟨_, writes, ?_⟩
      split
      next empty =>
        rw [ends_bind]
        apply rest.ends_removeLeaf (last.writeLocks leaf heldStill) (last.holds root rootStill)
        · intro after emptied marked
          exact done .success none after empty.symm emptied
            (marked.trans (still.trans last).rollbackOnly)
        · intro after current there refusal
          exact refused after current there ((still.trans last).refused.mp refusal)
      next =>
        exact done .success (some (leaf, otherRecords key page)) removed rfl rest
          (still.trans last).rollbackOnly

/-- What `transaction_get` does. -/
theorem SingleLeaf.ends_getInternal (key : Bytes)
    (forUpdate : Bool) {post : Option Bytes → Store → Prop}
    (done : ∀ found after, SingleLeaf root old current after → Kept store after → post found after)
    (refused : ∀ after, SingleLeaf root old current after → store.Refused → fails after) :
    Ends (getInternal key forUpdate) post fails store := by
  have look : ∀ after, SingleLeaf root old current after → Kept store after →
      Ends (reading fun _ => lookup (foundNode root current) key) post fails after := by
    intro after there kept
    obtain ⟨content, present⟩ := Option.ne_none_iff_exists'.mp there.foundNode_present
    rw [ends_reading, lookup, run_bind, run_perform]
    apply ends_bind.mpr
    apply ends_view.mpr
    refine ⟨content, present, ?_⟩
    cases content.view.page <;> exact done _ after there kept
  rw [getInternal, ends_bind]
  apply single.ends_search
  · intro found grown _
    have there : SingleLeaf root old current found := single.relocked grown.toRelocked
    dsimp only
    split
    · rw [ends_bind]
      apply ends_requireLock there.foundNode_present
      · intro locked more _
        exact look locked (there.relocked more.toRelocked) (grown.kept.trans more.kept)
      · intro after relocked refusal _
        exact refused after (there.relocked relocked) (grown.refused.mp refusal)
    · exact look found there grown.kept
  · intro after relocked refusal
    exact refused after (single.relocked relocked) refusal

/-- What `transaction_first_key` and `transaction_next_key` do. -/
theorem SingleLeaf.ends_findKeyGte (key : Bytes) {post : Option Bytes → Store → Prop}
    (done : ∀ after, SingleLeaf root old current after → Kept store after →
      post (firstKeyGte (pageOf current) key) after)
    (refused : ∀ after, SingleLeaf root old current after → store.Refused → fails after) :
    Ends (reading fun bound => findKeyGte bound key) post fails store := by
  rw [reading, ends_bind, ends_get, findKeyGte, run_bind, ends_bind]
  change Ends (search key) _ fails store
  apply single.ends_search
  · intro found grown _
    have there : SingleLeaf root old current found := single.relocked grown.toRelocked
    rw [run_bind, run_perform]
    apply ends_bind.mpr
    apply ends_view.mpr
    cases current with
    | none =>
      obtain ⟨content, present, isRoot⟩ := there.rootThere
      refine ⟨content, present, ?_⟩
      rw [isRoot.view_page]
      exact done found there grown.kept
    | some current =>
      obtain ⟨leaf, page⟩ := current
      obtain ⟨_, _, content, present, isLeaf⟩ := there.leafThere leaf page rfl
      refine ⟨content, present, ?_⟩
      rw [isLeaf.view_page]
      exact done found there grown.kept
  · intro after relocked refusal
    exact refused after (single.relocked relocked) refusal

end Gzochi.Btree
