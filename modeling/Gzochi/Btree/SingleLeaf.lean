import Gzochi.Btree.Rollback
import Gzochi.Btree.PageOrder

/-!
# Trees of a single leaf

As long as all records fit on one page, the tree is its root with at most one leaf.  The
leaf that the transaction sees need not be the committed one: the transaction may have
removed that and created another.  The layout below says where the two are, and what is
on the list of modifications.
-/

namespace Gzochi.Btree

open Lib Store Program

variable {root id leaf : NodeId} {store after : Store} {content : BtreeNode}
  {old current : Option (NodeId × Page)} {before : Option Page} {page : Page}

/-- The root: `before` is its committed child, `child` the one the transaction sees. -/
structure IsRoot (before child : Option NodeId) (content : BtreeNode) : Prop where
  header : content.header = ⟨none, none, none, before⟩
  effectiveHeader : content.effectiveHeader = ⟨none, none, none, child⟩
  isNew : content.isNew = false
  isDeleted : content.isDeleted = false
  page : content.page = none
  newPage : content.newPage = none
  minChildren : content.minChildren = 1
  maxChildren : content.maxChildren = branchingFactor - 1

/-- A leaf: `before` is its committed page, which a new leaf does not have, and `page` the
one the transaction sees. -/
structure IsLeaf (root : NodeId) (before : Option Page) (page : Page) (content : BtreeNode) :
    Prop where
  header : content.header = ⟨some root, none, none, none⟩
  newHeader : content.newHeader = none
  isNew : content.isNew = before.isNone
  isDeleted : content.isDeleted = false
  committed : ∀ page, before = some page → content.page = some page
  effectivePage : content.effectivePage = some page
  clean : before = none → content.newKey = none ∧ content.newPage = none

/-- The committed leaf after the transaction has removed it. -/
structure IsRemoved (root : NodeId) (before : Page) (content : BtreeNode) : Prop where
  header : content.header = ⟨some root, none, none, none⟩
  newHeader : content.newHeader = none
  isNew : content.isNew = false
  isDeleted : content.isDeleted = true
  page : content.page = some before
  newKey : content.newKey = none
  newPage : content.newPage = none

namespace IsRoot

variable {child target : Option NodeId} {committed : Option NodeId}

variable (isRoot : IsRoot committed child content)
include isRoot

theorem view_header : content.view.header = ⟨none, none, none, child⟩ := isRoot.effectiveHeader

theorem view_page : content.view.page = none := by
  simp [BtreeNode.view, BtreeNode.effectivePage, isRoot.page, isRoot.newPage]

theorem prepareHeader : IsRoot committed child content.prepareHeader := by
  have unfolded : content.prepareHeader =
      { content with newHeader := some content.effectiveHeader } := by
    rw [BtreeNode.prepareHeader, isRoot.isNew]
    rfl
  rw [unfolded]
  exact { isRoot with effectiveHeader := isRoot.effectiveHeader }

/-- `tx_set_first_child` on the root. -/
theorem setFirstChild : IsRoot committed target (content.prepareHeader.writeHeader fun header =>
      { header with firstChild := target }) := by
  have unfolded : (content.prepareHeader.writeHeader fun header =>
      { header with firstChild := target }) =
        { content with newHeader := some ⟨none, none, none, target⟩ } := by
    simp [BtreeNode.prepareHeader, BtreeNode.writeHeader, isRoot.isNew, isRoot.effectiveHeader]
  rw [unfolded]
  exact { isRoot with effectiveHeader := rfl }

theorem preparePage : content.preparePage = content := by
  simp [BtreeNode.preparePage, isRoot.isNew, isRoot.page]

theorem writerPage : content.writerPage = none := by
  simp [BtreeNode.writerPage, isRoot.isNew, isRoot.newPage]

end IsRoot

namespace IsLeaf

variable (isLeaf : IsLeaf root before page content)
include isLeaf

theorem view_header : content.view.header = ⟨some root, none, none, none⟩ := by
  simp [BtreeNode.view, BtreeNode.effectiveHeader, isLeaf.newHeader, isLeaf.header]

theorem view_page : content.view.page = some page := isLeaf.effectivePage

/-- The page is there for writers too, once it has been asked for. -/
theorem preparePage :
    IsLeaf root before page content.preparePage ∧ content.preparePage.writerPage = some page := by
  have seen := isLeaf.effectivePage
  cases before with
  | none =>
    have isNew : content.isNew = true := isLeaf.isNew
    have clean := (isLeaf.clean rfl).2
    have unfolded : content.preparePage = content := by simp [BtreeNode.preparePage, isNew]
    rw [unfolded]
    refine ⟨isLeaf, ?_⟩
    simpa [BtreeNode.writerPage, isNew, BtreeNode.effectivePage, clean] using seen
  | some committed =>
    have isOld : content.isNew = false := isLeaf.isNew
    have stored := isLeaf.committed committed rfl
    cases pending : content.newPage with
    | none =>
      have unfolded : content.preparePage = { content with newPage := content.page } := by
        simp [BtreeNode.preparePage, isOld, stored, pending]
      have visible : content.page = some page := by
        simpa [BtreeNode.effectivePage, pending] using seen
      rw [unfolded]
      refine ⟨{ isLeaf with effectivePage := ?_, clean := by simp }, ?_⟩
      · simp [BtreeNode.effectivePage, visible]
      · simp [BtreeNode.writerPage, isOld, visible]
    | some written =>
      have unfolded : content.preparePage = content := by
        simp [BtreeNode.preparePage, isOld, stored, pending]
      rw [unfolded]
      refine ⟨isLeaf, ?_⟩
      simpa [BtreeNode.writerPage, isOld, BtreeNode.effectivePage, pending] using seen

theorem writePage (changed : Page) : IsLeaf root before changed (content.writePage changed) := by
  cases before with
  | none =>
    have isNew : content.isNew = true := isLeaf.isNew
    have unfolded : content.writePage changed = { content with page := some changed } := by
      simp [BtreeNode.writePage, isNew]
    rw [unfolded]
    refine { isLeaf with committed := by simp, effectivePage := ?_ }
    simp [BtreeNode.effectivePage, (isLeaf.clean rfl).2]
  | some committed =>
    have isOld : content.isNew = false := isLeaf.isNew
    have unfolded : content.writePage changed = { content with newPage := some changed } := by
      simp [BtreeNode.writePage, isOld]
    rw [unfolded]
    exact { isLeaf with effectivePage := rfl, clean := by simp }

theorem writeKey (key : Bytes) : IsLeaf root before page (content.writeKey key) := by
  cases before with
  | none =>
    have isNew : content.isNew = true := isLeaf.isNew
    have unfolded : content.writeKey key = { content with key := some key } := by
      simp [BtreeNode.writeKey, isNew]
    rw [unfolded]
    exact { isLeaf with }
  | some committed =>
    have isOld : content.isNew = false := isLeaf.isNew
    have unfolded : content.writeKey key = { content with newKey := some key } := by
      simp [BtreeNode.writeKey, isOld]
    rw [unfolded]
    exact { isLeaf with clean := by simp }

end IsLeaf

/-- The committed page of a leaf. -/
def pageBefore (old : Option (NodeId × Page)) (leaf : NodeId) : Option Page :=
  match old with
  | none => none
  | some (committed, page) => if committed = leaf then some page else none

/-- The tree is its root with at most one leaf.  `old` is the committed leaf with its page,
`current` the leaf the transaction sees. -/
structure SingleLeaf (root : NodeId) (old current : Option (NodeId × Page)) (store : Store) :
    Prop where
  rootIs : store.root = root
  newRoot : store.newRoot = none
  loopBound : 2 ≤ store.loopBound
  below : root < store.fresh
  rootThere : ∃ content, store.node root = some content ∧
    IsRoot (old.map Prod.fst) (current.map Prod.fst) content
  leafThere : ∀ leaf page, current = some (leaf, page) → leaf ≠ root ∧ leaf < store.fresh ∧
    ∃ content, store.node leaf = some content ∧ IsLeaf root (pageBefore old leaf) page content
  oldThere : ∀ leaf page, old = some (leaf, page) → leaf ≠ root ∧ leaf < store.fresh ∧
    (current.map Prod.fst = some leaf ∨
      ∃ content, store.node leaf = some content ∧ IsRemoved root page content)
  rootListed : current.map Prod.fst ≠ old.map Prod.fst → root ∈ store.modifications
  leafListed : ∀ leaf page, current = some (leaf, page) → pageBefore old leaf ≠ some page →
    leaf ∈ store.modifications
  removedListed : ∀ leaf page, old = some (leaf, page) → current.map Prod.fst ≠ some leaf →
    leaf ∈ store.modifications
  listed : ∀ id ∈ store.modifications,
    id = root ∨ current.map Prod.fst = some id ∨ old.map Prod.fst = some id
  nodup : store.modifications.Nodup
  locked : ∀ id ∈ store.modifications, id ∈ store.writeLocks

def Store.Holds (store : Store) (lock : NodeId) : Prop :=
  lock ∈ store.writeLocks ∨ lock ∈ store.readLocks

/-- Not every request will be granted in time. -/
def Store.Refused (store : Store) : Prop := ∃ index, store.answers index = false

/-- Only the locks have changed, and none that was held for writing is lost. -/
structure Relocked (store after : Store) : Prop where
  node : after.node = store.node
  fresh : after.fresh = store.fresh
  root : after.root = store.root
  newRoot : after.newRoot = store.newRoot
  modifications : after.modifications = store.modifications
  rollbackOnly : after.rollbackOnly = store.rollbackOnly
  answers : after.answers = store.answers
  loopBound : after.loopBound = store.loopBound
  writeLocks : ∀ id ∈ store.writeLocks, id ∈ after.writeLocks

/-- No lock at all is lost. -/
structure Grown (store after : Store) : Prop extends Relocked store after where
  holds : ∀ id, store.Holds id → after.Holds id

theorem Relocked.refl (store : Store) : Relocked store store :=
  ⟨rfl, rfl, rfl, rfl, rfl, rfl, rfl, rfl, fun _ held => held⟩

theorem Grown.refl (store : Store) : Grown store store := ⟨.refl store, fun _ held => held⟩

variable {middle : Store}

theorem Relocked.trans (first : Relocked store middle) (second : Relocked middle after) :
    Relocked store after where
  node := second.node.trans first.node
  fresh := second.fresh.trans first.fresh
  root := second.root.trans first.root
  newRoot := second.newRoot.trans first.newRoot
  modifications := second.modifications.trans first.modifications
  rollbackOnly := second.rollbackOnly.trans first.rollbackOnly
  answers := second.answers.trans first.answers
  loopBound := second.loopBound.trans first.loopBound
  writeLocks := fun id held => second.writeLocks id (first.writeLocks id held)

theorem Grown.trans (first : Grown store middle) (second : Grown middle after) :
    Grown store after :=
  ⟨first.toRelocked.trans second.toRelocked, fun id held => second.holds id (first.holds id held)⟩

theorem Relocked.refused (relocked : Relocked store after) : after.Refused ↔ store.Refused := by
  rw [Refused, Refused, relocked.answers]

theorem SingleLeaf.relocked (single : SingleLeaf root old current store)
    (relocked : Relocked store after) : SingleLeaf root old current after where
  rootIs := relocked.root.trans single.rootIs
  newRoot := relocked.newRoot.trans single.newRoot
  loopBound := relocked.loopBound ▸ single.loopBound
  below := relocked.fresh ▸ single.below
  rootThere := relocked.node ▸ single.rootThere
  leafThere := relocked.fresh ▸ relocked.node ▸ single.leafThere
  oldThere := relocked.fresh ▸ relocked.node ▸ single.oldThere
  rootListed := relocked.modifications ▸ single.rootListed
  leafListed := relocked.modifications ▸ single.leafListed
  removedListed := relocked.modifications ▸ single.removedListed
  listed := relocked.modifications ▸ single.listed
  nodup := relocked.modifications ▸ single.nodup
  locked := fun id member =>
    relocked.writeLocks id (single.locked id (relocked.modifications ▸ member))

/-- Other locks, and another place in the sequence of answers. -/
def Store.withLocks (store : Store) (writes reads : List NodeId) (asked : Nat) : Store :=
  { store with writeLocks := writes, readLocks := reads, asked := asked }

theorem relocked_withLocks {writes reads : List NodeId} {asked : Nat}
    (kept : ∀ id ∈ store.writeLocks, id ∈ writes) :
    Relocked store (store.withLocks writes reads asked) :=
  ⟨rfl, rfl, rfl, rfl, rfl, rfl, rfl, rfl, kept⟩

/-- A request for a lock is granted, or one of the answers is a refusal. -/
theorem txLock_cases (lock : NodeId) (write : Bool) (store : Store) :
    (∃ after, txLock lock write store = .ok true after ∧ Grown store after ∧ after.Holds lock ∧
      (write = true → lock ∈ after.writeLocks)) ∨
    (∃ after, txLock lock write store = .ok false after ∧ Relocked store after ∧
      store.Refused) := by
  cases write with
  | true =>
    by_cases held : lock ∈ store.writeLocks
    · exact .inl ⟨store, by simp [txLock, Machine.get, held], .refl store, .inl held,
        fun _ => held⟩
    · cases granted : store.answers store.asked with
      | true =>
        refine .inl ⟨store.withLocks (lock :: store.writeLocks) (store.readLocks.erase lock)
          (store.asked + 1), ?_, ⟨?_, ?_⟩, .inl List.mem_cons_self,
          fun _ => List.mem_cons_self⟩
        · simp [txLock, Machine.get, Machine.modify, answer, held, granted, withLocks]
        · exact relocked_withLocks fun id member => List.mem_cons_of_mem lock member
        · rintro id (member | member)
          · exact .inl (List.mem_cons_of_mem lock member)
          · by_cases same : id = lock
            · subst same
              exact .inl List.mem_cons_self
            · exact .inr ((List.mem_erase_of_ne same).mpr member)
      | false =>
        refine .inr ⟨store.withLocks store.writeLocks (store.readLocks.erase lock)
          (store.asked + 1), ?_, relocked_withLocks fun _ member => member, _, granted⟩
        simp [txLock, Machine.get, Machine.modify, answer, held, granted, withLocks]
  | false =>
    by_cases held : lock ∈ store.writeLocks ∨ lock ∈ store.readLocks
    · exact .inl ⟨store, by simp [txLock, Machine.get, held], .refl store, held, by simp⟩
    · cases granted : store.answers store.asked with
      | true =>
        refine .inl ⟨store.withLocks store.writeLocks (lock :: store.readLocks)
          (store.asked + 1), ?_, ⟨relocked_withLocks fun _ member => member, ?_⟩,
          .inr List.mem_cons_self, by simp⟩
        · simp [txLock, Machine.get, Machine.modify, answer, held, granted, withLocks]
        · rintro id (member | member)
          · exact .inl member
          · exact .inr (List.mem_cons_of_mem lock member)
      | false =>
        refine .inr ⟨store.withLocks store.writeLocks store.readLocks (store.asked + 1), ?_,
          relocked_withLocks fun _ member => member, _, granted⟩
        simp [txLock, Machine.get, Machine.modify, answer, held, granted, withLocks]

variable (present : store.node id ≠ none)
include present

theorem txLockNode_cases (write : Bool) :
    (∃ after, txLockNode id write store = .ok .success after ∧ Grown store after ∧
      after.Holds id ∧ (write = true → id ∈ after.writeLocks)) ∨
    (∃ after, txLockNode id write store = .ok .failure after ∧ Relocked store after ∧
      store.Refused) := by
  rcases txLock_cases id write store with
    ⟨after, done, grown, held, writes⟩ | ⟨after, done, relocked, refused⟩
  · exact .inl ⟨after, by simp [txLockNode, Machine.get, present, done], grown, held, writes⟩
  · exact .inr ⟨after, by simp [txLockNode, Machine.get, present, done], relocked, refused⟩

/-- A lock that is held for writing is granted at once. -/
theorem txLockNode_held (held : id ∈ store.writeLocks)
    (write : Bool) : txLockNode id write store = .ok .success store := by
  cases write <;> simp [txLockNode, txLock, Machine.get, present, held]

theorem requireLock_held (held : id ∈ store.writeLocks) :
    requireLock id true store = .ok () store := by
  simp [requireLock, txLockNode_held present held]

theorem txLockNode_read (held : store.Holds id) :
    txLockNode id false store = .ok .success store := by
  simp [txLockNode, txLock, Machine.get, present, show _ ∨ _ from held]

omit present

section Ends

open Machine

variable {α : Type} {fails : Store → Prop}

@[simp] theorem ends_load {post : BtreeNode → Store → Prop} :
    Ends (load id) post fails store ↔ ∃ content, store.node id = some content ∧
      post content store := by
  simp [load]

variable {post : Unit → Store → Prop}

@[simp] theorem ends_update {change : BtreeNode → BtreeNode} :
    Ends (update id change) post fails store ↔ ∃ content, store.node id = some content ∧
      post () (store.setNode id (some (change content))) := by
  simp [update]

@[simp] theorem ends_reading {program : Nat → Reading α} {post : α → Store → Prop} :
    Ends (reading program) post fails store ↔
      Ends ((program store.loopBound).run Look.handle) post fails store := by
  simp [reading]

theorem handle_view (present : store.node id = some content) :
    Look.handle (.view id) store = .ok content.view store := by
  simp [Look.handle, load, Machine.get, Machine.expect, present]

theorem ends_view {post : NodeView → Store → Prop} :
    Ends (Look.handle (.view id)) post fails store ↔
      ∃ content, store.node id = some content ∧ post content.view store := by
  simp [Look.handle]

theorem ends_roots {post : NodeId × Option NodeId → Store → Prop} :
    Ends (Look.handle .roots) post fails store ↔ post (store.root, store.newRoot) store := by
  simp [Look.handle]

theorem ends_lockWrapper (granted : ∀ after, Grown store after → post () after)
    (refused : ∀ after, Relocked store after → store.Refused → fails after) :
    Ends (Look.handle .lockWrapper) post fails store := by
  rcases txLock_cases wrapperLock false store with
    ⟨after, done, grown, _⟩ | ⟨after, done, relocked, refusal⟩
  · simp only [Ends, Look.handle, bind_apply, done]
    exact granted after grown
  · simp only [Ends, Look.handle, bind_apply, done]
    exact refused after relocked refusal

theorem ends_lockNode (present : store.node id ≠ none) {post : Bool → Store → Prop}
    (granted : ∀ after, Grown store after → after.Holds id → post true after)
    (refused : ∀ after, Relocked store after → store.Refused → fails after) :
    Ends (Look.handle (.lockNode id)) post fails store := by
  rcases txLockNode_cases present false with
    ⟨after, done, grown, held, _⟩ | ⟨after, done, relocked, refusal⟩
  · simp only [Ends, Look.handle, bind_apply, done, pure_apply]
    exact granted after grown held
  · simp only [Ends, Look.handle, bind_apply, done]
    exact refused after relocked refusal

variable {target : Option NodeId}

/-- Following a pointer: to nowhere, or to a node that is there. -/
theorem ends_follow {post : Option NodeId → Store → Prop}
    (present : ∀ id, target = some id → store.node id ≠ none)
    (granted : ∀ after, Grown store after → post target after)
    (refused : ∀ after, Relocked store after → store.Refused → fails after) :
    Ends ((Reading.follow target).run Look.handle) post fails store := by
  cases target with
  | none => exact granted store (.refl store)
  | some id =>
    simp only [Reading.follow, run_bind, run_perform, run_pure, ends_bind]
    exact ends_lockNode (present id rfl) (fun after grown _ => granted after grown) refused

/-- A pointer to a node that is locked already. -/
theorem follow_held (held : ∀ id, target = some id → store.node id ≠ none ∧ store.Holds id) :
    (Reading.follow target).run Look.handle store = .ok target store := by
  cases target with
  | none => rfl
  | some id =>
    obtain ⟨present, locked⟩ := held id rfl
    simp [Reading.follow, Look.handle, txLockNode_read present locked]

/-- A lock for writing, which is not refused to a transaction that holds it. -/
theorem ends_requireLock (present : store.node id ≠ none)
    (granted : ∀ after, Grown store after → id ∈ after.writeLocks → post () after)
    (refused : ∀ after, Relocked store after → store.Refused → id ∉ store.writeLocks →
      fails after) :
    Ends (requireLock id true) post fails store := by
  rw [requireLock, ends_bind]
  by_cases held : id ∈ store.writeLocks
  · apply ends_of_ok (txLockNode_held present held true)
    exact granted store (.refl store) held
  · rcases txLockNode_cases present true with
      ⟨after, done, grown, _, writes⟩ | ⟨after, done, relocked, refusal⟩
    · apply ends_of_ok done
      exact granted after grown (writes rfl)
    · apply ends_of_ok done
      exact refused after relocked refusal held

end Ends

section Search

open Machine

variable {fails : Store → Prop}

variable {post : NodeId → Store → Prop}

/-- The first node a search gets hold of is the root. -/
theorem SingleLeaf.ends_txRoot (single : SingleLeaf root old current store)
    (granted : ∀ after, Grown store after → after.Holds root → post root after)
    (refused : ∀ after, Relocked store after → store.Refused → fails after) :
    Ends (Reading.txRoot.run Look.handle) post fails store := by
  simp only [Reading.txRoot, run_bind, run_perform, ends_bind]
  apply ends_lockWrapper _ refused
  intro middle grown
  have there : SingleLeaf root old current middle := single.relocked grown.toRelocked
  obtain ⟨content, present, _⟩ := there.rootThere
  apply ends_bind.mpr
  apply ends_roots.mpr
  simp only [there.newRoot, there.rootIs, run_pure, ends_pure, Bool.false_eq_true,
    if_false, run_bind, run_perform, ends_bind]
  rw [there.rootIs]
  apply ends_lockNode (by simp [present])
  · intro after more held
    exact granted after (grown.trans more) held
  · intro after relocked refusal
    exact refused after (grown.toRelocked.trans relocked) (grown.refused.mp refusal)

/-- The leaf, or the root of an empty tree. -/
def foundNode (root : NodeId) (current : Option (NodeId × Page)) : NodeId :=
  (current.map Prod.fst).getD root

/-- At the one leaf the scan of the children ends without another lock. -/
theorem searchChildren_single (present : store.node leaf = some content)
    (isLeaf : IsLeaf root before page content) (key : Bytes) (bound : Nat) :
    ∃ scan, (Reading.searchChildren key (bound + 1) (some leaf) none false).run Look.handle store =
        .ok scan store ∧ (scan = .found leaf ∨ scan = .stopped none (some leaf) true) := by
  rw [Reading.searchChildren, run_bind, run_perform, bind_apply, handle_view present]
  simp only [isLeaf.view_page]
  split
  · exact ⟨.found leaf, rfl, .inl rfl⟩
  · refine ⟨.stopped none (some leaf) true, ?_, .inr rfl⟩
    rw [run_bind, bind_apply, Reading.txNextSibling, run_bind,
      run_perform, bind_apply, handle_view present]
    simp [isLeaf.view_header, Reading.follow, Reading.searchChildren]

/-- Every search ends at the one leaf. -/
theorem SingleLeaf.ends_search (single : SingleLeaf root old current store) (key : Bytes)
    (granted : ∀ after, Grown store after → after.Holds root → post (foundNode root current) after)
    (refused : ∀ after, Relocked store after → store.Refused → fails after) :
    Ends (search key) post fails store := by
  simp only [search, ends_reading, Reading.search, run_bind, ends_bind]
  apply single.ends_txRoot _ refused
  intro locked grown held
  have there : SingleLeaf root old current locked := single.relocked grown.toRelocked
  obtain ⟨bound, rounds⟩ := Nat.exists_eq_add_of_le single.loopBound
  rw [rounds, Nat.add_comm 2 bound, Reading.searchFrom]
  obtain ⟨content, present, isRoot⟩ := there.rootThere
  simp only [run_bind, Reading.txFirstChild, run_perform]
  apply ends_bind.mpr
  apply ends_bind.mpr
  apply ends_view.mpr
  refine ⟨content, present, ?_⟩
  rw [isRoot.view_header]
  have onward : ∀ {after}, Relocked locked after → Relocked store after := fun relocked =>
    grown.toRelocked.trans relocked
  cases current with
  | none =>
    simp only [Option.map_none, Reading.follow, run_pure, ends_pure, Reading.searchChildren]
    exact granted locked grown held
  | some found =>
    obtain ⟨leaf, page⟩ := found
    apply ends_follow
    · rintro id same
      cases same
      obtain ⟨_, _, leafContent, there, _⟩ := there.leafThere leaf page rfl
      simp [there]
    · intro after more
      have stays : SingleLeaf root old (some (leaf, page)) after := there.relocked more.toRelocked
      obtain ⟨_, _, leafContent, present, isLeaf⟩ := stays.leafThere leaf page rfl
      obtain ⟨scan, scanned, ending⟩ := searchChildren_single present isLeaf key (bound + 1)
      have reached : post leaf after := granted after (grown.trans more) (more.holds root held)
      apply ends_bind.mpr
      simp only [Ends, Option.map_some, scanned]
      rcases ending with rfl | rfl
      · exact reached
      · exact reached
    · intro after relocked refusal
      exact refused after (onward relocked) (grown.refused.mp refusal)

end Search

/-- The store with the node on the list of modifications. -/
def Store.marked (store : Store) (node : NodeId) : Store :=
  { store with
    modifications :=
      if node ∈ store.modifications then store.modifications
      else node :: store.modifications }

variable {other : NodeId}

theorem mem_marked :
    other ∈ (store.marked id).modifications ↔ other = id ∨ other ∈ store.modifications := by
  simp only [Store.marked]
  split
  next listed =>
    constructor
    · exact .inr
    · rintro (same | member)
      · exact same ▸ listed
      · exact member
  next => exact List.mem_cons

theorem nodup_marked (nodup : store.modifications.Nodup) :
    (store.marked id).modifications.Nodup := by
  simp only [Store.marked]
  split
  next => exact nodup
  next missing => exact List.nodup_cons.mpr ⟨missing, nodup⟩

theorem setNode_self {content : Option BtreeNode} : (store.setNode id content).node id = content :=
  if_pos rfl

theorem setNode_other {content : Option BtreeNode} (apart : other ≠ id) :
    (store.setNode id content).node other = store.node other := if_neg apart

@[simp] theorem setNode_setNode {first second : Option BtreeNode} :
    (store.setNode id first).setNode id second = store.setNode id second := by
  simp only [setNode]
  congr 1
  funext other
  split <;> rfl

/-- What a step on the nodes leaves of the transaction's state. -/
structure Kept (store after : Store) : Prop where
  rollbackOnly : after.rollbackOnly = store.rollbackOnly
  answers : after.answers = store.answers
  writeLocks : ∀ id ∈ store.writeLocks, id ∈ after.writeLocks
  holds : ∀ id, store.Holds id → after.Holds id

theorem Kept.trans (first : Kept store middle) (second : Kept middle after) : Kept store after where
  rollbackOnly := second.rollbackOnly.trans first.rollbackOnly
  answers := second.answers.trans first.answers
  writeLocks := fun id held => second.writeLocks id (first.writeLocks id held)
  holds := fun id held => second.holds id (first.holds id held)

theorem Kept.refused (kept : Kept store after) : after.Refused ↔ store.Refused := by
  rw [Refused, Refused, kept.answers]

theorem Grown.kept (grown : Grown store after) : Kept store after :=
  ⟨grown.rollbackOnly, grown.answers, grown.writeLocks, grown.holds⟩

theorem kept_setNode {content : Option BtreeNode} : Kept store (store.setNode id content) :=
  ⟨rfl, rfl, fun _ held => held, fun _ held => held⟩

theorem kept_marked : Kept store (store.marked id) :=
  ⟨rfl, rfl, fun _ held => held, fun _ held => held⟩

namespace SingleLeaf

/-- A locked node of the tree may be put on the list. -/
theorem marked (single : SingleLeaf root old current store)
    (inTree : id = root ∨ current.map Prod.fst = some id ∨ old.map Prod.fst = some id)
    (held : id ∈ store.writeLocks) : SingleLeaf root old current (store.marked id) :=
  { single with
    rootListed := fun changed => mem_marked.mpr (.inr (single.rootListed changed))
    leafListed := fun leaf page same changed =>
      mem_marked.mpr (.inr (single.leafListed leaf page same changed))
    removedListed := fun leaf page same changed =>
      mem_marked.mpr (.inr (single.removedListed leaf page same changed))
    listed := by
      intro other member
      rcases mem_marked.mp member with same | member
      · exact same ▸ inTree
      · exact single.listed other member
    nodup := nodup_marked single.nodup
    locked := by
      intro other member
      rcases mem_marked.mp member with same | member
      · exact same ▸ held
      · exact single.locked other member }

/-- A leaf on the list may be written; one that is not may only be prepared. -/
theorem setLeaf (single : SingleLeaf root old (some (leaf, page)) store) {changed : Page}
    (listed : changed ≠ page → leaf ∈ store.modifications)
    (isLeaf : IsLeaf root (pageBefore old leaf) changed content) :
    SingleLeaf root old (some (leaf, changed)) (store.setNode leaf (some content)) := by
  obtain ⟨apart, below, _⟩ := single.leafThere leaf page rfl
  exact { single with
    rootThere := by
      rw [setNode_other apart.symm]
      exact single.rootThere
    leafThere := by
      rintro other changed' same
      cases same
      exact ⟨apart, below, content, setNode_self, isLeaf⟩
    oldThere := by
      intro other before same
      obtain ⟨different, under, there⟩ := single.oldThere other before same
      refine ⟨different, under, ?_⟩
      rcases there with same | ⟨removed, present, isRemoved⟩
      · exact .inl same
      · by_cases known : other = leaf
        · exact .inl (congrArg some known.symm)
        · exact .inr ⟨removed, by rw [setNode_other known, present], isRemoved⟩
    leafListed := by
      rintro other changed' same fresh
      cases same
      by_cases unchanged : changed = page
      · exact single.leafListed leaf page rfl (unchanged ▸ fresh)
      · exact listed unchanged }

end SingleLeaf

section LeafWrites

open Machine

variable {fails : Store → Prop} {post : Unit → Store → Prop}

@[simp] theorem ends_markModification :
    Ends (markModification id) post fails store ↔ post () (store.marked id) := by
  have same : (if id ∈ store.modifications then store
      else { store with modifications := id :: store.modifications }) = store.marked id := by
    simp only [Store.marked]
    split <;> rfl
  simp only [markModification, ends_modify, same]

/-- The page that writers of the node see. -/
def Store.WriterPage (store : Store) (node : NodeId) (page : Page) : Prop :=
  ∃ content, store.node node = some content ∧ content.writerPage = some page

@[simp] theorem ends_writerPageOf {post : Page → Store → Prop} :
    Ends (writerPageOf id) post fails store ↔
      ∃ page, store.WriterPage id page ∧ post page store := by
  simp only [writerPageOf, ends_bind, ends_load, ends_expect, WriterPage]
  constructor
  · rintro ⟨content, present, page, writes, holds⟩
    exact ⟨page, ⟨content, present, writes⟩, holds⟩
  · rintro ⟨page, ⟨content, present, writes⟩, holds⟩
    exact ⟨content, present, page, writes, holds⟩

theorem writerPage_writeKey (content : BtreeNode) (key : Bytes) :
    (content.writeKey key).writerPage = content.writerPage := by
  rw [BtreeNode.writeKey]
  split <;> rfl

theorem writerPage_writePage (content : BtreeNode) (page : Page) :
    (content.writePage page).writerPage = some page := by
  rw [BtreeNode.writePage, BtreeNode.writerPage]
  split <;> simp [*]

/-- The parent of the leaf is the root. -/
theorem txParent_leaf {rootContent : BtreeNode} (present : store.node leaf = some content)
    (isLeaf : IsLeaf root before page content) (rootPresent : store.node root = some rootContent)
    (held : store.Holds root) : txParent leaf store = .ok (some root) store := by
  have followed : (Reading.follow (some root)).run Look.handle store = .ok (some root) store := by
    apply follow_held
    rintro id same
    cases same
    exact ⟨by simp [rootPresent], held⟩
  rw [txParent, reading]
  simp only [bind_apply, Machine.get, Reading.txParent, run_bind, run_perform,
    handle_view present, isLeaf.view_header, followed]

variable (single : SingleLeaf root old (some (leaf, page)) store)
include single

/-- `update_key` at the one leaf changes nothing but the leaf's key. -/
theorem SingleLeaf.ends_updateKey
    (held : leaf ∈ store.writeLocks) (rootHeld : store.Holds root) (key : Bytes)
    (writes : store.WriterPage leaf page)
    (done : ∀ after, SingleLeaf root old (some (leaf, page)) after → Kept store after →
      after.WriterPage leaf page → post () after) :
    Ends (updateKey leaf key) post fails store := by
  obtain ⟨apart, _, content, present, isLeaf⟩ := single.leafThere leaf page rfl
  obtain ⟨rootContent, rootPresent, isRoot⟩ := single.rootThere
  obtain ⟨bound, rounds⟩ := Nat.exists_eq_add_of_le single.loopBound
  have isKeyed : IsLeaf root (pageBefore old leaf) page (content.writeKey (keyAfter key)) :=
    isLeaf.writeKey _
  have rootStays : (store.setNode leaf (some (content.writeKey (keyAfter key)))).node root =
      some rootContent := by
    rw [← rootPresent]
    exact setNode_other apart.symm
  have header : content.effectiveHeader.next = none := by
    simp [BtreeNode.effectiveHeader, isLeaf.newHeader, isLeaf.header]
  have above : rootContent.effectiveHeader.parent = none := by rw [isRoot.effectiveHeader]
  simp only [updateKey, ends_bind, ends_get]
  rw [rounds, Nat.add_comm 2 bound, updateKeyLoop]
  simp only [ends_bind, ends_load]
  refine ⟨content, present, ?_⟩
  apply ends_of_ok (txLockNode_held (by simp [present]) held true)
  simp only [setNodeKeyToKeyAfter, Option.getD_some, ends_bind, ends_update, header, if_true,
    ends_attempt]
  refine ⟨content, present, ?_⟩
  apply ends_of_ok (txParent_leaf setNode_self isKeyed rootStays rootHeld)
  simp only [ends_bind, ends_load]
  refine ⟨rootContent, rootStays, ?_⟩
  simp only [above, if_true, ends_pure, Bool.false_eq_true, if_false]
  have stays : content.writerPage = some page := by
    obtain ⟨other, found, writes⟩ := writes
    rw [present] at found
    injection found with found
    rw [found, writes]
  exact done _ (single.setLeaf (fun changed => absurd rfl changed) isKeyed) kept_setNode
    ⟨_, setNode_self, (writerPage_writeKey content _).trans stays⟩

/-- The page has been replaced. -/
theorem SingleLeaf.ends_writePage
    (held : leaf ∈ store.writeLocks) (changed : Page) {rest : TxM Unit}
    (done : ∀ after, SingleLeaf root old (some (leaf, changed)) after → Kept store after →
      after.WriterPage leaf changed → Ends rest post fails after) :
    Ends (do
      update leaf fun content => content.writePage changed
      markModification leaf
      rest) post fails store := by
  obtain ⟨_, _, content, present, isLeaf⟩ := single.leafThere leaf page rfl
  simp only [ends_bind, ends_update, ends_markModification]
  refine ⟨content, present, ?_⟩
  have listed : leaf ∈ (store.marked leaf).modifications := mem_marked.mpr (.inl rfl)
  exact done _ ((single.marked (.inr (.inl rfl)) held).setLeaf (fun _ => listed)
    (isLeaf.writePage changed)) (kept_marked.trans kept_setNode)
    ⟨_, setNode_self, writerPage_writePage content changed⟩

/-- The leaf's page is made ready to be written. -/
theorem SingleLeaf.ends_preparePage
    (done : ∀ after, SingleLeaf root old (some (leaf, page)) after → Kept store after →
      after.WriterPage leaf page → post () after) :
    Ends (update leaf BtreeNode.preparePage) post fails store := by
  obtain ⟨_, _, content, present, isLeaf⟩ := single.leafThere leaf page rfl
  obtain ⟨prepared, writes⟩ := isLeaf.preparePage
  rw [ends_update]
  exact ⟨content, present, done _ (single.setLeaf (fun changed => absurd rfl changed) prepared)
    kept_setNode ⟨_, setNode_self, writes⟩⟩

/-- `insert_page_record` on a page with room. -/
theorem SingleLeaf.ends_insertPageRecord
    (held : leaf ∈ store.writeLocks) (rootHeld : store.Holds root) (offset : Nat)
    (record : Record) (fits : pageSize page + record.size ≤ maxPageSize)
    (done : ∀ after, SingleLeaf root old (some (leaf, page.insertIdx offset record)) after →
      Kept store after → post () after) :
    Ends (insertPageRecord leaf offset record) post fails store := by
  obtain ⟨_, _, content, present, _⟩ := single.leafThere leaf page rfl
  rw [insertPageRecord, ends_bind]
  apply ends_of_ok (txLockNode_held (by simp [present]) held true)
  rw [ends_bind]
  apply single.ends_preparePage
  intro prepared ready kept writes
  rw [ends_bind, ends_writerPageOf]
  refine ⟨page, writes, ?_⟩
  rw [ends_bind, ends_assert]
  refine ⟨decide_eq_true fits, ?_⟩
  apply ready.ends_writePage (kept.writeLocks leaf held)
  intro written replaced more writes
  have stays := kept.trans more
  split
  · apply replaced.ends_updateKey (stays.writeLocks leaf held) (stays.holds root rootHeld) _ writes
    intro after keyed last _
    exact done after keyed (stays.trans last)
  · exact done written replaced stays

/-- `remove_page_record` of a record that is there. -/
theorem SingleLeaf.ends_removePageRecord
    (held : leaf ∈ store.writeLocks) (rootHeld : store.Holds root) (offset : Nat)
    (stored : offset < page.length)
    (done : ∀ after, SingleLeaf root old (some (leaf, page.eraseIdx offset)) after →
      Kept store after → after.WriterPage leaf (page.eraseIdx offset) → post () after) :
    Ends (removePageRecord leaf offset) post fails store := by
  obtain ⟨_, _, content, present, _⟩ := single.leafThere leaf page rfl
  rw [removePageRecord, ends_bind]
  apply ends_of_ok (txLockNode_held (by simp [present]) held true)
  rw [ends_bind]
  apply single.ends_preparePage
  intro prepared ready kept writes
  rw [ends_bind, ends_writerPageOf]
  refine ⟨page, writes, ?_⟩
  rw [ends_bind, ends_expect]
  refine ⟨page[offset], List.getElem?_eq_getElem stored, ?_⟩
  apply ready.ends_writePage (kept.writeLocks leaf held)
  intro written replaced more writes
  have stays := kept.trans more
  split
  · apply replaced.ends_updateKey (stays.writeLocks leaf held) (stays.holds root rootHeld) _ writes
    intro after keyed last writes
    exact done after keyed (stays.trans last) writes
  · exact done written replaced stays writes

end LeafWrites

end Gzochi.Btree
