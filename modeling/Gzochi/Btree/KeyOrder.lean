import Gzochi.Btree.Calls
import Gzochi.Btree.SingleLeafCalls

/-!
# The order in which keys are found

`find_key_gte` looks at one page only, the one a search for the key ends at.  As long as
every record that is put fits on the page with the others, there is no other page, and the
keys are found in order.  The first record that does not fit gets a leaf of its own, and
from the last key of one leaf there is no way to the next.
-/

namespace Gzochi.Btree

open Lib Machine

variable {root id leaf : NodeId} {store after : Store} {content : BtreeNode}
  {old current : Option (NodeId × Page)} {page : Page} {fails : Store → Prop}

/-- The keys ascend, and none is empty: `first_key` starts after the empty key. -/
structure Orderly (page : Page) : Prop where
  ascending : Ascending page
  nonempty : ∀ record ∈ page, record.key ≠ []

theorem orderly_nil : Orderly [] := ⟨.nil, nofun⟩

theorem Orderly.otherRecords (orderly : Orderly page) (key : Bytes) :
    Orderly (otherRecords key page) :=
  ⟨orderly.ascending.filter _, fun record member => orderly.nonempty record
    (List.mem_of_mem_filter member)⟩

theorem Orderly.withRecord (orderly : Orderly page) {record : Record} (nonempty : record.key ≠ []) :
    Orderly (withRecord page record) := by
  refine ⟨ascending_insertIdx orderly.ascending record, ?_⟩
  intro other member
  rcases List.eq_or_mem_of_mem_insertIdx member with same | member
  · exact same ▸ nonempty
  · exact orderly.nonempty other (List.mem_of_mem_filter member)

/-- What holds between any two calls. -/
def Sound (store : Store) : Prop :=
  ∃ root old current, SingleLeaf root old current store ∧ Orderly (pageOf old) ∧
    (store.rollbackOnly = false → Orderly (pageOf current))

variable (single : SingleLeaf root old current store)
include single

theorem SingleLeaf.records :
    store.records = pageOf current := by
  obtain ⟨content, present, isRoot⟩ := single.rootThere
  have noPage : content.effectivePage = none := isRoot.view_page
  rw [Store.records, Store.effectiveRoot, single.newRoot, single.rootIs]
  obtain ⟨fuel, enough⟩ := Nat.exists_eq_add_of_lt single.below
  rw [enough, recordsFrom]
  simp only [present, noPage, isRoot.effectiveHeader]
  cases current with
  | none => cases root + fuel <;> simp [recordsFrom, pageOf]
  | some current =>
    obtain ⟨leaf, page⟩ := current
    obtain ⟨apart, below, leafContent, there, isLeaf⟩ := single.leafThere leaf page rfl
    have header : leafContent.effectiveHeader = ⟨some root, none, none, none⟩ :=
      isLeaf.view_header
    have positive : root + fuel ≠ 0 := by
      intro zero
      obtain ⟨rootZero, fuelZero⟩ := Nat.add_eq_zero_iff.mp zero
      rw [enough, rootZero, fuelZero] at below
      exact apart ((Nat.lt_one_iff.mp below).trans rootZero.symm)
    obtain ⟨rest, more⟩ := Nat.exists_eq_succ_of_ne_zero positive
    rw [more]
    cases rest <;> simp [recordsFrom, there, isLeaf.effectivePage, header, pageOf]

theorem SingleLeaf.withAnswers
    (answers : Nat → Bool) : SingleLeaf root old current (store.withAnswers answers) :=
  { single with }

/-- Marking the transaction changes nothing else. -/
theorem SingleLeaf.marking (marked : Bool) :
    SingleLeaf root old current { store with rollbackOnly := marked } :=
  { single with }

theorem SingleLeaf.ends_checkTx
    {post : Bool → Store → Prop}
    (inTime : ∀ after, SingleLeaf root old current after → store.rollbackOnly = false →
      Kept store after → post true after)
    (late : ∀ after, SingleLeaf root old current after → after.rollbackOnly = true →
      (store.rollbackOnly = true ∨ store.Refused) → post false after) :
    Ends checkTx post fails store := by
  rw [checkTx, ends_bind, ends_get]
  cases marked : store.rollbackOnly with
  | true => exact late store single marked (.inl marked)
  | false =>
    simp only [Bool.false_eq_true, if_false, answer, ends_bind, ends_get, ends_modify, ends_pure]
    cases granted : store.answers store.asked with
    | true =>
      exact inTime _ { single with } marked ⟨rfl, rfl, fun _ held => held, fun _ held => held⟩
    | false =>
      simp only [Bool.not_false, if_true, ends_bind, ends_modify, ends_pure]
      exact late _ { single with } rfl (.inr ⟨_, granted⟩)

/-- What `transaction_first_key` and `transaction_next_key` share. -/
theorem SingleLeaf.ends_keyFrom (key : Bytes)
    {post : Option Bytes → Store → Prop}
    (found : ∀ after, SingleLeaf root old current after → store.rollbackOnly = false →
      Kept store after → post (firstKeyGte (pageOf current) key) after)
    (lost : ∀ after, SingleLeaf root old current after →
      (store.rollbackOnly = false ∨ after.rollbackOnly = true) →
      (store.rollbackOnly = true ∨ store.Refused) → post none after) :
    Ends (keyFrom key) post fails store := by
  rw [keyFrom, ends_bind]
  apply single.ends_checkTx
  · intro checked there live kept
    rw [if_pos rfl, ends_bind, ends_attempt]
    apply there.ends_findKeyGte key
    · intro after stays more
      exact found after stays live (kept.trans more)
    · intro after stays refusal
      exact lost after stays (.inl live) (.inr (kept.refused.mp refusal))
  · intro after there marked reason
    exact lost after there (.inr marked) reason

omit single

section Operations

variable (single : SingleLeaf root old current store) (committed : Orderly (pageOf old))
  (orderly : store.rollbackOnly = false → Orderly (pageOf current))

include single committed

/-- A call that has failed marks the transaction. -/
theorem sound_marked : Sound { store with rollbackOnly := true } :=
  ⟨root, old, current, single.marking true, committed, nofun⟩

theorem sound_doomed (marked : store.rollbackOnly = true) : Sound store := by
  refine ⟨root, old, current, single, committed, fun live => ?_⟩
  rw [marked] at live
  cases live

include orderly

theorem ends_transactionPut (key value : Bytes) (fits : store.rollbackOnly = true ∨ key ≠ [] ∧
      pageSize (otherRecords key store.records) + Record.size ⟨key, value⟩ ≤ maxPageSize) :
    Ends (transactionPut key value) (fun _ => Sound) fails store := by
  rw [transactionPut, ends_bind]
  apply single.ends_checkTx
  · intro checked there live kept
    rw [if_pos rfl, ends_bind, ends_attempt]
    obtain ⟨nonempty, room⟩ : key ≠ [] ∧ _ := by
      rcases fits with marked | fits
      · rw [live] at marked
        cases marked
      · exact fits
    rw [single.records] at room
    apply there.ends_putRecord (orderly live).ascending ⟨key, value⟩ room
    · intro leaf after inserted _
      exact ⟨root, old, _, inserted, committed, fun _ => (orderly live).withRecord nonempty⟩
    · intro after current there _
      exact sound_marked there committed
  · intro after there marked _
    exact sound_doomed there committed marked

theorem ends_transactionDelete (key : Bytes) :
    Ends (transactionDelete key) (fun _ => Sound) fails store := by
  rw [transactionDelete, ends_bind]
  apply single.ends_checkTx
  · intro checked there live kept
    rw [if_pos rfl, ends_bind, ends_attempt]
    apply there.ends_deleteRecord (orderly live).ascending key
    · intro result current' after same removed _
      refine ⟨root, old, current', removed, committed, fun _ => ?_⟩
      rw [same]
      exact (orderly live).otherRecords key
    · intro after current there _
      exact sound_marked there committed
  · intro after there marked _
    exact sound_doomed there committed marked

theorem ends_transactionGet (key : Bytes) (forUpdate : Bool) :
    Ends (transactionGet key forUpdate) (fun _ => Sound) fails store := by
  rw [transactionGet, ends_bind]
  apply single.ends_checkTx
  · intro checked there live kept
    rw [if_pos rfl, ends_bind, ends_attempt]
    apply there.ends_getInternal key forUpdate
    · intro found after stays _
      exact ⟨root, old, current, stays, committed, fun _ => orderly live⟩
    · intro after there _
      exact sound_marked there committed
  · intro after there marked _
    exact sound_doomed there committed marked

theorem ends_keyFrom_sound (key : Bytes) : Ends (keyFrom key) (fun _ => Sound) fails store := by
  apply single.ends_keyFrom key
  · intro after there live _
    exact ⟨root, old, current, there, committed, fun _ => orderly live⟩
  · intro after there marked _
    rcases marked with before | marked
    · exact ⟨root, old, current, there, committed, fun _ => orderly before⟩
    · exact sound_doomed there committed marked

end Operations

/-- What `apply_modification` makes of a node. -/
def applied (node : BtreeNode) : Option BtreeNode :=
  if node.isDeleted then none
  else some { node with
    key := node.effectiveKey, newKey := none
    page := node.effectivePage, newPage := none
    header := node.effectiveHeader, newHeader := none
    isNew := false, isDeleted := false }

theorem applyModification_ends (present : store.node id = some content)
    (locked : id ∈ store.writeLocks)
    (clean : content.isDeleted = true → content.newKey = none ∧ content.newPage = none) :
    applyModification id store = .ok () { store.setNode id (applied content) with
        writeLocks := store.writeLocks.erase id } := by
  cases isDeleted : content.isDeleted with
  | true =>
    obtain ⟨key, page⟩ := clean isDeleted
    simp [applyModification, deleteNode, load, Machine.get, Machine.expect, Machine.assert,
      Machine.modify, present, locked, isDeleted, key, page, applied]
  | false =>
    simp [applyModification, txUnlockNode, update, load, Machine.get, Machine.expect,
      Machine.assert, Machine.modify, present, locked, isDeleted, applied, Store.setNode]

/-- The store after the nodes of the list have been settled. -/
def Store.settled (store : Store) (change : BtreeNode → Option BtreeNode) : Store :=
  { store with
    node := fun id => if id ∈ store.modifications then (store.node id).bind change
      else store.node id
    modifications := [], writeLocks := [], readLocks := [], rollbackOnly := false }

variable {change : BtreeNode → Option BtreeNode}

theorem settled_listed (member : id ∈ store.modifications)
    (present : store.node id = some content) :
    (store.settled change).node id = change content := by
  simp [Store.settled, member, present]

theorem settled_unlisted (missing : id ∉ store.modifications) :
    (store.settled change).node id = store.node id := if_neg missing

section Endings

variable (single : SingleLeaf root old current store)

include single

/-- Every node on the list can be settled, one way or the other. -/
theorem SingleLeaf.listed_ready (member : id ∈ store.modifications) :
    ∃ content, store.node id = some content ∧ id ∈ store.writeLocks ∧
      (content.isNew = true ∨ content.isDeleted = true →
        content.newKey = none ∧ content.newPage = none) := by
  have locked := single.locked id member
  have leaf : ∀ page, current = some (id, page) → ∃ content, store.node id = some content ∧
      id ∈ store.writeLocks ∧ (content.isNew = true ∨ content.isDeleted = true →
        content.newKey = none ∧ content.newPage = none) := by
    intro page same
    obtain ⟨_, _, content, present, isLeaf⟩ := single.leafThere id page same
    refine ⟨content, present, locked, ?_⟩
    rintro (isNew | isDeleted)
    · apply isLeaf.clean
      rw [isLeaf.isNew] at isNew
      exact Option.isNone_iff_eq_none.mp isNew
    · rw [isLeaf.isDeleted] at isDeleted
      cases isDeleted
  have seen : current.map Prod.fst = some id → ∃ page, current = some (id, page) := by
    intro same
    cases current with
    | none => cases same
    | some current =>
      injection same with same
      exact ⟨current.2, by rw [← same]⟩
  rcases single.listed id member with same | same | same
  · obtain ⟨content, present, isRoot⟩ := single.rootThere
    refine ⟨content, same ▸ present, locked, ?_⟩
    rw [isRoot.isNew, isRoot.isDeleted]
    rintro (absurd | absurd) <;> cases absurd
  · obtain ⟨page, same⟩ := seen same
    exact leaf page same
  · cases old with
    | none => cases same
    | some old =>
      injection same with same
      obtain ⟨_, _, there⟩ := single.oldThere id old.2 (by rw [← same])
      rcases there with same | ⟨content, present, isRemoved⟩
      · obtain ⟨page, same⟩ := seen same
        exact leaf page same
      · exact ⟨content, present, locked, fun _ => ⟨isRemoved.newKey, isRemoved.newPage⟩⟩

theorem SingleLeaf.commit_eq : commit store = .ok () (store.settled applied) := by
  obtain ⟨locks, done⟩ := settleAll_ends applyModification_ends store.modifications single.nodup
    fun id member => by
      obtain ⟨content, present, locked, clean⟩ := single.listed_ready member
      exact ⟨content, present, locked, fun isDeleted => clean (.inr isDeleted)⟩
  have same : (if wrapperLock ∈ store.writeLocks then
      { store with root := store.newRoot.getD store.root, newRoot := none } else store) =
        store := by
    split
    · rw [single.newRoot, Option.getD_none, ← single.newRoot]
    · rfl
  rw [commit, bind_apply, Machine.modify, same]
  simp only [bind_apply, Machine.get, done]
  rfl

theorem SingleLeaf.rollback_eq : rollback store = .ok () (store.settled undone) := by
  obtain ⟨locks, done⟩ := settleAll_ends rollbackModification_ends store.modifications single.nodup
    fun id member => by
      obtain ⟨content, present, locked, clean⟩ := single.listed_ready member
      exact ⟨content, present, locked, fun isNew => clean (.inl isNew)⟩
  have same : (if store.newRoot.isSome ∧ wrapperLock ∈ store.writeLocks then
      { store with newRoot := none } else store) = store := by
    rw [if_neg]
    simp [single.newRoot]
  rw [rollback, bind_apply, Machine.modify, same]
  simp only [bind_apply, Machine.get, done]
  rfl

/-- A tree without pending changes, from its root and its leaf. -/
theorem SingleLeaf.of_settled {change : BtreeNode → Option BtreeNode}
    (kept : Option (NodeId × Page))
    (top : ∃ content, (store.settled change).node root = some content ∧
      IsRoot (kept.map Prod.fst) (kept.map Prod.fst) content)
    (bottom : ∀ leaf page, kept = some (leaf, page) → leaf ≠ root ∧ leaf < store.fresh ∧
      ∃ content, (store.settled change).node leaf = some content ∧
        IsLeaf root (some page) page content) :
    SingleLeaf root kept kept (store.settled change) where
  rootIs := single.rootIs
  newRoot := single.newRoot
  loopBound := single.loopBound
  below := single.below
  rootThere := top
  leafThere := by
    intro leaf page same
    have before : pageBefore kept leaf = some page := by
      rw [same]
      exact if_pos rfl
    rw [before]
    exact bottom leaf page same
  oldThere := by
    intro leaf page same
    obtain ⟨apart, below, _⟩ := bottom leaf page same
    exact ⟨apart, below, .inl (by rw [same]; rfl)⟩
  rootListed := fun changed => absurd rfl changed
  leafListed := by
    rintro leaf page same changed
    rw [same] at changed
    exact absurd (if_pos rfl) changed
  removedListed := by
    intro leaf page same changed
    rw [same] at changed
    exact absurd rfl changed
  listed := nofun
  nodup := .nil
  locked := nofun

/-- A root that is not on the list has the child it had. -/
theorem SingleLeaf.unlistedRoot (missing : root ∉ store.modifications) :
    current.map Prod.fst = old.map Prod.fst := by
  by_contra changed
  exact missing (single.rootListed changed)

/-- A leaf that is not on the list has the page it had. -/
theorem SingleLeaf.unlistedLeaf (same : current = some (leaf, page))
    (missing : leaf ∉ store.modifications) : pageBefore old leaf = some page := by
  by_contra changed
  exact missing (single.leafListed leaf page same changed)

/-- After a commit the leaf the transaction saw is the committed one. -/
theorem SingleLeaf.committed : SingleLeaf root current current (store.settled applied) := by
  apply single.of_settled
  · obtain ⟨content, present, isRoot⟩ := single.rootThere
    by_cases member : root ∈ store.modifications
    · refine ⟨_, (settled_listed member present).trans (if_neg (by simp [isRoot.isDeleted])), ?_⟩
      have page : content.effectivePage = none := isRoot.view_page
      exact ⟨isRoot.effectiveHeader, isRoot.effectiveHeader, rfl, rfl, page, rfl,
        isRoot.minChildren, isRoot.maxChildren⟩
    · refine ⟨content, (settled_unlisted member).trans present, ?_⟩
      rw [← single.unlistedRoot member] at isRoot
      exact isRoot
  · intro leaf page same
    obtain ⟨apart, below, content, present, isLeaf⟩ := single.leafThere leaf page same
    refine ⟨apart, below, ?_⟩
    by_cases member : leaf ∈ store.modifications
    · refine ⟨_, (settled_listed member present).trans (if_neg (by simp [isLeaf.isDeleted])), ?_⟩
      have header : content.effectiveHeader = ⟨some root, none, none, none⟩ := isLeaf.view_header
      refine ⟨header, rfl, rfl, rfl, ?_, ?_, nofun⟩
      · rintro page' same
        injection same with same
        exact same ▸ isLeaf.effectivePage
      · simp [BtreeNode.effectivePage, ← isLeaf.effectivePage]
    · refine ⟨content, (settled_unlisted member).trans present, ?_⟩
      rw [← single.unlistedLeaf same member]
      exact isLeaf

omit single in
/-- Whatever a transaction has done to the committed leaf is undone. -/
theorem isLeaf_undone (header : content.header = ⟨some root, none, none, none⟩)
    (isOld : content.isNew = false) (stored : content.page = some page) :
    ∃ node, undone content = some node ∧ IsLeaf root (some page) page node := by
  refine ⟨_, if_neg (by simp [isOld]), header, rfl, rfl, rfl, ?_, ?_, nofun⟩
  · rintro page' same
    injection same with same
    exact same ▸ stored
  · simp [BtreeNode.effectivePage, stored]

/-- After a rollback the committed leaf is back. -/
theorem SingleLeaf.rolledBack : SingleLeaf root old old (store.settled undone) := by
  apply single.of_settled
  · obtain ⟨content, present, isRoot⟩ := single.rootThere
    by_cases member : root ∈ store.modifications
    · refine ⟨_, (settled_listed member present).trans (if_neg (by simp [isRoot.isNew])), ?_⟩
      exact ⟨isRoot.header, isRoot.header, rfl, rfl, isRoot.page, rfl, isRoot.minChildren,
        isRoot.maxChildren⟩
    · refine ⟨content, (settled_unlisted member).trans present, ?_⟩
      rw [single.unlistedRoot member] at isRoot
      exact isRoot
  · intro leaf page same
    obtain ⟨apart, below, _⟩ := single.oldThere leaf page same
    have before : pageBefore old leaf = some page := by
      rw [same]
      exact if_pos rfl
    refine ⟨apart, below, ?_⟩
    by_cases kept : current.map Prod.fst = some leaf
    · obtain ⟨seen, seenSame⟩ : ∃ seen, current = some (leaf, seen) := by
        cases current with
        | none => cases kept
        | some current =>
          injection kept with kept
          exact ⟨current.2, by rw [← kept]⟩
      obtain ⟨_, _, content, present, isLeaf⟩ := single.leafThere leaf seen seenSame
      rw [before] at isLeaf
      by_cases member : leaf ∈ store.modifications
      · rw [settled_listed member present]
        exact isLeaf_undone isLeaf.header isLeaf.isNew (isLeaf.committed page rfl)
      · have unchanged := single.unlistedLeaf seenSame member
        rw [before] at unchanged
        cases unchanged
        exact ⟨content, (settled_unlisted member).trans present, isLeaf⟩
    · obtain ⟨_, _, there⟩ := single.oldThere leaf page same
      obtain ⟨content, present, isRemoved⟩ := there.resolve_left kept
      rw [settled_listed (single.removedListed leaf page same kept) present]
      exact isLeaf_undone isRemoved.header isRemoved.isNew isRemoved.page

end Endings

/-- A record that is put has a key, and there is room for it beside the records under other
keys.  A transaction that has been marked for rollback puts nothing. -/
def Fits (store : Store) : Call × (Nat → Bool) → Prop
  | (.operation (.put key value), _) =>
      store.rollbackOnly = true ∨ key ≠ [] ∧
        pageSize (otherRecords key store.records) + Record.size ⟨key, value⟩ ≤ maxPageSize
  | _ => True

instance (store : Store) (action : Call × (Nat → Bool)) : Decidable (Fits store action) :=
  match action with
  | (.operation (.put key value), _) =>
      inferInstanceAs (Decidable (store.rollbackOnly = true ∨ key ≠ [] ∧
        pageSize (otherRecords key store.records) + Record.size ⟨key, value⟩ ≤ maxPageSize))
  | (.operation (.get _ _), _) | (.operation (.delete _), _) | (.query _, _) | (.commit, _)
  | (.rollback, _) => inferInstanceAs (Decidable True)

theorem sound_createBtree {loopBound : Nat} (enough : 2 ≤ loopBound) :
    Sound (createBtree loopBound) := by
  refine ⟨1, none, none, ?_, orderly_nil, fun _ => orderly_nil⟩
  exact {
    rootIs := rfl
    newRoot := rfl
    loopBound := enough
    below := Nat.lt_succ_self 1
    rootThere := ⟨_, rfl, ⟨rfl, rfl, rfl, rfl, rfl, rfl, rfl, rfl⟩⟩
    leafThere := nofun
    oldThere := nofun
    rootListed := fun changed => absurd rfl changed
    leafListed := nofun
    removedListed := nofun
    listed := nofun
    nodup := .nil
    locked := nofun }

/-- No call crashes, but for the commit of a transaction that must not be committed. -/
theorem ends_call (sound : Sound store) (call : Call) (answers : Nat → Bool)
    (fits : Fits store (call, answers)) (allowed : call = .commit → store.rollbackOnly = false) :
    Ends call.perform (fun _ => Sound) (fun _ => False) (store.withAnswers answers) := by
  obtain ⟨root, old, current, single, committed, orderly⟩ := sound
  have there := single.withAnswers answers
  have live : (store.withAnswers answers).rollbackOnly = false → Orderly (pageOf current) := orderly
  cases call with
  | operation made =>
    rw [Call.perform, ends_bind]
    cases made with
    | get key forUpdate =>
      rw [Operation.perform, ends_bind]
      exact ends_transactionGet there committed live key forUpdate
    | put key value =>
      apply ends_transactionPut there committed live key value
      rw [there.records, ← single.records]
      exact fits
    | delete key =>
      rw [Operation.perform, ends_bind]
      exact ends_transactionDelete there committed live key
  | query made =>
    cases made with
    | get key =>
      exact ends_transactionGet there committed live key false
    | firstKey => exact ends_keyFrom_sound there committed live [0]
    | nextKey key => exact ends_keyFrom_sound there committed live (keyAfter key)
  | commit =>
    have unmarked := allowed rfl
    rw [Call.perform, ends_bind, ends_get, ends_bind, ends_assert]
    refine ⟨by simpa [Store.withAnswers] using unmarked, ?_⟩
    rw [ends_bind]
    apply ends_of_ok there.commit_eq
    exact ⟨root, current, current, there.committed, orderly unmarked, fun _ => orderly unmarked⟩
  | rollback =>
    rw [Call.perform, ends_bind]
    apply ends_of_ok there.rollback_eq
    exact ⟨root, old, old, there.rolledBack, committed, fun _ => committed⟩

theorem sound_step {action : Call × (Nat → Bool)} {reply : Option Bytes} (sound : Sound store)
    (fits : Fits store action) (taken : step store action = some (after, reply)) : Sound after := by
  obtain ⟨call, answers⟩ := action
  have allowed : call = .commit → store.rollbackOnly = false := by
    rintro rfl
    by_contra marked
    rw [Bool.not_eq_false] at marked
    rw [step] at taken
    simp [Call.perform, Machine.get, Machine.assert, Machine.crash, Store.withAnswers, marked]
      at taken
  have ends := ends_call sound call answers fits allowed
  simp only [Ends] at ends
  rw [step] at taken
  dsimp only at taken
  cases outcome : call.perform (store.withAnswers answers) with
  | ok value state =>
    rw [outcome] at ends taken
    injection taken with same
    injection same with same _
    exact same ▸ ends
  | failed state | crashed =>
    rw [outcome] at taken
    cases taken

/-- A search that is granted every lock, in a transaction that is not marked. -/
theorem SingleLeaf.keyFrom_granted (single : SingleLeaf root old current store)
    (live : store.rollbackOnly = false) (granted : ¬store.Refused) (key : Bytes) :
    ∃ after, keyFrom key store = .ok (firstKeyGte (pageOf current) key) after ∧
      SingleLeaf root old current after ∧ after.rollbackOnly = false ∧ ¬after.Refused := by
  have ends : Ends (keyFrom key) (fun found after => found = firstKeyGte (pageOf current) key ∧
      SingleLeaf root old current after ∧ after.rollbackOnly = false ∧ ¬after.Refused)
      (fun _ => False) store := by
    apply single.ends_keyFrom key
    · intro after there _ kept
      exact ⟨rfl, there, kept.rollbackOnly.trans live, fun refusal => granted
        (kept.refused.mp refusal)⟩
    · intro after _ _ reason
      rcases reason with marked | refusal
      · rw [live] at marked
        cases marked
      · exact absurd refusal granted
  simp only [Ends] at ends
  cases outcome : keyFrom key store with
  | ok value after =>
    rw [outcome] at ends
    exact ⟨after, by rw [ends.1], ends.2⟩
  | failed after | crashed =>
    rw [outcome] at ends
    exact ends.elim

/-- From one key of the page, the keys after it are visited one after the other. -/
theorem SingleLeaf.visitKeys_ends (single : SingleLeaf root old current store)
    (live : store.rollbackOnly = false) (granted : ¬store.Refused)
    (ascending : Ascending (pageOf current)) (early late : Page)
    (split : pageOf current = early ++ late) (bound : Nat) (enough : late.length ≤ bound) :
    ∃ after, visitKeys bound (late.head?.map Record.key) store =
      .ok (late.map Record.key) after := by
  induction late generalizing store early bound with
  | nil => exact ⟨store, by cases bound <;> rfl⟩
  | cons record rest ih =>
    obtain ⟨rounds, same⟩ := Nat.exists_eq_succ_of_ne_zero
      (Nat.ne_of_gt (Nat.lt_of_lt_of_le (Nat.succ_pos _) enough))
    subst same
    obtain ⟨middle, found, there, stillLive, stillGranted⟩ :=
      single.keyFrom_granted live granted (keyAfter record.key)
    have next : firstKeyGte (pageOf current) (keyAfter record.key) = rest.head?.map Record.key := by
      rw [split]
      exact firstKeyGte_keyAfter (split ▸ ascending)
    have further : pageOf current = (early ++ [record]) ++ rest := by
      rw [split]
      simp
    obtain ⟨after, visited⟩ := ih there stillLive stillGranted (early ++ [record]) further rounds
      (Nat.le_of_succ_le_succ enough)
    refine ⟨after, ?_⟩
    rw [next] at found
    simp only [List.head?_cons, Option.map_some, visitKeys, transactionNextKey, bind_apply, found,
      visited, List.map_cons, pure_apply]

/-- In a run in which everything fits on one page, the keys that a transaction stores are
found in ascending order, each exactly once. -/
theorem keys_found {loopBound : Nat} (enough : 2 ≤ loopBound)
    {trace : List ((Call × (Nat → Bool)) × Option Bytes)}
    (run : Run step Fits (createBtree loopBound) trace store)
    (live : store.rollbackOnly = false) : FindsKeys store := by
  have sound : Sound store := run.state_invariant Sound (sound_createBtree enough) sound_step
  obtain ⟨root, old, current, single, _, orderly⟩ := sound
  have page := orderly live
  have there : SingleLeaf root old current store.granted := single.withAnswers _
  have always : ¬store.granted.Refused := by
    rintro ⟨index, refused⟩
    cases refused
  constructor
  · obtain ⟨after, found, _⟩ := there.keyFrom_granted live always [0]
    refine ⟨_, after, found, ?_⟩
    have least := firstKeyGte_least page.ascending [0]
    have same : {found | found ∈ keysOf (pageOf current) ∧ [0] ≤ found} =
        keysOf (pageOf current) := by
      ext key
      constructor
      · exact fun member => member.1
      · rintro ⟨record, member, rfl⟩
        exact ⟨⟨record, member, rfl⟩, (zero_le_iff _).mpr (page.nonempty record member)⟩
    rw [same] at least
    rw [single.records]
    exact least
  · intro key
    obtain ⟨after, found, _⟩ := there.keyFrom_granted live always (keyAfter key)
    refine ⟨_, after, found, ?_⟩
    have least := firstKeyGte_least page.ascending (keyAfter key)
    simp only [keyAfter_le_iff] at least
    rw [single.records]
    exact least
  · intro bound enough
    rw [single.records] at enough ⊢
    obtain ⟨middle, found, begun, stillLive, stillGranted⟩ :=
      there.keyFrom_granted live always [0]
    have first : firstKeyGte (pageOf current) [0] = (pageOf current).head?.map Record.key :=
      firstKeyGte_append [] (pageOf current) [0] nofun fun record member =>
        (zero_le_iff _).mpr (page.nonempty record member)
    obtain ⟨after, visited⟩ := begun.visitKeys_ends stillLive stillGranted page.ascending []
      (pageOf current) rfl bound enough
    refine ⟨(pageOf current).map Record.key, after, ?_, ?_, ?_⟩
    · rw [first] at found
      simp only [iterateKeys, transactionFirstKey, bind_apply, found, visited]
    · exact List.pairwise_map.mpr page.ascending
    · intro key
      rw [List.mem_map]
      rfl

/-- A call in a transaction that is never refused. -/
def unrefused (call : Call) : Call × (Nat → Bool) := (call, fun _ => true)

/-- Two records committed, a third taken back, and the first deleted again. -/
theorem keys_found_small : ∃ trace store,
    Run step Fits (createBtree 2) trace store ∧ store.records.map Record.key = [[7, 0]] ∧
      FindsKeys store := by
  let fitting := fun state action => if Fits state action then step state action else none
  let actions := [.operation (.put [7, 0] [1]), .operation (.put [7] [2]), .commit,
    .operation (.put [8] [3]), .rollback, .operation (.delete [7])].map unrefused
  have ran : (exec fitting (createBtree 2) actions).map
      (fun reached => (reached.2.records.map Record.key, reached.2.rollbackOnly)) =
        some ([[7, 0]], false) := by
    decide +kernel
  obtain ⟨⟨trace, store⟩, executed, same⟩ := Option.map_eq_some_iff.mp ran
  injection same with keys live
  have run := run_of_tested_exec executed
  exact ⟨trace, store, run, keys, keys_found (by decide) run live⟩

/-- Two records of 3000 bytes do not fit on one page, and from the first there is no way to
the second. -/
theorem next_leaf_missed : ¬∀ loopBound trace store, 2 ≤ loopBound →
    Run step anyAction (createBtree loopBound) trace store → store.rollbackOnly = false →
      FindsKeys store := by
  intro claim
  let large := List.replicate 3000 (0 : Byte)
  let actions := [.operation (.put [1] large), .operation (.put [2] large)].map unrefused
  have ran : (exec step (createBtree 4) actions).map
      (fun reached => (reached.2.records.map Record.key, reached.2.rollbackOnly,
        endsIn (fun found _ => decide (found = none)) (transactionNextKey [1] reached.2.granted))) =
        some ([[1], [2]], false, true) := by
    decide +kernel
  obtain ⟨⟨trace, store⟩, executed, same⟩ := Option.map_eq_some_iff.mp ran
  injection same with keys same
  injection same with live missed
  have finds := claim 4 trace store (by decide) (run_of_exec executed) live
  obtain ⟨found, after, ended, least⟩ := finds.nextKey [1]
  obtain ⟨value, state, same, absent⟩ := endsIn_ok missed
  rw [ended] at same
  injection same with same _
  rw [same, of_decide_eq_true absent] at least
  have empty : {other | other ∈ keysOf store.records ∧ [1] < other} = ∅ := least
  have stored : [2] ∈ keysOf store.records := by
    have member : ([2] : Bytes) ∈ store.records.map Record.key := by
      rw [keys]
      decide
    exact List.mem_map.mp member
  have there : [2] ∈ {other | other ∈ keysOf store.records ∧ ([1] : Bytes) < other} :=
    ⟨stored, by decide⟩
  rw [empty] at there
  exact there

end Gzochi.Btree
