import Gzochi.DataClient.Protocol

/-!
# Submission of changesets

A transaction commits to the local store first and submits its changeset to the meta server
afterwards; both are steps of their own, and other transactions may take theirs in between.

The local store is taken as a correct transactional map: it keeps a key that a transaction
has changed to that transaction until it ends, and it takes no record that is longer than
one of its pages.  What the other parts of the client do to the value cache is left open.
-/

namespace Gzochi.DataClient

open Lib List Function

/-- The part of a node that commits. -/
structure Committer where
  cache : Values
  store : Values
  active : List TxId
  nextTx : TxId
  transaction : TxId → Transaction
  unsubmitted : List (TxId × List Change)
  outbound : List Bytes

inductive CommitAction where
  | cached (key : QualifiedKey) (value : Option Prefixed)
  | begin
  | put (tx : TxId) (now : Nat) (store : Name) (key value : Bytes)
  | delete (tx : TxId) (store : Name) (key : Bytes)
  | commit (tx : TxId)
  | submit (tx : TxId)
  | rollback (tx : TxId)
  deriving DecidableEq

/-- `gzochid_dataclient_submit_changeset`, with the message that it writes. -/
def submitChangeset (app : Name) (changes : List Change) : Option Bytes :=
  let payload := changesetWrite app changes
  if payload.length ≤ maxMessageLength then some (formatMessage submitChangesetOpcode payload)
  else none

/-- `MAX_PAGE_SIZE` of the local store. -/
def maxPageSize : Nat := 4096

/-- The assertion of `insert_page_record`: a record is a key and a value after their lengths,
and the local store keeps the value behind its time of eight bytes. -/
def FitsPage (key value : Bytes) : Prop := key.length + (value.length + 8) + 4 ≤ maxPageSize

instance (key value : Bytes) : Decidable (FitsPage key value) := inferInstanceAs (Decidable (_ ≤ _))

namespace Committer

def initial : Committer where
  cache _ := none
  store _ := none
  active := []
  nextTx := 0
  transaction _ := .begin
  unsubmitted := []
  outbound := []

/-- No other transaction has changed the key. -/
def Mine (node : Committer) (tx : TxId) (key : QualifiedKey) : Prop :=
  tx ∈ node.active ∧ ∀ other ∈ node.active, other ≠ tx →
    ∀ change ∈ (node.transaction other).changeset, change.key ≠ key

instance (node : Committer) (tx : TxId) (key : QualifiedKey) : Decidable (node.Mine tx key) :=
  inferInstanceAs (Decidable (_ ∧ _))

/-- One step; whether a change was made.  A put of a record that is too long ends the process. -/
def step (app : Name) (node : Committer) : CommitAction → Option (Committer × Bool)
  | .cached key value => some ({ node with cache := update node.cache key value }, false)
  | .begin =>
      some ({ node with
        active := node.nextTx :: node.active
        nextTx := node.nextTx + 1
        transaction := update node.transaction node.nextTx .begin }, false)
  | .put tx now store key value =>
      if node.Mine tx ⟨store.bytes, key⟩ ∧ FitsPage key value then
        some ({ node with
          transaction := update node.transaction tx
            (transactionPut now (node.transaction tx) ⟨store.bytes, key⟩ value) }, true)
      else none
  | .delete tx store key =>
      if node.Mine tx ⟨store.bytes, key⟩ then
        let deleted := transactionDelete node.cache node.store (node.transaction tx)
          ⟨store.bytes, key⟩
        some ({ node with transaction := update node.transaction tx deleted.1 }, deleted.2)
      else none
  | .commit tx =>
      if tx ∈ node.active then
        some ({ node with
          store := (node.transaction tx).view node.store
          active := node.active.filter (· ≠ tx)
          unsubmitted := node.unsubmitted ++ [(tx, (node.transaction tx).changeset)] }, false)
      else none
  | .submit tx =>
      match node.unsubmitted.find? (·.1 = tx) with
      | none => none
      | some (_, changes) =>
          some ({ node with
            unsubmitted := node.unsubmitted.eraseP (·.1 = tx)
            outbound := node.outbound ++
              if changes = [] then [] else (submitChangeset app changes).toList }, false)
  | .rollback tx =>
      if tx ∈ node.active then
        some ({ node with active := node.active.filter (· ≠ tx) }, false)
      else none

/-- The changesets that have to be submitted. -/
def waiting (entries : List (TxId × List Change)) : List (List Change) :=
  (entries.map Prod.snd).filter (· ≠ [])

/-- The changesets that are committed here and not submitted yet. -/
def pending (node : Committer) : List (List Change) := waiting node.unsubmitted

/-- A changeset is only committed when the meta server can read it as it is and no other
one waits for its submission. -/
def Submittable (app : Name) (node : Committer) : CommitAction → Prop
  | .commit tx => (node.transaction tx).changeset ≠ [] →
      Encodable app (node.transaction tx).changeset ∧ node.pending = []
  | .cached _ _ | .begin | .put _ _ _ _ _ | .delete _ _ _ | .submit _ | .rollback _ => True

end Committer

/-! ## What a run has done -/

/-- The change that a step of a transaction has made. -/
def changeOf (tx : TxId) : CommitAction × Bool → Option Change
  | (.put own _ store key value, _) =>
      if own = tx then some ⟨⟨store.bytes, key⟩, some value⟩ else none
  | (.delete own store key, true) => if own = tx then some ⟨⟨store.bytes, key⟩, none⟩ else none
  | _ => none

/-- The puts and deletions of a transaction. -/
def changesOf (trace : List (CommitAction × Bool)) (tx : TxId) : List Change :=
  trace.filterMap (changeOf tx)

def commitOf : CommitAction × Bool → Option TxId
  | (.commit tx, _) => some tx
  | _ => none

/-- What the transactions have changed that were committed locally, in the order of their
commits. -/
def committed (trace : List (CommitAction × Bool)) : List (List Change) :=
  ((trace.filterMap commitOf).map (changesOf trace)).filter (· ≠ [])

/-- Values without their times. -/
abbrev Contents := QualifiedKey → Option Bytes

def contents (values : Values) : Contents := fun key => (values key).map Prefixed.value

/-- What the changes make of a map. -/
def replay (contents : Contents) (changes : List Change) : Contents :=
  changes.foldl (fun contents change => update contents change.key change.data) contents

variable {app : Name} {node next : Committer} {trace : List (CommitAction × Bool)} {tx : TxId}

theorem changesOf_snoc (trace : List (CommitAction × Bool)) (entry : CommitAction × Bool)
    (tx : TxId) :
    changesOf (trace ++ [entry]) tx = changesOf trace tx ++ (changeOf tx entry).toList := by
  simp [changesOf, filterMap_append, filterMap_cons]
  cases changeOf tx entry <;> rfl

variable {entry : CommitAction × Bool}

theorem changesOf_snoc_none (none_ : changeOf tx entry = none) :
    changesOf (trace ++ [entry]) tx = changesOf trace tx := by
  rw [changesOf_snoc, none_]
  simp

/-- What is committed does not change when others go on. -/
theorem committed_snoc_other (notCommit : commitOf entry = none)
    (others : ∀ tx ∈ trace.filterMap commitOf, changeOf tx entry = none) :
    committed (trace ++ [entry]) = committed trace := by
  unfold committed
  have same : (trace ++ [entry]).filterMap commitOf = trace.filterMap commitOf := by
    simp [filterMap_append, notCommit]
  rw [same]
  congr 1
  refine map_congr_left fun tx member => ?_
  exact changesOf_snoc_none (others tx member)

theorem committed_snoc_commit (trace : List (CommitAction × Bool)) (tx : TxId) (answer : Bool) :
    committed (trace ++ [(.commit tx, answer)]) =
      committed trace ++ [changesOf trace tx].filter (· ≠ []) := by
  unfold committed
  have same : ∀ own, changesOf (trace ++ [(.commit tx, answer)]) own = changesOf trace own :=
    fun own => changesOf_snoc_none rfl
  rw [filterMap_append, map_append, filter_append, funext same]
  rfl

theorem replay_append (base : Contents) (early late : List Change) :
    replay base (early ++ late) = replay (replay base early) late :=
  foldl_append

variable {key : QualifiedKey}

/-- What a replay leaves at a key depends on what was there. -/
theorem replay_congr {first second : Contents} (changes : List Change)
    (same : first key = second key) : replay first changes key = replay second changes key := by
  induction changes generalizing first second with
  | nil => exact same
  | cons change changes ih =>
    refine ih ?_
    by_cases here : key = change.key
    · simp [here]
    · simp [update_of_ne here, same]

theorem replay_of_ne {base : Contents} {changes : List Change}
    (others : ∀ change ∈ changes, change.key ≠ key) : replay base changes key = base key := by
  induction changes generalizing base with
  | nil => rfl
  | cons change changes ih =>
    have apart : key ≠ change.key := (others change mem_cons_self).symm
    exact (ih fun other member => others other (mem_cons_of_mem _ member)).trans
      (update_of_ne apart _ _)

variable {cache store : Values} {transaction : Transaction}

theorem transactionDelete_missing
    (missing : (transactionDelete cache store transaction key).2 = false) :
    (transactionDelete cache store transaction key).1 = transaction := by
  unfold transactionDelete at missing ⊢
  split
  · simp_all
  · split
    · simp_all
    · rfl

theorem transactionDelete_found (found : (transactionDelete cache store transaction key).2 = true) :
    (transactionDelete cache store transaction key).1.changeset =
        transaction.changeset ++ [⟨key, none⟩] ∧
      (transactionDelete cache store transaction key).1.deletedKeys =
        transaction.deletedKeys ++ [key] := by
  unfold transactionDelete at found ⊢
  split
  · exact ⟨rfl, rfl⟩
  · split
    · exact ⟨rfl, rfl⟩
    · simp_all

/-- The changeset of a transaction says what it does to the local store. -/
structure Describes (store : Values) (transaction : Transaction) : Prop where
  same : replay (contents store) transaction.changeset = contents (transaction.view store)
  only : ∀ key, (∀ change ∈ transaction.changeset, change.key ≠ key) →
    transaction.writes key = none

namespace Describes

variable {cache store : Values} {transaction other : Transaction} {key : QualifiedKey}

theorem begin (store : Values) : Describes store .begin := ⟨rfl, fun _ _ => rfl⟩

variable (describes : Describes store transaction)
include describes

/-- A change of one key. -/
theorem change {after : Transaction} {data : Option Bytes}
    (changeset : after.changeset = transaction.changeset ++ [⟨key, data⟩])
    (others : ∀ other, other ≠ key → after.writes other = transaction.writes other)
    (here : contents (after.view store) key = data) : Describes store after := by
  constructor
  · rw [changeset, replay_append, describes.same]
    funext other
    by_cases same : other = key
    · subst same
      exact (update_self _ _ _).trans here.symm
    · refine (update_of_ne same _ _).trans ?_
      simp only [contents, Transaction.view, others other same]
  · intro other unchanged
    have apart : other ≠ key := by
      refine (unchanged ⟨key, data⟩ ?_).symm
      rw [changeset]
      exact mem_append_right _ mem_cons_self
    rw [others other apart]
    refine describes.only other fun change member => unchanged change ?_
    rw [changeset]
    exact mem_append_left _ member

theorem transactionPut (now : Nat) (key : QualifiedKey)
    (value : Bytes) : Describes store (transactionPut now transaction key value) :=
  describes.change rfl (fun _ apart => update_of_ne apart _ _)
    (by simp [contents, Transaction.view, DataClient.transactionPut])

theorem transactionDelete (cache : Values)
    (key : QualifiedKey) : Describes store (transactionDelete cache store transaction key).1 := by
  have deletes := Session.transactionDelete_deletes cache store transaction key
  cases found : (DataClient.transactionDelete cache store transaction key).2 with
  | false =>
    rw [transactionDelete_missing found]
    exact describes
  | true =>
    refine describes.change (transactionDelete_found found).1
      (fun other apart => (deletes.others other apart).1) ?_
    simp [contents, deletes.gone]

/-- Another transaction commits, which has changed other keys. -/
theorem commit (committing : Describes store other)
    (apart : ∀ change ∈ transaction.changeset, ∀ taken ∈ other.changeset, change.key ≠ taken.key) :
    Describes (other.view store) transaction := by
  refine ⟨funext fun key => ?_, describes.only⟩
  by_cases changed : ∃ change ∈ transaction.changeset, change.key = key
  · obtain ⟨change, member, rfl⟩ := changed
    have untouched : other.view store change.key = store change.key := by
      have unwritten := committing.only change.key fun taken takes =>
        (apart change member taken takes).symm
      simp [Transaction.view, unwritten]
    calc replay (contents (other.view store)) transaction.changeset change.key
        = replay (contents store) transaction.changeset change.key :=
          replay_congr _ (congrArg (Option.map Prefixed.value) untouched)
      _ = contents (transaction.view store) change.key := congrFun describes.same change.key
      _ = contents (transaction.view (other.view store)) change.key := by
          unfold contents
          rw [Transaction.view, Transaction.view, untouched]
  · have others : ∀ change ∈ transaction.changeset, change.key ≠ key :=
      fun change member same => changed ⟨change, member, same⟩
    rw [replay_of_ne others]
    simp [contents, Transaction.view, describes.only key others]

end Describes

/-- The changeset as the meta server reads it. -/
def received (app : Name) (changes : List Change) : Option Changeset :=
  some ⟨app.bytes, changes.map some⟩

namespace Committer

/-- What is committed here is submitted or waits for its submission, in the same order. -/
structure Submitted (app : Name) (trace : List (CommitAction × Bool)) (node : Committer) :
    Prop where
  order : node.outbound.map dispatchSubmitChangeset ++ node.pending.map (received app) =
    (committed trace).map (received app)
  few : node.pending.length ≤ 1
  readable : ∀ changes ∈ node.pending, Encodable app changes ∧
    ∀ change ∈ changes, 0 ∉ change.key.store
  recorded : ∀ tx ∈ node.active, (node.transaction tx).changeset = changesOf trace tx
  named : ∀ tx, ∀ change ∈ changesOf trace tx, 0 ∉ change.key.store
  fresh : ∀ tx, node.nextTx ≤ tx → changesOf trace tx = []
  old : ∀ tx ∈ node.active, tx < node.nextTx
  ended : ∀ tx ∈ trace.filterMap commitOf, tx < node.nextTx ∧ tx ∉ node.active
  apart : ∀ tx ∈ node.active, ∀ other ∈ node.active, tx ≠ other →
    ∀ change ∈ (node.transaction tx).changeset, ∀ taken ∈ (node.transaction other).changeset,
      change.key ≠ taken.key
  described : ∀ tx ∈ node.active, Describes node.store (node.transaction tx)
  stored : contents node.store = replay (fun _ => none) (committed trace).flatten

theorem waiting_append (early late : List (TxId × List Change)) :
    waiting (early ++ late) = waiting early ++ waiting late := by
  simp [waiting]

theorem waiting_cons (entry : TxId × List Change) (entries : List (TxId × List Change)) :
    waiting (entry :: entries) =
      if entry.2 = [] then waiting entries else entry.2 :: waiting entries := by
  by_cases empty : entry.2 = []
  · simp [waiting, empty]
  · simp [waiting, empty]

namespace Submitted

theorem initial (app : Name) : Submitted app [] Committer.initial where
  order := rfl
  few := Nat.zero_le _
  readable := nofun
  recorded := nofun
  named := nofun
  fresh _ _ := rfl
  old := nofun
  ended := nofun
  apart := nofun
  described := nofun
  stored := rfl

variable {entry : CommitAction × Bool}

variable (submitted : Submitted app trace node)
include submitted

/-- A step that is not a change or a commit leaves the transactions that go on. -/
theorem keep (noChange : ∀ tx, changeOf tx entry = none)
    (noCommit : commitOf entry = none) (store : next.store = node.store)
    (nextTx : node.nextTx ≤ next.nextTx)
    (active : ∀ tx ∈ next.active, (tx ∈ node.active ∧ next.transaction tx = node.transaction tx) ∨
      (node.nextTx ≤ tx ∧ tx < next.nextTx ∧ next.transaction tx = .begin))
    (order : next.outbound.map dispatchSubmitChangeset ++ next.pending.map (received app) =
      node.outbound.map dispatchSubmitChangeset ++ node.pending.map (received app))
    (few : next.pending.length ≤ 1) (pending : ∀ changes ∈ next.pending, changes ∈ node.pending) :
    Submitted app (trace ++ [entry]) next := by
  have changes : ∀ tx, changesOf (trace ++ [entry]) tx = changesOf trace tx :=
    fun tx => changesOf_snoc_none (noChange tx)
  have commits : (trace ++ [entry]).filterMap commitOf = trace.filterMap commitOf := by
    simp [filterMap_append, noCommit]
  have same : committed (trace ++ [entry]) = committed trace :=
    committed_snoc_other noCommit fun tx _ => noChange tx
  refine ⟨?_, few, ?_, ?_, ?_, ?_, ?_, ?_, ?_, ?_, ?_⟩
  · rw [order, same]
    exact submitted.order
  · exact fun changes member => submitted.readable changes (pending changes member)
  · intro tx member
    rw [changes]
    rcases active tx member with ⟨was, kept⟩ | ⟨new, _, begun⟩
    · rw [kept]
      exact submitted.recorded tx was
    · rw [begun, submitted.fresh tx new]
      rfl
  · intro tx
    rw [changes]
    exact submitted.named tx
  · intro tx late
    rw [changes]
    exact submitted.fresh tx (Nat.le_trans nextTx late)
  · intro tx member
    rcases active tx member with ⟨was, _⟩ | ⟨_, early, _⟩
    · exact Nat.lt_of_lt_of_le (submitted.old tx was) nextTx
    · exact early
  · intro tx member
    rw [commits] at member
    obtain ⟨early, gone⟩ := submitted.ended tx member
    refine ⟨Nat.lt_of_lt_of_le early nextTx, fun again => ?_⟩
    rcases active tx again with ⟨was, _⟩ | ⟨new, _, _⟩
    · exact gone was
    · exact absurd early (Nat.not_lt.mpr new)
  · intro tx member other otherMember different change changed taken took
    rcases active tx member with ⟨was, kept⟩ | ⟨_, _, begun⟩
    · rcases active other otherMember with ⟨otherWas, otherKept⟩ | ⟨_, _, begun⟩
      · rw [kept] at changed
        rw [otherKept] at took
        exact submitted.apart tx was other otherWas different change changed taken took
      · rw [begun] at took
        cases took
    · rw [begun] at changed
      cases changed
  · intro tx member
    rw [store]
    rcases active tx member with ⟨was, kept⟩ | ⟨_, _, begun⟩
    · rw [kept]
      exact submitted.described tx was
    · rw [begun]
      exact .begin _
  · rw [store, same]
    exact submitted.stored

/-- A transaction changes a key. -/
theorem record {transaction : Transaction}
    {key : QualifiedKey} (mine : node.Mine tx key) (noCommit : commitOf entry = none)
    (others : ∀ other, other ≠ tx → changeOf other entry = none)
    (onKey : ∀ change ∈ changeOf tx entry, change.key = key) (named : 0 ∉ key.store)
    (changeset : transaction.changeset =
      (node.transaction tx).changeset ++ (changeOf tx entry).toList)
    (describes : Describes node.store transaction) :
    Submitted app (trace ++ [entry])
      { node with transaction := update node.transaction tx transaction } := by
  have mem := mine.1
  have commits : (trace ++ [entry]).filterMap commitOf = trace.filterMap commitOf := by
    simp [filterMap_append, noCommit]
  have same : committed (trace ++ [entry]) = committed trace := by
    refine committed_snoc_other noCommit fun other done => others other fun isTx => ?_
    exact (submitted.ended other done).2 (isTx ▸ mem)
  have otherChanges : ∀ other, other ≠ tx →
      changesOf (trace ++ [entry]) other = changesOf trace other :=
    fun other different => changesOf_snoc_none (others other different)
  have foreign : ∀ other ∈ node.active, other ≠ tx → ∀ change ∈ transaction.changeset,
      ∀ taken ∈ (node.transaction other).changeset, change.key ≠ taken.key := by
    intro other otherMember different change changed taken took
    rw [changeset] at changed
    rcases mem_append.mp changed with early | new
    · exact submitted.apart tx mem other otherMember different.symm change early taken took
    · rw [onKey change (Option.mem_toList.mp new)]
      exact (mine.2 other otherMember different taken took).symm
  refine ⟨?_, submitted.few, submitted.readable, ?_, ?_, ?_, submitted.old, ?_, ?_, ?_, ?_⟩
  · rw [same]
    exact submitted.order
  · intro other member
    by_cases isTx : other = tx
    · subst isTx
      change (update node.transaction other transaction other).changeset = _
      rw [update_self, changesOf_snoc, ← submitted.recorded other mem]
      exact changeset
    · change (update node.transaction tx transaction other).changeset = _
      rw [update_of_ne isTx, otherChanges other isTx]
      exact submitted.recorded other member
  · intro other change changed
    by_cases isTx : other = tx
    · subst isTx
      rw [changesOf_snoc] at changed
      rcases mem_append.mp changed with early | new
      · exact submitted.named other change early
      · rw [onKey change (Option.mem_toList.mp new)]
        exact named
    · rw [otherChanges other isTx] at changed
      exact submitted.named other change changed
  · intro other late
    have isNot : other ≠ tx := fun isTx =>
      absurd (submitted.old tx mem) (Nat.not_lt.mpr (isTx ▸ late))
    rw [otherChanges other isNot]
    exact submitted.fresh other late
  · rw [commits]
    exact submitted.ended
  · intro first member second secondMember different change changed taken took
    change change ∈ (update node.transaction tx transaction first).changeset at changed
    change taken ∈ (update node.transaction tx transaction second).changeset at took
    by_cases isFirst : first = tx
    · subst isFirst
      rw [update_self] at changed
      rw [update_of_ne different.symm] at took
      exact foreign second secondMember different.symm change changed taken took
    · rw [update_of_ne isFirst] at changed
      by_cases isSecond : second = tx
      · subst isSecond
        rw [update_self] at took
        exact (foreign first member isFirst taken took change changed).symm
      · rw [update_of_ne isSecond] at took
        exact submitted.apart first member second secondMember different change changed taken took
  · intro other member
    change Describes node.store (update node.transaction tx transaction other)
    by_cases isTx : other = tx
    · subst isTx
      rw [update_self]
      exact describes
    · rw [update_of_ne isTx]
      exact submitted.described other member
  · rw [same]
    exact submitted.stored

theorem commit (mem : tx ∈ node.active)
    (allowed : node.Submittable app (.commit tx)) (answer : Bool) :
    Submitted app (trace ++ [(.commit tx, answer)]) { node with
        store := (node.transaction tx).view node.store
        active := node.active.filter (· ≠ tx)
        unsubmitted := node.unsubmitted ++ [(tx, (node.transaction tx).changeset)] } := by
  let after : Committer := { node with
    store := (node.transaction tx).view node.store
    active := node.active.filter (· ≠ tx)
    unsubmitted := node.unsubmitted ++ [(tx, (node.transaction tx).changeset)] }
  have changes : ∀ other, changesOf (trace ++ [(.commit tx, answer)]) other =
      changesOf trace other :=
    fun other => changesOf_snoc_none rfl
  have recorded := submitted.recorded tx mem
  have pending : after.pending = node.pending ++ [changesOf trace tx].filter (· ≠ []) := by
    simp [after, Committer.pending, waiting, filter_append, recorded]
  have remaining : ∀ other ∈ after.active, other ∈ node.active ∧ other ≠ tx := by
    intro other member
    simpa [after] using member
  change Submitted app _ after
  refine ⟨?_, ?_, ?_, ?_, ?_, ?_, ?_, ?_, ?_, ?_, ?_⟩
  · rw [pending, committed_snoc_commit, map_append, map_append, ← append_assoc, submitted.order]
  · rw [pending]
    by_cases empty : changesOf trace tx = []
    · simpa [empty] using submitted.few
    · have free := (allowed (recorded ▸ empty)).2
      simp [free, empty]
  · intro taken member
    rw [pending] at member
    rcases mem_append.mp member with early | new
    · exact submitted.readable taken early
    · obtain ⟨same, filled⟩ := mem_filter.mp new
      rw [mem_singleton] at same
      subst same
      have encodable := (allowed (recorded ▸ of_decide_eq_true filled)).1
      exact ⟨recorded ▸ encodable, submitted.named tx⟩
  · intro other member
    rw [changes]
    exact submitted.recorded other (remaining other member).1
  · intro other
    rw [changes]
    exact submitted.named other
  · intro other late
    rw [changes]
    exact submitted.fresh other late
  · exact fun other member => submitted.old other (remaining other member).1
  · intro other member
    rw [filterMap_append] at member
    rcases mem_append.mp member with early | new
    · obtain ⟨before, gone⟩ := submitted.ended other early
      exact ⟨before, fun again => gone (remaining other again).1⟩
    · obtain rfl : other = tx := mem_singleton.mp new
      exact ⟨submitted.old other mem, fun again => (remaining other again).2 rfl⟩
  · intro first member second secondMember different
    exact submitted.apart first (remaining first member).1 second (remaining second secondMember).1
      different
  · intro other member
    obtain ⟨was, different⟩ := remaining other member
    exact (submitted.described other was).commit (submitted.described tx mem)
      (submitted.apart other was tx mem different)
  · rw [committed_snoc_commit, flatten_append, replay_append, ← submitted.stored]
    have flat : ([changesOf trace tx].filter (· ≠ [])).flatten =
        (node.transaction tx).changeset := by
      rw [recorded]
      by_cases empty : changesOf trace tx = []
      · simp [empty]
      · simp [empty]
    rw [flat, (submitted.described tx mem).same]

theorem submit (answer : Bool) {found : TxId × List Change}
    (waits : node.unsubmitted.find? (·.1 = tx) = some found) :
    Submitted app (trace ++ [(.submit tx, answer)]) { node with
        unsubmitted := node.unsubmitted.eraseP (·.1 = tx)
        outbound := node.outbound ++
          if found.2 = [] then [] else (submitChangeset app found.2).toList } := by
  obtain ⟨isTx, early, late, whole, before⟩ := List.find?_eq_some_iff_append.mp waits
  have erased : node.unsubmitted.eraseP (·.1 = tx) = early ++ late := by
    rw [whole, eraseP_append_right _ fun entry member => by simpa using before entry member]
    simp [of_decide_eq_true isTx]
  let after : Committer := { node with
    unsubmitted := node.unsubmitted.eraseP (·.1 = tx)
    outbound := node.outbound ++
      if found.2 = [] then [] else (submitChangeset app found.2).toList }
  have left : after.pending = waiting early ++ waiting late := by
    change waiting (node.unsubmitted.eraseP (·.1 = tx)) = _
    rw [erased, waiting_append]
  have had : node.pending = waiting early ++ waiting (found :: late) := by
    rw [pending, whole, waiting_append]
  rw [waiting_cons] at had
  change Submitted app _ after
  by_cases empty : found.2 = []
  · rw [if_pos empty, ← left] at had
    have sent : after.outbound = node.outbound := by
      simp [after, empty]
    refine submitted.keep (fun _ => rfl) rfl rfl (Nat.le_refl _)
      (fun tx member => .inl ⟨member, rfl⟩) ?_ (had ▸ submitted.few) fun _ member => had ▸ member
    rw [sent, had]
  · rw [if_neg empty] at had
    have few := submitted.few
    rw [had, length_append, length_cons] at few
    have noEarly : waiting early = [] := length_eq_zero_iff.mp (by omega)
    have noLate : waiting late = [] := length_eq_zero_iff.mp (by omega)
    rw [noEarly, noLate] at had left
    obtain ⟨encodable, named⟩ := submitted.readable found.2 (had ▸ mem_singleton_self _)
    have sent : after.outbound = node.outbound ++
        [formatMessage submitChangesetOpcode (changesetWrite app found.2)] := by
      simp [after, empty, submitChangeset, encodable.fits]
    refine submitted.keep (fun _ => rfl) rfl rfl (Nat.le_refl _)
      (fun tx member => .inl ⟨member, rfl⟩) ?_ (left ▸ Nat.zero_le _) fun _ member => ?_
    · rw [sent, left, had, map_append, append_assoc]
      simp [dispatchSubmitChangeset_formatMessage encodable named empty, received]
    · rw [left] at member
      cases member

end Submitted

theorem step_submitted (submitted : Submitted app trace node) {action : CommitAction}
    {answer : Bool}
    (allowed : node.Submittable app action) (taken : node.step app action = some (next, answer)) :
    Submitted app (trace ++ [(action, answer)]) next := by
  cases action with
  | cached key value =>
    cases taken
    exact submitted.keep (fun _ => rfl) rfl rfl (Nat.le_refl _)
      (fun tx member => .inl ⟨member, rfl⟩) rfl submitted.few fun _ member => member
  | begin =>
    cases taken
    refine submitted.keep (fun _ => rfl) rfl rfl (Nat.le_succ _) (fun tx member => ?_) rfl
      submitted.few fun _ member => member
    rcases mem_cons.mp member with rfl | was
    · exact .inr ⟨Nat.le_refl _, Nat.lt_succ_self _, update_self _ _ _⟩
    · exact .inl ⟨was, update_of_ne (Nat.ne_of_lt (submitted.old tx was)) _ _⟩
  | put tx now store key value =>
    obtain ⟨⟨mine, _⟩, taken⟩ := Option.ite_none_right_eq_some.mp taken
    cases taken
    refine submitted.record mine rfl (fun other different => if_neg different.symm) ?_
      store.terminated ?_ ((submitted.described tx mine.1).transactionPut _ _ _)
    · simp [changeOf]
    · simp [changeOf, transactionPut]
  | delete tx store key =>
    obtain ⟨mine, taken⟩ := Option.ite_none_right_eq_some.mp taken
    have describes := (submitted.described tx mine.1).transactionDelete node.cache
      ⟨store.bytes, key⟩
    cases found : (transactionDelete node.cache node.store (node.transaction tx)
        ⟨store.bytes, key⟩).2 with
    | false =>
      rw [found] at taken
      cases taken
      refine submitted.record mine rfl (fun _ _ => rfl) nofun store.terminated ?_ describes
      rw [transactionDelete_missing found]
      exact (append_nil _).symm
    | true =>
      rw [found] at taken
      cases taken
      refine submitted.record mine rfl (fun other different => if_neg different.symm) ?_
        store.terminated ?_ describes
      · simp [changeOf]
      · rw [(transactionDelete_found found).1]
        simp [changeOf]
  | commit tx =>
    obtain ⟨mem, taken⟩ := Option.ite_none_right_eq_some.mp taken
    cases taken
    exact submitted.commit mem allowed _
  | submit tx =>
    simp only [step] at taken
    split at taken
    · cases taken
    · rename_i waits
      cases taken
      exact submitted.submit _ waits
  | rollback tx =>
    obtain ⟨_, taken⟩ := Option.ite_none_right_eq_some.mp taken
    cases taken
    refine submitted.keep (fun _ => rfl) rfl rfl (Nat.le_refl _) (fun other member => ?_) rfl
      submitted.few fun _ member => member
    exact .inl ⟨(mem_filter.mp member).1, rfl⟩

end Committer

/-- In every run in which a changeset is only committed when the meta server can read it and
no other one waits, the meta server receives the changesets of the transactions that were
committed locally, as they are and in the order of the commits, up to the last one, which
can be submitted.  Their replay gives the local store. -/
theorem committed_changesets_submitted {app : Name} {trace : List (CommitAction × Bool)}
    {node : Committer}
    (run : Run (Committer.step app) (Committer.Submittable app) Committer.initial trace node) :
    node.outbound.map dispatchSubmitChangeset ++ node.pending.map (received app) =
        (committed trace).map (received app) ∧
      node.pending.length ≤ 1 ∧
      (∀ changes ∈ node.pending, submitChangeset app changes ≠ none) ∧
      contents node.store = replay (fun _ => none) (committed trace).flatten := by
  have submitted : Committer.Submitted app trace node :=
    run.invariant (Committer.Submitted app) (.initial app) fun _ submitted allowed taken =>
      Committer.step_submitted submitted allowed taken
  refine ⟨submitted.order, submitted.few, fun changes member => ?_, submitted.stored⟩
  have fits := (submitted.readable changes member).1.fits
  simp [submitChangeset, fits]

instance (change : Change) : Decidable change.Encodable :=
  decidable_of_iff (change.key.store ≠ [] ∧ change.key.key ≠ [] ∧ change.key.key.length < 32768 ∧
      ∀ data ∈ change.data, data ≠ [] ∧ data.length < 32768)
    ⟨fun ⟨store, key, keyFits, data⟩ => ⟨store, key, keyFits, data⟩,
      fun encodable => ⟨encodable.store, encodable.key, encodable.keyFits, encodable.data⟩⟩

instance (app : Name) (changes : List Change) : Decidable (Encodable app changes) :=
  decidable_of_iff ((changesetWrite app changes).length ≤ maxMessageLength ∧
      ∀ change ∈ changes, change.Encodable)
    ⟨fun ⟨fits, each⟩ => ⟨fits, each⟩, fun encodable => ⟨encodable.fits, encodable.each⟩⟩

instance (app : Name) (node : Committer) : DecidablePred (node.Submittable app)
  | .commit tx => inferInstanceAs (Decidable ((node.transaction tx).changeset ≠ [] →
      Encodable app (node.transaction tx).changeset ∧ node.pending = []))
  | .cached _ _ | .begin | .put _ _ _ _ _ | .delete _ _ _ | .submit _ | .rollback _ =>
      .isTrue trivial

/-- The application `chat`. -/
def someApp : Name := ⟨[99, 104, 97, 116], by decide⟩

/-- The store `oids`. -/
def someStore : Name := ⟨[111, 105, 100, 115], by decide⟩

/-- Two transactions at the same time, the second one of which deletes what the first one has
put. -/
def putThenDelete : List CommitAction :=
  [.begin, .begin, .put 0 3 someStore [7] [5, 6], .put 1 4 someStore [8] [9], .commit 0, .submit 0,
    .delete 1 someStore [7], .commit 1]

theorem committed_changesets_submitted_pair :
    ∃ trace node, Run (Committer.step someApp) (Committer.Submittable someApp) Committer.initial
        trace node ∧
      trace.map Prod.fst = putThenDelete ∧
      node.outbound.map dispatchSubmitChangeset =
        [received someApp [⟨⟨someStore.bytes, [7]⟩, some [5, 6]⟩]] ∧
      committed trace = [[⟨⟨someStore.bytes, [7]⟩, some [5, 6]⟩],
        [⟨⟨someStore.bytes, [8]⟩, some [9]⟩, ⟨⟨someStore.bytes, [7]⟩, none⟩]] ∧
      node.pending.length ≤ 1 := by
  have observed : (exec (fun node action => if node.Submittable someApp action then
      node.step someApp action else none) Committer.initial putThenDelete).map
      (fun result => (result.1.map Prod.fst, result.2.outbound.map dispatchSubmitChangeset,
        committed result.1)) = some (putThenDelete,
        [received someApp [⟨⟨someStore.bytes, [7]⟩, some [5, 6]⟩]],
        [[⟨⟨someStore.bytes, [7]⟩, some [5, 6]⟩],
          [⟨⟨someStore.bytes, [8]⟩, some [9]⟩, ⟨⟨someStore.bytes, [7]⟩, none⟩]]) := by
    decide +kernel
  obtain ⟨⟨trace, node⟩, executed, seen⟩ := Option.map_eq_some_iff.mp observed
  simp only [Prod.mk.injEq] at seen
  have run := run_of_tested_exec executed
  exact ⟨trace, node, run, seen.1, seen.2.1, seen.2.2, (committed_changesets_submitted run).2.1⟩

/-- A value that a page has room for. -/
def pageValue : Bytes := List.replicate 4000 1

/-- Seventeen of them do not fit into a message. -/
theorem pageValues_refused (app : Name) :
    submitChangeset app (List.replicate 17 ⟨⟨someStore.bytes, [7]⟩, some pageValue⟩) = none := by
  have long : maxMessageLength < (changesetWrite app
      (List.replicate 17 ⟨⟨someStore.bytes, [7]⟩, some pageValue⟩)).length := by
    rw [changesetWrite, length_append, length_flatMap, map_replicate, sum_replicate_nat]
    simp only [changeWrite, writeBytes, length_append, pageValue, length_replicate,
      maxMessageLength]
    omega
  exact if_neg (Nat.not_le.mpr long)

variable {key value : Bytes}

/-- A put of a transaction, where no other one is active. -/
theorem put_alone {node : Committer} (active : node.active = [0]) (app store : Name)
    (fits : FitsPage key value) :
    node.step app (.put 0 1 store key value) =
      some ({ node with
        transaction := update node.transaction 0
          (transactionPut 1 (node.transaction 0) ⟨store.bytes, key⟩ value) }, true) := by
  have mine : node.Mine 0 ⟨store.bytes, key⟩ := by
    simp [Committer.Mine, active]
  exact if_pos ⟨mine, fits⟩

/-- A transaction puts a value to a key again and again. -/
theorem puts_run (app store : Name) (fits : FitsPage key value) (count : Nat) :
    ∃ node, Run (Committer.step app) anyAction Committer.initial
        ((.begin, false) :: List.replicate (count + 1) (.put 0 1 store key value, true)) node ∧
      (node.active = [0] ∧ node.unsubmitted = [] ∧ node.outbound = []) ∧
      (node.transaction 0).writes ⟨store.bytes, key⟩ = some (some ⟨1, value⟩) ∧
      (node.transaction 0).changeset =
        List.replicate (count + 1) ⟨⟨store.bytes, key⟩, some value⟩ := by
  induction count with
  | zero =>
    have began : Run (Committer.step app) anyAction Committer.initial [(.begin, false)] _ :=
      .snoc .nil trivial rfl
    refine ⟨_, began.snoc trivial (put_alone rfl app store fits), ⟨rfl, rfl, rfl⟩, ?_, rfl⟩
    simp [transactionPut]
  | succ count ih =>
    obtain ⟨node, run, ⟨active, unsubmitted, outbound⟩, _, changeset⟩ := ih
    have puts := run.snoc trivial (put_alone active app store fits)
    rw [cons_append, ← replicate_succ'] at puts
    refine ⟨_, puts, ⟨active, unsubmitted, outbound⟩, ?_, ?_⟩
    · simp [transactionPut]
    · rw [replicate_succ', ← changeset]
      simp [transactionPut]

theorem changesOf_puts (count : Nat) (store : Name) (key value : Bytes) :
    changesOf ((.begin, false) :: List.replicate count (.put 0 1 store key value, true)) 0 =
      List.replicate count ⟨⟨store.bytes, key⟩, some value⟩ :=
  filterMap_replicate_of_some rfl

theorem committed_puts (count : Nat) (store : Name) (key value : Bytes) :
    committed ((.begin, false) :: List.replicate count (.put 0 1 store key value, true)) = [] := by
  have commits : (List.replicate count (CommitAction.put 0 1 store key value, true)).filterMap
      commitOf = [] :=
    filterMap_replicate_of_none rfl
  simp [committed, filterMap_cons, commits, commitOf]

/-- They are committed locally, and nothing is submitted. -/
theorem large_changeset_lost :
    ∃ trace node, Run (Committer.step someApp) anyAction Committer.initial trace node ∧
      trace.map Prod.fst = .begin :: List.replicate 17 (.put 0 1 someStore [7] pageValue) ++
        [.commit 0, .submit 0] ∧
      committed trace = [List.replicate 17 ⟨⟨someStore.bytes, [7]⟩, some pageValue⟩] ∧
      node.store ⟨someStore.bytes, [7]⟩ = some ⟨1, pageValue⟩ ∧
      node.outbound = [] ∧ node.pending = [] := by
  have fits : FitsPage [7] pageValue := by
    rw [FitsPage, pageValue, length_replicate]
    decide
  have refused := pageValues_refused someApp
  generalize pageValue = value at fits refused ⊢
  obtain ⟨node, run, ⟨active, unsubmitted, outbound⟩, written, changeset⟩ :=
    puts_run someApp someStore fits 16
  have commits : 0 ∈ node.active := active ▸ mem_singleton_self 0
  have commit : node.step someApp (.commit 0) = some (_, _) := if_pos commits
  rw [unsubmitted, nil_append] at commit
  have submitted : Run (Committer.step someApp) anyAction Committer.initial
      (_ ++ [(.submit 0, false)]) _ :=
    (run.snoc trivial commit).snoc trivial rfl
  refine ⟨_, _, submitted, ?_, ?_, ?_, ?_, rfl⟩
  · rw [map_append, map_append, map_cons, map_replicate, append_assoc]
    rfl
  · rw [committed_snoc_other rfl fun _ _ => rfl, committed_snoc_commit, committed_puts,
      changesOf_puts]
    rfl
  · simp [Transaction.view, written]
  · rw [changeset, outbound, refused]
    rfl

end Gzochi.DataClient
