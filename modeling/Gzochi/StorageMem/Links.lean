import Gzochi.StorageMem.Detection
import Gzochi.StorageMem.Upkeep

/-!
# Setting the links of a node

The functions that set a link fetch the pending header of the node, and create it if it is not
there, before they ask for the lock.  A call that is refused leaves the header it has created; a
call that sleeps may find that the transaction it has waited for has freed the header it has
fetched.  Short of this, a transaction reads back what it has set, and commits it.
-/

namespace Gzochi.StorageMem.Nodes

open Environment Lib Function NodeStore Option

/-- What the transaction that has the node locked for writing has set. -/
def pendingLink (store : NodeStore) (node : NodeId) (link : Link) : Option (Option NodeId) :=
  (store.env.lock node).writer.bind fun btx => store.written btx node link

/-- Committed nodes with a pending header have one of their own; what has been set on a node is in
the header its readers find, and the node is on the list of modifications. -/
structure Linked (store : NodeStore) : Prop where
  stored : ∀ node content pending, store.place node = .node content →
    content.newHeader = some pending →
    content.isNew = false ∧ ∃ header, store.heap pending.address = some header
  apart : ∀ node content pending other later waiting, store.place node = .node content →
    content.newHeader = some pending → store.place other = .node later →
    later.newHeader = some waiting → pending.address = waiting.address → node = other
  recorded : ∀ btx node link, store.written btx node link ≠ none →
    node ∈ store.modifications btx
  agrees : ∀ node content link, store.place node = .node content →
    (store.effectiveHeader content).get link =
      (pendingLink store node link).getD (content.header.get link)

/-- The header that has been fetched is still the one to write. -/
def Current (content : BtreeNode) : HeaderPointer → Prop
  | .own => content.isNew = true
  | .block address => ∃ pending, content.newHeader = some pending ∧ pending.address = address

/-- A call that finds no pending header is not refused before it sleeps; a call that sleeps is
granted the lock only while the header it has fetched is still the pending one, and is refused only
when the header it has created is gone. -/
def Prompt (store : NodeStore) : Event → Prop
  | .set btx node _ _ _ now =>
      ∀ content declared, store.place node = .node content → content.isNew = false →
        content.newHeader = none → txLockDeclare store.env btx node true = some (declared, true) →
        checkTxTimeout (declared.txn btx) now = true ∧
          (available declared node true = true ∨ lockDetect declared = false)
  | .wake btx now =>
      ∀ node link target header before content,
        store.call btx = some ⟨node, .set link target header before⟩ →
        store.place node = .node content →
        if checkTxTimeout (store.env.txn btx) now && available store.env node true then
          Current content header
        else
          (checkTxTimeout (store.env.txn btx) now = true ∧ lockDetect store.env = false) ∨
            ∀ pending, content.newHeader = some pending → pending.creator = btx →
              before = some pending
  | _ => True

/-- What a transaction reads of a node it has locked is what it has set, and else what has been
committed; and what it has set it is going to commit. -/
def ReadsBack (store : NodeStore) : Prop :=
  (∀ btx node content link, store.place node = .node content → Holds store.env btx node →
    (store.effectiveHeader content).get link =
      (store.written btx node link).getD (content.header.get link)) ∧
  ∀ btx node link, store.written btx node link ≠ none → node ∈ store.modifications btx

/-- What a function that sets a link leaves, and what the commit of a node makes of it. -/
def Answered (store next : NodeStore) : Answer → Prop
  | .set btx node link target _ true =>
      (next.env.lock node).writer = some btx ∧ node ∈ next.modifications btx ∧
      ∃ content, next.place node = .node content ∧ ∀ other,
        (next.effectiveHeader content).get other =
          if other = link then target
          else (store.written btx node other).getD (content.header.get other)
  | .set btx node _ _ before false =>
      ∀ content pending, next.place node = .node content → content.newHeader = some pending →
        pending.creator = btx → before = some pending
  | .committed btx node =>
      ∃ content later, store.place node = .node content ∧ next.place node = .node later ∧
        later.newHeader = none ∧ ∀ link,
          later.header.get link = (store.written btx node link).getD (content.header.get link)
  | .other => True

variable {store next : NodeStore} {env : Environment} {btx other : TxnId} {node lock : NodeId}
  {content : BtreeNode} {call : NodeCall} {outcome : Outcome} {answer : Answer} {event : Event}
  {header : HeaderPointer} {link : Link} {target : Option NodeId}

theorem Linked.congr (linked : Linked store) (same : next.env.lock = store.env.lock)
    (place : next.place = store.place) (heap : next.heap = store.heap)
    (modifications : next.modifications = store.modifications)
    (written : next.written = store.written) : Linked next := by
  obtain ⟨stored, apart, recorded, agrees⟩ := linked
  constructor
  · rwa [place, heap]
  · rwa [place]
  · rwa [written, modifications]
  · unfold effectiveHeader pendingLink
    rw [place, heap, same, written]
    exact agrees

/-- Locks may come and go, as long as the modified nodes stay locked. -/
theorem Linked.move (linked : Linked store) {busy : TxnId → Prop} (engaged : Engaged store busy)
    (owned : ∀ btx node, node ∈ store.modifications btx → (env.lock node).writer = some btx) :
    Linked { store with env := env } := by
  refine ⟨linked.stored, linked.apart, linked.recorded, ?_⟩
  intro node content link present
  have same : pendingLink { store with env := env } node link = pendingLink store node link := by
    apply Option.ext
    intro target
    simp only [pendingLink, bind_eq_some_iff]
    constructor
    · rintro ⟨btx, _, set⟩
      have member := linked.recorded btx node link (by rw [set]; nofun)
      exact ⟨btx, (engaged.owned btx node member).2, set⟩
    · rintro ⟨btx, _, set⟩
      have member := linked.recorded btx node link (by rw [set]; nofun)
      exact ⟨btx, owned btx node member, set⟩
  rw [same]
  exact linked.agrees node content link present

/-- Other parts of a node than its headers. -/
theorem Linked.setNode (linked : Linked store) (present : store.place node = .node content)
    {changed : BtreeNode} (isNew : changed.isNew = content.isNew)
    (header : changed.header = content.header)
    (newHeader : changed.newHeader = content.newHeader) :
    Linked (store.setNode node changed) := by
  have places : ∀ held later, (store.setNode node changed).place held = .node later →
      ∃ before, store.place held = .node before ∧ later.isNew = before.isNew ∧
        later.header = before.header ∧ later.newHeader = before.newHeader := by
    intro held later there
    dsimp only [NodeStore.setNode] at there
    rw [update_apply] at there
    split at there
    next self =>
      cases there
      exact ⟨content, self ▸ present, isNew, header, newHeader⟩
    next => exact ⟨later, there, rfl, rfl, rfl⟩
  refine ⟨?_, ?_, linked.recorded, ?_⟩
  · intro held later pending there has
    obtain ⟨before, present, new, -, same⟩ := places held later there
    rw [new]
    exact linked.stored held before pending present (same ▸ has)
  · intro held later pending other last waiting there has thereToo hasToo
    obtain ⟨before, present, -, -, same⟩ := places held later there
    obtain ⟨before', present', -, -, same'⟩ := places other last thereToo
    exact linked.apart held before pending other before' waiting present (same ▸ has) present'
      (same' ▸ hasToo)
  · intro held later link there
    obtain ⟨before, present, -, header, same⟩ := places held later there
    have agrees := linked.agrees held before link present
    unfold effectiveHeader at agrees ⊢
    rw [header, same]
    exact agrees

theorem NodeStore.markModification_eq (store : NodeStore) (btx : TxnId) (node : NodeId) :
    ∃ modifications, store.markModification btx node =
        { store with modifications := modifications } ∧ node ∈ modifications btx ∧
      ∀ other held, held ∈ store.modifications other → held ∈ modifications other := by
  unfold markModification
  split
  next member => exact ⟨store.modifications, rfl, member, fun _ _ => id⟩
  next =>
    refine ⟨update store.modifications btx (node :: store.modifications btx), rfl, ?_, ?_⟩
    · rw [update_self]
      exact List.mem_cons_self
    · intro other held member
      rw [update_apply]
      split
      next self => exact List.mem_cons_of_mem _ (self ▸ member)
      next => exact member

theorem Linked.markModification (linked : Linked store) (btx : TxnId) (node : NodeId) :
    Linked (store.markModification btx node) := by
  obtain ⟨modifications, same, _, more⟩ := store.markModification_eq btx node
  rw [same]
  exact ⟨linked.stored, linked.apart,
    fun btx node link set => more btx node (linked.recorded btx node link set), linked.agrees⟩

/-- What setting a link where it is to be set changes. -/
structure Wrote (store next : NodeStore) (btx : TxnId) (node : NodeId) (content : BtreeNode)
    (link : Link) (target : Option NodeId) : Prop where
  env : next.env = store.env
  written : ∀ other held label, next.written other held label =
    if other = btx ∧ held = node ∧ label = link then some target
    else store.written other held label
  member : node ∈ next.modifications btx
  more : ∀ other held, held ∈ store.modifications other → held ∈ next.modifications other
  here : ∃ later, next.place node = .node later ∧ later.isNew = content.isNew ∧
    later.newHeader = content.newHeader ∧
    (∀ other, other ≠ link → later.header.get other = content.header.get other) ∧
    ∀ other, (next.effectiveHeader later).get other =
      if other = link then target else (store.effectiveHeader content).get other
  others : ∀ held, held ≠ node → next.place held = store.place held
  untouched : ∀ held later, held ≠ node → store.place held = .node later →
    next.effectiveHeader later = store.effectiveHeader later
  stored : ∀ address header, store.heap address = some header →
    ∃ header, next.heap address = some header

theorem setWritten_written (store : NodeStore) (btx other : TxnId) (node held : NodeId)
    (links : Link → Option (Option NodeId)) (label : Link) :
    (store.setWritten btx node links).written other held label =
      if other = btx ∧ held = node then links label else store.written other held label := by
  dsimp only [setWritten]
  by_cases self : other = btx
  · subst self
    by_cases here : held = node
    · simp [here]
    · simp [here]
  · simp [self]

theorem Linked.wrote (linked : Linked store) (present : store.place node = .node content)
    (current : Current content header) (btx : TxnId) (link : Link) (target : Option NodeId) :
    Wrote store (store.setLink btx node content header link target) btx node content link
      target := by
  obtain ⟨modifications, same, member, more⟩ :=
    ((store.writeLink node content header link target).setWritten btx node
      (update (store.written btx node) link (some target))).markModification_eq btx node
  have set : ∀ middle : NodeStore, middle.written = store.written → ∀ other held label,
      (middle.setWritten btx node (update (store.written btx node) link
        (some target))).written other held label =
      if other = btx ∧ held = node ∧ label = link then some target
      else store.written other held label := by
    intro middle written other held label
    rw [setWritten_written, written]
    by_cases here : other = btx ∧ held = node
    · rw [if_pos here, update_apply, here.1, here.2]
      simp
    · rw [if_neg here, if_neg (fun all => here ⟨all.1, all.2.1⟩)]
  rw [setLink, same]
  cases header with
  | own =>
    have committed : content.newHeader = none := by
      cases has : content.newHeader with
      | none => rfl
      | some pending =>
        have stored := (linked.stored node content pending present has).1
        rw [show content.isNew = true from current] at stored
        cases stored
    refine ⟨rfl, set _ rfl, member, more, ⟨_, update_self _ _ _, rfl, rfl, ?_, ?_⟩, ?_,
      fun _ _ _ _ => rfl, fun _ header stored => ⟨header, stored⟩⟩
    · intro other different
      rw [BtreeNodeHeader.get_set, if_neg different]
    · intro other
      simp only [effectiveHeader, committed, BtreeNodeHeader.get_set]
    · exact fun held different => update_of_ne different _ _
  | block address =>
    obtain ⟨pending, has, rfl⟩ := current
    obtain ⟨header, stored⟩ := (linked.stored node content pending present has).2
    refine ⟨rfl, set _ rfl, member, more, ⟨content, present, rfl, rfl, fun _ _ => rfl, ?_⟩,
      fun _ _ => rfl, ?_, ?_⟩
    · intro other
      simp only [effectiveHeader, has, writeLink, setWritten,
        setBlock, update_self, stored, map_some, getD_some,
        BtreeNodeHeader.get_set]
    · intro held later different there
      unfold effectiveHeader
      cases waits : later.newHeader with
      | none => rfl
      | some waiting =>
        have distinct : waiting.address ≠ pending.address := by
          intro equal
          exact different (linked.apart held later waiting node content pending there waits
            present has equal)
        simp only [writeLink, setWritten, setBlock, update_of_ne distinct]
    · intro address before found
      simp only [writeLink, setWritten, setBlock, update_apply]
      split
      next =>
        rw [stored]
        exact ⟨_, rfl⟩
      next => exact ⟨before, found⟩

/-- A link is set by the transaction that has the lock. -/
theorem Wrote.linked (wrote : Wrote store next btx node content link target)
    (linked : Linked store) (present : store.place node = .node content)
    (writer : (store.env.lock node).writer = some btx) (before : Option NewHeader) :
    Linked next ∧ Answered store next (.set btx node link target before true) := by
  obtain ⟨later, there, new, newHeader, kept, effective⟩ := wrote.here
  have own : ∀ other, (store.effectiveHeader content).get other =
      (store.written btx node other).getD (content.header.get other) := by
    intro other
    rw [linked.agrees node content other present, pendingLink, writer]
    rfl
  have nodes : ∀ held last, next.place held = .node last →
      (held = node ∧ last = later) ∨ (held ≠ node ∧ store.place held = .node last) := by
    intro held last found
    by_cases self : held = node
    · rw [self, there] at found
      injection found with found
      exact .inl ⟨self, found.symm⟩
    · rw [wrote.others held self] at found
      exact .inr ⟨self, found⟩
  have earlier : ∀ held last, next.place held = .node last →
      ∃ before, store.place held = .node before ∧ last.isNew = before.isNew ∧
        last.newHeader = before.newHeader := by
    intro held last found
    rcases nodes held last found with ⟨self, same⟩ | ⟨_, before⟩
    · exact ⟨content, self ▸ present, same ▸ new, same ▸ newHeader⟩
    · exact ⟨last, before, rfl, rfl⟩
  have reads : ∀ other, (next.effectiveHeader later).get other = if other = link then target
      else (store.written btx node other).getD (later.header.get other) := by
    intro other
    refine (effective other).trans ?_
    split
    next => rfl
    next different => rw [own other, kept other different]
  constructor
  · refine ⟨?_, ?_, ?_, ?_⟩
    · intro held last pending found has
      obtain ⟨before, there, new, same⟩ := earlier held last found
      obtain ⟨old, header, stored⟩ := linked.stored held before pending there (same ▸ has)
      exact ⟨new.trans old, wrote.stored _ header stored⟩
    · intro held last pending other last' waiting found has foundToo hasToo
      obtain ⟨before, there, -, same⟩ := earlier held last found
      obtain ⟨before', there', -, same'⟩ := earlier other last' foundToo
      exact linked.apart held before pending other before' waiting there (same ▸ has) there'
        (same' ▸ hasToo)
    · intro other held label set
      rw [wrote.written] at set
      split at set
      next self =>
        rw [self.1, self.2.1]
        exact wrote.member
      next => exact wrote.more other held (linked.recorded other held label set)
    · intro held last label found
      rcases nodes held last found with ⟨self, same⟩ | ⟨different, before⟩
      · rw [self, same, reads label, pendingLink, wrote.env, writer, bind_some, wrote.written]
        simp only [true_and]
        split
        next => rfl
        next => rfl
      · have unset : pendingLink next held label = pendingLink store held label := by
          simp only [pendingLink, wrote.env, wrote.written, different, false_and, and_false,
            if_false]
        rw [wrote.untouched held last different before, unset]
        exact linked.agrees held last label before
  · refine ⟨?_, wrote.member, later, there, reads⟩
    rw [wrote.env]
    exact writer

/-- A header is fetched to be written; it is the pending one, and a new one only if there was
none. -/
theorem Linked.fetch (linked : Linked store) (present : store.place node = .node content)
    {address : Nat}
    (fetched : store.effectiveHeaderWrite btx node content address = some (next, header)) :
    Linked next ∧ next.written = store.written ∧
      ∃ later, next.place node = .node later ∧ Current later header ∧
        (later = content ∨ content.isNew = false ∧ content.newHeader = none) := by
  unfold effectiveHeaderWrite at fetched
  split at fetched
  next isNew =>
    cases fetched
    exact ⟨linked, rfl, content, present, isNew, .inl rfl⟩
  next committed =>
    split at fetched
    next pending has =>
      cases fetched
      exact ⟨linked, rfl, content, present, ⟨pending, has, rfl⟩, .inl rfl⟩
    next has =>
      obtain ⟨unused, fetched⟩ := ite_none_right_eq_some.mp fetched
      cases fetched
      have places : ∀ held last, update store.place node
          (.node { content with newHeader := some ⟨address, btx⟩ }) held = .node last →
          (held = node ∧ last = { content with newHeader := some ⟨address, btx⟩ }) ∨
            (held ≠ node ∧ store.place held = .node last) := by
        intro held last found
        rw [update_apply] at found
        split at found
        next self =>
          injection found with same
          exact .inl ⟨self, same.symm⟩
        next different => exact .inr ⟨different, found⟩
      have distinct : ∀ held last waiting, store.place held = .node last →
          last.newHeader = some waiting → waiting.address ≠ address := by
        intro held last waiting there waits equal
        obtain ⟨_, header, stored⟩ := linked.stored held last waiting there waits
        rw [equal, unused] at stored
        cases stored
      refine ⟨⟨?_, ?_, linked.recorded, ?_⟩, rfl, _, update_self _ _ _,
        ⟨_, rfl, rfl⟩, .inr ⟨eq_false_of_ne_true committed, has⟩⟩
      · intro held last pending found waits
        rcases places held last found with ⟨_, same⟩ | ⟨_, before⟩
        · subst same
          cases waits
          exact ⟨eq_false_of_ne_true committed, content.header, update_self _ _ _⟩
        · obtain ⟨old, header, stored⟩ := linked.stored held last pending before waits
          refine ⟨old, header, ?_⟩
          exact (update_of_ne (distinct held last pending before waits) _ _).trans stored
      · intro held last pending other last' waiting found has found' has' equal
        rcases places held last found with ⟨self, same⟩ | ⟨_, before⟩
        · rcases places other last' found' with ⟨self', _⟩ | ⟨_, before'⟩
          · exact self.trans self'.symm
          · subst same
            cases has
            exact absurd equal.symm (distinct other last' waiting before' has')
        · rcases places other last' found' with ⟨_, same⟩ | ⟨_, before'⟩
          · subst same
            cases has'
            exact absurd equal (distinct held last pending before has)
          · exact linked.apart held last pending other last' waiting before has before' has' equal
      · intro held last label found
        rcases places held last found with ⟨self, same⟩ | ⟨_, before⟩
        · subst self same
          have agrees := linked.agrees held content label present
          rw [effectiveHeader, has] at agrees
          simp only [effectiveHeader, setBlock, update_self, getD_some]
          exact agrees
        · have agrees := linked.agrees held last label before
          unfold effectiveHeader at agrees ⊢
          cases waits : last.newHeader with
          | none =>
            rw [waits] at agrees
            exact agrees
          | some waiting =>
            rw [waits] at agrees
            simp only [setBlock, update_of_ne (distinct held last waiting before waits)]
            exact agrees

/-- A node that has just been created has nothing set. -/
theorem Linked.create (linked : Linked store) (upkeep : Upkeep store)
    (absent : store.place node = .absent) (parent : Option NodeId) (refCount : LockId → Nat) :
    Linked { store.setNode node ⟨true, false, ⟨parent, none, none, none⟩, none, false, false⟩ with
      refCount := refCount } := by
  have places : ∀ held last, update store.place node
      (.node ⟨true, false, ⟨parent, none, none, none⟩, none, false, false⟩) held = .node last →
      (held = node ∧ last = ⟨true, false, ⟨parent, none, none, none⟩, none, false, false⟩) ∨
        store.place held = .node last := by
    intro held last found
    rw [update_apply] at found
    split at found
    next self =>
      injection found with same
      exact .inl ⟨self, same.symm⟩
    next => exact .inr found
  refine ⟨?_, ?_, linked.recorded, ?_⟩
  · intro held last pending found has
    rcases places held last found with ⟨_, same⟩ | before
    · subst same
      cases has
    · exact linked.stored held last pending before has
  · intro held last pending other last' waiting found has found' has'
    rcases places held last found with ⟨_, same⟩ | before
    · subst same
      cases has
    · rcases places other last' found' with ⟨_, same⟩ | before'
      · subst same
        cases has'
      · exact linked.apart held last pending other last' waiting before has before' has'
  · intro held last label found
    rcases places held last found with ⟨self, same⟩ | before
    · subst self same
      have unset : pendingLink store held label = none := by
        cases set : pendingLink store held label with
        | none => rfl
        | some target =>
          obtain ⟨btx, _, set⟩ := bind_eq_some_iff.mp set
          have member := linked.recorded btx held label (by rw [set]; nofun)
          obtain ⟨⟨content, present⟩, _⟩ := upkeep.owned btx held member
          rw [absent] at present
          cases present
      change _ = (pendingLink store held label).getD _
      rw [unset]
      rfl
    · exact linked.agrees held last label before

variable {rest : List NodeId}

/-- The node is freed, or has no pending header any more. -/
theorem GivesUp.linked (gives : GivesUp store btx node env rest) (linked : Linked store)
    (upkeep : Upkeep store) (keeps : ∀ held ∈ store.modifications btx, held ≠ node → held ∈ rest)
    {place : Place} (settled : ∀ later, place = .node later → later.newHeader = none)
    (same : next.env = env) (places : next.place = update store.place node place)
    (heap : ∀ held last pending, held ≠ node → store.place held = .node last →
      last.newHeader = some pending → next.heap pending.address = store.heap pending.address)
    (modifications : next.modifications = update store.modifications btx rest)
    (written : ∀ other held label, next.written other held label =
      if other = btx ∧ held = node then none else store.written other held label) :
    Linked next := by
  have nodes : ∀ held last, next.place held = .node last →
      (held = node ∧ last.newHeader = none) ∨ (held ≠ node ∧ store.place held = .node last) := by
    intro held last found
    rw [places, update_apply] at found
    split at found
    next self => exact .inl ⟨self, settled last found⟩
    next different => exact .inr ⟨different, found⟩
  refine ⟨?_, ?_, ?_, ?_⟩
  · intro held last pending found has
    rcases nodes held last found with ⟨_, bare⟩ | ⟨different, before⟩
    · rw [bare] at has
      cases has
    · obtain ⟨old, header, stored⟩ := linked.stored held last pending before has
      exact ⟨old, header, (heap held last pending different before has).trans stored⟩
  · intro held last pending other last' waiting found has found' has' equal
    rcases nodes held last found with ⟨_, bare⟩ | ⟨_, before⟩
    · rw [bare] at has
      cases has
    · rcases nodes other last' found' with ⟨_, bare⟩ | ⟨_, before'⟩
      · rw [bare] at has'
        cases has'
      · exact linked.apart held last pending other last' waiting before has before' has' equal
  · intro other held label set
    rw [written] at set
    split at set
    next => exact absurd rfl set
    next different =>
      have member := linked.recorded other held label set
      rw [modifications, update_apply]
      split
      next self =>
        subst self
        exact keeps held member (fun here => different ⟨rfl, here⟩)
      next => exact member
  · intro held last label found
    rcases nodes held last found with ⟨self, bare⟩ | ⟨different, before⟩
    · subst self
      have unset : pendingLink next held label = none := by
        cases set : pendingLink next held label with
        | none => rfl
        | some target =>
          obtain ⟨other, _, set⟩ := bind_eq_some_iff.mp set
          rw [written] at set
          obtain ⟨others, set⟩ := ite_none_left_eq_some.mp set
          have member := linked.recorded other held label (by rw [set]; nofun)
          have writer := (upkeep.owned other held member).2
          rw [gives.writer] at writer
          injection writer with own
          exact absurd ⟨own.symm, rfl⟩ others
      rw [unset, effectiveHeader, bare]
      rfl
    · have unchanged : pendingLink next held label = pendingLink store held label := by
        simp only [pendingLink, same, gives.writers held different, written, different, and_false,
          if_false]
      have agrees := linked.agrees held last label before
      rw [unchanged]
      unfold effectiveHeader at agrees ⊢
      cases waits : last.newHeader with
      | none =>
        rw [waits] at agrees
        exact agrees
      | some waiting =>
        rw [waits] at agrees
        dsimp only at agrees ⊢
        rw [heap held last waiting different before waits]
        exact agrees

/-- Freeing the header of one node leaves those of the others. -/
theorem Linked.freeHeader_heap (linked : Linked store) (present : store.place node = .node content)
    {middle : NodeStore} (heap : middle.heap = store.heap) {held : NodeId} {last : BtreeNode}
    {pending : NewHeader} (different : held ≠ node) (there : store.place held = .node last)
    (has : last.newHeader = some pending) :
    (middle.freeHeader content).heap pending.address = store.heap pending.address := by
  unfold freeHeader
  split
  next => rw [heap]
  next own has' =>
    dsimp only [setBlock]
    rw [update_of_ne, heap]
    intro equal
    exact different (linked.apart held last pending node content own there has present has' equal)

theorem NodeStore.freeHeader_frame (store : NodeStore) (content : BtreeNode) :
    (store.freeHeader content).env = store.env ∧ (store.freeHeader content).place = store.place ∧
      (store.freeHeader content).modifications = store.modifications ∧
      (store.freeHeader content).written = store.written := by
  obtain ⟨heap, same⟩ := store.freeHeader_eq content
  rw [same]
  exact ⟨rfl, rfl, rfl, rfl⟩

/-- A header is freed, and what has been set on its node is forgotten. -/
theorem GivesUp.linked_freeHeader (gives : GivesUp store btx node env rest)
    (linked : Linked store) (upkeep : Upkeep store)
    (keeps : ∀ held ∈ store.modifications btx, held ≠ node → held ∈ rest)
    (present : store.place node = .node content) (place : Place)
    (settled : ∀ later, place = .node later → later.newHeader = none) {middle : NodeStore}
    (same : middle.env = env) (places : middle.place = update store.place node place)
    (heap : middle.heap = store.heap)
    (modifications : middle.modifications = update store.modifications btx rest)
    (written : middle.written = store.written) :
    Linked ((middle.freeHeader content).setWritten btx node fun _ => none) := by
  obtain ⟨freedEnv, freedPlace, freedModifications, freedWritten⟩ :=
    middle.freeHeader_frame content
  apply gives.linked linked upkeep keeps settled
  · exact freedEnv.trans same
  · exact freedPlace.trans places
  · intro held last pending different there has
    exact linked.freeHeader_heap present heap different there has
  · exact freedModifications.trans modifications
  · intro other held label
    rw [setWritten_written, freedWritten, written]

theorem Linked.deleteNode (linked : Linked store) (upkeep : Upkeep store)
    (gives : GivesUp store btx node env rest)
    (keeps : ∀ held ∈ store.modifications btx, held ≠ node → held ∈ rest)
    (present : store.place node = .node content)
    (unaborted : ((store.setModifications btx rest).deleteNode btx node content env).aborted =
      none) :
    Linked ((store.setModifications btx rest).deleteNode btx node content env) := by
  unfold NodeStore.deleteNode at unaborted ⊢
  split at unaborted
  next => cases unaborted
  next clean =>
    rw [if_neg clean]
    dsimp only
    obtain ⟨aborted, counted⟩ := lockUnref_eq { store.setModifications btx rest with
      env := env
      place := update (store.setModifications btx rest).place node .freed } node
    rw [counted]
    exact gives.linked_freeHeader linked upkeep keeps present .freed nofun rfl rfl rfl rfl rfl

theorem NodeStore.lockUnref_frame (store : NodeStore) (lock : LockId) :
    (store.lockUnref lock).env = store.env ∧ (store.lockUnref lock).place = store.place ∧
      (store.lockUnref lock).heap = store.heap ∧
      (store.lockUnref lock).modifications = store.modifications ∧
      (store.lockUnref lock).written = store.written := by
  obtain ⟨aborted, same⟩ := store.lockUnref_eq lock
  rw [same]
  exact ⟨rfl, rfl, rfl, rfl, rfl⟩

/-- A call returns, with the header it has fetched still the one to write, or with no header that
it has created. -/
theorem Linked.endCall (linked : Linked store) {granted : Bool}
    (locked : granted = true → call.purpose.write = true →
      (store.env.lock call.lock).writer = some btx)
    (allowed : ∀ link target header before content, call.purpose = .set link target header before →
      store.place call.lock = .node content →
      if granted then Current content header
      else ∀ pending, content.newHeader = some pending → pending.creator = btx →
        before = some pending) :
    Linked (store.endCall btx call granted).1 ∧
      Answered store (store.endCall btx call granted).1 (store.endCall btx call granted).2 := by
  obtain ⟨env, place, heap, modifications, written⟩ :=
    (store.setCall btx none).lockUnref_frame call.lock
  have left : Linked ((store.setCall btx none).lockUnref call.lock) :=
    linked.congr (congrArg _ env) place heap modifications written
  unfold NodeStore.endCall
  dsimp only
  split
  next => exact ⟨linked.congr rfl rfl rfl rfl rfl, trivial⟩
  next content link target header before present purpose =>
    have allowed := allowed link target header before content purpose present
    split
    next success =>
      rw [if_pos success] at allowed
      have there : ((store.setCall btx none).lockUnref call.lock).place call.lock =
          .node content := by
        rw [place]
        exact present
      have writer : (((store.setCall btx none).lockUnref call.lock).env.lock call.lock).writer =
          some btx := by
        rw [env]
        exact locked success (by rw [purpose]; rfl)
      obtain ⟨kept, answered⟩ := (left.wrote there allowed btx link target).linked left there
        writer before
      refine ⟨kept, ?_⟩
      obtain ⟨owner, member, later, after, reads⟩ := answered
      rw [written] at reads
      exact ⟨owner, member, later, after, reads⟩
    next refused =>
      rw [if_neg refused] at allowed
      refine ⟨left, ?_⟩
      intro later pending there has
      rw [place] at there
      rw [show store.place call.lock = .node later from there] at present
      cases present
      exact allowed pending has
  next apart =>
    refine ⟨left, ?_⟩
    intro later pending there has
    rw [place] at there
    exact absurd there (apart later)
  next => exact ⟨left, trivial⟩

theorem Answered.congr {earlier : NodeStore} (answered : Answered store next answer)
    (written : earlier.written = store.written) (place : earlier.place = store.place) :
    Answered earlier next answer := by
  unfold Answered at answered ⊢
  rw [written, place]
  exact answered

/-- No call commits a node. -/
theorem NodeStore.startCall_answer (store : NodeStore) (btx : TxnId) (call : NodeCall)
    (now : Int) (other : TxnId) (node : NodeId) :
    (store.startCall btx call now).2 ≠ .committed other node := by
  unfold startCall NodeStore.advance
  split
  next => nofun
  next => nofun
  next =>
    unfold NodeStore.endCall
    dsimp only
    split
    next => nofun
    next => split <;> nofun
    next => nofun
    next => nofun

theorem Answered.congr_written {earlier : NodeStore} (answered : Answered store next answer)
    (written : earlier.written = store.written)
    (call : ∀ btx node, answer ≠ .committed btx node) : Answered earlier next answer := by
  unfold Answered at answered ⊢
  rw [written]
  split
  next => exact answered
  next => exact answered
  next btx node => exact absurd rfl (call btx node)
  next => trivial

/-- What a call must find when `tx_lock` returns. -/
def Returns (store : NodeStore) (btx : TxnId) (call : NodeCall) (outcome : Outcome) : Prop :=
  outcome ≠ .waits → ∀ link target header before content,
    call.purpose = .set link target header before → store.place call.lock = .node content →
    if outcome.returned = some true then Current content header
    else ∀ pending, content.newHeader = some pending → pending.creator = btx →
      before = some pending

theorem Linked.advance (linked : Linked store) (engaged : Engaged store (· = btx)) (action : Action)
    (requested : ∀ env outcome, lockStep store.env action = some (env, outcome) →
      Requested store.env btx call.lock call.purpose.write env outcome ∧
        Returns store btx call outcome) :
    Linked (store.advance btx call action).1 ∧
      Answered store (store.advance btx call action).1 (store.advance btx call action).2 := by
  have moved : ∀ env outcome, lockStep store.env action = some (env, outcome) →
      Linked { store with env := env } := by
    intro env outcome taken
    apply linked.move engaged
    intro other node member
    exact (requested env outcome taken).1.grows (engaged.owned other node member).2
  unfold NodeStore.advance
  split
  next => exact ⟨linked.congr rfl rfl rfl rfl rfl, trivial⟩
  next env taken => exact ⟨moved env .waits taken, trivial⟩
  next env outcome awake taken =>
    obtain ⟨step, returns⟩ := requested env outcome taken
    have returns := returns (fun waits => awake (by rw [waits]))
    have ended : Linked (NodeStore.endCall { store with env := env } btx call
        (decide (outcome.returned = some true))).1 ∧ Answered { store with env := env }
            (NodeStore.endCall { store with env := env } btx call
              (decide (outcome.returned = some true))).1
            (NodeStore.endCall { store with env := env } btx call
              (decide (outcome.returned = some true))).2 := by
      apply (moved env outcome taken).endCall
      · intro success writes
        rw [writes] at step
        exact step.returned (of_decide_eq_true success)
      · intro link target header before content purpose present
        have found := returns link target header before content purpose present
        by_cases success : outcome.returned = some true
        · rw [if_pos success] at found
          rw [if_pos (decide_eq_true success)]
          exact found
        · rw [if_neg success] at found
          rw [if_neg (fun yes => success (of_decide_eq_true yes))]
          exact found
    exact ⟨ended.1, ended.2.congr rfl rfl⟩

variable {now : Int}

theorem Linked.startCall (linked : Linked store) (upkeep : Upkeep store)
    (running : store.env.phase btx = .running) (there : store.place call.lock ≠ .absent)
    (returns : ∀ env outcome,
      lockStep store.env (.lock btx call.lock call.purpose.write now) = some (env, outcome) →
        Returns store btx call outcome) :
    Linked (store.startCall btx call now).1 ∧
      Answered store (store.startCall btx call now).1 (store.startCall btx call now).2 := by
  have entered : Linked (store.enterCall btx call) := linked.congr rfl rfl rfl rfl rfl
  obtain ⟨kept, answered⟩ := entered.advance (upkeep.enterCall running there) _
    (fun env outcome taken =>
      ⟨requested_of_lock upkeep.consistent taken, returns env outcome taken⟩)
  exact ⟨kept, answered.congr rfl rfl⟩

/-- A call that finds no pending header has time, and the lock is free or there is no deadlock. -/
theorem returns_of_prompt {later : BtreeNode} {before : Option NewHeader}
    (present : next.place node = .node later) (same : next.env = store.env)
    (current : Current later header) (had : later.newHeader = before ∨ ∀ declared,
      txLockDeclare store.env btx node true = some (declared, true) →
        checkTxTimeout (declared.txn btx) now = true ∧
          (available declared node true = true ∨ lockDetect declared = false))
    (taken : lockStep next.env (.lock btx node true now) = some (env, outcome)) :
    Returns next btx ⟨node, .set link target header before⟩ outcome := by
  intro awake link' target' header' before' content purpose there
  injection purpose with _ _ pointer earlier
  subst pointer earlier
  rw [present] at there
  cases there
  split
  next => exact current
  next refused =>
    rcases had with had | prompt
    · intro pending has _
      rw [← had]
      exact has
    · exfalso
      rw [same] at taken
      obtain ⟨running, taken⟩ := ite_none_right_eq_some.mp taken
      unfold txLock at taken
      split at taken
      next => cases taken
      next =>
        injection taken with pair
        injection pair with _ told
        subst told
        exact refused rfl
      next declared equal =>
        injection taken with pair
        obtain ⟨intime, goes⟩ := prompt declared equal
        have told := txLockAttempt_outcome declared btx node true now
        rw [pair, if_pos intime] at told
        split at told
        next =>
          subst told
          exact refused rfl
        next taken =>
          have undetected := goes.resolve_left taken
          rw [if_neg (by rw [undetected]; nofun)] at told
          exact awake told

/-- A call that has slept. -/
theorem returns_of_wake (upkeep : Upkeep store) (calls : store.call btx = some call)
    (prompt : Prompt store (.wake btx now))
    (taken : lockStep store.env (.wake btx now) = some (env, outcome)) :
    Returns store btx call outcome := by
  intro awake link target header before content purpose present
  obtain ⟨lock, wanted⟩ := call
  have purpose : wanted = .set link target header before := purpose
  subst purpose
  have prompt := prompt lock link target header before content calls present
  have waits := upkeep.waits btx _ not_false calls
  simp only [lockStep, waits] at taken
  injection taken with pair
  have told := txLockAttempt_outcome store.env btx lock true now
  rw [show txLockAttempt store.env btx lock true now = (env, outcome) from pair] at told
  dsimp only at told
  by_cases intime : checkTxTimeout (store.env.txn btx) now = true
  · rw [if_pos intime] at told
    by_cases free : available store.env lock true = true
    · rw [if_pos free] at told
      rw [if_pos (by rw [intime, free]; rfl)] at prompt
      rw [told]
      exact prompt
    · rw [if_neg free] at told
      rw [if_neg (by rw [intime, eq_false_of_ne_true free]; simp)] at prompt
      split at told
      next detected =>
        rw [told, if_neg (by rintro ⟨⟩)]
        apply prompt.resolve_left
        rw [detected]
        simp
      next => exact absurd told awake
  · rw [if_neg intime] at told
    rw [if_neg (by rw [eq_false_of_ne_true intime]; simp)] at prompt
    rw [told, if_neg (by rintro ⟨⟩)]
    exact prompt.resolve_left (fun both => intime both.1)

/-- A node is committed or rolled back. -/
theorem GivesUp.settled (gives : GivesUp store btx node env rest) (linked : Linked store)
    (upkeep : Upkeep store) (listed : store.modifications btx = node :: rest)
    (present : store.place node = .node content) (header : BtreeNodeHeader) :
    Linked ((({ store.setModifications btx rest with env := env }.setNode node
      ⟨false, false, header, none, false, false⟩).freeHeader content).setWritten btx node
        fun _ => none) := by
  apply gives.linked_freeHeader linked upkeep ?_ present
    (.node ⟨false, false, header, none, false, false⟩)
  · intro later same
    injection same with same
    rw [← same]
  · rfl
  · rfl
  · rfl
  · rfl
  · rfl
  · intro held member different
    rw [listed] at member
    exact (List.mem_cons.mp member).resolve_left different

theorem Linked.releaseNext (linked : Linked store) (upkeep : Upkeep store)
    (released : store.releaseNext btx = some (next, answer)) :
    (next.aborted = none → Linked next) ∧ Answered store next answer := by
  have after := upkeep.releaseNext released
  unfold NodeStore.releaseNext at released
  split at released
  next node rest ending =>
    split at released
    next env outcome content taken present =>
      obtain ⟨gives, listed⟩ := upkeep.givesUp ending taken
      have keeps : ∀ held ∈ store.modifications btx, held ≠ node → held ∈ rest := by
        intro held member different
        rw [listed] at member
        exact (List.mem_cons.mp member).resolve_left different
      dsimp only at released
      split at released
      next =>
        split at released
        next =>
          cases released
          exact ⟨linked.deleteNode upkeep gives keeps present, trivial⟩
        next =>
          cases released
          refine ⟨fun _ => gives.settled linked upkeep listed present _, ?_⟩
          have own : pendingLink store node = store.written btx node := by
            funext link
            rw [pendingLink, gives.writer, bind_some]
          obtain ⟨-, places, -, -⟩ := freeHeader_frame
            ({ store.setModifications btx rest with env := env }.setNode node
              ⟨false, false, store.effectiveHeader content, none, false, false⟩) content
          refine ⟨content, ⟨false, false, store.effectiveHeader content, none, false, false⟩,
            present, ?_, rfl, ?_⟩
          · exact (congrFun places node).trans (update_self _ _ _)
          · intro link
            rw [← own]
            exact linked.agrees node content link present
      next =>
        split at released
        next =>
          cases released
          exact ⟨linked.deleteNode upkeep gives keeps present, trivial⟩
        next =>
          cases released
          exact ⟨fun _ => gives.settled linked upkeep listed present _, trivial⟩
    next =>
      cases released
      exact ⟨nofun, trivial⟩
  next stage others ending =>
    split at released
    next env outcome taken =>
      cases released
      refine ⟨fun unaborted => linked.move upkeep ?_, trivial⟩
      exact fun other node member => ((after unaborted).owned other node member).2
    next =>
      cases released
      exact ⟨nofun, trivial⟩
  next => cases released

theorem nodeStep_linked (upkeep : Upkeep store) (linked : Linked store)
    (prompt : Prompt store event) (taken : nodeStep store event = some (next, answer)) :
    (next.aborted = none → Linked next) ∧ Answered store next answer := by
  have after := nodeStep_upkeep upkeep taken
  cases does_of_nodeStep taken with
  | begin =>
    refine ⟨fun unaborted => linked.move upkeep ?_, trivial⟩
    exact fun other node member => ((after unaborted).owned other node member).2
  | passed => exact ⟨fun _ => linked, trivial⟩
  | @visit btx lock write now _ _ ready there _ same =>
    have started : Linked (store.startCall btx ⟨lock, .visit write⟩ now).1 ∧
        Answered store (store.startCall btx ⟨lock, .visit write⟩ now).1
          (store.startCall btx ⟨lock, .visit write⟩ now).2 := by
      apply linked.startCall upkeep ready.2 there
      intro env outcome _ _ link target header before content purpose
      cases purpose
    rw [same] at started
    exact ⟨fun _ => started.1, started.2⟩
  | @set btx node link target _ now content middle _ header _ ready present fetched same =>
    obtain ⟨kept, unmoved, _⟩ := upkeep.fetch present fetched
    obtain ⟨fresh, written, later, there, current, had⟩ := linked.fetch present fetched
    have started : Linked (middle.startCall btx
        ⟨node, .set link target header content.newHeader⟩ now).1 ∧
        Answered middle (middle.startCall btx
          ⟨node, .set link target header content.newHeader⟩ now).1 (middle.startCall btx
          ⟨node, .set link target header content.newHeader⟩ now).2 := by
      apply fresh.startCall kept (by rw [unmoved]; exact ready.2) (by rw [there]; nofun)
      intro env outcome taken
      apply returns_of_prompt there unmoved current ?_ taken
      rcases had with same | ⟨committed, bare⟩
      · left
        rw [same]
      · right
        exact fun declared => prompt content declared present committed bare
    rw [same] at started
    refine ⟨fun _ => started.1, started.2.congr_written written.symm ?_⟩
    have told := middle.startCall_answer btx ⟨node, .set link target header content.newHeader⟩ now
    rwa [same] at told
  | @wake btx now call _ _ _ calls same =>
    have waits := upkeep.waits btx call not_false calls
    have engaged := upkeep.engaged btx
    have advanced := linked.advance engaged (.wake btx now)
      (fun env outcome taken => ⟨requested_of_wake upkeep.consistent waits taken,
        returns_of_wake upkeep calls prompt taken⟩)
    rw [same] at advanced
    exact ⟨fun _ => advanced.1, advanced.2⟩
  | create _ absent => exact ⟨fun _ => linked.create upkeep absent _ _, trivial⟩
  | mark => exact ⟨fun _ => linked.markModification _ _, trivial⟩
  | writeContent _ present =>
    refine ⟨fun _ => ?_, trivial⟩
    unfold NodeStore.writeContent
    split
    next => exact linked
    next =>
      split
      next => exact linked.setNode present rfl rfl rfl
      next => exact linked.setNode present rfl rfl rfl
  | @markDeleted btx node content _ present =>
    have changed : Linked (store.setNode node
        { content with isDeleted := true, newKey := false, newPage := false }) :=
      linked.setNode present rfl rfl rfl
    exact ⟨fun _ => changed.markModification btx node, trivial⟩
  | scrap ready present writer _ unlocked =>
    refine ⟨fun unaborted => ?_, trivial⟩
    have gives := upkeep.givesUp_running ready.2 writer unlocked
    apply linked.deleteNode upkeep gives ?_ present unaborted
    intro held member different
    exact (List.mem_erase_of_ne different).mpr member
  | stuck => exact ⟨nofun, trivial⟩
  | commit | rollback =>
    refine ⟨fun unaborted => ?_, trivial⟩
    have moved := linked.move upkeep fun other node member =>
      ((after unaborted).owned other node member).2
    exact moved.congr rfl rfl rfl rfl rfl
  | release _ released => exact linked.releaseNext upkeep released

theorem Idle.linked (idle : Idle store) : Linked store where
  stored := by
    intro node content pending present has
    rw [(idle.settled node content present).2.2.1] at has
    cases has
  apart := by
    intro node content pending other later waiting present has
    rw [(idle.settled node content present).2.2.1] at has
    cases has
  recorded := by
    intro btx node link set
    exact absurd (idle.written btx node link) set
  agrees := by
    intro node content link present
    rw [effectiveHeader, (idle.settled node content present).2.2.1, pendingLink, idle.env]
    rfl

/-- Who has a node locked reads what it has set itself. -/
theorem Linked.readsBack (linked : Linked store) (upkeep : Upkeep store) : ReadsBack store := by
  refine ⟨?_, linked.recorded⟩
  intro btx node content link present holds
  have owned : ∀ other, store.written other node link ≠ none →
      (store.env.lock node).writer = some other :=
    fun other set => (upkeep.owned other node (linked.recorded other node link set)).2
  have same : pendingLink store node link = store.written btx node link := by
    cases writer : (store.env.lock node).writer with
    | none =>
      have unset : store.written btx node link = none := by
        by_contra set
        rw [owned btx set] at writer
        cases writer
      rw [pendingLink, writer, unset]
      rfl
    | some other =>
      have alone := upkeep.consistent.holdings.holds_alone
        ((upkeep.consistent.holdings.writer_iff other node).mp writer) holds
      rw [pendingLink, writer, alone]
      rfl
  rw [linked.agrees node content link present, same]

/-- In a run whose steps are all prompt, transactions read back the links they have set, find the
others as they have been committed, and commit what they have set; a call that fails leaves no
pending header behind. -/
theorem links_agree {start : NodeStore} (idle : Idle start) {trace : List (Event × Answer)}
    (run : Run nodeStep Prompt start trace store) :
    (store.aborted = none → ReadsBack store) ∧
      ∀ event next answer, Prompt store event → nodeStep store event = some (next, answer) →
        Answered store next answer := by
  have kept : store.aborted = none → Upkeep store ∧ Linked store := by
    refine run.state_invariant (fun store => store.aborted = none → Upkeep store ∧ Linked store)
      (fun _ => ⟨idle.upkeep, idle.linked⟩) ?_
    rintro state event next answer kept prompt taken unaborted
    obtain ⟨upkeep, linked⟩ := kept (nodeStep_unaborted taken)
    exact ⟨nodeStep_upkeep upkeep taken unaborted,
      (nodeStep_linked upkeep linked prompt taken).1 unaborted⟩
  constructor
  · intro unaborted
    exact (kept unaborted).2.readsBack (kept unaborted).1
  · intro event next answer prompt taken
    obtain ⟨upkeep, linked⟩ := kept (nodeStep_unaborted taken)
    exact (nodeStep_linked upkeep linked prompt taken).2

/-- The node has its next sibling set, in time. -/
def linking : NodeStore :=
  stateAfter nodeStep oneNode [.begin 1 10, .set 1 5 .next (some 8) 7 0]

theorem links_agree_linking : ReadsBack linking ∧ linking.aborted = none := by
  have begun : nodeStep oneNode (.begin 1 10) =
      some (stateAfter nodeStep oneNode [.begin 1 10], .other) := rfl
  have set : nodeStep (stateAfter nodeStep oneNode [.begin 1 10]) (.set 1 5 .next (some 8) 7 0) =
      some (linking, .set 1 5 .next (some 8) none true) := rfl
  have prompt : Prompt (stateAfter nodeStep oneNode [.begin 1 10])
      (.set 1 5 .next (some 8) 7 0) := by
    intro content declared _ _ _ equal
    cases equal
    exact ⟨by decide, .inl (by decide)⟩
  have start : Run nodeStep Prompt oneNode [] oneNode := .nil
  have early := start.snoc (show Prompt oneNode (.begin 1 10) from trivial) begun
  have run := early.snoc prompt set
  exact ⟨(links_agree oneNode_idle run).1 (by decide), by decide⟩

/-- Two transactions have the node locked for reading. -/
def shared : NodeStore :=
  stateAfter nodeStep oneNode
    [.begin 1 10, .begin 2 10, .visit 1 5 false 0, .visit 2 5 false 0]

/-- The first of them has declared that it wants to write. -/
def sharedDeclared : Environment :=
  (shared.env.modifyTxn 1 fun txn => { txn with waitingToWrite := some 5 }).dropRead 1 5

theorem lockDetect_sharedDeclared : lockDetect sharedDeclared = false :=
  lockDetect_pair rfl (by decide) (by decide) (by decide)

/-- It has created a pending header, and sleeps. -/
def sharedAwaited : NodeStore :=
  { ((shared.setNode 5
        ⟨false, false, ⟨none, none, none, none⟩, some ⟨7, 1⟩, false, false⟩).setBlock 7
      (some ⟨none, none, none, none⟩)).enterCall 1
        ⟨5, .set .next (some 8) (.block 7) none⟩ with
    env := sharedDeclared.setPhase 1 (.waiting 5 true) }

theorem nodeStep_shared :
    nodeStep shared (.set 1 5 .next (some 8) 7 1) = some (sharedAwaited, .other) := by
  have attempt : lockStep shared.env (.lock 1 5 true 1) =
      some (sharedDeclared.setPhase 1 (.waiting 5 true), .waits) := by
    change some (txLockAttempt sharedDeclared 1 5 true 1) = _
    simp [txLockAttempt, lockDetect_sharedDeclared,
      show available sharedDeclared 5 true = false by decide,
      show checkTxTimeout (sharedDeclared.txn 1) 1 = true by decide]
  change some (NodeStore.advance _ 1 ⟨5, .set .next (some 8) (.block 7) none⟩
    (.lock 1 5 true 1)) = _
  refine congrArg some ?_
  exact NodeStore.advance_waits attempt

/-- A call that is refused leaves the header it has created.  A call that sleeps while another
transaction commits the node returns success, and its transaction does not find what it has set. -/
theorem refused_and_stale : Idle oneNode ∧
    (∃ trace store next content, Run nodeStep anyAction oneNode trace store ∧
      nodeStep store (.set 1 5 .next (some 8) 7 10) =
        some (next, .set 1 5 .next (some 8) none false) ∧
      next.place 5 = .node content ∧ content.newHeader = some ⟨7, 1⟩) ∧
    ∃ trace store next content, Run nodeStep anyAction oneNode trace store ∧
      nodeStep store (.wake 1 2) = some (next, .set 1 5 .next (some 8) none true) ∧
      next.place 5 = .node content ∧ (next.effectiveHeader content).get .next = none := by
  refine ⟨oneNode_idle, ?_, ?_⟩
  · obtain ⟨trace, run⟩ := exists_run_stateAfter nodeStep oneNode
      [.begin 1 10, .visit 1 5 false 0]
    exact ⟨trace, _, _, _, run, rfl, rfl, rfl⟩
  · obtain ⟨early, run⟩ := exists_run_stateAfter nodeStep oneNode
      [.begin 1 10, .begin 2 10, .visit 1 5 false 0, .visit 2 5 false 0]
    obtain ⟨late, final, executed, same⟩ : ∃ late final,
        exec nodeStep sharedAwaited [.set 2 5 .prev (some 9) 6 1, .commit 2, .release 2] =
          some (late, final) ∧
        final = stateAfter nodeStep sharedAwaited
          [.set 2 5 .prev (some 9) 6 1, .commit 2, .release 2] := ⟨_, _, rfl, rfl⟩
    have whole := (run.snoc trivial nodeStep_shared).append_exec (fun _ _ _ => trivial) executed
    subst same
    exact ⟨_, _, _, _, whole, rfl, rfl, rfl⟩

end Gzochi.StorageMem.Nodes
