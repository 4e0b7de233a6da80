import Gzochi.StorageMem.Nodes
import Gzochi.StorageMem.Writers

/-!
# What every step keeps

A transaction has locked for writing what it has recorded as modified, until it has committed
it or rolled it back; and the reference count of a lock in the table is one more than the number
of calls that wait for it.
-/

namespace Gzochi.StorageMem.Nodes

open Environment Lib Function NodeStore Option List

/-- A transaction that has gone through its modifications has none left. -/
def Listed (phase : Phase) (modifications : List NodeId) : Prop :=
  match phase with
  | .running | .waiting _ _ => True
  | .ending (.modifications rest) => modifications = rest
  | _ => modifications = []

/-- The reference count of a lock, and the calls that wait for it. -/
def Counted (store : NodeStore) (lock : LockId) : Prop :=
  ∃ waiting : List TxnId, waiting.Nodup ∧
    (∀ btx, btx ∈ waiting ↔ ∃ call, store.call btx = some call ∧ call.lock = lock) ∧
    store.refCount lock = waiting.length + 1

/-- What holds while the thread of a transaction is in a call. -/
structure Engaged (store : NodeStore) (busy : TxnId → Prop) : Prop where
  consistent : Consistent store.env
  waits : ∀ btx call, ¬busy btx → store.call btx = some call →
    store.env.phase btx = .waiting call.lock call.purpose.write
  placed : ∀ btx call, store.call btx = some call → store.place call.lock ≠ .absent
  listed : ∀ btx, Listed (store.env.phase btx) (store.modifications btx)
  owned : ∀ btx node, node ∈ store.modifications btx →
    (∃ content, store.place node = .node content) ∧ (store.env.lock node).writer = some btx
  nodup : ∀ btx, (store.modifications btx).Nodup
  counted : ∀ lock content, store.place lock = .node content → Counted store lock

/-- The invariant of every run. -/
abbrev Upkeep (store : NodeStore) : Prop := Engaged store fun _ => False

variable {store next : NodeStore} {env : Environment} {busy : TxnId → Prop}
  {btx other : TxnId} {node lock : NodeId} {content : BtreeNode} {call : NodeCall}
  {outcome : Outcome} {answer : Answer}

theorem Upkeep.engaged (upkeep : Upkeep store) (btx : TxnId) : Engaged store (· = btx) :=
  { upkeep with waits := fun other call _ => upkeep.waits other call not_false }

theorem NodeStore.lockUnref_eq (store : NodeStore) (lock : LockId) :
    ∃ aborted, store.lockUnref lock = { store with
      refCount := update store.refCount lock (store.refCount lock - 1)
      aborted := aborted } := by
  unfold lockUnref
  dsimp only
  split
  next => exact ⟨some .lockInUse, rfl⟩
  next => exact ⟨store.aborted, rfl⟩

theorem NodeStore.freeHeader_eq (store : NodeStore) (content : BtreeNode) :
    ∃ heap, store.freeHeader content = { store with heap := heap } := by
  unfold freeHeader
  split
  next => exact ⟨store.heap, rfl⟩
  next pending _ => exact ⟨update store.heap pending.address none, rfl⟩

/-- The fields the invariant is about. -/
theorem Engaged.congr (engaged : Engaged store busy) (same : next.env = store.env)
    (place : next.place = store.place) (refCount : next.refCount = store.refCount)
    (modifications : next.modifications = store.modifications) (calls : next.call = store.call) :
    Engaged next busy := by
  obtain ⟨consistent, waits, placed, listed, owned, nodup, counted⟩ := engaged
  constructor
  · rwa [same]
  · rwa [same, calls]
  · rwa [place, calls]
  · rwa [same, modifications]
  · rwa [same, place, modifications]
  · rwa [modifications]
  · unfold Counted
    rw [place, calls, refCount]
    exact counted

theorem Engaged.setNode (engaged : Engaged store busy)
    (present : store.place node = .node content) (changed : BtreeNode) :
    Engaged (store.setNode node changed) busy := by
  have places : ∀ held, (∃ content, (store.setNode node changed).place held = .node content) ↔
      ∃ content, store.place held = .node content := by
    intro held
    by_cases self : held = node
    · subst self
      simp [NodeStore.setNode, present]
    · simp [NodeStore.setNode, self]
  refine ⟨engaged.consistent, engaged.waits, ?_, engaged.listed, ?_, engaged.nodup, ?_⟩
  · intro btx call calls
    have placed := engaged.placed btx call calls
    simp only [NodeStore.setNode, update_apply]
    split
    next => nofun
    next => exact placed
  · intro btx held member
    exact ⟨(places held).mpr (engaged.owned btx held member).1, (engaged.owned btx held member).2⟩
  · intro held content there
    obtain ⟨before, present⟩ := (places held).mp ⟨content, there⟩
    exact engaged.counted held before present

theorem Engaged.markModification (engaged : Engaged store busy)
    (present : store.place node = .node content)
    (writer : (store.env.lock node).writer = some btx)
    (stands : Listed (store.env.phase btx) (node :: store.modifications btx)) :
    Engaged (store.markModification btx node) busy := by
  unfold NodeStore.markModification
  split
  next => exact engaged
  next absent =>
    refine ⟨engaged.consistent, engaged.waits, engaged.placed, ?_, ?_, ?_, engaged.counted⟩
    · intro other
      simp only [setModifications, update_apply]
      split
      next self =>
        subst self
        exact stands
      next => exact engaged.listed other
    · intro other held member
      simp only [setModifications, update_apply] at member
      split at member
      next self =>
        subst self
        rcases mem_cons.mp member with same | before
        · subst same
          exact ⟨⟨content, present⟩, writer⟩
        · exact engaged.owned other held before
      next => exact engaged.owned other held member
    · intro other
      simp only [setModifications, update_apply]
      split
      next self =>
        subst self
        exact nodup_cons.mpr ⟨absent, engaged.nodup other⟩
      next => exact engaged.nodup other

/-- A call whose thread is in `tx_lock`. -/
theorem Engaged.move (engaged : Engaged store (· = btx)) {write : Bool}
    (requested : Requested store.env btx lock write env outcome) :
    Engaged { store with env := env } (· = btx) where
  consistent := requested.consistent
  waits := by
    intro other call different calls
    rw [← engaged.waits other call different calls]
    exact requested.others other different
  placed := engaged.placed
  listed := by
    intro other
    by_cases self : other = btx
    · subst self
      dsimp only
      rw [requested.phase]
      split <;> trivial
    · dsimp only
      rw [requested.others other self]
      exact engaged.listed other
  owned := by
    intro other node member
    obtain ⟨present, writer⟩ := engaged.owned other node member
    exact ⟨present, requested.grows writer⟩
  nodup := engaged.nodup
  counted := engaged.counted

/-- The call is over, and has given back its reference. -/
theorem Engaged.leave (engaged : Engaged store (· = btx)) (calls : store.call btx = some call)
    (refCount : LockId → Nat)
    (others : ∀ held, held ≠ call.lock → refCount held = store.refCount held)
    (less : ∀ content, store.place call.lock = .node content →
      refCount call.lock = store.refCount call.lock - 1) :
    Upkeep { store.setCall btx none with refCount := refCount } := by
  have fewer : ∀ other, ∀ call, update store.call btx none other = some call →
      other ≠ btx ∧ store.call other = some call := by
    intro other call calls
    rw [update_apply] at calls
    obtain ⟨different, calls⟩ := ite_none_left_eq_some.mp calls
    exact ⟨different, calls⟩
  refine ⟨engaged.consistent, ?_, ?_, engaged.listed, engaged.owned, engaged.nodup, ?_⟩
  · intro other later _ calls
    obtain ⟨different, before⟩ := fewer other later calls
    exact engaged.waits other later different before
  · intro other later calls
    exact engaged.placed other later (fewer other later calls).2
  · intro held content present
    obtain ⟨waiting, nodup, those, count⟩ := engaged.counted held content present
    by_cases self : held = call.lock
    · subst self
      have member := (those btx).mpr ⟨call, calls, rfl⟩
      refine ⟨waiting.erase btx, nodup.erase btx, ?_, ?_⟩
      · intro other
        rw [nodup.mem_erase_iff, those other]
        constructor
        · rintro ⟨different, later, before, same⟩
          exact ⟨later, (update_of_ne different _ _).trans before, same⟩
        · rintro ⟨later, after, same⟩
          obtain ⟨different, before⟩ := fewer other later after
          exact ⟨different, later, before, same⟩
      · have length := length_erase_of_mem member
        have positive := length_pos_of_mem member
        dsimp only
        rw [less content present]
        omega
    · refine ⟨waiting, nodup, ?_, ?_⟩
      · intro other
        rw [those other]
        constructor
        · rintro ⟨later, before, there⟩
          have different : other ≠ btx := by
            intro own
            rw [own, calls] at before
            injection before with equal
            exact self (equal ▸ there.symm)
          exact ⟨later, (update_of_ne different _ _).trans before, there⟩
        · rintro ⟨later, after, same⟩
          exact ⟨later, (fewer other later after).2, same⟩
      · exact (others held self).trans count

/-- A link is set by the transaction that has the lock. -/
theorem Engaged.setLink (engaged : Engaged store busy) (present : store.place node = .node content)
    (writer : (store.env.lock node).writer = some btx)
    (running : store.env.phase btx = .running) (header : HeaderPointer) (link : Link)
    (target : Option NodeId) :
    Engaged (store.setLink btx node content header link target) busy := by
  have stands : ∀ modifications, Listed (store.env.phase btx) modifications := by
    intro modifications
    rw [running]
    trivial
  unfold NodeStore.setLink
  cases header with
  | own =>
    have changed := engaged.setNode present
      { content with header := content.header.set link target }
    have written : Engaged ((store.writeLink node content .own link target).setWritten btx node
        (update (store.written btx node) link (some target))) busy :=
      changed.congr rfl rfl rfl rfl rfl
    exact written.markModification (update_self _ _ _) writer (stands _)
  | block address =>
    have written : Engaged ((store.writeLink node content (.block address) link target).setWritten
        btx node (update (store.written btx node) link (some target))) busy :=
      engaged.congr rfl rfl rfl rfl rfl
    exact written.markModification present writer (stands _)

theorem Engaged.leave_wrapper (engaged : Engaged store (· = btx))
    (calls : store.call btx = some call) (wrapper : store.place call.lock = .wrapper) :
    Upkeep (store.setCall btx none) := by
  apply engaged.leave calls store.refCount (fun _ _ => rfl)
  intro content present
  rw [wrapper] at present
  cases present

theorem Engaged.leave_lockUnref (engaged : Engaged store (· = btx))
    (calls : store.call btx = some call) :
    Upkeep ((store.setCall btx none).lockUnref call.lock) := by
  obtain ⟨aborted, same⟩ := (store.setCall btx none).lockUnref_eq call.lock
  rw [same]
  have left := engaged.leave calls (update store.refCount call.lock (store.refCount call.lock - 1))
    (fun held different => update_of_ne different _ _)
    (fun _ _ => update_self _ _ _)
  exact left.congr rfl rfl rfl rfl rfl

theorem Engaged.endCall (engaged : Engaged store (· = btx)) (calls : store.call btx = some call)
    (running : store.env.phase btx = .running) {granted : Bool}
    (locked : granted = true → call.purpose.write = true →
      (store.env.lock call.lock).writer = some btx) :
    Upkeep (store.endCall btx call granted).1 := by
  have left := engaged.leave_lockUnref calls
  unfold NodeStore.endCall
  dsimp only
  split
  next wrapper => exact engaged.leave_wrapper calls wrapper
  next content link target header before present purpose =>
    split
    next success =>
      obtain ⟨aborted, same⟩ := (store.setCall btx none).lockUnref_eq call.lock
      have writer := locked success (by rw [purpose]; rfl)
      apply left.setLink
      · rw [same]
        exact present
      · rw [same]
        exact writer
      · rw [same]
        exact running
    next => exact left
  next => exact left
  next => exact left

theorem Engaged.advance (engaged : Engaged store (· = btx)) (calls : store.call btx = some call)
    (action : Action) (possible : lockStep store.env action ≠ none)
    (requested : ∀ env outcome, lockStep store.env action = some (env, outcome) →
      Requested store.env btx call.lock call.purpose.write env outcome) :
    Upkeep (store.advance btx call action).1 := by
  unfold NodeStore.advance
  split
  next stuck => exact absurd stuck possible
  next env taken =>
    have step := requested env .waits taken
    have moved := engaged.move step
    have phase := step.phase
    rw [if_pos rfl] at phase
    refine ⟨moved.consistent, ?_, moved.placed, moved.listed, moved.owned, moved.nodup,
      moved.counted⟩
    intro other later _ waits
    by_cases self : other = btx
    · subst self
      rw [calls] at waits
      cases waits
      exact phase
    · exact moved.waits other later self waits
  next env outcome awake taken =>
    have step := requested env outcome taken
    have moved := engaged.move step
    have phase := step.phase
    rw [if_neg (fun waits => awake (by rw [waits]))] at phase
    apply moved.endCall calls phase
    intro success writes
    rw [writes] at step
    exact step.returned (of_decide_eq_true success)

/-- A call begins. -/
theorem Engaged.enterCall (upkeep : Upkeep store) (running : store.env.phase btx = .running)
    (there : store.place call.lock ≠ .absent) :
    Engaged (store.enterCall btx call) (· = btx) := by
  have unengaged : store.call btx = none := by
    cases calls : store.call btx with
    | none => rfl
    | some earlier =>
      have waits := upkeep.waits btx earlier not_false calls
      rw [running] at waits
      cases waits
  have others : ∀ other later, store.call other = some later → other ≠ btx := by
    intro other later before self
    rw [self, unengaged] at before
    cases before
  have either : ∀ other later, (store.enterCall btx call).call other = some later →
      (other = btx ∧ later = call) ∨ (other ≠ btx ∧ store.call other = some later) := by
    intro other later calls
    dsimp only [NodeStore.enterCall, setCall] at calls
    rw [update_apply] at calls
    split at calls
    next self =>
      injection calls with same
      exact .inl ⟨self, same.symm⟩
    next different => exact .inr ⟨different, calls⟩
  refine ⟨upkeep.consistent, ?_, ?_, upkeep.listed, upkeep.owned, upkeep.nodup, ?_⟩
  · intro other later different calls
    rcases either other later calls with ⟨self, _⟩ | ⟨_, before⟩
    · exact absurd self different
    · exact upkeep.waits other later not_false before
  · intro other later calls
    rcases either other later calls with ⟨_, same⟩ | ⟨_, before⟩
    · rw [same]
      exact there
    · exact upkeep.placed other later before
  · intro held content present
    obtain ⟨waiting, nodup, those, count⟩ := upkeep.counted held content present
    have stays : ∀ other, (∃ later, store.call other = some later ∧ later.lock = held) →
        ∃ later, (store.enterCall btx call).call other = some later ∧ later.lock = held := by
      rintro other ⟨later, before, same⟩
      exact ⟨later, (update_of_ne (others other later before) _ _).trans before, same⟩
    by_cases self : held = call.lock
    · subst self
      refine ⟨btx :: waiting, nodup_cons.mpr ⟨?_, nodup⟩, ?_, ?_⟩
      · intro member
        obtain ⟨later, calls, _⟩ := (those btx).mp member
        exact others btx later calls rfl
      · intro other
        rw [mem_cons, those other]
        constructor
        · rintro (self | before)
          · exact ⟨call, self ▸ update_self _ _ _, rfl⟩
          · exact stays other before
        · rintro ⟨later, calls, same⟩
          rcases either other later calls with ⟨self, _⟩ | ⟨_, before⟩
          · exact .inl self
          · exact .inr ⟨later, before, same⟩
      · have node : store.place call.lock ≠ .wrapper := by
          intro wrapper
          have present : store.place call.lock = .node content := present
          rw [wrapper] at present
          cases present
        rw [length_cons, ← count, NodeStore.enterCall, if_neg node]
        exact update_self _ _ _
    · refine ⟨waiting, nodup, ?_, ?_⟩
      · intro other
        rw [those other]
        constructor
        · exact stays other
        · rintro ⟨later, calls, same⟩
          rcases either other later calls with ⟨_, own⟩ | ⟨_, before⟩
          · rw [own] at same
            exact absurd same.symm self
          · exact ⟨later, before, same⟩
      · rw [← count, NodeStore.enterCall]
        dsimp only
        split
        next => rfl
        next => exact update_of_ne self _ _

theorem Engaged.startCall (upkeep : Upkeep store) (running : store.env.phase btx = .running)
    (there : store.place call.lock ≠ .absent) (now : Int) :
    Upkeep (store.startCall btx call now).1 :=
  (upkeep.enterCall running there).advance (update_self _ _ _) _
    (lockStep_lock_isSome upkeep.consistent running)
    (fun _ _ taken => requested_of_lock upkeep.consistent taken)

/-- The locks and modifications of a transaction that has given back the lock of a node. -/
structure GivesUp (store : NodeStore) (btx : TxnId) (node : NodeId) (env : Environment)
    (rest : List NodeId) : Prop where
  consistent : Consistent env
  phases : ∀ other, other ≠ btx → env.phase other = store.env.phase other
  waits : ∀ lock write, store.env.phase btx ≠ .waiting lock write
  listed : Listed (env.phase btx) rest
  writer : (store.env.lock node).writer = some btx
  writers : ∀ held, held ≠ node → (env.lock held).writer = (store.env.lock held).writer
  others : ∀ held ∈ rest, held ≠ node ∧ held ∈ store.modifications btx
  nodup : rest.Nodup

variable {rest : List NodeId}

section Whole

variable (upkeep : Upkeep store)
include upkeep

theorem GivesUp.engaged (gives : GivesUp store btx node env rest)
    (place : NodeId → Place) (places : ∀ held, held ≠ node → place held = store.place held)
    (present : place node ≠ .absent)
    (still : ∀ content, place node = .node content → ∃ before, store.place node = .node before)
    (refCount : LockId → Nat)
    (counts : ∀ held content, place held = .node content → refCount held = store.refCount held) :
    Upkeep { store.setModifications btx rest with
      env := env, place := place, refCount := refCount } := by
  have members : ∀ other held, held ∈ update store.modifications btx rest other →
      held ≠ node ∧ held ∈ store.modifications other := by
    intro other held member
    rw [update_apply] at member
    split at member
    next self => exact self ▸ gives.others held member
    next different =>
      refine ⟨?_, member⟩
      intro self
      have writer := (upkeep.owned other held member).2
      rw [self, gives.writer] at writer
      injection writer with same
      exact different same.symm
  refine ⟨gives.consistent, ?_, ?_, ?_, ?_, ?_, ?_⟩
  · intro other call _ calls
    have waits := upkeep.waits other call not_false calls
    have different : other ≠ btx := by
      intro self
      rw [self] at waits
      exact gives.waits _ _ waits
    rw [← waits]
    exact gives.phases other different
  · intro other call calls
    by_cases self : call.lock = node
    · rw [self]
      exact present
    · dsimp only
      rw [places call.lock self]
      exact upkeep.placed other call calls
  · intro other
    dsimp only [setModifications]
    rw [update_apply]
    split
    next self =>
      rw [self]
      exact gives.listed
    next different =>
      rw [gives.phases other different]
      exact upkeep.listed other
  · intro other held member
    obtain ⟨different, before⟩ := members other held member
    obtain ⟨there, writer⟩ := upkeep.owned other held before
    dsimp only
    rw [places held different, gives.writers held different]
    exact ⟨there, writer⟩
  · intro other
    dsimp only [setModifications]
    rw [update_apply]
    split
    next => exact gives.nodup
    next => exact upkeep.nodup other
  · intro held content now
    have before : ∃ content, store.place held = .node content := by
      by_cases self : held = node
      · rw [self] at now ⊢
        exact still content now
      · exact ⟨content, (places held self) ▸ now⟩
    obtain ⟨content, before⟩ := before
    obtain ⟨waiting, nodup, those, count⟩ := upkeep.counted held content before
    exact ⟨waiting, nodup, those, (counts held _ now).trans count⟩

/-- A node is freed. -/
theorem GivesUp.deleteNode (gives : GivesUp store btx node env rest)
    (clean : ¬(content.newKey = true ∨ content.newPage = true)) :
    Upkeep ((store.setModifications btx rest).deleteNode btx node content env) := by
  have free := gives.engaged upkeep (update store.place node .freed)
    (fun held different => update_of_ne different _ _)
    (by rw [update_self]; nofun)
    (fun content now => by rw [update_self] at now; cases now)
    (update store.refCount node (store.refCount node - 1))
    (by
      intro held content now
      apply update_of_ne
      intro self
      rw [self, update_self] at now
      cases now)
  unfold NodeStore.deleteNode
  rw [if_neg clean]
  dsimp only
  obtain ⟨heap, freed⟩ := (lockUnref { store.setModifications btx rest with
    env := env, place := update store.place node .freed } node).freeHeader_eq content
  obtain ⟨aborted, counted⟩ := lockUnref_eq { store.setModifications btx rest with
    env := env, place := update store.place node .freed } node
  rw [counted] at freed
  have same : (store.setModifications btx rest).place = store.place := rfl
  rw [same, counted, freed]
  exact free.congr rfl rfl rfl rfl rfl

/-- A node keeps its place, with other content. -/
theorem GivesUp.settle (gives : GivesUp store btx node env rest)
    (present : store.place node = .node content) (settled : BtreeNode)
    (links : Link → Option (Option NodeId)) :
    Upkeep ((({ store.setModifications btx rest with env := env }.setNode node settled).freeHeader
      content).setWritten btx node links) := by
  have kept := gives.engaged upkeep (update store.place node (.node settled))
    (fun held different => update_of_ne different _ _)
    (by rw [update_self]; nofun) (fun _ _ => ⟨content, present⟩) store.refCount
    (fun _ _ _ => rfl)
  obtain ⟨heap, freed⟩ := freeHeader_eq
    ({ store.setModifications btx rest with env := env }.setNode node settled) content
  rw [freed]
  exact kept.congr rfl rfl rfl rfl rfl

/-- A turn of the loops of `commit` and `rollback` over the modifications. -/
theorem Engaged.givesUp
    (ending : store.env.phase btx = .ending (.modifications (node :: rest)))
    (taken : lockStep store.env (.release btx) = some (env, outcome)) :
    GivesUp store btx node env rest ∧ store.modifications btx = node :: rest := by
  obtain ⟨stage, step⟩ := released_of_release upkeep.consistent taken
  have same := step.ending
  rw [ending] at same
  cases same
  obtain ⟨writer, phase, writers⟩ := step.next
  have listed := upkeep.listed btx
  rw [ending] at listed
  have listed : store.modifications btx = node :: rest := listed
  have nodup := upkeep.nodup btx
  rw [listed] at nodup
  refine ⟨⟨step.consistent, step.others, ?_, ?_, writer, ?_, ?_, nodup.of_cons⟩, listed⟩
  · intro lock write waits
    rw [ending] at waits
    cases waits
  · rw [phase]
    rfl
  · intro held different
    rw [writers, if_neg different]
  · intro held member
    refine ⟨?_, listed ▸ mem_cons_of_mem _ member⟩
    intro self
    exact (nodup_cons.mp nodup).1 (self ▸ member)

/-- A new node is given up. -/
theorem Engaged.givesUp_running (running : store.env.phase btx = .running)
    (writer : (store.env.lock node).writer = some btx)
    (unlocked : txUnlock store.env node btx = some env) :
    GivesUp store btx node env ((store.modifications btx).erase node) := by
  have phases := (txUnlock_spec upkeep.consistent.holdings unlocked).2.1
  refine ⟨txUnlock_consistent upkeep.consistent running unlocked, fun other _ => by rw [phases], ?_,
    ?_, writer, ?_, ?_, (upkeep.nodup btx).erase node⟩
  · intro lock write waits
    rw [running] at waits
    cases waits
  · rw [phases, running]
    trivial
  · intro held different
    rw [txUnlock_writer unlocked, if_neg (fun same => different same.1)]
  · intro held member
    exact (upkeep.nodup btx).mem_erase_iff.mp member

/-- One turn of the loops of `commit` and `rollback`. -/
theorem Engaged.releaseNext
    (released : store.releaseNext btx = some (next, answer)) (unaborted : next.aborted = none) :
    Upkeep next := by
  unfold NodeStore.releaseNext at released
  split at released
  next node rest ending =>
    split at released
    next env outcome content taken present =>
      obtain ⟨gives, _⟩ := upkeep.givesUp ending taken
      have deleted : ∀ {given : Answer},
          some ((store.setModifications btx rest).deleteNode btx node content env, given) =
            some (next, answer) → Upkeep next := by
        intro given released
        cases released
        apply gives.deleteNode upkeep
        intro dirty
        rw [NodeStore.deleteNode, if_pos dirty] at unaborted
        cases unaborted
      dsimp only at released
      split at released
      next =>
        split at released
        next => exact deleted released
        next =>
          cases released
          exact gives.settle upkeep present _ _
      next =>
        split at released
        next => exact deleted released
        next =>
          cases released
          exact gives.settle upkeep present _ _
    next =>
      cases released
      cases unaborted
  next stage others ending =>
    split at released
    next env outcome taken =>
      obtain ⟨stage', step⟩ := released_of_release upkeep.consistent taken
      have same := step.ending
      rw [ending] at same
      cases same
      cases released
      have none : store.modifications btx = [] := by
        have listed := upkeep.listed btx
        rw [ending] at listed
        match stage with
        | .modifications [] => exact listed
        | .modifications (node :: rest) => exact absurd rfl (others node rest)
        | .writes _ => exact listed
        | .reads _ => exact listed
      have goes : env.phase btx = .ended ∨
          ∃ stage, env.phase btx = .ending stage ∧ ∀ rest, stage ≠ .modifications rest := by
        have next := step.next
        match stage with
        | .modifications [] => exact next
        | .modifications (node :: rest) => exact absurd rfl (others node rest)
        | .writes _ => exact next
        | .reads _ => exact next
      refine ⟨step.consistent, ?_, upkeep.placed, ?_, ?_, upkeep.nodup, upkeep.counted⟩
      · intro other call _ calls
        have waits := upkeep.waits other call not_false calls
        have different : other ≠ btx := by
          intro self
          rw [self, ending] at waits
          cases waits
        exact (step.others other different).trans waits
      · intro other
        by_cases self : other = btx
        · subst self
          dsimp only
          rcases goes with ended | ⟨stage, ending, last⟩
          · rw [ended]
            exact none
          · rw [ending]
            match stage with
            | .modifications rest => exact absurd rfl (last rest)
            | .writes _ => exact none
            | .reads _ => exact none
        · dsimp only
          rw [step.others other self]
          exact upkeep.listed other
      · intro other node member
        obtain ⟨there, writer⟩ := upkeep.owned other node member
        have different : other ≠ btx := by
          intro self
          rw [self, none] at member
          cases member
        exact ⟨there, step.keeps node other different writer⟩
    next =>
      cases released
      cases unaborted
  next => cases released

/-- A step of the lock manager that changes no lock. -/
theorem Engaged.lockless {action : Action}
    (taken : lockStep store.env action = some (env, outcome)) (locks : env.lock = store.env.lock)
    (still : ∀ lock write, store.env.phase action.actor ≠ .waiting lock write)
    (listed : Listed (env.phase action.actor) (store.modifications action.actor)) :
    Upkeep { store with env := env } := by
  have others : ∀ other, other ≠ action.actor → env.phase other = store.env.phase other :=
    fun _ different => (lockStep_other upkeep.consistent taken different).2
  refine ⟨lockStep_consistent upkeep.consistent taken, ?_, upkeep.placed, ?_, ?_, upkeep.nodup,
    upkeep.counted⟩
  · intro other call _ calls
    have waits := upkeep.waits other call not_false calls
    have different : other ≠ action.actor := by
      intro self
      rw [self] at waits
      exact still _ _ waits
    exact (others other different).trans waits
  · intro other
    by_cases self : other = action.actor
    · rw [self]
      exact listed
    · dsimp only
      rw [others other self]
      exact upkeep.listed other
  · intro other node member
    dsimp only
    rw [locks]
    exact upkeep.owned other node member

end Whole

theorem lockedNode_eq_some (found : lockedNode store btx node = some content) :
    store.place node = .node content ∧ (store.env.lock node).writer = some btx := by
  unfold lockedNode at found
  split at found
  next present =>
    split at found
    next writer =>
      injection found with same
      exact ⟨same ▸ present, writer⟩
    next => cases found
  next => cases found

theorem Engaged.create (upkeep : Upkeep store) (absent : store.place node = .absent)
    (content : BtreeNode) :
    Upkeep { store.setNode node content with
      refCount := update store.refCount node 1 } := by
  refine ⟨upkeep.consistent, upkeep.waits, ?_, upkeep.listed, ?_, upkeep.nodup, ?_⟩
  · intro btx call calls
    dsimp only [NodeStore.setNode]
    rw [update_apply]
    split
    next => nofun
    next => exact upkeep.placed btx call calls
  · intro btx held member
    obtain ⟨⟨before, there⟩, writer⟩ := upkeep.owned btx held member
    have different : held ≠ node := by
      intro self
      rw [self, absent] at there
      cases there
    dsimp only [NodeStore.setNode]
    rw [update_of_ne different]
    exact ⟨⟨before, there⟩, writer⟩
  · intro held later now
    by_cases self : held = node
    · subst self
      refine ⟨[], nodup_nil, ?_, update_self _ _ _⟩
      intro btx
      constructor
      · nofun
      · rintro ⟨call, calls, same⟩
        exact absurd (same ▸ absent) (upkeep.placed btx call calls)
    · have before : store.place held = .node later := by
        dsimp only [NodeStore.setNode] at now
        rwa [update_of_ne self] at now
      obtain ⟨waiting, nodup, those, count⟩ := upkeep.counted held later before
      exact ⟨waiting, nodup, those, (update_of_ne self _ _).trans count⟩

/-- A header is fetched to be written. -/
theorem Engaged.fetch (engaged : Engaged store busy) (present : store.place node = .node content)
    {address : Nat} {header : HeaderPointer}
    (fetched : store.effectiveHeaderWrite btx node content address = some (next, header)) :
    Engaged next busy ∧ next.env = store.env ∧ ∃ content, next.place node = .node content := by
  have there : ∃ content, store.place node = .node content := ⟨content, present⟩
  unfold effectiveHeaderWrite at fetched
  split at fetched
  next =>
    injection fetched with pair
    injection pair with same _
    exact same ▸ ⟨engaged, rfl, there⟩
  next =>
    split at fetched
    next =>
      injection fetched with pair
      injection pair with same _
      exact same ▸ ⟨engaged, rfl, there⟩
    next =>
      obtain ⟨_, fetched⟩ := ite_none_right_eq_some.mp fetched
      cases fetched
      have changed := engaged.setNode present { content with newHeader := some ⟨address, btx⟩ }
      refine ⟨changed.congr rfl rfl rfl rfl rfl, rfl, ?_⟩
      exact ⟨_, update_self _ _ _⟩

theorem Ready.listed (ready : Ready store btx) (modifications : List NodeId) :
    Listed (store.env.phase btx) modifications := by
  rw [ready.2]
  trivial

theorem Ready.awake (ready : Ready store btx) (lock : LockId) (write : Bool) :
    store.env.phase btx ≠ .waiting lock write := by
  rw [ready.2]
  nofun

/-- A transaction starts to commit or to roll back. -/
theorem Engaged.startEnd (upkeep : Upkeep store) (ready : Ready store btx) {committing : Bool}
    {action : Action} {env : Environment} {outcome : Outcome}
    (ends : action = .commit btx (store.modifications btx) ∨
      action = .rollback btx (store.modifications btx))
    (ended : lockStep store.env action = some (env, outcome)) :
    Upkeep { store with
      env := env, committing := update store.committing btx committing } := by
  have moved : env = store.env.setPhase btx
        (.ending (.modifications (store.modifications btx))) ∧ action.actor = btx := by
    rcases ends with same | same
    all_goals
      subst same
      simp only [lockStep, if_pos ready.2] at ended
      injection ended with pair
      injection pair with same _
      exact ⟨same.symm, rfl⟩
  obtain ⟨moved, actor⟩ := moved
  have kept := upkeep.lockless ended (by rw [moved, setPhase_lock]) (actor ▸ ready.awake) (by
      rw [actor, moved, setPhase_phase, if_pos rfl]
      rfl)
  exact kept.congr rfl rfl rfl rfl rfl

/-- What a step does, and when. -/
inductive Does (store : NodeStore) : Event → NodeStore → Answer → Prop where
  | begin {btx : TxnId} {endTime : Int} {env : Environment} {outcome : Outcome} :
      store.aborted = none → lockStep store.env (.begin btx endTime) = some (env, outcome) →
      Does store (.begin btx endTime) { store with env := env } .other
  | passed {btx : TxnId} {lock : LockId} {write : Bool} {now : Int} : Ready store btx →
      Does store (.visit btx lock write now) store .other
  | visit {btx : TxnId} {lock : LockId} {write : Bool} {now : Int} {next : NodeStore}
      {answer : Answer} : Ready store btx → store.place lock ≠ .absent → store.place lock ≠ .freed →
      store.startCall btx ⟨lock, .visit write⟩ now = (next, answer) →
      Does store (.visit btx lock write now) next answer
  | set {btx : TxnId} {node : NodeId} {link : Link} {target : Option NodeId} {address : Nat}
      {now : Int} {content : BtreeNode} {middle next : NodeStore} {header : HeaderPointer}
      {answer : Answer} : Ready store btx → store.place node = .node content →
      store.effectiveHeaderWrite btx node content address = some (middle, header) →
      middle.startCall btx ⟨node, .set link target header content.newHeader⟩ now =
        (next, answer) →
      Does store (.set btx node link target address now) next answer
  | wake {btx : TxnId} {now : Int} {call : NodeCall} {next : NodeStore} {answer : Answer} :
      store.aborted = none → store.call btx = some call →
      store.advance btx call (.wake btx now) = (next, answer) →
      Does store (.wake btx now) next answer
  | create {btx : TxnId} {node : NodeId} {parent : Option NodeId} : Ready store btx →
      store.place node = .absent → Does store (.create btx node parent)
        { store.setNode node ⟨true, false, ⟨parent, none, none, none⟩, none, false, false⟩ with
          refCount := update store.refCount node 1 } .other
  | mark {btx : TxnId} {node : NodeId} {content : BtreeNode} : Ready store btx →
      store.place node = .node content → (store.env.lock node).writer = some btx →
      Does store (.mark btx node) (store.markModification btx node) .other
  | writeContent {btx : TxnId} {node : NodeId} {page : Bool} {content : BtreeNode} :
      Ready store btx → store.place node = .node content →
      Does store (.writeContent btx node page) (store.writeContent node content page) .other
  | markDeleted {btx : TxnId} {node : NodeId} {content : BtreeNode} : Ready store btx →
      store.place node = .node content → (store.env.lock node).writer = some btx →
      Does store (.markDeleted btx node) ((store.setNode node { content with
        isDeleted := true, newKey := false, newPage := false }).markModification btx node) .other
  | scrap {btx : TxnId} {node : NodeId} {content : BtreeNode} {env : Environment} :
      Ready store btx → store.place node = .node content →
      (store.env.lock node).writer = some btx → content.isNew = true →
      txUnlock store.env node btx = some env →
      Does store (.scrap btx node) ((store.setModifications btx
        ((store.modifications btx).erase node)).deleteNode btx node content env) .other
  | stuck {btx : TxnId} {node : NodeId} : Ready store btx →
      (store.env.lock node).writer = some btx → txUnlock store.env node btx = none →
      Does store (.scrap btx node) (store.abort .notLocked) .other
  | commit {btx : TxnId} {env : Environment} {outcome : Outcome} : Ready store btx →
      lockStep store.env (.commit btx (store.modifications btx)) = some (env, outcome) →
      Does store (.commit btx)
        { store with env := env, committing := update store.committing btx true } .other
  | rollback {btx : TxnId} {env : Environment} {outcome : Outcome} : Ready store btx →
      lockStep store.env (.rollback btx (store.modifications btx)) = some (env, outcome) →
      Does store (.rollback btx)
        { store with env := env, committing := update store.committing btx false } .other
  | release {btx : TxnId} {next : NodeStore} {answer : Answer} : store.aborted = none →
      store.releaseNext btx = some (next, answer) → Does store (.release btx) next answer

variable {event : Event}

theorem does_of_nodeStep (taken : nodeStep store event = some (next, answer)) :
    Does store event next answer := by
  cases event with
  | begin btx endTime =>
    simp only [nodeStep, ite_none_right_eq_some, map_eq_some_iff] at taken
    obtain ⟨unaborted, ⟨env, outcome⟩, begun, same⟩ := taken
    cases same
    exact .begin unaborted begun
  | visit btx lock write now =>
    simp only [nodeStep, ite_none_right_eq_some] at taken
    obtain ⟨ready, visited⟩ := taken
    split at visited
    next => cases visited
    next =>
      cases visited
      exact .passed ready
    next there unfreed =>
      injection visited with same
      exact .visit ready there unfreed same
  | set btx node link target address now =>
    simp only [nodeStep, ite_none_right_eq_some] at taken
    obtain ⟨ready, asked⟩ := taken
    split at asked
    next content present =>
      obtain ⟨⟨middle, header⟩, fetched, same⟩ := map_eq_some_iff.mp asked
      exact .set ready present fetched same
    next => cases asked
  | wake btx now =>
    simp only [nodeStep] at taken
    split at taken
    next call unaborted calls =>
      injection taken with same
      exact .wake unaborted calls same
    next => cases taken
  | create btx node parent =>
    simp only [nodeStep, ite_none_right_eq_some] at taken
    obtain ⟨⟨ready, absent⟩, same⟩ := taken
    cases same
    exact .create ready absent
  | mark btx node =>
    simp only [nodeStep, ite_none_right_eq_some, map_eq_some_iff] at taken
    obtain ⟨ready, content, found, same⟩ := taken
    cases same
    exact .mark ready (lockedNode_eq_some found).1 (lockedNode_eq_some found).2
  | writeContent btx node page =>
    simp only [nodeStep, ite_none_right_eq_some] at taken
    obtain ⟨ready, wrote⟩ := taken
    split at wrote
    next content present =>
      cases wrote
      exact .writeContent ready present
    next => cases wrote
  | markDeleted btx node =>
    simp only [nodeStep, ite_none_right_eq_some, bind_eq_some_iff, ite_none_left_eq_some] at taken
    obtain ⟨ready, content, found, _, same⟩ := taken
    cases same
    exact .markDeleted ready (lockedNode_eq_some found).1 (lockedNode_eq_some found).2
  | scrap btx node =>
    simp only [nodeStep, ite_none_right_eq_some, bind_eq_some_iff] at taken
    obtain ⟨⟨ready, _⟩, content, found, new, scrapped⟩ := taken
    obtain ⟨present, writer⟩ := lockedNode_eq_some found
    split at scrapped
    next env unlocked =>
      cases scrapped
      exact .scrap ready present writer new unlocked
    next locked =>
      cases scrapped
      exact .stuck ready writer locked
  | commit btx =>
    simp only [nodeStep, startEnd, ite_none_right_eq_some, map_eq_some_iff] at taken
    obtain ⟨ready, ⟨env, outcome⟩, ended, same⟩ := taken
    cases same
    exact .commit ready ended
  | rollback btx =>
    simp only [nodeStep, startEnd, ite_none_right_eq_some, map_eq_some_iff] at taken
    obtain ⟨ready, ⟨env, outcome⟩, ended, same⟩ := taken
    cases same
    exact .rollback ready ended
  | release btx =>
    simp only [nodeStep, ite_none_right_eq_some] at taken
    exact .release taken.1 taken.2

theorem nodeStep_upkeep (upkeep : Upkeep store)
    (taken : nodeStep store event = some (next, answer)) (unaborted : next.aborted = none) :
    Upkeep next := by
  cases does_of_nodeStep taken with
  | @begin btx endTime env outcome _ begun =>
    have created := begun
    obtain ⟨unborn, created⟩ := ite_none_right_eq_some.mp created
    injection created with pair
    injection pair with same _
    apply upkeep.lockless begun
    · subst same
      rfl
    · intro lock write
      change store.env.phase btx ≠ _
      rw [unborn]
      simp
    · subst same
      simp [createTransaction, Action.actor, Listed]
  | passed => exact upkeep
  | @visit btx lock write now _ _ ready there _ same =>
    have started : Upkeep (store.startCall btx ⟨lock, .visit write⟩ now).1 :=
      upkeep.startCall ready.2 there now
    rwa [same] at started
  | @set btx node link target _ now content middle _ header _ ready present fetched same =>
    obtain ⟨kept, unmoved, later, there⟩ := upkeep.fetch present fetched
    have started : Upkeep (middle.startCall btx
        ⟨node, .set link target header content.newHeader⟩ now).1 :=
      kept.startCall (by rw [unmoved]; exact ready.2) (by rw [there]; simp) now
    rwa [same] at started
  | @wake btx now call _ _ _ calls same =>
    have waits := upkeep.waits btx call not_false calls
    have engaged := upkeep.engaged btx
    have advanced := engaged.advance calls (.wake btx now) (by simp [lockStep, waits])
      (fun env outcome taken => requested_of_wake upkeep.consistent waits taken)
    rwa [same] at advanced
  | create _ absent => exact upkeep.create absent _
  | mark ready present writer => exact upkeep.markModification present writer (ready.listed _)
  | writeContent _ present =>
    unfold NodeStore.writeContent
    split
    next => exact upkeep
    next =>
      split
      next => exact upkeep.setNode present _
      next => exact upkeep.setNode present _
  | @markDeleted _ _ content ready present writer =>
    have changed := upkeep.setNode present
      { content with isDeleted := true, newKey := false, newPage := false }
    exact changed.markModification (update_self _ _ _) writer (ready.listed _)
  | scrap ready _ writer _ unlocked =>
    have gives := upkeep.givesUp_running ready.2 writer unlocked
    apply gives.deleteNode upkeep
    intro dirty
    rw [NodeStore.deleteNode, if_pos dirty] at unaborted
    cases unaborted
  | stuck => cases unaborted
  | commit ready ended => exact upkeep.startEnd ready (.inl rfl) ended
  | rollback ready ended => exact upkeep.startEnd ready (.inr rfl) ended
  | release _ released => exact upkeep.releaseNext released unaborted

/-- A failed assertion ends the run. -/
theorem nodeStep_unaborted (taken : nodeStep store event = some (next, answer)) :
    store.aborted = none := by
  cases does_of_nodeStep taken with
  | begin unaborted | wake unaborted | release unaborted => exact unaborted
  | passed ready | visit ready | set ready | create ready | mark ready | writeContent ready
  | markDeleted ready | scrap ready | stuck ready | commit ready | rollback ready => exact ready.1

theorem Idle.upkeep (idle : Idle store) : Upkeep store where
  consistent := idle.env ▸ consistent_empty
  waits := by
    intro btx call _ calls
    rw [idle.call btx] at calls
    cases calls
  placed := by
    intro btx call calls
    rw [idle.call btx] at calls
    cases calls
  listed := by
    intro btx
    rw [idle.env, idle.modifications btx]
    rfl
  owned := by
    intro btx node member
    rw [idle.modifications btx] at member
    cases member
  nodup := by
    intro btx
    rw [idle.modifications btx]
    exact nodup_nil
  counted := by
    intro lock content present
    refine ⟨[], nodup_nil, ?_, idle.counted lock content present⟩
    intro btx
    rw [idle.call btx]
    simp

/-- A committed node, and nothing else. -/
def oneNode : NodeStore where
  env := Environment.empty
  place := fun node =>
    if node = 5 then .node ⟨false, false, ⟨none, none, none, none⟩, none, false, false⟩ else .absent
  refCount := fun _ => 1
  heap := fun _ => none
  modifications := fun _ => []
  call := fun _ => none
  committing := fun _ => false
  written := fun _ _ _ => none
  aborted := none

theorem oneNode_idle : Idle oneNode where
  env := rfl
  settled := by
    intro node content present
    simp only [oneNode] at present
    split at present
    next =>
      cases present
      exact ⟨rfl, rfl, rfl, rfl, rfl⟩
    next => cases present
  counted := fun _ _ _ => rfl
  modifications := fun _ => rfl
  call := fun _ => rfl
  written := fun _ _ _ => rfl
  aborted := rfl

end Gzochi.StorageMem.Nodes
