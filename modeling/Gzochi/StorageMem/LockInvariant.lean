import Gzochi.StorageMem.Locks

/-!
# Who holds what

Ownership of a lock is stored twice: in the lock (`writer`, `readers`) and in the
transaction (`write_locks`, `read_locks`).  The invariant below says that the two
views agree and that the intents a transaction declares agree with where its
thread stands.  Every critical section changes ownership through one of four
updates, so each of these is treated once.
-/

namespace Gzochi.StorageMem

/-- The two views of lock ownership agree, and a writer is alone. -/
structure Holdings (env : Environment) : Prop where
  exclusive : ∀ lock, (env.lock lock).writer ≠ none → (env.lock lock).readers = []
  readers_iff : ∀ btx lock,
    btx ∈ (env.lock lock).readers ↔ lock ∈ (env.txn btx).readLocks
  writer_iff : ∀ btx lock,
    (env.lock lock).writer = some btx ↔ lock ∈ (env.txn btx).writeLocks
  readers_nodup : ∀ lock, (env.lock lock).readers.Nodup
  readLocks_nodup : ∀ btx, (env.txn btx).readLocks.Nodup
  writeLocks_nodup : ∀ btx, (env.txn btx).writeLocks.Nodup

/-- The intents and lock lists a transaction may have where its thread stands. -/
def PhaseOk (txn : BtreeTransaction) : Phase → Prop
  | .unborn | .ended =>
      txn.waitingToRead = none ∧ txn.waitingToWrite = none ∧
        txn.writeLocks = [] ∧ txn.readLocks = []
  | .running | .ending (.modifications _) =>
      txn.waitingToRead = none ∧ txn.waitingToWrite = none
  | .waiting lock true =>
      txn.waitingToRead = none ∧ txn.waitingToWrite = some lock ∧
        lock ∉ txn.readLocks ∧ lock ∉ txn.writeLocks
  | .waiting lock false =>
      txn.waitingToRead = some lock ∧ txn.waitingToWrite = none ∧
        lock ∉ txn.readLocks ∧ lock ∉ txn.writeLocks
  | .ending (.writes rest) =>
      txn.waitingToRead = none ∧ txn.waitingToWrite = none ∧ txn.writeLocks = rest
  | .ending (.reads rest) =>
      txn.waitingToRead = none ∧ txn.waitingToWrite = none ∧
        txn.writeLocks = [] ∧ txn.readLocks = rest

/-- The invariant of the lock manager. -/
structure Consistent (env : Environment) : Prop where
  holdings : Holdings env
  phases : ∀ btx, PhaseOk (env.txn btx) (env.phase btx)
  listed : ∀ btx, btx ∈ env.transactions ↔
    env.phase btx ≠ .unborn ∧ env.phase btx ≠ .ended
  transactions_nodup : env.transactions.Nodup

namespace Environment

variable (env : Environment) (btx other : TxnId) (lock held : LockId)

variable (change : BtreeTransaction → BtreeTransaction)
include change

@[simp] theorem modifyTxn_txn : (env.modifyTxn btx change).txn other =
      if other = btx then change (env.txn btx) else env.txn other := rfl

@[simp] theorem modifyTxn_lock : (env.modifyTxn btx change).lock = env.lock := rfl

@[simp] theorem modifyTxn_phase : (env.modifyTxn btx change).phase = env.phase := rfl

@[simp] theorem modifyTxn_transactions :
    (env.modifyTxn btx change).transactions = env.transactions := rfl

omit change

@[simp] theorem modifyLock_lock (change : BtreeLock → BtreeLock) :
    (env.modifyLock lock change).lock held =
      if held = lock then change (env.lock lock) else env.lock held := rfl

@[simp] theorem modifyLock_txn (change : BtreeLock → BtreeLock) :
    (env.modifyLock lock change).txn = env.txn := rfl

@[simp] theorem modifyLock_phase (change : BtreeLock → BtreeLock) :
    (env.modifyLock lock change).phase = env.phase := rfl

@[simp] theorem modifyLock_transactions (change : BtreeLock → BtreeLock) :
    (env.modifyLock lock change).transactions = env.transactions := rfl

@[simp] theorem setPhase_txn (phase : Phase) : (env.setPhase btx phase).txn = env.txn := rfl

@[simp] theorem setPhase_lock (phase : Phase) : (env.setPhase btx phase).lock = env.lock := rfl

@[simp] theorem setPhase_phase (phase : Phase) : (env.setPhase btx phase).phase other =
      if other = btx then phase else env.phase other := rfl

@[simp] theorem setPhase_transactions (phase : Phase) :
    (env.setPhase btx phase).transactions = env.transactions := rfl

end Environment

open Environment

namespace Holdings

variable {env : Environment} {btx : TxnId} {lock : LockId}

variable (holdings : Holdings env)
include holdings

/-- Intents and phases are no part of ownership. -/
theorem congr {next : Environment} (locks : next.lock = env.lock)
    (reads : ∀ btx, (next.txn btx).readLocks = (env.txn btx).readLocks)
    (writes : ∀ btx, (next.txn btx).writeLocks = (env.txn btx).writeLocks) :
    Holdings next where
  exclusive := by simpa only [locks] using holdings.exclusive
  readers_iff := by simpa only [locks, reads] using holdings.readers_iff
  writer_iff := by simpa only [locks, writes] using holdings.writer_iff
  readers_nodup := by simpa only [locks] using holdings.readers_nodup
  readLocks_nodup := by simpa only [reads] using holdings.readLocks_nodup
  writeLocks_nodup := by simpa only [writes] using holdings.writeLocks_nodup

theorem modifyTxn {change : BtreeTransaction → BtreeTransaction}
    (reads : (change (env.txn btx)).readLocks = (env.txn btx).readLocks)
    (writes : (change (env.txn btx)).writeLocks = (env.txn btx).writeLocks) :
    Holdings (env.modifyTxn btx change) := by
  refine holdings.congr rfl ?_ ?_
  · intro other
    by_cases self : other = btx
    · simp [self, reads]
    · simp [self]
  · intro other
    by_cases self : other = btx
    · simp [self, writes]
    · simp [self]

theorem grantRead (free : (env.lock lock).writer = none)
    (fresh : lock ∉ (env.txn btx).readLocks) : Holdings (env.grantRead btx lock) := by
  obtain ⟨exclusive, readers, writer, readersNodup, readsNodup, writesNodup⟩ := holdings
  have notReader : btx ∉ (env.lock lock).readers := mt (readers btx lock).mp fresh
  constructor <;> simp only [Environment.grantRead, modifyTxn_lock, modifyTxn_txn,
    modifyLock_lock, modifyLock_txn]
  · grind
  · grind
  · grind
  · intro held
    split
    · exact List.nodup_cons.mpr ⟨notReader, readersNodup lock⟩
    · exact readersNodup held
  · intro other
    split
    · exact List.nodup_cons.mpr ⟨fresh, readsNodup btx⟩
    · exact readsNodup other
  · grind

theorem grantWrite (free : (env.lock lock).writer = none)
    (unread : (env.lock lock).readers = []) : Holdings (env.grantWrite btx lock) := by
  obtain ⟨exclusive, readers, writer, readersNodup, readsNodup, writesNodup⟩ := holdings
  have notWriter : lock ∉ (env.txn btx).writeLocks := by
    intro member
    rw [← writer, free] at member
    cases member
  constructor <;> simp only [Environment.grantWrite, modifyTxn_lock, modifyTxn_txn,
    modifyLock_lock, modifyLock_txn]
  · grind
  · grind
  · grind
  · grind
  · grind
  · intro other
    split
    · exact List.nodup_cons.mpr ⟨notWriter, writesNodup btx⟩
    · exact writesNodup other

theorem dropRead : Holdings (env.dropRead btx lock) := by
  obtain ⟨exclusive, readers, writer, readersNodup, readsNodup, writesNodup⟩ := holdings
  constructor <;> simp only [Environment.dropRead, modifyTxn_lock, modifyTxn_txn,
    modifyLock_lock, modifyLock_txn]
  · grind
  · intro other held
    have lockErase := (readersNodup lock).mem_erase_iff (a := other) (b := btx)
    have txnErase := (readsNodup btx).mem_erase_iff (a := held) (b := lock)
    grind
  · grind
  · intro held
    split
    · exact (readersNodup lock).erase btx
    · exact readersNodup held
  · intro other
    split
    · exact (readsNodup btx).erase lock
    · exact readsNodup other
  · grind

theorem dropWrite (owner : (env.lock lock).writer = some btx) :
    Holdings (env.dropWrite btx lock) := by
  obtain ⟨exclusive, readers, writer, readersNodup, readsNodup, writesNodup⟩ := holdings
  constructor <;> simp only [Environment.dropWrite, modifyTxn_lock, modifyTxn_txn,
    modifyLock_lock, modifyLock_txn]
  · grind
  · grind
  · intro other held
    have txnErase := (writesNodup btx).mem_erase_iff (a := held) (b := lock)
    grind
  · grind
  · grind
  · intro other
    split
    · exact (writesNodup btx).erase lock
    · exact writesNodup other

end Holdings

/-- The state in which a round of the loop of `tx_lock` starts: the transaction has
declared its intent and does not hold the lock in any way. -/
structure Requesting (env : Environment) (btx : TxnId) (lock : LockId) (write : Bool) :
    Prop where
  holdings : Holdings env
  others : ∀ other, other ≠ btx → PhaseOk (env.txn other) (env.phase other)
  intent : PhaseOk (env.txn btx) (.waiting lock write)
  active : env.phase btx ≠ .unborn ∧ env.phase btx ≠ .ended
  listed : ∀ btx, btx ∈ env.transactions ↔
    env.phase btx ≠ .unborn ∧ env.phase btx ≠ .ended
  transactions_nodup : env.transactions.Nodup

variable {env next : Environment} {btx : TxnId} {lock : LockId} {write : Bool}
  {outcome : Outcome}

theorem Requesting.lacks (requesting : Requesting env btx lock write) :
    lock ∉ (env.txn btx).readLocks ∧ lock ∉ (env.txn btx).writeLocks := by
  have intent := requesting.intent
  cases write <;> exact intent.2.2

theorem Consistent.requesting (consistent : Consistent env)
    (waits : env.phase btx = .waiting lock write) : Requesting env btx lock write where
  holdings := consistent.holdings
  others := fun other _ => consistent.phases other
  intent := waits ▸ consistent.phases btx
  active := by simp [waits]
  listed := consistent.listed
  transactions_nodup := consistent.transactions_nodup

/-- A request that has to try for the lock starts in such a state; one that has
not changes nothing. -/
theorem txLockDeclare_spec (consistent : Consistent env)
    (running : env.phase btx = .running) {needsLock : Bool}
    (declared : txLockDeclare env btx lock write = some (next, needsLock)) :
    (needsLock = false ∧ next = env) ∨ (needsLock = true ∧ Requesting next btx lock write) := by
  have phase := consistent.phases btx
  rw [running] at phase
  have active : env.phase btx ≠ .unborn ∧ env.phase btx ≠ .ended := by simp [running]
  have writer := consistent.holdings.writer_iff btx lock
  cases declares_of_txLockDeclare declared with
  | sufficient _ => exact .inl ⟨rfl, rfl⟩
  | read unowned unread =>
    refine .inr ⟨rfl, consistent.holdings.modifyTxn rfl rfl, ?_, ?_, active, consistent.listed,
      consistent.transactions_nodup⟩
    · intro other different
      simpa [different] using consistent.phases other
    · simp [PhaseOk, phase.2, unread, mt writer.mpr unowned]
  | write unowned unread =>
    refine .inr ⟨rfl, consistent.holdings.modifyTxn rfl rfl, ?_, ?_, active, consistent.listed,
      consistent.transactions_nodup⟩
    · intro other different
      simpa [different] using consistent.phases other
    · simp [PhaseOk, phase.1, unread, mt writer.mpr unowned]
  | upgrade unowned reads =>
    refine .inr ⟨rfl, (consistent.holdings.modifyTxn rfl rfl).dropRead, ?_, ?_, active,
      consistent.listed, consistent.transactions_nodup⟩
    · intro other different
      simpa [Environment.dropRead, different] using consistent.phases other
    · simp [Environment.dropRead, PhaseOk, phase.1,
        (consistent.holdings.readLocks_nodup btx).mem_erase_iff, mt writer.mpr unowned]

/-- Clearing the intent and returning. -/
theorem Requesting.return (requesting : Requesting env btx lock write) (holdings : Holdings next)
    (same : ∀ other, other ≠ btx → next.txn other = env.txn other)
    (own : (next.txn btx).waitingToRead = (env.txn btx).waitingToRead ∧
      (next.txn btx).waitingToWrite = (env.txn btx).waitingToWrite)
    (phases : next.phase = env.phase) (listed : next.transactions = env.transactions) :
    Consistent ((txLockClear next btx write).setPhase btx .running) where
  holdings := by
    have cleared : Holdings (txLockClear next btx write) := by
      apply holdings.modifyTxn <;> cases write <;> rfl
    exact cleared.congr rfl (fun _ => rfl) (fun _ => rfl)
  phases := by
    intro other
    by_cases self : other = btx
    · subst self
      have intent := requesting.intent
      cases write <;> simp_all [PhaseOk, txLockClear]
    · simpa [txLockClear, self, same other self, phases] using requesting.others other self
  listed := by
    intro other
    by_cases self : other = btx
    · subst self
      simpa [txLockClear, listed] using (requesting.listed other).mpr requesting.active
    · simpa [txLockClear, self, listed, phases] using requesting.listed other
  transactions_nodup := by
    simpa [txLockClear, listed] using requesting.transactions_nodup

/-- Every way a round of the loop of `tx_lock` can end keeps the invariant. -/
theorem txLockAttempt_consistent (requesting : Requesting env btx lock write) (now : Int) :
    Consistent (txLockAttempt env btx lock write now).1 := by
  unfold txLockAttempt
  split
  next =>
    split
    next free =>
      have unwritten : (env.lock lock).writer = none := by
        simp only [available, Bool.and_eq_true, decide_eq_true_eq] at free
        exact free.1
      cases write with
      | true =>
        have unread : (env.lock lock).readers = [] := by
          simpa [available, unwritten] using free
        apply requesting.return
        · exact requesting.holdings.grantWrite unwritten unread
        · intro other different
          simp [Environment.grantWrite, different]
        · simp [Environment.grantWrite]
        · rfl
        · rfl
      | false =>
        apply requesting.return
        · exact requesting.holdings.grantRead unwritten requesting.lacks.1
        · intro other different
          simp [Environment.grantRead, different]
        · simp [Environment.grantRead]
        · rfl
        · rfl
    next =>
      split
      next =>
        exact requesting.return requesting.holdings (fun _ _ => rfl) ⟨rfl, rfl⟩ rfl rfl
      next =>
        refine ⟨requesting.holdings.congr rfl (fun _ => rfl) (fun _ => rfl), ?_, ?_,
          requesting.transactions_nodup⟩
        · intro other
          by_cases self : other = btx
          · subst self
            simpa using requesting.intent
          · simpa [self] using requesting.others other self
        · intro other
          by_cases self : other = btx
          · subst self
            simpa using (requesting.listed other).mpr requesting.active
          · simpa [self] using requesting.listed other
  next =>
    exact requesting.return requesting.holdings (fun _ _ => rfl) ⟨rfl, rfl⟩ rfl rfl

/-- Unlocking changes nothing but the lock lists of the transaction: it takes the
lock off the list it is on. -/
theorem txUnlock_spec (holdings : Holdings env) (unlocked : txUnlock env lock btx = some next) :
    Holdings next ∧ next.phase = env.phase ∧ next.transactions = env.transactions ∧
      (∀ other, other ≠ btx → next.txn other = env.txn other) ∧
      ((lock ∈ (env.txn btx).writeLocks ∧ next.txn btx =
          { env.txn btx with writeLocks := (env.txn btx).writeLocks.erase lock }) ∨
        (lock ∉ (env.txn btx).writeLocks ∧ next.txn btx =
          { env.txn btx with readLocks := (env.txn btx).readLocks.erase lock })) := by
  unfold txUnlock at unlocked
  split at unlocked
  next owner =>
    obtain ⟨member, unlocked⟩ := Option.ite_none_right_eq_some.mp unlocked
    cases unlocked
    refine ⟨holdings.dropWrite owner, rfl, rfl, ?_, .inl ⟨member, ?_⟩⟩
    · intro other different
      simp [dropWrite, different]
    · simp [dropWrite]
  next notOwner =>
    obtain ⟨reads, unlocked⟩ := Option.ite_none_right_eq_some.mp unlocked
    cases unlocked
    refine ⟨holdings.dropRead, rfl, rfl, ?_,
      .inr ⟨mt (holdings.writer_iff btx lock).mpr notOwner, ?_⟩⟩
    · intro other different
      simp [dropRead, different]
    · simp [dropRead]

/-- A transaction that moves from one place to another place where it is still
active. -/
theorem Consistent.move (consistent : Consistent env) {phase : Phase}
    (active : env.phase btx ≠ .unborn ∧ env.phase btx ≠ .ended)
    (holdings : Holdings next) (phases : next.phase = env.phase)
    (listed : next.transactions = env.transactions)
    (same : ∀ other, other ≠ btx → next.txn other = env.txn other)
    (stays : phase ≠ .unborn ∧ phase ≠ .ended) (own : PhaseOk (next.txn btx) phase) :
    Consistent (next.setPhase btx phase) where
  holdings := holdings.congr rfl (fun _ => rfl) (fun _ => rfl)
  phases := by
    intro other
    by_cases self : other = btx
    · subst self
      simpa using own
    · simpa [self, same other self, phases] using consistent.phases other
  listed := by
    intro other
    by_cases self : other = btx
    · subst self
      simpa [listed, stays] using (consistent.listed other).mpr active
    · simpa [self, listed, phases] using consistent.listed other
  transactions_nodup := by
    simpa [listed] using consistent.transactions_nodup

/-- The release loops keep the invariant.  When the loop over the write locks
starts, the list it walks is the whole list of write locks, and it stays the rest
of it. -/
theorem releaseNext_consistent (consistent : Consistent env) {stage : EndStage}
    (ending : env.phase btx = .ending stage)
    (released : releaseNext env btx stage = some next) : Consistent next := by
  have active : env.phase btx ≠ .unborn ∧ env.phase btx ≠ .ended := by simp [ending]
  have phase := consistent.phases btx
  rw [ending] at phase
  have unmoved : ∀ {stage : EndStage}, PhaseOk (env.txn btx) (.ending stage) →
      Consistent (env.setPhase btx (.ending stage)) := by
    intro stage own
    exact consistent.move active consistent.holdings rfl rfl (fun _ _ => rfl) (by simp) own
  match stage with
  | .modifications [] =>
    cases released
    exact unmoved ⟨phase.1, phase.2, rfl⟩
  | .writes [] =>
    cases released
    exact unmoved ⟨phase.1, phase.2.1, phase.2.2, rfl⟩
  | .modifications (lock :: rest) =>
    obtain ⟨owner, released⟩ := Option.ite_none_right_eq_some.mp released
    obtain ⟨unlocked, taken, rfl⟩ := Option.map_eq_some_iff.mp released
    obtain ⟨holdings, phases, listed, others, own⟩ :=
      txUnlock_spec consistent.holdings taken
    refine consistent.move active holdings phases listed others (by simp) ?_
    rcases own with ⟨_, equal⟩ | ⟨_, equal⟩ <;> simpa [equal, PhaseOk] using phase
  | .writes (lock :: rest) =>
    obtain ⟨unlocked, taken, rfl⟩ := Option.map_eq_some_iff.mp released
    obtain ⟨holdings, phases, listed, others, own⟩ :=
      txUnlock_spec consistent.holdings taken
    refine consistent.move active holdings phases listed others (by simp) ?_
    obtain ⟨noRead, noWrite, writes⟩ := phase
    rcases own with ⟨_, equal⟩ | ⟨absent, _⟩
    · simp [equal, PhaseOk, noRead, noWrite, writes]
    · exact absurd (writes ▸ List.mem_cons_self) absent
  | .reads (lock :: rest) =>
    obtain ⟨unlocked, taken, rfl⟩ := Option.map_eq_some_iff.mp released
    obtain ⟨holdings, phases, listed, others, own⟩ :=
      txUnlock_spec consistent.holdings taken
    refine consistent.move active holdings phases listed others (by simp) ?_
    obtain ⟨noRead, noWrite, writes, reads⟩ := phase
    rcases own with ⟨member, _⟩ | ⟨_, equal⟩
    · rw [writes] at member
      cases member
    · simp [equal, PhaseOk, noRead, noWrite, writes, reads]
  | .reads [] =>
    cases released
    refine ⟨consistent.holdings.congr rfl (fun _ => rfl) (fun _ => rfl), ?_, ?_, ?_⟩
    · intro other
      by_cases self : other = btx
      · subst self
        simpa [cleanupTransaction, PhaseOk] using phase
      · simpa [cleanupTransaction, self] using consistent.phases other
    · intro other
      have erased := consistent.transactions_nodup.mem_erase_iff (a := other) (b := btx)
      by_cases self : other = btx
      · subst self
        simp [cleanupTransaction, erased]
      · simpa [cleanupTransaction, erased, self] using consistent.listed other
    · exact consistent.transactions_nodup.erase btx

theorem consistent_empty : Consistent empty where
  holdings := by constructor <;> simp [empty]
  phases := by simp [empty, PhaseOk]
  listed := by simp [empty]
  transactions_nodup := by simp [empty]

theorem createTransaction_consistent (consistent : Consistent env)
    (unborn : env.phase btx = .unborn) (endTime : Int) :
    Consistent (createTransaction env btx endTime) := by
  have phase := consistent.phases btx
  rw [unborn] at phase
  have absent : btx ∉ env.transactions := by simp [consistent.listed btx, unborn]
  refine ⟨?_, ?_, ?_, ?_⟩
  · refine consistent.holdings.congr rfl ?_ ?_
    · intro other
      by_cases self : other = btx
      · simp [createTransaction, self, phase.2.2.2]
      · simp [createTransaction, self]
    · intro other
      by_cases self : other = btx
      · simp [createTransaction, self, phase.2.2.1]
      · simp [createTransaction, self]
  · intro other
    by_cases self : other = btx
    · simp [createTransaction, self, PhaseOk]
    · simpa [createTransaction, self] using consistent.phases other
  · intro other
    by_cases self : other = btx
    · simp [createTransaction, self]
    · simpa [createTransaction, self] using consistent.listed other
  · exact List.nodup_cons.mpr ⟨absent, consistent.transactions_nodup⟩

theorem lockStep_consistent {action : Action} (consistent : Consistent env)
    (taken : lockStep env action = some (next, outcome)) : Consistent next := by
  have moving : ∀ {btx : TxnId} {modifications : List LockId}, env.phase btx = .running →
      Consistent (env.setPhase btx (.ending (.modifications modifications))) := by
    intro btx modifications running
    have phase := consistent.phases btx
    rw [running] at phase
    exact consistent.move (by simp [running]) consistent.holdings rfl rfl
      (fun _ _ => rfl) (by simp) phase
  cases steps_of_lockStep taken with
  | begin unborn => exact createTransaction_consistent consistent unborn _
  | @held btx lock write now declared running equal =>
    rcases txLockDeclare_spec consistent running equal with ⟨_, same⟩ | ⟨flag, _⟩
    · subst same
      have phase := consistent.phases btx
      rw [running] at phase
      have unchanged : txLockClear declared btx write = declared := by
        unfold txLockClear modifyTxn
        congr
        funext other
        split
        next self =>
          subst self
          obtain ⟨noRead, noWrite⟩ := phase
          cases fields : declared.txn other
          cases write <;> simp_all
        next => rfl
      rwa [unchanged]
    · cases flag
  | @asked btx lock write now declared next outcome running equal attempted =>
    rcases txLockDeclare_spec consistent running equal with ⟨flag, _⟩ | ⟨_, requesting⟩
    · cases flag
    · have kept := txLockAttempt_consistent requesting now
      rwa [attempted] at kept
  | @woken btx lock write now next outcome waits attempted =>
    have kept := txLockAttempt_consistent (consistent.requesting waits) now
    rwa [attempted] at kept
  | commit running | rollback running => exact moving running
  | release ending released => exact releaseNext_consistent consistent ending released

theorem LockReachable.consistent (reachable : LockReachable env) : Consistent env := by
  obtain ⟨trace, run⟩ := reachable
  exact run.state_invariant Consistent consistent_empty fun consistent _ taken =>
    lockStep_consistent consistent taken

/-- In every reachable state a lock with a writer has no readers, the lock's own
record of its holders agrees with the lists of the transactions, and a transaction
that has committed or rolled back holds nothing. -/
theorem lock_ownership_agrees (reachable : LockReachable env) :
    (∀ lock, (env.lock lock).writer ≠ none → (env.lock lock).readers = []) ∧
    (∀ btx lock, btx ∈ (env.lock lock).readers ↔ lock ∈ (env.txn btx).readLocks) ∧
    (∀ btx lock, (env.lock lock).writer = some btx ↔ lock ∈ (env.txn btx).writeLocks) ∧
    (∀ btx, env.phase btx = .ended → (env.txn btx).readLocks = [] ∧ (env.txn btx).writeLocks = [] ∧
      ∀ lock, btx ∉ (env.lock lock).readers ∧ (env.lock lock).writer ≠ some btx) := by
  have consistent := reachable.consistent
  refine ⟨consistent.holdings.exclusive, consistent.holdings.readers_iff,
    consistent.holdings.writer_iff, ?_⟩
  intro btx ended
  have phase := consistent.phases btx
  rw [ended] at phase
  obtain ⟨_, _, writes, reads⟩ := phase
  refine ⟨reads, writes, fun lock => ⟨?_, ?_⟩⟩
  · rw [consistent.holdings.readers_iff, reads]
    exact List.not_mem_nil
  · rw [Ne, consistent.holdings.writer_iff, writes]
    exact List.not_mem_nil

/-- A transaction that upgrades a read lock and commits. -/
def upgradeAndCommit : List Action :=
  [.begin 1 10, .lock 1 7 false 0, .lock 1 7 true 1, .commit 1 [7], .release 1, .release 1,
    .release 1, .release 1]

theorem lock_ownership_agrees_after_commit :
    (Lib.stateAfter lockStep .empty upgradeAndCommit).phase 1 = .ended ∧
    ((Lib.stateAfter lockStep .empty upgradeAndCommit).lock 7).writer ≠ some 1 :=
  ⟨rfl, (((lock_ownership_agrees
    (Lib.exists_run_stateAfter lockStep .empty upgradeAndCommit)).2.2.2 1 rfl).2.2 7).2⟩

end Gzochi.StorageMem
