import Gzochi.StorageMem.LockInvariant

/-!
# What a request leaves as it is

A step of one transaction leaves the locks of all others alone, and a request takes away
no lock of its own but the read lock that is to be upgraded.
-/

namespace Gzochi.StorageMem

open Environment

/-- Whose step an action is. -/
def Action.actor : Action → TxnId
  | .begin btx _ | .lock btx _ _ _ | .wake btx _ | .commit btx _ | .rollback btx _
  | .release btx => btx

/-- The transaction holds the lock, for reading or for writing. -/
def Holds (env : Environment) (btx : TxnId) (lock : LockId) : Prop :=
  lock ∈ (env.txn btx).readLocks ∨ lock ∈ (env.txn btx).writeLocks

variable {env next : Environment} {btx other : TxnId} {lock held : LockId} {write : Bool}
  {now : Int} {outcome : Outcome}

/-- Two transactions hold the same lock only if neither of them writes. -/
theorem Holdings.holds_alone (holdings : Holdings env)
    (owner : lock ∈ (env.txn btx).writeLocks) (holds : Holds env other lock) :
    other = btx := by
  have writer := (holdings.writer_iff btx lock).mpr owner
  rcases holds with reads | writes
  · have reader := (holdings.readers_iff other lock).mpr reads
    rw [holdings.exclusive lock (by simp [writer])] at reader
    cases reader
  · have second := (holdings.writer_iff other lock).mpr writes
    rw [writer] at second
    injection second with same
    exact same.symm

theorem txLockAttempt_txn_other (env : Environment) (lock : LockId) (write : Bool)
    (now : Int) (different : other ≠ btx) :
    (txLockAttempt env btx lock write now).1.txn other = env.txn other := by
  unfold txLockAttempt
  split
  · split
    · cases write <;> simp [txLockClear, grantRead, grantWrite, different]
    · split <;> simp [txLockClear, different]
  · simp [txLockClear, different]

/-- A round of the loop takes no lock away. -/
theorem txLockAttempt_locks (env : Environment) (btx : TxnId) (lock : LockId)
    (write : Bool) (now : Int) :
    (env.txn btx).readLocks ⊆ ((txLockAttempt env btx lock write now).1.txn btx).readLocks ∧
    (env.txn btx).writeLocks ⊆ ((txLockAttempt env btx lock write now).1.txn btx).writeLocks := by
  unfold txLockAttempt
  split
  · split
    · cases write <;> simp [txLockClear, grantRead, grantWrite]
    · split <;> cases write <;> simp [txLockClear]
  · cases write <;> simp [txLockClear]

/-- What a grant means: the lock was free, and now it is held. -/
theorem txLockAttempt_granted (granted : (txLockAttempt env btx lock write now).2 = .granted) :
    available env lock write = true ∧ Holds (txLockAttempt env btx lock write now).1 btx lock := by
  unfold txLockAttempt at granted ⊢
  split at granted
  next intime =>
    rw [if_pos intime]
    split at granted
    next free =>
      rw [if_pos free]
      refine ⟨free, ?_⟩
      cases write
      · exact .inl (by simp [txLockClear, grantRead])
      · exact .inr (by simp [txLockClear, grantWrite])
    next =>
      split at granted
      · cases granted
      · cases granted
  next => cases granted

theorem txLockAttempt_ne_held : (txLockAttempt env btx lock write now).2 ≠ .held := by
  unfold txLockAttempt
  split
  · split
    · exact nofun
    · split
      · exact nofun
      · exact nofun
  · exact nofun

variable {needsLock : Bool}

theorem txLockDeclare_txn_other
    (declared : txLockDeclare env btx lock write = some (next, needsLock))
    (different : other ≠ btx) : next.txn other = env.txn other := by
  cases declares_of_txLockDeclare declared with
  | sufficient _ => rfl
  | read _ _ | write _ _ => simp [different]
  | upgrade _ _ => simp [dropRead, different]

/-- Declaring an intent touches the locks held only where a read lock is to be
upgraded. -/
theorem txLockDeclare_locks (declared : txLockDeclare env btx lock write = some (next, needsLock)) :
    (next.lock = env.lock ∧ (next.txn btx).readLocks = (env.txn btx).readLocks ∧
      (next.txn btx).writeLocks = (env.txn btx).writeLocks) ∨
    (write = true ∧ needsLock = true ∧ lock ∈ (env.txn btx).readLocks ∧
      next = (env.modifyTxn btx fun txn =>
        { txn with waitingToWrite := some lock }).dropRead btx lock) := by
  cases declares_of_txLockDeclare declared with
  | sufficient _ => exact .inl ⟨rfl, rfl, rfl⟩
  | read _ _ | write _ _ => exact .inl (by simp)
  | upgrade _ reads => exact .inr ⟨rfl, rfl, reads, rfl⟩

/-- A request that needs no lock has it already. -/
theorem txLockDeclare_sufficient (holdings : Holdings env)
    (declared : txLockDeclare env btx lock write = some (next, false)) :
    next = env ∧ Holds env btx lock := by
  cases declares_of_txLockDeclare declared with
  | sufficient holds =>
    refine ⟨rfl, ?_⟩
    rcases holds with owner | ⟨_, reads⟩
    · exact .inr ((holdings.writer_iff btx lock).mp owner)
    · exact .inl reads

theorem txLockClear_txn_other (different : other ≠ btx) :
    (txLockClear env btx write).txn other = env.txn other := by
  simp [txLockClear, different]

theorem txLockClear_locks (env : Environment) (btx : TxnId) (write : Bool) :
    ((txLockClear env btx write).txn btx).readLocks = (env.txn btx).readLocks ∧
    ((txLockClear env btx write).txn btx).writeLocks = (env.txn btx).writeLocks := by
  cases write <;> simp [txLockClear]

/-- The transaction has begun and neither committed nor rolled back. -/
def Open (env : Environment) (btx : TxnId) : Prop :=
  env.phase btx = .running ∨ ∃ lock write, env.phase btx = .waiting lock write

theorem txLockAttempt_phase (env : Environment) (btx : TxnId) (lock : LockId) (write : Bool)
    (now : Int) :
    Open (txLockAttempt env btx lock write now).1 btx ∧
    ∀ other, other ≠ btx →
      (txLockAttempt env btx lock write now).1.phase other = env.phase other := by
  unfold txLockAttempt
  split
  · split
    · refine ⟨.inl (by simp), ?_⟩
      intro other different
      cases write <;> simp [txLockClear, grantRead, grantWrite, different]
    · split
      · refine ⟨.inl (by simp), ?_⟩
        intro other different
        simp [txLockClear, different]
      · refine ⟨.inr ⟨lock, write, by simp⟩, ?_⟩
        intro other different
        simp [different]
  · refine ⟨.inl (by simp), ?_⟩
    intro other different
    simp [txLockClear, different]

theorem txLockDeclare_phase (declared : txLockDeclare env btx lock write = some (next, needsLock)) :
    next.phase = env.phase := by
  cases declares_of_txLockDeclare declared with
  | sufficient _ | read _ _ | write _ _ | upgrade _ _ => rfl

theorem releaseNext_other (holdings : Holdings env) {stage : EndStage}
    (released : releaseNext env btx stage = some next) (different : other ≠ btx) :
    next.txn other = env.txn other ∧ next.phase other = env.phase other := by
  rcases releaseNext_cases released with rfl | ⟨_, rfl⟩ | ⟨_, _, _, taken, rfl⟩
  · exact ⟨rfl, by simp [cleanupTransaction, different]⟩
  · exact ⟨rfl, by simp [different]⟩
  · obtain ⟨_, phases, _, others, _⟩ := txUnlock_spec holdings taken
    exact ⟨others other different, by simp [different, phases]⟩

variable {action : Action}

/-- The locks, intents and stage of a transaction are its own business. -/
theorem lockStep_other (consistent : Consistent env)
    (taken : lockStep env action = some (next, outcome)) (different : other ≠ action.actor) :
    next.txn other = env.txn other ∧ next.phase other = env.phase other := by
  cases steps_of_lockStep taken with
  | @begin btx endTime _ =>
    have different : other ≠ btx := different
    simp [createTransaction, different]
  | @held btx _ _ _ _ _ equal =>
    have different : other ≠ btx := different
    rw [txLockClear_txn_other different]
    exact ⟨txLockDeclare_txn_other equal different, by
      simp [txLockClear, txLockDeclare_phase equal]⟩
  | @asked btx lock write now declared next outcome _ equal attempted =>
    have different : other ≠ btx := different
    have locks := txLockAttempt_txn_other declared lock write now different
    have stage := (txLockAttempt_phase declared btx lock write now).2 other different
    rw [attempted] at locks stage
    rw [locks, stage, txLockDeclare_phase equal]
    exact ⟨txLockDeclare_txn_other equal different, rfl⟩
  | @woken btx lock write now next outcome _ attempted =>
    have different : other ≠ btx := different
    have locks := txLockAttempt_txn_other env lock write now different
    have stage := (txLockAttempt_phase env btx lock write now).2 other different
    rw [attempted] at locks stage
    exact ⟨locks, stage⟩
  | @commit btx _ _ | @rollback btx _ _ =>
    have different : other ≠ btx := different
    exact ⟨rfl, by simp [different]⟩
  | release _ released => exact releaseNext_other consistent.holdings released different

end Gzochi.StorageMem
