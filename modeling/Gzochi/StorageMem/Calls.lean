import Gzochi.StorageMem.Grants

/-!
# What a call of `tx_lock` leaves behind

A call may sleep any number of times while other transactions come and go.  It is
followed here from its entry to its return.  What it took from the transaction before
it knew whether it would succeed, the read lock of an upgrade, it does not give back
when it fails.
-/

namespace Gzochi.StorageMem

open Environment Lib

/-- The states a call sleeps in: those its first round or a later one leaves when the
lock is taken, and whatever the other transactions make of them. -/
inductive Asleep (start : Environment) (btx : TxnId) (lock : LockId) (write : Bool) :
    Environment → Prop where
  | first {now : Int} {env : Environment} :
      lockStep start (.lock btx lock write now) = some (env, .waits) →
      Asleep start btx lock write env
  | meanwhile {env next : Environment} {action : Action} {outcome : Outcome} :
      Asleep start btx lock write env → action.actor ≠ btx →
      lockStep env action = some (next, outcome) → Asleep start btx lock write next
  | again {now : Int} {env next : Environment} : Asleep start btx lock write env →
      lockStep env (.wake btx now) = some (next, .waits) → Asleep start btx lock write next

/-- The calls of `tx_lock` that return, with the state and the time in which their last
critical section begins, the state it leaves and what it tells the caller. -/
inductive Call (start : Environment) (btx : TxnId) (lock : LockId) (write : Bool) :
    Environment → Int → Environment → Outcome → Prop where
  | atOnce {now : Int} {final : Environment} {outcome : Outcome} :
      lockStep start (.lock btx lock write now) = some (final, outcome) →
      outcome ≠ .waits → Call start btx lock write start now final outcome
  | woken {now : Int} {last final : Environment} {outcome : Outcome} :
      Asleep start btx lock write last →
      lockStep last (.wake btx now) = some (final, outcome) →
      outcome ≠ .waits → Call start btx lock write last now final outcome

/-- What `tx_lock` returns. -/
def Outcome.returned : Outcome → Option Bool
  | .held | .granted => some true
  | .timedOut | .deadlock => some false
  | .waits | .done => none

/-- A call that fails leaves what the transaction holds as it was; a call that
succeeds leaves the lock held as asked for, and every other lock. -/
def LocksKept (start final : Environment) (btx : TxnId) (lock : LockId) (write : Bool)
    (outcome : Outcome) : Prop :=
  (outcome.returned = some false →
    (∀ held, held ∈ (final.txn btx).readLocks ↔ held ∈ (start.txn btx).readLocks) ∧
    (∀ held, held ∈ (final.txn btx).writeLocks ↔ held ∈ (start.txn btx).writeLocks) ∧
    (btx ∈ (final.lock lock).readers ↔ btx ∈ (start.lock lock).readers) ∧
    ((final.lock lock).writer = some btx ↔ (start.lock lock).writer = some btx)) ∧
  (outcome.returned = some true →
    ((final.lock lock).writer = some btx ∨
      (write = false ∧ btx ∈ (final.lock lock).readers)) ∧
    (∀ held, held ≠ lock → held ∈ (start.txn btx).readLocks →
      held ∈ (final.txn btx).readLocks) ∧
    (∀ held, held ∈ (start.txn btx).writeLocks → held ∈ (final.txn btx).writeLocks))

/-- The transaction still has time, and nobody else holds the lock. -/
def Unopposed (env : Environment) (btx : TxnId) (lock : LockId) (now : Int) : Prop :=
  checkTxTimeout (env.txn btx) now = true ∧ (env.lock lock).writer = none ∧
    ∀ reader ∈ (env.lock lock).readers, reader = btx

variable {start last round env next final : Environment} {btx : TxnId} {lock : LockId}
  {write : Bool} {now : Int} {outcome : Outcome}

/-! ## One round -/

/-- A round that does not go to sleep succeeds exactly when there is time left and the
lock is free, and changes no list of the transaction but by the lock it grants. -/
theorem txLockAttempt_returns (returns : (txLockAttempt env btx lock write now).2 ≠ .waits) :
    (checkTxTimeout (env.txn btx) now = true ∧ available env lock write = true ∧
      (txLockAttempt env btx lock write now).2 = .granted ∧
      (((txLockAttempt env btx lock write now).1.lock lock).writer = some btx ∨
        (write = false ∧ btx ∈ ((txLockAttempt env btx lock write now).1.lock lock).readers))) ∨
    (¬(checkTxTimeout (env.txn btx) now = true ∧ available env lock write = true) ∧
      (txLockAttempt env btx lock write now).2.returned = some false ∧
      ((txLockAttempt env btx lock write now).1.txn btx).readLocks = (env.txn btx).readLocks ∧
      ((txLockAttempt env btx lock write now).1.txn btx).writeLocks =
        (env.txn btx).writeLocks) := by
  have cleared := txLockClear_locks env btx write
  unfold txLockAttempt at returns ⊢
  split at returns
  next intime =>
    rw [if_pos intime]
    split at returns
    next free =>
      left
      rw [if_pos free]
      refine ⟨intime, free, rfl, ?_⟩
      cases write with
      | true => exact .inl (by simp [txLockClear, Environment.grantWrite])
      | false => exact .inr (by simp [txLockClear, Environment.grantRead])
    next taken =>
      split at returns
      next detected =>
        right
        rw [if_neg taken, if_pos detected]
        exact ⟨fun both => taken both.2, rfl, cleared.1, cleared.2⟩
      next => exact absurd rfl returns
  next late =>
    right
    rw [if_neg late]
    exact ⟨fun both => late both.1, rfl, cleared.1, cleared.2⟩

/-- A round that goes to sleep changes nothing but where the thread stands. -/
theorem txLockAttempt_waits (waits : txLockAttempt env btx lock write now = (next, .waits)) :
    next = env.setPhase btx (.waiting lock write) := by
  unfold txLockAttempt at waits
  split at waits
  · split at waits
    · injection waits with _ impossible
      cases impossible
    · split at waits
      · injection waits with _ impossible
        cases impossible
      · injection waits with same _
        exact same.symm
  · injection waits with _ impossible
    cases impossible

/-- While the transaction asks for the lock, it is free to write exactly when nobody
else holds it. -/
theorem Requesting.unopposed_iff (requesting : Requesting env btx lock true) :
    Unopposed env btx lock now ↔
      checkTxTimeout (env.txn btx) now = true ∧ available env lock true = true := by
  have absent : btx ∉ (env.lock lock).readers :=
    mt (requesting.holdings.readers_iff btx lock).mp requesting.lacks.1
  have unread : (∀ reader ∈ (env.lock lock).readers, reader = btx) ↔
      (env.lock lock).readers = [] := by
    constructor
    · intro own
      apply List.eq_nil_iff_forall_not_mem.mpr
      intro reader member
      exact absent (own reader member ▸ member)
    · intro empty
      simp [empty]
  simp [Unopposed, available, unread]

/-! ## A whole call -/

/-- What a transaction holds once its call has declared the intent: an upgrade has
given its read lock back. -/
structure Pending (start env : Environment) (btx : TxnId) (lock : LockId) (write : Bool) :
    Prop where
  requesting : Requesting env btx lock write
  writes : (env.txn btx).writeLocks = (start.txn btx).writeLocks
  reads : (env.txn btx).readLocks =
    if write then (start.txn btx).readLocks.erase lock else (start.txn btx).readLocks

theorem txLockDeclare_endTime {needsLock : Bool}
    (declared : txLockDeclare start btx lock write = some (env, needsLock)) :
    (env.txn btx).endTime = (start.txn btx).endTime := by
  have dropped : ∀ env : Environment,
      ((env.dropRead btx lock).txn btx).endTime = (env.txn btx).endTime := by
    simp [Environment.dropRead]
  unfold txLockDeclare at declared
  grind [modifyTxn_txn]

variable (consistent : Consistent start)
include consistent

/-- The declaration, seen from the state the call begins in. -/
theorem pending_of_declare (running : start.phase btx = .running)
    (declared : txLockDeclare start btx lock write = some (env, true)) (now : Int) :
    Pending start env btx lock write ∧
      (Unopposed env btx lock now ↔ Unopposed start btx lock now) := by
  have requesting : Requesting env btx lock write := by
    rcases txLockDeclare_spec consistent running declared with ⟨flag, _⟩ | ⟨_, requesting⟩
    · cases flag
    · exact requesting
  have time := txLockDeclare_endTime declared
  rcases txLockDeclare_locks declared with ⟨locks, reads, writes⟩ | ⟨upgrade, _, reads, same⟩
  · constructor
    · refine ⟨requesting, writes, ?_⟩
      cases write with
      | false => exact reads
      | true =>
        rw [if_pos rfl, ← reads]
        exact (List.erase_of_not_mem requesting.lacks.1).symm
    · simp only [Unopposed, checkTxTimeout, time, locks]
  · subst upgrade
    constructor
    · refine ⟨requesting, ?_, ?_⟩
      · simp [same, Environment.dropRead]
      · simp [same, Environment.dropRead]
    · have writer : (env.lock lock).writer = (start.lock lock).writer := by
        simp [same, Environment.dropRead]
      have others : (∀ reader ∈ (env.lock lock).readers, reader = btx) ↔
          ∀ reader ∈ (start.lock lock).readers, reader = btx := by
        simp only [same, Environment.dropRead, modifyLock_lock, modifyTxn_lock, if_true,
          (consistent.holdings.readers_nodup lock).mem_erase_iff]
        constructor
        · intro own reader member
          by_contra different
          exact different (own reader ⟨different, member⟩)
        · intro own reader member
          exact own reader member.2
      simp only [Unopposed, checkTxTimeout, time, writer, others]

/-- A sleeping call still waits for its lock, with what it held when it declared the
intent. -/
theorem Asleep.pending (asleep : Asleep start btx lock write env) :
    Consistent env ∧ env.phase btx = .waiting lock write ∧ Pending start env btx lock write := by
  induction asleep with
  | first taken =>
    have after := lockStep_consistent consistent taken
    cases steps_of_lockStep taken with
    | @asked btx lock write _ declared _ _ running equal attempted =>
      have fallen := txLockAttempt_waits attempted
      obtain ⟨pending, -⟩ := pending_of_declare consistent running equal 0
      subst fallen
      have waits : (declared.setPhase btx (.waiting lock write)).phase btx =
          .waiting lock write := by simp
      exact ⟨after, waits, after.requesting waits, pending.writes, pending.reads⟩
  | meanwhile asleep other taken ih =>
    obtain ⟨standing, waits, pending⟩ := ih
    have after := lockStep_consistent standing taken
    have ⟨own, phase⟩ := lockStep_other standing taken other.symm
    refine ⟨after, phase.trans waits, after.requesting (phase.trans waits), ?_, ?_⟩
    · rw [own]
      exact pending.writes
    · rw [own]
      exact pending.reads
  | again asleep taken ih =>
    obtain ⟨standing, waits, pending⟩ := ih
    have after := lockStep_consistent standing taken
    simp only [lockStep, waits] at taken
    injection taken with pair
    have fallen := txLockAttempt_waits pair
    subst fallen
    exact ⟨after, by simp, after.requesting (by simp), pending.writes, pending.reads⟩

/-- How a call ends: it needed no lock, or its last round is one of a request that
has declared its intent. -/
theorem Call.last_round (call : Call start btx lock write last now final outcome) :
    (outcome = .held ∧ final = txLockClear start btx write ∧
      txLockDeclare start btx lock write = some (start, false)) ∨
    ∃ round, Pending start round btx lock write ∧
      (Unopposed round btx lock now ↔ Unopposed last btx lock now) ∧
      txLockAttempt round btx lock write now = (final, outcome) := by
  cases call with
  | atOnce taken _ =>
    cases steps_of_lockStep taken with
    | held _ equal =>
      have unchanged := (txLockDeclare_sufficient consistent.holdings equal).1
      subst unchanged
      exact .inl ⟨rfl, rfl, equal⟩
    | asked running equal attempted =>
      obtain ⟨pending, seen⟩ := pending_of_declare consistent running equal now
      exact .inr ⟨_, pending, seen, attempted⟩
  | woken asleep taken _ =>
    right
    obtain ⟨_, waits, pending⟩ := asleep.pending consistent
    simp only [lockStep, waits] at taken
    injection taken with pair
    exact ⟨_, pending, Iff.rfl, pair⟩

omit consistent

/-- A request that needs no lock has one that is exclusive enough. -/
theorem exclusive_of_declare (holdings : Holdings start)
    (declared : txLockDeclare start btx lock write = some (env, false)) :
    (start.lock lock).writer = some btx ∨ (write = false ∧ btx ∈ (start.lock lock).readers) := by
  cases declares_of_txLockDeclare declared with
  | sufficient holds => simpa [holdings.readers_iff btx lock] using holds

/-- A call keeps its promise about the locks of the transaction, unless it is an upgrade
whose last round finds the time over or the lock in use by others. -/
theorem txLock_keeps_iff (reachable : LockReachable start)
    (call : Call start btx lock write last now final outcome) :
    LocksKept start final btx lock write outcome ↔
      (write = true → lock ∈ (start.txn btx).readLocks → Unopposed last btx lock now) := by
  have consistent := reachable.consistent
  rcases call.last_round consistent with ⟨held, same, equal⟩ | ⟨round, pending, seen, equal⟩
  · subst held same
    have cleared := txLockClear_locks start btx write
    have exclusive := exclusive_of_declare consistent.holdings equal
    constructor
    · intro _ writes reads
      subst writes
      have owner := exclusive.resolve_right (by simp)
      have reader := (consistent.holdings.readers_iff btx lock).mpr reads
      rw [consistent.holdings.exclusive lock (by simp [owner])] at reader
      cases reader
    · intro _
      refine ⟨nofun, fun _ => ⟨exclusive, ?_, ?_⟩⟩
      · intro held _ reads
        exact cleared.1.symm ▸ reads
      · intro held writes
        exact cleared.2.symm ▸ writes
  · have returns : (txLockAttempt round btx lock write now).2 ≠ .waits := by
      rw [equal]
      cases call with
      | atOnce _ returns => exact returns
      | woken _ _ returns => exact returns
    have grown := txLockAttempt_locks round btx lock write now
    have after := txLockAttempt_consistent pending.requesting now
    rcases txLockAttempt_returns returns with ⟨intime, free, granted, exclusive⟩ |
      ⟨refused, told, reads, writes⟩
    · rw [equal] at grown granted exclusive
      have granted : outcome = .granted := granted
      subst granted
      constructor
      · intro _ upgrade _
        subst upgrade
        exact seen.mp (pending.requesting.unopposed_iff.mpr ⟨intime, free⟩)
      · intro _
        refine ⟨nofun, fun _ => ⟨exclusive, ?_, ?_⟩⟩
        · intro held different member
          apply grown.1
          rw [pending.reads]
          split
          · exact (List.mem_erase_of_ne different).mpr member
          · exact member
        · intro held member
          apply grown.2
          rw [pending.writes]
          exact member
    · rw [equal] at told reads writes after
      rw [pending.reads] at reads
      rw [pending.writes] at writes
      constructor
      · intro kept upgrade member
        subst upgrade
        have present := ((kept.1 told).1 lock).mpr member
        rw [reads, if_pos rfl, (consistent.holdings.readLocks_nodup btx).mem_erase_iff] at present
        exact absurd rfl present.1
      · intro unopposed
        have unchanged : (final.txn btx).readLocks = (start.txn btx).readLocks := by
          rw [reads]
          split
          next upgrade =>
            apply List.erase_of_not_mem
            intro member
            subst upgrade
            exact refused (pending.requesting.unopposed_iff.mp
              (seen.mpr (unopposed rfl member)))
          next => rfl
        constructor
        · intro _
          have readers := after.holdings.readers_iff btx lock
          have writer := after.holdings.writer_iff btx lock
          rw [unchanged, ← consistent.holdings.readers_iff] at readers
          rw [writes, ← consistent.holdings.writer_iff] at writer
          exact ⟨fun held => by rw [unchanged], fun held => by rw [writes], readers, writer⟩
        · intro succeeded
          rw [told] at succeeded
          cases succeeded

/-- A transaction that has read one lock, and whose time ends at ten. -/
def oneReader : Environment :=
  stateAfter lockStep .empty [.begin 1 10, .lock 1 5 false 0]

theorem oneReader_reachable : LockReachable oneReader :=
  Lib.exists_run_stateAfter lockStep .empty [.begin 1 10, .lock 1 5 false 0]

theorem txLock_keeps_iff_oneReader :
    LocksKept oneReader (stateAfter lockStep oneReader [.lock 1 5 true 3]) 1 5 true .granted := by
  have call : Call oneReader 1 5 true oneReader 3
      (stateAfter lockStep oneReader [.lock 1 5 true 3]) .granted := .atOnce rfl nofun
  apply (txLock_keeps_iff oneReader_reachable call).mpr
  intro _ _
  exact ⟨rfl, rfl, by decide⟩

/-- Asked for too late, the upgrade of the only reader fails, and leaves the transaction
without the lock it had. -/
theorem late_upgrade_loses_lock :
    ¬∀ start btx lock write last now final outcome, LockReachable start →
      Call start btx lock write last now final outcome →
      LocksKept start final btx lock write outcome := by
  intro claimed
  have call : Call oneReader 1 5 true oneReader 10
      (stateAfter lockStep oneReader [.lock 1 5 true 10]) .timedOut := .atOnce rfl nofun
  have kept := claimed _ _ _ _ _ _ _ _ oneReader_reachable call
  have present := ((kept.1 rfl).1 5).mpr (by decide)
  revert present
  decide

end Gzochi.StorageMem
