import Gzochi.StorageMem.Calls

/-!
# Who writes a lock, over a step of the lock manager

A request makes its transaction the writer of its lock or changes no writer at all.  A turn of
the loops that give locks back takes the writer of one lock away.  Neither is ever stuck on an
assertion.
-/

namespace Gzochi.StorageMem

open Environment Lib Option

variable {env next : Environment} {btx other : TxnId} {lock held : LockId} {write : Bool}
  {now : Int} {outcome : Outcome}

/-! ## Requests -/

theorem txLockDeclare_writer {needsLock : Bool}
    (declared : txLockDeclare env btx lock write = some (next, needsLock)) (held : LockId) :
    (next.lock held).writer = (env.lock held).writer := by
  rcases txLockDeclare_locks declared with ⟨locks, _, _⟩ | ⟨_, _, _, same⟩
  · rw [locks]
  · subst same
    simp only [Environment.dropRead, modifyLock_lock, modifyTxn_lock]
    split
    next self => rw [self]
    next => rfl

theorem txLockClear_lock (env : Environment) (btx : TxnId) (write : Bool) :
    (txLockClear env btx write).lock = env.lock := rfl

theorem txLockAttempt_writer (env : Environment) (btx : TxnId) (lock : LockId) (write : Bool)
    (now : Int) (held : LockId) :
    ((txLockAttempt env btx lock write now).1.lock held).writer =
      if held = lock ∧ write = true ∧ (txLockAttempt env btx lock write now).2 = .granted then
        some btx
      else (env.lock held).writer := by
  unfold txLockAttempt
  split
  · split
    · cases write with
      | false =>
        simp only [Bool.false_eq_true, if_false, setPhase_lock, txLockClear_lock,
          Environment.grantRead, modifyTxn_lock, modifyLock_lock, false_and, and_false]
        split
        next self => rw [self]
        next => rfl
      | true =>
        simp only [if_true, setPhase_lock, txLockClear_lock, Environment.grantWrite,
          modifyTxn_lock, modifyLock_lock, and_true]
        split
        next => rfl
        next => rfl
    · split
      · simp [txLockClear_lock]
      · simp
  · simp [txLockClear_lock]

theorem txLockAttempt_phase_self (env : Environment) (btx : TxnId) (lock : LockId)
    (write : Bool) (now : Int) :
    (txLockAttempt env btx lock write now).1.phase btx =
      if (txLockAttempt env btx lock write now).2 = .waits then .waiting lock write
      else .running := by
  unfold txLockAttempt
  split
  · split
    · simp
    · split
      · simp
      · simp
  · simp

/-- What a round of the loop tells its caller. -/
theorem txLockAttempt_outcome (env : Environment) (btx : TxnId) (lock : LockId) (write : Bool)
    (now : Int) :
    (txLockAttempt env btx lock write now).2 =
      if checkTxTimeout (env.txn btx) now then
        if available env lock write then .granted
        else if lockDetect env then .deadlock else .waits
      else .timedOut := by
  unfold txLockAttempt
  split
  next =>
    split
    next => rfl
    next => split <;> rfl
  next => rfl

/-- What a request does, seen from before it. -/
structure Requested (env : Environment) (btx : TxnId) (lock : LockId) (write : Bool)
    (next : Environment) (outcome : Outcome) : Prop where
  consistent : Consistent next
  writer : ∀ held, (next.lock held).writer =
    if held = lock ∧ write = true ∧ outcome = .granted then some btx
    else (env.lock held).writer
  free : outcome = .granted → (env.lock lock).writer = none
  owner : outcome = .held → write = true → (env.lock lock).writer = some btx
  phase : next.phase btx = if outcome = .waits then .waiting lock write else .running
  others : ∀ other, other ≠ btx → next.phase other = env.phase other

theorem Requested.grows (requested : Requested env btx lock write next outcome)
    (writer : (env.lock held).writer = some other) : (next.lock held).writer = some other := by
  rw [requested.writer]
  split
  next granted =>
    have free := requested.free granted.2.2
    rw [← granted.1, writer] at free
    cases free
  next => exact writer

theorem Requested.returned (requested : Requested env btx lock true next outcome)
    (success : outcome.returned = some true) : (next.lock lock).writer = some btx := by
  cases outcome with
  | held => exact requested.grows (requested.owner rfl rfl)
  | granted =>
    rw [requested.writer]
    exact if_pos ⟨rfl, rfl, rfl⟩
  | timedOut | deadlock | waits | done => cases success

/-- A round of a request. -/
theorem requested_of_attempt {declared : Environment}
    (requesting : Requesting declared btx lock write)
    (writers : ∀ held, (declared.lock held).writer = (env.lock held).writer)
    (phases : declared.phase = env.phase)
    (attempted : txLockAttempt declared btx lock write now = (next, outcome)) :
    Requested env btx lock write next outcome := by
  have after := txLockAttempt_consistent requesting now
  have writer := txLockAttempt_writer declared btx lock write now
  have phase := txLockAttempt_phase_self declared btx lock write now
  have others := (txLockAttempt_phase declared btx lock write now).2
  have granted : (txLockAttempt declared btx lock write now).2 = .granted →
      available declared lock write = true := fun granted => (txLockAttempt_granted granted).1
  rw [attempted] at after writer phase others granted
  refine ⟨after, ?_, ?_, ?_, phase, ?_⟩
  · intro held
    rw [writer held, writers held]
  · intro success
    have free := granted success
    simp only [available, Bool.and_eq_true, decide_eq_true_eq] at free
    rw [← writers lock]
    exact free.1
  · intro success
    have never : (txLockAttempt declared btx lock write now).2 ≠ .held := txLockAttempt_ne_held
    rw [attempted] at never
    exact absurd success never
  · intro other different
    rw [others other different, phases]

theorem requested_of_lock (consistent : Consistent env)
    (taken : lockStep env (.lock btx lock write now) = some (next, outcome)) :
    Requested env btx lock write next outcome := by
  have after := lockStep_consistent consistent taken
  cases steps_of_lockStep taken with
  | held running equal =>
    have unchanged := (txLockDeclare_sufficient consistent.holdings equal).1
    have exclusive := exclusive_of_declare consistent.holdings equal
    subst unchanged
    refine ⟨after, ?_, nofun, ?_, ?_, fun _ _ => rfl⟩
    · intro held
      rw [txLockClear_lock, if_neg (by simp)]
    · intro _ writes
      exact exclusive.resolve_right (by simp [writes])
    · rw [if_neg (by nofun)]
      exact running
  | asked running equal attempted =>
    rcases txLockDeclare_spec consistent running equal with ⟨flag, _⟩ | ⟨_, requesting⟩
    · cases flag
    · exact requested_of_attempt requesting (txLockDeclare_writer equal)
        (txLockDeclare_phase equal) attempted

theorem requested_of_wake (consistent : Consistent env)
    (waits : env.phase btx = .waiting lock write)
    (taken : lockStep env (.wake btx now) = some (next, outcome)) :
    Requested env btx lock write next outcome := by
  simp only [lockStep, waits] at taken
  injection taken with pair
  exact requested_of_attempt (consistent.requesting waits) (fun _ => rfl) rfl pair

/-- `tx_lock` meets none of its assertions. -/
theorem lockStep_lock_isSome (consistent : Consistent env) (running : env.phase btx = .running) :
    lockStep env (.lock btx lock write now) ≠ none := by
  have phase := consistent.phases btx
  rw [running] at phase
  have readers := consistent.holdings.readers_iff btx lock
  simp only [lockStep, if_pos running, txLock]
  have declared : txLockDeclare env btx lock write ≠ none := by
    unfold txLockDeclare
    grind [PhaseOk]
  split
  next none => exact absurd none declared
  next => simp
  next => simp

/-! ## Giving locks back -/

theorem txUnlock_writer (unlocked : txUnlock env lock btx = some next) (held : LockId) :
    (next.lock held).writer =
      if held = lock ∧ (env.lock lock).writer = some btx then none
      else (env.lock held).writer := by
  unfold txUnlock at unlocked
  split at unlocked
  next owner =>
    obtain ⟨_, unlocked⟩ := ite_none_right_eq_some.mp unlocked
    cases unlocked
    simp only [Environment.dropWrite, modifyLock_lock, modifyTxn_lock, owner, and_true]
    split
    next => rfl
    next => rfl
  next notOwner =>
    rw [if_neg (fun both => notOwner both.2)]
    obtain ⟨_, unlocked⟩ := ite_none_right_eq_some.mp unlocked
    cases unlocked
    simp only [Environment.dropRead, modifyLock_lock, modifyTxn_lock]
    split
    next self => rw [self]
    next => rfl

/-- Giving back a lock leaves a transaction where it stands. -/
theorem txUnlock_consistent (consistent : Consistent env) (running : env.phase btx = .running)
    (unlocked : txUnlock env lock btx = some next) : Consistent next := by
  obtain ⟨holdings, phases, listed, others, own⟩ := txUnlock_spec consistent.holdings unlocked
  have phase := consistent.phases btx
  rw [running] at phase
  have moved : Consistent (next.setPhase btx .running) := consistent.move (by simp [running])
    holdings phases listed others (by simp) (by
      rcases own with ⟨_, equal⟩ | ⟨_, equal⟩ <;> simpa [equal, PhaseOk] using phase)
  have stays : next.setPhase btx .running = next := by
    unfold Environment.setPhase
    congr
    funext other
    split
    next self => rw [self, phases, running]
    next => rfl
  rwa [stays] at moved

/-- A turn of the loops gives back one lock or none. -/
theorem releaseNext_unlocks {stage : EndStage} (released : releaseNext env btx stage = some next) :
    next.lock = env.lock ∨
      ∃ lock unlocked, txUnlock env lock btx = some unlocked ∧ next.lock = unlocked.lock := by
  rcases releaseNext_cases released with rfl | ⟨_, rfl⟩ | ⟨lock, unlocked, _, taken, rfl⟩
  · exact .inl rfl
  · exact .inl rfl
  · exact .inr ⟨lock, unlocked, taken, rfl⟩

/-- What a turn of the loops that give locks back does, seen from before it. -/
structure Released (env : Environment) (btx : TxnId) (stage : EndStage) (next : Environment) :
    Prop where
  consistent : Consistent next
  ending : env.phase btx = .ending stage
  shrinks : ∀ held other, (next.lock held).writer = some other →
    (env.lock held).writer = some other
  keeps : ∀ held other, other ≠ btx → (env.lock held).writer = some other →
    (next.lock held).writer = some other
  others : ∀ other, other ≠ btx → next.phase other = env.phase other
  next : match stage with
    | .modifications (lock :: rest) => (env.lock lock).writer = some btx ∧
        next.phase btx = .ending (.modifications rest) ∧
        ∀ held, (next.lock held).writer = if held = lock then none else (env.lock held).writer
    | _ => next.phase btx = .ended ∨
        ∃ stage, next.phase btx = .ending stage ∧ ∀ rest, stage ≠ .modifications rest

theorem released_of_release (consistent : Consistent env)
    (taken : lockStep env (.release btx) = some (next, outcome)) :
    ∃ stage, Released env btx stage next := by
  have after := lockStep_consistent consistent taken
  have others : ∀ other, other ≠ btx → next.phase other = env.phase other :=
    fun _ different => (lockStep_other consistent taken different).2
  cases steps_of_lockStep taken with
  | @release _ stage _ ending equal =>
    refine ⟨stage, after, ending, ?_, ?_, others, ?_⟩
    · intro held other writer
      rcases releaseNext_unlocks equal with locks | ⟨lock, unlocked, taken, locks⟩
      · rwa [← locks]
      · rw [locks, txUnlock_writer taken] at writer
        obtain ⟨_, writer⟩ := ite_none_left_eq_some.mp writer
        exact writer
    · intro held other different writer
      rcases releaseNext_unlocks equal with locks | ⟨lock, unlocked, taken, locks⟩
      · rwa [locks]
      · rw [locks, txUnlock_writer taken]
        split
        next self =>
          rw [self.1, self.2] at writer
          injection writer with same
          exact absurd same.symm different
        next => exact writer
    · rcases stage with (_ | ⟨lock, rest⟩) | (_ | ⟨lock, rest⟩) | (_ | ⟨lock, rest⟩)
      · cases equal
        exact .inr ⟨.writes (env.txn btx).writeLocks, by simp, by simp⟩
      · obtain ⟨owner, equal⟩ := ite_none_right_eq_some.mp equal
        obtain ⟨unlocked, given, rfl⟩ := map_eq_some_iff.mp equal
        refine ⟨owner, by simp, fun held => ?_⟩
        rw [setPhase_lock, txUnlock_writer given]
        simp only [owner, and_true]
      · cases equal
        exact .inr ⟨.reads (env.txn btx).readLocks, by simp, by simp⟩
      · obtain ⟨unlocked, _, rfl⟩ := map_eq_some_iff.mp equal
        exact .inr ⟨.writes rest, by simp, by simp⟩
      · cases equal
        exact .inl (by simp [cleanupTransaction])
      · obtain ⟨unlocked, _, rfl⟩ := map_eq_some_iff.mp equal
        exact .inr ⟨.reads rest, by simp, by simp⟩

end Gzochi.StorageMem
