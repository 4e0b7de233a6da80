import Gzochi.StorageMem.Detection

/-!
# Freedom from deadlock

`lock_detect` runs before a transaction goes to sleep, while the waits-for relation
also changes whenever a lock is granted to somebody else.  The relation has no
cycle in any reachable state: a transaction that is granted a lock waits for
nobody, so the edges it attracts close no cycle, and a transaction that goes to
sleep has just seen the topological sort take every transaction away.
-/

namespace Gzochi.StorageMem

open Environment Lib

/-- One transaction intends to use a lock in a way the other's hold on it forbids. -/
def Wants (env : Environment) (btx holder : TxnId) : Prop :=
  btx ≠ holder ∧ ∃ lock,
    ((env.txn btx).waitingToWrite = some lock ∧
      (lock ∈ (env.txn holder).readLocks ∨ lock ∈ (env.txn holder).writeLocks)) ∨
    ((env.txn btx).waitingToRead = some lock ∧ lock ∈ (env.txn holder).writeLocks)

/-- One transaction is asleep, waiting for a lock the other holds in a conflicting
way. -/
def WaitsFor (env : Environment) (btx holder : TxnId) : Prop :=
  btx ≠ holder ∧ ∃ lock write, env.phase btx = .waiting lock write ∧
    ((env.lock lock).writer = some holder ∨
      (write = true ∧ holder ∈ (env.lock lock).readers))

variable {env next : Environment} {btx : TxnId} {lock : LockId} {write : Bool}
  {outcome : Outcome}

variable {first second : TxnId}

/-- An edge is one `lock_detect` sorts by. -/
theorem Wants.competes (wants : Wants env first second) : Competes env first second := by
  obtain ⟨different, lock, ⟨intent, reads | writes⟩ | ⟨intent, writes⟩⟩ := wants
  · exact ⟨lock, .inl ⟨different, intent, reads⟩⟩
  · exact ⟨lock, .inr ⟨.inl intent, writes⟩⟩
  · exact ⟨lock, .inr ⟨.inr intent, writes⟩⟩

/-! ## Who can wait for whom -/

/-- Both ends of an edge are active transactions. -/
theorem Requesting.wants_listed (requesting : Requesting env btx lock write)
    (wants : Wants env first second) :
    first ∈ env.transactions ∧ second ∈ env.transactions := by
  have active : ∀ {txn}, (txn ≠ btx → ¬((env.txn txn).waitingToRead = none ∧
      (env.txn txn).waitingToWrite = none ∧ (env.txn txn).writeLocks = [] ∧
      (env.txn txn).readLocks = [])) → txn ∈ env.transactions := by
    intro txn busy
    rw [requesting.listed]
    by_cases self : txn = btx
    · subst self
      exact requesting.active
    · have phase := requesting.others txn self
      constructor <;> intro equal <;> rw [equal] at phase <;> exact busy self phase
  obtain ⟨_, lock, wanted⟩ := wants
  constructor <;> apply active <;> rintro _ ⟨noRead, noWrite, writes, reads⟩ <;> simp_all

theorem wants_of_waitsFor (consistent : Consistent env) (waits : WaitsFor env first second) :
    Wants env first second := by
  obtain ⟨different, lock, write, asleep, holds⟩ := waits
  have phase := consistent.phases first
  rw [asleep] at phase
  refine ⟨different, lock, ?_⟩
  rcases holds with writer | ⟨rfl, reader⟩
  · have member := (consistent.holdings.writer_iff second lock).mp writer
    cases write with
    | true => exact .inl ⟨phase.2.1, .inr member⟩
    | false => exact .inr ⟨phase.1, member⟩
  · exact .inl ⟨phase.2.1, .inl ((consistent.holdings.readers_iff second lock).mp reader)⟩

/-- Fewer intents and fewer locks mean fewer edges. -/
theorem Wants.mono (wants : Wants next first second)
    (reads : (next.txn first).waitingToRead = (env.txn first).waitingToRead ∨
      (next.txn first).waitingToRead = none)
    (writes : (next.txn first).waitingToWrite = (env.txn first).waitingToWrite ∨
      (next.txn first).waitingToWrite = none)
    (readLocks : (next.txn second).readLocks ⊆ (env.txn second).readLocks)
    (writeLocks : (next.txn second).writeLocks ⊆ (env.txn second).writeLocks) :
    Wants env first second := by
  obtain ⟨different, lock, wanted⟩ := wants
  refine ⟨different, lock, ?_⟩
  rcases wanted with ⟨intent, held⟩ | ⟨intent, held⟩
  · rcases writes with same | gone
    · exact .inl ⟨same ▸ intent, held.imp (@readLocks lock) (@writeLocks lock)⟩
    · rw [gone] at intent
      cases intent
  · rcases reads with same | gone
    · exact .inr ⟨same ▸ intent, writeLocks held⟩
    · rw [gone] at intent
      cases intent

/-! ## Each step -/

/-- A round of the loop of `tx_lock` leaves no cycle, provided there was none but
for the intent of the transaction itself. -/
theorem txLockAttempt_acyclic (requesting : Requesting env btx lock write)
    (acyclic : Acyclic fun first second => first ≠ btx ∧ Wants env first second)
    (now : Int) : Acyclic (Wants (txLockAttempt env btx lock write now).1) := by
  have intent := requesting.intent
  have silent : ∀ (granted : Environment),
      (granted.txn btx).waitingToRead = (env.txn btx).waitingToRead ∧
        (granted.txn btx).waitingToWrite = (env.txn btx).waitingToWrite →
      ∀ second, ¬Wants ((txLockClear granted btx write).setPhase btx .running) btx
        second := by
    rintro granted ⟨reads, writes⟩ second ⟨different, held, wanted⟩
    cases write <;> simp_all [PhaseOk, txLockClear]
  have cleared : Acyclic (Wants ((txLockClear env btx write).setPhase btx .running)) := by
    apply acyclic.mono
    intro first second wants
    have self : first ≠ btx := by
      rintro rfl
      exact silent env ⟨rfl, rfl⟩ second wants
    refine ⟨self, wants.mono ?_ ?_ ?_ ?_⟩
    · simp [txLockClear, self]
    · simp [txLockClear, self]
    · simp only [txLockClear, setPhase_txn, modifyTxn_txn]
      split
      next same => subst same; cases write <;> simp
      next => simp
    · simp only [txLockClear, setPhase_txn, modifyTxn_txn]
      split
      next same => subst same; cases write <;> simp
      next => simp
  unfold txLockAttempt
  split
  next =>
    split
    next =>
      apply acyclic.of_sink btx
      · intro first second wants
        by_cases target : second = btx
        · exact .inr target
        · have self : first ≠ btx := by
            rintro rfl
            refine silent (if write then env.grantWrite first lock
              else env.grantRead first lock) ?_ second wants
            cases write <;> simp [grantWrite, grantRead]
          refine .inl ⟨self, wants.mono ?_ ?_ ?_ ?_⟩ <;>
            cases write <;> simp [txLockClear, grantWrite, grantRead, self, target]
      · apply silent
        cases write <;> simp [grantWrite, grantRead]
    next =>
      split
      next => exact cleared
      next undetected =>
        apply (acyclic_of_undetected (by simpa using undetected)).mono
        intro first second wants
        have listed := requesting.wants_listed wants
        exact ⟨listed.1, listed.2, wants.competes⟩
  next => exact cleared

/-- Declaring an intent changes no edge but those of the transaction itself. -/
theorem txLockDeclare_wants {needsLock : Bool}
    (declared : txLockDeclare env btx lock write = some (next, needsLock)) (self : first ≠ btx)
    (wants : Wants next first second) :
    Wants env first second := by
  cases declares_of_txLockDeclare declared with
  | sufficient _ => exact wants
  | read _ _ | write _ _ =>
    apply wants.mono
    · simp [self]
    · simp [self]
    · by_cases target : second = btx <;> simp [target]
    · by_cases target : second = btx <;> simp [target]
  | upgrade _ _ =>
    apply wants.mono
    · simp [dropRead, self]
    · simp [dropRead, self]
    · by_cases target : second = btx
      · simp only [dropRead, modifyLock_txn, modifyTxn_txn, target, if_true]
        exact List.erase_subset
      · simp [dropRead, target]
    · by_cases target : second = btx <;> simp [dropRead, target]

/-- Giving a lock back removes edges. -/
theorem txUnlock_wants (holdings : Holdings env) (unlocked : txUnlock env lock btx = some next)
    (wants : Wants next first second) : Wants env first second := by
  obtain ⟨_, _, _, others, own⟩ := txUnlock_spec holdings unlocked
  apply wants.mono
  · left
    by_cases self : first = btx
    · subst self
      rcases own with ⟨_, equal⟩ | ⟨_, equal⟩ <;> rw [equal]
    · rw [others first self]
  · left
    by_cases self : first = btx
    · subst self
      rcases own with ⟨_, equal⟩ | ⟨_, equal⟩ <;> rw [equal]
    · rw [others first self]
  · by_cases target : second = btx
    · subst target
      rcases own with ⟨_, equal⟩ | ⟨_, equal⟩ <;> rw [equal]
      · exact List.Subset.refl _
      · exact List.erase_subset
    · rw [others second target]
      exact List.Subset.refl _
  · by_cases target : second = btx
    · subst target
      rcases own with ⟨_, equal⟩ | ⟨_, equal⟩ <;> rw [equal]
      · exact List.erase_subset
      · exact List.Subset.refl _
    · rw [others second target]
      exact List.Subset.refl _

theorem releaseNext_wants (holdings : Holdings env) {stage : EndStage}
    (released : releaseNext env btx stage = some next) (wants : Wants next first second) :
    Wants env first second := by
  rcases releaseNext_cases released with rfl | ⟨_, rfl⟩ | ⟨_, _, _, taken, rfl⟩
  · exact wants
  · exact wants
  · exact txUnlock_wants holdings taken wants

theorem lockStep_acyclic {action : Action} (consistent : Consistent env)
    (acyclic : Acyclic (Wants env))
    (taken : lockStep env action = some (next, outcome)) : Acyclic (Wants next) := by
  cases steps_of_lockStep taken with
  | @begin btx endTime _ =>
    apply acyclic.mono
    intro first second wants
    apply wants.mono
    · by_cases self : first = btx <;> simp [createTransaction, self]
    · by_cases self : first = btx <;> simp [createTransaction, self]
    · by_cases target : second = btx <;> simp [createTransaction, target]
    · by_cases target : second = btx <;> simp [createTransaction, target]
  | @held btx lock write now declared running equal =>
    rcases txLockDeclare_spec consistent running equal with ⟨_, same⟩ | ⟨flag, _⟩
    · subst same
      apply acyclic.mono
      intro first second wants
      apply wants.mono
      · by_cases self : first = btx <;> cases write <;> simp [txLockClear, self]
      · by_cases self : first = btx <;> cases write <;> simp [txLockClear, self]
      · by_cases target : second = btx <;> cases write <;> simp [txLockClear, target]
      · by_cases target : second = btx <;> cases write <;> simp [txLockClear, target]
    · cases flag
  | @asked btx lock write now declared next outcome running equal attempted =>
    rcases txLockDeclare_spec consistent running equal with ⟨flag, _⟩ | ⟨_, requesting⟩
    · cases flag
    · have kept := txLockAttempt_acyclic requesting
        (acyclic.mono fun first second edge => txLockDeclare_wants equal edge.1 edge.2) now
      rwa [attempted] at kept
  | @woken btx lock write now next outcome waits attempted =>
    have kept := txLockAttempt_acyclic (consistent.requesting waits)
      (acyclic.mono fun first second edge => edge.2) now
    rwa [attempted] at kept
  | commit _ | rollback _ => exact acyclic
  | release _ released =>
    exact acyclic.mono fun first second wants =>
      releaseNext_wants consistent.holdings released wants

theorem LockReachable.acyclic_wants (reachable : LockReachable env) : Acyclic (Wants env) := by
  obtain ⟨trace, run⟩ := reachable
  have both : Consistent env ∧ Acyclic (Wants env) := by
    refine run.state_invariant (fun env => Consistent env ∧ Acyclic (Wants env))
      ⟨consistent_empty, ?_⟩ ?_
    · exact Acyclic.of_empty (by simp [Wants, Environment.empty])
    · intro state action next observation holds _ taken
      exact ⟨lockStep_consistent holds.1 taken, lockStep_acyclic holds.1 holds.2 taken⟩
  exact both.2

/-- In no reachable state do transactions wait for each other in a circle, and a
request whose wait would close a circle is refused before it sleeps. -/
theorem no_deadlock (reachable : LockReachable env) : Acyclic (WaitsFor env) ∧
    ∀ btx lock write now declared, env.phase btx = .running →
      txLockDeclare env btx lock write = some (declared, true) →
      available declared lock write = false →
      ¬Acyclic (WaitsFor (declared.setPhase btx (.waiting lock write))) →
      ((txLockAttempt declared btx lock write now).2 = .deadlock ∨
        (txLockAttempt declared btx lock write now).2 = .timedOut) ∧
      (txLockAttempt declared btx lock write now).1.phase btx = .running := by
  have consistent := reachable.consistent
  refine ⟨reachable.acyclic_wants.mono fun _ _ => wants_of_waitsFor consistent, ?_⟩
  intro btx lock write now declared running equal unavailable cyclic
  have requesting : Requesting declared btx lock write := by
    rcases txLockDeclare_spec consistent running equal with ⟨flag, _⟩ | ⟨_, requesting⟩
    · cases flag
    · exact requesting
  have acyclic := txLockAttempt_acyclic requesting
    (reachable.acyclic_wants.mono fun first second edge =>
      txLockDeclare_wants equal edge.1 edge.2) now
  have kept := txLockAttempt_consistent requesting now
  unfold txLockAttempt at acyclic kept ⊢
  simp only [unavailable] at acyclic kept ⊢
  split at acyclic
  next intime =>
    rw [if_pos intime] at kept ⊢
    split at acyclic
    next impossible => cases impossible
    next =>
      split at acyclic
      next detected => simp [detected]
      next undetected =>
        rw [if_neg (by simp), if_neg undetected] at kept
        exact absurd (acyclic.mono fun _ _ => wants_of_waitsFor kept) cyclic
  next late => simp [late]

/-- From every active transaction, the waits lead to an active one that is not stuck: if it
is asleep at all, it is granted its lock as soon as it is woken in time. -/
theorem waits_end (reachable : LockReachable env) (active : btx ∈ env.transactions) :
    ∃ last ∈ env.transactions, Relation.ReflTransGen (WaitsFor env) btx last ∧
      ∀ lock write, env.phase last = .waiting lock write →
      ∀ now, checkTxTimeout (env.txn last) now = true →
        (txLockAttempt env last lock write now).2 = .granted := by
  have consistent := reachable.consistent
  have listed : ∀ first second, WaitsFor env first second → second ∈ env.transactions := by
    intro first second waits
    obtain ⟨_, _, _, asleep, _⟩ := id waits
    exact ((consistent.requesting asleep).wants_listed (wants_of_waitsFor consistent waits)).2
  have acyclic : Acyclic (WaitsFor env) :=
    reachable.acyclic_wants.mono fun _ _ => wants_of_waitsFor consistent
  obtain ⟨last, path, free⟩ := acyclic.exists_end listed btx
  have there : last ∈ env.transactions := by
    rcases path.cases_tail with rfl | ⟨before, _, edge⟩
    · exact active
    · exact listed before last edge
  refine ⟨last, there, path, ?_⟩
  intro lock write asleep now intime
  obtain ⟨notReader, notWriter⟩ := (consistent.requesting asleep).lacks
  -- A holder in the way would be one more to wait for.
  have noWriter : (env.lock lock).writer = none := by
    refine Option.eq_none_iff_forall_ne_some.mpr fun holder writer => free holder ?_
    refine ⟨?_, lock, write, asleep, .inl writer⟩
    rintro rfl
    exact notWriter ((consistent.holdings.writer_iff _ _).mp writer)
  have noReader : write = true → (env.lock lock).readers = [] := by
    intro writes
    refine List.eq_nil_iff_forall_not_mem.mpr fun holder reader => free holder ?_
    refine ⟨?_, lock, write, asleep, .inr ⟨writes, reader⟩⟩
    rintro rfl
    exact notReader ((consistent.holdings.readers_iff _ _).mp reader)
  have granted : available env lock write = true := by
    cases write <;> simp_all [available]
  simp [txLockAttempt, intime, granted]

/-- Two transactions, each the writer of one lock. -/
def rivals : Environment :=
  stateAfter lockStep .empty
    [.begin 1 10, .begin 2 10, .lock 1 1 true 0, .lock 2 2 true 0]

/-- The first of them has declared that it wants the other's lock. -/
def rivalsDeclared : Environment :=
  rivals.modifyTxn 1 fun txn => { txn with waitingToWrite := some 2 }

theorem lockDetect_rivalsDeclared : lockDetect rivalsDeclared = false :=
  lockDetect_pair rfl (by decide) (by decide) (by decide)

/-- The first one now sleeps. -/
def rivalsBlocked : Environment := rivalsDeclared.setPhase 1 (.waiting 2 true)

theorem rivalsBlocked_reachable : LockReachable rivalsBlocked := by
  obtain ⟨trace, run⟩ := exists_run_stateAfter lockStep .empty
    [.begin 1 10, .begin 2 10, .lock 1 1 true 0, .lock 2 2 true 0]
  refine ⟨trace ++ [(.lock 1 2 true 0, .waits)], run.snoc trivial ?_⟩
  have attempt : lockStep rivals (.lock 1 2 true 0) =
      some (txLockAttempt rivalsDeclared 1 2 true 0) := rfl
  change lockStep rivals (.lock 1 2 true 0) = some (rivalsBlocked, .waits)
  rw [attempt]
  simp [txLockAttempt, lockDetect_rivalsDeclared, rivalsBlocked,
    show available rivalsDeclared 2 true = false by decide,
    show checkTxTimeout (rivalsDeclared.txn 1) 0 = true by decide]

theorem waits_end_rivals : ∃ last ∈ rivalsBlocked.transactions,
    Relation.ReflTransGen (WaitsFor rivalsBlocked) 1 last ∧
      ∀ lock write, rivalsBlocked.phase last = .waiting lock write →
      ∀ now, checkTxTimeout (rivalsBlocked.txn last) now = true →
        (txLockAttempt rivalsBlocked last lock write now).2 = .granted :=
  waits_end rivalsBlocked_reachable (by decide)

/-- The second one asks for the first one's lock, which would close the circle. -/
def rivalsClosing : Environment :=
  rivalsBlocked.modifyTxn 2 fun txn => { txn with waitingToWrite := some 1 }

theorem no_deadlock_rivals : Acyclic (WaitsFor rivalsBlocked) ∧
    ((txLockAttempt rivalsClosing 2 1 true 0).2 = .deadlock ∨
      (txLockAttempt rivalsClosing 2 1 true 0).2 = .timedOut) := by
  have safe := no_deadlock rivalsBlocked_reachable
  refine ⟨safe.1, (safe.2 2 1 true 0 rivalsClosing rfl rfl (by decide) ?_).1⟩
  intro acyclic
  have forth : WaitsFor (rivalsClosing.setPhase 2 (.waiting 1 true)) 2 1 :=
    ⟨by decide, 1, true, rfl, .inl rfl⟩
  have back : WaitsFor (rivalsClosing.setPhase 2 (.waiting 1 true)) 1 2 :=
    ⟨by decide, 2, true, rfl, .inl rfl⟩
  exact acyclic 2 (.tail (.single forth) back)

theorem lockDetect_iff_cycle_rivals : lockDetect rivalsClosing = true := by
  apply (lockDetect_iff_cycle.2.2 rivalsBlocked rivalsBlocked_reachable 2 1 true rivalsClosing
    (.inl ⟨rfl, rfl⟩)).mpr
  intro acyclic
  have forth : Listed rivalsClosing (Conflicts rivalsClosing) 2 1 :=
    ⟨by decide, by decide, 1, .inl ⟨rfl, .inr (by decide)⟩⟩
  have back : Listed rivalsClosing (Conflicts rivalsClosing) 1 2 :=
    ⟨by decide, by decide, 2, .inl ⟨rfl, .inr (by decide)⟩⟩
  exact acyclic 2 (.tail (.single forth) back)

end Gzochi.StorageMem
