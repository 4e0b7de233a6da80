import Gzochi.Lib.Runs
import Mathlib.Data.List.Nodup

/-!
# The lock manager of the in-memory engine

Every B+tree node, and every tree wrapper, has a read / write lock; `storage-mem.c`
grants them to transactions under the mutex of the environment.  One step below is
one critical section of that mutex: a transaction asks for a lock, wakes up from
its wait and tries again, or gives one lock back while it commits or rolls back.
Between two steps any other transaction may take any number of steps, so a run is
an arbitrary interleaving.  A waiting transaction may wake at any time, as
`g_cond_wait_until` allows.

Assertions of the source are modelled by the absence of a step.
-/

namespace Gzochi.StorageMem

open Option

abbrev TxnId := Nat

/-- A lock is named by the node or the tree wrapper it belongs to. -/
abbrev LockId := Nat

structure BtreeLock where
  writer : Option TxnId
  readers : List TxnId
  deriving DecidableEq

/-- The lock-related fields of `btree_transaction`. -/
structure BtreeTransaction where
  endTime : Int
  waitingToRead : Option LockId
  waitingToWrite : Option LockId
  writeLocks : List LockId
  readLocks : List LockId
  deriving DecidableEq

/-- The locks `commit` and `rollback` still have to visit: those of the modified
nodes, then the rest of the write locks, then the read locks. -/
inductive EndStage where
  | modifications (rest : List LockId)
  | writes (rest : List LockId)
  | reads (rest : List LockId)
  deriving DecidableEq

/-- Where the thread of a transaction stands between two critical sections. -/
inductive Phase where
  | unborn
  | running
  | waiting (lock : LockId) (write : Bool)
  | ending (stage : EndStage)
  | ended
  deriving DecidableEq

/-- `btree_environment`: the list of active transactions, and the transactions and
locks behind their pointers. -/
structure Environment where
  transactions : List TxnId
  txn : TxnId → BtreeTransaction
  lock : LockId → BtreeLock
  phase : TxnId → Phase

namespace Environment

/-- An environment without transactions, all of its locks free. -/
def empty : Environment where
  transactions := []
  txn := fun _ => ⟨0, none, none, [], []⟩
  lock := fun _ => ⟨none, []⟩
  phase := fun _ => .unborn

def modifyTxn (env : Environment) (btx : TxnId)
    (change : BtreeTransaction → BtreeTransaction) : Environment :=
  { env with txn := fun other =>
      if other = btx then change (env.txn btx) else env.txn other }

def modifyLock (env : Environment) (lock : LockId) (change : BtreeLock → BtreeLock) :
    Environment :=
  { env with lock := fun other =>
      if other = lock then change (env.lock lock) else env.lock other }

def setPhase (env : Environment) (btx : TxnId) (phase : Phase) : Environment :=
  { env with phase := fun other => if other = btx then phase else env.phase other }

/-- Record the transaction as a reader, in the lock and in the transaction. -/
def grantRead (env : Environment) (btx : TxnId) (lock : LockId) : Environment :=
  (env.modifyLock lock fun held => { held with readers := btx :: held.readers }).modifyTxn
    btx fun txn => { txn with readLocks := lock :: txn.readLocks }

/-- Record the transaction as the writer, in the lock and in the transaction. -/
def grantWrite (env : Environment) (btx : TxnId) (lock : LockId) : Environment :=
  (env.modifyLock lock fun held => { held with writer := some btx }).modifyTxn
    btx fun txn => { txn with writeLocks := lock :: txn.writeLocks }

def dropRead (env : Environment) (btx : TxnId) (lock : LockId) : Environment :=
  (env.modifyTxn btx fun txn => { txn with readLocks := txn.readLocks.erase lock }).modifyLock
    lock fun held => { held with readers := held.readers.erase btx }

def dropWrite (env : Environment) (btx : TxnId) (lock : LockId) : Environment :=
  (env.modifyTxn btx fun txn =>
    { txn with writeLocks := txn.writeLocks.erase lock }).modifyLock
    lock fun held => { held with writer := none }

end Environment

/-- `create_transaction`. -/
def createTransaction (env : Environment) (btx : TxnId) (endTime : Int) : Environment :=
  ({ env with transactions := btx :: env.transactions }.modifyTxn btx fun _ =>
    ⟨endTime, none, none, [], []⟩).setPhase btx .running

/-- `cleanup_transaction`. -/
def cleanupTransaction (env : Environment) (btx : TxnId) : Environment :=
  { env with transactions := env.transactions.erase btx }.setPhase btx .ended

/-- `check_tx_timeout`: true while the transaction still has time. -/
def checkTxTimeout (txn : BtreeTransaction) (now : Int) : Bool :=
  decide (txn.endTime > now)

/-- `competing_w_lock`, with the result of the `GCompareFunc` turned into a truth
value: some other listed transaction intends to write the lock. -/
def competingWLock (env : Environment) (lock : LockId) (self : TxnId)
    (ancestors : List TxnId) : Bool :=
  ancestors.any fun ancestor =>
    decide (ancestor ≠ self) && decide ((env.txn ancestor).waitingToWrite = some lock)

/-- `competing_rw_lock`: some listed transaction intends to read or write the lock. -/
def competingRwLock (env : Environment) (lock : LockId) (ancestors : List TxnId) : Bool :=
  ancestors.any fun ancestor =>
    decide ((env.txn ancestor).waitingToWrite = some lock) ||
      decide ((env.txn ancestor).waitingToRead = some lock)

/-- Whether a lock of the transaction is wanted by a transaction of the list. -/
def competing (env : Environment) (listed : List TxnId) (btx : TxnId) : Bool :=
  (env.txn btx).readLocks.any (fun lock => competingWLock env lock btx listed) ||
    (env.txn btx).writeLocks.any fun lock => competingRwLock env lock listed

/-- The inner loop of `lock_detect`.  The pointer into the list is an index, and
goes back to the head whenever a transaction is moved from the list to the queue. -/
def lockDetectScan (env : Environment) (listed : List TxnId) (position : Nat)
    (queue : List TxnId) (shouldContinue : Bool) : List TxnId × List TxnId × Bool :=
  if inside : position < listed.length then
    if competing env listed listed[position] then
      lockDetectScan env listed (position + 1) queue shouldContinue
    else
      lockDetectScan env (listed.erase listed[position]) 0 (listed[position] :: queue) true
  else
    (listed, queue, shouldContinue)
termination_by (listed.length, listed.length - position)
decreasing_by
  · apply Prod.Lex.right
    omega
  · apply Prod.Lex.left
    have removed := List.length_erase_of_mem (List.getElem_mem inside)
    omega

/-- A scan never grows the list, and shortens it whenever it asks for another. -/
theorem lockDetectScan_length (env : Environment) (listed : List TxnId) (position : Nat)
    (queue : List TxnId) (shouldContinue : Bool) :
    (lockDetectScan env listed position queue shouldContinue).1.length ≤ listed.length ∧
    ((lockDetectScan env listed position queue shouldContinue).2.2 = true → shouldContinue = true ∨
      (lockDetectScan env listed position queue shouldContinue).1.length < listed.length) := by
  fun_induction lockDetectScan env listed position queue shouldContinue with
  | case1 listed position queue shouldContinue inside wanted ih => exact ih
  | case2 listed position queue shouldContinue inside free ih =>
    have removed := List.length_erase_of_mem (List.getElem_mem inside)
    refine ⟨by omega, fun _ => .inr ?_⟩
    omega
  | case3 listed position queue shouldContinue outside =>
    exact ⟨Nat.le_refl _, fun flag => .inl flag⟩

/-- The outer loop of `lock_detect`. -/
def lockDetectLoop (env : Environment) (listed queue : List TxnId)
    (shouldContinue : Bool) : List TxnId × List TxnId :=
  if listed ≠ [] ∧ shouldContinue then
    let scanned := lockDetectScan env listed 0 queue false
    lockDetectLoop env scanned.1 scanned.2.1 scanned.2.2
  else
    (listed, queue)
termination_by (listed.length, shouldContinue.toNat)
decreasing_by
  have bound := lockDetectScan_length env listed 0 queue false
  rename_i entered
  cases again : (lockDetectScan env listed 0 queue false).2.2 with
  | false =>
      simp only [entered.2, Prod.lex_def]
      rcases Nat.lt_or_eq_of_le bound.1 with shorter | same
      · exact .inl shorter
      · exact .inr ⟨same, by decide⟩
  | true =>
      rcases bound.2 again with impossible | shorter
      · cases impossible
      · exact Prod.Lex.left _ _ shorter

/-- `lock_detect`. -/
def lockDetect (env : Environment) : Bool :=
  decide ((lockDetectLoop env env.transactions [] true).2.length ≠
    env.transactions.length)

/-- What a critical section tells its caller. -/
inductive Outcome where
  | held
  | granted
  | timedOut
  | deadlock
  | waits
  | done
  deriving DecidableEq

/-- The first part of `tx_lock`: unless the lock held is already sufficient,
declare the intent to lock.  An upgrade gives its read lock back first.  The flag
is `needs_lock`. -/
def txLockDeclare (env : Environment) (btx : TxnId) (lock : LockId) (write : Bool) :
    Option (Environment × Bool) :=
  if (env.txn btx).waitingToWrite = none ∧ (env.txn btx).waitingToRead = none then
    if write then
      if (env.lock lock).writer = some btx then
        some (env, false)
      else
        let declared := env.modifyTxn btx fun txn => { txn with waitingToWrite := some lock }
        if lock ∈ (env.txn btx).readLocks then
          if btx ∈ (env.lock lock).readers then
            some (declared.dropRead btx lock, true)
          else
            none
        else
          some (declared, true)
    else if (env.lock lock).writer = some btx ∨ lock ∈ (env.txn btx).readLocks then
      some (env, false)
    else
      some (env.modifyTxn btx fun txn => { txn with waitingToRead := some lock }, true)
  else
    none

/-- The end of `tx_lock`: clear the intent. -/
def txLockClear (env : Environment) (btx : TxnId) (write : Bool) : Environment :=
  env.modifyTxn btx fun txn =>
    if write then { txn with waitingToWrite := none }
    else { txn with waitingToRead := none }

/-- The lock is free for the requested use. -/
def available (env : Environment) (lock : LockId) (write : Bool) : Bool :=
  decide ((env.lock lock).writer = none) &&
    (!write || decide ((env.lock lock).readers = []))

/-- One round of the loop of `tx_lock`, from the check of the timeout to the wait
or the return. -/
def txLockAttempt (env : Environment) (btx : TxnId) (lock : LockId) (write : Bool)
    (now : Int) : Environment × Outcome :=
  if checkTxTimeout (env.txn btx) now then
    if available env lock write then
      let granted := if write then env.grantWrite btx lock else env.grantRead btx lock
      ((txLockClear granted btx write).setPhase btx .running, .granted)
    else if lockDetect env then
      ((txLockClear env btx write).setPhase btx .running, .deadlock)
    else
      (env.setPhase btx (.waiting lock write), .waits)
  else
    ((txLockClear env btx write).setPhase btx .running, .timedOut)

/-- `tx_lock` up to its return or its first wait. -/
def txLock (env : Environment) (btx : TxnId) (lock : LockId) (write : Bool) (now : Int) :
    Option (Environment × Outcome) :=
  match txLockDeclare env btx lock write with
  | none => none
  | some (declared, false) => some (txLockClear declared btx write, .held)
  | some (declared, true) => some (txLockAttempt declared btx lock write now)

/-- `tx_unlock`. -/
def txUnlock (env : Environment) (lock : LockId) (btx : TxnId) : Option Environment :=
  if (env.lock lock).writer = some btx then
    if lock ∈ (env.txn btx).writeLocks then some (env.dropWrite btx lock) else none
  else if lock ∈ (env.txn btx).readLocks ∧ btx ∈ (env.lock lock).readers then
    some (env.dropRead btx lock)
  else
    none

inductive Action where
  | begin (btx : TxnId) (endTime : Int)
  | lock (btx : TxnId) (lock : LockId) (write : Bool) (now : Int)
  | wake (btx : TxnId) (now : Int)
  | commit (btx : TxnId) (modifications : List LockId)
  | rollback (btx : TxnId) (modifications : List LockId)
  | release (btx : TxnId)
  deriving DecidableEq

/-- One more turn of the loops by which `commit` and `rollback` give the locks
back.  `apply_modification` and `rollback_modification` insist on the write lock
of the node. -/
def releaseNext (env : Environment) (btx : TxnId) : EndStage → Option Environment
  | .modifications (lock :: rest) =>
      if (env.lock lock).writer = some btx then
        (txUnlock env lock btx).map fun unlocked =>
          unlocked.setPhase btx (.ending (.modifications rest))
      else
        none
  | .modifications [] =>
      some (env.setPhase btx (.ending (.writes (env.txn btx).writeLocks)))
  | .writes (lock :: rest) =>
      (txUnlock env lock btx).map fun unlocked =>
        unlocked.setPhase btx (.ending (.writes rest))
  | .writes [] => some (env.setPhase btx (.ending (.reads (env.txn btx).readLocks)))
  | .reads (lock :: rest) =>
      (txUnlock env lock btx).map fun unlocked =>
        unlocked.setPhase btx (.ending (.reads rest))
  | .reads [] => some (cleanupTransaction env btx)

/-- One critical section of the environment mutex. -/
def lockStep (env : Environment) : Action → Option (Environment × Outcome)
  | .begin btx endTime =>
      if env.phase btx = .unborn then some (createTransaction env btx endTime, .done)
      else none
  | .lock btx lock write now =>
      if env.phase btx = .running then txLock env btx lock write now else none
  | .wake btx now =>
      match env.phase btx with
      | .waiting lock write => some (txLockAttempt env btx lock write now)
      | _ => none
  | .commit btx modifications | .rollback btx modifications =>
      if env.phase btx = .running then
        some (env.setPhase btx (.ending (.modifications modifications)), .done)
      else none
  | .release btx =>
      match env.phase btx with
      | .ending stage => (releaseNext env btx stage).map fun next => (next, .done)
      | _ => none

variable {env next : Environment} {btx : TxnId} {lock : LockId} {write : Bool}

/-- The ways in which an intent is declared. -/
inductive Declares (env : Environment) (btx : TxnId) (lock : LockId) :
    Bool → Environment → Bool → Prop where
  | sufficient {write : Bool} (holds : (env.lock lock).writer = some btx ∨
      (write = false ∧ lock ∈ (env.txn btx).readLocks)) : Declares env btx lock write env false
  | read (unowned : (env.lock lock).writer ≠ some btx) (unread : lock ∉ (env.txn btx).readLocks) :
      Declares env btx lock false
        (env.modifyTxn btx fun txn => { txn with waitingToRead := some lock }) true
  | write (unowned : (env.lock lock).writer ≠ some btx) (unread : lock ∉ (env.txn btx).readLocks) :
      Declares env btx lock true
        (env.modifyTxn btx fun txn => { txn with waitingToWrite := some lock }) true
  | upgrade (unowned : (env.lock lock).writer ≠ some btx) (reads : lock ∈ (env.txn btx).readLocks) :
      Declares env btx lock true
        ((env.modifyTxn btx fun txn => { txn with waitingToWrite := some lock }).dropRead btx lock)
        true

theorem declares_of_txLockDeclare {needsLock : Bool}
    (declared : txLockDeclare env btx lock write = some (next, needsLock)) :
    Declares env btx lock write next needsLock := by
  simp only [txLockDeclare, ite_none_right_eq_some] at declared
  obtain ⟨_, declared⟩ := declared
  cases write with
  | true =>
    simp only [if_true] at declared
    split at declared
    next owner =>
      cases declared
      exact .sufficient (.inl owner)
    next unowned =>
      split at declared
      next reads =>
        obtain ⟨_, declared⟩ := ite_none_right_eq_some.mp declared
        cases declared
        exact .upgrade unowned reads
      next unread =>
        cases declared
        exact .write unowned unread
  | false =>
    simp only [Bool.false_eq_true, if_false] at declared
    split at declared
    next holds =>
      cases declared
      exact .sufficient (holds.imp_right fun reads => ⟨rfl, reads⟩)
    next lacking =>
      cases declared
      obtain ⟨unowned, unread⟩ := not_or.mp lacking
      exact .read unowned unread

/-- A turn of the loops that give locks back unlocks one lock, or none. -/
theorem releaseNext_cases {stage : EndStage} (released : releaseNext env btx stage = some next) :
    next = cleanupTransaction env btx ∨ (∃ stage, next = env.setPhase btx (.ending stage)) ∨
      ∃ lock unlocked stage, txUnlock env lock btx = some unlocked ∧
        next = unlocked.setPhase btx (.ending stage) := by
  have loop : ∀ {lock stage}, ((txUnlock env lock btx).map fun unlocked =>
      unlocked.setPhase btx (.ending stage)) = some next →
      ∃ lock unlocked stage, txUnlock env lock btx = some unlocked ∧
        next = unlocked.setPhase btx (.ending stage) := by
    intro lock stage turn
    obtain ⟨unlocked, taken, same⟩ := map_eq_some_iff.mp turn
    exact ⟨lock, unlocked, stage, taken, same.symm⟩
  match stage with
  | .modifications [] | .writes [] => exact .inr (.inl ⟨_, (Option.some.inj released).symm⟩)
  | .reads [] => exact .inl (Option.some.inj released).symm
  | .modifications (lock :: rest) =>
    obtain ⟨_, turn⟩ := ite_none_right_eq_some.mp released
    exact .inr (.inr (loop turn))
  | .writes (lock :: rest) | .reads (lock :: rest) => exact .inr (.inr (loop released))

/-- The ways in which a critical section is passed. -/
inductive Steps (env : Environment) : Action → Environment → Outcome → Prop where
  | begin {btx : TxnId} {endTime : Int} (unborn : env.phase btx = .unborn) :
      Steps env (.begin btx endTime) (createTransaction env btx endTime) .done
  | held {btx : TxnId} {lock : LockId} {write : Bool} {now : Int} {declared : Environment}
      (running : env.phase btx = .running)
      (equal : txLockDeclare env btx lock write = some (declared, false)) :
      Steps env (.lock btx lock write now) (txLockClear declared btx write) .held
  | asked {btx : TxnId} {lock : LockId} {write : Bool} {now : Int} {declared next : Environment}
      {outcome : Outcome} (running : env.phase btx = .running)
      (equal : txLockDeclare env btx lock write = some (declared, true))
      (attempted : txLockAttempt declared btx lock write now = (next, outcome)) :
      Steps env (.lock btx lock write now) next outcome
  | woken {btx : TxnId} {lock : LockId} {write : Bool} {now : Int} {next : Environment}
      {outcome : Outcome} (waits : env.phase btx = .waiting lock write)
      (attempted : txLockAttempt env btx lock write now = (next, outcome)) :
      Steps env (.wake btx now) next outcome
  | commit {btx : TxnId} {modifications : List LockId} (running : env.phase btx = .running) :
      Steps env (.commit btx modifications)
        (env.setPhase btx (.ending (.modifications modifications))) .done
  | rollback {btx : TxnId} {modifications : List LockId} (running : env.phase btx = .running) :
      Steps env (.rollback btx modifications)
        (env.setPhase btx (.ending (.modifications modifications))) .done
  | release {btx : TxnId} {stage : EndStage} {next : Environment}
      (ending : env.phase btx = .ending stage) (released : releaseNext env btx stage = some next) :
      Steps env (.release btx) next .done

theorem steps_of_lockStep {action : Action} {outcome : Outcome}
    (taken : lockStep env action = some (next, outcome)) : Steps env action next outcome := by
  cases action with
  | begin btx endTime =>
    obtain ⟨unborn, same⟩ := ite_none_right_eq_some.mp taken
    cases same
    exact .begin unborn
  | lock btx lock write now =>
    obtain ⟨running, taken⟩ := ite_none_right_eq_some.mp taken
    unfold txLock at taken
    split at taken
    next => cases taken
    next declared equal =>
      cases taken
      exact .held running equal
    next declared equal => exact .asked running equal (Option.some.inj taken)
  | wake btx now =>
    simp only [lockStep] at taken
    split at taken
    next lock write waits => exact .woken waits (Option.some.inj taken)
    next => cases taken
  | commit btx modifications =>
    obtain ⟨running, same⟩ := ite_none_right_eq_some.mp taken
    cases same
    exact .commit running
  | rollback btx modifications =>
    obtain ⟨running, same⟩ := ite_none_right_eq_some.mp taken
    cases same
    exact .rollback running
  | release btx =>
    simp only [lockStep] at taken
    split at taken
    next stage ending =>
      obtain ⟨released, equal, pair⟩ := map_eq_some_iff.mp taken
      cases pair
      exact .release ending equal
    next => cases taken

/-- Everything the lock manager can go through, over any interleaving. -/
abbrev LockRun := Lib.Run lockStep Lib.anyAction Environment.empty

/-- The states the lock manager can reach. -/
def LockReachable (env : Environment) : Prop := ∃ trace, LockRun trace env

end Gzochi.StorageMem
