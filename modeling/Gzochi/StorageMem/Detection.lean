import Gzochi.Lib.Acyclic
import Gzochi.StorageMem.LockInvariant

/-!
# Deadlock detection

`lock_detect` sorts the transactions of an environment topologically.  What it sorts
by is not quite the waits-for graph: a transaction never competes with itself for a
lock it reads, since `tx_lock` gives a read lock back before it declares the intent
to write.  The loops are total, and they leave a transaction over exactly when the
relation they sort by has a cycle.
-/

namespace Gzochi.StorageMem

open Environment Lib List

/-- One transaction intends to write a lock the other holds for reading or writing,
or to read a lock the other holds for writing. -/
def Conflicts (env : Environment) (btx holder : TxnId) : Prop :=
  ∃ lock,
    ((env.txn btx).waitingToWrite = some lock ∧
      (lock ∈ (env.txn holder).readLocks ∨ lock ∈ (env.txn holder).writeLocks)) ∨
    ((env.txn btx).waitingToRead = some lock ∧ lock ∈ (env.txn holder).writeLocks)

/-- The edges `lock_detect` sorts by: the conflicts, except those of a transaction with
itself over a lock it holds for reading only. -/
def Competes (env : Environment) (btx holder : TxnId) : Prop :=
  ∃ lock,
    (btx ≠ holder ∧ (env.txn btx).waitingToWrite = some lock ∧
      lock ∈ (env.txn holder).readLocks) ∨
    (((env.txn btx).waitingToWrite = some lock ∨ (env.txn btx).waitingToRead = some lock) ∧
      lock ∈ (env.txn holder).writeLocks)

/-- A relation, between the transactions of the environment only. -/
def Listed (env : Environment) (relation : TxnId → TxnId → Prop) (first second : TxnId) :
    Prop :=
  first ∈ env.transactions ∧ second ∈ env.transactions ∧ relation first second

/-- The transaction does not hold for reading what it intends to write. -/
def Upgraded (env : Environment) (btx : TxnId) : Prop :=
  ∀ lock, (env.txn btx).waitingToWrite = some lock → lock ∉ (env.txn btx).readLocks

variable {env : Environment} {btx : TxnId} {lock : LockId} {write : Bool}

theorem Competes.conflicts {first second : TxnId} (competes : Competes env first second) :
    Conflicts env first second := by
  obtain ⟨lock, ⟨_, intent, reads⟩ | ⟨intent | intent, writes⟩⟩ := competes
  · exact ⟨lock, .inl ⟨intent, .inl reads⟩⟩
  · exact ⟨lock, .inl ⟨intent, .inr writes⟩⟩
  · exact ⟨lock, .inr ⟨intent, writes⟩⟩

theorem Conflicts.competes {first second : TxnId} (conflicts : Conflicts env first second)
    (upgraded : Upgraded env first) : Competes env first second := by
  obtain ⟨lock, ⟨intent, reads | writes⟩ | ⟨intent, writes⟩⟩ := conflicts
  · have different : first ≠ second := by
      intro same
      subst same
      exact upgraded lock intent reads
    exact ⟨lock, .inl ⟨different, intent, reads⟩⟩
  · exact ⟨lock, .inr ⟨.inl intent, writes⟩⟩
  · exact ⟨lock, .inr ⟨.inr intent, writes⟩⟩

/-! ## The topological sort -/

/-- The two predicates of the scan together: some listed transaction competes with this
one for a lock it holds. -/
theorem competing_iff {listed : List TxnId} {holder : TxnId} :
    competing env listed holder = true ↔ ∃ other ∈ listed, Competes env other holder := by
  simp only [competing, competingWLock, competingRwLock, Bool.or_eq_true, any_eq_true,
    Bool.and_eq_true, decide_eq_true_eq]
  constructor
  · rintro (⟨lock, reads, other, member, different, intent⟩ | ⟨lock, writes, other, member, intent⟩)
    · exact ⟨other, member, lock, .inl ⟨different, intent, reads⟩⟩
    · exact ⟨other, member, lock, .inr ⟨intent, writes⟩⟩
  · rintro ⟨other, member, lock, ⟨different, intent, reads⟩ | ⟨intent, writes⟩⟩
    · exact .inl ⟨lock, reads, other, member, different, intent⟩
    · exact .inr ⟨lock, writes, other, member, intent⟩

/-- A scan moves transactions from the list to the queue, each at a moment when
nobody left on the list competes with it. -/
theorem lockDetectScan_peels (env : Environment) (listed : List TxnId) (position : Nat)
    (queue : List TxnId) (shouldContinue : Bool) :
    (lockDetectScan env listed position queue shouldContinue).1.length +
        (lockDetectScan env listed position queue shouldContinue).2.1.length =
      listed.length + queue.length ∧
    (Peels (Competes env) (lockDetectScan env listed position queue shouldContinue).1 →
      Peels (Competes env) listed) := by
  fun_induction lockDetectScan env listed position queue shouldContinue with
  | case1 listed position queue shouldContinue inside wanted ih => exact ih
  | case2 listed position queue shouldContinue inside free ih =>
    have member := getElem_mem inside
    have removed := length_erase_of_mem member
    have present : 0 < listed.length := by omega
    constructor
    · rw [ih.1, removed, length_cons]
      omega
    · intro peels
      apply Peels.erase member ?_ (ih.2 peels)
      intro other remaining competes
      exact free (competing_iff.mpr ⟨other, remaining, competes⟩)
  | case3 listed position queue shouldContinue outside => exact ⟨rfl, id⟩

theorem lockDetectLoop_peels (env : Environment) (listed queue : List TxnId)
    (shouldContinue : Bool) :
    (lockDetectLoop env listed queue shouldContinue).1.length +
        (lockDetectLoop env listed queue shouldContinue).2.length =
      listed.length + queue.length ∧
    (Peels (Competes env) (lockDetectLoop env listed queue shouldContinue).1 →
      Peels (Competes env) listed) := by
  fun_induction lockDetectLoop env listed queue shouldContinue with
  | case1 listed queue shouldContinue entered scanned ih =>
    have scan := lockDetectScan_peels env listed 0 queue false
    exact ⟨ih.1.trans scan.1, fun peels => scan.2 (ih.2 peels)⟩
  | case2 listed queue shouldContinue left => exact ⟨rfl, id⟩

/-- A scan that asks for no other has taken nothing away: somebody competes with every
transaction from its position on. -/
theorem lockDetectScan_stuck (env : Environment) (listed : List TxnId) (position : Nat)
    (queue : List TxnId) (shouldContinue : Bool) :
    (lockDetectScan env listed position queue shouldContinue).1 ⊆ listed ∧
    ((lockDetectScan env listed position queue shouldContinue).2.2 = false →
      shouldContinue = false ∧
      (lockDetectScan env listed position queue shouldContinue).1 = listed ∧
      ∀ holder ∈ listed.drop position, competing env listed holder = true) := by
  fun_induction lockDetectScan env listed position queue shouldContinue with
  | case1 listed position queue shouldContinue inside wanted ih =>
    refine ⟨ih.1, fun stopped => ?_⟩
    obtain ⟨flag, same, rest⟩ := ih.2 stopped
    refine ⟨flag, same, ?_⟩
    intro holder member
    rw [drop_eq_getElem_cons inside, mem_cons] at member
    rcases member with here | later
    · exact here ▸ wanted
    · exact rest holder later
  | case2 listed position queue shouldContinue inside free ih =>
    constructor
    · exact List.Subset.trans ih.1 erase_subset
    · intro stopped
      cases (ih.2 stopped).1
  | case3 listed position queue shouldContinue outside =>
    refine ⟨List.Subset.refl _, fun stopped => ⟨stopped, rfl, ?_⟩⟩
    rw [drop_eq_nil_of_le (Nat.le_of_not_lt outside)]
    simp

/-- Whatever the outer loop leaves over has a competitor that is left over as well. -/
theorem lockDetectLoop_stuck (env : Environment) (listed queue : List TxnId) (shouldContinue : Bool)
    (stuck : shouldContinue = false → ∀ holder ∈ listed, competing env listed holder = true) :
    (lockDetectLoop env listed queue shouldContinue).1 ⊆ listed ∧
    ∀ holder ∈ (lockDetectLoop env listed queue shouldContinue).1,
      competing env (lockDetectLoop env listed queue shouldContinue).1 holder = true := by
  fun_induction lockDetectLoop env listed queue shouldContinue with
  | case1 listed queue shouldContinue entered scanned ih =>
    have scan := lockDetectScan_stuck env listed 0 queue false
    have rest := ih (by
      intro stopped
      obtain ⟨-, same, every⟩ := scan.2 stopped
      rw [drop_zero] at every
      simpa only [scanned, same] using every)
    exact ⟨List.Subset.trans rest.1 scan.1, rest.2⟩
  | case2 listed queue shouldContinue left =>
    refine ⟨List.Subset.refl _, ?_⟩
    rcases Classical.em (listed = []) with emptied | remaining
    · simp [emptied]
    · apply stuck
      simpa [remaining] using left

/-- What `lock_detect` computes: whether its loops leave a transaction over. -/
theorem lockDetect_eq_true :
    lockDetect env = true ↔ (lockDetectLoop env env.transactions [] true).1 ≠ [] := by
  have total := (lockDetectLoop_peels env env.transactions [] true).1
  rw [length_nil] at total
  rw [lockDetect, decide_eq_true_eq, not_iff_not, ← length_eq_zero_iff]
  omega

/-- When `lock_detect` finds nothing, no transaction of the environment competes with
itself through others. -/
theorem acyclic_of_undetected (undetected : lockDetect env = false) :
    Acyclic (Listed env (Competes env)) := by
  have emptied : (lockDetectLoop env env.transactions [] true).1 = [] := by
    by_contra remaining
    rw [lockDetect_eq_true.mpr remaining] at undetected
    cases undetected
  apply Peels.acyclic
  apply (lockDetectLoop_peels env env.transactions [] true).2
  rw [emptied]
  exact .nil

/-- What `lock_detect` leaves over contains a cycle. -/
theorem cyclic_of_detected (detected : lockDetect env = true) :
    ¬Acyclic (Listed env (Competes env)) := by
  intro acyclic
  have remaining := lockDetect_eq_true.mp detected
  obtain ⟨inside, wanted⟩ :=
    lockDetectLoop_stuck env env.transactions [] true (by simp)
  obtain ⟨holder, member, free⟩ := acyclic.exists_free remaining
  obtain ⟨other, left, competes⟩ := competing_iff.mp (wanted holder member)
  exact free other left ⟨inside left, inside member, competes⟩

/-- With every intended lock given back, conflicts are all there is to compete for. -/
theorem acyclic_conflicts_iff (upgraded : ∀ txn ∈ env.transactions, Upgraded env txn) :
    Acyclic (Listed env (Conflicts env)) ↔ Acyclic (Listed env (Competes env)) := by
  constructor
  · intro acyclic
    exact acyclic.mono fun first second edge => ⟨edge.1, edge.2.1, edge.2.2.conflicts⟩
  · intro acyclic
    exact acyclic.mono fun first second edge =>
      ⟨edge.1, edge.2.1, edge.2.2.competes (upgraded first edge.1)⟩

/-! ## Where it runs -/

/-- Once a transaction has declared its intent, no transaction of the environment
holds for reading what it intends to write. -/
theorem Requesting.upgraded (requesting : Requesting env btx lock write) (txn : TxnId) :
    Upgraded env txn := by
  have silent : ∀ {phase}, PhaseOk (env.txn txn) phase → Upgraded env txn := by
    intro phase standing held intent
    match phase with
    | .running | .ending (.modifications _) =>
      rw [standing.2] at intent
      cases intent
    | .unborn | .ended | .ending (.writes _) | .ending (.reads _) | .waiting _ false =>
      rw [standing.2.1] at intent
      cases intent
    | .waiting _ true =>
      rw [standing.2.1] at intent
      cases intent
      exact standing.2.2.1
  rcases Classical.em (txn = btx) with same | different
  · subst same
    exact silent requesting.intent
  · exact silent (requesting.others txn different)

/-- `lock_detect` answers whether the relation it sorts by has a cycle, in any
assignment of held and intended locks.  It answers the same about the waits-for graph
where nobody reads what it intends to write, which is so whenever `tx_lock` runs it,
before the first wait or after a wakeup. -/
theorem lockDetect_iff_cycle :
    (∀ env, lockDetect env = true ↔ ¬Acyclic (Listed env (Competes env))) ∧
    (∀ env, (∀ txn ∈ env.transactions, Upgraded env txn) →
      (lockDetect env = true ↔ ¬Acyclic (Listed env (Conflicts env)))) ∧
    (∀ env, LockReachable env → ∀ btx lock write declared, (env.phase btx = .running ∧
          txLockDeclare env btx lock write = some (declared, true)) ∨
        (env.phase btx = .waiting lock write ∧ declared = env) →
      (lockDetect declared = true ↔ ¬Acyclic (Listed declared (Conflicts declared)))) := by
  have competition : ∀ env, lockDetect env = true ↔ ¬Acyclic (Listed env (Competes env)) := by
    intro env
    constructor
    · exact cyclic_of_detected
    · intro cyclic
      by_contra undetected
      exact cyclic (acyclic_of_undetected (by simpa using undetected))
  have conflict : ∀ env, (∀ txn ∈ env.transactions, Upgraded env txn) →
      (lockDetect env = true ↔ ¬Acyclic (Listed env (Conflicts env))) := by
    intro env upgraded
    rw [acyclic_conflicts_iff upgraded]
    exact competition env
  refine ⟨competition, conflict, ?_⟩
  intro env reachable btx lock write declared place
  have consistent := reachable.consistent
  have requesting : Requesting declared btx lock write := by
    rcases place with ⟨running, equal⟩ | ⟨waits, same⟩
    · rcases txLockDeclare_spec consistent running equal with ⟨flag, _⟩ | ⟨_, requesting⟩
      · cases flag
      · exact requesting
    · subst same
      exact consistent.requesting waits
  exact conflict declared fun txn _ => requesting.upgraded txn

/-- A transaction holding one lock for reading, with the intent to write it. -/
def upgrading : Environment where
  transactions := [1]
  txn := fun _ => ⟨0, none, some 5, [], [5]⟩
  lock := fun _ => ⟨none, [1]⟩
  phase := fun _ => .running

/-- In the waits-for graph that transaction waits for itself, which is no deadlock to
`lock_detect`. -/
theorem upgrading_undetected :
    ¬∀ env, lockDetect env = true ↔ ¬Acyclic (Listed env (Conflicts env)) := by
  intro claimed
  have cycle : ¬Acyclic (Listed upgrading (Conflicts upgrading)) := by
    intro acyclic
    apply acyclic 1
    exact .single ⟨by decide, by decide, 5, .inl ⟨rfl, .inl (by decide)⟩⟩
  have detected := (claimed upgrading).mpr cycle
  apply cyclic_of_detected detected
  apply Acyclic.of_empty
  rintro first second ⟨left, right, lock, ⟨different, -, -⟩ | ⟨-, writes⟩⟩
  · simp only [upgrading, mem_singleton] at left right
    exact different (left.trans right.symm)
  · simp [upgrading] at writes

/-- Of two transactions, one wants what the other holds and nobody wants anything of
the first: detection lets both of them pass. -/
theorem lockDetect_pair {env : Environment} {holder waiter : TxnId}
    (listed : env.transactions = [holder, waiter])
    (wanted : competing env [holder, waiter] holder = true)
    (unwanted : competing env [holder, waiter] waiter = false)
    (alone : competing env [holder] holder = false) : lockDetect env = false := by
  have different : waiter ≠ holder := by
    intro same
    subst same
    rw [wanted] at unwanted
    cases unwanted
  have scan : lockDetectScan env [holder, waiter] 0 [] false = ([], [holder, waiter], true) := by
    repeat (
      rw [lockDetectScan]
      simp [wanted, unwanted, alone, different.symm])
  rw [lockDetect, listed, lockDetectLoop]
  simp only [ne_eq, reduceCtorEq, not_false_eq_true, and_self, if_true, scan]
  rw [lockDetectLoop]
  simp

end Gzochi.StorageMem
