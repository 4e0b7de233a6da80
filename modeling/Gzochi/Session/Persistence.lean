import Gzochi.AppTask.Attempts

/-!
# Persisting a session

A session is stored and bound to a name in a transaction that may be attempted several times.
What the caller is told comes from a holder that every attempt writes to, whatever becomes of
its transaction.
-/

namespace Gzochi.Session.Persistence

open AppTask

universe u

/-- `gzochid_oid_holder`. -/
structure OidHolder (Error : Type u) where
  oid : Nat := 0
  err : Option Error := none

/-- What an attempt does before its transaction ends: it fails to store the session, fails to
bind it, or does both. -/
inductive Work (Error : Type u)
  | notStored (error : Error)
  | notBound (oid : Nat) (error : Error)
  | bound (oid : Nat)

variable {Error : Type u}

/-- `persistence_task_worker`.  `g_propagate_error` keeps an error that is there. -/
def persistenceTaskWorker (holder : OidHolder Error) : Work Error → OidHolder Error
  | .notStored error => { holder with err := holder.err.or (some error) }
  | .notBound oid error => { oid := oid, err := some error }
  | .bound oid => { oid := oid }

/-- The number of attempts that the re-executing worker makes of the persistence task, which
has a task that cleans up and none that catches. -/
def attemptsMade (outcomes : Nat → Outcome) : Nat :=
  (reexecute (gzochidTransactionalApplicationTaskExecutionNew () none (some ()))
    outcomes).2.1.attempts

/-- `gzochid_client_session_persist`, after the task has been run. -/
def gzochidClientSessionPersist (works : Nat → Work Error) (outcomes : Nat → Outcome) :
    Except Error Nat :=
  let holder := (List.range (attemptsMade outcomes)).foldl
    (fun holder index => persistenceTaskWorker holder (works index)) {}
  match holder.err with
  | some error => .error error
  | none => .ok holder.oid

variable (works : Nat → Work Error) (outcomes : Nat → Outcome)

/-- An attempt has committed a session and its binding. -/
def Committed (index oid : Nat) : Prop :=
  index < attemptsMade outcomes ∧ works index = .bound oid ∧ outcomes index = .success

/-- The caller is told of an error exactly when nothing has been committed, and otherwise the
oid that has been. -/
def Truthful : Prop :=
  ((∃ error, gzochidClientSessionPersist works outcomes = .error error) ↔
    ∀ index oid, ¬ Committed works outcomes index oid) ∧
  ∀ oid, gzochidClientSessionPersist works outcomes = .ok oid →
    ∃ index, Committed works outcomes index oid

/-- An attempt is reached, and none follows it. -/
structure Last (index : Nat) : Prop where
  retried : ∀ earlier < index, (outcomes earlier).result = .shouldRetry
  within : index < maxAttemptsDefault
  exhausted : (outcomes index).result = .shouldRetry → index + 1 = maxAttemptsDefault

theorem exists_last : ∃ last, Last outcomes last ∧ attemptsMade outcomes = last + 1 := by
  obtain ⟨last, before, within, exhausted, _, after⟩ := reexecute_spec
    (gzochidTransactionalApplicationTaskExecutionNew () none (some ())) outcomes (Nat.succ_pos 2)
  have made := congrArg Execution.attempts after
  simp only [gzochidTransactionalApplicationTaskExecutionNew, executionNew,
    Nat.zero_add] at within exhausted made
  exact ⟨last, ⟨before, within, exhausted⟩, made⟩

variable {works outcomes}

/-- Only the last attempt may commit. -/
theorem Last.committed_iff {last : Nat} (isLast : Last outcomes last)
    (made : attemptsMade outcomes = last + 1) (index oid : Nat) :
    Committed works outcomes index oid ↔
      index = last ∧ works last = .bound oid ∧ outcomes last = .success := by
  constructor
  · rintro ⟨inside, bound, committed⟩
    have same : index = last := by
      by_contra different
      have retried := isLast.retried index (by omega)
      rw [committed] at retried
      cases retried
    exact ⟨same, same ▸ bound, same ▸ committed⟩
  · rintro ⟨rfl, bound, committed⟩
    exact ⟨made ▸ Nat.lt_succ_self index, bound, committed⟩

/-- The holder has what the last attempt has written to it. -/
theorem persist_ok_iff {last : Nat} (made : attemptsMade outcomes = last + 1) (oid : Nat) :
    gzochidClientSessionPersist works outcomes = .ok oid ↔ works last = .bound oid := by
  rw [gzochidClientSessionPersist, made, List.range_succ, List.foldl_append]
  cases work : works last with
  | notStored | notBound | bound => simp [persistenceTaskWorker, work]

/-- What the caller is told is right unless the last attempt has stored and bound the session
and its transaction is then rolled back. -/
theorem persist_truthful_iff (works : Nat → Work Error) (outcomes : Nat → Outcome) :
    Truthful works outcomes ↔
      ∀ last, Last outcomes last → outcomes last ≠ .success → ∀ oid, works last ≠ .bound oid := by
  obtain ⟨final, isLast, made⟩ := exists_last outcomes
  have only : ∀ last, Last outcomes last → last = final := by
    intro last other
    rcases Nat.lt_trichotomy last final with before | same | after
    · have reached := other.exhausted (isLast.retried last before)
      exact absurd isLast.within (by omega)
    · exact same
    · have reached := isLast.exhausted (other.retried final after)
      exact absurd other.within (by omega)
  have failed_iff : (∃ error, gzochidClientSessionPersist works outcomes = .error error) ↔
      ∀ oid, works final ≠ .bound oid := by
    simp only [ne_eq, ← persist_ok_iff made]
    cases gzochidClientSessionPersist works outcomes <;> simp
  constructor
  · rintro ⟨_, committed⟩ last other failed oid bound
    cases only last other
    obtain ⟨index, done⟩ := committed oid ((persist_ok_iff made oid).mpr bound)
    exact failed ((isLast.committed_iff made index oid).mp done).2.2
  · intro condition
    have succeeds : ∀ oid, works final = .bound oid → outcomes final = .success :=
      fun oid bound => by_contra fun failed => condition final isLast failed oid bound
    simp only [Truthful, isLast.committed_iff made, persist_ok_iff made, failed_iff]
    constructor
    · constructor
      · rintro unbound index oid ⟨_, bound, _⟩
        exact unbound oid bound
      · exact fun nothing oid bound => nothing final oid ⟨rfl, bound, succeeds oid bound⟩
    · exact fun oid bound => ⟨final, rfl, bound, succeeds oid bound⟩

/-- The only attempt stores and binds the session and is rolled back for good. -/
theorem rolled_back_session_returned :
    ¬ Truthful (fun _ => .bound 7 : Nat → Work Unit) fun _ => .fatal := by
  obtain ⟨last, isLast, made⟩ := exists_last fun _ => .fatal
  intro truthful
  obtain ⟨index, _, _, committed⟩ := truthful.2 7 ((persist_ok_iff made 7).mpr rfl)
  cases committed

end Gzochi.Session.Persistence
