import Mathlib.Data.List.Nodup
import Mathlib.Data.List.Count

/-!
# Thread-local transactions

The transaction coordinator of `tx.c`.  Participants join the transaction of the
current thread, may mark it for rollback while it runs, and are prepared and then
committed or rolled back when it ends.

A participant's callbacks are code of other modules.  A prepare callback is
described by what it does when it is called: the marks for rollback it makes and
the value it returns.  Commit and rollback callbacks are function pointers that
may be `NULL`; calling a `NULL` pointer ends the process.
-/

namespace Gzochi.Tx

/-- A normalized `struct timeval`, as `gettimeofday` and `timersub` produce it. -/
structure Timeval where
  tvSec : Int
  tvUsec : Int
  usec_nonneg : 0 ≤ tvUsec
  usec_lt : tvUsec < 1000000
  deriving DecidableEq

namespace Timeval

def zero : Timeval := ⟨0, 0, by decide, by decide⟩

/-- The number of microseconds a `timeval` stands for. -/
def micros (time : Timeval) : Int := time.tvSec * 1000000 + time.tvUsec

/-- `timersub`, with its borrow from the seconds. -/
def timersub (left right : Timeval) : Timeval :=
  if borrow : left.tvUsec - right.tvUsec < 0 then
    ⟨left.tvSec - right.tvSec - 1, left.tvUsec - right.tvUsec + 1000000,
      by have := left.usec_nonneg; have := right.usec_lt; omega, by omega⟩
  else
    ⟨left.tvSec - right.tvSec, left.tvUsec - right.tvUsec,
      by omega, by have := left.usec_lt; have := right.usec_nonneg; omega⟩

/-- `timercmp (left, right, >)`. -/
def timerGt (left right : Timeval) : Bool :=
  if left.tvSec = right.tvSec then
    decide (left.tvUsec > right.tvUsec)
  else
    decide (left.tvSec > right.tvSec)

@[simp] theorem micros_timersub (left right : Timeval) :
    (timersub left right).micros = left.micros - right.micros := by
  unfold timersub micros
  split <;> simp only <;> omega

theorem timerGt_iff (left right : Timeval) :
    timerGt left right = true ↔ right.micros < left.micros := by
  have leftNonneg := left.usec_nonneg
  have leftLt := left.usec_lt
  have rightNonneg := right.usec_nonneg
  have rightLt := right.usec_lt
  unfold timerGt micros
  split <;> simp only [decide_eq_true_eq] <;> omega

/-- The test both fields of a normalized difference must pass before a
transaction counts as timed out. -/
theorem fields_nonpos_iff (time : Timeval) (nonneg : 0 ≤ time.micros) :
    (time.tvSec ≤ 0 ∧ time.tvUsec ≤ 0) ↔ time.micros = 0 := by
  have usecNonneg := time.usec_nonneg
  have usecLt := time.usec_lt
  unfold micros at nonneg ⊢
  omega

end Timeval

/-- What calling a prepare callback does: the calls of
`gzochid_transaction_mark_for_rollback` it makes (participant name and
`retryable`), and the value it returns. -/
structure PrepareOutcome where
  marks : List (String × Bool)
  success : Bool
  deriving DecidableEq

/-- A commit or rollback function pointer. -/
inductive Callback where
  | null
  | set
  deriving DecidableEq

structure Participant where
  name : String
  prepare : PrepareOutcome
  commit : Callback
  rollback : Callback
  deriving DecidableEq

/-- `gzochid_transaction_participant_new`.  The structure comes zeroed from
`calloc` and the rollback argument is not stored. -/
def gzochidTransactionParticipantNew (name : String) (prepare : PrepareOutcome)
    (commit _rollback : Callback) : Participant where
  name := name
  prepare := prepare
  commit := commit
  rollback := .null

structure Registration where
  participant : Participant
  rollback : Bool
  retryable : Bool
  deriving DecidableEq

inductive TransactionState where
  | active
  | preparing
  | committing
  | rollingBack
  | committed
  | rolledBack
  deriving DecidableEq

/-- The `participants` table is keyed by name.  The list is its iteration order,
which stays the same while no participant joins. -/
structure Transaction where
  participants : List Registration
  state : TransactionState
  names_nodup : (participants.map fun entry => entry.participant.name).Nodup

structure Timing where
  startTime : Timeval
  timeout : Option Timeval

/-- The thread-local state between `gzochid_transaction_begin` and
`gzochid_transaction_end`: the transaction is created by the first join. -/
structure Scope where
  transaction : Option Transaction
  timing : Timing

/-- `gzochid_transaction_begin`. -/
def gzochidTransactionBegin (timeout : Option Timeval) (now : Timeval) : Scope where
  transaction := none
  timing := ⟨now, timeout⟩

/-- `transaction_new`. -/
def transactionNew : Transaction := ⟨[], .active, by simp⟩

/-- Insert a registration under a name the table does not hold yet. -/
def Transaction.register (transaction : Transaction) (participant : Participant) :
    Transaction :=
  if absent : participant.name ∉
      transaction.participants.map fun entry => entry.participant.name then
    { transaction with
      participants := ⟨participant, false, false⟩ :: transaction.participants
      names_nodup := List.nodup_cons.mpr ⟨absent, transaction.names_nodup⟩ }
  else
    transaction

/-- `gzochid_transaction_join`; `none` is a failed assertion on the state of the
running transaction. -/
def gzochidTransactionJoin (scope : Scope) (participant : Participant) :
    Option Scope :=
  match scope.transaction with
  | none => some { scope with transaction := some (transactionNew.register participant) }
  | some transaction =>
      if transaction.state = .active then
        some { scope with transaction := some (transaction.register participant) }
      else
        none

/-- Set the flags of the registration with the given name. -/
def setMark (name : String) (retryable : Bool) (entry : Registration) : Registration :=
  if entry.participant.name = name then
    { entry with rollback := true, retryable := retryable }
  else
    entry

/-- `gzochid_transaction_mark_for_rollback` on the participant table; `none` is
the failed assertion that the participant has joined. -/
def gzochidTransactionMarkForRollback (entries : List Registration)
    (name : String) (retryable : Bool) : Option (List Registration) :=
  if name ∈ entries.map (fun entry => entry.participant.name) then
    some (entries.map (setMark name retryable))
  else
    none

/-- One call the coordinator makes to a participant. -/
inductive Call where
  | prepare (name : String)
  | commit (name : String)
  | rollback (name : String)
  deriving DecidableEq

/-- The marks one prepare callback makes, in order. -/
def applyMarks : List (String × Bool) → List Registration → Option (List Registration)
  | [], entries => some entries
  | (name, retryable) :: marks, entries =>
      match gzochidTransactionMarkForRollback entries name retryable with
      | none => none
      | some entries => applyMarks marks entries

/-- `prepare`: the calls made and, unless an assertion failed on the way, the
participant table afterwards and the value returned.  The first argument is the
list of participants still to visit. -/
def prepare : List Participant → List Registration →
    List Call × Option (List Registration × Bool)
  | [], entries => ([], some (entries, true))
  | participant :: rest, entries =>
      match applyMarks participant.prepare.marks entries with
      | none => ([.prepare participant.name], none)
      | some entries =>
          if participant.prepare.success then
            let (calls, outcome) := prepare rest entries
            (.prepare participant.name :: calls, outcome)
          else
            ([.prepare participant.name], some (entries, false))

/-- The loop `commit` and `rollback` share: call one pointer of every
participant.  The flag tells whether the loop came to its end. -/
def callEach (pointer : Participant → Callback) (call : String → Call) :
    List Registration → List Call × Bool
  | [] => ([], true)
  | entry :: rest =>
      match pointer entry.participant with
      | .null => ([], false)
      | .set =>
          let (calls, finished) := callEach pointer call rest
          (call entry.participant.name :: calls, finished)

def commit (entries : List Registration) : List Call × Bool :=
  callEach Participant.commit .commit entries

def rollback (entries : List Registration) : List Call × Bool :=
  callEach Participant.rollback .rollback entries

def rollbackOnly (entries : List Registration) : Bool :=
  entries.any fun entry => entry.rollback

def retryable (entries : List Registration) : Bool :=
  entries.all fun entry => !(entry.rollback && !entry.retryable)

def timeRemaining (timing : Timing) (now : Timeval) : Timeval :=
  match timing.timeout with
  | none => .zero
  | some timeout =>
      let elapsed := Timeval.timersub now timing.startTime
      if Timeval.timerGt elapsed timeout then .zero
      else Timeval.timersub timeout elapsed

/-- The test by which `gzochid_transaction_end` gives up a prepared transaction. -/
def timedOut (timing : Timing) (now : Timeval) : Bool :=
  timing.timeout.isSome && decide ((timeRemaining timing now).tvSec ≤ 0) &&
    decide ((timeRemaining timing now).tvUsec ≤ 0)

inductive TransactionResult where
  | pending
  | success
  | failure
  | shouldRetry
  deriving DecidableEq

/-- The calls `gzochid_transaction_end` makes and what it returns; no result means
that the process was lost on the way. -/
structure EndReport where
  calls : List Call
  result : Option TransactionResult
  deriving DecidableEq

/-- Roll back and compute the result, as both failing branches of
`gzochid_transaction_end` do. -/
def endWithRollback (before : List Call) (entries : List Registration)
    (shouldRetry : Bool) : EndReport :=
  let (calls, finished) := rollback entries
  { calls := before ++ calls
    result :=
      if finished then
        some (if shouldRetry || retryable entries then .shouldRetry else .failure)
      else none }

/-- `gzochid_transaction_end`; `now` is the clock when the remaining time is
computed. -/
def gzochidTransactionEnd (scope : Scope) (now : Timeval) : EndReport :=
  match scope.transaction with
  | none => ⟨[], some .success⟩
  | some transaction =>
      let entries := transaction.participants
      if rollbackOnly entries then
        endWithRollback [] entries false
      else
        match prepare (entries.map Registration.participant) entries with
        | (prepared, none) => ⟨prepared, none⟩
        | (prepared, some (entries, false)) => endWithRollback prepared entries false
        | (prepared, some (entries, true)) =>
            if timedOut scope.timing now then
              endWithRollback prepared entries true
            else
              let (calls, finished) := commit entries
              ⟨prepared ++ calls, if finished then some .success else none⟩

end Gzochi.Tx
