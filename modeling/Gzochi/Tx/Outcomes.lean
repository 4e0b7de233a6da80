import Mathlib.Data.List.Induction
import Gzochi.Lib.Runs
import Gzochi.Tx.TwoPhase

/-!
# What is reported of a transaction

A participant that marks the transaction for rollback says whether it may be tried again, and a
later mark of the same participant replaces what it has said.  What the participants have said
is read when the transaction has been rolled back, unless the deadline is the reason.
-/

namespace Gzochi.Tx

open Lib List

/-- The calls between `gzochid_transaction_begin` and `gzochid_transaction_end`. -/
inductive ScopeCall where
  | join (participant : Participant)
  | mark (name : String) (retryable : Bool)

/-- A transaction with a participant's flags set. -/
def Transaction.mark (transaction : Transaction) (name : String) (retryable : Bool) :
    Transaction :=
  { transaction with
    participants := transaction.participants.map (setMark name retryable)
    names_nodup := by
      have same := names_marked [(name, retryable)] transaction.participants
      exact (congrArg List.Nodup same).mpr transaction.names_nodup }

/-- One call; without a transaction there is none to mark. -/
def scopeStep (scope : Scope) : ScopeCall → Option (Scope × Unit)
  | .join participant => (gzochidTransactionJoin scope participant).map (·, ())
  | .mark name retryable =>
      match scope.transaction with
      | none => none
      | some transaction =>
          (gzochidTransactionMarkForRollback transaction.participants name retryable).map
            fun _ => ({ scope with transaction := some (transaction.mark name retryable) }, ())

/-- The marks that are made while the transaction runs. -/
def marksOf (trace : List (ScopeCall × Unit)) : List (String × Bool) :=
  trace.filterMap fun entry =>
    match entry.1 with
    | .join _ => none
    | .mark name retryable => some (name, retryable)

/-- The marks of a transaction in order, those of the prepare callbacks that are called last. -/
def marksMade (trace : List (ScopeCall × Unit)) (scope : Scope) : List (String × Bool) :=
  marksOf trace ++ endMarks scope

/-- What a participant has said last. -/
def lastMark (marks : List (String × Bool)) (name : String) : Option Bool :=
  marks.foldl (fun last mark => if mark.1 = name then some mark.2 else last) none

theorem lastMark_snoc (marks : List (String × Bool)) (mark : String × Bool) (name : String) :
    lastMark (marks ++ [mark]) name =
      if mark.1 = name then some mark.2 else lastMark marks name := by
  rw [lastMark, foldl_append]
  rfl

variable {marks : List (String × Bool)} {name : String}

theorem lastMark_mem {retryable : Bool} (last : lastMark marks name = some retryable) :
    (name, retryable) ∈ marks := by
  induction marks using List.reverseRecOn with
  | nil => cases last
  | append_singleton marks mark ih =>
    rw [lastMark_snoc] at last
    split at last
    next same =>
      cases last
      exact mem_append_right _ (mem_singleton.mpr (by rw [← same]))
    next => exact mem_append_left _ (ih last)

theorem marked_fresh (marks : List (String × Bool)) (participant : Participant) :
    marked marks ⟨participant, false, false⟩ =
      ⟨participant, (lastMark marks participant.name).isSome,
        (lastMark marks participant.name).getD false⟩ := by
  induction marks using List.reverseRecOn with
  | nil => rfl
  | append_singleton marks mark ih =>
    rw [marked_append, ih, lastMark_snoc]
    simp only [marked, foldl_cons, foldl_nil, setMark, eq_comm]
    split <;> rfl

/-- The table holds what the participants have said. -/
structure Recorded (trace : List (ScopeCall × Unit)) (scope : Scope) : Prop where
  flags : ∀ entry ∈ scope.joined, entry = marked (marksOf trace) ⟨entry.participant, false, false⟩
  known : ∀ mark ∈ marksOf trace, mark.1 ∈ names scope.joined
  joined : ∀ transaction, scope.transaction = some transaction → transaction.participants ≠ []

variable {scope : Scope} {now : Timeval} {trace : List (ScopeCall × Unit)}
  {result : TransactionResult}

theorem lastMark_unknown (unknown : ∀ mark ∈ marks, mark.1 ≠ name) :
    lastMark marks name = none := by
  cases last : lastMark marks name with
  | none => rfl
  | some retryable => exact absurd rfl (unknown _ (lastMark_mem last))

theorem register_joined (scope : Scope) (transaction : Transaction) (participant : Participant) :
    ({ scope with transaction := some (transaction.register participant) } : Scope).joined =
      if participant.name ∈ names transaction.participants then transaction.participants
      else ⟨participant, false, false⟩ :: transaction.participants := by
  change (transaction.register participant).participants = _
  by_cases present : participant.name ∈ names transaction.participants
  · rw [Transaction.register, dif_neg (not_not.mpr present), if_pos present]
  · rw [Transaction.register, dif_pos present, if_neg present]

theorem Recorded.register (recorded : Recorded trace scope) {transaction : Transaction}
    (participants : transaction.participants = scope.joined) (participant : Participant) :
    Recorded (trace ++ [(.join participant, ())])
      { scope with transaction := some (transaction.register participant) } := by
  have silent : marksOf (trace ++ [(.join participant, ())]) = marksOf trace := by
    simp [marksOf]
  have table := register_joined scope transaction participant
  rw [participants] at table
  by_cases present : participant.name ∈ names scope.joined
  · rw [if_pos present] at table
    refine ⟨?_, ?_, ?_⟩
    · rw [table, silent]
      exact recorded.flags
    · rw [table, silent]
      exact recorded.known
    · rintro _ ⟨⟩ empty
      have nobody := table.symm.trans empty
      rw [nobody] at present
      cases present
  · rw [if_neg present] at table
    refine ⟨?_, ?_, ?_⟩
    · rw [table, silent]
      intro entry member
      rcases mem_cons.mp member with new | old
      · have unknown : lastMark (marksOf trace) participant.name = none :=
          lastMark_unknown fun mark made isName => present (isName ▸ recorded.known mark made)
        rw [new, marked_fresh, unknown]
        rfl
      · exact recorded.flags entry old
    · rw [table, silent]
      exact fun mark made => mem_cons_of_mem _ (recorded.known mark made)
    · rintro _ ⟨⟩ empty
      exact cons_ne_nil _ _ (table.symm.trans empty)

theorem scopeStep_recorded (recorded : Recorded trace scope) {call : ScopeCall} {next : Scope}
    (taken : scopeStep scope call = some (next, ())) : Recorded (trace ++ [(call, ())]) next := by
  cases call with
  | join participant =>
    obtain ⟨joined, called, same⟩ := Option.map_eq_some_iff.mp taken
    cases same
    unfold gzochidTransactionJoin at called
    split at called
    next none =>
      cases called
      have nobody : transactionNew.participants = scope.joined := by
        rw [Scope.joined, none]
        rfl
      exact recorded.register nobody participant
    next transaction running =>
      obtain ⟨_, same⟩ := Option.ite_none_right_eq_some.mp called
      cases same
      exact recorded.register (by rw [Scope.joined, running]) participant
  | mark name retryable =>
    simp only [scopeStep] at taken
    split at taken
    next => cases taken
    next transaction running =>
      have participants : scope.joined = transaction.participants := by
        rw [Scope.joined, running]
      obtain ⟨entries, set, same⟩ := Option.map_eq_some_iff.mp taken
      cases same
      obtain ⟨joined, _⟩ := Option.ite_none_right_eq_some.mp set
      have made : marksOf (trace ++ [(.mark name retryable, ())]) =
          marksOf trace ++ [(name, retryable)] := by
        simp [marksOf]
      constructor
      · intro entry member
        obtain ⟨old, inTable, rfl⟩ := mem_map.mp member
        have flags := recorded.flags old (participants ▸ inTable)
        have same := marked_participant [(name, retryable)] old
        rw [made, marked_append]
        change _ = marked _ (marked _ ⟨(marked [(name, retryable)] old).participant, _, _⟩)
        rw [same, ← flags]
        rfl
      · intro mark isMade
        have same : names (transaction.mark name retryable).participants =
            names transaction.participants := names_marked [(name, retryable)] _
        change mark.1 ∈ names (transaction.mark name retryable).participants
        rw [same]
        rw [made] at isMade
        rcases mem_append.mp isMade with old | new
        · exact participants ▸ recorded.known mark old
        · rw [mem_singleton.mp new]
          exact joined
      · rintro _ ⟨⟩ empty
        exact recorded.joined transaction running (map_eq_nil_iff.mp empty)

theorem run_recorded {timeout : Option Timeval} {start : Timeval}
    (run : Run scopeStep anyAction (gzochidTransactionBegin timeout start) trace scope) :
    Recorded trace scope := by
  apply run.invariant Recorded
  · exact ⟨nofun, nofun, nofun⟩
  · intro trace scope call next _ _ recorded _ taken
    exact scopeStep_recorded recorded taken

/-- What is returned is true: success when every participant has been committed, and otherwise
a request to try again when nobody has objected to that. -/
structure Truthful (scope : Scope) (marks : List (String × Bool)) (calls : List Call)
    (result : TransactionResult) : Prop where
  success : result = .success ↔ ∀ entry ∈ scope.joined, .commit entry.participant.name ∈ calls
  retry : result ≠ .success → (result = .shouldRetry ↔ ∀ name, (name, false) ∉ marks)

/-- An objection to trying again is seen: not the deadline alone speaks against the transaction,
and some participant has not replaced its objection. -/
def ObjectionSeen (scope : Scope) (marks : List (String × Bool)) : Prop :=
  Refused scope ∧ ∃ entry ∈ scope.joined, lastMark marks entry.participant.name = some false

/-- The flags say whether somebody has not replaced an objection. -/
theorem retryable_endTable (recorded : Recorded trace scope) :
    retryable (endTable scope) = true ↔ ∀ entry ∈ scope.joined,
      lastMark (marksMade trace scope) entry.participant.name ≠ some false := by
  simp only [retryable, all_eq_true, endTable, forall_mem_map]
  refine forall₂_congr fun entry member => ?_
  have flags : marked (endMarks scope) entry =
      marked (marksMade trace scope) ⟨entry.participant, false, false⟩ := by
    rw [marksMade, marked_append, ← recorded.flags entry member]
  rw [flags, marked_fresh]
  cases lastMark (marksMade trace scope) entry.participant.name with
  | none => simp
  | some retryable => cases retryable <;> simp

/-- The transaction is rolled back and the objections that are seen count, or it is committed. -/
theorem returned_cases (recorded : Recorded trace scope)
    (returned : (gzochidTransactionEnd scope now).result = some result) :
    (result = .success ∧ (¬MustRollBack scope now ∨ scope.joined = []) ∧ ∀ entry ∈ scope.joined,
        .commit entry.participant.name ∈ (gzochidTransactionEnd scope now).calls) ∨
    (MustRollBack scope now ∧ scope.joined ≠ [] ∧
      (∀ name, .commit name ∉ (gzochidTransactionEnd scope now).calls) ∧
      (ObjectionSeen scope (marksMade trace scope) ∧ result = .failure ∨
        ¬ObjectionSeen scope (marksMade trace scope) ∧ result = .shouldRetry)) := by
  have ends := gzochidTransactionEnd_ends scope now
  generalize gzochidTransactionEnd scope now = report at ends returned ⊢
  cases ends with
  | lost => cases returned
  | nobody none =>
    cases returned
    have empty : scope.joined = [] := by rw [Scope.joined, none]
    refine .inl ⟨rfl, .inr empty, ?_⟩
    rw [empty]
    simp
  | @rolledBack visited late transaction running joined must visits refused =>
    have someJoined : scope.joined ≠ [] := by
      rw [Scope.joined, running]
      exact recorded.joined transaction running
    have retries : (late || retryable (endTable scope)) = true ↔
        ¬ObjectionSeen scope (marksMade trace scope) := by
      rw [Bool.or_eq_true, retryable_endTable recorded, ObjectionSeen, ← refused]
      cases late <;> simp
    unfold endWithRollback rollback at returned ⊢
    rcases callEach_spec Participant.rollback .rollback (endTable scope) with
      ⟨_, called⟩ | ⟨_, _, _, _, _, called⟩
    · simp only [called, if_true] at returned ⊢
      cases returned
      refine .inr ⟨must, someJoined, by simp [preparations], ?_⟩
      by_cases seen : ObjectionSeen scope (marksMade trace scope)
      · exact .inl ⟨seen, if_neg fun retried => retries.mp retried seen⟩
      · exact .inr ⟨seen, if_pos (retries.mpr seen)⟩
    · simp only [called] at returned
      cases returned
  | committed joined stays =>
    unfold commit at returned ⊢
    rcases callEach_spec Participant.commit .commit (endTable scope) with
      ⟨_, called⟩ | ⟨_, _, _, _, _, called⟩
    · rw [called] at returned ⊢
      cases returned
      refine .inl ⟨rfl, .inl stays, fun entry member => ?_⟩
      have sameNames : names (endTable scope) = names scope.joined := names_marked _ _
      rw [sameNames]
      exact mem_append_right _ (mem_map_of_mem (mem_map_of_mem member))
    · rw [called] at returned
      cases returned

/-- What is returned of a transaction is true exactly when an objection to trying it again, if
it is rolled back and there is one, is seen. -/
theorem outcome_truthful_iff {timeout : Option Timeval} {start : Timeval}
    (run : Run scopeStep anyAction (gzochidTransactionBegin timeout start) trace scope)
    (returned : (gzochidTransactionEnd scope now).result = some result) :
    Truthful scope (marksMade trace scope) (gzochidTransactionEnd scope now).calls result ↔
      (MustRollBack scope now → (∃ name, (name, false) ∈ marksMade trace scope) →
        ObjectionSeen scope (marksMade trace scope)) := by
  have recorded := run_recorded run
  rcases returned_cases recorded returned with
    ⟨rfl, stays, committed⟩ | ⟨must, someJoined, uncommitted, outcome⟩
  · refine iff_of_true ⟨iff_of_true rfl committed, fun failed => absurd rfl failed⟩ ?_
    rintro must ⟨name, made⟩
    rcases stays with stays | nobody
    · exact absurd must stays
    · have unmade : marksMade trace scope = [] := by
        have unmarked : marksOf trace = [] := eq_nil_iff_forall_not_mem.mpr fun mark member =>
          not_mem_nil (nobody ▸ recorded.known mark member)
        simp [marksMade, unmarked, endMarks, visitedBy, nobody, attempted]
      rw [unmade] at made
      cases made
  · obtain ⟨entry, rest, joined⟩ := exists_cons_of_ne_nil someJoined
    have missed : ¬∀ entry ∈ scope.joined,
        .commit entry.participant.name ∈ (gzochidTransactionEnd scope now).calls := by
      intro committed
      exact uncommitted _ (committed entry (joined ▸ mem_cons_self))
    have objected : ObjectionSeen scope (marksMade trace scope) →
        ∃ name, (name, false) ∈ marksMade trace scope := by
      rintro ⟨_, entry, _, last⟩
      exact ⟨_, lastMark_mem last⟩
    rcases outcome with ⟨seen, rfl⟩ | ⟨unseen, rfl⟩
    · refine iff_of_true ⟨iff_of_false (by simp) missed, fun _ => iff_of_false (by simp) ?_⟩
        fun _ _ => seen
      intro none
      obtain ⟨name, made⟩ := objected seen
      exact none name made
    · constructor
      · rintro truthful _ ⟨name, made⟩
        exact absurd made ((truthful.retry (by simp)).mp rfl name)
      · intro condition
        refine ⟨iff_of_false (by simp) missed, fun _ => iff_of_true rfl fun name made => ?_⟩
        exact unseen (condition must ⟨name, made⟩)

/-- A participant with callbacks. -/
def willing (name : String) : Participant := ⟨name, ⟨[], true⟩, .set, .set⟩

/-- A participant joins and marks the transaction. -/
def marking (marks : List Bool) : List ScopeCall :=
  .join (willing "data") :: marks.map fun retryable => .mark "data" retryable

/-- The transaction in which it does. -/
def markedScope (marks : List Bool) : Scope :=
  stateAfter scopeStep (gzochidTransactionBegin none Timeval.zero) (marking marks)

theorem outcome_truthful_iff_fatal :
    Truthful (markedScope [false]) [("data", false)] [.rollback "data"] .failure := by
  have run : exec scopeStep (gzochidTransactionBegin none Timeval.zero) (marking [false]) =
      some ((marking [false]).map (·, ()), markedScope [false]) := rfl
  have returned : (gzochidTransactionEnd (markedScope [false]) Timeval.zero).result =
      some .failure := rfl
  refine (outcome_truthful_iff (run_of_exec run) returned).mpr fun _ _ => ?_
  have joined : ⟨willing "data", true, false⟩ ∈ (markedScope [false]).joined :=
    mem_singleton.mpr rfl
  exact ⟨⟨_, joined, .inl rfl⟩, _, joined, rfl⟩

/-- A participant objects to trying again, and then marks the transaction once more. -/
theorem objection_replaced : ∃ trace scope,
    Run scopeStep anyAction (gzochidTransactionBegin none Timeval.zero) trace scope ∧
    (gzochidTransactionEnd scope Timeval.zero).result = some .shouldRetry ∧
    ¬Truthful scope (marksMade trace scope) (gzochidTransactionEnd scope Timeval.zero).calls
      .shouldRetry := by
  have run : exec scopeStep (gzochidTransactionBegin none Timeval.zero) (marking [false, true]) =
      some ((marking [false, true]).map (·, ()), markedScope [false, true]) := rfl
  refine ⟨_, _, run_of_exec run, rfl, fun truthful => ?_⟩
  have objected : ("data", false) ∈
      marksMade ((marking [false, true]).map (·, ())) (markedScope [false, true]) :=
    mem_cons_self
  exact (truthful.retry nofun).mp rfl "data" objected

end Gzochi.Tx
