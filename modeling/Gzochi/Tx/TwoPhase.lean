import Gzochi.Tx.Model

/-!
# Two-phase commit

What the coordinator owes its participants: one decision for all of them, taken
only when everybody agreed, and no further preparation once somebody refused.
The decision is computed from flags set at different moments.  The marks set
before the end are read once, so a mark made by a prepare callback comes too late
to be seen, and a rollback calls a pointer that
`gzochid_transaction_participant_new` never fills in.
-/

namespace Gzochi.Tx

open List

/-- The names of the joined participants. -/
abbrev names (entries : List Registration) : List String :=
  entries.map fun entry => entry.participant.name

/-- The time the transaction was given has run out at `now`. -/
def DeadlinePassed (timing : Timing) (now : Timeval) : Prop :=
  ∃ timeout, timing.timeout = some timeout ∧
    timeout.micros ≤ now.micros - timing.startTime.micros

theorem timedOut_iff (timing : Timing) (now : Timeval) :
    timedOut timing now = true ↔ DeadlinePassed timing now := by
  unfold timedOut DeadlinePassed timeRemaining
  cases timing.timeout with
  | none => simp
  | some timeout =>
    simp only [Option.isSome_some, Bool.true_and, Bool.and_eq_true,
      decide_eq_true_eq, Option.some.injEq, exists_eq_left']
    split
    next late =>
      rw [Timeval.timerGt_iff, Timeval.micros_timersub] at late
      constructor
      · intro _
        omega
      · intro _
        exact ⟨Int.le_refl 0, Int.le_refl 0⟩
    next early =>
      have notLater : ¬timeout.micros < now.micros - timing.startTime.micros := by
        rwa [Timeval.timerGt_iff, Timeval.micros_timersub] at early
      rw [Timeval.fields_nonpos_iff _ (by
        rw [Timeval.micros_timersub, Timeval.micros_timersub]
        omega)]
      rw [Timeval.micros_timersub, Timeval.micros_timersub]
      omega

/-- A registration after some marks. -/
def marked (marks : List (String × Bool)) (entry : Registration) : Registration :=
  marks.foldl (fun entry mark => setMark mark.1 mark.2 entry) entry

theorem marked_append (first second : List (String × Bool)) (entry : Registration) :
    marked (first ++ second) entry = marked second (marked first entry) :=
  foldl_append

variable (marks : List (String × Bool))
include marks

theorem marked_participant (entry : Registration) :
    (marked marks entry).participant = entry.participant := by
  induction marks generalizing entry with
  | nil => rfl
  | cons mark marks ih =>
    refine (ih (setMark mark.1 mark.2 entry)).trans ?_
    unfold setMark
    split <;> rfl

theorem names_marked (entries : List Registration) :
    names (entries.map (marked marks)) = names entries := by
  rw [names, map_map]
  exact map_congr_left fun entry _ => congrArg _ (marked_participant marks entry)

/-- Marks are all applied, or one of them names somebody who has not joined. -/
theorem applyMarks_spec (entries : List Registration) : ((∀ mark ∈ marks, mark.1 ∈ names entries) ∧
      applyMarks marks entries = some (entries.map (marked marks))) ∨
    ((∃ mark ∈ marks, mark.1 ∉ names entries) ∧ applyMarks marks entries = none) := by
  induction marks generalizing entries with
  | nil => exact .inl ⟨nofun, congrArg some (map_id _).symm⟩
  | cons mark marks ih =>
    have sameNames := names_marked [mark] entries
    by_cases joined : mark.1 ∈ names entries
    · have step : applyMarks (mark :: marks) entries =
          applyMarks marks (entries.map (marked [mark])) := by
        simp only [applyMarks, gzochidTransactionMarkForRollback]
        rw [if_pos joined]
        rfl
      rw [step]
      rcases ih (entries.map (marked [mark])) with
        ⟨allJoined, applied⟩ | ⟨⟨other, member, absent⟩, failed⟩
      · rw [sameNames] at allJoined
        refine .inl ⟨forall_mem_cons.mpr ⟨joined, allJoined⟩, ?_⟩
        rw [applied, map_map]
        rfl
      · exact .inr ⟨⟨other, mem_cons_of_mem _ member, sameNames ▸ absent⟩, failed⟩
    · refine .inr ⟨⟨mark, mem_cons_self, joined⟩, ?_⟩
      simp only [applyMarks, gzochidTransactionMarkForRollback]
      rw [if_neg joined]

omit marks

/-- The participants the prepare loop visits: all up to and including the first
one whose callback fails. -/
def attempted : List Participant → List Participant
  | [] => []
  | participant :: rest =>
      if participant.prepare.success then participant :: attempted rest
      else [participant]

variable {participants : List Participant}

theorem attempted_eq_self
    (succeed : ∀ participant ∈ participants, participant.prepare.success = true) :
    attempted participants = participants := by
  induction participants with
  | nil => rfl
  | cons participant rest ih =>
    simp only [attempted, succeed participant (by simp), if_true, List.cons.injEq, true_and]
    exact ih fun other member => succeed other (mem_cons_of_mem _ member)

/-- Calls of the prepare phase only. -/
def preparations (participants : List Participant) : List Call :=
  participants.map fun participant => .prepare participant.name

/-- The prepare loop visits exactly the attempted participants, and reports
success exactly when every callback did; or it is lost at a mark for a participant
that has not joined. -/
theorem prepare_spec (participants : List Participant) (entries : List Registration) :
    ((∀ participant ∈ attempted participants, ∀ mark ∈ participant.prepare.marks,
        mark.1 ∈ names entries) ∧
      prepare participants entries = (preparations (attempted participants),
          some (entries.map (marked ((attempted participants).flatMap (·.prepare.marks))),
            participants.all fun participant => participant.prepare.success))) ∨
    ((∃ participant ∈ attempted participants, ∃ mark ∈ participant.prepare.marks,
        mark.1 ∉ names entries) ∧
      ∃ visited, prepare participants entries = (preparations visited, none)) := by
  induction participants generalizing entries with
  | nil =>
    refine .inl ⟨nofun, Prod.ext rfl (congrArg some (Prod.ext ?_ rfl))⟩
    exact (map_id _).symm
  | cons participant rest ih =>
    rcases applyMarks_spec participant.prepare.marks entries with
      ⟨joined, applied⟩ | ⟨⟨mark, member, absent⟩, failed⟩
    · have sameNames := names_marked participant.prepare.marks entries
      cases success : participant.prepare.success with
      | false =>
        have attemptedEq : attempted (participant :: rest) = [participant] := by
          simp [attempted, success]
        rw [attemptedEq]
        refine .inl ⟨?_, ?_⟩
        · intro other member
          rw [mem_singleton.mp member]
          exact joined
        · simp [prepare, applied, success, preparations]
      | true =>
        have attemptedEq : attempted (participant :: rest) = participant :: attempted rest := by
          simp [attempted, success]
        rw [attemptedEq]
        rcases ih (entries.map (marked participant.prepare.marks)) with
          ⟨restJoined, prepared⟩ | ⟨⟨other, member, stray⟩, visited, lost⟩
        · rw [sameNames] at restJoined
          refine .inl ⟨forall_mem_cons.mpr ⟨joined, restJoined⟩, ?_⟩
          have both : marked (participant.prepare.marks ++
              (attempted rest).flatMap (·.prepare.marks)) =
              marked ((attempted rest).flatMap (·.prepare.marks)) ∘
                marked participant.prepare.marks :=
            funext fun entry => marked_append _ _ entry
          simp [prepare, applied, success, prepared, preparations, both]
        · refine .inr ⟨⟨other, mem_cons_of_mem _ member, sameNames ▸ stray⟩,
            participant :: visited, ?_⟩
          simp [prepare, applied, success, lost, preparations]
    · refine .inr ⟨⟨participant, ?_, mark, member, absent⟩, [participant], ?_⟩
      · unfold attempted
        split <;> simp
      · simp [prepare, failed, preparations]

/-- After a failed preparation the loop visits nobody. -/
theorem no_prepare_after_failure (nodup : (participants.map Participant.name).Nodup)
    {participant : Participant} (member : participant ∈ participants)
    (failed : participant.prepare.success = false) {before after : List Call}
    (split : preparations (attempted participants) =
      before ++ .prepare participant.name :: after) : after = [] := by
  induction participants generalizing before with
  | nil => simp at member
  | cons first rest ih =>
    have firstAbsent : first.name ∉ rest.map Participant.name :=
      (nodup_cons.mp nodup).1
    cases success : first.prepare.success with
    | false =>
      have single : preparations (attempted (first :: rest)) = [.prepare first.name] := by
        simp [attempted, success, preparations]
      rw [single] at split
      cases before with
      | nil =>
        injection split with _ rest
        exact rest.symm
      | cons call before => simp at split
    | true =>
      have different : participant ≠ first := by
        intro equal
        rw [equal, success] at failed
        cases failed
      have inRest : participant ∈ rest := by simpa [different] using member
      have longer : preparations (attempted (first :: rest)) =
          .prepare first.name :: preparations (attempted rest) := by
        simp [attempted, success, preparations]
      rw [longer] at split
      cases before with
      | nil =>
        injection split with same _
        injection same with sameName
        exact absurd (sameName ▸ mem_map_of_mem inRest) firstAbsent
      | cons call before =>
        injection split with _ restSplit
        exact ih (nodup_cons.mp nodup).2 inRest restSplit

/-- Either every pointer is set and each participant is called once in order, or
the loop is lost before it reaches some participant. -/
theorem callEach_spec (pointer : Participant → Callback) (call : String → Call)
    (entries : List Registration) :
    ((∀ entry ∈ entries, pointer entry.participant = .set) ∧
      callEach pointer call entries = ((names entries).map call, true)) ∨
    (∃ reached entry rest, entries = reached ++ entry :: rest ∧ pointer entry.participant = .null ∧
      callEach pointer call entries = ((names reached).map call, false)) := by
  induction entries with
  | nil => exact .inl ⟨by simp, rfl⟩
  | cons entry entries ih =>
    cases found : pointer entry.participant with
    | null => exact .inr ⟨[], entry, entries, rfl, found, by simp [callEach, found]⟩
    | set =>
      rcases ih with ⟨allSet, callsEq⟩ | ⟨reached, missing, rest, split, null, callsEq⟩
      · refine .inl ⟨?_, by simp [callEach, found, callsEq]⟩
        intro other member
        rcases mem_cons.mp member with rfl | member
        · exact found
        · exact allSet other member
      · refine .inr ⟨entry :: reached, missing, rest, by simp [split], null, ?_⟩
        simp [callEach, found, callsEq]

/-- The participants joined when the transaction ends. -/
def Scope.joined (scope : Scope) : List Registration :=
  match scope.transaction with
  | none => []
  | some transaction => transaction.participants

theorem Scope.names_joined_nodup (scope : Scope) : (names scope.joined).Nodup := by
  unfold Scope.joined
  cases scope.transaction with
  | none => simp
  | some transaction => exact transaction.names_nodup

/-- The obligations of the coordinator towards the joined participants, read off
the calls it makes. -/
structure TwoPhase (scope : Scope) (now : Timeval) (calls : List Call) : Prop where
  unanimous :
    ((∀ entry ∈ scope.joined, calls.count (.commit entry.participant.name) = 1) ∧
      ∀ name, .rollback name ∉ calls) ∨
    ((∀ entry ∈ scope.joined, calls.count (.rollback entry.participant.name) = 1) ∧
      ∀ name, .commit name ∉ calls)
  commit_justified : ∀ name, .commit name ∈ calls →
    (∀ entry ∈ scope.joined, entry.rollback = false ∧
      entry.participant.prepare.marks = [] ∧ entry.participant.prepare.success = true) ∧
    ¬DeadlinePassed scope.timing now
  prepare_stops : ∀ entry ∈ scope.joined, entry.participant.prepare.success = false →
    ∀ before after, calls = before ++ .prepare entry.participant.name :: after →
      ∀ name, .prepare name ∉ after

/-- The transaction was marked before it ended, some prepare callback fails, or
the deadline has passed. -/
def MustRollBack (scope : Scope) (now : Timeval) : Prop :=
  (∃ entry ∈ scope.joined, entry.rollback = true) ∨
  (∃ entry ∈ scope.joined, entry.participant.prepare.success = false) ∨
  DeadlinePassed scope.timing now

/-- Every mark made by a prepare callback that is reached names a participant that
has joined. -/
def MarksJoined (scope : Scope) : Prop :=
  (∀ entry ∈ scope.joined, entry.rollback = false) →
    ∀ participant ∈ attempted (scope.joined.map Registration.participant),
      ∀ mark ∈ participant.prepare.marks, mark.1 ∈ names scope.joined

/-- The participants keep to what the coordinator silently assumes of them. -/
structure Cooperative (scope : Scope) (now : Timeval) : Prop where
  marks_joined : MarksJoined scope
  rollback_set : MustRollBack scope now →
    ∀ entry ∈ scope.joined, entry.participant.rollback = .set
  commit_set : ¬MustRollBack scope now →
    ∀ entry ∈ scope.joined, entry.participant.commit = .set
  unmarked : ¬MustRollBack scope now →
    ∀ entry ∈ scope.joined, entry.participant.prepare.marks = []

/-- The participants the end of a transaction prepares, unless it is marked before. -/
def visitedBy (scope : Scope) : List Participant :=
  attempted (scope.joined.map Registration.participant)

/-- The marks made by the prepare callbacks that are called. -/
def endMarks (scope : Scope) : List (String × Bool) :=
  if rollbackOnly scope.joined then [] else (visitedBy scope).flatMap (·.prepare.marks)

/-- The participants' table when the decision is carried out. -/
def endTable (scope : Scope) : List Registration :=
  scope.joined.map (marked (endMarks scope))

/-- Some participant speaks against the transaction. -/
def Refused (scope : Scope) : Prop :=
  ∃ entry ∈ scope.joined, entry.rollback = true ∨ entry.participant.prepare.success = false

/-- The ways a transaction can end: lost while preparing, joined by nobody, rolled back, or
committed. -/
inductive Ends (scope : Scope) (now : Timeval) : EndReport → Prop
  | lost {visited : List Participant} (stray : ¬MarksJoined scope) :
      Ends scope now ⟨preparations visited, none⟩
  | nobody (none : scope.transaction = none) : Ends scope now ⟨[], some .success⟩
  | rolledBack {visited : List Participant} {late : Bool} {transaction : Transaction}
      (running : scope.transaction = some transaction) (joined : MarksJoined scope)
      (must : MustRollBack scope now) (visits : visited = [] ∨ visited = visitedBy scope)
      (refused : late = false ↔ Refused scope) :
      Ends scope now (endWithRollback (preparations visited) (endTable scope) late)
  | committed (joined : MarksJoined scope) (stays : ¬MustRollBack scope now) :
      Ends scope now
        ⟨preparations (scope.joined.map Registration.participant) ++ (commit (endTable scope)).1,
          if (commit (endTable scope)).2 then some .success else none⟩

theorem mustRollBack_iff (scope : Scope) (now : Timeval) :
    MustRollBack scope now ↔ Refused scope ∨ DeadlinePassed scope.timing now := by
  simp only [MustRollBack, Refused, and_or_left, exists_or, or_assoc]

theorem gzochidTransactionEnd_ends (scope : Scope) (now : Timeval) :
    Ends scope now (gzochidTransactionEnd scope now) := by
  cases running : scope.transaction with
  | none =>
    simp only [gzochidTransactionEnd, running]
    exact .nobody running
  | some transaction =>
    have joinedEq : transaction.participants = scope.joined := by
      rw [Scope.joined, running]
    cases flagged : rollbackOnly scope.joined with
    | true =>
      obtain ⟨marking, member, flag⟩ : ∃ entry ∈ scope.joined, entry.rollback = true := by
        simpa [rollbackOnly] using flagged
      have unmarked : endTable scope = scope.joined := by
        rw [endTable, endMarks, if_pos flagged]
        exact map_id _
      have joined : MarksJoined scope := by
        intro noneMarked
        rw [noneMarked marking member] at flag
        cases flag
      have ended : gzochidTransactionEnd scope now =
          endWithRollback (preparations []) (endTable scope) false := by
        simp only [gzochidTransactionEnd, running, joinedEq, flagged, if_true, unmarked]
        rfl
      rw [ended]
      exact .rolledBack running joined (.inl ⟨marking, member, flag⟩) (.inl rfl)
        (iff_of_true rfl ⟨marking, member, .inl flag⟩)
    | false =>
      have noneMarked : ∀ entry ∈ scope.joined, entry.rollback = false := by
        simpa [rollbackOnly] using flagged
      rcases prepare_spec (scope.joined.map Registration.participant) scope.joined with
        ⟨joined, prepared⟩ | ⟨⟨participant, member, mark, made, stray⟩, visited, lost⟩
      · have table : scope.joined.map (marked ((attempted (scope.joined.map
            Registration.participant)).flatMap (·.prepare.marks))) = endTable scope := by
          rw [endTable, endMarks, flagged]
          rfl
        rw [table] at prepared
        cases agreed : (scope.joined.map Registration.participant).all
            fun participant => participant.prepare.success with
        | false =>
          rw [agreed] at prepared
          obtain ⟨failing, member, failed⟩ :
              ∃ entry ∈ scope.joined, entry.participant.prepare.success = false := by
            simpa using agreed
          simp only [gzochidTransactionEnd, running, joinedEq, flagged, prepared,
            Bool.false_eq_true, if_false]
          exact .rolledBack running (fun _ => joined) (.inr (.inl ⟨failing, member, failed⟩))
            (.inr rfl) (iff_of_true rfl ⟨failing, member, .inr failed⟩)
        | true =>
          rw [agreed] at prepared
          have succeed : ∀ entry ∈ scope.joined, entry.participant.prepare.success = true := by
            simpa using agreed
          have unopposed : ¬Refused scope := by
            rintro ⟨entry, member, flag | failed⟩
            · simp [noneMarked entry member] at flag
            · simp [succeed entry member] at failed
          have deadline := timedOut_iff scope.timing now
          cases late : timedOut scope.timing now with
          | true =>
            simp only [gzochidTransactionEnd, running, joinedEq, flagged, prepared, late,
              Bool.false_eq_true, if_false, if_true]
            exact .rolledBack running (fun _ => joined) (.inr (.inr (deadline.mp late)))
              (.inr rfl) (iff_of_false nofun unopposed)
          | false =>
            have stays : ¬MustRollBack scope now := by
              rw [mustRollBack_iff, ← deadline, late]
              simp [unopposed]
            have all : attempted (scope.joined.map Registration.participant) =
                scope.joined.map Registration.participant := by
              apply attempted_eq_self
              simpa using succeed
            simp only [gzochidTransactionEnd, running, joinedEq, flagged, prepared, late,
              Bool.false_eq_true, if_false, all]
            exact .committed (fun _ => joined) stays
      · simp only [gzochidTransactionEnd, running, joinedEq, flagged, lost,
          Bool.false_eq_true, if_false]
        exact .lost fun joined => stray (joined noneMarked participant member mark made)

theorem commit_not_mem_preparations (participants : List Participant) (name : String) :
    Call.commit name ∉ preparations participants := by
  simp [preparations]

theorem rollback_not_mem_preparations (participants : List Participant) (name : String) :
    Call.rollback name ∉ preparations participants := by
  simp [preparations]

variable {call : String → Call}

/-- One call for each of a duplicate-free list of names. -/
theorem count_map_call (injective : Function.Injective call) {labels : List String}
    (nodup : labels.Nodup) {name : String} (member : name ∈ labels) :
    (labels.map call).count (call name) = 1 :=
  count_eq_one_of_mem (nodup.map injective) (mem_map_of_mem member)

theorem commit_injective : Function.Injective Call.commit :=
  fun _ _ equal => Call.commit.inj equal

theorem rollback_injective : Function.Injective Call.rollback :=
  fun _ _ equal => Call.rollback.inj equal

variable {entry : Registration}

/-- A loop that is lost leaves somebody without the call. -/
theorem not_mem_of_reached {reached rest : List Registration}
    (nodup : (names (reached ++ entry :: rest)).Nodup) (call : String → Call)
    (injective : Function.Injective call) :
    call entry.participant.name ∉ (names reached).map call := by
  intro member
  rw [mem_map_of_injective injective] at member
  simp only [names, map_append, map_cons] at nodup
  exact (nodup_append.mp nodup).2.2 _ member _ (by simp) rfl

variable {scope : Scope} {now : Timeval}

/-- Rolling every participant back meets the obligations. -/
theorem twoPhase_of_rollback {visited : List Participant} (visits : visited = [] ∨
      visited = attempted (scope.joined.map Registration.participant)) :
    TwoPhase scope now (preparations visited ++ (names scope.joined).map .rollback) where
  unanimous := by
    refine .inr ⟨?_, ?_⟩
    · intro entry member
      rw [count_append, count_eq_zero_of_not_mem (rollback_not_mem_preparations _ _), Nat.zero_add]
      exact count_map_call rollback_injective scope.names_joined_nodup (mem_map_of_mem member)
    · intro name member
      rcases mem_append.mp member with early | late
      · exact commit_not_mem_preparations _ _ early
      · simp at late
  commit_justified := by
    intro name member
    rcases mem_append.mp member with early | late
    · exact absurd early (commit_not_mem_preparations _ _)
    · simp at late
  prepare_stops := by
    intro entry member failed before after split name later
    rcases visits with rfl | rfl
    · have early : Call.prepare name ∈ (names scope.joined).map Call.rollback := by
        rw [show (names scope.joined).map Call.rollback =
          before ++ .prepare entry.participant.name :: after by simpa [preparations] using split]
        simp [later]
      simp at early
    · rcases append_eq_append_iff.mp split with
        ⟨middle, beforeEq, tailEq⟩ | ⟨middle, visitedEq, tailEq⟩
      · have stray : Call.prepare entry.participant.name ∈
            (names scope.joined).map Call.rollback := by
          rw [tailEq]
          simp
        simp at stray
      · cases middle with
        | nil =>
          have stray : Call.prepare entry.participant.name ∈
              (names scope.joined).map Call.rollback := by
            rw [← nil_append ((names scope.joined).map Call.rollback), ← tailEq]
            simp
          simp at stray
        | cons call middle =>
          injection tailEq with callEq afterEq
          subst callEq
          have stopped := no_prepare_after_failure
            (by simpa [map_map, Function.comp_def] using scope.names_joined_nodup)
            (mem_map_of_mem member) failed visitedEq
          subst stopped
          rw [afterEq] at later
          simp at later

/-- Committing every participant meets the obligations when nobody objected. -/
theorem twoPhase_of_commit (stays : ¬MustRollBack scope now)
    (unmarked : ∀ entry ∈ scope.joined, entry.participant.prepare.marks = []) :
    TwoPhase scope now (preparations (scope.joined.map Registration.participant) ++
      (names scope.joined).map .commit) where
  unanimous := by
    refine .inl ⟨?_, ?_⟩
    · intro entry member
      rw [count_append, count_eq_zero_of_not_mem (commit_not_mem_preparations _ _), Nat.zero_add]
      exact count_map_call commit_injective scope.names_joined_nodup (mem_map_of_mem member)
    · intro name member
      rcases mem_append.mp member with early | late
      · exact rollback_not_mem_preparations _ _ early
      · simp at late
  commit_justified := by
    intro name _
    refine ⟨?_, fun passed => stays (.inr (.inr passed))⟩
    intro entry member
    refine ⟨?_, unmarked entry member, ?_⟩
    · cases flag : entry.rollback with
      | false => rfl
      | true => exact absurd (.inl ⟨entry, member, flag⟩) stays
    · cases success : entry.participant.prepare.success with
      | true => rfl
      | false => exact absurd (.inr (.inl ⟨entry, member, success⟩)) stays
  prepare_stops := by
    intro entry member failed
    exact absurd (.inr (.inl ⟨entry, member, failed⟩)) stays

/-- A participant that is called neither way rules out both decisions. -/
theorem not_twoPhase_of_missed {calls : List Call} (member : entry ∈ scope.joined)
    (noCommit : .commit entry.participant.name ∉ calls)
    (noRollback : .rollback entry.participant.name ∉ calls) :
    ¬TwoPhase scope now calls := by
  intro obligations
  rcases obligations.unanimous with ⟨once, _⟩ | ⟨once, _⟩
  · have counted := once entry member
    rw [count_eq_zero_of_not_mem noCommit] at counted
    cases counted
  · have counted := once entry member
    rw [count_eq_zero_of_not_mem noRollback] at counted
    cases counted

/-- The decision reaches everybody exactly when the pointer it needs is set. -/
theorem callEach_reaches (scope : Scope) (pointer : Participant → Callback)
    (injective : Function.Injective call) :
    ((∀ entry ∈ scope.joined, pointer entry.participant = .set) ∧
      (callEach pointer call (endTable scope)).1 = (names scope.joined).map call) ∨
    (¬(∀ entry ∈ scope.joined, pointer entry.participant = .set) ∧ ∃ entry ∈ scope.joined,
        call entry.participant.name ∉ (callEach pointer call (endTable scope)).1 ∧
        ∀ made ∈ (callEach pointer call (endTable scope)).1, ∃ name, made = call name) := by
  have sameNames : names (endTable scope) = names scope.joined := names_marked _ _
  rcases callEach_spec pointer call (endTable scope) with
    ⟨allSet, callsEq⟩ | ⟨reached, entry, rest, split, null, callsEq⟩
  · refine .inl ⟨?_, by rw [callsEq, sameNames]⟩
    intro entry member
    rw [← marked_participant (endMarks scope) entry]
    exact allSet _ (mem_map_of_mem member)
  · have inTable : entry ∈ endTable scope := by simp [split]
    obtain ⟨original, member, rfl⟩ := mem_map.mp inTable
    have nodup : (names (reached ++ marked (endMarks scope) original :: rest)).Nodup := by
      rw [← split, sameNames]
      exact scope.names_joined_nodup
    have unreached := not_mem_of_reached nodup call injective
    rw [marked_participant] at null unreached
    refine .inr ⟨?_, original, member, ?_, ?_⟩
    · intro allSet
      rw [allSet original member] at null
      cases null
    · rw [callsEq]
      exact unreached
    · intro made madeMember
      rw [callsEq] at madeMember
      obtain ⟨name, _, madeEq⟩ := mem_map.mp madeMember
      exact ⟨name, madeEq.symm⟩

/-- The coordinator meets its obligations exactly when the participants cooperate:
the pointer its decision needs is set everywhere, and no prepare callback marks a
transaction that would otherwise be committed. -/
theorem gzochidTransactionEnd_twoPhase_iff (scope : Scope) (now : Timeval) :
    TwoPhase scope now (gzochidTransactionEnd scope now).calls ↔ Cooperative scope now := by
  have ends := gzochidTransactionEnd_ends scope now
  generalize gzochidTransactionEnd scope now = report at ends ⊢
  cases ends with
  | lost stray =>
      refine iff_of_false ?_ (fun cooperative => stray cooperative.marks_joined)
      have someJoined : scope.joined ≠ [] := by
        intro empty
        apply stray
        intro _
        simp [empty, attempted]
      obtain ⟨entry, rest, joinedEq⟩ := exists_cons_of_ne_nil someJoined
      have member : entry ∈ scope.joined := by simp [joinedEq]
      exact not_twoPhase_of_missed member
        (commit_not_mem_preparations _ _) (rollback_not_mem_preparations _ _)
  | nobody none =>
      have empty : scope.joined = [] := by rw [Scope.joined, none]
      constructor
      · intro _
        constructor <;> simp [MarksJoined, empty, attempted]
      · intro _
        constructor <;> simp [empty]
  | rolledBack _ joined must visits _ =>
      rcases callEach_reaches scope Participant.rollback rollback_injective with
        ⟨allSet, callsEq⟩ | ⟨notSet, entry, member, missed, only⟩
      · change TwoPhase scope now (_ ++ (callEach _ _ (endTable scope)).1) ↔ _
        rw [callsEq]
        refine iff_of_true (twoPhase_of_rollback visits) ?_
        exact ⟨joined, fun _ => allSet, fun stays => absurd must stays,
          fun stays => absurd must stays⟩
      · refine iff_of_false ?_ (fun cooperative => notSet (cooperative.rollback_set must))
        refine not_twoPhase_of_missed member ?_ ?_
        · refine not_mem_append (commit_not_mem_preparations _ _) fun committed => ?_
          obtain ⟨name, equal⟩ := only _ committed
          cases equal
        · exact not_mem_append (rollback_not_mem_preparations _ _) missed
  | committed joined stays =>
      rcases callEach_reaches scope Participant.commit commit_injective with
        ⟨allSet, callsEq⟩ | ⟨notSet, entry, member, missed, only⟩
      · rw [commit, callsEq]
        constructor
        · intro obligations
          refine ⟨joined, fun must => absurd must stays, fun _ => allSet, fun _ => ?_⟩
          intro entry member
          have committed : Call.commit entry.participant.name ∈
              preparations (scope.joined.map Registration.participant) ++
                (names scope.joined).map Call.commit := by
            apply mem_append_right
            exact mem_map_of_mem (mem_map_of_mem member)
          exact ((obligations.commit_justified _ committed).1 entry member).2.1
        · intro cooperative
          exact twoPhase_of_commit stays (cooperative.unmarked stays)
      · refine iff_of_false ?_ (fun cooperative => notSet (cooperative.commit_set stays))
        refine not_twoPhase_of_missed member ?_ ?_
        · exact not_mem_append (commit_not_mem_preparations _ _) missed
        · refine not_mem_append (rollback_not_mem_preparations _ _) fun rolledBack => ?_
          obtain ⟨name, equal⟩ := only _ rolledBack
          cases equal

/-- A participant that asks for a rollback callback and then fails to prepare. -/
def refusingParticipant : Participant :=
  gzochidTransactionParticipantNew "data" ⟨[], false⟩ .set .set

/-- The transaction that `refusingParticipant` alone has joined. -/
def refusedScope : Scope :=
  ⟨some (transactionNew.register refusingParticipant), ⟨Timeval.zero, none⟩⟩

/-- The rollback callback handed to `gzochid_transaction_participant_new` is never
called, so the refusing participant is neither committed nor rolled back. -/
theorem gzochidTransactionEnd_loses_rollback :
    gzochidTransactionJoin (gzochidTransactionBegin none Timeval.zero)
        refusingParticipant = some refusedScope ∧
      ¬TwoPhase refusedScope Timeval.zero
        (gzochidTransactionEnd refusedScope Timeval.zero).calls := by
  have member : ⟨refusingParticipant, false, false⟩ ∈ refusedScope.joined := by decide
  exact ⟨rfl, not_twoPhase_of_missed member (by decide) (by decide)⟩

end Gzochi.Tx
