import Gzochi.Api.BindingCalls

/-!
# The bindings of an application over whole runs

Transactions follow each other, each of them with calls of the primitives and whatever else
the application and the server do, and commit or are rolled back.
-/

namespace Gzochi.Api

open Lib Data Transaction Option

variable {Kind Value Bytes : Type} {toLocaleString : String → Option CString}
  {codec : Codec Kind Value Bytes} {location : Kind} {names : Set String}
  {server next : Server Kind Value Bytes} {action : Action Kind Value}
  {observation : Option Outcome}

/-- Names that the locale can express: none has a null character, and no two of them become
the same string of C. -/
structure Expressible (toLocaleString : String → Option CString) (names : Set String) : Prop where
  converts : ∀ name ∈ names, ∃ cname, toLocaleString name = some cname
  apart : ∀ first ∈ names, ∀ second ∈ names,
    toLocaleString first = toLocaleString second → first = second

/-- The application uses some names only, removes no binding that is not there, and asks only
once in a transaction for an object that cannot be read. -/
def CallsProperly (toLocaleString : String → Option CString) (names : Set String)
    (server : Server Kind Value Bytes) : Action Kind Value → Prop
  | .call call => call.name ∈ names ∧ ∀ transaction ∈ server.transaction,
      ∀ cname ∈ toLocaleString call.name, transaction.Proper cname call
  | _ => True

instance (transaction : Transaction Kind Value Bytes) (cname : CString) :
    (call : UserCall) → Decidable (transaction.Proper cname call)
  | .set _ _ _ => .isTrue trivial
  | .get _ =>
      inferInstanceAs (Decidable (∀ oid ∈ transaction.context.names (prefixName cname),
        ¬Unreadable transaction.context oid))
  | .remove _ =>
      inferInstanceAs (Decidable (transaction.context.names (prefixName cname) ≠ none))

instance [DecidablePred (· ∈ names)] (server : Server Kind Value Bytes) :
    (action : Action Kind Value) → Decidable (CallsProperly toLocaleString names server action)
  | .call call => inferInstanceAs (Decidable (call.name ∈ names ∧
      ∀ transaction ∈ server.transaction, ∀ cname ∈ toLocaleString call.name,
        transaction.Proper cname call))
  | .begin _ | .perform _ | .timeOut | .mark | .commit _ | .rollback => .isTrue trivial

/-- A step of the server and one of a map with transactions.  What a transaction does that is
doomed need not be what the map does. -/
inductive Corresponds (toLocaleString : String → Option CString) :
    Action Kind Value × Option Outcome →
      TransactionalAction BindingCall × Option BindingReply → Prop where
  | begin {answers : Nat → Bool} :
      Corresponds toLocaleString (.begin answers, none) (.begin, none)
  | call {call : UserCall} {cname : CString} {outcome : Outcome} {reply : BindingReply}
      (converted : toLocaleString call.name = some cname) (answers : Answers cname outcome reply) :
      Corresponds toLocaleString (.call call, some outcome)
        (.call (call.toMap outcome), some reply)
  | doomedCall {call : UserCall} {outcome : Outcome} :
      Corresponds toLocaleString (.call call, some outcome) (.doom, none)
  | perform {operation : Operation Kind Value CString} :
      Corresponds toLocaleString (.perform operation, none) (.skip, none)
  | doomedPerform {operation : Operation Kind Value CString} :
      Corresponds toLocaleString (.perform operation, none) (.doom, none)
  | timeOut : Corresponds toLocaleString (.timeOut, none) (.doom, none)
  | mark : Corresponds toLocaleString (.mark, none) (.doom, none)
  | commit {order : List Oid} : Corresponds toLocaleString (.commit order, none) (.commit, none)
  | rollback : Corresponds toLocaleString (.rollback, none) (.rollback, none)

/-- What is bound to the names of the application. -/
def Agrees (toLocaleString : String → Option CString) (names : Set String)
    (stored : CString → Option Oid) (bindings : Bindings) : Prop :=
  ∀ name ∈ names, ∀ cname, toLocaleString name = some cname →
    stored (prefixName cname) = bindings name

/-- Where the map is while the server is in a transaction. -/
def CurrentAgrees (toLocaleString : String → Option CString) (names : Set String)
    (transaction : Transaction Kind Value Bytes) (current : Current Bindings) : Prop :=
  if transaction.doomed then current = .doomed
  else ∃ bindings, current = .running bindings ∧
    Agrees toLocaleString names transaction.context.names bindings

structure Related (toLocaleString : String → Option CString) (names : Set String)
    (server : Server Kind Value Bytes) (object : Transactional Bindings) : Prop where
  committed : Agrees toLocaleString names server.names object.committed
  idle : server.transaction = none → object.current = .idle
  running : ∀ transaction, server.transaction = some transaction →
    CurrentAgrees toLocaleString names transaction object.current

theorem initial_related : Related toLocaleString names
    (Server.initial : Server Kind Value Bytes) ⟨fun _ => none, .idle⟩ where
  committed := fun _ _ _ _ => rfl
  idle := fun _ => rfl
  running := nofun

/-! ## Steps -/

section

variable {transaction after : Transaction Kind Value Bytes} {object : Transactional Bindings}

variable {current : Current Bindings}

theorem CurrentAgrees.of_doomed (doomed : transaction.doomed = true) (same : current = .doomed) :
    CurrentAgrees toLocaleString names transaction current := by
  unfold CurrentAgrees
  rwa [if_pos doomed]

theorem CurrentAgrees.of_fine {bindings : Bindings} (fine : transaction.doomed = false)
    (agrees : Agrees toLocaleString names transaction.context.names bindings) :
    CurrentAgrees toLocaleString names transaction (.running bindings) := by
  unfold CurrentAgrees
  rw [if_neg (by rw [fine]; nofun)]
  exact ⟨bindings, rfl, agrees⟩

theorem CurrentAgrees.fine (agrees : CurrentAgrees toLocaleString names transaction current)
    (fine : transaction.doomed = false) : ∃ bindings, current = .running bindings ∧
      Agrees toLocaleString names transaction.context.names bindings := by
  unfold CurrentAgrees at agrees
  rwa [if_neg (by rw [fine]; nofun)] at agrees

theorem CurrentAgrees.not_idle (agrees : CurrentAgrees toLocaleString names transaction current) :
    current ≠ .idle := by
  cases doomed : transaction.doomed with
  | true =>
    unfold CurrentAgrees at agrees
    rw [if_pos doomed] at agrees
    rw [agrees]
    nofun
  | false =>
    obtain ⟨bindings, running, _⟩ := agrees.fine doomed
    rw [running]
    nofun

variable (related : Related toLocaleString names server object)
include related

/-- The transaction goes on, and the map does not. -/
theorem Related.goOn (agrees : CurrentAgrees toLocaleString names after current) :
    Related toLocaleString names { server with transaction := some after }
      { object with current := current } where
  committed := related.committed
  idle := nofun
  running := by
    intro transaction there
    cases there
    exact agrees

/-- A transaction that is doomed from now on. -/
theorem Related.doom
    (there : server.transaction = some transaction) (doomed : after.doomed = true) :
    ∃ next, transactionalStep performBinding object .doom = some (next, none) ∧
      Related toLocaleString names { server with transaction := some after } next := by
  refine ⟨{ object with current := .doomed }, ?_, related.goOn (.of_doomed doomed rfl)⟩
  have going := (related.running transaction there).not_idle
  unfold transactionalStep
  cases current : object.current with
  | idle => exact absurd current going
  | running bindings => rfl
  | doomed => rfl

/-- A call of a primitive. -/
theorem Related.call (expressible : Expressible toLocaleString names)
    (there : server.transaction = some transaction) {call : UserCall} (used : call.name ∈ names)
    (removes : ∀ cname, toLocaleString call.name = some cname →
      transaction.Proper cname call) {outcome : Outcome}
    (called : transaction.call toLocaleString codec location call = (after, outcome)) :
    ∃ mapAction next reply, transactionalStep performBinding object mapAction = some (next, reply) ∧
      Related toLocaleString names { server with transaction := some after } next ∧
      Corresponds toLocaleString ((.call call, some outcome) : Action Kind Value × Option Outcome)
        (mapAction, reply) := by
  obtain ⟨cname, converted⟩ := expressible.converts call.name used
  obtain ⟨kept, answer⟩ := call_spec converted called
  cases doomed : after.doomed with
  | true =>
    obtain ⟨next, taken, held⟩ := related.doom there doomed
    exact ⟨.doom, next, none, taken, held, .doomedCall⟩
  | false =>
    obtain ⟨bindings, running, agrees⟩ :=
      (related.running transaction there).fine (kept.not_doomed doomed)
    obtain ⟨reply, here, elsewhere⟩ :=
      answer doomed bindings (agrees call.name used cname converted).symm
    refine ⟨.call (call.toMap outcome),
      { object with current := .running (performBinding bindings (call.toMap outcome)).1 },
      some (performBinding bindings (call.toMap outcome)).2, ?_, ?_,
      .call converted (reply.mpr (removes cname converted))⟩
    · unfold transactionalStep
      rw [running]
    · apply related.goOn
      apply CurrentAgrees.of_fine doomed
      intro name member other converts
      by_cases same : name = call.name
      · subst same
        rw [converted] at converts
        cases converts
        exact here.symm
      · have apart : prefixName other ≠ prefixName cname := by
          intro equal
          have strings : other = cname := by
            simpa [prefixName] using equal
          apply same
          apply expressible.apart name member call.name used
          rw [converts, converted, strings]
        rw [elsewhere name same, kept.elsewhere _ apart]
        exact agrees name member other converts

/-- Any other call of the data layer. -/
theorem Related.perform
    (there : server.transaction = some transaction) {operation : Operation Kind Value CString}
    (system : (bindingName operation).all isSystemName = true)
    {context : DataContext Kind Value Bytes CString} {reply : Reply}
    (taken : transaction.context.step codec operation = some (context, reply)) :
    ∃ mapAction next reply, transactionalStep performBinding object mapAction = some (next, reply) ∧
      Related toLocaleString names
        { server with transaction := some { transaction with context := context } } next ∧
      Corresponds toLocaleString
        ((.perform operation, none) : Action Kind Value × Option Outcome) (mapAction, reply) := by
  cases doomed : ({ transaction with context := context } :
      Transaction Kind Value Bytes).doomed with
  | true =>
    obtain ⟨next, moved, held⟩ := related.doom there doomed
    exact ⟨.doom, next, none, moved, held, .doomedPerform⟩
  | false =>
    obtain ⟨in_time, unmarked, accepted⟩ := not_doomed doomed
    have fine : transaction.doomed = false := by
      simp only at in_time unmarked accepted
      unfold Transaction.doomed rollbackOnly
      rw [in_time, unmarked, (step_marks taken).fine accepted]
      rfl
    obtain ⟨bindings, running, agrees⟩ := (related.running transaction there).fine fine
    refine ⟨.skip, object, none, rfl, ?_, .perform⟩
    have same : object = { object with current := .running bindings } := by
      rw [← running]
    rw [same]
    apply related.goOn
    apply CurrentAgrees.of_fine doomed
    intro name member cname converted
    have apart : bindingName operation ≠ some (prefixName cname) := by
      intro named
      rw [named] at system
      cases system
    rw [step_names taken apart]
    exact agrees name member cname converted

omit related

/-- Preparing writes objects only. -/
theorem prepared_names {context prepared : DataContext Kind Value Bytes CString}
    {order : List Oid} (success : context.dataPrepare codec order = some prepared) :
    prepared.names = context.names := by
  simp only [DataContext.dataPrepare, bind_eq_bind, bind_eq_some_iff] at success
  obtain ⟨middle, flushed, success⟩ := success
  split at success
  · cases success
  · cases success
    exact (flushAll_spec flushed).1.names

theorem Related.step (related : Related toLocaleString names server object)
    (expressible : Expressible toLocaleString names)
    (proper : CallsProperly toLocaleString names server action)
    (taken : server.step toLocaleString codec location action = some (next, observation)) :
    ∃ mapAction object' reply,
      transactionalStep performBinding object mapAction = some (object', reply) ∧
      Related toLocaleString names next object' ∧
      Corresponds toLocaleString (action, observation) (mapAction, reply) := by
  cases action with
  | begin answers =>
    cases there : server.transaction with
    | some transaction =>
      simp only [Server.step, there] at taken
      cases taken
    | none =>
      simp only [Server.step, there] at taken
      cases taken
      refine ⟨.begin, { object with current := .running object.committed }, none, ?_, ?_, .begin⟩
      · simp only [transactionalStep, related.idle there]
      · apply related.goOn
        exact CurrentAgrees.of_fine rfl related.committed
  | call call =>
    obtain ⟨transaction, there, taken⟩ := bind_eq_some_iff.mp taken
    split at taken
    · cases called : transaction.call toLocaleString codec location call with
      | mk after outcome =>
        rw [called] at taken
        cases taken
        obtain ⟨cname, converted⟩ := expressible.converts call.name proper.1
        have unharmed : outcome ≠ .crashed := by
          have ends := call_unharmed codec location converted
            (proper.2 transaction there cname converted)
          rwa [called] at ends
        rw [if_neg unharmed]
        exact related.call expressible there proper.1 (proper.2 transaction there) called
    · cases taken
  | perform operation =>
    obtain ⟨transaction, there, taken⟩ := bind_eq_some_iff.mp taken
    split at taken
    · rename_i system
      obtain ⟨⟨context, reply⟩, performed, taken⟩ := bind_eq_some_iff.mp taken
      cases taken
      exact related.perform there system performed
    · cases taken
  | timeOut =>
    obtain ⟨transaction, there, taken⟩ := bind_eq_some_iff.mp taken
    cases taken
    obtain ⟨object', moved, held⟩ := related.doom there
      (show ({ transaction with timedOut := true } : Transaction Kind Value Bytes).doomed = true
        from rfl)
    exact ⟨.doom, object', none, moved, held, .timeOut⟩
  | mark =>
    obtain ⟨transaction, there, taken⟩ := bind_eq_some_iff.mp taken
    cases taken
    have doomed : ({ transaction with marked := true } :
        Transaction Kind Value Bytes).doomed = true := by
      unfold Transaction.doomed rollbackOnly
      simp
    obtain ⟨object', moved, held⟩ := related.doom there doomed
    exact ⟨.doom, object', none, moved, held, .mark⟩
  | commit order =>
    obtain ⟨transaction, there, taken⟩ := bind_eq_some_iff.mp taken
    split at taken
    · cases taken
    · rename_i unspoilt
      obtain ⟨prepared, success, taken⟩ := bind_eq_some_iff.mp taken
      cases taken
      have fine : transaction.doomed = false := by
        unfold Transaction.doomed rollbackOnly
        rw [dataPrepare_fine success]
        simpa using unspoilt
      obtain ⟨bindings, running, agrees⟩ := (related.running transaction there).fine fine
      refine ⟨.commit, ⟨bindings, .idle⟩, none, ?_, ?_, .commit⟩
      · simp only [transactionalStep, running]
      · refine ⟨?_, fun _ => rfl, nofun⟩
        show Agrees toLocaleString names prepared.names bindings
        rwa [prepared_names success]
  | rollback =>
    obtain ⟨transaction, there, taken⟩ := bind_eq_some_iff.mp taken
    cases taken
    have going := (related.running transaction there).not_idle
    refine ⟨.rollback, { object with current := .idle }, none, ?_, ?_, .rollback⟩
    · unfold transactionalStep
      cases current : object.current with
      | idle => exact absurd current going
      | running bindings => rfl
      | doomed => rfl
    · exact ⟨related.committed, fun _ => rfl, nofun⟩

end

/-! ## Runs -/

/-- The encoding of a locale that uses UTF-8. -/
def utf8Locale (name : String) : Option CString :=
  if name.toList.contains (Char.ofNat 0) then none
  else some (name.toList.flatMap String.utf8EncodeChar)

/-- Two names. -/
def roles : Set String := {name | name = "hero" ∨ name = "rogue"}

instance : DecidablePred (· ∈ roles) := fun name =>
  inferInstanceAs (Decidable (name = "hero" ∨ name = "rogue"))

/-- An object is bound in one transaction; in the next one it is found, its binding is removed
and it is bound again under another name. -/
def boundAndRemoved : List (Action Unit Nat) :=
  [.begin fun _ => true, .perform (.allocate 5), .call (.get "hero"), .call (.set "hero" 0 0),
    .call (.set "hero" 0 1), .commit [0], .begin fun _ => true, .call (.get "hero"),
    .call (.remove "hero"), .call (.get "hero"), .call (.set "rogue" 0 1), .commit [0]]

end Gzochi.Api
