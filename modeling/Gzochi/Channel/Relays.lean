import Gzochi.Channel.Model

/-!
# What is relayed to the meta server

Of the operations whose side effects are committed, joins and leaves are never relayed, and
a close is relayed exactly when the channel had members on this node at the time it was
performed.  What is to be relayed is relayed, once and in order, exactly when no operation
of the transaction falls into a gap between the two.
-/

namespace Gzochi.Channel

open Lib List Gzochi.Channel.System

/-- What a step that commits no side effect does to a transaction. -/
inductive Moves (context : Context) : Transaction → Transaction → Prop where
  | scheduled (operations : List Operation) (operation : Operation) :
      Moves context (.scheduling operations) (.scheduling (operations ++ [operation]))
  | committed (operations : List Operation) :
      Moves context (.scheduling operations) (.committed operations none)
  | rolledBack (operations : List Operation) :
      Moves context (.scheduling operations) .rolledBack
  | performed (operation : Operation) (rest : List Operation) :
      Moves context (.committed (operation :: rest) none)
        (.committed (operation :: rest)
          (some (context, context.channelOperationWorker operation none)))
  | sideEffectRolledBack (operations : List Operation)
      (performed : Context × Option SideEffect) :
      Moves context (.committed operations (some performed)) (.committed operations none)
  | abandoned (operations : List Operation) :
      Moves context (.committed operations none) (.committed [] none)

/-- The transaction that an action is about. -/
def Action.concerns : Action → Option Nat
  | .schedule index _ | .commit index | .rollback index | .perform index
  | .commitSideEffect index | .rollbackSideEffect index | .abandon index => some index
  | _ => none

/-- A step as far as transactions and relays go. -/
inductive Does (system : System) (action : Action) : System → Observation → Prop where
  | outside {context : Context} {events : List Event} (unconcerned : action.concerns = none)
      (kept : context.metaclient = system.context.metaclient) :
      Does system action { system with context := context } (.ofEvents events)
  | begun (unconcerned : action.concerns = none) :
      Does system action
        { system with transactions := system.transactions ++ [.scheduling []] } .quiet
  | moved {index : Nat} {before after : Transaction} (concerned : action.concerns = some index)
      (here : system.transactions[index]? = some before)
      (moves : Moves system.context before after) :
      Does system action (system.setTransaction index after) .quiet
  | carried {rebalancing : Rebalancing} {index : Nat} {operation : Operation}
      {rest : List Operation} {performedIn : Context} {sideEffect : Option SideEffect}
      {committed : Committed} (concerned : action.concerns = some index)
      (here : system.transactions[index]? =
        some (.committed (operation :: rest) (some (performedIn, sideEffect))))
      (commits : channelSideEffectCommit rebalancing system.context sideEffect = some committed) :
      Does system action
        (System.setTransaction { system with context := committed.context } index
          (.committed rest none))
        ⟨committed.events, committed.relayed, some ⟨operation, performedIn, system.context⟩⟩
  | lost : Does system action { system with lost := true } .quiet

theorem metaclient_joinDirect (rebalancing : Rebalancing) (context : Context)
    (channelOid sessionOid : UInt64) :
    (context.gzochidChannelJoinDirect rebalancing channelOid sessionOid).1.metaclient =
      context.metaclient := by
  unfold Context.gzochidChannelJoinDirect
  split
  next => split <;> first | rfl | (split <;> rfl)
  next => rfl

theorem metaclient_leaveDirect (rebalancing : Rebalancing) (context : Context)
    (channelOid sessionOid : UInt64) :
    (context.gzochidChannelLeaveDirect rebalancing channelOid sessionOid).1.metaclient =
      context.metaclient := by
  unfold Context.gzochidChannelLeaveDirect
  split
  next => split <;> first | rfl | (split <;> rfl)
  next => rfl

variable {rebalancing : Rebalancing} {context : Context}

variable {channelOid : UInt64} {message : Message} {after : Context} {events : List Event}

variable {sessionOids : List UInt64}

/-- Sending messages only ever changes the table of channels. -/
theorem kept_sendEach {pointer : Pointer}
    (sent : sendEach rebalancing channelOid message sessionOids context pointer =
      some (after, events)) :
    after.metaclient = context.metaclient ∧ after.oidsToClients = context.oidsToClients := by
  induction sessionOids generalizing context pointer events with
  | nil =>
    cases sent
    exact ⟨rfl, rfl⟩
  | cons sessionOid rest ih =>
    unfold sendEach at sent
    split at sent
    next connected =>
      obtain ⟨later, sentLater, same⟩ := Option.map_eq_some_iff.mp sent
      cases same
      exact ih sentLater
    next disconnected =>
      split at sent
      next => cases sent
      next sessions present =>
        split at sent
        next => exact ih sent
        next =>
          obtain ⟨later, sentLater, same⟩ := Option.map_eq_some_iff.mp sent
          cases same
          have kept := ih sentLater
          exact kept
      next => exact ih sent

theorem metaclient_sendDirect
    (sent : sendChannelMessageDirect rebalancing context channelOid sessionOids message =
      some (after, events)) : after.metaclient = context.metaclient :=
  (kept_sendEach sent).1

theorem metaclient_messageDirect
    (sent : gzochidChannelMessageDirect rebalancing context channelOid message =
      some (after, events)) : after.metaclient = context.metaclient := by
  unfold gzochidChannelMessageDirect at sent
  split at sent
  next =>
    cases sent
    rfl
  next =>
    split at sent
    next => exact metaclient_sendDirect sent
    next =>
      cases sent
      rfl

variable {committed : Committed}

variable {sideEffect : Option SideEffect}

theorem metaclient_sideEffectCommit
    (commits : channelSideEffectCommit rebalancing context sideEffect = some committed) :
    committed.context.metaclient = context.metaclient := by
  cases sideEffect with
  | none =>
    cases commits
    rfl
  | some sideEffect =>
    cases sideEffect with
    | join channelOid sessionOid =>
      have kept := metaclient_joinDirect rebalancing context channelOid sessionOid
      cases commits
      exact kept
    | leave channelOid sessionOid =>
      have kept := metaclient_leaveDirect rebalancing context channelOid sessionOid
      cases commits
      exact kept
    | send channelOid sessionOids message =>
      obtain ⟨sent, done, rfl⟩ := Option.map_eq_some_iff.mp commits
      exact metaclient_sendDirect done
    | close channelOid =>
      cases commits
      rfl

variable {system next : System} {action : Action} {observation : Observation}

theorem does_sent {result : Option (Context × List Event)} (unconcerned : action.concerns = none)
    (kept : ∀ {context events}, result = some (context, events) →
      context.metaclient = system.context.metaclient)
    (sent : system.sent result = (next, observation)) : Does system action next observation := by
  cases result with
  | none =>
    cases sent
    exact .lost
  | some delivered =>
    obtain ⟨context, events⟩ := delivered
    cases sent
    exact .outside unconcerned (kept rfl)

theorem does_of_step (taken : step system (action, rebalancing) = some (next, observation)) :
    Does system action next observation := by
  obtain ⟨_, taken⟩ := Option.ite_none_left_eq_some.mp taken
  cases action with
  | connect sessionOid | disconnect sessionOid | closeDirect channelOid =>
    cases taken
    exact .outside rfl rfl
  | joinDirect channelOid sessionOid =>
    cases taken
    exact .outside rfl (metaclient_joinDirect _ _ _ _)
  | leaveDirect channelOid sessionOid =>
    cases taken
    exact .outside rfl (metaclient_leaveDirect _ _ _ _)
  | messageDirect channelOid message =>
    injection taken with sent
    exact does_sent rfl metaclient_messageDirect sent
  | begin =>
    cases taken
    exact .begun rfl
  | schedule index operation =>
    simp only at taken
    split at taken
    next operations here =>
      cases taken
      exact .moved rfl here (.scheduled operations operation)
    next => cases taken
  | commit index =>
    simp only at taken
    split at taken
    next operations here =>
      cases taken
      exact .moved rfl here (.committed operations)
    next => cases taken
  | rollback index =>
    simp only at taken
    split at taken
    next operations here =>
      cases taken
      exact .moved rfl here (.rolledBack operations)
    next => cases taken
  | perform index =>
    simp only at taken
    split at taken
    next operation rest here =>
      cases taken
      exact .moved rfl here (.performed operation rest)
    next => cases taken
  | commitSideEffect index =>
    simp only at taken
    split at taken
    next operation rest performedIn sideEffect here =>
      split at taken
      next =>
        cases taken
        exact .lost
      next committed commits =>
        cases taken
        exact .carried rfl here commits
    next => cases taken
  | rollbackSideEffect index =>
    simp only at taken
    split at taken
    next operations performed here =>
      cases taken
      exact .moved rfl here (.sideEffectRolledBack operations performed)
    next => cases taken
  | abandon index =>
    simp only at taken
    split at taken
    next operations here =>
      cases taken
      exact .moved rfl here (.abandoned operations)
    next => cases taken

def Relay.isMessage : Relay → Bool
  | .message _ _ => true
  | _ => false

/-- Relays of joins, leaves and closes. -/
def memberships (relays : List Relay) : List Relay :=
  relays.filter fun relay => !relay.isMessage

/-- What is to be relayed of an operation: joins and leaves of sessions that are not
connected to this node, and every close. -/
def due (carried : Carried) : List Relay :=
  match carried.operation with
  | .join channelOid sessionOid =>
      if carried.committedIn.oidsToClients sessionOid then []
      else [.join channelOid sessionOid]
  | .leave channelOid sessionOid =>
      if carried.committedIn.oidsToClients sessionOid then []
      else [.leave channelOid sessionOid]
  | .close channelOid => [.close channelOid]
  | .send _ _ => []

/-- The operations of which nothing is lost: joins and leaves of sessions connected to this
node, and closes of channels that had members on this node when they were performed. -/
def WithoutGap (carried : Carried) : Prop :=
  match carried.operation with
  | .join _ sessionOid | .leave _ sessionOid => carried.committedIn.oidsToClients sessionOid = true
  | .close channelOid =>
      (carried.performedIn.channelOidsToLocalSessionOids channelOid).isSome = true
  | .send _ _ => True

/-- What is relayed. -/
def relays (carried : Carried) : List Relay :=
  match carried.operation with
  | .close channelOid =>
      if (carried.performedIn.channelOidsToLocalSessionOids channelOid).isSome then
        [.close channelOid]
      else []
  | _ => []

/-- Nothing is relayed that is not to be relayed. -/
theorem length_relays_le (carried : Carried) : (relays carried).length ≤ (due carried).length := by
  unfold relays due
  cases carried.operation with
  | close channelOid =>
    cases present : (carried.performedIn.channelOidsToLocalSessionOids channelOid).isSome with
    | false => simp [present]
    | true => simp [present]
  | join channelOid sessionOid => exact Nat.zero_le _
  | leave channelOid sessionOid => exact Nat.zero_le _
  | send channelOid message => exact Nat.le_refl _

theorem relays_eq_due_iff (carried : Carried) :
    relays carried = due carried ↔ WithoutGap carried := by
  unfold relays due WithoutGap
  cases carried.operation with
  | join channelOid sessionOid | leave channelOid sessionOid =>
    cases carried.committedIn.oidsToClients sessionOid <;> simp
  | close channelOid =>
    cases present : (carried.performedIn.channelOidsToLocalSessionOids channelOid).isSome with
    | false => simp [present]
    | true => simp [present]
  | send channelOid message => simp

/-- Operation by operation, the lists are as long as each other only where they are the
same. -/
theorem flatMap_eq_iff {carried : List Carried} :
    carried.flatMap relays = carried.flatMap due ↔ ∀ one ∈ carried, WithoutGap one := by
  have shorter : ∀ more : List Carried,
      (more.flatMap relays).length ≤ (more.flatMap due).length := by
    intro more
    induction more with
    | nil => exact Nat.le_refl _
    | cons one more ih =>
      rw [flatMap_cons, flatMap_cons, length_append, length_append]
      exact Nat.add_le_add (length_relays_le one) ih
  induction carried with
  | nil => simp
  | cons one more ih =>
    rw [flatMap_cons, flatMap_cons, forall_mem_cons, ← relays_eq_due_iff]
    refine Iff.trans ?_ (and_congr_right fun _ => ih)
    constructor
    · intro same
      have lengths := congrArg List.length same
      rw [length_append, length_append] at lengths
      have first := length_relays_le one
      have rest := shorter more
      exact append_inj same (by omega)
    · intro same
      rw [same.1, same.2]

/-- The relays of a side effect, messages apart. -/
def closing (context : Context) : Option SideEffect → List Relay
  | some (.close channelOid) => if context.metaclient then [.close channelOid] else []
  | _ => []

/-- The shadowed variable keeps joins and leaves from being relayed. -/
theorem memberships_sideEffectCommit
    (commits : channelSideEffectCommit rebalancing context sideEffect = some committed) :
    memberships committed.relayed = closing context sideEffect := by
  cases sideEffect with
  | none =>
    cases commits
    rfl
  | some sideEffect =>
    cases sideEffect with
    | join channelOid sessionOid =>
      cases joined : context.gzochidChannelJoinDirect rebalancing channelOid sessionOid with
      | mk after err =>
        simp only [channelSideEffectCommit, joined, Option.some.injEq] at commits
        subst commits
        cases err with
        | none => rfl
        | some error => simp [memberships, closing]
    | leave channelOid sessionOid =>
      cases left : context.gzochidChannelLeaveDirect rebalancing channelOid sessionOid with
      | mk after result =>
        simp only [channelSideEffectCommit, left, Option.some.injEq] at commits
        subst commits
        rfl
    | send channelOid sessionOids message =>
      obtain ⟨sent, _, rfl⟩ := Option.map_eq_some_iff.mp commits
      simp only [closing]
      cases context.metaclient <;> rfl
    | close channelOid =>
      cases commits
      simp only [closing]
      cases context.metaclient <;> rfl

/-- What is relayed of an operation that is performed and then committed. -/
theorem memberships_commit {operation : Operation} {performedIn committedIn : Context}
    (distributed : committedIn.metaclient = true)
    (commits : channelSideEffectCommit rebalancing committedIn
      (performedIn.channelOperationWorker operation none) = some committed) :
    memberships committed.relayed = relays ⟨operation, performedIn, committedIn⟩ := by
  rw [memberships_sideEffectCommit commits]
  cases operation with
  | join channelOid sessionOid =>
    have nothing : ∀ acts : Bool, closing committedIn
        (if acts then some (.join channelOid sessionOid) else none) = [] := by
      intro acts
      cases acts <;> rfl
    exact nothing _
  | leave channelOid sessionOid =>
    have nothing : ∀ acts : Bool, closing committedIn
        (if acts then some (.leave channelOid sessionOid) else none) = [] := by
      intro acts
      cases acts <;> rfl
    exact nothing _
  | send channelOid message =>
    simp only [Context.channelOperationWorker, Context.sendChannelMessage, relays]
    split <;> rfl
  | close channelOid =>
    simp only [Context.channelOperationWorker, Context.closeChannel, relays]
    split
    next => simp [closing, distributed]
    next => rfl

abbrev Trace := List ((Action × Rebalancing) × Observation)

/-- What a transaction has relayed in a run. -/
def relayedBy (index : Nat) (trace : Trace) : List Relay :=
  trace.flatMap fun taken =>
    if taken.1.1.concerns = some index then memberships taken.2.relayed else []

/-- The operations of a transaction whose side effects have been committed in a run. -/
def carriedBy (index : Nat) (trace : Trace) : List Carried :=
  trace.flatMap fun taken =>
    if taken.1.1.concerns = some index then taken.2.carried.toList else []

theorem relayedBy_append (index : Nat) (early late : Trace) :
    relayedBy index (early ++ late) = relayedBy index early ++ relayedBy index late :=
  flatMap_append

theorem carriedBy_append (index : Nat) (early late : Trace) :
    carriedBy index (early ++ late) = carriedBy index early ++ carriedBy index late :=
  flatMap_append

/-- What a side effect that has not been committed was made of. -/
def Transaction.Performed : Transaction → Prop
  | .committed operations (some (performedIn, sideEffect)) =>
      ∃ operation rest, operations = operation :: rest ∧
        sideEffect = performedIn.channelOperationWorker operation none
  | _ => True

def Transaction.isCommitted : Transaction → Bool
  | .committed _ _ => true
  | _ => false

/-- Every side effect that waits for its transaction is what its operation has set. -/
def System.Performed (system : System) : Prop :=
  ∀ (index : Nat) (transaction : Transaction),
    system.transactions[index]? = some transaction → transaction.Performed

theorem System.Performed.start (metaclient : Bool) : (start metaclient).Performed := by
  intro index transaction found
  cases found

variable {before : Transaction}

theorem Moves.performed_after {after : Transaction} (moves : Moves context before after) :
    after.Performed := by
  cases moves with
  | scheduled => trivial
  | committed => trivial
  | rolledBack => trivial
  | performed operation rest => exact ⟨operation, rest, rfl, rfl⟩
  | sideEffectRolledBack => trivial
  | abandoned => trivial

theorem System.Performed.setTransaction (holds : system.Performed) {index : Nat}
    {transaction : Transaction} (performed : transaction.Performed) :
    (system.setTransaction index transaction).Performed := by
  intro other found there
  by_cases this : other = index
  · subst this
    rw [System.setTransaction, List.getElem?_set] at there
    simp only [if_true] at there
    obtain ⟨_, there⟩ := Option.ite_none_right_eq_some.mp there
    injection there with same
    exact same ▸ performed
  · rw [System.setTransaction, List.getElem?_set_ne (Ne.symm this)] at there
    exact holds _ _ there

theorem Does.performed (does : Does system action next observation) (holds : system.Performed) :
    next.Performed := by
  cases does with
  | outside => exact holds
  | begun =>
    intro index transaction found
    cases mem_append.mp (mem_of_getElem? found) with
    | inl member =>
      obtain ⟨place, there⟩ := mem_iff_getElem?.mp member
      exact holds _ _ there
    | inr member =>
      rw [mem_singleton.mp member]
      trivial
  | moved concerned here moves => exact holds.setTransaction moves.performed_after
  | @carried _ _ _ rest _ _ committed _ _ _ =>
    have kept : Performed { system with context := committed.context } := holds
    have performed : (Transaction.committed rest none).Performed := trivial
    exact kept.setTransaction performed
  | lost => exact holds

/-- What a run has to do with the node it leads to. -/
structure Relayed (trace : Trace) (system : System) : Prop where
  distributed : system.context.metaclient = true
  performed : system.Performed
  relayed : ∀ index, relayedBy index trace = (carriedBy index trace).flatMap relays
  carried : ∀ {index : Nat}, carriedBy index trace ≠ [] →
    ∃ transaction, system.transactions[index]? = some transaction ∧
      transaction.isCommitted = true

theorem Relayed.start : Relayed [] (start true) where
  distributed := rfl
  performed := Performed.start true
  relayed := fun _ => rfl
  carried := fun some => (some rfl).elim

theorem Moves.isCommitted {after : Transaction} (moves : Moves context before after)
    (committed : before.isCommitted = true) :
    after.isCommitted = true := by
  cases moves with
  | scheduled => cases committed
  | committed => cases committed
  | rolledBack => cases committed
  | performed => rfl
  | sideEffectRolledBack => rfl
  | abandoned => rfl

variable {taken : (Action × Rebalancing) × Observation}

/-- A step that relays nothing. -/
theorem quiet_append (trace : Trace) (unrelayed : taken.2.relayed = [])
    (uncarried : taken.2.carried = none) (index : Nat) :
    relayedBy index (trace ++ [taken]) = relayedBy index trace ∧
      carriedBy index (trace ++ [taken]) = carriedBy index trace := by
  rw [relayedBy_append, carriedBy_append]
  simp [relayedBy, carriedBy, memberships, unrelayed, uncarried]

variable {trace : Trace}

/-- A step that relays nothing keeps what was to be shown when it keeps which transactions
are committed. -/
theorem Relayed.quiet (holds : Relayed trace system) (unrelayed : taken.2.relayed = [])
    (uncarried : taken.2.carried = none)
    (distributed : next.context.metaclient = system.context.metaclient)
    (performed : next.Performed) (committed : ∀ {index : Nat} {transaction : Transaction},
      system.transactions[index]? = some transaction → transaction.isCommitted = true →
        ∃ after, next.transactions[index]? = some after ∧ after.isCommitted = true) :
    Relayed (trace ++ [taken]) next where
  distributed := distributed.trans holds.distributed
  performed := performed
  relayed := by
    intro index
    obtain ⟨sameRelays, sameCarried⟩ := quiet_append trace unrelayed uncarried index
    rw [sameRelays, sameCarried]
    exact holds.relayed index
  carried := by
    intro index some
    rw [(quiet_append trace unrelayed uncarried index).2] at some
    obtain ⟨transaction, there, isCommitted⟩ := holds.carried some
    exact committed there isCommitted

theorem Relayed.step (holds : Relayed trace system)
    (taken : Channel.step system (action, rebalancing) = some (next, observation)) :
    Relayed (trace ++ [((action, rebalancing), observation)]) next := by
  have does := does_of_step taken
  have performed := does.performed holds.performed
  cases does with
  | outside unconcerned kept =>
    exact holds.quiet rfl rfl kept performed fun there committed => ⟨_, there, committed⟩
  | begun unconcerned =>
    refine holds.quiet rfl rfl rfl performed ?_
    intro index transaction there committed
    refine ⟨transaction, ?_, committed⟩
    exact (List.getElem?_append_left (List.getElem?_eq_some_iff.mp there).1).trans there
  | @moved index before after concerned here moves =>
    have inside := (List.getElem?_eq_some_iff.mp here).1
    refine holds.quiet rfl rfl rfl performed ?_
    intro other transaction there committed
    simp only [System.setTransaction]
    by_cases this : other = index
    · subst this
      rw [here] at there
      cases there
      exact ⟨after, List.getElem?_set_self inside, moves.isCommitted committed⟩
    · rw [List.getElem?_set_ne (Ne.symm this)]
      exact ⟨transaction, there, committed⟩
  | @carried rebalancing index operation rest performedIn sideEffect committed concerned here
      commits =>
      have inside := (List.getElem?_eq_some_iff.mp here).1
      obtain ⟨first, more, whole, made⟩ := holds.performed _ _ here
      injection whole with sameOperation _
      subst sameOperation made
      have relayed := memberships_commit holds.distributed commits
      exact
        { distributed := (metaclient_sideEffectCommit commits).trans holds.distributed
          performed := performed
          relayed := by
            intro other
            rw [relayedBy_append, carriedBy_append, flatMap_append, holds.relayed other]
            by_cases this : other = index
            · subst this
              simp [relayedBy, carriedBy, concerned, relayed]
            · simp [relayedBy, carriedBy, concerned, Ne.symm this]
          carried := by
            intro other some
            simp only [System.setTransaction]
            by_cases this : other = index
            · subst this
              exact ⟨_, List.getElem?_set_self inside, rfl⟩
            · rw [List.getElem?_set_ne (Ne.symm this)]
              apply holds.carried
              intro empty
              apply some
              rw [carriedBy_append, empty]
              simp [carriedBy, concerned, Ne.symm this] }
  | lost =>
    exact holds.quiet rfl rfl rfl performed fun there committed => ⟨_, there, committed⟩

/-- In every run of a node in distributed mode, what a transaction has relayed is, in order,
what was to be relayed of its operations that are carried out, exactly when there is a gap
at none of them.  Only commits relay anything, so that a transaction that is rolled back
relays nothing. -/
theorem relays_follow_operations {trace : Trace} {system : System}
    (run : Run Channel.step anyAction (start true) trace system) (index : Nat) :
    (relayedBy index trace = (carriedBy index trace).flatMap due ↔
      ∀ carried ∈ carriedBy index trace, WithoutGap carried) ∧
    (system.transactions[index]? = some .rolledBack → relayedBy index trace = []) ∧
    ∀ taken ∈ trace, taken.2.carried = none → taken.2.relayed = [] := by
  have holds : Relayed trace system := run.invariant Relayed .start
    fun _ holds _ taken => holds.step taken
  refine ⟨?_, ?_, ?_⟩
  · rw [holds.relayed index]
    exact flatMap_eq_iff
  · intro rolledBack
    rw [holds.relayed index]
    by_cases none : carriedBy index trace = []
    · rw [none]
      rfl
    · obtain ⟨transaction, there, committed⟩ := holds.carried none
      rw [rolledBack] at there
      cases there
      cases committed
  · refine run.invariant (fun trace _ => ∀ taken ∈ trace, taken.2.carried = none →
      taken.2.relayed = []) (fun _ member => nomatch member) ?_
    intro trace system action next observation _ holds _ stepped taken member uncarried
    cases mem_append.mp member with
    | inl member => exact holds taken member uncarried
    | inr member =>
        have same := mem_singleton.mp member
        subst same
        obtain ⟨action, rebalancing⟩ := action
        cases does_of_step stepped with
        | outside => rfl
        | begun => rfl
        | moved => rfl
        | carried => cases uncarried
        | lost => rfl

/-- A close of a channel that has a member here, after a join: both steps of the way. -/
def closed : List (Action × Rebalancing) :=
  [.connect 1, .joinDirect 7 1, .begin, .schedule 0 (.close 7), .commit 0, .perform 0,
    .commitSideEffect 0].map fun action => (action, .none)

/-- The close is relayed once. -/
theorem relays_follow_operations_closed :
    ∃ trace system, Run Channel.step anyAction (start true) trace system ∧
      relayedBy 0 trace = [.close 7] ∧ relayedBy 0 trace = (carriedBy 0 trace).flatMap due := by
  have run := run_of_exec (show exec Channel.step (start true) closed = some (_, _)
    from rfl)
  refine ⟨_, _, run, rfl, (relays_follow_operations run 0).1.mpr ?_⟩
  intro carried member
  cases mem_singleton.mp member
  rfl

/-- A transaction that adds a session of another node to a channel and closes a channel that
has no members on this node. -/
def unrelayed : List (Action × Rebalancing) :=
  [.begin, .schedule 0 (.join 7 1), .schedule 0 (.close 8), .commit 0, .perform 0,
    .commitSideEffect 0, .perform 0, .commitSideEffect 0].map fun action => (action, .none)

/-- Nothing is relayed where a join and a close were to be. -/
theorem join_and_close_not_relayed :
    ∃ trace system, Run Channel.step anyAction (start true) trace system ∧
      relayedBy 0 trace = [] ∧ (carriedBy 0 trace).flatMap due = [.join 7 1, .close 8] :=
  ⟨_, _, run_of_exec (show exec Channel.step (start true) unrelayed = some (_, _)
    from rfl), rfl, rfl⟩

end Gzochi.Channel
