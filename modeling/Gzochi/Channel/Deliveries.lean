import Gzochi.Channel.Membership

/-!
# Members and messages in runs of a node

What is in the table after a run, and what a message does.  The only steps that break with
it are those that commit a send for sessions of which the list has become stale.
-/

namespace Gzochi.Channel

open Lib List

variable {rebalancing : Rebalancing} {members : Members}

variable {context : Context} {sideEffect : Option SideEffect}

theorem sideEffectCommit_holds {committed : Committed} (holds : Holds members context)
    (commits : channelSideEffectCommit rebalancing context sideEffect = some committed) :
    Holds (members.afterAll committed.events) committed.context := by
  cases sideEffect with
  | none =>
    cases commits
    exact holds
  | some sideEffect =>
    cases sideEffect with
    | join channelOid sessionOid =>
      cases commits
      exact holds.joinDirect rebalancing
    | leave channelOid sessionOid =>
      cases commits
      exact holds.leaveDirect rebalancing
    | send channelOid sessionOids message =>
      obtain ⟨⟨after, events⟩, done, rfl⟩ := Option.map_eq_some_iff.mp commits
      exact (sendDirect_sent holds done).1
    | close channelOid =>
      cases commits
      exact holds.closeDirect

/-- Only a send can lose the node. -/
theorem sideEffectCommit_none_iff (rebalancing : Rebalancing) (holds : Holds members context) :
    channelSideEffectCommit rebalancing context sideEffect = none ↔
      ∃ channelOid sessionOids message, sideEffect = some (.send channelOid sessionOids message) ∧
        Stale context channelOid sessionOids := by
  cases sideEffect with
  | none => simp [channelSideEffectCommit]
  | some sideEffect =>
    cases sideEffect with
    | join channelOid sessionOid | leave channelOid sessionOid | close channelOid =>
          simp [channelSideEffectCommit]
    | send channelOid sessionOids message =>
      simp only [channelSideEffectCommit, Option.map_eq_none_iff, sendDirect_none_iff holds]
      constructor
      · intro stale
        exact ⟨channelOid, sessionOids, message, rfl, stale⟩
      · rintro ⟨_, _, _, same, stale⟩
        cases same
        exact stale

/-- The condition under which the node is not lost: no send is committed whose list of
sessions has become stale. -/
def Unstale (system : System) (action : Action × Rebalancing) : Prop :=
  match action.1 with
  | .commitSideEffect index =>
      ∀ operation rest performedIn channelOid sessionOids message,
        system.transactions[index]? = some (.committed (operation :: rest)
          (some (performedIn, some (.send channelOid sessionOids message)))) →
        ¬ Stale system.context channelOid sessionOids
  | _ => True

variable {system next : System} {action : Action} {observation : Observation}

/-- A step keeps the table and the members together. -/
theorem step_holds (holds : Holds members system.context)
    (taken : step system (action, rebalancing) = some (next, observation)) :
    Holds (members.afterAll observation.events) next.context := by
  simp only [step] at taken
  split at taken
  next => cases taken
  next =>
    cases action with
    | connect sessionOid | disconnect sessionOid | begin =>
      cases taken
      exact holds
    | joinDirect channelOid sessionOid =>
      cases taken
      exact holds.joinDirect rebalancing
    | leaveDirect channelOid sessionOid =>
      cases taken
      exact holds.leaveDirect rebalancing
    | closeDirect channelOid =>
      cases taken
      exact holds.closeDirect
    | messageDirect channelOid message =>
      obtain ⟨after, events, sent, holdsAfter, _⟩ :=
        messageDirect_sent rebalancing holds channelOid message
      simp only [sent] at taken
      cases taken
      exact holdsAfter
    | commitSideEffect index =>
      simp only at taken
      split at taken
      next operation rest performedIn sideEffect here =>
        split at taken
        next =>
          cases taken
          exact holds
        next committed commits =>
          cases taken
          exact sideEffectCommit_holds holds commits
      next => cases taken
    | schedule | commit | rollback | perform | rollbackSideEffect | abandon =>
      simp only at taken
      split at taken
      next =>
        cases taken
        exact holds
      next => cases taken

/-- A node is lost exactly in a step that does not meet the condition. -/
theorem step_lost_iff (holds : Holds members system.context)
    (taken : step system (action, rebalancing) = some (next, observation)) :
    next.lost = true ↔ ¬ Unstale system (action, rebalancing) := by
  simp only [step] at taken
  split at taken
  next => cases taken
  next running =>
    have harmless : Unstale system (action, rebalancing) → next.lost = system.lost →
        (next.lost = true ↔ ¬ Unstale system (action, rebalancing)) := by
      intro unstale same
      rw [same]
      exact ⟨fun lost => (running lost).elim, fun stale => (stale unstale).elim⟩
    cases action with
    | connect | disconnect | joinDirect | leaveDirect | closeDirect | begin =>
      cases taken
      exact harmless trivial rfl
    | messageDirect channelOid message =>
      obtain ⟨after, events, sent, _⟩ :=
        messageDirect_sent rebalancing holds channelOid message
      simp only [sent] at taken
      cases taken
      exact harmless trivial rfl
    | commitSideEffect index =>
      simp only at taken
      split at taken
      next operation rest performedIn sideEffect here =>
        split at taken
        next none =>
          cases taken
          obtain ⟨channelOid, sessionOids, message, sends, stale⟩ :=
            (sideEffectCommit_none_iff rebalancing holds).mp none
          subst sends
          exact ⟨fun _ unstale => unstale _ _ _ _ _ _ here stale, fun _ => rfl⟩
        next committed commits =>
          cases taken
          refine harmless ?_ rfl
          intro otherOperation otherRest otherContext channelOid sessionOids message there stale
          rw [here] at there
          cases there
          have none := (sideEffectCommit_none_iff rebalancing holds).mpr
            ⟨channelOid, sessionOids, message, rfl, stale⟩
          rw [commits] at none
          cases none
      next => cases taken
    | schedule | commit | rollback | perform | rollbackSideEffect | abandon =>
      simp only at taken
      split at taken
      next =>
        cases taken
        exact harmless trivial rfl
      next => cases taken

/-- The steps in which a message is sent to a channel, with the context whose members it is
for: those of the moment, or those at the time a transaction looked. -/
inductive Sends (system : System) : Action → UInt64 → Message → Context → Prop where
  | direct (channelOid : UInt64) (message : Message) :
      Sends system (.messageDirect channelOid message) channelOid message system.context
  | committed {index : Nat} {channelOid : UInt64} {message : Message} {rest : List Operation}
      {performedIn : Context} {sideEffect : Option SideEffect}
      (here : system.transactions[index]? =
        some (.committed (.send channelOid message :: rest) (some (performedIn, sideEffect)))) :
      Sends system (.commitSideEffect index) channelOid message performedIn

/-- The side effect of a send is for the members of the channel. -/
theorem sendChannelMessage_eq (context : Context) (channelOid : UInt64) (message : Message) :
    context.sendChannelMessage channelOid message none =
        some (.send channelOid (context.membersOf channelOid) message) ∨
      context.sendChannelMessage channelOid message none = none ∧
        context.membersOf channelOid = [] := by
  unfold Context.sendChannelMessage Context.membersOf
  cases context.channelOidsToLocalSessionOids channelOid with
  | none => cases context.metaclient <;> simp
  | some sessions => simp

theorem step_sent {channelOid : UInt64} {message : Message} {performedIn : Context}
    (holds : Holds members system.context) (performed : system.Performed)
    (sends : Sends system action channelOid message performedIn)
    (taken : step system (action, rebalancing) = some (next, observation))
    (kept : next.lost = false) :
    Sent members system.context channelOid (performedIn.membersOf channelOid) message
      observation.events := by
  obtain ⟨running, taken⟩ := Option.ite_none_left_eq_some.mp taken
  cases sends with
  | direct =>
    obtain ⟨after, events, sent, _, spec⟩ :=
      messageDirect_sent rebalancing holds channelOid message
    simp only [sent] at taken
    cases taken
    exact spec
  | committed here =>
    obtain ⟨operation, rest, whole, made⟩ := performed _ _ here
    injection whole with sameOperation _
    subst sameOperation made
    simp only [here] at taken
    split at taken
    next =>
      cases taken
      cases kept
    next committed commits =>
      cases taken
      cases sendChannelMessage_eq performedIn channelOid message with
      | inl sets =>
        simp only [Context.channelOperationWorker, sets] at commits
        obtain ⟨⟨after, events⟩, done, rfl⟩ := Option.map_eq_some_iff.mp commits
        exact (sendDirect_sent holds done).2
      | inr nobody =>
        simp only [Context.channelOperationWorker, nobody.1] at commits
        cases commits
        rw [nobody.2]
        exact .nobody members system.context channelOid message

/-- The members of channels after a run. -/
def membersOfRun (trace : Trace) : Members :=
  Members.none.afterAll (trace.flatMap fun taken => taken.2.events)

theorem membersOfRun_append (trace : Trace) (taken : (Action × Rebalancing) × Observation) :
    membersOfRun (trace ++ [taken]) = (membersOfRun trace).afterAll taken.2.events := by
  unfold membersOfRun
  rw [flatMap_append, Members.afterAll_append, flatMap_cons, flatMap_nil, append_nil]

/-- What a transaction has looked at was there at some time of the run. -/
def Looked (trace : Trace) (system : System) : Prop :=
  ∀ (index : Nat) (operations : List Operation) (performedIn : Context)
    (sideEffect : Option SideEffect),
    system.transactions[index]? = some (.committed operations (some (performedIn, sideEffect))) →
      ∃ early, early <+: trace ∧ Holds (membersOfRun early) performedIn

variable {trace : Trace}

theorem looked_step (taken : (Action × Rebalancing) × Observation)
    (does : Does system action next observation)
    (holds : Holds (membersOfRun trace) system.context) (looked : Looked trace system) :
    Looked (trace ++ [taken]) next := by
  have before : Looked (trace ++ [taken]) system := by
    intro index operations performedIn sideEffect there
    obtain ⟨early, earlier, held⟩ := looked index operations performedIn sideEffect there
    exact ⟨early, earlier.trans (prefix_append _ _), held⟩
  have changed : ∀ (transactions : List Transaction) (index : Nat) (after : Transaction),
      transactions = system.transactions →
      (∀ operations performedIn sideEffect,
        after = Transaction.committed operations (some (performedIn, sideEffect)) →
          performedIn = system.context) →
      ∀ (other : Nat) operations performedIn sideEffect, (transactions.set index after)[other]? =
          some (Transaction.committed operations (some (performedIn, sideEffect))) →
        ∃ early, early <+: trace ++ [taken] ∧ Holds (membersOfRun early) performedIn := by
    intro transactions index after same now other operations performedIn sideEffect there
    subst same
    rw [List.getElem?_set] at there
    split at there
    next =>
      obtain ⟨_, there⟩ := Option.ite_none_right_eq_some.mp there
      injection there with isAfter
      rw [now operations performedIn sideEffect isAfter]
      exact ⟨trace, prefix_append _ _, holds⟩
    next => exact before other operations performedIn sideEffect there
  cases does with
  | outside => exact before
  | begun =>
    intro index operations performedIn sideEffect there
    cases mem_append.mp (mem_of_getElem? there) with
    | inl member =>
      obtain ⟨place, found⟩ := mem_iff_getElem?.mp member
      exact before place operations performedIn sideEffect found
    | inr member => cases mem_singleton.mp member
  | @moved index _ after _ _ moves =>
    refine changed _ index after rfl ?_
    intro operations performedIn sideEffect isAfter
    cases moves with
    | performed =>
      cases isAfter
      rfl
    | scheduled | committed | rolledBack | sideEffectRolledBack | abandoned => cases isAfter
  | carried =>
    refine changed _ _ _ rfl ?_
    intro operations performedIn sideEffect isAfter
    cases isAfter
  | lost => exact before

/-- What a run has to do with the table of the node it leads to. -/
structure Kept (trace : Trace) (system : System) : Prop where
  running : system.lost = false
  holds : Holds (membersOfRun trace) system.context
  performed : system.Performed
  looked : Looked trace system

theorem Kept.start (metaclient : Bool) : Kept [] (System.start metaclient) where
  running := rfl
  holds := fun _ _ => rfl
  performed := System.Performed.start metaclient
  looked := by
    intro index operations performedIn sideEffect there
    cases there

theorem Kept.step {action : Action × Rebalancing} (kept : Kept trace system)
    (unstale : Unstale system action)
    (taken : Channel.step system action = some (next, observation)) :
    Kept (trace ++ [(action, observation)]) next where
  running := by
    have lost := step_lost_iff kept.holds taken
    exact Bool.eq_false_iff.mpr fun isLost => lost.mp isLost unstale
  holds := by
    rw [membersOfRun_append]
    exact step_holds kept.holds taken
  performed := (does_of_step taken).performed kept.performed
  looked := looked_step _ (does_of_step taken) kept.holds kept.looked

/-- In every run in which no send is committed whose list of sessions has become stale, the
table has the members of every channel, and of a message each member for which it is gets
one if it is connected and is purged if it is not.  A step that does not meet the condition
uses freed memory. -/
theorem channels_hold_members {metaclient : Bool} {trace : Trace} {system : System}
    (run : Run Channel.step Unstale (System.start metaclient) trace system) :
    system.lost = false ∧ Holds (membersOfRun trace) system.context ∧
    ∀ {action : Action} {rebalancing : Rebalancing} {next : System} {observation : Observation},
      Channel.step system (action, rebalancing) = some (next, observation) →
      (next.lost = true ↔ ¬ Unstale system (action, rebalancing)) ∧
      ∀ {channelOid : UInt64} {message : Message} {performedIn : Context},
        Sends system action channelOid message performedIn → next.lost = false →
        (performedIn.membersOf channelOid).Pairwise (· < ·) ∧
        (∃ early, early <+: trace ∧ ∀ sessionOid, sessionOid ∈ performedIn.membersOf channelOid ↔
            membersOfRun early channelOid sessionOid = true) ∧
        Sent (membersOfRun trace) system.context channelOid (performedIn.membersOf channelOid)
          message observation.events := by
  have kept : Kept trace system := run.invariant Kept (.start metaclient)
    fun _ kept unstale taken => kept.step unstale taken
  refine ⟨kept.running, kept.holds, ?_⟩
  intro action rebalancing next observation taken
  refine ⟨step_lost_iff kept.holds taken, ?_⟩
  intro channelOid message performedIn sends running
  have sent := step_sent kept.holds kept.performed sends taken running
  cases sends with
  | direct =>
      obtain ⟨sorted, same⟩ := kept.holds.membersOf channelOid
      exact ⟨sorted, ⟨trace, prefix_refl trace, same⟩, sent⟩
  | committed here =>
      obtain ⟨early, earlier, held⟩ := kept.looked _ _ _ _ here
      obtain ⟨sorted, same⟩ := held.membersOf channelOid
      exact ⟨sorted, ⟨early, earlier, same⟩, sent⟩

/-- A channel with two members, one of which is disconnected. -/
def halfConnected : List (Action × Rebalancing) :=
  [.connect 1, .connect 2, .joinDirect 7 2, .joinDirect 7 1, .disconnect 1].map
    fun action => (action, .none)

/-- A message is delivered to the one member, and the other is purged. -/
theorem channels_hold_members_halfConnected : ∃ trace system next observation,
      Run Channel.step Unstale (System.start false) trace system ∧
      membersOfRun trace 7 1 = true ∧
      Channel.step system (.messageDirect 7 [], .none) = some (next, observation) ∧
      deliveries observation.events = [(7, 2, [])] ∧
      (membersOfRun trace).afterAll observation.events 7 1 = false := by
  have permitted : ∀ action ∈ halfConnected, ∀ system, Unstale system action := by
    intro action member system
    obtain ⟨act, listed, rfl⟩ := mem_map.mp member
    simp only [mem_cons, not_mem_nil, or_false] at listed
    rcases listed with same | same | same | same | same <;> subst same <;> trivial
  have run := Run.nil.append_exec permitted
    (show exec Channel.step (System.start false) halfConnected = some (_, _) from rfl)
  have taken : Channel.step (stateAfter Channel.step (System.start false) halfConnected)
      (.messageDirect 7 [], .none) = some (_, _) := rfl
  obtain ⟨_, _, sent⟩ := ((channels_hold_members run).2.2 taken).2 (.direct 7 []) rfl
  refine ⟨_, _, _, _, run, rfl, taken, sent.delivered.trans rfl, ?_⟩
  apply Bool.eq_false_iff.mpr
  intro present
  exact ((sent.purged 7 1).mp present).2 ⟨rfl, by decide, rfl⟩

/-- A transaction sends to two members; before its side effect is committed one of them has
left and both are disconnected. -/
def overtaken : List (Action × Rebalancing) :=
  [.connect 1, .connect 2, .joinDirect 7 1, .joinDirect 7 2, .begin, .schedule 0 (.send 7 []),
    .commit 0, .perform 0, .leaveDirect 7 2, .disconnect 1, .disconnect 2,
    .commitSideEffect 0].map fun action => (action, .none)

/-- The sequence is freed when the first is purged, and searched for the second. -/
theorem freed_sequence_searched :
    ∃ trace system, Run Channel.step anyAction (System.start false) trace system ∧
      system.lost = true :=
  ⟨_, _, run_of_exec (show exec Channel.step (System.start false) overtaken = some (_, _)
    from rfl), rfl⟩

end Gzochi.Channel
