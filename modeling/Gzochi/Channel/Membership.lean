import Gzochi.Channel.Relays

/-!
# The members of a channel

The table of channels has for every channel with members a sorted sequence of them.  Where
messages are sent, members that are no longer connected are taken out of it.  A transaction
sends to the members that a channel had when it looked; what is found disconnected then may
be no member any more, and the sequence that the send has hold of may be freed under it.
-/

namespace Gzochi.Channel

open Lib List Function

theorem guint64DataCompare_neg_iff (a b : UInt64) : guint64DataCompare a b < 0 ↔ a < b := by
  unfold guint64DataCompare
  split
  next less => simp [less]
  next notLess => split <;> simp [notLess]

theorem guint64DataCompare_pos_iff (a b : UInt64) : guint64DataCompare a b > 0 ↔ b < a := by
  unfold guint64DataCompare
  split
  next less => simp [UInt64.lt_asymm less]
  next notLess => split <;> simp_all

theorem guint64DataCompare_orders : SearchTree.Orders guint64DataCompare where
  equal := by
    intro a b
    have negative := guint64DataCompare_neg_iff a b
    have positive := guint64DataCompare_pos_iff a b
    constructor
    · intro zero
      apply UInt64.le_antisymm
      · exact UInt64.not_lt.mp fun greater => by
          have := positive.mpr greater
          omega
      · exact UInt64.not_lt.mp fun less => by
          have := negative.mpr less
          omega
    · intro same
      subst same
      have notLess : ¬ guint64DataCompare a a < 0 := fun less =>
        UInt64.lt_irrefl a (negative.mp less)
      have notGreater : ¬ guint64DataCompare a a > 0 := fun greater =>
        UInt64.lt_irrefl a (positive.mp greater)
      omega
  flipped := by
    intro a b
    rw [guint64DataCompare_neg_iff, guint64DataCompare_pos_iff]
  transitive := by
    intro a b c first second
    rw [guint64DataCompare_neg_iff] at first second ⊢
    exact UInt64.lt_trans first second

theorem sorted_iff (sessions : Sessions) :
    sessions.Sorted guint64DataCompare ↔ sessions.toList.Pairwise (· < ·) := by
  unfold SearchTree.Sorted
  apply Iff.of_eq
  congr 1
  funext a b
  rw [guint64DataCompare_orders.before_iff, guint64DataCompare_neg_iff]

/-- The sessions that have joined a channel and have since neither left it nor been purged
from it nor seen it closed. -/
abbrev Members := UInt64 → UInt64 → Bool

namespace Members

def none : Members := fun _ _ => false

def after (members : Members) : Event → Members
  | .joined channelOid sessionOid =>
      update members channelOid
        (update (members channelOid) sessionOid true)
  | .left channelOid sessionOid | .purged channelOid sessionOid =>
      update members channelOid
        (update (members channelOid) sessionOid false)
  | .closed channelOid => update members channelOid fun _ => false
  | .delivered _ _ _ => members

def afterAll (members : Members) (events : List Event) : Members :=
  events.foldl after members

@[simp] theorem afterAll_nil (members : Members) : members.afterAll [] = members := rfl

@[simp] theorem afterAll_cons (members : Members) (event : Event) (events : List Event) :
    members.afterAll (event :: events) = (members.after event).afterAll events := rfl

theorem afterAll_append (members : Members) (early late : List Event) :
    members.afterAll (early ++ late) = (members.afterAll early).afterAll late :=
  foldl_append

end Members

/-- A channel is in the table with all its members in ascending order, or has none. -/
def Listed (member : UInt64 → Bool) : Option Sessions → Prop
  | none => ∀ sessionOid, member sessionOid = false
  | some sessions =>
      sessions.toList ≠ [] ∧ sessions.toList.Pairwise (· < ·) ∧
        ∀ sessionOid, sessionOid ∈ sessions.toList ↔ member sessionOid = true

/-- The table has the members of every channel. -/
def Holds (members : Members) (context : Context) : Prop :=
  ∀ channelOid, Listed (members channelOid) (context.channelOidsToLocalSessionOids channelOid)

namespace Listed

variable {member : UInt64 → Bool} {sessions : Sessions} {sessionOid : UInt64}

theorem find_none_iff (listed : Listed member (some sessions)) :
    sessions.find guint64DataCompare sessionOid = none ↔ member sessionOid = false := by
  rw [guint64DataCompare_orders.find_none_iff ((sorted_iff sessions).mpr listed.2.1),
    listed.2.2 sessionOid]
  exact Bool.not_eq_true _ ▸ Iff.rfl

theorem single (listed : Listed member none) :
    Listed (update member sessionOid true) (some (.node .leaf sessionOid .leaf)) := by
  refine ⟨by simp, by simp, ?_⟩
  intro other
  by_cases this : other = sessionOid
  · subst this
    simp
  · simp [this, listed other]

theorem insert (listed : Listed member (some sessions)) (rebalancing : Rebalancing)
    (missing : sessions.find guint64DataCompare sessionOid = none) :
    Listed (update member sessionOid true)
      (some (rebalancing.apply (sessions.insert guint64DataCompare sessionOid))) := by
  have sorted := (sorted_iff sessions).mpr listed.2.1
  have absent := (guint64DataCompare_orders.find_none_iff sorted).mp missing
  have inserted := guint64DataCompare_orders.sorted_insert sorted absent
  refine ⟨?_, ?_, ?_⟩
  · rw [rebalancing.toList_apply]
    exact ne_nil_of_mem (SearchTree.mem_insert.mpr (.inl rfl))
  · rw [rebalancing.toList_apply]
    exact (sorted_iff _).mp inserted
  · intro other
    rw [rebalancing.toList_apply, SearchTree.mem_insert]
    by_cases this : other = sessionOid
    · subst this
      simp
    · simp [this, listed.2.2 other]

/-- What is left of a sequence when an element is removed, and nothing where it was the
last. -/
theorem remove (listed : Listed member (some sessions)) (rebalancing : Rebalancing) :
    Listed (update member sessionOid false)
      (if (rebalancing.apply (sessions.remove guint64DataCompare sessionOid)).toList = [] then
        none
      else some (rebalancing.apply (sessions.remove guint64DataCompare sessionOid))) := by
  have sorted := (sorted_iff sessions).mpr listed.2.1
  have distinct := guint64DataCompare_orders.nodup sorted
  have removed : (rebalancing.apply (sessions.remove guint64DataCompare sessionOid)).toList =
      sessions.toList.erase sessionOid := by
    rw [rebalancing.toList_apply, guint64DataCompare_orders.toList_remove sorted]
  have rest : ∀ other, other ∈ sessions.toList.erase sessionOid ↔
      update member sessionOid false other = true := by
    intro other
    rw [distinct.mem_erase_iff, listed.2.2 other]
    by_cases this : other = sessionOid
    · subst this
      simp
    · simp [this]
  split
  next empty =>
    rw [removed] at empty
    intro other
    have absent := (rest other).not.mp (by simp [empty])
    exact Bool.eq_false_iff.mpr absent
  next filled =>
    rw [removed] at filled
    refine ⟨removed ▸ filled, ?_, removed ▸ rest⟩
    rw [removed]
    exact listed.2.1.sublist erase_sublist

end Listed

namespace Holds

variable {members : Members} {context : Context} {channelOid sessionOid : UInt64}

variable (holds : Holds members context)
include holds

theorem setSessions {member : UInt64 → Bool}
    {sessions : Option Sessions} (listed : Listed member sessions) :
    Holds (update members channelOid member) (context.setSessions channelOid sessions) := by
  intro other
  unfold Context.setSessions
  by_cases this : other = channelOid
  · subst this
    simpa using listed
  · simpa [this] using holds other

theorem joinDirect (rebalancing : Rebalancing) :
    Holds (members.afterAll (eventsOf (.joined channelOid sessionOid)
        (context.gzochidChannelJoinDirect rebalancing channelOid sessionOid).2))
      (context.gzochidChannelJoinDirect rebalancing channelOid sessionOid).1 := by
  have listed := holds channelOid
  unfold Context.gzochidChannelJoinDirect
  split
  next connected =>
    cases present : context.channelOidsToLocalSessionOids channelOid with
    | none =>
      rw [present] at listed
      exact holds.setSessions listed.single
    | some sessions =>
      rw [present] at listed
      cases missing : sessions.find guint64DataCompare sessionOid with
      | none =>
        simp only [missing]
        exact holds.setSessions (listed.insert rebalancing missing)
      | some found =>
        simp only [missing]
        exact holds
  next disconnected => exact holds

theorem removeSession (rebalancing : Rebalancing) {sessions : Sessions}
    (present : context.channelOidsToLocalSessionOids channelOid = some sessions) :
    Holds (update members channelOid (update (members channelOid) sessionOid false))
      (context.removeSession rebalancing channelOid sessions sessionOid) := by
  have listed := holds channelOid
  rw [present] at listed
  exact holds.setSessions (listed.remove rebalancing)

theorem leaveDirect (rebalancing : Rebalancing) :
    Holds (members.afterAll (eventsOf (.left channelOid sessionOid)
        (context.gzochidChannelLeaveDirect rebalancing channelOid sessionOid).2))
      (context.gzochidChannelLeaveDirect rebalancing channelOid sessionOid).1 := by
  unfold Context.gzochidChannelLeaveDirect
  split
  next connected =>
    cases present : context.channelOidsToLocalSessionOids channelOid with
    | none => exact holds
    | some sessions =>
      cases missing : sessions.find guint64DataCompare sessionOid with
      | none =>
        simp only [missing]
        exact holds
      | some found =>
        simp only [missing]
        exact holds.removeSession rebalancing present
  next disconnected => exact holds

theorem closeDirect : Holds (members.afterAll [.closed channelOid])
      (context.gzochidChannelCloseDirect channelOid) :=
  holds.setSessions fun _ => rfl

end Holds

/-- What the variable is for what is in the table. -/
def Pointer.Fits : Pointer → Option Sessions → Prop
  | .live, some _ => True
  | .null, none => True
  | .freed, none => True
  | _, _ => False

/-- A disconnected session comes after all members of the channel, which are disconnected
too, have been seen. -/
def Overtaken (members : Members) (context : Context) (channelOid : UInt64)
    (sessionOids : List UInt64) : Prop :=
  ∃ before sessionOid rest, sessionOids = before ++ sessionOid :: rest ∧
    context.oidsToClients sessionOid = false ∧
    ∀ member, members channelOid member = true →
      context.oidsToClients member = false ∧ member ∈ before

section Overtaken

variable {members : Members} {context : Context} {channelOid sessionOid : UInt64}
  {rest : List UInt64}

/-- A session is passed that decides nothing. -/
theorem overtaken_cons (passed : context.oidsToClients sessionOid = true ∨
      members channelOid sessionOid = false ∧ ∃ member, members channelOid member = true) :
    Overtaken members context channelOid (sessionOid :: rest) ↔
      Overtaken members context channelOid rest := by
  constructor
  · rintro ⟨before, last, late, whole, disconnected, seen⟩
    cases before with
    | nil =>
      cases whole
      cases passed with
      | inl connected =>
        rw [connected] at disconnected
        cases disconnected
      | inr others =>
        obtain ⟨_, member, present⟩ := others
        cases (seen member present).2
    | cons first before =>
      injection whole with isFirst whole
      subst isFirst
      refine ⟨before, last, late, whole, disconnected, ?_⟩
      intro member present
      obtain ⟨gone, inside⟩ := seen member present
      refine ⟨gone, ?_⟩
      cases mem_cons.mp inside with
      | inl same =>
        subst same
        cases passed with
        | inl connected =>
          rw [connected] at gone
          cases gone
        | inr others =>
          rw [others.1] at present
          cases present
      | inr inside => exact inside
  · rintro ⟨before, last, late, whole, disconnected, seen⟩
    refine ⟨sessionOid :: before, last, late, by rw [whole, cons_append], disconnected, ?_⟩
    intro member present
    obtain ⟨gone, inside⟩ := seen member present
    exact ⟨gone, mem_cons_of_mem _ inside⟩

/-- A member is passed that is purged. -/
theorem overtaken_purged (member : members channelOid sessionOid = true)
    (disconnected : context.oidsToClients sessionOid = false) {purged : Context}
    (clients : purged.oidsToClients = context.oidsToClients) :
    Overtaken members context channelOid (sessionOid :: rest) ↔
      Overtaken (members.after (.purged channelOid sessionOid)) purged channelOid rest := by
  have fewer : ∀ other, members.after (.purged channelOid sessionOid) channelOid other = true ↔
      other ≠ sessionOid ∧ members channelOid other = true := by
    intro other
    by_cases this : other = sessionOid
    · subst this
      simp [Members.after]
    · simp [Members.after, this]
  unfold Overtaken
  rw [clients]
  constructor
  · rintro ⟨before, last, late, whole, gone, seen⟩
    cases before with
    | nil => cases (seen sessionOid member).2
    | cons first before =>
      injection whole with isFirst whole
      subst isFirst
      refine ⟨before, last, late, whole, gone, ?_⟩
      intro other present
      obtain ⟨different, present⟩ := (fewer other).mp present
      obtain ⟨otherGone, inside⟩ := seen other present
      cases mem_cons.mp inside with
      | inl same => exact (different same).elim
      | inr inside => exact ⟨otherGone, inside⟩
  · rintro ⟨before, last, late, whole, gone, seen⟩
    refine ⟨sessionOid :: before, last, late, by rw [whole, cons_append], gone, ?_⟩
    intro other present
    by_cases this : other = sessionOid
    · subst this
      exact ⟨disconnected, mem_cons_self⟩
    · obtain ⟨otherGone, inside⟩ := seen other ((fewer other).mpr ⟨this, present⟩)
      exact ⟨otherGone, mem_cons_of_mem _ inside⟩

end Overtaken

/-- The pointer after a member has been purged. -/
theorem fits_removeSession (rebalancing : Rebalancing) (context : Context)
    (channelOid sessionOid : UInt64) (sessions : Sessions) :
    Pointer.Fits (if ((context.removeSession rebalancing channelOid sessions
          sessionOid).channelOidsToLocalSessionOids channelOid).isSome then .live else .freed)
      ((context.removeSession rebalancing channelOid sessions
        sessionOid).channelOidsToLocalSessionOids channelOid) := by
  cases (context.removeSession rebalancing channelOid sessions
    sessionOid).channelOidsToLocalSessionOids channelOid with
  | none => trivial
  | some sessions => trivial

variable {rebalancing : Rebalancing} {channelOid : UInt64} {message : Message}
  {sessionOids : List UInt64} {members : Members} {context : Context}

variable {pointer : Pointer}

/-- When a freed sequence is searched. -/
theorem sendEach_none_iff (holds : Holds members context)
    (fits : pointer.Fits (context.channelOidsToLocalSessionOids channelOid)) :
    sendEach rebalancing channelOid message sessionOids context pointer = none ↔
      pointer ≠ .null ∧ Overtaken members context channelOid sessionOids := by
  induction sessionOids generalizing members context pointer with
  | nil =>
    constructor
    · intro lost
      cases lost
    · rintro ⟨_, before, _, _, whole, _⟩
      exact (append_ne_nil_of_right_ne_nil before (cons_ne_nil _ _) whole.symm).elim
  | cons sessionOid rest ih =>
    unfold sendEach
    split
    next connected =>
      rw [Option.map_eq_none_iff, ih holds fits, overtaken_cons (.inl connected)]
    next notConnected =>
      have disconnected := Bool.eq_false_iff.mpr notConnected
      have listed := holds channelOid
      cases pointer with
      | freed =>
        cases present : context.channelOidsToLocalSessionOids channelOid with
        | some sessions =>
          rw [present] at fits
          exact fits.elim
        | none =>
          rw [present] at listed
          refine ⟨fun _ => ⟨by decide, [], sessionOid, rest, rfl, disconnected, ?_⟩,
            fun _ => rfl⟩
          intro member isMember
          rw [listed member] at isMember
          cases isMember
      | null =>
        cases present : context.channelOidsToLocalSessionOids channelOid with
        | some sessions =>
          rw [present] at fits
          exact fits.elim
        | none =>
          simp only
          rw [ih holds fits]
          exact ⟨fun lost => (lost.1 rfl).elim, fun lost => (lost.1 rfl).elim⟩
      | live =>
        cases present : context.channelOidsToLocalSessionOids channelOid with
        | none =>
          rw [present] at fits
          exact fits.elim
        | some sessions =>
          rw [present] at listed
          cases search : sessions.find guint64DataCompare sessionOid with
          | none =>
            obtain ⟨first, inside⟩ := exists_mem_of_ne_nil _ listed.1
            have others : members channelOid sessionOid = false ∧
                ∃ member, members channelOid member = true :=
              ⟨listed.find_none_iff.mp search, first, (listed.2.2 first).mp inside⟩
            simp only [search]
            rw [ih holds fits, overtaken_cons (.inr others)]
          | some found =>
            have isMember : members channelOid sessionOid = true := by
              rw [← Bool.not_eq_false, ← listed.find_none_iff, search]
              exact Option.some_ne_none found
            simp only [search]
            rw [Option.map_eq_none_iff, ih (holds.removeSession rebalancing present)
                (fits_removeSession rebalancing context channelOid sessionOid sessions),
              overtaken_purged isMember disconnected rfl]
            refine and_congr_left fun _ => ?_
            constructor
            · intro _
              decide
            · intro _
              split <;> decide

/-- The sessions to which a message has been sent. -/
def deliveries (events : List Event) : List (UInt64 × UInt64 × Message) :=
  events.filterMap fun
    | .delivered channelOid sessionOid message => some (channelOid, sessionOid, message)
    | _ => none

/-- What sending to some sessions does: each connected one gets the message once, and
exactly the disconnected ones are members no more. -/
structure Sent (members : Members) (context : Context) (channelOid : UInt64)
    (sessionOids : List UInt64) (message : Message) (events : List Event) : Prop where
  delivered : deliveries events =
    (sessionOids.filter context.oidsToClients).map fun sessionOid =>
      (channelOid, sessionOid, message)
  purged : ∀ otherOid sessionOid, members.afterAll events otherOid sessionOid = true ↔
    members otherOid sessionOid = true ∧
      ¬ (otherOid = channelOid ∧ sessionOid ∈ sessionOids ∧
        context.oidsToClients sessionOid = false)

section Sent

variable {members : Members} {context : Context} {channelOid sessionOid : UInt64}
  {rest : List UInt64} {message : Message} {events : List Event}

theorem Sent.deliver (sent : Sent members context channelOid rest message events)
    (connected : context.oidsToClients sessionOid = true) :
    Sent members context channelOid (sessionOid :: rest) message
      (.delivered channelOid sessionOid message :: events) where
  delivered := by
    rw [filter_cons_of_pos connected, map_cons, ← sent.delivered]
    rfl
  purged := by
    intro otherOid other
    rw [Members.afterAll_cons, Members.after, sent.purged]
    refine and_congr_right fun _ => not_congr (and_congr_right fun _ => ?_)
    constructor
    · rintro ⟨inside, gone⟩
      exact ⟨mem_cons_of_mem _ inside, gone⟩
    · rintro ⟨inside, gone⟩
      cases mem_cons.mp inside with
      | inl same =>
        rw [same, connected] at gone
        cases gone
      | inr inside => exact ⟨inside, gone⟩

/-- A disconnected session that is no member changes nothing. -/
theorem Sent.pass (sent : Sent members context channelOid rest message events)
    (disconnected : context.oidsToClients sessionOid = false)
    (noMember : members channelOid sessionOid = false) :
    Sent members context channelOid (sessionOid :: rest) message events where
  delivered := by
    rw [filter_cons_of_neg (by simp [disconnected])]
    exact sent.delivered
  purged := by
    intro otherOid other
    rw [sent.purged]
    refine and_congr_right fun present => not_congr (and_congr_right fun this => ?_)
    refine and_congr_left fun _ => ?_
    constructor
    · exact mem_cons_of_mem _
    · intro inside
      cases mem_cons.mp inside with
      | inl same =>
        rw [this, same, noMember] at present
        cases present
      | inr inside => exact inside

theorem Sent.purge {purged : Context} (clients : purged.oidsToClients = context.oidsToClients)
    (sent : Sent (members.after (.purged channelOid sessionOid)) purged channelOid rest message
      events)
    (disconnected : context.oidsToClients sessionOid = false) :
    Sent members context channelOid (sessionOid :: rest) message
      (.purged channelOid sessionOid :: events) where
  delivered := by
    rw [filter_cons_of_neg (by simp [disconnected]), ← clients, ← sent.delivered]
    rfl
  purged := by
    intro otherOid other
    rw [Members.afterAll_cons, sent.purged, clients]
    by_cases channel : otherOid = channelOid
    · subst channel
      by_cases this : other = sessionOid
      · subst this
        simp [Members.after, disconnected]
      · simp [Members.after, this]
    · simp [Members.after, channel]

end Sent

variable {after : Context} {events : List Event}

theorem sendEach_sent (holds : Holds members context)
    (fits : pointer.Fits (context.channelOidsToLocalSessionOids channelOid))
    (sent : sendEach rebalancing channelOid message sessionOids context pointer =
      some (after, events)) :
    Holds (members.afterAll events) after ∧
      Sent members context channelOid sessionOids message events := by
  induction sessionOids generalizing members context pointer events with
  | nil =>
    cases sent
    exact ⟨holds, rfl, by simp⟩
  | cons sessionOid rest ih =>
    unfold sendEach at sent
    split at sent
    next connected =>
      obtain ⟨later, sentLater, same⟩ := Option.map_eq_some_iff.mp sent
      cases same
      obtain ⟨holdsLater, spec⟩ := ih holds fits sentLater
      exact ⟨holdsLater, spec.deliver connected⟩
    next notConnected =>
      have disconnected := Bool.eq_false_iff.mpr notConnected
      have listed := holds channelOid
      cases present : context.channelOidsToLocalSessionOids channelOid with
      | none =>
        rw [present] at sent listed
        have passes : sendEach rebalancing channelOid message rest context pointer =
            some (after, events) := by
          cases pointer with
          | freed => cases sent
          | null => exact sent
          | live =>
            rw [present] at fits
            exact fits.elim
        obtain ⟨holdsLater, spec⟩ := ih holds fits passes
        exact ⟨holdsLater, spec.pass disconnected (listed sessionOid)⟩
      | some sessions =>
        rw [present] at sent listed
        cases pointer with
        | freed => cases sent
        | null =>
          rw [present] at fits
          exact fits.elim
        | live =>
          simp only at sent
          split at sent
          next search =>
            obtain ⟨holdsLater, spec⟩ := ih holds fits sent
            exact ⟨holdsLater, spec.pass disconnected (listed.find_none_iff.mp search)⟩
          next =>
            obtain ⟨later, sentLater, same⟩ := Option.map_eq_some_iff.mp sent
            cases same
            obtain ⟨holdsLater, spec⟩ :=
              ih (holds.removeSession rebalancing present)
                (fits_removeSession rebalancing context channelOid sessionOid sessions)
                sentLater
            have clients : (context.removeSession rebalancing channelOid sessions
                sessionOid).oidsToClients = context.oidsToClients := rfl
            exact ⟨holdsLater, Sent.purge clients spec disconnected⟩

/-- The list of sessions is older than the membership: when the last member of the channel
is purged there is a disconnected session of the list still to come, for which the sequence
that has been freed is searched. -/
def Stale (context : Context) (channelOid : UInt64) (sessionOids : List UInt64) : Prop :=
  ∃ sessions, context.channelOidsToLocalSessionOids channelOid = some sessions ∧
    ∃ before sessionOid rest, sessionOids = before ++ sessionOid :: rest ∧
      context.oidsToClients sessionOid = false ∧
      ∀ member ∈ sessions.toList, context.oidsToClients member = false ∧ member ∈ before

/-- The variable when a send begins. -/
theorem fits_ofLookup (sessions : Option Sessions) : (Pointer.ofLookup sessions).Fits sessions := by
  cases sessions <;> trivial

theorem sendDirect_none_iff (holds : Holds members context) :
    sendChannelMessageDirect rebalancing context channelOid sessionOids message = none ↔
      Stale context channelOid sessionOids := by
  have listed := holds channelOid
  unfold sendChannelMessageDirect Stale
  rw [sendEach_none_iff holds (fits_ofLookup _)]
  cases present : context.channelOidsToLocalSessionOids channelOid with
  | none => simp [Pointer.ofLookup]
  | some sessions =>
    rw [present] at listed
    simp only [Pointer.ofLookup, ne_eq, reduceCtorEq, not_false_eq_true, true_and,
      Option.some.injEq,
      exists_eq_left', listed.2.2]
    rfl

theorem sendDirect_sent (holds : Holds members context)
    (sent : sendChannelMessageDirect rebalancing context channelOid sessionOids message =
      some (after, events)) :
    Holds (members.afterAll events) after ∧
      Sent members context channelOid sessionOids message events :=
  sendEach_sent holds (fits_ofLookup _) sent

/-- The list that a channel's members make up. -/
def Context.membersOf (context : Context) (channelOid : UInt64) : List UInt64 :=
  match context.channelOidsToLocalSessionOids channelOid with
  | some sessions => sessions.toList
  | none => []

theorem Holds.membersOf (holds : Holds members context) (channelOid : UInt64) :
    (context.membersOf channelOid).Pairwise (· < ·) ∧
      ∀ sessionOid, sessionOid ∈ context.membersOf channelOid ↔
        members channelOid sessionOid = true := by
  have listed := holds channelOid
  unfold Context.membersOf
  cases present : context.channelOidsToLocalSessionOids channelOid with
  | none =>
    rw [present] at listed
    exact ⟨.nil, fun sessionOid => by simp [listed sessionOid]⟩
  | some sessions =>
    rw [present] at listed
    exact listed.2

/-- Nothing is stale about the members themselves. -/
theorem not_stale_members (holds : Holds members context) (channelOid : UInt64) :
    ¬ Stale context channelOid (context.membersOf channelOid) := by
  rintro ⟨sessions, present, before, sessionOid, rest, whole, _, seen⟩
  have sorted := (holds.membersOf channelOid).1
  have distinct : (context.membersOf channelOid).Nodup := sorted.imp UInt64.ne_of_lt
  have inside : sessionOid ∈ sessions.toList := by
    have same : context.membersOf channelOid = sessions.toList := by
      rw [Context.membersOf, present]
    rw [← same, whole]
    exact mem_append_right _ mem_cons_self
  rw [whole, nodup_append] at distinct
  exact distinct.2.2 sessionOid (seen sessionOid inside).2 sessionOid mem_cons_self rfl

theorem Sent.nobody (members : Members) (context : Context) (channelOid : UInt64)
    (message : Message) : Sent members context channelOid [] message [] :=
  ⟨rfl, by simp⟩

/-- Messages from other nodes are sent to the members of the channel. -/
theorem messageDirect_sent (rebalancing : Rebalancing) (holds : Holds members context)
    (channelOid : UInt64) (message : Message) :
    ∃ after events,
      gzochidChannelMessageDirect rebalancing context channelOid message = some (after, events) ∧
        Holds (members.afterAll events) after ∧
        Sent members context channelOid (context.membersOf channelOid) message events := by
  have listed := holds channelOid
  have current := not_stale_members holds channelOid
  unfold gzochidChannelMessageDirect
  unfold Context.membersOf at current ⊢
  cases present : context.channelOidsToLocalSessionOids channelOid with
  | none => exact ⟨context, [], rfl, holds, .nobody members context channelOid message⟩
  | some sessions =>
    rw [present] at listed current
    simp only [ne_eq, listed.1, not_false_eq_true, if_true]
    have possible : sendChannelMessageDirect rebalancing context channelOid sessions.toList
        message ≠ none := fun lost => current ((sendDirect_none_iff holds).mp lost)
    obtain ⟨⟨after, events⟩, sent⟩ := Option.ne_none_iff_exists'.mp possible
    exact ⟨after, events, sent, sendDirect_sent holds sent⟩

end Gzochi.Channel
