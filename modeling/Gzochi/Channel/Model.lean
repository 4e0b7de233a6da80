import Gzochi.Lib.Runs
import Gzochi.Lib.SearchTree

/-!
# Channels of an application server node

`channel.c`.  A transaction of a game application schedules operations on channels as a
chain of tasks, which is there if the transaction commits.  Each task of the chain runs in a
transaction of its own; it looks at the members that the channel has on this node and may
set a side effect, which is carried out when that transaction commits.  In distributed mode
the side effects are relayed to the meta server, so that other nodes can carry them out;
what they relay in turn comes in as direct operations.

The members are a sequence of GLib for each channel, a binary tree in which positions are
found by the comparison function.
-/

namespace Gzochi.Channel

open Lib

/-- `gzochid_util_guint64_data_compare`. -/
def guint64DataCompare (a b : UInt64) : Int := if a < b then -1 else if a > b then 1 else 0

abbrev Sessions := SearchTree UInt64

abbrev Rebalancing := SearchTree.Rebalancing UInt64

abbrev Message := List UInt8

inductive ChannelError where
  | alreadyMember
  | notMapped
  | notMember
  deriving DecidableEq

/-- The fields of `gzochid_application_context` that the channel service uses: the members
of channels, the sessions with a client that is connected to this node, and whether there is
a meta server. -/
structure Context where
  channelOidsToLocalSessionOids : UInt64 → Option Sessions
  oidsToClients : UInt64 → Bool
  metaclient : Bool

/-- What happens to a session on a channel. -/
inductive Event where
  | joined (channelOid sessionOid : UInt64)
  | left (channelOid sessionOid : UInt64)
  | closed (channelOid : UInt64)
  | purged (channelOid sessionOid : UInt64)
  | delivered (channelOid sessionOid : UInt64) (message : Message)
  deriving DecidableEq

/-- What is written to the meta server. -/
inductive Relay where
  | message (channelOid : UInt64) (message : Message)
  | close (channelOid : UInt64)
  | join (channelOid sessionOid : UInt64)
  | leave (channelOid sessionOid : UInt64)
  deriving DecidableEq

namespace Context

/-- `g_hash_table_insert` and `g_hash_table_remove` on the table of channels. -/
def setSessions (context : Context) (channelOid : UInt64) (sessions : Option Sessions) :
    Context :=
  { context with
    channelOidsToLocalSessionOids :=
      Function.update context.channelOidsToLocalSessionOids channelOid sessions }

/-- A session that is found is removed from a sequence, and a sequence that is empty then
from the table. -/
def removeSession (rebalancing : Rebalancing) (context : Context) (channelOid : UInt64)
    (sessions : Sessions) (sessionOid : UInt64) : Context :=
  let sessions := rebalancing.apply (sessions.remove guint64DataCompare sessionOid)
  context.setSessions channelOid (if sessions.toList = [] then none else some sessions)

/-- `gzochid_channel_join_direct`. -/
def gzochidChannelJoinDirect (rebalancing : Rebalancing) (context : Context)
    (channelOid sessionOid : UInt64) : Context × Option ChannelError :=
  if context.oidsToClients sessionOid then
    match context.channelOidsToLocalSessionOids channelOid with
    | none => (context.setSessions channelOid (some (.node .leaf sessionOid .leaf)), none)
    | some sessions =>
        match sessions.find guint64DataCompare sessionOid with
        | none =>
            (context.setSessions channelOid
              (some (rebalancing.apply (sessions.insert guint64DataCompare sessionOid))), none)
        | some _ => (context, some .alreadyMember)
  else
    (context, some .notMapped)

/-- `gzochid_channel_leave_direct`. -/
def gzochidChannelLeaveDirect (rebalancing : Rebalancing) (context : Context)
    (channelOid sessionOid : UInt64) : Context × Option ChannelError :=
  if context.oidsToClients sessionOid then
    match context.channelOidsToLocalSessionOids channelOid with
    | none => (context, some .notMember)
    | some sessions =>
        match sessions.find guint64DataCompare sessionOid with
        | none => (context, some .notMember)
        | some _ => (context.removeSession rebalancing channelOid sessions sessionOid, none)
  else
    (context, some .notMapped)

/-- `gzochid_channel_close_direct`. -/
def gzochidChannelCloseDirect (context : Context) (channelOid : UInt64) : Context :=
  context.setSessions channelOid none

end Context

/-- The variable `sessions` of `send_channel_message_direct`: null, the sequence that the
table holds, or one that has been freed. -/
inductive Pointer where
  | null
  | live
  | freed
  deriving DecidableEq

/-- What `g_hash_table_lookup` gives at the beginning. -/
def Pointer.ofLookup : Option Sessions → Pointer
  | none => .null
  | some _ => .live

/-- The loop of `send_channel_message_direct`.  No result means that a sequence was searched
that had been freed.  The check in `g_sequence_lookup` lets a null pointer pass. -/
def sendEach (rebalancing : Rebalancing) (channelOid : UInt64) (message : Message) :
    List UInt64 → Context → Pointer → Option (Context × List Event)
  | [], context, _ => some (context, [])
  | sessionOid :: rest, context, pointer =>
      if context.oidsToClients sessionOid then
        (sendEach rebalancing channelOid message rest context pointer).map fun sent =>
          (sent.1, .delivered channelOid sessionOid message :: sent.2)
      else
        match pointer, context.channelOidsToLocalSessionOids channelOid with
        | .freed, _ => none
        | .live, some sessions =>
            match sessions.find guint64DataCompare sessionOid with
            | none => sendEach rebalancing channelOid message rest context .live
            | some _ =>
                let purged := context.removeSession rebalancing channelOid sessions sessionOid
                let pointer :=
                  if (purged.channelOidsToLocalSessionOids channelOid).isSome then .live
                  else .freed
                (sendEach rebalancing channelOid message rest purged pointer).map fun sent =>
                  (sent.1, .purged channelOid sessionOid :: sent.2)
        | _, _ => sendEach rebalancing channelOid message rest context pointer

/-- `send_channel_message_direct`. -/
def sendChannelMessageDirect (rebalancing : Rebalancing) (context : Context)
    (channelOid : UInt64) (sessionOids : List UInt64) (message : Message) :
    Option (Context × List Event) :=
  sendEach rebalancing channelOid message sessionOids context
    (.ofLookup (context.channelOidsToLocalSessionOids channelOid))

/-- `gzochid_channel_message_direct`. -/
def gzochidChannelMessageDirect (rebalancing : Rebalancing) (context : Context)
    (channelOid : UInt64) (message : Message) : Option (Context × List Event) :=
  match context.channelOidsToLocalSessionOids channelOid with
  | none => some (context, [])
  | some sessions =>
      if sessions.toList ≠ [] then
        sendChannelMessageDirect rebalancing context channelOid sessions.toList message
      else
        some (context, [])

/-- `gzochid_channel_side_effect`. -/
inductive SideEffect where
  | join (channelOid sessionOid : UInt64)
  | leave (channelOid sessionOid : UInt64)
  | send (channelOid : UInt64) (sessionOids : List UInt64) (message : Message)
  | close (channelOid : UInt64)
  deriving DecidableEq

/-- `gzochid_channel_pending_operation`. -/
inductive Operation where
  | join (channelOid sessionOid : UInt64)
  | leave (channelOid sessionOid : UInt64)
  | send (channelOid : UInt64) (message : Message)
  | close (channelOid : UInt64)
  deriving DecidableEq

/-- What a commit does: to the context, to sessions, and for the meta server. -/
structure Committed where
  context : Context
  events : List Event
  relayed : List Relay

/-- The result of a direct operation that may fail. -/
def eventsOf (event : Event) : Option ChannelError → List Event
  | none => [event]
  | some _ => []

/-- `channel_side_effect_commit`; no result where a freed sequence was searched. -/
def channelSideEffectCommit (rebalancing : Rebalancing) (context : Context) :
    Option SideEffect → Option Committed
  | none => some ⟨context, [], []⟩
  | some sideEffect =>
      let channelclient := context.metaclient
      match sideEffect with
      | .send channelOid sessionOids message =>
          (sendChannelMessageDirect rebalancing context channelOid sessionOids message).map
            fun sent =>
              ⟨sent.1, sent.2, if channelclient then [.message channelOid message] else []⟩
      | .close channelOid =>
          some ⟨context.gzochidChannelCloseDirect channelOid, [.closed channelOid],
            if channelclient then [.close channelOid] else []⟩
      | .join channelOid sessionOid =>
          -- The block of the membership operations declares a variable of the same name.
          let channelclient := false
          let (context, err) := context.gzochidChannelJoinDirect rebalancing channelOid sessionOid
          let relayed :=
            match err with
            | some error =>
                if error ≠ .notMapped ∧ channelclient = true then
                  [.join channelOid sessionOid]
                else []
            | none => []
          some ⟨context, eventsOf (.joined channelOid sessionOid) err, relayed⟩
      | .leave channelOid sessionOid =>
          let channelclient := false
          -- The error is not asked for, so that `err` stays null.
          let err : Option ChannelError := none
          let (context, result) :=
            context.gzochidChannelLeaveDirect rebalancing channelOid sessionOid
          let relayed :=
            match err with
            | some error =>
                if error ≠ .notMapped ∧ channelclient = true then
                  [.leave channelOid sessionOid]
                else []
            | none => []
          some ⟨context, eventsOf (.left channelOid sessionOid) result, relayed⟩

namespace Context

/-- `close_channel`; the side effect of the transaction before and after. -/
def closeChannel (context : Context) (channelOid : UInt64) (sideEffect : Option SideEffect) :
    Option SideEffect :=
  if (context.channelOidsToLocalSessionOids channelOid).isSome then some (.close channelOid)
  else sideEffect

/-- `send_channel_message`. -/
def sendChannelMessage (context : Context) (channelOid : UInt64) (message : Message)
    (sideEffect : Option SideEffect) : Option SideEffect :=
  let sessions := context.channelOidsToLocalSessionOids channelOid
  if sessions.isSome || context.metaclient then
    let sessionOids :=
      match sessions with
      | some sessions => sessions.toList
      | none => []
    some (.send channelOid sessionOids message)
  else
    sideEffect

/-- `join_channel`. -/
def joinChannel (context : Context) (channelOid sessionOid : UInt64)
    (sideEffect : Option SideEffect) : Option SideEffect :=
  let doJoin :=
    match context.channelOidsToLocalSessionOids channelOid with
    | some sessions => (sessions.find guint64DataCompare sessionOid).isNone
    | none => true
  if doJoin then some (.join channelOid sessionOid) else sideEffect

/-- `leave_channel`. -/
def leaveChannel (context : Context) (channelOid sessionOid : UInt64)
    (sideEffect : Option SideEffect) : Option SideEffect :=
  let doLeave :=
    match context.channelOidsToLocalSessionOids channelOid with
    | some sessions => (sessions.find guint64DataCompare sessionOid).isSome
    | none => false
  if doLeave then some (.leave channelOid sessionOid) else sideEffect

/-- `channel_operation_worker`. -/
def channelOperationWorker (context : Context) (operation : Operation)
    (sideEffect : Option SideEffect) : Option SideEffect :=
  match operation with
  | .join channelOid sessionOid => context.joinChannel channelOid sessionOid sideEffect
  | .leave channelOid sessionOid => context.leaveChannel channelOid sessionOid sideEffect
  | .send channelOid message => context.sendChannelMessage channelOid message sideEffect
  | .close channelOid => context.closeChannel channelOid sideEffect

end Context

/-- A transaction of a game application: still scheduling operations, committed with a chain
of operations left to be performed, or rolled back.  Where the first operation of the chain
has been performed in a transaction that has not ended, that transaction's side effect is
there, and for observers the context it was performed in. -/
inductive Transaction where
  | scheduling (operations : List Operation)
  | committed (operations : List Operation) (performed : Option (Context × Option SideEffect))
  | rolledBack

/-- A node that is lost has used memory that was freed. -/
structure System where
  context : Context
  transactions : List Transaction
  lost : Bool

/-- A new node. -/
def System.start (metaclient : Bool) : System where
  context := ⟨fun _ => none, fun _ => false, metaclient⟩
  transactions := []
  lost := false

inductive Action where
  | connect (sessionOid : UInt64)
  | disconnect (sessionOid : UInt64)
  | joinDirect (channelOid sessionOid : UInt64)
  | leaveDirect (channelOid sessionOid : UInt64)
  | closeDirect (channelOid : UInt64)
  | messageDirect (channelOid : UInt64) (message : Message)
  | begin
  | schedule (index : Nat) (operation : Operation)
  | commit (index : Nat)
  | rollback (index : Nat)
  | perform (index : Nat)
  | commitSideEffect (index : Nat)
  | rollbackSideEffect (index : Nat)
  | abandon (index : Nat)
  deriving DecidableEq

/-- An operation whose side effect has been committed, with the contexts in which it was
performed and committed. -/
structure Carried where
  operation : Operation
  performedIn : Context
  committedIn : Context

structure Observation where
  events : List Event
  relayed : List Relay
  carried : Option Carried

def Observation.quiet : Observation := ⟨[], [], none⟩

def Observation.ofEvents (events : List Event) : Observation := ⟨events, [], none⟩

namespace System

def setTransaction (system : System) (index : Nat) (transaction : Transaction) : System :=
  { system with transactions := system.transactions.set index transaction }

/-- The node after messages have been sent, which may have used freed memory. -/
def sent (system : System) : Option (Context × List Event) → System × Observation
  | none => ({ system with lost := true }, .quiet)
  | some (context, events) => ({ system with context := context }, .ofEvents events)

end System

/-- One step of a node.  A transaction that cannot be retried takes its chain with it. -/
def step (system : System) : Action × Rebalancing → Option (System × Observation)
  | (action, rebalancing) =>
      if system.lost then none
      else
        let context := system.context
        match action with
        | .connect sessionOid =>
            some ({ system with context :=
                { context with
                  oidsToClients := Function.update context.oidsToClients sessionOid true } },
              .quiet)
        | .disconnect sessionOid =>
            some ({ system with context :=
                { context with
                  oidsToClients := Function.update context.oidsToClients sessionOid false } },
              .quiet)
        | .joinDirect channelOid sessionOid =>
            let (context, err) :=
              context.gzochidChannelJoinDirect rebalancing channelOid sessionOid
            some ({ system with context := context },
              .ofEvents (eventsOf (.joined channelOid sessionOid) err))
        | .leaveDirect channelOid sessionOid =>
            let (context, err) :=
              context.gzochidChannelLeaveDirect rebalancing channelOid sessionOid
            some ({ system with context := context },
              .ofEvents (eventsOf (.left channelOid sessionOid) err))
        | .closeDirect channelOid =>
            some ({ system with context := context.gzochidChannelCloseDirect channelOid },
              .ofEvents [.closed channelOid])
        | .messageDirect channelOid message =>
            some (system.sent (gzochidChannelMessageDirect rebalancing context channelOid message))
        | .begin =>
            some ({ system with transactions := system.transactions ++ [.scheduling []] }, .quiet)
        | .schedule index operation =>
            match system.transactions[index]? with
            | some (.scheduling operations) =>
                some (system.setTransaction index (.scheduling (operations ++ [operation])), .quiet)
            | _ => none
        | .commit index =>
            match system.transactions[index]? with
            | some (.scheduling operations) =>
                some (system.setTransaction index (.committed operations none), .quiet)
            | _ => none
        | .rollback index =>
            match system.transactions[index]? with
            | some (.scheduling _) => some (system.setTransaction index .rolledBack, .quiet)
            | _ => none
        | .perform index =>
            match system.transactions[index]? with
            | some (.committed (operation :: rest) none) =>
                some (system.setTransaction index (.committed (operation :: rest)
                  (some (context, context.channelOperationWorker operation none))), .quiet)
            | _ => none
        | .commitSideEffect index =>
            match system.transactions[index]? with
            | some (.committed (operation :: rest) (some (performedIn, sideEffect))) =>
                match channelSideEffectCommit rebalancing context sideEffect with
                | none => some ({ system with lost := true }, .quiet)
                | some committed =>
                    some (System.setTransaction { system with context := committed.context } index
                        (.committed rest none),
                      ⟨committed.events, committed.relayed,
                        some ⟨operation, performedIn, context⟩⟩)
            | _ => none
        | .rollbackSideEffect index =>
            match system.transactions[index]? with
            | some (.committed operations (some _)) =>
                some (system.setTransaction index (.committed operations none), .quiet)
            | _ => none
        | .abandon index =>
            match system.transactions[index]? with
            | some (.committed _ none) =>
                some (system.setTransaction index (.committed [] none), .quiet)
            | _ => none

end Gzochi.Channel
