import Gzochi.Queue.Storage
import Gzochi.Socket.Receiving

/-!
# Relayed operations

A node relays an operation on a session or on a channel to the meta server, and the meta server
relays it to other nodes.  The operation is written twice and read twice, with an opcode of its own
on either way: the name of the application, one or two ids of eight bytes, and a message after its
length.
-/

namespace Gzochi.Relay

open Gzochi.DataClient (Bytes writeShort writeBytes writeStr readStr readBytes readStr_writeStr
  readBytes_writeBytes)
open Gzochi.Queue (gzochiCommonIoWriteLong gzochiCommonIoReadLong gzochiCommonIoReadLong_reads)
open Gzochi.Socket (Component Event Frame)

inductive Operation where
  | disconnect (sessionId : Nat)
  | message (sessionId : Nat) (msg : Bytes)
  | join (channelOid sessionOid : Nat)
  | leave (channelOid sessionOid : Nat)
  | close (channelOid : Nat)
  | channelMessage (channelOid : Nat) (msg : Bytes)
  deriving DecidableEq

/-- An operation in an application. -/
structure Relayed where
  app : Bytes
  operation : Operation
  deriving DecidableEq

/-- The name and one id. -/
def writeId (app : Bytes) (id : Nat) : Bytes := writeStr app ++ gzochiCommonIoWriteLong id

/-- The name and two ids. -/
def writeIds (app : Bytes) (first second : Nat) : Bytes :=
  writeStr app ++ (gzochiCommonIoWriteLong first ++ gzochiCommonIoWriteLong second)

/-- The name, an id and a message. -/
def writeMessage (app : Bytes) (id : Nat) (msg : Bytes) : Bytes :=
  writeStr app ++ (gzochiCommonIoWriteLong id ++ writeBytes msg)

/-- `gzochid_sessionclient_relay_disconnect_from`. -/
def relayDisconnectFrom (app : Bytes) (sessionId : Nat) : Frame := ⟨0x62, writeId app sessionId⟩

/-- `gzochid_sessionclient_relay_message_from`. -/
def relayMessageFrom (app : Bytes) (sessionId : Nat) (msg : Bytes) : Frame :=
  ⟨0x64, writeMessage app sessionId msg⟩

/-- `gzochid_channelclient_relay_join_from`. -/
def relayJoinFrom (app : Bytes) (channelOid sessionOid : Nat) : Frame :=
  ⟨0x70, writeIds app channelOid sessionOid⟩

/-- `gzochid_channelclient_relay_leave_from`. -/
def relayLeaveFrom (app : Bytes) (channelOid sessionOid : Nat) : Frame :=
  ⟨0x72, writeIds app channelOid sessionOid⟩

/-- `gzochid_channelclient_relay_close_from`. -/
def relayCloseFrom (app : Bytes) (channelOid : Nat) : Frame := ⟨0x76, writeId app channelOid⟩

/-- `gzochid_channelclient_relay_message_from`. -/
def relayChannelMessageFrom (app : Bytes) (channelOid : Nat) (msg : Bytes) : Frame :=
  ⟨0x74, writeMessage app channelOid msg⟩

/-- What `gzochi_metad_sessionserver_relay_disconnect` writes. -/
def relayDisconnectTo (app : Bytes) (sessionId : Nat) : Frame := ⟨0x63, writeId app sessionId⟩

/-- What `gzochi_metad_sessionserver_relay_message` writes. -/
def relayMessageTo (app : Bytes) (sessionId : Nat) (msg : Bytes) : Frame :=
  ⟨0x65, writeMessage app sessionId msg⟩

/-- What `gzochi_metad_channelserver_relay_join` writes. -/
def relayJoinTo (app : Bytes) (channelOid sessionOid : Nat) : Frame :=
  ⟨0x71, writeIds app channelOid sessionOid⟩

/-- What `gzochi_metad_channelserver_relay_leave` writes. -/
def relayLeaveTo (app : Bytes) (channelOid sessionOid : Nat) : Frame :=
  ⟨0x73, writeIds app channelOid sessionOid⟩

/-- What `gzochi_metad_channelserver_relay_close` writes. -/
def relayCloseTo (app : Bytes) (channelOid : Nat) : Frame := ⟨0x77, writeId app channelOid⟩

/-- What `gzochi_metad_channelserver_relay_message` writes. -/
def relayChannelMessageTo (app : Bytes) (channelOid : Nat) (msg : Bytes) : Frame :=
  ⟨0x75, writeMessage app channelOid msg⟩

/-- What a node sends to the meta server. -/
def Relayed.fromNode (relay : Relayed) : Frame :=
  match relay.operation with
  | .disconnect sessionId => relayDisconnectFrom relay.app sessionId
  | .message sessionId msg => relayMessageFrom relay.app sessionId msg
  | .join channelOid sessionOid => relayJoinFrom relay.app channelOid sessionOid
  | .leave channelOid sessionOid => relayLeaveFrom relay.app channelOid sessionOid
  | .close channelOid => relayCloseFrom relay.app channelOid
  | .channelMessage channelOid msg => relayChannelMessageFrom relay.app channelOid msg

/-- What the meta server sends to a node. -/
def Relayed.toNode (relay : Relayed) : Frame :=
  match relay.operation with
  | .disconnect sessionId => relayDisconnectTo relay.app sessionId
  | .message sessionId msg => relayMessageTo relay.app sessionId msg
  | .join channelOid sessionOid => relayJoinTo relay.app channelOid sessionOid
  | .leave channelOid sessionOid => relayLeaveTo relay.app channelOid sessionOid
  | .close channelOid => relayCloseTo relay.app channelOid
  | .channelMessage channelOid msg => relayChannelMessageTo relay.app channelOid msg

/-- The name of an application, which is there, and what follows it. -/
def readApp (payload : Bytes) : Option (Bytes × Bytes) :=
  match readStr payload with
  | none => none
  | some (app, rest) => if app = [] then none else some (app, rest)

/-- `gzochi_common_io_read_long`, when there are eight bytes. -/
def readLong (bytes : Bytes) : Option (Nat × Bytes) := (gzochiCommonIoReadLong bytes).toOption

/-- An operation with one id. -/
def readId (operation : Nat → Operation) (payload : Bytes) : Option Relayed := do
  let (app, rest) ← readApp payload
  let (id, _) ← readLong rest
  some ⟨app, operation id⟩

/-- An operation with two ids. -/
def readIds (operation : Nat → Nat → Operation) (payload : Bytes) : Option Relayed := do
  let (app, rest) ← readApp payload
  let (first, rest) ← readLong rest
  let (second, _) ← readLong rest
  some ⟨app, operation first second⟩

/-- An operation with an id and a message. -/
def readMessage (operation : Nat → Bytes → Operation) (payload : Bytes) : Option Relayed := do
  let (app, rest) ← readApp payload
  let (id, rest) ← readLong rest
  let (msg, _) ← readBytes rest
  some ⟨app, operation id msg⟩

namespace Sessionserver

def dispatchRelayDisconnect : Bytes → Option Relayed := readId .disconnect

def dispatchRelayMessage : Bytes → Option Relayed := readMessage .message

/-- The cases of `dispatch_message` for what is relayed. -/
def dispatchMessage (opcode : UInt8) (payload : Bytes) : Option Relayed :=
  if opcode = 0x62 then dispatchRelayDisconnect payload
  else if opcode = 0x64 then dispatchRelayMessage payload
  else none

end Sessionserver

namespace Channelserver

def dispatchRelayJoin : Bytes → Option Relayed := readIds .join

def dispatchRelayLeave : Bytes → Option Relayed := readIds .leave

def dispatchRelayClose : Bytes → Option Relayed := readId .close

def dispatchRelayMessage : Bytes → Option Relayed := readMessage .channelMessage

def dispatchMessage (opcode : UInt8) (payload : Bytes) : Option Relayed :=
  if opcode = 0x70 then dispatchRelayJoin payload
  else if opcode = 0x72 then dispatchRelayLeave payload
  else if opcode = 0x76 then dispatchRelayClose payload
  else if opcode = 0x74 then dispatchRelayMessage payload
  else none

end Channelserver

namespace Sessionclient

def dispatchRelayDisconnectTo : Bytes → Option Relayed := readId .disconnect

def dispatchRelayMessageTo : Bytes → Option Relayed := readMessage .message

def dispatchMessage (opcode : UInt8) (payload : Bytes) : Option Relayed :=
  if opcode = 0x63 then dispatchRelayDisconnectTo payload
  else if opcode = 0x65 then dispatchRelayMessageTo payload
  else none

end Sessionclient

namespace Channelclient

def dispatchRelayJoinTo : Bytes → Option Relayed := readIds .join

def dispatchRelayLeaveTo : Bytes → Option Relayed := readIds .leave

def dispatchRelayCloseTo : Bytes → Option Relayed := readId .close

def dispatchRelayMessageTo : Bytes → Option Relayed := readMessage .channelMessage

def dispatchMessage (opcode : UInt8) (payload : Bytes) : Option Relayed :=
  if opcode = 0x71 then dispatchRelayJoinTo payload
  else if opcode = 0x73 then dispatchRelayLeaveTo payload
  else if opcode = 0x77 then dispatchRelayCloseTo payload
  else if opcode = 0x75 then dispatchRelayMessageTo payload
  else none

end Channelclient

/-- What the components of the meta server make of a message. -/
def relayFromNode : Event → Option Relayed
  | .message (.ofComponent .sessionserver) opcode payload =>
      Sessionserver.dispatchMessage opcode payload
  | .message (.ofComponent .channelserver) opcode payload =>
      Channelserver.dispatchMessage opcode payload
  | _ => none

/-- What the clients of the components make of a message on a node. -/
def relayToNode : Event → Option Relayed
  | .message (.ofComponent .sessionserver) opcode payload =>
      Sessionclient.dispatchMessage opcode payload
  | .message (.ofComponent .channelserver) opcode payload =>
      Channelclient.dispatchMessage opcode payload
  | _ => none

/-- The ids of an operation. -/
def Operation.ids : Operation → List Nat
  | .disconnect id | .message id _ | .close id | .channelMessage id _ => [id]
  | .join first second | .leave first second => [first, second]

/-- The message of an operation. -/
def Operation.msg : Operation → Bytes
  | .message _ msg | .channelMessage _ msg => msg
  | _ => []

/-- A relay whose name is a string of C, and whose ids are numbers of 64 bits. -/
structure Relayed.Writable (relay : Relayed) : Prop where
  app : 0 ∉ relay.app
  ids : ∀ id ∈ relay.operation.ids, id < 2 ^ 64

section

variable {app msg : Bytes} {id other : Nat}

theorem readApp_written (terminated : 0 ∉ app) (named : app ≠ []) (rest : Bytes) :
    readApp (writeStr app ++ rest) = some (app, rest) := by
  simp only [readApp, readStr_writeStr terminated, if_neg named]

theorem readLong_written (small : id < 2 ^ 64) (rest : Bytes) :
    readLong (gzochiCommonIoWriteLong id ++ rest) = some (id, rest) := by
  rw [readLong, gzochiCommonIoReadLong_reads small rest]
  rfl

theorem readId_written (operation : Nat → Operation) (terminated : 0 ∉ app) (named : app ≠ [])
    (small : id < 2 ^ 64) : readId operation (writeId app id) = some ⟨app, operation id⟩ := by
  have read := readLong_written small []
  rw [List.append_nil] at read
  simp only [readId, writeId, readApp_written terminated named, read, Option.bind_eq_bind,
    Option.bind_some]

theorem readIds_written (operation : Nat → Nat → Operation) (terminated : 0 ∉ app)
    (named : app ≠ []) (small : id < 2 ^ 64) (otherSmall : other < 2 ^ 64) :
    readIds operation (writeIds app id other) = some ⟨app, operation id other⟩ := by
  have read := readLong_written otherSmall []
  rw [List.append_nil] at read
  simp only [readIds, writeIds, readApp_written terminated named, readLong_written small, read,
    Option.bind_eq_bind, Option.bind_some]

theorem readMessage_written (operation : Nat → Bytes → Operation) (terminated : 0 ∉ app)
    (named : app ≠ []) (small : id < 2 ^ 64) (short : msg.length < 32768) :
    readMessage operation (writeMessage app id msg) = some ⟨app, operation id msg⟩ := by
  have read := readBytes_writeBytes short []
  rw [List.append_nil] at read
  simp only [readMessage, writeMessage, readApp_written terminated named, readLong_written small,
    read, Option.bind_eq_bind, Option.bind_some]

end

variable {relayed : Relayed}

/-- The component that a relayed operation goes to. -/
def Relayed.component (relayed : Relayed) : Component :=
  match relayed.operation with
  | .disconnect _ | .message _ _ => .sessionserver
  | .join _ _ | .leave _ _ | .close _ | .channelMessage _ _ => .channelserver

/-- The meta server reads what a node has written. -/
theorem fromNode_read (writable : relayed.Writable) (named : relayed.app ≠ [])
    (short : relayed.operation.msg.length < 32768) :
    relayFromNode (.message (.ofComponent relayed.component) relayed.fromNode.opcode
      relayed.fromNode.payload) = some relayed := by
  obtain ⟨app, operation⟩ := relayed
  obtain ⟨terminated, small⟩ := writable
  cases operation with
  | disconnect id | close id =>
        exact readId_written _ terminated named (small id List.mem_cons_self)
  | message id msg | channelMessage id msg =>
    exact readMessage_written _ terminated named (small id List.mem_cons_self) short
  | join first second | leave first second =>
    exact readIds_written _ terminated named (small first List.mem_cons_self)
      (small second (List.mem_cons_of_mem _ List.mem_cons_self))

/-- Both messages for an operation are the same but for their opcodes. -/
theorem toNode_payload (relayed : Relayed) : relayed.toNode.payload = relayed.fromNode.payload := by
  obtain ⟨app, operation⟩ := relayed
  cases operation <;> rfl

/-- They are read in the same way. -/
theorem relayToNode_eq (relayed : Relayed) (payload : Bytes) :
    relayToNode (.message (.ofComponent relayed.component) relayed.toNode.opcode payload) =
      relayFromNode
        (.message (.ofComponent relayed.component) relayed.fromNode.opcode payload) := by
  obtain ⟨app, operation⟩ := relayed
  cases operation <;> rfl

/-- A node reads what the meta server has written. -/
theorem toNode_read (writable : relayed.Writable) (named : relayed.app ≠ [])
    (short : relayed.operation.msg.length < 32768) :
    relayToNode (.message (.ofComponent relayed.component) relayed.toNode.opcode
      relayed.toNode.payload) = some relayed := by
  rw [relayToNode_eq, toNode_payload]
  exact fromNode_read writable named short

/-- The meta server does not read an operation in an application without a name. -/
theorem fromNode_unnamed (unnamed : relayed.app = []) :
    relayFromNode (.message (.ofComponent relayed.component) relayed.fromNode.opcode
      relayed.fromNode.payload) = none := by
  obtain ⟨app, operation⟩ := relayed
  cases unnamed
  cases operation <;> rfl

theorem msg_length (relayed : Relayed) :
    relayed.operation.msg.length ≤ relayed.fromNode.payload.length := by
  obtain ⟨app, operation⟩ := relayed
  cases operation with
  | message id msg | channelMessage id msg =>
    simp only [Operation.msg, Relayed.fromNode, relayMessageFrom, relayChannelMessageFrom,
      writeMessage, writeBytes, List.length_append]
    omega
  | disconnect id | join first second | leave first second | close id => exact Nat.zero_le _

end Gzochi.Relay
