import Gzochi.Relay.Formats

/-!
# Deliveries through the meta server

The meta server relays an operation on a session to the node that the session is mapped to, and an
operation on a channel to all nodes but the one it comes from.  A node takes messages off its
buffer as the meta server does, except that it asks for the length of the first one as a signed
number.
-/

namespace Gzochi.Relay

open Gzochi.DataClient (Bytes readShort readShort_writeShort)
open Gzochi.Lib List
open Gzochi.Socket (Callbacks Component Event Frame Protocol messages ownMessages payloadLength
  payloadLength_lt payloadLength_writeShort process startsLongest startsLongest_frame stream
    stream_frames_written unsignedShort
  unsignedShort_pred component_frames messages_next Dispatchable receive_eq)

/-- The session map and the tables of connected servers; the keys of a table are distinct. -/
structure MetaServer where
  lookupSession : Bytes → Nat → Option Nat
  sessionServers : List Nat
  channelServers : List Nat
  sessionNodup : sessionServers.Nodup
  channelNodup : channelServers.Nodup

/-- The relaying functions of the session server: nothing is written when the session is not
mapped or its node is not connected. -/
def relayToSession (server : MetaServer) (app : Bytes) (sessionId : Nat) (frame : Frame) :
    List (Nat × Frame) :=
  match server.lookupSession app sessionId with
  | none => []
  | some nodeId => if nodeId ∈ server.sessionServers then [(nodeId, frame)] else []

/-- The relaying functions of the channel server. -/
def relayToOthers (server : MetaServer) (fromNodeId : Nat) (frame : Frame) : List (Nat × Frame) :=
  (server.channelServers.filter fun nodeId => nodeId ≠ fromNodeId).map fun nodeId =>
    (nodeId, frame)

/-- What the meta server writes to which nodes. -/
def MetaServer.relay (server : MetaServer) (fromNodeId : Nat) (relayed : Relayed) :
    List (Nat × Frame) :=
  match relayed.operation with
  | .disconnect sessionId | .message sessionId _ =>
      relayToSession server relayed.app sessionId relayed.toNode
  | .join _ _ | .leave _ _ | .close _ | .channelMessage _ _ =>
      relayToOthers server fromNodeId relayed.toNode

/-- The bytes that are written to a node for what has been read from another one. -/
def MetaServer.written (server : MetaServer) (fromNodeId : Nat) (events : List Event)
    (toNodeId : Nat) : Bytes :=
  ((((events.filterMap relayFromNode).flatMap (server.relay fromNodeId)).filter fun write =>
    write.1 = toNodeId).map Prod.snd).flatMap Frame.bytes

/-- `GZOCHID_META_PROTOCOL_LOGIN_RESPONSE`. -/
def loginResponseOpcode : UInt8 := 0x11

/-- The component whose client a node hands a message to. -/
def clientOf (opcode : UInt8) : Option Component :=
  if opcode ∈ [0x71, 0x73, 0x77, 0x75] then some .channelserver
  else if opcode ∈ [0x50, 0x51, 0x52] then some .dataserver
  else if opcode ∈ [0x63, 0x65] then some .sessionserver
  else none

/-- The cases of `client_dispatch` in the protocol of the meta client. -/
def metaclientHandle (high low opcode : UInt8) (rest : Bytes) (len : Nat) : List Event :=
  if opcode = loginResponseOpcode then
    [process .metaserver opcode rest (unsignedShort ((len : Int) - 1))]
  else
    match clientOf opcode with
    | some component =>
        ((ownMessages (.ofComponent component)).frames
          (high :: low :: (opcode :: rest).take len)).1.flatten
    | none => [.unexpected opcode]

/-- `client_can_dispatch` in the protocol of the meta client: the length of the message is a
`short`, and the sum is compared as a number without a sign. -/
def metaclientCanDispatch : Bytes → Bool
  | high :: low :: opcode :: rest =>
      ((readShort high low + 3) % 4294967296).toNat ≤ (high :: low :: opcode :: rest).length
  | _ => false

def metaclient : Callbacks Event := ⟨metaclientCanDispatch, messages metaclientHandle⟩

/-- What a node is to make of a message. -/
def metaclientEvent (frame : Frame) : Event :=
  if frame.opcode = loginResponseOpcode then .message .metaserver frame.opcode frame.payload
  else
    match clientOf frame.opcode with
    | some component => .message (.ofComponent component) frame.opcode frame.payload
    | none => .unexpected frame.opcode

/-- The length of the payload is positive as a `short`. -/
def Short (frame : Frame) : Prop := frame.payload.length < 32768

theorem metaclientHandle_complete {high low opcode : UInt8} {rest : Bytes}
    (short : startsLongest (high :: low :: opcode :: rest) = false)
    (complete : payloadLength high low ≤ rest.length) :
    metaclientHandle high low opcode rest (payloadLength high low + 1) =
      [metaclientEvent ⟨opcode, rest.take (payloadLength high low)⟩] := by
  simp only [metaclientHandle, metaclientEvent, unsignedShort_pred (payloadLength_lt short),
    process, if_pos complete]
  split
  next => rfl
  next =>
    split
    next component _ =>
      rw [component_frames short complete]
      rfl
    next => rfl

/-- A round of the loop of the meta client, with the length of a short message in the buffer. -/
theorem metaclient_header {frame : Frame} (short : Short frame) (body : Bytes) :
    metaclient.loop.next (UInt8.ofNat (frame.payload.length / 256) ::
        UInt8.ofNat frame.payload.length :: frame.opcode :: body) =
      (if body.length < frame.payload.length then none
      else
        some ([metaclientEvent ⟨frame.opcode, body.take frame.payload.length⟩],
          body.drop frame.payload.length)) ∧
    metaclient.canDispatch (UInt8.ofNat (frame.payload.length / 256) ::
        UInt8.ofNat frame.payload.length :: frame.opcode :: body) =
      decide (frame.payload.length ≤ body.length) := by
  have length : payloadLength (UInt8.ofNat (frame.payload.length / 256))
      (UInt8.ofNat frame.payload.length) = frame.payload.length :=
    payloadLength_writeShort (Nat.lt_trans short (by decide))
  have starts : startsLongest (UInt8.ofNat (frame.payload.length / 256) ::
      UInt8.ofNat frame.payload.length :: frame.opcode :: body) = false :=
    startsLongest_frame (Nat.lt_trans short (by decide)) []
  constructor
  · change (messages metaclientHandle).next _ = _
    rw [messages_next metaclientHandle starts]
    split
    next few => rw [if_pos (length ▸ few)]
    next enough =>
      rw [metaclientHandle_complete starts (Nat.le_of_not_lt enough), length,
        if_neg (length ▸ enough)]
  · have signed : readShort (UInt8.ofNat (frame.payload.length / 256))
        (UInt8.ofNat frame.payload.length) = frame.payload.length := readShort_writeShort short
    have fits : frame.payload.length < 32768 := short
    have sum : (((frame.payload.length : Int) + 3) % 4294967296).toNat =
        frame.payload.length + 3 := by omega
    simp only [metaclient, metaclientCanDispatch, signed, sum, length_cons,
      Nat.add_le_add_iff_right]

/-- A node takes short messages one by one. -/
theorem metaclient_takes : metaclient.Takes Short metaclientEvent where
  taken := by
    intro frame short rest
    have next := (metaclient_header short (frame.payload ++ rest)).1
    rw [take_left, drop_left, if_neg (by simp)] at next
    exact next
  whole := by
    intro frame short rest
    have can := (metaclient_header short (frame.payload ++ rest)).2
    rw [length_append, decide_eq_true (Nat.le_add_right _ _)] at can
    exact can
  nothing := rfl
  ended := by
    intro frame input unread more short stream incomplete
    by_cases header : 3 ≤ input.length
    · obtain ⟨body, same, _⟩ := Frame.header stream header
      rw [same, frame.length_bytes] at incomplete
      simp only [length_cons, Nat.add_lt_add_iff_right] at incomplete
      rw [same, (metaclient_header short body).1, if_pos incomplete]
    · match input, header with
      | [], _ | [_], _ | [_, _], _ => rfl
      | _ :: _ :: _ :: _, header => simp at header
  started := by
    intro frame input unread more short stream incomplete
    by_cases header : 3 ≤ input.length
    · obtain ⟨body, same, _⟩ := Frame.header stream header
      rw [same, frame.length_bytes] at incomplete
      simp only [length_cons, Nat.add_lt_add_iff_right] at incomplete
      rw [same, (metaclient_header short body).2, decide_eq_false (Nat.not_le.mpr incomplete)]
    · match input, header with
      | [], _ | [_], _ | [_, _], _ => rfl
      | _ :: _ :: _ :: _, header => simp at header

/-- An operation is for a node: the session is mapped to it, or the channel is everywhere but where
the operation comes from. -/
def MetaServer.addressed (server : MetaServer) (fromNodeId toNodeId : Nat) (relayed : Relayed) :
    Bool :=
  match relayed.operation with
  | .disconnect sessionId | .message sessionId _ =>
      server.lookupSession relayed.app sessionId = some toNodeId ∧
        toNodeId ∈ server.sessionServers
  | .join _ _ | .leave _ _ | .close _ | .channelMessage _ _ =>
      toNodeId ∈ server.channelServers ∧ toNodeId ≠ fromNodeId

variable {server : MetaServer} {fromNodeId toNodeId : Nat} {relays : List Relayed}

theorem relayToSession_filter (server : MetaServer) (app : Bytes) (sessionId toNodeId : Nat)
    (frame : Frame) :
    ((relayToSession server app sessionId frame).filter fun write => write.1 = toNodeId).map
        Prod.snd =
      if server.lookupSession app sessionId = some toNodeId ∧ toNodeId ∈ server.sessionServers then
        [frame]
      else [] := by
  unfold relayToSession
  cases server.lookupSession app sessionId with
  | none => simp
  | some nodeId =>
    by_cases same : nodeId = toNodeId
    · subst same
      by_cases connected : nodeId ∈ server.sessionServers <;> simp [connected]
    · by_cases connected : nodeId ∈ server.sessionServers <;> simp [connected, same]

/-- A table of servers has a node once, so that it is written to once. -/
theorem relayToOthers_filter (server : MetaServer) (fromNodeId toNodeId : Nat) (frame : Frame) :
    ((relayToOthers server fromNodeId frame).filter fun write => write.1 = toNodeId).map Prod.snd =
      if toNodeId ∈ server.channelServers ∧ toNodeId ≠ fromNodeId then [frame] else [] := by
  unfold relayToOthers
  generalize others : (server.channelServers.filter fun nodeId => nodeId ≠ fromNodeId) = nodeIds
  have nodup : nodeIds.Nodup := others ▸ server.channelNodup.filter _
  have member : toNodeId ∈ nodeIds ↔ toNodeId ∈ server.channelServers ∧ toNodeId ≠ fromNodeId := by
    rw [← others, mem_filter, decide_eq_true_iff]
  have once : nodeIds.filter (fun nodeId => nodeId = toNodeId) =
      List.replicate (nodeIds.count toNodeId) toNodeId := filter_eq toNodeId
  have written : (nodeIds.map fun nodeId => (nodeId, frame)).filter
      (fun write => write.1 = toNodeId) =
        (nodeIds.filter fun nodeId => nodeId = toNodeId).map fun nodeId => (nodeId, frame) := by
    rw [filter_map]
    rfl
  rw [written, once, nodup.count]
  simp only [member]
  split
  next => rfl
  next => rfl

theorem relay_filter (relayed : Relayed) :
    ((server.relay fromNodeId relayed).filter fun write => write.1 = toNodeId).map Prod.snd =
      if server.addressed fromNodeId toNodeId relayed then [relayed.toNode] else [] := by
  obtain ⟨app, operation⟩ := relayed
  cases operation with
  | disconnect id | message id msg =>
    simp only [MetaServer.relay, MetaServer.addressed, relayToSession_filter, decide_eq_true_eq]
  | join first second | leave first second | close id | channelMessage id msg =>
    simp only [MetaServer.relay, MetaServer.addressed, relayToOthers_filter, decide_eq_true_eq]

/-- The meta server hands a relayed operation to its component. -/
theorem event_fromNode (relayed : Relayed) : Protocol.metaserver.event relayed.fromNode =
      .message (.ofComponent relayed.component) relayed.fromNode.opcode
        relayed.fromNode.payload := by
  obtain ⟨app, operation⟩ := relayed
  cases operation <;> rfl

/-- A node hands it to the client of the component. -/
theorem event_toNode (relayed : Relayed) : metaclientEvent relayed.toNode =
      .message (.ofComponent relayed.component) relayed.toNode.opcode relayed.toNode.payload := by
  obtain ⟨app, operation⟩ := relayed
  cases operation <;> rfl

/-- What the meta server reads from a node, however it reads it. -/
theorem metaserver_reads {reads : List Bytes}
    (sent : reads.flatten = relays.flatMap fun relayed => relayed.fromNode.bytes)
    (writable : ∀ relayed ∈ relays, relayed.Writable)
    (short : ∀ relayed ∈ relays, Short relayed.fromNode) :
    (Protocol.metaserver.receive reads).1.filterMap relayFromNode =
      relays.filter fun relayed => relayed.app ≠ [] := by
  have frames : ∀ frame ∈ relays.map Relayed.fromNode, frame.payload.length < 32768 := by
    intro frame member
    obtain ⟨relayed, inside, rfl⟩ := mem_map.mp member
    exact short relayed inside
  have parts : stream.frames reads.flatten = (relays.map Relayed.fromNode, []) := by
    rw [sent, ← flatMap_map]
    exact stream_frames_written fun frame member => Nat.lt_trans (frames frame member) (by decide)
  have dispatchable : Dispatchable reads.flatten := by
    unfold Dispatchable
    rw [parts]
    refine ⟨?_, .inr rfl⟩
    intro frame member longest
    have bound := frames frame member
    omega
  rw [receive_eq dispatchable, parts, map_map, filterMap_map]
  rw [← filterMap_eq_filter]
  apply filterMap_congr
  intro relayed member
  change relayFromNode (Protocol.metaserver.event relayed.fromNode) = _
  rw [event_fromNode]
  have bound : relayed.operation.msg.length < 32768 :=
    Nat.lt_of_le_of_lt (msg_length relayed) (short relayed member)
  by_cases named : relayed.app = []
  · rw [fromNode_unnamed named]
    simp [Option.guard, named]
  · rw [fromNode_read (writable relayed member) named bound]
    simp [Option.guard, named]

/-- What is written to a node are the operations that are for it. -/
theorem written_eq {events : List Event} {read : List Relayed}
    (isRead : events.filterMap relayFromNode = read) :
    server.written fromNodeId events toNodeId =
      ((read.filter (server.addressed fromNodeId toNodeId)).map Relayed.toNode).flatMap
        Frame.bytes := by
  unfold MetaServer.written
  rw [isRead]
  congr 1
  clear isRead
  induction read with
  | nil => rfl
  | cons relayed read ih =>
    rw [flatMap_cons, filter_append, map_append, ih, relay_filter]
    cases addressed : server.addressed fromNodeId toNodeId relayed with
    | true =>
      rw [filter_cons_of_pos addressed]
      rfl
    | false =>
      rw [filter_cons_of_neg (by simp [addressed])]
      rfl

/-- However the meta server and the nodes read, a node gets the operations that are for it, in the
order in which they were sent, once each and as they were sent; an operation in an application
without a name gets to no node. -/
theorem relays_delivered (server : MetaServer) (fromNodeId toNodeId : Nat)
    (relays : List Relayed) (reads nodeReads : List Bytes)
    (sent : reads.flatten = relays.flatMap fun relayed => relayed.fromNode.bytes)
    (got : nodeReads.flatten =
      server.written fromNodeId (Protocol.metaserver.receive reads).1 toNodeId)
    (writable : ∀ relayed ∈ relays, 0 ∉ relayed.app ∧ ∀ id ∈ relayed.operation.ids, id < 2 ^ 64)
    (short : ∀ relayed ∈ relays, relayed.fromNode.payload.length < 32768) :
    (metaclient.receive nodeReads).1.map relayToNode = (relays.filter fun relayed =>
        relayed.app ≠ [] ∧ server.addressed fromNodeId toNodeId relayed).map some := by
  have writables : ∀ relayed ∈ relays, relayed.Writable :=
    fun relayed member => ⟨(writable relayed member).1, (writable relayed member).2⟩
  rw [written_eq (metaserver_reads sent writables short)] at got
  generalize delivered : ((relays.filter fun relayed => relayed.app ≠ []).filter
    (server.addressed fromNodeId toNodeId)) = forNode at got
  have inside : ∀ relayed ∈ forNode, relayed ∈ relays ∧ relayed.app ≠ [] := by
    intro relayed member
    rw [← delivered] at member
    have isNamed := mem_filter.mp (mem_filter.mp member).1
    exact ⟨isNamed.1, of_decide_eq_true isNamed.2⟩
  have kinds : ∀ frame ∈ forNode.map Relayed.toNode, Short frame := by
    intro frame member
    obtain ⟨relayed, isFor, rfl⟩ := mem_map.mp member
    unfold Short
    rw [toNode_payload]
    exact short relayed (inside relayed isFor).1
  have expected : (relays.filter fun relayed =>
      relayed.app ≠ [] ∧ server.addressed fromNodeId toNodeId relayed) = forNode := by
    rw [← delivered, filter_filter]
    apply filter_congr
    intro relayed _
    rw [Bool.and_comm]
    simp
  rw [metaclient_takes.receive_all kinds got, expected, map_map, map_map]
  apply map_congr_left
  intro relayed member
  obtain ⟨isSent, named⟩ := inside relayed member
  change relayToNode (metaclientEvent relayed.toNode) = some relayed
  rw [event_toNode]
  exact toNode_read (writables relayed isSent) named
    (Nat.lt_of_le_of_lt (msg_length relayed) (short relayed isSent))

/-- Session 5 of `c` is on node 2, and three nodes are connected. -/
def threeNodes : MetaServer where
  lookupSession app sessionId := if sessionId = 5 then some 2 else none
  sessionServers := [1, 2, 3]
  channelServers := [1, 2, 3]
  sessionNodup := by decide
  channelNodup := by decide

/-- A message to the session, and one to a channel. -/
def twoRelays : List Relayed := [⟨[99], .message 5 [7, 8]⟩, ⟨[99], .channelMessage 6 [9]⟩]

theorem relays_delivered_two :
    let reads := [twoRelays.flatMap fun relayed => relayed.fromNode.bytes]
    let written := threeNodes.written 1 (Protocol.metaserver.receive reads).1
    (metaclient.receive [written 1]).1.map relayToNode = [] ∧
      (metaclient.receive [written 2]).1.map relayToNode = twoRelays.map some ∧
      (metaclient.receive [written 3]).1.map relayToNode =
        [some ⟨[99], .channelMessage 6 [9]⟩] := by
  intro reads written
  have delivered : ∀ toNodeId, (metaclient.receive [written toNodeId]).1.map relayToNode =
      (twoRelays.filter fun relayed =>
        relayed.app ≠ [] ∧ threeNodes.addressed 1 toNodeId relayed).map some :=
    fun toNodeId => relays_delivered threeNodes 1 toNodeId twoRelays reads [written toNodeId]
      flatten_singleton flatten_singleton (by decide) (by decide +kernel)
  exact ⟨delivered 1, delivered 2, delivered 3⟩

/-- A channel message of an application without a name is not delivered to the other nodes. -/
theorem unnamed_not_delivered :
    let relayed : Relayed := ⟨[], .channelMessage 6 [9]⟩
    relayed.fromNode.bytes.length ≤ 65535 ∧ threeNodes.addressed 1 2 relayed = true ∧
      threeNodes.written 1 (Protocol.metaserver.receive [relayed.fromNode.bytes]).1 2 = [] := by
  decide +kernel

end Gzochi.Relay
