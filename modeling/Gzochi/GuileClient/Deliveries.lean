import Gzochi.GuileClient.Receiver

/-!
# What the callback is called with

Whatever part of a stream of frames has been read, the frames that were taken off the buffer are
the first ones, and the callback has been called with their session messages.  A round fails when
`recv!` gets more than there is room for in the buffer, which is not what was requested of it.
-/

namespace Gzochi.GuileClient

open Gzochi.DataClient (Bytes)
open Gzochi.Lib List
open Gzochi.Socket (Frame payloadLength payloadLength_eq payloadLength_writeShort)

/-- A frame that ends the session. -/
def Disconnects (frame : Frame) : Prop :=
  frame.opcode = loginFailure ∨ frame.opcode = sessionDisconnected

instance (frame : Frame) : Decidable (Disconnects frame) :=
  inferInstanceAs (Decidable (_ ∨ _))

/-- The payloads of the session messages among some frames. -/
def messagesOf (frames : List Frame) : List Bytes :=
  (frames.filter fun frame => frame.opcode = sessionMessage).map Frame.payload

/-- What the callback is to be called with. -/
def expected (frames : List Frame) : List Bytes :=
  messagesOf (frames.takeWhile fun frame => ¬Disconnects frame)

/-- What has been read and not been taken off. -/
def Client.filled (client : Client) : Bytes := client.buffer.take client.bufferOffset

/-- The buffer has its size, and its offset lies in it. -/
structure WellFormed (client : Client) : Prop where
  size : client.buffer.length = maxBufferSize
  inside : client.bufferOffset ≤ maxBufferSize

/-- The client has dispatched some frames; it is connected unless the last of them
disconnects it. -/
structure Standing (done : List Frame) (client : Client) : Prop where
  received : client.received = messagesOf done
  open_ : client.connected = true → ∀ frame ∈ done, ¬Disconnects frame
  closed : client.connected = false → client.disconnectAcknowledged = true ∧
    ∃ before last, done = before ++ [last] ∧ Disconnects last ∧
      ∀ frame ∈ before, ¬Disconnects frame

variable {contents : Nat → UInt8} {client next : Client} {socket more : Bytes} {frame : Frame}
  {done pending frames : List Frame} {offset dispatched : Nat}

theorem length_makeBytevector (contents : Nat → UInt8) (length : Nat) :
    (makeBytevector contents length).length = length := by
  simp [makeBytevector]

/-- A shift to the front keeps what is shifted. -/
theorem bytevectorShift_spec {bv : Bytes} {start len : Nat} (contents : Nat → UInt8)
    (fill : UInt8) (filled : 0 < len) (moves : 0 < start) (inside : start + len ≤ bv.length) :
    ∃ shifted, bytevectorShift contents bv start 0 len fill = some shifted ∧
      shifted.length = bv.length ∧ shifted.take len = (bv.drop start).take len := by
  obtain ⟨moved, isMoved⟩ := Option.isSome_iff_exists.mp
    (copyRange_isSome.mpr ⟨inside, (by omega : 0 + len ≤ bv.length)⟩)
  have length := length_copyRange isMoved
  have front := take_copyRange isMoved
  rw [Nat.zero_add, take_zero, nil_append] at front
  unfold bytevectorShift
  simp only [isMoved]
  split
  next many =>
    -- what is cleared lies behind what has been moved
    have distance : ((start : Int) - (0 : Nat)).natAbs = start := by omega
    rw [distance, if_neg (Nat.not_lt_zero start)]
    obtain ⟨cleared, isCleared⟩ := Option.isSome_iff_exists.mp
      (copyRange_isSome.mpr ⟨(by rw [length_makeBytevector]; omega :
          0 + min start len ≤ (makeBytevector contents (min start len)).length),
        (by omega : start + len - min start len + min start len ≤ moved.length)⟩)
    refine ⟨cleared, isCleared, (length_copyRange isCleared).trans length, ?_⟩
    have before := take_copyRange isCleared
    have same := congrArg (List.take len) before
    rw [take_take, Nat.min_eq_left (by omega), take_append_of_le_length (by
      rw [length_take]; omega), take_take, Nat.min_eq_left (by omega)] at same
    rw [same, front]
  next few =>
    have one : len = 1 := by omega
    subst one
    have within : start < moved.length := by omega
    have value : moved[start] = bv[start] := by
      obtain ⟨later, same⟩ := Nat.exists_eq_add_of_le moves
      have behind := congrArg (fun list => list[later]?) (drop_copyRange isMoved)
      simp only [List.getElem?_drop, Nat.zero_add] at behind
      rw [← same, List.getElem?_eq_getElem within, List.getElem?_eq_getElem (by omega)] at behind
      exact Option.some.inj behind
    rw [if_pos (by omega), List.getElem?_eq_getElem within]
    refine ⟨(moved.set 0 moved[start]).set start fill, ?_, ?_, ?_⟩
    · simp only [bytevectorSet, if_pos (by omega : 0 < moved.length), Option.bind_some,
        length_set, if_pos within]
    · simp only [length_set, length]
    · rw [take_set_of_le (by omega)]
      cases moved with
      | nil => simp at within
      | cons head rest =>
        rw [set_cons_zero, take_succ_cons, value, drop_eq_getElem_cons (by omega), take_succ_cons]
        rfl

variable {rest : Bytes}

theorem readShort_of_header {bv : Bytes} (fits : frame.payload.length < 65536)
    (header : bv.drop offset = frame.bytes ++ rest) :
    readShort bv offset = some frame.payload.length := by
  have length := payloadLength_writeShort fits
  rw [payloadLength_eq] at length
  unfold readShort
  rw [header]
  simp only [Frame.bytes, DataClient.writeShort, cons_append, length]

variable (wellFormed : WellFormed client)
include wellFormed

/-- What the buffer begins with from a place on where a part of the stream stands. -/
theorem drop_buffer (inside : offset ≤ client.bufferOffset)
    (front : client.filled.drop offset = rest) :
    ∃ tail, client.buffer.drop offset = rest ++ tail := by
  refine ⟨client.buffer.drop client.bufferOffset, ?_⟩
  have split := take_append_drop client.bufferOffset client.buffer
  have long : offset ≤ (client.buffer.take client.bufferOffset).length := by
    have size := wellFormed.size
    have room := wellFormed.inside
    rw [length_take]
    omega
  rw [← front, Client.filled]
  conv_lhs => rw [← split]
  exact drop_append_of_le_length long

theorem length_filled : client.filled.length = client.bufferOffset := by
  have size := wellFormed.size
  have room := wellFormed.inside
  rw [Client.filled, length_take]
  omega

theorem WellFormed.congr (buffer : next.buffer = client.buffer)
    (bufferOffset : next.bufferOffset = client.bufferOffset) : WellFormed next where
  size := buffer ▸ wellFormed.size
  inside := bufferOffset ▸ wellFormed.inside

omit wellFormed

theorem filled_congr (buffer : next.buffer = client.buffer)
    (bufferOffset : next.bufferOffset = client.bufferOffset) : next.filled = client.filled := by
  rw [Client.filled, Client.filled, buffer, bufferOffset]

/-- Once around the loop, with a whole frame in the buffer. -/
theorem attemptLoop_frame (wellFormed : WellFormed client) (fits : frame.payload.length < 65536)
    (connected : client.connected = true)
    (front : client.filled.drop offset = frame.bytes ++ rest) (contents : Nat → UInt8)
    (all : Bool) (dispatched : Nat) :
    attemptLoop contents all client offset dispatched =
      if all then
        attemptLoop contents all (dispatchInner client frame.opcode frame.payload)
          (offset + frame.bytes.length) (dispatched + 1)
      else
        some (dispatchInner client frame.opcode frame.payload, offset + frame.bytes.length,
          dispatched + 1) := by
  have size := congrArg List.length front
  rw [length_drop, length_filled wellFormed, length_append, frame.length_bytes] at size
  obtain ⟨tail, header⟩ := drop_buffer wellFormed (by omega) front
  rw [append_assoc] at header
  have opcode : client.buffer[offset + 2]? = some frame.opcode := by
    rw [← List.getElem?_drop, header]
    rfl
  have message : copyRange client.buffer (offset + 3)
      (makeBytevector contents frame.payload.length) 0 frame.payload.length =
      some frame.payload := by
    have whole := congrArg List.length header
    rw [length_drop, length_append, frame.length_bytes, length_append] at whole
    rw [copyRange_all (length_makeBytevector _ _) (by omega), ← drop_drop, header]
    exact congrArg some take_left
  have next : offset + frame.bytes.length = offset + 3 + frame.payload.length := by
    rw [frame.length_bytes]
    omega
  rw [attemptLoop, if_neg (by simp [connected]), if_neg (by omega), readShort_of_header fits header]
  simp only [opcode, message, next]
  rw [if_neg (by omega)]

/-- The next frame is not in the buffer as a whole. -/
def Incomplete (buffer : Bytes) (pending : List Frame) : Prop :=
  ∀ frame ∈ pending.head?, buffer.length < frame.bytes.length

theorem attemptLoop_incomplete (wellFormed : WellFormed client)
    (fits : ∀ frame ∈ pending, frame.payload.length < 65536)
    (connected : client.connected = true) (inside : offset ≤ client.bufferOffset)
    (stream : client.filled.drop offset ++ socket = pending.flatMap Frame.bytes)
    (incomplete : Incomplete (client.filled.drop offset) pending) (all : Bool) :
    attemptLoop contents all client offset dispatched = some (client, offset, dispatched) := by
  have size : (client.filled.drop offset).length = client.bufferOffset - offset := by
    rw [length_drop, length_filled wellFormed]
  rw [attemptLoop, if_neg (by simp [connected])]
  split
  next => rfl
  next enough =>
    cases pending with
    | nil =>
      have empty := congrArg List.length (append_eq_nil_iff.mp stream).1
      rw [size, length_nil] at empty
      omega
    | cons frame pending =>
      have short := incomplete frame rfl
      rw [flatMap_cons] at stream
      obtain ⟨body, header, _⟩ := Frame.header stream (by omega)
      obtain ⟨tail, buffer⟩ := drop_buffer wellFormed inside header
      have length := payloadLength_writeShort (fits frame mem_cons_self)
      rw [payloadLength_eq] at length
      have read : readShort client.buffer offset = some frame.payload.length := by
        unfold readShort
        rw [buffer]
        simp only [cons_append, length]
      rw [frame.length_bytes, size] at short
      simp only [read]
      rw [if_pos (by omega)]

theorem messagesOf_append (first second : List Frame) :
    messagesOf (first ++ second) = messagesOf first ++ messagesOf second := by
  simp only [messagesOf, filter_append, map_append]

theorem messagesOf_other (other : frame.opcode ≠ sessionMessage) : messagesOf [frame] = [] := by
  simp [messagesOf, other]

variable (standing : Standing done client)
include standing

theorem Standing.dispatchDisconnect
    (closed : client.connected = false) : dispatchDisconnect client = client := by
  have acknowledged := (standing.closed closed).1
  cases client
  simp_all [GuileClient.dispatchDisconnect]

/-- A frame that does not disconnect leaves the client connected. -/
theorem Standing.keep (connected : client.connected = true)
    (keeps : ¬Disconnects frame) (received : next.received = messagesOf (done ++ [frame]))
    (same : next.connected = client.connected) : Standing (done ++ [frame]) next where
  received := received
  open_ := by
    intro _ other member
    rcases mem_append.mp member with earlier | here
    · exact standing.open_ connected other earlier
    · exact mem_singleton.mp here ▸ keeps
  closed := by
    intro closed
    rw [same, connected] at closed
    cases closed

/-- The next frame is dispatched. -/
theorem Standing.dispatchInner (connected : client.connected = true) (frame : Frame) :
    Standing (done ++ [frame]) (dispatchInner client frame.opcode frame.payload) := by
  have silent : frame.opcode ≠ sessionMessage → client.received = messagesOf (done ++ [frame]) := by
    intro other
    rw [messagesOf_append, messagesOf_other other, append_nil, standing.received]
  unfold GuileClient.dispatchInner
  split
  next login =>
    have keeps : ¬Disconnects frame := by
      rw [Disconnects, login]
      decide
    exact standing.keep connected keeps (silent (by rw [login]; decide)) rfl
  next =>
    split
    next message =>
      have keeps : ¬Disconnects frame := by
        rw [Disconnects, message]
        decide
      have one : messagesOf [frame] = [frame.payload] := by simp [messagesOf, message]
      have received : (dispatchSessionMessage client frame.payload).received =
          messagesOf (done ++ [frame]) := by
        rw [messagesOf_append, one, dispatchSessionMessage, standing.received]
      exact standing.keep connected keeps received rfl
    next other =>
      split
      next disconnects =>
        have before := standing.open_ connected
        have received : (GuileClient.dispatchDisconnect client).received = client.received := by
          unfold GuileClient.dispatchDisconnect
          grind
        constructor
        · rw [received, silent other]
        · intro open_
          unfold GuileClient.dispatchDisconnect at open_
          grind
        · intro _
          refine ⟨?_, done, frame, rfl, disconnects, before⟩
          unfold GuileClient.dispatchDisconnect
          grind
      next keeps => exact standing.keep connected keeps (silent other) rfl

omit standing

/-- What the loop takes off the buffer: the first of the frames that are pending. -/
structure TakesOff (client : Client) (socket : Bytes) (done pending : List Frame) (offset : Nat)
    (more later : List Frame) (next : Client) (place : Nat) : Prop where
  split : pending = more ++ later
  buffer : next.buffer = client.buffer
  bufferOffset : next.bufferOffset = client.bufferOffset
  standing : Standing (done ++ more) next
  inside : place ≤ next.bufferOffset
  stream : next.filled.drop place ++ socket = later.flatMap Frame.bytes
  nothing : more = [] → next = client ∧ place = offset ∧
    (client.connected = false ∨ Incomplete (client.filled.drop offset) pending)

/-- Nothing can be taken off. -/
theorem TakesOff.none (standing : Standing done client) (inside : offset ≤ client.bufferOffset)
    (stream : client.filled.drop offset ++ socket = pending.flatMap Frame.bytes)
    (reason : client.connected = false ∨ Incomplete (client.filled.drop offset) pending) :
    TakesOff client socket done pending offset [] pending client offset where
  split := rfl
  buffer := rfl
  bufferOffset := rfl
  standing := by
    rw [append_nil]
    exact standing
  inside := inside
  stream := stream
  nothing := fun _ => ⟨rfl, rfl, reason⟩

/-- The loop takes the frames off that are in the buffer as a whole, up to the first that
disconnects. -/
theorem attemptLoop_delivers (wellFormed : WellFormed client)
    (fits : ∀ frame ∈ pending, frame.payload.length < 65536) (standing : Standing done client)
    (inside : offset ≤ client.bufferOffset)
    (stream : client.filled.drop offset ++ socket = pending.flatMap Frame.bytes)
    (contents : Nat → UInt8) (dispatched : Nat) :
    ∃ more later next place, attemptLoop contents true client offset dispatched =
        some (next, place, dispatched + more.length) ∧
      TakesOff client socket done pending offset more later next place := by
  induction pending generalizing done client offset dispatched with
  | nil =>
    refine ⟨[], [], client, offset, ?_, ?_⟩
    · cases connected : client.connected with
      | false =>
        rw [attemptLoop, if_pos connected, standing.dispatchDisconnect connected]
        rfl
      | true =>
        exact attemptLoop_incomplete wellFormed fits connected inside stream nofun true
    · exact .none standing inside stream (.inr nofun)
  | cons frame pending ih =>
    cases connected : client.connected with
    | false =>
      refine ⟨[], frame :: pending, client, offset, ?_, ?_⟩
      · rw [attemptLoop, if_pos connected, standing.dispatchDisconnect connected]
        rfl
      · exact .none standing inside stream (.inl connected)
    | true =>
      by_cases complete : frame.bytes.length ≤ (client.filled.drop offset).length
      · have front : frame.bytes <+: client.filled.drop offset := by
          apply prefix_of_prefix_length_le _ (prefix_append _ socket) complete
          rw [stream, flatMap_cons]
          exact prefix_append _ _
        obtain ⟨rest, front⟩ := front
        have step := attemptLoop_frame wellFormed (fits frame mem_cons_self) connected
          front.symm contents true dispatched
        rw [if_pos rfl] at step
        have size := congrArg List.length front
        rw [length_drop, length_filled wellFormed, length_append] at size
        have positive := frame.length_bytes
        have kept := filled_congr (dispatchInner_buffer client frame.opcode frame.payload)
          (dispatchInner_bufferOffset _ _ _)
        have further : offset + frame.bytes.length ≤
            (dispatchInner client frame.opcode frame.payload).bufferOffset := by
          rw [dispatchInner_bufferOffset]
          omega
        have later : (dispatchInner client frame.opcode frame.payload).filled.drop
            (offset + frame.bytes.length) ++ socket = pending.flatMap Frame.bytes := by
          rw [← front, flatMap_cons, append_assoc] at stream
          rw [kept, ← drop_drop, ← front, drop_left]
          exact append_cancel_left stream
        obtain ⟨more, last, next, place, result, takes⟩ :=
          ih (wellFormed.congr (dispatchInner_buffer _ _ _) (dispatchInner_bufferOffset _ _ _))
            (fun other member => fits other (mem_cons_of_mem _ member))
            (standing.dispatchInner connected frame) further later (dispatched + 1)
        refine ⟨frame :: more, last, next, place, ?_, ?_, ?_, ?_, ?_, takes.inside,
          takes.stream, nofun⟩
        · rw [step, result, length_cons, Nat.add_assoc, Nat.add_comm 1]
        · rw [takes.split, cons_append]
        · exact takes.buffer.trans (dispatchInner_buffer _ _ _)
        · exact takes.bufferOffset.trans (dispatchInner_bufferOffset _ _ _)
        · have standing := takes.standing
          rwa [append_assoc, singleton_append] at standing
      · have incomplete : Incomplete (client.filled.drop offset) (frame :: pending) := by
          intro other isFirst
          cases isFirst
          exact Nat.lt_of_not_le complete
        refine ⟨[], frame :: pending, client, offset, ?_, ?_⟩
        · exact attemptLoop_incomplete wellFormed fits connected inside stream incomplete true
        · exact .none standing inside stream (.inr incomplete)

/-- What `attempt-dispatch` leaves: what it has not taken off is in the front of the buffer. -/
structure Delivered (client : Client) (socket : Bytes) (done pending : List Frame) : Prop where
  wellFormed : WellFormed client
  standing : Standing done client
  stream : client.filled ++ socket = pending.flatMap Frame.bytes

theorem attemptDispatch_delivers (delivered : Delivered client socket done pending)
    (fits : ∀ frame ∈ pending, frame.payload.length < 65536) (contents : Nat → UInt8) :
    ∃ more later next result, attemptDispatch contents true client = some (next, result) ∧
      pending = more ++ later ∧ Delivered next socket (done ++ more) later ∧
      (more = [] → client.connected = false ∨ Incomplete client.filled pending) := by
  obtain ⟨more, later, next, place, result, takes⟩ :=
    attemptLoop_delivers delivered.wellFormed fits delivered.standing (Nat.zero_le _)
      delivered.stream contents 0
  have wellFormed := delivered.wellFormed.congr takes.buffer takes.bufferOffset
  have nothing : more = [] → client.connected = false ∨ Incomplete client.filled pending :=
    fun none => (takes.nothing none).2.2
  have size := wellFormed.size
  have room := wellFormed.inside
  have inside := takes.inside
  -- the rest of the buffer is shifted to the front
  have shifted : ∀ {buffer : Bytes}, buffer.length = next.buffer.length →
      buffer.take (next.bufferOffset - place) = next.filled.drop place →
      Delivered { next with buffer := buffer, bufferOffset := next.bufferOffset - place } socket
        (done ++ more) later := by
    intro buffer length front
    refine ⟨⟨length.trans size, by dsimp only; omega⟩, ?_, ?_⟩
    · exact ⟨takes.standing.received, takes.standing.open_, takes.standing.closed⟩
    · rw [← takes.stream, ← front]
      rfl
  unfold attemptDispatch
  rw [result]
  dsimp only
  split
  next moved =>
    split
    next some_ =>
      have within : place + (next.bufferOffset - place) ≤ next.buffer.length := by omega
      obtain ⟨buffer, isShifted, length, front⟩ :=
        bytevectorShift_spec contents 0 (by omega) moved within
      rw [isShifted]
      refine ⟨more, later, _, _, rfl, takes.split, shifted length ?_, nothing⟩
      rw [front, Client.filled, drop_take]
    next all =>
      have whole : next.bufferOffset = place := by omega
      obtain ⟨buffer, isCopied⟩ := Option.isSome_iff_exists.mp
        (copyRange_isSome.mpr ⟨(by rw [length_replicate]; omega :
            0 + place ≤ (List.replicate place (0 : UInt8)).length),
          (by omega : 0 + place ≤ next.buffer.length)⟩)
      rw [isCopied]
      have cleared := shifted (length_copyRange isCopied) (by
        rw [whole, Nat.sub_self, take_zero, drop_eq_nil_of_le]
        exact Nat.le_of_eq ((length_filled wellFormed).trans whole))
      rw [whole, Nat.sub_self] at cleared
      exact ⟨more, later, _, _, rfl, takes.split, cleared, nothing⟩
  next front =>
    have start : place = 0 := by omega
    refine ⟨more, later, next, _, rfl, takes.split, ⟨wellFormed, takes.standing, ?_⟩, nothing⟩
    rw [← takes.stream, start, drop_zero]

theorem dispatchable_pending (delivered : Delivered client socket done pending)
    (fits : ∀ frame ∈ pending, frame.payload.length < 65536) :
    (dispatchable client = some false ∧ Incomplete client.filled pending) ∨
      (dispatchable client = some true ∧ ¬Incomplete client.filled pending) := by
  have size := length_filled delivered.wellFormed
  have stream := delivered.stream
  have steady : ¬(client.connected = false ∧ client.disconnectAcknowledged = false) := by
    rintro ⟨closed, unacknowledged⟩
    rw [(delivered.standing.closed closed).1] at unacknowledged
    cases unacknowledged
  unfold dispatchable
  rw [if_neg steady]
  split
  next few =>
    left
    refine ⟨rfl, ?_⟩
    intro frame _
    rw [frame.length_bytes]
    omega
  next enough =>
    cases pending with
    | nil =>
      have empty := congrArg List.length (append_eq_nil_iff.mp stream).1
      rw [size, length_nil] at empty
      omega
    | cons frame pending =>
      rw [flatMap_cons] at stream
      obtain ⟨body, header, _⟩ := Frame.header stream (by omega)
      obtain ⟨tail, buffer⟩ := drop_buffer delivered.wellFormed (Nat.zero_le _)
        (drop_zero.trans header)
      have length := payloadLength_writeShort (fits frame mem_cons_self)
      rw [payloadLength_eq] at length
      have read : readShort client.buffer 0 = some frame.payload.length := by
        unfold readShort
        rw [buffer]
        simp only [cons_append, length]
      rw [read, Option.map_some]
      by_cases complete : frame.payload.length + 3 ≤ client.bufferOffset
      · right
        refine ⟨congrArg some (decide_eq_true complete), ?_⟩
        intro incomplete
        have short := incomplete frame rfl
        rw [frame.length_bytes] at short
        omega
      · left
        refine ⟨congrArg some (decide_eq_false complete), ?_⟩
        intro other isFirst
        cases isFirst
        rw [frame.length_bytes]
        omega

/-- What `recv!` gets. -/
def recvLength (socket : Bytes) (available : Nat) : Nat :=
  min (min chunkSize (available + 1)) socket.length

/-- There is room in the buffer for what a round reads, if it reads. -/
def Fits (client : Client) (socket : Bytes) (available : Nat) : Prop :=
  dispatchable client = some false →
    client.bufferOffset + recvLength socket available ≤ maxBufferSize

/-- There is room whenever no frame nearly fills the buffer. -/
theorem Delivered.fits (delivered : Delivered client socket done pending)
    (small : ∀ frame ∈ pending, frame.payload.length + 3 + chunkSize ≤ maxBufferSize + 1)
    (available : Nat) : Fits client socket available := by
  intro waiting
  have below : ∀ frame ∈ pending, frame.payload.length < 65536 := by
    intro frame member
    have bound := small frame member
    unfold chunkSize maxBufferSize at bound
    omega
  have got : recvLength socket available ≤ chunkSize :=
    Nat.le_trans (Nat.min_le_left _ _) (Nat.min_le_left _ _)
  rcases dispatchable_pending delivered below with ⟨-, incomplete⟩ | ⟨dispatch, -⟩
  · cases pending with
    | nil =>
      have size := length_filled delivered.wellFormed
      have empty := congrArg List.length (append_eq_nil_iff.mp delivered.stream).1
      rw [size, length_nil] at empty
      unfold chunkSize at got
      unfold maxBufferSize
      omega
    | cons frame pending =>
      have short := incomplete frame rfl
      have bound := small frame mem_cons_self
      rw [length_filled delivered.wellFormed, frame.length_bytes] at short
      omega
  · rw [waiting] at dispatch
    cases dispatch

theorem protocolRead_eq (filled : socket ≠ []) (available : Nat) :
    protocolRead client socket (available + 1) =
      (copyRange (socket.take (recvLength socket available)) 0 client.buffer client.bufferOffset
        (recvLength socket available)).map fun buffer =>
          ({ client with
              buffer := buffer
              bufferOffset := client.bufferOffset + recvLength socket available },
            socket.drop (recvLength socket available)) := by
  have positive : 0 < socket.length := length_pos_iff.mpr filled
  have length : (socket.take (min chunkSize (available + 1))).length =
      recvLength socket available := length_take
  have chunk : socket.take (min chunkSize (available + 1)) =
      socket.take (recvLength socket available) := by
    exact take_eq_take_min
  have some_ : 0 < recvLength socket available := by
    unfold recvLength chunkSize
    omega
  unfold protocolRead
  dsimp only
  rw [length, if_pos some_, chunk]

variable {available : Nat}

theorem Delivered.read (delivered : Delivered client socket done pending) (filled : socket ≠ [])
    (room : client.bufferOffset + recvLength socket available ≤ maxBufferSize) :
    ∃ next, protocolRead client socket (available + 1) =
        some (next, socket.drop (recvLength socket available)) ∧
      next.connected = client.connected ∧
      Delivered next (socket.drop (recvLength socket available)) done pending ∧
      (socket.drop (recvLength socket available)).length < socket.length := by
  have size := delivered.wellFormed.size
  have positive : 0 < socket.length := length_pos_iff.mpr filled
  have within : recvLength socket available ≤ socket.length := Nat.min_le_right _ _
  have some_ : 0 < recvLength socket available := by
    unfold recvLength chunkSize
    omega
  have chunk : (socket.take (recvLength socket available)).length =
      recvLength socket available := by
    rw [length_take]
    omega
  obtain ⟨buffer, isCopied⟩ := Option.isSome_iff_exists.mp
    (copyRange_isSome.mpr ⟨(by omega : 0 + recvLength socket available ≤
      (socket.take (recvLength socket available)).length),
      (by omega : client.bufferOffset + recvLength socket available ≤ client.buffer.length)⟩)
  have front := take_copyRange isCopied
  rw [drop_zero, take_take, Nat.min_self] at front
  refine ⟨{ client with
      buffer := buffer
      bufferOffset := client.bufferOffset + recvLength socket available },
    ?_, rfl, ⟨⟨?_, room⟩, ?_, ?_⟩, ?_⟩
  · rw [protocolRead_eq filled, isCopied]
    rfl
  · exact (length_copyRange isCopied).trans size
  · exact ⟨delivered.standing.received, delivered.standing.open_, delivered.standing.closed⟩
  · rw [Client.filled, front, append_assoc, take_append_drop]
    exact delivered.stream
  · rw [length_drop]
    omega

/-- A round takes frames off or reads, until there is nothing left to dispatch. -/
def Progress (client : Client) (socket : Bytes) (done pending : List Frame) (next : Client)
    (rest : Bytes) : Prop :=
  ∃ more later, pending = more ++ later ∧ Delivered next rest (done ++ more) later ∧
    (client.connected = false ∨ pending = [] ∨
      rest.length + later.length < socket.length + pending.length)

theorem Delivered.dispatchAll (delivered : Delivered client socket done pending)
    (fits : ∀ frame ∈ pending, frame.payload.length < 65536)
    (complete : ¬Incomplete client.filled pending) (contents : Nat → UInt8) :
    ∃ next result, attemptDispatch contents true client = some (next, result) ∧
      Progress client socket done pending next socket := by
  obtain ⟨more, later, next, result, dispatched, split, kept, nothing⟩ :=
    attemptDispatch_delivers delivered fits contents
  refine ⟨next, result, dispatched, more, later, split, kept, ?_⟩
  cases more with
  | nil => exact .inl ((nothing rfl).resolve_right complete)
  | cons frame more =>
    right
    right
    rw [split, length_append, length_cons]
    omega

theorem Delivered.stuck (delivered : Delivered client [] done pending)
    (incomplete : Incomplete client.filled pending) : pending = [] := by
  cases pending with
  | nil => rfl
  | cons frame pending =>
    have short := incomplete frame rfl
    have stream := congrArg List.length delivered.stream
    rw [append_nil, flatMap_cons, length_append] at stream
    omega

/-- A round with room for what it reads. -/
theorem takeRound_delivers (delivered : Delivered client socket done pending)
    (fits : ∀ frame ∈ pending, frame.payload.length < 65536) (room : Fits client socket available)
    (contents : Nat → UInt8) :
    ∃ next rest, takeRound contents client socket available = some (next, rest) ∧
      Progress client socket done pending next rest := by
  unfold takeRound
  rcases dispatchable_pending delivered fits with ⟨idle, incomplete⟩ | ⟨ready, complete⟩
  · simp only [idle]
    by_cases empty : socket = []
    · subst empty
      have none := delivered.stuck incomplete
      rw [if_pos rfl]
      refine ⟨client, [], rfl, [], pending, rfl, ?_, .inr (.inl none)⟩
      rw [append_nil]
      exact delivered
    · rw [if_neg empty]
      obtain ⟨read, isRead, connected, kept, shorter⟩ := delivered.read empty (room idle)
      simp only [isRead]
      rcases dispatchable_pending kept fits with ⟨still, _⟩ | ⟨ready, complete⟩
      · simp only [still]
        refine ⟨read, _, rfl, [], pending, rfl, ?_, .inr (.inr ?_)⟩
        · rw [append_nil]
          exact kept
        · omega
      · simp only [ready]
        obtain ⟨next, result, dispatched, more, later, split, final, less⟩ :=
          kept.dispatchAll fits complete contents
        rw [dispatched]
        refine ⟨next, _, rfl, more, later, split, final, ?_⟩
        rw [connected] at less
        rcases less with closed | none | less
        · exact .inl closed
        · exact .inr (.inl none)
        · exact .inr (.inr (by omega))
  · simp only [ready]
    obtain ⟨next, result, dispatched, progress⟩ := delivered.dispatchAll fits complete contents
    rw [dispatched]
    exact ⟨next, socket, rfl, progress⟩

/-- A round without room fails. -/
theorem takeRound_overflows (delivered : Delivered client socket done pending)
    (overflows : ¬Fits client socket available) (contents : Nat → UInt8) :
    takeRound contents client socket available = none := by
  unfold Fits at overflows
  push Not at overflows
  obtain ⟨idle, large⟩ := overflows
  have size := delivered.wellFormed.size
  have filled : socket ≠ [] := by
    intro empty
    subst empty
    have inside := delivered.wellFormed.inside
    simp only [recvLength, length_nil, Nat.min_zero] at large
    omega
  have outside : ¬(0 + recvLength socket available ≤
        (socket.take (recvLength socket available)).length ∧
      client.bufferOffset + recvLength socket available ≤ client.buffer.length) := by
    rw [size]
    omega
  unfold takeRound
  simp only [idle]
  rw [if_neg filled, protocolRead_eq filled, copyRange, if_neg outside]
  rfl

end Gzochi.GuileClient
