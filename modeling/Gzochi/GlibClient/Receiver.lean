import Gzochi.Socket.Receiving

/-!
# The receive loop of the client

A client keeps what it has read from its socket in a buffer of fixed size, and takes messages off
the front of it, one or all of them.  It reads when there is nothing to dispatch: as a source of a
main loop, and while it connects.

The length of a message is a `short`, so the place in the buffer can go back.  What is before the
buffer is not part of the model; a loop that reads there has no result.
-/

namespace Gzochi.GlibClient

open List

open Gzochi.DataClient (Bytes readShort writeShort readShort_writeShort
  readShort_writeShort_unsigned)
open Gzochi.Socket (Frame unsignedShort)

/-- `GZOCHI_COMMON_PROTOCOL_SESSION_DISCONNECTED`. -/
def sessionDisconnectedOpcode : UInt8 := 0x30

/-- `GZOCHI_COMMON_PROTOCOL_SESSION_MESSAGE`. -/
def sessionMessageOpcode : UInt8 := 0x31

/-- `GZOCHI_CLIENT_MAX_BUFFER_SIZE`. -/
def maxBufferSize : Nat := 65538

/-- `CHUNK_SIZE`. -/
def chunkSize : Nat := 512

/-- What a handler of messages is called with; a message may go on after the end of what has
been read. -/
inductive Received where
  | message (payload : Bytes)
  | overrun
  deriving DecidableEq

/-- `gzochi_client_common_session`, with the calls of its two handlers.  The buffer is the part
of it that has been filled. -/
structure ClientSession where
  connected : Bool
  disconnectAcknowledged : Bool
  buffer : Bytes
  received : List Received
  disconnections : Nat
  deriving DecidableEq

/-- `dispatch_session_message`; the handler takes the length as an `unsigned short`. -/
def dispatchSessionMessage (session : ClientSession) (message : Bytes) (len : Int) :
    ClientSession :=
  let length := unsignedShort len
  { session with
    received := session.received ++
      [if length ≤ message.length then .message (message.take length) else .overrun] }

/-- `dispatch_session_disconnected`. -/
def dispatchSessionDisconnected (session : ClientSession) : ClientSession :=
  let closed := { session with connected := false }
  if closed.disconnectAcknowledged then closed
  else
    { closed with
      disconnectAcknowledged := true
      disconnections := closed.disconnections + 1 }

/-- `dispatch`. -/
def dispatch (session : ClientSession) (opcode : UInt8) (message : Bytes) (len : Int) :
    ClientSession :=
  if opcode = sessionMessageOpcode then dispatchSessionMessage session message len
  else if opcode = sessionDisconnectedOpcode then dispatchSessionDisconnected session
  else session

/-- The variables of the loop of `attempt_dispatch`. -/
structure Loop where
  session : ClientSession
  remaining : Nat
  offset : Int
  dispatched : Nat

/-- A message is dispatched in the loop. -/
def Loop.dispatch (loop : Loop) (limit : Nat) (opcode : UInt8) (message : Bytes)
    (messageLen : Int) : Loop where
  session := GlibClient.dispatch loop.session opcode message messageLen
  remaining := if limit = 0 then loop.remaining else loop.remaining - 1
  offset := loop.offset + (3 + messageLen)
  dispatched := loop.dispatched + 1

/-- The loop of `attempt_dispatch`; `fuel` bounds how often it is entered. -/
def attemptLoop (limit : Nat) : Nat → Loop → Option Loop
  | 0, _ => none
  | fuel + 1, loop =>
      if limit ≠ 0 ∧ loop.remaining = 0 then some loop
      else if loop.session.connected = false then
        some { loop with session := dispatchSessionDisconnected loop.session }
      else if (loop.session.buffer.length : Int) - loop.offset < 3 then some loop
      else if loop.offset < 0 then none
      else
        match loop.session.buffer.drop loop.offset.toNat with
        | high :: low :: opcode :: message =>
            let messageLen := readShort high low
            if (loop.session.buffer.length : Int) - loop.offset < messageLen + 3 then some loop
            else
              attemptLoop limit fuel (loop.dispatch limit opcode message messageLen)
        | _ => none

/-- `attempt_dispatch`, with what it returns. -/
def attemptDispatch (fuel : Nat) (session : ClientSession) (limit : Nat) :
    Option (ClientSession × Nat) :=
  (attemptLoop limit fuel ⟨session, limit, 0, 0⟩).map fun loop =>
    if 0 < loop.offset then
      ({ loop.session with buffer := loop.session.buffer.drop loop.offset.toNat }, loop.dispatched)
    else (loop.session, loop.dispatched)

/-- `gzochi_client_protocol_dispatch` and `gzochi_client_protocol_dispatch_all`. -/
inductive Dispatcher where
  | dispatch
  | dispatchAll
  deriving DecidableEq

def Dispatcher.limit : Dispatcher → Nat
  | .dispatch => 1
  | .dispatchAll => 0

/-- `gzochi_client_common_session_is_dispatchable`. -/
def isDispatchable (session : ClientSession) : Bool :=
  if session.connected = false ∧ session.disconnectAcknowledged = false then true
  else
    match session.buffer with
    | high :: low :: _ :: message => unsignedShort (readShort high low) ≤ message.length
    | _ => false

/-- A session with its source, which is taken out of the main loop when its `dispatch` returns
`FALSE`, and the bytes on its socket. -/
structure Receiver where
  session : ClientSession
  attached : Bool
  socket : Bytes
  deriving DecidableEq

/-- `gzochi_client_protocol_read`, when there is something on the socket: it gets at most as much
as it asks for, and fails when it gets nothing. -/
def gzochiClientProtocolRead (receiver : Receiver) (size : Nat) : Option Receiver :=
  let bytesRequested := min chunkSize (maxBufferSize - receiver.session.buffer.length)
  match receiver.socket.take (min bytesRequested size) with
  | [] => none
  | chunk =>
      some
        { receiver with
          session := { receiver.session with buffer := receiver.session.buffer ++ chunk }
          socket := receiver.socket.drop chunk.length }

/-- The two loops that read. -/
inductive Reader where
  | source
  | readAndDispatch
  deriving DecidableEq

/-- A round of a loop, with how it dispatches, and how much there is to read if it does. -/
structure Round where
  reader : Reader
  dispatcher : Dispatcher
  available : Nat
  deriving DecidableEq

/-- A round of the main loop: `prepare`, then `check`, then `dispatch`. -/
def sourceRound (fuel : Nat) (receiver : Receiver) (dispatcher : Dispatcher) (available : Nat) :
    Option Receiver :=
  let dispatched (receiver : Receiver) :=
    (attemptDispatch fuel receiver.session dispatcher.limit).map fun result =>
      { receiver with
        session := result.1
        attached := result.2 > 0 }
  if receiver.attached = false then some receiver
  else if isDispatchable receiver.session then dispatched receiver
  else if receiver.socket = [] then some receiver
  else
    let read :=
      match gzochiClientProtocolRead receiver (available + 1) with
      | some read => read
      | none => { receiver with session := { receiver.session with connected := false } }
    if isDispatchable read.session then dispatched read else some read

/-- A round of `read_and_dispatch`. -/
def readAndDispatchRound (fuel : Nat) (receiver : Receiver) (dispatcher : Dispatcher)
    (available : Nat) : Option Receiver :=
  (attemptDispatch fuel receiver.session dispatcher.limit).map fun result =>
    let dispatched := { receiver with session := result.1 }
    if result.2 ≠ 0 ∨ receiver.socket = [] then dispatched
    else
      match gzochiClientProtocolRead dispatched (available + 1) with
      | some read => read
      | none =>
          { dispatched with
            session :=
              { result.1 with
                connected := false
                disconnections := result.1.disconnections + 1 } }

def Round.step (fuel : Nat) (receiver : Receiver) (round : Round) : Option Receiver :=
  match round.reader with
  | .source => sourceRound fuel receiver round.dispatcher round.available
  | .readAndDispatch => readAndDispatchRound fuel receiver round.dispatcher round.available

/-- Round after round. -/
def receive (fuel : Nat) (receiver : Receiver) : List Round → Option Receiver
  | [] => some receiver
  | round :: rounds => (round.step fuel receiver).bind fun next => receive fuel next rounds

/-- `gzochid_game_client_send`: what the server writes to the socket of a client. -/
def gzochidGameClientSend (msg : Bytes) : Bytes :=
  writeShort msg.length ++ sessionMessageOpcode :: msg

/-! ## Messages in the buffer -/

section

variable {payload more socket message buffer : Bytes}
  {pending : List Bytes} {limit fuel : Nat}

/-- What the buffer begins with when the length of a message is in it. -/
theorem message_header (stream : buffer ++ socket = gzochidGameClientSend payload ++ more)
    (enough : 3 ≤ buffer.length) :
    ∃ message, buffer = UInt8.ofNat (payload.length / 256) :: UInt8.ofNat payload.length ::
        sessionMessageOpcode :: message ∧
      message ++ socket = payload ++ more := by
  have framed : buffer ++ socket = Frame.bytes ⟨sessionMessageOpcode, payload⟩ ++ more := stream
  exact Frame.header framed enough

/-- A message that is in the buffer as a whole is dispatched. -/
theorem dispatch_payload (session : ClientSession) (fits : payload.length < 32768)
    (body : message ++ socket = payload ++ more) (complete : payload.length ≤ message.length) :
    dispatch session sessionMessageOpcode message payload.length =
        { session with received := session.received ++ [.message payload] } ∧
      message.drop payload.length ++ socket = more := by
  have taken : message.take payload.length = payload := by
    have front := congrArg (List.take payload.length) body
    rwa [take_append_of_le_length complete, take_left] at front
  have dropped : message.drop payload.length ++ socket = more := by
    have back := congrArg (List.drop payload.length) body
    rwa [drop_append_of_le_length complete, drop_left] at back
  have length : unsignedShort payload.length = payload.length := by
    unfold unsignedShort
    omega
  refine ⟨?_, dropped⟩
  simp only [dispatch, dispatchSessionMessage, length, if_pos complete, taken, if_true]

/-- The next message is not in the buffer as a whole. -/
def Incomplete (buffer : Bytes) (pending : List Bytes) : Prop :=
  ∀ payload ∈ pending.head?, buffer.length < payload.length + 3

/-- The loop is in a connected session, at the first of the messages that are pending. -/
structure AtMessage (socket : Bytes) (pending : List Bytes) (loop : Loop) (place : Nat) : Prop where
  connected : loop.session.connected = true
  offset : loop.offset = place
  inside : place ≤ loop.session.buffer.length
  stream : loop.session.buffer.drop place ++ socket = pending.flatMap gzochidGameClientSend

/-- What has been dispatched between two places in the loop. -/
structure Dispatched (done : List Bytes) (loop next : Loop) : Prop where
  session : next.session =
    { loop.session with received := loop.session.received ++ done.map .message }
  dispatched : next.dispatched = loop.dispatched + done.length

theorem Dispatched.nothing (loop : Loop) : Dispatched [] loop loop where
  session := by simp
  dispatched := rfl

variable {loop : Loop}

theorem Dispatched.cons {done : List Bytes} {middle next : Loop}
    (first : Dispatched [payload] loop middle) (later : Dispatched done middle next) :
    Dispatched (payload :: done) loop next where
  session := by
    rw [later.session, first.session]
    simp
  dispatched := by
    rw [later.dispatched, first.dispatched, length_singleton, length_cons]
    omega

/-- Once around the loop, with the length of a message in the buffer. -/
theorem attemptLoop_header {place : Nat} {high low opcode : UInt8}
    (connected : loop.session.connected = true) (offset : loop.offset = place)
    (buffer : loop.session.buffer.drop place = high :: low :: opcode :: message)
    (again : ¬(limit ≠ 0 ∧ loop.remaining = 0)) :
    attemptLoop limit (fuel + 1) loop =
      if (message.length : Int) < readShort high low then some loop
      else
        attemptLoop limit fuel (loop.dispatch limit opcode message (readShort high low)) := by
  have whole : loop.session.buffer.length = place + (message.length + 3) := by
    have size := congrArg List.length buffer
    simp only [length_drop, length_cons] at size
    omega
  have short : ¬((loop.session.buffer.length : Int) - loop.offset < 3) := by
    rw [whole, offset]
    omega
  have inside : ¬loop.offset < 0 := by
    rw [offset]
    omega
  have complete : ((loop.session.buffer.length : Int) - place < readShort high low + 3) ↔
      (message.length : Int) < readShort high low := by
    rw [whole]
    omega
  simp only [attemptLoop, if_neg again, connected, if_neg short, if_neg inside]
  simp only [offset, Int.toNat_natCast, buffer, complete, Bool.true_eq_false, if_false]

/-- Once around the loop, with the next message in the buffer as a whole. -/
theorem attemptLoop_complete {offset : Nat} (fits : payload.length < 32768)
    (place : AtMessage socket (payload :: pending) loop offset)
    (complete : payload.length + 3 ≤ (loop.session.buffer.drop offset).length)
    (again : ¬(limit ≠ 0 ∧ loop.remaining = 0)) :
    ∃ next, attemptLoop limit (fuel + 1) loop = attemptLoop limit fuel next ∧
      AtMessage socket pending next (offset + (3 + payload.length)) ∧
      Dispatched [payload] loop next := by
  have stream := place.stream
  rw [flatMap_cons] at stream
  obtain ⟨message, buffer, body⟩ := message_header stream (by omega)
  have size : (loop.session.buffer.drop offset).length = message.length + 3 := by
    rw [buffer]
    rfl
  have enough : payload.length ≤ message.length := by omega
  obtain ⟨session, left⟩ := dispatch_payload loop.session fits body enough
  have step : attemptLoop limit (fuel + 1) loop = attemptLoop limit fuel
      (loop.dispatch limit sessionMessageOpcode message payload.length) := by
    rw [attemptLoop_header place.connected place.offset buffer again, readShort_writeShort fits,
      if_neg (by omega)]
  refine ⟨_, step, ⟨?_, ?_, ?_, ?_⟩, ?_, ?_⟩
  · simp only [Loop.dispatch, session, place.connected]
  · simp only [Loop.dispatch, place.offset]
    omega
  · simp only [Loop.dispatch, session]
    rw [length_drop] at size
    omega
  · simp only [Loop.dispatch, session]
    rw [← drop_drop, buffer, ← left, Nat.add_comm]
    rfl
  · simp only [Loop.dispatch, session, map_cons, map_nil]
  · rfl

theorem attemptLoop_incomplete {offset : Nat} (fits : ∀ payload ∈ pending, payload.length < 32768)
    (place : AtMessage socket pending loop offset)
    (incomplete : Incomplete (loop.session.buffer.drop offset) pending) :
    attemptLoop limit (fuel + 1) loop = some loop := by
  by_cases again : limit ≠ 0 ∧ loop.remaining = 0
  · simp only [attemptLoop, if_pos again]
  · have stream := place.stream
    match buffer : loop.session.buffer.drop offset with
    | high :: low :: opcode :: message =>
      cases pending with
      | nil =>
        rw [buffer] at stream
        cases stream
      | cons payload pending =>
        rw [flatMap_cons] at stream
        obtain ⟨message, header, _⟩ := message_header stream (by rw [buffer]; simp)
        have short := incomplete payload rfl
        rw [header] at short
        simp only [length_cons] at short
        rw [attemptLoop_header place.connected place.offset header again,
          readShort_writeShort (fits payload mem_cons_self), if_pos (by omega)]
    | [] | [_] | [_, _] =>
      have size := congrArg List.length buffer
      simp only [length_drop, length_cons, length_nil] at size
      have short : (loop.session.buffer.length : Int) - loop.offset < 3 := by
        rw [place.offset]
        have inside := place.inside
        omega
      simp only [attemptLoop, if_neg again, place.connected, if_pos short, Bool.true_eq_false,
        if_false]

/-- The loop dispatches messages that are in the buffer, at least one if it can. -/
theorem attemptLoop_delivers {offset : Nat} (fits : ∀ payload ∈ pending, payload.length < 32768)
    (place : AtMessage socket pending loop offset) (enough : pending.length < fuel) :
    ∃ done later next nextOffset, attemptLoop limit fuel loop = some next ∧
      pending = done ++ later ∧ AtMessage socket later next nextOffset ∧
      Dispatched done loop next ∧
      (done = [] → nextOffset = offset ∧ ((limit ≠ 0 ∧ loop.remaining = 0) ∨
          Incomplete (loop.session.buffer.drop offset) pending)) := by
  induction pending generalizing fuel loop offset with
  | nil =>
    obtain ⟨fuel, rfl⟩ := Nat.exists_eq_add_one.mpr enough
    have nothing : Incomplete (loop.session.buffer.drop offset) [] :=
      fun payload absent => by cases absent
    exact ⟨[], [], loop, offset, attemptLoop_incomplete fits place nothing, rfl, place,
      .nothing loop, fun _ => ⟨rfl, .inr nothing⟩⟩
  | cons payload pending ih =>
    obtain ⟨fuel, rfl⟩ := Nat.exists_eq_add_one.mpr (Nat.zero_lt_of_lt enough)
    by_cases again : limit ≠ 0 ∧ loop.remaining = 0
    · exact ⟨[], _, loop, offset, by simp only [attemptLoop, if_pos again], rfl, place,
        .nothing loop, fun _ => ⟨rfl, .inl again⟩⟩
    · by_cases complete : payload.length + 3 ≤ (loop.session.buffer.drop offset).length
      · obtain ⟨middle, step, first, dispatched⟩ :=
          attemptLoop_complete (fits payload mem_cons_self) place complete again
        have others : ∀ payload ∈ pending, payload.length < 32768 :=
          fun other member => fits other (mem_cons_of_mem _ member)
        rw [length_cons] at enough
        obtain ⟨done, later, next, nextOffset, result, split, final, dispatchedLater, _⟩ :=
          ih others first (Nat.lt_of_succ_lt_succ enough)
        refine ⟨payload :: done, later, next, nextOffset, ?_, ?_, final, ?_, ?_⟩
        · rw [step, result]
        · rw [split, cons_append]
        · exact dispatched.cons dispatchedLater
        · intro none
          cases none
      · have incomplete : Incomplete (loop.session.buffer.drop offset) (payload :: pending) := by
          intro other isFirst
          cases isFirst
          exact Nat.lt_of_not_le complete
        exact ⟨[], _, loop, offset, attemptLoop_incomplete fits place incomplete, rfl, place,
          .nothing loop, fun _ => ⟨rfl, .inr incomplete⟩⟩

/-- What is pending starts in the buffer of a connected session and goes on on the socket. -/
structure Pending (session : ClientSession) (socket : Bytes) (pending : List Bytes) : Prop where
  connected : session.connected = true
  stream : session.buffer ++ socket = pending.flatMap gzochidGameClientSend

variable {session : ClientSession}

theorem attemptDispatch_eq {place : Nat}
    (result : attemptLoop limit fuel ⟨session, limit, 0, 0⟩ = some loop)
    (offset : loop.offset = place) :
    attemptDispatch fuel session limit =
      some ({ loop.session with buffer := loop.session.buffer.drop place }, loop.dispatched) := by
  simp only [attemptDispatch, result, Option.map_some, offset, Int.toNat_natCast]
  split
  next => rfl
  next none =>
    have zero : place = 0 := by omega
    rw [zero, drop_zero]

/-- `attempt_dispatch` takes the messages off the buffer that it dispatches. -/
theorem attemptDispatch_delivers (fits : ∀ payload ∈ pending, payload.length < 32768)
    (isPending : Pending session socket pending) (enough : pending.length < fuel)
    (dispatcher : Dispatcher) :
    ∃ done later next, attemptDispatch fuel session dispatcher.limit = some (next, done.length) ∧
      pending = done ++ later ∧ Pending next socket later ∧
      next.received = session.received ++ done.map .message ∧
      next.disconnections = session.disconnections ∧
      (done = [] → next = session ∧ Incomplete session.buffer pending) := by
  have place : AtMessage socket pending ⟨session, dispatcher.limit, 0, 0⟩ 0 :=
    ⟨isPending.connected, rfl, Nat.zero_le _, isPending.stream⟩
  obtain ⟨done, later, loop, offset, result, split, final, dispatched, first⟩ :=
    attemptLoop_delivers fits place enough
  refine ⟨done, later, { loop.session with buffer := loop.session.buffer.drop offset }, ?_, split,
    ⟨final.connected, final.stream⟩, ?_, ?_, ?_⟩
  · rw [attemptDispatch_eq result final.offset, dispatched.dispatched, Nat.zero_add]
  · simp only [dispatched.session]
  · simp only [dispatched.session]
  · intro none
    obtain ⟨atStart, stopped⟩ := first none
    subst none atStart
    have limited : ¬(dispatcher.limit ≠ 0 ∧ dispatcher.limit = 0) := fun both => both.1 both.2
    refine ⟨?_, stopped.resolve_left limited⟩
    simp only [dispatched.session, map_nil, append_nil, drop_zero]

/-! ## Rounds -/

theorem isDispatchable_pending (fits : ∀ payload ∈ pending, payload.length < 65536)
    (isPending : Pending session socket pending) :
    isDispatchable session = false ↔ Incomplete session.buffer pending := by
  have stream := isPending.stream
  simp only [isDispatchable, isPending.connected, Bool.true_eq_false, false_and, if_false]
  match buffer : session.buffer with
  | high :: low :: opcode :: message =>
    cases pending with
    | nil =>
      rw [buffer] at stream
      cases stream
    | cons payload pending =>
      rw [flatMap_cons, buffer] at stream
      obtain ⟨_, header, _⟩ := message_header stream (by simp)
      cases header
      have length : unsignedShort (readShort (UInt8.ofNat (payload.length / 256))
          (UInt8.ofNat payload.length)) = payload.length :=
        readShort_writeShort_unsigned (fits payload mem_cons_self)
      simp [Incomplete, length]
  | [] | [_] | [_, _] =>
    simp only [true_iff]
    intro payload _
    simp only [length_cons, length_nil]
    omega

theorem read_chunk {receiver : Receiver} (available : Nat) (filled : receiver.socket ≠ [])
    (room : receiver.session.buffer.length < maxBufferSize) :
    ∃ chunk rest, chunk ≠ [] ∧ receiver.socket = chunk ++ rest ∧
      gzochiClientProtocolRead receiver (available + 1) = some { receiver with
          session := { receiver.session with buffer := receiver.session.buffer ++ chunk }
          socket := rest } := by
  have requested : 0 < min (min chunkSize (maxBufferSize - receiver.session.buffer.length))
      (available + 1) := by
    unfold chunkSize
    omega
  generalize size : min (min chunkSize (maxBufferSize - receiver.session.buffer.length))
    (available + 1) = bytesRead at requested
  refine ⟨receiver.socket.take bytesRead, receiver.socket.drop bytesRead, ?_,
    (take_append_drop _ _).symm, ?_⟩
  · intro nothing
    cases take_eq_nil_iff.mp nothing with
    | inl zero => omega
    | inr empty => exact filled empty
  · have rest : receiver.socket.drop (receiver.socket.take bytesRead).length =
        receiver.socket.drop bytesRead := by
      have whole : (receiver.socket.take bytesRead ++ receiver.socket.drop bytesRead).drop
          (receiver.socket.take bytesRead).length = receiver.socket.drop bytesRead :=
        drop_left
      rwa [take_append_drop] at whole
    simp only [gzochiClientProtocolRead, size]
    split
    next nothing =>
      cases take_eq_nil_iff.mp nothing with
      | inl zero => omega
      | inr empty => exact absurd empty filled
    next => rw [rest]

/-- The messages that are done have been handed on, and the others are pending. -/
structure Delivered (receiver : Receiver) (done pending : List Bytes) : Prop where
  attached : receiver.attached = true
  received : receiver.session.received = done.map .message
  pending : Pending receiver.session receiver.socket pending

/-- A message that is not in the buffer as a whole goes on on the socket. -/
theorem Pending.socket_filled (isPending : Pending session socket pending)
    (incomplete : Incomplete session.buffer pending) (empty : socket = []) : pending = [] := by
  cases pending with
  | nil => rfl
  | cons payload pending =>
    have short := incomplete payload rfl
    have stream := congrArg List.length isPending.stream
    rw [empty, append_nil, flatMap_cons] at stream
    simp only [gzochidGameClientSend, writeShort, length_append, length_cons, length_nil] at stream
    omega

/-- There is room in the buffer for the rest of a message. -/
theorem Pending.room (isPending : Pending session socket pending)
    (fits : ∀ payload ∈ pending, payload.length < 65536)
    (incomplete : Incomplete session.buffer pending) :
    session.buffer.length < maxBufferSize := by
  unfold maxBufferSize
  cases pending with
  | nil =>
    have empty := (append_eq_nil_iff.mp isPending.stream).1
    rw [empty]
    exact Nat.zero_lt_succ _
  | cons payload pending =>
    have short := incomplete payload rfl
    have bound := fits payload mem_cons_self
    omega

section

variable {receiver : Receiver} {done : List Bytes}

theorem Delivered.dispatch (delivered : Delivered receiver done pending)
    (fits : ∀ payload ∈ pending, payload.length < 32768) (enough : pending.length < fuel)
    (dispatcher : Dispatcher) :
    ∃ more later session,
      attemptDispatch fuel receiver.session dispatcher.limit = some (session, more.length) ∧
      pending = more ++ later ∧
      Delivered { receiver with session := session } (done ++ more) later ∧
      (more = [] → session = receiver.session ∧ Incomplete receiver.session.buffer pending) := by
  obtain ⟨more, later, session, result, split, isPending, received, _, first⟩ :=
    attemptDispatch_delivers fits delivered.pending enough dispatcher
  refine ⟨more, later, session, result, split, ⟨delivered.attached, ?_, isPending⟩, first⟩
  simp only [received, delivered.received, map_append]

theorem Delivered.read (delivered : Delivered receiver done pending)
    (fits : ∀ payload ∈ pending, payload.length < 65536)
    (incomplete : Incomplete receiver.session.buffer pending) (filled : receiver.socket ≠ [])
    (available : Nat) :
    ∃ read, gzochiClientProtocolRead receiver (available + 1) = some read ∧
      Delivered read done pending ∧ read.socket.length < receiver.socket.length := by
  obtain ⟨chunk, rest, nonempty, split, result⟩ :=
    read_chunk available filled (delivered.pending.room fits incomplete)
  refine ⟨_, result, ⟨delivered.attached, delivered.received, ?_, ?_⟩, ?_⟩
  · exact delivered.pending.connected
  · change (receiver.session.buffer ++ chunk) ++ rest = _
    rw [append_assoc, ← split]
    exact delivered.pending.stream
  · have some := length_pos_iff.mpr nonempty
    rw [split, length_append]
    change rest.length < chunk.length + rest.length
    omega

/-- A round hands on messages or reads, until nothing is pending. -/
def Progress (receiver : Receiver) (done pending : List Bytes) (next : Receiver) : Prop :=
  ∃ more later, pending = more ++ later ∧ Delivered next (done ++ more) later ∧
    (pending = [] ∨
      next.socket.length + later.length < receiver.socket.length + pending.length)

variable (delivered : Delivered receiver done pending)
include delivered

variable (fits : ∀ payload ∈ pending, payload.length < 32768)
include fits

/-- A source that has messages to dispatch stays in the main loop. -/
theorem Delivered.sourceDispatch (enough : pending.length < fuel)
    (some : ¬Incomplete receiver.session.buffer pending) (dispatcher : Dispatcher) :
    ∃ session dispatched,
      attemptDispatch fuel receiver.session dispatcher.limit = .some (session, dispatched) ∧
      Progress receiver done pending
        { receiver with session := session, attached := decide (dispatched > 0) } := by
  obtain ⟨more, later, session, result, split, next, first⟩ :=
    delivered.dispatch fits enough dispatcher
  cases more with
  | nil => exact absurd (first rfl).2 some
  | cons payload more =>
    refine ⟨session, _, result, payload :: more, later, split, ⟨?_, ?_, ?_⟩, .inr ?_⟩
    · exact decide_eq_true (Nat.zero_lt_succ more.length)
    · exact next.received
    · exact next.pending
    · rw [split, length_append, length_cons]
      change receiver.socket.length + _ < _
      omega

theorem sourceRound_delivers (enough : pending.length < fuel)
    (dispatcher : Dispatcher) (available : Nat) :
    ∃ next, sourceRound fuel receiver dispatcher available = some next ∧
      Progress receiver done pending next := by
  have wide : ∀ payload ∈ pending, payload.length < 65536 :=
    fun payload member => Nat.lt_trans (fits payload member) (by decide)
  simp only [sourceRound, delivered.attached, Bool.true_eq_false, if_false]
  cases ready : isDispatchable receiver.session with
  | true =>
    have some : ¬Incomplete receiver.session.buffer pending := by
      rw [← isDispatchable_pending wide delivered.pending, ready]
      simp
    obtain ⟨session, dispatched, result, progress⟩ :=
      delivered.sourceDispatch fits enough some dispatcher
    rw [if_pos rfl, result]
    exact ⟨_, rfl, progress⟩
  | false =>
    have incomplete := (isDispatchable_pending wide delivered.pending).mp ready
    rw [if_neg Bool.false_ne_true]
    by_cases empty : receiver.socket = []
    · rw [if_pos empty]
      have nothing := delivered.pending.socket_filled incomplete empty
      refine ⟨receiver, rfl, [], pending, rfl, ?_, .inl nothing⟩
      rw [append_nil]
      exact delivered
    · rw [if_neg empty]
      obtain ⟨read, isRead, kept, shorter⟩ :=
        delivered.read wide incomplete empty available
      simp only [isRead]
      cases now : isDispatchable read.session with
      | true =>
        have some : ¬Incomplete read.session.buffer pending := by
          rw [← isDispatchable_pending wide kept.pending, now]
          simp
        obtain ⟨session, dispatched, result, more, later, split, next, less⟩ :=
          kept.sourceDispatch fits enough some dispatcher
        rw [if_pos rfl, result]
        refine ⟨_, rfl, more, later, split, next, ?_⟩
        cases less with
        | inl nothing => exact .inl nothing
        | inr less => exact .inr (Nat.lt_trans less (Nat.add_lt_add_right shorter _))
      | false =>
        rw [if_neg Bool.false_ne_true]
        refine ⟨read, rfl, [], pending, rfl, ?_, .inr (Nat.add_lt_add_right shorter _)⟩
        rw [append_nil]
        exact kept

theorem readAndDispatchRound_delivers (enough : pending.length < fuel)
    (dispatcher : Dispatcher) (available : Nat) :
    ∃ next, readAndDispatchRound fuel receiver dispatcher available = some next ∧
      Progress receiver done pending next := by
  obtain ⟨more, later, session, result, split, dispatched, first⟩ :=
    delivered.dispatch fits enough dispatcher
  have wide : ∀ payload ∈ later, payload.length < 65536 := by
    intro payload member
    have bound := fits payload (by rw [split]; exact mem_append_right _ member)
    omega
  simp only [readAndDispatchRound, result, Option.map_some]
  by_cases stop : more.length ≠ 0 ∨ receiver.socket = []
  · rw [if_pos stop]
    refine ⟨_, rfl, more, later, split, dispatched, ?_⟩
    cases more with
    | nil =>
      have empty := stop.resolve_left fun none => none rfl
      exact .inl (delivered.pending.socket_filled (first rfl).2 empty)
    | cons payload more =>
      refine .inr ?_
      rw [split, length_append, length_cons]
      change receiver.socket.length + _ < _
      omega
  · rw [if_neg stop]
    simp only [not_or, not_not, length_eq_zero_iff] at stop
    obtain ⟨rfl, filled⟩ := stop
    obtain ⟨rfl, incomplete⟩ := first rfl
    rw [nil_append] at split
    subst split
    obtain ⟨read, isRead, kept, shorter⟩ := dispatched.read wide incomplete filled available
    rw [isRead]
    exact ⟨read, rfl, [], pending, rfl, kept, .inr (Nat.add_lt_add_right shorter _)⟩

end

end

end Gzochi.GlibClient
