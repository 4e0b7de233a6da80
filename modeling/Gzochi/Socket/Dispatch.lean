import Mathlib.Data.List.Induction
import Gzochi.Lib.Framing
import Gzochi.DataClient.Protocol

/-!
# Messages read from a socket

The server keeps what it has read from a client in a buffer.  Whenever the buffer starts
with a complete message, the client's protocol takes all messages off it that it finds:
two bytes with the length of the payload, the opcode, the payload.  The protocol of the
meta server hands most of its messages to the protocols of its components, in a buffer of
their own.

The length of a message is counted in an `unsigned short`, and with the opcode the longest
payload does not fit.
-/

namespace Gzochi.Socket

open Gzochi.DataClient (Bytes readShort writeShort)
open Gzochi.Lib List Framing

/-- Components with a protocol of their own. -/
inductive Component where
  | channelserver
  | dataserver
  | sessionserver
  deriving DecidableEq

/-- The protocols of the server's clients. -/
inductive Protocol where
  | game
  | ofComponent (component : Component)
  | metaserver
  deriving DecidableEq

/-- What a protocol does with a message: it is processed, or its payload goes on after the
end of the buffer, or the meta server does not know its opcode. -/
inductive Event where
  | message (protocol : Protocol) (opcode : UInt8) (payload : Bytes)
  | overrun (protocol : Protocol) (opcode : UInt8)
  | unexpected (opcode : UInt8)
  deriving DecidableEq

/-- The value of an `unsigned short`. -/
def unsignedShort (value : Int) : Nat := (value % 65536).toNat

/-- The length at the start of a message. -/
def payloadLength (high low : UInt8) : Nat := unsignedShort (readShort high low)

/-- `can_dispatch`. -/
def canDispatch : Bytes → Bool
  | high :: low :: _ :: rest => payloadLength high low ≤ rest.length
  | _ => false

/-- The first `len` bytes after the opcode are processed as the payload. -/
def process (protocol : Protocol) (opcode : UInt8) (rest : Bytes) (len : Nat) : Event :=
  if len ≤ rest.length then .message protocol opcode (rest.take len)
  else .overrun protocol opcode

/-- The loop of `client_dispatch`; `handle` is what it does with the length of a message,
its opcode and what follows the opcode, and with `len`. -/
def messages (handle : UInt8 → UInt8 → UInt8 → Bytes → Nat → List Event) :
    Framing UInt8 (List Event) where
  next
    | high :: low :: opcode :: rest =>
        let len := unsignedShort ((payloadLength high low : Int) + 1)
        if rest.length + 1 < len then none
        else some (handle high low opcode rest len, (opcode :: rest).drop len)
    | _ => none
  consumes := by
    intro input events remaining taken
    match input, taken with
    | _ :: _ :: opcode :: rest, taken =>
        dsimp only at taken
        split at taken
        · cases taken
        · cases taken
          simp only [length_drop, length_cons]
          omega

/-- `dispatch_message`; `len--` is on an `unsigned short`. -/
def dispatchMessage (protocol : Protocol) (opcode : UInt8) (rest : Bytes) (len : Nat) :
    List Event :=
  [process protocol opcode rest (unsignedShort ((len : Int) - 1))]

/-- The loop of `client_dispatch` in a protocol that dispatches its messages itself. -/
def ownMessages (protocol : Protocol) : Framing UInt8 (List Event) :=
  messages fun _ _ opcode rest len => dispatchMessage protocol opcode rest len

/-- The component the meta server hands a message to. -/
def componentOf (opcode : UInt8) : Option Component :=
  if opcode ∈ [0x70, 0x72, 0x74, 0x76] then some .channelserver
  else if opcode ∈ [0x20, 0x21, 0x22, 0x30, 0x40, 0x42] then some .dataserver
  else if opcode ∈ [0x60, 0x61, 0x62, 0x64] then some .sessionserver
  else none

/-- `GZOCHID_META_PROTOCOL_LOGIN`. -/
def loginOpcode : UInt8 := 0x10

/-- The cases of `client_dispatch` in the protocol of the meta server.  A component gets a
buffer with the `len + 2` bytes from the length of the message on. -/
def metaserverHandle (high low opcode : UInt8) (rest : Bytes) (len : Nat) : List Event :=
  if opcode = loginOpcode then [process .metaserver opcode rest (unsignedShort ((len : Int) - 1))]
  else
    match componentOf opcode with
    | some component =>
        ((ownMessages (.ofComponent component)).frames
          (high :: low :: (opcode :: rest).take len)).1.flatten
    | none => [.unexpected opcode]

/-- The loop of `client_dispatch`. -/
def Protocol.loop : Protocol → Framing UInt8 (List Event)
  | .game => ownMessages .game
  | .ofComponent component => ownMessages (.ofComponent component)
  | .metaserver => messages metaserverHandle

/-- `client_dispatch`, with what it leaves in the buffer. -/
def Protocol.clientDispatch (protocol : Protocol) (buffer : Bytes) : List Event × Bytes :=
  ((protocol.loop.frames buffer).1.flatten, (protocol.loop.frames buffer).2)

/-- The loop of `dispatch_client_read`. -/
def Protocol.rounds (protocol : Protocol) : Framing UInt8 (List Event) where
  next buffer :=
    let dispatched := protocol.clientDispatch buffer
    if buffer ≠ [] ∧ canDispatch buffer ∧ dispatched.2.length < buffer.length then some dispatched
    else none
  consumes := by
    intro input events remaining taken
    dsimp only at taken
    split at taken
    · rename_i continued
      cases taken
      exact continued.2.2
    · cases taken

/-- `dispatch_client_read`, after the bytes it has read are in the buffer. -/
def Protocol.dispatchClientRead (protocol : Protocol) (buffer : Bytes) : List Event × Bytes :=
  ((protocol.rounds.frames buffer).1.flatten, (protocol.rounds.frames buffer).2)

/-- What a protocol has done with the reads of a client, and what is in the buffer then. -/
def Protocol.receive (protocol : Protocol) (reads : List Bytes) : List Event × Bytes :=
  reads.foldl
    (fun state read =>
      let dispatched := protocol.dispatchClientRead (state.2 ++ read)
      (state.1 ++ dispatched.1, dispatched.2))
    ([], [])

/-- A message of the protocol. -/
structure Frame where
  opcode : UInt8
  payload : Bytes
  deriving DecidableEq

/-- A message as it is sent. -/
def Frame.bytes (frame : Frame) : Bytes :=
  writeShort frame.payload.length ++ frame.opcode :: frame.payload

/-- How a stream is divided into messages. -/
def stream : Framing UInt8 Frame where
  next
    | high :: low :: opcode :: rest =>
        let length := high.toNat * 256 + low.toNat
        if rest.length < length then none
        else some (⟨opcode, rest.take length⟩, rest.drop length)
    | _ => none
  consumes := by
    intro input frame remaining taken
    match input, taken with
    | _ :: _ :: _ :: rest, taken =>
        dsimp only at taken
        split at taken
        · cases taken
        · cases taken
          simp only [length_drop, length_cons]
          omega

/-- What a protocol should do with a message. -/
def Protocol.event : Protocol → Frame → Event
  | .metaserver, frame =>
      if frame.opcode = loginOpcode then .message .metaserver frame.opcode frame.payload
      else
        match componentOf frame.opcode with
        | some component => .message (.ofComponent component) frame.opcode frame.payload
        | none => .unexpected frame.opcode
  | protocol, frame => .message protocol frame.opcode frame.payload

/-- The input starts with a message with the longest payload, and its opcode is there. -/
def startsLongest : Bytes → Bool
  | high :: low :: _ :: _ => high = 255 ∧ low = 255
  | _ => false

variable {protocol : Protocol} {input buffer rest : Bytes} {frame : Frame}

theorem payloadLength_eq (high low : UInt8) :
    payloadLength high low = high.toNat * 256 + low.toNat := by
  have highest := high.toNat_lt
  have lowest := low.toNat_lt
  simp only [payloadLength, unsignedShort, readShort]
  split <;> omega

variable {high low opcode : UInt8}

theorem payloadLength_lt (short : startsLongest (high :: low :: opcode :: rest) = false) :
    payloadLength high low < 65535 := by
  have highest := high.toNat_lt
  have lowest := low.toNat_lt
  rw [payloadLength_eq]
  by_contra longest
  have highSame : high = 255 := UInt8.toNat_inj.mp (by
    have value : (255 : UInt8).toNat = 255 := rfl
    omega)
  have lowSame : low = 255 := UInt8.toNat_inj.mp (by
    have value : (255 : UInt8).toNat = 255 := rfl
    omega)
  subst highSame lowSame
  exact absurd short (by simp [startsLongest])

theorem canDispatch_eq (buffer : Bytes) : canDispatch buffer = (stream.next buffer).isSome := by
  match buffer with
  | [] | [_] | [_, _] => rfl
  | high :: low :: opcode :: rest =>
    simp only [canDispatch, stream, payloadLength_eq]
    split <;> simp <;> omega

/-- Once around the loop, unless the payload is the longest. -/
theorem messages_next (handle : UInt8 → UInt8 → UInt8 → Bytes → Nat → List Event)
    (short : startsLongest (high :: low :: opcode :: rest) = false) :
    (messages handle).next (high :: low :: opcode :: rest) =
      if rest.length < payloadLength high low then none
      else
        some (handle high low opcode rest (payloadLength high low + 1),
          rest.drop (payloadLength high low)) := by
  have fits := payloadLength_lt short
  have len : unsignedShort ((payloadLength high low : Int) + 1) = payloadLength high low + 1 := by
    simp only [unsignedShort]
    omega
  simp only [messages, len, drop_succ_cons, Nat.add_lt_add_iff_right]

/-- `len--` takes the opcode off again. -/
theorem unsignedShort_pred {length : Nat} (fits : length < 65535) :
    unsignedShort (((length + 1 : Nat) : Int) - 1) = length := by
  simp only [unsignedShort]
  omega

theorem ownMessages_next (protocol : Protocol) (short : startsLongest input = false) :
    (ownMessages protocol).next input = (stream.next input).map fun taken =>
        ([.message protocol taken.1.opcode taken.1.payload], taken.2) := by
  match input with
  | [] | [_] | [_, _] => rfl
  | high :: low :: opcode :: rest =>
    rw [ownMessages, messages_next _ short]
    simp only [stream, dispatchMessage, unsignedShort_pred (payloadLength_lt short), process,
      ← payloadLength_eq]
    by_cases ended : rest.length < payloadLength high low
    · rw [if_pos ended, if_pos ended]
      rfl
    · rw [if_neg ended, if_neg ended, if_pos (Nat.le_of_not_lt ended)]
      rfl

theorem stream_next_bytes (opcode : UInt8) (complete : payloadLength high low ≤ rest.length) :
    stream.next (high :: low :: opcode :: rest) =
      some (⟨opcode, rest.take (payloadLength high low)⟩, rest.drop (payloadLength high low)) := by
  simp only [stream, ← payloadLength_eq]
  rw [if_neg (by omega)]

theorem payloadLength_writeShort {value : Nat} (fits : value < 65536) :
    payloadLength (UInt8.ofNat (value / 256)) (UInt8.ofNat value) = value :=
  Gzochi.DataClient.readShort_writeShort_unsigned fits

theorem stream_next_frame (fits : frame.payload.length < 65536) (rest : Bytes) :
    stream.next (frame.bytes ++ rest) = some (frame, rest) := by
  have length := payloadLength_writeShort fits
  have complete : payloadLength (UInt8.ofNat (frame.payload.length / 256))
      (UInt8.ofNat frame.payload.length) ≤ (frame.payload ++ rest).length := by
    rw [length, length_append]
    omega
  have taken := stream_next_bytes frame.opcode complete
  rw [length, take_left, drop_left] at taken
  exact taken

theorem startsLongest_frame (short : frame.payload.length < 65535) (rest : Bytes) :
    startsLongest (frame.bytes ++ rest) = false := by
  have length : payloadLength (UInt8.ofNat (frame.payload.length / 256))
      (UInt8.ofNat frame.payload.length) = frame.payload.length :=
    payloadLength_writeShort (by omega)
  cases longest : startsLongest (frame.bytes ++ rest) with
  | false => rfl
  | true =>
    obtain ⟨high, low⟩ : UInt8.ofNat (frame.payload.length / 256) = 255 ∧
      UInt8.ofNat frame.payload.length = 255 := of_decide_eq_true longest
    rw [high, low] at length
    exact absurd length (by rw [show payloadLength 255 255 = 65535 by decide]; omega)

theorem ofNat_payloadLength (high low : UInt8) : UInt8.ofNat (payloadLength high low / 256) = high ∧
      UInt8.ofNat (payloadLength high low) = low := by
  have highest := high.toNat_lt
  have lowest := low.toNat_lt
  rw [payloadLength_eq]
  constructor
  · apply UInt8.toNat_inj.mp
    rw [UInt8.toNat_ofNat']
    omega
  · apply UInt8.toNat_inj.mp
    rw [UInt8.toNat_ofNat']
    omega

theorem payloadLength_lt_size (high low : UInt8) : payloadLength high low < 65536 := by
  have highest := high.toNat_lt
  have lowest := low.toNat_lt
  rw [payloadLength_eq]
  omega

/-- A message that is taken off a stream stands at its front. -/
theorem stream_next_eq_some (taken : stream.next input = some (frame, rest)) :
    input = frame.bytes ++ rest ∧ frame.payload.length < 65536 := by
  match input, taken with
  | high :: low :: opcode :: body, taken =>
    by_cases complete : payloadLength high low ≤ body.length
    · rw [stream_next_bytes opcode complete] at taken
      cases taken
      have size : (body.take (payloadLength high low)).length = payloadLength high low := by
        rw [length_take]
        omega
      refine ⟨?_, ?_⟩
      · simp only [Frame.bytes, writeShort, size, (ofNat_payloadLength high low).1,
          (ofNat_payloadLength high low).2, cons_append, nil_append,
          take_append_drop]
      · simp only [size]
        exact payloadLength_lt_size high low
    · simp only [stream, ← payloadLength_eq] at taken
      rw [if_pos (by omega)] at taken
      cases taken

theorem longest_payload {body : Bytes}
    (taken : stream.next (255 :: 255 :: opcode :: body) = some (frame, rest)) :
    frame.payload.length = 65535 := by
  have length : payloadLength 255 255 = 65535 := by decide
  by_cases complete : payloadLength 255 255 ≤ body.length
  · rw [stream_next_bytes opcode complete] at taken
    cases taken
    rw [length_take]
    omega
  · simp only [stream, ← payloadLength_eq] at taken
    rw [if_pos (by omega)] at taken
    cases taken

/-- A stream is its messages and its remainder. -/
theorem stream_frames_eq (input : Bytes) :
    (stream.frames input).1.flatMap Frame.bytes ++ (stream.frames input).2 = input ∧
      ∀ frame ∈ (stream.frames input).1, frame.payload.length < 65536 := by
  induction input using stream.frames_induction with
  | ended input ended =>
    rw [frames_none ended]
    exact ⟨rfl, fun _ member => absurd member not_mem_nil⟩
  | taken input frame rest taken ih =>
    obtain ⟨front, fits⟩ := stream_next_eq_some taken
    rw [frames_some taken]
    refine ⟨?_, ?_⟩
    · rw [flatMap_cons, append_assoc, ih.1, front]
    · intro other member
      rcases mem_cons.mp member with rfl | member
      · exact fits
      · exact ih.2 other member

theorem stream_frames_written {frames : List Frame}
    (fits : ∀ frame ∈ frames, frame.payload.length < 65536) :
    stream.frames (frames.flatMap Frame.bytes) = (frames, []) := by
  have taken := frames_flatMap
    (fun frame member rest => stream_next_frame (fits frame member) rest) []
  have ended : stream.frames [] = ([], []) := frames_none rfl
  rwa [append_nil, ended, append_nil] at taken

theorem stream_stable : stream.Stable := by
  intro input frame rest taken more
  obtain ⟨front, fits⟩ := stream_next_eq_some taken
  rw [front, append_assoc, stream_next_frame fits]

/-- The buffer a component gets has the message and nothing else. -/
theorem component_frames {component : Component}
    (short : startsLongest (high :: low :: opcode :: rest) = false)
    (complete : payloadLength high low ≤ rest.length) :
    (ownMessages (.ofComponent component)).frames
        (high :: low :: (opcode :: rest).take (payloadLength high low + 1)) =
      ([[.message (.ofComponent component) opcode (rest.take (payloadLength high low))]], []) := by
  have alone : startsLongest
      (high :: low :: (opcode :: rest).take (payloadLength high low + 1)) = false := by
    rw [take_succ_cons, ← short]
    rfl
  have size : (rest.take (payloadLength high low)).length = payloadLength high low := by
    rw [length_take]
    omega
  have taken := stream_next_bytes opcode (Nat.le_of_eq size.symm)
  rw [take_take, Nat.min_self, drop_of_length_le (Nat.le_of_eq size)] at taken
  rw [take_succ_cons] at alone ⊢
  have own := ownMessages_next (.ofComponent component) alone
  rw [taken] at own
  rw [frames_some own, frames_none rfl]

theorem metaserver_next (short : startsLongest input = false) :
    (messages metaserverHandle).next input =
      (stream.next input).map fun taken => ([Protocol.metaserver.event taken.1], taken.2) := by
  match input with
  | [] | [_] | [_, _] => rfl
  | high :: low :: opcode :: rest =>
    rw [messages_next _ short]
    by_cases ended : rest.length < payloadLength high low
    · simp only [stream, ← payloadLength_eq, if_pos ended]
      rfl
    · have complete := Nat.le_of_not_lt ended
      rw [if_neg ended, stream_next_bytes opcode complete]
      simp only [Option.map_some, metaserverHandle, Protocol.event,
        unsignedShort_pred (payloadLength_lt short), process, if_pos complete]
      split
      · rfl
      · split
        · rename_i component _
          rw [component_frames short complete]
          rfl
        · rfl

/-- One round of the loop takes a message off the buffer, unless its payload is the longest. -/
theorem loop_next (protocol : Protocol) (short : startsLongest input = false) :
    protocol.loop.next input =
      (stream.next input).map fun taken => ([protocol.event taken.1], taken.2) := by
  cases protocol with
  | game => exact ownMessages_next .game short
  | ofComponent component => exact ownMessages_next (.ofComponent component) short
  | metaserver => exact metaserver_next short

theorem startsLongest_eq (longest : startsLongest input = true) :
    ∃ opcode rest, input = 255 :: 255 :: opcode :: rest := by
  match input, longest with
  | high :: low :: opcode :: rest, longest =>
    obtain ⟨highSame, lowSame⟩ : high = 255 ∧ low = 255 := of_decide_eq_true longest
    exact ⟨opcode, rest, by rw [highSame, lowSame]⟩

/-- The longest payload makes `len` zero: only the two bytes of the length are taken off. -/
theorem messages_next_longest (handle : UInt8 → UInt8 → UInt8 → Bytes → Nat → List Event)
    (opcode : UInt8) (rest : Bytes) :
    (messages handle).next (255 :: 255 :: opcode :: rest) =
      some (handle 255 255 opcode rest 0, opcode :: rest) := by
  have wrapped : unsignedShort ((payloadLength 255 255 : Int) + 1) = 0 := by decide
  simp only [messages, wrapped, drop_zero]
  rfl

theorem loop_next_longest (protocol : Protocol) (opcode : UInt8) (rest : Bytes) :
    ∃ events, protocol.loop.next (255 :: 255 :: opcode :: rest) =
      some (events, opcode :: rest) := by
  cases protocol with
  | game | ofComponent component | metaserver => exact ⟨_, messages_next_longest _ opcode rest⟩

theorem clientDispatch_some {events : List Event}
    (taken : protocol.loop.next buffer = some (events, rest)) :
    protocol.clientDispatch buffer =
      (events ++ (protocol.clientDispatch rest).1, (protocol.clientDispatch rest).2) := by
  simp only [Protocol.clientDispatch, frames_some taken, flatten_cons]

theorem clientDispatch_none (ended : protocol.loop.next buffer = none) :
    protocol.clientDispatch buffer = ([], buffer) := by
  simp only [Protocol.clientDispatch, frames_none ended, flatten_nil]

/-- The messages before one with the longest payload are dispatched one by one. -/
theorem clientDispatch_early (protocol : Protocol) (frames : List Frame)
    (short : ∀ frame ∈ frames, frame.payload.length < 65535) (rest : Bytes) :
    protocol.clientDispatch (frames.flatMap Frame.bytes ++ rest) =
      (frames.map protocol.event ++ (protocol.clientDispatch rest).1,
        (protocol.clientDispatch rest).2) := by
  induction frames with
  | nil => rfl
  | cons frame frames ih =>
    have fits := short frame mem_cons_self
    have taken := loop_next protocol (startsLongest_frame fits (frames.flatMap Frame.bytes ++ rest))
    rw [stream_next_frame (by omega), Option.map_some] at taken
    rw [flatMap_cons, append_assoc, clientDispatch_some taken,
      ih fun other member => short other (mem_cons_of_mem _ member)]
    rfl

theorem clientDispatch_shorter (can : canDispatch buffer = true) :
    (protocol.clientDispatch buffer).2.length < buffer.length := by
  cases taken : protocol.loop.next buffer with
  | some pair =>
    obtain ⟨events, rest⟩ := pair
    have bound : (protocol.loop.frames rest).2.length ≤ rest.length :=
      remainder_length rest
    rw [clientDispatch_some taken]
    exact Nat.lt_of_le_of_lt bound (protocol.loop.consumes taken)
  | none =>
    cases longest : startsLongest buffer with
    | true =>
      obtain ⟨opcode, rest, rfl⟩ := startsLongest_eq longest
      obtain ⟨events, some⟩ := loop_next_longest protocol opcode rest
      rw [some] at taken
      cases taken
    | false =>
      rw [loop_next protocol longest, Option.map_eq_none_iff] at taken
      rw [canDispatch_eq, taken] at can
      cases can

theorem dispatchClientRead_some (can : canDispatch buffer = true) :
    protocol.dispatchClientRead buffer = ((protocol.clientDispatch buffer).1 ++
          (protocol.dispatchClientRead (protocol.clientDispatch buffer).2).1,
        (protocol.dispatchClientRead (protocol.clientDispatch buffer).2).2) := by
  have filled : buffer ≠ [] := by
    rintro rfl
    cases can
  have taken : protocol.rounds.next buffer = some (protocol.clientDispatch buffer) :=
    if_pos ⟨filled, can, clientDispatch_shorter can⟩
  simp only [Protocol.dispatchClientRead, frames_some taken, flatten_cons]
  rfl

theorem dispatchClientRead_none (cannot : canDispatch buffer = false) :
    protocol.dispatchClientRead buffer = ([], buffer) := by
  have ended : protocol.rounds.next buffer = none :=
    if_neg fun continued => by
      rw [cannot] at continued
      cases continued.2.1
  simp only [Protocol.dispatchClientRead, frames_none ended, flatten_nil]

/-- No complete message has the longest payload, and an incomplete one that has comes
first or ends before its opcode. -/
def Dispatchable (input : Bytes) : Prop :=
  (∀ frame ∈ (stream.frames input).1, frame.payload.length ≠ 65535) ∧
    ((stream.frames input).1 = [] ∨ startsLongest (stream.frames input).2 = false)

instance (input : Bytes) : Decidable (Dispatchable input) := inferInstanceAs (Decidable (_ ∧ _))

theorem cannotDispatch_remainder (input : Bytes) : canDispatch (stream.frames input).2 = false := by
  rw [canDispatch_eq, next_remainder]
  rfl

theorem canDispatch_of_frames (some : (stream.frames input).1 ≠ []) : canDispatch input = true := by
  rw [canDispatch_eq]
  cases taken : stream.next input with
  | some pair => rfl
  | none =>
    rw [frames_none taken] at some
    exact absurd rfl some

/-- A buffer with its messages written out. -/
theorem clientDispatch_frames (protocol : Protocol)
    (short : ∀ frame ∈ (stream.frames input).1, frame.payload.length ≠ 65535) :
    protocol.clientDispatch input = ((stream.frames input).1.map protocol.event ++
          (protocol.clientDispatch (stream.frames input).2).1,
        (protocol.clientDispatch (stream.frames input).2).2) := by
  obtain ⟨parts, fits⟩ := stream_frames_eq input
  have early := clientDispatch_early protocol (stream.frames input).1 (fun frame member => by
      have bound := fits frame member
      have shorter := short frame member
      omega)
    (stream.frames input).2
  rw [parts] at early
  exact early

/-- One read of a buffer dispatches its messages and leaves the rest. -/
theorem dispatchClientRead_eq (dispatchable : Dispatchable buffer) :
    protocol.dispatchClientRead buffer =
      ((stream.frames buffer).1.map protocol.event, (stream.frames buffer).2) := by
  by_cases none : (stream.frames buffer).1 = []
  · have whole : (stream.frames buffer).2 = buffer := by
      have parts := (stream_frames_eq buffer).1
      rw [none] at parts
      exact parts
    have cannot := cannotDispatch_remainder buffer
    rw [whole] at cannot
    rw [dispatchClientRead_none cannot, none, whole]
    rfl
  · have short := dispatchable.2.resolve_left none
    have ended := loop_next protocol short
    rw [next_remainder, Option.map_none] at ended
    have dispatched := clientDispatch_frames protocol dispatchable.1
    rw [clientDispatch_none ended, append_nil] at dispatched
    rw [dispatchClientRead_some (canDispatch_of_frames none), dispatched]
    dsimp only
    rw [dispatchClientRead_none (cannotDispatch_remainder buffer), append_nil]

theorem Dispatchable.of_append {more : Bytes} (dispatchable : Dispatchable (input ++ more)) :
    Dispatchable input := by
  unfold Dispatchable at dispatchable
  rw [frames_append stream_stable] at dispatchable
  obtain ⟨complete, trailing⟩ := dispatchable
  refine ⟨fun frame member => complete frame (mem_append_left _ member), ?_⟩
  by_cases none : (stream.frames input).1 = []
  · exact .inl none
  · refine .inr ?_
    cases longest : startsLongest (stream.frames input).2 with
    | false => rfl
    | true =>
      obtain ⟨opcode, rest, remainder⟩ := startsLongest_eq longest
      rw [remainder] at complete trailing
      -- The message either is complete in the longer stream or is still its remainder.
      cases taken : stream.next (255 :: 255 :: opcode :: rest ++ more) with
      | some pair =>
        obtain ⟨frame, later⟩ := pair
        rw [frames_some taken] at complete
        exact absurd (longest_payload taken) (complete frame (mem_append_right _ mem_cons_self))
      | none =>
        rw [frames_none taken, append_nil] at trailing
        exact trailing.resolve_left none

theorem Dispatchable.of_earlier {earlier read : Bytes}
    (dispatchable : Dispatchable (earlier ++ read)) :
    Dispatchable ((stream.frames earlier).2 ++ read) := by
  unfold Dispatchable at dispatchable ⊢
  rw [frames_append stream_stable] at dispatchable
  obtain ⟨complete, trailing⟩ := dispatchable
  refine ⟨fun frame member => complete frame (mem_append_right _ member), ?_⟩
  rcases trailing with none | short
  · exact .inl (append_eq_nil_iff.mp none).2
  · exact .inr short

theorem receive_concat (protocol : Protocol) (reads : List Bytes) (read : Bytes) :
    protocol.receive (reads ++ [read]) = ((protocol.receive reads).1 ++
          (protocol.dispatchClientRead ((protocol.receive reads).2 ++ read)).1,
        (protocol.dispatchClientRead ((protocol.receive reads).2 ++ read)).2) := by
  simp only [Protocol.receive, foldl_append, foldl_cons, foldl_nil]

/-- Whatever the reads, the messages of a stream are dispatched and its remainder is kept. -/
theorem receive_eq {reads : List Bytes} (dispatchable : Dispatchable reads.flatten) :
    protocol.receive reads =
      ((stream.frames reads.flatten).1.map protocol.event, (stream.frames reads.flatten).2) := by
  induction reads using List.reverseRecOn with
  | nil => rfl
  | append_singleton reads read ih =>
    rw [flatten_append, flatten_singleton] at dispatchable ⊢
    rw [receive_concat, ih dispatchable.of_append]
    dsimp only
    rw [dispatchClientRead_eq dispatchable.of_earlier,
      frames_append stream_stable reads.flatten read, map_append]

theorem receive_single (protocol : Protocol) (read : Bytes) :
    protocol.receive [read] = protocol.dispatchClientRead read := by
  simp only [Protocol.receive, foldl_cons, foldl_nil, nil_append]

/-- A round of the loop that processes nothing leaves the opcode in the buffer. -/
theorem loop_silent (silent : protocol.loop.next input = some ([], rest)) : rest ≠ [] := by
  cases longest : startsLongest input with
  | true =>
    obtain ⟨opcode, body, rfl⟩ := startsLongest_eq longest
    obtain ⟨events, taken⟩ := loop_next_longest protocol opcode body
    rw [taken] at silent
    cases silent
    exact cons_ne_nil _ _
  | false =>
    rw [loop_next protocol longest] at silent
    obtain ⟨pair, -, same⟩ := Option.map_eq_some_iff.mp silent
    cases same

theorem clientDispatch_silent (filled : input ≠ [])
    (silent : (protocol.clientDispatch input).1 = []) : (protocol.clientDispatch input).2 ≠ [] := by
  induction input using protocol.loop.frames_induction with
  | ended input ended =>
    rw [clientDispatch_none ended]
    exact filled
  | taken input events rest taken ih =>
    rw [clientDispatch_some taken] at silent ⊢
    obtain ⟨rfl, others⟩ := append_eq_nil_iff.mp silent
    exact ih (loop_silent taken) others

theorem dispatchClientRead_silent (filled : input ≠ [])
    (silent : (protocol.dispatchClientRead input).1 = []) :
    (protocol.dispatchClientRead input).2 ≠ [] := by
  induction size : input.length using Nat.strongRecOn generalizing input with
  | ind length ih =>
    cases can : canDispatch input with
    | false =>
      rw [dispatchClientRead_none can]
      exact filled
    | true =>
      rw [dispatchClientRead_some can] at silent ⊢
      obtain ⟨none, others⟩ := append_eq_nil_iff.mp silent
      have shorter : (protocol.clientDispatch input).2.length < input.length :=
        clientDispatch_shorter can
      exact ih _ (by omega) (clientDispatch_silent filled none) others rfl

/-- The meta server never hands the longest payload to a component. -/
def Event.Handed : Event → Prop
  | .message (.ofComponent _) _ payload => payload.length < 65535
  | _ => True

theorem ownMessages_handed (bounded : input.length < 65538) :
    ∀ event ∈ ((ownMessages protocol).frames input).1.flatten, event.Handed := by
  have each : ∀ events ∈ ((ownMessages protocol).frames input).1,
      ∀ event ∈ events, event.Handed := by
    refine frames_forall (fun input => input.length < 65538) ?_ bounded
    intro input events rest bounded taken
    have shorter := (ownMessages protocol).consumes taken
    refine ⟨?_, by omega⟩
    match input, taken with
    | _ :: _ :: opcode :: body, taken =>
      simp only [ownMessages, messages, dispatchMessage] at taken
      split at taken
      · cases taken
      · cases taken
        intro event member
        rw [mem_singleton.mp member, process]
        split
        · cases protocol with
          | ofComponent component =>
            simp only [Event.Handed, length_take]
            simp only [length_cons] at bounded
            omega
          | game => trivial
          | metaserver => trivial
        · trivial
  exact forall_mem_flatten.mpr each

theorem metaserverHandle_handed (high low opcode : UInt8) (rest : Bytes) {len : Nat}
    (bounded : len < 65536) :
    ∀ event ∈ metaserverHandle high low opcode rest len, event.Handed := by
  unfold metaserverHandle
  split
  · intro event member
    rw [mem_singleton.mp member, process]
    split <;> trivial
  · split
    · apply ownMessages_handed
      simp only [length_cons, length_take]
      omega
    · intro event member
      rw [mem_singleton.mp member]
      trivial

theorem clientDispatch_handed (input : Bytes) :
    ∀ event ∈ (Protocol.metaserver.clientDispatch input).1, event.Handed := by
  have each : ∀ events ∈ (Protocol.metaserver.loop.frames input).1,
      ∀ event ∈ events, event.Handed := by
    refine frames_forall (fun _ => True) ?_ trivial
    intro input events rest _ taken
    refine ⟨?_, trivial⟩
    match input, taken with
    | high :: low :: opcode :: body, taken =>
      simp only [Protocol.loop, messages] at taken
      split at taken
      · cases taken
      · cases taken
        apply metaserverHandle_handed
        simp only [unsignedShort]
        omega
  exact forall_mem_flatten.mpr each

theorem dispatchClientRead_handed (input : Bytes) :
    ∀ event ∈ (Protocol.metaserver.dispatchClientRead input).1, event.Handed := by
  have each : ∀ events ∈ (Protocol.metaserver.rounds.frames input).1,
      ∀ event ∈ events, event.Handed := by
    refine frames_forall (fun _ => True) ?_ trivial
    intro input events rest _ taken
    refine ⟨?_, trivial⟩
    simp only [Protocol.rounds] at taken
    split at taken
    · cases taken
      exact clientDispatch_handed input
    · cases taken
  exact forall_mem_flatten.mpr each

/-- With the longest payload a message is processed before the rest of the buffer, or, if
it goes to a component, not at all. -/
theorem loop_next_longest_events (protocol : Protocol) (opcode : UInt8) (rest : Bytes) :
    ∃ events, protocol.loop.next (255 :: 255 :: opcode :: rest) = some (events, opcode :: rest) ∧
      ((∃ event, events = [event]) ∨ events = [] ∧ protocol = .metaserver ∧ opcode ≠ loginOpcode ∧
          ∃ component, componentOf opcode = some component) := by
  cases protocol with
  | game | ofComponent component => exact ⟨_, messages_next_longest _ opcode rest, .inl ⟨_, rfl⟩⟩
  | metaserver =>
    refine ⟨_, messages_next_longest _ opcode rest, ?_⟩
    unfold metaserverHandle
    split
    · exact .inl ⟨_, rfl⟩
    · rename_i other
      split
      · rename_i component found
        exact .inr ⟨rfl, rfl, other, component, found⟩
      · exact .inl ⟨_, rfl⟩

theorem longest_bytes (longest : frame.payload.length = 65535) :
    frame.bytes = 255 :: 255 :: frame.opcode :: frame.payload := by
  rw [Frame.bytes, longest]
  rfl

/-- A message with the longest payload, alone in the buffer, is not processed as it should
be. -/
theorem dispatched_longest (longest : frame.payload.length = 65535) :
    ((protocol.clientDispatch frame.bytes).1 ++
          (protocol.dispatchClientRead (protocol.clientDispatch frame.bytes).2).1,
        (protocol.dispatchClientRead (protocol.clientDispatch frame.bytes).2).2) ≠
      ([protocol.event frame], []) := by
  intro processed
  obtain ⟨events, taken, kind⟩ := loop_next_longest_events protocol frame.opcode frame.payload
  rw [longest_bytes longest, clientDispatch_some taken] at processed
  obtain ⟨all, empty⟩ := Prod.mk.inj processed
  rcases kind with ⟨event, rfl⟩ | ⟨rfl, rfl, other, component, found⟩
  · obtain ⟨-, none⟩ := List.cons.inj all
    obtain ⟨first, later⟩ := append_eq_nil_iff.mp none
    have left := clientDispatch_silent (cons_ne_nil _ _) first
    exact dispatchClientRead_silent left later empty
  · have listed : Protocol.metaserver.event frame ∈ [Protocol.metaserver.event frame] :=
      mem_singleton_self _
    rw [← all, nil_append] at listed
    have handed : (Protocol.metaserver.event frame).Handed := by
      rcases mem_append.mp listed with early | later
      · exact clientDispatch_handed _ _ early
      · exact dispatchClientRead_handed _ _ later
    simp only [Protocol.event, if_neg other, found, Event.Handed, longest] at handed
    omega

/-- The reads of a stream are dispatched as the messages of what has been read. -/
def Protocol.Dispatches (protocol : Protocol) (input : Bytes) : Prop :=
  ∀ reads : List Bytes, reads.flatten <+: input →
    protocol.receive reads =
      ((stream.frames reads.flatten).1.map protocol.event, (stream.frames reads.flatten).2)

theorem Protocol.Dispatches.complete (dispatches : protocol.Dispatches input) :
    ∀ frame ∈ (stream.frames input).1, frame.payload.length ≠ 65535 := by
  intro frame member longest
  -- The first message with the longest payload, and the stream up to its end.
  have some : ((stream.frames input).1.find? fun frame => frame.payload.length = 65535).isSome :=
    List.find?_isSome.mpr ⟨frame, member, decide_eq_true longest⟩
  obtain ⟨bad, found⟩ := Option.isSome_iff_exists.mp some
  obtain ⟨isLongest, early, late, split, short⟩ := List.find?_eq_some_iff_append.mp found
  have size : bad.payload.length = 65535 := of_decide_eq_true isLongest
  obtain ⟨parts, fits⟩ := stream_frames_eq input
  rw [split, append_cons] at parts fits
  have earlyShort : ∀ frame ∈ early, frame.payload.length < 65535 := by
    intro frame member
    have bound := fits frame (mem_append_left _ (mem_append_left _ member))
    have other : frame.payload.length ≠ 65535 := by simpa using short frame member
    omega
  have written : stream.frames (early.flatMap Frame.bytes ++ bad.bytes) = (early ++ [bad], []) := by
    have frames := stream_frames_written fun frame member =>
      fits frame (mem_append_left late member)
    rwa [flatMap_append, flatMap_singleton] at frames
  have front : early.flatMap Frame.bytes ++ bad.bytes <+: input := by
    rw [← parts, flatMap_append, flatMap_append, flatMap_singleton,
      append_assoc (early.flatMap Frame.bytes ++ bad.bytes)]
    exact prefix_append _ _
  have read := dispatches [early.flatMap Frame.bytes ++ bad.bytes] (by
    simpa only [flatten_singleton] using front)
  have can : canDispatch (early.flatMap Frame.bytes ++ bad.bytes) = true :=
    canDispatch_of_frames (by
      rw [written]
      exact append_ne_nil_of_right_ne_nil _ (cons_ne_nil _ _))
  rw [receive_single, flatten_singleton, written, dispatchClientRead_some can,
    clientDispatch_early protocol early earlyShort] at read
  dsimp only at read
  rw [map_append, append_assoc] at read
  obtain ⟨events, empty⟩ := Prod.mk.inj read
  exact dispatched_longest size (Prod.ext (append_cancel_left events) empty)

theorem Protocol.Dispatches.trailing (dispatches : protocol.Dispatches input) :
    (stream.frames input).1 = [] ∨ startsLongest (stream.frames input).2 = false := by
  by_cases none : (stream.frames input).1 = []
  · exact .inl none
  · refine .inr ?_
    cases longest : startsLongest (stream.frames input).2 with
    | false => rfl
    | true =>
      obtain ⟨opcode, rest, remainder⟩ := startsLongest_eq longest
      obtain ⟨events, taken⟩ := loop_next_longest protocol opcode rest
      have read := dispatches [input] (by
        simp only [flatten_singleton, prefix_refl])
      rw [receive_single, flatten_singleton, dispatchClientRead_some (canDispatch_of_frames none),
        clientDispatch_frames protocol dispatches.complete, remainder,
        clientDispatch_some taken] at read
      -- What is left is shorter than the remainder, since its length has been taken off.
      have left := congrArg (fun state => state.2.length) read
      have once : (protocol.loop.frames (opcode :: rest)).2.length ≤ (opcode :: rest).length :=
        remainder_length _
      have all : (protocol.rounds.frames (protocol.clientDispatch (opcode :: rest)).2).2.length ≤
          (protocol.clientDispatch (opcode :: rest)).2.length := remainder_length _
      simp only [Protocol.dispatchClientRead, length_cons] at left
      simp only [Protocol.clientDispatch] at all left
      simp only [length_cons] at once
      omega

/-- However a stream is read, its messages are dispatched once, in order and with their
payloads, and the trailing incomplete one is kept, unless a payload has the longest length. -/
theorem stream_dispatched_iff (protocol : Protocol) (input : Bytes) :
    (∀ reads : List Bytes, reads.flatten <+: input → protocol.receive reads =
        ((stream.frames reads.flatten).1.map protocol.event, (stream.frames reads.flatten).2)) ↔
      (∀ frame ∈ (stream.frames input).1, frame.payload.length ≠ 65535) ∧
        ((stream.frames input).1 = [] ∨ startsLongest (stream.frames input).2 = false) := by
  constructor
  · intro dispatches
    exact ⟨Protocol.Dispatches.complete dispatches, Protocol.Dispatches.trailing dispatches⟩
  · intro dispatchable reads front
    obtain ⟨more, rfl⟩ := front
    exact receive_eq (Dispatchable.of_append dispatchable)

/-- A login and the first bytes of a message with the longest payload. -/
def loginAndLongest : Bytes := [0, 0, loginOpcode, 255, 255, loginOpcode]

theorem longest_dispatched_early : Protocol.metaserver.receive [loginAndLongest] =
      ([.message .metaserver loginOpcode [], .overrun .metaserver loginOpcode], [loginOpcode]) ∧
    ((stream.frames loginAndLongest).1.map Protocol.metaserver.event,
        (stream.frames loginAndLongest).2) =
      ([.message .metaserver loginOpcode []], [255, 255, loginOpcode]) ∧
    Protocol.metaserver.receive [loginAndLongest] ≠
      ((stream.frames loginAndLongest).1.map Protocol.metaserver.event,
        (stream.frames loginAndLongest).2) := by
  refine ⟨by decide +kernel, by decide +kernel, by decide +kernel⟩

end Gzochi.Socket
