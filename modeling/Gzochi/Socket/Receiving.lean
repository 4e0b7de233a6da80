import Gzochi.Socket.Dispatch

/-!
# Reading messages from a socket

The reads of a socket are the same whatever the protocol: as long as the protocol says that it can
dispatch, it takes messages off the buffer.  A protocol that can tell a whole message from the
start of one gets the messages of a stream one by one, however the stream is read.
-/

namespace Gzochi.Socket

open Gzochi.DataClient (Bytes)
open Gzochi.Lib List

universe u

variable {Result : Type u}

/-- The callbacks of a protocol: `can_dispatch`, and the loop of `dispatch`. -/
structure Callbacks (Result : Type u) where
  canDispatch : Bytes → Bool
  loop : Framing UInt8 (List Result)

namespace Callbacks

/-- `dispatch`, with what it leaves in the buffer. -/
def dispatch (callbacks : Callbacks Result) (buffer : Bytes) : List Result × Bytes :=
  ((callbacks.loop.frames buffer).1.flatten, (callbacks.loop.frames buffer).2)

/-- The loop of `dispatch_client_read`. -/
def rounds (callbacks : Callbacks Result) : Framing UInt8 (List Result) where
  next buffer :=
    let dispatched := callbacks.dispatch buffer
    if buffer ≠ [] ∧ callbacks.canDispatch buffer ∧ dispatched.2.length < buffer.length then
      some dispatched
    else none
  consumes := by
    intro input results remaining taken
    dsimp only at taken
    split at taken
    next continued =>
      cases taken
      exact continued.2.2
    next => cases taken

/-- `dispatch_client_read`, after the bytes it has read are in the buffer. -/
def read (callbacks : Callbacks Result) (buffer : Bytes) : List Result × Bytes :=
  ((callbacks.rounds.frames buffer).1.flatten, (callbacks.rounds.frames buffer).2)

/-- What has come of the reads, and what is in the buffer then. -/
def receive (callbacks : Callbacks Result) (reads : List Bytes) : List Result × Bytes :=
  reads.foldl
    (fun state bytes =>
      let dispatched := callbacks.read (state.2 ++ bytes)
      (state.1 ++ dispatched.1, dispatched.2))
    ([], [])

/-- Frames of some kind are taken off one by one when they are there as a whole. -/
structure Takes (callbacks : Callbacks Result) (kind : Frame → Prop) (result : Frame → Result) :
    Prop where
  taken : ∀ {frame}, kind frame → ∀ rest,
    callbacks.loop.next (frame.bytes ++ rest) = some ([result frame], rest)
  whole : ∀ {frame}, kind frame → ∀ rest, callbacks.canDispatch (frame.bytes ++ rest) = true
  nothing : callbacks.loop.next [] = none
  ended : ∀ {frame input unread more}, kind frame → input ++ unread = frame.bytes ++ more →
    input.length < frame.bytes.length → callbacks.loop.next input = none
  started : ∀ {frame input unread more}, kind frame → input ++ unread = frame.bytes ++ more →
    input.length < frame.bytes.length → callbacks.canDispatch input = false

/-- The start of a stream has its first frames and not the whole of the next one. -/
structure Start (frames done pending : List Frame) (buffer rest unread : Bytes) : Prop where
  frames : frames = done ++ pending
  buffer : buffer = done.flatMap Frame.bytes ++ rest
  stream : rest ++ unread = pending.flatMap Frame.bytes
  incomplete : ∀ frame ∈ pending.head?, rest.length < frame.bytes.length

end Callbacks

variable {callbacks : Callbacks Result} {kind : Frame → Prop} {result : Frame → Result}
  {frames done pending : List Frame} {buffer rest unread : Bytes}

theorem Frame.length_bytes (frame : Frame) : frame.bytes.length = frame.payload.length + 3 := by
  simp only [Frame.bytes, DataClient.writeShort, length_append, length_cons, length_nil]
  omega

/-- What the start of a stream begins with when the length of its first frame is in it. -/
theorem Frame.header {frame : Frame} {input unread more : Bytes}
    (stream : input ++ unread = frame.bytes ++ more) (enough : 3 ≤ input.length) :
    ∃ body, input = UInt8.ofNat (frame.payload.length / 256) ::
        UInt8.ofNat frame.payload.length :: frame.opcode :: body ∧
      body ++ unread = frame.payload ++ more := by
  match input, enough with
  | high :: low :: opcode :: body, _ =>
    simp only [Frame.bytes, DataClient.writeShort, cons_append, nil_append,
      List.cons.injEq] at stream
    obtain ⟨highSame, lowSame, opcodeSame, body_⟩ := stream
    exact ⟨body, by rw [highSame, lowSame, opcodeSame], body_⟩

theorem exists_start (stream : buffer ++ unread = frames.flatMap Frame.bytes) :
    ∃ done pending rest, Callbacks.Start frames done pending buffer rest unread := by
  induction frames generalizing buffer with
  | nil => exact ⟨[], [], buffer, rfl, rfl, stream, fun frame absent => by cases absent⟩
  | cons frame frames ih =>
    rw [flatMap_cons] at stream
    by_cases complete : frame.bytes.length ≤ buffer.length
    · have front : frame.bytes <+: buffer := by
        apply prefix_of_prefix_length_le _ (prefix_append buffer unread) complete
        rw [stream]
        exact prefix_append _ _
      obtain ⟨left, same⟩ := front
      rw [← same, append_assoc] at stream
      obtain ⟨done, pending, rest, start⟩ := ih (append_cancel_left stream)
      refine ⟨frame :: done, pending, rest, ?_, ?_, start.stream, start.incomplete⟩
      · rw [start.frames, cons_append]
      · rw [flatMap_cons, append_assoc, ← start.buffer, same]
    · refine ⟨[], frame :: frames, buffer, rfl, rfl, ?_, ?_⟩
      · rw [flatMap_cons]
        exact stream
      · intro other isFirst
        cases isFirst
        exact Nat.lt_of_not_le complete

namespace Callbacks

variable (takes : callbacks.Takes kind result)
include takes

theorem Takes.ended_start (kinds : ∀ frame ∈ pending, kind frame)
    (stream : rest ++ unread = pending.flatMap Frame.bytes)
    (incomplete : ∀ frame ∈ pending.head?, rest.length < frame.bytes.length) :
    callbacks.loop.next rest = none ∧ (rest = [] ∨ callbacks.canDispatch rest = false) := by
  cases pending with
  | nil =>
    have empty := (append_eq_nil_iff.mp stream).1
    rw [empty]
    exact ⟨takes.nothing, .inl rfl⟩
  | cons frame pending =>
    have isKind := kinds frame mem_cons_self
    rw [flatMap_cons] at stream
    exact ⟨takes.ended isKind stream (incomplete frame rfl),
      .inr (takes.started isKind stream (incomplete frame rfl))⟩

theorem Takes.dispatch_frames
    (kinds : ∀ frame ∈ done, kind frame) (ended : callbacks.loop.next rest = none) :
    callbacks.dispatch (done.flatMap Frame.bytes ++ rest) = (done.map result, rest) := by
  induction done with
  | nil =>
    unfold dispatch
    rw [flatMap_nil, nil_append, Framing.frames_none ended]
    rfl
  | cons frame done ih =>
    have isKind := kinds frame mem_cons_self
    have later := ih fun other member => kinds other (mem_cons_of_mem _ member)
    unfold dispatch at later ⊢
    rw [flatMap_cons, append_assoc,
      Framing.frames_some (takes.taken isKind (done.flatMap Frame.bytes ++ rest)),
      flatten_cons]
    obtain ⟨results, left⟩ := Prod.mk.inj later
    rw [results, left]
    rfl

variable (kinds : ∀ frame ∈ frames, kind frame)
include kinds

/-- One read takes the frames that are whole off the buffer. -/
theorem Takes.read_start (start : Start frames done pending buffer rest unread) :
    callbacks.read buffer = (done.map result, rest) := by
  have kindsDone : ∀ frame ∈ done, kind frame := by
    intro frame member
    exact kinds frame (by rw [start.frames]; exact mem_append_left _ member)
  have kindsPending : ∀ frame ∈ pending, kind frame := by
    intro frame member
    exact kinds frame (by rw [start.frames]; exact mem_append_right _ member)
  obtain ⟨ended, cannot⟩ := takes.ended_start kindsPending start.stream start.incomplete
  have stops : callbacks.rounds.next rest = none := by
    apply if_neg
    intro ⟨filled, can, _⟩
    rw [cannot.resolve_left filled] at can
    cases can
  have dispatched := takes.dispatch_frames kindsDone ended
  rw [← start.buffer] at dispatched
  cases done with
  | nil =>
    rw [start.buffer]
    unfold read
    rw [flatMap_nil, nil_append, Framing.frames_none stops]
    rfl
  | cons frame done =>
    have buffer_eq : buffer = frame.bytes ++ (done.flatMap Frame.bytes ++ rest) := by
      rw [start.buffer, flatMap_cons, append_assoc]
    have can : callbacks.canDispatch buffer = true := by
      rw [buffer_eq]
      exact takes.whole (kindsDone frame mem_cons_self) _
    have header := frame.length_bytes
    have longer : rest.length < buffer.length := by
      rw [buffer_eq, length_append, length_append]
      omega
    have filled : buffer ≠ [] := by
      intro empty
      rw [empty] at longer
      cases longer
    have round : callbacks.rounds.next buffer = some ((frame :: done).map result, rest) := by
      simp only [rounds, dispatched, can, ne_eq, filled, not_false_eq_true, longer, and_self,
        if_true]
    unfold read
    rw [Framing.frames_some round, Framing.frames_none stops]
    simp only [flatten_cons, flatten_nil, append_nil]

/-- However a stream of frames is read, they are taken one by one, and what is left is the start
of the next one. -/
theorem Takes.receive_stream {reads : List Bytes}
    (stream : reads.flatten ++ unread = frames.flatMap Frame.bytes) :
    ∃ done pending rest, Start frames done pending reads.flatten rest unread ∧
      callbacks.receive reads = (done.map result, rest) := by
  induction reads using List.reverseRecOn generalizing unread with
  | nil =>
    refine ⟨[], frames, [], ⟨rfl, rfl, stream, ?_⟩, rfl⟩
    intro frame _
    rw [frame.length_bytes]
    exact Nat.zero_lt_succ _
  | append_singleton reads bytes ih =>
    rw [flatten_append, flatten_singleton, append_assoc] at stream
    obtain ⟨done, pending, rest, before, received⟩ := ih stream
    have kindsPending : ∀ frame ∈ pending, kind frame := by
      intro frame member
      exact kinds frame (by rw [before.frames]; exact mem_append_right _ member)
    have more : (rest ++ bytes) ++ unread = pending.flatMap Frame.bytes := by
      rw [append_assoc]
      exact before.stream
    obtain ⟨taken, later, left, after⟩ := exists_start more
    refine ⟨done ++ taken, later, left, ⟨?_, ?_, after.stream, after.incomplete⟩, ?_⟩
    · rw [before.frames, after.frames, append_assoc]
    · rw [flatten_append, flatten_singleton, before.buffer, append_assoc,
        after.buffer, flatMap_append, append_assoc]
    · have step : callbacks.receive (reads ++ [bytes]) = ((callbacks.receive reads).1 ++
              (callbacks.read ((callbacks.receive reads).2 ++ bytes)).1,
            (callbacks.read ((callbacks.receive reads).2 ++ bytes)).2) := by
        simp only [receive, foldl_append, foldl_cons, foldl_nil]
      rw [step, received]
      simp only [takes.read_start kindsPending after, map_append]

/-- When all has been read, all frames have been taken. -/
theorem Takes.receive_all {reads : List Bytes}
    (stream : reads.flatten = frames.flatMap Frame.bytes) :
    callbacks.receive reads = (frames.map result, []) := by
  rw [← append_nil reads.flatten] at stream
  obtain ⟨done, pending, rest, start, received⟩ := takes.receive_stream kinds stream
  have left := start.stream
  rw [append_nil] at left
  cases pending with
  | nil =>
    have all := start.frames
    rw [append_nil] at all
    rw [received, all, left]
    rfl
  | cons frame pending =>
    have short := start.incomplete frame rfl
    rw [left, flatMap_cons, length_append] at short
    omega

end Callbacks

end Gzochi.Socket
