import Gzochi.GlibClient.Receiver

/-!
# Messages between a client and the server

A client and the server send each other the payloads of messages, with a length of two bytes
before the opcode.  The server counts the length as an unsigned number when it sends and when it
takes messages off its buffer, and as a `short` when it hands a message to the application; the
client counts it as a `short` on both ways.
-/

namespace Gzochi.GlibClient

open Gzochi.DataClient (Bytes readShort writeShort readShort_writeShort)
open Gzochi.Lib List Option
open Gzochi.Socket (Event Frame Protocol unsignedShort stream Dispatchable receive_eq
  stream_frames_written stream_frames_eq stream_stable)

variable {payloads : List Bytes}

/-- `send_protocol_message`. -/
def sendProtocolMessage (opcode : UInt8) (message : Bytes) (len : Int) : Bytes :=
  writeShort (unsignedShort len) ++ opcode :: if 0 < len then message.take len.toNat else []

/-- `gzochi_glib_client_send`; the length of a message is passed as a `short`. -/
def gzochiGlibClientSend (msg : Bytes) : Bytes :=
  sendProtocolMessage sessionMessageOpcode msg (Int.bmod msg.length 65536)

/-- `received_message` in the server, for a client with a session: what the application gets.
The payload is copied by `g_bytes_new`, for which a negative length is greater than all memory. -/
def receivedMessage (msg : Bytes) (len : Int) : Option (List Bytes) :=
  if len < 0 then none else some [msg.take len.toNat]

/-- What the game protocol does with a message; `dispatch_session_message` takes the length as
a `short`.  Nothing is handed on with the other opcodes. -/
def handle : Event → Option (List Bytes)
  | .message .game opcode payload =>
      if opcode = sessionMessageOpcode then
        receivedMessage payload (Int.bmod payload.length 65536)
      else some []
  | .overrun .game opcode => if opcode = sessionMessageOpcode then none else some []
  | _ => some []

/-- The payloads that are handed on, one after the other. -/
def handled : List Event → Option (List Bytes)
  | [] => some []
  | event :: events =>
      match handle event, handled events with
      | some first, some later => some (first ++ later)
      | _, _ => none

/-- However the stream is read, the server hands on the payloads that are complete, in order, and
keeps the rest. -/
def ReceivedByServer (payloads : List Bytes) : Prop :=
  ∀ reads unread, reads.flatten ++ unread = payloads.flatMap gzochiGlibClientSend →
    ∃ done pending, payloads = done ++ pending ∧
      handled (Protocol.game.receive reads).1 = some done ∧
      (Protocol.game.receive reads).2 ++ unread = pending.flatMap gzochiGlibClientSend ∧
      (unread = [] → pending = [])

/-- A message as the server is to take it off its buffer. -/
def messageFrame (payload : Bytes) : Frame := ⟨sessionMessageOpcode, payload⟩

/-- A length that fits a `short` stays what it is. -/
theorem short_length {length : Nat} (short : length ≤ 32767) : Int.bmod length 65536 = length := by
  apply Int.bmod_eq_of_le <;> omega

theorem gzochiGlibClientSend_short {payload : Bytes} (short : payload.length ≤ 32767) :
    gzochiGlibClientSend payload = (messageFrame payload).bytes := by
  have same : unsignedShort payload.length = payload.length := by
    unfold unsignedShort
    omega
  have sent : (if (0 : Int) < payload.length then payload.take payload.length else []) =
      payload := by
    split
    next => exact take_length
    next none => exact (length_eq_zero_iff.mp (by omega)).symm
  simp only [gzochiGlibClientSend, sendProtocolMessage, short_length short, same, Int.toNat_natCast,
    sent, Frame.bytes, messageFrame]

theorem sent_short (short : ∀ payload ∈ payloads, payload.length ≤ 32767) :
    payloads.flatMap gzochiGlibClientSend = (payloads.map messageFrame).flatMap Frame.bytes := by
  rw [flatMap_map]
  exact flatMap_congr fun payload member => gzochiGlibClientSend_short (short payload member)

theorem handled_messages (short : ∀ payload ∈ payloads, payload.length ≤ 32767) :
    handled ((payloads.map messageFrame).map Protocol.game.event) = some payloads := by
  induction payloads with
  | nil => rfl
  | cons payload payloads ih =>
    have first : handle (Protocol.game.event (messageFrame payload)) = some [payload] := by
      have length := short_length (short payload mem_cons_self)
      simp [Protocol.event, handle, messageFrame, receivedMessage, length]
    have later := ih fun other member => short other (mem_cons_of_mem _ member)
    simp only [map_cons, handled, first, later]
    rfl

theorem handle_short {event : Event} {first : List Bytes} (handedOn : handle event = some first) :
    ∀ payload ∈ first, payload.length ≤ 32767 := by
  have received : ∀ (msg : Bytes) {first : List Bytes},
      receivedMessage msg (Int.bmod msg.length 65536) = some first →
      ∀ payload ∈ first, payload.length ≤ 32767 := by
    intro msg first handedOn payload member
    have bound : Int.bmod msg.length 65536 < 32768 := Int.bmod_lt (by decide)
    obtain ⟨_, handedOn⟩ := ite_none_left_eq_some.mp handedOn
    cases handedOn
    rw [mem_singleton.mp member, length_take]
    omega
  unfold handle at handedOn
  split at handedOn
  next payload =>
    split at handedOn
    next => exact received payload handedOn
    next =>
      cases handedOn
      exact fun _ absent => by cases absent
  next =>
    obtain ⟨_, handedOn⟩ := ite_none_left_eq_some.mp handedOn
    cases handedOn
    exact fun _ absent => by cases absent
  next =>
    cases handedOn
    exact fun _ absent => by cases absent

/-- No payload that is handed on is longer than a `short`. -/
theorem handled_short {events : List Event} {done : List Bytes}
    (all : handled events = some done) : ∀ payload ∈ done, payload.length ≤ 32767 := by
  induction events generalizing done with
  | nil =>
    cases all
    intro payload member
    cases member
  | cons event events ih =>
    simp only [handled] at all
    split at all
    next first later handedOn isLater =>
      cases all
      intro payload member
      cases mem_append.mp member with
      | inr isIn => exact ih isLater payload isIn
      | inl isIn => exact handle_short handedOn payload isIn
    next => cases all

/-- The server receives what fits. -/
theorem receivedByServer_of_short (short : ∀ payload ∈ payloads, payload.length ≤ 32767) :
    ReceivedByServer payloads := by
  intro reads unread whole
  have fits : ∀ frame ∈ payloads.map messageFrame, frame.payload.length ≤ 32767 := by
    intro frame member
    obtain ⟨payload, isIn, rfl⟩ := mem_map.mp member
    exact short payload isIn
  rw [sent_short short] at whole
  have frames : stream.frames (reads.flatten ++ unread) = (payloads.map messageFrame, []) := by
    rw [whole]
    exact stream_frames_written fun frame member => by
      have bound := fits frame member
      omega
  have dispatchable : Dispatchable (reads.flatten ++ unread) := by
    unfold Dispatchable
    rw [frames]
    refine ⟨?_, .inr rfl⟩
    intro frame member longest
    have bound := fits frame member
    omega
  have received : Protocol.game.receive reads =
      ((stream.frames reads.flatten).1.map Protocol.game.event, (stream.frames reads.flatten).2) :=
    receive_eq dispatchable.of_append
  have parts := (stream_frames_eq ((stream.frames reads.flatten).2 ++ unread)).1
  rw [Framing.frames_append stream_stable] at frames
  obtain ⟨both, left⟩ := Prod.mk.inj frames
  obtain ⟨done, pending, split, isDone, isPending⟩ := map_eq_append_iff.mp both.symm
  have doneShort : ∀ payload ∈ done, payload.length ≤ 32767 := by
    intro payload member
    exact short payload (by rw [split]; exact mem_append_left _ member)
  have pendingShort : ∀ payload ∈ pending, payload.length ≤ 32767 := by
    intro payload member
    exact short payload (by rw [split]; exact mem_append_right _ member)
  refine ⟨done, pending, split, ?_, ?_, ?_⟩
  · rw [received, ← isDone]
    exact handled_messages doneShort
  · rw [left, append_nil] at parts
    rw [received, sent_short pendingShort, isPending]
    exact parts.symm
  · intro none
    rw [none, append_nil, Framing.frames_none (Framing.next_remainder _)] at isPending
    exact map_eq_nil_iff.mp isPending

theorem ReceivedByServer.short (received : ReceivedByServer payloads) :
    ∀ payload ∈ payloads, payload.length ≤ 32767 := by
  obtain ⟨done, pending, split, isHandled, _, complete⟩ :=
    received [payloads.flatMap gzochiGlibClientSend] [] (by simp)
  rw [complete rfl, append_nil] at split
  rw [split]
  exact handled_short isHandled

/-- A session that is connected, with what the server sends. -/
def connectedReceiver (socket : Bytes) : Receiver :=
  ⟨⟨true, false, [], [], 0⟩, true, socket⟩

/-- After any rounds of the receive loop the handler has been called with the first payloads, and
the others are in the buffer and on the socket, byte for byte; after enough rounds it has been
called with all of them. -/
def ReceivedByClient (payloads : List Bytes) : Prop :=
  ∃ enough, ∀ fuel, enough ≤ fuel → ∀ rounds, ∃ receiver done pending,
    receive fuel (connectedReceiver (payloads.flatMap gzochidGameClientSend)) rounds =
        some receiver ∧
      payloads = done ++ pending ∧ Delivered receiver done pending ∧
      ((payloads.flatMap gzochidGameClientSend).length + payloads.length ≤ rounds.length →
        pending = [])

section

variable {receiver : Receiver} {done pending : List Bytes} {fuel : Nat}

theorem Round.step_delivers (delivered : Delivered receiver done pending)
    (fits : ∀ payload ∈ pending, payload.length < 32768) (enough : pending.length < fuel)
    (round : Round) :
    ∃ next, round.step fuel receiver = some next ∧ Progress receiver done pending next := by
  unfold Round.step
  cases round.reader with
  | source => exact sourceRound_delivers delivered fits enough _ _
  | readAndDispatch => exact readAndDispatchRound_delivers delivered fits enough _ _

theorem receive_delivers (delivered : Delivered receiver done pending)
    (fits : ∀ payload ∈ pending, payload.length < 32768) (enough : pending.length < fuel)
    (rounds : List Round) :
    ∃ final more later, receive fuel receiver rounds = some final ∧ pending = more ++ later ∧
      Delivered final (done ++ more) later ∧
      (later = [] ∨ rounds.length + (final.socket.length + later.length) ≤
        receiver.socket.length + pending.length) := by
  induction rounds generalizing receiver done pending with
  | nil =>
    refine ⟨receiver, [], pending, rfl, rfl, ?_, .inr ?_⟩
    · rw [append_nil]
      exact delivered
    · exact Nat.le_of_eq (by rw [length_nil, Nat.zero_add])
  | cons round rounds ih =>
    obtain ⟨next, isNext, more, later, split, kept, progress⟩ :=
      round.step_delivers delivered fits enough
    have others : ∀ payload ∈ later, payload.length < 32768 := by
      intro payload member
      exact fits payload (by rw [split]; exact mem_append_right _ member)
    have fewer : later.length < fuel := by
      rw [split, length_append] at enough
      omega
    obtain ⟨final, again, last, result, splitLater, final_, measure⟩ := ih kept others fewer
    refine ⟨final, more ++ again, last, ?_, ?_, ?_, ?_⟩
    · simp only [receive, isNext, bind_some, result]
    · rw [split, splitLater, append_assoc]
    · rw [← append_assoc]
      exact final_
    · cases progress with
      | inl none =>
        rw [none] at split
        have nothing := (append_eq_nil_iff.mp split.symm).2
        rw [nothing] at splitLater
        exact .inl (append_eq_nil_iff.mp splitLater.symm).2
      | inr less =>
        cases measure with
        | inl none => exact .inl none
        | inr bound =>
          rw [length_cons]
          exact .inr (by omega)

/-- The client receives what fits. -/
theorem receivedByClient_of_short (short : ∀ payload ∈ payloads, payload.length ≤ 32767) :
    ReceivedByClient payloads := by
  refine ⟨payloads.length + 1, ?_⟩
  intro fuel enough rounds
  have start : Delivered (connectedReceiver (payloads.flatMap gzochidGameClientSend)) []
      payloads := ⟨rfl, rfl, rfl, rfl⟩
  obtain ⟨final, more, later, result, split, delivered, measure⟩ :=
    receive_delivers start (fun payload member => Nat.lt_succ_of_le (short payload member))
      enough rounds
  refine ⟨final, more, later, result, split, delivered, ?_⟩
  intro long
  cases measure with
  | inl none => exact none
  | inr bound =>
    change _ ≤ (payloads.flatMap gzochidGameClientSend).length + payloads.length at bound
    exact length_eq_zero_iff.mp (by omega)

/-- The length of a message as the client takes it. -/
def announced (payload : Bytes) : Int :=
  readShort (UInt8.ofNat (payload.length / 256)) (UInt8.ofNat payload.length)

theorem dispatch_buffer (session : ClientSession) (opcode : UInt8) (message : Bytes) (len : Int) :
    (dispatch session opcode message len).buffer = session.buffer ∧
      (dispatch session opcode message len).received.length ≤ session.received.length + 1 := by
  unfold dispatch dispatchSessionMessage dispatchSessionDisconnected
  split
  next => simp
  next =>
    split
    next =>
      dsimp only
      split <;> simp
    next => simp

/-- A handler that has been called once has as much taken off the buffer as its message was
announced to be long. -/
def TakenOff (payload : Bytes) (received : Nat) (before after : Bytes) (next : ClientSession) :
    Prop :=
  next.received.length ≤ received ∨
    (next.received.length ≤ received + 1 ∧
      after = before.drop (3 + announced payload).toNat)

variable {payload : Bytes}

theorem attemptDispatch_one {session next : ClientSession} {socket : Bytes} {dispatched : Nat}
    (isPending : Pending session socket (payload :: pending)) (enough : 2 ≤ fuel)
    (result : attemptDispatch fuel session 1 = some (next, dispatched)) :
    TakenOff payload session.received.length (session.buffer ++ socket) (next.buffer ++ socket)
      next := by
  obtain ⟨fuel, rfl⟩ := Nat.exists_eq_add_of_le' enough
  have again : ¬((1 : Nat) ≠ 0 ∧ (1 : Nat) = 0) := by omega
  by_cases short : session.buffer.length < 3
  · have stays : attemptLoop 1 (fuel + 2) ⟨session, 1, 0, 0⟩ = some ⟨session, 1, 0, 0⟩ := by
      have few : (session.buffer.length : Int) - 0 < 3 := by omega
      simp only [attemptLoop, if_neg again, isPending.connected, if_pos few, Bool.true_eq_false,
        if_false]
    rw [attemptDispatch_eq stays rfl] at result
    cases result
    exact .inl (Nat.le_refl _)
  · have stream := isPending.stream
    rw [flatMap_cons] at stream
    obtain ⟨message, header, _⟩ := message_header stream (Nat.le_of_not_lt short)
    have step : attemptLoop 1 (fuel + 1 + 1) ⟨session, 1, 0, 0⟩ = _ :=
      attemptLoop_header isPending.connected rfl header again
    change _ = if (message.length : Int) < announced payload then _ else
      attemptLoop 1 (fuel + 1) (Loop.dispatch ⟨session, 1, 0, 0⟩ 1 sessionMessageOpcode message
        (announced payload)) at step
    by_cases ended : (message.length : Int) < announced payload
    · rw [if_pos ended] at step
      rw [attemptDispatch_eq step rfl] at result
      cases result
      exact .inl (Nat.le_refl _)
    · rw [if_neg ended] at step
      generalize after : Loop.dispatch ⟨session, 1, 0, 0⟩ 1 sessionMessageOpcode message
        (announced payload) = loop at step
      have stops : attemptLoop 1 (fuel + 1) loop = some loop := by
        subst after
        simp [attemptLoop, Loop.dispatch]
      obtain ⟨buffer, received⟩ :=
        dispatch_buffer session sessionMessageOpcode message (announced payload)
      have sameSession : loop.session =
          dispatch session sessionMessageOpcode message (announced payload) := by
        rw [← after]
        rfl
      have offset : loop.offset = 3 + announced payload := by
        rw [← after]
        simp [Loop.dispatch]
      have size := congrArg List.length header
      simp only [length_cons] at size
      rw [← sameSession] at buffer received
      have step : attemptLoop 1 (fuel + 2) ⟨session, 1, 0, 0⟩ = some loop := step.trans stops
      simp only [attemptDispatch, step, map_some, Option.some.injEq, offset, buffer] at result
      refine .inr ?_
      split at result
      next =>
        cases result
        refine ⟨received, ?_⟩
        rw [drop_append_of_le_length (by omega)]
      next back =>
        cases result
        have zero : (3 + announced payload).toNat = 0 := by omega
        rw [zero, drop_zero, buffer]
        exact ⟨received, rfl⟩

/-- A round of the source in which one message is dispatched. -/
theorem sourceRound_one {next : Receiver} (delivered : Delivered receiver done (payload :: pending))
    (fits : ∀ other ∈ payload :: pending, other.length < 65536) (enough : 2 ≤ fuel)
    (result : sourceRound fuel receiver .dispatch 0 = some next) :
    TakenOff payload receiver.session.received.length
      (receiver.session.buffer ++ receiver.socket) (next.session.buffer ++ next.socket)
      next.session := by
  simp only [sourceRound, delivered.attached, Bool.true_eq_false, if_false] at result
  split at result
  next =>
    obtain ⟨⟨session, dispatched⟩, once, rfl⟩ := map_eq_some_iff.mp result
    exact attemptDispatch_one delivered.pending enough once
  next notReady =>
    have incomplete := (isDispatchable_pending fits delivered.pending).mp
      (Bool.not_eq_true _ ▸ notReady)
    split at result
    next =>
      cases result
      exact .inl (Nat.le_refl _)
    next filled =>
      obtain ⟨read, isRead, kept, _⟩ := delivered.read fits incomplete filled 0
      have sameStream : receiver.session.buffer ++ receiver.socket =
          read.session.buffer ++ read.socket :=
        delivered.pending.stream.trans kept.pending.stream.symm
      have sameReceived : receiver.session.received = read.session.received :=
        delivered.received.trans kept.received.symm
      rw [sameStream, sameReceived]
      simp only [isRead] at result
      split at result
      next =>
        obtain ⟨⟨session, dispatched⟩, once, rfl⟩ := map_eq_some_iff.mp result
        exact attemptDispatch_one kept.pending enough once
      next =>
        cases result
        exact .inl (Nat.le_refl _)

theorem receive_concat (rounds : List Round) (round : Round) :
    receive fuel receiver (rounds ++ [round]) =
      (receive fuel receiver rounds).bind (round.step fuel) := by
  induction rounds generalizing receiver with
  | nil =>
    simp only [nil_append, receive, bind_some]
    exact bind_fun_some _
  | cons first rounds ih =>
    simp only [cons_append, receive]
    cases first.step fuel receiver with
    | none => rfl
    | some next => exact ih

/-- A length that does not fit a `short` becomes negative. -/
theorem announced_long (long : 32768 ≤ payload.length) (fits : payload.length < 65536) :
    announced payload = (payload.length : Int) - 65536 := by
  have high : (UInt8.ofNat (payload.length / 256)).toNat = payload.length / 256 := by
    rw [UInt8.toNat_ofNat']
    omega
  have low : (UInt8.ofNat payload.length).toNat = payload.length % 256 := by
    rw [UInt8.toNat_ofNat']
  have sum : payload.length / 256 * 256 + payload.length % 256 = payload.length :=
    Nat.div_add_mod' payload.length 256
  simp only [announced, readShort, high, low, sum, if_neg (Nat.not_lt.mpr long)]

theorem length_gzochidGameClientSend (payload : Bytes) :
    (gzochidGameClientSend payload).length = payload.length + 3 := by
  simp only [gzochidGameClientSend, writeShort, length_append, length_cons, length_nil]
  omega

/-- A long message is not taken off the buffer when it is dispatched. -/
theorem long_stays {next : Receiver} {later : List Bytes}
    (delivered : Delivered receiver done (payload :: pending)) (long : 32768 ≤ payload.length)
    (fits : payload.length < 65536) (after : Delivered next later pending)
    (taken : next.session.buffer ++ next.socket =
      (receiver.session.buffer ++ receiver.socket).drop (3 + announced payload).toNat) : False := by
  have size := congrArg List.length taken
  rw [after.pending.stream, delivered.pending.stream, length_drop, flatMap_cons,
    length_append, length_gzochidGameClientSend, announced_long long fits] at size
  omega

/-- Rounds of the source that dispatch one message at a time do not get past a long one. -/
theorem before_long {early later : List Bytes}
    (fits : ∀ other ∈ early ++ payload :: later, other.length < 65536)
    (long : 32768 ≤ payload.length) (enough : 2 ≤ fuel)
    (delivers : ∀ rounds, ∃ receiver done pending,
      receive fuel (connectedReceiver ((early ++ payload :: later).flatMap gzochidGameClientSend))
          rounds = some receiver ∧
        early ++ payload :: later = done ++ pending ∧ Delivered receiver done pending)
    (count : Nat) :
    ∀ receiver, receive fuel
        (connectedReceiver ((early ++ payload :: later).flatMap gzochidGameClientSend))
        (List.replicate count ⟨.source, .dispatch, 0⟩) = some receiver →
      receiver.session.received.length ≤ early.length := by
  induction count with
  | zero =>
    intro receiver start
    cases start
    exact Nat.zero_le _
  | succ count ih =>
    intro receiver reached
    obtain ⟨same, doneAfter, pendingAfter, isSame, splitAfter, after⟩ :=
      delivers (List.replicate (count + 1) ⟨.source, .dispatch, 0⟩)
    rw [reached] at isSame
    cases isSame
    rw [replicate_succ', receive_concat] at reached
    obtain ⟨middle, atMiddle, step⟩ := bind_eq_some_iff.mp reached
    have bound := ih middle atMiddle
    obtain ⟨same, done, pending, isSame, split, before⟩ := delivers (List.replicate count _)
    rw [atMiddle] at isSame
    cases isSame
    rw [before.received, length_map] at bound
    cases pending with
    | nil =>
      have whole := congrArg List.length split
      simp only [length_append, length_cons, length_nil] at whole
      omega
    | cons next pending =>
      have wide : ∀ other ∈ next :: pending, other.length < 65536 := by
        intro other member
        exact fits other (by rw [split]; exact mem_append_right _ member)
      have taken := sourceRound_one before wide enough step
      unfold TakenOff at taken
      rw [before.received, after.received, length_map, length_map] at taken
      rw [after.received, length_map]
      by_contra beyond
      have more : doneAfter.length = early.length + 1 := by omega
      have all : done.length = early.length := by omega
      have removed := taken.resolve_left (by omega)
      obtain ⟨_, tail⟩ := append_inj split all.symm
      cases tail
      have splitLater : (early ++ [payload]) ++ later = doneAfter ++ pendingAfter := by
        rw [append_assoc]
        exact splitAfter
      obtain ⟨_, rest⟩ := append_inj splitLater (by
        rw [more, length_append, length_singleton])
      subst rest
      exact long_stays before long (wide payload mem_cons_self) after removed.2

/-- What the client receives fits a `short`. -/
theorem ReceivedByClient.short (fits : ∀ payload ∈ payloads, payload.length ≤ 65535)
    (received : ReceivedByClient payloads) : ∀ payload ∈ payloads, payload.length ≤ 32767 := by
  intro payload member
  by_contra long
  obtain ⟨enough, all⟩ := received
  obtain ⟨early, later, rfl⟩ := append_of_mem member
  have delivers : ∀ rounds, ∃ receiver done pending, receive (max enough 2)
          (connectedReceiver ((early ++ payload :: later).flatMap gzochidGameClientSend))
          rounds = some receiver ∧
        early ++ payload :: later = done ++ pending ∧ Delivered receiver done pending := by
    intro rounds
    obtain ⟨receiver, done, pending, reached, whole, delivered, _⟩ :=
      all _ (Nat.le_max_left _ _) rounds
    exact ⟨receiver, done, pending, reached, whole, delivered⟩
  obtain ⟨receiver, done, pending, reached, whole, delivered, complete⟩ :=
    all _ (Nat.le_max_left enough 2) (List.replicate
      (((early ++ payload :: later).flatMap gzochidGameClientSend).length +
        (early ++ payload :: later).length) ⟨.source, .dispatch, 0⟩)
  have bound := before_long (fun other isIn => Nat.lt_succ_of_le (fits other isIn))
    (Nat.lt_of_not_le long) (Nat.le_max_right _ _) delivers _ receiver reached
  rw [complete (Nat.le_of_eq (length_replicate).symm), append_nil] at whole
  rw [delivered.received, ← whole, length_map, length_append, length_cons] at bound
  omega

end

/-- A sequence of messages is received as it is sent, on either way, just when all its payloads
fit a `short`. -/
theorem received_iff_short (fits : ∀ payload ∈ payloads, payload.length ≤ 65535) :
    (ReceivedByServer payloads ↔ ∀ payload ∈ payloads, payload.length ≤ 32767) ∧
      (ReceivedByClient payloads ↔ ∀ payload ∈ payloads, payload.length ≤ 32767) := by
  constructor
  · exact ⟨fun received => received.short, receivedByServer_of_short⟩
  · exact ⟨fun received => received.short fits, receivedByClient_of_short⟩

theorem received_iff_short_two : ReceivedByServer [[7, 8], []] ∧ ReceivedByClient [[7, 8], []] := by
  have fits : ∀ payload ∈ ([[7, 8], []] : List Bytes), payload.length ≤ 65535 := by decide
  have short : ∀ payload ∈ ([[7, 8], []] : List Bytes), payload.length ≤ 32767 := by decide
  obtain ⟨server, client⟩ := received_iff_short fits
  exact ⟨server.mpr short, client.mpr short⟩

/-- A payload of 32768 bytes is received on neither way. -/
theorem long_not_received :
    ¬ReceivedByServer [List.replicate 32768 0] ∧ ¬ReceivedByClient [List.replicate 32768 0] := by
  have length : (List.replicate 32768 (0 : UInt8)).length = 32768 := length_replicate
  have fits : ∀ payload ∈ [List.replicate 32768 (0 : UInt8)], payload.length ≤ 65535 := by
    intro payload member
    rw [mem_singleton.mp member, length]
    omega
  constructor
  · intro received
    have short := received.short _ (mem_singleton_self _)
    rw [length] at short
    omega
  · intro received
    have short := received.short fits _ (mem_singleton_self _)
    rw [length] at short
    omega

end Gzochi.GlibClient
