import Gzochi.GuileClient.Sessions

/-!
# The login request of the Guile client

The request is put together in a bytevector: as many bytes of the endpoint's encoding as it has
characters, a byte nobody sets, the credentials.  The server takes the endpoint for what stands
before the first zero, and counts the lengths of both parts in a `short`.  So it finds what was put
in when the endpoint is ASCII, the byte happens to be zero and the lengths fit.
-/

namespace Gzochi.GuileClient

open Gzochi.DataClient (Bytes)
open Gzochi.Lib List
open Gzochi.Socket (Event Frame Protocol unsignedShort payloadLength payloadLength_writeShort)

/-- `gzochi:protocol/login-request`. -/
def loginRequest : UInt8 := 0x10

/-- `string->utf8`. -/
def stringToUtf8 (string : List Char) : Bytes := string.flatMap String.utf8EncodeChar

/-- `send-protocol-message`: what has been sent when the message has been sent fully. -/
def sendProtocolMessage (opcode : UInt8) (message : Bytes) : Bytes :=
  let messageLen := message.length
  UInt8.ofNat ((messageLen &&& 0xff00) >>> 8) :: UInt8.ofNat (messageLen &&& 0xff) :: opcode ::
    message

/-- `send-login-request`. -/
def sendLoginRequest (contents : Nat → UInt8) (endpoint : List Char) (credentials : Bytes) :
    Option Bytes :=
  let endpointLen := endpoint.length
  let credentialsLen := credentials.length
  let buffer := makeBytevector contents (endpointLen + credentialsLen + 1)
  (copyRange (stringToUtf8 endpoint) 0 buffer 0 endpointLen).bind fun buffer =>
    (copyRange credentials 0 buffer (endpointLen + 1) credentialsLen).map fun buffer =>
      sendProtocolMessage loginRequest buffer

/-- A byte of the payload, or of the memory around it. -/
def byteAt (payload : Bytes) (around : Int → UInt8) (place : Int) : UInt8 :=
  if 0 ≤ place ∧ place < payload.length then payload[place.toNat]?.getD 0 else around place

/-- `dispatch_message` of the server, for a login request: the endpoint and the credentials, as
`dispatch_login_request` gets them.  There are no credentials of a negative length. -/
def dispatchLogin (around : Int → UInt8) (payload : Bytes) : Bytes × Option Bytes :=
  let pfx := payload.takeWhile (· ≠ 0)
  let pfxLen := Int.bmod (pfx.length + 1) 65536
  let sfxLen := Int.bmod (payload.length - pfxLen) 65536
  (pfx, if sfxLen < 0 then none
    else some ((List.range sfxLen.toNat).map fun (offset : Nat) =>
      byteAt payload around (pfxLen + offset)))

/-- The server takes the request off what it has received, and has the endpoint and the
credentials, whatever follows the request and stands around it in memory. -/
def LoginParsed (contents : Nat → UInt8) (endpoint : List Char) (credentials : Bytes) : Prop :=
  ∃ request, sendLoginRequest contents endpoint credentials = some request ∧
    ∀ more around, ∃ payload rest,
      Protocol.game.loop.next (request ++ more) =
        some ([.message .game loginRequest payload], rest) ∧
      dispatchLogin around payload = (stringToUtf8 endpoint, some credentials)

/-- The endpoint is ASCII, the byte nobody sets is zero, and the lengths are small enough. -/
structure LoginFits (contents : Nat → UInt8) (endpoint : List Char) (credentials : Bytes) :
    Prop where
  ascii : ∀ character ∈ endpoint, character.val ≤ 127
  separated : contents endpoint.length = 0
  short : credentials.length < 32768
  near : credentials = [] ∨ endpoint.length < 32767

variable {contents : Nat → UInt8} {endpoint : List Char} {credentials : Bytes}

theorem length_le_utf8 (string : List Char) : string.length ≤ (stringToUtf8 string).length := by
  induction string with
  | nil => exact Nat.le_refl _
  | cons character rest ih =>
    have positive := character.utf8Size_pos
    rw [stringToUtf8, flatMap_cons, length_append, String.length_utf8EncodeChar, length_cons]
    rw [stringToUtf8] at ih
    omega

/-- A string whose encoding is not longer than itself is ASCII. -/
theorem ascii_iff (string : List Char) :
    (stringToUtf8 string).length = string.length ↔ ∀ character ∈ string, character.val ≤ 127 := by
  induction string with
  | nil => simp [stringToUtf8]
  | cons character rest ih =>
    have positive := character.utf8Size_pos
    have longer := length_le_utf8 rest
    rw [forall_mem_cons, ← ih, ← Char.utf8Size_eq_one_iff]
    rw [stringToUtf8] at longer ⊢
    rw [flatMap_cons, length_append, String.length_utf8EncodeChar, length_cons]
    rw [stringToUtf8]
    omega

/-- No byte of an ASCII string without a zero is zero. -/
theorem utf8_nonzero {string : List Char} (ascii : ∀ character ∈ string, character.val ≤ 127)
    (noZero : ∀ character ∈ string, character ≠ '\x00') :
    ∀ byte ∈ stringToUtf8 string, byte ≠ 0 := by
  intro byte member zero
  obtain ⟨character, inside, encoded⟩ := mem_flatMap.mp member
  have small := ascii character inside
  have one : character.val.toNat ≤ 127 := small
  have single : String.utf8EncodeChar character = [UInt8.ofNat character.val.toNat] := by
    unfold String.utf8EncodeChar
    rw [if_pos one]
  rw [single, mem_singleton] at encoded
  apply noZero character inside
  have value : character.val.toNat = 0 := by
    have equal := congrArg UInt8.toNat (encoded.symm.trans zero)
    rw [UInt8.toNat_ofNat'] at equal
    change character.val.toNat % 256 = 0 at equal
    omega
  apply Char.ext
  exact UInt32.toNat_inj.mp value

theorem sendProtocolMessage_eq (opcode : UInt8) (message : Bytes) :
    sendProtocolMessage opcode message = Frame.bytes ⟨opcode, message⟩ := by
  have low : UInt8.ofNat (message.length &&& 0xff) = UInt8.ofNat message.length := by
    apply UInt8.toNat_inj.mp
    have mask : message.length &&& 0xff = message.length % 256 :=
      Nat.and_two_pow_sub_one_eq_mod _ 8
    rw [UInt8.toNat_ofNat', UInt8.toNat_ofNat', mask]
    omega
  have high : UInt8.ofNat ((message.length &&& 0xff00) >>> 8) =
      UInt8.ofNat (message.length / 256) := by
    apply UInt8.toNat_inj.mp
    have mask : (message.length &&& 0xff00) >>> 8 = message.length / 256 % 256 := by
      rw [Nat.shiftRight_and_distrib, Nat.shiftRight_eq_div_pow]
      exact Nat.and_two_pow_sub_one_eq_mod _ 8
    rw [UInt8.toNat_ofNat', UInt8.toNat_ofNat', mask]
    omega
  simp only [sendProtocolMessage, low, high, Frame.bytes, DataClient.writeShort, cons_append,
    nil_append]

/-- What the request consists of. -/
theorem sendLoginRequest_eq (contents : Nat → UInt8) (endpoint : List Char) (credentials : Bytes) :
    sendLoginRequest contents endpoint credentials =
      some (Frame.bytes ⟨loginRequest, (stringToUtf8 endpoint).take endpoint.length ++
        contents endpoint.length :: credentials⟩) := by
  have longer := length_le_utf8 endpoint
  have size := length_makeBytevector contents (endpoint.length + credentials.length + 1)
  have front : ((stringToUtf8 endpoint).take endpoint.length).length = endpoint.length := by
    rw [length_take]
    omega
  have rest : (makeBytevector contents (endpoint.length + credentials.length + 1)).drop
      endpoint.length = contents endpoint.length ::
        (makeBytevector contents (endpoint.length + credentials.length + 1)).drop
          (endpoint.length + 1) := by
    rw [drop_eq_getElem_cons (by omega)]
    simp [makeBytevector]
  unfold sendLoginRequest
  dsimp only
  rw [copyRange_eq (by omega) (by omega), Option.bind_some, take_zero, nil_append,
    drop_zero, Nat.zero_add, rest]
  have whole : ((stringToUtf8 endpoint).take endpoint.length ++ contents endpoint.length ::
      (makeBytevector contents (endpoint.length + credentials.length + 1)).drop
        (endpoint.length + 1)).length = endpoint.length + 1 + credentials.length := by
    rw [length_append, front, length_cons, length_drop]
    omega
  rw [copyRange_eq (by omega) (Nat.le_of_eq whole.symm), Option.map_some,
    sendProtocolMessage_eq, drop_of_length_le (Nat.le_of_eq whole), append_nil,
    drop_zero, take_length]
  have separated : ((stringToUtf8 endpoint).take endpoint.length ++ contents endpoint.length ::
      (makeBytevector contents (endpoint.length + credentials.length + 1)).drop
        (endpoint.length + 1)).take (endpoint.length + 1) =
      (stringToUtf8 endpoint).take endpoint.length ++ [contents endpoint.length] := by
    rw [take_append, front, take_of_length_le (by omega), Nat.add_sub_cancel_left,
      take_succ_cons, take_zero]
  rw [separated, append_assoc, singleton_append]

/-- The server takes a message off the front, however long its payload is. -/
theorem game_next (frame : Frame) (fits : frame.payload.length < 65536) (more : Bytes) :
    ∃ rest, Protocol.game.loop.next (frame.bytes ++ more) =
      some ([.message .game frame.opcode frame.payload], rest) := by
  have length := payloadLength_writeShort fits
  have counted : unsignedShort ((unsignedShort ((frame.payload.length : Int) + 1) : Int) - 1) =
      frame.payload.length := by
    unfold unsignedShort
    omega
  have enough : ¬(frame.payload ++ more).length + 1 <
      unsignedShort ((frame.payload.length : Int) + 1) := by
    rw [length_append]
    unfold unsignedShort
    omega
  have inside : frame.payload.length ≤ (frame.payload ++ more).length := by
    rw [length_append]
    exact Nat.le_add_right _ _
  exact ⟨(frame.opcode :: (frame.payload ++ more)).drop
    (unsignedShort ((frame.payload.length : Int) + 1)), by
    simp only [Protocol.loop, Socket.ownMessages, Socket.messages, Frame.bytes,
      DataClient.writeShort, cons_append, nil_append, length, if_neg enough,
      Socket.dispatchMessage, Socket.process, counted, if_pos inside, take_left]⟩

theorem byteAt_of_getElem? {payload : Bytes} {around : Int → UInt8} {place : Nat} {byte : UInt8}
    (found : payload[place]? = some byte) : byteAt payload around place = byte := by
  obtain ⟨inside, _⟩ := List.getElem?_eq_some_iff.mp found
  rw [byteAt, if_pos (by omega), Int.toNat_natCast, found]
  rfl

/-- The lengths that the server counts. -/
theorem sfxLen_eq {front back : Nat} :
    Int.bmod (((front + 1 + back : Nat) : Int) - Int.bmod ((front : Int) + 1) 65536) 65536 =
      Int.bmod back 65536 := by
  rw [Int.sub_bmod_bmod]
  congr 1
  omega

/-- What the server makes of an endpoint and credentials with a zero between them. -/
theorem dispatchLogin_separated (around : Int → UInt8) {front : Bytes}
    (nonzero : ∀ byte ∈ front, byte ≠ 0) (credentials : Bytes) :
    dispatchLogin around (front ++ 0 :: credentials) = (front,
        let pfxLen := Int.bmod ((front.length : Int) + 1) 65536
        let sfxLen := Int.bmod credentials.length 65536
        if sfxLen < 0 then none
        else some ((List.range sfxLen.toNat).map fun (offset : Nat) =>
          byteAt (front ++ 0 :: credentials) around (pfxLen + offset))) := by
  have every : ∀ byte ∈ front, decide (byte ≠ 0) = true :=
    fun byte member => decide_eq_true (nonzero byte member)
  have taken : (front ++ 0 :: credentials).takeWhile (· ≠ 0) = front := by
    rw [takeWhile_append_of_pos every]
    simp
  have size : (front ++ 0 :: credentials).length = front.length + 1 + credentials.length := by
    rw [length_append, length_cons]
    omega
  rw [dispatchLogin, taken, size]
  dsimp only
  rw [sfxLen_eq]

/-- The bytes after the zero are the credentials. -/
theorem byteAt_credentials (around : Int → UInt8) (front credentials : Bytes) :
    ((List.range credentials.length).map fun (offset : Nat) =>
      byteAt (front ++ 0 :: credentials) around ((front.length : Int) + 1 + offset)) =
        credentials := by
  apply ext_getElem
  · simp
  · intro place inside here
    rw [getElem_map, getElem_range]
    have found : (front ++ 0 :: credentials)[front.length + 1 + place]? =
        some credentials[place] := by
      rw [List.getElem?_append_right (by omega), Nat.add_assoc, Nat.add_sub_cancel_left,
        Nat.add_comm, List.getElem?_cons_succ, List.getElem?_eq_getElem here]
    exact byteAt_of_getElem? found

/-- A request that fits is taken apart into its parts. -/
theorem dispatchLogin_of_fits (fits : LoginFits contents endpoint credentials)
    (noZero : ∀ character ∈ endpoint, character ≠ '\x00') (around : Int → UInt8) :
    dispatchLogin around ((stringToUtf8 endpoint).take endpoint.length ++
        contents endpoint.length :: credentials) =
      (stringToUtf8 endpoint, some credentials) := by
  have size := (ascii_iff endpoint).mpr fits.ascii
  have small := fits.short
  have sfxLen : Int.bmod credentials.length 65536 = credentials.length :=
    Int.bmod_eq_of_le (by omega) (by omega)
  rw [fits.separated, ← size, take_length,
    dispatchLogin_separated around (utf8_nonzero fits.ascii noZero)]
  dsimp only
  have back : ((List.range credentials.length).map fun (offset : Nat) =>
      byteAt (stringToUtf8 endpoint ++ 0 :: credentials) around
        (Int.bmod (((stringToUtf8 endpoint).length : Int) + 1) 65536 + offset)) =
      credentials := by
    rcases fits.near with none | near
    · rw [none]
      rfl
    · have pfxLen : Int.bmod (((stringToUtf8 endpoint).length : Int) + 1) 65536 =
          (stringToUtf8 endpoint).length + 1 := Int.bmod_eq_of_le (by omega) (by omega)
      rw [pfxLen]
      exact byteAt_credentials around _ credentials
  rw [sfxLen, if_neg (by omega), Int.toNat_natCast, back]

/-- A request that is taken apart into its parts, whatever stands around it, fits. -/
theorem fits_of_dispatchLogin (noZero : ∀ character ∈ endpoint, character ≠ '\x00')
    (length : (stringToUtf8 endpoint).length + 1 + credentials.length ≤ 65535)
    (parsed : ∀ around, dispatchLogin around ((stringToUtf8 endpoint).take endpoint.length ++
        contents endpoint.length :: credentials) =
      (stringToUtf8 endpoint, some credentials)) :
    LoginFits contents endpoint credentials := by
  have longer := length_le_utf8 endpoint
  -- the lengths tell that the endpoint has been copied whole
  have counted : Int.bmod (((endpoint.length + 1 + credentials.length : Nat) : Int) -
      Int.bmod (((stringToUtf8 endpoint).length : Int) + 1) 65536) 65536 = credentials.length := by
    have here := parsed fun _ => 0
    have front := congrArg Prod.fst here
    have back := congrArg Prod.snd here
    have size : ((stringToUtf8 endpoint).take endpoint.length ++
        contents endpoint.length :: credentials).length =
          endpoint.length + 1 + credentials.length := by
      rw [length_append, length_take, length_cons]
      omega
    simp only [dispatchLogin] at front back
    rw [front, size] at back
    split at back
    next => cases back
    next nonnegative =>
      have lengths := congrArg List.length (Option.some.inj back)
      rw [length_map, length_range] at lengths
      omega
  rw [Int.sub_bmod_bmod, Int.bmod_def] at counted
  have size : (stringToUtf8 endpoint).length = endpoint.length := by
    split at counted <;> omega
  have ascii := (ascii_iff endpoint).mp size
  have short : credentials.length < 32768 := by
    split at counted <;> omega
  rw [← size, take_length] at parsed
  have nonzero := utf8_nonzero ascii noZero
  have separated : contents endpoint.length = 0 := by
    have front := congrArg Prod.fst (parsed fun _ => 0)
    simp only [dispatchLogin] at front
    have every : ∀ byte ∈ stringToUtf8 endpoint, decide (byte ≠ 0) = true :=
      fun byte member => decide_eq_true (nonzero byte member)
    rw [takeWhile_append_of_pos every] at front
    have none := append_right_eq_self.mp front
    rw [size] at none
    by_contra different
    have taken := takeWhile_eq_nil_iff.mp none (Nat.succ_pos _)
    exact taken (decide_eq_true different)
  refine ⟨ascii, separated, short, ?_⟩
  by_contra far
  obtain ⟨some, far⟩ := not_or.mp far
  obtain ⟨first, others, same⟩ := exists_cons_of_ne_nil some
  -- the length of the endpoint has turned negative, and the memory before the request is read
  rw [size, separated] at parsed
  have back := congrArg Prod.snd (parsed fun _ => first + 1)
  rw [dispatchLogin_separated _ nonzero] at back
  have sfxLen : Int.bmod credentials.length 65536 = credentials.length :=
    Int.bmod_eq_of_le (by omega) (by omega)
  dsimp only at back
  rw [sfxLen, if_neg (by omega), Int.toNat_natCast] at back
  have head := congrArg List.head? (Option.some.inj back)
  have zeroth : (List.range credentials.length).head? = Option.some 0 := by
    rw [List.head?_range, if_neg (by rw [same]; nofun)]
  have before : Int.bmod (((stringToUtf8 endpoint).length : Int) + 1) 65536 < 0 := by
    rw [Int.bmod_def]
    split <;> omega
  rw [List.head?_map, zeroth, same, List.head?_cons, Option.map_some, byteAt,
    if_neg (by omega)] at head
  injection head with head
  have value := congrArg UInt8.toNat head
  rw [UInt8.toNat_add] at value
  have one : (1 : UInt8).toNat = 1 := rfl
  have bound := first.toNat_lt
  omega

/-- The server parses a login request exactly when it fits. -/
theorem loginParsed_iff (noZero : ∀ character ∈ endpoint, character ≠ '\x00')
    (length : (stringToUtf8 endpoint).length + 1 + credentials.length ≤ 65535) :
    LoginParsed contents endpoint credentials ↔ LoginFits contents endpoint credentials := by
  have longer := length_le_utf8 endpoint
  have fits : ((stringToUtf8 endpoint).take endpoint.length ++
      contents endpoint.length :: credentials).length < 65536 := by
    rw [length_append, length_take, length_cons]
    omega
  constructor
  · rintro ⟨request, sent, taken⟩
    apply fits_of_dispatchLogin noZero length
    intro around
    obtain ⟨payload, rest, next, parsed⟩ := taken [] around
    rw [sendLoginRequest_eq] at sent
    injection sent with sent
    obtain ⟨other, same⟩ := game_next ⟨loginRequest, _⟩ fits []
    rw [← sent, same] at next
    injection next with next
    injection next with next _
    injection next with next _
    injection next with _ _ next
    rwa [← next] at parsed
  · intro fitting
    refine ⟨_, sendLoginRequest_eq contents endpoint credentials, ?_⟩
    intro more around
    obtain ⟨rest, next⟩ := game_next ⟨loginRequest, _⟩ fits more
    exact ⟨_, rest, next, dispatchLogin_of_fits fitting noZero around⟩

/-- A session goes well exactly when its actions do, and a login request is parsed exactly when it
fits. -/
theorem session_and_login_iff (contents : Nat → UInt8) :
    (∀ (frames : List Frame) (started receiver : Receiver) (trace : List (Action × Unit)),
      (∀ frame ∈ frames, frame.payload.length < 65536) → Started frames started →
        Run (receiverStep contents) anyAction started trace receiver →
        (Received frames receiver ↔ Run (receiverStep contents) Allowed started trace receiver)) ∧
    ∀ (endpoint : List Char) (credentials : Bytes), (∀ character ∈ endpoint, character ≠ '\x00') →
      (stringToUtf8 endpoint).length + 1 + credentials.length ≤ 65535 →
      (LoginParsed contents endpoint credentials ↔ LoginFits contents endpoint credentials) :=
  ⟨fun _ _ _ _ fits start run => received_iff_allowed fits start run,
    fun _ _ noZero length => loginParsed_iff noZero length⟩

/-- A client whose server has sent it one message. -/
def awaiting : Receiver where
  client :=
    { connected := true
      disconnectAcknowledged := false
      buffer := makeBytevector (fun _ => 0) maxBufferSize
      bufferOffset := 0
      received := []
      disconnections := 0 }
  socket := Frame.bytes ⟨sessionMessage, [7]⟩
  rounds := 0
  pump := none
  failed := none

theorem awaiting_wellFormed : WellFormed awaiting.client where
  size := by
    rw [awaiting, length_makeBytevector]
  inside := Nat.zero_le maxBufferSize

theorem awaiting_started : Started [⟨sessionMessage, [7]⟩] awaiting where
  failed := rfl
  rounds := rfl
  wellFormed := awaiting_wellFormed
  connected := rfl
  received := rfl
  stream := by
    rw [Client.filled, awaiting, take_zero, flatMap_singleton, nil_append]

theorem session_and_login_iff_one_message :
    Received [⟨sessionMessage, [7]⟩] (awaiting.round (fun _ => 0) 3 (0, 10)) ∧
      LoginParsed (fun _ => 0) ['t', 'e', 's', 't'] [1, 2] := by
  have below : ∀ frame ∈ [(⟨sessionMessage, [7]⟩ : Frame)], frame.payload.length < 65536 := by
    intro frame member
    cases mem_singleton.mp member
    decide
  have taken : receiverStep (fun _ => 0) awaiting (.round 3 (0, 10)) =
      some (awaiting.round (fun _ => 0) 3 (0, 10), ()) := rfl
  have room : Allowed awaiting (.round 3 (0, 10)) := by
    apply awaiting_started.underway.delivered.fits
    intro frame member
    cases mem_singleton.mp member
    decide
  constructor
  · exact ((session_and_login_iff fun _ => 0).1 _ awaiting _ _ below awaiting_started
      (Run.nil.snoc trivial taken)).mpr (Run.nil.snoc room taken)
  · apply ((session_and_login_iff fun _ => 0).2 ['t', 'e', 's', 't'] [1, 2]
      (by simp) (by decide)).mpr
    exact ⟨by simp, rfl, by decide, .inr (by decide)⟩

/-- Nothing is dispatched when the first byte has come. -/
theorem round_one_byte (contents : Nat → UInt8) {receiver : Receiver} (elapsed : Timeout)
    (connected : receiver.client.connected = true) (empty : receiver.client.bufferOffset = 0)
    (waits : receiver.socket ≠ []) :
    (receiver.round contents 0 elapsed).client.received = receiver.client.received := by
  have early : dispatchable receiver.client = some false := by
    simp [dispatchable, connected, empty]
  have one : (receiver.socket.take (min chunkSize 1)).length = 1 := by
    rw [length_take]
    exact Nat.min_eq_left (length_pos_iff.mpr waits)
  have frame (after : Receiver) : (after.elapse elapsed).client = after.client := by
    unfold Receiver.elapse
    split <;> rfl
  unfold Receiver.round
  split
  next => rfl
  next client socket took =>
    simp only [takeRound, early, if_neg waits, protocolRead, Nat.zero_add, one, empty] at took
    cases copied :
      copyRange (receiver.socket.take (min chunkSize 1)) 0 receiver.client.buffer 0 1 with
    | none =>
      rw [copied] at took
      cases took
    | some buffer =>
      rw [copied] at took
      simp [dispatchable, connected] at took
      rw [frame, ← took.1]

theorem failed_stuck (contents : Nat → UInt8) {receiver : Receiver}
    (failed : receiver.failed ≠ none) (action : Action) :
    receiverStep contents receiver action = none := by
  cases action <;> simp [receiverStep, failed]

/-- A round of `gzochi:pump-events` without a timeout raises an error before the message is there,
and an endpoint that is not ASCII is cut off. -/
theorem untimed_pump_fails : (∃ (trace : List (Action × Unit)) (receiver : Receiver),
      Run (receiverStep fun _ => 0) anyAction awaiting trace receiver ∧
        receiver.client.received = [] ∧
        (∀ action, receiverStep (fun _ => 0) receiver action = none) ∧
        ¬Received [⟨sessionMessage, [7]⟩] receiver) ∧
    ¬LoginParsed (fun _ => 0) ['é'] [1, 2] := by
  constructor
  · have called : receiverStep (fun _ => 0) awaiting (.pumpEvents none none) =
        some ({ awaiting with pump := some none }, ()) := rfl
    have taken : receiverStep (fun _ => 0) { awaiting with pump := some none } (.round 0 (0, 10)) =
        some (Receiver.round (fun _ => 0) { awaiting with pump := some none } 0 (0, 10), ()) := rfl
    have quiet : (Receiver.round (fun _ => 0) { awaiting with pump := some none } 0
        (0, 10)).client.received = [] :=
      round_one_byte _ _ rfl rfl (cons_ne_nil _ _)
    have failed : (Receiver.round (fun _ => 0) { awaiting with pump := some none } 0
        (0, 10)).failed ≠ none := round_untimed rfl _
    refine ⟨_, _, (Run.nil.snoc trivial called).snoc trivial taken, quiet, ?_, ?_⟩
    · exact fun action => failed_stuck _ failed action
    · intro received
      exact failed received.1
  · intro parsed
    have fits := (loginParsed_iff (by simp) (by decide)).mp parsed
    have ascii := fits.ascii 'é' (mem_singleton.mpr rfl)
    revert ascii
    decide

end Gzochi.GuileClient
