import Gzochi.Socket.Dispatch

/-!
# Requests of a node to the data server

A node asks the meta server for values and keys, and gives back its locks, in messages that
start with the names of an application and a store.  Keys come after a length of two bytes; two
zeros in the place of a bound of a range stand for the end of the key space.  The meta server
does not accept a message without the names.
-/

namespace Gzochi.DataServer

open Gzochi.DataClient (Bytes Name writeShort writeBytes writeStr readStr readBytes formatMessage
  readStr_writeStr readBytes_writeBytes readBytes_zero)
open Gzochi.Lib List
open Gzochi.Socket (Event Frame Protocol stream Dispatchable)

inductive Operation where
  | requestValue (key : Bytes) (forWrite : Bool)
  | requestNextKey (key : Option Bytes)
  | releaseKey (key : Bytes)
  | releaseKeyRange (lower upper : Option Bytes)
  deriving DecidableEq

/-- What is asked of the data server, for a store of an application. -/
structure Request where
  app : Bytes
  store : Bytes
  operation : Operation
  deriving DecidableEq

/-- `GZOCHID_DATA_PROTOCOL_REQUEST_VALUE`. -/
def requestValueOpcode : UInt8 := 0x21

/-- `GZOCHID_DATA_PROTOCOL_REQUEST_NEXT_KEY`. -/
def requestNextKeyOpcode : UInt8 := 0x22

/-- `GZOCHID_DATA_PROTOCOL_RELEASE_KEY`. -/
def releaseKeyOpcode : UInt8 := 0x40

/-- `GZOCHID_DATA_PROTOCOL_RELEASE_KEY_RANGE`. -/
def releaseKeyRangeOpcode : UInt8 := 0x42

/-- `write_nullable_bytes`. -/
def writeNullableBytes : Option Bytes → Bytes
  | some key => writeBytes key
  | none => [0, 0]

/-- The payload of `gzochid_dataclient_request_value`. -/
def requestValue (app store key : Bytes) (forWrite : Bool) : Bytes :=
  writeStr app ++ (writeStr store ++ ((if forWrite then 1 else 0) :: writeBytes key))

/-- The payload of `gzochid_dataclient_request_next_key`. -/
def requestNextKey (app store : Bytes) (key : Option Bytes) : Bytes :=
  writeStr app ++ (writeStr store ++ writeNullableBytes key)

/-- The payload of `gzochid_dataclient_release_key`. -/
def releaseKey (app store key : Bytes) : Bytes :=
  writeStr app ++ (writeStr store ++ writeBytes key)

/-- The payload of `gzochid_dataclient_release_key_range`. -/
def releaseKeyRange (app store : Bytes) (lower upper : Option Bytes) : Bytes :=
  writeStr app ++ (writeStr store ++ (writeNullableBytes lower ++ writeNullableBytes upper))

/-- The opcode and the payload of the message for a request. -/
def Request.frame (request : Request) : Frame :=
  match request.operation with
  | .requestValue key forWrite =>
      ⟨requestValueOpcode, requestValue request.app request.store key forWrite⟩
  | .requestNextKey key =>
      ⟨requestNextKeyOpcode, requestNextKey request.app request.store key⟩
  | .releaseKey key => ⟨releaseKeyOpcode, releaseKey request.app request.store key⟩
  | .releaseKeyRange lower upper =>
      ⟨releaseKeyRangeOpcode, releaseKeyRange request.app request.store lower upper⟩

/-- The message that the data client writes to its socket. -/
def Request.message (request : Request) : Bytes :=
  formatMessage request.frame.opcode request.frame.payload

/-- The names at the start of a message, with what follows them; each of them is there. -/
def readNames (data : Bytes) : Option (Bytes × Bytes × Bytes) :=
  match readStr data with
  | none => none
  | some (app, afterApp) =>
      if app = [] then none
      else
        match readStr afterApp with
        | none => none
        | some (store, rest) => if store = [] then none else some (app, store, rest)

/-- A key, or nothing in the place of two zeros. -/
def nullable (key : Bytes) : Option Bytes := if key = [] then none else some key

/-- `dispatch_request_value`, up to the call of the data server. -/
def dispatchRequestValue (data : Bytes) : Option Request :=
  match readNames data with
  | none => none
  | some (app, store, rest) =>
      match rest with
      | [] => none
      | flag :: rest =>
          (readBytes rest).map fun read => ⟨app, store, .requestValue read.1 (flag = 1)⟩

/-- `dispatch_request_next_key`, up to the call of the data server. -/
def dispatchRequestNextKey (data : Bytes) : Option Request :=
  match readNames data with
  | none => none
  | some (app, store, rest) =>
      (readBytes rest).map fun read => ⟨app, store, .requestNextKey (nullable read.1)⟩

/-- `dispatch_release_key`, up to the call of the data server. -/
def dispatchReleaseKey (data : Bytes) : Option Request :=
  match readNames data with
  | none => none
  | some (app, store, rest) => (readBytes rest).map fun read => ⟨app, store, .releaseKey read.1⟩

/-- `dispatch_release_key_range`, up to the call of the data server. -/
def dispatchReleaseKeyRange (data : Bytes) : Option Request :=
  match readNames data with
  | none => none
  | some (app, store, rest) =>
      match readBytes rest with
      | none => none
      | some (lower, rest) =>
          (readBytes rest).map fun read =>
            ⟨app, store, .releaseKeyRange (nullable lower) (nullable read.1)⟩

/-- The cases of `dispatch_message` with these requests. -/
def dispatchMessage (opcode : UInt8) (payload : Bytes) : Option Request :=
  if opcode = requestValueOpcode then dispatchRequestValue payload
  else if opcode = requestNextKeyOpcode then dispatchRequestNextKey payload
  else if opcode = releaseKeyOpcode then dispatchReleaseKey payload
  else if opcode = releaseKeyRangeOpcode then dispatchReleaseKeyRange payload
  else none

/-- What the data server does with a message that the meta server has taken off a socket. -/
def requestOf : Event → Option Request
  | .message (.ofComponent .dataserver) opcode payload => dispatchMessage opcode payload
  | _ => none

/-- The keys of a request. -/
def Operation.keys : Operation → List Bytes
  | .requestValue key _ | .releaseKey key => [key]
  | .requestNextKey key => key.toList
  | .releaseKeyRange lower upper => lower.toList ++ upper.toList

/-- The request as it is read: a bound of no bytes is none. -/
def Operation.asRead : Operation → Operation
  | .requestValue key forWrite => .requestValue key forWrite
  | .requestNextKey key => .requestNextKey (key.filter (· ≠ []))
  | .releaseKey key => .releaseKey key
  | .releaseKeyRange lower upper =>
      .releaseKeyRange (lower.filter (· ≠ [])) (upper.filter (· ≠ []))

def Request.asRead (request : Request) : Request :=
  { request with operation := request.operation.asRead }

/-- A request that the data server does not reject. -/
def Request.Named (request : Request) : Prop := request.app ≠ [] ∧ request.store ≠ []

instance (request : Request) : Decidable request.Named := inferInstanceAs (Decidable (_ ∧ _))

/-- A request that can be written: the names are strings of C and the lengths of the keys are
positive as a `short`. -/
structure Request.Writable (request : Request) : Prop where
  app : 0 ∉ request.app
  store : 0 ∉ request.store
  keys : ∀ key ∈ request.operation.keys, key.length < 32768

variable {request : Request}

variable {app store : Bytes}

theorem readNames_written (appTerminated : 0 ∉ app) (storeTerminated : 0 ∉ store) (rest : Bytes) :
    readNames (writeStr app ++ (writeStr store ++ rest)) =
      if app ≠ [] ∧ store ≠ [] then some (app, store, rest) else none := by
  unfold readNames
  rw [readStr_writeStr appTerminated]
  by_cases noApp : app = []
  · simp [noApp]
  · simp only [noApp, if_false, readStr_writeStr storeTerminated]
    by_cases noStore : store = []
    · simp [noStore]
    · simp [noApp, noStore]

variable {key : Bytes}

theorem readBytes_written (short : key.length < 32768) :
    readBytes (writeBytes key) = some (key, []) := by
  have read := readBytes_writeBytes short []
  rwa [append_nil] at read

theorem readBytes_nullable {key : Option Bytes} (short : ∀ bytes ∈ key, bytes.length < 32768)
    (rest : Bytes) :
    readBytes (writeNullableBytes key ++ rest) = some (key.getD [], rest) := by
  cases key with
  | none => exact readBytes_zero rest
  | some key => exact readBytes_writeBytes (short key rfl) rest

theorem nullable_getD (key : Option Bytes) : nullable (key.getD []) = key.filter (· ≠ []) := by
  cases key with
  | none => rfl
  | some key =>
    unfold nullable
    by_cases empty : key = []
    · simp [empty, Option.filter]
    · simp [empty, Option.filter]

variable (names : 0 ∉ app ∧ 0 ∉ store)
include names

theorem dispatchRequestValue_written {forWrite : Bool} (short : key.length < 32768) :
    dispatchRequestValue (requestValue app store key forWrite) =
      if app ≠ [] ∧ store ≠ [] then some ⟨app, store, .requestValue key forWrite⟩ else none := by
  unfold dispatchRequestValue requestValue
  rw [readNames_written names.1 names.2]
  by_cases named : app ≠ [] ∧ store ≠ []
  · simp only [if_pos named, readBytes_written short, Option.map_some]
    cases forWrite with
    | true => rfl
    | false => rfl
  · simp only [if_neg named]

theorem dispatchRequestNextKey_written {key : Option Bytes}
    (short : ∀ bytes ∈ key, bytes.length < 32768) :
    dispatchRequestNextKey (requestNextKey app store key) =
      if app ≠ [] ∧ store ≠ [] then some ⟨app, store, .requestNextKey (key.filter (· ≠ []))⟩
      else none := by
  have read := readBytes_nullable short []
  rw [append_nil] at read
  unfold dispatchRequestNextKey requestNextKey
  rw [readNames_written names.1 names.2]
  by_cases named : app ≠ [] ∧ store ≠ []
  · simp only [if_pos named, read, Option.map_some, nullable_getD]
  · simp only [if_neg named]

theorem dispatchReleaseKey_written (short : key.length < 32768) :
    dispatchReleaseKey (releaseKey app store key) =
      if app ≠ [] ∧ store ≠ [] then some ⟨app, store, .releaseKey key⟩ else none := by
  unfold dispatchReleaseKey releaseKey
  rw [readNames_written names.1 names.2]
  by_cases named : app ≠ [] ∧ store ≠ []
  · simp only [if_pos named, readBytes_written short, Option.map_some]
  · simp only [if_neg named]

theorem dispatchReleaseKeyRange_written {lower upper : Option Bytes}
    (shortLower : ∀ bytes ∈ lower, bytes.length < 32768)
    (shortUpper : ∀ bytes ∈ upper, bytes.length < 32768) :
    dispatchReleaseKeyRange (releaseKeyRange app store lower upper) =
      if app ≠ [] ∧ store ≠ [] then
        some ⟨app, store, .releaseKeyRange (lower.filter (· ≠ [])) (upper.filter (· ≠ []))⟩
      else none := by
  have read := readBytes_nullable shortUpper []
  rw [append_nil] at read
  unfold dispatchReleaseKeyRange releaseKeyRange
  rw [readNames_written names.1 names.2]
  by_cases named : app ≠ [] ∧ store ≠ []
  · simp only [if_pos named, readBytes_nullable shortLower, read, Option.map_some, nullable_getD]
  · simp only [if_neg named]

omit names

theorem dispatchMessage_frame (writable : request.Writable) :
    dispatchMessage request.frame.opcode request.frame.payload =
      if request.Named then some request.asRead else none := by
  obtain ⟨app, store, operation⟩ := request
  have names := And.intro writable.app writable.store
  have short := writable.keys
  cases operation with
  | requestValue key forWrite =>
    exact dispatchRequestValue_written names (short key mem_cons_self)
  | requestNextKey key =>
    exact dispatchRequestNextKey_written names fun bytes present =>
      short bytes (Option.mem_toList.mpr present)
  | releaseKey key => exact dispatchReleaseKey_written names (short key mem_cons_self)
  | releaseKeyRange lower upper =>
    apply dispatchReleaseKeyRange_written names
    · exact fun bytes present => short bytes (mem_append_left _ (Option.mem_toList.mpr present))
    · exact fun bytes present => short bytes (mem_append_right _ (Option.mem_toList.mpr present))

/-- The meta server hands these messages to the data server. -/
theorem event_frame (request : Request) : Protocol.metaserver.event request.frame =
      .message (.ofComponent .dataserver) request.frame.opcode request.frame.payload := by
  obtain ⟨app, store, operation⟩ := request
  cases operation <;> rfl

theorem message_bytes (request : Request) : request.message = request.frame.bytes := by
  unfold Request.message formatMessage Frame.bytes
  rw [append_assoc]
  rfl

theorem dispatchable_written {frames : List Frame}
    (fits : ∀ frame ∈ frames, frame.payload.length < 65535) :
    Dispatchable (frames.flatMap Frame.bytes) := by
  have parts : stream.frames (frames.flatMap Frame.bytes) = (frames, []) :=
    Socket.stream_frames_written fun frame member =>
      Nat.lt_trans (fits frame member) (Nat.lt_succ_self _)
  unfold Dispatchable
  rw [parts]
  exact ⟨fun frame member => Nat.ne_of_lt (fits frame member), .inr rfl⟩

/-- Whatever requests a node sends and however the meta server reads them from the socket, the
data server takes each of them as it has been sent, with no bound in the place of a bound of no
bytes; a request without the names is rejected. -/
theorem requests_decoded (requests : List Request) (reads : List Bytes)
    (sent : reads.flatten = requests.flatMap Request.message)
    (fits : ∀ request ∈ requests, request.frame.payload.length < 65535)
    (writable : ∀ request ∈ requests, (0 ∉ request.app ∧ 0 ∉ request.store) ∧
      ∀ key ∈ request.operation.keys, key.length < 32768) :
    (Protocol.metaserver.receive reads).1.map requestOf = requests.map fun request =>
        if request.app ≠ [] ∧ request.store ≠ [] then some request.asRead else none := by
  have stream_ : reads.flatten = (requests.map Request.frame).flatMap Frame.bytes := by
    rw [sent, flatMap_map]
    apply flatMap_congr
    exact fun request _ => message_bytes request
  have short : ∀ frame ∈ requests.map Request.frame, frame.payload.length < 65535 := by
    intro frame member
    obtain ⟨request, inside, rfl⟩ := mem_map.mp member
    exact fits request inside
  have dispatchable : Dispatchable reads.flatten := stream_ ▸ dispatchable_written short
  have parts : stream.frames reads.flatten = (requests.map Request.frame, []) := by
    rw [stream_]
    exact Socket.stream_frames_written fun frame member =>
      Nat.lt_trans (short frame member) (Nat.lt_succ_self _)
  rw [Socket.receive_eq dispatchable, parts, map_map, map_map]
  apply map_congr_left
  intro request member
  obtain ⟨names, keys⟩ := writable request member
  show requestOf (Protocol.metaserver.event request.frame) = _
  rw [event_frame]
  exact dispatchMessage_frame ⟨names.1, names.2, keys⟩

/-- A request for a value and one for a range, for stores of one application. -/
def twoRequests : List Request :=
  [⟨[99], [111], .requestValue [7] true⟩, ⟨[99], [110], .releaseKeyRange (some [1]) none⟩]

theorem requests_decoded_two :
    (Protocol.metaserver.receive [twoRequests.flatMap Request.message]).1.map requestOf =
      twoRequests.map some :=
  requests_decoded twoRequests [twoRequests.flatMap Request.message] (by decide) (by decide)
    (by decide)

/-- An application without a name is rejected, and so is a store; a bound of no bytes is read as
none. -/
theorem empty_fields_not_decoded :
    (∀ request ∈ [⟨[], [111], .releaseKey [7]⟩, ⟨[99], [], .releaseKey [7]⟩,
        ⟨[99], [111], .requestNextKey (some [])⟩], request.message.length ≤ 65535 ∧
      (Protocol.metaserver.receive [request.message]).1.map requestOf ≠ [some request]) ∧
    (Protocol.metaserver.receive
        [Request.message ⟨[99], [111], .requestNextKey (some [])⟩]).1.map requestOf =
      [some ⟨[99], [111], .requestNextKey none⟩] := by
  constructor
  · decide +kernel
  · decide +kernel

end Gzochi.DataServer
