import Gzochi.Relay.Deliveries

/-!
# The life of a client socket

The main loop calls `dispatch_client` with the conditions that a socket is ready for until that
returns `FALSE`, which takes the read watch off.  What comes with the end of the stream is not
dispatched, and neither a failing read nor two conditions at once get to the error handler.
-/

namespace Gzochi.Socket

open Gzochi.DataClient (Bytes)
open Gzochi.Lib

universe u

variable {Result : Type u}

/-- The flags of a `GIOCondition`. -/
def gIoIn : Nat := 1
def gIoPri : Nat := 2
def gIoErr : Nat := 8
def gIoHup : Nat := 16

/-- `GIOStatus`; a read that sets `error` has the status `error`. -/
inductive Status
  | normal
  | again
  | eof
  | error
deriving DecidableEq

/-- The condition the main loop reports, and what `g_io_channel_read_chars` gives then. -/
structure Readiness where
  condition : Nat
  reads : List (Bytes × Status)

/-- `gzochid_client_socket`, with what its protocol has dispatched and the number of calls of
its error handler. -/
structure ClientSocket (Result : Type u) where
  recvBuffer : Bytes := []
  results : List Result := []
  errors : Nat := 0
  watched : Bool := true

/-- `dispatch_client_error`. -/
def dispatchClientError (sock : ClientSocket Result) : Bool × ClientSocket Result :=
  (false, { sock with errors := sock.errors + 1 })

/-- `fill_recv_buffer`.  At the end of the list there is nothing to read for now. -/
def fillRecvBuffer (sock : ClientSocket Result) :
    List (Bytes × Status) → Bool × ClientSocket Result
  | [] => (true, sock)
  | (bytes, status) :: reads =>
      let filled := { sock with recvBuffer := sock.recvBuffer ++ bytes }
      match status with
      | .normal => fillRecvBuffer filled reads
      | .again => (true, filled)
      | .eof => dispatchClientError filled
      | .error => (false, filled)

/-- `dispatch_client_read`. -/
def dispatchClientRead (callbacks : Callbacks Result) (sock : ClientSocket Result)
    (reads : List (Bytes × Status)) : Bool × ClientSocket Result :=
  match fillRecvBuffer sock reads with
  | (true, filled) =>
      let (results, buffer) := callbacks.read filled.recvBuffer
      (true, { filled with recvBuffer := buffer, results := filled.results ++ results })
  | (false, filled) => (false, filled)

/-- `dispatch_client`. -/
def dispatchClient (callbacks : Callbacks Result) (sock : ClientSocket Result)
    (ready : Readiness) : Bool × ClientSocket Result :=
  if ready.condition = gIoIn ∨ ready.condition = gIoPri then
    dispatchClientRead callbacks sock ready.reads
  else if ready.condition = gIoErr ∨ ready.condition = gIoHup then dispatchClientError sock
  else (false, sock)

/-- The bytes that get to the buffer, and the status of the last read. -/
def filling : List (Bytes × Status) → Bytes × Status
  | [] => ([], .again)
  | (bytes, .normal) :: reads => (bytes ++ (filling reads).1, (filling reads).2)
  | (bytes, status) :: _ => (bytes, status)

/-- One call from the main loop, with the bytes it receives. -/
def ClientSocket.step (callbacks : Callbacks Result) (sock : ClientSocket Result)
    (ready : Readiness) : Option (ClientSocket Result × Bytes) :=
  if sock.watched then
    let (kept, next) := dispatchClient callbacks sock ready
    let read := ready.condition = gIoIn ∨ ready.condition = gIoPri
    some ({ next with watched := kept }, if read then (filling ready.reads).1 else [])
  else none

/-- What was received as a whole is dispatched, and the error handler was called once if the
read watch is gone. -/
structure Served (callbacks : Callbacks Result) (received : List Bytes)
    (sock : ClientSocket Result) : Prop where
  dispatched : callbacks.receive received = (sock.results, sock.recvBuffer)
  exhausted : callbacks.rounds.next sock.recvBuffer = none
  reported : sock.errors = if sock.watched then 0 else 1

/-- There is one condition only, no read fails, and nothing can be dispatched when the stream
ends. -/
def Orderly (callbacks : Callbacks Result) (sock : ClientSocket Result) (ready : Readiness) :
    Prop :=
  if ready.condition = gIoIn ∨ ready.condition = gIoPri then
    (filling ready.reads).2 ≠ .error ∧
      ((filling ready.reads).2 = .eof →
        callbacks.rounds.next (sock.recvBuffer ++ (filling ready.reads).1) = none)
  else ready.condition = gIoErr ∨ ready.condition = gIoHup

variable {callbacks : Callbacks Result} {sock : ClientSocket Result} {received : List Bytes}

theorem fillRecvBuffer_eq (sock : ClientSocket Result) (reads : List (Bytes × Status)) :
    fillRecvBuffer sock reads =
      let filled := { sock with recvBuffer := sock.recvBuffer ++ (filling reads).1 }
      match (filling reads).2 with
      | .eof => dispatchClientError filled
      | .error => (false, filled)
      | .normal | .again => (true, filled) := by
  induction reads generalizing sock with
  | nil => simp [fillRecvBuffer, filling]
  | cons read reads ih =>
    obtain ⟨bytes, status⟩ := read
    cases status with
    | normal => simp only [fillRecvBuffer, ih, filling, List.append_assoc]
    | again | eof | error => rfl

variable (served : Served callbacks received sock)
include served

/-- One more read of the stream. -/
theorem Served.read (bytes : Bytes) {errors : Nat}
    {watched : Bool} (reported : errors = if watched then 0 else 1) :
    Served callbacks (received ++ [bytes]) ⟨(callbacks.read (sock.recvBuffer ++ bytes)).2,
        sock.results ++ (callbacks.read (sock.recvBuffer ++ bytes)).1, errors, watched⟩ where
  dispatched := by
    have before := served.dispatched
    unfold Callbacks.receive at before ⊢
    rw [List.foldl_append, before]
    rfl
  exhausted := Framing.next_remainder _
  reported := reported

/-- A read that lets nothing be dispatched. -/
theorem Served.idle {bytes : Bytes} {errors : Nat}
    {watched : Bool} (ended : callbacks.rounds.next (sock.recvBuffer ++ bytes) = none)
    (reported : errors = if watched then 0 else 1) :
    Served callbacks (received ++ [bytes])
      ⟨sock.recvBuffer ++ bytes, sock.results, errors, watched⟩ := by
  have nothing : callbacks.read (sock.recvBuffer ++ bytes) = ([], sock.recvBuffer ++ bytes) := by
    unfold Callbacks.read
    rw [Framing.frames_none ended]
    rfl
  have read := served.read bytes reported
  rwa [nothing, List.append_nil] at read

theorem Served.step {ready : Readiness}
    (orderly : Orderly callbacks sock ready) {next : ClientSocket Result} {bytes : Bytes}
    (taken : sock.step callbacks ready = some (next, bytes)) :
    Served callbacks (received ++ [bytes]) next := by
  unfold ClientSocket.step at taken
  obtain ⟨watched, taken⟩ := Option.ite_none_right_eq_some.mp taken
  have quiet : sock.errors = 0 := by rw [served.reported, if_pos watched]
  simp only [Option.some.injEq, Prod.mk.injEq] at taken
  obtain ⟨rfl, rfl⟩ := taken
  unfold dispatchClient
  unfold Orderly at orderly
  split at orderly
  next readable =>
    simp only [if_pos readable, dispatchClientRead, fillRecvBuffer_eq]
    cases status : (filling ready.reads).2 with
    | normal | again => exact served.read _ quiet
    | eof => exact served.idle (orderly.2 status) (congrArg (· + 1) quiet)
    | error => exact absurd status orderly.1
  next unreadable =>
    rw [if_neg unreadable, if_neg unreadable, if_pos orderly]
    have ended : callbacks.rounds.next (sock.recvBuffer ++ []) = none := by
      rw [List.append_nil]
      exact served.exhausted
    have reported : sock.errors + 1 = if false then 0 else 1 := congrArg (· + 1) quiet
    have idle := served.idle ended reported
    rwa [List.append_nil] at idle

omit served

/-- Whatever a socket is ready for, as long as its events are orderly. -/
theorem connection_served {trace : List (Readiness × Bytes)}
    (run : Run (ClientSocket.step callbacks) (Orderly callbacks) {} trace sock) :
    Served callbacks (trace.map Prod.snd) sock ∧
      ∀ {kind result frames unread}, callbacks.Takes kind result → (∀ frame ∈ frames, kind frame) →
        (trace.map Prod.snd).flatten ++ unread = frames.flatMap Frame.bytes →
        ∃ done pending rest,
          Callbacks.Start frames done pending (trace.map Prod.snd).flatten rest unread ∧
            sock.results = done.map result ∧ sock.recvBuffer = rest := by
  have served : Served callbacks (trace.map Prod.snd) sock := by
    refine run.invariant (fun trace sock => Served callbacks (trace.map Prod.snd) sock)
      ⟨rfl, rfl, rfl⟩ ?_
    intro trace state ready next bytes _ served orderly taken
    rw [List.map_append]
    exact served.step orderly taken
  refine ⟨served, ?_⟩
  intro kind result frames unread takes kinds stream
  obtain ⟨done, pending, rest, start, same⟩ := takes.receive_stream kinds stream
  rw [served.dispatched] at same
  obtain ⟨results, buffer⟩ := Prod.mk.inj same
  exact ⟨done, pending, rest, start, results, buffer⟩

/-- A message to the client of the data server. -/
def lastMessage : Frame := ⟨0x50, [1]⟩

theorem connection_served_until_hup : Served Relay.metaclient [lastMessage.bytes, []]
      ⟨[], [Relay.metaclientEvent lastMessage], 1, false⟩ := by
  have short : ∀ frame ∈ [lastMessage], Relay.Short frame := by simp [Relay.Short, lastMessage]
  have dispatched : Relay.metaclient.receive [lastMessage.bytes] =
      ([Relay.metaclientEvent lastMessage], []) :=
    Relay.metaclient_takes.receive_all short rfl
  have taken : ClientSocket.step Relay.metaclient {} ⟨gIoIn, [(lastMessage.bytes, .normal)]⟩ =
      some (⟨[], [Relay.metaclientEvent lastMessage], 0, true⟩, lastMessage.bytes) :=
    congrArg (fun results : List Event × Bytes =>
      some ((⟨results.2, results.1, 0, true⟩ : ClientSocket Event), lastMessage.bytes)) dispatched
  have hungUp : Orderly Relay.metaclient ⟨[], [Relay.metaclientEvent lastMessage], 0, true⟩
      ⟨gIoHup, []⟩ := Or.inr rfl
  exact (connection_served ((Run.nil.snoc ⟨nofun, nofun⟩ taken).snoc hungUp rfl)).1

theorem last_message_lost : ¬ ∀ {trace : List (Readiness × Bytes)} {sock : ClientSocket Event},
      Run (ClientSocket.step Relay.metaclient) anyAction {} trace sock →
        Served Relay.metaclient (trace.map Prod.snd) sock := by
  intro always
  have ended : Run (ClientSocket.step Relay.metaclient) anyAction {}
      [(⟨gIoIn, [(lastMessage.bytes, .eof)]⟩, lastMessage.bytes)]
      ⟨lastMessage.bytes, [], 1, false⟩ :=
    Run.nil.snoc trivial rfl
  have left := (always ended).exhausted
  cases left

end Gzochi.Socket
