import Gzochi.Lib.Copying
import Gzochi.Socket.Receiving

/-!
# The receive loop of the Guile client

The client keeps what it has read in the front of a bytevector of fixed size.  The messages are
taken off it from the front, by shifting the rest down.  The rounds of the main loop and of
`gzochi:pump-events` are the same: the client reads unless there is something to dispatch, and
then dispatches all that is there.

An error of a bytevector procedure is modelled by the absence of a result.
-/

namespace Gzochi.GuileClient

open Gzochi.DataClient (Bytes)
open Gzochi.Lib
open Gzochi.Socket (Frame)

/-- `gzochi:protocol/login-success`. -/
def loginSuccess : UInt8 := 0x11

/-- `gzochi:protocol/login-failure`. -/
def loginFailure : UInt8 := 0x12

/-- `gzochi:protocol/session-disconnected`. -/
def sessionDisconnected : UInt8 := 0x30

/-- `gzochi:protocol/session-message`. -/
def sessionMessage : UInt8 := 0x31

/-- `chunk-size`. -/
def chunkSize : Nat := 512

/-- `max-buffer-size`. -/
def maxBufferSize : Nat := 65538

/-- `make-bytevector` without a fill; `contents` is what happens to be in its memory. -/
def makeBytevector (contents : Nat → UInt8) (length : Nat) : Bytes :=
  (List.range length).map contents

/-- `read-short`, which is `bytevector-u16-ref` for big-endian numbers. -/
def readShort (bv : Bytes) (off : Nat) : Option Nat :=
  match bv.drop off with
  | high :: low :: _ => some (high.toNat * 256 + low.toNat)
  | _ => none

/-- `bytevector-u8-set!`. -/
def bytevectorSet (bv : Bytes) (off : Nat) (value : UInt8) : Option Bytes :=
  if off < bv.length then some (bv.set off value) else none

/-- `bytevector-shift!`. -/
def bytevectorShift (contents : Nat → UInt8) (bv : Bytes) (start stop len : Nat)
    (fill : UInt8) : Option Bytes :=
  match copyRange bv start bv stop len with
  | none => none
  | some bv =>
      if 1 < len then
        let diff := ((start : Int) - stop).natAbs
        let flen := min diff len
        copyRange (makeBytevector contents flen) 0 bv
          (if start < stop then start else start + len - flen) flen
      else if start ≠ stop then
        match bv[start]? with
        | none => none
        | some value => (bytevectorSet bv stop value).bind fun bv => bytevectorSet bv start fill
      else some bv

/-- `gzochi:client`, with the calls of its callbacks. -/
structure Client where
  connected : Bool
  disconnectAcknowledged : Bool
  buffer : Bytes
  bufferOffset : Nat
  received : List Bytes
  disconnections : Nat
  deriving DecidableEq

/-- `dispatch-session-message`. -/
def dispatchSessionMessage (client : Client) (message : Bytes) : Client :=
  { client with received := client.received ++ [message] }

/-- `dispatch-disconnect`. -/
def dispatchDisconnect (client : Client) : Client :=
  let closed := { client with connected := false }
  if closed.disconnectAcknowledged = false then
    { closed with
      disconnectAcknowledged := true
      disconnections := closed.disconnections + 1 }
  else closed

/-- `dispatch-inner`. -/
def dispatchInner (client : Client) (opcode : UInt8) (message : Bytes) : Client :=
  if opcode = loginSuccess then client
  else if opcode = sessionMessage then dispatchSessionMessage client message
  else if opcode = loginFailure ∨ opcode = sessionDisconnected then dispatchDisconnect client
  else client

@[simp] theorem dispatchInner_buffer (client : Client) (opcode : UInt8) (message : Bytes) :
    (dispatchInner client opcode message).buffer = client.buffer := by
  unfold dispatchInner dispatchSessionMessage dispatchDisconnect
  grind

@[simp] theorem dispatchInner_bufferOffset (client : Client) (opcode : UInt8) (message : Bytes) :
    (dispatchInner client opcode message).bufferOffset = client.bufferOffset := by
  unfold dispatchInner dispatchSessionMessage dispatchDisconnect
  grind

/-- The loop of `attempt-dispatch`, up to where it does not continue. -/
def attemptLoop (contents : Nat → UInt8) (all : Bool) (client : Client)
    (offset dispatched : Nat) : Option (Client × Nat × Nat) :=
  if client.connected = false then some (dispatchDisconnect client, offset, dispatched)
  else if client.bufferOffset < offset + 3 then some (client, offset, dispatched)
  else
    match readShort client.buffer offset with
    | none => none
    | some len =>
        if client.bufferOffset < offset + (len + 3) then some (client, offset, dispatched)
        else
          match client.buffer[offset + 2]?,
            copyRange client.buffer (offset + 3) (makeBytevector contents len) 0 len with
          | some op, some message =>
              let next := dispatchInner client op message
              if all then attemptLoop contents all next (offset + 3 + len) (dispatched + 1)
              else some (next, offset + 3 + len, dispatched + 1)
          | _, _ => none
termination_by client.bufferOffset - offset
decreasing_by
  rw [dispatchInner_bufferOffset]
  omega

/-- `attempt-dispatch`, with what it returns. -/
def attemptDispatch (contents : Nat → UInt8) (all : Bool) (client : Client) :
    Option (Client × Bool) :=
  match attemptLoop contents all client 0 0 with
  | none => none
  | some (client, offset, dispatched) =>
      if 0 < offset then
        if offset < client.bufferOffset then
          let len := client.bufferOffset - offset
          (bytevectorShift contents client.buffer offset 0 len 0).map fun buffer =>
            ({ client with buffer := buffer, bufferOffset := len }, 0 < dispatched)
        else
          (copyRange (List.replicate offset 0) 0 client.buffer 0 offset).map fun buffer =>
            ({ client with buffer := buffer, bufferOffset := 0 }, 0 < dispatched)
      else some (client, 0 < dispatched)

/-- `dispatchable?`. -/
def dispatchable (client : Client) : Option Bool :=
  if client.connected = false ∧ client.disconnectAcknowledged = false then some true
  else if client.bufferOffset < 3 then some false
  else (readShort client.buffer 0).map fun len => len + 3 ≤ client.bufferOffset

/-- `protocol-read`; `recv!` gets as much of the bytes on the socket as there is room for in the
chunk, up to `size`. -/
def protocolRead (client : Client) (socket : Bytes) (size : Nat) : Option (Client × Bytes) :=
  let chunk := socket.take (min chunkSize size)
  if 0 < chunk.length then
    (copyRange chunk 0 client.buffer client.bufferOffset chunk.length).map fun buffer =>
      ({ client with buffer := buffer, bufferOffset := client.bufferOffset + chunk.length },
        socket.drop chunk.length)
  else some ({ client with connected := false }, socket)

/-- Seconds and microseconds. -/
abbrev Timeout := Int × Int

/-- `normalize-timeout`, of what `gzochi:pump-events` is called with. -/
def normalizeTimeout (sec usec : Option Nat) : Option Timeout :=
  sec.map fun sec =>
    match usec with
    | some usec => ((sec + usec / 1000000 : Nat), (usec % 1000000 : Nat))
    | none => (sec, 0)

/-- `timeoutsub`, of a timeout that is there. -/
def timeoutsub (one two : Timeout) : Timeout :=
  let usec := one.1 * 1000000 + one.2 - (two.1 * 1000000 + two.2)
  (usec / 1000000, usec % 1000000)

/-- `time-left?`. -/
def timeLeft : Option Timeout → Bool
  | none => true
  | some (sec, usec) => 0 < sec || (sec = 0 && 0 < usec)

inductive Failure where
  | bytevector
  | wrongType
  deriving DecidableEq

/-- A client with the bytes on its socket, the number of rounds it has gone through, the time
that remains to the `gzochi:pump-events` it is in, and the error that has ended it. -/
structure Receiver where
  client : Client
  socket : Bytes
  rounds : Nat
  pump : Option (Option Timeout)
  failed : Option Failure
  deriving DecidableEq

/-- `check` after `prepare` and the poll, and `dispatch-all` if it says so; `available + 1` bytes
can be read if there are any. -/
def takeRound (contents : Nat → UInt8) (client : Client) (socket : Bytes) (available : Nat) :
    Option (Client × Bytes) :=
  let dispatchAll (client : Client) (socket : Bytes) :=
    (attemptDispatch contents true client).map fun result => (result.1, socket)
  match dispatchable client with
  | none => none
  | some true => dispatchAll client socket
  | some false =>
      if socket = [] then some (client, socket)
      else
        match protocolRead client socket (available + 1) with
        | none => none
        | some (client, socket) =>
            match dispatchable client with
            | none => none
            | some true => dispatchAll client socket
            | some false => some (client, socket)

/-- A call of `gzochi:pump-events`, or a round of it or of the main loop, with what can be read
and the time that elapses. -/
inductive Action where
  | pumpEvents (sec usec : Option Nat)
  | round (available : Nat) (elapsed : Timeout)
  deriving DecidableEq

/-- The rest of a round of `gzochi:pump-events`: the remaining time. -/
def Receiver.elapse (receiver : Receiver) (elapsed : Timeout) : Receiver :=
  match receiver.pump with
  | none => receiver
  | some (some remaining) => { receiver with pump := some (some (timeoutsub remaining elapsed)) }
  | some none => { receiver with failed := some .wrongType }

/-- A round of the receiver. -/
def Receiver.round (contents : Nat → UInt8) (receiver : Receiver) (available : Nat)
    (elapsed : Timeout) : Receiver :=
  match takeRound contents receiver.client receiver.socket available with
  | none => { receiver with failed := some .bytevector }
  | some (client, socket) =>
      { receiver with client := client, socket := socket, rounds := receiver.rounds + 1 }.elapse
        elapsed

def receiverStep (contents : Nat → UInt8) (receiver : Receiver) :
    Action → Option (Receiver × Unit)
  | .pumpEvents sec usec =>
      if receiver.failed = none ∧ receiver.pump = none then
        some ({ receiver with pump := some (normalizeTimeout sec usec) }, ())
      else none
  | .round available elapsed =>
      if receiver.failed = none then
        match receiver.pump with
        | none => some (receiver.round contents available elapsed, ())
        | some remaining =>
            if timeLeft remaining then some (receiver.round contents available elapsed, ())
            else some ({ receiver with pump := none }, ())
      else none

end Gzochi.GuileClient
