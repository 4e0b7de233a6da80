import Mathlib.Data.List.TakeWhile
import Gzochi.GuileClient.Deliveries

/-!
# Sessions of the Guile client

A session is any sequence of rounds of the main loop and calls of `gzochi:pump-events`.  It goes
well as long as there is room for what is read, and `gzochi:pump-events` is given a timeout: its
loop subtracts from the timeout even when there is none.
-/

namespace Gzochi.GuileClient

open Gzochi.DataClient (Bytes)
open Gzochi.Lib List
open Gzochi.Socket (Frame)

variable {contents : Nat → UInt8} {receiver next started : Receiver}
  {done pending frames : List Frame} {action : Action}

/-! ## Runs -/

/-- A connected client whose callback has not been called, with a stream of frames of which some
may be in its buffer. -/
structure Started (frames : List Frame) (receiver : Receiver) : Prop where
  failed : receiver.failed = none
  rounds : receiver.rounds = 0
  wellFormed : WellFormed receiver.client
  connected : receiver.client.connected = true
  received : receiver.client.received = []
  stream : receiver.client.filled ++ receiver.socket = frames.flatMap Frame.bytes

/-- Nothing has failed, the callback has been called with the messages of the first frames, the
others are in the buffer and on the socket, and after enough rounds the callback has been called
with everything it is to be called with. -/
def Received (frames : List Frame) (receiver : Receiver) : Prop :=
  receiver.failed = none ∧ ∃ done pending, frames = done ++ pending ∧
    receiver.client.received = expected done ∧
    receiver.client.filled ++ receiver.socket = pending.flatMap Frame.bytes ∧
    ((frames.flatMap Frame.bytes).length + frames.length ≤ receiver.rounds →
      receiver.client.received = expected frames)

/-- An action that goes well: there is room for what a round reads, and a round of
`gzochi:pump-events` has a timeout. -/
def Allowed (receiver : Receiver) : Action → Prop
  | .pumpEvents _ _ => True
  | .round available _ =>
      match receiver.pump with
      | none => Fits receiver.client receiver.socket available
      | some none => False
      | some (some remaining) =>
          timeLeft (some remaining) = true → Fits receiver.client receiver.socket available

/-- What holds of a session that goes well. -/
structure Underway (frames : List Frame) (receiver : Receiver) (done pending : List Frame) :
    Prop where
  failed : receiver.failed = none
  split : frames = done ++ pending
  delivered : Delivered receiver.client receiver.socket done pending
  measure : receiver.client.connected = false ∨ pending = [] ∨
    receiver.rounds + (receiver.socket.length + pending.length) ≤
      (frames.flatMap Frame.bytes).length + frames.length

/-- What a connected client has dispatched disconnects nobody. -/
theorem Standing.expected (standing : Standing done receiver.client) :
    receiver.client.received = expected done ∧ (receiver.client.connected = false → ∀ pending,
        receiver.client.received = GuileClient.expected (done ++ pending)) := by
  cases connected : receiver.client.connected with
  | true =>
    refine ⟨?_, nofun⟩
    have every : done.takeWhile (fun frame => ¬Disconnects frame) = done := by
      rw [takeWhile_eq_self_iff]
      intro frame member
      simpa using standing.open_ connected frame member
    rw [GuileClient.expected, every, standing.received]
  | false =>
    obtain ⟨-, before, last, same, disconnects, others⟩ := standing.closed connected
    have silent : messagesOf [last] = [] := by
      apply messagesOf_other
      rcases disconnects with failure | ended
      · rw [failure]
        decide
      · rw [ended]
        decide
    have upTo : ∀ pending, receiver.client.received = GuileClient.expected (done ++ pending) := by
      intro pending
      have every : ∀ frame ∈ before, decide (¬Disconnects frame) = true := by
        intro frame member
        simpa using others frame member
      have front : (done ++ pending).takeWhile (fun frame => ¬Disconnects frame) = before := by
        rw [same, append_assoc, takeWhile_append_of_pos every, singleton_append,
          takeWhile_cons_of_neg (by simpa using disconnects), append_nil]
      rw [GuileClient.expected, front, standing.received, same, messagesOf_append, silent,
        append_nil]
    refine ⟨?_, fun _ => upTo⟩
    have here := upTo []
    rwa [append_nil] at here

/-- A client that has been disconnected stays so. -/
theorem Standing.stays_closed {client later : Client} (standing : Standing done client)
    (closed : client.connected = false) {more : List Frame}
    (after : Standing (done ++ more) later) : later.connected = false := by
  obtain ⟨-, before, last, same, disconnects, -⟩ := standing.closed closed
  by_contra connected
  rw [Bool.not_eq_false] at connected
  apply after.open_ connected last ?_ disconnects
  rw [same]
  simp

theorem Underway.received (underway : Underway frames receiver done pending) :
    Received frames receiver := by
  obtain ⟨here, ended⟩ := underway.delivered.standing.expected
  refine ⟨underway.failed, done, pending, underway.split, here, underway.delivered.stream, ?_⟩
  intro enough
  rcases underway.measure with closed | none | bound
  · rw [underway.split]
    exact ended closed pending
  · rw [underway.split, none, append_nil]
    exact here
  · have none : pending = [] := length_eq_zero_iff.mp (by omega)
    rw [underway.split, none, append_nil]
    exact here

theorem Started.underway (start : Started frames started) : Underway frames started [] frames where
  failed := start.failed
  split := rfl
  delivered := ⟨start.wellFormed, ⟨start.received, fun _ => nofun, fun closed => by
    rw [start.connected] at closed
    cases closed⟩, start.stream⟩
  measure := by
    right
    right
    have size := congrArg List.length start.stream
    rw [length_append] at size
    rw [start.rounds]
    omega

variable {available : Nat} {elapsed : Timeout}

/-- A round that is taken with room for what it reads. -/
theorem Underway.round (underway : Underway frames receiver done pending)
    (fits : ∀ frame ∈ frames, frame.payload.length < 65536)
    (room : Fits receiver.client receiver.socket available) (contents : Nat → UInt8)
    (timed : receiver.pump ≠ some none) :
    ∃ more later, Underway frames (receiver.round contents available elapsed) more later := by
  have those : ∀ frame ∈ pending, frame.payload.length < 65536 := by
    intro frame member
    exact fits frame (by rw [underway.split]; exact mem_append_right _ member)
  obtain ⟨client, rest, taken, more, later, split, kept, progress⟩ :=
    takeRound_delivers underway.delivered those room contents
  refine ⟨done ++ more, later, ?_⟩
  have kept : Underway frames
      { receiver with client := client, socket := rest, rounds := receiver.rounds + 1 }
      (done ++ more) later := by
    refine ⟨underway.failed, ?_, kept, ?_⟩
    · rw [underway.split, split, append_assoc]
    · have none : pending = [] → later = [] := by
        intro none
        rw [none] at split
        exact (append_eq_nil_iff.mp split.symm).2
      have ended : receiver.client.connected = false → client.connected = false :=
        fun closed => underway.delivered.standing.stays_closed closed kept.standing
      rcases progress with closed | empty | less
      · exact .inl (ended closed)
      · exact .inr (.inl (none empty))
      · rcases underway.measure with closed | empty | bound
        · exact .inl (ended closed)
        · exact .inr (.inl (none empty))
        · refine .inr (.inr ?_)
          dsimp only
          omega
  unfold Receiver.round
  rw [taken]
  unfold Receiver.elapse
  dsimp only
  match pump : receiver.pump with
  | .none =>
    rw [pump] at kept
    exact kept
  | some (some remaining) =>
    rw [pump] at kept
    exact ⟨kept.failed, kept.split, kept.delivered, kept.measure⟩
  | some .none => exact absurd pump timed

/-- A round of `gzochi:pump-events` without a timeout ends in an error. -/
theorem round_untimed (untimed : receiver.pump = some none) (contents : Nat → UInt8) :
    (receiver.round contents available elapsed).failed ≠ none := by
  unfold Receiver.round
  split
  next => nofun
  next =>
    simp only [Receiver.elapse, untimed]
    nofun

/-- What an action does to a session that goes well. -/
theorem Underway.step (underway : Underway frames receiver done pending)
    (fits : ∀ frame ∈ frames, frame.payload.length < 65536)
    (taken : receiverStep contents receiver action = some (next, ())) :
    (Allowed receiver action → ∃ more later, Underway frames next more later) ∧
      (¬Allowed receiver action → next.failed ≠ none) := by
  have kept : ∀ pump, Underway frames { receiver with pump := pump } done pending :=
    fun pump => ⟨underway.failed, underway.split, underway.delivered, underway.measure⟩
  have overflows : ∀ {available} {elapsed : Timeout},
      ¬Fits receiver.client receiver.socket available →
      (receiver.round contents available elapsed).failed ≠ none := by
    intro available elapsed full
    unfold Receiver.round
    rw [takeRound_overflows underway.delivered full contents]
    nofun
  cases action with
  | pumpEvents sec usec =>
    obtain ⟨_, taken⟩ := Option.ite_none_right_eq_some.mp taken
    cases taken
    exact ⟨fun _ => ⟨done, pending, kept _⟩, fun refused => absurd trivial refused⟩
  | round available elapsed =>
    simp only [receiverStep, if_pos underway.failed] at taken
    unfold Allowed
    dsimp only
    match pump : receiver.pump with
    | none =>
      rw [pump] at taken
      cases taken
      refine ⟨fun room => ?_, overflows⟩
      exact underway.round fits room contents (by rw [pump]; nofun)
    | some none =>
      rw [pump] at taken
      simp only [timeLeft, if_true] at taken
      cases taken
      exact ⟨False.elim, fun _ => round_untimed pump contents⟩
    | some (some remaining) =>
      rw [pump] at taken
      dsimp only at taken ⊢
      split at taken
      next left =>
        cases taken
        refine ⟨fun room => ?_, fun full => overflows fun room => full fun _ => room⟩
        exact underway.round fits (room left) contents (by rw [pump]; nofun)
      next full =>
        cases taken
        exact ⟨fun _ => ⟨done, pending, kept _⟩,
          fun refused => absurd (fun left => absurd left full) refused⟩

/-- A session goes well exactly when all of its actions do. -/
theorem received_iff_allowed (fits : ∀ frame ∈ frames, frame.payload.length < 65536)
    (start : Started frames started) {trace : List (Action × Unit)}
    (run : Run (receiverStep contents) anyAction started trace receiver) :
    Received frames receiver ↔ Run (receiverStep contents) Allowed started trace receiver := by
  have underway : ∀ {trace : List (Action × Unit)} {receiver : Receiver},
      Run (receiverStep contents) Allowed started trace receiver →
      ∃ done pending, Underway frames receiver done pending := by
    intro trace receiver run
    refine run.state_invariant (fun receiver => ∃ done pending,
      Underway frames receiver done pending) ⟨[], frames, start.underway⟩ ?_
    rintro state action next ⟨⟩ ⟨done, pending, standing⟩ allowed taken
    exact (standing.step fits taken).1 allowed
  constructor
  · intro received
    refine run.invariant (fun trace receiver => receiver.failed = none →
      Run (receiverStep contents) Allowed started trace receiver) (fun _ => .nil) ?_ received.1
    rintro trace state action next ⟨⟩ _ early _ taken well
    have before : state.failed = none := by
      cases action with
      | pumpEvents sec usec =>
        obtain ⟨both, taken⟩ := Option.ite_none_right_eq_some.mp taken
        exact both.1
      | round available elapsed =>
        obtain ⟨fine, taken⟩ := Option.ite_none_right_eq_some.mp taken
        exact fine
    obtain ⟨done, pending, standing⟩ := underway (early before)
    refine (early before).snoc ?_ taken
    by_contra refused
    exact (standing.step fits taken).2 refused well
  · intro allowed
    obtain ⟨done, pending, standing⟩ := underway allowed
    exact standing.received

end Gzochi.GuileClient
