import Mathlib.Data.List.Basic

/-!
# Frames of a stream

A framing takes one frame at a time off the front of its input.  The frames of a whole
input are what is taken off until nothing more can be, and the remainder is what is left
then.  When a frame does not depend on what comes after it, the frames of a stream do not
depend on where the stream is cut.
-/

namespace Gzochi.Lib

universe u v

/-- How one frame is taken off the front of an input.  Every frame takes something. -/
structure Framing (Symbol : Type u) (Frame : Type v) where
  next : List Symbol → Option (Frame × List Symbol)
  consumes : ∀ {input frame rest}, next input = some (frame, rest) → rest.length < input.length

namespace Framing

variable {Symbol : Type u} {Frame : Type v} (framing : Framing Symbol Frame)
variable {input rest more : List Symbol} {frame : Frame}

/-- The frames taken off in at most `bound` steps, and what is left. -/
def framesWithin : Nat → List Symbol → List Frame × List Symbol
  | 0, input => ([], input)
  | bound + 1, input =>
      match framing.next input with
      | none => ([], input)
      | some (frame, rest) =>
          (frame :: (framesWithin bound rest).1, (framesWithin bound rest).2)

/-- All frames of an input, and its remainder. -/
def frames (input : List Symbol) : List Frame × List Symbol :=
  framing.framesWithin input.length input

variable {framing}

theorem framesWithin_none (bound : Nat) (ended : framing.next input = none) :
    framing.framesWithin bound input = ([], input) := by
  cases bound with
  | zero => rfl
  | succ bound => simp only [framesWithin, ended]

theorem framesWithin_congr {bound other : Nat} (enough : input.length ≤ bound)
    (also : input.length ≤ other) :
    framing.framesWithin bound input = framing.framesWithin other input := by
  induction bound generalizing input other with
  | zero =>
    have ended : framing.next input = none := by
      cases taken : framing.next input with
      | none => rfl
      | some pair => exact absurd (framing.consumes taken) (by omega)
    rw [framesWithin_none _ ended, framesWithin_none _ ended]
  | succ bound ih =>
    cases taken : framing.next input with
    | none => rw [framesWithin_none _ taken, framesWithin_none _ taken]
    | some pair =>
      obtain ⟨frame, rest⟩ := pair
      have shorter := framing.consumes taken
      obtain ⟨less, rfl⟩ : ∃ less, other = less + 1 := ⟨other - 1, by omega⟩
      have same : framing.framesWithin bound rest = framing.framesWithin less rest :=
        ih (by omega) (by omega)
      simp only [framesWithin, taken, same]

theorem frames_none (ended : framing.next input = none) : framing.frames input = ([], input) :=
  framesWithin_none _ ended

theorem frames_some (taken : framing.next input = some (frame, rest)) :
    framing.frames input = (frame :: (framing.frames rest).1, (framing.frames rest).2) := by
  have shorter := framing.consumes taken
  obtain ⟨bound, size⟩ : ∃ bound, input.length = bound + 1 := ⟨input.length - 1, by omega⟩
  have same : framing.framesWithin bound rest = framing.frames rest :=
    framesWithin_congr (by omega) (Nat.le_refl _)
  unfold frames
  rw [size]
  simp only [framesWithin, taken]
  rw [same]
  rfl

/-- Induction along the frames of an input. -/
theorem frames_induction {motive : List Symbol → Prop}
    (ended : ∀ input, framing.next input = none → motive input)
    (taken : ∀ input frame rest, framing.next input = some (frame, rest) → motive rest →
      motive input) (input : List Symbol) : motive input := by
  generalize size : input.length = length
  induction length using Nat.strongRecOn generalizing input with
  | ind length ih =>
    cases front : framing.next input with
    | none => exact ended input front
    | some pair =>
      have shorter := framing.consumes front
      exact taken input pair.1 pair.2 front (ih _ (by omega) pair.2 rfl)

/-- Nothing can be taken off the remainder. -/
theorem next_remainder (input : List Symbol) : framing.next (framing.frames input).2 = none := by
  induction input using framing.frames_induction with
  | ended input ended => rw [frames_none ended, ended]
  | taken input frame rest taken ih => rw [frames_some taken, ih]

theorem remainder_length (input : List Symbol) :
    (framing.frames input).2.length ≤ input.length := by
  induction input using framing.frames_induction with
  | ended input ended => simp only [frames_none ended, Nat.le_refl]
  | taken input frame rest taken ih =>
    rw [frames_some taken]
    exact Nat.le_of_lt (Nat.lt_of_le_of_lt ih (framing.consumes taken))

/-- What holds of every frame that is taken off an input of some kind, when what is left
is again of that kind. -/
theorem frames_forall (kind : List Symbol → Prop) {property : Frame → Prop}
    (taken : ∀ {input frame rest}, kind input → framing.next input = some (frame, rest) →
      property frame ∧ kind rest)
    (start : kind input) : ∀ frame ∈ (framing.frames input).1, property frame := by
  induction input using framing.frames_induction with
  | ended input ended =>
    rw [frames_none ended]
    exact fun _ member => absurd member List.not_mem_nil
  | taken input frame rest front ih =>
    obtain ⟨holds, later⟩ := taken start front
    rw [frames_some front]
    intro other member
    rcases List.mem_cons.mp member with rfl | member
    · exact holds
    · exact ih later other member

/-- A frame is the same whatever comes after it. -/
def Stable (framing : Framing Symbol Frame) : Prop :=
  ∀ {input frame rest}, framing.next input = some (frame, rest) → ∀ more,
    framing.next (input ++ more) = some (frame, rest ++ more)

/-- Where a stream is cut makes no difference: the remainder of the first part goes before
the second part. -/
theorem frames_append (stable : framing.Stable) (input more : List Symbol) :
    framing.frames (input ++ more) =
      ((framing.frames input).1 ++ (framing.frames ((framing.frames input).2 ++ more)).1,
        (framing.frames ((framing.frames input).2 ++ more)).2) := by
  induction input using framing.frames_induction with
  | ended input ended => rw [frames_none ended, List.nil_append]
  | taken input frame rest taken ih =>
    rw [frames_some taken, frames_some (stable taken more), ih]
    rfl

/-- Frames that can be taken off one after the other. -/
theorem frames_flatMap {bytes : Frame → List Symbol} {frames : List Frame}
    (front : ∀ frame ∈ frames, ∀ rest, framing.next (bytes frame ++ rest) = some (frame, rest))
    (rest : List Symbol) :
    framing.frames (frames.flatMap bytes ++ rest) =
      (frames ++ (framing.frames rest).1, (framing.frames rest).2) := by
  induction frames with
  | nil => rfl
  | cons frame frames ih =>
    rw [List.flatMap_cons, List.append_assoc, frames_some (front frame List.mem_cons_self _),
      ih fun other member => front other (List.mem_cons_of_mem _ member)]
    rfl

end Framing

end Gzochi.Lib
