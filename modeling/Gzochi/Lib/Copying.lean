import Mathlib.Data.List.Basic

/-!
# Copying between arrays

A copy of a range of one array into another, with the checks of the ranges: the target keeps its
length, and everything outside the range.
-/

namespace Gzochi.Lib

open List

universe u

variable {α : Type u} {source target result : List α} {sourceStart targetStart count : Nat}

/-- Copy `count` elements; nothing is copied when one of the ranges ends outside its array. -/
def copyRange (source : List α) (sourceStart : Nat) (target : List α) (targetStart count : Nat) :
    Option (List α) :=
  if sourceStart + count ≤ source.length ∧ targetStart + count ≤ target.length then
    some (target.take targetStart ++ (source.drop sourceStart).take count ++
      target.drop (targetStart + count))
  else none

theorem copyRange_isSome : (copyRange source sourceStart target targetStart count).isSome ↔
      sourceStart + count ≤ source.length ∧ targetStart + count ≤ target.length := by
  unfold copyRange
  split
  next inside => simp [inside]
  next outside => simp [outside]

theorem copyRange_eq (fromSource : sourceStart + count ≤ source.length)
    (toTarget : targetStart + count ≤ target.length) :
    copyRange source sourceStart target targetStart count =
      some (target.take targetStart ++ (source.drop sourceStart).take count ++
        target.drop (targetStart + count)) :=
  if_pos ⟨fromSource, toTarget⟩

variable (copied : copyRange source sourceStart target targetStart count = some result)
include copied

theorem length_copyRange : result.length = target.length := by
  obtain ⟨inside, copied⟩ := Option.ite_none_right_eq_some.mp copied
  cases copied
  simp only [length_append, length_take, length_drop]
  omega

/-- The target up to the end of the range. -/
theorem take_copyRange : result.take (targetStart + count) =
      target.take targetStart ++ (source.drop sourceStart).take count := by
  obtain ⟨inside, copied⟩ := Option.ite_none_right_eq_some.mp copied
  cases copied
  apply take_left'
  simp only [length_append, length_take, length_drop]
  omega

/-- The target behind the range. -/
theorem drop_copyRange : result.drop (targetStart + count) = target.drop (targetStart + count) := by
  obtain ⟨inside, copied⟩ := Option.ite_none_right_eq_some.mp copied
  cases copied
  apply drop_left'
  simp only [length_append, length_take, length_drop]
  omega

omit copied

/-- A whole array is replaced by what is copied to it. -/
theorem copyRange_all (whole : target.length = count)
    (inside : sourceStart + count ≤ source.length) :
    copyRange source sourceStart target 0 count = some ((source.drop sourceStart).take count) := by
  rw [copyRange_eq inside (by omega), take_zero, nil_append, Nat.zero_add, ← whole,
    drop_length, append_nil]

end Gzochi.Lib
