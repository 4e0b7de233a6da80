import Mathlib.Data.List.Dedup
import Mathlib.Data.List.DropRight

/-!
# The most recently used keys

A history lists the keys in the order in which they were used, the latest at its end.  Its
distinct keys are ordered by their last use, and a bounded cache keeps the latest of them.
-/

namespace Gzochi.Lib

open List

variable {Key : Type*} [DecidableEq Key]

/-- The distinct keys of a history in the order of their last use, the latest at the end. -/
def byLastUse (history : List Key) : List Key := history.dedup

/-- The `count` keys used last, or all of them if there are fewer. -/
def mostRecent (count : Nat) (history : List Key) : List Key := (byLastUse history).rtake count

theorem byLastUse_nodup (history : List Key) : (byLastUse history).Nodup :=
  nodup_dedup history

/-- A use moves the key to the end. -/
theorem byLastUse_snoc (history : List Key) (key : Key) :
    byLastUse (history ++ [key]) = (byLastUse history).erase key ++ [key] := by
  unfold byLastUse
  induction history with
  | nil => rfl
  | cons first history ih =>
    by_cases again : first ∈ history
    · have later : first ∈ history ++ [key] := mem_append_left _ again
      rw [cons_append, dedup_cons_of_mem later, dedup_cons_of_mem again, ih]
    · rw [cons_append, dedup_cons_of_notMem again]
      by_cases same : first = key
      · subst same
        rw [dedup_cons_of_mem (mem_append_right _ mem_cons_self), ih,
          erase_cons_head, erase_of_not_mem (by simpa using again)]
      · have absent : first ∉ history ++ [key] := by simp [again, same]
        rw [dedup_cons_of_notMem absent, ih, erase_cons_tail (by simpa using same), cons_append]

theorem mostRecent_sublist (count : Nat) (history : List Key) :
    List.Sublist (mostRecent count history) (byLastUse history) :=
  drop_sublist _ _

theorem mostRecent_nodup (count : Nat) (history : List Key) : (mostRecent count history).Nodup :=
  (byLastUse_nodup history).sublist (mostRecent_sublist count history)

@[simp] theorem length_mostRecent (count : Nat) (history : List Key) :
    (mostRecent count history).length = min (byLastUse history).length count := by
  unfold mostRecent List.rtake
  rw [length_drop]
  omega

/-- The keys that are left out come before the others. -/
theorem exists_byLastUse_eq (count : Nat) (history : List Key) :
    ∃ older, byLastUse history = older ++ mostRecent count history ∧
      (older = [] ∨ (mostRecent count history).length = count) := by
  refine ⟨(byLastUse history).take ((byLastUse history).length - count),
    (take_append_drop _ _).symm, ?_⟩
  by_cases few : (byLastUse history).length ≤ count
  · left
    rw [Nat.sub_eq_zero_of_le few, take_zero]
  · right
    rw [length_mostRecent]
    omega

variable {count : Nat} {history : List Key}

/-- Whatever splits the keys like this splits off the most recent ones. -/
theorem mostRecent_eq {older recent : List Key} (split : byLastUse history = older ++ recent)
    (few : recent.length ≤ count) (full : older = [] ∨ recent.length = count) :
    mostRecent count history = recent := by
  unfold mostRecent List.rtake
  rw [split, drop_append, length_append]
  rcases full with none_older | exact_size
  · rw [none_older, drop_nil, length_nil, nil_append]
    rw [show 0 + recent.length - count - 0 = 0 by omega, drop_zero]
  · rw [drop_of_length_le (by omega), nil_append]
    rw [show older.length + recent.length - count - older.length = 0 by omega, drop_zero]

variable {key : Key}

/-- A use of one of the most recent keys moves it to the end of them. -/
theorem mostRecent_hit (recent : key ∈ mostRecent count history) :
    mostRecent count (history ++ [key]) = (mostRecent count history).erase key ++ [key] := by
  obtain ⟨older, split, full⟩ := exists_byLastUse_eq count history
  have distinct := byLastUse_nodup history
  rw [split, nodup_append] at distinct
  have outside : key ∉ older := fun inside => distinct.2.2 key inside key recent rfl
  have size : ((mostRecent count history).erase key ++ [key]).length =
      (mostRecent count history).length := by
    have positive := length_pos_of_mem recent
    rw [length_append, length_erase_of_mem recent, length_singleton]
    omega
  have few := length_mostRecent count history
  have moved : byLastUse (history ++ [key]) =
      older ++ ((mostRecent count history).erase key ++ [key]) := by
    rw [byLastUse_snoc, split, erase_append_right _ outside, append_assoc]
  apply mostRecent_eq moved
  · omega
  · rwa [size]

variable (other : key ∉ mostRecent count history)
include other

/-- The keys before the most recent ones when another key is used. -/
theorem byLastUse_miss {older : List Key}
    (split : byLastUse history = older ++ mostRecent count history) :
    byLastUse (history ++ [key]) = older.erase key ++ (mostRecent count history ++ [key]) := by
  rw [byLastUse_snoc, split, ← append_assoc]
  congr 1
  by_cases inside : key ∈ older
  · exact erase_append_left _ inside
  · rw [erase_append_right _ inside, erase_of_not_mem other, erase_of_not_mem inside]

/-- Another key is added while there is room. -/
theorem mostRecent_room (room : (mostRecent count history).length < count) :
    mostRecent count (history ++ [key]) = mostRecent count history ++ [key] := by
  obtain ⟨older, split, full⟩ := exists_byLastUse_eq count history
  have none_older : older = [] := full.resolve_right (by omega)
  apply mostRecent_eq (byLastUse_miss other split)
  · rw [length_append, length_singleton]
    omega
  · rw [none_older]
    exact Or.inl rfl

/-- Otherwise it takes the place of the least recent one. -/
theorem mostRecent_full {rest : List Key} {first : Key}
    (full : mostRecent count history = first :: rest) (size : (first :: rest).length = count) :
    mostRecent count (history ++ [key]) = rest ++ [key] := by
  obtain ⟨older, split, _⟩ := exists_byLastUse_eq count history
  have moved : byLastUse (history ++ [key]) = (older.erase key ++ [first]) ++ (rest ++ [key]) := by
    rw [byLastUse_miss other split, full, append_assoc, singleton_append, cons_append]
  rw [length_cons] at size
  apply mostRecent_eq moved
  · rw [length_append, length_singleton]
    omega
  · right
    rw [length_append, length_singleton]
    omega

end Gzochi.Lib
