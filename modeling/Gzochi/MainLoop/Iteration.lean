import Gzochi.MainLoop.Polling
import Mathlib.Data.List.MinMax

/-!
# One iteration of a main loop

The sources are prepared, the selectors of those that are not ready are polled, and the sources
whose check succeeds are dispatched.
-/

namespace Gzochi.MainLoop

open List

/-- Seconds and microseconds. -/
abbrev Timeout := Nat × Nat

def Timeout.total (timeout : Timeout) : Nat := timeout.1 * 1000000 + timeout.2

/-- What `prepare` returns. -/
inductive Prepared
  | ready
  | timeout (timeout : Timeout)
  | notReady
deriving DecidableEq

/-- `gzochi:source`, with what its procedures return in this iteration. -/
structure Source where
  selector : Bool
  timeout : Option Timeout
  prepare : Prepared
  check : Bool

/-- The timeout of a prepared source, or else its default one. -/
def Source.effective (source : Source) : Option Timeout :=
  match source.prepare with
  | .timeout timeout => some timeout
  | .ready | .notReady => source.timeout

/-- `timeout->usecs`, which adds microseconds only where the `cdr` is a pair. -/
def timeoutToUsecs (timeout : Timeout) : Nat := timeout.1 * 1000000 + 0

def preparedSourceLess (first second : Source) : Bool :=
  match first.effective, second.effective with
  | some first, some second => timeoutToUsecs first < timeoutToUsecs second
  | some _, none => true
  | none, _ => false

def Source.Pollable (source : Source) : Prop :=
  source.prepare ≠ .ready ∧ source.selector = true

instance (source : Source) : Decidable source.Pollable := inferInstanceAs (Decidable (_ ∧ _))

variable (sources : List Source)

/-- The timeout for polling, where there is something to be polled. -/
def polled : Option (Option Timeout) :=
  if ∃ source ∈ sources, source.Pollable then
    some ((sort preparedSourceLess sources).head?.bind Source.effective)
  else none

def dispatched : List Source := sources.filter Source.check

/-- Polling takes no longer than any of the sources allows, and no time when one is ready. -/
structure Punctual : Prop where
  atMost : ∀ timeout, polled sources = some timeout → ∀ source ∈ sources,
    ∀ own, source.effective = some own → ∃ given, timeout = some given ∧ given.total ≤ own.total
  ready : ∀ timeout, polled sources = some timeout →
    (∃ source ∈ sources, source.prepare = .ready) → ∃ given, timeout = some given ∧ given.total = 0
  dispatches : ∀ source, source ∈ dispatched sources ↔ source ∈ sources ∧ source.check = true

/-- The first of the timeouts with the least number of seconds. -/
def earliest : Option Timeout := (sources.filterMap Source.effective).argmin Prod.fst

/-- Sorting puts the source with that timeout first. -/
theorem head_sort_effective :
    (sort preparedSourceLess sources).head?.bind Source.effective = earliest sources := by
  induction sources with
  | nil => rfl
  | cons source sources ih =>
    have whole : sort preparedSourceLess (source :: sources) =
      (sort preparedSourceLess sources).orderedInsert _ source := rfl
    rw [whole]
    unfold earliest at ih ⊢
    cases sorted : sort preparedSourceLess sources with
    | nil =>
      rw [sorted] at ih
      cases own : source.effective <;> simp [own, argmin_cons, ← ih]
    | cons other rest =>
      rw [sorted, head?_cons, Option.bind_some] at ih
      rw [orderedInsert_cons, preparedSourceLess]
      cases own : source.effective with
      | none => cases later : other.effective <;> rw [later] at ih <;> simp [own, later, ← ih]
      | some first =>
        cases later : other.effective with
        | none =>
          rw [later] at ih
          simp [own, argmin_cons, ← ih]
        | some second =>
          rw [later] at ih
          rcases Nat.lt_or_ge second.1 first.1 with before | before
          · simp [own, later, argmin_cons, ← ih, timeoutToUsecs, before]
          · simp [own, argmin_cons, ← ih, timeoutToUsecs, Nat.not_lt.mpr before]

/-- An iteration is punctual when there is nothing to be polled, or else when the first of the
timeouts with the least number of seconds is the shortest one, and none at all if a source is
ready. -/
theorem iteration_punctual_iff (sources : List Source) : Punctual sources ↔
    ((∃ source ∈ sources, source.Pollable) →
      (∀ first, earliest sources = some first → ∀ source ∈ sources,
        ∀ own, source.effective = some own → first.total ≤ own.total) ∧
      ((∃ source ∈ sources, source.prepare = .ready) →
        ∃ first, earliest sources = some first ∧ first.total = 0)) := by
  constructor
  · intro punctual polls
    have given : polled sources = some (earliest sources) := by
      rw [polled, if_pos polls, head_sort_effective]
    refine ⟨fun first isFirst source member own effective => ?_, punctual.ready _ given⟩
    obtain ⟨_, same, within⟩ := punctual.atMost _ given source member own effective
    cases isFirst.symm.trans same
    exact within
  · intro condition
    have given : ∀ timeout, polled sources = some timeout →
        (∃ source ∈ sources, source.Pollable) ∧ timeout = earliest sources := by
      intro timeout taken
      rw [polled, head_sort_effective] at taken
      split at taken
      next polls => exact ⟨polls, (Option.some.inj taken).symm⟩
      next => cases taken
    refine ⟨fun timeout taken source member own effective => ?_, fun timeout taken ready => ?_,
      fun source => mem_filter⟩
    · obtain ⟨polls, rfl⟩ := given timeout taken
      cases first : earliest sources with
      | none =>
          have nothing := argmin_eq_none.mp first
          exact absurd (mem_filterMap.mpr ⟨source, member, effective⟩) (nothing ▸ not_mem_nil)
      | some first' =>
        exact ⟨first', rfl, (condition polls).1 first' first source member own effective⟩
    · obtain ⟨polls, rfl⟩ := given timeout taken
      exact (condition polls).2 ready

/-- Two timeouts of less than a second, the longer one first. -/
theorem longer_timeout_polled : ¬ Punctual [⟨true, some (0, 900000), .notReady, false⟩,
    ⟨true, some (0, 100000), .notReady, false⟩] := by
  intro punctual
  obtain ⟨given, same, within⟩ := punctual.atMost (some (0, 900000))
    (by simp [polled, Source.Pollable, sort, preparedSourceLess, Source.effective, timeoutToUsecs])
    ⟨true, some (0, 100000), .notReady, false⟩ (by simp) (0, 100000) rfl
  cases same
  exact absurd within (by decide)

end Gzochi.MainLoop
