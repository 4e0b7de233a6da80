import Mathlib.Data.List.Basic

/-!
# Reading values off the front of an input

A reader takes a value off the front of its input and leaves the rest, or fails.  It reads
a value from what was written for it when it does so whatever comes after: such readers
compose, in the order in which their values were written.
-/

namespace Gzochi.Lib

variable {Symbol Error Value Other : Type}

abbrev Reader (Symbol Error : Type) := StateT (List Symbol) (Except Error)

namespace Reader

/-- A reader takes `value` off `written`, whatever follows it, and nothing more. -/
def Reads (reader : Reader Symbol Error Value) (written : List Symbol) (value : Value) : Prop :=
  ∀ rest, reader (written ++ rest) = .ok (value, rest)

theorem bind_apply (reader : Reader Symbol Error Value) (next : Value → Reader Symbol Error Other)
    (input : List Symbol) :
    (reader >>= next) input = (reader input >>= fun result => next result.1 result.2) := rfl

/-- Where a composed reader succeeds, its parts do, one after the other. -/
theorem bind_ok {reader : Reader Symbol Error Value} {next : Value → Reader Symbol Error Other}
    {input rest : List Symbol} {other : Other}
    (read : (reader >>= next) input = .ok (other, rest)) :
    ∃ value remaining, reader input = .ok (value, remaining) ∧
      next value remaining = .ok (other, rest) := by
  rw [bind_apply] at read
  cases first : reader input with
  | error failure =>
    rw [first] at read
    cases read
  | ok result =>
    rw [first] at read
    exact ⟨result.1, result.2, rfl, read⟩

namespace Reads

variable {reader : Reader Symbol Error Value} {next : Value → Reader Symbol Error Other}
variable {written more : List Symbol} {value : Value} {other : Other}

theorem pure (value : Value) : Reads (Pure.pure value : Reader Symbol Error Value) [] value :=
  fun _ => rfl

theorem bind (first : Reads reader written value) (second : Reads (next value) more other) :
    Reads (reader >>= next) (written ++ more) other := by
  intro rest
  rw [bind_apply, List.append_assoc, first (more ++ rest)]
  exact second rest

/-- The last step only computes with what was read. -/
theorem map (first : Reads reader written value) (result : Value → Other) :
    Reads (reader >>= fun value => Pure.pure (result value)) written (result value) := by
  have both : Reads (reader >>= fun value => Pure.pure (result value)) (written ++ [])
      (result value) := first.bind (Reads.pure (result value))
  rwa [List.append_nil] at both

end Reads

end Reader

end Gzochi.Lib
