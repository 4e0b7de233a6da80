import Mathlib.Logic.Basic

/-!
# Computations over a state that may fail or crash

A computation ends in one of three ways.  It returns a value, it fails and leaves
the state as it was at that moment for its caller to look at, or it crashes: a
failed assertion, a bad pointer, a loop that does not end.

A program is a computation whose access to the state goes through instructions; the
same program can be run at once or one instruction at a time.
-/

namespace Gzochi.Lib

inductive Outcome (State α : Type) where
  | ok (value : α) (state : State)
  | failed (state : State)
  | crashed

def Machine (State α : Type) := State → Outcome State α

namespace Machine

variable {State α β : Type}

instance : Monad (Machine State) where
  pure value := fun state => .ok value state
  bind action next := fun state =>
    match action state with
    | .ok value after => next value after
    | .failed after => .failed after
    | .crashed => .crashed

def crash : Machine State α := fun _ => .crashed

def fail : Machine State α := fun state => .failed state

def get : Machine State State := fun state => .ok state state

def modify (change : State → State) : Machine State Unit := fun state => .ok () (change state)

/-- Run a computation and go on after it, whether it has failed or not. -/
def attempt (action : Machine State α) : Machine State (Option α) := fun state =>
  match action state with
  | .ok value after => .ok (some value) after
  | .failed after => .ok none after
  | .crashed => .crashed

/-- An assertion of the source. -/
def assert (condition : Bool) : Machine State Unit := if condition then pure () else crash

/-- Take what is there, or crash. -/
def expect : Option α → Machine State α
  | some value => pure value
  | none => crash

@[simp] theorem pure_apply (value : α) (state : State) :
    (pure value : Machine State α) state = .ok value state := rfl

@[simp] theorem bind_apply (action : Machine State α) (next : α → Machine State β) (state : State) :
    (action >>= next) state =
      match action state with
      | .ok value after => next value after
      | .failed after => .failed after
      | .crashed => .crashed := rfl

@[simp] theorem map_apply (change : α → β) (action : Machine State α) (state : State) :
    (change <$> action) state =
      match action state with
      | .ok value after => .ok (change value) after
      | .failed after => .failed after
      | .crashed => .crashed := rfl

instance : LawfulMonad (Machine State) := by
  refine LawfulMonad.mk' _ ?_ ?_ ?_
  · intro α action
    funext state
    simp only [map_apply]
    cases action state <;> rfl
  · intro α β value next
    rfl
  · intro α β γ action first second
    funext state
    simp only [bind_apply]
    cases action state <;> rfl

/-! ## Pre- and postconditions

A crash satisfies every postcondition; `fails` is about the state a failure leaves
behind. -/

def Triple (pre : State → Prop) (action : Machine State α) (post : α → State → Prop)
    (fails : State → Prop) : Prop :=
  ∀ state, pre state →
    match action state with
    | .ok value after => post value after
    | .failed after => fails after
    | .crashed => True

section Triples

variable {pre pre' fails fails' : State → Prop} {post post' : α → State → Prop}
  {action : Machine State α}

theorem Triple.bind {middle : α → State → Prop} {next : α → Machine State β}
    {post : β → State → Prop} (first : Triple pre action middle fails)
    (second : ∀ value, Triple (middle value) (next value) post fails) :
    Triple pre (action >>= next) post fails := by
  intro state holds
  have half := first state holds
  simp only [bind_apply]
  cases outcome : action state with
  | ok value after =>
    rw [outcome] at half
    exact second value after half
  | failed after =>
    rw [outcome] at half
    exact half
  | crashed => trivial

theorem Triple.weaken (triple : Triple pre action post fails)
    (stronger : ∀ state, pre' state → pre state)
    (weaker : ∀ value state, post value state → post' value state)
    (worse : ∀ state, fails state → fails' state) : Triple pre' action post' fails' := by
  intro state holds
  have done := triple state (stronger state holds)
  cases outcome : action state with
  | ok value after =>
    rw [outcome] at done
    exact weaker value after done
  | failed after =>
    rw [outcome] at done
    exact worse after done
  | crashed => trivial

end Triples

/-- The computation keeps the property, also where it fails. -/
def Keeps (property : State → Prop) (action : Machine State α) : Prop :=
  Triple property action (fun _ => property) property

variable {property : State → Prop}

theorem Keeps.pure (value : α) : Keeps property (Pure.pure value : Machine State α) :=
  fun _ holds => holds

theorem Keeps.bind {action : Machine State α} {next : α → Machine State β}
    (first : Keeps property action) (second : ∀ value, Keeps property (next value)) :
    Keeps property (action >>= next) :=
  Triple.bind first second

theorem Keeps.crash : Keeps property (crash : Machine State α) := fun _ _ => trivial

theorem Keeps.fail : Keeps property (fail : Machine State α) := fun _ holds => holds

theorem Keeps.get : Keeps property (get : Machine State State) := fun _ holds => holds

theorem Keeps.modify {change : State → State}
    (kept : ∀ state, property state → property (change state)) :
    Keeps property (modify change) := fun state holds => kept state holds

theorem Keeps.attempt {action : Machine State α} (kept : Keeps property action) :
    Keeps property action.attempt := by
  intro state holds
  have middle := kept state holds
  unfold Machine.attempt
  cases outcome : action state with
  | ok value after | failed after =>
    rw [outcome] at middle
    exact middle
  | crashed => trivial

theorem Keeps.assert (condition : Bool) :
    Keeps property (assert condition : Machine State Unit) := by
  cases condition
  · exact Keeps.crash
  · exact Keeps.pure ()

theorem Keeps.expect (found : Option α) : Keeps property (expect found : Machine State α) := by
  cases found with
  | none => exact Keeps.crash
  | some value => exact Keeps.pure value

theorem Keeps.ite {condition : Prop} [Decidable condition] {first second : Machine State α}
    (left : Keeps property first) (right : Keeps property second) :
    Keeps property (if condition then first else second) := by
  split
  · exact left
  · exact right

/-- From this state the computation returns as `post` says or fails as `fails` says; it
does not crash. -/
def Ends (action : Machine State α) (post : α → State → Prop) (fails : State → Prop)
    (state : State) : Prop :=
  match action state with
  | .ok value after => post value after
  | .failed after => fails after
  | .crashed => False

section Ends

variable {action : Machine State α} {post post' : α → State → Prop}
  {fails fails' : State → Prop} {state after : State}

@[simp] theorem ends_pure (value : α) :
    Ends (pure value : Machine State α) post fails state ↔ post value state := Iff.rfl

@[simp] theorem ends_get {post : State → State → Prop} :
    Ends get post fails state ↔ post state state := Iff.rfl

@[simp] theorem ends_modify {post : Unit → State → Prop} (change : State → State) :
    Ends (modify change) post fails state ↔ post () (change state) := Iff.rfl

@[simp] theorem ends_bind {next : α → Machine State β} {post : β → State → Prop} :
    Ends (action >>= next) post fails state ↔
      Ends action (fun value => Ends (next value) post fails) fails state := by
  simp only [Ends, bind_apply]
  cases action state <;> rfl

@[simp] theorem ends_map {change : α → β} {post : β → State → Prop} :
    Ends (change <$> action) post fails state ↔
      Ends action (fun value => post (change value)) fails state := by
  simp only [Ends, map_apply]
  cases action state <;> rfl

@[simp] theorem ends_attempt {post : Option α → State → Prop} :
    Ends action.attempt post fails state ↔
      Ends action (fun value => post (some value)) (post none) state := by
  simp only [Ends, attempt]
  cases action state <;> rfl

@[simp] theorem ends_assert {condition : Bool} {post : Unit → State → Prop} :
    Ends (assert condition) post fails state ↔ condition = true ∧ post () state := by
  cases condition <;> simp [assert, Ends, crash]

@[simp] theorem ends_expect (found : Option α) :
    Ends (expect found) post fails state ↔ ∃ value, found = some value ∧ post value state := by
  cases found <;> simp [expect, Ends, crash]

/-- A computation whose outcome is known. -/
theorem ends_of_ok {value : α} (done : action state = .ok value after)
    (holds : post value after) : Ends action post fails state := by
  simp only [Ends, done]
  exact holds

end Ends

end Machine

/-- The two outcomes are of the same kind and bring the same value. -/
def Outcome.Agree {State α : Type} (fails : State → State → Prop)
    (post : α → State → State → Prop) : Outcome State α → Outcome State α → Prop
  | .ok value first, .ok other second => value = other ∧ post value first second
  | .failed first, .failed second => fails first second
  | .crashed, .crashed => True
  | _, _ => False

namespace Machine

section Alike

variable {State α β : Type} {pre fails : State → State → Prop}
  {post : α → State → State → Prop}

/-- From related states the computation does the same. -/
def Alike (pre : State → State → Prop) (action : Machine State α)
    (post : α → State → State → Prop) (fails : State → State → Prop) : Prop :=
  ∀ first second, pre first second → Outcome.Agree fails post (action first) (action second)

variable {action : Machine State α}

theorem Alike.bind {next : α → Machine State β} {middle : α → State → State → Prop}
    {post : β → State → State → Prop} (first : Alike pre action middle fails)
    (second : ∀ value, Alike (middle value) (next value) post fails) :
    Alike pre (action >>= next) post fails := by
  intro left right related
  have half := first left right related
  simp only [bind_apply]
  cases one : action left <;> cases two : action right <;> rw [one, two] at half
  case ok.ok =>
    obtain ⟨rfl, middle⟩ := half
    exact second _ _ _ middle
  all_goals first | exact half | exact False.elim half

theorem Alike.pure {value : α} (holds : ∀ first second, pre first second →
    post value first second) : Alike pre (Pure.pure value) post fails :=
  fun first second related => ⟨rfl, holds first second related⟩

theorem Alike.fail (holds : ∀ first second, pre first second → fails first second) :
    Alike pre (fail : Machine State α) post fails := holds

theorem Alike.crash : Alike pre (crash : Machine State α) post fails := fun _ _ _ => trivial

theorem Alike.ite {condition : Prop} [Decidable condition] {left right : Machine State α}
    (yes : Alike pre left post fails) (no : Alike pre right post fails) :
    Alike pre (if condition then left else right) post fails := by
  split
  · exact yes
  · exact no

/-- After an attempt the two runs go on, with the same answer. -/
theorem Alike.attempt (post : Option α → State → State → Prop)
    (alike : Alike pre action (fun value => post (some value)) (post none)) :
    Alike pre action.attempt post fails := by
  intro left right related
  have done := alike left right related
  unfold Machine.attempt
  cases one : action left <;> cases two : action right <;> rw [one, two] at done
  case ok.ok =>
    obtain ⟨rfl, holds⟩ := done
    exact ⟨rfl, holds⟩
  case failed.failed => exact ⟨rfl, done⟩
  all_goals first | exact done | exact False.elim done

theorem Alike.weaken {pre' fails' : State → State → Prop} {post' : α → State → State → Prop}
    (alike : Alike pre action post fails)
    (stronger : ∀ first second, pre' first second → pre first second)
    (weaker : ∀ value first second, post value first second → post' value first second)
    (worse : ∀ first second, fails first second → fails' first second) :
    Alike pre' action post' fails' := by
  intro left right related
  have done := alike left right (stronger _ _ related)
  cases one : action left <;> cases two : action right <;> rw [one, two] at done
  case ok.ok => exact ⟨done.1, weaker _ _ _ done.2⟩
  case failed.failed => exact worse _ _ done
  all_goals exact done

end Alike

end Machine

/-- Instructions, each with the type of its answer, one after the other. -/
inductive Program (Instruction : Type) (Answer : Instruction → Type) (α : Type) where
  | done (value : α)
  | ask (instruction : Instruction)
      (next : Answer instruction → Program Instruction Answer α)

namespace Program

variable {Instruction : Type} {Answer : Instruction → Type} {α β State : Type}

def bind : Program Instruction Answer α → (α → Program Instruction Answer β) →
    Program Instruction Answer β
  | done value, next => next value
  | ask instruction rest, next => ask instruction fun answer => (rest answer).bind next

instance : Monad (Program Instruction Answer) where
  pure := done
  bind := bind

/-- A single instruction. -/
def perform (instruction : Instruction) : Program Instruction Answer (Answer instruction) :=
  ask instruction done

/-- Run a program to its end. -/
def run (handle : (instruction : Instruction) → Machine State (Answer instruction)) :
    Program Instruction Answer α → Machine State α
  | done value => pure value
  | ask instruction next => do
      let answer ← handle instruction
      (next answer).run handle

section Run

variable {handle : (instruction : Instruction) → Machine State (Answer instruction)}

@[simp] theorem run_pure (value : α) :
    (pure value : Program Instruction Answer α).run handle = pure value := rfl

@[simp] theorem run_perform (instruction : Instruction) :
    (perform instruction).run handle = handle instruction := bind_pure (handle instruction)

@[simp] theorem run_bind (program : Program Instruction Answer α)
    (next : α → Program Instruction Answer β) :
    (program >>= next).run handle =
      program.run handle >>= fun value => (next value).run handle := by
  induction program with
  | done value => exact (pure_bind value fun value => (next value).run handle).symm
  | ask instruction rest ih =>
    change (handle instruction >>= fun answer => (rest answer >>= next).run handle) =
      (handle instruction >>= fun answer => (rest answer).run handle) >>= fun value =>
        (next value).run handle
    rw [bind_assoc]
    exact congrArg _ (funext ih)

end Run

/-- A program keeps what each of its instructions keeps. -/
theorem run_keeps {property : State → Prop}
    {handle : (instruction : Instruction) → Machine State (Answer instruction)}
    (kept : ∀ instruction, Machine.Keeps property (handle instruction))
    (program : Program Instruction Answer α) :
    Machine.Keeps property (program.run handle) := by
  induction program with
  | done value => exact Machine.Keeps.pure value
  | ask instruction next ih => exact Machine.Keeps.bind (kept instruction) ih

/-! ### Licences

What an instruction may be used for can depend on what the program has learnt before.
An instruction needs licences, and its answer gives some. -/

section Licences

variable {Licence : Type} {needs : Instruction → Licence → Prop}
  {gives : (instruction : Instruction) → Answer instruction → Licence → Prop}

/-- Every instruction of the program is covered by what was given before; `post` is
about what the program has at its end. -/
def Guarded (needs : Instruction → Licence → Prop)
    (gives : (instruction : Instruction) → Answer instruction → Licence → Prop) :
    (Licence → Prop) → Program Instruction Answer α → ((Licence → Prop) → α → Prop) → Prop
  | licences, .done value, post => post licences value
  | licences, .ask instruction next, post =>
      (∀ licence, needs instruction licence → licences licence) ∧
      ∀ answer, Guarded needs gives
        (fun licence => licences licence ∨ gives instruction answer licence) (next answer) post

variable {program : Program Instruction Answer α} {licences : Licence → Prop}

theorem Guarded.bind {next : α → Program Instruction Answer β}
    {middle : (Licence → Prop) → α → Prop} {post : (Licence → Prop) → β → Prop}
    (first : Guarded needs gives licences program middle)
    (second : ∀ licences value, middle licences value →
      Guarded needs gives licences (next value) post) :
    Guarded needs gives licences (program >>= next) post := by
  induction program generalizing licences with
  | done value => exact second licences value first
  | ask instruction rest ih => exact ⟨first.1, fun answer => ih answer (first.2 answer)⟩

theorem Guarded.weaken {first second : (Licence → Prop) → α → Prop}
    (guarded : Guarded needs gives licences program first)
    (implies : ∀ licences value, first licences value → second licences value) :
    Guarded needs gives licences program second := by
  induction program generalizing licences with
  | done value => exact implies licences value guarded
  | ask instruction rest ih => exact ⟨guarded.1, fun answer => ih answer (guarded.2 answer)⟩

/-- What each instruction does alike, under the licences it needs, a guarded program does
alike. -/
theorem Guarded.alike {related : (Licence → Prop) → State → State → Prop}
    {fails : State → State → Prop}
    {handle : (instruction : Instruction) → Machine State (Answer instruction)}
    (step : ∀ instruction licences, (∀ licence, needs instruction licence → licences licence) →
      Machine.Alike (related licences) (handle instruction) (fun answer => related fun licence =>
          licences licence ∨ gives instruction answer licence) fails)
    {post : (Licence → Prop) → α → Prop} (guarded : Guarded needs gives licences program post) :
    Machine.Alike (related licences) (program.run handle)
      (fun value first second => ∃ after, related after first second ∧ post after value)
      fails := by
  induction program generalizing licences with
  | done value => exact Machine.Alike.pure fun first second held => ⟨licences, held, guarded⟩
  | ask instruction rest ih =>
    exact (step instruction licences guarded.1).bind fun answer => ih answer (guarded.2 answer)

end Licences

end Program

end Gzochi.Lib
