import Mathlib.Data.List.Basic

/-!
# Managed lists

The lists of managed pairs that `(gzochi data)` makes of Scheme lists.  A field that is
given a managed record keeps a reference to it, which its accessor dereferences to the same
record.  `gzochi:managed-list` passes the rest of its arguments on as one argument, a list,
and so never comes to the end of them.
-/

namespace Gzochi.Managed.Lists

/-- The Scheme values that lists are made of.  A `record` is a managed record that is not
a pair. -/
inductive Value
  | false
  | null
  | pair (car cdr : Value)
  | managedPair (ca cd : Value)
  | record (id : Nat)
deriving DecidableEq

/-- `gzochi:managed-record?`. -/
def Value.managedRecord? : Value → Bool
  | managedPair .. | record _ => .true
  | .false | null | pair .. => .false

/-- The Scheme list of some values. -/
def Value.ofList : List Value → Value
  | [] => null
  | car :: cdr => pair car (ofList cdr)

/-- `gzochi:cons`. -/
def cons (x y : Value) : Except String Value :=
  if (x.managedRecord? ∨ x = .false) ∧ (y.managedRecord? ∨ y = .false ∨ y = .null) then
    .ok (.managedPair x (if y = .null then .false else y))
  else
    .error "Arguments must be managed records."

/-- `gzochi:managed-list` of `h` and the further arguments `t`.  There is no result while
the fuel does not suffice. -/
def managedList : (fuel : Nat) → (h : Value) → (t : List Value) → Option (Except String Value)
  | 0, _, _ => none
  | _ + 1, h, [] => some (cons h .null)
  | fuel + 1, h, car :: cdr =>
      (managedList fuel car [.ofList cdr]).map fun rest => rest.bind (cons h)

/-- `gzochi:managed-list->list`.  The accessors raise for what is not a managed pair. -/
def managedListToList : Value → Except String Value
  | .false => .ok .null
  | .managedPair ca cd => (managedListToList cd).map (.pair ca)
  | .null | .pair .. | .record _ => .error "Wrong type argument"

/-- `gzochi:list->managed-list`. -/
def listToManagedList : Value → Except String Value
  | .null => .ok .false
  | .pair car cdr => (listToManagedList cdr).bind (cons car)
  | .false | .managedPair .. | .record _ => .error "Wrong type argument"

/-- The values that `gzochi:cons` takes in front. -/
def Value.Element (value : Value) : Prop := value.managedRecord? ∨ value = .false

theorem cons_ok {x y : Value} (first : x.Element) (rest : y.Element) :
    cons x y = .ok (.managedPair x y) := by
  have filled : y ≠ .null := by
    rintro rfl
    simp [Value.Element, Value.managedRecord?] at rest
  unfold cons
  rw [if_pos ⟨first, rest.elim .inl fun ends => .inr (.inl ends)⟩, if_neg filled]

theorem listToManagedList_ofList {list : List Value} (elements : ∀ x ∈ list, x.Element) :
    ∃ managed, listToManagedList (.ofList list) = .ok managed ∧ managed.Element ∧
      managedListToList managed = .ok (.ofList list) := by
  induction list with
  | nil => exact ⟨.false, rfl, .inr rfl, rfl⟩
  | cons x list ih =>
    obtain ⟨managed, made, element, back⟩ := ih fun y member => elements y (.tail _ member)
    refine ⟨.managedPair x managed, ?_, .inl rfl, ?_⟩
    · simp only [Value.ofList, listToManagedList, made, Except.bind]
      exact cons_ok (elements x (.head _)) element
    · simp only [managedListToList, back]
      rfl

/-- The list in the place of the further arguments is never empty. -/
theorem managedList_rest (fuel : Nat) (h value : Value) : managedList fuel h [value] = none := by
  induction fuel generalizing h value with
  | zero => rfl
  | succ fuel ih => rw [managedList, ih, Option.map_none]

theorem managedList_several (fuel : Nat) (h car : Value) (cdr : List Value) :
    managedList fuel h (car :: cdr) = none := by
  cases fuel with
  | zero => rfl
  | succ fuel => rw [managedList, managedList_rest, Option.map_none]

theorem managed_list_ends_iff (list : List Value) (elements : ∀ x ∈ list, x.Element) :
    ∃ managed, listToManagedList (.ofList list) = .ok managed ∧
      managedListToList managed = .ok (.ofList list) ∧
      ∀ h t, list = h :: t → ((∃ fuel, managedList fuel h t = some (.ok managed)) ↔ t = []) := by
  obtain ⟨managed, made, _, back⟩ := listToManagedList_ofList elements
  refine ⟨managed, made, back, ?_⟩
  rintro h (_ | ⟨car, cdr⟩) rfl
  · have one := cons_ok (elements h (.head _)) (y := .false) (.inr rfl)
    simp only [Value.ofList, listToManagedList, Except.bind, one] at made
    cases made
    refine iff_of_true ⟨1, ?_⟩ rfl
    have first : h.Element := elements h (.head _)
    rw [managedList, cons, if_pos ⟨first, .inr (.inr rfl)⟩, if_pos rfl]
  · refine iff_of_false ?_ (List.cons_ne_nil car cdr)
    rintro ⟨fuel, ended⟩
    rw [managedList_several] at ended
    cases ended

theorem managed_list_ends_iff_of_two :
    ∃ managed, listToManagedList (.ofList [.record 1, .false]) = .ok managed ∧
      managedListToList managed = .ok (.ofList [.record 1, .false]) ∧
      ∀ h t, [Value.record 1, .false] = h :: t →
        ((∃ fuel, managedList fuel h t = some (.ok managed)) ↔ t = []) :=
  managed_list_ends_iff [.record 1, .false] (by simp [Value.Element, Value.managedRecord?])

theorem two_elements_never_end : ¬ ∀ h t, (∀ x ∈ h :: t, x.Element) → ∃ fuel managed,
      managedList fuel h t = some (.ok managed) ∧
        listToManagedList (.ofList (h :: t)) = .ok managed := by
  intro ends
  obtain ⟨fuel, managed, ended, _⟩ :=
    ends (.record 1) [.record 2] (by simp [Value.Element, Value.managedRecord?])
  rw [managedList_several] at ended
  cases ended

end Gzochi.Managed.Lists
