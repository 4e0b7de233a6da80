import Mathlib.Data.List.InsertIdx
import Mathlib.Order.Bounds.Defs
import Mathlib.Order.Fin.Basic
import Gzochi.Btree.Page

/-!
# Pages in ascending order

The comparisons of the source, first by `memcmp` and then by the lengths, are the
lexicographic order of byte strings.  On a page whose keys ascend, the place of a key
separates the smaller records from the greater ones.
-/

namespace Gzochi.Btree

open List

/-- What `memcmp` leaves open is decided by the lengths. -/
theorem memcmp_spec (first second : Bytes) :
    match memcmp first second with
    | .lt => first < second
    | .gt => second < first
    | .eq =>
      (first.length < second.length → first < second) ∧
      (first.length = second.length → first = second) ∧
      (second.length < first.length → second < first) := by
  induction first generalizing second with
  | nil =>
    cases second with
    | nil => simp [memcmp]
    | cons head tail => simp [memcmp, nil_lt_cons]
  | cons head tail ih =>
    cases second with
    | nil => simp [memcmp, nil_lt_cons]
    | cons head' tail' =>
      rw [memcmp]
      by_cases less : head < head'
      · rw [if_pos less]
        exact cons_lt_cons_iff.mpr (.inl less)
      · by_cases greater : head' < head
        · rw [if_neg less, if_pos greater]
          exact cons_lt_cons_iff.mpr (.inl greater)
        · have same : head = head' := le_antisymm (not_lt.mp greater) (not_lt.mp less)
          subst same
          rw [if_neg less, if_neg less]
          have rest := ih tail'
          cases compared : memcmp tail tail' with
          | lt | gt =>
            rw [compared] at rest
            exact cons_lt_cons_iff.mpr (.inr ⟨rfl, rest⟩)
          | eq =>
            rw [compared] at rest
            simpa [cons_lt_cons_iff] using rest

/-- `compare_page_datum_to_key` compares in byte-lexicographic order. -/
theorem compareRecordToKey_spec (record : Record) (key : Bytes) :
    match compareRecordToKey record key with
    | .lt => record.key < key
    | .eq => record.key = key
    | .gt => key < record.key := by
  have decided := memcmp_spec record.key key
  rw [compareRecordToKey]
  cases compared : memcmp record.key key with
  | lt | gt =>
    rw [compared] at decided
    exact decided
  | eq =>
    rw [compared] at decided
    obtain ⟨less, same, greater⟩ := decided
    rcases Nat.lt_trichotomy record.key.length key.length with shorter | equal | longer
    · simpa [shorter.ne, shorter] using less shorter
    · simpa [equal] using same equal
    · simpa [longer.ne', longer.not_gt] using greater longer

theorem compareRecordToKey_eq_iff (record : Record) (key : Bytes) :
    compareRecordToKey record key = .eq ↔ record.key = key := by
  have decided := compareRecordToKey_spec record key
  cases compared : compareRecordToKey record key <;> rw [compared] at decided
  case lt => simpa using ne_of_lt decided
  case eq => simpa using decided
  case gt => simpa using ne_of_gt decided

/-- What follows a key are the keys from `key_after` on. -/
theorem keyAfter_le_iff (key other : Bytes) : keyAfter key ≤ other ↔ key < other := by
  rw [← not_lt]
  induction key generalizing other with
  | nil =>
    cases other with
    | nil => simp [keyAfter, nil_lt_cons]
    | cons head tail => simp [keyAfter, cons_lt_cons_iff]
  | cons head tail ih =>
    cases other with
    | nil => simp [keyAfter, nil_lt_cons]
    | cons head' tail' =>
      rw [keyAfter, cons_append, cons_lt_cons_iff, cons_lt_cons_iff, ← ih tail']
      rcases lt_trichotomy head head' with less | same | greater
      · simp [less, less.not_gt, less.ne']
      · simp [same, keyAfter]
      · simp [greater, greater.not_gt, greater.ne']

/-- Every key but the empty one comes after the key that `first_key` starts from. -/
theorem zero_le_iff (key : Bytes) : [0] ≤ key ↔ key ≠ [] := by
  have after := keyAfter_le_iff [] key
  rw [keyAfter, nil_append] at after
  rw [after]
  cases key with
  | nil => simp
  | cons head tail => simp [nil_lt_cons]

/-- The keys of the records ascend, and so no key stands twice. -/
def Ascending (page : Page) : Prop := page.Pairwise fun first second => first.key < second.key

/-- The records under other keys. -/
def otherRecords (key : Bytes) (page : Page) : Page := page.filter fun record => record.key ≠ key

/-- The place of a key separates what is smaller from what is greater; the record under
the key itself, if there is one, stands between the two. -/
theorem page_around {page : Page} (ascending : Ascending page) (key : Bytes) :
    ∃ smaller greater : Page, (∀ record ∈ smaller, record.key < key) ∧
      (∀ record ∈ greater, key < record.key) ∧ pageKeyOffset page key = smaller.length ∧
      (page = smaller ++ greater ∨ ∃ old, old.key = key ∧ page = smaller ++ old :: greater) := by
  induction page with
  | nil => exact ⟨[], [], nofun, nofun, rfl, .inl rfl⟩
  | cons record rest ih =>
    obtain ⟨first, later⟩ := pairwise_cons.mp ascending
    have compared := compareRecordToKey_spec record key
    cases outcome : compareRecordToKey record key with
    | lt =>
      rw [outcome] at compared
      obtain ⟨smaller, greater, below, above, offset, shape⟩ := ih later
      refine ⟨record :: smaller, greater, ?_, above, ?_, ?_⟩
      · intro other member
        rcases mem_cons.mp member with same | member
        · rw [same]
          exact compared
        · exact below other member
      · rw [pageKeyOffset, findIdx_cons, outcome]
        exact congrArg (· + 1) offset
      · rcases shape with shape | ⟨old, same, shape⟩
        · exact .inl (by rw [shape, cons_append])
        · exact .inr ⟨old, same, by rw [shape, cons_append]⟩
    | eq =>
      rw [outcome] at compared
      refine ⟨[], rest, nofun, ?_, ?_, .inr ⟨record, compared, rfl⟩⟩
      · intro other member
        rw [← compared]
        exact first other member
      · rw [pageKeyOffset, findIdx_cons, outcome]
        rfl
    | gt =>
      rw [outcome] at compared
      refine ⟨[], record :: rest, nofun, ?_, ?_, .inl rfl⟩
      · intro other member
        rcases mem_cons.mp member with same | member
        · rw [same]
          exact compared
        · exact lt_trans compared (first other member)
      · rw [pageKeyOffset, findIdx_cons, outcome]
        rfl

section Around

variable {smaller greater : Page} {key : Bytes}

/-- What is smaller and what is greater are the records under other keys. -/
theorem otherRecords_append (below : ∀ record ∈ smaller, record.key < key)
    (above : ∀ record ∈ greater, key < record.key) :
    otherRecords key (smaller ++ greater) = smaller ++ greater := by
  rw [otherRecords, filter_eq_self]
  intro record member
  rcases mem_append.mp member with member | member
  · simpa using ne_of_lt (below record member)
  · simpa using ne_of_gt (above record member)

theorem insertIdx_length_append (smaller greater : Page) (record : Record) :
    (smaller ++ greater).insertIdx smaller.length record = smaller ++ record :: greater := by
  induction smaller with
  | nil => rfl
  | cons first rest ih =>
    rw [cons_append, length_cons, insertIdx_succ_cons, ih, cons_append]

theorem otherRecords_around (below : ∀ record ∈ smaller, record.key < key)
    (above : ∀ record ∈ greater, key < record.key) (old : Record) (same : old.key = key) :
    otherRecords key (smaller ++ old :: greater) = smaller ++ greater := by
  have rest := otherRecords_append below above
  rw [otherRecords, filter_append] at rest ⊢
  rw [filter_cons_of_neg (by simpa using same), rest]

theorem ascending_around (ascending : Ascending (smaller ++ greater)) (record : Record)
    (below : ∀ other ∈ smaller, other.key < record.key)
    (above : ∀ other ∈ greater, record.key < other.key) :
    Ascending (smaller ++ record :: greater) := by
  obtain ⟨left, right, across⟩ := pairwise_append.mp ascending
  refine pairwise_append.mpr ⟨left, pairwise_cons.mpr ⟨above, right⟩, ?_⟩
  intro first before second after
  rcases mem_cons.mp after with same | after
  · rw [same]
    exact below first before
  · exact across first before second after

end Around

section Offsets

variable {page : Page} {key : Bytes}

theorem pageKeyOffset_lt_length
    (found : comparePageDatumToKey page (pageKeyOffset page key) key = .eq) :
    pageKeyOffset page key < page.length := by
  rw [comparePageDatumToKey] at found
  by_contra beyond
  rw [List.getElem?_eq_none (Nat.le_of_not_lt beyond)] at found
  cases found

/-- The record under the key is taken out. -/
theorem eraseIdx_pageKeyOffset (ascending : Ascending page)
    (found : comparePageDatumToKey page (pageKeyOffset page key) key = .eq) :
    page.eraseIdx (pageKeyOffset page key) = otherRecords key page := by
  obtain ⟨smaller, greater, below, above, offset, shape⟩ := page_around ascending key
  rw [offset] at found ⊢
  rcases shape with shape | ⟨old, same, shape⟩
  · rw [comparePageDatumToKey, shape] at found
    cases next : greater with
    | nil => simp [next] at found
    | cons record rest =>
      have after := above record (by simp [next])
      simp only [next, List.getElem?_append_right (Nat.le_refl _), Nat.sub_self,
        List.getElem?_cons_zero, compareRecordToKey_eq_iff] at found
      exact absurd found (ne_of_gt after)
  · rw [shape, otherRecords_around below above old same,
      eraseIdx_append_of_length_le (Nat.le_refl _), Nat.sub_self, eraseIdx_cons_zero]

/-- Where the key is not found, there is nothing under it. -/
theorem otherRecords_of_missing (ascending : Ascending page)
    (missing : comparePageDatumToKey page (pageKeyOffset page key) key ≠ .eq) :
    otherRecords key page = page := by
  obtain ⟨smaller, greater, below, above, offset, shape⟩ := page_around ascending key
  rcases shape with shape | ⟨old, same, shape⟩
  · rw [shape]
    exact otherRecords_append below above
  · refine absurd ?_ missing
    rw [offset, comparePageDatumToKey, shape, List.getElem?_append_right (Nat.le_refl _),
      Nat.sub_self, List.getElem?_cons_zero]
    exact (compareRecordToKey_eq_iff old key).mpr same

/-- A new record goes where its key belongs. -/
theorem ascending_insertIdx (ascending : Ascending page) (record : Record) :
    Ascending
      ((otherRecords record.key page).insertIdx (pageKeyOffset page record.key) record) := by
  obtain ⟨smaller, greater, below, above, offset, shape⟩ := page_around ascending record.key
  have others : otherRecords record.key page = smaller ++ greater := by
    rcases shape with shape | ⟨old, same, shape⟩
    · rw [shape]
      exact otherRecords_append below above
    · rw [shape]
      exact otherRecords_around below above old same
  have rest : Ascending (smaller ++ greater) := by
    rw [← others]
    exact List.Pairwise.filter _ ascending
  rw [others, offset, insertIdx_length_append]
  exact ascending_around rest record below above

end Offsets

/-- The result is the least of these keys, and absent if there are none. -/
def LeastOf (keys : Set Bytes) : Option Bytes → Prop
  | none => keys = ∅
  | some found => IsLeast keys found

/-- The keys of the records. -/
def keysOf (records : List Record) : Set Bytes := {key | ∃ record ∈ records, record.key = key}

/-- The test in the loop of `find_key_gte` asks whether the record comes at or after the
key. -/
theorem firstKeyGte_cons (record : Record) (rest : Page) (key : Bytes) :
    firstKeyGte (record :: rest) key =
      if key ≤ record.key then some record.key else firstKeyGte rest key := by
  have decided := memcmp_spec key record.key
  rw [firstKeyGte]
  cases compared : memcmp key record.key with
  | lt =>
    rw [compared] at decided
    simp [le_of_lt decided]
  | gt =>
    rw [compared] at decided
    simp [not_le_of_gt decided]
  | eq =>
    rw [compared] at decided
    obtain ⟨less, same, greater⟩ := decided
    rcases Nat.lt_trichotomy key.length record.key.length with shorter | equal | longer
    · simp [le_of_lt (less shorter), shorter.le]
    · simp [same equal]
    · simp [not_le_of_gt (greater longer), not_le_of_gt longer]

/-- On an ascending page the loop finds the least key from the given one on. -/
theorem firstKeyGte_least {page : Page} (ascending : Ascending page) (key : Bytes) :
    LeastOf {found | found ∈ keysOf page ∧ key ≤ found} (firstKeyGte page key) := by
  induction page with
  | nil =>
    apply Set.eq_empty_iff_forall_notMem.mpr
    rintro found ⟨⟨record, member, _⟩, _⟩
    cases member
  | cons record rest ih =>
    obtain ⟨first, later⟩ := pairwise_cons.mp ascending
    rw [firstKeyGte_cons]
    by_cases reached : key ≤ record.key
    · rw [if_pos reached]
      refine ⟨⟨⟨record, mem_cons_self, rfl⟩, reached⟩, ?_⟩
      rintro found ⟨⟨other, member, rfl⟩, _⟩
      rcases mem_cons.mp member with same | member
      · rw [same]
      · exact le_of_lt (first other member)
    · have same : {found | found ∈ keysOf (record :: rest) ∧ key ≤ found} =
          {found | found ∈ keysOf rest ∧ key ≤ found} := by
        ext found
        constructor
        · rintro ⟨⟨other, member, rfl⟩, reaches⟩
          rcases mem_cons.mp member with same | member
          · exact absurd (same ▸ reaches) reached
          · exact ⟨⟨other, member, rfl⟩, reaches⟩
        · rintro ⟨⟨other, member, rfl⟩, reaches⟩
          exact ⟨⟨other, mem_cons_of_mem _ member, rfl⟩, reaches⟩
      rw [if_neg reached, same]
      exact ih later

/-- Where the smaller records stand in front, the loop finds the first of the others. -/
theorem firstKeyGte_append (early late : Page) (key : Bytes)
    (below : ∀ record ∈ early, record.key < key) (reached : ∀ record ∈ late, key ≤ record.key) :
    firstKeyGte (early ++ late) key = late.head?.map Record.key := by
  induction early with
  | nil =>
    cases late with
    | nil => rfl
    | cons record rest =>
      rw [nil_append, firstKeyGte_cons, if_pos (reached record mem_cons_self)]
      rfl
  | cons record rest ih =>
    rw [cons_append, firstKeyGte_cons, if_neg (not_le_of_gt (below record mem_cons_self))]
    exact ih fun other member => below other (mem_cons_of_mem _ member)

/-- From one key of an ascending page, `key_after` leads to the next. -/
theorem firstKeyGte_keyAfter {early late : Page} {record : Record}
    (ascending : Ascending (early ++ record :: late)) :
    firstKeyGte (early ++ record :: late) (keyAfter record.key) = late.head?.map Record.key := by
  obtain ⟨_, rest, across⟩ := pairwise_append.mp ascending
  obtain ⟨after, _⟩ := pairwise_cons.mp rest
  have passed : ∀ other : Record, other.key ≤ record.key → other.key < keyAfter record.key := by
    intro other behind
    exact not_le.mp fun beyond => not_lt_of_ge behind ((keyAfter_le_iff _ _).mp beyond)
  have split : early ++ record :: late = (early ++ [record]) ++ late := by simp
  rw [split]
  apply firstKeyGte_append
  · intro other member
    rcases mem_append.mp member with member | member
    · exact passed other (le_of_lt (across other member record mem_cons_self))
    · rw [mem_singleton.mp member]
      exact passed record (le_refl _)
  · intro other member
    exact (keyAfter_le_iff _ _).mpr (after other member)

end Gzochi.Btree
