import Gzochi.Managed.Records
import Gzochi.Btree.Page
import Mathlib.Data.Finset.Lattice.Fold
import Mathlib.Order.Interval.Finset.Nat

/-!
# Migrating an object graph

`gzochi-migrate` goes through the bindings of the application in the order of their names
and applies the visitor to the objects it finds from them.  An object's references are
put at the end of a queue before the visitor is applied to it, and a scratch store holds
the oids that were taken off the queue once.

The references of an object are looked for among its fields.  A field of another kind can
hold references as well, such as the vector in a managed vector: those are not found.

The storage engine is taken as a map from oids to records, and the names as a list of
entries in the order of their keys.
-/

namespace Gzochi.Tools

open List

open Gzochi.Managed (Rtd FieldValue ManagedRecord)

abbrev Oid := Nat

/-- A key of the `names` store. -/
abbrev Key := List (Fin 256)

/-- The prefix `"o."` of the bindings the application makes. -/
def userPrefix : Key := [111, 46]

variable {Value : Type}

/-- What the application has stored under each oid. -/
abbrev Objects (Value : Type) := Oid → Option (ManagedRecord Value)

/-- The fields of a record, those of the outermost parent type first. -/
def fieldValues : (rtd : Rtd) → rtd.Fields Value → List (FieldValue Value)
  | .managedRecord, _ => []
  | .extend _ _ parent _, (above, own) => fieldValues parent above ++ own.toList

/-- The loop of `reference-fields-inner` over the fields of one type. -/
def collectReferences : List (FieldValue Value) → List Oid → List Oid
  | [], oids => oids
  | .reference oid :: values, oids => collectReferences values (oid :: oids)
  | .false :: values, oids => collectReferences values oids
  | .other _ :: values, oids => collectReferences values oids

/-- `reference-fields-inner`. -/
def referenceFieldsInner : (rtd : Rtd) → rtd.Fields Value → List Oid → List Oid
  | .managedRecord, _, oids => oids
  | .extend _ _ parent _, (above, own), oids =>
      referenceFieldsInner parent above (collectReferences own.toList oids)

/-- `reference-fields`. -/
def referenceFields (record : ManagedRecord Value) : List Oid :=
  referenceFieldsInner record.rtd record.fields []

theorem mem_collectReferences (values : List (FieldValue Value)) (oids : List Oid) (oid : Oid) :
    oid ∈ collectReferences values oids ↔ .reference oid ∈ values ∨ oid ∈ oids := by
  induction values generalizing oids with
  | nil => simp [collectReferences]
  | cons value values ih =>
    cases value with
    | false | other value => simp [collectReferences, ih]
    | reference held =>
      simp only [collectReferences, ih, mem_cons, FieldValue.reference.injEq]
      tauto

theorem mem_referenceFieldsInner (rtd : Rtd) (fields : rtd.Fields Value) (oids : List Oid)
    (oid : Oid) :
    oid ∈ referenceFieldsInner rtd fields oids ↔
      .reference oid ∈ fieldValues rtd fields ∨ oid ∈ oids := by
  induction rtd generalizing oids with
  | managedRecord => simp [referenceFieldsInner, fieldValues]
  | extend id name parent numFields ih =>
    obtain ⟨above, own⟩ := fields
    simp only [referenceFieldsInner, fieldValues, ih, mem_collectReferences, mem_append]
    tauto

/-- A record's references as the migration finds them are the fields that are references,
of its type and of all its parents. -/
theorem mem_referenceFields (record : ManagedRecord Value) (oid : Oid) :
    oid ∈ referenceFields record ↔ .reference oid ∈ fieldValues record.rtd record.fields := by
  simp [referenceFields, mem_referenceFieldsInner]

/-- The references in a field; `held` gives those inside a value of another kind. -/
def FieldValue.references (held : Value → List Oid) : FieldValue Value → List Oid
  | .false => []
  | .reference oid => [oid]
  | .other value => held value

/-- All references stored in a record, whatever kind of field holds them. -/
def references (held : Value → List Oid) (record : ManagedRecord Value) : List Oid :=
  (fieldValues record.rtd record.fields).flatMap (FieldValue.references held)

theorem referenceFields_subset (held : Value → List Oid) (record : ManagedRecord Value) {oid : Oid}
    (found : oid ∈ referenceFields record) : oid ∈ references held record := by
  rw [mem_referenceFields] at found
  exact mem_flatMap.2 ⟨_, found, mem_singleton.2 rfl⟩

/-- What the visitor has become of the object it is applied to. -/
inductive Disposition (Value : Type)
  | remove
  | leave
  | replace (record : ManagedRecord Value)

/-- A visitor may change stored objects, and returns what becomes of its argument. -/
abbrev Visitor (Value : Type) :=
  Objects Value → Oid → ManagedRecord Value → Objects Value × Disposition Value

/-- `struct migration`, with the objects of the application, the key `run_migration` is at
and the objects the visitor was applied to, in that order. -/
structure Migration (Value : Type) where
  objects : Objects Value
  pendingOids : List Oid
  visitedOids : List Oid
  key : Option Key
  applied : List Oid

section Code

variable (visitor : Visitor Value) (dryRun : Bool) (names : List (Key × Oid))

/-- `migrate_object_tx`.  For an oid without an object there is only a warning.  The
references are enqueued before the visitor is applied, and a dry run undoes what it did. -/
def migrateObjectTx (m : Migration Value) (oid : Oid) : Migration Value :=
  match m.objects oid with
  | none => m
  | some record =>
      let (objects, disposition) := visitor m.objects oid record
      let objects := match disposition with
        | .remove => Function.update objects oid none
        | .leave => objects
        | .replace record => Function.update objects oid (some record)
      { m with
        objects := if dryRun then m.objects else objects
        pendingOids := m.pendingOids ++ referenceFields record
        applied := m.applied ++ [oid] }

/-- `migrate_object`. -/
def migrateObject (m : Migration Value) (oid : Oid) : Migration Value :=
  if oid ∈ m.visitedOids then m
  else migrateObjectTx visitor dryRun { m with visitedOids := oid :: m.visitedOids } oid

/-- `next_key`, with the oid the binding refers to. -/
def nextKey (lastKey : Option Key) : Option (Key × Oid) :=
  match names.find? fun entry => lastKey.getD userPrefix < entry.1 with
  | none => none
  | some entry => if userPrefix <+: entry.1 then some entry else none

/-- What `run_migration` takes up next: the oid at the head of the queue, or the one of the
next binding. -/
def nextOid (m : Migration Value) : Option (Migration Value × Oid) :=
  match m.pendingOids with
  | oid :: pending => some ({ m with pendingOids := pending }, oid)
  | [] =>
      match nextKey names m.key with
      | none => none
      | some (key, oid) => some ({ m with key := some key }, oid)

/-- `run_migration`, in at most `fuel` rounds of its loop. -/
def runMigration : (fuel : Nat) → Migration Value → Option (Migration Value)
  | 0, _ => none
  | fuel + 1, m =>
      match nextOid names m with
      | none => some m
      | some (m, oid) => runMigration fuel (migrateObject visitor dryRun m oid)

end Code

/-- What an application has stored before a migration: its objects, and its names in order.
Every oid that is stored anywhere was handed out. -/
structure ObjectGraph (Value : Type) where
  objects : Objects Value
  names : List (Key × Oid)
  sorted : names.Pairwise fun entry other => entry.1 < other.1
  oidBound : Oid
  names_lt : ∀ entry ∈ names, entry.2 < oidBound
  references_lt : ∀ {oid record}, objects oid = some record →
    ∀ other ∈ referenceFields record, other < oidBound

namespace ObjectGraph

variable (graph : ObjectGraph Value)

/-- A migration that has not begun. -/
def start : Migration Value := ⟨graph.objects, [], [], none, []⟩

/-- A binding of the application: the prefix, the name and the `NUL` after it. -/
def Bound (oid : Oid) : Prop :=
  ∃ key, (key, oid) ∈ graph.names ∧ userPrefix <+: key ∧ userPrefix < key

/-- An object refers to another in one of its fields. -/
def Refers (fields : ManagedRecord Value → List Oid) (oid other : Oid) : Prop :=
  ∃ record, graph.objects oid = some record ∧ other ∈ fields record

/-- A stored object that is reachable from a binding through references of some kind. -/
def Reachable (fields : ManagedRecord Value → List Oid) (oid : Oid) : Prop :=
  (graph.objects oid).isSome ∧
    ∃ root, graph.Bound root ∧ Relation.ReflTransGen (graph.Refers fields) root oid

end ObjectGraph

section Rounds

variable (graph : ObjectGraph Value) (visitor : Visitor Value) (dryRun : Bool)

namespace ObjectGraph

/-- A round of the loop of `run_migration`. -/
def round (m : Migration Value) : Migration Value :=
  match nextOid graph.names m with
  | none => m
  | some (m, oid) => migrateObject visitor dryRun m oid

/-- The migration before the round with this number. -/
def before (number : Nat) : Migration Value := (graph.round visitor dryRun)^[number] graph.start

/-- In the round with this number the loop comes to an oid for the first time. -/
def TakesUp (number : Nat) (oid : Oid) : Prop :=
  oid ∉ (graph.before visitor dryRun number).visitedOids ∧
    ∃ m, nextOid graph.names (graph.before visitor dryRun number) = some (m, oid)

/-- The object that the loop comes to has a field that is a reference, as it is stored before
the visitor is applied to it. -/
def FindsIn (number : Nat) (oid other : Oid) : Prop :=
  graph.TakesUp visitor dryRun number oid ∧
    ∃ record, (graph.before visitor dryRun number).objects oid = some record ∧
      other ∈ referenceFields record

def Finds (oid other : Oid) : Prop := ∃ number, graph.FindsIn visitor dryRun number oid other

/-- An oid to which a chain of references leads from a binding, each of them read when the loop
comes to the object that holds it. -/
def Led (oid : Oid) : Prop :=
  ∃ root, graph.Bound root ∧ Relation.ReflTransGen (graph.Finds visitor dryRun) root oid

/-- An object that is led to, and still stored when the loop comes to it. -/
def Met (oid : Oid) : Prop :=
  graph.Led visitor dryRun oid ∧ ∀ number, graph.TakesUp visitor dryRun number oid →
    ((graph.before visitor dryRun number).objects oid).isSome

end ObjectGraph

/-- A visitor that leaves the other objects of the application where they are, with the
references in their fields.  Objects that it creates have oids that were not handed out. -/
def Visitor.KeepsReferences (oidBound : Oid) : Prop :=
  ∀ objects oid record other, other < oidBound → other ≠ oid →
    ((visitor objects oid record).1 other).map referenceFields =
      (objects other).map referenceFields

end Rounds

section Keys

variable {α : Type} [LinearOrder α]

/-- What lies between a prefix of a key and the key has that prefix. -/
theorem prefix_of_between {start low high : List α} (above : ¬ low < start) (below : ¬ high < low)
    (inside : start <+: high) : start <+: low := by
  induction start generalizing low high with
  | nil => exact nil_prefix
  | cons a start ih =>
    obtain ⟨rest, rfl⟩ := inside
    cases low with
    | nil => exact absurd (nil_lt_cons a start) above
    | cons b low =>
      rw [cons_append, cons_lt_cons_iff, not_or, not_and] at below
      rw [cons_lt_cons_iff, not_or, not_and] at above
      have same : a = b := le_antisymm (not_lt.1 above.1) (not_lt.1 below.1)
      rw [cons_prefix_cons]
      exact ⟨same, ih (above.2 same.symm) (below.2 same) (prefix_append start rest)⟩

end Keys

/-- The first entry after a key is the least of those after it. -/
theorem find?_least {names : List (Key × Oid)} (sorted : names.Pairwise fun e f => e.1 < f.1)
    {key : Key} {first entry : Key × Oid}
    (found : names.find? (fun e => key < e.1) = some first) (member : entry ∈ names)
    (after : key < entry.1) : entry = first ∨ first.1 < entry.1 := by
  induction names with
  | nil => cases member
  | cons head names ih =>
    obtain ⟨least, sorted⟩ := pairwise_cons.1 sorted
    by_cases here : key < head.1
    · rw [List.find?_cons_of_pos (by simpa using here)] at found
      cases found
      rcases mem_cons.1 member with rfl | deeper
      · exact .inl rfl
      · exact .inr (least entry deeper)
    · rw [List.find?_cons_of_neg (by simpa using here)] at found
      rcases mem_cons.1 member with rfl | deeper
      · exact absurd after here
      · exact ih sorted found deeper

namespace ObjectGraph

variable {graph : ObjectGraph Value} {visitor : Visitor Value} {dryRun : Bool}
variable {m taken : Migration Value} {oid other : Oid} {number later : Nat} {key : Key}

variable (graph visitor dryRun) in
/-- How far a migration has come before the round with this number. -/
structure Progress (number : Nat) (m : Migration Value) : Prop where
  visited_iff : ∀ oid, oid ∈ m.visitedOids ↔
    ∃ round < number, graph.TakesUp visitor dryRun round oid
  applied_iff : ∀ oid, oid ∈ m.applied ↔ ∃ round < number, graph.TakesUp visitor dryRun round oid ∧
    ((graph.before visitor dryRun round).objects oid).isSome
  nodup : m.applied.Nodup
  /-- Whatever is taken up is led to. -/
  sound : ∀ oid, oid ∈ m.visitedOids ∨ oid ∈ m.pendingOids → graph.Led visitor dryRun oid
  /-- What was found in a visited object is visited or will be. -/
  closed : ∀ round < number, ∀ oid other, graph.FindsIn visitor dryRun round oid other →
    other ∈ m.visitedOids ∨ other ∈ m.pendingOids
  /-- So is what the bindings up to the current key refer to. -/
  bindings : ∀ entry ∈ graph.names, userPrefix < entry.1 → ¬ m.key.getD userPrefix < entry.1 →
    entry.2 ∈ m.visitedOids ∨ entry.2 ∈ m.pendingOids
  key_ge : ¬ m.key.getD userPrefix < userPrefix

theorem start_progress : graph.Progress visitor dryRun 0 graph.start where
  visited_iff := by simp [start]
  applied_iff := by simp [start]
  nodup := nodup_nil
  sound := by simp [start]
  closed := nofun
  bindings := fun _ _ after before => absurd after before
  key_ge := List.lt_irrefl _

/-- The next binding is put in an empty queue. -/
theorem Progress.binding (progress : graph.Progress visitor dryRun number m)
    (queue : m.pendingOids = []) (member : (key, oid) ∈ graph.names) (user : userPrefix <+: key)
    (above : userPrefix < key)
    (least : ∀ entry ∈ graph.names, m.key.getD userPrefix < entry.1 →
      entry = (key, oid) ∨ key < entry.1) :
    graph.Progress visitor dryRun number { m with key := some key, pendingOids := [oid] } where
  visited_iff := progress.visited_iff
  applied_iff := progress.applied_iff
  nodup := progress.nodup
  sound := by
    intro other taken
    rcases taken with visited | queued
    · exact progress.sound other (.inl visited)
    · rw [mem_singleton.1 queued]
      exact ⟨oid, ⟨key, member, user, above⟩, .refl⟩
  closed := by
    intro round early holder other finds
    rcases progress.closed round early holder other finds with done | queued
    · exact .inl done
    · rw [queue] at queued
      cases queued
  bindings := by
    intro entry there user_key until_key
    by_cases later : m.key.getD userPrefix < entry.1
    · rcases least entry there later with rfl | beyond
      · exact .inr mem_cons_self
      · exact absurd beyond until_key
    · rcases progress.bindings entry there user_key later with done | queued
      · exact .inl done
      · rw [queue] at queued
        cases queued
  key_ge := lt_asymm above

variable (graph) in
/-- The oids in the queue and the bindings that are still to come. -/
def left (m : Migration Value) : Nat :=
  m.pendingOids.length + (graph.names.filter fun entry => m.key.getD userPrefix < entry.1).length

theorem left_binding (queue : m.pendingOids = []) (member : (key, oid) ∈ graph.names)
    (after : m.key.getD userPrefix < key) :
    graph.left { m with key := some key, pendingOids := [oid] } ≤ graph.left m := by
  have fewer : (graph.names.filter fun entry => key < entry.1).length <
      (graph.names.filter fun entry => m.key.getD userPrefix < entry.1).length := by
    have nested : (graph.names.filter fun entry => key < entry.1) =
        (graph.names.filter fun entry => m.key.getD userPrefix < entry.1).filter
          fun entry => key < entry.1 := by
      rw [filter_filter]
      refine filter_congr fun entry _ => ?_
      have further : key < entry.1 → m.key.getD userPrefix < entry.1 :=
        fun later => lt_trans after later
      by_cases later : key < entry.1
      · simp [later, further later]
      · simp [later]
    rw [nested, length_filter_lt_length_iff_exists]
    exact ⟨(key, oid), mem_filter.2 ⟨member, by simpa using after⟩, by simp⟩
  unfold left
  simp only [queue, length_singleton, length_nil, Option.getD_some]
  omega

/-- Of the loop, what taking up the next oid amounts to: an oid that is at the head of the
queue is taken off it.  A binding counts as a queue of its own. -/
theorem nextOid_spec (progress : graph.Progress visitor dryRun number m)
    (next : nextOid graph.names m = some (taken, oid)) :
    ∃ queued : Migration Value, queued.pendingOids = oid :: taken.pendingOids ∧
      taken = { queued with pendingOids := taken.pendingOids } ∧
      graph.Progress visitor dryRun number queued ∧ graph.left queued ≤ graph.left m := by
  unfold nextOid at next
  split at next
  · rename_i head pending queue
    cases next
    exact ⟨m, queue, rfl, progress, Nat.le_refl _⟩
  · rename_i queue
    split at next
    · cases next
    rename_i key root binding
    cases next
    unfold nextKey at binding
    split at binding
    · cases binding
    rename_i entry found
    split at binding
    swap
    · cases binding
    rename_i user
    cases binding
    have member := mem_of_find?_eq_some found
    have after : m.key.getD userPrefix < key := by
      simpa using List.find?_some found
    have above : userPrefix < key := lt_of_le_of_lt (not_lt.1 progress.key_ge) after
    refine ⟨{ m with key := some key, pendingOids := [oid] }, ?_, ?_, ?_, ?_⟩
    · simp [queue]
    · simp [queue]
    · exact progress.binding queue member user above
        (fun entry there later => find?_least graph.sorted found there later)
    · exact left_binding queue member after

theorem nextOid_frame (next : nextOid graph.names m = some (taken, oid)) :
    taken.objects = m.objects ∧ taken.visitedOids = m.visitedOids := by
  unfold nextOid at next
  split at next
  · cases next
    exact ⟨rfl, rfl⟩
  · split at next
    · cases next
    · cases next
      exact ⟨rfl, rfl⟩

/-- What taking up an oid for the first time does. -/
theorem migrateObject_spec (visitor : Visitor Value) (dryRun : Bool)
    {found : Option (ManagedRecord Value)} (fresh : oid ∉ m.visitedOids)
    (stored : m.objects oid = found) :
    (migrateObject visitor dryRun m oid).visitedOids = oid :: m.visitedOids ∧
      (migrateObject visitor dryRun m oid).key = m.key ∧
      (migrateObject visitor dryRun m oid).pendingOids =
        m.pendingOids ++ (found.map referenceFields).getD [] ∧
      (migrateObject visitor dryRun m oid).applied =
        m.applied ++ (if found.isSome then [oid] else []) := by
  unfold migrateObject migrateObjectTx
  rw [if_neg fresh]
  cases found <;> simp [stored]

theorem before_succ (number : Nat) : graph.before visitor dryRun (number + 1) =
    graph.round visitor dryRun (graph.before visitor dryRun number) :=
  Function.iterate_succ_apply' _ _ _

/-- The loop comes to one oid in a round. -/
theorem TakesUp.eq (takes : graph.TakesUp visitor dryRun number other)
    (next : nextOid graph.names (graph.before visitor dryRun number) = some (taken, oid)) :
    other = oid := by
  obtain ⟨-, m, same⟩ := takes
  rw [next] at same
  cases same
  rfl

variable {queued : Migration Value} {rest : List Oid}

/-- A round in which no oid is taken up for the first time. -/
theorem Progress.skip (progress : graph.Progress visitor dryRun number queued)
    (none_ : ∀ oid, ¬ graph.TakesUp visitor dryRun number oid)
    (waiting : ∀ other ∈ queued.pendingOids, other ∈ queued.visitedOids ∨ other ∈ rest)
    (subset : rest ⊆ queued.pendingOids) :
    graph.Progress visitor dryRun (number + 1) { queued with pendingOids := rest } where
  visited_iff := by
    intro other
    rw [progress.visited_iff, Nat.exists_lt_succ_right]
    simp [none_]
  applied_iff := by
    intro other
    rw [progress.applied_iff, Nat.exists_lt_succ_right]
    simp [none_]
  nodup := progress.nodup
  sound := fun other taken => progress.sound other (taken.imp_right fun later => subset later)
  closed := by
    intro round early holder other finds
    rcases Nat.lt_succ_iff_lt_or_eq.1 early with earlier | rfl
    · exact (progress.closed round earlier holder other finds).elim .inl (waiting other)
    · exact absurd finds.1 (none_ holder)
  bindings := fun entry there user until_key =>
    (progress.bindings entry there user until_key).elim .inl (waiting entry.2)
  key_ge := progress.key_ge

/-- The oid at the head of the queue is taken up. -/
theorem Progress.migrate (progress : graph.Progress visitor dryRun number queued)
    (queue : queued.pendingOids = oid :: rest)
    (same : queued.objects = (graph.before visitor dryRun number).objects)
    (takes : graph.TakesUp visitor dryRun number oid) (fresh : oid ∉ queued.visitedOids)
    (only : ∀ other, graph.TakesUp visitor dryRun number other → other = oid) :
    graph.Progress visitor dryRun (number + 1)
      (migrateObject visitor dryRun { queued with pendingOids := rest } oid) := by
  obtain ⟨visitedOids, key, pendingOids, applied⟩ :=
    migrateObject_spec (m := { queued with pendingOids := rest }) visitor dryRun fresh
      (congrFun same oid)
  have finds_iff : ∀ other, graph.FindsIn visitor dryRun number oid other ↔ other ∈
      (((graph.before visitor dryRun number).objects oid).map referenceFields).getD [] := by
    intro other
    unfold FindsIn
    cases (graph.before visitor dryRun number).objects oid <;> simp [takes]
  -- What was waiting is visited now or still waits.
  have waiting : ∀ other, other ∈ queued.visitedOids ∨ other ∈ queued.pendingOids →
      other ∈ oid :: queued.visitedOids ∨ other ∈ rest ++
        (((graph.before visitor dryRun number).objects oid).map referenceFields).getD [] := by
    intro other taken
    rw [queue, mem_cons] at taken
    rcases taken with done | rfl | later
    · exact .inl (mem_cons_of_mem _ done)
    · exact .inl mem_cons_self
    · exact .inr (mem_append_left _ later)
  have led := progress.sound oid (.inr (by simp [queue]))
  constructor
  · intro other
    rw [visitedOids, mem_cons, progress.visited_iff, Nat.exists_lt_succ_right, or_comm]
    refine or_congr_right ⟨?_, only other⟩
    rintro rfl
    exact takes
  · intro other
    rw [applied, mem_append, progress.applied_iff, Nat.exists_lt_succ_right]
    refine or_congr_right ?_
    constructor
    · intro last
      split at last
      · rename_i stored
        rw [mem_singleton.1 last]
        exact ⟨takes, stored⟩
      · cases last
    · rintro ⟨also, stored⟩
      obtain rfl := only other also
      rw [if_pos stored]
      exact mem_singleton_self _
  · rw [applied]
    split
    · rw [nodup_append]
      refine ⟨progress.nodup, nodup_singleton _, ?_⟩
      rintro other there last here rfl
      rw [mem_singleton] at here
      subst here
      obtain ⟨round, early, again, -⟩ := (progress.applied_iff other).1 there
      exact fresh ((progress.visited_iff other).2 ⟨round, early, again⟩)
    · rw [append_nil]
      exact progress.nodup
  · intro other taken
    rw [visitedOids, pendingOids, mem_cons, mem_append] at taken
    rcases taken with (rfl | done) | later | found
    · exact led
    · exact progress.sound other (.inl done)
    · exact progress.sound other (.inr (by simp [queue, later]))
    · obtain ⟨root, bound, path⟩ := led
      exact ⟨root, bound, path.tail ⟨number, (finds_iff other).2 found⟩⟩
  · intro round early holder other finds
    rw [visitedOids, pendingOids]
    rcases Nat.lt_succ_iff_lt_or_eq.1 early with earlier | rfl
    · exact waiting other (progress.closed round earlier holder other finds)
    · obtain rfl := only holder finds.1
      exact .inr (mem_append_right _ ((finds_iff other).1 finds))
  · intro entry there user until_key
    rw [visitedOids, pendingOids]
    rw [key] at until_key
    exact waiting _ (progress.bindings entry there user until_key)
  · rw [key]
    exact progress.key_ge

/-- A round of the loop. -/
theorem Progress.round
    (progress : graph.Progress visitor dryRun number (graph.before visitor dryRun number)) :
    graph.Progress visitor dryRun (number + 1) (graph.before visitor dryRun (number + 1)) := by
  rw [before_succ, ObjectGraph.round]
  cases next : nextOid graph.names (graph.before visitor dryRun number) with
  | none =>
    refine progress.skip (fun oid takes => ?_) (fun other waits => .inr waits)
      (Subset.refl _)
    obtain ⟨-, m, some_⟩ := takes
    rw [next] at some_
    cases some_
  | some pair =>
    obtain ⟨taken, oid⟩ := pair
    have only : ∀ other, graph.TakesUp visitor dryRun number other → other = oid :=
      fun other takes => takes.eq next
    obtain ⟨queued, queue, same, waits, -⟩ := nextOid_spec progress next
    obtain ⟨objects, visitedOids⟩ := nextOid_frame next
    rw [same] at objects visitedOids
    dsimp only at objects visitedOids ⊢
    rw [same]
    by_cases visited : oid ∈ queued.visitedOids
    · rw [migrateObject, if_pos visited]
      refine waits.skip (fun other takes => ?_) (fun other there => ?_) ?_
      · obtain rfl := only other takes
        exact takes.1 (visitedOids ▸ visited)
      · rw [queue, mem_cons] at there
        rcases there with rfl | later
        · exact .inl visited
        · exact .inr later
      · rw [queue]
        exact subset_cons_self _ _
    · exact waits.migrate queue objects ⟨visitedOids ▸ visited, taken, next⟩ visited only

variable (graph) in
theorem before_progress (visitor : Visitor Value) (dryRun : Bool) (number : Nat) :
    graph.Progress visitor dryRun number (graph.before visitor dryRun number) := by
  induction number with
  | zero => exact start_progress
  | succ number ih => exact ih.round

/-- An oid is taken up once. -/
theorem TakesUp.unique (first : graph.TakesUp visitor dryRun number oid)
    (second : graph.TakesUp visitor dryRun later oid) : number = later := by
  have visited {early late : Nat} (before : early < late)
      (takes : graph.TakesUp visitor dryRun early oid)
      (again : graph.TakesUp visitor dryRun late oid) : False :=
    again.1 (((before_progress graph visitor dryRun late).visited_iff oid).2 ⟨early, before, takes⟩)
  rcases Nat.lt_trichotomy number later with before | same | after
  · exact (visited before first second).elim
  · exact same
  · exact (visited after second first).elim

/-- When nothing is left to take up, the loop stays where it is. -/
theorem before_of_done (done : nextOid graph.names (graph.before visitor dryRun number) = none)
    (after : number ≤ later) :
    graph.before visitor dryRun later = graph.before visitor dryRun number := by
  induction later, after using Nat.le_induction with
  | base => rfl
  | succ later _ ih => rw [before_succ, ih, ObjectGraph.round, done]

theorem TakesUp.lt (takes : graph.TakesUp visitor dryRun later oid)
    (done : nextOid graph.names (graph.before visitor dryRun number) = none) : later < number := by
  by_contra after
  obtain ⟨-, m, next⟩ := takes
  rw [before_of_done done (not_lt.1 after), done] at next
  cases next

/-- When nothing is left to take up, every binding was. -/
theorem Progress.bound_visited (progress : graph.Progress visitor dryRun number m)
    (done : nextOid graph.names m = none) :
    m.pendingOids = [] ∧ ∀ oid, graph.Bound oid → oid ∈ m.visitedOids := by
  unfold nextOid at done
  split at done
  · cases done
  rename_i queue
  split at done
  swap
  · cases done
  rename_i last
  refine ⟨queue, ?_⟩
  rintro oid ⟨key, member, user, above⟩
  by_cases later : m.key.getD userPrefix < key
  · -- The first entry after the current key would be a binding of the application too.
    exfalso
    unfold nextKey at last
    split at last
    · rename_i missing
      have none_later := List.find?_eq_none.1 missing (key, oid) member
      exact none_later (by simpa using later)
    · rename_i first found
      have after : m.key.getD userPrefix < first.1 := by
        simpa using List.find?_some found
      have until_key : ¬ key < first.1 := by
        rcases find?_least graph.sorted found member later with same | less
        · rw [← same]
          exact lt_irrefl key
        · exact lt_asymm less
      have from_prefix : ¬ first.1 < userPrefix := fun less =>
        progress.key_ge (lt_trans after less)
      rw [if_pos (prefix_of_between from_prefix until_key user)] at last
      cases last
  · rcases progress.bindings (key, oid) member above later with visited | queued
    · exact visited
    · rw [queue] at queued
      cases queued

/-- What is found in an object that was taken up is visited when the loop ends. -/
theorem FindsIn.visited (finds : graph.FindsIn visitor dryRun later oid other)
    (done : nextOid graph.names (graph.before visitor dryRun number) = none) :
    other ∈ (graph.before visitor dryRun number).visitedOids := by
  have progress := before_progress graph visitor dryRun number
  rcases progress.closed later (finds.1.lt done) oid other finds with visited | queued
  · exact visited
  · rw [(progress.bound_visited done).1] at queued
    cases queued

/-- A migration that has ended was applied to what it has met. -/
theorem applied_iff_met (done : nextOid graph.names (graph.before visitor dryRun number) = none)
    (oid : Oid) :
    oid ∈ (graph.before visitor dryRun number).applied ↔ graph.Met visitor dryRun oid := by
  have progress := before_progress graph visitor dryRun number
  rw [progress.applied_iff]
  constructor
  · rintro ⟨round, early, takes, stored⟩
    refine ⟨progress.sound oid (.inl ((progress.visited_iff oid).2 ⟨round, early, takes⟩)), ?_⟩
    intro later again
    rwa [← takes.unique again]
  · rintro ⟨⟨root, bound, path⟩, stored⟩
    have visited : oid ∈ (graph.before visitor dryRun number).visitedOids := by
      clear stored
      -- The visited oids have the roots and are closed under what is found.
      induction path with
      | refl => exact (progress.bound_visited done).2 root bound
      | tail _ finds ih =>
        obtain ⟨round, finds⟩ := finds
        exact finds.visited done
    obtain ⟨round, early, takes⟩ := (progress.visited_iff oid).1 visited
    exact ⟨round, early, takes, stored round takes⟩

theorem runMigration_iff (visitor : Visitor Value) (dryRun : Bool) (final : Migration Value) :
    (∃ fuel, runMigration visitor dryRun graph.names fuel m = some final) ↔
      ∃ rounds, (graph.round visitor dryRun)^[rounds] m = final ∧
        nextOid graph.names final = none := by
  constructor
  · rintro ⟨fuel, ended⟩
    induction fuel generalizing m with
    | zero => cases ended
    | succ fuel ih =>
      rw [runMigration] at ended
      cases next : nextOid graph.names m with
      | none =>
        rw [next] at ended
        cases ended
        exact ⟨0, rfl, next⟩
      | some pair =>
        rw [next] at ended
        obtain ⟨rounds, same, done⟩ := ih ended
        refine ⟨rounds + 1, ?_, done⟩
        rw [Function.iterate_succ_apply, ObjectGraph.round, next, ← same]
  · rintro ⟨rounds, same, done⟩
    induction rounds generalizing m with
    | zero =>
      obtain rfl : m = final := same
      exact ⟨1, by rw [runMigration, done]⟩
    | succ rounds ih =>
      rw [Function.iterate_succ_apply] at same
      obtain ⟨fuel, ended⟩ := ih same
      rw [ObjectGraph.round] at ended
      cases next : nextOid graph.names m with
      | none =>
        rw [next] at ended
        exact ⟨fuel, ended⟩
      | some pair =>
        rw [next] at ended
        exact ⟨fuel + 1, by rw [runMigration, next]; exact ended⟩

section Bounded

/-- The oids up to a limit that were not visited. -/
def unvisited (limit : Oid) (m : Migration Value) : Nat :=
  ((Finset.range limit).filter (· ∉ m.visitedOids)).card

theorem unvisited_cons {limit : Oid} {fresh visited : Migration Value} (below : oid < limit)
    (new : oid ∉ fresh.visitedOids) (same : visited.visitedOids = oid :: fresh.visitedOids) :
    unvisited limit visited < unvisited limit fresh := by
  refine Finset.card_lt_card (Finset.ssubset_iff_subset_ne.2 ⟨?_, fun equal => ?_⟩)
  · intro other there
    rw [Finset.mem_filter, same, mem_cons, not_or] at there
    exact Finset.mem_filter.2 ⟨there.1, there.2.2⟩
  · have there : oid ∈ (Finset.range limit).filter (· ∉ fresh.visitedOids) :=
      Finset.mem_filter.2 ⟨Finset.mem_range.2 below, new⟩
    rw [← equal, Finset.mem_filter, same] at there
    exact there.2 mem_cons_self

variable {limit : Oid} (below : ∀ oid, graph.Led visitor dryRun oid → oid < limit)
include below

/-- A round uses up an oid that was not visited, or else what was left. -/
theorem round_less (some_ : nextOid graph.names (graph.before visitor dryRun number) ≠ none) :
    unvisited limit (graph.before visitor dryRun (number + 1)) <
        unvisited limit (graph.before visitor dryRun number) ∨
      unvisited limit (graph.before visitor dryRun (number + 1)) =
          unvisited limit (graph.before visitor dryRun number) ∧
        graph.left (graph.before visitor dryRun (number + 1)) <
          graph.left (graph.before visitor dryRun number) := by
  have progress := before_progress graph visitor dryRun number
  obtain ⟨⟨taken, oid⟩, next⟩ := Option.ne_none_iff_exists'.1 some_
  obtain ⟨queued, queue, same, waits, less⟩ := nextOid_spec progress next
  have unchanged :
      unvisited limit taken = unvisited limit (graph.before visitor dryRun number) := by
    rw [unvisited, (nextOid_frame next).2]
    rfl
  have round : graph.before visitor dryRun (number + 1) =
      migrateObject visitor dryRun taken oid := by
    rw [before_succ, ObjectGraph.round, next]
  rw [round, ← unchanged]
  by_cases visited : oid ∈ taken.visitedOids
  · refine .inr ⟨?_, ?_⟩
    · rw [migrateObject, if_pos visited]
    · refine Nat.lt_of_lt_of_le ?_ less
      rw [migrateObject, if_pos visited, same, left, left, queue, length_cons]
      dsimp only
      omega
  · have led := waits.sound oid (.inr (queue ▸ mem_cons_self))
    exact .inl (unvisited_cons (below oid led) visited
      (migrateObject_spec visitor dryRun visited rfl).1)

/-- When what is led to stays below a limit, the loop ends. -/
theorem ends_of_bounded :
    ∃ number, nextOid graph.names (graph.before visitor dryRun number) = none := by
  suffices ∀ fresh left number, unvisited limit (graph.before visitor dryRun number) ≤ fresh →
      graph.left (graph.before visitor dryRun number) ≤ left →
      ∃ later, nextOid graph.names (graph.before visitor dryRun later) = none from
    this _ _ 0 (Nat.le_refl _) (Nat.le_refl _)
  intro fresh
  induction fresh using Nat.strong_induction_on with
  | _ fresh more =>
    intro left
    induction left using Nat.strong_induction_on with
    | _ left less =>
      intro number few short
      by_cases done : nextOid graph.names (graph.before visitor dryRun number) = none
      · exact ⟨number, done⟩
      · rcases round_less below done with fewer | ⟨same, shorter⟩
        · exact more _ (Nat.lt_of_lt_of_le fewer few) _ _ (Nat.le_refl _) (Nat.le_refl _)
        · exact less _ (Nat.lt_of_lt_of_le shorter short) _ (same ▸ few) (Nat.le_refl _)

end Bounded

/-- The loop ends exactly when the references that are found stay below a bound. -/
theorem ends_iff (visitor : Visitor Value) (dryRun : Bool) :
    (∃ number, nextOid graph.names (graph.before visitor dryRun number) = none) ↔
      ∃ bound, ∀ oid other, graph.Finds visitor dryRun oid other → other < bound := by
  constructor
  · rintro ⟨number, done⟩
    refine ⟨(graph.before visitor dryRun number).visitedOids.toFinset.sup id + 1, ?_⟩
    rintro oid other ⟨round, finds⟩
    exact Nat.lt_succ_of_le (Finset.le_sup (f := id) (mem_toFinset.2 (finds.visited done)))
  · rintro ⟨bound, below⟩
    have limited : ∀ oid, graph.Led visitor dryRun oid → oid < max bound graph.oidBound := by
      rintro oid ⟨root, ⟨key, member, -⟩, path⟩
      rcases path.cases_tail with rfl | ⟨holder, -, finds⟩
      · exact lt_max_of_lt_right (graph.names_lt _ member)
      · exact lt_max_of_lt_left (below _ _ finds)
    exact ends_of_bounded limited

section Keeps

variable (keeps : dryRun = true ∨ visitor.KeepsReferences graph.oidBound)
include keeps

theorem migrateObject_keeps (m : Migration Value) (oid : Oid) (below : other < graph.oidBound)
    (differs : other ≠ oid) :
    ((migrateObject visitor dryRun m oid).objects other).map referenceFields =
      (m.objects other).map referenceFields := by
  unfold migrateObject migrateObjectTx
  split
  · rfl
  cases m.objects oid with
  | none => rfl
  | some record =>
    rcases keeps with rfl | keeps
    · rfl
    · have same := keeps m.objects oid record other below differs
      cases dryRun with
      | true => rfl
      | false =>
        simp only
        cases (visitor m.objects oid record).2 with
        | remove | replace record => simpa [Function.update_of_ne differs] using same
        | leave => simpa using same

/-- Objects that were not taken up yet have the references they were stored with. -/
theorem before_kept (number : Nat) (below : oid < graph.oidBound)
    (fresh : oid ∉ (graph.before visitor dryRun number).visitedOids) :
    ((graph.before visitor dryRun number).objects oid).map referenceFields =
      (graph.objects oid).map referenceFields := by
  induction number with
  | zero => rfl
  | succ number ih =>
    rw [before_succ, ObjectGraph.round] at fresh ⊢
    cases next : nextOid graph.names (graph.before visitor dryRun number) with
    | none =>
      rw [next] at fresh
      exact ih fresh
    | some pair =>
      obtain ⟨taken, holder⟩ := pair
      obtain ⟨objects, visitedOids⟩ := nextOid_frame next
      rw [← objects, ← visitedOids] at ih
      rw [next] at fresh
      dsimp only at fresh ⊢
      by_cases visited : holder ∈ taken.visitedOids
      · rw [migrateObject, if_pos visited] at fresh ⊢
        exact ih fresh
      · rw [(migrateObject_spec visitor dryRun visited rfl).1, mem_cons, not_or] at fresh
        rw [migrateObject_keeps keeps taken holder below fresh.1]
        exact ih fresh.2

theorem FindsIn.refers (finds : graph.FindsIn visitor dryRun number oid other)
    (below : oid < graph.oidBound) : graph.Refers referenceFields oid other := by
  obtain ⟨⟨fresh, -⟩, record, stored, holds⟩ := finds
  have kept := before_kept keeps number below fresh
  rw [stored] at kept
  obtain ⟨original, at_oid, same⟩ := Option.map_eq_some_iff.1 kept.symm
  exact ⟨original, at_oid, same ▸ holds⟩

theorem Refers.finds (refers : graph.Refers referenceFields oid other)
    (takes : graph.TakesUp visitor dryRun number oid) (below : oid < graph.oidBound) :
    graph.FindsIn visitor dryRun number oid other := by
  obtain ⟨record, stored, holds⟩ := refers
  have kept := before_kept keeps number below takes.1
  rw [stored] at kept
  obtain ⟨now, at_oid, same⟩ := Option.map_eq_some_iff.1 kept
  exact ⟨takes, now, at_oid, same ▸ holds⟩

/-- What is led to was handed out, and is reachable through fields that are references. -/
theorem Led.reachable (led : graph.Led visitor dryRun oid) : oid < graph.oidBound ∧
    ∃ root, graph.Bound root ∧ Relation.ReflTransGen (graph.Refers referenceFields) root oid := by
  obtain ⟨root, bound, path⟩ := led
  induction path with
  | refl =>
    obtain ⟨key, member, -⟩ := id bound
    exact ⟨graph.names_lt _ member, root, bound, .refl⟩
  | tail _ finds ih =>
    obtain ⟨below, root, bound, path⟩ := ih
    obtain ⟨round, finds⟩ := finds
    have refers := finds.refers keeps below
    obtain ⟨record, stored, holds⟩ := id refers
    exact ⟨graph.references_lt stored _ holds, root, bound, path.tail refers⟩

/-- What is met is what is reachable through fields that are references. -/
theorem met_iff_reachable
    (done : nextOid graph.names (graph.before visitor dryRun number) = none) (oid : Oid) :
    graph.Met visitor dryRun oid ↔ graph.Reachable referenceFields oid := by
  have progress := before_progress graph visitor dryRun number
  have stored_iff {round : Nat} (led : graph.Led visitor dryRun oid)
      (takes : graph.TakesUp visitor dryRun round oid) :
      ((graph.before visitor dryRun round).objects oid).isSome = (graph.objects oid).isSome := by
    simpa using congrArg Option.isSome (before_kept keeps round (led.reachable keeps).1 takes.1)
  constructor
  · intro met
    have visited := (progress.applied_iff oid).1 ((applied_iff_met done oid).2 met)
    obtain ⟨round, -, takes, stored⟩ := visited
    exact ⟨stored_iff met.1 takes ▸ stored, (met.1.reachable keeps).2⟩
  · rintro ⟨stored, root, bound, path⟩
    have visited : oid ∈ (graph.before visitor dryRun number).visitedOids := by
      clear stored stored_iff
      induction path with
      | refl => exact (progress.bound_visited done).2 root bound
      | tail _ refers ih =>
        obtain ⟨round, -, takes⟩ := (progress.visited_iff _).1 ih
        have below := ((progress.sound _ (.inl ih)).reachable keeps).1
        exact (refers.finds keeps takes below).visited done
    have led := progress.sound oid (.inl visited)
    exact ⟨led, fun round takes => (stored_iff led takes).trans stored⟩

/-- The loop ends. -/
theorem ends_of_keeps :
    ∃ number, nextOid graph.names (graph.before visitor dryRun number) = none :=
  ends_of_bounded fun _ led => (led.reachable keeps).1

end Keeps

theorem Reachable.mono {fields more : ManagedRecord Value → List Oid}
    (subset : ∀ record, ∀ oid ∈ fields record, oid ∈ more record)
    (reachable : graph.Reachable fields oid) : graph.Reachable more oid := by
  obtain ⟨stored, root, bound, path⟩ := reachable
  refine ⟨stored, root, bound, path.lift id ?_⟩
  rintro from_oid other ⟨record, at_oid, holds⟩
  exact ⟨record, at_oid, subset record other holds⟩

/-- The visitor is applied once at most to an object. -/
theorem count_applied (visitor : Visitor Value) (dryRun : Bool) (number : Nat) (oid : Oid) :
    (graph.before visitor dryRun number).applied.count oid = 1 ↔
      oid ∈ (graph.before visitor dryRun number).applied := by
  have nodup := (before_progress graph visitor dryRun number).nodup
  rw [nodup.count]
  split <;> simp_all

end ObjectGraph

/-! ## Two graphs

An actor has a reference to its room and a vector with references, as a managed vector has
one.  In the first graph the room refers back to the actor; in the second it is in the
vector. -/

def actor : Rtd := .extend 0 "actor" .managedRecord 2

def actorRecord (room : FieldValue (List Oid)) (vector : List Oid) : ManagedRecord (List Oid) :=
  ⟨actor, ((), ⟨[room, .other vector], rfl⟩)⟩

/-- Two objects, of which the first one is bound to the name `a`. -/
def twoActors (first second : ManagedRecord (List Oid))
    (first_lt : ∀ oid ∈ referenceFields first, oid < 2)
    (second_lt : ∀ oid ∈ referenceFields second, oid < 2) : ObjectGraph (List Oid) where
  objects := fun oid => if oid = 0 then some first else if oid = 1 then some second else none
  names := [(userPrefix ++ [97, 0], 0)]
  sorted := pairwise_singleton ..
  oidBound := 2
  names_lt := by
    intro entry member
    cases mem_singleton.mp member
    exact Nat.zero_lt_two
  references_lt := by
    intro oid record stored
    split at stored
    · cases stored
      exact first_lt
    · split at stored
      · cases stored
        exact second_lt
      · cases stored

def leaveAll : Visitor (List Oid) := fun objects _ _ => (objects, .leave)

theorem leaveAll_keeps (oidBound : Oid) : leaveAll.KeepsReferences oidBound :=
  fun _ _ _ _ _ _ => rfl

def cyclicActors : ObjectGraph (List Oid) :=
  twoActors (actorRecord (.reference 1) [1]) (actorRecord (.reference 0) [0, 1])
    (by decide) (by decide)

def vectorActors : ObjectGraph (List Oid) :=
  twoActors (actorRecord .false [1]) (actorRecord .false []) (by decide) (by decide)

end Gzochi.Tools
