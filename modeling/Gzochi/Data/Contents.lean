import Gzochi.Data.ObjectStore

/-!
# What the ids of an object store stand for

In a transaction an id stands for the object in memory if the object has been looked at, and
for what is stored under it otherwise.  A call of the data layer changes this for one id at
most; what a transaction has looked at but not marked is to be as it is stored when the
transaction ends.
-/

namespace Gzochi.Data

open Lib Option

variable {Kind Value Bytes Name : Type}

namespace ObjectStore

/-- The object is in memory, as one of the store. -/
def Located (store : ObjectStore Kind Value Bytes Name) (oid : Oid) (kind : Kind)
    (address : Address) : Prop :=
  store.knowledge oid = .loaded kind address ∨ store.knowledge oid = .changed kind address

/-- The object has been put into memory, or removed. -/
inductive Fetched (store : ObjectStore Kind Value Bytes Name) (oid : Oid) : Prop where
  | located {kind : Kind} {address : Address} (located : store.Located oid kind address)
  | removed (removed : store.knowledge oid = .removed)

/-- Neither stored nor used in the transaction. -/
def Unused (store : ObjectStore Kind Value Bytes Name) (oid : Oid) : Prop :=
  store.knowledge oid = .unknown ∧ store.stored oid = none

/-- What holds of every store that a data layer stands for. -/
structure WellFormed (store : ObjectStore Kind Value Bytes Name) : Prop where
  located : ∀ {oid kind address}, store.Located oid kind address →
    store.managed address = some oid
  known : ∀ {address oid}, store.managed address = some oid → store.memory address ≠ none ∧
    ((∃ kind, store.Located oid kind address) ∨ store.knowledge oid = .removed)
  below : ∀ {address}, store.memory address ≠ none → address < store.nextAddress

/-- The object of a kind that an id stands for. -/
def content [DecidableEq Kind] (codec : Codec Kind Value Bytes)
    (store : ObjectStore Kind Value Bytes Name) (kind : Kind) (oid : Oid) : Option Value :=
  match store.knowledge oid with
  | .unknown => (store.stored oid).bind (codec.deserializer kind)
  | .named serialization =>
      if serialization = kind then (store.stored oid).bind (codec.deserializer kind) else none
  | .loaded serialization address | .changed serialization address =>
      if serialization = kind then store.memory address else none
  | .failed _ | .removed => none

/-- An object that is not marked is as it is stored. -/
def Clean (codec : Codec Kind Value Bytes) (store : ObjectStore Kind Value Bytes Name)
    (oid : Oid) : Prop :=
  ∀ kind address, store.knowledge oid = .loaded kind address →
    store.memory address = (store.stored oid).bind (codec.deserializer kind)

/-- The id stands for the same as before. -/
structure Steady [DecidableEq Kind] (codec : Codec Kind Value Bytes)
    (store next : ObjectStore Kind Value Bytes Name) (oid : Oid) : Prop where
  content : ∀ kind, next.content codec kind oid = store.content codec kind oid
  clean : store.Clean codec oid → next.Clean codec oid

def allocate (store : ObjectStore Kind Value Bytes Name) (value : Value) :
    ObjectStore Kind Value Bytes Name :=
  { store with
    memory := update store.memory store.nextAddress (some value)
    nextAddress := store.nextAddress + 1 }

def assign (store : ObjectStore Kind Value Bytes Name) (address : Address) (value : Value) :
    ObjectStore Kind Value Bytes Name :=
  { store with memory := update store.memory address (some value) }

/-- The object at the address is a new one of the store. -/
def place (store : ObjectStore Kind Value Bytes Name) (kind : Kind) (address : Address)
    (fresh : Oid) : ObjectStore Kind Value Bytes Name :=
  { store.know fresh (.changed kind address) with
    managed := update store.managed address (some fresh) }

/-- The object is put into memory. -/
def fetch (store : ObjectStore Kind Value Bytes Name) (oid : Oid) (knowledge : Knowledge Kind)
    (value : Value) : ObjectStore Kind Value Bytes Name :=
  { store.know oid knowledge with
    memory := update store.memory store.nextAddress (some value)
    nextAddress := store.nextAddress + 1
    managed := update store.managed store.nextAddress (some oid) }

variable {codec : Codec Kind Value Bytes} {store next : ObjectStore Kind Value Bytes Name}
  {oid other : Oid} {kind : Kind} {address : Address} {value : Value}

theorem know_same (oid : Oid) (knowledge : Knowledge Kind) :
    (store.know oid knowledge).knowledge oid = knowledge :=
  update_same _ _ _

theorem know_other (knowledge : Knowledge Kind) (apart : other ≠ oid) :
    (store.know oid knowledge).knowledge other = store.knowledge other :=
  update_other _ _ apart

variable (wellFormed : store.WellFormed)
include wellFormed

theorem WellFormed.allocated
    (located : store.Located oid kind address) : store.memory address ≠ none :=
  (wellFormed.known (wellFormed.located located)).1

theorem WellFormed.unallocated : store.memory store.nextAddress = none := by
  by_contra there
  exact Nat.lt_irrefl _ (wellFormed.below there)

theorem WellFormed.apart (there : store.memory address ≠ none) : address ≠ store.nextAddress :=
  Nat.ne_of_lt (wellFormed.below there)

theorem WellFormed.unmanaged (absent : store.memory address = none) :
    store.managed address = none := by
  cases managed : store.managed address with
  | none => rfl
  | some oid => exact absurd absent (wellFormed.known managed).1

omit wellFormed

theorem Located.known (located : store.Located oid kind address) :
    store.knowledge oid ≠ .unknown := by
  intro unknown
  unfold Located at located
  rw [unknown] at located
  cases located with
  | inl loaded => cases loaded
  | inr changed => cases changed

variable {otherKind : Kind}

variable (located : store.Located oid kind address)
include located

theorem Located.not_named (named : store.knowledge oid = .named otherKind) : False := by
  unfold Located at located
  rw [named] at located
  cases located with
  | inl loaded => cases loaded
  | inr changed => cases changed

theorem Located.not_removed (removed : store.knowledge oid = .removed) : False := by
  unfold Located at located
  rw [removed] at located
  cases located with
  | inl loaded => cases loaded
  | inr changed => cases changed

theorem Located.unique {place : Address} (also : store.Located oid otherKind place) :
    otherKind = kind ∧ place = address := by
  cases located with
  | inl loaded =>
    cases also with
    | inl again =>
      rw [loaded] at again
      cases again
      exact ⟨rfl, rfl⟩
    | inr again =>
      rw [loaded] at again
      cases again
  | inr changed =>
    cases also with
    | inl again =>
      rw [changed] at again
      cases again
    | inr again =>
      rw [changed] at again
      cases again
      exact ⟨rfl, rfl⟩

omit located

theorem Located.know (located : store.Located other kind address) (knowledge : Knowledge Kind)
    (apart : other ≠ oid) : (store.know oid knowledge).Located other kind address := by
  unfold Located
  rw [know_other _ apart]
  exact located

theorem allocate_memory (wellFormed : store.WellFormed) (value : Value)
    (there : store.memory address ≠ none) :
    (store.allocate value).memory address = store.memory address := by
  apply update_other
  intro same
  exact there (same ▸ wellFormed.unallocated)

theorem assign_memory (store : ObjectStore Kind Value Bytes Name) (address : Address)
    (value : Value) : (store.assign address value).memory address = some value :=
  update_same _ _ _

theorem manage_managed (managed : store.managed address = some oid) (fresh : Oid) :
    store.manage kind address fresh = (store, oid) := by
  unfold manage
  rw [managed]

theorem manage_unmanaged (unmanaged : store.managed address = none) (fresh : Oid) :
    store.manage kind address fresh = (store.place kind address fresh, fresh) := by
  unfold manage
  rw [unmanaged]
  rfl

theorem place_changed (store : ObjectStore Kind Value Bytes Name) (kind : Kind)
    (address : Address) (fresh : Oid) :
    (store.place kind address fresh).knowledge fresh = .changed kind address :=
  know_same fresh _

theorem name_other (apart : other ≠ oid) :
    (store.name kind oid).knowledge other = store.knowledge other := by
  unfold name
  split
  · exact know_other _ apart
  · rfl

theorem name_located (located : store.Located other otherKind address) :
    (store.name kind oid).Located other otherKind address := by
  unfold name
  split
  next unknown =>
    have apart : other ≠ oid := by
      intro same
      unfold Located at located
      rw [same, unknown] at located
      cases located with
      | inl loaded => cases loaded
      | inr changed => cases changed
    unfold Located
    rw [know_other _ apart]
    exact located
  next => exact located

theorem name_known (kind : Kind) (oid : Oid) : (store.name kind oid).knowledge oid ≠ .unknown := by
  unfold name
  split
  · rw [know_same]
    nofun
  · assumption

theorem name_same (store : ObjectStore Kind Value Bytes Name) (kind : Kind) (oid : Oid) :
    (store.name kind oid).memory = store.memory ∧ (store.name kind oid).managed = store.managed ∧
      (store.name kind oid).stored = store.stored := by
  unfold name
  split <;> exact ⟨rfl, rfl, rfl⟩

theorem markFor_same (store : ObjectStore Kind Value Bytes Name) (oid : Oid) :
    (store.markFor oid).memory = store.memory ∧ (store.markFor oid).managed = store.managed ∧
      (store.markFor oid).stored = store.stored := by
  unfold markFor
  split <;> exact ⟨rfl, rfl, rfl⟩

theorem markFor_other (apart : other ≠ oid) :
    (store.markFor oid).knowledge other = store.knowledge other := by
  unfold markFor
  split
  · exact know_other _ apart
  · rfl

theorem markFor_located (located : store.Located oid kind address) :
    (store.markFor oid).knowledge oid = .changed kind address := by
  unfold markFor
  cases located with
  | inl loaded =>
    rw [loaded]
    exact know_same oid _
  | inr changed =>
    rw [changed]
    exact changed

/-- A marked object may be changed. -/
theorem markFor_clean (located : store.Located oid kind address) :
    (store.markFor oid).Clean codec oid := by
  intro kind' place loaded
  rw [markFor_located located] at loaded
  cases loaded

section

variable [DecidableEq Kind]

theorem content_located (located : store.Located oid kind address) (other : Kind) :
    store.content codec other oid = if kind = other then store.memory address else none := by
  unfold content
  cases located with
  | inl loaded => rw [loaded]
  | inr changed => rw [changed]

theorem content_unused (unused : store.Unused oid) (kind : Kind) :
    store.content codec kind oid = none := by
  rw [content, unused.1]
  simp only [unused.2, bind_none]

theorem content_used (stands : store.content codec kind oid = some value) : ¬store.Unused oid := by
  intro unused
  rw [content_unused unused] at stands
  cases stands

theorem content_remains (stands : store.content codec kind oid = some value) :
    store.knowledge oid ≠ .removed := by
  intro removed
  rw [content, removed] at stands
  cases stands

theorem content_readable (stands : store.content codec kind oid = some value)
    (otherKind : Kind) : store.knowledge oid ≠ .failed otherKind := by
  intro failed
  rw [content, failed] at stands
  cases stands

/-- What an id stands for depends on what is known and stored for it and on the object it is
located at. -/
theorem Steady.of_same (knowledge : next.knowledge oid = store.knowledge oid)
    (stored : next.stored oid = store.stored oid)
    (memory : ∀ kind address, store.Located oid kind address →
      next.memory address = store.memory address) : Steady codec store next oid where
  content := by
    intro kind
    unfold ObjectStore.content
    rw [knowledge, stored]
    cases knows : store.knowledge oid with
    | unknown | named _ | failed _ | removed => rfl
    | loaded serialization address =>
      simp only
      rw [memory serialization address (.inl knows)]
    | changed serialization address =>
      simp only
      rw [memory serialization address (.inr knows)]
  clean := by
    intro clean kind address loaded
    rw [knowledge] at loaded
    rw [memory kind address (.inl loaded), stored]
    exact clean kind address loaded

include wellFormed

theorem allocate_steady (value : Value) (oid : Oid) :
    Steady codec store (store.allocate value) oid := by
  apply Steady.of_same
  · rfl
  · rfl
  · intro kind address located
    apply update_other
    intro same
    exact wellFormed.allocated located (same ▸ wellFormed.unallocated)

theorem assign_steady (value : Value) (apart : store.managed address ≠ some oid) :
    Steady codec store (store.assign address value) oid := by
  apply Steady.of_same
  · rfl
  · rfl
  · intro kind place located
    apply update_other
    intro same
    apply apart
    rw [← same]
    exact wellFormed.located located

/-- Marked objects may be changed. -/
theorem assign_clean (value : Value) {kind : Kind}
    (changed : store.knowledge oid = .changed kind address) (other : Oid)
    (clean : store.Clean codec other) : (store.assign address value).Clean codec other := by
  by_cases same : other = oid
  · intro kind place loaded
    rw [same, show (store.assign address value).knowledge oid = store.knowledge oid from rfl,
      changed] at loaded
    cases loaded
  · apply (assign_steady wellFormed value _).clean clean
    intro managed
    rw [wellFormed.located (.inr changed)] at managed
    cases managed
    exact same rfl

omit wellFormed

theorem place_steady (apart : other ≠ oid) :
    Steady codec store (store.place kind address oid) other := by
  apply Steady.of_same
  · exact know_other _ apart
  · rfl
  · intros
    rfl

theorem name_steady (apart : other ≠ oid) : Steady codec store (store.name kind oid) other := by
  obtain ⟨memory, _, stored⟩ := name_same store kind oid
  apply Steady.of_same
  · exact name_other apart
  · rw [stored]
  · intros
    rw [memory]

theorem name_content (kind : Kind) (oid : Oid) :
    (store.name kind oid).content codec kind oid = store.content codec kind oid := by
  unfold name
  split
  next unknown =>
    unfold content
    rw [know_same, unknown]
    exact if_pos rfl
  next => rfl

theorem name_clean (clean : store.Clean codec other) : (store.name kind oid).Clean codec other := by
  by_cases same : other = oid
  · subst same
    unfold name
    split
    next =>
      intro kind address loaded
      rw [know_same] at loaded
      cases loaded
    next => exact clean
  · exact (name_steady same).clean clean

/-- An object in memory is marked. -/
theorem know_changed_steady (located : store.Located oid kind address) (other : Oid) :
    Steady codec store (store.know oid (.changed kind address)) other := by
  by_cases same : other = oid
  · subst same
    constructor
    · intro kind'
      rw [content_located located, content_located (.inr (know_same other _))]
      rfl
    · intro _ kind' place loaded
      rw [know_same] at loaded
      cases loaded
  · exact .of_same (know_other _ same) rfl fun _ _ _ => rfl

/-- An object has been looked at: it is in memory, and nothing stands for anything else. -/
structure Looked (codec : Codec Kind Value Bytes) (store next : ObjectStore Kind Value Bytes Name)
    (oid : Oid) (kind : Kind) (address : Address) (value : Value) : Prop where
  located : next.Located oid kind address
  object : next.memory address = some value
  steady : ∀ other, Steady codec store next other
  knowledge : ∀ other, other ≠ oid → next.knowledge other = store.knowledge other
  stored : next.stored = store.stored
  memory : ∀ place, store.memory place ≠ none → next.memory place = store.memory place
  new : ∀ place, store.memory place = none → next.memory place ≠ none → place = address
  managed : ∀ place, store.memory place ≠ none → next.managed place = store.managed place
  unmanaged : ∀ place other, store.memory place = none → next.managed place = some other →
    place = address ∧ other = oid
  kept : ∀ kind place, store.Located oid kind place → next.Located oid kind place

include wellFormed

theorem Looked.here (located : store.Located oid kind address)
    (object : store.memory address = some value) :
    Looked codec store store oid kind address value where
  located := located
  object := object
  steady := fun _ => .of_same rfl rfl fun _ _ _ => rfl
  knowledge := fun _ _ => rfl
  stored := rfl
  memory := fun _ _ => rfl
  new := fun _ absent there => absurd absent there
  managed := fun _ _ => rfl
  unmanaged := fun _ _ absent managed => absurd absent (wellFormed.known managed).1
  kept := fun _ _ there => there

theorem Looked.changed (located : store.Located oid kind address)
    (object : store.memory address = some value) :
    Looked codec store (store.know oid (.changed kind address)) oid kind address value where
  located := .inr (know_same oid _)
  object := object
  steady := know_changed_steady located
  knowledge := fun _ apart => know_other _ apart
  stored := rfl
  memory := fun _ _ => rfl
  new := fun _ absent there => absurd absent there
  managed := fun _ _ => rfl
  unmanaged := fun _ _ absent managed => absurd absent (wellFormed.known managed).1
  kept := by
    intro kind' place there
    have same := located.unique there
    rw [same.1, same.2]
    exact .inr (know_same oid _)

/-- The object is put into memory as it is stored. -/
theorem Looked.fetched (named : store.knowledge oid = .named kind)
    (stored : (store.stored oid).bind (codec.deserializer kind) = some value)
    {knowledge : Knowledge Kind}
    (either : knowledge = .loaded kind store.nextAddress ∨
      knowledge = .changed kind store.nextAddress) :
    Looked codec store (store.fetch oid knowledge value) oid kind store.nextAddress value := by
  have object : (store.fetch oid knowledge value).memory store.nextAddress = some value :=
    update_same _ _ _
  have knows : (store.fetch oid knowledge value).knowledge oid = knowledge := know_same oid _
  have located : (store.fetch oid knowledge value).Located oid kind store.nextAddress := by
    unfold Located
    rw [knows]
    exact either
  have memory : ∀ place, store.memory place ≠ none →
      (store.fetch oid knowledge value).memory place = store.memory place :=
    fun _ there => update_other _ _ (wellFormed.apart there)
  refine ⟨located, object, ?_, fun _ apart => know_other _ apart, rfl, memory, ?_,
    fun _ there => update_other _ _ (wellFormed.apart there), ?_, ?_⟩
  · intro other
    by_cases same : other = oid
    · subst same
      constructor
      · intro kind'
        rw [content_located located, object, content, named]
        by_cases isKind : kind = kind'
        · subst isKind
          rw [if_pos rfl]
          simp only [if_true, stored]
        · simp only [if_neg isKind]
      · intro _ kind' place loaded
        rw [knows] at loaded
        cases either with
        | inl isLoaded =>
          rw [isLoaded] at loaded
          cases loaded
          exact object.trans stored.symm
        | inr isChanged =>
          rw [isChanged] at loaded
          cases loaded
    · apply Steady.of_same
      · exact know_other _ same
      · rfl
      · exact fun _ place located => memory place (wellFormed.allocated located)
  · intro place absent there
    by_contra other
    exact there ((update_other _ _ other).trans absent)
  · intro place other absent managed
    by_cases same : place = store.nextAddress
    · rw [same, show (store.fetch oid knowledge value).managed store.nextAddress = some oid from
        update_same _ _ _] at managed
      cases managed
      exact ⟨same, rfl⟩
    · rw [show (store.fetch oid knowledge value).managed place = store.managed place from
        update_other _ _ same, wellFormed.unmanaged absent] at managed
      cases managed
  · intro kind' place there
    exact (there.not_named named).elim

theorem WellFormed.look_spec (known : store.knowledge oid ≠ .unknown)
    (stands : store.content codec kind oid = some value) (forUpdate : Bool) :
    ∃ address next, store.look codec oid forUpdate = some (next, .object (some address) none) ∧
      Looked codec store next oid kind address value := by
  unfold look
  cases knows : store.knowledge oid with
  | unknown => exact absurd knows known
  | removed | failed serialization =>
    rw [content, knows] at stands
    cases stands
  | changed serialization address =>
    rw [content_located (.inr knows)] at stands
    split at stands
    next same =>
      subst same
      exact ⟨address, store, rfl, .here wellFormed (.inr knows) stands⟩
    next => cases stands
  | loaded serialization address =>
    rw [content_located (.inl knows)] at stands
    split at stands
    next same =>
      subst same
      cases forUpdate with
      | false => exact ⟨address, store, rfl, .here wellFormed (.inl knows) stands⟩
      | true => exact ⟨address, _, rfl, .changed wellFormed (.inl knows) stands⟩
    next => cases stands
  | named serialization =>
    simp only [content, knows] at stands
    split at stands
    next same =>
      subst same
      obtain ⟨data, found, made⟩ := bind_eq_some_iff.mp stands
      simp only [found, made]
      cases forUpdate with
      | false => exact ⟨_, _, rfl, .fetched wellFormed knows stands (.inl rfl)⟩
      | true => exact ⟨_, _, rfl, .fetched wellFormed knows stands (.inr rfl)⟩
    next => cases stands

omit wellFormed

theorem markFor_steady (oid other : Oid) : Steady codec store (store.markFor oid) other := by
  unfold markFor
  split
  next serialization place loaded => exact know_changed_steady (.inl loaded) other
  next => exact .of_same rfl rfl fun _ _ _ => rfl

theorem remove_steady (apart : other ≠ oid) : Steady codec store (store.know oid .removed) other :=
  .of_same (know_other _ apart) rfl fun _ _ _ => rfl

theorem remove_clean (clean : store.Clean codec other) :
    (store.know oid .removed).Clean codec other := by
  by_cases same : other = oid
  · intro kind place loaded
    rw [same, know_same] at loaded
    cases loaded
  · exact (remove_steady same).clean clean

end

theorem Fetched.known (fetched : store.Fetched oid) : store.knowledge oid ≠ .unknown := by
  cases fetched with
  | located located => exact located.known
  | removed removed =>
    rw [removed]
    nofun

theorem name_keeps_known (known : store.knowledge other ≠ .unknown) (kind : Kind) (oid : Oid) :
    (store.name kind oid).knowledge other ≠ .unknown := by
  by_cases same : other = oid
  · rw [same]
    exact name_known kind oid
  · rw [name_other same]
    exact known

theorem remove_keeps_known (known : store.knowledge other ≠ .unknown) (oid : Oid) :
    (store.know oid .removed).knowledge other ≠ .unknown := by
  by_cases same : other = oid
  · rw [same, know_same]
    nofun
  · rw [know_other _ same]
    exact known

theorem Fetched.name (fetched : store.Fetched other) (kind : Kind) (oid : Oid) :
    (store.name kind oid).Fetched other := by
  cases fetched with
  | located located => exact .located (name_located located)
  | removed removed =>
    unfold ObjectStore.name
    split
    next unknown =>
      have apart : other ≠ oid := by
        intro same
        rw [same, unknown] at removed
        cases removed
      exact .removed ((know_other _ apart).trans removed)
    next => exact .removed removed

theorem Fetched.remove (fetched : store.Fetched other) (oid : Oid) :
    (store.know oid .removed).Fetched other := by
  by_cases same : other = oid
  · rw [same]
    exact .removed (know_same oid _)
  · cases fetched with
    | located located => exact .located (located.know .removed same)
    | removed removed => exact .removed ((know_other _ same).trans removed)

/-- A removal marks the object; what was only named may be missing. -/
theorem step_removeObject [DecidableEq Name] (codec : Codec Kind Value Bytes)
    (known : store.knowledge oid ≠ .unknown) :
    ∃ error, store.step codec (.removeObject oid) = some (store.know oid .removed, .status error) ∧
      error ≠ some .transaction ∧ (store.Fetched oid → error = none) := by
  simp only [step]
  cases knows : store.knowledge oid with
  | unknown => exact absurd knows known
  | removed =>
    have unchanged : store.know oid .removed = store := by
      unfold know
      rw [← knows, update_unchanged]
    rw [unchanged]
    exact ⟨none, rfl, by simp, fun _ => rfl⟩
  | loaded kind address | changed kind address => exact ⟨none, rfl, by simp, fun _ => rfl⟩
  | named kind | failed kind =>
    refine ⟨_, rfl, ?_, ?_⟩
    · split
      · simp
      · simp
    · intro fetched
      cases fetched with
      | located located => rcases located with there | there <;> (rw [knows] at there; cases there)
      | removed removed =>
        rw [knows] at removed
        cases removed

theorem name_commit (kind : Kind) (oid : Oid) :
    (store.name kind oid).commit codec = store.commit codec := by
  funext other
  unfold name
  split
  next unknown =>
    by_cases same : other = oid
    · unfold commit
      rw [same, know_same, unknown]
      rfl
    · unfold commit
      rw [know_other _ same]
      rfl
  next => rfl

theorem remove_commit (oid other : Oid) : (store.know oid .removed).commit codec other =
      if other = oid then none else store.commit codec other := by
  split
  next same =>
    unfold commit
    rw [same, know_same]
  next apart =>
    unfold commit
    rw [know_other _ apart]
    rfl

theorem Looked.commit [DecidableEq Kind] (wellFormed : store.WellFormed)
    (looked : Looked codec store next oid kind address value) (apart : other ≠ oid) :
    next.commit codec other = store.commit codec other := by
  unfold ObjectStore.commit
  rw [looked.knowledge other apart, looked.stored]
  cases knows : store.knowledge other with
  | unknown | named | failed | loaded | removed => rfl
  | changed kind place =>
    have managed := wellFormed.located (.inr knows)
    show (next.memory place).bind _ = (store.memory place).bind _
    rw [looked.memory place (wellFormed.known managed).1]

theorem look_names {forUpdate : Bool} {reply : Reply}
    (found : store.look codec oid forUpdate = some (next, reply)) : next.names = store.names := by
  unfold look at found
  split at found
  · cases found
  · cases found
    rfl
  · cases found
    rfl
  · cases found
    rfl
  · cases found
    split <;> rfl
  · split at found
    · cases found
      rfl
    · split at found
      · cases found
        rfl
      · cases found
        rfl

theorem name_names (kind : Kind) (oid : Oid) : (store.name kind oid).names = store.names := by
  unfold name
  split <;> rfl

/-- What was in memory stays there, what was unused is so still. -/
structure Extends (store next : ObjectStore Kind Value Bytes Name) : Prop where
  memory : ∀ {address}, store.memory address ≠ none → next.memory address = store.memory address
  managed : ∀ {address}, store.memory address ≠ none →
    next.managed address = store.managed address
  located : ∀ {oid kind address}, store.Located oid kind address → next.Located oid kind address
  unused : ∀ {oid}, store.Unused oid → next.Unused oid

theorem Extends.refl (store : ObjectStore Kind Value Bytes Name) : Extends store store :=
  ⟨fun _ => rfl, fun _ => rfl, id, id⟩

theorem Extends.trans {last : ObjectStore Kind Value Bytes Name} (first : Extends store next)
    (second : Extends next last) : Extends store last where
  memory := by
    intro address there
    have same := first.memory there
    rw [second.memory (by rw [same]; exact there), same]
  managed := by
    intro address there
    rw [second.managed (by rw [first.memory there]; exact there), first.managed there]
  located := fun located => second.located (first.located located)
  unused := fun unused => second.unused (first.unused unused)

theorem allocate_extends (wellFormed : store.WellFormed) (value : Value) :
    Extends store (store.allocate value) where
  memory := fun there => allocate_memory wellFormed value there
  managed := fun _ => rfl
  located := id
  unused := id

theorem name_extends (kind : Kind) (used : ¬store.Unused oid) :
    Extends store (store.name kind oid) where
  memory := fun _ => congrFun (name_same store kind oid).1 _
  managed := fun _ => congrFun (name_same store kind oid).2.1 _
  located := name_located
  unused := by
    intro other unused
    have apart : other ≠ oid := by
      intro same
      exact used (same ▸ unused)
    unfold Unused
    rw [name_other apart, (name_same store kind oid).2.2]
    exact unused

theorem Looked.extends [DecidableEq Kind] (looked : Looked codec store next oid kind address value)
    (known : store.knowledge oid ≠ .unknown) : Extends store next where
  memory := looked.memory _
  managed := looked.managed _
  located := by
    intro other kind' place located
    by_cases same : other = oid
    · subst same
      exact looked.kept _ _ located
    · unfold Located
      rw [looked.knowledge other same]
      exact located
  unused := by
    intro other unused
    have apart : other ≠ oid := by
      intro same
      exact known (same ▸ unused.1)
    unfold Unused
    rw [looked.knowledge other apart, looked.stored]
    exact unused

end ObjectStore

variable {codec : Codec Kind Value Bytes} {store : ObjectStore Kind Value Bytes Name}
  {context after : DataContext Kind Value Bytes Name} {oid : Oid} {kind : Kind}
  {address : Address} {value : Value}

variable {order : List Oid}

/-- Every reference in the order that has to be written could be. -/
theorem flushAll_serialized (success : context.flushAll codec order = some after)
    (listed : oid ∈ order) (present : context.reference oid = some ⟨.new, kind, some address⟩ ∨
      context.reference oid = some ⟨.modified, kind, some address⟩) :
    ∃ value out, context.memory address = some value ∧ codec.serializer kind value = some out := by
  induction order generalizing context with
  | nil => cases listed
  | cons first rest ih =>
    cases found : context.reference first with
    | none =>
      simp only [DataContext.flushAll, found] at success
      apply ih success _ present
      cases List.mem_cons.mp listed with
      | inl isFirst =>
        rw [← isFirst] at found
        rw [found] at present
        cases present with
        | inl isNew => cases isNew
        | inr isModified => cases isModified
      | inr later => exact later
    | some reference =>
      simp only [DataContext.flushAll, found, bind_eq_bind, bind_eq_some_iff] at success
      obtain ⟨middle, flushed, success⟩ := success
      cases List.mem_cons.mp listed with
      | inl isFirst =>
        subst isFirst
        rw [found] at present
        cases present with
        | inl isNew =>
          cases isNew
          simp only [DataContext.flushReference, bind_eq_bind, bind_eq_some_iff] at flushed
          obtain ⟨_, same, value, located, out, serialized, _⟩ := flushed
          cases same
          exact ⟨value, out, located, serialized⟩
        | inr isModified =>
          cases isModified
          simp only [DataContext.flushReference, bind_eq_bind, bind_eq_some_iff] at flushed
          obtain ⟨_, same, value, located, out, serialized, _⟩ := flushed
          cases same
          exact ⟨value, out, located, serialized⟩
      | inr later =>
        obtain ⟨same, _, _⟩ := flushReference_spec found flushed
        rw [← same.reference] at present
        obtain ⟨value, out, located, serialized⟩ := ih success later present
        rw [same.memory] at located
        exact ⟨value, out, located, serialized⟩

/-- A transaction that is prepared with success has written what has been changed. -/
theorem dataPrepare_serialized (refines : Refines context store)
    (covers : ∀ oid, context.reference oid ≠ none → oid ∈ order)
    (success : context.dataPrepare codec order = some after)
    (changed : store.knowledge oid = .changed kind address) :
    ∃ value out, store.memory address = some value ∧ codec.serializer kind value = some out := by
  simp only [DataContext.dataPrepare, bind_eq_bind, bind_eq_some_iff] at success
  obtain ⟨middle, flushed, _⟩ := success
  have present : context.reference oid = some ⟨.new, kind, some address⟩ ∨
      context.reference oid = some ⟨.modified, kind, some address⟩ := by
    have means := refines.means oid
    rw [changed] at means
    generalize context.reference oid = reference at means ⊢
    generalize context.oids oid = view at means
    generalize store.stored oid = stored at means
    cases means with
    | modified => exact .inr rfl
    | new => exact .inl rfl
  rw [← refines.memory]
  apply flushAll_serialized flushed _ present
  apply covers
  cases present with
  | inl isNew =>
    rw [isNew]
    simp
  | inr isModified =>
    rw [isModified]
    simp

namespace ObjectStore

/-- What is stored in the end is what an id stands for, if that can be read back. -/
theorem commit_content [DecidableEq Kind] (clean : store.Clean codec oid)
    (written : ∀ kind address, store.knowledge oid = .changed kind address →
      ∃ value out, store.memory address = some value ∧ codec.serializer kind value = some out)
    (stands : store.content codec kind oid = some value)
    (readBack : ∀ out, codec.serializer kind value = some out →
      codec.deserializer kind out = some value) :
    (store.commit codec oid).bind (codec.deserializer kind) = some value := by
  unfold content at stands
  unfold commit
  cases knows : store.knowledge oid with
  | unknown =>
    rw [knows] at stands
    exact stands
  | named other =>
    simp only [knows] at stands
    split at stands
    · exact stands
    · cases stands
  | loaded other place =>
    simp only [knows] at stands
    split at stands
    next same =>
      subst same
      rw [clean other place knows] at stands
      exact stands
    next => cases stands
  | changed other place =>
    simp only [knows] at stands
    split at stands
    next same =>
      subst same
      obtain ⟨object, out, there, serialized⟩ := written other place knows
      rw [stands] at there
      cases there
      simp only [stands, bind_some, serialized]
      exact readBack out serialized
    next => cases stands
  | removed | failed =>
    rw [knows] at stands
    cases stands

end ObjectStore

end Gzochi.Data
