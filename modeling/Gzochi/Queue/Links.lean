import Gzochi.Lib.LinkedList
import Gzochi.Queue.Model
import Mathlib.Data.List.Nodup

/-!
# The links of a queue

What the ids of the store stand for makes up a list: the link nodes from the head of the queue
on, each with the id of an object that has been put into it.  A call of the data layer keeps
this list, and keeps the objects in memory in the order that the data layer wants.
-/

namespace Gzochi.Queue

open Lib Data List ObjectStore

variable {Payload : Type}

/-- What an id stands for as an object of some kind. -/
abbrev View (Payload : Type) := Kind → Oid → Option (Object Payload)

abbrev Store (Payload : Type) := ObjectStore Kind (Object Payload) Bytes Name

/-- A link node: the id of its object, and the node after it. -/
def nodeOf (view : View Payload) (oid : Oid) : Option (Oid × Option Oid) :=
  match view .element oid with
  | some (.element elt) => some (elt.oid, elt.next)
  | _ => none

/-- The pointers of a queue with some link nodes. -/
def endsOf (elements : List Oid) : DurableQueue := ⟨elements.head?, elements.getLast?⟩

/-- The link nodes `elements` hold the objects `entries`; `own` is the id of the queue. -/
structure Chain (view : View Payload) (own : Option Oid) (elements : List Oid)
    (entries : List (Entry Payload)) : Prop where
  linked : SinglyLinked (nodeOf view) elements (entries.map Entry.oid)
  payloads : ∀ entry ∈ entries, view .data entry.oid = some (.data entry.payload)
  nodup : elements.Nodup
  apart : ∀ entry ∈ entries, entry.oid ∉ elements
  own : ∀ oid ∈ own, oid ∉ elements ∧ ∀ entry ∈ entries, entry.oid ≠ oid
  small : ∀ oid ∈ elements ++ entries.map Entry.oid, oid < 2 ^ 64

/-- The objects in memory: they are as stored if they are not marked, except the `dirty` ones;
the managed ones are objects of their kinds, of which only link nodes are removed; there are
references to the ids in them, except the `pending` ones. -/
structure Books (serialization : Serialization Payload) (store : Store Payload)
    (dirty pending : List Oid) : Prop where
  clean : ∀ oid, oid ∉ dirty → store.Clean (codec serialization) oid
  kinds : ∀ {address oid object}, store.managed address = some oid →
    store.memory address = some object → store.Located oid object.kind address ∨
      (object.kind = .element ∧ store.knowledge oid = .removed)
  referenced : ∀ {address object}, store.memory address = some object →
    ∀ oid ∈ object.pointers, store.knowledge oid ≠ .unknown ∨ oid ∈ pending
  small : ∀ {address oid}, store.managed address = some oid → oid < 2 ^ 64

/-! ## The list -/

section

variable {view view' : View Payload} {own : Option Oid} {elements : List Oid}
  {entries : List (Entry Payload)} {oid : Oid}

theorem nodeOf_some {item : Oid} {next : Option Oid} :
    nodeOf view oid = some (item, next) ↔ view .element oid = some (.element ⟨item, next⟩) := by
  unfold nodeOf
  constructor
  · intro found
    split at found
    next elt isElement =>
      cases found
      exact isElement
    next => cases found
  · intro isElement
    rw [isElement]

theorem nodeOf_congr (same : view' .element oid = view .element oid) :
    nodeOf view' oid = nodeOf view oid := by
  unfold nodeOf
  rw [same]

theorem Chain.empty (view : View Payload) (own : Option Oid) : Chain view own [] [] where
  linked := trivial
  payloads := nofun
  nodup := nodup_nil
  apart := nofun
  own := fun _ _ => ⟨not_mem_nil, nofun⟩
  small := nofun

variable (chain : Chain view own elements entries)
include chain

/-- Only what is in the list matters. -/
theorem Chain.congr (nodes : ∀ oid ∈ elements, view' .element oid = view .element oid)
    (objects : ∀ entry ∈ entries, view' .data entry.oid = view .data entry.oid) :
    Chain view' own elements entries :=
  { chain with
    linked := chain.linked.congr fun oid member => nodeOf_congr (nodes oid member)
    payloads := by
      intro entry member
      rw [objects entry member]
      exact chain.payloads entry member }

theorem Chain.present (member : oid ∈ elements) :
    ∃ elt, view .element oid = some (.element elt) ∧ ∀ next ∈ elt.next, next ∈ elements := by
  obtain ⟨item, next, found, _, inList⟩ := chain.linked.present member
  exact ⟨⟨item, next⟩, nodeOf_some.mp found, inList⟩

/-- The queue has another id, or gets one. -/
theorem Chain.withOwn {other : Option Oid}
    (apart : ∀ oid ∈ other, oid ∉ elements ∧ ∀ entry ∈ entries, entry.oid ≠ oid) :
    Chain view other elements entries :=
  { chain with own := apart }

omit chain

/-- The first link node. -/
theorem Chain.first {rest : List Oid} (chain : Chain view own (oid :: rest) entries) :
    ∃ entry later, entries = entry :: later ∧
      view .element oid = some (.element ⟨entry.oid, rest.head?⟩) ∧ Chain view own rest later := by
  obtain ⟨item, others, isCons, found, linked⟩ := chain.linked.first
  cases entries with
  | nil => cases isCons
  | cons entry later =>
    cases isCons
    refine ⟨entry, later, rfl, nodeOf_some.mp found, linked, ?_, ?_, ?_, ?_, ?_⟩
    · exact fun other member => chain.payloads other (mem_cons_of_mem _ member)
    · exact (nodup_cons.mp chain.nodup).2
    · intro other member inside
      exact chain.apart other (mem_cons_of_mem _ member) (mem_cons_of_mem _ inside)
    · intro queue isOwn
      obtain ⟨outside, different⟩ := chain.own queue isOwn
      exact ⟨fun inside => outside (mem_cons_of_mem _ inside),
        fun other member => different other (mem_cons_of_mem _ member)⟩
    · intro other member
      apply chain.small other
      simp only [map_cons, cons_append, mem_cons, mem_append] at member ⊢
      cases member with
      | inl inElements => exact .inr (.inl inElements)
      | inr inEntries => exact .inr (.inr (.inr inEntries))

/-- A link node that is ready to be put at the end of the list. -/
structure Ready (view : View Payload) (own : Option Oid) (elements : List Oid)
    (entries : List (Entry Payload)) (element : Oid) (entry : Entry Payload) : Prop where
  node : view .element element = some (.element ⟨entry.oid, none⟩)
  payload : view .data entry.oid = some (.data entry.payload)
  new : element ∉ elements
  outside : entry.oid ∉ elements
  apart : ∀ other ∈ entry :: entries, other.oid ≠ element
  own : ∀ oid ∈ own, element ≠ oid ∧ entry.oid ≠ oid
  small : element < 2 ^ 64 ∧ entry.oid < 2 ^ 64

theorem Chain.concat {element : Oid} {entry : Entry Payload}
    (chain : Chain view own elements entries)
    (ready : Ready view own elements entries element entry)
    (before : ∀ oid ∈ element :: elements, elements.getLast? ≠ some oid →
      view' .element oid = view .element oid)
    (last : ∀ oid elt, elements.getLast? = some oid → view .element oid = some (.element elt) →
      view' .element oid = some (.element { elt with next := some element }))
    (objects : ∀ other ∈ entry :: entries, view' .data other.oid = view .data other.oid) :
    Chain view' own (elements ++ [element]) (entries ++ [entry]) where
  linked := by
    rw [map_append]
    apply chain.linked.concat chain.nodup
    · intro oid member notLast
      exact nodeOf_congr (before oid (mem_cons_of_mem _ member) notLast)
    · intro oid item next isLast found
      exact nodeOf_some.mpr (last oid ⟨item, next⟩ isLast (nodeOf_some.mp found))
    · apply nodeOf_some.mpr
      rw [before element mem_cons_self]
      · exact ready.node
      · exact fun isLast => ready.new (mem_of_getLast? isLast)
  payloads := by
    intro other member
    cases mem_append.mp member with
    | inl old =>
      rw [objects other (mem_cons_of_mem _ old)]
      exact chain.payloads other old
    | inr isNew =>
      cases mem_singleton.mp isNew
      rw [objects entry mem_cons_self]
      exact ready.payload
  nodup := by
    rw [nodup_append]
    refine ⟨chain.nodup, nodup_singleton _, ?_⟩
    intro oid member other isNew same
    cases mem_singleton.mp isNew
    exact ready.new (same ▸ member)
  apart := by
    intro other member inside
    cases mem_append.mp member with
    | inl old =>
      cases mem_append.mp inside with
      | inl inElements => exact chain.apart other old inElements
      | inr isElement =>
        exact ready.apart other (mem_cons_of_mem _ old) (mem_singleton.mp isElement)
    | inr isNew =>
      cases mem_singleton.mp isNew
      cases mem_append.mp inside with
      | inl inElements => exact ready.outside inElements
      | inr isElement => exact ready.apart entry mem_cons_self (mem_singleton.mp isElement)
  own := by
    intro oid isOwn
    obtain ⟨outside, different⟩ := chain.own oid isOwn
    obtain ⟨notElement, notEntry⟩ := ready.own oid isOwn
    constructor
    · intro inside
      cases mem_append.mp inside with
      | inl inElements => exact outside inElements
      | inr isElement => exact notElement (mem_singleton.mp isElement).symm
    · intro other member
      cases mem_append.mp member with
      | inl old => exact different other old
      | inr isNew =>
        cases mem_singleton.mp isNew
        exact notEntry
  small := by
    intro oid member
    simp only [map_append, map_cons, map_nil, mem_append, mem_singleton] at member
    cases member with
    | inl inElements =>
      cases inElements with
      | inl old => exact chain.small oid (mem_append_left _ old)
      | inr isElement => exact isElement ▸ ready.small.1
    | inr inEntries =>
      cases inEntries with
      | inl old => exact chain.small oid (mem_append_right _ old)
      | inr isEntry => exact isEntry ▸ ready.small.2

end

/-! ## Objects in memory -/

section

variable {serialization : Serialization Payload} {store next : Store Payload}
  {dirty pending : List Oid} {address : Address} {oid : Oid} {object : Object Payload}

variable (books : Books serialization store dirty pending)
include books

variable (wellFormed : store.WellFormed)
include wellFormed

theorem Books.allocate (noPointers : object.pointers = []) :
    Books serialization (store.allocate object) dirty pending where
  clean := fun oid notDirty =>
    (allocate_steady wellFormed object oid).clean (books.clean oid notDirty)
  kinds := by
    intro place oid other managed there
    have old := (wellFormed.known managed).1
    rw [allocate_memory wellFormed object old] at there
    exact books.kinds managed there
  referenced := by
    intro place other there oid member
    by_cases isNew : place = store.nextAddress
    · subst isNew
      rw [show (store.allocate object).memory store.nextAddress = some object from
        update_same _ _ _] at there
      cases there
      rw [noPointers] at member
      cases member
    · rw [show (store.allocate object).memory place = store.memory place from
        update_other _ _ isNew] at there
      exact books.referenced there oid member
  small := fun managed => books.small managed

/-- A new object of the store. -/
theorem Books.place (there : store.memory address = some object)
    (unused : store.Unused oid) (small : oid < 2 ^ 64) :
    Books serialization (store.place object.kind address oid) dirty pending where
  clean := by
    intro other notDirty
    by_cases same : other = oid
    · intro kind place loaded
      rw [same, place_changed] at loaded
      cases loaded
    · exact (place_steady same).clean (books.clean other notDirty)
  kinds := by
    intro place other object' managed there'
    by_cases same : place = address
    · subst same
      rw [show (store.place object.kind place oid).managed place = some oid from
        update_same _ _ _] at managed
      cases managed
      rw [show (store.place object.kind place oid).memory place = store.memory place from rfl,
        there] at there'
      cases there'
      exact .inl (.inr (place_changed _ _ _ _))
    · rw [show (store.place object.kind address oid).managed place = store.managed place from
        update_other _ _ same] at managed
      have apart : other ≠ oid := by
        intro isNew
        subst isNew
        cases (wellFormed.known managed).2 with
        | inl located =>
          obtain ⟨kind, located⟩ := located
          exact located.known unused.1
        | inr removed =>
          rw [unused.1] at removed
          cases removed
      cases books.kinds managed there' with
      | inl located => exact .inl (located.know _ apart)
      | inr removed => exact .inr ⟨removed.1, (know_other _ apart).trans removed.2⟩
  referenced := by
    intro place object' there' other member
    cases books.referenced there' other member with
    | inr isPending => exact .inr isPending
    | inl known =>
      refine .inl ?_
      by_cases same : other = oid
      · rw [same, place_changed]
        nofun
      · rw [show (store.place object.kind address oid).knowledge other = store.knowledge other from
          know_other _ same]
        exact known
  small := by
    intro place other managed
    by_cases same : place = address
    · subst same
      rw [show (store.place object.kind place oid).managed place = some oid from
        update_same _ _ _] at managed
      cases managed
      exact small
    · rw [show (store.place object.kind address oid).managed place = store.managed place from
        update_other _ _ same] at managed
      exact books.small managed

/-- An object in memory is changed; it is dirty then, unless it has been marked. -/
theorem Books.assign {old new : Object Payload} {dirty' : List Oid}
    (there : store.memory address = some old)
    (sameKind : new.kind = old.kind)
    (pointers : ∀ oid ∈ new.pointers, store.knowledge oid ≠ .unknown)
    (more : ∀ oid ∈ dirty, oid ∈ dirty')
    (marked : ∀ oid, store.managed address = some oid → oid ∈ dirty' ∨
      ∃ kind, store.knowledge oid = .changed kind address) :
    Books serialization (store.assign address new) dirty' pending where
  clean := by
    intro other notDirty
    have clean := books.clean other fun isDirty => notDirty (more other isDirty)
    by_cases managed : store.managed address = some other
    · cases marked other managed with
      | inl isDirty => exact absurd isDirty notDirty
      | inr changed =>
        obtain ⟨kind, changed⟩ := changed
        exact assign_clean wellFormed new changed other clean
    · exact (assign_steady wellFormed new managed).clean clean
  kinds := by
    intro place other object' managed there'
    by_cases same : place = address
    · subst same
      rw [assign_memory] at there'
      cases there'
      rw [sameKind]
      exact books.kinds managed there
    · rw [show (store.assign address new).memory place = store.memory place from
        update_other _ _ same] at there'
      exact books.kinds managed there'
  referenced := by
    intro place object' there' other member
    by_cases same : place = address
    · subst same
      rw [assign_memory] at there'
      cases there'
      exact .inl (pointers other member)
    · rw [show (store.assign address new).memory place = store.memory place from
        update_other _ _ same] at there'
      exact books.referenced there' other member
  small := fun managed => books.small managed

omit wellFormed books

/-- A reference is made to an id. -/
theorem Books.name {kind : Kind} (books : Books serialization store dirty (oid :: pending)) :
    Books serialization (store.name kind oid) dirty pending where
  clean := fun other notDirty => name_clean (books.clean other notDirty)
  kinds := by
    intro place other object managed there
    rw [(name_same store kind oid).2.1] at managed
    rw [(name_same store kind oid).1] at there
    cases books.kinds managed there with
    | inl located => exact .inl (name_located located)
    | inr removed =>
      refine .inr ⟨removed.1, ?_⟩
      unfold ObjectStore.name
      split
      next unknown =>
        have apart : other ≠ oid := by
          intro same
          rw [same, unknown] at removed
          cases removed.2
        exact (know_other _ apart).trans removed.2
      next => exact removed.2
  referenced := by
    intro place object there other member
    rw [(name_same store kind oid).1] at there
    by_cases same : other = oid
    · subst same
      exact .inl (name_known kind other)
    · rw [name_other same]
      cases books.referenced there other member with
      | inl known => exact .inl known
      | inr isPending =>
        cases mem_cons.mp isPending with
        | inl isFirst => exact absurd isFirst same
        | inr later => exact .inr later
  small := by
    intro place other managed
    rw [(name_same store kind oid).2.1] at managed
    exact books.small managed

theorem Books.weaken {pending' : List Oid} (books : Books serialization store dirty pending)
    (more : ∀ oid ∈ pending, oid ∈ pending') : Books serialization store dirty pending' :=
  { books with
    referenced := by
      intro place object there oid member
      cases books.referenced there oid member with
      | inl known => exact .inl known
      | inr isPending => exact .inr (more oid isPending) }

/-- An object is looked at; references to the ids in it are still to be made. -/
theorem Books.looked (books : Books serialization store dirty [])
    (known : store.knowledge oid ≠ .unknown) (remains : store.knowledge oid ≠ .removed)
    (small : oid < 2 ^ 64)
    (looked : Looked (codec serialization) store next oid object.kind address object) :
    Books serialization next dirty object.pointers where
  clean := fun other notDirty => (looked.steady other).clean (books.clean other notDirty)
  kinds := by
    intro place other object' managed there
    by_cases old : store.memory place = none
    · obtain ⟨isAddress, isOid⟩ := looked.unmanaged place other old managed
      subst isAddress isOid
      rw [looked.object] at there
      cases there
      exact .inl looked.located
    · rw [looked.managed place old] at managed
      rw [looked.memory place old] at there
      cases books.kinds managed there with
      | inl located => exact .inl ((looked.extends known).located located)
      | inr removed =>
        have apart : other ≠ oid := by
          intro same
          exact remains (same ▸ removed.2)
        exact .inr ⟨removed.1, (looked.knowledge other apart).trans removed.2⟩
  referenced := by
    intro place object' there other member
    by_cases old : store.memory place = none
    · have isAddress : place = address := by
        apply looked.new place old
        rw [there]
        nofun
      subst isAddress
      rw [looked.object] at there
      cases there
      exact .inr member
    · rw [looked.memory place old] at there
      cases books.referenced there other member with
      | inr isPending => cases isPending
      | inl isKnown =>
        refine .inl ?_
        by_cases same : other = oid
        · rw [same]
          exact looked.located.known
        · rw [looked.knowledge other same]
          exact isKnown
  small := by
    intro place other managed
    by_cases old : store.memory place = none
    · rw [(looked.unmanaged place other old managed).2]
      exact small
    · rw [looked.managed place old] at managed
      exact books.small managed

/-- A dirty object is marked. -/
theorem Books.markFor {dirty' : List Oid} {kind : Kind}
    (books : Books serialization store dirty pending)
    (located : store.Located oid kind address)
    (less : ∀ other ∈ dirty, other = oid ∨ other ∈ dirty') :
    Books serialization (store.markFor oid) dirty' pending where
  clean := by
    intro other notDirty
    by_cases same : other = oid
    · subst same
      exact markFor_clean located
    · apply (markFor_steady oid other).clean
      apply books.clean
      intro isDirty
      cases less other isDirty with
      | inl isOid => exact same isOid
      | inr still => exact notDirty still
  kinds := by
    intro place other object managed there
    rw [(markFor_same store oid).2.1] at managed
    rw [(markFor_same store oid).1] at there
    by_cases same : other = oid
    · subst same
      cases books.kinds managed there with
      | inl here => exact .inl (.inr (markFor_located here))
      | inr removed => exact (located.not_removed removed.2).elim
    · unfold Located
      rw [markFor_other same]
      exact books.kinds managed there
  referenced := by
    intro place object there other member
    rw [(markFor_same store oid).1] at there
    cases books.referenced there other member with
    | inr isPending => exact .inr isPending
    | inl known =>
      refine .inl ?_
      by_cases same : other = oid
      · subst same
        rw [markFor_located located]
        nofun
      · rw [markFor_other same]
        exact known
  small := by
    intro place other managed
    rw [(markFor_same store oid).2.1] at managed
    exact books.small managed

/-- A link node is removed. -/
theorem Books.remove (books : Books serialization store dirty pending)
    (located : store.Located oid .element address) :
    Books serialization (store.know oid .removed) dirty pending where
  clean := fun other notDirty => remove_clean (books.clean other notDirty)
  kinds := by
    intro place other object managed there
    cases books.kinds managed there with
    | inl here =>
      by_cases same : other = oid
      · subst same
        have isElement := (located.unique here).1
        exact .inr ⟨isElement, know_same other _⟩
      · exact .inl (here.know _ same)
    | inr removed =>
      have apart : other ≠ oid := by
        intro same
        exact located.not_removed (same ▸ removed.2)
      exact .inr ⟨removed.1, (know_other _ apart).trans removed.2⟩
  referenced := by
    intro place object there other member
    cases books.referenced there other member with
    | inr isPending => exact .inr isPending
    | inl known =>
      refine .inl ?_
      by_cases same : other = oid
      · rw [same, know_same]
        nofun
      · rw [know_other _ same]
        exact known
  small := fun managed => books.small managed

end

end Gzochi.Queue
