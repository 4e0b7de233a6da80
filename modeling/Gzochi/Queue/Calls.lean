import Gzochi.Queue.Links

/-!
# What the functions of a queue do

In a transaction in which the storage engine refuses nothing, an offer puts an object at the
end of the list, a peek returns the first one, and a pop returns and removes it.
-/

namespace Gzochi.Queue

open Lib Data List ObjectStore Attains

variable {Payload : Type} {serialization : Serialization Payload} {store next : Store Payload}
  {own : Option Oid} {elements : List Oid} {entries : List (Entry Payload)}
  {dirty pending : List Oid} {queue address : Address} {oid : Oid} {object : Object Payload}

/-- The link nodes stand for the same as before, and so does every other id. -/
def Agree (elements : List Oid) (view view' : View Payload) : Prop :=
  ∀ kind oid, kind = .element ∨ oid ∉ elements → view' kind oid = view kind oid

variable {view view' : View Payload}

theorem Agree.trans {middle : View Payload} (first : Agree elements view middle)
    (second : Agree elements middle view') : Agree elements view view' :=
  fun kind oid either => (second kind oid either).trans (first kind oid either)

theorem Chain.agree (chain : Chain view own elements entries) (agree : Agree elements view view') :
    Chain view' own elements entries :=
  chain.congr (fun oid _ => agree .element oid (.inl rfl))
    fun entry member => agree .data entry.oid (.inr (chain.apart entry member))

theorem Chain.used (chain : Chain (store.content (codec serialization)) own elements entries)
    (member : oid ∈ elements) : ¬store.Unused oid := by
  obtain ⟨elt, found, _⟩ := chain.present member
  exact content_used found

variable {entry : Entry Payload}

theorem Chain.entry_used (chain : Chain (store.content (codec serialization)) own elements entries)
    (member : entry ∈ entries) : ¬store.Unused entry.oid :=
  content_used (chain.payloads entry member)

theorem name_agree (member : oid ∈ elements) : Agree elements (store.content (codec serialization))
      ((store.name Kind.element oid).content (codec serialization)) := by
  intro kind other either
  by_cases same : other = oid
  · subst same
    cases either with
    | inl isElement =>
      subst isElement
      exact name_content Kind.element other
    | inr outside => exact absurd member outside
  · exact (name_steady same).content kind

variable {post : Unit → Store Payload → Prop}

/-- The references that a deserializer makes. -/
theorem attains_createReferencesToOids {ids : List Oid} (wellFormed : store.WellFormed)
    (chain : Chain (store.content (codec serialization)) own elements entries)
    (books : Books serialization store dirty ids) (members : ∀ oid ∈ ids, oid ∈ elements)
    (done : ∀ next : Store Payload, next.WellFormed → Extends store next →
      Agree elements (store.content (codec serialization)) (next.content (codec serialization)) →
      Books serialization next dirty [] → post () next) :
    Attains store (createReferencesToOids serialization ids) post := by
  induction ids generalizing store with
  | nil => exact .pure (done store wellFormed (.refl store) (fun _ _ _ => rfl) books)
  | cons oid rest ih =>
    have first := members oid mem_cons_self
    have agree : Agree elements (store.content (codec serialization))
        ((store.name Kind.element oid).content (codec serialization)) := name_agree first
    apply Attains.bind
    apply Attains.gzochidDataCreateReferenceToOid
    intro named
    apply ih named (chain.agree agree) books.name
    · exact fun other member => members other (mem_cons_of_mem _ member)
    · intro next wellFormed more agreeMore books
      exact done next wellFormed ((name_extends Kind.element (chain.used first)).trans more)
        (agree.trans agreeMore) books

variable {forUpdate : Bool}

/-- A dereference of an object whose pointers are to link nodes. -/
theorem attains_dereference (object : Object Payload)
    {post : Option Address → Store Payload → Prop} (wellFormed : store.WellFormed)
    (chain : Chain (store.content (codec serialization)) own elements entries)
    (books : Books serialization store dirty []) (known : store.knowledge oid ≠ .unknown)
    (stands : store.content (codec serialization) object.kind oid = some object)
    (small : oid < 2 ^ 64) (pointers : ∀ id ∈ object.pointers, id ∈ elements)
    (done : ∀ address (next : Store Payload), next.WellFormed → Extends store next →
      Agree elements (store.content (codec serialization)) (next.content (codec serialization)) →
      Books serialization next dirty [] → next.memory address = some object →
      next.Located oid object.kind address → post (some address) next) :
    Attains store (dereference serialization oid forUpdate) post := by
  apply Attains.bind
  apply gzochidDataDereference wellFormed known stands
  intro address middle reached looked
  have extends_ := looked.extends known
  have agree : Agree elements (store.content (codec serialization))
      (middle.content (codec serialization)) :=
    fun kind other _ => (looked.steady other).content kind
  apply Attains.bind
  apply load looked.object
  apply Attains.bind
  apply attains_createReferencesToOids reached (chain.agree agree)
    (books.looked known (content_remains stands) small looked) pointers
  intro next wellFormed more agreeMore books
  apply Attains.pure
  apply done address next wellFormed (extends_.trans more) (agree.trans agreeMore) books
  · rw [more.memory (by rw [looked.object]; nofun), looked.object]
  · exact more.located looked.located

theorem attains_loadQueue {contents : DurableQueue} {post : DurableQueue → Store Payload → Prop}
    (there : store.memory address = some (.queue contents)) (holds : post contents store) :
    Attains store (loadQueue address) post := by
  apply Attains.bind
  apply load there
  exact .pure holds

theorem attains_loadElement {elt : DurableQueueElement}
    {post : DurableQueueElement → Store Payload → Prop}
    (there : store.memory address = some (.element elt)) (holds : post elt store) :
    Attains store (loadElement address) post := by
  apply Attains.bind
  apply load there
  exact .pure holds

/-- A reference to an object of the list. -/
theorem Chain.name_data (chain : Chain (store.content (codec serialization)) own elements entries)
    (member : entry ∈ entries) :
    Chain ((store.name Kind.data entry.oid).content (codec serialization)) own elements
      entries := by
  apply chain.congr
  · intro oid inside
    have apart : oid ≠ entry.oid := by
      intro same
      exact chain.apart entry member (same ▸ inside)
    exact (name_steady apart).content Kind.element
  · intro other _
    by_cases same : other.oid = entry.oid
    · rw [same]
      exact name_content Kind.data entry.oid
    · exact (name_steady same).content Kind.data

/-- A queue in memory with its list. -/
structure Opened (serialization : Serialization Payload) (store : Store Payload) (queue : Address)
    (elements : List Oid) (entries : List (Entry Payload)) : Prop where
  chain : Chain (store.content (codec serialization)) (store.managed queue) elements entries
  books : Books serialization store [] []
  contents : store.memory queue = some (.queue (endsOf elements))
  stored : store.managed queue = none → elements = []

variable (opened : Opened serialization store queue elements entries)
include opened

theorem Opened.allocated : store.memory queue ≠ none := by
  rw [opened.contents]
  nofun

theorem Opened.extends (extends_ : Extends store next)
    (chain : Chain (next.content (codec serialization)) (store.managed queue) elements entries)
    (books : Books serialization next [] []) :
    Opened serialization next queue elements entries where
  chain := by
    rw [extends_.managed opened.allocated]
    exact chain
  books := books
  contents := by
    rw [extends_.memory opened.allocated]
    exact opened.contents
  stored := by
    rw [extends_.managed opened.allocated]
    exact opened.stored

/-- There are references to the ends of the list. -/
theorem Opened.known (isEnd : oid ∈ elements.head?.toList ++ elements.getLast?.toList) :
    store.knowledge oid ≠ .unknown := by
  cases opened.books.referenced opened.contents oid isEnd with
  | inl known => exact known
  | inr isPending => cases isPending

omit opened

/-- What is returned is the object of an entry, or nothing. -/
def Returned (store : Store Payload) (found : Option Address) : Option (Entry Payload) → Prop
  | none => found = none
  | some entry => ∃ address, found = some address ∧ store.managed address = some entry.oid ∧
      store.memory address = some (.data entry.payload)

/-- The first link node is looked at. -/
theorem attains_dereference_first {rest : List Oid} {post : Option Address → Store Payload → Prop}
    (wellFormed : store.WellFormed)
    (opened : Opened serialization store queue (oid :: rest) entries)
    (done : ∀ address (next : Store Payload) entry later, next.WellFormed →
      Extends store next → Opened serialization next queue (oid :: rest) entries →
      entries = entry :: later → next.memory address = some (.element ⟨entry.oid, rest.head?⟩) →
      next.Located oid .element address → post (some address) next) :
    Attains store (dereference serialization oid forUpdate) post := by
  obtain ⟨entry, later, isCons, stands, _⟩ := opened.chain.first
  apply attains_dereference (.element ⟨entry.oid, rest.head?⟩) wellFormed opened.chain opened.books
    (opened.known mem_cons_self) stands
  · exact opened.chain.small oid (mem_append_left _ mem_cons_self)
  · intro id member
    cases rest with
    | nil => cases member
    | cons second rest =>
      cases mem_singleton.mp member
      exact mem_cons_of_mem _ mem_cons_self
  · intro address next wellFormed extends_ agree books object located
    exact done address next entry later wellFormed extends_
      (opened.extends extends_ (opened.chain.agree agree) books) isCons object located

/-- An object of the list is looked at. -/
theorem attains_dereference_data {post : Option Address → Store Payload → Prop}
    (wellFormed : store.WellFormed)
    (chain : Chain (store.content (codec serialization)) own elements entries)
    (books : Books serialization store dirty []) (member : entry ∈ entries)
    (known : store.knowledge entry.oid ≠ .unknown)
    (done : ∀ address (next : Store Payload), next.WellFormed → Extends store next →
      Chain (next.content (codec serialization)) own elements entries →
      Books serialization next dirty [] → next.managed address = some entry.oid →
      next.memory address = some (.data entry.payload) → post (some address) next) :
    Attains store (dereference serialization entry.oid false) post := by
  apply attains_dereference (.data entry.payload) wellFormed chain books known
    (chain.payloads entry member)
  · exact chain.small entry.oid (mem_append_right _ (mem_map_of_mem member))
  · exact nofun
  · intro address next wellFormed extends_ agree books object located
    exact done address next wellFormed extends_ (chain.agree agree) books
      (wellFormed.located located) object

theorem attains_peek {post : Option Address → Store Payload → Prop}
    (wellFormed : store.WellFormed) (opened : Opened serialization store queue elements entries)
    (done : ∀ found (next : Store Payload), next.WellFormed → Extends store next →
      Opened serialization next queue elements entries → Returned next found entries.head? →
      post found next) :
    Attains store (gzochidDurableQueuePeek serialization queue) post := by
  apply Attains.bind
  apply attains_loadQueue opened.contents
  cases elements with
  | nil =>
    have isEmpty : entries = [] := by
      have items := opened.chain.linked.items_nil
      exact map_eq_nil_iff.mp items
    subst isEmpty
    exact .pure (done none store wellFormed (.refl store) opened rfl)
  | cons oid rest =>
    apply Attains.bind
    apply attains_dereference_first wellFormed opened
    intro address middle entry later wellFormed extends_ opened isCons object located
    have member : entry ∈ entries := by
      rw [isCons]
      exact mem_cons_self
    apply Attains.bind
    apply expect rfl
    apply Attains.bind
    apply attains_loadElement object
    apply Attains.bind
    apply Attains.gzochidDataCreateReferenceToOid
    intro wellFormed
    apply attains_dereference_data wellFormed (opened.chain.name_data member)
      (opened.books.weaken (fun _ none => absurd none not_mem_nil)).name member
      (name_known Kind.data entry.oid)
    intro found next wellFormed more chain books managed payload
    have named := name_extends Kind.data (opened.chain.entry_used member)
    have whole := named.trans more
    apply done (some found) next wellFormed (extends_.trans whole)
      (opened.extends whole chain books)
    rw [isCons]
    exact ⟨found, rfl, managed, payload⟩

/-- The object at an address is one of the store; it gets the fresh id if it was not before. -/
structure Placed (serialization : Serialization Payload) (store next : Store Payload)
    (address : Address) (object : Object Payload) (fresh oid : Oid) : Prop where
  memory : next.memory = store.memory
  managed : next.managed address = some oid
  others : ∀ place, place ≠ address → next.managed place = store.managed place
  kept : ∀ other, store.managed address = some other → oid = other
  new : store.managed address = none → oid = fresh
  here : next.Located oid object.kind address
  changed : store.managed address = none → next.knowledge oid = .changed object.kind address
  knowledge : ∀ other, ¬store.Unused other → next.knowledge other = store.knowledge other
  content : ∀ kind other, ¬store.Unused other →
    next.content (codec serialization) kind other = store.content (codec serialization) kind other
  unused : ∀ other, other ≠ fresh → store.Unused other → next.Unused other

/-- Objects of an application and queues are never removed. -/
theorem Books.located (books : Books serialization store dirty pending)
    (managed : store.managed address = some oid) (there : store.memory address = some object)
    (notElement : object.kind ≠ .element) : store.Located oid object.kind address := by
  cases books.kinds managed there with
  | inl located => exact located
  | inr removed => exact absurd removed.1 notElement

variable {fresh : Oid}

theorem manage_placed (wellFormed : store.WellFormed)
    (books : Books serialization store dirty pending) (there : store.memory address = some object)
    (notElement : object.kind = .element → store.managed address = none)
    (unused : store.Unused fresh) (small : fresh < 2 ^ 64) :
    Placed serialization store (store.manage object.kind address fresh).1 address object fresh
        (store.manage object.kind address fresh).2 ∧
      Books serialization (store.manage object.kind address fresh).1 dirty pending := by
  cases managed : store.managed address with
  | some oid =>
    rw [manage_managed managed]
    refine ⟨⟨rfl, managed, fun _ _ => rfl, ?_, ?_, ?_, ?_, fun _ _ => rfl, fun _ _ _ => rfl,
      fun _ _ => id⟩, books⟩
    · intro other isOther
      rw [managed] at isOther
      exact Option.some.inj isOther
    · intro absent
      rw [managed] at absent
      cases absent
    · apply books.located managed there
      intro isElement
      rw [notElement isElement] at managed
      cases managed
    · intro absent
      rw [managed] at absent
      cases absent
  | none =>
    rw [manage_unmanaged managed]
    have changed := place_changed store object.kind address fresh
    have apart : ∀ other, ¬store.Unused other → other ≠ fresh := by
      intro other used same
      exact used (same ▸ unused)
    refine ⟨⟨rfl, update_same _ _ _, fun _ apart => update_other _ _ apart, ?_, fun _ => rfl,
      .inr changed, fun _ => changed, ?_, ?_, ?_⟩, books.place wellFormed there unused small⟩
    · intro other isOther
      rw [managed] at isOther
      cases isOther
    · exact fun other used => know_other _ (apart other used)
    · exact fun kind other used => (place_steady (apart other used)).content kind
    · intro other isOther isUnused
      exact ⟨(know_other _ isOther).trans isUnused.1, isUnused.2⟩

theorem Chain.placed (chain : Chain (store.content (codec serialization)) own elements entries)
    (placed : Placed serialization store next address object fresh oid) :
    Chain (next.content (codec serialization)) own elements entries :=
  chain.congr (fun _ member => placed.content .element _ (chain.used member))
    fun _ member => placed.content .data _ (chain.entry_used member)

theorem attains_createReference (object : Object Payload) {post : Oid → Store Payload → Prop}
    (wellFormed : store.WellFormed) (books : Books serialization store dirty pending)
    (there : store.memory address = some object)
    (notElement : object.kind = .element → store.managed address = none)
    (unused : store.Unused fresh) (small : fresh < 2 ^ 64)
    (done : ∀ oid (next : Store Payload), next.WellFormed →
      Placed serialization store next address object fresh oid →
      Books serialization next dirty pending → post oid next) :
    Attains store
      (Procedure.gzochidDataCreateReference (codec serialization) object.kind address fresh)
      post := by
  obtain ⟨placed, booksThen⟩ := manage_placed wellFormed books there notElement unused small
  apply gzochidDataCreateReference
  · rw [there]
    nofun
  · exact unused
  · exact fun wellFormed => done _ _ wellFormed placed booksThen

/-- The queue is marked, at the end of a change. -/
theorem attains_markQueue (wellFormed : store.WellFormed)
    (chain : Chain (store.content (codec serialization)) (store.managed queue) elements entries)
    (books : Books serialization store dirty [])
    (only : ∀ oid ∈ dirty, store.managed queue = some oid)
    (contents : store.memory queue = some (.queue (endsOf elements)))
    (unused : store.Unused fresh) (small : fresh < 2 ^ 64)
    (done : ∀ next : Store Payload, next.WellFormed →
      Opened serialization next queue elements entries → next.memory = store.memory →
      (∀ place, place ≠ queue → next.managed place = store.managed place) →
      (∀ oid, store.managed queue = some oid → next.managed queue = some oid) →
      next.managed queue ≠ none → post () next) :
    Attains store (Procedure.gzochidDataMark (codec serialization) .queue queue fresh) post := by
  have placedBooks := manage_placed wellFormed books contents nofun unused small
  apply gzochidDataMark
  · rw [contents]
    nofun
  · exact unused
  · intro oid managed removed
    exact (books.located managed contents nofun).not_removed removed
  · change Placed serialization store (store.manage Kind.queue queue fresh).1 queue _ fresh
      (store.manage Kind.queue queue fresh).2 ∧
        Books serialization (store.manage Kind.queue queue fresh).1 dirty [] at placedBooks
    generalize (store.manage Kind.queue queue fresh).1 = middle at placedBooks ⊢
    generalize (store.manage Kind.queue queue fresh).2 = oid at placedBooks ⊢
    obtain ⟨placed, books⟩ := placedBooks
    intro wellFormed
    obtain ⟨memory, managed, _⟩ := markFor_same middle oid
    have managedQueue : (middle.markFor oid).managed queue = some oid := by
      rw [managed, placed.managed]
    apply done _ wellFormed
    · refine ⟨?_, ?_, ?_, ?_⟩
      · rw [managedQueue]
        have marked : Chain ((middle.markFor oid).content (codec serialization))
            (store.managed queue) elements entries :=
          (chain.placed placed).congr
            (fun other _ => (markFor_steady oid other).content Kind.element)
            fun entry _ => (markFor_steady oid entry.oid).content Kind.data
        apply marked.withOwn
        intro other isOwn
        cases isOwn
        cases before : store.managed queue with
        | some old =>
          rw [placed.kept old before]
          exact chain.own old before
        | none =>
          rw [placed.new before]
          exact ⟨fun member => chain.used member unused,
            fun entry member same => chain.entry_used member (same ▸ unused)⟩
      · apply books.markFor placed.here
        intro other isDirty
        exact .inl (placed.kept other (only other isDirty)).symm
      · rw [memory, placed.memory, contents]
      · rw [managedQueue]
        nofun
    · rw [memory, placed.memory]
    · intro place apart
      rw [managed, placed.others place apart]
    · intro old before
      rw [managedQueue, placed.kept old before]
    · rw [managedQueue]
      nofun

/-- The pointers after the first node has been taken off. -/
theorem endsOf_rest (oid : Oid) (rest : List Oid) :
    (⟨rest.head?, if rest.head?.isNone then none else (endsOf (oid :: rest)).tail⟩ : DurableQueue) =
      endsOf rest := by
  cases rest with
  | nil => rfl
  | cons second rest =>
    unfold endsOf
    rw [List.getLast?_cons_cons]
    rfl

/-- The id of a queue that is not empty. -/
theorem Opened.managed (opened : Opened serialization store queue (oid :: elements) entries) :
    ∃ queueId, store.managed queue = some queueId := by
  cases managed : store.managed queue with
  | none => cases opened.stored managed
  | some queueId => exact ⟨queueId, rfl⟩

/-- A change of the queue itself does not change the list. -/
theorem Chain.assign_queue (wellFormed : store.WellFormed)
    (chain : Chain (store.content (codec serialization)) (store.managed queue) elements entries)
    (object : Object Payload) :
    Chain ((store.assign queue object).content (codec serialization)) (store.managed queue)
      elements entries := by
  apply chain.congr
  · intro oid member
    apply (assign_steady wellFormed object _).content Kind.element
    intro managed
    exact (chain.own oid managed).1 member
  · intro entry member
    apply (assign_steady wellFormed object _).content Kind.data
    intro managed
    exact (chain.own entry.oid managed).2 entry member rfl

theorem attains_pop {post : Option Address → Store Payload → Prop} (wellFormed : store.WellFormed)
    (opened : Opened serialization store queue elements entries) (unused : store.Unused fresh)
    (small : fresh < 2 ^ 64) (done : ∀ found (next : Store Payload), next.WellFormed →
      Opened serialization next queue elements.tail entries.tail →
      (∀ oid, store.managed queue = some oid → next.managed queue = some oid) →
      Returned next found entries.head? → post found next) :
    Attains store (gzochidDurableQueuePop serialization queue fresh) post := by
  apply Attains.bind
  apply attains_loadQueue opened.contents
  cases elements with
  | nil =>
    have isEmpty : entries = [] := map_eq_nil_iff.mp opened.chain.linked.items_nil
    subst isEmpty
    exact .pure (done none store wellFormed opened (fun _ => id) rfl)
  | cons oid rest =>
    apply Attains.bind
    apply attains_dereference_first wellFormed opened
    have allocated := opened.allocated
    intro address middle entry later wellFormed first opened isCons object located
    subst isCons
    obtain ⟨queueId, managedQueue⟩ := opened.managed
    apply Attains.bind
    apply expect rfl
    apply Attains.bind
    apply attains_loadElement object
    rw [endsOf_rest]
    -- The queue is changed before the object is looked at, and marked at the end.
    have changed :
        Books serialization (middle.assign queue (.queue (endsOf rest))) [queueId] [] := by
      apply opened.books.assign wellFormed opened.contents
      · rfl
      · intro other isEnd
        cases mem_append.mp isEnd with
        | inl isHead =>
          cases opened.books.referenced object other isHead with
          | inl known => exact known
          | inr isPending => cases isPending
        | inr isLast =>
          apply opened.known
          apply mem_append_right
          cases rest with
          | nil => cases isLast
          | cons second rest =>
            rw [List.getLast?_cons_cons]
            exact isLast
      · exact nofun
      · intro other managed
        rw [managedQueue] at managed
        cases managed
        exact .inl mem_cons_self
    have chain := Chain.assign_queue wellFormed opened.chain (.queue (endsOf rest))
    apply Attains.bind
    apply assign opened.allocated
    intro wellFormed
    apply Attains.bind
    apply Attains.gzochidDataCreateReferenceToOid
    intro wellFormed
    apply Attains.bind
    apply attains_dereference_data wellFormed (chain.name_data mem_cons_self)
      (changed.weaken (fun _ none => absurd none not_mem_nil)).name mem_cons_self
      (name_known Kind.data entry.oid)
    intro found last wellFormed more chain' books managed payload
    have extends_ : Extends (middle.assign queue (.queue (endsOf rest))) last :=
      (name_extends Kind.data (chain.entry_used mem_cons_self)).trans more
    have contents : last.memory queue = some (.queue (endsOf rest)) := by
      rw [extends_.memory, assign_memory]
      rw [assign_memory]
      nofun
    have managedThen : last.managed queue = some queueId := by
      rw [extends_.managed]
      · exact managedQueue
      · rw [assign_memory]
        nofun
    have locatedThen : last.Located oid .element address := extends_.located located
    obtain ⟨_, _, isCons, _, chainRest⟩ := chain'.first
    cases isCons
    have removed : Chain ((last.know oid .removed).content (codec serialization))
        ((last.know oid .removed).managed queue) rest later := by
      show Chain _ (last.managed queue) rest later
      rw [managedThen, ← managedQueue]
      apply chainRest.congr
      · intro other member
        apply (remove_steady _).content Kind.element
        intro same
        exact (nodup_cons.mp chain'.nodup).1 (same ▸ member)
      · intro other member
        apply (remove_steady _).content Kind.data
        intro same
        exact chain'.apart other (mem_cons_of_mem _ member) (same ▸ mem_cons_self)
    have unusedThen : (last.know oid .removed).Unused fresh := by
      have still : last.Unused fresh := extends_.unused (first.unused unused)
      have apart : fresh ≠ oid := by
        intro same
        exact locatedThen.known (same ▸ still.1)
      exact ⟨(know_other _ apart).trans still.1, still.2⟩
    apply Attains.bind
    apply gzochidDataRemoveObject locatedThen
    intro wellFormed
    apply Attains.bind
    apply attains_markQueue wellFormed removed (books.remove locatedThen) _ contents unusedThen
      small
    · intro next wellFormed opened memory others kept _
      apply Attains.pure
      apply done (some found) next wellFormed opened
      · intro own isOwn
        apply kept
        show last.managed queue = some own
        rw [managedThen, ← managedQueue, first.managed allocated]
        exact isOwn
      · refine ⟨found, rfl, ?_, ?_⟩
        · rw [others]
          · exact managed
          · intro same
            rw [same, contents] at payload
            cases payload
        · rw [memory]
          exact payload
    · intro other member
      rw [mem_singleton.mp member]
      exact managedThen

variable {element : Oid}

theorem Ready.agree (ready : Ready view own elements entries element entry)
    (agree : Agree elements view view') :
    Ready view' own elements entries element entry :=
  { ready with
    node := (agree .element element (.inl rfl)).trans ready.node
    payload := (agree .data entry.oid (.inr ready.outside)).trans ready.payload }

/-- The objects of the application stay where they are. -/
def KeepsData (store next : Store Payload) : Prop :=
  ∀ place payload, store.memory place = some (.data payload) →
    next.memory place = some (.data payload) ∧ next.managed place = store.managed place

theorem KeepsData.of_extends (extends_ : Extends store next) : KeepsData store next := by
  intro place payload there
  have allocated : store.memory place ≠ none := by
    rw [there]
    nofun
  exact ⟨(extends_.memory allocated).trans there, extends_.managed allocated⟩

theorem KeepsData.trans {last : Store Payload} (first : KeepsData store next)
    (second : KeepsData next last) : KeepsData store last := by
  intro place payload there
  obtain ⟨here, managed⟩ := first place payload there
  obtain ⟨finally_, managedThen⟩ := second place payload here
  exact ⟨finally_, managedThen.trans managed⟩

theorem KeepsData.assign {old : Object Payload} (there : store.memory address = some old)
    (notData : old.kind ≠ .data) (new : Object Payload) :
    KeepsData store (store.assign address new) := by
  intro place payload isData
  refine ⟨?_, rfl⟩
  rw [show (store.assign address new).memory place = store.memory place from ?_, isData]
  apply update_other
  intro same
  rw [same, there] at isData
  cases isData
  exact notData rfl

/-- The store after the last node and the queue have been changed. -/
def appended (store : Store Payload) (tail queue : Address) (elt : DurableQueueElement)
    (contents : DurableQueue) (element : Oid) : Store Payload :=
  (store.assign tail (.element { elt with next := some element })).assign queue
    (.queue { contents with tail := some element })

section Appended

variable {element last : Oid} {entry : Entry Payload} {elt : DurableQueueElement} {tail : Address}

variable (wellFormed : store.WellFormed)
  (isTail : store.memory tail = some (.element elt)) (located : store.Located last .element tail)
  (linked : (store.assign tail (.element { elt with next := some element })).WellFormed)

include opened isTail in
theorem appended_tail (element : Oid) :
    queue ≠ tail ∧ (appended store tail queue elt (endsOf elements) element).memory tail =
      some (.element { elt with next := some element }) := by
  have apart : queue ≠ tail := by
    intro same
    have contents := opened.contents
    rw [same, isTail] at contents
    cases contents
  exact ⟨apart, (update_other _ _ (Ne.symm apart)).trans (update_same _ _ _)⟩

include wellFormed opened isTail located linked

theorem appended_books (known : store.knowledge element ≠ .unknown) :
    Books serialization (appended store tail queue elt (endsOf elements) element)
      (last :: (store.managed queue).toList) [] := by
  have first : Books serialization (store.assign tail (.element { elt with next := some element }))
      (last :: (store.managed queue).toList) [] := by
    apply opened.books.assign wellFormed isTail
    · rfl
    · intro id isNext
      cases mem_singleton.mp isNext
      exact known
    · exact nofun
    · intro other managed
      rw [wellFormed.located located] at managed
      cases managed
      exact .inl mem_cons_self
  apply first.assign linked
    ((update_other _ _ (appended_tail opened isTail element).1).trans opened.contents)
  · rfl
  · intro id isEnd
    cases mem_append.mp isEnd with
    | inl isHead => exact opened.known (mem_append_left _ isHead)
    | inr isTail =>
      cases mem_singleton.mp isTail
      exact known
  · exact fun _ => id
  · intro other managed
    exact .inl (mem_cons_of_mem _ (Option.mem_toList.mpr managed))

omit opened isTail in
theorem appended_steady (contents : DurableQueue) (kind : Kind) (notLast : oid ≠ last)
    (notOwn : store.managed queue ≠ some oid) :
    (appended store tail queue elt contents element).content (codec serialization) kind oid =
      store.content (codec serialization) kind oid := by
  unfold appended
  rw [(assign_steady linked _ notOwn).content kind]
  apply (assign_steady wellFormed _ _).content kind
  intro managed
  rw [wellFormed.located located] at managed
  cases managed
  exact notLast rfl

theorem appended_chain
    (ready : Ready (store.content (codec serialization)) (store.managed queue) elements entries
      element entry) (isLast : elements.getLast? = some last) :
    Chain
      ((appended store tail queue elt (endsOf elements) element).content (codec serialization))
      (store.managed queue) (elements ++ [element]) (entries ++ [entry]) := by
  have member : last ∈ elements := mem_of_getLast? isLast
  apply opened.chain.concat ready
  · intro other inside notLast
    apply appended_steady wellFormed located linked
    · intro same
      exact notLast (same ▸ isLast)
    · intro isOwn
      cases mem_cons.mp inside with
      | inl isElement => exact (ready.own other isOwn).1 isElement.symm
      | inr inElements => exact (opened.chain.own other isOwn).1 inElements
  · intro other elt' isLast' found
    rw [isLast] at isLast'
    cases isLast'
    rw [content_located located, if_pos rfl, isTail] at found
    cases found
    have locatedThen :
        (appended store tail queue elt (endsOf elements) element).Located last Kind.element tail :=
      located
    rw [content_located locatedThen, if_pos rfl, (appended_tail opened isTail element).2]
  · intro other inside
    apply appended_steady wellFormed located linked
    · intro same
      cases mem_cons.mp inside with
      | inl isEntry => exact ready.outside (isEntry ▸ same ▸ member)
      | inr inEntries => exact opened.chain.apart other inEntries (same ▸ member)
    · intro isOwn
      cases mem_cons.mp inside with
      | inl isEntry => exact (ready.own _ isOwn).2 (isEntry ▸ rfl)
      | inr inEntries => exact (opened.chain.own _ isOwn).2 other inEntries rfl

end Appended

variable {last : Oid}

theorem endsOf_concat (isLast : elements.getLast? = some last) (element : Oid) :
    { endsOf elements with tail := some element } = endsOf (elements ++ [element]) := by
  cases elements with
  | nil => cases isLast
  | cons first rest =>
    unfold endsOf
    rw [List.getLast?_append]
    rfl

section Linked

variable (wellFormed : store.WellFormed)
  (ready : Ready (store.content (codec serialization)) (store.managed queue) elements entries
    element entry)
  (located : ∃ place, store.Located element .element place) (unused : store.Unused fresh)
  (done : ∀ next : Store Payload, next.WellFormed → KeepsData store next →
    next.managed queue = store.managed queue →
    Chain (next.content (codec serialization)) (store.managed queue) (elements ++ [element])
      (entries ++ [entry]) →
    Books serialization next (store.managed queue).toList [] →
    next.memory queue = some (.queue (endsOf (elements ++ [element]))) → next.Unused fresh →
    post () next)
include wellFormed opened ready located unused done

/-- A node that is ready becomes the next of the last one, and the tail. -/
theorem attains_appendElement (isLast : elements.getLast? = some last) :
    Attains store (appendElement serialization queue (endsOf elements) element fresh) post := by
  have member : last ∈ elements := mem_of_getLast? isLast
  obtain ⟨elt, stands, inList⟩ := opened.chain.present member
  apply Attains.bind
  apply expect (show (endsOf elements).tail = some last from isLast)
  apply Attains.bind
  apply attains_dereference (.element elt) wellFormed opened.chain opened.books
    (opened.known (mem_append_right _ (by rw [isLast]; exact mem_singleton_self _))) stands
  · exact opened.chain.small last (mem_append_left _ member)
  · exact fun id isNext => inList id (Option.mem_toList.mp isNext)
  intro tail middle wellFormed first agree books object locatedTail
  have sameOwn : middle.managed queue = store.managed queue := first.managed opened.allocated
  rw [← sameOwn] at ready done
  have opened := opened.extends first (opened.chain.agree agree) books
  have ready := ready.agree agree
  have knownElement : middle.knowledge element ≠ .unknown := by
    obtain ⟨place, here⟩ := located
    exact (first.located here).known
  have tailThen := (appended_tail opened object element).2
  have contents : (middle.assign tail (.element { elt with next := some element })).memory queue =
      some (.queue (endsOf elements)) :=
    (update_other _ _ (appended_tail opened object element).1).trans opened.contents
  have keeps : KeepsData store (appended middle tail queue elt (endsOf elements) element) :=
    (KeepsData.of_extends first).trans ((KeepsData.assign object nofun _).trans
      (KeepsData.assign contents nofun _))
  have locatedThen : (appended middle tail queue elt (endsOf elements) element).Located last
      .element tail := locatedTail
  have unusedThen : (appended middle tail queue elt (endsOf elements) element).Unused fresh :=
    first.unused unused
  have managedThen : (appended middle tail queue elt (endsOf elements) element).managed tail =
      some last := wellFormed.located locatedTail
  apply Attains.bind
  apply expect rfl
  apply Attains.bind
  apply attains_loadElement object
  apply Attains.bind
  apply assign (by rw [object]; nofun)
  intro linked
  have chain := appended_chain opened wellFormed object locatedTail linked ready isLast
  have changed := appended_books opened wellFormed object locatedTail linked knownElement
  apply Attains.bind
  apply assign (by rw [contents]; nofun)
  change WellFormed (appended middle tail queue elt (endsOf elements) element) →
    Attains (appended middle tail queue elt (endsOf elements) element) _ _
  intro _
  apply gzochidDataMark (by rw [tailThen]; nofun) unusedThen
  · intro other isManaged removed
    rw [managedThen] at isManaged
    cases isManaged
    exact locatedThen.not_removed removed
  · rw [manage_managed managedThen]
    intro wellFormedThen
    obtain ⟨memory, managed, stored⟩ := markFor_same
      (appended middle tail queue elt (endsOf elements) element) last
    apply done _ wellFormedThen
    · intro place payload there
      obtain ⟨here, same⟩ := keeps place payload there
      rw [memory, managed]
      exact ⟨here, same⟩
    · rw [managed]
      rfl
    · exact chain.congr (fun other _ => (markFor_steady last other).content Kind.element)
        fun other _ => (markFor_steady last other.oid).content Kind.data
    · apply changed.markFor locatedThen
      exact fun other isDirty => mem_cons.mp isDirty
    · rw [memory, ← endsOf_concat isLast]
      exact update_same _ _ _
    · have notLast : fresh ≠ last := by
        intro same
        exact locatedThen.known (same ▸ unusedThen.1)
      unfold Unused
      rw [markFor_other notLast, stored]
      exact unusedThen

theorem attains_linkElement :
    Attains store (linkElement serialization queue element fresh) post := by
  apply Attains.bind
  apply attains_loadQueue opened.contents
  cases isLast : elements.getLast? with
  | some last =>
    have isHead : ∃ first, (endsOf elements).head = some first := by
      cases elements with
      | nil => cases isLast
      | cons first rest => exact ⟨first, rfl⟩
    obtain ⟨first, isHead⟩ := isHead
    simp only [isHead]
    exact attains_appendElement opened wellFormed ready located unused done isLast
  | none =>
    have isEmpty : elements = [] := List.getLast?_eq_none_iff.mp isLast
    subst isEmpty
    apply assign opened.allocated
    intro wellFormedThen
    apply done _ wellFormedThen
    · exact KeepsData.assign opened.contents nofun _
    · rfl
    · apply opened.chain.concat ready
      · intro oid isElement _
        apply (assign_steady wellFormed _ _).content Kind.element
        intro isOwn
        exact (ready.own oid isOwn).1 (mem_singleton.mp isElement).symm
      · exact nofun
      · intro other inside
        apply (assign_steady wellFormed _ _).content Kind.data
        intro isOwn
        cases mem_cons.mp inside with
        | inl isEntry => exact (ready.own _ isOwn).2 (isEntry ▸ rfl)
        | inr inEntries => exact (opened.chain.own _ isOwn).2 other inEntries rfl
    · apply opened.books.assign wellFormed opened.contents
      · rfl
      · intro oid isEnd
        have same : oid = element := by
          cases mem_append.mp isEnd with
          | inl isHead => exact mem_singleton.mp isHead
          | inr isTail => exact mem_singleton.mp isTail
        obtain ⟨place, here⟩ := located
        rw [same]
        exact here.known
      · exact nofun
      · exact fun oid managed => .inl (Option.mem_toList.mpr managed)
    · exact update_same _ _ _
    · exact unused

end Linked

variable {data : Address}

/-- A new link node with an object of the application is ready. -/
theorem Opened.ready {elt : Address} (wellFormed : store.WellFormed)
    (opened : Opened serialization store queue elements entries)
    (node : store.Located element .element elt)
    (isNode : store.memory elt = some (.element ⟨entry.oid, none⟩))
    (object : store.Located entry.oid .data data)
    (isObject : store.memory data = some (.data entry.payload)) (new : element ∉ elements) :
    Ready (store.content (codec serialization)) (store.managed queue) elements entries element
      entry where
  node := by rw [content_located node, if_pos rfl, isNode]
  payload := by rw [content_located object, if_pos rfl, isObject]
  new := new
  outside := by
    intro inside
    obtain ⟨_, found, _⟩ := opened.chain.present inside
    rw [content_located object, if_neg nofun] at found
    cases found
  apart := by
    intro other inside same
    cases mem_cons.mp inside with
    | inl isEntry =>
      rw [isEntry] at same
      rw [same] at object
      cases (node.unique object).1
    | inr inEntries =>
      have found := opened.chain.payloads other inEntries
      rw [same, content_located node, if_neg nofun] at found
      cases found
  own := by
    intro oid isOwn
    have isQueue := opened.books.located isOwn opened.contents nofun
    constructor
    · intro same
      rw [same] at node
      cases (node.unique isQueue).1
    · intro same
      rw [same] at object
      cases (object.unique isQueue).1
  small := ⟨opened.books.small (wellFormed.located node),
    opened.books.small (wellFormed.located object)⟩

theorem Opened.placed (opened : Opened serialization store queue elements entries)
    (placed : Placed serialization store next address object fresh oid) (apart : queue ≠ address)
    (books : Books serialization next [] []) :
    Opened serialization next queue elements entries where
  chain := by
    rw [placed.others queue apart]
    exact opened.chain.placed placed
  books := books
  contents := by
    rw [placed.memory]
    exact opened.contents
  stored := by
    rw [placed.others queue apart]
    exact opened.stored

/-- A node that is not in the list yet is filled in. -/
theorem Opened.assign_node (opened : Opened serialization store queue elements entries)
    (wellFormed : store.WellFormed) {old new : Object Payload}
    (there : store.memory address = some old) (sameKind : new.kind = old.kind)
    (noPointers : ∀ other, other ∉ new.pointers) (managed : store.managed address = some element)
    (changed : store.knowledge element = .changed .element address) (apart : queue ≠ address)
    (outside : element ∉ elements) (noData : ∀ entry ∈ entries, entry.oid ≠ element) :
    Opened serialization (store.assign address new) queue elements entries where
  chain := by
    apply opened.chain.congr
    · intro other inside
      apply (assign_steady wellFormed _ _).content Kind.element
      intro isManaged
      rw [managed] at isManaged
      cases isManaged
      exact outside inside
    · intro entry inside
      apply (assign_steady wellFormed _ _).content Kind.data
      intro isManaged
      rw [managed] at isManaged
      exact noData entry inside (Option.some.inj isManaged).symm
  books := by
    apply opened.books.assign wellFormed there
    · exact sameKind
    · exact fun other member => absurd member (noPointers other)
    · exact fun _ => id
    · intro other isManaged
      rw [managed] at isManaged
      cases isManaged
      exact .inr ⟨_, changed⟩
  contents := (update_other _ _ apart).trans opened.contents
  stored := opened.stored

/-- An object of the application is put at the end of the list. -/
theorem attains_offer {payload : Payload} {fresh : FreshIds} (wellFormed : store.WellFormed)
    (opened : Opened serialization store queue elements entries)
    (there : store.memory data = some (.data payload))
    (unused : ∀ oid ∈ [fresh.element, fresh.data, fresh.mark],
      store.Unused oid ∧ oid < 2 ^ 64) (distinct : [fresh.element, fresh.data, fresh.mark].Nodup)
    (done : ∀ element oid (next : Store Payload), next.WellFormed →
      Opened serialization next queue (elements ++ [element]) (entries ++ [⟨oid, payload⟩]) →
      (∀ oid, store.managed queue = some oid → next.managed queue = some oid) →
      next.managed queue ≠ none → next.managed data = some oid →
      next.memory data = some (.data payload) → post () next) :
    Attains store (gzochidDurableQueueOffer serialization queue data fresh) post := by
  obtain ⟨unusedElement, smallElement⟩ := unused fresh.element (by simp)
  obtain ⟨unusedData, smallData⟩ := unused fresh.data (by simp)
  obtain ⟨unusedMark, smallMark⟩ := unused fresh.mark (by simp)
  simp only [nodup_cons, mem_cons, not_mem_nil, or_false, not_or, not_false_eq_true,
    nodup_nil, and_true] at distinct
  obtain ⟨⟨elementData, elementMark⟩, dataMark⟩ := distinct
  -- The node is made, and the references to it and to the object.
  have first := allocate_extends wellFormed (.element ⟨0, none⟩ : Object Payload)
  have absent := wellFormed.unallocated
  have opened₁ : Opened serialization (store.allocate (.element ⟨0, none⟩)) queue elements
      entries := by
    apply opened.extends first _ (opened.books.allocate wellFormed rfl)
    exact opened.chain.congr (fun oid _ => (allocate_steady wellFormed _ oid).content Kind.element)
      fun entry _ => (allocate_steady wellFormed _ entry.oid).content Kind.data
  have queueApart : queue ≠ store.nextAddress := wellFormed.apart opened.allocated
  have dataAllocated : store.memory data ≠ none := by
    rw [there]
    nofun
  have dataApart : data ≠ store.nextAddress := wellFormed.apart dataAllocated
  have queueData : queue ≠ data := by
    intro same
    rw [← same, opened.contents] at there
    cases there
  apply Attains.bind
  apply Attains.allocate
  intro wellFormed₁
  apply Attains.bind
  apply attains_createReference (.element ⟨0, none⟩) wellFormed₁ opened₁.books (update_same _ _ _)
    (fun _ => wellFormed.unmanaged absent) unusedElement smallElement
  intro element middle wellFormed₂ placed₁ books₂
  have isElement : element = fresh.element := placed₁.new (wellFormed.unmanaged absent)
  have opened₂ := opened₁.placed placed₁ queueApart books₂
  have there₂ : middle.memory data = some (.data payload) := by
    rw [placed₁.memory, first.memory dataAllocated, there]
  apply Attains.bind
  apply attains_createReference (.data payload) wellFormed₂ opened₂.books there₂ nofun
    (placed₁.unused fresh.data (Ne.symm elementData) unusedData) smallData
  intro oid reached wellFormed₃ placed₂ books₃
  have opened₃ := opened₂.placed placed₂ queueData books₃
  have nodeAt : reached.memory store.nextAddress = some (.element ⟨0, none⟩) := by
    rw [placed₂.memory, placed₁.memory]
    exact update_same _ _ _
  have managedNode : reached.managed store.nextAddress = some element := by
    rw [placed₂.others _ (Ne.symm dataApart), placed₁.managed]
  have changedNode : reached.knowledge element = .changed .element store.nextAddress := by
    have changed := placed₁.changed (wellFormed.unmanaged absent)
    rw [placed₂.knowledge element, changed]
    · rfl
    · intro isUnused
      have unknown := isUnused.1
      rw [changed] at unknown
      cases unknown
  have outside : element ∉ elements := by
    intro inside
    exact opened.chain.used inside (isElement ▸ unusedElement)
  -- The node gets its object, and is linked.
  have opened₄ :
      Opened serialization (reached.assign store.nextAddress (.element ⟨oid, none⟩)) queue
      elements entries := by
    refine opened₃.assign_node wellFormed₃ nodeAt rfl ?_ managedNode changedNode queueApart
      outside ?_
    · exact nofun
    · intro entry inside same
      exact opened.chain.entry_used inside (same ▸ isElement ▸ unusedElement)
  have there₄ : (reached.assign store.nextAddress (.element ⟨oid, none⟩)).memory data =
      some (.data payload) := by
    refine (update_other _ _ dataApart).trans ?_
    rw [placed₂.memory]
    exact there₂
  have located₄ : (reached.assign store.nextAddress (.element ⟨oid, none⟩)).Located element .element
      store.nextAddress := .inr changedNode
  have sameOwn₄ : (reached.assign store.nextAddress (.element ⟨oid, none⟩)).managed queue =
      store.managed queue :=
    (placed₂.others queue queueData).trans (placed₁.others queue queueApart)
  apply Attains.bind
  apply assign (by rw [nodeAt]; nofun)
  intro wellFormed₄
  have ready := opened₄.ready wellFormed₄ located₄ (assign_memory _ _ _)
    (show (reached.assign store.nextAddress (.element ⟨oid, none⟩)).Located
      (⟨oid, payload⟩ : Entry Payload).oid .data data from placed₂.here) there₄ outside
  apply Attains.bind
  apply attains_linkElement opened₄ wellFormed₄ ready ⟨_, located₄⟩
    (placed₂.unused fresh.mark (Ne.symm dataMark)
      (placed₁.unused fresh.mark (Ne.symm elementMark) unusedMark))
  intro last wellFormed₅ keeps sameOwn chain books contents unused₅
  rw [← sameOwn] at chain books
  apply attains_markQueue wellFormed₅ chain books (fun other => Option.mem_toList.mp) contents
    unused₅ smallMark
  intro next wellFormed₆ opened₆ memory others kept isManaged
  obtain ⟨there₅, managed₅⟩ := keeps data payload there₄
  apply done element oid next wellFormed₆ opened₆
  · intro own isOwn
    apply kept
    rw [sameOwn, sameOwn₄, isOwn]
  · exact isManaged
  · rw [others data (Ne.symm queueData), managed₅]
    exact placed₂.managed
  · rw [memory, there₅]

end Gzochi.Queue
