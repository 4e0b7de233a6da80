import Gzochi.Queue.Storage

/-!
# Queues over whole runs

Transactions follow each other, each of them with calls of the functions of a queue, and commit
or are rolled back.  The calls are answered as a list would answer them, and the list that the
committed calls make is what is stored.
-/

namespace Gzochi.Queue

open Lib Data Option

variable {Payload : Type} {serialization : Serialization Payload} {store : Store Payload}
  {elements : List Oid} {entries : List (Entry Payload)} {queue : Address}

theorem dooms_createReferencesToOids (ids : List Oid) :
    Dooms (createReferencesToOids serialization ids) := by
  induction ids with
  | nil => exact .pure ()
  | cons oid rest ih =>
    apply Dooms.bind
    · exact .gzochidDataCreateReferenceToOid _ _
    · exact fun _ => ih

theorem dooms_dereference (oid : Oid) (forUpdate : Bool) :
    Dooms (dereference serialization oid forUpdate) := by
  apply (Dooms.gzochidDataDereference oid forUpdate).bind
  intro found
  cases found with
  | none => exact .pure none
  | some address =>
    apply (Dooms.load address).bind
    intro object
    apply (dooms_createReferencesToOids object.pointers).bind
    exact fun _ => .pure (some address)

theorem dooms_loadQueue (address : Address) :
    Dooms (loadQueue address : QueueProcedure Payload DurableQueue) := by
  apply (Dooms.load address).bind
  intro object
  cases object with
  | queue queue => exact .pure queue
  | element | data => exact .crash

theorem dooms_loadElement (address : Address) :
    Dooms (loadElement address : QueueProcedure Payload DurableQueueElement) := by
  apply (Dooms.load address).bind
  intro object
  cases object with
  | element elt => exact .pure elt
  | queue | data => exact .crash

theorem dooms_linkElement (queue : Address) (eltRef fresh : Oid) :
    Dooms (linkElement serialization queue eltRef fresh) := by
  apply (dooms_loadQueue queue).bind
  intro contents
  cases isHead : contents.head with
  | none => exact .assign _ _
  | some head =>
    apply (Dooms.expect contents.tail).bind
    intro tailRef
    apply (dooms_dereference tailRef false).bind
    intro found
    apply (Dooms.expect found).bind
    intro tail
    apply (dooms_loadElement tail).bind
    intro tailElt
    apply (Dooms.assign _ _).bind
    intro _
    apply (Dooms.assign _ _).bind
    exact fun _ => .gzochidDataMark _ _ _

theorem dooms_offer (queue data : Address) (fresh : FreshIds) :
    Dooms (gzochidDurableQueueOffer serialization queue data fresh) := by
  apply (Dooms.allocate _).bind
  intro elt
  apply (Dooms.gzochidDataCreateReference _ _ _).bind
  intro eltRef
  apply (Dooms.gzochidDataCreateReference _ _ _).bind
  intro dataRef
  apply (Dooms.assign _ _).bind
  intro _
  apply (dooms_linkElement queue eltRef fresh.mark).bind
  exact fun _ => .gzochidDataMark _ _ _

theorem dooms_peek (queue : Address) : Dooms (gzochidDurableQueuePeek serialization queue) := by
  apply (dooms_loadQueue queue).bind
  intro contents
  cases isHead : contents.head with
  | none => exact .pure none
  | some headRef =>
    apply (dooms_dereference headRef false).bind
    intro found
    apply (Dooms.expect found).bind
    intro elt
    apply (dooms_loadElement elt).bind
    intro element
    apply (Dooms.gzochidDataCreateReferenceToOid _ _).bind
    exact fun _ => dooms_dereference _ _

theorem dooms_pop (queue : Address) (fresh : Oid) :
    Dooms (gzochidDurableQueuePop serialization queue fresh) := by
  apply (dooms_loadQueue queue).bind
  intro contents
  cases isHead : contents.head with
  | none => exact .pure none
  | some headRef =>
    apply (dooms_dereference headRef true).bind
    intro found
    apply (Dooms.expect found).bind
    intro elt
    apply (dooms_loadElement elt).bind
    intro element
    apply (Dooms.assign _ _).bind
    intro _
    apply (Dooms.gzochidDataCreateReferenceToOid _ _).bind
    intro _
    apply (dooms_dereference element.oid false).bind
    intro data
    apply (Dooms.gzochidDataRemoveObject _).bind
    intro _
    apply (Dooms.gzochidDataMark _ _ _).bind
    exact fun _ => .pure data

/-- A queue that has been opened or not, with its list; `own` is its id when the transaction
began. -/
def InMemory (serialization : Serialization Payload) (own : Option Oid) (queue : Option Address)
    (store : Store Payload) (elements : List Oid) (entries : List (Entry Payload)) : Prop :=
  match queue with
  | none => Closed serialization store own elements entries
  | some address => Opened serialization store address elements entries ∧
      ∀ oid ∈ own, store.managed address = some oid

variable {own : Option Oid}

/-- Opened or not, the queue is there under its id. -/
theorem InMemory.closed {queue : Option Address} {oid : Oid}
    (inMemory : InMemory serialization own queue store elements entries) (isOwn : own = some oid) :
    Closed serialization store (some oid) elements entries := by
  cases queue with
  | none => exact isOwn ▸ inMemory
  | some address =>
    have closed := inMemory.1.closed
    rw [inMemory.2 oid isOwn] at closed
    exact closed

/-- Objects are made. -/
theorem InMemory.allocate {queue : Option Address}
    (inMemory : InMemory serialization own queue store elements entries)
    (wellFormed : store.WellFormed) (payload : Payload) :
    InMemory serialization own queue (store.allocate (.data payload)) elements entries := by
  have steady (kind : Kind) (oid : Oid) :
      (store.allocate (.data payload)).content (codec serialization) kind oid =
        store.content (codec serialization) kind oid :=
    (ObjectStore.allocate_steady wellFormed _ oid).content kind
  have extends_ := ObjectStore.allocate_extends wellFormed (.data payload : Object Payload)
  cases queue with
  | none =>
    obtain ⟨chain, books, contents, stored⟩ := inMemory
    refine ⟨?_, books.allocate wellFormed rfl, ?_, stored⟩
    · exact chain.congr (fun oid _ => steady .element oid) fun entry _ => steady .data entry.oid
    · intro oid isOwn
      rw [steady]
      exact contents oid isOwn
  | some address =>
    obtain ⟨opened, same⟩ := inMemory
    refine ⟨opened.extends extends_ ?_ (opened.books.allocate wellFormed rfl), ?_⟩
    · exact opened.chain.congr (fun oid _ => steady .element oid)
        fun entry _ => steady .data entry.oid
    · intro oid isOwn
      rw [extends_.managed opened.allocated]
      exact same oid isOwn

/-- A queue is made where there is none. -/
theorem InMemory.create (inMemory : InMemory serialization none none store elements entries)
    (wellFormed : store.WellFormed) :
    InMemory serialization none (some store.nextAddress)
      (store.allocate (.queue ⟨none, none⟩)) elements entries := by
  have isEmpty := inMemory.stored rfl
  subst isEmpty
  have noEntries : entries = [] := List.map_eq_nil_iff.mp inMemory.chain.linked.items_nil
  subst noEntries
  refine ⟨⟨.empty _ _, inMemory.books.allocate wellFormed rfl, ?_, fun _ => rfl⟩, nofun⟩
  exact update_same _ _ _

/-- An application looks at its queue. -/
theorem attains_findQueue {oid : Oid} {forUpdate : Bool}
    {post : Option Address → Store Payload → Prop}
    (closed : Closed serialization store (some oid) elements entries)
    (done : ∀ address (next : Store Payload),
      InMemory serialization (some oid) (some address) next elements entries →
      post (some address) next) :
    Attains store (findQueue serialization oid forUpdate) post := by
  obtain ⟨chain, books, contents, stored⟩ := closed
  obtain ⟨small, stands⟩ := contents oid rfl
  obtain ⟨outside, different⟩ := chain.own oid rfl
  apply Attains.bind
  apply Attains.gzochidDataCreateReferenceToOid
  intro named
  have chainNamed : Chain ((store.name Kind.queue oid).content (codec serialization)) (some oid)
      elements entries := by
    apply chain.congr
    · intro other member
      apply (ObjectStore.name_steady _).content Kind.element
      exact fun same => outside (same ▸ member)
    · intro entry member
      exact (ObjectStore.name_steady (different entry member)).content Kind.data
  apply attains_dereference (.queue (endsOf elements)) named chainNamed
    (books.weaken (fun _ none => absurd none List.not_mem_nil)).name
    (ObjectStore.name_known Kind.queue oid)
  · show (store.name Kind.queue oid).content (codec serialization) Kind.queue oid = _
    rw [ObjectStore.name_content]
    exact stands
  · exact small
  · intro id isEnd
    cases List.mem_append.mp isEnd with
    | inl isHead => exact List.mem_of_mem_head? (mem_toList.mp isHead)
    | inr isTail => exact List.mem_of_getLast? (mem_toList.mp isTail)
  · intro address next wellFormed extends_ agree books object located
    have managed := wellFormed.located located
    apply done
    refine ⟨⟨?_, books, object, ?_⟩, ?_⟩
    · rw [managed]
      exact chainNamed.agree agree
    · rw [managed]
      nofun
    · intro other isOwn
      cases isOwn
      exact managed

/-- A reference is made to a queue in memory. -/
theorem attains_createReference_queue {fresh : Oid} {post : Oid → Store Payload → Prop}
    (wellFormed : store.WellFormed)
    (inMemory : InMemory serialization own (some queue) store elements entries)
    (unused : store.Unused fresh) (small : fresh < 2 ^ 64) (done : ∀ oid (next : Store Payload),
      InMemory serialization own (some queue) next elements entries → post oid next) :
    Attains store (Procedure.gzochidDataCreateReference (codec serialization) .queue queue fresh)
      post := by
  obtain ⟨opened, same⟩ := inMemory
  apply attains_createReference (.queue (endsOf elements)) wellFormed opened.books opened.contents
    nofun unused small
  intro oid next _ placed books
  apply done
  refine ⟨⟨?_, books, ?_, ?_⟩, ?_⟩
  · rw [placed.managed]
    apply (opened.chain.placed placed).withOwn
    intro other isOwn
    cases isOwn
    cases before : store.managed queue with
    | some old =>
      rw [placed.kept old before]
      exact opened.chain.own old before
    | none =>
      rw [placed.new before]
      exact ⟨fun member => opened.chain.used member unused,
        fun entry member same => opened.chain.entry_used member (same ▸ unused)⟩
  · rw [placed.memory]
    exact opened.contents
  · rw [placed.managed]
    nofun
  · intro other isOwn
    rw [placed.managed, placed.kept other (same other isOwn)]

/-- A step of the server and one of a queue that is a list.  What a transaction does in which
the engine has refused something need not be what the list does. -/
inductive Corresponds : Action Payload × Option (Outcome Payload) →
    TransactionalAction (QueueCall (Entry Payload)) × Option (Option (Entry Payload)) → Prop where
  | begin {answers : Nat → Bool} : Corresponds (.begin answers, none) (.begin, none)
  | offer {data : Address} {fresh : FreshIds} {entry : Entry Payload} :
      Corresponds (.call (.offer data fresh), some (.offered (some entry)))
        (.call (.offer entry), some none)
  | peek {found : Option (Address × Option (Entry Payload))} {entry : Option (Entry Payload)}
      (same : found.map Prod.snd = entry.map some) :
      Corresponds (.call .peek, some (.returned found)) (.call .peek, some entry)
  | pop {fresh : Oid} {found : Option (Address × Option (Entry Payload))}
      {entry : Option (Entry Payload)} (same : found.map Prod.snd = entry.map some) :
      Corresponds (.call (.pop fresh), some (.returned found)) (.call .pop, some entry)
  | done {action : Action Payload} (noCall : ∀ call, action ≠ .call call) :
      Corresponds (action, some .done) (.skip, none)
  | doomed {action : Action Payload} {outcome : Outcome Payload} :
      Corresponds (action, some outcome) (.doom, none)
  | commit {order : List Oid} : Corresponds (.commit order, none) (.commit, none)
  | rollback : Corresponds (.rollback, none) (.rollback, none)

/-- Where the list is while the server is in a transaction. -/
def CurrentHolds (serialization : Serialization Payload) (own : Option Oid)
    (transaction : Transaction Payload) (current : Current (List (Entry Payload))) : Prop :=
  if transaction.context.rollback then current = .doomed
  else ∃ store elements entries, current = .running entries ∧
    Refines transaction.context store ∧
    InMemory serialization own transaction.queue store elements entries

structure Related (serialization : Serialization Payload) (server : Server Payload)
    (object : Transactional (List (Entry Payload))) : Prop where
  committed : ∃ elements,
    Persisted serialization server.oids server.queue elements object.committed
  idle : server.transaction = none → object.current = .idle
  running : ∀ transaction, server.transaction = some transaction →
    CurrentHolds serialization server.queue transaction object.current

theorem initial_related (oids : Oid → Option Bytes) (names : Name → Option Oid) :
    Related serialization ⟨oids, names, none, none⟩ ⟨[], .idle⟩ where
  committed := ⟨[], .empty _ _, nofun, fun _ => rfl⟩
  idle := fun _ => rfl
  running := nofun

section

variable {server next : Server Payload} {object : Transactional (List (Entry Payload))}
  {transaction after : Transaction Payload} {own : Option Oid}
  {current : Current (List (Entry Payload))} {action : Action Payload}

theorem CurrentHolds.of_doomed (doomed : transaction.context.rollback = true) :
    CurrentHolds serialization own transaction .doomed := by
  unfold CurrentHolds
  rw [if_pos doomed]

theorem CurrentHolds.of_fine (fine : transaction.context.rollback = false)
    (refines : Refines transaction.context store)
    (inMemory : InMemory serialization own transaction.queue store elements entries) :
    CurrentHolds serialization own transaction (.running entries) := by
  unfold CurrentHolds
  rw [if_neg (by rw [fine]; nofun)]
  exact ⟨store, elements, entries, rfl, refines, inMemory⟩

theorem CurrentHolds.fine (holds : CurrentHolds serialization own transaction current)
    (fine : transaction.context.rollback = false) :
    ∃ store elements entries, current = .running entries ∧ Refines transaction.context store ∧
      InMemory serialization own transaction.queue store elements entries := by
  unfold CurrentHolds at holds
  rwa [if_neg (by rw [fine]; nofun)] at holds

theorem CurrentHolds.not_idle (holds : CurrentHolds serialization own transaction current) :
    current ≠ .idle := by
  cases refused : transaction.context.rollback with
  | true =>
    unfold CurrentHolds at holds
    rw [if_pos refused] at holds
    rw [holds]
    nofun
  | false =>
    obtain ⟨_, _, _, running, _⟩ := holds.fine refused
    rw [running]
    nofun

/-- The transaction goes on. -/
theorem Related.goOn (related : Related serialization server object)
    (holds : CurrentHolds serialization server.queue after current) :
    Related serialization { server with transaction := some after }
      { object with current := current } where
  committed := related.committed
  idle := nofun
  running := by
    intro transaction there
    cases there
    exact holds

/-- The engine has refused something. -/
theorem Related.doom (related : Related serialization server object)
    (there : server.transaction = some transaction)
    (doomed : after.context.rollback = true) :
    ∃ object', transactionalStep performQueue object .doom = some (object', none) ∧
      Related serialization { server with transaction := some after } object' := by
  refine ⟨{ object with current := .doomed }, ?_, related.goOn (.of_doomed doomed)⟩
  have going := (related.running transaction there).not_idle
  unfold transactionalStep
  cases current : object.current with
  | idle => exact absurd current going
  | running entries => rfl
  | doomed => rfl

/-- What a procedure of the server leaves is what the list makes of the action. -/
def Advances {α : Type} (serialization : Serialization Payload) (own : Option Oid)
    (action : Action Payload) (entries : List (Entry Payload))
    (done : α → Context Payload → Option Address × Outcome Payload) (value : α)
    (next : Store Payload) : Prop :=
  ∀ after, Refines after next → ∃ listAction entries' elements' reply,
    (∀ committed, transactionalStep performQueue ⟨committed, .running entries⟩ listAction =
      some (⟨committed, .running entries'⟩, reply)) ∧
    Corresponds (action, some (done value after).2) (listAction, reply) ∧
    InMemory serialization own (done value after).1 next elements' entries'

/-- The list has a step for what a call leaves and returns. -/
abbrev Matched (serialization : Serialization Payload) (server : Server Payload)
    (object : Transactional (List (Entry Payload))) (action : Action Payload)
    (result : Transaction Payload × Outcome Payload) : Prop :=
  ∃ listAction object' reply,
    transactionalStep performQueue object listAction = some (object', reply) ∧
    Related serialization { server with transaction := some result.1 } object' ∧
    Corresponds (action, some result.2) (listAction, reply)

/-- A procedure is run in a transaction. -/
theorem Related.settle {α : Type} {procedure : QueueProcedure Payload α}
    {done : α → Context Payload → Option Address × Outcome Payload}
    (related : Related serialization server object)
    (there : server.transaction = some transaction) (dooms : Dooms procedure)
    (attains : ∀ store elements entries, store.WellFormed → Refines transaction.context store →
      InMemory serialization server.queue transaction.queue store elements entries →
      Attains store procedure (Advances serialization server.queue action entries done)) :
    Matched serialization server object action (transaction.settle procedure done) := by
  have doomedAfter (doomed : (transaction.settle procedure done).1.context.rollback = true) :
      Matched serialization server object action (transaction.settle procedure done) := by
    obtain ⟨object', taken, held⟩ := related.doom there doomed
    exact ⟨.doom, object', none, taken, held, .doomed⟩
  cases refused : transaction.context.rollback with
  | true =>
    apply doomedAfter
    have still := dooms transaction.context refused
    unfold Transaction.settle
    cases ran : procedure.run transaction.context with
    | ok result after =>
      rw [ran] at still
      cases result with
      | ok value => exact still
      | error error => exact still
    | failed after =>
      rw [ran] at still
      exact still
    | crashed => exact refused
  | false =>
    obtain ⟨store, elements, entries, running, refines, inMemory⟩ :=
      (related.running transaction there).fine refused
    obtain ⟨result, context, ran, outcome⟩ :=
      attains store elements entries refines.wellFormed refines inMemory transaction.context
        refused refines
    cases result with
    | error error =>
      apply doomedAfter
      unfold Transaction.settle
      rw [ran]
      exact outcome
    | ok value =>
      obtain ⟨fine, reached, refinesThen, advances⟩ := outcome
      obtain ⟨listAction, entries', elements', reply, taken, corresponds, inMemory⟩ :=
        advances context refinesThen
      have settled : transaction.settle procedure done =
          (⟨context, (done value context).1⟩, (done value context).2) := by
        unfold Transaction.settle
        rw [ran]
      rw [settled]
      refine ⟨listAction, { object with current := .running entries' }, reply, ?_, ?_, corresponds⟩
      · have same : object = ⟨object.committed, .running entries⟩ := by
          rw [← running]
        rw [same]
        exact taken object.committed
      · apply related.goOn
        exact .of_fine fine refinesThen inMemory

/-- Nothing changes for the list. -/
theorem Advances.skip {α : Type} {done : α → Context Payload → Option Address × Outcome Payload}
    {value : α} {reached : Store Payload} {elements' : List Oid} {queue : Option Address}
    (noCall : ∀ call, action ≠ .call call) (isDone : ∀ after, done value after = (queue, .done))
    (inMemory : InMemory serialization own queue reached elements' entries) :
    Advances serialization own action entries done value reached := by
  intro after _
  refine ⟨.skip, entries, elements', none, fun _ => rfl, ?_, ?_⟩
  · rw [isDone]
    exact .done noCall
  · rw [isDone]
    exact inMemory

variable {context : Context Payload}

variable (refines : Refines context store)
include refines

/-- The object at an address, for the record. -/
theorem entryAt_refines {address : Address} {oid : Oid} {payload : Payload}
    (managed : store.managed address = some oid)
    (there : store.memory address = some (.data payload)) :
    entryAt context address = some ⟨oid, payload⟩ := by
  unfold entryAt
  rw [refines.byAddress, refines.memory, managed, there]

theorem returned_entry {found : Option Address} {entry : Option (Entry Payload)}
    (returned : Returned store found entry) :
    (found.map fun address => (address, entryAt context address)).map Prod.snd =
      entry.map some := by
  cases entry with
  | none =>
    cases returned
    rfl
  | some entry =>
    obtain ⟨address, rfl, managed, there⟩ := returned
    show some (entryAt context address) = _
    rw [entryAt_refines refines managed there]
    rfl

/-- Ids for new objects. -/
theorem available_unused {oid : Oid}
    (isAvailable : available context oid = true) : store.Unused oid ∧ oid < 2 ^ 64 := by
  unfold available at isAvailable
  rw [Bool.and_eq_true] at isAvailable
  exact ⟨refines.unused_of_fresh isAvailable.1, of_decide_eq_true isAvailable.2⟩

omit refines

/-- A call of a function of the queue. -/
theorem Related.call (related : Related serialization server object)
    (there : server.transaction = some transaction) (isQueue : transaction.queue = some queue)
    {call : Call} (possible : call.possible transaction.context = true) :
    Matched serialization server object (.call call)
      (transaction.call serialization queue call) := by
  cases call with
  | offer data fresh =>
    apply related.settle there (dooms_offer queue data fresh)
    intro store elements entries wellFormed refines inMemory
    rw [isQueue] at inMemory
    simp only [Call.possible, Bool.and_eq_true, decide_eq_true_eq] at possible
    obtain ⟨⟨⟨⟨isData, element⟩, datum⟩, mark⟩, distinct⟩ := possible
    have isThere : ∃ payload, store.memory data = some (.data payload) := by
      rw [← refines.memory]
      cases found : transaction.context.memory data with
      | none =>
        rw [found] at isData
        cases isData
      | some object =>
        rw [found] at isData
        cases object with
        | data payload => exact ⟨payload, rfl⟩
        | queue | element => cases isData
    obtain ⟨payload, isThere⟩ := isThere
    apply attains_offer wellFormed inMemory.1 isThere
    · intro oid member
      simp only [List.mem_cons, List.not_mem_nil, or_false] at member
      rcases member with rfl | rfl | rfl
      · exact available_unused refines element
      · exact available_unused refines datum
      · exact available_unused refines mark
    · exact distinct
    · intro element oid reached _ opened kept _ managed isData after refinesThen
      refine ⟨.call (.offer ⟨oid, payload⟩), entries ++ [⟨oid, payload⟩], elements ++ [element],
        some none, fun _ => rfl, ?_, opened, ?_⟩
      · show Corresponds (_, some (.offered (entryAt after data))) _
        rw [entryAt_refines refinesThen managed isData]
        exact .offer
      · exact fun own isOwn => kept own (inMemory.2 own isOwn)
  | peek =>
    apply related.settle there (dooms_peek queue)
    intro store elements entries wellFormed refines inMemory
    rw [isQueue] at inMemory
    apply attains_peek wellFormed inMemory.1
    intro found reached _ extends_ opened returned after refinesThen
    refine ⟨.call .peek, entries, elements, some entries.head?, fun _ => rfl, ?_, opened, ?_⟩
    · exact .peek (returned_entry refinesThen returned)
    · intro own isOwn
      rw [extends_.managed inMemory.1.allocated]
      exact inMemory.2 own isOwn
  | pop fresh =>
    apply related.settle there (dooms_pop queue fresh)
    intro store elements entries wellFormed refines inMemory
    rw [isQueue] at inMemory
    obtain ⟨unused, small⟩ := available_unused refines possible
    apply attains_pop wellFormed inMemory.1 unused small
    intro found reached _ opened kept returned after refinesThen
    refine ⟨.call .pop, entries.tail, elements.tail, some entries.head?, fun _ => rfl, ?_,
      opened, ?_⟩
    · exact .pop (returned_entry refinesThen returned)
    · exact fun own isOwn => kept own (inMemory.2 own isOwn)

/-- The references of the transaction are flushed, in any order. -/
def Covers (server : Server Payload) : Action Payload → Prop
  | .commit order => ∀ transaction ∈ server.transaction, ∀ oid,
      transaction.context.reference oid ≠ none → oid ∈ order
  | _ => True

theorem Related.step {observation : Option (Outcome Payload)}
    (related : Related serialization server object) (covers : Covers server action)
    (taken : server.step serialization action = some (next, observation)) :
    ∃ listAction object' reply,
      transactionalStep performQueue object listAction = some (object', reply) ∧
      Related serialization next object' ∧
      Corresponds (action, observation) (listAction, reply) := by
  cases action with
  | begin answers =>
    cases there : server.transaction with
    | some transaction =>
      simp only [Server.step, there] at taken
      cases taken
    | none =>
      simp only [Server.step, there] at taken
      cases taken
      obtain ⟨elements, persisted⟩ := related.committed
      refine ⟨.begin, { object with current := .running object.committed }, none, ?_, ?_, .begin⟩
      · simp only [transactionalStep, related.idle there]
      · apply related.goOn
        exact .of_fine rfl (begin_refines _ _ _) persisted.begin
  | create =>
    obtain ⟨transaction, there, taken⟩ := bind_eq_some_iff.mp taken
    obtain ⟨absent, taken⟩ := ite_none_right_eq_some.mp taken
    cases taken
    rw [Bool.and_eq_true, isNone_iff_eq_none, isNone_iff_eq_none] at absent
    apply related.settle there (Dooms.allocate _)
    intro store elements entries wellFormed _ inMemory
    rw [absent.1, absent.2] at inMemory
    apply Attains.allocate
    intro _
    rw [absent.2]
    exact .skip nofun (fun _ => rfl) (inMemory.create wellFormed)
  | find forUpdate =>
    obtain ⟨transaction, there, taken⟩ := bind_eq_some_iff.mp taken
    obtain ⟨oid, isOwn, taken⟩ := bind_eq_some_iff.mp taken
    cases taken
    have dooms : Dooms (findQueue serialization oid forUpdate) := by
      apply (Dooms.gzochidDataCreateReferenceToOid _ _).bind
      exact fun _ => dooms_dereference oid forUpdate
    apply related.settle there dooms
    intro store elements entries _ _ inMemory
    apply attains_findQueue (inMemory.closed isOwn)
    intro address reached found
    rw [isOwn]
    exact .skip nofun (fun _ => rfl) found
  | createReference fresh =>
    obtain ⟨transaction, there, taken⟩ := bind_eq_some_iff.mp taken
    obtain ⟨queue, isQueue, taken⟩ := bind_eq_some_iff.mp taken
    obtain ⟨isAvailable, taken⟩ := ite_none_right_eq_some.mp taken
    cases taken
    apply related.settle there (Dooms.gzochidDataCreateReference _ _ _)
    intro store elements entries wellFormed refines inMemory
    rw [isQueue] at inMemory
    obtain ⟨unused, small⟩ := available_unused refines isAvailable
    apply attains_createReference_queue wellFormed inMemory unused small
    intro oid reached found
    exact .skip nofun (fun _ => rfl) found
  | allocate payload =>
    obtain ⟨transaction, there, taken⟩ := bind_eq_some_iff.mp taken
    cases taken
    apply related.settle there (Dooms.allocate _)
    intro store elements entries wellFormed _ inMemory
    apply Attains.allocate
    intro _
    exact .skip nofun (fun _ => rfl) (inMemory.allocate wellFormed payload)
  | call call =>
    obtain ⟨transaction, there, taken⟩ := bind_eq_some_iff.mp taken
    obtain ⟨queue, isQueue, taken⟩ := bind_eq_some_iff.mp taken
    obtain ⟨possible, taken⟩ := ite_none_right_eq_some.mp taken
    cases taken
    exact related.call there isQueue possible
  | commit order =>
    obtain ⟨transaction, there, taken⟩ := bind_eq_some_iff.mp taken
    obtain ⟨prepared, success, taken⟩ := bind_eq_some_iff.mp taken
    cases taken
    have covered := covers transaction there
    obtain ⟨store, elements, entries, running, refines, inMemory⟩ :=
      (related.running transaction there).fine (dataPrepare_fine success)
    refine ⟨.commit, ⟨entries, .idle⟩, none, ?_, ⟨⟨elements, ?_⟩, fun _ => rfl, nofun⟩, .commit⟩
    · simp only [transactionalStep, running]
    · cases isQueue : transaction.queue with
      | none =>
        rw [isQueue] at inMemory
        exact inMemory.commit refines covered success
      | some address =>
        rw [isQueue] at inMemory
        simp only [refines.byAddress]
        exact inMemory.1.closed.commit refines covered success
  | rollback =>
    obtain ⟨transaction, there, taken⟩ := bind_eq_some_iff.mp taken
    cases taken
    have going := (related.running transaction there).not_idle
    refine ⟨.rollback, { object with current := .idle }, none, ?_, ?_, .rollback⟩
    · unfold transactionalStep
      cases current : object.current with
      | idle => exact absurd current going
      | running entries => rfl
      | doomed => rfl
    · exact ⟨related.committed, fun _ => rfl, nofun⟩

end

/-- In every run the calls in transactions that commit are answered as a list would answer them,
and the list that they make is stored: the link nodes from the head on, which end at the tail;
there is a head just when there is a tail.  An offer is accepted unless the engine has refused
something, however many objects the queue has. -/
theorem queue_is_fifo {oids : Oid → Option Bytes} {names : Name → Option Oid}
    {trace : List (Action Payload × Option (Outcome Payload))} {server : Server Payload}
    (run : Run (Server.step serialization) Covers ⟨oids, names, none, none⟩ trace server) :
    (∃ listTrace object elements,
      Run (transactionalStep performQueue) anyAction ⟨[], .idle⟩ listTrace object ∧
      List.Forall₂ Corresponds trace listTrace ∧
      Persisted serialization server.oids server.queue elements object.committed ∧
      ∀ oid, server.queue = some oid → ∃ contents,
        storedView serialization server.oids .queue oid = some (.queue contents) ∧
        (contents.head = none ↔ contents.tail = none) ∧
        contents.head = elements.head? ∧ contents.tail = elements.getLast? ∧
        SinglyLinked (nodeOf (storedView serialization server.oids)) elements
          (object.committed.map Entry.oid)) ∧
    ∀ transaction queue data fresh, server.transaction = some transaction →
      transaction.queue = some queue →
      (Call.offer data fresh).possible transaction.context = true →
      ∃ after outcome, server.step serialization (.call (.offer data fresh)) =
          some ({ server with transaction := some after }, some outcome) ∧
        (after.context.rollback = false → ∃ entry, outcome = .offered (some entry)) := by
  obtain ⟨listTrace, object, listRun, paired, related⟩ := run.simulates
    (Related serialization) Corresponds (initial_related oids names)
    (fun held covers taken => held.step covers taken)
  constructor
  · obtain ⟨elements, persisted⟩ := related.committed
    refine ⟨listTrace, object, elements, listRun, paired, persisted, ?_⟩
    intro oid isQueue
    exact ⟨endsOf elements, (persisted.contents oid isQueue).2, endsOf_none elements, rfl, rfl,
      persisted.chain.linked⟩
  · intro transaction queue data fresh there isQueue possible
    refine ⟨(transaction.call serialization queue (.offer data fresh)).1,
      (transaction.call serialization queue (.offer data fresh)).2, ?_, ?_⟩
    · simp only [Server.step, there, bind_eq_bind, bind_some, isQueue, possible, if_true]
      rfl
    · intro fine
      obtain ⟨listAction, object', reply, moved, held, corresponds⟩ :=
        related.call there isQueue possible
      obtain ⟨_, _, entries, running, _⟩ := (held.running _ rfl).fine fine
      generalize (transaction.call serialization queue (.offer data fresh)).2 = outcome
        at corresponds ⊢
      cases corresponds with
      | offer => exact ⟨_, rfl⟩
      | done noCall => exact absurd rfl (noCall _)
      | doomed =>
          rw [transactionalStep_doom moved] at running
          cases running

/-- Objects of one byte. -/
def byteSerialization : Serialization UInt8 where
  serializer payload := some [payload]
  deserializer
    | [payload] => some payload
    | _ => none
  roundTrip := by
    intro payload out written
    cases written
    rfl

/-- In one transaction a queue is made and an object offered; in the next one it is
found at the head of the queue. -/
def offered : List (Action UInt8) :=
  [.begin fun _ => true, .create, .allocate 7, .call (.offer 1 ⟨0, 1, 2⟩)]

def peeked : List (Action UInt8) :=
  [.begin fun _ => true, .find false, .call .peek]

theorem offered_permitted (action : Action UInt8) (member : action ∈ offered)
    (server : Server UInt8) : Covers server action := by
  simp only [offered, List.mem_cons, List.not_mem_nil, or_false] at member
  rcases member with rfl | rfl | rfl | rfl <;> trivial

theorem peeked_permitted (action : Action UInt8) (member : action ∈ peeked)
    (server : Server UInt8) : Covers server action := by
  simp only [peeked, List.mem_cons, List.not_mem_nil, or_false] at member
  rcases member with rfl | rfl | rfl <;> trivial

theorem queue_is_fifo_peeked : ∃ (trace : List (Action UInt8 × Option (Outcome UInt8)))
    (server : Server UInt8),
    trace.map Prod.fst = offered ++ [.commit [0, 1, 2]] ++ peeked ∧
    Run (Server.step byteSerialization) Covers ⟨fun _ => none, fun _ => none, none, none⟩
      trace server ∧
    ∃ listTrace object elements,
      Run (transactionalStep performQueue) anyAction ⟨[], .idle⟩ listTrace object ∧
      List.Forall₂ Corresponds trace listTrace ∧
      Persisted byteSerialization server.oids server.queue elements object.committed := by
  have first : Run (Server.step byteSerialization) Covers
      ⟨fun _ => none, fun _ => none, none, none⟩ _ _ :=
    Run.append_exec .nil offered_permitted (show exec _ _ offered = some (_, _) from rfl)
  have stored : Run (Server.step byteSerialization) Covers _
      (_ ++ [(.commit [0, 1, 2], none)]) _ := first.snoc (by
    intro transaction there oid known
    cases there
    rcases oid with _ | _ | _ | oid
    · decide
    · decide
    · decide
    · exact absurd rfl known) rfl
  have run := Run.append_exec stored peeked_permitted (show exec _ _ peeked = some (_, _) from rfl)
  obtain ⟨⟨listTrace, object, elements, listRun, paired, persisted, _⟩, _⟩ := queue_is_fifo run
  exact ⟨_, _, rfl, run, listTrace, object, elements, listRun, paired, persisted⟩

end Gzochi.Queue
