import Gzochi.Queue.Calls

/-!
# What is stored of a queue

The parts of a queue are read back from the bytes that have been written for them, so that a
transaction that commits leaves the list behind for the next one.
-/

namespace Gzochi.Queue

open Lib Data List

variable {Payload : Type} {serialization : Serialization Payload} {store : Store Payload}
  {own : Option Oid} {elements : List Oid} {entries : List (Entry Payload)} {queue : Address}

/-! ## Round trips -/

theorem gzochiCommonIoReadLong_reads {val : Nat} (small : val < 2 ^ 64) :
    gzochiCommonIoReadLong.Reads (gzochiCommonIoWriteLong val) val := by
  intro rest
  show Except.ok (_, rest) = Except.ok (val, rest)
  congr 2
  simp only [UInt8.toNat_ofNat', Nat.shiftRight_eq_div_pow, Nat.shiftLeft_eq]
  omega

theorem gzochidUtilDeserializeBoolean_reads (bool : Bool) :
    gzochidUtilDeserializeBoolean.Reads (gzochidUtilSerializeBoolean bool) bool := by
  intro rest
  cases bool with
  | true => rfl
  | false => rfl

variable {elt : DurableQueueElement}

theorem deserializeElement_reads (small : elt.oid < 2 ^ 64)
    (smallNext : ∀ next ∈ elt.next, next < 2 ^ 64) :
    deserializeElement.Reads (serializeElement elt) elt := by
  obtain ⟨oid, next⟩ := elt
  apply (gzochiCommonIoReadLong_reads small).bind
  cases next with
  | none =>
    have flag := (gzochidUtilDeserializeBoolean_reads false).map fun _ =>
      (⟨oid, none⟩ : DurableQueueElement)
    exact flag
  | some next =>
    apply (gzochidUtilDeserializeBoolean_reads true).bind
    exact (gzochiCommonIoReadLong_reads (smallNext next rfl)).map fun next =>
      (⟨oid, some next⟩ : DurableQueueElement)

/-- A queue is read back if it has a tail just when it has a head. -/
theorem deserializeQueue_reads {contents : DurableQueue} {out : Bytes}
    (ends : contents.head = none ↔ contents.tail = none)
    (small : ∀ oid ∈ contents.head.toList ++ contents.tail.toList, oid < 2 ^ 64)
    (written : serializeQueue contents = some out) : deserializeQueue.Reads out contents := by
  obtain ⟨head, tail⟩ := contents
  cases head with
  | none =>
    cases ends.mp rfl
    cases written
    exact (gzochidUtilDeserializeBoolean_reads false).map fun _ => (⟨none, none⟩ : DurableQueue)
  | some head =>
    cases tail with
    | none => cases ends.mpr rfl
    | some tail =>
      cases written
      show deserializeQueue.Reads ((gzochidUtilSerializeBoolean true ++
        gzochidUtilSerializeOid head) ++ gzochidUtilSerializeOid tail) _
      rw [append_assoc]
      apply (gzochidUtilDeserializeBoolean_reads true).bind
      apply (gzochiCommonIoReadLong_reads (small head mem_cons_self)).bind
      have smallTail : tail < 2 ^ 64 :=
        small tail (mem_cons_of_mem _ mem_cons_self)
      exact (gzochiCommonIoReadLong_reads smallTail).map fun tail =>
        (⟨some head, some tail⟩ : DurableQueue)

theorem ofStored_reads {Value : Type} {reader : ByteReader Value} {written : Bytes} {value : Value}
    (reads : reader.Reads written value) : ofStored reader written = some value := by
  have read := reads []
  rw [append_nil] at read
  unfold ofStored
  rw [read]

/-- What is written for the object of a queue can be read again. -/
def ReadBack (serialization : Serialization Payload) (object : Object Payload) : Prop :=
  ∀ out, serialize serialization object.kind object = some out →
    deserialize serialization object.kind out = some object

theorem readBack_element (small : elt.oid < 2 ^ 64) (smallNext : ∀ next ∈ elt.next, next < 2 ^ 64) :
    ReadBack serialization (.element elt) := by
  intro out written
  cases written
  show (ofStored deserializeElement _).map _ = _
  rw [ofStored_reads (deserializeElement_reads small smallNext)]
  rfl

theorem readBack_data (payload : Payload) : ReadBack serialization (.data payload) := by
  intro out written
  show (serialization.deserializer out).map _ = _
  rw [serialization.roundTrip written]
  rfl

theorem endsOf_none (elements : List Oid) :
    (endsOf elements).head = none ↔ (endsOf elements).tail = none := by
  rw [endsOf, List.head?_eq_none_iff, List.getLast?_eq_none_iff]

theorem readBack_queue (small : ∀ oid ∈ elements, oid < 2 ^ 64) :
    ReadBack serialization (.queue (endsOf elements)) := by
  intro out written
  show (ofStored deserializeQueue _).map _ = _
  rw [ofStored_reads (deserializeQueue_reads (endsOf_none elements) _ written)]
  · rfl
  · intro oid isEnd
    apply small
    cases mem_append.mp isEnd with
    | inl isHead => exact mem_of_mem_head? (Option.mem_toList.mp isHead)
    | inr isTail => exact mem_of_getLast? (Option.mem_toList.mp isTail)

/-! ## Stored queues -/

/-- What is stored under an id. -/
def storedView (serialization : Serialization Payload) (oids : Oid → Option Bytes) :
    View Payload :=
  fun kind oid => (oids oid).bind (deserialize serialization kind)

/-- A queue as it is stored: the link nodes from its head to its tail hold the entries. -/
structure Persisted (serialization : Serialization Payload) (oids : Oid → Option Bytes)
    (own : Option Oid) (elements : List Oid) (entries : List (Entry Payload)) : Prop where
  chain : Chain (storedView serialization oids) own elements entries
  contents : ∀ oid ∈ own,
    oid < 2 ^ 64 ∧ storedView serialization oids .queue oid = some (.queue (endsOf elements))
  stored : own = none → elements = []

/-- A queue that has not been opened in the transaction. -/
structure Closed (serialization : Serialization Payload) (store : Store Payload)
    (own : Option Oid) (elements : List Oid) (entries : List (Entry Payload)) : Prop where
  chain : Chain (store.content (codec serialization)) own elements entries
  books : Books serialization store [] []
  contents : ∀ oid ∈ own,
    oid < 2 ^ 64 ∧ store.content (codec serialization) .queue oid = some (.queue (endsOf elements))
  stored : own = none → elements = []

theorem Chain.small_next {view : View Payload} {oid : Oid}
    (chain : Chain view own elements entries) (member : oid ∈ elements)
    (found : view .element oid = some (.element elt)) :
    elt.oid < 2 ^ 64 ∧ ∀ next ∈ elt.next, next < 2 ^ 64 := by
  obtain ⟨item, next, here, itemMember, inList⟩ := chain.linked.present member
  rw [nodeOf_some.mp here] at found
  cases found
  constructor
  · exact chain.small item (mem_append_right _ itemMember)
  · intro other isNext
    exact chain.small other (mem_append_left _ (inList other isNext))

/-- A queue in memory, left as it is. -/
theorem Opened.closed (opened : Opened serialization store queue elements entries) :
    Closed serialization store (store.managed queue) elements entries where
  chain := opened.chain
  books := opened.books
  contents := by
    intro oid managed
    have located := opened.books.located managed opened.contents nofun
    refine ⟨opened.books.small managed, ?_⟩
    rw [ObjectStore.content_located located]
    exact opened.contents
  stored := opened.stored

/-- At the beginning of a transaction everything is as it is stored. -/
theorem Persisted.begin {oids : Oid → Option Bytes} {names : Name → Option Oid}
    (persisted : Persisted serialization oids own elements entries) :
    Closed serialization (.begin oids names) own elements entries where
  chain := persisted.chain
  books :=
    { clean := nofun
      kinds := nofun
      referenced := nofun
      small := nofun }
  contents := persisted.contents
  stored := persisted.stored

/-- A transaction that is prepared with success stores its list. -/
theorem Closed.commit {context prepared : Context Payload} {order : List Oid}
    (closed : Closed serialization store own elements entries) (refines : Refines context store)
    (covers : ∀ oid, context.reference oid ≠ none → oid ∈ order)
    (success : context.dataPrepare (codec serialization) order = some prepared) :
    Persisted serialization prepared.oids own elements entries := by
  have written {oid : Oid} {object : Object Payload} (readBack : ReadBack serialization object)
      (stands : store.content (codec serialization) object.kind oid = some object) :
      storedView serialization prepared.oids object.kind oid = some object := by
    unfold storedView
    rw [(dataPrepare_commit refines covers success).1]
    exact ObjectStore.commit_content (closed.books.clean oid not_mem_nil)
      (fun _ _ changed => dataPrepare_serialized refines covers success changed) stands readBack
  refine ⟨?_, ?_, closed.stored⟩
  · apply closed.chain.congr
    · intro oid member
      obtain ⟨elt, found, _⟩ := closed.chain.present member
      obtain ⟨small, smallNext⟩ := closed.chain.small_next member found
      rw [found]
      exact written (readBack_element small smallNext) found
    · intro entry member
      have found := closed.chain.payloads entry member
      rw [found]
      exact written (readBack_data entry.payload) found
  · intro oid isOwn
    obtain ⟨small, found⟩ := closed.contents oid isOwn
    refine ⟨small, written (readBack_queue ?_) found⟩
    exact fun element member => closed.chain.small element (mem_append_left _ member)

end Gzochi.Queue
