import Mathlib.Data.List.Nodup
import Gzochi.Lib.Runs
import Mathlib.Algebra.Group.Nat.Defs

/-!
# Object ids

New objects get their ids from blocks.  A block is carved from a counter in the `meta`
store, by the server itself or, in a cluster, by the meta server on request.  A
transaction uses up one block after the other and drops what is left of its last block
when it ends.

A transaction of the storage engine is taken as one step, as the engine serializes them;
everything else may happen in any order: other transactions, other nodes, messages that
are late or lost, time-outs and crashes.
-/

namespace Gzochi.Data

open Lib List

abbrev NodeNumber := Nat
abbrev TxNumber := Nat

/-- Arithmetic of `guint64`. -/
def guint64 (value : Nat) : Nat := value % 2 ^ 64

/-- `ALLOCATION_BLOCK_SIZE`. -/
def allocationBlockSize : Nat := 100

/-- `gzochid_data_oids_block`. -/
structure OidsBlock where
  blockStart : Nat
  blockSize : Nat
  deriving DecidableEq

/-- `gzochid_data_oid_block_state`. -/
structure OidBlockState where
  first : Nat
  next : Nat
  last : Nat
  deriving DecidableEq

/-- `create_oid_block_state`. -/
def createOidBlockState (block : OidsBlock) : OidBlockState :=
  { first := block.blockStart, next := block.blockStart
    last := guint64 (block.blockStart + block.blockSize - 1) }

/-- `allocate` of `oids-storage.c`, when its storage transaction commits: the new value of
the counter and the block. -/
def allocate (counter : Option Nat) : Nat × OidsBlock :=
  let blockStart := counter.getD 0
  (guint64 (blockStart + allocationBlockSize), ⟨blockStart, allocationBlockSize⟩)

/-- Where a transaction is in `next_object_id`.  In `reserve_oids` it may already have an
id to return, and in a cluster it may have sent its request. -/
inductive Call where
  | idle
  | reserving (pending : Option Nat) (asked : Bool)
  deriving DecidableEq

/-- `gzochid_data_transaction_context`, the part that is about ids. -/
structure TransactionContext where
  node : NodeNumber
  freeOids : Option OidBlockState
  usedOidBlocks : List OidBlockState
  call : Call

/-- What the transactions of a node share: the list of free blocks, the mutex that
protects it, and the slot for the callback of a request. -/
structure Node where
  freeOidBlocks : List OidBlockState
  freeOidsLock : Option TxNumber
  oidsCallback : Option TxNumber

/-- An id that `next_object_id` has returned. -/
structure Handed where
  tx : TxNumber
  node : NodeNumber
  oid : Nat
  deriving DecidableEq

/-- The whole system.  `reserved`, `begun`, `handed` and `committed` are kept for the
record. -/
structure System where
  clustered : Bool
  counter : Option Nat
  node : NodeNumber → Node
  context : TxNumber → Option TransactionContext
  requests : List NodeNumber
  responses : List (NodeNumber × OidsBlock)
  reserved : List (NodeNumber × OidsBlock)
  begun : List TxNumber
  handed : List Handed
  committed : List TxNumber

inductive Action where
  | begin (tx : TxNumber) (node : NodeNumber)
  | nextObjectId (tx : TxNumber)
  | lock (tx : TxNumber)
  | reuse (tx : TxNumber)
  | storage (tx : TxNumber) (commits : Bool)
  | request (tx : TxNumber)
  | serve (node : NodeNumber)
  | receivedOids (node : NodeNumber) (block : OidsBlock)
  | timeout (tx : TxNumber)
  | finish (tx : TxNumber) (commits : Bool)
  | crash (node : NodeNumber)
  | loseRequest (node : NodeNumber)
  | loseResponse (node : NodeNumber) (block : OidsBlock)

namespace System

def setContext (system : System) (tx : TxNumber) (context : Option TransactionContext) :
    System :=
  { system with
    context := fun other => if other = tx then context else system.context other }

def setNode (system : System) (number : NodeNumber) (node : Node) : System :=
  { system with node := fun other => if other = number then node else system.node other }

/-- `next_object_id` returns an id. -/
def hand (system : System) (tx : TxNumber) (node : NodeNumber) (oid : Nat) : System :=
  { system with handed := ⟨tx, node, oid⟩ :: system.handed }

/-- The mutex of the list of free blocks is given back. -/
def unlock (system : System) (number : NodeNumber) : System :=
  system.setNode number { system.node number with freeOidsLock := none }

/-- The middle of `next_object_id`: take an id of the block, and reserve a new block
when this one is used up. -/
def take (system : System) (tx : TxNumber) (context : TransactionContext)
    (block : OidBlockState) : System :=
  let after := { block with next := guint64 (block.next + 1) }
  if after.last < after.next then
    system.setContext tx (some { context with
      freeOids := none, usedOidBlocks := context.usedOidBlocks ++ [after]
      call := .reserving (some block.next) false })
  else
    (system.setContext tx (some { context with freeOids := some after, call := .idle })).hand tx
      context.node block.next

/-- `reserve_oids` has returned a block. -/
def resume (system : System) (tx : TxNumber) (context : TransactionContext)
    (pending : Option Nat) (block : OidBlockState) : System :=
  match pending with
  | none => system.take tx context block
  | some oid =>
      (system.setContext tx (some { context with freeOids := some block, call := .idle })).hand
        tx context.node oid

/-- `reserve_oids` has returned `NULL`. -/
def giveUp (system : System) (tx : TxNumber) (context : TransactionContext) : System :=
  system.setContext tx (some { context with freeOids := none, call := .idle })

/-- The transactions of a node and what they shared are gone. -/
def crash (system : System) (number : NodeNumber) : System :=
  { system with
    node := fun other => if other = number then ⟨[], none, none⟩ else system.node other
    context := fun tx =>
      match system.context tx with
      | none => none
      | some context => if context.node = number then none else some context }

/-- One step.  `none` stands for an action that is not possible.  A request goes out
before the assertion that the slot for its callback is empty, and a failed assertion is a
crash. -/
def step (system : System) : Action → Option (System × Unit)
  | .begin tx node =>
      if tx ∈ system.begun then none
      else
        some ({ system.setContext tx (some ⟨node, none, [], .idle⟩) with
          begun := tx :: system.begun }, ())
  | .nextObjectId tx =>
      match system.context tx with
      | some context =>
          match context.call, context.freeOids with
          | .idle, some block => some (system.take tx context block, ())
          | .idle, none =>
              some (system.setContext tx
                (some { context with call := .reserving none false }), ())
          | _, _ => none
      | none => none
  | .lock tx =>
      match system.context tx with
      | some context =>
          match context.call, (system.node context.node).freeOidsLock with
          | .reserving _ false, none =>
              some (system.setNode context.node
                { system.node context.node with freeOidsLock := some tx }, ())
          | _, _ => none
      | none => none
  | .reuse tx =>
      match system.context tx with
      | some context =>
          match context.call, (system.node context.node).freeOidBlocks with
          | .reserving pending false, block :: rest =>
              if (system.node context.node).freeOidsLock = some tx then
                some ((system.setNode context.node
                  { system.node context.node with
                    freeOidBlocks := rest, freeOidsLock := none }).resume tx context pending
                      block, ())
              else none
          | _, _ => none
      | none => none
  | .storage tx commits =>
      match system.context tx with
      | some context =>
          match context.call, (system.node context.node).freeOidBlocks with
          | .reserving pending false, [] =>
              if !system.clustered ∧ (system.node context.node).freeOidsLock = some tx then
                let unlocked := system.unlock context.node
                if commits then
                  let (counter, block) := allocate system.counter
                  some ({ unlocked with
                    counter := some counter
                    reserved := (context.node, block) :: system.reserved }.resume tx context
                      pending (createOidBlockState block), ())
                else
                  some (unlocked.giveUp tx context, ())
              else none
          | _, _ => none
      | none => none
  | .request tx =>
      match system.context tx with
      | some context =>
          match context.call, (system.node context.node).freeOidBlocks with
          | .reserving pending false, [] =>
              if system.clustered ∧ (system.node context.node).freeOidsLock = some tx then
                let sent := { system with requests := system.requests ++ [context.node] }
                if (system.node context.node).oidsCallback = none then
                  some ((sent.setContext tx
                    (some { context with call := .reserving pending true })).setNode context.node
                      { system.node context.node with oidsCallback := some tx }, ())
                else
                  some (sent.crash context.node, ())
              else none
          | _, _ => none
      | none => none
  | .serve node =>
      if node ∈ system.requests then
        let (counter, block) := allocate system.counter
        some ({ system with
          counter := some counter
          requests := system.requests.erase node
          responses := system.responses ++ [(node, block)]
          reserved := (node, block) :: system.reserved }, ())
      else none
  | .receivedOids node block =>
      if (node, block) ∈ system.responses then
        let received := { system with responses := system.responses.erase (node, block) }
        match (system.node node).oidsCallback with
        | none => some (received, ())
        | some tx =>
            let cleared := received.setNode node { system.node node with oidsCallback := none }
            match system.context tx with
            | none => some (cleared, ())
            | some context =>
                match context.call with
                | .reserving pending true =>
                    if context.node = node then
                      some ((cleared.unlock node).resume tx context pending
                        (createOidBlockState block), ())
                    else some (cleared, ())
                | _ => some (cleared, ())
      else none
  | .timeout tx =>
      match system.context tx with
      | some context =>
          match context.call with
          | .reserving _ true => some ((system.unlock context.node).giveUp tx context, ())
          | _ => none
      | none => none
  | .finish tx commits =>
      match system.context tx with
      | some context =>
          if context.call = .idle then
            some ({ system.setContext tx none with
              committed := if commits then tx :: system.committed else system.committed }, ())
          else none
      | none => none
  | .crash node => some (system.crash node, ())
  | .loseRequest node => some ({ system with requests := system.requests.erase node }, ())
  | .loseResponse node block =>
      some ({ system with responses := system.responses.erase (node, block) }, ())

end System

/-- Nothing has been reserved yet, and no transaction is active. -/
def initialSystem (clustered : Bool) : System :=
  { clustered := clustered, counter := none, node := fun _ => ⟨[], none, none⟩
    context := fun _ => none, requests := [], responses := [], reserved := [], begun := []
    handed := [], committed := [] }

/-! ## Where an id can be

An id is in one place at a time, from the counter to the transaction it is handed to. -/

inductive Place where
  | unreserved
  | response (blockStart : Nat)
  | free (tx : TxNumber)
  | pending (tx : TxNumber)
  | handed
  deriving DecidableEq

namespace System

/-- The next value of the counter. -/
def nextOid (system : System) : Nat := system.counter.getD 0

def Holds (system : System) : Place → Nat → Prop
  | .unreserved, oid => system.nextOid ≤ oid
  | .response blockStart, oid =>
      blockStart ≤ oid ∧ oid < blockStart + allocationBlockSize ∧
      ∃ response ∈ system.responses, response.2.blockStart = blockStart
  | .free tx, oid =>
      ∃ context block, system.context tx = some context ∧ context.freeOids = some block ∧
        block.next ≤ oid ∧ oid ≤ block.last
  | .pending tx, oid =>
      ∃ context asked, system.context tx = some context ∧
        context.call = .reserving (some oid) asked
  | .handed, oid => ∃ handed ∈ system.handed, handed.oid = oid

/-- The id is in a block that was reserved by the node. -/
def ReservedBy (system : System) (node : NodeNumber) (oid : Nat) : Prop :=
  ∃ block, (node, block) ∈ system.reserved ∧ block.blockStart ≤ oid ∧
    oid < block.blockStart + block.blockSize

/-- What holds in every state, as long as the ids last. -/
structure Sound (system : System) : Prop where
  counter : system.nextOid = allocationBlockSize * system.reserved.length
  block : ∀ node block, (node, block) ∈ system.reserved →
    block.blockSize = allocationBlockSize ∧
      block.blockStart + allocationBlockSize ≤ system.nextOid
  noFreeBlocks : ∀ number, (system.node number).freeOidBlocks = []
  response : ∀ response ∈ system.responses, response ∈ system.reserved
  responses : (system.responses.map fun response => response.2.blockStart).Nodup
  freeBlock : ∀ tx context state, system.context tx = some context →
    context.freeOids = some state →
      ∃ block, (context.node, block) ∈ system.reserved ∧ block.blockStart ≤ state.next ∧
        state.next ≤ state.last ∧ state.last + 1 = block.blockStart + allocationBlockSize
  pending : ∀ tx context oid asked, system.context tx = some context →
    context.call = .reserving (some oid) asked → system.ReservedBy context.node oid
  handedBy : ∀ handed ∈ system.handed, system.ReservedBy handed.node handed.oid
  nodup : (system.handed.map Handed.oid).Nodup
  apart : ∀ place other oid, system.Holds place oid → system.Holds other oid → place = other

variable {system after : System} {tx : TxNumber} {context : TransactionContext}

/-- Ids stay apart when the place an id comes to depends only on the id and the place it
comes from. -/
theorem apart_of_moved (move : Place → Nat → Place)
    (apart : ∀ place other oid, system.Holds place oid → system.Holds other oid → place = other)
    (moved : ∀ place oid, after.Holds place oid →
      ∃ origin, system.Holds origin oid ∧ move origin oid = place) :
    ∀ place other oid, after.Holds place oid → after.Holds other oid → place = other := by
  intro place other oid first second
  obtain ⟨origin, held, rfl⟩ := moved place oid first
  obtain ⟨origin', held', rfl⟩ := moved other oid second
  rw [apart origin origin' oid held held']

variable {node : NodeNumber} {oid : Nat}

theorem ReservedBy.below (sound : system.Sound) (reserved : system.ReservedBy node oid) :
    oid < system.nextOid := by
  obtain ⟨block, member, _, upper⟩ := reserved
  obtain ⟨size, bound⟩ := sound.block node block member
  omega

/-- Every id that a context has, it had before. -/
def NoMore (before : Option TransactionContext) (context : TransactionContext) : Prop :=
  (∀ state, context.freeOids = some state →
    ∃ old, before = some old ∧ old.node = context.node ∧ old.freeOids = some state) ∧
  ∀ oid asked, context.call = .reserving (some oid) asked →
    ∃ old asked', before = some old ∧ old.node = context.node ∧
      old.call = .reserving (some oid) asked'

/-- Nothing is added: nodes may change, messages may be lost and contexts may go, or lose
what they have. -/
theorem Sound.shrink (sound : system.Sound) (counter : after.counter = system.counter)
    (reserved : after.reserved = system.reserved) (handed : after.handed = system.handed)
    (nodes : ∀ number, (after.node number).freeOidBlocks = [])
    (responses : after.responses.Sublist system.responses)
    (contexts : ∀ tx context, after.context tx = some context →
      NoMore (system.context tx) context) : after.Sound where
  counter := by
    simpa only [nextOid, counter, reserved] using sound.counter
  block := by
    simpa only [nextOid, counter, reserved] using sound.block
  noFreeBlocks := nodes
  response := by
    intro response member
    rw [reserved]
    exact sound.response response (responses.subset member)
  responses := (responses.map _).nodup sound.responses
  freeBlock := by
    intro tx context state found has
    obtain ⟨old, foundOld, same, hadOld⟩ := (contexts tx context found).1 state has
    obtain ⟨block, member, rest⟩ := sound.freeBlock tx old state foundOld hadOld
    exact ⟨block, by rwa [reserved, ← same], rest⟩
  pending := by
    intro tx context oid asked found calling
    obtain ⟨old, asked', foundOld, same, calledOld⟩ := (contexts tx context found).2 oid asked
      calling
    have owned := sound.pending tx old oid asked' foundOld calledOld
    rw [← same]
    simpa only [ReservedBy, reserved] using owned
  handedBy := by
    intro given member
    rw [handed] at member
    simpa only [ReservedBy, reserved] using sound.handedBy given member
  nodup := by
    rw [handed]
    exact sound.nodup
  apart := by
    apply apart_of_moved (fun place _ => place) sound.apart
    intro place oid held
    refine ⟨place, ?_, rfl⟩
    cases place with
    | unreserved => simpa only [Holds, nextOid, counter] using held
    | response blockStart =>
      obtain ⟨lower, upper, response, member, same⟩ := held
      exact ⟨lower, upper, response, responses.subset member, same⟩
    | free tx =>
      obtain ⟨context, state, found, has, bounds⟩ := held
      obtain ⟨old, foundOld, _, hadOld⟩ := (contexts tx context found).1 state has
      exact ⟨old, state, foundOld, hadOld, bounds⟩
    | pending tx =>
      obtain ⟨context, asked, found, calling⟩ := held
      obtain ⟨old, asked', foundOld, _, calledOld⟩ :=
        (contexts tx context found).2 oid asked calling
      exact ⟨old, asked', foundOld, calledOld⟩
    | handed => simpa only [Holds, handed] using held

theorem noMore_same (context : TransactionContext) : NoMore (some context) context :=
  ⟨fun _ has => ⟨context, rfl, rfl, has⟩, fun _ asked calling =>
    ⟨context, asked, rfl, rfl, calling⟩⟩

/-- No id of the block is in any place. -/
def Unheld (system : System) (block : OidsBlock) : Prop :=
  ∀ place oid, system.Holds place oid → block.blockStart ≤ oid →
    block.blockStart + allocationBlockSize ≤ oid

/-- Every id that is in a place is below the counter. -/
theorem Sound.held_below (sound : system.Sound) (place : Place) (held : system.Holds place oid) :
    place = .unreserved ∨ oid < system.nextOid := by
  cases place with
  | unreserved => exact .inl rfl
  | response blockStart =>
    obtain ⟨_, upper, response, member, rfl⟩ := held
    have bound := (sound.block response.1 response.2 (sound.response response member)).2
    exact .inr (by omega)
  | free tx =>
    obtain ⟨context, state, found, has, _, upper⟩ := held
    obtain ⟨block, member, _, _, last⟩ := sound.freeBlock tx context state found has
    have bound := (sound.block _ block member).2
    exact .inr (by omega)
  | pending tx =>
    obtain ⟨context, asked, found, calling⟩ := held
    exact .inr (ReservedBy.below sound (sound.pending tx context oid asked found calling))
  | handed =>
    obtain ⟨handed, member, rfl⟩ := held
    exact .inr (ReservedBy.below sound (sound.handedBy handed member))

/-- What `allocate` does to the counter. -/
theorem Sound.reserve (sound : system.Sound) (node : NodeNumber)
    (few : allocationBlockSize * (system.reserved.length + 1) < 2 ^ 64) :
    let allocated := allocate system.counter
    let reserving := { system with
      counter := some allocated.1, reserved := (node, allocated.2) :: system.reserved }
    reserving.Sound ∧ reserving.Unheld allocated.2 := by
  intro allocated reserving
  have start : allocated.2.blockStart = system.nextOid := rfl
  have size : allocated.2.blockSize = allocationBlockSize := rfl
  have next : reserving.nextOid = system.nextOid + allocationBlockSize := by
    have bound : system.nextOid + allocationBlockSize < 2 ^ 64 := by
      rw [sound.counter]
      rw [Nat.mul_add, Nat.mul_one] at few
      exact few
    exact Nat.mod_eq_of_lt bound
  have unheld : reserving.Unheld allocated.2 := by
    intro place oid held lower
    rw [start] at lower ⊢
    cases place with
    | unreserved =>
      rw [← next]
      exact held
    | response blockStart =>
      have := (sound.held_below (.response blockStart) held).resolve_left nofun
      omega
    | free tx =>
      have := (sound.held_below (.free tx) held).resolve_left nofun
      omega
    | pending tx =>
      have := (sound.held_below (.pending tx) held).resolve_left nofun
      omega
    | handed =>
      have := (sound.held_below .handed held).resolve_left nofun
      omega
  refine ⟨?_, unheld⟩
  exact {
    counter := by
      rw [next, sound.counter]
      simp only [reserving, length_cons, Nat.mul_add, Nat.mul_one]
    block := by
      intro number block member
      rcases mem_cons.mp member with same | member
      · injection same with _ same
        subst same
        exact ⟨size, Nat.le_of_eq (by rw [start, next])⟩
      · obtain ⟨size, bound⟩ := sound.block number block member
        exact ⟨size, by omega⟩
    noFreeBlocks := sound.noFreeBlocks
    response := fun response member => mem_cons_of_mem _ (sound.response response member)
    responses := sound.responses
    freeBlock := by
      intro tx context state found has
      obtain ⟨block, member, rest⟩ := sound.freeBlock tx context state found has
      exact ⟨block, mem_cons_of_mem _ member, rest⟩
    pending := by
      intro tx context oid asked found calling
      obtain ⟨block, member, rest⟩ := sound.pending tx context oid asked found calling
      exact ⟨block, mem_cons_of_mem _ member, rest⟩
    handedBy := by
      intro handed member
      obtain ⟨block, member, rest⟩ := sound.handedBy handed member
      exact ⟨block, mem_cons_of_mem _ member, rest⟩
    nodup := sound.nodup
    apart := by
      apply apart_of_moved (fun place _ => place) sound.apart
      intro place oid held
      refine ⟨place, ?_, rfl⟩
      cases place with
      | unreserved =>
        have above : reserving.nextOid ≤ oid := held
        show system.nextOid ≤ oid
        omega
      | response _ | free _ | pending _ | handed => exact held }

theorem allocationBlockSize_pos : 0 < allocationBlockSize := by decide

variable {block : OidsBlock}

/-- No response brings a block that is not held. -/
theorem Unheld.not_response (unheld : system.Unheld block) :
    ∀ response ∈ system.responses, response.2.blockStart ≠ block.blockStart := by
  intro response member same
  have size := allocationBlockSize_pos
  have held : system.Holds (.response block.blockStart) block.blockStart :=
    ⟨Nat.le_refl _, Nat.lt_add_of_pos_right size, response, member, same⟩
  have := unheld _ _ held (Nat.le_refl _)
  omega

/-- Ids stay apart when one place takes those of a block that is not held. -/
theorem Unheld.apart (unheld : system.Unheld block) (sound : system.Sound) {next : System}
    {own : Place} (split : ∀ place oid, next.Holds place oid → system.Holds place oid ∨
      place = own ∧ block.blockStart ≤ oid ∧ oid < block.blockStart + allocationBlockSize)
    (place other : Place) (oid : Nat) (first : next.Holds place oid)
    (second : next.Holds other oid) : place = other := by
  rcases split place oid first with first | ⟨rfl, lower, upper⟩ <;>
    rcases split other oid second with second | ⟨rfl, lower', upper'⟩
  · exact sound.apart place other oid first second
  · have := unheld place oid first lower'
    omega
  · have := unheld other oid second lower
    omega
  · rfl

/-- A response goes out. -/
theorem Sound.respond (sound : system.Sound) (node : NodeNumber)
    (owned : (node, block) ∈ system.reserved) (unheld : system.Unheld block) :
    { system with responses := system.responses ++ [(node, block)] }.Sound :=
  { sound with
    response := by
      intro response member
      rcases mem_append.mp member with member | member
      · exact sound.response response member
      · rw [mem_singleton.mp member]
        exact owned
    responses := by
      rw [map_append, nodup_append]
      refine ⟨sound.responses, nodup_singleton _, ?_⟩
      intro start member other single same
      obtain ⟨response, sent, rfl⟩ := mem_map.mp member
      rw [mem_singleton.mp single] at same
      exact unheld.not_response response sent same
    apart := by
      have split : ∀ place oid,
          { system with responses := system.responses ++ [(node, block)] }.Holds place oid →
          system.Holds place oid ∨ place = .response block.blockStart ∧
            block.blockStart ≤ oid ∧ oid < block.blockStart + allocationBlockSize := by
        intro place oid held
        cases place with
        | unreserved | free _ | pending _ | handed => exact .inl held
        | response blockStart =>
          obtain ⟨lower, upper, response, member, rfl⟩ := held
          rcases mem_append.mp member with member | member
          · exact .inl ⟨lower, upper, response, member, rfl⟩
          · rw [mem_singleton.mp member] at lower upper ⊢
            exact .inr ⟨rfl, lower, upper⟩
      exact unheld.apart sound split }

/-- A response has come in. -/
theorem Sound.receive (sound : system.Sound) (member : (node, block) ∈ system.responses) :
    { system with responses := system.responses.erase (node, block) }.Sound ∧
    { system with responses := system.responses.erase (node, block) }.Unheld block := by
  have fewer : (system.responses.erase (node, block)).Sublist system.responses :=
    erase_sublist
  refine ⟨sound.shrink rfl rfl rfl sound.noFreeBlocks fewer ?_, ?_⟩
  · intro tx context found
    rw [show system.context tx = some context from found]
    exact noMore_same context
  · intro place oid held lower
    by_contra upper
    have before : system.Holds place oid := by
      cases place with
      | unreserved | free _ | pending _ | handed => exact held
      | response blockStart =>
        obtain ⟨lower, upper, response, member, same⟩ := held
        exact ⟨lower, upper, response, fewer.subset member, same⟩
    have same := sound.apart place (.response block.blockStart) oid before
      ⟨lower, Nat.lt_of_not_le upper, _, member, rfl⟩
    subst same
    obtain ⟨_, _, response, remaining, same⟩ := held
    have distinct := sound.responses
    have gone : block.blockStart ∉
        (system.responses.erase (node, block)).map fun response => response.2.blockStart := by
      have split := perm_cons_erase member
      have nodup := (split.map fun response => response.2.blockStart).nodup_iff.mp distinct
      exact (nodup_cons.mp nodup).1
    exact gone (mem_map.mpr ⟨response, remaining, same⟩)

@[simp] theorem setContext_self (context : Option TransactionContext) :
    (system.setContext tx context).context tx = context := by
  simp [setContext]

theorem setContext_other {other : TxNumber} (apart : other ≠ tx)
    (context : Option TransactionContext) :
    (system.setContext tx context).context other = system.context other := by
  simp [setContext, apart]

theorem setContext_cases {new context : TransactionContext} {other : TxNumber}
    (found : (system.setContext tx (some new)).context other = some context) :
    other = tx ∧ context = new ∨ other ≠ tx ∧ system.context other = some context := by
  by_cases same : other = tx
  · subst same
    rw [setContext_self] at found
    cases found
    exact .inl ⟨rfl, rfl⟩
  · exact .inr ⟨same, setContext_other same _ ▸ found⟩

/-- One transaction has a new context, and has perhaps been handed something. -/
theorem Sound.assign (sound : system.Sound) (new : TransactionContext) (more : List Handed)
    (freeBlock : ∀ state, new.freeOids = some state →
      ∃ block, (new.node, block) ∈ system.reserved ∧ block.blockStart ≤ state.next ∧
        state.next ≤ state.last ∧ state.last + 1 = block.blockStart + allocationBlockSize)
    (pending : ∀ oid asked, new.call = .reserving (some oid) asked → system.ReservedBy new.node oid)
    (handedBy : ∀ handed ∈ more, system.ReservedBy handed.node handed.oid)
    (nodup : ((more ++ system.handed).map Handed.oid).Nodup)
    (apart : ∀ place other oid,
      { system.setContext tx (some new) with handed := more ++ system.handed }.Holds place oid →
      { system.setContext tx (some new) with handed := more ++ system.handed }.Holds other oid →
      place = other) :
    { system.setContext tx (some new) with handed := more ++ system.handed }.Sound where
  counter := sound.counter
  block := sound.block
  noFreeBlocks := sound.noFreeBlocks
  response := sound.response
  responses := sound.responses
  freeBlock := by
    intro other context state found has
    rcases setContext_cases found with ⟨rfl, rfl⟩ | ⟨_, found⟩
    · exact freeBlock state has
    · exact sound.freeBlock other context state found has
  pending := by
    intro other context oid asked found calling
    rcases setContext_cases found with ⟨rfl, rfl⟩ | ⟨_, found⟩
    · exact pending oid asked calling
    · exact sound.pending other context oid asked found calling
  handedBy := by
    intro handed member
    rcases mem_append.mp member with member | member
    · exact handedBy handed member
    · exact sound.handedBy handed member
  nodup := nodup
  apart := apart

/-- Where an id can be after one transaction got a new context. -/
theorem holds_assign {new : TransactionContext} {more : List Handed} {place : Place}
    (held : { system.setContext tx (some new) with
      handed := more ++ system.handed }.Holds place oid) :
    (system.Holds place oid ∧ place ≠ .free tx ∧ place ≠ .pending tx) ∨
    (place = .free tx ∧ ∃ state, new.freeOids = some state ∧ state.next ≤ oid ∧
      oid ≤ state.last) ∨
    (place = .pending tx ∧ ∃ asked, new.call = .reserving (some oid) asked) ∨
    (place = .handed ∧ ∃ handed ∈ more, handed.oid = oid) := by
  cases place with
  | unreserved | response _ => exact .inl ⟨held, nofun, nofun⟩
  | free other =>
    obtain ⟨context, state, found, has, bounds⟩ := held
    rcases setContext_cases found with ⟨rfl, rfl⟩ | ⟨same, found⟩
    · exact .inr (.inl ⟨rfl, state, has, bounds⟩)
    · exact .inl ⟨⟨context, state, found, has, bounds⟩, by simpa using same, nofun⟩
  | pending other =>
    obtain ⟨context, asked, found, calling⟩ := held
    rcases setContext_cases found with ⟨rfl, rfl⟩ | ⟨same, found⟩
    · exact .inr (.inr (.inl ⟨rfl, asked, calling⟩))
    · exact .inl ⟨⟨context, asked, found, calling⟩, nofun, by simpa using same⟩
  | handed =>
    obtain ⟨handed, member, same⟩ := held
    rcases mem_append.mp member with member | member
    · exact .inr (.inr (.inr ⟨rfl, handed, member, same⟩))
    · exact .inl ⟨⟨handed, member, same⟩, nofun, nofun⟩

variable (sound : system.Sound)
include sound

/-- A block goes to a transaction. -/
theorem Sound.grant (few : allocationBlockSize * system.reserved.length < 2 ^ 64)
    (found : system.context tx = some context) (owned : (context.node, block) ∈ system.reserved)
    (unheld : system.Unheld block) :
    (system.setContext tx (some { context with
      freeOids := some (createOidBlockState block) })).Sound := by
  obtain ⟨size, bound⟩ := sound.block _ block owned
  have positive := allocationBlockSize_pos
  have last : (createOidBlockState block).last + 1 = block.blockStart + allocationBlockSize := by
    have fits : block.blockStart + block.blockSize - 1 < 2 ^ 64 := by
      have := sound.counter
      omega
    simp only [createOidBlockState, guint64, Nat.mod_eq_of_lt fits]
    omega
  refine sound.assign { context with freeOids := some (createOidBlockState block) } [] ?_ ?_
    nofun sound.nodup ?_
  · intro state has
    cases has
    exact ⟨block, owned, Nat.le_refl _, by simp only [createOidBlockState] at last ⊢; omega, last⟩
  · intro oid asked calling
    exact sound.pending tx context oid asked found calling
  · have split : ∀ place oid, { system.setContext tx (some { context with
            freeOids := some (createOidBlockState block) }) with
          handed := [] ++ system.handed }.Holds place oid →
        system.Holds place oid ∨ place = .free tx ∧ block.blockStart ≤ oid ∧
          oid < block.blockStart + allocationBlockSize := by
      intro place oid held
      rcases holds_assign held with ⟨held, _⟩ | ⟨rfl, state, has, lower, upper⟩ |
        ⟨rfl, asked, calling⟩ | ⟨_, handed, member, _⟩
      · exact .inl held
      · cases has
        exact .inr ⟨rfl, lower, by omega⟩
      · exact .inl ⟨context, asked, found, calling⟩
      · cases member
    exact unheld.apart sound split

/-- A transaction takes the next id of its block. -/
theorem Sound.take {state : OidBlockState}
    (few : allocationBlockSize * system.reserved.length < 2 ^ 64)
    (found : system.context tx = some context) (has : context.freeOids = some state) :
    (system.take tx context state).Sound := by
  obtain ⟨block, owned, lower, inside, last⟩ := sound.freeBlock tx context state found has
  obtain ⟨size, bound⟩ := sound.block _ block owned
  have own : system.Holds (.free tx) state.next :=
    ⟨context, state, found, has, Nat.le_refl _, inside⟩
  have reservedBy : system.ReservedBy context.node state.next :=
    ⟨block, owned, lower, by omega⟩
  have next : guint64 (state.next + 1) = state.next + 1 := by
    have := sound.counter
    exact Nat.mod_eq_of_lt (by omega)
  unfold System.take
  simp only [next]
  split
  · rename_i exhausted
    refine sound.assign { context with
      freeOids := none, usedOidBlocks := context.usedOidBlocks ++ [_]
      call := .reserving (some state.next) false } [] nofun ?_ nofun sound.nodup ?_
    · intro oid asked calling
      injection calling with calling
      injection calling with calling
      exact calling ▸ reservedBy
    · apply apart_of_moved (fun place _ => if place = .free tx then .pending tx else place)
        sound.apart
      intro place oid held
      rcases holds_assign held with ⟨held, apart, _⟩ | ⟨_, state, has, _⟩ |
        ⟨rfl, asked, calling⟩ | ⟨_, handed, member, _⟩
      · exact ⟨place, held, by simp [apart]⟩
      · cases has
      · injection calling with calling
        injection calling with calling
        exact ⟨.free tx, calling ▸ own, by simp⟩
      · cases member
  · rename_i remaining
    refine sound.assign { context with freeOids := some _, call := .idle }
      [⟨tx, context.node, state.next⟩] ?_ nofun ?_ ?_ ?_
    · intro after same
      cases same
      exact ⟨block, owned, by simp only; omega, by simp only; omega, last⟩
    · intro handed member
      rw [mem_singleton.mp member]
      exact reservedBy
    · rw [singleton_append, map_cons, nodup_cons]
      refine ⟨?_, sound.nodup⟩
      intro member
      obtain ⟨handed, given, same⟩ := mem_map.mp member
      have clash := sound.apart .handed (.free tx) state.next ⟨handed, given, same⟩ own
      cases clash
    · apply apart_of_moved
        (fun place oid => if place = .free tx ∧ oid = state.next then .handed else place)
        sound.apart
      intro place oid held
      rcases holds_assign held with ⟨held, apart, _⟩ | ⟨rfl, after, same, lower', upper'⟩ |
        ⟨_, asked, calling⟩ | ⟨rfl, handed, member, same⟩
      · exact ⟨place, held, by simp [apart]⟩
      · cases same
        refine ⟨.free tx, ⟨context, state, found, has, ?_, upper'⟩, ?_⟩
        · simp only at lower'
          omega
        · have different : oid ≠ state.next := by
            simp only at lower'
            omega
          simp [different]
      · cases calling
      · rw [mem_singleton.mp member] at same
        exact ⟨.free tx, same ▸ own, by simp [← same]⟩

/-- The id that was waiting for a new block is handed out. -/
theorem Sound.handPending {asked : Bool} (found : system.context tx = some context)
    (calling : context.call = .reserving (some oid) asked) :
    ((system.setContext tx (some { context with call := .idle })).hand tx context.node
      oid).Sound := by
  have own : system.Holds (.pending tx) oid := ⟨context, asked, found, calling⟩
  refine sound.assign { context with call := .idle } [⟨tx, context.node, oid⟩] ?_ nofun ?_ ?_ ?_
  · intro state has
    exact sound.freeBlock tx context state found has
  · intro handed member
    rw [mem_singleton.mp member]
    exact sound.pending tx context oid asked found calling
  · rw [singleton_append, map_cons, nodup_cons]
    refine ⟨?_, sound.nodup⟩
    intro member
    obtain ⟨handed, given, same⟩ := mem_map.mp member
    have clash := sound.apart .handed (.pending tx) oid ⟨handed, given, same⟩ own
    cases clash
  · apply apart_of_moved (fun place _ => if place = .pending tx then .handed else place) sound.apart
    intro place other held
    rcases holds_assign held with ⟨held, _, apart⟩ | ⟨rfl, state, has, bounds⟩ |
      ⟨_, asked, calling⟩ | ⟨rfl, handed, member, same⟩
    · exact ⟨place, held, by simp [apart]⟩
    · exact ⟨.free tx, ⟨context, state, found, has, bounds⟩, by simp⟩
    · cases calling
    · rw [mem_singleton.mp member] at same
      exact ⟨.pending tx, same ▸ own, by simp⟩

omit sound

theorem setContext_setContext (first second : Option TransactionContext) :
    (system.setContext tx first).setContext tx second = system.setContext tx second := by
  simp only [setContext]
  congr 1
  funext other
  split <;> rfl

/-- `reserve_oids` has returned a block that nobody else has. -/
theorem Sound.resume (sound : system.Sound) {pending : Option Nat} {asked : Bool}
    (few : allocationBlockSize * system.reserved.length < 2 ^ 64)
    (found : system.context tx = some context) (calling : context.call = .reserving pending asked)
    (owned : (context.node, block) ∈ system.reserved) (unheld : system.Unheld block) :
    (system.resume tx context pending (createOidBlockState block)).Sound := by
  have granted := sound.grant few found owned unheld
  cases pending with
  | none =>
    have taken := granted.take few (setContext_self _) rfl
    simpa only [System.resume, System.take, setContext_setContext] using taken
  | some oid =>
    have handed := granted.handPending (setContext_self _) calling
    simpa only [System.resume, setContext_setContext] using handed

/-- A context that has nothing to lose. -/
theorem noMore_empty {before : Option TransactionContext} {context : TransactionContext}
    (free : context.freeOids = none)
    (calling : ∀ oid asked, context.call ≠ .reserving (some oid) asked) :
    NoMore before context := by
  constructor
  · intro state has
    rw [free] at has
    cases has
  · intro oid asked same
    exact absurd same (calling oid asked)

include sound

/-- One transaction gets a context with nothing new in it. -/
theorem Sound.recontext {new : Option TransactionContext}
    (noMore : ∀ context, new = some context → NoMore (system.context tx) context) :
    (system.setContext tx new).Sound := by
  refine sound.shrink rfl rfl rfl sound.noFreeBlocks (List.Sublist.refl _) ?_
  intro other context found
  by_cases same : other = tx
  · subst same
    rw [setContext_self] at found
    exact noMore context found
  · rw [setContext_other same] at found
    rw [found]
    exact noMore_same context

theorem Sound.setNode {number : NodeNumber} {node : Node}
    (empty : node.freeOidBlocks = []) : (system.setNode number node).Sound := by
  refine sound.shrink rfl rfl rfl ?_ (List.Sublist.refl _) ?_
  · intro other
    simp only [System.setNode]
    split
    · exact empty
    · exact sound.noFreeBlocks other
  · intro tx context found
    rw [show system.context tx = some context from found]
    exact noMore_same context

theorem Sound.unlock (number : NodeNumber) : (system.unlock number).Sound :=
  sound.setNode (sound.noFreeBlocks number)

theorem Sound.crash (number : NodeNumber) : (system.crash number).Sound := by
  refine sound.shrink rfl rfl rfl ?_ (List.Sublist.refl _) ?_
  · intro other
    simp only [System.crash]
    split
    · rfl
    · exact sound.noFreeBlocks other
  · intro tx context found
    simp only [System.crash] at found
    split at found
    · cases found
    · split at found
      · cases found
      · rename_i before present _
        cases found
        rw [present]
        exact noMore_same _

omit sound

@[simp] theorem reserved_take (state : OidBlockState) :
    (system.take tx context state).reserved = system.reserved := by
  simp only [System.take]
  split <;> rfl

@[simp] theorem reserved_resume (pending : Option Nat) (state : OidBlockState) :
    (system.resume tx context pending state).reserved = system.reserved := by
  cases pending with
  | none => exact reserved_take state
  | some oid => rfl

include sound

/-- A transaction asks for an id. -/
theorem Sound.nextObjectId (taken : system.step (.nextObjectId tx) = some (after, ()))
    (few : allocationBlockSize * after.reserved.length < 2 ^ 64) : after.Sound := by
  simp only [System.step] at taken
  split at taken
  · rename_i context found
    split at taken
    · rename_i state _ has
      cases taken
      rw [reserved_take] at few
      exact sound.take few found has
    · rename_i calling free
      cases taken
      refine sound.recontext fun new same => ?_
      cases same
      exact noMore_empty free nofun
    · cases taken
  · cases taken

/-- A server reserves a block in its own store. -/
theorem Sound.storage {commits : Bool}
    (taken : system.step (.storage tx commits) = some (after, ()))
    (few : allocationBlockSize * after.reserved.length < 2 ^ 64) : after.Sound := by
  simp only [System.step] at taken
  split at taken
  · rename_i context found
    split at taken
    · rename_i pending calling _
      obtain ⟨_, taken⟩ := Option.ite_none_right_eq_some.mp taken
      have unlocked := sound.unlock context.node
      split at taken
      · cases taken
        rw [reserved_resume] at few
        obtain ⟨reserving, unheld⟩ := unlocked.reserve context.node few
        exact reserving.resume few found calling mem_cons_self unheld
      · cases taken
        refine unlocked.recontext fun new same => ?_
        cases same
        exact noMore_empty rfl nofun
    · cases taken
  · cases taken

/-- A node sends a request. -/
theorem Sound.request (taken : system.step (.request tx) = some (after, ())) : after.Sound := by
  have sent : ∀ requests, { system with requests := requests }.Sound := fun _ => { sound with }
  simp only [System.step] at taken
  split at taken
  · rename_i context found
    split at taken
    · rename_i pending calling _
      obtain ⟨_, taken⟩ := Option.ite_none_right_eq_some.mp taken
      split at taken
      · cases taken
        refine Sound.setNode ((sent _).recontext fun new same => ?_)
          (sound.noFreeBlocks context.node)
        cases same
        constructor
        · intro state has
          exact ⟨context, found, rfl, has⟩
        · intro oid asked same
          injection same with same
          exact ⟨context, false, found, rfl, by rw [calling, same]⟩
      · cases taken
        exact (sent _).crash context.node
    · cases taken
  · cases taken

/-- The meta server answers a request. -/
theorem Sound.serve (taken : system.step (.serve node) = some (after, ()))
    (few : allocationBlockSize * after.reserved.length < 2 ^ 64) : after.Sound := by
  obtain ⟨_, taken⟩ := Option.ite_none_right_eq_some.mp taken
  cases taken
  obtain ⟨reserving, unheld⟩ := sound.reserve node few
  have responded := reserving.respond node mem_cons_self unheld
  exact { responded with }

/-- A response comes in. -/
theorem Sound.receivedOids (taken : system.step (.receivedOids node block) = some (after, ()))
    (few : allocationBlockSize * after.reserved.length < 2 ^ 64) : after.Sound := by
  obtain ⟨member, taken⟩ := Option.ite_none_right_eq_some.mp taken
  obtain ⟨received, unheld⟩ := sound.receive member
  have cleared : ({ system with
      responses := system.responses.erase (node, block) }.setNode node
        { system.node node with oidsCallback := none }).Sound :=
    received.setNode (sound.noFreeBlocks node)
  split at taken
  · cases taken
    exact received
  · rename_i tx _
    split at taken
    · cases taken
      exact cleared
    · rename_i context found
      split at taken
      · rename_i pending calling
        split at taken
        · rename_i same
          injection taken with taken
          injection taken with taken
          subst taken same
          rw [reserved_resume] at few
          exact (cleared.unlock context.node).resume few found calling
            (sound.response _ member) unheld
        · cases taken
          exact cleared
      · cases taken
        exact cleared

/-- Every step keeps ids apart, as long as they last. -/
theorem Sound.step {action : Action} (taken : system.step action = some (after, ()))
    (few : allocationBlockSize * after.reserved.length < 2 ^ 64) : after.Sound := by
  cases action with
  | begin tx node =>
    simp only [System.step] at taken
    obtain ⟨_, taken⟩ := Option.ite_none_left_eq_some.mp taken
    cases taken
    have begun : (system.setContext tx (some ⟨node, none, [], .idle⟩)).Sound :=
      sound.recontext fun new same => by
        cases same
        exact noMore_empty rfl nofun
    exact { begun with }
  | nextObjectId tx => exact sound.nextObjectId taken few
  | lock tx =>
    simp only [System.step] at taken
    split at taken
    · split at taken
      · cases taken
        exact sound.setNode (sound.noFreeBlocks _)
      · cases taken
    · cases taken
  | reuse tx =>
    simp only [System.step] at taken
    split at taken
    · split at taken
      · rename_i block rest _ blocks
        rw [sound.noFreeBlocks] at blocks
        cases blocks
      · cases taken
    · cases taken
  | storage tx commits => exact sound.storage taken few
  | request tx => exact sound.request taken
  | serve node => exact sound.serve taken few
  | receivedOids node block => exact sound.receivedOids taken few
  | timeout tx =>
    simp only [System.step] at taken
    split at taken
    · split at taken
      · cases taken
        refine (sound.unlock _).recontext fun new same => ?_
        cases same
        exact noMore_empty rfl nofun
      · cases taken
    · cases taken
  | finish tx commits =>
    simp only [System.step] at taken
    split at taken
    · split at taken
      · cases taken
        have ended : (system.setContext tx none).Sound := sound.recontext nofun
        exact { ended with }
      · cases taken
    · cases taken
  | crash node =>
    cases taken
    exact sound.crash node
  | loseRequest node =>
    cases taken
    exact { sound with }
  | loseResponse node block =>
    cases taken
    refine sound.shrink rfl rfl rfl sound.noFreeBlocks erase_sublist ?_
    intro tx context found
    rw [show system.context tx = some context from found]
    exact noMore_same context

omit sound

theorem reserved_le_step {action : Action} (taken : system.step action = some (after, ())) :
    system.reserved.length ≤ after.reserved.length := by
  cases action <;> simp only [System.step] at taken <;> repeat' split at taken
  all_goals cases taken
  all_goals simp [setContext, System.setNode, System.unlock, giveUp, System.crash]

end System

theorem initialSystem_sound (clustered : Bool) : (initialSystem clustered).Sound where
  counter := rfl
  block := nofun
  noFreeBlocks := fun _ => rfl
  response := nofun
  responses := nodup_nil
  freeBlock := nofun
  pending := nofun
  handedBy := nofun
  nodup := nodup_nil
  apart := by
    have only : ∀ place oid, (initialSystem clustered).Holds place oid → place = .unreserved := by
      intro place oid held
      cases place with
      | unreserved => rfl
      | response _ =>
        obtain ⟨_, _, _, member, _⟩ := held
        cases member
      | free _ | pending _ =>
        obtain ⟨_, _, found, _⟩ := held
        cases found
      | handed =>
        obtain ⟨_, member, _⟩ := held
        cases member
    intro place other oid first second
    rw [only place oid first, only other oid second]

/-- The ids handed out in transactions that have committed. -/
def System.committedOids (system : System) : List Nat :=
  (system.handed.filter fun handed => decide (handed.tx ∈ system.committed)).map Handed.oid

/-- Whatever nodes and transactions do, the ids that committed transactions have got are
pairwise distinct, and each of them is from a block reserved by the node that got it. -/
theorem committed_oids_distinct {clustered : Bool} {trace : List (Action × Unit)} {system : System}
    (run : Run System.step anyAction (initialSystem clustered) trace system)
    (few : allocationBlockSize * system.reserved.length < 2 ^ 64) :
    system.committedOids.Nodup ∧
    ∀ handed ∈ system.handed, system.ReservedBy handed.node handed.oid := by
  have sound : allocationBlockSize * system.reserved.length < 2 ^ 64 → system.Sound := by
    apply run.state_invariant
      (fun system => allocationBlockSize * system.reserved.length < 2 ^ 64 → system.Sound)
      (fun _ => initialSystem_sound clustered)
    intro state action next observation holds _ taken fewer
    have grown := System.reserved_le_step taken
    exact (holds (Nat.lt_of_le_of_lt (Nat.mul_le_mul_left _ grown) fewer)).step taken fewer
  refine ⟨?_, (sound few).handedBy⟩
  exact (filter_sublist.map _).nodup (sound few).nodup

/-- Two nodes of a cluster ask at the same time, and their transactions commit. -/
def twoNodes : List Action :=
  [.begin 1 1, .begin 2 2, .nextObjectId 1, .nextObjectId 2, .lock 1, .lock 2, .request 1,
    .request 2, .serve 2, .serve 1, .receivedOids 1 ⟨100, 100⟩, .receivedOids 2 ⟨0, 100⟩,
    .nextObjectId 1, .finish 1 true, .finish 2 true]

theorem committed_oids_distinct_twoNodes :
    (stateAfter System.step (initialSystem true) twoNodes).committedOids = [101, 0, 100] ∧
    (stateAfter System.step (initialSystem true) twoNodes).committedOids.Nodup := by
  obtain ⟨trace, run⟩ := exists_run_stateAfter System.step (initialSystem true) twoNodes
  exact ⟨by decide, (committed_oids_distinct run (by decide)).1⟩

end Gzochi.Data
