import Gzochi.Data.Oids
import Gzochi.Tx.Model
import Mathlib.Data.List.Perm.Subperm

/-!
# Blocks of object ids from the meta server

The allocation strategy of `oids-dataclient.c`, for one application on one node.  A thread
sends a request for a block, leaves a callback with the data client and waits for the
response, until its transaction times out.  A mutex lets one thread at a time do so.
Requests and responses may be late or lost; neither says to which other one it belongs.
-/

namespace Gzochi.DataClient

open Lib Tx List Function
open Data (OidsBlock)

abbrev RequestId := Nat

/-- `oids_pending_response`, without its mutex, condition and reference count. -/
structure PendingResponse where
  block : OidsBlock
  complete : Bool

/-- `create_oids_pending_response`. -/
def createOidsPendingResponse : PendingResponse := ⟨⟨0, 0⟩, false⟩

/-- What a thread knows of its transaction. -/
structure ThreadTransaction where
  active : Bool
  rollbackOnly : Bool
  timing : Timing

/-- `gzochid_transaction_active () && gzochid_transaction_timed ()`. -/
def ThreadTransaction.timed (transaction : ThreadTransaction) : Bool :=
  transaction.active && transaction.timing.timeout.isSome

/-- Where the thread is in the loop of `allocate`.  It has the mutex of its response except
while it waits. -/
inductive Point where
  | checking
  | waiting (endTimestamp : Option Int)

/-- A thread in `allocate`; `err` tells whether the error is set. -/
structure Allocation where
  pendingResponse : RequestId
  transaction : ThreadTransaction
  point : Point
  err : Bool

/-- The callback of the data client, the thread that holds `free_oids_lock`, and the
messages on the way.  With a message goes the request it is or answers, for the record. -/
structure OidClient where
  oidsCallback : Option RequestId
  pendingResponses : RequestId → PendingResponse
  allocation : Option Allocation
  nextRequest : RequestId
  crashed : Bool
  requests : List RequestId
  responses : List (RequestId × OidsBlock)

inductive OidAction where
  | allocate (transaction : ThreadTransaction)
  | check (now later : Tx.Timeval) (monotonicTime : Int)
  | wake (monotonicTime : Int) (timedOut : Bool)
  | serve (request : RequestId) (block : OidsBlock)
  | receivedOids (request : RequestId) (block : OidsBlock)
  | loseRequest (request : RequestId)
  | loseResponse (request : RequestId) (block : OidsBlock)

inductive OidReport where
  | quiet
  | registered
  | assertionFailed
  | returned (block : Option OidsBlock) (err : Bool)
  | delivered (request answered : RequestId) (block : OidsBlock)
  | dropped (block : OidsBlock)
  deriving DecidableEq

/-- The end of the wait in `allocate`: seconds are counted as milliseconds. -/
def endTimestamp (monotonicTime : Int) (remaining : Tx.Timeval) : Int :=
  monotonicTime + remaining.tvSec * 1000 + remaining.tvUsec

namespace OidClient

def initial : OidClient where
  oidsCallback := none
  pendingResponses := fun _ => createOidsPendingResponse
  allocation := none
  nextRequest := 0
  crashed := false
  requests := []
  responses := []

/-- A request is sent, with a new response to wait for. -/
def send (client : OidClient) : OidClient :=
  { client with
    pendingResponses :=
      update client.pendingResponses client.nextRequest createOidsPendingResponse
    nextRequest := client.nextRequest + 1
    requests := client.requests ++ [client.nextRequest] }

/-- The beginning of `allocate`, and `gzochid_dataclient_reserve_oids`: the request goes out
before the assertion that no callback is pending. -/
def allocate (client : OidClient) (transaction : ThreadTransaction) : OidClient × OidReport :=
  if transaction.active && transaction.rollbackOnly then (client, .returned none true)
  else
    match client.oidsCallback with
    | some _ => ({ client.send with crashed := true }, .assertionFailed)
    | none =>
        ({ client.send with
          oidsCallback := some client.nextRequest
          allocation := some ⟨client.nextRequest, transaction, .checking, false⟩ }, .registered)

/-- The test of the loop, and what follows it.  Without an error, the message of
`reserve_oids` reads a null pointer when there is no block. -/
def check (client : OidClient) (allocation : Allocation) (now later : Tx.Timeval)
    (monotonicTime : Int) : OidClient × OidReport :=
  let response := client.pendingResponses allocation.pendingResponse
  let transaction := allocation.transaction
  if response.complete then
    ({ client with allocation := none }, .returned (some response.block) allocation.err)
  else if transaction.timed && timedOut transaction.timing now then
    ({ client with allocation := none, crashed := !allocation.err }, .returned none allocation.err)
  else
    let wait := if transaction.timed then
      some (endTimestamp monotonicTime (timeRemaining transaction.timing later)) else none
    ({ client with allocation := some { allocation with point := .waiting wait } }, .quiet)

/-- The thread wakes up, also without a reason; `g_cond_wait_until` may then tell that the
time has come. -/
def wake (client : OidClient) (allocation : Allocation) (wait : Option Int)
    (monotonicTime : Int) : Bool → Option (OidClient × OidReport)
  | false =>
      some ({ client with allocation := some { allocation with point := .checking } }, .quiet)
  | true =>
      if wait.any (· ≤ monotonicTime) then
        some ({ client with
          allocation := some { allocation with point := .checking, err := true } }, .quiet)
      else none

/-- The thread has the mutex that `oids_callback` takes. -/
def locks (client : OidClient) (request : RequestId) : Bool :=
  match client.allocation with
  | some ⟨pendingResponse, _, .checking, _⟩ => pendingResponse = request
  | _ => false

/-- `gzochid_dataclient_received_oids`, with `oids_callback`. -/
def receivedOids (client : OidClient) (request : RequestId) (block : OidsBlock) :
    Option (OidClient × OidReport) :=
  let received := { client with responses := client.responses.erase (request, block) }
  match client.oidsCallback with
  | none => some (received, .dropped block)
  | some callback =>
      if client.locks callback then none
      else
        some ({ received with
          oidsCallback := none
          pendingResponses := update client.pendingResponses callback ⟨block, true⟩ },
          .delivered callback request block)

/-- One step.  `none` stands for an action that is not possible. -/
def step (client : OidClient) : OidAction → Option (OidClient × OidReport)
  | .allocate transaction =>
      match client.crashed, client.allocation with
      | false, none => some (client.allocate transaction)
      | _, _ => none
  | .check now later monotonicTime =>
      match client.crashed, client.allocation with
      | false, some allocation =>
          match allocation.point with
          | .checking => some (client.check allocation now later monotonicTime)
          | .waiting _ => none
      | _, _ => none
  | .wake monotonicTime timedOut =>
      match client.crashed, client.allocation with
      | false, some allocation =>
          match allocation.point with
          | .checking => none
          | .waiting wait => client.wake allocation wait monotonicTime timedOut
      | _, _ => none
  | .serve request block =>
      if request ∈ client.requests then
        some ({ client with
          requests := client.requests.erase request
          responses := client.responses ++ [(request, block)] }, .quiet)
      else none
  | .receivedOids request block =>
      if !client.crashed ∧ (request, block) ∈ client.responses then
        client.receivedOids request block
      else none
  | .loseRequest request =>
      if request ∈ client.requests then
        some ({ client with requests := client.requests.erase request }, .quiet)
      else none
  | .loseResponse request block =>
      if (request, block) ∈ client.responses then
        some ({ client with responses := client.responses.erase (request, block) }, .quiet)
      else none

variable {client after : OidClient} {action : OidAction} {report : OidReport}
  {trace : List (OidAction × OidReport)}

/-- The steps of a client and its messages, one constructor for each branch. -/
inductive Does (client : OidClient) : OidAction → OidClient → OidReport → Prop where
  | refused {transaction : ThreadTransaction}
      (rollbackOnly : (transaction.active && transaction.rollbackOnly) = true) :
      Does client (.allocate transaction) client (.returned none true)
  | asserted {transaction : ThreadTransaction} {callback : RequestId}
      (idle : client.allocation = none)
      (proceeds : (transaction.active && transaction.rollbackOnly) = false)
      (pending : client.oidsCallback = some callback) :
      Does client (.allocate transaction) { client.send with crashed := true } .assertionFailed
  | registered {transaction : ThreadTransaction} (idle : client.allocation = none)
      (free : client.oidsCallback = none) :
      Does client (.allocate transaction)
        { client.send with
          oidsCallback := some client.nextRequest
          allocation := some ⟨client.nextRequest, transaction, .checking, false⟩ } .registered
  | completed {now later : Tx.Timeval} {monotonicTime : Int} {allocation : Allocation}
      (there : client.allocation = some allocation)
      (complete : (client.pendingResponses allocation.pendingResponse).complete = true) :
      Does client (.check now later monotonicTime) { client with allocation := none }
        (.returned (some (client.pendingResponses allocation.pendingResponse).block)
          allocation.err)
  | gaveUp {now later : Tx.Timeval} {monotonicTime : Int} {allocation : Allocation}
      (running : client.crashed = false) (there : client.allocation = some allocation)
      (incomplete : (client.pendingResponses allocation.pendingResponse).complete = false)
      (late : (allocation.transaction.timed && timedOut allocation.transaction.timing now) = true) :
      Does client (.check now later monotonicTime)
        { client with allocation := none, crashed := !allocation.err }
        (.returned none allocation.err)
  | waited {now later : Tx.Timeval} {monotonicTime : Int} {allocation : Allocation}
      (there : client.allocation = some allocation) (point : Point) :
      Does client (.check now later monotonicTime)
        { client with allocation := some { allocation with point := point } } .quiet
  | woke {monotonicTime : Int} {timedOut : Bool} {allocation : Allocation}
      (there : client.allocation = some allocation) :
      Does client (.wake monotonicTime timedOut)
        { client with
          allocation := some { allocation with
            point := .checking, err := timedOut || allocation.err } } .quiet
  | served {request : RequestId} {block : OidsBlock} (asked : request ∈ client.requests) :
      Does client (.serve request block)
        { client with
          requests := client.requests.erase request
          responses := client.responses ++ [(request, block)] } .quiet
  | dropped {request : RequestId} {block : OidsBlock}
      (sent : (request, block) ∈ client.responses) (running : client.crashed = false)
      (free : client.oidsCallback = none) :
      Does client (.receivedOids request block)
        { client with responses := client.responses.erase (request, block) } (.dropped block)
  | delivered {request callback : RequestId} {block : OidsBlock}
      (sent : (request, block) ∈ client.responses) (running : client.crashed = false)
      (pending : client.oidsCallback = some callback) :
      Does client (.receivedOids request block)
        { client with
          responses := client.responses.erase (request, block)
          oidsCallback := none
          pendingResponses := update client.pendingResponses callback ⟨block, true⟩ }
        (.delivered callback request block)
  | lostRequest {request : RequestId} (asked : request ∈ client.requests) :
      Does client (.loseRequest request)
        { client with requests := client.requests.erase request } .quiet
  | lostResponse {request : RequestId} {block : OidsBlock}
      (sent : (request, block) ∈ client.responses) :
      Does client (.loseResponse request block)
        { client with responses := client.responses.erase (request, block) } .quiet

theorem does_allocate (idle : client.allocation = none) (transaction : ThreadTransaction) :
    Does client (.allocate transaction) (client.allocate transaction).1
      (client.allocate transaction).2 := by
  unfold allocate
  cases proceeds : transaction.active && transaction.rollbackOnly with
  | true => exact .refused proceeds
  | false =>
    cases pending : client.oidsCallback with
    | none => exact .registered idle pending
    | some callback => exact .asserted idle proceeds pending

variable {allocation : Allocation}

theorem does_check (running : client.crashed = false)
    (there : client.allocation = some allocation) (now later : Tx.Timeval) (monotonicTime : Int) :
    Does client (.check now later monotonicTime) (client.check allocation now later monotonicTime).1
      (client.check allocation now later monotonicTime).2 := by
  unfold check
  simp only
  split
  · rename_i complete
    exact .completed there complete
  · rename_i incomplete
    split
    · rename_i late
      exact .gaveUp running there (Bool.eq_false_iff.mpr incomplete) late
    · exact .waited there _

theorem does_wake {wait : Option Int} (there : client.allocation = some allocation)
    {monotonicTime : Int} {timedOut : Bool}
    (woken : client.wake allocation wait monotonicTime timedOut = some (after, report)) :
    Does client (.wake monotonicTime timedOut) after report := by
  cases timedOut with
  | false =>
    cases woken
    exact .woke there
  | true =>
    obtain ⟨_, woken⟩ := Option.ite_none_right_eq_some.mp woken
    cases woken
    exact .woke there

variable {request : RequestId} {block : OidsBlock}

theorem does_receivedOids (sent : (request, block) ∈ client.responses)
    (running : client.crashed = false)
    (received : client.receivedOids request block = some (after, report)) :
    Does client (.receivedOids request block) after report := by
  unfold receivedOids at received
  simp only at received
  split at received
  · rename_i pending
    cases received
    exact .dropped sent running pending
  · rename_i callback pending
    obtain ⟨_, received⟩ := Option.ite_none_left_eq_some.mp received
    cases received
    exact .delivered sent running pending

theorem does_of_step (taken : client.step action = some (after, report)) :
    Does client action after report := by
  cases action with
  | allocate transaction =>
    simp only [step] at taken
    split at taken
    · rename_i idle
      obtain ⟨rfl, rfl⟩ := Prod.mk.inj (Option.some.inj taken)
      exact does_allocate idle transaction
    · cases taken
  | check now later monotonicTime =>
    simp only [step] at taken
    split at taken
    · rename_i allocation running there
      split at taken
      · obtain ⟨rfl, rfl⟩ := Prod.mk.inj (Option.some.inj taken)
        exact does_check running there now later monotonicTime
      · cases taken
    · cases taken
  | wake monotonicTime timedOut =>
    simp only [step] at taken
    split at taken
    · rename_i allocation _ there
      split at taken
      · cases taken
      · exact does_wake there taken
    · cases taken
  | serve request block =>
    simp only [step] at taken
    split at taken
    · rename_i asked
      cases taken
      exact .served asked
    · cases taken
  | receivedOids request block =>
    simp only [step] at taken
    obtain ⟨possible, taken⟩ := Option.ite_none_right_eq_some.mp taken
    exact does_receivedOids possible.2 (by simpa using possible.1) taken
  | loseRequest request =>
    obtain ⟨asked, taken⟩ := Option.ite_none_right_eq_some.mp taken
    cases taken
    exact .lostRequest asked
  | loseResponse request block =>
    obtain ⟨sent, taken⟩ := Option.ite_none_right_eq_some.mp taken
    cases taken
    exact .lostResponse sent

/-- The requests that are on the way, or whose responses are. -/
def onTheWay (client : OidClient) : List RequestId :=
  client.requests ++ client.responses.map Prod.fst

/-- Only the request whose callback is pending is on the way, and only once. -/
structure Outstanding (client : OidClient) : Prop where
  callback : ∀ request ∈ client.onTheWay, client.oidsCallback = some request
  single : client.onTheWay.length ≤ 1
  incomplete : ∀ request, client.oidsCallback = some request →
    (client.pendingResponses request).complete = false

theorem initial_outstanding : Outstanding initial := ⟨nofun, by decide, nofun⟩

namespace Outstanding

variable (outstanding : Outstanding client)
include outstanding

/-- Messages may be answered or lost. -/
theorem fewer (callback : after.oidsCallback = client.oidsCallback)
    (responses : after.pendingResponses = client.pendingResponses)
    (perm : after.onTheWay.Subperm client.onTheWay) : Outstanding after where
  callback := by
    intro request member
    rw [callback]
    exact outstanding.callback request (perm.subset member)
  single := Nat.le_trans perm.length_le outstanding.single
  incomplete := by
    intro request pending
    rw [callback] at pending
    rw [responses]
    exact outstanding.incomplete request pending

/-- Without a callback, nothing is on the way. -/
theorem nothing (free : client.oidsCallback = none) :
    client.requests = [] ∧ client.responses = [] := by
  have empty : client.onTheWay = [] := by
    apply eq_nil_iff_forall_not_mem.mpr
    intro request member
    have pending := outstanding.callback request member
    rw [free] at pending
    cases pending
  rw [onTheWay, append_eq_nil_iff, map_eq_nil_iff] at empty
  exact empty

/-- A response is the only message, and answers the request whose callback is pending. -/
theorem answers {request callback : RequestId}
    {block : OidsBlock} (sent : (request, block) ∈ client.responses)
    (pending : client.oidsCallback = some callback) :
    callback = request ∧ client.requests = [] ∧ client.responses = [(request, block)] := by
  have member : request ∈ client.responses.map Prod.fst := mem_map_of_mem sent
  have same := outstanding.callback request (mem_append_right _ member)
  rw [pending] at same
  have single := outstanding.single
  have positive := length_pos_of_mem sent
  rw [onTheWay, length_append, length_map] at single
  have no_requests : client.requests = [] := eq_nil_of_length_eq_zero (by omega)
  obtain ⟨only, split⟩ := length_eq_one_iff.mp (show client.responses.length = 1 by omega)
  rw [split, mem_singleton] at sent
  exact ⟨Option.some.inj same, no_requests, by rw [split, sent]⟩

omit outstanding

/-- A step keeps this as long as the process runs. -/
theorem step (outstanding : client.crashed = false → Outstanding client)
    (does : Does client action after report) (running : after.crashed = false) :
    Outstanding after := by
  cases does with
  | refused => exact outstanding running
  | asserted => cases running
  | @registered transaction _ free =>
    obtain ⟨no_requests, no_responses⟩ := (outstanding running).nothing free
    have only : onTheWay { client.send with
        oidsCallback := some client.nextRequest
        allocation := some ⟨client.nextRequest, transaction, .checking, false⟩ } =
          [client.nextRequest] := by
      simp [onTheWay, send, no_requests, no_responses]
    constructor
    · intro request member
      rw [only, mem_singleton] at member
      rw [member]
    · rw [only]
      exact Nat.le_refl 1
    · intro request pending
      cases pending
      show (update client.pendingResponses client.nextRequest
        createOidsPendingResponse client.nextRequest).complete = false
      rw [update_self]
      rfl
  | completed | waited | woke => exact (outstanding running).fewer rfl rfl (List.Subperm.refl _)
  | gaveUp before => exact (outstanding before).fewer rfl rfl (List.Subperm.refl _)
  | served asked =>
    refine (outstanding running).fewer rfl rfl ?_
    apply List.Perm.subperm
    unfold onTheWay
    rw [map_append, ← append_assoc]
    apply (perm_append_singleton _ _).trans
    exact (perm_cons_erase asked).symm.append_right _
  | dropped | lostResponse =>
    refine (outstanding running).fewer rfl rfl ?_
    exact (((erase_sublist).map _).append_left _).subperm
  | @delivered request callback block sent _ pending =>
    obtain ⟨rfl, no_requests, only⟩ := (outstanding running).answers sent pending
    have empty : onTheWay { client with
        responses := client.responses.erase (callback, block)
        oidsCallback := none
        pendingResponses := update client.pendingResponses callback ⟨block, true⟩ } = [] := by
      simp [onTheWay, no_requests, only]
    constructor
    · rw [empty]
      exact nofun
    · rw [empty]
      exact Nat.zero_le 1
    · exact nofun
  | lostRequest =>
    refine (outstanding running).fewer rfl rfl ?_
    exact ((erase_sublist).append_right _).subperm

end Outstanding

/-- The block that an allocation has returned. -/
def handedBlock : OidReport → List OidsBlock
  | .returned (some block) _ => [block]
  | _ => []

def handedBlocks (trace : List (OidAction × OidReport)) : List OidsBlock :=
  trace.flatMap fun step => handedBlock step.2

/-- The block that the meta server has reserved. -/
def servedBlock : OidAction → List OidsBlock
  | .serve _ block => [block]
  | _ => []

def servedBlocks (trace : List (OidAction × OidReport)) : List OidsBlock :=
  trace.flatMap fun step => servedBlock step.1

/-- The block that the thread has and not yet returned. -/
def inHand (client : OidClient) : List OidsBlock :=
  match client.allocation with
  | none => []
  | some allocation =>
      let response := client.pendingResponses allocation.pendingResponse
      if response.complete then [response.block] else []

/-- The blocks reserved that may still be handed out. -/
def held (client : OidClient) : List OidsBlock :=
  client.responses.map Prod.snd ++ client.inHand

theorem inHand_idle (idle : client.allocation = none) : client.inHand = [] := by
  unfold inHand
  rw [idle]

/-- A response that is gone is one block less. -/
theorem held_erase (response : RequestId × OidsBlock) :
    ((client.responses.erase response).map Prod.snd ++ client.inHand).Subperm client.held :=
  (((erase_sublist).map _).append_right _).subperm

/-- A block that is handed out was held, and one that is held was reserved. -/
theorem held_step (outstanding : client.crashed = false → Outstanding client)
    (does : Does client action after report) :
    (handedBlock report ++ after.held).Subperm (client.held ++ servedBlock action) := by
  cases does with
  | refused => exact (append_nil _).symm ▸ List.Subperm.refl _
  | asserted idle =>
    have same : held { client.send with crashed := true } = client.held := by
      rw [held, held, inHand_idle idle, inHand_idle (by exact idle)]
      rfl
    show (held _).Subperm (client.held ++ [])
    rw [same, append_nil]
  | @registered transaction idle free =>
    have none_in_hand : inHand { client.send with
        oidsCallback := some client.nextRequest
        allocation := some ⟨client.nextRequest, transaction, .checking, false⟩ } = [] := by
      simp [inHand, send, createOidsPendingResponse]
    show (client.responses.map Prod.snd ++ inHand _).Subperm (client.held ++ [])
    rw [none_in_hand, held, inHand_idle idle, append_nil, append_nil]
  | @completed _ _ _ allocation there complete =>
    have in_hand : client.inHand =
        [(client.pendingResponses allocation.pendingResponse).block] := by
      rw [inHand, there]
      exact if_pos complete
    show ([_] ++ (client.responses.map Prod.snd ++ [])).Subperm (client.held ++ [])
    rw [held, in_hand, append_nil, append_nil]
    exact perm_append_comm.subperm
  | gaveUp =>
    show (client.responses.map Prod.snd ++ []).Subperm (client.held ++ [])
    rw [append_nil, append_nil, held]
    exact (sublist_append_left _ _).subperm
  | waited there | woke there =>
    show (client.responses.map Prod.snd ++ inHand _).Subperm (client.held ++ [])
    rw [append_nil, held]
    conv_rhs => rw [inHand, there]
    exact List.Subperm.refl _
  | @served request block asked =>
    show ((client.responses ++ [(request, block)]).map Prod.snd ++ client.inHand).Subperm
      (client.responses.map Prod.snd ++ client.inHand ++ [block])
    rw [map_append, append_assoc, append_assoc]
    exact (perm_append_comm.append_left _).subperm
  | dropped | lostResponse =>
    show (List.map _ _ ++ client.inHand).Subperm (client.held ++ [])
    rw [append_nil]
    exact held_erase _
  | lostRequest =>
    show client.held.Subperm (client.held ++ [])
    rw [append_nil]
  | @delivered request callback block sent running pending =>
    obtain ⟨rfl, _, only⟩ := (outstanding running).answers sent pending
    have waiting := (outstanding running).incomplete callback pending
    have received : client.responses.erase (callback, block) = [] := by
      simp [only]
    show (List.map Prod.snd (client.responses.erase (callback, block)) ++ inHand _).Subperm
      (client.responses.map Prod.snd ++ client.inHand ++ [])
    rw [received, only, append_nil]
    unfold inHand
    cases client.allocation with
    | none => exact (nil_sublist _).subperm
    | some allocation =>
      by_cases same : allocation.pendingResponse = callback
      · simp only [same, update_self, waiting]
        exact List.Subperm.refl [block]
      · simp only [update_of_ne same]
        exact (sublist_cons_self _ _).subperm

/-- A response is delivered to the request that it answers. -/
theorem Outstanding.delivered_answers {answered : RequestId}
    (outstanding : client.crashed = false → Outstanding client)
    (does : Does client action after (.delivered request answered block)) : request = answered := by
  cases does with
  | delivered sent running pending => exact ((outstanding running).answers sent pending).1

/-- In every run the responses come to the requests that they answer, and every block handed
out is one that has been reserved, each time another. -/
theorem run_accounted {allowed : OidClient → OidAction → Prop}
    (run : Run step allowed initial trace client) :
    (∀ action request answered block, (action, .delivered request answered block) ∈ trace →
      request = answered) ∧
    (handedBlocks trace).Subperm (servedBlocks trace) := by
  have both := run.invariant (fun trace client =>
    (client.crashed = false → Outstanding client) ∧
    (∀ action request answered block, (action, .delivered request answered block) ∈ trace →
      request = answered) ∧
    (handedBlocks trace ++ client.held).Subperm (servedBlocks trace)) ?_ ?_
  · obtain ⟨_, answered, accounted⟩ := both
    exact ⟨answered, (sublist_append_left _ _).subperm.trans accounted⟩
  · refine ⟨fun _ => initial_outstanding, ?_, List.Subperm.refl []⟩
    exact fun _ _ _ _ member => absurd member not_mem_nil
  · intro trace client action after report _ held _ taken
    obtain ⟨outstanding, answered, accounted⟩ := held
    have does := does_of_step taken
    refine ⟨fun running => Outstanding.step outstanding does running, ?_, ?_⟩
    · intro other request answer block member
      rcases mem_append.mp member with earlier | last
      · exact answered other request answer block earlier
      · cases mem_singleton.mp last
        exact Outstanding.delivered_answers outstanding does
    · have one := held_step outstanding does
      unfold handedBlocks servedBlocks at accounted ⊢
      rw [flatMap_append, flatMap_append, flatMap_singleton, flatMap_singleton, append_assoc]
      apply ((subperm_append_left _).mpr one).trans
      rw [← append_assoc]
      exact (subperm_append_right _).mpr accounted

/-- No request is sent while a callback is pending; a thread gives up only after a wait that
has reached its end; and no wait reaches its end before a response that still counts. -/
def Punctual (client : OidClient) : OidAction → Prop
  | .allocate transaction => (transaction.active && transaction.rollbackOnly) = false →
      client.oidsCallback = none
  | .check now _ _ => ∀ allocation ∈ client.allocation,
      (client.pendingResponses allocation.pendingResponse).complete = false →
      (allocation.transaction.timed && timedOut allocation.transaction.timing now) = true →
      allocation.err = true
  | .wake _ timedOut => timedOut = true → ∀ allocation ∈ client.allocation,
      (client.pendingResponses allocation.pendingResponse).complete = false
  | .receivedOids _ _ => ∀ allocation ∈ client.allocation,
      client.oidsCallback = some allocation.pendingResponse → allocation.err = false
  | _ => True

instance (client : OidClient) : (action : OidAction) → Decidable (Punctual client action)
  | .allocate _ => inferInstanceAs (Decidable (_ → _))
  | .check now _ _ => inferInstanceAs (Decidable (∀ allocation ∈ client.allocation,
      (client.pendingResponses allocation.pendingResponse).complete = false →
      (allocation.transaction.timed && timedOut allocation.transaction.timing now) = true →
      allocation.err = true))
  | .wake _ timedOut => inferInstanceAs (Decidable (timedOut = true →
      ∀ allocation ∈ client.allocation,
        (client.pendingResponses allocation.pendingResponse).complete = false))
  | .receivedOids _ _ => inferInstanceAs (Decidable (∀ allocation ∈ client.allocation,
      client.oidsCallback = some allocation.pendingResponse → allocation.err = false))
  | .serve _ _ => .isTrue trivial
  | .loseRequest _ => .isTrue trivial
  | .loseResponse _ _ => .isTrue trivial

/-- The process runs, and the error is set only where there is no block. -/
structure Consistent (client : OidClient) : Prop where
  running : client.crashed = false
  incomplete : ∀ allocation, client.allocation = some allocation → allocation.err = true →
    (client.pendingResponses allocation.pendingResponse).complete = false

theorem Consistent.step (consistent : Consistent client) (punctual : Punctual client action)
    (does : Does client action after report) :
    Consistent after ∧ report ≠ .assertionFailed ∧
      ∀ block err, report = .returned block err → (block = none ↔ err = true) := by
  cases does with
  | refused =>
    refine ⟨consistent, nofun, ?_⟩
    intro block err same
    cases same
    simp
  | asserted _ proceeds pending =>
    have free := punctual proceeds
    rw [pending] at free
    cases free
  | registered =>
    refine ⟨⟨consistent.running, ?_⟩, nofun, nofun⟩
    intro allocation there set
    cases there
    cases set
  | @completed _ _ _ allocation there complete =>
    refine ⟨⟨consistent.running, fun _ gone => by cases gone⟩, nofun, ?_⟩
    intro block err same
    cases same
    have unset : allocation.err ≠ true := by
      intro set
      have incomplete := consistent.incomplete allocation there set
      rw [complete] at incomplete
      cases incomplete
    simp [unset]
  | @gaveUp _ _ _ allocation _ there incomplete late =>
    have set := punctual allocation there incomplete late
    refine ⟨⟨by rw [set]; rfl, fun _ gone => by cases gone⟩, nofun, ?_⟩
    intro block err same
    cases same
    simp [set]
  | @waited _ _ _ allocation there =>
    refine ⟨⟨consistent.running, ?_⟩, nofun, nofun⟩
    intro waiting same set
    cases same
    exact consistent.incomplete allocation there set
  | @woke _ timedOut allocation there =>
    refine ⟨⟨consistent.running, ?_⟩, nofun, nofun⟩
    intro woken same set
    cases same
    cases timedOut with
    | true => exact punctual rfl allocation there
    | false => exact consistent.incomplete allocation there set
  | served | dropped | lostRequest | lostResponse =>
        exact ⟨⟨consistent.running, consistent.incomplete⟩, nofun, nofun⟩
  | @delivered _ callback _ _ _ pending =>
    refine ⟨⟨consistent.running, ?_⟩, nofun, nofun⟩
    intro allocation there set
    show (update client.pendingResponses callback _ allocation.pendingResponse).complete = false
    by_cases same : allocation.pendingResponse = callback
    · have unset := punctual allocation there (same ▸ pending)
      rw [unset] at set
      cases set
    · rw [update_of_ne same]
      exact consistent.incomplete allocation there set

/-- In every run of punctual steps the assertion holds, the responses come to the requests
that they answer, the error is set exactly where no block is returned, and the blocks handed
out are ones that have been reserved, each time another. -/
theorem oid_strategy_keeps_promises (run : Run step Punctual initial trace client) :
    client.crashed = false ∧
    (∀ action report, (action, report) ∈ trace → report ≠ .assertionFailed) ∧
    (∀ action request answered block, (action, .delivered request answered block) ∈ trace →
      request = answered) ∧
    (∀ action block err, (action, .returned block err) ∈ trace → (block = none ↔ err = true)) ∧
    (handedBlocks trace).Subperm (servedBlocks trace) := by
  have kept := run.invariant (fun trace client => Consistent client ∧
    ∀ action report, (action, report) ∈ trace → report ≠ .assertionFailed ∧
      ∀ block err, report = .returned block err → (block = none ↔ err = true)) ?_ ?_
  · obtain ⟨answered, accounted⟩ := run_accounted run
    refine ⟨kept.1.running, ?_, answered, ?_, accounted⟩
    · exact fun action report member => (kept.2 action report member).1
    · exact fun action block err member => (kept.2 action _ member).2 block err rfl
  · refine ⟨⟨rfl, fun _ there => by cases there⟩, ?_⟩
    exact fun _ _ member => absurd member not_mem_nil
  · intro trace client action after report _ held punctual taken
    obtain ⟨consistent, fine⟩ := held
    obtain ⟨after_consistent, last⟩ := consistent.step punctual (does_of_step taken)
    refine ⟨after_consistent, ?_⟩
    intro other reported member
    rcases mem_append.mp member with earlier | here
    · exact fine other reported earlier
    · cases mem_singleton.mp here
      exact last

/-- A time of so many seconds. -/
def seconds (tvSec : Int) : Tx.Timeval := { Tx.Timeval.zero with tvSec := tvSec }

/-- A transaction that may take one second. -/
def shortTransaction : ThreadTransaction := ⟨true, false, ⟨.zero, some (seconds 1)⟩⟩

/-- A request that is answered, one that is answered only after its thread has given up, and
one after that. -/
def punctualActions : List OidAction :=
  [.allocate ⟨true, false, ⟨.zero, none⟩⟩, .check .zero .zero 0, .serve 0 ⟨100, 100⟩,
    .receivedOids 0 ⟨100, 100⟩, .wake 0 false, .check .zero .zero 0,
    .allocate shortTransaction, .check .zero .zero 0, .wake 1000 true,
    .check (seconds 1) (seconds 1) 1000000, .serve 1 ⟨200, 100⟩, .receivedOids 1 ⟨200, 100⟩,
    .allocate shortTransaction]

theorem oid_strategy_keeps_promises_late : ∃ trace client,
    Run step Punctual initial trace client ∧ trace.map Prod.fst = punctualActions ∧
    handedBlocks trace = [⟨100, 100⟩] ∧ servedBlocks trace = [⟨100, 100⟩, ⟨200, 100⟩] ∧
    (handedBlocks trace).Subperm (servedBlocks trace) := by
  have run : Run step Punctual initial _ _ :=
    run_of_tested_exec (show exec _ _ punctualActions = some (_, _) from rfl)
  exact ⟨_, _, run, rfl, rfl, rfl, (oid_strategy_keeps_promises run).2.2.2.2⟩

/-- The thread has given up, and its callback is still pending when the next request is
sent. -/
def requestAfterTimeout : List OidAction :=
  [.allocate shortTransaction, .check .zero .zero 0, .wake 1000 true,
    .check (seconds 1) (seconds 1) 1000000, .allocate shortTransaction]

/-- The wait for one second ends after a millisecond, and the response comes after that. -/
def responseAfterWait : List OidAction :=
  [.allocate shortTransaction, .check .zero .zero 0, .wake 1000 true, .check .zero .zero 1000,
    .serve 0 ⟨100, 100⟩, .receivedOids 0 ⟨100, 100⟩, .wake 1500 false, .check .zero .zero 1500]

/-- The time is over before the first wait. -/
def lateFromTheStart : List OidAction :=
  [.allocate shortTransaction, .check (seconds 1) (seconds 1) 0]

/-- The assertion fails; a block is returned with the error set; no block is returned and the
error is not set. -/
theorem promises_broken : (∃ trace client, Run step anyAction initial trace client ∧
      trace.map Prod.fst = requestAfterTimeout ∧ .assertionFailed ∈ trace.map Prod.snd) ∧
    (∃ trace client, Run step anyAction initial trace client ∧
      trace.map Prod.fst = responseAfterWait ∧
      .returned (some ⟨100, 100⟩) true ∈ trace.map Prod.snd) ∧
    ∃ trace client, Run step anyAction initial trace client ∧
      trace.map Prod.fst = lateFromTheStart ∧ .returned none false ∈ trace.map Prod.snd := by
  refine ⟨?_, ?_, ?_⟩
  · have run : Run step anyAction initial _ _ :=
      run_of_exec (show exec _ _ requestAfterTimeout = some (_, _) from rfl)
    exact ⟨_, _, run, rfl, by decide⟩
  · have run : Run step anyAction initial _ _ :=
      run_of_exec (show exec _ _ responseAfterWait = some (_, _) from rfl)
    exact ⟨_, _, run, rfl, by decide⟩
  · have run : Run step anyAction initial _ _ :=
      run_of_exec (show exec _ _ lateFromTheStart = some (_, _) from rfl)
    exact ⟨_, _, run, rfl, by decide⟩

end OidClient

end Gzochi.DataClient
