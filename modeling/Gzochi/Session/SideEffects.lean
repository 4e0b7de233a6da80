import Gzochi.Lib.Runs
import Mathlib.Data.List.Forall2

/-!
# Side effects of sessions

What a transaction does to the clients of sessions is queued and performed when the transaction
commits: the outcome of a login first, then messages and disconnects in their order.  A client
that is connected to another node of a cluster is reached through the meta server.

A message stays in the bytevector of the application that it has been sent from, and its length
is a `short`.
-/

namespace Gzochi.Session

open Lib List

abbrev Bytes := List UInt8
abbrev Oid := Nat
abbrev Address := Nat
abbrev Client := Nat

/-- The value of a `short`. -/
def short (value : Int) : Int := (value + 32768) % 65536 - 32768

/-- The value of an `unsigned short`. -/
def unsignedShort (value : Int) : Nat := (value % 65536).toNat

/-- `gzochid_client_session_operation`, with the fields of a message. -/
inductive OperationType where
  | loginSuccess
  | loginFailure
  | disconnect
  | message (message : Address) (len : Int)
  deriving DecidableEq

/-- `gzochid_client_session_pending_operation`. -/
structure PendingOperation where
  type : OperationType
  targetSession : Oid
  deriving DecidableEq

/-- `gzochid_client_session_transaction_context`. -/
structure TransactionContext where
  loginFailed : Bool
  loginOperation : Option PendingOperation
  operations : List PendingOperation

/-- What is to reach the client of a session. -/
inductive Delivery where
  | loginSuccess
  | loginFailure
  | disconnect
  | message (payload : Bytes)
  deriving DecidableEq

def Delivery.isLogin : Delivery → Bool
  | .loginSuccess | .loginFailure => true
  | .disconnect | .message _ => false

/-- The side effects of a transaction, and the bytevectors of the application. -/
structure Transaction where
  context : TransactionContext
  memory : Address → Bytes

/-- What an application and the login worker do.  A session is disconnected if its objects could
be removed.  A bytevector may be changed, and when the application does not refer to it any more
its memory may be used for something else. -/
inductive Request where
  | sendLoginSuccess (session : Oid)
  | sendLoginFailure (session : Oid)
  | sendMessage (session : Oid) (msg : Address)
  | disconnect (session : Oid) (removed : Bool)
  | change (msg : Address) (contents : Bytes)
  deriving DecidableEq

namespace Transaction

def begin (memory : Address → Bytes) : Transaction := ⟨⟨false, none, []⟩, memory⟩

/-- An operation is put at the end of the list. -/
def append (transaction : Transaction) (operation : PendingOperation) : Transaction :=
  { transaction with
    context := { transaction.context with
      operations := transaction.context.operations ++ [operation] } }

/-- The assertion that there has been no login outcome yet. -/
def login (transaction : Transaction) (operation : PendingOperation) (failed : Bool) :
    Option Transaction :=
  match transaction.context.loginOperation with
  | some _ => none
  | none =>
      some { transaction with
        context := { transaction.context with
          loginOperation := some operation
          loginFailed := transaction.context.loginFailed || failed } }

/-- One request, and what it asks for; `none` stands for an assertion that fails or a request
that is not possible. -/
def step (transaction : Transaction) : Request → Option (Transaction × Option (Oid × Delivery))
  | .sendLoginSuccess session =>
      (transaction.login ⟨.loginSuccess, session⟩ false).map
        fun after => (after, some (session, .loginSuccess))
  | .sendLoginFailure session =>
      (transaction.login ⟨.loginFailure, session⟩ true).map
        fun after => (after, some (session, .loginFailure))
  | .sendMessage session msg =>
      let contents := transaction.memory msg
      some (transaction.append ⟨.message msg (short contents.length), session⟩,
        some (session, .message contents))
  | .disconnect session removed =>
      if removed then
        some (transaction.append ⟨.disconnect, session⟩, some (session, .disconnect))
      else some (transaction, none)
  | .change msg contents =>
      if contents.length = (transaction.memory msg).length then
        some ({ transaction with
          memory := fun other => if other = msg then contents else transaction.memory other }, none)
      else none

end Transaction

/-- What reaches clients, or the meta server; a bad pointer or length crashes the server. -/
inductive Effect where
  | sent (client : Client) (delivery : Delivery)
  | forwarded (session : Oid) (delivery : Delivery)
  | crashed
  deriving DecidableEq

/-- `gzochid_game_client_send`; `len` becomes an `unsigned short`. -/
def gzochidGameClientSend (client : Client) (contents : Bytes) (len : Int) : Effect :=
  .sent client (.message (contents.take (unsignedShort len)))

/-- `forward_message`; a negative `len` becomes a huge `gsize`. -/
def forwardMessage (session : Oid) (contents : Bytes) (len : Int) : Effect :=
  if len < 0 then .crashed else .forwarded session (.message (contents.take len.toNat))

/-- A login outcome is for the client, which must be there. -/
def gzochidGameClientLogin (client : Option Client) (outcome : Delivery) : Effect :=
  match client with
  | some client => .sent client outcome
  | none => .crashed

namespace Transaction

variable (metaclient : Bool)

/-- `session_commit_operation`; `clients` is `oids_to_clients` at that time. -/
def sessionCommitOperation (transaction : Transaction) (clients : Oid → Option Client)
    (op : PendingOperation) : Option Effect :=
  let client := clients op.targetSession
  if client = none ∧ metaclient = false then none
  else
    match op.type with
    | .disconnect =>
        match client with
        | some client => some (.sent client .disconnect)
        | none => some (.forwarded op.targetSession .disconnect)
    | .loginSuccess => some (gzochidGameClientLogin client .loginSuccess)
    | .loginFailure => some (gzochidGameClientLogin client .loginFailure)
    | .message msg len =>
        if transaction.context.loginFailed = false ∨
            transaction.context.loginOperation.map PendingOperation.targetSession ≠
              some op.targetSession then
          match client with
          | some client => some (gzochidGameClientSend client (transaction.memory msg) len)
          | none => some (forwardMessage op.targetSession (transaction.memory msg) len)
        else none

/-- The operations are performed until the server crashes; `clients` gives the table at the time
of each of them. -/
def commitAll (transaction : Transaction) (clients : Nat → Oid → Option Client) :
    List PendingOperation → List Effect
  | [] => []
  | op :: rest =>
      match transaction.sessionCommitOperation metaclient (clients 0) op with
      | some .crashed => [.crashed]
      | some effect => effect :: commitAll transaction (fun n => clients (n + 1)) rest
      | none => commitAll transaction (fun n => clients (n + 1)) rest

/-- The operations in the order in which they are performed. -/
def performed (transaction : Transaction) : List PendingOperation :=
  transaction.context.loginOperation.toList ++ transaction.context.operations

/-- `session_commit`. -/
def sessionCommit (transaction : Transaction) (clients : Nat → Oid → Option Client) :
    List Effect :=
  transaction.commitAll metaclient clients transaction.performed

/-- `session_rollback`. -/
def sessionRollback (_ : Transaction) : List Effect := []

/-- What is in the bytevector of a message. -/
def contents (transaction : Transaction) (op : PendingOperation) : Bytes :=
  match op.type with
  | .message msg _ => transaction.memory msg
  | .loginSuccess | .loginFailure | .disconnect => []

end Transaction

/-- What has been asked for, in this order. -/
def asked (trace : List (Request × Option (Oid × Delivery))) : List (Oid × Delivery) :=
  trace.filterMap Prod.snd

/-- The outcome of the login comes first. -/
def ordered (deliveries : List (Oid × Delivery)) : List (Oid × Delivery) :=
  deliveries.filter (fun pair => pair.2.isLogin) ++
    deliveries.filter (fun pair => !pair.2.isLogin)

/-- A message to the session whose login has failed. -/
def Suppressed (deliveries : List (Oid × Delivery)) : Oid × Delivery → Prop
  | (session, .message _) => (session, .loginFailure) ∈ deliveries
  | _ => False

instance (deliveries : List (Oid × Delivery)) :
    (pair : Oid × Delivery) → Decidable (Suppressed deliveries pair)
  | (session, .message _) =>
      inferInstanceAs (Decidable ((session, Delivery.loginFailure) ∈ deliveries))
  | (_, .loginSuccess) | (_, .loginFailure) | (_, .disconnect) => .isFalse id

/-- Where something for a session goes. -/
def destination (metaclient : Bool) (clients : Oid → Option Client) (pair : Oid × Delivery) :
    Option Effect :=
  match clients pair.1 with
  | some client => some (.sent client pair.2)
  | none => if metaclient then some (.forwarded pair.1 pair.2) else none

/-- All of them, one after the other. -/
def expectedAll (metaclient : Bool) (deliveries : List (Oid × Delivery))
    (clients : Nat → Oid → Option Client) : List (Oid × Delivery) → List Effect
  | [] => []
  | pair :: rest =>
      (if Suppressed deliveries pair then none
        else destination metaclient (clients 0) pair).toList ++
        expectedAll metaclient deliveries (fun n => clients (n + 1)) rest

def expected (metaclient : Bool) (clients : Nat → Oid → Option Client)
    (deliveries : List (Oid × Delivery)) : List Effect :=
  expectedAll metaclient deliveries clients (ordered deliveries)

/-- What goes right with an operation: a login outcome finds its client, or nobody is asked for
it; a message that is sent is as it was, and a forwarded one has a length that is a `short`. -/
def Carried (metaclient : Bool) (deliveries : List (Oid × Delivery)) (contents : Bytes)
    (client : Option Client) (pair : Oid × Delivery) : Prop :=
  match pair.2 with
  | .loginSuccess | .loginFailure => client ≠ none ∨ metaclient = false
  | .disconnect => True
  | .message payload =>
      Suppressed deliveries pair ∨ (client = none ∧ metaclient = false) ∨
        (contents = payload ∧ (client ≠ none ∨ payload.length < 32768))

instance (metaclient : Bool) (deliveries : List (Oid × Delivery)) (contents : Bytes)
    (client : Option Client) :
    (pair : Oid × Delivery) → Decidable (Carried metaclient deliveries contents client pair)
  | (_, .loginSuccess) | (_, .loginFailure) =>
      inferInstanceAs (Decidable (client ≠ none ∨ metaclient = false))
  | (_, .disconnect) => .isTrue trivial
  | (session, .message payload) =>
      inferInstanceAs (Decidable (Suppressed deliveries (session, .message payload) ∨
        (client = none ∧ metaclient = false) ∨
        (contents = payload ∧ (client ≠ none ∨ payload.length < 32768))))

/-- An operation has been queued for a delivery. -/
inductive Queued (memory : Address → Bytes) : PendingOperation → Oid × Delivery → Prop where
  | loginSuccess {session : Oid} : Queued memory ⟨.loginSuccess, session⟩ (session, .loginSuccess)
  | loginFailure {session : Oid} : Queued memory ⟨.loginFailure, session⟩ (session, .loginFailure)
  | disconnect {session : Oid} : Queued memory ⟨.disconnect, session⟩ (session, .disconnect)
  | message {session : Oid} {msg : Address} {payload : Bytes}
      (same : (memory msg).length = payload.length) :
      Queued memory ⟨.message msg (short payload.length), session⟩ (session, .message payload)

/-- What is queued is what has been asked for. -/
structure Holds (transaction : Transaction) (deliveries : List (Oid × Delivery)) : Prop where
  login : List.Forall₂ (Queued transaction.memory) transaction.context.loginOperation.toList
    (deliveries.filter fun pair => pair.2.isLogin)
  operations : List.Forall₂ (Queued transaction.memory) transaction.context.operations
    (deliveries.filter fun pair => !pair.2.isLogin)
  failed : ∀ session, (session, .loginFailure) ∈ deliveries ↔
    transaction.context.loginFailed = true ∧
      transaction.context.loginOperation.map PendingOperation.targetSession = some session
  unfailed : transaction.context.loginOperation = none → transaction.context.loginFailed = false

section

variable {transaction after : Transaction} {deliveries : List (Oid × Delivery)}
  {memory memory' : Address → Bytes} {op : PendingOperation} {pair : Oid × Delivery}

theorem Queued.congr (queued : Queued memory op pair)
    (same : ∀ msg, (memory' msg).length = (memory msg).length) : Queued memory' op pair := by
  cases queued with
  | loginSuccess => exact .loginSuccess
  | loginFailure => exact .loginFailure
  | disconnect => exact .disconnect
  | message length => exact .message ((same _).trans length)

theorem begin_holds (memory : Address → Bytes) : Holds (.begin memory) [] where
  login := .nil
  operations := .nil
  failed := by
    intro session
    constructor
    · exact nofun
    · exact nofun
  unfailed := fun _ => rfl

variable (holds : Holds transaction deliveries)
include holds

/-- A login outcome is queued, which has to be the first one. -/
theorem Holds.login_step {failed : Bool}
    (queued : Queued transaction.memory op pair) (isLogin : pair.2.isLogin = true)
    (isFailure : pair.2 = .loginFailure ↔ failed = true)
    (taken : transaction.login op failed = some after) :
    Holds after (deliveries ++ [pair]) := by
  unfold Transaction.login at taken
  cases there : transaction.context.loginOperation with
  | some other =>
    rw [there] at taken
    cases taken
  | none =>
    rw [there] at taken
    cases taken
    have paired := holds.login
    rw [there] at paired
    have none_ : deliveries.filter (fun pair => pair.2.isLogin) = [] :=
      forall₂_nil_left_iff.mp paired
    have target : op.targetSession = pair.1 := by
      cases queued <;> rfl
    constructor
    · rw [filter_append, none_, filter_singleton, isLogin]
      exact .cons queued .nil
    · rw [filter_append, filter_singleton, isLogin]
      simpa using holds.operations
    · intro session
      have old : (session, Delivery.loginFailure) ∉ deliveries := by
        intro member
        have listed : (session, Delivery.loginFailure) ∈
            deliveries.filter fun pair => pair.2.isLogin := mem_filter.mpr ⟨member, rfl⟩
        rw [none_] at listed
        cases listed
      show _ ↔ (transaction.context.loginFailed || failed) = true ∧
        some op.targetSession = some session
      rw [holds.unfailed there, Bool.false_or, ← isFailure, target, mem_append, mem_singleton]
      constructor
      · intro member
        cases member with
        | inl before => exact absurd before old
        | inr isPair =>
          rw [← isPair]
          exact ⟨rfl, rfl⟩
      · intro outcome
        apply Or.inr
        rw [← outcome.1, ← Option.some.inj outcome.2]
    · exact nofun

theorem Holds.append
    (queued : Queued transaction.memory op pair) (notLogin : pair.2.isLogin = false) :
    Holds (transaction.append op) (deliveries ++ [pair]) where
  login := by
    rw [filter_append, filter_singleton, notLogin]
    show List.Forall₂ _ _ (_ ++ [])
    rw [append_nil]
    exact holds.login
  operations := by
    rw [filter_append, filter_singleton, notLogin]
    exact rel_append holds.operations (.cons queued .nil)
  failed := by
    intro session
    rw [mem_append, mem_singleton]
    constructor
    · intro member
      cases member with
      | inl old => exact (holds.failed session).mp old
      | inr isNew =>
        rw [← isNew] at notLogin
        cases notLogin
    · exact fun failed => .inl ((holds.failed session).mpr failed)
  unfailed := holds.unfailed

theorem Holds.step {request : Request} {delivery : Option (Oid × Delivery)}
    (taken : transaction.step request = some (after, delivery)) :
    Holds after (deliveries ++ delivery.toList) := by
  cases request with
  | sendLoginSuccess session =>
    obtain ⟨reached, queued, same⟩ := Option.map_eq_some_iff.mp taken
    cases same
    apply holds.login_step .loginSuccess rfl _ queued
    exact ⟨nofun, nofun⟩
  | sendLoginFailure session =>
    obtain ⟨reached, queued, same⟩ := Option.map_eq_some_iff.mp taken
    cases same
    apply holds.login_step .loginFailure rfl _ queued
    exact ⟨fun _ => rfl, fun _ => rfl⟩
  | sendMessage session msg =>
    cases taken
    exact holds.append (.message rfl) rfl
  | disconnect session removed =>
    cases removed with
    | true =>
      cases taken
      exact holds.append .disconnect rfl
    | false =>
      cases taken
      rw [Option.toList_none, append_nil]
      exact holds
  | change msg contents =>
    obtain ⟨sameLength, taken⟩ := Option.ite_none_right_eq_some.mp taken
    cases taken
    rw [Option.toList_none, append_nil]
    have lengths (other : Address) :
        (if other = msg then contents else transaction.memory other).length =
          (transaction.memory other).length := by
      split
      next isMsg => rw [isMsg, sameLength]
      next => rfl
    exact { holds with
      login := holds.login.imp fun _ _ queued => queued.congr lengths
      operations := holds.operations.imp fun _ _ queued => queued.congr lengths }

omit holds

theorem run_holds {trace : List (Request × Option (Oid × Delivery))}
    (run : Run Transaction.step anyAction (.begin memory) trace transaction) :
    Holds transaction (asked trace) := by
  refine run.invariant (fun trace transaction => Holds transaction (asked trace))
    (begin_holds memory) ?_
  intro trace transaction request after delivery _ holds _ taken
  have kept := holds.step taken
  unfold asked
  rw [filterMap_append]
  cases delivery with
  | none => exact kept
  | some pair => exact kept

end

section

variable {transaction : Transaction} {deliveries : List (Oid × Delivery)} {metaclient : Bool}
  {clients : Oid → Option Client} {op : PendingOperation} {pair : Oid × Delivery}

variable {length : Nat}

theorem unsignedShort_short (fits : length ≤ 65535) : unsignedShort (short length) = length := by
  unfold unsignedShort short
  omega

theorem short_small (small : length < 32768) : short length = length := by
  unfold short
  omega

theorem short_negative (large : ¬length < 32768) (fits : length ≤ 65535) : short length < 0 := by
  unfold short
  omega

/-- What `session_commit_operation` comes to, in the terms of the deliveries. -/
def performedEffect (metaclient : Bool) (deliveries : List (Oid × Delivery)) (contents : Bytes)
    (client : Option Client) : Oid × Delivery → Option Effect
  | (session, .message payload) =>
      match client with
      | none =>
          if metaclient = false ∨ (session, .loginFailure) ∈ deliveries then none
          else some
            (if payload.length < 32768 then .forwarded session (.message contents) else .crashed)
      | some client =>
          if (session, .loginFailure) ∈ deliveries then none
          else some (.sent client (.message contents))
  | (session, .disconnect) =>
      match client with
      | none => if metaclient then some (.forwarded session .disconnect) else none
      | some client => some (.sent client .disconnect)
  | (_, outcome) =>
      match client with
      | none => if metaclient then some .crashed else none
      | some client => some (.sent client outcome)

theorem Holds.suppresses (holds : Holds transaction deliveries) (session : Oid) :
    (transaction.context.loginFailed = false ∨
      transaction.context.loginOperation.map PendingOperation.targetSession ≠ some session) ↔
        (session, .loginFailure) ∉ deliveries := by
  rw [holds.failed session]
  cases transaction.context.loginFailed <;> simp

theorem sessionCommitOperation_eq (holds : Holds transaction deliveries)
    (queued : Queued transaction.memory op pair)
    (fits : ∀ payload, pair.2 = .message payload → payload.length ≤ 65535) :
    transaction.sessionCommitOperation metaclient clients op =
      performedEffect metaclient deliveries (transaction.contents op) (clients pair.1) pair := by
  cases queued with
  | loginSuccess | loginFailure =>
    simp only [Transaction.sessionCommitOperation, performedEffect, gzochidGameClientLogin]
    cases clients _ <;> cases metaclient <;> rfl
  | disconnect =>
    simp only [Transaction.sessionCommitOperation, performedEffect]
    cases clients _ <;> cases metaclient <;> rfl
  | message same =>
    rename_i session msg payload
    have bounded := fits payload rfl
    rw [← same] at bounded
    simp only [Transaction.sessionCommitOperation, performedEffect, holds.suppresses session,
      Transaction.contents, gzochidGameClientSend, forwardMessage, ← same,
      unsignedShort_short bounded, take_length]
    cases clients session with
    | some client =>
      by_cases failed : (session, Delivery.loginFailure) ∈ deliveries <;> simp [failed]
    | none =>
      by_cases failed : (session, Delivery.loginFailure) ∈ deliveries
      · simp [failed]
      · by_cases small : (transaction.memory msg).length < 32768
        · cases metaclient <;> simp [failed, small, short_small small]
        · cases metaclient <;> simp [failed, small, short_negative small bounded]

/-- What is expected of one delivery. -/
def expectedEffect (metaclient : Bool) (deliveries : List (Oid × Delivery))
    (client : Option Client) (pair : Oid × Delivery) : Option Effect :=
  if Suppressed deliveries pair then none
  else
    match client with
    | some client => some (.sent client pair.2)
    | none => if metaclient then some (.forwarded pair.1 pair.2) else none

variable {contents : Bytes} {client : Option Client}

theorem performedEffect_carried (carried : Carried metaclient deliveries contents client pair) :
    performedEffect metaclient deliveries contents client pair =
        expectedEffect metaclient deliveries client pair ∧
      performedEffect metaclient deliveries contents client pair ≠ some .crashed := by
  obtain ⟨session, delivery⟩ := pair
  cases delivery with
  | loginSuccess | loginFailure | disconnect =>
    cases client <;> cases metaclient <;>
      simp_all [performedEffect, expectedEffect, Carried, Suppressed]
  | message payload =>
    by_cases failed : (session, Delivery.loginFailure) ∈ deliveries
    · cases client <;> simp [performedEffect, expectedEffect, Suppressed, failed]
    · cases client <;> cases metaclient <;>
        simp_all [performedEffect, expectedEffect, Carried, Suppressed]

/-- Otherwise something else is done than is expected. -/
theorem performedEffect_not_carried (not : ¬Carried metaclient deliveries contents client pair) :
    ∃ effect other, performedEffect metaclient deliveries contents client pair = some effect ∧
      expectedEffect metaclient deliveries client pair = some other ∧ effect ≠ other := by
  obtain ⟨session, delivery⟩ := pair
  cases delivery with
  | loginSuccess | loginFailure =>
    cases client <;> cases metaclient <;>
      simp_all [performedEffect, expectedEffect, Carried, Suppressed]
  | disconnect => exact absurd trivial not
  | message payload =>
    simp only [Carried, Suppressed, not_or, not_and] at not
    obtain ⟨notFailed, reached, wrong⟩ := not
    cases client with
    | some client =>
      refine ⟨_, _, if_neg notFailed, if_neg notFailed, ?_⟩
      intro equal
      cases equal
      exact (wrong rfl).1 nofun
    | none =>
      cases metaclient with
      | false => exact absurd rfl (reached rfl)
      | true =>
        refine ⟨_, _, if_neg (by simp [notFailed]), if_neg notFailed, ?_⟩
        by_cases small : payload.length < 32768
        · rw [if_pos small]
          intro equal
          cases equal
          exact (wrong rfl).2 small
        · rw [if_neg small]
          nofun

theorem expectedAll_cons {rest : List (Oid × Delivery)} {clients : Nat → Oid → Option Client} :
    expectedAll metaclient deliveries clients (pair :: rest) =
      (expectedEffect metaclient deliveries (clients 0 pair.1) pair).toList ++
        expectedAll metaclient deliveries (fun n => clients (n + 1)) rest := rfl

theorem commitAll_cons {rest : List PendingOperation} {clients : Nat → Oid → Option Client}
    {effect : Option Effect}
    (performed : transaction.sessionCommitOperation metaclient (clients 0) op = effect)
    (fine : effect ≠ some .crashed) :
    transaction.commitAll metaclient clients (op :: rest) =
      effect.toList ++ transaction.commitAll metaclient (fun n => clients (n + 1)) rest := by
  simp only [Transaction.commitAll, performed]
  cases effect with
  | none => rfl
  | some effect =>
    cases effect with
    | sent | forwarded => rfl
    | crashed => exact absurd rfl fine

/-- What holds of the first one, and of the others in their places. -/
theorem forall_getElem?_cons {Item : Type} {property : Nat → Item → Prop} {first : Item}
    {rest : List Item} :
    (∀ i item, (first :: rest)[i]? = some item → property i item) ↔
      property 0 first ∧ ∀ i item, rest[i]? = some item → property (i + 1) item := by
  constructor
  · intro all
    exact ⟨all 0 first rfl, fun i item there => all (i + 1) item there⟩
  · intro parts i item there
    cases i with
    | zero =>
      cases there
      exact parts.1
    | succ i => exact parts.2 i item there

/-- All operations do what is expected just when each of them does. -/
theorem commitAll_iff (holds : Holds transaction deliveries) {ops : List PendingOperation}
    {pairs : List (Oid × Delivery)} {clients : Nat → Oid → Option Client}
    (paired : List.Forall₂ (Queued transaction.memory) ops pairs)
    (fits : ∀ session payload, (session, .message payload) ∈ pairs → payload.length ≤ 65535) :
    transaction.commitAll metaclient clients ops = expectedAll metaclient deliveries clients pairs ↔
      ∀ i item, (ops.zip pairs)[i]? = some item →
        Carried metaclient deliveries (transaction.contents item.1)
          (clients i item.2.1) item.2 := by
  induction paired generalizing clients with
  | nil => exact ⟨fun _ => nofun, fun _ => rfl⟩
  | @cons op pair ops pairs queued paired ih =>
    have performed : transaction.sessionCommitOperation metaclient (clients 0) op = _ :=
      sessionCommitOperation_eq holds queued fun payload isMessage =>
        fits pair.1 payload (by rw [← isMessage]; exact mem_cons_self)
    have others : transaction.commitAll metaclient (fun n => clients (n + 1)) ops = _ ↔ _ :=
      ih fun session payload member => fits session payload (mem_cons_of_mem _ member)
    rw [expectedAll_cons, zip_cons_cons, forall_getElem?_cons]
    by_cases carried :
        Carried metaclient deliveries (transaction.contents op) (clients 0 pair.1) pair
    · obtain ⟨same, fine⟩ := performedEffect_carried carried
      rw [same] at performed fine
      rw [commitAll_cons performed fine, append_cancel_left_eq, others]
      exact ⟨fun rest => ⟨carried, rest⟩, fun both => both.2⟩
    · obtain ⟨effect, other, isEffect, isOther, differ⟩ := performedEffect_not_carried carried
      rw [isEffect] at performed
      rw [isOther]
      constructor
      · intro equal
        have first : ∃ rest, transaction.commitAll metaclient clients (op :: ops) =
            effect :: rest := by
          simp only [Transaction.commitAll, performed]
          cases effect with
          | sent | forwarded => exact ⟨_, rfl⟩
          | crashed => exact ⟨_, rfl⟩
        obtain ⟨rest, isFirst⟩ := first
        rw [isFirst] at equal
        exact absurd (List.cons.inj equal).1 differ
      · exact fun both => absurd both.1 carried

/-- A commit performs what has been asked for, once each and in order, the outcome of the login
first, except the messages to a session whose login has failed, and a rollback performs nothing;
this is so just when every login outcome finds its client or there is no cluster, no bytevector
has changed that is still to be sent, and no forwarded message is longer than a `short` can say. -/
theorem side_effects_performed_iff {memory : Address → Bytes}
    {trace : List (Request × Option (Oid × Delivery))}
    (run : Run Transaction.step anyAction (.begin memory) trace transaction)
    (fits : ∀ session payload, (session, .message payload) ∈ asked trace → payload.length ≤ 65535)
    (metaclient : Bool) (clients : Nat → Oid → Option Client) :
    (transaction.sessionCommit metaclient clients = expected metaclient clients (asked trace) ∧
        transaction.sessionRollback = []) ↔
      ∀ i item, (transaction.performed.zip (ordered (asked trace)))[i]? = some item →
        Carried metaclient (asked trace) (transaction.contents item.1) (clients i item.2.1)
          item.2 := by
  have holds := run_holds run
  have paired : List.Forall₂ (Queued transaction.memory) transaction.performed
      (ordered (asked trace)) := rel_append holds.login holds.operations
  have ordered_fits : ∀ session payload, (session, .message payload) ∈ ordered (asked trace) →
      payload.length ≤ 65535 := by
    intro session payload member
    apply fits session payload
    cases mem_append.mp member with
    | inl first => exact (mem_filter.mp first).1
    | inr later => exact (mem_filter.mp later).1
  constructor
  · exact fun both => (commitAll_iff holds paired ordered_fits).mp both.1
  · exact fun carried => ⟨(commitAll_iff holds paired ordered_fits).mpr carried, rfl⟩

end

/-- A login, a message to the same session, and a message and a disconnect for other ones. -/
def someRequests : List Request :=
  [.sendMessage 1 0, .sendMessage 2 1, .sendLoginSuccess 1, .change 2 [9], .disconnect 3 true]

/-- The bytevector at an address has the address in it. -/
def someMemory (msg : Address) : Bytes := [UInt8.ofNat msg]

/-- Sessions 1 and 3 are connected here. -/
def someClients (_ : Nat) (session : Oid) : Option Client :=
  if session = 2 then none else some (10 * session)

theorem side_effects_performed_some :
    ∃ trace transaction, Run Transaction.step anyAction (.begin someMemory) trace transaction ∧
      trace.map Prod.fst = someRequests ∧
      transaction.sessionCommit true someClients =
        [.sent 10 .loginSuccess, .sent 10 (.message [0]), .forwarded 2 (.message [1]),
          .sent 30 .disconnect] := by
  have run : Run Transaction.step anyAction (.begin someMemory) _ _ :=
    run_of_exec (show exec _ _ someRequests = some (_, _) from rfl)
  refine ⟨_, _, run, rfl, ?_⟩
  have performed := (side_effects_performed_iff run (by
    intro session payload member
    have small : (session, Delivery.message payload) ∈
        [(1, Delivery.message [0]), (2, .message [1]), (1, .loginSuccess), (3, .disconnect)] :=
      member
    simp only [mem_cons, Prod.mk.injEq, not_mem_nil, or_false] at small
    rcases small with ⟨_, same⟩ | ⟨_, same⟩ | ⟨_, same⟩ | ⟨_, same⟩ <;> cases same <;> decide)
    true someClients).mpr (by
      intro i item there
      rcases i with _ | _ | _ | _ | i
      · cases there
        decide
      · cases there
        decide
      · cases there
        decide
      · cases there
        decide
      · cases there)
  exact performed.1

/-- The client of a session that logs in has gone, on a node of a cluster. -/
theorem login_without_client : ∃ trace transaction,
    Run Transaction.step anyAction (.begin someMemory) trace transaction ∧
      trace.map Prod.fst = [.sendLoginSuccess 1] ∧
      transaction.sessionCommit true (fun _ _ => none) = [.crashed] ∧
      expected true (fun _ _ => none) (asked trace) = [.forwarded 1 .loginSuccess] := by
  have run : Run Transaction.step anyAction (.begin someMemory) _ _ :=
    run_of_exec (show exec _ _ [Request.sendLoginSuccess 1] = some (_, _) from rfl)
  exact ⟨_, _, run, rfl, rfl, rfl⟩

end Gzochi.Session
