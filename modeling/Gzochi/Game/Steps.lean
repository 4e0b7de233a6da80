import Gzochi.Game.Model

/-!
# What a step of a node does

One case for each thing that a step can do, and what holds of the clients and of their logins
whatever the order of the steps.
-/

namespace Gzochi.Game

open Option

open Data (Oid Address update update_same update_other)

/-- The session of a login. -/
def LoginStage.oid : LoginStage → Option Oid
  | .scheduled => none
  | .persisted oid | .executing oid _ | .failed oid | .lookedUp oid _ | .unmapped oid _ | .told oid
  | .executed oid _ | .present oid _ => some oid
  | .done oid _ => oid

/-- The login has put its session into the tables. -/
def LoginStage.inserted : LoginStage → Bool
  | .scheduled | .persisted _ => false
  | .executing _ _ | .failed _ | .lookedUp _ _ | .unmapped _ _ | .told _ | .executed _ _
  | .present _ _ => true
  | .done oid _ => oid.isSome

variable {node next : Node} {action : Action} {event : Option Event}

/-- The effects of steps. -/
inductive Does (node : Node) : Action → Node → Option Event → Prop where
  | accept {address : Address} (unused : node.unusedAddress address = true) :
      Does node (.accept address) (node.serverAccept address) none
  | loginRequest {client : Client} {gameClient : GameClient} {authenticated : Bool}
      (readable : node.readable client = some gameClient) :
      Does node (.loginRequest client authenticated)
        (node.dispatchLoginRequest client gameClient authenticated) none
  | logoutRequest {client : Client} {gameClient : GameClient}
      (readable : node.readable client = some gameClient) :
      Does node (.logoutRequest client) (node.dispatchLogoutRequest client gameClient).1
        (node.dispatchLogoutRequest client gameClient).2
  | sessionMessage {client : Client} {gameClient : GameClient} {msg : Bytes}
      (readable : node.readable client = some gameClient) :
      Does node (.sessionMessage client msg) (node.dispatchSessionMessage gameClient msg) none
  | clientError {client : Client} {gameClient : GameClient}
      (readable : node.readable client = some gameClient) :
      Does node (.clientError client) (node.clientError client gameClient).1
        (node.clientError client gameClient).2
  | setDisconnected {client : Client} {gameClient : GameClient}
      (mainThread : node.mainThread = some client)
      (there : node.clients client = some gameClient) :
      Does node .setDisconnected
        { node.setClient client { gameClient with disconnected := true } with mainThread := none }
        none
  | clientFree {client : Client} {gameClient : GameClient} (mainThread : node.mainThread = none)
      (there : node.clients client = some gameClient) (ended : gameClient.ended = true) :
      Does node (.clientFree client) (node.setClient client { gameClient with freed := true }) none
  | notPersisted {client : Client} (stage : node.logins client = some .scheduled) :
      Does node (.persist client none) (node.setLogin client (.done none false)) none
  | persisted {client : Client} {oid : Oid} (stage : node.logins client = some .scheduled)
      (fresh : node.allocated oid = false) :
      Does node (.persist client (some oid))
        { (node.setLogin client (.persisted oid)).setSession oid (some none) with
          allocated := update node.allocated oid true } none
  | insert {client : Client} {gameClient : GameClient} {oid : Oid}
      (stage : node.logins client = some (.persisted oid))
      (there : node.clients client = some gameClient) :
      Does node (.insert client) (node.insert client gameClient oid) none
  | listener {client : Client} {oid : Oid} {attempts : Nat} {handler : Handler}
      (stage : node.logins client = some (.executing oid attempts))
      (stored : node.sessions oid ≠ none) :
      Does node (.execute client (.listener handler))
        ((node.setLogin client (.executed oid true)).setSession oid (some (some handler)))
        (some (.loginCommitted oid handler))
  | refused {client : Client} {oid : Oid} {attempts : Nat}
      (stage : node.logins client = some (.executing oid attempts)) :
      Does node (.execute client .refused)
        ((node.setLogin client (.executed oid false)).setSession oid none) none
  | gone {client : Client} {oid : Oid} {attempts : Nat}
      (stage : node.logins client = some (.executing oid attempts)) :
      Does node (.execute client .gone) (node.setLogin client (.executed oid false)) none
  | again {client : Client} {oid : Oid} {attempts : Nat} {outcome : LoginOutcome}
      (stage : node.logins client = some (.executing oid attempts)) :
      Does node (.execute client outcome) (node.setLogin client (.executing oid (attempts + 1)))
        none
  | failed {client : Client} {oid : Oid} {attempts : Nat} {outcome : LoginOutcome}
      (stage : node.logins client = some (.executing oid attempts)) :
      Does node (.execute client outcome) (node.setLogin client (.failed oid)) none
  | lookup {client : Client} {oid : Oid} (stage : node.logins client = some (.failed oid)) :
      Does node (.lookup client)
        (node.setLogin client (.lookedUp oid (node.oidsToClients oid))) none
  | unmapNone {client : Client} {oid : Oid}
      (stage : node.logins client = some (.lookedUp oid none)) :
      Does node (.unmap client)
        { node.setLogin client (.unmapped oid none) with
          oidsToClients := update node.oidsToClients oid none } none
  | unmap {client other : Client} {gameClient : GameClient} {oid : Oid}
      (stage : node.logins client = some (.lookedUp oid (some other)))
      (there : node.clients other = some gameClient) :
      Does node (.unmap client)
        { node.setLogin client (.unmapped oid (some other)) with
          oidsToClients := update node.oidsToClients oid none
          clientsToOids := update node.clientsToOids gameClient.address none } none
  | tell {client other : Client} {oid : Oid}
      (stage : node.logins client = some (.unmapped oid (some other))) :
      Does node (.tell client) (node.setLogin client (.told oid)) none
  | endCatch {client : Client} {oid : Oid} (stage : node.logins client = some (.told oid)) :
      Does node (.endCatch client false) (node.setLogin client (.executed oid false)) none
  | endCatchRemoved {client : Client} {oid : Oid} (stage : node.logins client = some (.told oid)) :
      Does node (.endCatch client true)
        ((node.setLogin client (.executed oid false)).setSession oid none) none
  | checkPresent {client other : Client} {oid : Oid} {accepted : Bool}
      (stage : node.logins client = some (.executed oid accepted))
      (mapped : node.oidsToClients oid = some other) (metaclient : node.metaclient = true) :
      Does node (.check client) (node.setLogin client (.present oid accepted)) none
  | checkDone {client : Client} {oid : Oid} {accepted : Bool}
      (stage : node.logins client = some (.executed oid accepted))
      (either : node.oidsToClients oid = none ∨ node.metaclient = false) :
      Does node (.check client) (node.setLogin client (.done (some oid) accepted)) none
  | announce {client : Client} {oid : Oid} {accepted : Bool}
      (stage : node.logins client = some (.present oid accepted)) :
      Does node (.announce client) (node.setLogin client (.done (some oid) accepted))
        (some (.sessionConnected oid))
  | receive {place : Nat} {task : MessageTask} {garbage : Oid} {access : Access}
      {outcome : Outcome} (there : node.messages[place]? = some task) :
      Does node (.receive place garbage access outcome)
        (node.receive place task garbage access outcome).1
        (node.receive place task garbage access outcome).2
  | runDisconnect {place : Nat} {task : DisconnectTask} {removed : Bool} {outcome : Outcome}
      (there : node.disconnects[place]? = some task) :
      Does node (.runDisconnect place removed outcome)
        (node.runDisconnect place task removed outcome) none
  | removeSession {oid : Oid} : Does node (.removeSession oid) (node.setSession oid none) none

/-- Leaving changes the tables and submits a task. -/
theorem Node.leave_frame (node : Node) (gameClient : GameClient) :
    ∃ oidsToClients clientsToOids disconnects, (node.leave gameClient).1 = { node with
          oidsToClients := oidsToClients
          clientsToOids := clientsToOids
          disconnects := disconnects } := by
  unfold Node.leave Node.disconnected
  split
  next =>
    split
    next => exact ⟨_, _, _, rfl⟩
    next =>
      simp only
      split <;> exact ⟨_, _, _, rfl⟩
  next => exact ⟨_, _, _, rfl⟩

theorem Node.leave_clients (node : Node) (gameClient : GameClient) :
    (node.leave gameClient).1.clients = node.clients := by
  obtain ⟨_, _, _, same⟩ := node.leave_frame gameClient
  rw [same]

theorem Node.leave_sessions (node : Node) (gameClient : GameClient) :
    (node.leave gameClient).1.sessions = node.sessions := by
  obtain ⟨_, _, _, same⟩ := node.leave_frame gameClient
  rw [same]

theorem Node.clientError_sessions (node : Node) (client : Client) (gameClient : GameClient) :
    (node.clientError client gameClient).1.sessions = node.sessions := by
  unfold Node.clientError
  split
  next => rfl
  next => exact (node.setClient client { gameClient with ended := true }).leave_sessions gameClient

/-- A client that leaves is announced, if at all, as disconnected. -/
theorem Node.leave_event (node : Node) (gameClient : GameClient) {event : Event}
    (announced : (node.leave gameClient).2 = some event) :
    ∃ session, event = .sessionDisconnected session := by
  unfold Node.leave Node.disconnected at announced
  split at announced
  next =>
    split at announced
    next => cases announced
    next mapping _ =>
      simp only at announced
      split at announced
      next => cases announced
      next =>
        obtain ⟨_, announced⟩ := ite_none_right_eq_some.mp announced
        cases announced
        exact ⟨mapping.oid, rfl⟩
  next => cases announced

theorem Node.clientError_event (node : Node) (client : Client) (gameClient : GameClient)
    {event : Event} (announced : (node.clientError client gameClient).2 = some event) :
    ∃ session, event = .sessionDisconnected session := by
  unfold Node.clientError at announced
  split at announced
  next => cases announced
  next => exact Node.leave_event _ gameClient announced

variable {client : Client}

theorem does_of_execute {oid : Oid} {attempts : Nat} {outcome : LoginOutcome}
    (stage : node.logins client = some (.executing oid attempts))
    (taken : node.execute client oid attempts outcome = some (next, event)) :
    Does node (.execute client outcome) next event := by
  cases outcome with
  | listener handler =>
    obtain ⟨session, stored, same⟩ := map_eq_some_iff.mp taken
    cases same
    exact .listener stage (by rw [stored]; nofun)
  | refused =>
    obtain ⟨session, stored, same⟩ := map_eq_some_iff.mp taken
    cases same
    exact .refused stage
  | gone =>
    simp only [Node.execute] at taken
    split at taken
    next =>
      cases taken
      exact .gone stage
    next => cases taken
  | retry =>
    cases taken
    split
    next => exact .again stage
    next => exact .failed stage
  | failure =>
    cases taken
    exact .failed stage

theorem does_of_loginStep {stage : LoginStage} (known : node.logins client = some stage)
    (isLogin : action = .insert client ∨ action = .lookup client ∨ action = .unmap client ∨
      action = .tell client ∨ action = .check client ∨ action = .announce client)
    (taken : node.loginStep client stage action = some (next, event)) :
    Does node action next event := by
  rcases isLogin with rfl | rfl | rfl | rfl | rfl | rfl
  · cases stage with
    | persisted oid =>
      obtain ⟨gameClient, there, same⟩ := map_eq_some_iff.mp taken
      cases same
      exact .insert known there
    | _ => cases taken
  · cases stage with
    | failed oid =>
      cases taken
      exact .lookup known
    | _ => cases taken
  · cases stage with
    | lookedUp oid found =>
      obtain ⟨after, unmapped, same⟩ := map_eq_some_iff.mp taken
      cases same
      cases found with
      | none =>
        cases unmapped
        exact .unmapNone known
      | some other =>
        obtain ⟨gameClient, there, rfl⟩ := map_eq_some_iff.mp unmapped
        exact .unmap known there
    | _ => cases taken
  · cases stage with
    | unmapped oid found =>
      cases found with
      | none => cases taken
      | some other =>
        cases taken
        exact .tell known
    | _ => cases taken
  · cases stage with
    | executed oid accepted =>
      cases taken
      split
      next both =>
        obtain ⟨mapped, metaclient⟩ := Bool.and_eq_true_iff.mp both
        obtain ⟨other, mapped⟩ := isSome_iff_exists.mp mapped
        exact .checkPresent known mapped metaclient
      next notBoth =>
        apply Does.checkDone known
        cases mapped : node.oidsToClients oid with
        | none => exact .inl rfl
        | some other =>
          right
          cases metaclient : node.metaclient with
          | false => rfl
          | true =>
            rw [mapped, metaclient] at notBoth
            exact absurd rfl notBoth
    | _ => cases taken
  · cases stage with
    | present oid accepted =>
      cases taken
      exact .announce known
    | _ => cases taken

theorem does_of_step (taken : node.step action = some (next, event)) :
    Does node action next event := by
  cases action with
  | accept address =>
    obtain ⟨both, taken⟩ := ite_none_right_eq_some.mp taken
    cases taken
    exact .accept (Bool.and_eq_true_iff.mp both).2
  | loginRequest client authenticated =>
    obtain ⟨gameClient, readable, same⟩ := map_eq_some_iff.mp taken
    cases same
    exact .loginRequest readable
  | logoutRequest client =>
    obtain ⟨gameClient, readable, same⟩ := map_eq_some_iff.mp taken
    have isNext : (node.dispatchLogoutRequest client gameClient).1 = next := by rw [same]
    have isEvent : (node.dispatchLogoutRequest client gameClient).2 = event := by rw [same]
    rw [← isNext, ← isEvent]
    exact .logoutRequest readable
  | sessionMessage client msg =>
    obtain ⟨gameClient, readable, same⟩ := map_eq_some_iff.mp taken
    cases same
    exact .sessionMessage readable
  | clientError client =>
    obtain ⟨gameClient, readable, same⟩ := map_eq_some_iff.mp taken
    have isNext : (node.clientError client gameClient).1 = next := by rw [same]
    have isEvent : (node.clientError client gameClient).2 = event := by rw [same]
    rw [← isNext, ← isEvent]
    exact .clientError readable
  | setDisconnected =>
    simp only [Node.step] at taken
    split at taken
    next => cases taken
    next client mainThread =>
      obtain ⟨gameClient, there, same⟩ := map_eq_some_iff.mp taken
      cases same
      exact .setDisconnected mainThread there
  | clientFree client =>
    simp only [Node.step] at taken
    split at taken
    next gameClient mainThread there =>
      obtain ⟨both, taken⟩ := ite_none_right_eq_some.mp taken
      cases taken
      exact .clientFree mainThread there (Bool.and_eq_true_iff.mp both).1
    next => cases taken
  | persist client oid =>
    simp only [Node.step] at taken
    split at taken
    next => cases taken
    next stage known =>
      cases stage with
      | scheduled =>
        obtain ⟨after, persisted, same⟩ := map_eq_some_iff.mp taken
        cases same
        cases oid with
        | none =>
          cases persisted
          exact .notPersisted known
        | some oid =>
          obtain ⟨fresh, persisted⟩ := ite_none_left_eq_some.mp persisted
          cases persisted
          exact .persisted known (Bool.eq_false_iff.mpr fresh)
      | _ => cases taken
  | insert client | lookup client | unmap client | tell client | check client | announce client =>
    simp only [Node.step] at taken
    split at taken
    next => cases taken
    next stage known => exact does_of_loginStep known (by simp) taken
  | execute client outcome =>
    simp only [Node.step] at taken
    split at taken
    next => cases taken
    next stage known =>
      cases stage with
      | executing oid attempts => exact does_of_execute known taken
      | _ => cases taken
  | endCatch client removed =>
    simp only [Node.step] at taken
    split at taken
    next => cases taken
    next stage known =>
      cases stage with
      | told oid =>
        cases removed with
        | false =>
          cases taken
          exact .endCatch known
        | true =>
          cases taken
          exact .endCatchRemoved known
      | _ => cases taken
  | receive place garbage access outcome =>
    simp only [Node.step] at taken
    split at taken
    next => cases taken
    next task there =>
      obtain ⟨_, taken⟩ := ite_none_left_eq_some.mp taken
      have same := Option.some.inj taken
      have isNext : (node.receive place task garbage access outcome).1 = next := by rw [same]
      have isEvent : (node.receive place task garbage access outcome).2 = event := by rw [same]
      rw [← isNext, ← isEvent]
      exact .receive there
  | runDisconnect place removed outcome =>
    simp only [Node.step] at taken
    split at taken
    next => cases taken
    next task there =>
      obtain ⟨_, taken⟩ := ite_none_left_eq_some.mp taken
      cases taken
      exact .runDisconnect there
  | removeSession oid =>
    cases taken
    exact .removeSession

/-- What holds after every run. -/
structure Books (node : Node) : Prop where
  unborn : ∀ client, node.nextClient ≤ client → node.clients client = none
  loginKnown : ∀ client stage, node.logins client = some stage →
    ∃ gameClient, node.clients client = some gameClient ∧ gameClient.identity = true
  allocated : ∀ client stage oid, node.logins client = some stage → stage.oid = some oid →
    node.allocated oid = true
  apart : ∀ client other stage stage' oid, node.logins client = some stage →
    node.logins other = some stage' → stage.oid = some oid → stage'.oid = some oid →
    client = other
  owner : ∀ oid client, node.oidsToClients oid = some client →
    ∃ stage, node.logins client = some stage ∧ stage.oid = some oid ∧ stage.inserted = true
  found : ∀ client oid other, node.logins client = some (.lookedUp oid (some other)) →
    other = client
  freed : ∀ client gameClient, node.clients client = some gameClient →
    gameClient.freed = true → gameClient.ended = true
  addresses : ∀ client other gameClient gameClient', node.clients client = some gameClient →
    node.clients other = some gameClient' → gameClient.freed = false →
    gameClient'.freed = false → gameClient.address = gameClient'.address → client = other

namespace Books

theorem start (metaclient : Bool) : Books (.start metaclient) :=
  ⟨fun _ _ => rfl, nofun, nofun, nofun, nofun, nofun, nofun, nofun⟩

/-- The rest of a node does not matter. -/
theorem of_same (books : Books node) (clients : next.clients = node.clients)
    (nextClient : next.nextClient = node.nextClient) (logins : next.logins = node.logins)
    (allocated : ∀ oid, node.allocated oid = true → next.allocated oid = true)
    (owner : ∀ oid client, next.oidsToClients oid = some client →
      ∃ stage, node.logins client = some stage ∧ stage.oid = some oid ∧ stage.inserted = true) :
    Books next where
  unborn := by
    rw [clients, nextClient]
    exact books.unborn
  loginKnown := by
    rw [clients, logins]
    exact books.loginKnown
  allocated := by
    intro client stage oid known isOid
    rw [logins] at known
    exact allocated oid (books.allocated client stage oid known isOid)
  apart := by
    rw [logins]
    exact books.apart
  owner := by
    rw [logins]
    exact owner
  found := by
    rw [logins]
    exact books.found
  freed := by
    rw [clients]
    exact books.freed
  addresses := by
    rw [clients]
    exact books.addresses

variable {client : Client} {gameClient : GameClient}

variable (books : Books node)
include books

theorem setClient {gameClient' : GameClient} (there : node.clients client = some gameClient)
    (address : gameClient'.address = gameClient.address)
    (identity : gameClient.identity = true → gameClient'.identity = true)
    (notFreed : gameClient'.freed = false → gameClient.freed = false)
    (freed : gameClient'.freed = true → gameClient'.ended = true) :
    Books (node.setClient client gameClient') where
  unborn := by
    intro other beyond
    have apart : other ≠ client := by
      intro same
      rw [← same, books.unborn other beyond] at there
      cases there
    exact (update_other _ _ apart).trans (books.unborn other beyond)
  loginKnown := by
    intro other stage known
    obtain ⟨found, present, authenticated⟩ := books.loginKnown other stage known
    by_cases same : other = client
    · subst same
      rw [there] at present
      cases present
      exact ⟨gameClient', update_same _ _ _, identity authenticated⟩
    · exact ⟨found, (update_other _ _ same).trans present, authenticated⟩
  allocated := books.allocated
  apart := books.apart
  owner := books.owner
  found := books.found
  freed := by
    intro other found present
    by_cases same : other = client
    · subst same
      rw [show (node.setClient other gameClient').clients other = some gameClient' from
        update_same _ _ _] at present
      cases present
      exact freed
    · exact books.freed other found ((update_other _ _ same).symm.trans present)
  addresses := by
    have before : ∀ other found, (node.setClient client gameClient').clients other = some found →
        found.freed = false → ∃ old, node.clients other = some old ∧ old.freed = false ∧
          old.address = found.address := by
      intro other found present alive
      by_cases same : other = client
      · subst same
        rw [show (node.setClient other gameClient').clients other = some gameClient' from
          update_same _ _ _] at present
        cases present
        exact ⟨gameClient, there, notFreed alive, address.symm⟩
      · exact ⟨found, (update_other _ _ same).symm.trans present, alive, rfl⟩
    intro one two found found' present present' alive alive' same
    obtain ⟨old, was, wasAlive, wasAt⟩ := before one found present alive
    obtain ⟨old', was', wasAlive', wasAt'⟩ := before two found' present' alive'
    exact books.addresses one two old old' was was' wasAlive wasAlive'
      (wasAt.trans (same.trans wasAt'.symm))

/-- A login has got to a stage. -/
theorem putLogin (stage : LoginStage)
    (authenticated : ∃ gameClient, node.clients client = some gameClient ∧
      gameClient.identity = true) (fresh : ∀ oid, stage.oid = some oid → node.allocated oid = true ∧
      ∀ other stage', node.logins other = some stage' → stage'.oid = some oid → other = client)
    (kept : ∀ oid, node.oidsToClients oid = some client →
      stage.oid = some oid ∧ stage.inserted = true)
    (found : ∀ oid other, stage = .lookedUp oid (some other) → other = client) :
    Books (node.setLogin client stage) := by
  have here : (node.setLogin client stage).logins client = some stage := update_same _ _ _
  have others : ∀ other, other ≠ client →
      (node.setLogin client stage).logins other = node.logins other :=
    fun other apart => update_other _ _ apart
  exact {
    unborn := books.unborn
    loginKnown := by
      intro other stage' known
      by_cases same : other = client
      · rw [same]
        exact authenticated
      · rw [others other same] at known
        exact books.loginKnown other stage' known
    allocated := by
      intro other stage' oid known isOid
      by_cases same : other = client
      · rw [same, here] at known
        cases known
        exact (fresh oid isOid).1
      · rw [others other same] at known
        exact books.allocated other stage' oid known isOid
    apart := by
      intro one two stage₁ stage₂ oid known₁ known₂ isOid₁ isOid₂
      by_cases isOne : one = client
      · rw [isOne, here] at known₁
        cases known₁
        by_cases isTwo : two = client
        · exact isOne.trans isTwo.symm
        · rw [others two isTwo] at known₂
          exact isOne.trans ((fresh oid isOid₁).2 two stage₂ known₂ isOid₂).symm
      · rw [others one isOne] at known₁
        by_cases isTwo : two = client
        · rw [isTwo, here] at known₂
          cases known₂
          exact ((fresh oid isOid₂).2 one stage₁ known₁ isOid₁).trans isTwo.symm
        · rw [others two isTwo] at known₂
          exact books.apart one two stage₁ stage₂ oid known₁ known₂ isOid₁ isOid₂
    owner := by
      intro oid other mapped
      by_cases same : other = client
      · subst same
        exact ⟨stage, here, kept oid mapped⟩
      · obtain ⟨was, known, isOid, inserted⟩ := books.owner oid other mapped
        exact ⟨was, (others other same).trans known, isOid, inserted⟩
    found := by
      intro one oid other known
      by_cases same : one = client
      · rw [same, here] at known
        exact (found oid other (Option.some.inj known)).trans same.symm
      · rw [others one same] at known
        exact books.found one oid other known
    freed := books.freed
    addresses := books.addresses }

/-- A login goes on with its session. -/
theorem setLogin (stage : LoginStage) {old : LoginStage}
    (known : node.logins client = some old) (oid : stage.oid = old.oid)
    (inserted : old.inserted = true → stage.inserted = true)
    (found : ∀ oid other, stage = .lookedUp oid (some other) → other = client) :
    Books (node.setLogin client stage) := by
  apply books.putLogin stage (books.loginKnown client old known) _ _ found
  · intro oid' isOid
    rw [oid] at isOid
    exact ⟨books.allocated client old oid' known isOid, fun other stage' known' isOid' =>
      books.apart other client stage' old oid' known' known isOid' isOid⟩
  · intro oid' mapped
    obtain ⟨was, wasKnown, isOid, wasInserted⟩ := books.owner oid' client mapped
    rw [known] at wasKnown
    cases wasKnown
    exact ⟨oid.trans isOid, inserted wasInserted⟩

/-- Fewer sessions in the table. -/
theorem unmapOid (oid : Oid) :
    Books { node with oidsToClients := update node.oidsToClients oid none } := by
  refine books.of_same rfl rfl rfl (fun _ => id) ?_
  intro other client mapped
  by_cases same : other = oid
  · have absent : update node.oidsToClients oid none other = none := by
      rw [same]
      exact update_same _ _ _
    cases absent.symm.trans mapped
  · exact books.owner other client ((update_other _ _ same).symm.trans mapped)

omit books

variable {oid : Oid}

include books

/-- The session of a login in the table. -/
theorem mapOid {stage : LoginStage} (known : node.logins client = some stage)
    (isOid : stage.oid = some oid) (inserted : stage.inserted = true) :
    Books { node with oidsToClients := update node.oidsToClients oid (some client) } := by
  refine books.of_same rfl rfl rfl (fun _ => id) ?_
  intro other owner mapped
  by_cases same : other = oid
  · have isOwner : update node.oidsToClients oid (some client) other = some client := by
      rw [same]
      exact update_same _ _ _
    cases isOwner.symm.trans mapped
    exact ⟨stage, known, same ▸ isOid, inserted⟩
  · exact books.owner other owner ((update_other _ _ same).symm.trans mapped)

theorem unused {address : Address}
    (unused : node.unusedAddress address = true) (there : node.clients client = some gameClient)
    (alive : gameClient.freed = false) :
    gameClient.address ≠ address := by
  have below : client < node.nextClient := by
    apply Nat.lt_of_not_le
    intro beyond
    rw [books.unborn client beyond] at there
    cases there
  have tested := List.all_eq_true.mp unused client (List.mem_range.mpr below)
  rw [there] at tested
  simpa [alive] using tested

theorem serverAccept {address : Address}
    (unused : node.unusedAddress address = true) : Books (node.serverAccept address) := by
  have here : (node.serverAccept address).clients node.nextClient =
      some ⟨address, false, false, false, false⟩ := update_same _ _ _
  have others : ∀ client, client ≠ node.nextClient →
      (node.serverAccept address).clients client = node.clients client :=
    fun client apart => update_other _ _ apart
  have absent := books.unborn node.nextClient (Nat.le_refl _)
  exact {
    unborn := by
      intro client beyond
      have later : node.nextClient + 1 ≤ client := beyond
      rw [others client (by omega)]
      exact books.unborn client (by omega)
    loginKnown := by
      intro client stage known
      obtain ⟨gameClient, there, authenticated⟩ := books.loginKnown client stage known
      refine ⟨gameClient, ?_, authenticated⟩
      rw [others client, there]
      intro same
      rw [same, absent] at there
      cases there
    allocated := books.allocated
    apart := books.apart
    owner := books.owner
    found := books.found
    freed := by
      intro client gameClient there
      by_cases same : client = node.nextClient
      · rw [same, here] at there
        cases there
        exact nofun
      · rw [others client same] at there
        exact books.freed client gameClient there
    addresses := by
      intro one two found found' present present' alive alive' same
      by_cases isOne : one = node.nextClient
      · by_cases isTwo : two = node.nextClient
        · exact isOne.trans isTwo.symm
        · rw [isOne, here] at present
          cases present
          rw [others two isTwo] at present'
          exact absurd same.symm (books.unused unused present' alive')
      · rw [others one isOne] at present
        by_cases isTwo : two = node.nextClient
        · rw [isTwo, here] at present'
          cases present'
          exact absurd same (books.unused unused present alive)
        · rw [others two isTwo] at present'
          exact books.addresses one two found found' present present' alive alive' same }

theorem disconnected (gameClient : GameClient) : Books (node.disconnected gameClient).1 := by
  unfold Node.disconnected
  split
  next => exact books
  next mapping _ =>
    simp only
    split
    next => exact books.of_same rfl rfl rfl (fun _ => id) books.owner
    next =>
      have unmapped := books.unmapOid mapping.oid
      exact unmapped.of_same rfl rfl rfl (fun _ => id) unmapped.owner

theorem leave (gameClient : GameClient) : Books (node.leave gameClient).1 := by
  unfold Node.leave
  split
  next => exact books.disconnected gameClient
  next => exact books

theorem readable (readable : node.readable client = some gameClient) :
    node.mainThread = none ∧ node.clients client = some gameClient ∧
      gameClient.ended = false ∧ gameClient.freed = false := by
  simp only [Node.readable] at readable
  split at readable
  next found mainThread there =>
    obtain ⟨lives, readable⟩ := ite_none_left_eq_some.mp readable
    cases readable
    refine ⟨mainThread, there, Bool.eq_false_iff.mpr lives, ?_⟩
    cases freed : gameClient.freed with
    | false => rfl
    | true => exact absurd (books.freed client gameClient there freed) lives
  next => cases readable

/-- A client that is not authenticated is not in the tables. -/
theorem authenticated (there : node.clients client = some gameClient)
    (mapped : node.oidsToClients oid = some client) : gameClient.identity = true := by
  obtain ⟨stage, known, _⟩ := books.owner oid client mapped
  obtain ⟨found, present, identity⟩ := books.loginKnown client stage known
  rw [there] at present
  cases present
  exact identity

/-- A new login. -/
theorem schedule (there : node.clients client = some gameClient)
    (noIdentity : gameClient.identity = false) :
    Books ((node.setClient client { gameClient with identity := true }).setLogin client
      .scheduled) := by
  have noLogin : node.logins client = none := by
    cases known : node.logins client with
    | none => rfl
    | some stage =>
      obtain ⟨found, present, authenticated⟩ := books.loginKnown client stage known
      rw [there] at present
      cases present
      rw [noIdentity] at authenticated
      cases authenticated
  have clients : Books (node.setClient client { gameClient with identity := true }) :=
    books.setClient there rfl (fun _ => rfl) id (books.freed client gameClient there)
  apply clients.putLogin .scheduled ⟨_, update_same _ _ _, rfl⟩ nofun _ nofun
  intro oid mapped
  obtain ⟨was, known, _⟩ := books.owner oid client mapped
  rw [noLogin] at known
  cases known

/-- A new session. -/
theorem persist (stage : node.logins client = some .scheduled)
    (fresh : node.allocated oid = false) :
    Books { (node.setLogin client (.persisted oid)).setSession oid (some none) with
      allocated := update node.allocated oid true } := by
  have more : Books { node with allocated := update node.allocated oid true } := by
    refine books.of_same rfl rfl rfl ?_ books.owner
    intro other allocated
    by_cases same : other = oid
    · rw [same]
      exact update_same _ _ _
    · exact (update_other _ _ same).trans allocated
  have put : Books (Node.setLogin { node with allocated := update node.allocated oid true } client
      (.persisted oid)) := by
    apply more.putLogin (.persisted oid) (books.loginKnown client _ stage) _ _ nofun
    · intro other isOid
      cases isOid
      refine ⟨update_same _ _ _, ?_⟩
      intro other stage' known isOid
      have taken := books.allocated other stage' oid known isOid
      rw [fresh] at taken
      cases taken
    · intro other mapped
      obtain ⟨was, known, _, inserted⟩ := books.owner other client mapped
      rw [stage] at known
      cases known
      cases inserted
  exact put.of_same rfl rfl rfl (fun _ => id) put.owner

end Books

variable (books : Books node)
include books

/-- A login that has put its session into the tables goes on. -/
theorem Books.advance (stage : LoginStage) {old : LoginStage}
    (known : node.logins client = some old) (oid : stage.oid = old.oid)
    (inserted : stage.inserted = true) (notFound : ∀ oid found, stage ≠ .lookedUp oid found) :
    Books (node.setLogin client stage) := by
  apply books.setLogin stage known oid fun _ => inserted
  exact fun oid other isFound => absurd isFound (notFound oid (some other))

theorem Books.setSession (oid : Oid) (session : Option (Option Handler)) :
    Books (node.setSession oid session) :=
  books.of_same rfl rfl rfl (fun _ => id) books.owner

theorem Books.setMainThread (client : Option Client) : Books { node with mainThread := client } :=
  books.of_same rfl rfl rfl (fun _ => id) books.owner

theorem Books.setClientsToOids (clientsToOids : Address → Option Mapping) :
    Books { node with clientsToOids := clientsToOids } :=
  books.of_same rfl rfl rfl (fun _ => id) books.owner

theorem Books.step (taken : node.step action = some (next, event)) : Books next := by
  cases does_of_step taken with
  | accept unused => exact books.serverAccept unused
  | loginRequest readable =>
    have there := (books.readable readable).2.1
    unfold Node.dispatchLoginRequest
    split
    next => exact books
    next noIdentity =>
      split
      next => exact books.schedule there (Bool.eq_false_iff.mpr noIdentity)
      next => exact books
  | logoutRequest readable => exact (books.leave _).setMainThread _
  | sessionMessage readable =>
    unfold Node.dispatchSessionMessage
    split
    next =>
      split
      next => exact books
      next => exact books.of_same rfl rfl rfl (fun _ => id) books.owner
    next => exact books
  | @clientError client gameClient readable =>
    obtain ⟨_, there, _, notFreed⟩ := books.readable readable
    have past : Books (node.setClient client { gameClient with ended := true }) :=
      books.setClient there rfl id id fun _ => rfl
    unfold Node.clientError
    split
    next => exact past
    next => exact (past.leave _).setMainThread _
  | @setDisconnected client gameClient mainThread there =>
    have set : Books (node.setClient client { gameClient with disconnected := true }) :=
      books.setClient there rfl id id (books.freed client gameClient there)
    exact set.setMainThread none
  | clientFree mainThread there ended => exact books.setClient there rfl id nofun fun _ => ended
  | @notPersisted client stage =>
    apply books.putLogin (.done none false) (books.loginKnown client _ stage) nofun _ nofun
    intro oid mapped
    obtain ⟨was, known, _, inserted⟩ := books.owner oid client mapped
    rw [stage] at known
    cases known
    cases inserted
  | @persisted client oid stage fresh => exact books.persist stage fresh
  | @insert client gameClient oid stage there =>
    have put : Books (node.setLogin client (.executing oid 0)) :=
      books.advance (.executing oid 0) stage rfl rfl nofun
    have mapped := put.mapOid (update_same _ _ _) rfl rfl
    exact mapped.of_same rfl rfl rfl (fun _ => id) mapped.owner
  | listener stage stored =>
    exact (books.advance (.executed _ true) stage rfl rfl nofun).setSession _ _
  | refused stage | endCatchRemoved stage =>
    exact (books.advance (.executed _ false) stage rfl rfl nofun).setSession _ _
  | gone stage | endCatch stage => exact books.advance (.executed _ false) stage rfl rfl nofun
  | again stage => exact books.advance (.executing _ _) stage rfl rfl nofun
  | failed stage => exact books.advance (.failed _) stage rfl rfl nofun
  | @lookup client oid stage =>
    apply books.setLogin (.lookedUp oid (node.oidsToClients oid)) stage rfl fun _ => rfl
    intro oid' other isFound
    obtain ⟨rfl, mapped⟩ := LoginStage.lookedUp.inj isFound
    obtain ⟨was, known, isOid, _⟩ := books.owner oid other mapped
    exact books.apart other client was _ oid known stage isOid rfl
  | unmapNone stage => exact (books.advance (.unmapped _ none) stage rfl rfl nofun).unmapOid _
  | unmap stage there =>
    exact ((books.advance (.unmapped _ (some _)) stage rfl rfl nofun).unmapOid _).setClientsToOids _
  | tell stage => exact books.advance (.told _) stage rfl rfl nofun
  | checkPresent stage mapped metaclient => exact books.advance (.present _ _) stage rfl rfl nofun
  | checkDone stage either | announce stage =>
        exact books.advance (.done (some _) _) stage rfl rfl nofun
  | receive there =>
    unfold Node.receive
    simp only
    split <;> exact books.of_same rfl rfl rfl (fun _ => id) books.owner
  | runDisconnect there =>
    unfold Node.runDisconnect
    simp only
    split <;> exact books.of_same rfl rfl rfl (fun _ => id) books.owner
  | removeSession => exact books.setSession _ _

end Gzochi.Game
