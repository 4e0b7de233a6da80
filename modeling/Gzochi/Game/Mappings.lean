import Gzochi.Game.Steps

/-!
# The tables of sessions and clients

A login puts its session and its client into the tables when it gets to it, whatever has become
of the client since.  As long as every client that is put into the tables is still there, the
tables are inverse to one another and have no client whose connection has ended.
-/

namespace Gzochi.Game

open Lib
open Data (Oid Address update update_same update_other update_unchanged)

variable {node next : Node} {action : Action} {event : Option Event}

/-- A session has a client at an address exactly if the address has the session. -/
def MutuallyInverse (node : Node) : Prop :=
  ∀ oid address,
    (∃ client gameClient, node.oidsToClients oid = some client ∧
        node.clients client = some gameClient ∧ gameClient.address = address) ↔
      ∃ mapping, node.clientsToOids address = some mapping ∧ mapping.oid = oid

/-- The clients of sessions are connected. -/
def NoneEnded (node : Node) : Prop :=
  ∀ oid client, node.oidsToClients oid = some client →
    ∃ gameClient, node.clients client = some gameClient ∧ gameClient.ended = false

/-- The client that is put into the tables has neither logged out nor lost its connection, and the
client that is taken out of them by the task that catches a login is not another one that has got
its memory. -/
def clientStays (node : Node) : Action → Bool
  | .insert client =>
      match node.clients client with
      | some gameClient =>
          !gameClient.ended && !gameClient.disconnected && node.mainThread != some client
      | none => true
  | .unmap client =>
      match node.logins client with
      | some (.lookedUp oid (some other)) =>
          match node.clients other with
          | some gameClient =>
              match node.clientsToOids gameClient.address with
              | some mapping => mapping.oid == oid
              | none => true
          | none => true
      | _ => true
  | _ => true

/-- A client that is connected and has not logged out. -/
def Node.Stays (node : Node) (client : Client) : Prop :=
  ∃ gameClient, node.clients client = some gameClient ∧ gameClient.ended = false ∧
    gameClient.disconnected = false ∧ node.mainThread ≠ some client

structure Tables (node : Node) : Prop where
  stays : ∀ oid client, node.oidsToClients oid = some client → node.Stays client
  forth : ∀ oid client gameClient, node.oidsToClients oid = some client →
    node.clients client = some gameClient →
    ∃ mapping, node.clientsToOids gameClient.address = some mapping ∧ mapping.oid = oid
  back : ∀ address mapping, node.clientsToOids address = some mapping →
    ∃ client gameClient, node.oidsToClients mapping.oid = some client ∧
      node.clients client = some gameClient ∧ gameClient.address = address
  /-- A session that has been missing is not put into the tables later. -/
  missing : ∀ client oid, node.logins client = some (.lookedUp oid none) →
    node.oidsToClients oid = none

namespace Tables

theorem start (metaclient : Bool) : Tables (.start metaclient) :=
  ⟨nofun, nofun, nofun, nofun⟩

variable (tables : Tables node)
include tables

theorem mutuallyInverse : MutuallyInverse node := by
  intro oid address
  constructor
  · intro ⟨client, gameClient, mapped, there, isAddress⟩
    rw [← isAddress]
    exact tables.forth oid client gameClient mapped there
  · intro ⟨mapping, mapped, isOid⟩
    rw [← isOid]
    exact tables.back address mapping mapped

theorem noneEnded : NoneEnded node := by
  intro oid client mapped
  obtain ⟨gameClient, there, ended, _⟩ := tables.stays oid client mapped
  exact ⟨gameClient, there, ended⟩

/-- The rest of a node does not matter. -/
theorem of_same (clients : next.clients = node.clients)
    (oidsToClients : next.oidsToClients = node.oidsToClients)
    (clientsToOids : next.clientsToOids = node.clientsToOids)
    (mainThread : ∀ oid client, node.oidsToClients oid = some client →
      next.mainThread ≠ some client)
    (logins : ∀ client oid, next.logins client = some (.lookedUp oid none) →
      node.oidsToClients oid = none) : Tables next where
  stays := by
    intro oid client mapped
    rw [oidsToClients] at mapped
    obtain ⟨gameClient, there, ended, connected, _⟩ := tables.stays oid client mapped
    exact ⟨gameClient, clients ▸ there, ended, connected, mainThread oid client mapped⟩
  forth := by
    rw [oidsToClients, clients, clientsToOids]
    exact tables.forth
  back := by
    rw [oidsToClients, clients, clientsToOids]
    exact tables.back
  missing := by
    rw [oidsToClients]
    exact logins

/-- A client in the tables does not have the attention of the main thread. -/
theorem unattended (oid : Oid) (client : Client)
    (mapped : node.oidsToClients oid = some client) : node.mainThread ≠ some client := by
  obtain ⟨_, _, _, _, apart⟩ := tables.stays oid client mapped
  exact apart

omit tables

variable {client : Client}

include tables

theorem setLogin (stage : LoginStage)
    (missing : ∀ oid, stage = .lookedUp oid none → node.oidsToClients oid = none) :
    Tables (node.setLogin client stage) := by
  refine tables.of_same rfl rfl rfl tables.unattended ?_
  intro other oid known
  by_cases same : other = client
  · have here : (node.setLogin client stage).logins other = some stage := by
      rw [same]
      exact update_same _ _ _
    exact missing oid (Option.some.inj (here.symm.trans known))
  · exact tables.missing other oid ((update_other _ _ same).symm.trans known)

theorem setSession (oid : Oid) (session : Option (Option Handler)) :
    Tables (node.setSession oid session) :=
  tables.of_same rfl rfl rfl tables.unattended tables.missing

theorem setMainThread {client : Option Client}
    (notMapped : ∀ oid other, node.oidsToClients oid = some other → client ≠ some other) :
    Tables { node with mainThread := client } :=
  tables.of_same rfl rfl rfl notMapped tables.missing

omit tables

variable {gameClient : GameClient}

include tables

theorem setClient (gameClient' : GameClient) (there : node.clients client = some gameClient)
    (address : gameClient'.address = gameClient.address)
    (stays : ∀ oid, node.oidsToClients oid = some client →
      gameClient'.ended = false ∧ gameClient'.disconnected = false) :
    Tables (node.setClient client gameClient') := by
  have here : (node.setClient client gameClient').clients client = some gameClient' :=
    update_same _ _ _
  have others : ∀ other, other ≠ client →
      (node.setClient client gameClient').clients other = node.clients other :=
    fun other apart => update_other _ _ apart
  exact {
    stays := by
      intro oid other mapped
      obtain ⟨found, present, ended, connected, apart⟩ := tables.stays oid other mapped
      by_cases same : other = client
      · rw [same] at mapped apart ⊢
        exact ⟨gameClient', here, (stays oid mapped).1, (stays oid mapped).2, apart⟩
      · exact ⟨found, (others other same).trans present, ended, connected, apart⟩
    forth := by
      intro oid other found mapped present
      by_cases same : other = client
      · rw [same] at mapped present
        cases here.symm.trans present
        rw [address]
        exact tables.forth oid client gameClient mapped there
      · exact tables.forth oid other found mapped ((others other same).symm.trans present)
    back := by
      intro place mapping mapped
      obtain ⟨other, found, isMapped, present, isAddress⟩ := tables.back place mapping mapped
      by_cases same : other = client
      · rw [same] at isMapped present
        cases there.symm.trans present
        exact ⟨client, gameClient', isMapped, here, address.trans isAddress⟩
      · exact ⟨other, found, isMapped, (others other same).trans present, isAddress⟩
    missing := tables.missing }

/-- The session of a client that has not been freed is the one that its address has. -/
theorem ownMapping (books : Books node) {mapping : Mapping}
    (there : node.clients client = some gameClient) (alive : gameClient.freed = false)
    (mapped : node.clientsToOids gameClient.address = some mapping) :
    node.oidsToClients mapping.oid = some client := by
  obtain ⟨other, found, isMapped, present, isAddress⟩ := tables.back _ mapping mapped
  obtain ⟨found', present', ended, _⟩ := tables.stays mapping.oid other isMapped
  cases present.symm.trans present'
  have foundAlive : found.freed = false := by
    cases freed : found.freed with
    | false => rfl
    | true =>
      rw [books.freed other found present freed] at ended
      cases ended
  rw [books.addresses client other gameClient found there present alive foundAlive isAddress.symm]
  exact isMapped

/-- Both entries of a client are taken out. -/
theorem unmap {oid : Oid} (mapped : node.oidsToClients oid = some client)
    (there : node.clients client = some gameClient) :
    Tables { node with
      oidsToClients := update node.oidsToClients oid none
      clientsToOids := update node.clientsToOids gameClient.address none } := by
  have absent : update node.oidsToClients oid none oid = none := update_same _ _ _
  have others : ∀ other, other ≠ oid →
      update node.oidsToClients oid none other = node.oidsToClients other :=
    fun other apart => update_other _ _ apart
  obtain ⟨mapping, isMapping, isOid⟩ := tables.forth oid client gameClient mapped there
  have still : ∀ other owner, update node.oidsToClients oid none other = some owner →
      other ≠ oid ∧ node.oidsToClients other = some owner := by
    intro other owner present
    by_cases same : other = oid
    · rw [same, absent] at present
      cases present
    · exact ⟨same, (others other same).symm.trans present⟩
  exact {
    stays := by
      intro other owner present
      exact tables.stays other owner (still other owner present).2
    forth := by
      intro other owner found present isOwner
      obtain ⟨apart, wasMapped⟩ := still other owner present
      obtain ⟨mapping', isMapping', isOther⟩ := tables.forth other owner found wasMapped isOwner
      refine ⟨mapping', ?_, isOther⟩
      have elsewhere : found.address ≠ gameClient.address := by
        intro same
        rw [same, isMapping] at isMapping'
        cases isMapping'
        exact apart (isOther.symm.trans isOid)
      exact (update_other _ _ elsewhere).trans isMapping'
    back := by
      intro address mapping' present
      by_cases same : address = gameClient.address
      · have gone : update node.clientsToOids gameClient.address none address = none := by
          rw [same]
          exact update_same _ _ _
        cases gone.symm.trans present
      · have was := (update_other _ _ same).symm.trans present
        obtain ⟨owner, found, isMapped, isOwner, isAddress⟩ := tables.back address mapping' was
        have apart : mapping'.oid ≠ oid := by
          intro sameOid
          rw [sameOid, mapped] at isMapped
          cases isMapped
          cases there.symm.trans isOwner
          exact same isAddress.symm
        exact ⟨owner, found, (others _ apart).trans isMapped, isOwner, isAddress⟩
    missing := by
      intro owner other known
      by_cases same : other = oid
      · rw [same]
        exact absent
      · exact (others other same).trans (tables.missing owner other known) }

variable (books : Books node)
include books

theorem serverAccept (address : Address) : Tables (node.serverAccept address) := by
  have others : ∀ client gameClient, node.clients client = some gameClient →
      (node.serverAccept address).clients client = some gameClient := by
    intro client gameClient there
    have apart : client ≠ node.nextClient := by
      intro same
      rw [same, books.unborn node.nextClient (Nat.le_refl _)] at there
      cases there
    exact (update_other _ _ apart).trans there
  exact {
    stays := by
      intro oid client mapped
      obtain ⟨gameClient, there, rest⟩ := tables.stays oid client mapped
      exact ⟨gameClient, others client gameClient there, rest⟩
    forth := by
      intro oid client gameClient mapped there
      obtain ⟨found, present, _⟩ := tables.stays oid client mapped
      cases there.symm.trans (others client found present)
      exact tables.forth oid client gameClient mapped present
    back := by
      intro place mapping mapped
      obtain ⟨client, gameClient, isMapped, there, isAddress⟩ := tables.back place mapping mapped
      exact ⟨client, gameClient, isMapped, others client gameClient there, isAddress⟩
    missing := tables.missing }

/-- A client that leaves is taken out of the tables. -/
theorem disconnected
    (there : node.clients client = some gameClient) (alive : gameClient.freed = false) :
    Tables (node.disconnected gameClient).1 ∧
      ∀ oid, (node.disconnected gameClient).1.oidsToClients oid ≠ some client := by
  unfold Node.disconnected
  split
  next absent =>
    constructor
    · exact tables
    · intro oid mapped
      obtain ⟨mapping, present, _⟩ := tables.forth oid client gameClient mapped there
      rw [absent] at present
      cases present
  next mapping present =>
    have mapped := tables.ownMapping books there alive present
    simp only [mapped]
    constructor
    · exact (tables.unmap mapped there).of_same rfl rfl rfl (tables.unmap mapped there).unattended
        (tables.unmap mapped there).missing
    · intro oid still
      by_cases same : oid = mapping.oid
      · have gone : update node.oidsToClients mapping.oid none oid = none := by
          rw [same]
          exact update_same _ _ _
        cases gone.symm.trans still
      · have was := (update_other _ _ same).symm.trans still
        obtain ⟨mapping', present', isOid⟩ := tables.forth oid client gameClient was there
        rw [present] at present'
        cases present'
        exact same isOid.symm

theorem leave (there : node.clients client = some gameClient) (alive : gameClient.freed = false) :
    Tables (node.leave gameClient).1 ∧
      ∀ oid, (node.leave gameClient).1.oidsToClients oid ≠ some client := by
  unfold Node.leave
  split
  next => exact tables.disconnected books there alive
  next notAuthenticated =>
    exact ⟨tables, fun oid mapped =>
      notAuthenticated (books.authenticated there mapped)⟩

/-- A client that is there is put into the tables. -/
theorem insert {oid : Oid} (stage : node.logins client = some (.persisted oid))
    (there : node.clients client = some gameClient) (connected : gameClient.ended = false)
    (stays : gameClient.disconnected = false) (unattended : node.mainThread ≠ some client) :
    Tables (node.insert client gameClient oid) := by
  have alive : gameClient.freed = false := by
    cases freed : gameClient.freed with
    | false => rfl
    | true =>
      rw [books.freed client gameClient there freed] at connected
      cases connected
  have notMapped : ∀ other, node.oidsToClients other ≠ some client := by
    intro other mapped
    obtain ⟨was, known, _, inserted⟩ := books.owner other client mapped
    rw [stage] at known
    cases known
    cases inserted
  have free : node.clientsToOids gameClient.address = none := by
    cases present : node.clientsToOids gameClient.address with
    | none => rfl
    | some mapping => exact absurd (tables.ownMapping books there alive present) (notMapped _)
  have unused : node.oidsToClients oid = none := by
    cases mapped : node.oidsToClients oid with
    | none => rfl
    | some owner =>
      obtain ⟨was, known, isOid, _⟩ := books.owner oid owner mapped
      have same := books.apart owner client was _ oid known stage isOid rfl
      exact absurd (same ▸ mapped) (notMapped oid)
  have here : (node.insert client gameClient oid).oidsToClients oid = some client :=
    update_same _ _ _
  have others : ∀ other, other ≠ oid →
      (node.insert client gameClient oid).oidsToClients other = node.oidsToClients other :=
    fun other apart => update_other _ _ apart
  have isMapping : (node.insert client gameClient oid).clientsToOids gameClient.address =
      some ⟨node.nextCell, oid⟩ := update_same _ _ _
  have elsewhere : ∀ address, address ≠ gameClient.address →
      (node.insert client gameClient oid).clientsToOids address = node.clientsToOids address :=
    fun address apart => update_other _ _ apart
  exact {
    stays := by
      intro other owner mapped
      by_cases same : other = oid
      · rw [same, here] at mapped
        cases mapped
        exact ⟨gameClient, there, connected, stays, unattended⟩
      · exact tables.stays other owner ((others other same).symm.trans mapped)
    forth := by
      intro other owner found mapped present
      by_cases same : other = oid
      · rw [same, here] at mapped
        cases mapped
        cases there.symm.trans present
        exact ⟨_, isMapping, same.symm⟩
      · rw [others other same] at mapped
        obtain ⟨mapping, wasMapping, isOther⟩ := tables.forth other owner found mapped present
        refine ⟨mapping, ?_, isOther⟩
        rw [elsewhere _ ?_, wasMapping]
        intro sameAddress
        rw [sameAddress, free] at wasMapping
        cases wasMapping
    back := by
      intro address mapping mapped
      by_cases same : address = gameClient.address
      · rw [same, isMapping] at mapped
        cases mapped
        exact ⟨client, gameClient, here, there, same.symm⟩
      · rw [elsewhere address same] at mapped
        obtain ⟨owner, found, isMapped, present, isAddress⟩ := tables.back address mapping mapped
        refine ⟨owner, found, ?_, present, isAddress⟩
        rw [others _ ?_, isMapped]
        intro sameOid
        rw [sameOid, unused] at isMapped
        cases isMapped
    missing := by
      intro owner other known
      by_cases isClient : owner = client
      · have now : (node.insert client gameClient oid).logins owner = some (.executing oid 0) := by
          rw [isClient]
          exact update_same _ _ _
        cases now.symm.trans known
      · have was : node.logins owner = some (.lookedUp other none) :=
          (update_other _ _ isClient).symm.trans known
        by_cases same : other = oid
        · exact absurd (books.apart owner client _ _ oid was stage (congrArg some same) rfl)
            isClient
        · exact (others other same).trans (tables.missing owner other was) }

/-- The task that catches a login finds the client of the login. -/
theorem unmapFound {other : Client} {oid : Oid}
    (stage : node.logins client = some (.lookedUp oid (some other)))
    (there : node.clients other = some gameClient)
    (own : ∀ mapping, node.clientsToOids gameClient.address = some mapping → mapping.oid = oid) :
    Tables { node with
      oidsToClients := update node.oidsToClients oid none
      clientsToOids := update node.clientsToOids gameClient.address none } := by
  have isClient := books.found client oid other stage
  subst isClient
  cases mapped : node.oidsToClients oid with
  | some owner =>
    obtain ⟨was, known, isOid, _⟩ := books.owner oid owner mapped
    have same := books.apart owner other was _ oid known stage isOid rfl
    exact tables.unmap (same ▸ mapped) there
  | none =>
    have free : node.clientsToOids gameClient.address = none := by
      cases present : node.clientsToOids gameClient.address with
      | none => rfl
      | some mapping =>
        obtain ⟨owner, _, isMapped, _⟩ := tables.back _ mapping present
        rw [own mapping present, mapped] at isMapped
        cases isMapped
    have sameOids : update node.oidsToClients oid none = node.oidsToClients := by
      rw [← mapped, update_unchanged]
    have sameAddresses :
        update node.clientsToOids gameClient.address none = node.clientsToOids := by
      rw [← free, update_unchanged]
    rw [sameOids, sameAddresses]
    exact tables

end Tables

/-- It does not matter for the tables when the connection is marked as ended. -/
theorem Node.leave_setClient (node : Node) (client : Client) (gameClient found : GameClient) :
    ((node.setClient client found).leave gameClient).1 =
      (node.leave gameClient).1.setClient client found := by
  unfold Node.leave Node.disconnected
  split
  next =>
    have sameOids : (node.setClient client found).oidsToClients = node.oidsToClients := rfl
    rw [show (node.setClient client found).clientsToOids = node.clientsToOids from rfl]
    cases node.clientsToOids gameClient.address with
    | none => rfl
    | some mapping =>
      simp only [sameOids]
      cases node.oidsToClients mapping.oid with
      | none => rfl
      | some other => rfl
  next => rfl

theorem Tables.step (tables : Tables node) (books : Books node)
    (permitted : clientStays node action = true)
    (taken : node.step action = some (next, event)) : Tables next := by
  cases does_of_step taken with
  | accept unused => exact tables.serverAccept books _
  | @loginRequest client gameClient authenticated readable =>
    obtain ⟨_, there, ended, alive⟩ := books.readable readable
    unfold Node.dispatchLoginRequest
    split
    next => exact tables
    next noIdentity =>
      split
      next =>
        have set : Tables (node.setClient client { gameClient with identity := true }) := by
          apply tables.setClient { gameClient with identity := true } there rfl
          intro oid mapped
          exact absurd (books.authenticated there mapped) noIdentity
        exact set.setLogin .scheduled nofun
      next => exact tables
  | logoutRequest readable =>
    obtain ⟨_, there, _, alive⟩ := books.readable readable
    obtain ⟨left, notMapped⟩ := tables.leave books there alive
    apply left.setMainThread
    intro oid other mapped isClient
    cases isClient
    exact notMapped oid mapped
  | sessionMessage readable =>
    unfold Node.dispatchSessionMessage
    split
    next =>
      split
      next => exact tables
      next => exact tables.of_same rfl rfl rfl tables.unattended tables.missing
    next => exact tables
  | @clientError client gameClient readable =>
    obtain ⟨_, there, _, alive⟩ := books.readable readable
    unfold Node.clientError
    split
    next loggedOut =>
      apply tables.setClient { gameClient with ended := true } there rfl
      intro oid mapped
      obtain ⟨found, present, _, connected, _⟩ := tables.stays oid client mapped
      cases there.symm.trans present
      rw [loggedOut] at connected
      cases connected
    next =>
      obtain ⟨left, notMapped⟩ := tables.leave books there alive
      have past : Tables ((node.setClient client { gameClient with ended := true }).leave
          gameClient).1 := by
        have still : (node.leave gameClient).1.clients client = some gameClient := by
          rw [Node.leave_clients]
          exact there
        rw [Node.leave_setClient]
        exact left.setClient _ still rfl fun oid mapped => absurd mapped (notMapped oid)
      apply past.setMainThread
      intro oid other mapped isClient
      cases isClient
      rw [Node.leave_setClient] at mapped
      exact notMapped oid mapped
  | @setDisconnected client gameClient mainThread there =>
    have notMapped : ∀ oid, node.oidsToClients oid ≠ some client :=
      fun oid mapped => tables.unattended oid client mapped mainThread
    have set : Tables (node.setClient client { gameClient with disconnected := true }) :=
      tables.setClient _ there rfl fun oid mapped => absurd mapped (notMapped oid)
    exact set.setMainThread nofun
  | @clientFree client gameClient mainThread there ended =>
    apply tables.setClient { gameClient with freed := true } there rfl
    intro oid mapped
    obtain ⟨found, present, notEnded, _⟩ := tables.stays oid client mapped
    cases there.symm.trans present
    rw [ended] at notEnded
    cases notEnded
  | notPersisted stage => exact tables.setLogin (.done none false) nofun
  | @persisted client oid stage fresh =>
    have put : Tables (node.setLogin client (.persisted oid)) :=
      tables.setLogin (.persisted oid) nofun
    have set := put.setSession oid (some none)
    exact set.of_same rfl rfl rfl set.unattended set.missing
  | insert stage there =>
    simp only [clientStays, there, Bool.and_eq_true, Bool.not_eq_true', bne_iff_ne] at permitted
    exact tables.insert books stage there permitted.1.1 permitted.1.2 permitted.2
  | listener stage stored => exact (tables.setLogin (.executed _ true) nofun).setSession _ _
  | refused stage | endCatchRemoved stage =>
        exact (tables.setLogin (.executed _ false) nofun).setSession _ _
  | gone stage | endCatch stage => exact tables.setLogin (.executed _ false) nofun
  | again stage => exact tables.setLogin (.executing _ _) nofun
  | failed stage => exact tables.setLogin (.failed _) nofun
  | @lookup client oid stage =>
    apply tables.setLogin (.lookedUp oid (node.oidsToClients oid))
    intro oid' isMissing
    obtain ⟨rfl, absent⟩ := LoginStage.lookedUp.inj isMissing
    exact absent
  | @unmapNone client oid stage =>
    have same : update node.oidsToClients oid none = node.oidsToClients := by
      rw [← tables.missing client oid stage, update_unchanged]
    rw [same]
    exact tables.setLogin (.unmapped oid none) nofun
  | @unmap client other gameClient oid stage there =>
    have unmapped := tables.unmapFound books stage there (by
      intro mapping present
      simpa [clientStays, stage, there, present] using permitted)
    exact unmapped.setLogin (.unmapped oid (some other)) nofun
  | tell stage => exact tables.setLogin (.told _) nofun
  | checkPresent stage mapped metaclient => exact tables.setLogin (.present _ _) nofun
  | checkDone stage either | announce stage => exact tables.setLogin (.done (some _) _) nofun
  | receive there =>
    unfold Node.receive
    simp only
    split <;> exact tables.of_same rfl rfl rfl tables.unattended tables.missing
  | runDisconnect there =>
    unfold Node.runDisconnect
    simp only
    split <;> exact tables.of_same rfl rfl rfl tables.unattended tables.missing
  | removeSession => exact tables.setSession _ _

/-- In every run in which clients stay until they are in the tables, the tables are inverse to one
another and have only clients that are connected. -/
theorem mappings_of_connected_clients {metaclient : Bool} {trace : List (Action × Option Event)}
    (run : Run Node.step (fun node action => clientStays node action = true) (.start metaclient)
      trace node) :
    MutuallyInverse node ∧ NoneEnded node := by
  have both : Books node ∧ Tables node := by
    apply run.state_invariant (fun node => Books node ∧ Tables node)
    · exact ⟨.start metaclient, .start metaclient⟩
    · intro node action next event holds permitted taken
      exact ⟨holds.1.step taken, holds.2.step holds.1 permitted taken⟩
  exact ⟨both.2.mutuallyInverse, both.2.noneEnded⟩

/-- A client logs in at the second attempt. -/
def secondAttempt : List Action :=
  [.accept 70, .loginRequest 0 true, .persist 0 (some 5), .insert 0, .execute 0 .retry,
    .execute 0 (.listener ⟨8, 9⟩), .check 0]

theorem mappings_of_connected_clients_login :
    ∃ node, node.oidsToClients 5 = some 0 ∧ MutuallyInverse node ∧ NoneEnded node :=
  ⟨_, rfl, mappings_of_connected_clients (run_of_tested_exec
    (show exec _ (Node.start false) secondAttempt = some (_, _) from rfl))⟩

/-- A client loses its connection before its login gets to the tables. -/
def lateLogin : List Action :=
  [.accept 70, .loginRequest 0 true, .clientError 0, .setDisconnected, .persist 0 (some 5),
    .insert 0]

/-- A client that loses its connection before its login is in the tables stays in them. -/
theorem ended_client_mapped : ∃ trace node, Run Node.step anyAction (.start false) trace node ∧
      node.oidsToClients 5 = some 0 ∧ ¬NoneEnded node := by
  refine ⟨_, _, run_of_exec (show exec _ _ lateLogin = some (_, _) from rfl), rfl, ?_⟩
  intro noneEnded
  obtain ⟨gameClient, there, connected⟩ := noneEnded 5 0 rfl
  cases there
  cases connected

end Gzochi.Game
