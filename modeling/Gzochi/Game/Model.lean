import Gzochi.Data.References

/-!
# The clients of an application server node

Clients send frames to the main thread of the game server; logins, messages and disconnects are
tasks that other threads run later, in any order.  Two tables say which session belongs to which
client, and the sessions themselves are stored.

A client is told by the order in which it has been accepted, and its address is used again when
it has been freed.  The tables compare addresses.  The id of a session in the second table is in
memory of its own, which is freed with the entry.
-/

namespace Gzochi.Game

open Data (Oid Address update)

abbrev Client := Nat
abbrev Bytes := List UInt8

/-- The id of a callback object. -/
abbrev Callback := Oid

/-- `gzochid_client_session_handler`. -/
structure Handler where
  receivedMessage : Callback
  disconnected : Callback
  deriving DecidableEq

/-- `gzochid_game_client`, with its address, whether its connection has ended and whether it has
been freed. -/
structure GameClient where
  address : Address
  identity : Bool
  disconnected : Bool
  ended : Bool
  freed : Bool
  deriving DecidableEq

/-- An entry of `clients_to_oids`: the id and the memory that it is in. -/
structure Mapping where
  cell : Nat
  oid : Oid
  deriving DecidableEq

/-- Where the task of a login is: `logged_in_task` and its transactional stage, with the session
once there is one and, in the end, whether the login callback has returned a listener. -/
inductive LoginStage where
  | scheduled
  | persisted (oid : Oid)
  | executing (oid : Oid) (attempts : Nat)
  | failed (oid : Oid)
  | lookedUp (oid : Oid) (client : Option Client)
  | unmapped (oid : Oid) (client : Option Client)
  | told (oid : Oid)
  | executed (oid : Oid) (accepted : Bool)
  | present (oid : Oid) (accepted : Bool)
  | done (oid : Option Oid) (accepted : Bool)
  deriving DecidableEq

/-- The task of a message: where the id of the session was when the message came, and whose
message it is. -/
structure MessageTask where
  address : Address
  cell : Nat
  session : Oid
  msg : Bytes
  attempts : Nat
  finished : Bool
  deriving DecidableEq

/-- The task of a disconnect, with an id of its own. -/
structure DisconnectTask where
  oid : Oid
  attempts : Nat
  catching : Bool
  finished : Bool
  deriving DecidableEq

/-- One application on one node. -/
structure Node where
  metaclient : Bool
  clients : Client → Option GameClient
  nextClient : Nat
  oidsToClients : Oid → Option Client
  clientsToOids : Address → Option Mapping
  nextCell : Nat
  logins : Client → Option LoginStage
  messages : List MessageTask
  disconnects : List DisconnectTask
  /-- The client whose `disconnected` flag the main thread is about to set. -/
  mainThread : Option Client
  /-- The ids that have been given out. -/
  allocated : Oid → Bool
  /-- The stored sessions, with their handlers. -/
  sessions : Oid → Option (Option Handler)

/-- What the other parts of the server, or the meta server, can see. -/
inductive Event where
  | sessionConnected (session : Oid)
  | sessionDisconnected (session : Oid)
  | loginCommitted (session : Oid) (handler : Handler)
  | handlerCalled (session read : Oid) (callback : Callback)
  | absentHandler (session read : Oid)
  deriving DecidableEq

/-- How an attempt of the login task ends. -/
inductive LoginOutcome where
  | listener (handler : Handler)
  | refused
  | gone
  | retry
  | failure
  deriving DecidableEq

/-- How an attempt of another task ends. -/
inductive Outcome where
  | success
  | retry
  | failure
  deriving DecidableEq

/-- What the task of a message finds when its session has a handler. -/
inductive Access where
  | refused
  | noCallback
  | callback
  deriving DecidableEq

/-- The steps of the threads.  Frames and connection errors come to the main thread; the step of
a task names the client or the place of the task. -/
inductive Action where
  | accept (address : Address)
  | loginRequest (client : Client) (authenticated : Bool)
  | logoutRequest (client : Client)
  | sessionMessage (client : Client) (msg : Bytes)
  | clientError (client : Client)
  | setDisconnected
  | clientFree (client : Client)
  | persist (client : Client) (oid : Option Oid)
  | insert (client : Client)
  | execute (client : Client) (outcome : LoginOutcome)
  | lookup (client : Client)
  | unmap (client : Client)
  | tell (client : Client)
  | endCatch (client : Client) (removed : Bool)
  | check (client : Client)
  | announce (client : Client)
  | receive (task : Nat) (garbage : Oid) (access : Access) (outcome : Outcome)
  | runDisconnect (task : Nat) (removed : Bool) (outcome : Outcome)
  | removeSession (oid : Oid)
  deriving DecidableEq

/-- `GZOCHID_APPLICATION_MAX_ATTEMPTS_DEFAULT`. -/
def maxAttempts : Nat := 3

/-- A task that is attempted again, or not. -/
def MessageTask.attempted (task : MessageTask) : Outcome → MessageTask
  | .success | .failure => { task with attempts := task.attempts + 1, finished := true }
  | .retry =>
      { task with
        attempts := task.attempts + 1
        finished := !decide (task.attempts + 1 < maxAttempts) }

/-- The task of a disconnect after an attempt: it catches its failure once. -/
def DisconnectTask.attempted (task : DisconnectTask) : Outcome → DisconnectTask
  | .success => { task with finished := true }
  | .retry =>
      if task.catching then { task with finished := true }
      else if task.attempts + 1 < maxAttempts then { task with attempts := task.attempts + 1 }
      else { task with catching := true }
  | .failure =>
      if task.catching then { task with finished := true } else { task with catching := true }

namespace Node

def start (metaclient : Bool) : Node where
  metaclient := metaclient
  clients _ := none
  nextClient := 0
  oidsToClients _ := none
  clientsToOids _ := none
  nextCell := 0
  logins _ := none
  messages := []
  disconnects := []
  mainThread := none
  allocated _ := false
  sessions _ := none

def setClient (node : Node) (client : Client) (gameClient : GameClient) : Node :=
  { node with clients := update node.clients client (some gameClient) }

def setLogin (node : Node) (client : Client) (stage : LoginStage) : Node :=
  { node with logins := update node.logins client (some stage) }

def setSession (node : Node) (oid : Oid) (session : Option (Option Handler)) : Node :=
  { node with sessions := update node.sessions oid session }

/-- No client that is there has the address. -/
def unusedAddress (node : Node) (address : Address) : Bool :=
  (List.range node.nextClient).all fun client =>
    match node.clients client with
    | some gameClient => gameClient.freed || gameClient.address != address
    | none => true

/-- A client whose frames or errors the main thread can process. -/
def readable (node : Node) (client : Client) : Option GameClient :=
  match node.mainThread, node.clients client with
  | none, some gameClient => if gameClient.ended then none else some gameClient
  | _, _ => none

/-- `server_accept`. -/
def serverAccept (node : Node) (address : Address) : Node :=
  { node.setClient node.nextClient ⟨address, false, false, false, false⟩ with
    nextClient := node.nextClient + 1 }

/-- `dispatch_login_request`. -/
def dispatchLoginRequest (node : Node) (client : Client) (gameClient : GameClient)
    (authenticated : Bool) : Node :=
  if gameClient.identity then node
  else if authenticated then
    (node.setClient client { gameClient with identity := true }).setLogin client .scheduled
  else node

/-- `disconnected`, which runs under the lock of the tables. -/
def disconnected (node : Node) (gameClient : GameClient) : Node × Option Event :=
  match node.clientsToOids gameClient.address with
  | none => (node, none)
  | some mapping =>
      let submitted :=
        { node with disconnects := node.disconnects ++ [⟨mapping.oid, 0, false, false⟩] }
      match node.oidsToClients mapping.oid with
      | none => (submitted, none)
      | some _ =>
          ({ submitted with
            oidsToClients := update node.oidsToClients mapping.oid none
            clientsToOids := update node.clientsToOids gameClient.address none },
            if node.metaclient then some (.sessionDisconnected mapping.oid) else none)

/-- `disconnected` for a client that is authenticated. -/
def leave (node : Node) (gameClient : GameClient) : Node × Option Event :=
  if gameClient.identity then node.disconnected gameClient else (node, none)

/-- `dispatch_logout_request`, before the flag is set. -/
def dispatchLogoutRequest (node : Node) (client : Client) (gameClient : GameClient) :
    Node × Option Event :=
  let left := node.leave gameClient
  ({ left.1 with mainThread := some client }, left.2)

/-- `client_error`, before the flag is set. -/
def clientError (node : Node) (client : Client) (gameClient : GameClient) : Node × Option Event :=
  let ended := node.setClient client { gameClient with ended := true }
  if gameClient.disconnected then (ended, none)
  else
    let left := ended.leave gameClient
    ({ left.1 with mainThread := some client }, left.2)

/-- `received_message`, for a client that is authenticated. -/
def dispatchSessionMessage (node : Node) (gameClient : GameClient) (msg : Bytes) : Node :=
  if gameClient.identity then
    match node.clientsToOids gameClient.address with
    | none => node
    | some mapping =>
        { node with
          messages := node.messages ++
            [⟨gameClient.address, mapping.cell, mapping.oid, msg, 0, false⟩] }
  else node

/-- `gzochid_client_session_persist`: the session gets an id that has not been given out, or
there is an error. -/
def persist (node : Node) (client : Client) : Option Oid → Option Node
  | none => some (node.setLogin client (.done none false))
  | some oid =>
      if node.allocated oid then none
      else
        some { (node.setLogin client (.persisted oid)).setSession oid (some none) with
          allocated := update node.allocated oid true }

/-- The insertion into both tables under their lock. -/
def insert (node : Node) (client : Client) (gameClient : GameClient) (oid : Oid) : Node :=
  { node.setLogin client (.executing oid 0) with
    oidsToClients := update node.oidsToClients oid (some client)
    clientsToOids := update node.clientsToOids gameClient.address (some ⟨node.nextCell, oid⟩)
    nextCell := node.nextCell + 1 }

/-- An attempt of `gzochid_scheme_application_logged_in_worker`. -/
def execute (node : Node) (client : Client) (oid : Oid) (attempts : Nat) :
    LoginOutcome → Option (Node × Option Event)
  | .listener handler =>
      (node.sessions oid).map fun _ =>
        ((node.setLogin client (.executed oid true)).setSession oid (some (some handler)),
          some (.loginCommitted oid handler))
  | .refused =>
      (node.sessions oid).map fun _ =>
        ((node.setLogin client (.executed oid false)).setSession oid none, none)
  | .gone =>
      match node.sessions oid with
      | none => some (node.setLogin client (.executed oid false), none)
      | some _ => none
  | .retry =>
      some (node.setLogin client
        (if attempts + 1 < maxAttempts then .executing oid (attempts + 1) else .failed oid), none)
  | .failure => some (node.setLogin client (.failed oid), none)

/-- The removals of `login_catch_worker`, for the client that it has looked up. -/
def unmap (node : Node) (client : Client) (oid : Oid) (found : Option Client) : Option Node :=
  match found with
  | none =>
      some { node.setLogin client (.unmapped oid found) with
        oidsToClients := update node.oidsToClients oid none }
  | some other =>
      (node.clients other).map fun gameClient =>
        { node.setLogin client (.unmapped oid found) with
          oidsToClients := update node.oidsToClients oid none
          clientsToOids := update node.clientsToOids gameClient.address none }

/-- The next step of a login.  `none` stands for a step that is not possible, and for the use of
a client that there is none of. -/
def loginStep (node : Node) (client : Client) (stage : LoginStage) :
    Action → Option (Node × Option Event)
  | .persist _ oid =>
      match stage with
      | .scheduled => (node.persist client oid).map fun after => (after, none)
      | _ => none
  | .insert _ =>
      match stage with
      | .persisted oid =>
          (node.clients client).map fun gameClient => (node.insert client gameClient oid, none)
      | _ => none
  | .execute _ outcome =>
      match stage with
      | .executing oid attempts => node.execute client oid attempts outcome
      | _ => none
  | .lookup _ =>
      match stage with
      | .failed oid => some (node.setLogin client (.lookedUp oid (node.oidsToClients oid)), none)
      | _ => none
  | .unmap _ =>
      match stage with
      | .lookedUp oid found => (node.unmap client oid found).map fun after => (after, none)
      | _ => none
  | .tell _ =>
      match stage with
      | .unmapped oid (some _) => some (node.setLogin client (.told oid), none)
      | _ => none
  | .endCatch _ removed =>
      match stage with
      | .told oid =>
          let ended := node.setLogin client (.executed oid false)
          some (if removed then ended.setSession oid none else ended, none)
      | _ => none
  | .check _ =>
      match stage with
      | .executed oid accepted =>
          some (node.setLogin client
            (if (node.oidsToClients oid).isSome && node.metaclient then .present oid accepted
              else .done (some oid) accepted), none)
      | _ => none
  | .announce _ =>
      match stage with
      | .present oid accepted =>
          some (node.setLogin client (.done (some oid) accepted), some (.sessionConnected oid))
      | _ => none
  | _ => none

/-- What the memory of the session's id holds when the task of a message reads it. -/
def read (node : Node) (task : MessageTask) (garbage : Oid) : Oid :=
  match node.clientsToOids task.address with
  | some mapping => if mapping.cell = task.cell then mapping.oid else garbage
  | none => garbage

/-- An attempt of `gzochid_scheme_application_received_message_worker`. -/
def receive (node : Node) (place : Nat) (task : MessageTask) (garbage : Oid) (access : Access)
    (outcome : Outcome) : Node × Option Event :=
  let after := { node with messages := node.messages.set place (task.attempted outcome) }
  let oid := node.read task garbage
  match access, node.sessions oid with
  | .refused, _ => (after, none)
  | _, none => (after, none)
  | _, some none => (after, some (.absentHandler task.session oid))
  | .noCallback, some (some _) => (after, none)
  | .callback, some (some handler) =>
      (after, some (.handlerCalled task.session oid handler.receivedMessage))

/-- An attempt of `gzochid_scheme_application_disconnected_worker` or of
`gzochid_client_session_disconnected_worker`. -/
def runDisconnect (node : Node) (place : Nat) (task : DisconnectTask) (removed : Bool)
    (outcome : Outcome) : Node :=
  let after := { node with disconnects := node.disconnects.set place (task.attempted outcome) }
  if removed && decide (outcome = .success) then after.setSession task.oid none else after

def step (node : Node) (action : Action) : Option (Node × Option Event) :=
  match action with
  | .accept address =>
      if node.mainThread.isNone && node.unusedAddress address then
        some (node.serverAccept address, none)
      else none
  | .loginRequest client authenticated =>
      (node.readable client).map fun gameClient =>
        (node.dispatchLoginRequest client gameClient authenticated, none)
  | .logoutRequest client =>
      (node.readable client).map fun gameClient => node.dispatchLogoutRequest client gameClient
  | .sessionMessage client msg =>
      (node.readable client).map fun gameClient =>
        (node.dispatchSessionMessage gameClient msg, none)
  | .clientError client =>
      (node.readable client).map fun gameClient => node.clientError client gameClient
  | .setDisconnected =>
      match node.mainThread with
      | none => none
      | some client =>
          (node.clients client).map fun gameClient =>
            ({ node.setClient client { gameClient with disconnected := true } with
              mainThread := none }, none)
  | .clientFree client =>
      match node.mainThread, node.clients client with
      | none, some gameClient =>
          if gameClient.ended && !gameClient.freed then
            some (node.setClient client { gameClient with freed := true }, none)
          else none
      | _, _ => none
  | .persist client _ | .insert client | .execute client _ | .lookup client | .unmap client
  | .tell client | .endCatch client _ | .check client | .announce client =>
      match node.logins client with
      | none => none
      | some stage => node.loginStep client stage action
  | .receive place garbage access outcome =>
      match node.messages[place]? with
      | none => none
      | some task =>
          if task.finished then none else some (node.receive place task garbage access outcome)
  | .runDisconnect place removed outcome =>
      match node.disconnects[place]? with
      | none => none
      | some task =>
          if task.finished then none else some (node.runDisconnect place task removed outcome, none)
  | .removeSession oid => some (node.setSession oid none, none)

end Node

end Gzochi.Game
