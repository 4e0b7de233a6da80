import Gzochi.Game.Mappings
import Gzochi.Nodemap.Inverse

/-!
# The nodes of a cluster and the meta server

A node tells the meta server about sessions that connect and disconnect.  What it sends while it
has no connection waits in a buffer; what has been sent and not yet read when a connection breaks
may be lost, in part or as a whole.  The meta server gives every connection a new id, and when it
finds one broken it removes the sessions of that id from its map.
-/

namespace Gzochi.Game

open Lib Nodemap
open Data (Oid update update_same update_other)

variable {Member : Type} [DecidableEq Member]

abbrev App := String

/-- What a node sends. -/
inductive Notice where
  | login
  | connected (key : QualifiedKey)
  | disconnected (key : QualifiedKey)
  deriving DecidableEq

/-- A connection that the meta server has accepted: whose it is, what has been sent and not yet
read, and whether it is broken. -/
structure Link (Member : Type) where
  member : Member
  notices : List Notice
  broken : Bool

/-- A node with its applications and its `gzochid_reconnectable_socket`. -/
structure Site where
  apps : App → Node
  connection : Option Nat
  outbound : List Notice

/-- The cluster.  It is remembered which node a session has been made on. -/
structure Cluster (Member : Type) where
  sites : Member → Site
  links : Nat → Option (Link Member)
  nextNodeId : Nat
  connectedServers : Nat → Bool
  nodemap : NodemapMem
  owner : QualifiedKey → Option Member

/-- The steps of a cluster. -/
inductive ClusterAction (Member : Type) where
  | act (member : Member) (app : App) (action : Action)
  | connect (member : Member)
  | sever (id : Nat) (kept : Nat)
  | disconnect (member : Member)
  | deliver (id : Nat) (rebalancing : Rebalancing)
  | clientError (id : Nat)

namespace Cluster

def start (Member : Type) : Cluster Member where
  sites _ := ⟨fun _ => .start true, none, []⟩
  links _ := none
  nextNodeId := 0
  connectedServers _ := false
  nodemap := .new
  owner _ := none

/-- The key of a session in the map of the meta server. -/
def sessionKey (app : App) (oid : Oid) : QualifiedKey := ⟨app, UInt64.ofNat oid⟩

/-- What an event of a node tells the meta server. -/
def notice (app : App) : Event → Option Notice
  | .sessionConnected oid => some (.connected (sessionKey app oid))
  | .sessionDisconnected oid => some (.disconnected (sessionKey app oid))
  | .loginCommitted _ _ | .handlerCalled _ _ _ | .absentHandler _ _ => none

def setSite (cluster : Cluster Member) (member : Member) (site : Site) : Cluster Member :=
  { cluster with sites := update cluster.sites member site }

def setLink (cluster : Cluster Member) (id : Nat) (link : Option (Link Member)) : Cluster Member :=
  { cluster with links := update cluster.links id link }

/-- `gzochid_reconnectable_socket_write`.  What is written to a broken connection is lost. -/
def write (cluster : Cluster Member) (member : Member) (notice : Notice) : Cluster Member :=
  let site := cluster.sites member
  match site.connection with
  | none => cluster.setSite member { site with outbound := site.outbound ++ [notice] }
  | some id =>
      match cluster.links id with
      | some link =>
          if link.broken then cluster
          else cluster.setLink id (some { link with notices := link.notices ++ [notice] })
      | none => cluster

/-- What a step of a node tells the meta server. -/
def tell (cluster : Cluster Member) (member : Member) (app : App) (event : Option Event) :
    Cluster Member :=
  match event.bind (notice app) with
  | none => cluster
  | some notice => cluster.write member notice

/-- An application on a node has got to a state. -/
def setNode (cluster : Cluster Member) (member : Member) (app : App) (node : Node) :
    Cluster Member :=
  let site := cluster.sites member
  cluster.setSite member { site with apps := update site.apps app node }

/-- The ids of sessions are numbers of 64 bits that are given out once in the cluster. -/
def claim (cluster : Cluster Member) (member : Member) (app : App) :
    Action → Option (Cluster Member)
  | .persist _ (some oid) =>
      if oid < 2 ^ 64 ∧ (cluster.owner (sessionKey app oid)).isNone then
        some { cluster with owner := update cluster.owner (sessionKey app oid) (some member) }
      else none
  | _ => some cluster

/-- A step of an application on a node. -/
def act (cluster : Cluster Member) (member : Member) (app : App) (action : Action) :
    Option (Cluster Member) :=
  match ((cluster.sites member).apps app).step action with
  | none => none
  | some (node, event) =>
      (cluster.claim member app action).map fun claimed =>
        (claimed.setNode member app node).tell member app event

/-- `gzochid_reconnectable_socket_connect` and `server_accept`. -/
def connect (cluster : Cluster Member) (member : Member) : Option (Cluster Member) :=
  let site := cluster.sites member
  match site.connection with
  | some _ => none
  | none =>
      let id := cluster.nextNodeId
      some { (cluster.setSite member { site with connection := some id, outbound := [] }).setLink id
          (some ⟨member, .login :: site.outbound, false⟩) with
        nextNodeId := id + 1 }

/-- A connection breaks; the first notices that are under way still arrive. -/
def sever (cluster : Cluster Member) (id kept : Nat) : Option (Cluster Member) :=
  match cluster.links id with
  | some link =>
      if link.broken then none
      else
        some (cluster.setLink id
          (some { link with notices := link.notices.take kept, broken := true }))
  | none => none

/-- `gzochid_reconnectable_socket_disconnect`: the node finds its connection broken. -/
def disconnect (cluster : Cluster Member) (member : Member) : Option (Cluster Member) :=
  let site := cluster.sites member
  match site.connection with
  | none => none
  | some id =>
      let lost := cluster.setSite member { site with connection := none }
      match cluster.links id with
      | some link => if link.broken then some lost else none
      | none => some lost

/-- What the session server makes of a notice. -/
def receive (cluster : Cluster Member) (id : Nat) (rebalancing : Rebalancing) :
    Notice → Cluster Member
  | .login => { cluster with connectedServers := update cluster.connectedServers id true }
  | .connected key =>
      if cluster.connectedServers id then
        { cluster with nodemap := (cluster.nodemap.mapSession rebalancing key id).1 }
      else cluster
  | .disconnected key =>
      { cluster with nodemap := (cluster.nodemap.unmapSession rebalancing key).1 }

/-- The meta server reads a notice. -/
def deliver (cluster : Cluster Member) (id : Nat) (rebalancing : Rebalancing) :
    Option (Cluster Member) :=
  match cluster.links id with
  | some ⟨member, notice :: rest, broken⟩ =>
      some ((cluster.setLink id (some ⟨member, rest, broken⟩)).receive id rebalancing notice)
  | _ => none

/-- `gzochi_metad_sessionserver_server_disconnected`, when the meta server finds a connection
broken. -/
def clientError (cluster : Cluster Member) (id : Nat) : Option (Cluster Member) :=
  match cluster.links id with
  | some ⟨_, [], true⟩ =>
      let closed := cluster.setLink id none
      some (if cluster.connectedServers id then
        { closed with
          nodemap := cluster.nodemap.unmapAll id
          connectedServers := update cluster.connectedServers id false }
        else closed)
  | _ => none

def step (cluster : Cluster Member) (action : ClusterAction Member) :
    Option (Cluster Member × Unit) :=
  let after :=
    match action with
    | .act member app action => cluster.act member app action
    | .connect member => cluster.connect member
    | .sever id kept => cluster.sever id kept
    | .disconnect member => cluster.disconnect member
    | .deliver id rebalancing => cluster.deliver id rebalancing
    | .clientError id => cluster.clientError id
  after.map fun cluster => (cluster, ())

end Cluster

/-! ## What the map should hold -/

/-- A session is logged in: its login has been completed with a listener, and its client is
connected and has not logged out. -/
def LoggedIn (node : Node) (oid : Oid) : Prop :=
  ∃ client gameClient, node.logins client = some (.done (some oid) true) ∧
    node.oidsToClients oid = some client ∧ node.clients client = some gameClient ∧
    gameClient.ended = false

/-- No notice is in flight, no connection is broken and every node is connected. -/
structure Quiet (cluster : Cluster Member) : Prop where
  links : ∀ id link, cluster.links id = some link → link.notices = [] ∧ link.broken = false
  connected : ∀ member, (cluster.sites member).connection ≠ none

/-- The map has the sessions that are logged in, with the ids of their nodes. -/
def MapsLoggedIn (cluster : Cluster Member) : Prop :=
  ∀ app oid, oid < 2 ^ 64 → ∀ nodeId,
    cluster.nodemap.sessionToNode (Cluster.sessionKey app oid) = some nodeId ↔
      ∃ member, ∃ id : Nat, nodeId = id ∧ (cluster.sites member).connection = some id ∧
        LoggedIn ((cluster.sites member).apps app) oid

/-- A connection on which a node can send, now or later. -/
def Cluster.usable (cluster : Cluster Member) (member : Member) : Bool :=
  match (cluster.sites member).connection with
  | none => true
  | some id =>
      match cluster.links id with
      | some link => !link.broken
      | none => false

/-- Clients stay until they are in the tables; a session is announced while its login has come to
a listener, its client is in the tables, and the connection of its node, if there is one, is not
broken; a connection breaks while no session is logged in on its node; and the sequence of a node
leads to every session that is unmapped. -/
def Announces (cluster : Cluster Member) : ClusterAction Member → Prop
  | .act member app action =>
      let node := (cluster.sites member).apps app
      clientStays node action = true ∧
        match action with
        | .announce client =>
            ∀ oid accepted, node.logins client = some (.present oid accepted) →
              accepted = true ∧ node.oidsToClients oid ≠ none ∧ cluster.usable member = true
        | _ => True
  | .sever id _ =>
      ∀ link, cluster.links id = some link →
        ∀ app oid, ¬LoggedIn ((cluster.sites link.member).apps app) oid
  | .deliver id rebalancing =>
      ∀ link key rest, cluster.links id = some link → link.notices = .disconnected key :: rest →
        FindsSession cluster.nodemap (.unmapSession key, rebalancing)
  | .connect _ | .disconnect _ | .clientError _ => True

end Gzochi.Game
