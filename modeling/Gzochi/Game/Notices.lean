import Gzochi.Game.Announcements

/-!
# Notices under way

What the map has for a session can be told from the state of the session and from the notices about
it that are under way on connections that are not broken.
-/

namespace Gzochi.Game

open Lib Nodemap
open Data (Oid update update_same update_other)

variable {Member : Type}

/-- The session that a notice is about. -/
def Notice.about : Notice → Option QualifiedKey
  | .login => none
  | .connected key | .disconnected key => some key

theorem sessionKey_inj {app other : App} {oid otherOid : Oid} (small : oid < 2 ^ 64)
    (otherSmall : otherOid < 2 ^ 64)
    (same : Cluster.sessionKey app oid = Cluster.sessionKey other otherOid) :
    app = other ∧ oid = otherOid := by
  unfold Cluster.sessionKey at same
  injection same with sameApp sameOid
  refine ⟨sameApp, ?_⟩
  have numbers := congrArg UInt64.toNat sameOid
  rwa [UInt64.toNat_ofNat_of_lt' small, UInt64.toNat_ofNat_of_lt' otherSmall] at numbers

/-- Every announcement of a session is followed by the notice that it is over. -/
def Closed (key : QualifiedKey) : List Notice → Prop
  | [] => True
  | notice :: rest =>
      (notice = .connected key → .disconnected key ∈ rest) ∧ Closed key rest

variable {key : QualifiedKey} {notices : List Notice}

theorem closed_of_not_mem (silent : .connected key ∉ notices) : Closed key notices := by
  induction notices with
  | nil => trivial
  | cons notice rest ih =>
    constructor
    · intro same
      exact absurd (same ▸ List.mem_cons_self) silent
    · exact ih fun member => silent (List.mem_cons_of_mem notice member)

theorem Closed.append {notice : Notice} (closed : Closed key notices)
    (apart : notice ≠ .connected key) :
    Closed key (notices ++ [notice]) := by
  induction notices with
  | nil => exact ⟨fun same => absurd same apart, trivial⟩
  | cons first rest ih =>
    constructor
    · intro same
      exact List.mem_append_left _ (closed.1 same)
    · exact ih closed.2

theorem closed_append_disconnected (key : QualifiedKey) (notices : List Notice) :
    Closed key (notices ++ [.disconnected key]) := by
  induction notices with
  | nil => exact ⟨nofun, trivial⟩
  | cons first rest ih =>
    constructor
    · intro _
      simp
    · exact ih

namespace Cluster

variable (cluster : Cluster Member) (member : Member) (app : App)

def node : Node := (cluster.sites member).apps app

def connection : Option Nat := (cluster.sites member).connection

def outbound : List Notice := (cluster.sites member).outbound

/-- The id that the map has for a session. -/
def value (key : QualifiedKey) : Option NodeId := cluster.nodemap.sessionToNode key

end Cluster

section

variable {cluster other : Cluster Member} {id : Nat} {notice : Notice}

variable {otherId : Nat}

theorem setLink_links {new : Option (Link Member)} {link : Link Member}
    (there : (cluster.setLink id new).links otherId = some link) :
    otherId = id ∧ new = some link ∨ otherId ≠ id ∧ cluster.links otherId = some link := by
  by_cases same : otherId = id
  · have here : (cluster.setLink id new).links otherId = new := by
      rw [same]
      exact update_same _ _ _
    exact .inl ⟨same, here.symm.trans there⟩
  · exact .inr ⟨same, (update_other _ _ same).symm.trans there⟩

theorem setLink_same (new : Option (Link Member)) : (cluster.setLink id new).links id = new :=
  update_same _ _ _

theorem setLink_other (new : Option (Link Member)) (apart : otherId ≠ id) :
    (cluster.setLink id new).links otherId = cluster.links otherId := update_other _ _ apart

/-- A notice that is not under way. -/
structure Unsaid (cluster : Cluster Member) (notice : Notice) : Prop where
  outbound : ∀ member, notice ∉ cluster.outbound member
  links : ∀ id link, cluster.links id = some link → notice ∉ link.notices

namespace Unsaid

theorem of_same (unsaid : Unsaid cluster notice)
    (outbound : other.outbound = cluster.outbound) (links : other.links = cluster.links) :
    Unsaid other notice where
  outbound := by
    rw [outbound]
    exact unsaid.outbound
  links := by
    rw [links]
    exact unsaid.links

theorem setLink (unsaid : Unsaid cluster notice) (id : Nat) {new : Option (Link Member)}
    (silent : ∀ link, new = some link → notice ∉ link.notices) :
    Unsaid (cluster.setLink id new) notice where
  outbound := unsaid.outbound
  links := by
    intro otherId link there
    cases setLink_links there with
    | inl here => exact silent link here.2
    | inr elsewhere => exact unsaid.links otherId link elsewhere.2

end Unsaid

/-- Which connections there are. -/
structure Wires (cluster : Cluster Member) : Prop where
  numbered : ∀ id link, cluster.links id = some link → id < cluster.nextNodeId
  issued : ∀ member id, cluster.connection member = some id → id < cluster.nextNodeId
  own : ∀ member id link, cluster.connection member = some id → cluster.links id = some link →
    link.member = member
  current : ∀ id link, cluster.links id = some link → link.broken = false →
    cluster.connection link.member = some id
  /-- The first notice of a connection is the login. -/
  opened : ∀ id link, cluster.links id = some link →
    cluster.connectedServers id = true ∨ (∃ rest, link.notices = .login :: rest) ∨
      link.broken = true ∧ link.notices = []
  served : ∀ id, cluster.connectedServers id = true → ∃ link, cluster.links id = some link

namespace Wires

theorem of_same (wires : Wires cluster) (connection : other.connection = cluster.connection)
    (links : other.links = cluster.links) (nextNodeId : other.nextNodeId = cluster.nextNodeId)
    (connectedServers : other.connectedServers = cluster.connectedServers) : Wires other where
  numbered := by
    rw [links, nextNodeId]
    exact wires.numbered
  issued := by
    rw [connection, nextNodeId]
    exact wires.issued
  own := by
    rw [connection, links]
    exact wires.own
  current := by
    rw [connection, links]
    exact wires.current
  opened := by
    rw [links, connectedServers]
    exact wires.opened
  served := by
    rw [links, connectedServers]
    exact wires.served

variable {link : Link Member}

variable (wires : Wires cluster)
include wires

/-- A connection gets or loses notices, or it breaks. -/
theorem setLink {old : Link Member} (there : cluster.links id = some old)
    (sameMember : link.member = old.member) (whole : link.broken = false → old.broken = false)
    (opened : cluster.connectedServers id = true ∨ (∃ rest, link.notices = .login :: rest) ∨
      link.broken = true ∧ link.notices = []) : Wires (cluster.setLink id (some link)) where
  numbered := by
    intro otherId found isFound
    cases setLink_links isFound with
    | inl here =>
      rw [here.1]
      exact wires.numbered id old there
    | inr elsewhere => exact wires.numbered otherId found elsewhere.2
  issued := wires.issued
  own := by
    intro member otherId found online isFound
    cases setLink_links isFound with
    | inl here =>
      cases here.2
      rw [sameMember]
      exact wires.own member id old (here.1 ▸ online) there
    | inr elsewhere => exact wires.own member otherId found online elsewhere.2
  current := by
    intro otherId found isFound isWhole
    cases setLink_links isFound with
    | inl here =>
      cases here.2
      rw [sameMember, here.1]
      exact wires.current id old there (whole isWhole)
    | inr elsewhere => exact wires.current otherId found elsewhere.2 isWhole
  opened := by
    intro otherId found isFound
    cases setLink_links isFound with
    | inl here =>
      cases here.2
      rw [here.1]
      exact opened
    | inr elsewhere => exact wires.opened otherId found elsewhere.2
  served := by
    intro otherId isServed
    by_cases same : otherId = id
    · rw [same]
      exact ⟨link, setLink_same _⟩
    · obtain ⟨found, isFound⟩ := wires.served otherId isServed
      exact ⟨found, (setLink_other _ same).trans isFound⟩

theorem sever (kept : Nat) (there : cluster.links id = some link) (whole : link.broken = false) :
    Wires (cluster.setLink id
      (some { link with notices := link.notices.take kept, broken := true })) := by
  apply wires.setLink there
  · rfl
  · nofun
  · cases wires.opened id link there with
    | inl served => exact .inl served
    | inr other =>
      cases other with
      | inl login =>
        obtain ⟨rest, isLogin⟩ := login
        cases kept with
        | zero => exact .inr (.inr ⟨rfl, rfl⟩)
        | succ kept => exact .inr (.inl ⟨rest.take kept, by rw [isLogin]; rfl⟩)
      | inr broken =>
        rw [whole] at broken
        cases broken.1

theorem serve (there : cluster.links id = some link) :
    Wires { cluster with connectedServers := update cluster.connectedServers id true } where
  numbered := wires.numbered
  issued := wires.issued
  own := wires.own
  current := wires.current
  opened := by
    intro otherId found isFound
    by_cases same : otherId = id
    · rw [same]
      exact .inl (update_same _ _ _)
    · show update cluster.connectedServers id true otherId = true ∨ _
      rw [update_other _ _ same]
      exact wires.opened otherId found isFound
  served := by
    intro otherId isServed
    by_cases same : otherId = id
    · exact ⟨link, same ▸ there⟩
    · exact wires.served otherId ((update_other _ _ same).symm.trans isServed)

omit wires

variable {rest : List Notice}

include wires

/-- The meta server has had the login before any other notice. -/
theorem servedBefore (there : cluster.links id = some link)
    (notices : link.notices = notice :: rest) (notLogin : notice ≠ .login) :
    cluster.connectedServers id = true := by
  cases wires.opened id link there with
  | inl served => exact served
  | inr other =>
    cases other with
    | inl login =>
      obtain ⟨others, isLogin⟩ := login
      rw [notices] at isLogin
      exact absurd (List.cons.inj isLogin).1 notLogin
    | inr broken =>
      rw [notices] at broken
      cases broken.2

/-- The meta server forgets a connection. -/
theorem forget {connectedServers : Nat → Bool} (here : connectedServers id = false)
    (elsewhere : ∀ other, other ≠ id → connectedServers other = cluster.connectedServers other) :
    Wires { cluster.setLink id none with connectedServers := connectedServers } := by
  have still : ∀ otherId found, (cluster.setLink id none).links otherId = some found →
      otherId ≠ id ∧ cluster.links otherId = some found := by
    intro otherId found isFound
    cases setLink_links isFound with
    | inl gone => cases gone.2
    | inr kept => exact kept
  exact {
    numbered := fun otherId found isFound =>
      wires.numbered otherId found (still otherId found isFound).2
    issued := wires.issued
    own := fun other otherId found online isFound =>
      wires.own other otherId found online (still otherId found isFound).2
    current := fun otherId found isFound =>
      wires.current otherId found (still otherId found isFound).2
    opened := by
      intro otherId found isFound
      show connectedServers otherId = true ∨ _
      rw [elsewhere otherId (still otherId found isFound).1]
      exact wires.opened otherId found (still otherId found isFound).2
    served := by
      intro otherId isServed
      replace isServed : connectedServers otherId = true := isServed
      have apart : otherId ≠ id := by
        intro same
        rw [same, here] at isServed
        cases isServed
      rw [elsewhere otherId apart] at isServed
      obtain ⟨found, isFound⟩ := wires.served otherId isServed
      exact ⟨found, (setLink_other _ apart).trans isFound⟩ }

theorem deliver (rebalancing : Rebalancing) {member : Member}
    {broken : Bool} (there : cluster.links id = some ⟨member, notice :: rest, broken⟩) :
    Wires ((cluster.setLink id (some ⟨member, rest, broken⟩)).receive id rebalancing notice) := by
  cases notice with
  | login =>
    apply (wires.serve there).setLink there
    · rfl
    · exact fun whole => whole
    · exact .inl (update_same _ _ _)
  | connected key =>
    have served := wires.servedBefore there rfl nofun
    have left : Wires (cluster.setLink id (some ⟨member, rest, broken⟩)) :=
      wires.setLink there rfl (fun whole => whole) (.inl served)
    unfold Cluster.receive
    simp only
    split
    next => exact left.of_same rfl rfl rfl rfl
    next => exact left
  | disconnected key =>
    have served := wires.servedBefore there rfl nofun
    have left : Wires (cluster.setLink id (some ⟨member, rest, broken⟩)) :=
      wires.setLink there rfl (fun whole => whole) (.inl served)
    exact left.of_same rfl rfl rfl rfl

end Wires

end

variable [DecidableEq Member]

namespace Cluster

variable (cluster : Cluster Member) (member : Member)

/-- A notice that is written waits, or it is sent, or it is lost. -/
inductive Writes (notice : Notice) : Cluster Member → Prop where
  | waits (offline : cluster.connection member = none) :
      Writes notice (cluster.setSite member
        { cluster.sites member with outbound := cluster.outbound member ++ [notice] })
  | sent {id : Nat} {link : Link Member} (online : cluster.connection member = some id)
      (there : cluster.links id = some link) (whole : link.broken = false) :
      Writes notice (cluster.setLink id (some { link with notices := link.notices ++ [notice] }))
  | lost (unusable : cluster.usable member = false) : Writes notice cluster

theorem writes (notice : Notice) : cluster.Writes member notice (cluster.write member notice) := by
  unfold write
  simp only
  split
  next offline => exact .waits offline
  next id online =>
    split
    next link there =>
      split
      next broken =>
        apply Writes.lost
        unfold usable
        rw [online]
        simp only [there, broken]
        rfl
      next whole => exact .sent online there (Bool.eq_false_iff.mpr whole)
    next absent =>
      apply Writes.lost
      unfold usable
      rw [online]
      simp only [absent]

/-- The node has got a connection. -/
def connected : Cluster Member :=
  { (cluster.setSite member { cluster.sites member with
      connection := some cluster.nextNodeId, outbound := [] }).setLink cluster.nextNodeId
      (some ⟨member, .login :: cluster.outbound member, false⟩) with
    nextNodeId := cluster.nextNodeId + 1 }

/-- What a step does. -/
inductive Does (cluster : Cluster Member) : ClusterAction Member → Cluster Member → Prop where
  | act {member : Member} {app : App} {action : Action} {node : Node} {event : Option Event}
      {claimed : Cluster Member}
      (taken : (cluster.node member app).step action = some (node, event))
      (claims : cluster.claim member app action = some claimed) :
      Does cluster (.act member app action)
        ((claimed.setNode member app node).tell member app event)
  | connect {member : Member} (offline : cluster.connection member = none) :
      Does cluster (.connect member) (cluster.connected member)
  | sever {id kept : Nat} {link : Link Member} (there : cluster.links id = some link)
      (whole : link.broken = false) :
      Does cluster (.sever id kept)
        (cluster.setLink id
          (some { link with notices := link.notices.take kept, broken := true }))
  | disconnect {member : Member} {id : Nat} (online : cluster.connection member = some id)
      (broken : ∀ link, cluster.links id = some link → link.broken = true) :
      Does cluster (.disconnect member)
        (cluster.setSite member { cluster.sites member with connection := none })
  | deliver {id : Nat} {rebalancing : Rebalancing} {member : Member} {notice : Notice}
      {rest : List Notice} {broken : Bool}
      (there : cluster.links id = some ⟨member, notice :: rest, broken⟩) :
      Does cluster (.deliver id rebalancing)
        ((cluster.setLink id (some ⟨member, rest, broken⟩)).receive id rebalancing notice)
  | clientError {id : Nat} {member : Member} (there : cluster.links id = some ⟨member, [], true⟩)
      (served : cluster.connectedServers id = true) :
      Does cluster (.clientError id)
        { cluster.setLink id none with
          nodemap := cluster.nodemap.unmapAll id
          connectedServers := update cluster.connectedServers id false }
  | clientErrorEarly {id : Nat} {member : Member}
      (there : cluster.links id = some ⟨member, [], true⟩)
      (notServed : cluster.connectedServers id = false) :
      Does cluster (.clientError id) (cluster.setLink id none)

theorem does_of_step {cluster next : Cluster Member} {action : ClusterAction Member} {result : Unit}
    (taken : cluster.step action = some (next, result)) : cluster.Does action next := by
  unfold step at taken
  obtain ⟨after, isAfter, same⟩ := Option.map_eq_some_iff.mp taken
  cases same
  cases action with
  | act member app action =>
    replace isAfter : cluster.act member app action = some next := isAfter
    unfold act at isAfter
    split at isAfter
    next => cases isAfter
    next node event stepped =>
      obtain ⟨claimed, claims, same⟩ := Option.map_eq_some_iff.mp isAfter
      rw [← same]
      exact .act stepped claims
  | connect member =>
    replace isAfter : cluster.connect member = some next := isAfter
    unfold connect at isAfter
    simp only at isAfter
    split at isAfter
    next => cases isAfter
    next offline =>
      cases isAfter
      exact .connect offline
  | sever id kept =>
    replace isAfter : cluster.sever id kept = some next := isAfter
    unfold sever at isAfter
    split at isAfter
    next link there =>
      split at isAfter
      next => cases isAfter
      next whole =>
        cases isAfter
        exact .sever there (Bool.eq_false_iff.mpr whole)
    next => cases isAfter
  | disconnect member =>
    replace isAfter : cluster.disconnect member = some next := isAfter
    unfold disconnect at isAfter
    simp only at isAfter
    split at isAfter
    next => cases isAfter
    next id online =>
      split at isAfter
      next link there =>
        obtain ⟨broken, isAfter⟩ := Option.ite_none_right_eq_some.mp isAfter
        cases isAfter
        apply Does.disconnect online
        intro other isOther
        rw [there] at isOther
        cases isOther
        exact broken
      next absent =>
        cases isAfter
        apply Does.disconnect online
        intro other isOther
        rw [absent] at isOther
        cases isOther
  | deliver id rebalancing =>
    replace isAfter : cluster.deliver id rebalancing = some next := isAfter
    unfold deliver at isAfter
    split at isAfter
    next member notice rest broken there =>
      cases isAfter
      exact .deliver there
    next => cases isAfter
  | clientError id =>
    replace isAfter : cluster.clientError id = some next := isAfter
    unfold clientError at isAfter
    split at isAfter
    next member there =>
      simp only at isAfter
      split at isAfter
      next served =>
        cases isAfter
        exact .clientError there served
      next notServed =>
        cases isAfter
        exact .clientErrorEarly there (Bool.eq_false_iff.mpr notServed)
    next => cases isAfter

end Cluster

section

variable {cluster next : Cluster Member} {member other : Member} {id : Nat} {notice : Notice}

theorem setSite_same (site : Site) : (cluster.setSite member site).sites member = site :=
  update_same _ _ _

theorem setSite_other (site : Site) (apart : other ≠ member) :
    (cluster.setSite member site).sites other = cluster.sites other := update_other _ _ apart

/-- A part that the new site has of the old one. -/
theorem setSite_congr {Part : Type} {part : Site → Part} {site : Site}
    (kept : part site = part (cluster.sites member)) :
    (fun other => part ((cluster.setSite member site).sites other)) =
      fun other => part (cluster.sites other) := by
  funext other
  by_cases same : other = member
  · rw [same, setSite_same, kept]
  · rw [setSite_other _ same]

theorem setSite_connection {site : Site}
    (online : (cluster.setSite member site).connection other = some id) :
    other = member ∧ site.connection = some id ∨
      other ≠ member ∧ cluster.connection other = some id := by
  unfold Cluster.connection at online
  by_cases same : other = member
  · rw [same, setSite_same] at online
    exact .inl ⟨same, online⟩
  · rw [setSite_other _ same] at online
    exact .inr ⟨same, online⟩

theorem connected_sites (apart : other ≠ member) :
    (cluster.connected member).sites other = cluster.sites other := setSite_other _ apart

theorem connected_outbound : (cluster.connected member).outbound member = [] :=
  congrArg Site.outbound (setSite_same _)

theorem connected_connection :
    (cluster.connected member).connection member = some cluster.nextNodeId :=
  congrArg Site.connection (setSite_same _)

/-- The applications of a node have nothing to do with its connection. -/
theorem setNode_connection (app : App) (node : Node) :
    (cluster.setNode member app node).connection = cluster.connection := setSite_congr rfl

theorem setNode_outbound (app : App) (node : Node) :
    (cluster.setNode member app node).outbound = cluster.outbound := setSite_congr rfl

namespace Unsaid

variable (unsaid : Unsaid cluster notice)
include unsaid

theorem setSite (member : Member) {site : Site}
    (silent : notice ∉ site.outbound) : Unsaid (cluster.setSite member site) notice where
  outbound := by
    intro other
    unfold Cluster.outbound
    by_cases same : other = member
    · rw [same, setSite_same]
      exact silent
    · rw [setSite_other _ same]
      exact unsaid.outbound other
  links := unsaid.links

theorem connect (member : Member) (notLogin : notice ≠ .login) :
    Unsaid (cluster.connected member) notice := by
  have offline : Unsaid (cluster.setSite member { cluster.sites member with
      connection := some cluster.nextNodeId, outbound := [] }) notice :=
    unsaid.setSite member nofun
  have online : Unsaid ((cluster.setSite member { cluster.sites member with
      connection := some cluster.nextNodeId, outbound := [] }).setLink cluster.nextNodeId
      (some ⟨member, .login :: cluster.outbound member, false⟩)) notice := by
    apply offline.setLink
    intro link isLink present
    cases isLink
    cases List.mem_cons.mp present with
    | inl first => exact notLogin first
    | inr waiting => exact unsaid.outbound member waiting
  exact online.of_same rfl rfl

theorem write {written : Notice}
    (writes : cluster.Writes member written next) (apart : notice ≠ written) :
    Unsaid next notice := by
  have still : ∀ notices : List Notice, notice ∉ notices → notice ∉ notices ++ [written] := by
    intro notices absent present
    cases List.mem_append.mp present with
    | inl early => exact absent early
    | inr last => exact apart (List.mem_singleton.mp last)
  cases writes with
  | waits offline => exact unsaid.setSite member (still _ (unsaid.outbound member))
  | sent online there whole =>
    apply unsaid.setLink
    intro link isLink
    cases isLink
    exact still _ (unsaid.links _ _ there)
  | lost => exact unsaid

end Unsaid

namespace Wires

variable (wires : Wires cluster)
include wires

theorem write (writes : cluster.Writes member notice next) : Wires next := by
  cases writes with
  | waits offline =>
    have connection : (cluster.setSite member { cluster.sites member with
        outbound := cluster.outbound member ++ [notice] }).connection = cluster.connection :=
      setSite_congr rfl
    exact wires.of_same connection rfl rfl rfl
  | @sent id link online there whole =>
    apply wires.setLink there
    · rfl
    · exact fun isWhole => isWhole
    · cases wires.opened id link there with
      | inl served => exact .inl served
      | inr other =>
        cases other with
        | inl login =>
          obtain ⟨rest, isLogin⟩ := login
          exact .inr (.inl ⟨rest ++ [notice], by rw [isLogin]; rfl⟩)
        | inr broken =>
          rw [whole] at broken
          cases broken.1
  | lost => exact wires

theorem connect (offline : cluster.connection member = none) :
    Wires (cluster.connected member) where
  numbered := by
    intro otherId found isFound
    cases setLink_links isFound with
    | inl here =>
      rw [here.1]
      exact Nat.lt_succ_self _
    | inr elsewhere => exact Nat.lt_succ_of_lt (wires.numbered otherId found elsewhere.2)
  issued := by
    intro other otherId online
    cases setSite_connection online with
    | inl here =>
      cases here.2
      exact Nat.lt_succ_self _
    | inr elsewhere => exact Nat.lt_succ_of_lt (wires.issued other otherId elsewhere.2)
  own := by
    intro other otherId found online isFound
    cases setSite_connection online with
    | inl here =>
      cases here.2
      cases setLink_links isFound with
      | inl new =>
        cases new.2
        exact here.1.symm
      | inr old => exact absurd rfl old.1
    | inr elsewhere =>
      cases setLink_links isFound with
      | inl new =>
        have issued := wires.issued other otherId elsewhere.2
        rw [new.1] at issued
        exact absurd issued (Nat.lt_irrefl _)
      | inr old => exact wires.own other otherId found elsewhere.2 old.2
  current := by
    intro otherId found isFound whole
    cases setLink_links isFound with
    | inl new =>
      cases new.2
      rw [new.1]
      exact congrArg Site.connection (setSite_same _)
    | inr old =>
      have online := wires.current otherId found old.2 whole
      have apart : found.member ≠ member := by
        intro same
        rw [same, offline] at online
        cases online
      exact (congrArg Site.connection (setSite_other _ apart)).trans online
  opened := by
    intro otherId found isFound
    cases setLink_links isFound with
    | inl here =>
      cases here.2
      exact .inr (.inl ⟨_, rfl⟩)
    | inr elsewhere => exact wires.opened otherId found elsewhere.2
  served := by
    intro otherId isServed
    obtain ⟨found, isFound⟩ := wires.served otherId isServed
    have apart : otherId ≠ cluster.nextNodeId :=
      Nat.ne_of_lt (wires.numbered otherId found isFound)
    exact ⟨found, (setLink_other _ apart).trans isFound⟩

theorem disconnect (online : cluster.connection member = some id)
    (broken : ∀ link, cluster.links id = some link → link.broken = true) :
    Wires (cluster.setSite member { cluster.sites member with connection := none }) where
  numbered := wires.numbered
  issued := by
    intro other otherId isOnline
    cases setSite_connection isOnline with
    | inl here => cases here.2
    | inr elsewhere => exact wires.issued other otherId elsewhere.2
  own := by
    intro other otherId found isOnline
    cases setSite_connection isOnline with
    | inl here => cases here.2
    | inr elsewhere => exact wires.own other otherId found elsewhere.2
  current := by
    intro otherId found isFound whole
    have isOnline := wires.current otherId found isFound whole
    have apart : found.member ≠ member := by
      intro same
      rw [same, online] at isOnline
      cases isOnline
      rw [broken found isFound] at whole
      cases whole
    exact (congrArg Site.connection (setSite_other _ apart)).trans isOnline
  opened := wires.opened
  served := wires.served

end Wires

end

end Gzochi.Game
