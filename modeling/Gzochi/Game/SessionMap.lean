import Gzochi.Game.Notices

/-!
# The sessions in the map of the meta server

A session that has not been announced is not in the map.  One that is logged in is in the map under
the id of its node, or its announcement is on the way there.  One that is over is not in the map,
or the notice that it is over is on the way, unless the connection has broken.
-/

namespace Gzochi.Game

open Lib Nodemap List
open Data (Oid update update_same update_other)

variable {Member : Type} {cluster next : Cluster Member} {member other : Member} {id : Nat}
  {key : QualifiedKey} {notice : Notice}

theorem receive_frame (cluster : Cluster Member) (id : Nat) (rebalancing : Rebalancing)
    (notice : Notice) : ∃ connectedServers nodemap, cluster.receive id rebalancing notice =
        { cluster with connectedServers := connectedServers, nodemap := nodemap } := by
  cases notice with
  | login => exact ⟨_, _, rfl⟩
  | connected key =>
    unfold Cluster.receive
    simp only
    split <;> exact ⟨_, _, rfl⟩
  | disconnected key => exact ⟨_, _, rfl⟩

variable (rebalancing : Rebalancing)
include rebalancing

theorem receive_links (notice : Notice) :
    (cluster.receive id rebalancing notice).links = cluster.links := by
  obtain ⟨_, _, same⟩ := receive_frame cluster id rebalancing notice
  rw [same]

theorem receive_sites (notice : Notice) :
    (cluster.receive id rebalancing notice).sites = cluster.sites := by
  obtain ⟨_, _, same⟩ := receive_frame cluster id rebalancing notice
  rw [same]

/-- The meta server keeps its connections when it reads a notice. -/
theorem receive_served (notice : Notice) {other : Nat}
    (served : cluster.connectedServers other = true) :
    (cluster.receive id rebalancing notice).connectedServers other = true := by
  cases notice with
  | login =>
    by_cases same : other = id
    · rw [same]
      exact update_same _ _ _
    · exact (update_other _ _ same).trans served
  | connected key =>
    unfold Cluster.receive
    simp only
    split <;> exact served
  | disconnected key => exact served

theorem receive_value_other (apart : notice.about ≠ some key) :
    (cluster.receive id rebalancing notice).value key = cluster.value key := by
  cases notice with
  | login => rfl
  | connected another =>
    have unequal : key ≠ another := fun same => apart (congrArg some same.symm)
    unfold Cluster.receive
    simp only
    split
    next =>
      show ((cluster.nodemap.mapSession rebalancing another id).1).sessionToNode key = _
      cases mapped : cluster.nodemap.sessionToNode another with
      | some _ => rw [NodemapMem.mapSession_mapped mapped]; rfl
      | none =>
        rw [NodemapMem.mapSession_unmapped mapped]
        exact Function.update_of_ne unequal _ _
    next => rfl
  | disconnected another =>
    have unequal : key ≠ another := fun same => apart (congrArg some same.symm)
    show ((cluster.nodemap.unmapSession rebalancing another).1).sessionToNode key = _
    cases mapped : cluster.nodemap.sessionToNode another with
    | some _ =>
      rw [NodemapMem.unmapSession_mapped mapped]
      exact Function.update_of_ne unequal _ _
    | none => rw [NodemapMem.unmapSession_unmapped mapped]; rfl

theorem receive_connected (served : cluster.connectedServers id = true) :
    (cluster.receive id rebalancing (.connected key)).value key =
      some ((cluster.value key).getD id) := by
  unfold Cluster.receive
  simp only [served]
  show ((cluster.nodemap.mapSession rebalancing key id).1).sessionToNode key =
    some ((cluster.nodemap.sessionToNode key).getD id)
  cases mapped : cluster.nodemap.sessionToNode key with
  | some nodeId =>
    rw [NodemapMem.mapSession_mapped mapped]
    exact mapped
  | none =>
    rw [NodemapMem.mapSession_unmapped mapped]
    exact Function.update_self _ _ _

theorem receive_disconnected :
    (cluster.receive id rebalancing (.disconnected key)).value key = none := by
  show ((cluster.nodemap.unmapSession rebalancing key).1).sessionToNode key = none
  cases mapped : cluster.nodemap.sessionToNode key with
  | some nodeId =>
    rw [NodemapMem.unmapSession_mapped mapped]
    exact Function.update_self _ _ _
  | none =>
    rw [NodemapMem.unmapSession_unmapped mapped]
    exact mapped

theorem receive_inverse (inverse : Inverse cluster.nodemap)
    (finds : ∀ key, notice = .disconnected key →
      FindsSession cluster.nodemap (.unmapSession key, rebalancing)) :
    Inverse (cluster.receive id rebalancing notice).nodemap := by
  cases notice with
  | login => exact inverse
  | connected key =>
    unfold Cluster.receive
    simp only
    split
    next =>
      cases mapped : cluster.nodemap.sessionToNode key with
      | some _ =>
        rw [NodemapMem.mapSession_mapped mapped]
        exact inverse
      | none => exact inverse.mapSession mapped
    next => exact inverse
  | disconnected key =>
    show Inverse (cluster.nodemap.unmapSession rebalancing key).1
    cases mapped : cluster.nodemap.sessionToNode key with
    | some nodeId =>
      obtain ⟨sessions, held, _⟩ := inverse.sessions_of mapped
      exact inverse.unmapSession mapped held (finds key rfl nodeId sessions mapped held)
    | none =>
      rw [NodemapMem.unmapSession_unmapped mapped]
      exact inverse

/-- A session that has not been announced is not put into the map. -/
theorem receive_value_none (absent : cluster.value key = none) (apart : notice ≠ .connected key) :
    (cluster.receive id rebalancing notice).value key = none := by
  by_cases about : notice.about = some key
  · cases notice with
    | login => cases about
    | connected _ =>
      cases about
      exact absurd rfl apart
    | disconnected _ =>
      cases about
      exact receive_disconnected rebalancing
  · exact (receive_value_other rebalancing about).trans absent

omit rebalancing

/-- The sessions of the node leave the map. -/
theorem unmapAll_value (inverse : Inverse cluster.nodemap) (links : Nat → Option (Link Member))
    (connectedServers : Nat → Bool) :
    Cluster.value { cluster with
        links := links
        nodemap := cluster.nodemap.unmapAll id
        connectedServers := connectedServers } key =
      if cluster.value key = some (id : NodeId) then none else cluster.value key := by
  show (cluster.nodemap.unmapAll id).sessionToNode key = _
  rw [inverse.unmapAll_sessionToNode]
  rfl

theorem Unsaid.deliver {unsaid : Notice} (silent : Unsaid cluster unsaid)
    (rebalancing : Rebalancing) {rest : List Notice} {sender : Member} {broken : Bool}
    (there : cluster.links id = some ⟨sender, notice :: rest, broken⟩) :
    Unsaid ((cluster.setLink id (some ⟨sender, rest, broken⟩)).receive id rebalancing notice)
      unsaid := by
  have left : Unsaid (cluster.setLink id (some ⟨sender, rest, broken⟩)) unsaid := by
    apply silent.setLink
    intro link isLink present
    cases isLink
    exact silent.links id _ there (mem_cons_of_mem notice present)
  obtain ⟨_, _, same⟩ := receive_frame (cluster.setLink id (some ⟨sender, rest, broken⟩)) id
    rebalancing notice
  rw [same]
  exact left.of_same rfl rfl

/-- A node tells about its own sessions, and the map has sessions of connections that are
there. -/
structure Owned (cluster : Cluster Member) : Prop where
  outbound : ∀ member notice key, notice ∈ cluster.outbound member → notice.about = some key →
    cluster.owner key = some member
  links : ∀ id link notice key, cluster.links id = some link → notice ∈ link.notices →
    notice.about = some key → cluster.owner key = some link.member
  values : ∀ key nodeId, cluster.value key = some nodeId →
    cluster.owner key ≠ none ∧ ∃ id : Nat, nodeId = id ∧ cluster.connectedServers id = true

namespace Owned

variable (owned : Owned cluster)
include owned

theorem more {owner : QualifiedKey → Option Member}
    (kept : ∀ key member, cluster.owner key = some member → owner key = some member) :
    Owned { cluster with owner := owner } where
  outbound member notice key present about :=
    kept key member (owned.outbound member notice key present about)
  links id link notice key there present about :=
    kept key link.member (owned.links id link notice key there present about)
  values := by
    intro key nodeId mapped
    obtain ⟨known, rest⟩ := owned.values key nodeId mapped
    obtain ⟨member, isMember⟩ := Option.ne_none_iff_exists'.mp known
    refine ⟨?_, rest⟩
    show owner key ≠ none
    rw [kept key member isMember]
    nofun

theorem setLink (id : Nat) {new : Option (Link Member)}
    (about : ∀ link notice key, new = some link → notice ∈ link.notices →
      notice.about = some key → cluster.owner key = some link.member) :
    Owned (cluster.setLink id new) where
  outbound := owned.outbound
  links := by
    intro otherId link notice key isLink present isAbout
    cases setLink_links isLink with
    | inl here => exact about link notice key here.2 present isAbout
    | inr elsewhere => exact owned.links otherId link notice key elsewhere.2 present isAbout
  values := owned.values

theorem receive (rebalancing : Rebalancing)
    (served : notice ≠ .login → cluster.connectedServers id = true)
    (known : ∀ key, notice.about = some key → cluster.owner key ≠ none) :
    Owned (cluster.receive id rebalancing notice) := by
  have values : ∀ key nodeId, (cluster.receive id rebalancing notice).value key = some nodeId →
      cluster.owner key ≠ none ∧ ∃ id : Nat, nodeId = id ∧ cluster.connectedServers id = true := by
    intro key nodeId mapped
    by_cases about : notice.about = some key
    · cases notice with
      | login => cases about
      | connected another =>
        cases about
        have isServed := served nofun
        rw [receive_connected rebalancing isServed] at mapped
        cases was : cluster.value key with
        | none =>
          rw [was] at mapped
          exact ⟨known key rfl, id, (Option.some.inj mapped).symm, isServed⟩
        | some old =>
          rw [was] at mapped
          exact owned.values key nodeId (was.trans mapped)
      | disconnected another =>
        cases about
        rw [receive_disconnected rebalancing] at mapped
        cases mapped
    · rw [receive_value_other rebalancing about] at mapped
      exact owned.values key nodeId mapped
  obtain ⟨connectedServers, nodemap, same⟩ := receive_frame cluster id rebalancing notice
  refine ⟨?_, ?_, ?_⟩
  · rw [same]
    exact owned.outbound
  · rw [same]
    exact owned.links
  · intro key nodeId mapped
    obtain ⟨isKnown, other, isOther, isServed⟩ := values key nodeId mapped
    refine ⟨?_, other, isOther, receive_served rebalancing notice isServed⟩
    rw [same]
    exact isKnown

theorem deliver (wires : Wires cluster) (rebalancing : Rebalancing)
    {rest : List Notice} {broken : Bool}
    (there : cluster.links id = some ⟨member, notice :: rest, broken⟩) :
    Owned ((cluster.setLink id (some ⟨member, rest, broken⟩)).receive id rebalancing notice) := by
  have left : Owned (cluster.setLink id (some ⟨member, rest, broken⟩)) := by
    apply owned.setLink
    intro link written key isLink present isAbout
    cases isLink
    exact owned.links id ⟨member, notice :: rest, broken⟩ written key there
      (mem_cons_of_mem notice present) isAbout
  apply left.receive
  · exact wires.servedBefore there rfl
  · intro key isAbout
    show cluster.owner key ≠ none
    rw [owned.links id _ notice key there mem_cons_self isAbout]
    nofun

/-- The meta server forgets a connection. -/
theorem forget (inverse : Inverse cluster.nodemap) (id : Nat) : Owned { cluster.setLink id none with
      nodemap := cluster.nodemap.unmapAll id
      connectedServers := update cluster.connectedServers id false } where
  outbound := owned.outbound
  links := by
    have gone : Owned (cluster.setLink id none) :=
      owned.setLink id fun _ _ _ isLink => nomatch isLink
    exact gone.links
  values := by
    intro key nodeId mapped
    replace mapped := (unmapAll_value inverse _ _).symm.trans mapped
    obtain ⟨elsewhere, mapped⟩ := Option.ite_none_left_eq_some.mp mapped
    obtain ⟨known, other, isOther, served⟩ := owned.values key nodeId mapped
    refine ⟨known, other, isOther, ?_⟩
    have apart : other ≠ id := by
      intro same
      rw [mapped, isOther, same] at elsewhere
      exact elsewhere rfl
    exact (update_other _ _ apart).trans served

omit owned

variable [DecidableEq Member]

include owned

theorem setSite (member : Member) {site : Site}
    (about : ∀ notice key, notice ∈ site.outbound → notice.about = some key →
      cluster.owner key = some member) : Owned (cluster.setSite member site) where
  outbound := by
    intro other notice key present isAbout
    unfold Cluster.outbound at present
    by_cases same : other = member
    · rw [same, setSite_same] at present
      rw [same]
      exact about notice key present isAbout
    · rw [setSite_other _ same] at present
      exact owned.outbound other notice key present isAbout
  links := owned.links
  values := owned.values

theorem write (wires : Wires cluster) (writes : cluster.Writes member notice next)
    (about : ∀ key, notice.about = some key → cluster.owner key = some member) : Owned next := by
  cases writes with
  | waits offline =>
    apply owned.setSite
    intro written key present isAbout
    cases mem_append.mp present with
    | inl early => exact owned.outbound member written key early isAbout
    | inr last =>
      rw [mem_singleton.mp last] at isAbout
      exact about key isAbout
  | @sent id link online there whole =>
    apply owned.setLink
    intro found written key isLink present isAbout
    cases isLink
    show cluster.owner key = some link.member
    cases mem_append.mp present with
    | inl early => exact owned.links id link written key there early isAbout
    | inr last =>
      rw [mem_singleton.mp last] at isAbout
      rw [wires.own member id link online there]
      exact about key isAbout
  | lost => exact owned

theorem connect (member : Member) : Owned (cluster.connected member) := by
  have offline : Owned (cluster.setSite member { cluster.sites member with
      connection := some cluster.nextNodeId, outbound := [] }) := owned.setSite member nofun
  have online : Owned ((cluster.setSite member { cluster.sites member with
      connection := some cluster.nextNodeId, outbound := [] }).setLink cluster.nextNodeId
      (some ⟨member, .login :: cluster.outbound member, false⟩)) := by
    apply offline.setLink
    intro link notice key isLink present isAbout
    cases isLink
    cases mem_cons.mp present with
    | inl login =>
      rw [login] at isAbout
      cases isAbout
    | inr waiting => exact owned.outbound member notice key waiting isAbout
  exact ⟨online.outbound, online.links, online.values⟩

end Owned

/-- The announcement waits, or it is on the connection of the node, or the map has it; no broken
connection has to do with it. -/
structure Standing (cluster : Cluster Member) (member : Member) (key : QualifiedKey) : Prop where
  broken : ∀ id link, cluster.links id = some link → link.broken = true →
    .connected key ∉ link.notices ∧ cluster.value key ≠ some (id : NodeId)
  offline : cluster.connection member = none →
    cluster.value key = none ∧ .connected key ∈ cluster.outbound member
  online : ∀ id, cluster.connection member = some id →
    .connected key ∉ cluster.outbound member ∧
      ∃ link, cluster.links id = some link ∧ link.broken = false ∧
        (cluster.value key = some (id : NodeId) ∨
          cluster.value key = none ∧ .connected key ∈ link.notices)

namespace Standing

variable (standing : Standing cluster member key)
include standing

theorem of_same {other : Cluster Member}
    (connection : other.connection member = cluster.connection member)
    (outbound : other.outbound member = cluster.outbound member)
    (links : other.links = cluster.links) (value : other.value key = cluster.value key) :
    Standing other member key where
  broken := by
    rw [links, value]
    exact standing.broken
  offline := by
    rw [connection, outbound, value]
    exact standing.offline
  online := by
    rw [connection, outbound, links, value]
    exact standing.online

/-- The map does not have it under the id of another connection. -/
theorem value_own
    (mapped : cluster.value key = some (id : NodeId)) : cluster.connection member = some id := by
  cases connection : cluster.connection member with
  | none =>
    rw [(standing.offline connection).1] at mapped
    cases mapped
  | some own =>
    obtain ⟨_, link, _, _, either⟩ := standing.online own connection
    cases either with
    | inl here =>
      rw [here] at mapped
      rw [Int.ofNat_inj.mp (Option.some.inj mapped)]
    | inr absent =>
      rw [absent.1] at mapped
      cases mapped

theorem sever (wires : Wires cluster)
    (owned : Owned cluster) (known : cluster.owner key = some member) {link : Link Member}
    (kept : Nat) (there : cluster.links id = some link) (apart : link.member ≠ member) :
    Standing (cluster.setLink id
      (some { link with notices := link.notices.take kept, broken := true })) member key where
  broken := by
    intro otherId found isFound isBroken
    cases setLink_links isFound with
    | inl here =>
      cases here.2
      rw [here.1]
      constructor
      · intro present
        have isOwner := owned.links id link _ key there (mem_of_mem_take present) rfl
        rw [known] at isOwner
        exact apart (Option.some.inj isOwner).symm
      · intro mapped
        exact apart (wires.own member id link (standing.value_own mapped) there)
    | inr elsewhere => exact standing.broken otherId found elsewhere.2 isBroken
  offline := standing.offline
  online := by
    intro own connection
    have unequal : own ≠ id := by
      intro same
      exact apart (wires.own member id link (same ▸ connection) there)
    obtain ⟨silent, found, isFound, rest⟩ := standing.online own connection
    exact ⟨silent, found, (setLink_other _ unequal).trans isFound, rest⟩

theorem deliver (wires : Wires cluster)
    (owned : Owned cluster) (known : cluster.owner key = some member)
    (notOver : Unsaid cluster (.disconnected key)) (rebalancing : Rebalancing)
    {rest : List Notice} {sender : Member} {broken : Bool}
    (there : cluster.links id = some ⟨sender, notice :: rest, broken⟩) :
    Standing ((cluster.setLink id (some ⟨sender, rest, broken⟩)).receive id rebalancing notice)
      member key := by
  -- Its own announcement can only be read from the connection of its node.
  have announced : notice.about = some key → notice = .connected key ∧ broken = false ∧
      cluster.connection member = some id := by
    intro about
    have isConnected : notice = .connected key := by
      cases notice with
      | login => cases about
      | connected _ =>
        cases about
        rfl
      | disconnected _ =>
        cases about
        exact absurd mem_cons_self (notOver.links id _ there)
    have whole : broken = false := by
      cases broken with
      | false => rfl
      | true =>
        rw [isConnected] at there
        exact absurd mem_cons_self (standing.broken id _ there rfl).1
    have isOwner := owned.links id _ notice key there mem_cons_self about
    rw [known] at isOwner
    have current := wires.current id _ there whole
    rw [← Option.some.inj isOwner] at current
    exact ⟨isConnected, whole, current⟩
  have value : ((cluster.setLink id (some ⟨sender, rest, broken⟩)).receive id rebalancing
      notice).value key =
        if notice.about = some key then some (id : NodeId) else cluster.value key := by
    split
    next about =>
      obtain ⟨isConnected, _, current⟩ := announced about
      have served : (cluster.setLink id (some ⟨sender, rest, broken⟩)).connectedServers id = true :=
        wires.servedBefore there rfl (by rw [isConnected]; nofun)
      rw [isConnected, receive_connected rebalancing served]
      show some ((cluster.value key).getD id) = _
      obtain ⟨_, _, _, _, either⟩ := standing.online id current
      cases either with
      | inl here => rw [here]; rfl
      | inr absent => rw [absent.1]; rfl
    next about => exact receive_value_other rebalancing about
  have sites : ((cluster.setLink id (some ⟨sender, rest, broken⟩)).receive id rebalancing
      notice).sites = cluster.sites := receive_sites rebalancing notice
  have links : ((cluster.setLink id (some ⟨sender, rest, broken⟩)).receive id rebalancing
      notice).links = (cluster.setLink id (some ⟨sender, rest, broken⟩)).links :=
    receive_links rebalancing notice
  constructor
  · intro otherId found isFound isBroken
    rw [links] at isFound
    rw [value]
    cases setLink_links isFound with
    | inl here =>
      cases here.2
      obtain ⟨silent, notMapped⟩ := standing.broken id _ there isBroken
      rw [here.1]
      refine ⟨fun present => silent (mem_cons_of_mem notice present), ?_⟩
      split
      next about =>
        rw [(announced about).2.1] at isBroken
        cases isBroken
      next => exact notMapped
    | inr elsewhere =>
      obtain ⟨silent, notMapped⟩ := standing.broken otherId found elsewhere.2 isBroken
      refine ⟨silent, ?_⟩
      split
      next about =>
        intro same
        exact elsewhere.1 (Int.ofNat_inj.mp (Option.some.inj same)).symm
      next => exact notMapped
  · intro offline
    unfold Cluster.connection at offline
    rw [sites] at offline
    unfold Cluster.outbound
    rw [sites, value]
    obtain ⟨absent, waiting⟩ := standing.offline offline
    refine ⟨?_, waiting⟩
    split
    next about =>
      rw [show cluster.connection member = none from offline] at announced
      cases (announced about).2.2
    next => exact absent
  · intro own online
    unfold Cluster.connection at online
    rw [sites] at online
    unfold Cluster.outbound
    rw [sites, links, value]
    obtain ⟨silent, link, isLink, whole, either⟩ := standing.online own online
    refine ⟨silent, ?_⟩
    by_cases unequal : own = id
    · subst unequal
      cases there.symm.trans isLink
      refine ⟨_, setLink_same _, whole, ?_⟩
      split
      next => exact .inl rfl
      next about =>
        cases either with
        | inl mapped => exact .inl mapped
        | inr absent =>
          refine .inr ⟨absent.1, ?_⟩
          cases mem_cons.mp absent.2 with
          | inl first =>
            rw [← first] at about
            exact absurd rfl about
          | inr later => exact later
    · refine ⟨link, (setLink_other _ unequal).trans isLink, whole, ?_⟩
      split
      next about =>
        have here := (announced about).2.2
        rw [show cluster.connection member = some own from online] at here
        exact absurd (Option.some.inj here) unequal
      next => exact either

/-- The meta server forgets a broken connection. -/
theorem forget {other : Cluster Member}
    {link : Link Member} (there : cluster.links id = some link) (broken : link.broken = true)
    (sites : other.sites = cluster.sites) (links : other.links = (cluster.setLink id none).links)
    (value : cluster.value key ≠ some (id : NodeId) → other.value key = cluster.value key) :
    Standing other member key := by
  have sameValue := value (standing.broken id link there broken).2
  constructor
  · intro otherId found isFound
    rw [links] at isFound
    rw [sameValue]
    cases setLink_links isFound with
    | inl here => cases here.2
    | inr elsewhere => exact standing.broken otherId found elsewhere.2
  · unfold Cluster.connection Cluster.outbound
    rw [sites, sameValue]
    exact standing.offline
  · unfold Cluster.connection Cluster.outbound
    rw [sites, links, sameValue]
    intro own online
    obtain ⟨silent, found, isFound, whole, either⟩ := standing.online own online
    have apart : own ≠ id := by
      intro same
      rw [same, there] at isFound
      cases isFound
      rw [broken] at whole
      cases whole
    exact ⟨silent, found, (setLink_other _ apart).trans isFound, whole, either⟩

omit standing

variable [DecidableEq Member]

include standing

/-- A node whose connection breaks has no session that is logged in. -/
theorem disconnect (online : cluster.connection other = some id)
    (broken : ∀ link, cluster.links id = some link → link.broken = true) :
    Standing (cluster.setSite other { cluster.sites other with connection := none })
      member key := by
  have apart : member ≠ other := by
    intro same
    obtain ⟨_, link, there, whole, _⟩ := standing.online id (same ▸ online)
    rw [broken link there] at whole
    cases whole
  have site : (cluster.setSite other { cluster.sites other with connection := none }).sites
      member = cluster.sites member := setSite_other _ apart
  exact standing.of_same (congrArg Site.connection site) (congrArg Site.outbound site) rfl rfl

theorem connect (wires : Wires cluster) (offline : cluster.connection other = none) :
    Standing (cluster.connected other) member key := by
  have links : (cluster.connected other).links = (cluster.setLink cluster.nextNodeId
      (some ⟨other, .login :: cluster.outbound other, false⟩)).links := rfl
  constructor
  · intro otherId found isFound isBroken
    rw [links] at isFound
    cases setLink_links isFound with
    | inl here =>
      cases here.2
      cases isBroken
    | inr elsewhere => exact standing.broken otherId found elsewhere.2 isBroken
  · intro still
    have apart : member ≠ other := by
      intro same
      rw [same, connected_connection] at still
      cases still
    unfold Cluster.connection at still
    unfold Cluster.outbound
    rw [connected_sites apart] at still ⊢
    exact standing.offline still
  · intro own online
    by_cases same : member = other
    · subst same
      rw [connected_connection] at online
      cases online
      rw [connected_outbound]
      obtain ⟨absent, waiting⟩ := standing.offline offline
      exact ⟨nofun, _, setLink_same _, rfl, .inr ⟨absent, mem_cons_of_mem _ waiting⟩⟩
    · unfold Cluster.connection at online
      unfold Cluster.outbound
      rw [connected_sites same] at online ⊢
      obtain ⟨silent, link, there, rest⟩ := standing.online own online
      have apart : own ≠ cluster.nextNodeId := Nat.ne_of_lt (wires.numbered own link there)
      exact ⟨silent, link, (setLink_other _ apart).trans there, rest⟩

/-- More notices do no harm. -/
theorem write (writes : cluster.Writes other notice next) : Standing next member key := by
  cases writes with
  | waits isOffline =>
    by_cases same : member = other
    · subst same
      obtain ⟨absent, waiting⟩ := standing.offline isOffline
      constructor
      · exact standing.broken
      · intro _
        refine ⟨absent, ?_⟩
        unfold Cluster.outbound
        rw [setSite_same]
        exact mem_append_left _ waiting
      · intro own online
        unfold Cluster.connection at online
        rw [setSite_same] at online
        cases isOffline.symm.trans online
    · have site : (cluster.setSite other { cluster.sites other with
          outbound := cluster.outbound other ++ [notice] }).sites member =
            cluster.sites member := setSite_other _ same
      exact standing.of_same (congrArg Site.connection site) (congrArg Site.outbound site) rfl rfl
  | @sent id link online there whole =>
    constructor
    · intro otherId found isFound isBroken
      cases setLink_links isFound with
      | inl here =>
        cases here.2
        cases whole.symm.trans isBroken
      | inr elsewhere => exact standing.broken otherId found elsewhere.2 isBroken
    · exact standing.offline
    · intro own isOnline
      obtain ⟨silent, found, isFound, isWhole, either⟩ := standing.online own isOnline
      refine ⟨silent, ?_⟩
      by_cases same : own = id
      · subst same
        cases there.symm.trans isFound
        refine ⟨_, setLink_same _, isWhole, ?_⟩
        cases either with
        | inl mapped => exact .inl mapped
        | inr absent => exact .inr ⟨absent.1, mem_append_left _ absent.2⟩
      · exact ⟨found, (setLink_other _ same).trans isFound, isWhole, either⟩
  | lost => exact standing

end Standing

/-- Whatever has been said about it, the notice that it is over comes after. -/
structure Over (cluster : Cluster Member) (key : QualifiedKey) : Prop where
  outbound : ∀ member, Closed key (cluster.outbound member)
  links : ∀ id link, cluster.links id = some link → link.broken = false →
    Closed key link.notices ∧
      (cluster.value key = some (id : NodeId) → .disconnected key ∈ link.notices)

namespace Over

theorem of_same {other : Cluster Member} (past : Over cluster key)
    (outbound : other.outbound = cluster.outbound) (links : other.links = cluster.links)
    (value : other.value key = cluster.value key) : Over other key where
  outbound := by
    rw [outbound]
    exact past.outbound
  links := by
    rw [links, value]
    exact past.links

theorem of_unsaid (unmapped : cluster.value key = none)
    (unsaid : Unsaid cluster (.connected key)) : Over cluster key where
  outbound member := closed_of_not_mem (unsaid.outbound member)
  links := by
    intro id link there _
    refine ⟨closed_of_not_mem (unsaid.links id link there), ?_⟩
    intro mapped
    rw [unmapped] at mapped
    cases mapped

variable (past : Over cluster key)
include past

theorem setLink (id : Nat) {new : Option (Link Member)}
    (closed : ∀ link, new = some link → link.broken = false → Closed key link.notices ∧
      (cluster.value key = some (id : NodeId) → .disconnected key ∈ link.notices)) :
    Over (cluster.setLink id new) key where
  outbound := past.outbound
  links := by
    intro otherId link isLink whole
    cases setLink_links isLink with
    | inl here =>
      rw [here.1]
      exact closed link here.2 whole
    | inr elsewhere => exact past.links otherId link elsewhere.2 whole

theorem deliver (rebalancing : Rebalancing) {rest : List Notice}
    {sender : Member} {broken : Bool} (wires : Wires cluster)
    (there : cluster.links id = some ⟨sender, notice :: rest, broken⟩) :
    Over ((cluster.setLink id (some ⟨sender, rest, broken⟩)).receive id rebalancing notice)
      key := by
  have links : ((cluster.setLink id (some ⟨sender, rest, broken⟩)).receive id rebalancing
      notice).links = (cluster.setLink id (some ⟨sender, rest, broken⟩)).links :=
    receive_links rebalancing notice
  have value : ∀ other : Nat, ((cluster.setLink id (some ⟨sender, rest, broken⟩)).receive id
      rebalancing notice).value key = some (other : NodeId) →
      notice ≠ .disconnected key ∧
        (cluster.value key = some (other : NodeId) ∨ other = id ∧ notice = .connected key) := by
    intro other mapped
    by_cases about : notice.about = some key
    · cases notice with
      | login => cases about
      | connected _ =>
        cases about
        have served : (cluster.setLink id (some ⟨sender, rest, broken⟩)).connectedServers id =
          true := wires.servedBefore there rfl nofun
        rw [receive_connected rebalancing served] at mapped
        replace mapped : some ((cluster.value key).getD id) = some (other : NodeId) := mapped
        refine ⟨nofun, ?_⟩
        cases was : cluster.value key with
        | none =>
          rw [was] at mapped
          exact .inr ⟨(Int.ofNat_inj.mp (Option.some.inj mapped)).symm, rfl⟩
        | some nodeId =>
          rw [was] at mapped
          exact .inl mapped
      | disconnected _ =>
        cases about
        rw [receive_disconnected rebalancing] at mapped
        cases mapped
    · rw [receive_value_other rebalancing about] at mapped
      exact ⟨fun same => about (by rw [same]; rfl), .inl mapped⟩
  constructor
  · unfold Cluster.outbound
    rw [receive_sites]
    exact past.outbound
  · intro otherId link isLink whole
    rw [links] at isLink
    cases setLink_links isLink with
    | inl here =>
      cases here.2
      obtain ⟨closed, ends⟩ := past.links id _ there whole
      refine ⟨closed.2, ?_⟩
      intro mapped
      obtain ⟨notOver, either⟩ := value otherId mapped
      cases either with
      | inl was =>
        rw [here.1] at was
        cases mem_cons.mp (ends was) with
        | inl first => exact absurd first.symm notOver
        | inr later => exact later
      | inr announced => exact closed.1 announced.2
    | inr elsewhere =>
      obtain ⟨closed, ends⟩ := past.links otherId link elsewhere.2 whole
      refine ⟨closed, ?_⟩
      intro mapped
      cases (value otherId mapped).2 with
      | inl was => exact ends was
      | inr announced => exact absurd announced.1 elsewhere.1

/-- The meta server forgets a connection. -/
theorem forget {other : Cluster Member}
    (sites : other.sites = cluster.sites) (links : other.links = (cluster.setLink id none).links)
    (value : ∀ nodeId, other.value key = some nodeId → cluster.value key = some nodeId) :
    Over other key where
  outbound := by
    unfold Cluster.outbound
    rw [sites]
    exact past.outbound
  links := by
    intro otherId link isLink whole
    rw [links] at isLink
    cases setLink_links isLink with
    | inl here => cases here.2
    | inr elsewhere =>
      obtain ⟨closed, ends⟩ := past.links otherId link elsewhere.2 whole
      exact ⟨closed, fun mapped => ends (value _ mapped)⟩

omit past

variable [DecidableEq Member]

include past

theorem setSite (member : Member) {site : Site}
    (closed : Closed key site.outbound) : Over (cluster.setSite member site) key where
  outbound := by
    intro other
    unfold Cluster.outbound
    by_cases same : other = member
    · rw [same, setSite_same]
      exact closed
    · rw [setSite_other _ same]
      exact past.outbound other
  links := past.links

theorem connect (wires : Wires cluster) (owned : Owned cluster)
    (member : Member) : Over (cluster.connected member) key := by
  have offline : Over (cluster.setSite member { cluster.sites member with
      connection := some cluster.nextNodeId, outbound := [] }) key := past.setSite member trivial
  have online : Over ((cluster.setSite member { cluster.sites member with
      connection := some cluster.nextNodeId, outbound := [] }).setLink cluster.nextNodeId
      (some ⟨member, .login :: cluster.outbound member, false⟩)) key := by
    apply offline.setLink
    intro link isLink _
    cases isLink
    refine ⟨⟨nofun, past.outbound member⟩, ?_⟩
    intro mapped
    obtain ⟨_, other, isOther, served⟩ := owned.values key _ mapped
    obtain ⟨found, isFound⟩ := wires.served other served
    have old := wires.numbered other found isFound
    rw [← Int.ofNat_inj.mp isOther] at old
    exact absurd old (Nat.lt_irrefl _)
  exact ⟨online.outbound, online.links⟩

theorem write (writes : cluster.Writes member notice next)
    (apart : notice ≠ .connected key) : Over next key := by
  cases writes with
  | waits offline => exact past.setSite member ((past.outbound member).append apart)
  | @sent id link online there whole =>
    apply past.setLink
    intro found isFound _
    cases isFound
    obtain ⟨closed, ends⟩ := past.links id link there whole
    exact ⟨closed.append apart, fun mapped => mem_append_left _ (ends mapped)⟩
  | lost => exact past

end Over

section

variable [DecidableEq Member]

/-- A session is announced. -/
theorem standing_of_connected (unmapped : cluster.value key = none)
    (unsaid : Unsaid cluster (.connected key)) (usable : cluster.usable member = true)
    (writes : cluster.Writes member (.connected key) next) : Standing next member key := by
  have notMapped : ∀ id : Nat, cluster.value key ≠ some (id : NodeId) := by
    intro id mapped
    rw [unmapped] at mapped
    cases mapped
  cases writes with
  | waits isOffline =>
    constructor
    · exact fun id link there _ => ⟨unsaid.links id link there, notMapped id⟩
    · intro _
      refine ⟨unmapped, ?_⟩
      unfold Cluster.outbound
      rw [setSite_same]
      exact mem_append_right _ mem_cons_self
    · intro own online
      unfold Cluster.connection at online
      rw [setSite_same] at online
      cases isOffline.symm.trans online
  | @sent id link online there whole =>
    constructor
    · intro otherId found isFound isBroken
      cases setLink_links isFound with
      | inl here =>
        cases here.2
        cases whole.symm.trans isBroken
      | inr elsewhere => exact ⟨unsaid.links otherId found elsewhere.2, notMapped otherId⟩
    · intro isOffline
      cases online.symm.trans isOffline
    · intro own isOnline
      cases online.symm.trans isOnline
      exact ⟨unsaid.outbound member, _, setLink_same _, whole,
        .inr ⟨unmapped, mem_append_right _ mem_cons_self⟩⟩
  | lost notUsable =>
    rw [usable] at notUsable
    cases notUsable

/-- A session that is logged in ends. -/
theorem over_of_disconnected (standing : Standing cluster member key) (wires : Wires cluster)
    (owned : Owned cluster) (known : cluster.owner key = some member)
    (writes : cluster.Writes member (.disconnected key) next) : Over next key := by
  have waits : ∀ other, other ≠ member → Closed key (cluster.outbound other) := by
    intro other apart
    apply closed_of_not_mem
    intro present
    have isOwner := owned.outbound other _ key present rfl
    rw [known] at isOwner
    exact apart (Option.some.inj isOwner).symm
  have elsewhere : ∀ id link, cluster.links id = some link → link.broken = false →
      cluster.connection member ≠ some id → Closed key link.notices ∧
        (cluster.value key = some (id : NodeId) → .disconnected key ∈ link.notices) := by
    intro id link there whole apart
    constructor
    · apply closed_of_not_mem
      intro present
      have isOwner := owned.links id link _ key there present rfl
      rw [known] at isOwner
      have current := wires.current id link there whole
      rw [← Option.some.inj isOwner] at current
      exact apart current
    · intro mapped
      exact absurd (standing.value_own mapped) apart
  cases writes with
  | waits isOffline =>
    constructor
    · intro other
      unfold Cluster.outbound
      by_cases same : other = member
      · rw [same, setSite_same]
        exact closed_append_disconnected key _
      · rw [setSite_other _ same]
        exact waits other same
    · intro id link there whole
      apply elsewhere id link there whole
      rw [isOffline]
      nofun
  | @sent id link online there whole =>
    constructor
    · intro other
      by_cases same : other = member
      · rw [same]
        exact closed_of_not_mem (standing.online id online).1
      · exact waits other same
    · intro otherId found isFound isWhole
      cases setLink_links isFound with
      | inl here =>
        cases here.2
        exact ⟨closed_append_disconnected key _, fun _ => mem_append_right _ mem_cons_self⟩
      | inr apart =>
        apply elsewhere otherId found apart.2 isWhole
        rw [online]
        intro same
        exact apart.1 (Option.some.inj same).symm
  | lost notUsable =>
    unfold Cluster.usable at notUsable
    cases online : cluster.connection member with
    | none =>
      rw [show (cluster.sites member).connection = none from online] at notUsable
      cases notUsable
    | some id =>
      rw [show (cluster.sites member).connection = some id from online] at notUsable
      obtain ⟨_, link, there, whole, _⟩ := standing.online id online
      simp only [there, whole] at notUsable
      cases notUsable

end

end Gzochi.Game
