import Gzochi.Game.SessionMap

/-!
# The sessions that the meta server knows

As long as sessions are announced when they should be and connections break only while nobody is
logged in, the map of the meta server has the sessions that are logged in whenever nothing is under
way.  A connection that breaks takes the sessions of its node out of the map, and they are not
announced again.
-/

namespace Gzochi.Game

open Lib Nodemap Cluster
open Data (Oid update update_same update_other)

variable {Member : Type}

/-- What has been said about a session fits what has become of it. -/
structure Reported (cluster : Cluster Member) (member : Member) (key : QualifiedKey) (node : Node)
    (oid : Oid) : Prop where
  left : Unmapped node oid ∨ Unsaid cluster (.disconnected key)
  waiting : ¬Done node oid → cluster.value key = none ∧ Unsaid cluster (.connected key)
  standing : Done node oid → node.oidsToClients oid ≠ none → Standing cluster member key
  past : Done node oid → node.oidsToClients oid = none → Over cluster key

namespace Reported

variable {cluster after : Cluster Member} {member : Member} {key : QualifiedKey}
  {node next : Node} {oid : Oid} {event : Option Event}

variable (reported : Reported cluster member key node oid)
include reported

/-- The node stays as it is. -/
theorem pass
    (unsaid : ∀ notice, notice.about = some key → Unsaid cluster notice → Unsaid after notice)
    (unmapped : cluster.value key = none → Unsaid cluster (.connected key) → after.value key = none)
    (standing : Unsaid cluster (.disconnected key) → Standing cluster member key →
      Standing after member key)
    (past : Over cluster key → Over after key) : Reported after member key node oid where
  left := by
    cases reported.left with
    | inl gone => exact .inl gone
    | inr notOver => exact .inr (unsaid _ rfl notOver)
  waiting := by
    intro notDone
    obtain ⟨absent, silent⟩ := reported.waiting notDone
    exact ⟨unmapped absent silent, unsaid _ rfl silent⟩
  standing := by
    intro done mapped
    cases reported.left with
    | inl gone => exact absurd gone.1 mapped
    | inr notOver => exact standing notOver (reported.standing done mapped)
  past := fun done absent => past (reported.past done absent)

theorem of_same (connection : after.connection = cluster.connection)
    (outbound : after.outbound = cluster.outbound) (links : after.links = cluster.links)
    (value : after.value key = cluster.value key) : Reported after member key node oid := by
  apply reported.pass
  · exact fun _ _ unsaid => unsaid.of_same outbound links
  · exact fun absent _ => value.trans absent
  · exact fun _ standing => standing.of_same (congrFun connection member)
      (congrFun outbound member) links value
  · exact fun past => past.of_same outbound links value

/-- The node takes a step that does not concern the session. -/
theorem stays (done : Done next oid ↔ Done node oid)
    (mapped : Done node oid → (next.oidsToClients oid = none ↔ node.oidsToClients oid = none))
    (unmapped : Unmapped node oid → Unmapped next oid) : Reported cluster member key next oid where
  left := by
    cases reported.left with
    | inl gone => exact .inl (unmapped gone)
    | inr notOver => exact .inr notOver
  waiting notDone := reported.waiting (notDone ∘ done.mpr)
  standing isDone present :=
    reported.standing (done.mp isDone) (present ∘ (mapped (done.mp isDone)).mpr)
  past isDone absent :=
    reported.past (done.mp isDone) ((mapped (done.mp isDone)).mp absent)

/-- The login of the session returns after its client has left. -/
theorem passes (waiting : ¬Done node oid) (done : Done next oid) (unmapped : Unmapped next oid) :
    Reported cluster member key next oid where
  left := .inl unmapped
  waiting notDone := absurd done notDone
  standing := fun _ present => absurd unmapped.1 present
  past := by
    intro _ _
    obtain ⟨absent, silent⟩ := reported.waiting waiting
    exact .of_unsaid absent silent

omit reported

variable [DecidableEq Member]

include reported

/-- A notice about something else. -/
theorem write {sender : Member} {notice : Notice}
    (writes : cluster.Writes sender notice after) (apart : notice.about ≠ some key) :
    Reported after member key node oid := by
  have value : after.value key = cluster.value key := by cases writes <;> rfl
  apply reported.pass
  · intro other isAbout unsaid
    apply unsaid.write writes
    intro same
    rw [same] at isAbout
    exact apart isAbout
  · exact fun absent _ => value.trans absent
  · exact fun _ standing => standing.write writes
  · intro past
    apply past.write writes
    intro same
    rw [same] at apart
    exact apart rfl

/-- The session is announced. -/
theorem announced (waiting : ¬Done node oid)
    (done : Done next oid) (same : next.oidsToClients oid = node.oidsToClients oid)
    (present : node.oidsToClients oid ≠ none) (usable : cluster.usable member = true)
    (writes : cluster.Writes member (.connected key) after) :
    Reported after member key next oid where
  left := by
    cases reported.left with
    | inl gone => exact absurd gone.1 present
    | inr notOver => exact .inr (notOver.write writes nofun)
  waiting notDone := absurd done notDone
  standing := by
    intro _ _
    obtain ⟨absent, silent⟩ := reported.waiting waiting
    exact standing_of_connected absent silent usable writes
  past := fun _ absent => absurd (same.symm.trans absent) present

/-- The client of the session leaves. -/
theorem leaves (wires : Wires cluster)
    (owned : Owned cluster) (known : cluster.owner key = some member)
    (was : node.oidsToClients oid ≠ none) (done : Done next oid ↔ Done node oid)
    (unmapped : Unmapped next oid) (writes : cluster.Writes member (.disconnected key) after) :
    Reported after member key next oid where
  left := .inl unmapped
  waiting := by
    intro notDone
    obtain ⟨absent, silent⟩ := reported.waiting (notDone ∘ done.mpr)
    refine ⟨?_, silent.write writes nofun⟩
    cases writes <;> exact absent
  standing := fun _ present => absurd unmapped.1 present
  past := fun isDone _ =>
    over_of_disconnected (reported.standing (done.mp isDone) was) wires owned known writes

end Reported

/-- What holds of every cluster. -/
structure Orderly (cluster : Cluster Member) : Prop where
  nodes : ∀ member app, Sound (cluster.node member app)
  allocated : ∀ member app oid, (cluster.node member app).allocated oid = true →
    oid < 2 ^ 64 ∧ cluster.owner (sessionKey app oid) = some member
  inverse : Inverse cluster.nodemap
  wires : Wires cluster
  owned : Owned cluster
  reported : ∀ member app oid, oid < 2 ^ 64 →
    cluster.owner (sessionKey app oid) = some member →
    Reported cluster member (sessionKey app oid) (cluster.node member app) oid

namespace Orderly

variable {cluster after : Cluster Member} {member : Member} {id : Nat}

theorem start (Member : Type) : Orderly (.start Member) where
  nodes _ _ := .start
  allocated := nofun
  inverse := new_inverse
  wires := ⟨nofun, nofun, nofun, nofun, nofun, nofun⟩
  owned := ⟨nofun, nofun, nofun⟩
  reported := nofun

variable (orderly : Orderly cluster)
include orderly

/-- Nothing is known of a session that has not been made. -/
theorem unmade (app : App) (oid : Oid) (fresh : cluster.owner (sessionKey app oid) = none) :
    Reported cluster member (sessionKey app oid) (cluster.node member app) oid := by
  have unsaid : ∀ notice, notice.about = some (sessionKey app oid) → Unsaid cluster notice := by
    intro notice about
    constructor
    · intro sender present
      have owner := orderly.owned.outbound sender notice _ present about
      rw [fresh] at owner
      cases owner
    · intro id link there present
      have owner := orderly.owned.links id link notice _ there present about
      rw [fresh] at owner
      cases owner
  have notDone : ¬Done (cluster.node member app) oid := by
    intro done
    have owner := (orderly.allocated member app oid
      (done.allocated (orderly.nodes member app).books)).2
    rw [fresh] at owner
    cases owner
  exact {
    left := .inr (unsaid _ rfl)
    waiting := by
      intro _
      refine ⟨?_, unsaid _ rfl⟩
      cases value : cluster.value (sessionKey app oid) with
      | none => rfl
      | some nodeId => exact absurd fresh (orderly.owned.values _ nodeId value).1
    standing := fun done => absurd done notDone
    past := fun done => absurd done notDone }

/-- The nodes have nothing to do with a step. -/
theorem pass (node : after.node = cluster.node)
    (owner : after.owner = cluster.owner) (inverse : Inverse after.nodemap) (wires : Wires after)
    (owned : Owned after)
    (reported : ∀ member app oid, oid < 2 ^ 64 → cluster.owner (sessionKey app oid) = some member →
      Reported cluster member (sessionKey app oid) (cluster.node member app) oid →
      Reported after member (sessionKey app oid) (cluster.node member app) oid) :
    Orderly after where
  nodes := by
    rw [node]
    exact orderly.nodes
  allocated := by
    rw [node, owner]
    exact orderly.allocated
  inverse := inverse
  wires := wires
  owned := owned
  reported := by
    rw [node, owner]
    intro member app oid small known
    exact reported member app oid small known (orderly.reported member app oid small known)

/-- The meta server reads a notice. -/
theorem deliver {notice : Notice} {rest : List Notice} {broken : Bool} (rebalancing : Rebalancing)
    (there : cluster.links id = some ⟨member, notice :: rest, broken⟩)
    (finds : ∀ key, notice = .disconnected key →
      FindsSession cluster.nodemap (.unmapSession key, rebalancing)) :
    Orderly ((cluster.setLink id (some ⟨member, rest, broken⟩)).receive id rebalancing notice) := by
  obtain ⟨_, _, frame⟩ := receive_frame (cluster.setLink id (some ⟨member, rest, broken⟩)) id
    rebalancing notice
  apply orderly.pass
  · rw [frame]
    rfl
  · rw [frame]
    rfl
  · exact receive_inverse rebalancing orderly.inverse finds
  · exact orderly.wires.deliver rebalancing there
  · exact orderly.owned.deliver orderly.wires rebalancing there
  · intro own app oid small known reported
    apply reported.pass
    · exact fun _ _ unsaid => unsaid.deliver rebalancing there
    · intro absent silent
      have still : (cluster.setLink id (some ⟨member, rest, broken⟩)).value
          (sessionKey app oid) = none := absent
      apply receive_value_none rebalancing still
      intro same
      exact silent.links id _ there (same ▸ List.mem_cons_self)
    · exact fun notOver standing =>
        standing.deliver orderly.wires orderly.owned known notOver rebalancing there
    · exact fun past => past.deliver rebalancing orderly.wires there

/-- The meta server forgets a broken connection. -/
theorem forget {link : Link Member}
    (there : cluster.links id = some link) (broken : link.broken = true)
    (sites : after.sites = cluster.sites) (owner : after.owner = cluster.owner)
    (links : after.links = (cluster.setLink id none).links)
    (inverse : Inverse after.nodemap) (wires : Wires after) (owned : Owned after)
    (value : ∀ key, after.value key =
      if cluster.value key = some (id : NodeId) then none else cluster.value key) :
    Orderly after := by
  have outbound : after.outbound = cluster.outbound := by
    unfold Cluster.outbound
    rw [sites]
  apply orderly.pass
  · unfold Cluster.node
    rw [sites]
  · exact owner
  · exact inverse
  · exact wires
  · exact owned
  · intro own app oid small known reported
    apply reported.pass
    · intro notice _ unsaid
      have gone : Unsaid (cluster.setLink id none) notice := unsaid.setLink id nofun
      exact gone.of_same outbound links
    · intro absent _
      rw [value, absent]
      exact ite_self _
    · exact fun _ standing =>
        standing.forget there broken sites links fun elsewhere => by rw [value, if_neg elsewhere]
    · intro past
      apply past.forget sites links
      intro nodeId mapped
      rw [value] at mapped
      obtain ⟨_, mapped⟩ := Option.ite_none_left_eq_some.mp mapped
      exact mapped

/-- A connection breaks while nobody is logged in on its node. -/
theorem sever {link : Link Member} (kept : Nat)
    (there : cluster.links id = some link) (whole : link.broken = false)
    (nobody : ∀ app oid, ¬LoggedIn (cluster.node link.member app) oid) :
    Orderly (cluster.setLink id
      (some { link with notices := link.notices.take kept, broken := true })) := by
  apply orderly.pass
  · rfl
  · rfl
  · exact orderly.inverse
  · exact orderly.wires.sever kept there whole
  · apply orderly.owned.setLink
    intro found notice key isFound present about
    cases isFound
    exact orderly.owned.links id link notice key there (List.mem_of_mem_take present) about
  · intro own app oid small known reported
    constructor
    · cases reported.left with
      | inl gone => exact .inl gone
      | inr notOver =>
        apply Or.inr
        apply notOver.setLink
        intro found isFound present
        cases isFound
        exact notOver.links id link there (List.mem_of_mem_take present)
    · intro notDone
      obtain ⟨absent, silent⟩ := reported.waiting notDone
      refine ⟨absent, silent.setLink id ?_⟩
      intro found isFound present
      cases isFound
      exact silent.links id link there (List.mem_of_mem_take present)
    · intro done mapped
      apply (reported.standing done mapped).sever orderly.wires orderly.owned known kept there
      intro same
      exact nobody app oid (same ▸ (orderly.nodes own app).loggedIn_iff.mpr ⟨done, mapped⟩)
    · intro done absent
      apply (reported.past done absent).setLink
      intro found isFound isWhole
      cases isFound
      cases isWhole

omit orderly

variable [DecidableEq Member]

theorem connect (orderly : Orderly cluster) (offline : cluster.connection member = none) :
    Orderly (cluster.connected member) := by
  have node : (cluster.connected member).node = cluster.node := by
    funext other app
    show ((cluster.connected member).sites other).apps app = (cluster.sites other).apps app
    by_cases same : other = member
    · rw [same]
      exact congrFun (congrArg Site.apps (setSite_same _)) app
    · rw [connected_sites same]
  apply orderly.pass node rfl orderly.inverse (orderly.wires.connect offline)
    (orderly.owned.connect member)
  intro own app oid small known reported
  apply reported.pass
  · intro notice about unsaid
    apply unsaid.connect
    intro login
    rw [login] at about
    cases about
  · exact fun absent _ => absent
  · exact fun _ standing => standing.connect orderly.wires offline
  · exact fun past => past.connect orderly.wires orderly.owned member

theorem disconnect (orderly : Orderly cluster) (online : cluster.connection member = some id)
    (broken : ∀ link, cluster.links id = some link → link.broken = true) :
    Orderly (cluster.setSite member { cluster.sites member with connection := none }) := by
  have node : (cluster.setSite member { cluster.sites member with connection := none }).node =
      cluster.node := setSite_congr (by rfl : Site.apps _ = _)
  apply orderly.pass node rfl orderly.inverse (orderly.wires.disconnect online broken)
    (orderly.owned.setSite member (orderly.owned.outbound member))
  intro own app oid small known reported
  apply reported.pass
  · exact fun notice _ unsaid => unsaid.setSite member (unsaid.outbound member)
  · exact fun absent _ => absent
  · exact fun _ standing => standing.disconnect online broken
  · exact fun past => past.setSite member (past.outbound member)

end Orderly

section

variable {cluster claimed after : Cluster Member} {member other : Member} {app otherApp : App}
  {action : Action} {node next : Node} {event : Option Event} {oid : Oid}

/-- A session that is made has no owner before. -/
theorem claim_owner (claims : cluster.claim member app action = some claimed) :
    ∃ owner, claimed = { cluster with owner := owner } ∧
      (∀ key own, cluster.owner key = some own → owner key = some own) ∧
      (∀ key own, owner key = some own → cluster.owner key = some own ∨
        cluster.owner key = none ∧ own = member) ∧
      ∀ client oid, action = .persist client (some oid) →
        oid < 2 ^ 64 ∧ owner (sessionKey app oid) = some member := by
  unfold claim at claims
  split at claims
  next client oid =>
    obtain ⟨both, claims⟩ := Option.ite_none_right_eq_some.mp claims
    cases claims
    have fresh := Option.isNone_iff_eq_none.mp both.2
    refine ⟨_, rfl, ?_, ?_, ?_⟩
    · intro key own known
      by_cases same : key = sessionKey app oid
      · rw [same, fresh] at known
        cases known
      · exact (update_other _ _ same).trans known
    · intro key own known
      by_cases same : key = sessionKey app oid
      · rw [same, update_same] at known
        cases known
        exact .inr ⟨same ▸ fresh, rfl⟩
      · rw [update_other _ _ same] at known
        exact .inl known
    · intro other otherOid isPersist
      cases isPersist
      exact ⟨both.1, update_same _ _ _⟩
  next notPersist =>
    cases claims
    refine ⟨_, rfl, fun _ _ => id, fun _ _ => .inl, ?_⟩
    intro client oid isPersist
    exact absurd isPersist (notPersist client oid)

variable [DecidableEq Member]

theorem setNode_node : (cluster.setNode member app node).node other otherApp =
      if other = member ∧ otherApp = app then node else cluster.node other otherApp := by
  unfold Cluster.node setNode
  by_cases same : other = member
  · rw [same, setSite_same]
    by_cases sameApp : otherApp = app
    · rw [if_pos ⟨rfl, sameApp⟩, sameApp]
      exact update_same _ _ _
    · rw [if_neg fun both => sameApp both.2]
      exact update_other _ _ sameApp
  · rw [setSite_other _ same, if_neg fun both => same both.1]

/-- What is told, if anything, is written. -/
theorem tell_cases (cluster : Cluster Member) (member : Member) (app : App) (event : Option Event) :
    event.bind (Cluster.notice app) = none ∧ cluster.tell member app event = cluster ∨
      ∃ notice, event.bind (Cluster.notice app) = some notice ∧
        cluster.Writes member notice (cluster.tell member app event) := by
  unfold Cluster.tell
  cases told : event.bind (Cluster.notice app) with
  | none => exact .inl ⟨rfl, rfl⟩
  | some notice => exact .inr ⟨notice, rfl, cluster.writes member notice⟩

/-- Notices are about the session of the event. -/
theorem about_of_notice {notice : Notice} (told : event.bind (Cluster.notice app) = some notice) :
    ∃ oid, notice.about = some (sessionKey app oid) ∧
      (event = some (.sessionConnected oid) ∨ event = some (.sessionDisconnected oid)) := by
  cases event with
  | none => cases told
  | some event =>
    cases event with
    | sessionConnected oid =>
      cases told
      exact ⟨oid, rfl, .inl rfl⟩
    | sessionDisconnected oid =>
      cases told
      exact ⟨oid, rfl, .inr rfl⟩
    | loginCommitted _ _ => cases told
    | handlerCalled _ _ _ => cases told
    | absentHandler _ _ => cases told

/-- A session about which something happens has been made. -/
theorem allocated_of_event (books : Books node) (metaclient : node.metaclient = true)
    (taken : node.step action = some (next, event))
    (about : event = some (.sessionConnected oid) ∨ event = some (.sessionDisconnected oid)) :
    next.allocated oid = true := by
  have nextBooks := books.step taken
  have moves : Moves node next oid event := moves_of_step books metaclient taken
  cases moves with
  | stays _ _ _ silent =>
    cases about with
    | inl connected => exact absurd connected silent.1
    | inr disconnected => exact absurd disconnected silent.2
  | announced _ done _ _ | passes _ done _ _ => exact done.allocated nextBooks
  | leaves _ _ unmapped _ => exact unmapped.allocated nextBooks

/-- What is told changes connections only. -/
theorem tell_frame (cluster : Cluster Member) (member : Member) (app : App) (event : Option Event) :
    (cluster.tell member app event).node = cluster.node ∧
      (cluster.tell member app event).owner = cluster.owner ∧
      (cluster.tell member app event).nodemap = cluster.nodemap := by
  cases tell_cases cluster member app event with
  | inl silent =>
    rw [silent.2]
    exact ⟨rfl, rfl, rfl⟩
  | inr told =>
    obtain ⟨notice, _, writes⟩ := told
    generalize cluster.tell member app event = after at writes
    cases writes with
    | waits offline =>
      exact ⟨setSite_congr (by rfl : Site.apps _ = _), rfl, rfl⟩
    | sent => exact ⟨rfl, rfl, rfl⟩
    | lost => exact ⟨rfl, rfl, rfl⟩

/-- A node tells about another session. -/
theorem Reported.tellOther {key : QualifiedKey} {sender : Member}
    (reported : Reported cluster member key node oid)
    (apart : ∀ notice, event.bind (Cluster.notice app) = some notice → notice.about ≠ some key) :
    Reported (cluster.tell sender app event) member key node oid := by
  cases tell_cases cluster sender app event with
  | inl silent =>
    rw [silent.2]
    exact reported
  | inr told =>
    obtain ⟨notice, isNotice, writes⟩ := told
    exact reported.write writes (apart notice isNotice)

/-- A node takes a step and tells about it. -/
theorem Reported.act (reported : Reported cluster member (sessionKey app oid) node oid)
    (wires : Wires cluster) (owned : Owned cluster)
    (known : cluster.owner (sessionKey app oid) = some member) (small : oid < 2 ^ 64)
    (sound : Sound node) (taken : node.step action = some (next, event))
    (allocated : ∀ oid, next.allocated oid = true → oid < 2 ^ 64)
    (announce : ∀ client accepted, action = .announce client →
      node.logins client = some (.present oid accepted) →
      node.oidsToClients oid ≠ none ∧ cluster.usable member = true) :
    Reported (cluster.tell member app event) member (sessionKey app oid) next oid := by
  have moves : Moves node next oid event := moves_of_step sound.books sound.metaclient taken
  cases moves with
  | stays done mapped unmapped silent =>
    apply (reported.stays done mapped unmapped).tellOther
    intro notice isNotice isAbout
    obtain ⟨about, same, either⟩ := about_of_notice isNotice
    rw [same] at isAbout
    have aboutSmall := allocated about
      (allocated_of_event sound.books sound.metaclient taken either)
    have isOid := (sessionKey_inj aboutSmall small (Option.some.inj isAbout)).2
    rw [isOid] at either
    cases either with
    | inl connected => exact silent.1 connected
    | inr disconnected => exact silent.2 disconnected
  | announced waiting done same told =>
    subst told
    obtain ⟨client, accepted, isAnnounce, stage⟩ := announce_of_connected taken
    obtain ⟨present, usable⟩ := announce client accepted isAnnounce stage
    exact reported.announced waiting done same present usable (cluster.writes member _)
  | leaves was done unmapped told =>
    subst told
    exact reported.leaves wires owned known was done unmapped (cluster.writes member _)
  | passes waiting done unmapped silent =>
    subst silent
    exact reported.passes waiting done unmapped

/-- The cluster after a node has acted, before anything is told. -/
structure Placed (cluster : Cluster Member) (owner : QualifiedKey → Option Member)
    (member : Member) (app : App) (next : Node) (middle : Cluster Member) : Prop where
  connection : middle.connection = cluster.connection
  outbound : middle.outbound = cluster.outbound
  nodes : ∀ other otherApp, middle.node other otherApp =
    if other = member ∧ otherApp = app then next else cluster.node other otherApp
  owner : middle.owner = owner
  links : middle.links = cluster.links
  nodemap : middle.nodemap = cluster.nodemap
  wires : Wires middle
  owned : Owned middle

theorem Orderly.placed (orderly : Orderly cluster) {owner : QualifiedKey → Option Member}
    (kept : ∀ key own, cluster.owner key = some own → owner key = some own) (member : Member)
    (app : App) (next : Node) : Placed cluster owner member app next
      ({ cluster with owner := owner }.setNode member app next) where
  connection := setNode_connection ..
  outbound := setNode_outbound ..
  nodes _ _ := setNode_node ..
  owner := rfl
  links := rfl
  nodemap := rfl
  wires := by
    have connection : ({ cluster with owner := owner }.setNode member app next).connection =
        cluster.connection := setNode_connection ..
    exact orderly.wires.of_same connection rfl rfl rfl
  owned := by
    have more := orderly.owned.more kept
    constructor
    · rw [setNode_outbound]
      exact more.outbound
    · exact more.links
    · exact more.values

theorem Orderly.act (orderly : Orderly cluster)
    (taken : (cluster.node member app).step action = some (next, event))
    (claims : cluster.claim member app action = some claimed)
    (stays : clientStays (cluster.node member app) action = true)
    (announce : ∀ client oid accepted, action = .announce client →
      (cluster.node member app).logins client = some (.present oid accepted) →
      accepted = true ∧ (cluster.node member app).oidsToClients oid ≠ none ∧
        cluster.usable member = true) :
    Orderly ((claimed.setNode member app next).tell member app event) := by
  obtain ⟨owner, isClaimed, kept, grown, made⟩ := claim_owner claims
  have sound := orderly.nodes member app
  have soundNext : Sound next := by
    apply sound.step stays _ taken
    intro client oid accepted isAnnounce stage
    exact (announce client oid accepted isAnnounce stage).1
  -- The ids of the node are its own.
  have allocated : ∀ oid, next.allocated oid = true →
      oid < 2 ^ 64 ∧ owner (sessionKey app oid) = some member := by
    intro oid isAllocated
    cases allocated_of_step taken isAllocated with
    | inl was =>
      obtain ⟨small, known⟩ := orderly.allocated member app oid was
      exact ⟨small, kept _ _ known⟩
    | inr isNew =>
      obtain ⟨client, isPersist⟩ := isNew
      exact made client oid isPersist
  -- What is told is about a session of the node.
  have told : ∀ notice, event.bind (Cluster.notice app) = some notice → ∀ key,
      notice.about = some key → owner key = some member := by
    intro notice isNotice key about
    obtain ⟨oid, isAbout, either⟩ := about_of_notice isNotice
    cases isAbout.symm.trans about
    exact (allocated oid (allocated_of_event sound.books sound.metaclient taken either)).2
  have placed := orderly.placed kept member app next
  rw [← isClaimed] at placed
  generalize claimed.setNode member app next = middle at placed ⊢
  have usable : middle.usable member = cluster.usable member := by
    unfold Cluster.usable
    rw [show (middle.sites member).connection = (cluster.sites member).connection from
      congrFun placed.connection member, placed.links]
  obtain ⟨afterNode, afterOwner, afterNodemap⟩ := tell_frame middle member app event
  constructor
  · intro other otherApp
    rw [afterNode, placed.nodes]
    split
    next => exact soundNext
    next => exact orderly.nodes other otherApp
  · intro other otherApp oid isAllocated
    rw [afterNode, placed.nodes] at isAllocated
    rw [afterOwner, placed.owner]
    split at isAllocated
    next both =>
      rw [both.1, both.2]
      exact allocated oid isAllocated
    next =>
      obtain ⟨small, known⟩ := orderly.allocated other otherApp oid isAllocated
      exact ⟨small, kept _ _ known⟩
  · rw [afterNodemap, placed.nodemap]
    exact orderly.inverse
  · cases tell_cases middle member app event with
    | inl silent =>
      rw [silent.2]
      exact placed.wires
    | inr told =>
      obtain ⟨notice, _, writes⟩ := told
      exact placed.wires.write writes
  · cases tell_cases middle member app event with
    | inl silent =>
      rw [silent.2]
      exact placed.owned
    | inr isTold =>
      obtain ⟨notice, isNotice, writes⟩ := isTold
      apply placed.owned.write placed.wires writes
      rw [placed.owner]
      exact told notice isNotice
  · intro other otherApp oid small known
    rw [afterOwner, placed.owner] at known
    rw [afterNode, placed.nodes]
    have before : Reported cluster other (sessionKey otherApp oid)
        (cluster.node other otherApp) oid := by
      cases grown _ _ known with
      | inl was => exact orderly.reported other otherApp oid small was
      | inr isNew => exact orderly.unmade otherApp oid isNew.1
    have here : Reported middle other (sessionKey otherApp oid)
        (cluster.node other otherApp) oid := by
      apply before.of_same placed.connection placed.outbound placed.links
      unfold Cluster.value
      rw [placed.nodemap]
    split
    next both =>
      obtain ⟨same, sameApp⟩ := both
      subst same sameApp
      apply here.act placed.wires placed.owned (placed.owner ▸ known) small sound taken
      · exact fun oid isAllocated => (allocated oid isAllocated).1
      · intro client accepted isAnnounce stage
        rw [usable]
        exact (announce client oid accepted isAnnounce stage).2
    next apart =>
      apply here.tellOther
      intro notice isNotice isAbout
      obtain ⟨about, same, _⟩ := about_of_notice isNotice
      have isMember := told notice isNotice _ isAbout
      rw [known] at isMember
      rw [same] at isAbout
      exact apart ⟨Option.some.inj isMember,
        (congrArg QualifiedKey.app (Option.some.inj isAbout)).symm⟩

end

section

variable [DecidableEq Member] {cluster next : Cluster Member} {action : ClusterAction Member}

theorem Orderly.step (orderly : Orderly cluster) {result : Unit}
    (announces : Announces cluster action) (taken : cluster.step action = some (next, result)) :
    Orderly next := by
  cases Cluster.does_of_step taken with
  | @act member app action node event claimed stepped claims =>
    apply orderly.act stepped claims announces.1
    intro client oid accepted isAnnounce stage
    subst isAnnounce
    exact announces.2 oid accepted stage
  | connect offline => exact orderly.connect offline
  | sever there whole => exact orderly.sever _ there whole (announces _ there)
  | disconnect online broken => exact orderly.disconnect online broken
  | @deliver id rebalancing member notice rest broken there =>
    apply orderly.deliver rebalancing there
    intro key same
    exact announces _ key rest there (congrArg (· :: rest) same)
  | @clientError id member there served =>
    apply orderly.forget there rfl
    · rfl
    · rfl
    · rfl
    · exact orderly.inverse.unmapAll id
    · have gone : Wires { cluster.setLink id none with
          connectedServers := update cluster.connectedServers id false } :=
        orderly.wires.forget (update_same _ _ _) fun _ apart => update_other _ _ apart
      exact gone.of_same rfl rfl rfl rfl
    · exact orderly.owned.forget orderly.inverse id
    · exact fun key => unmapAll_value orderly.inverse _ _
  | @clientErrorEarly id member there notServed =>
    apply orderly.forget there rfl
    · rfl
    · rfl
    · rfl
    · exact orderly.inverse
    · exact orderly.wires.forget notServed fun _ _ => rfl
    · exact orderly.owned.setLink id fun _ _ _ isLink => nomatch isLink
    · intro key
      have elsewhere : cluster.value key ≠ some (id : NodeId) := by
        intro mapped
        obtain ⟨_, other, isOther, served⟩ := orderly.owned.values key _ mapped
        rw [← Int.ofNat_inj.mp isOther, notServed] at served
        cases served
      rw [if_neg elsewhere]
      rfl

/-- In every run in which sessions are announced when they should be and connections break only
while nobody is logged in, the map has the sessions that are logged in whenever nothing is under
way. -/
theorem sessions_mapped_when_quiet {trace : List (ClusterAction Member × Unit)}
    (run : Run step Announces (.start Member) trace cluster) (quiet : Quiet cluster) :
    MapsLoggedIn cluster := by
  have orderly : Orderly cluster :=
    run.state_invariant Orderly (.start Member) fun orderly announces taken =>
      orderly.step announces taken
  intro app oid small nodeId
  constructor
  · intro mapped
    obtain ⟨known, id, isId, served⟩ := orderly.owned.values _ nodeId mapped
    obtain ⟨member, isMember⟩ := Option.ne_none_iff_exists'.mp known
    have reported := orderly.reported member app oid small isMember
    obtain ⟨link, there⟩ := orderly.wires.served id served
    obtain ⟨empty, whole⟩ := quiet.links id link there
    rw [isId] at mapped
    by_cases done : Done (cluster.node member app) oid
    · by_cases absent : (cluster.node member app).oidsToClients oid = none
      · have ends := ((reported.past done absent).links id link there whole).2 mapped
        rw [empty] at ends
        cases ends
      · have standing := reported.standing done absent
        exact ⟨member, id, isId, standing.value_own mapped,
          (orderly.nodes member app).loggedIn_iff.mpr ⟨done, absent⟩⟩
    · cases (reported.waiting done).1.symm.trans mapped
  · intro ⟨member, id, isId, online, loggedIn⟩
    obtain ⟨done, present⟩ := (orderly.nodes member app).loggedIn_iff.mp loggedIn
    obtain ⟨_, known⟩ := orderly.allocated member app oid
      (done.allocated (orderly.nodes member app).books)
    have standing := (orderly.reported member app oid small known).standing done present
    obtain ⟨_, link, there, _, either⟩ := standing.online id online
    rw [isId]
    cases either with
    | inl mapped => exact mapped
    | inr absent =>
        rw [(quiet.links id link there).1] at absent
        cases absent.2

end

/-- A client logs in on a node that is connected. -/
theorem sessions_mapped_when_quiet_login :
    ∃ cluster : Cluster Unit, cluster.value (sessionKey "game" 5) = some 0 ∧
      MapsLoggedIn cluster := by
  have read : ∀ (notice : Notice) {cluster : Cluster Unit} {link : Link Unit},
      cluster.links 0 = some link →
      link.notices.head? = some notice → (∀ key, notice ≠ .disconnected key) →
      Announces cluster (.deliver 0 .none) := by
    intro notice cluster link there first apart other key rest isOther notices
    rw [there] at isOther
    cases isOther
    rw [notices] at first
    exact absurd (Option.some.inj first).symm (apart key)
  have run : Run step Announces (.start Unit) _ _ := Run.nil
    |>.snoc (show Announces _ (.connect ()) from trivial) rfl
    |>.snoc (read .login rfl rfl nofun) rfl
    |>.snoc (show Announces _ (.act () "game" (.accept 70)) from ⟨rfl, trivial⟩) rfl
    |>.snoc (show Announces _ (.act () "game" (.loginRequest 0 true)) from ⟨rfl, trivial⟩) rfl
    |>.snoc (show Announces _ (.act () "game" (.persist 0 (some 5))) from ⟨rfl, trivial⟩) rfl
    |>.snoc (show Announces _ (.act () "game" (.insert 0)) from ⟨rfl, trivial⟩) rfl
    |>.snoc (show Announces _ (.act () "game" (.execute 0 (.listener ⟨8, 9⟩))) from
      ⟨rfl, trivial⟩) rfl
    |>.snoc (show Announces _ (.act () "game" (.check 0)) from ⟨rfl, trivial⟩) rfl
    |>.snoc (show Announces _ (.act () "game" (.announce 0)) from ⟨rfl, by
      intro oid accepted stage
      cases stage
      exact ⟨rfl, nofun, rfl⟩⟩) rfl
    |>.snoc (read (.connected (sessionKey "game" 5)) rfl rfl nofun) rfl
  refine ⟨_, rfl, sessions_mapped_when_quiet run ?_⟩
  constructor
  · intro id link there
    cases id with
    | zero =>
        cases there
        exact ⟨rfl, rfl⟩
    | succ id => cases there
  · intro member
    nofun

/-- A client logs in, the connection of its node breaks, and the node gets another one. -/
def lostConnection : List (ClusterAction Unit) :=
  [.connect (), .deliver 0 .none, .act () "game" (.accept 70),
    .act () "game" (.loginRequest 0 true), .act () "game" (.persist 0 (some 5)),
    .act () "game" (.insert 0), .act () "game" (.execute 0 (.listener ⟨8, 9⟩)),
    .act () "game" (.check 0), .act () "game" (.announce 0), .deliver 0 .none, .sever 0 0,
    .clientError 0, .disconnect (), .connect (), .deliver 1 .none]

/-- The session is still logged in, and the map does not have it. -/
theorem lost_connection_unmaps :
    ∃ trace cluster, Run step anyAction (.start Unit) trace cluster ∧ Quiet cluster ∧
      LoggedIn (cluster.node () "game") 5 ∧
      cluster.value (sessionKey "game" 5) = none ∧ ¬MapsLoggedIn cluster := by
  have run : Run step anyAction (.start Unit) _ _ :=
    run_of_exec (show exec _ _ lostConnection = some (_, _) from rfl)
  refine ⟨_, _, run, ⟨?_, ?_⟩, ⟨0, _, rfl, rfl, rfl, rfl⟩, rfl, ?_⟩
  · intro id link there
    match id with
    | 0 => cases there
    | 1 =>
        cases there
        exact ⟨rfl, rfl⟩
    | id + 2 => cases there
  · intro member
    nofun
  · intro maps
    have mapped := (maps "game" 5 (by decide) 1).mpr
      ⟨(), 1, rfl, rfl, 0, _, rfl, rfl, rfl, rfl⟩
    cases mapped

end Gzochi.Game
