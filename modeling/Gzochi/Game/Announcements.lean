import Gzochi.Game.Cluster

/-!
# Announced sessions

A session is waiting to be announced, or it has been announced and is in the tables, or it is
over.  From this and from the notices that are under way follows what the map of the meta server
has for it.
-/

namespace Gzochi.Game

open Lib Nodemap
open Data (Oid update update_same update_other)

/-! ## The sessions of a node -/

section

variable {node next other : Node} {action : Action} {event : Option Event} {oid : Oid}

/-- The login task of the session has returned. -/
def Done (node : Node) (oid : Oid) : Prop :=
  ∃ client accepted, node.logins client = some (.done (some oid) accepted)

/-- The session has been taken out of the tables. -/
def Unmapped (node : Node) (oid : Oid) : Prop :=
  node.oidsToClients oid = none ∧
    ∃ client stage, node.logins client = some stage ∧ stage.oid = some oid ∧ stage.inserted = true

/-- What a step means for a session. -/
inductive Moves (node next : Node) (oid : Oid) (event : Option Event) : Prop where
  | stays (done : Done next oid ↔ Done node oid)
      (mapped : Done node oid → (next.oidsToClients oid = none ↔ node.oidsToClients oid = none))
      (unmapped : Unmapped node oid → Unmapped next oid)
      (silent : event ≠ some (.sessionConnected oid) ∧ event ≠ some (.sessionDisconnected oid))
  | announced (waiting : ¬Done node oid) (done : Done next oid)
      (same : next.oidsToClients oid = node.oidsToClients oid)
      (told : event = some (.sessionConnected oid))
  | leaves (was : node.oidsToClients oid ≠ none) (done : Done next oid ↔ Done node oid)
      (unmapped : Unmapped next oid) (told : event = some (.sessionDisconnected oid))
  | passes (waiting : ¬Done node oid) (done : Done next oid) (unmapped : Unmapped next oid)
      (silent : event = none)

/-- Only the logins and the table of sessions matter. -/
theorem Moves.congr (moves : Moves node next oid event) {before : Node}
    (loginsBefore : before.logins = node.logins)
    (clientsBefore : before.oidsToClients = node.oidsToClients)
    (logins : other.logins = next.logins)
    (oidsToClients : other.oidsToClients = next.oidsToClients) : Moves before other oid event := by
  have done {left right : Node} (logins : left.logins = right.logins) :
      Done left oid ↔ Done right oid := by
    unfold Done
    rw [logins]
  have unmapped {left right : Node} (logins : left.logins = right.logins)
      (clients : left.oidsToClients = right.oidsToClients) :
      Unmapped left oid ↔ Unmapped right oid := by
    unfold Unmapped
    rw [logins, clients]
  have was := done loginsBefore
  have gone := unmapped logins oidsToClients
  cases moves with
  | stays same mapped kept silent =>
    refine .stays ((done logins).trans (same.trans was.symm)) ?_ (fun missing => ?_) silent
    · rw [oidsToClients, clientsBefore, was]
      exact mapped
    · exact gone.mpr (kept ((unmapped loginsBefore clientsBefore).mp missing))
  | announced waiting isDone same told =>
    refine .announced (waiting ∘ was.mp) ((done logins).mpr isDone) ?_ told
    rw [oidsToClients, clientsBefore, same]
  | leaves there same missing told =>
    exact .leaves (clientsBefore ▸ there) ((done logins).trans (same.trans was.symm))
      (gone.mpr missing) told
  | passes waiting isDone missing silent =>
    exact .passes (waiting ∘ was.mp) ((done logins).mpr isDone) (gone.mpr missing) silent

/-- Nothing happens to the session. -/
theorem Moves.unchanged (logins : next.logins = node.logins)
    (oidsToClients : next.oidsToClients = node.oidsToClients)
    (silent : event ≠ some (.sessionConnected oid) ∧ event ≠ some (.sessionDisconnected oid)) :
    Moves node next oid event :=
  (Moves.stays Iff.rfl (fun _ => Iff.rfl) id silent : Moves node node oid event).congr rfl rfl
    logins oidsToClients

/-- A login gets to a stage; neither before nor after is it the completed one of the session. -/
structure Advances (node : Node) (client : Client) (stage : LoginStage) (oid : Oid) : Prop where
  before : ∀ accepted, node.logins client ≠ some (.done (some oid) accepted)
  after : ∀ accepted, stage ≠ .done (some oid) accepted
  kept : ∀ old, node.logins client = some old → old.inserted = true →
    stage.oid = old.oid ∧ stage.inserted = true

variable {client : Client} {stage : LoginStage}

theorem Advances.done (advances : Advances node client stage oid) :
    Done (node.setLogin client stage) oid ↔ Done node oid := by
  have here : (node.setLogin client stage).logins client = some stage := update_same _ _ _
  have others : ∀ other, other ≠ client →
      (node.setLogin client stage).logins other = node.logins other :=
    fun other apart => update_other _ _ apart
  constructor
  · intro ⟨other, accepted, known⟩
    by_cases same : other = client
    · rw [same, here] at known
      exact absurd (Option.some.inj known) (advances.after accepted)
    · exact ⟨other, accepted, (others other same).symm.trans known⟩
  · intro ⟨other, accepted, known⟩
    have apart : other ≠ client := by
      intro same
      exact advances.before accepted (same ▸ known)
    exact ⟨other, accepted, (others other apart).trans known⟩

variable {old : LoginStage}

variable (advances : Advances node client stage oid)
include advances

/-- The session of a login stays that of a login. -/
theorem Advances.inserted {other : Client}
    (known : node.logins other = some old) (isOid : old.oid = some oid)
    (inserted : old.inserted = true) :
    ∃ client' stage', (node.setLogin client stage).logins client' = some stage' ∧
      stage'.oid = some oid ∧ stage'.inserted = true := by
  by_cases same : other = client
  · obtain ⟨sameOid, still⟩ := advances.kept old (same ▸ known) inserted
    exact ⟨client, stage, update_same _ _ _, sameOid.trans isOid, still⟩
  · exact ⟨other, old, (update_other _ _ same).trans known, isOid, inserted⟩

theorem Advances.moves
    (silent : event ≠ some (.sessionConnected oid) ∧ event ≠ some (.sessionDisconnected oid)) :
    Moves node (node.setLogin client stage) oid event := by
  apply Moves.stays advances.done (fun _ => Iff.rfl) _ silent
  intro ⟨absent, other, old, known, isOid, inserted⟩
  exact ⟨absent, advances.inserted known isOid inserted⟩

/-- Most stages say nothing. -/
theorem Advances.silent : Moves node (node.setLogin client stage) oid none :=
  advances.moves ⟨nofun, nofun⟩

omit advances

/-- The usual case: the stage of a login that is under way. -/
theorem advances_of (stage : LoginStage) (known : node.logins client = some old)
    (before : ∀ accepted, old ≠ .done (some oid) accepted)
    (after : ∀ accepted, stage ≠ .done (some oid) accepted)
    (kept : old.inserted = true → stage.oid = old.oid ∧ stage.inserted = true) :
    Advances node client stage oid where
  before := by
    intro accepted isDone
    rw [known] at isDone
    exact before accepted (Option.some.inj isDone)
  after := after
  kept := by
    intro old' known' inserted
    rw [known] at known'
    cases known'
    exact kept inserted

/-- A session whose login is under way is not done. -/
theorem not_done (books : Books node) (known : node.logins client = some stage)
    (isOid : stage.oid = some oid) (under : ∀ accepted, stage ≠ .done (some oid) accepted) :
    ¬Done node oid := by
  intro ⟨other, accepted, isDone⟩
  have same := books.apart other client _ stage oid isDone known rfl isOid
  rw [same, known] at isDone
  exact under accepted (Option.some.inj isDone)

theorem leave_moves (books : Books node) (metaclient : node.metaclient = true)
    (gameClient : GameClient) :
    Moves node (node.leave gameClient).1 oid (node.leave gameClient).2 := by
  unfold Node.leave Node.disconnected
  split
  next =>
    split
    next => exact .unchanged rfl rfl ⟨by simp, by simp⟩
    next mapping _ =>
      simp only
      split
      next => exact .unchanged rfl rfl ⟨by simp, by simp⟩
      next client mapped =>
        by_cases same : oid = mapping.oid
        · subst same
          rw [metaclient]
          apply Moves.leaves
          · rw [mapped]
            simp
          · exact Iff.rfl
          · obtain ⟨stage, known, isOid, inserted⟩ := books.owner mapping.oid client mapped
            exact ⟨update_same _ _ _, client, stage, known, isOid, inserted⟩
          · rfl
        · have others : update node.oidsToClients mapping.oid none oid =
              node.oidsToClients oid := update_other _ _ same
          rw [metaclient]
          apply Moves.stays
          · exact Iff.rfl
          · exact fun _ => Eq.congr_left others
          · exact fun unmapped => ⟨others.trans unmapped.1, unmapped.2⟩
          · constructor
            · simp
            · intro isEvent
              cases isEvent
              exact same rfl
  next => exact .unchanged rfl rfl ⟨by simp, by simp⟩

variable {own : Oid}

variable (books : Books node)
include books

theorem insert_moves {gameClient : GameClient}
    (known : node.logins client = some (.persisted own)) :
    Moves node (node.insert client gameClient own) oid none := by
  have advances : Advances node client (.executing own 0) oid :=
    advances_of (.executing own 0) known nofun nofun nofun
  have done : Done (node.insert client gameClient own) oid ↔ Done node oid := advances.done
  by_cases same : oid = own
  · subst same
    have waiting := not_done books known rfl nofun
    apply Moves.stays done (fun isDone => absurd isDone waiting)
    · intro ⟨_, other, old, known', isOid, inserted⟩
      have isClient := books.apart other client old _ oid known' known isOid rfl
      rw [isClient, known] at known'
      cases known'
      cases inserted
    · exact ⟨nofun, nofun⟩
  · have others : (node.insert client gameClient own).oidsToClients oid =
        node.oidsToClients oid := update_other _ _ same
    apply Moves.stays done
    · exact fun _ => by rw [others]
    · intro ⟨absent, other, old, known', isOid, inserted⟩
      exact ⟨others.trans absent, advances.inserted known' isOid inserted⟩
    · exact ⟨nofun, nofun⟩

/-- The task that catches a login takes its session out of the table. -/
theorem unmap_moves {found : Option Client}
    (known : node.logins client = some (.lookedUp own found))
    (logins : next.logins = (node.setLogin client (.unmapped own found)).logins)
    (oidsToClients : next.oidsToClients = update node.oidsToClients own none) :
    Moves node next oid none := by
  have advances : Advances node client (.unmapped own found) oid :=
    advances_of (.unmapped own found) known nofun nofun fun _ => ⟨rfl, rfl⟩
  have done : Done next oid ↔ Done node oid := by
    rw [← advances.done]
    unfold Done
    rw [logins]
  by_cases same : oid = own
  · subst same
    have waiting := not_done books known rfl nofun
    apply Moves.stays done (fun isDone => absurd isDone waiting)
    · intro _
      refine ⟨?_, client, .unmapped oid found, ?_, rfl, rfl⟩
      · rw [oidsToClients]
        exact update_same _ _ _
      · rw [logins]
        exact update_same _ _ _
    · exact ⟨nofun, nofun⟩
  · have others : next.oidsToClients oid = node.oidsToClients oid := by
      rw [oidsToClients]
      exact update_other _ _ same
    apply Moves.stays done
    · exact fun _ => by rw [others]
    · intro ⟨absent, other, old, known', isOid, inserted⟩
      obtain ⟨client', stage', found', rest⟩ := advances.inserted known' isOid inserted
      exact ⟨others.trans absent, client', stage', (congrFun logins client').trans found', rest⟩
    · exact ⟨nofun, nofun⟩

/-- A login task returns. -/
theorem done_moves (accepted : Bool) (known : node.logins client = some old)
    (isOid : old.oid = some own) (under : ∀ oid accepted, old ≠ .done (some oid) accepted)
    (either : event = some (.sessionConnected own) ∨ event = none ∧ node.oidsToClients own = none) :
    Moves node (node.setLogin client (.done (some own) accepted)) oid event := by
  have here : (node.setLogin client (.done (some own) accepted)).logins client =
      some (.done (some own) accepted) := update_same _ _ _
  by_cases same : oid = own
  · subst same
    have waiting := not_done books known isOid (under oid)
    have done : Done (node.setLogin client (.done (some oid) accepted)) oid :=
      ⟨client, accepted, here⟩
    cases either with
    | inl told => exact .announced waiting done rfl told
    | inr silent => exact .passes waiting done ⟨silent.2, client, _, here, rfl, rfl⟩ silent.1
  · have advances : Advances node client (.done (some own) accepted) oid := by
      apply advances_of (.done (some own) accepted) known (under oid)
      · intro accepted' isDone
        cases isDone
        exact same rfl
      · exact fun _ => ⟨isOid.symm, rfl⟩
    apply advances.moves
    cases either with
    | inl told =>
      rw [told]
      constructor
      · intro isEvent
        cases isEvent
        exact same rfl
      · nofun
    | inr silent =>
      rw [silent.1]
      exact ⟨nofun, nofun⟩

/-- Every step of a node means something for a session. -/
theorem moves_of_step (metaclient : node.metaclient = true)
    (taken : node.step action = some (next, event)) : Moves node next oid event := by
  cases does_of_step taken with
  | @loginRequest client gameClient authenticated readable =>
    have there := (books.readable readable).2.1
    unfold Node.dispatchLoginRequest
    split
    next => exact .unchanged rfl rfl ⟨nofun, nofun⟩
    next noIdentity =>
      split
      next =>
        have noLogin : ∀ stage, node.logins client ≠ some stage := by
          intro stage known
          obtain ⟨found, present, identity⟩ := books.loginKnown _ stage known
          cases there.symm.trans present
          exact noIdentity identity
        have advances : Advances node client .scheduled oid :=
          ⟨fun _ => noLogin _, nofun, fun old known => absurd known (noLogin old)⟩
        exact advances.silent.congr rfl rfl rfl rfl
      next => exact .unchanged rfl rfl ⟨nofun, nofun⟩
  | logoutRequest readable => exact (leave_moves books metaclient _).congr rfl rfl rfl rfl
  | @clientError client gameClient readable =>
    obtain ⟨_, there, _, alive⟩ := books.readable readable
    have past : Books (node.setClient client { gameClient with ended := true }) :=
      books.setClient there rfl id id fun _ => rfl
    unfold Node.clientError
    split
    next => exact .unchanged rfl rfl ⟨nofun, nofun⟩
    next =>
      have left : Moves (node.setClient client { gameClient with ended := true }) _ oid _ :=
        leave_moves past metaclient gameClient
      exact left.congr rfl rfl rfl rfl
  | sessionMessage readable =>
    unfold Node.dispatchSessionMessage
    split
    next =>
      split
      next => exact .unchanged rfl rfl ⟨nofun, nofun⟩
      next => exact .unchanged rfl rfl ⟨nofun, nofun⟩
    next => exact .unchanged rfl rfl ⟨nofun, nofun⟩
  | notPersisted stage =>
    exact (advances_of (.done none false) stage nofun nofun nofun).silent
  | @persisted client own stage fresh =>
    have advances : Advances node client (.persisted own) oid :=
      advances_of (.persisted own) stage nofun nofun nofun
    exact advances.silent.congr rfl rfl rfl rfl
  | insert stage there => exact insert_moves books stage
  | @listener client own attempts handler stage stored =>
    have advances : Advances node client (.executed own true) oid :=
      advances_of (.executed own true) stage nofun nofun fun _ => ⟨rfl, rfl⟩
    have moves : Moves node (node.setLogin client (.executed own true)) oid
        (some (.loginCommitted own handler)) := advances.moves ⟨nofun, nofun⟩
    exact moves.congr rfl rfl rfl rfl
  | @refused client own attempts stage | @endCatchRemoved client own stage =>
    have advances : Advances node client (.executed own false) oid :=
      advances_of (.executed own false) stage nofun nofun fun _ => ⟨rfl, rfl⟩
    exact advances.silent.congr rfl rfl rfl rfl
  | gone stage | endCatch stage =>
    exact (advances_of (.executed _ false) stage nofun nofun fun _ => ⟨rfl, rfl⟩).silent
  | @again client own attempts outcome stage =>
    exact (advances_of (.executing own (attempts + 1)) stage nofun nofun fun _ => ⟨rfl, rfl⟩).silent
  | failed stage =>
    exact (advances_of (.failed _) stage nofun nofun fun _ => ⟨rfl, rfl⟩).silent
  | lookup stage =>
    exact (advances_of (.lookedUp _ _) stage nofun nofun fun _ => ⟨rfl, rfl⟩).silent
  | unmapNone stage | unmap stage there => exact unmap_moves books stage rfl rfl
  | tell stage =>
    exact (advances_of (.told _) stage nofun nofun fun _ => ⟨rfl, rfl⟩).silent
  | checkPresent stage mapped _ =>
    exact (advances_of (.present _ _) stage nofun nofun fun _ => ⟨rfl, rfl⟩).silent
  | checkDone stage either =>
    apply done_moves books _ stage rfl nofun
    cases either with
    | inl absent => exact .inr ⟨rfl, absent⟩
    | inr alone =>
      rw [metaclient] at alone
      cases alone
  | announce stage => exact done_moves books _ stage rfl nofun (.inl rfl)
  | @receive place task garbage access outcome there =>
    unfold Node.receive
    simp only
    split <;> exact .unchanged rfl rfl ⟨nofun, nofun⟩
  | runDisconnect there =>
    unfold Node.runDisconnect
    simp only
    split <;> exact .unchanged rfl rfl ⟨nofun, nofun⟩
  | accept | setDisconnected | clientFree | removeSession =>
    exact .unchanged rfl rfl ⟨nofun, nofun⟩

omit books

/-! ## Nodes that announce their sessions as they should -/

/-- A connection error changes the tables and the client, and submits a task. -/
theorem clientError_frame (node : Node) (client : Client) (gameClient : GameClient) :
    ∃ clients oidsToClients clientsToOids disconnects mainThread,
      (node.clientError client gameClient).1 = { node with
          clients := clients
          oidsToClients := oidsToClients
          clientsToOids := clientsToOids
          disconnects := disconnects
          mainThread := mainThread } := by
  unfold Node.clientError
  simp only
  split
  next => exact ⟨_, _, _, _, _, rfl⟩
  next =>
    obtain ⟨oidsToClients, clientsToOids, disconnects, same⟩ :=
      (node.setClient client { gameClient with ended := true }).leave_frame gameClient
    rw [same]
    exact ⟨_, _, _, _, _, rfl⟩

/-- A node keeps its connection to the meta server, or its lack of one, and only a new
session gets an id that has not been given out. -/
theorem frame_of_step (taken : node.step action = some (next, event)) :
    next.metaclient = node.metaclient ∧ (next.allocated = node.allocated ∨ ∃ client oid,
      action = .persist client (some oid) ∧ next.allocated = update node.allocated oid true) := by
  cases does_of_step taken with
  | loginRequest readable =>
    unfold Node.dispatchLoginRequest
    split
    next => exact ⟨rfl, .inl rfl⟩
    next => split <;> exact ⟨rfl, .inl rfl⟩
  | @logoutRequest client gameClient readable =>
    obtain ⟨_, _, _, same⟩ := node.leave_frame gameClient
    show (node.leave gameClient).1.metaclient = _ ∧ ((node.leave gameClient).1.allocated = _ ∨ _)
    rw [same]
    exact ⟨rfl, .inl rfl⟩
  | @clientError client gameClient readable =>
    obtain ⟨_, _, _, _, _, same⟩ := clientError_frame node client gameClient
    rw [same]
    exact ⟨rfl, .inl rfl⟩
  | sessionMessage readable =>
    unfold Node.dispatchSessionMessage
    split
    next => split <;> exact ⟨rfl, .inl rfl⟩
    next => exact ⟨rfl, .inl rfl⟩
  | @persisted client own stage fresh => exact ⟨rfl, .inr ⟨client, own, rfl, rfl⟩⟩
  | receive there =>
    unfold Node.receive
    simp only
    split <;> exact ⟨rfl, .inl rfl⟩
  | runDisconnect there =>
    unfold Node.runDisconnect
    simp only
    split <;> exact ⟨rfl, .inl rfl⟩
  | accept | setDisconnected | clientFree | notPersisted | insert | listener | refused | gone
  | again | failed | lookup | unmapNone | unmap | tell | endCatch | endCatchRemoved
  | checkPresent | checkDone | announce | removeSession => exact ⟨rfl, .inl rfl⟩

theorem allocated_of_step (taken : node.step action = some (next, event))
    (allocated : next.allocated oid = true) :
    node.allocated oid = true ∨ ∃ client, action = .persist client (some oid) := by
  rcases (frame_of_step taken).2 with same | ⟨client, own, persisted, same⟩
  · exact .inl (same ▸ allocated)
  · by_cases isOwn : oid = own
    · exact .inr ⟨client, isOwn ▸ persisted⟩
    · rw [same, update_other _ _ isOwn] at allocated
      exact .inl allocated

/-- The session of a login that has returned has been given out. -/
theorem Done.allocated (done : Done node oid) (books : Books node) : node.allocated oid = true := by
  obtain ⟨client, accepted, known⟩ := done
  exact books.allocated client _ oid known rfl

theorem Unmapped.allocated (unmapped : Unmapped node oid) (books : Books node) :
    node.allocated oid = true := by
  obtain ⟨_, client, stage, known, isOid, _⟩ := unmapped
  exact books.allocated client stage oid known isOid

/-- Sessions are announced by their logins. -/
theorem announce_of_connected
    (taken : node.step action = some (next, some (.sessionConnected oid))) :
    ∃ client accepted, action = .announce client ∧
      node.logins client = some (.present oid accepted) := by
  generalize isEvent : some (Event.sessionConnected oid) = event at taken
  cases does_of_step taken with
  | @logoutRequest client gameClient readable =>
    obtain ⟨session, same⟩ := node.leave_event gameClient isEvent.symm
    cases same
  | @clientError client gameClient readable =>
    obtain ⟨session, same⟩ := node.clientError_event client gameClient isEvent.symm
    cases same
  | @announce client own accepted stage =>
    cases isEvent
    exact ⟨client, accepted, rfl, stage⟩
  | receive there =>
    revert isEvent
    unfold Node.receive
    simp only
    split <;> nofun
  | accept | loginRequest | sessionMessage | setDisconnected | clientFree | notPersisted | persisted
  | insert | listener | refused | gone | again | failed | lookup | unmapNone | unmap | tell
  | endCatch | endCatchRemoved | checkPresent | checkDone | runDisconnect | removeSession =>
    cases isEvent

/-- The sessions in the tables whose logins have returned have been accepted. -/
def Accepted (node : Node) : Prop :=
  ∀ client oid accepted, node.logins client = some (.done (some oid) accepted) →
    node.oidsToClients oid ≠ none → accepted = true

theorem setLogin_known {other : Client} {stage' : LoginStage}
    (known : (node.setLogin client stage).logins other = some stage') :
    stage' = stage ∧ other = client ∨ node.logins other = some stage' := by
  by_cases same : other = client
  · have here : (node.setLogin client stage).logins other = some stage := by
      rw [same]
      exact update_same _ _ _
    rw [here] at known
    exact .inl ⟨(Option.some.inj known).symm, same⟩
  · exact .inr ((update_other _ _ same).symm.trans known)

/-- A login that has returned after a step had returned before, or its session is missing, or the
session is announced. -/
theorem returned_of_step (metaclient : node.metaclient = true)
    (taken : node.step action = some (next, event)) {accepted : Bool}
    (known : next.logins client = some (.done (some oid) accepted)) :
    node.logins client = some (.done (some oid) accepted) ∨ next.oidsToClients oid = none ∨
      action = .announce client ∧ node.logins client = some (.present oid accepted) := by
  have under : ∀ (other : Client) (stage : LoginStage),
      (node.setLogin other stage).logins client = some (.done (some oid) accepted) →
      (∀ oid accepted, stage ≠ .done (some oid) accepted) →
      node.logins client = some (.done (some oid) accepted) := by
    intro other stage known apart
    cases setLogin_known known with
    | inl here => exact absurd here.1.symm (apart oid accepted)
    | inr was => exact was
  cases does_of_step taken with
  | @loginRequest other gameClient authenticated readable =>
    revert known
    unfold Node.dispatchLoginRequest
    split
    next => exact .inl
    next =>
      split
      next => exact fun known => .inl (under other .scheduled known nofun)
      next => exact .inl
  | @logoutRequest other gameClient readable =>
    obtain ⟨_, _, _, same⟩ := node.leave_frame gameClient
    replace known : (node.leave gameClient).1.logins client = _ := known
    rw [same] at known
    exact .inl known
  | @clientError other gameClient readable =>
    obtain ⟨_, _, _, _, _, same⟩ := clientError_frame node other gameClient
    rw [same] at known
    exact .inl known
  | sessionMessage readable =>
    revert known
    unfold Node.dispatchSessionMessage
    split
    next => split <;> exact .inl
    next => exact .inl
  | notPersisted | persisted | insert | listener | refused | gone | again | failed | lookup
  | unmapNone | unmap | tell | endCatch | endCatchRemoved | checkPresent =>
    exact .inl (under _ _ known nofun)
  | checkDone stage either =>
    cases setLogin_known known with
    | inl here =>
      cases here.1
      cases either with
      | inl absent => exact .inr (.inl absent)
      | inr alone =>
        rw [metaclient] at alone
        cases alone
    | inr was => exact .inl was
  | announce stage =>
    cases setLogin_known known with
    | inl here =>
      cases here.1
      rw [here.2]
      exact .inr (.inr ⟨rfl, stage⟩)
    | inr was => exact .inl was
  | receive there =>
    revert known
    unfold Node.receive
    simp only
    split <;> exact .inl
  | runDisconnect there =>
    revert known
    unfold Node.runDisconnect
    simp only
    split <;> exact .inl
  | accept | setDisconnected | clientFree | removeSession => exact .inl known

/-- What holds of every node: the books and the tables are in order, and sessions are announced
after their logins have been accepted. -/
structure Sound (node : Node) : Prop where
  books : Books node
  tables : Tables node
  metaclient : node.metaclient = true
  accepted : Accepted node

theorem Sound.start : Sound (.start true) := ⟨.start true, .start true, rfl, nofun⟩

theorem Sound.step (sound : Sound node) (stays : clientStays node action = true)
    (announce : ∀ client oid accepted, action = .announce client →
      node.logins client = some (.present oid accepted) → accepted = true)
    (taken : node.step action = some (next, event)) : Sound next where
  books := sound.books.step taken
  tables := sound.tables.step sound.books stays taken
  metaclient := (frame_of_step taken).1.trans sound.metaclient
  accepted := by
    intro client oid accepted known mapped
    cases returned_of_step sound.metaclient taken known with
    | inl was =>
      apply sound.accepted client oid accepted was
      intro absent
      have unmapped : Unmapped next oid := by
        have moves : Moves node next oid event := moves_of_step sound.books sound.metaclient taken
        cases moves with
        | stays _ _ unmapped _ => exact unmapped ⟨absent, client, _, was, rfl, rfl⟩
        | announced waiting _ _ _ => exact absurd ⟨client, accepted, was⟩ waiting
        | leaves _ _ unmapped _ => exact unmapped
        | passes _ _ unmapped _ => exact unmapped
      exact mapped unmapped.1
    | inr other =>
      cases other with
      | inl absent => exact absurd absent mapped
      | inr isAnnounced => exact announce client oid accepted isAnnounced.1 isAnnounced.2

/-- The sessions that are logged in are those in the tables whose logins have returned. -/
theorem Sound.loggedIn_iff (sound : Sound node) :
    LoggedIn node oid ↔ Done node oid ∧ node.oidsToClients oid ≠ none := by
  constructor
  · intro ⟨client, gameClient, known, mapped, _⟩
    refine ⟨⟨client, true, known⟩, ?_⟩
    rw [mapped]
    nofun
  · intro ⟨⟨client, accepted, known⟩, mapped⟩
    have isAccepted := sound.accepted client oid accepted known mapped
    obtain ⟨other, isOther⟩ := Option.ne_none_iff_exists'.mp mapped
    obtain ⟨stage, otherKnown, isOid, _⟩ := sound.books.owner oid other isOther
    have same := sound.books.apart other client stage _ oid otherKnown known isOid rfl
    obtain ⟨gameClient, there, ended, _⟩ := sound.tables.stays oid other isOther
    rw [same] at isOther there
    rw [isAccepted] at known
    exact ⟨client, gameClient, known, isOther, there, ended⟩

end

end Gzochi.Game
