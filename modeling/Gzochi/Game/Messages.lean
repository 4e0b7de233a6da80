import Gzochi.Game.Steps

/-!
# Messages and the handlers of sessions

The task of a message reads the id of its session from memory that belongs to the tables, and
the handler of the session from the store.  The id is freed when the session is taken out of the
tables, and a session is stored without a handler before its login has committed.
-/

namespace Gzochi.Game

open Lib List
open Data (Oid Address update update_same update_other)

variable {node next : Node} {action : Action} {event : Option Event}
  {trace : List (Action × Option Event)}

/-- A handler is called only for the session of the message, after a login transaction of that
session has committed with it, and no handler is looked for where there is none. -/
structure HandlersCalled (trace : List (Action × Option Event)) : Prop where
  committed : ∀ early late action session read callback,
    trace = early ++ (action, some (.handlerCalled session read callback)) :: late →
    read = session ∧ ∃ handler login, handler.receivedMessage = callback ∧
      (login, some (.loginCommitted session handler)) ∈ early
  present : ∀ action session read, (action, some (.absentHandler session read)) ∉ trace

/-- When the task of a message is attempted, the entry that it reads its session from is still in
the table, and the session is not stored without a handler; that does not matter if the
transaction is refused the session. -/
def sessionReady (node : Node) : Action → Bool
  | .receive place _ access _ =>
      match node.messages[place]? with
      | some task =>
          match node.clientsToOids task.address with
          | some mapping =>
              mapping.cell == task.cell &&
                (access == .refused || node.sessions mapping.oid != some none)
          | none => false
      | none => true
  | _ => true

/-- The memory that a task has been given holds the id of its session as long as it is that of an
entry. -/
structure Cells (node : Node) : Prop where
  used : ∀ address mapping, node.clientsToOids address = some mapping →
    mapping.cell < node.nextCell
  taken : ∀ task ∈ node.messages, task.cell < node.nextCell
  own : ∀ task ∈ node.messages, ∀ mapping, node.clientsToOids task.address = some mapping →
    mapping.cell = task.cell → mapping.oid = task.session

namespace Cells

theorem start (metaclient : Bool) : Cells (.start metaclient) :=
  ⟨nofun, nofun, nofun⟩

/-- Entries may be removed. -/
theorem of_fewer (cells : Cells node) (nextCell : next.nextCell = node.nextCell)
    (messages : next.messages = node.messages)
    (fewer : ∀ address mapping, next.clientsToOids address = some mapping →
      node.clientsToOids address = some mapping) : Cells next where
  used := by
    rw [nextCell]
    exact fun address mapping present => cells.used address mapping (fewer address mapping present)
  taken := by
    rw [nextCell, messages]
    exact cells.taken
  own := by
    rw [messages]
    exact fun task member mapping present =>
      cells.own task member mapping (fewer task.address mapping present)

variable {mapping : Mapping}

theorem unmapped {address place : Address}
    (present : update node.clientsToOids address none place = some mapping) :
    node.clientsToOids place = some mapping := by
  by_cases same : place = address
  · have absent : update node.clientsToOids address none place = none := by
      rw [same]
      exact update_same _ _ _
    cases absent.symm.trans present
  · exact (update_other _ _ same).symm.trans present

variable (cells : Cells node)
include cells

theorem leave (gameClient : GameClient) : Cells (node.leave gameClient).1 := by
  unfold Node.leave Node.disconnected
  split
  next =>
    split
    next => exact cells
    next =>
      simp only
      split
      next => exact cells.of_fewer rfl rfl fun _ _ => id
      next => exact cells.of_fewer rfl rfl fun _ _ => unmapped
  next => exact cells

theorem insert (client : Client) (gameClient : GameClient) (oid : Oid) :
    Cells (node.insert client gameClient oid) := by
  have here : (node.insert client gameClient oid).clientsToOids gameClient.address =
      some ⟨node.nextCell, oid⟩ := update_same _ _ _
  have others : ∀ address, address ≠ gameClient.address →
      (node.insert client gameClient oid).clientsToOids address = node.clientsToOids address :=
    fun address apart => update_other _ _ apart
  exact {
    used := by
      intro address mapping present
      by_cases same : address = gameClient.address
      · rw [same, here] at present
        cases present
        exact Nat.lt_succ_self node.nextCell
      · rw [others address same] at present
        exact Nat.lt_succ_of_lt (cells.used address mapping present)
    taken := fun task member => Nat.lt_succ_of_lt (cells.taken task member)
    own := by
      intro task member mapping present isCell
      by_cases same : task.address = gameClient.address
      · rw [same, here] at present
        cases present
        exact absurd isCell (Nat.ne_of_gt (cells.taken task member))
      · rw [others _ same] at present
        exact cells.own task member mapping present isCell }

/-- A message for the session of an entry. -/
theorem message {gameClient : GameClient} (msg : Bytes)
    (present : node.clientsToOids gameClient.address = some mapping) :
    Cells { node with
      messages := node.messages ++
        [⟨gameClient.address, mapping.cell, mapping.oid, msg, 0, false⟩] } where
  used := cells.used
  taken := by
    intro task member
    cases mem_append.mp member with
    | inl earlier => exact cells.taken task earlier
    | inr last =>
      rw [mem_singleton.mp last]
      exact cells.used _ mapping present
  own := by
    intro task member found there isCell
    cases mem_append.mp member with
    | inl earlier => exact cells.own task earlier found there isCell
    | inr last =>
      rw [mem_singleton.mp last] at there ⊢
      cases present.symm.trans there
      rfl

theorem attempted {place : Nat} {task : MessageTask} (outcome : Outcome)
    (there : node.messages[place]? = some task) :
    Cells { node with messages := node.messages.set place (task.attempted outcome) } := by
  have same : (task.attempted outcome).address = task.address ∧
      (task.attempted outcome).cell = task.cell ∧
      (task.attempted outcome).session = task.session := by
    cases outcome <;> exact ⟨rfl, rfl, rfl⟩
  have member := mem_of_getElem? there
  exact {
    used := cells.used
    taken := by
      intro other among
      cases mem_or_eq_of_mem_set among with
      | inl earlier => exact cells.taken other earlier
      | inr isTask =>
        rw [isTask, same.2.1]
        exact cells.taken task member
    own := by
      intro other among mapping present isCell
      cases mem_or_eq_of_mem_set among with
      | inl earlier => exact cells.own other earlier mapping present isCell
      | inr isTask =>
        rw [isTask] at present isCell ⊢
        rw [same.1] at present
        rw [same.2.1] at isCell
        rw [same.2.2]
        exact cells.own task member mapping present isCell }

end Cells

theorem Cells.step (cells : Cells node) (taken : node.step action = some (next, event)) :
    Cells next := by
  cases does_of_step taken with
  | sessionMessage readable =>
    unfold Node.dispatchSessionMessage
    split
    next =>
      split
      next => exact cells
      next mapping present => exact cells.message _ present
    next => exact cells
  | logoutRequest readable => exact (cells.leave _).of_fewer rfl rfl fun _ _ => id
  | @clientError client gameClient readable =>
    have past : Cells (node.setClient client { gameClient with ended := true }) :=
      cells.of_fewer rfl rfl fun _ _ => id
    unfold Node.clientError
    split
    next => exact past
    next => exact (past.leave _).of_fewer rfl rfl fun _ _ => id
  | loginRequest readable =>
    unfold Node.dispatchLoginRequest
    split
    next => exact cells
    next =>
      split
      next => exact cells.of_fewer rfl rfl fun _ _ => id
      next => exact cells
  | insert stage there => exact cells.insert _ _ _
  | unmap stage there => exact cells.of_fewer rfl rfl fun _ _ => Cells.unmapped
  | receive there =>
    unfold Node.receive
    simp only
    split <;> exact cells.attempted _ there
  | runDisconnect there =>
    unfold Node.runDisconnect
    simp only
    split <;> exact cells.of_fewer rfl rfl fun _ _ => id
  | accept | setDisconnected | clientFree | notPersisted | persisted | listener | refused | gone
  | again | failed | lookup | unmapNone | tell | endCatch | endCatchRemoved | checkPresent
  | checkDone | announce | removeSession => exact cells.of_fewer rfl rfl fun _ _ => id

variable {oid : Oid} {handler : Handler}

theorem setSession_handler {other : Oid} {session : Option (Option Handler)}
    (stored : update node.sessions oid session other = some (some handler)) :
    node.sessions other = some (some handler) ∨ other = oid ∧ session = some (some handler) := by
  by_cases same : other = oid
  · have here : update node.sessions oid session other = session := by
      rw [same]
      exact update_same _ _ _
    exact .inr ⟨same, here.symm.trans stored⟩
  · exact .inl ((update_other _ _ same).symm.trans stored)

/-- Only a login that commits stores a handler. -/
theorem stored_handler (taken : node.step action = some (next, event))
    (stored : next.sessions oid = some (some handler)) :
    node.sessions oid = some (some handler) ∨ event = some (.loginCommitted oid handler) := by
  cases does_of_step taken with
  | @persisted client fresh stage unused | refused | endCatchRemoved | removeSession =>
    cases setSession_handler stored with
    | inl was => exact .inl was
    | inr isNew => cases isNew.2
  | @listener client own attempts found stage present =>
    cases setSession_handler stored with
    | inl was => exact .inl was
    | inr isNew =>
      obtain ⟨rfl, same⟩ := isNew
      cases same
      exact .inr rfl
  | runDisconnect there =>
    left
    unfold Node.runDisconnect at stored
    simp only at stored
    split at stored
    next =>
      cases setSession_handler stored with
      | inl was => exact was
      | inr isNew => cases isNew.2
    next => exact stored
  | loginRequest readable =>
    left
    unfold Node.dispatchLoginRequest at stored
    split at stored
    next => exact stored
    next =>
      split at stored
      next => exact stored
      next => exact stored
  | logoutRequest readable =>
    left
    rw [← node.leave_sessions]
    exact stored
  | clientError readable =>
    left
    rw [Node.clientError_sessions] at stored
    exact stored
  | sessionMessage readable =>
    left
    unfold Node.dispatchSessionMessage at stored
    split at stored
    next =>
      split at stored
      next => exact stored
      next => exact stored
    next => exact stored
  | receive there =>
    left
    unfold Node.receive at stored
    simp only at stored
    split at stored <;> exact stored
  | accept | setDisconnected | clientFree | notPersisted | insert | gone | again | failed | lookup
  | unmapNone | unmap | tell | endCatch | checkPresent | checkDone | announce => exact .inl stored

/-- The only steps that have to do with a handler are attempts of tasks of messages. -/
theorem handler_events (taken : node.step action = some (next, event)) {session read : Oid}
    (isHandler : (∃ callback, event = some (.handlerCalled session read callback)) ∨
      event = some (.absentHandler session read)) :
    ∃ place task garbage access outcome, action = .receive place garbage access outcome ∧
      node.messages[place]? = some task ∧
      event = (node.receive place task garbage access outcome).2 := by
  cases does_of_step taken with
  | @receive place task garbage access outcome there =>
    exact ⟨place, task, garbage, access, outcome, rfl, there, rfl⟩
  | logoutRequest readable =>
    cases isHandler with
    | inl called =>
      obtain ⟨callback, same⟩ := called
      obtain ⟨_, impossible⟩ := node.leave_event _ same
      cases impossible
    | inr absent =>
      obtain ⟨_, impossible⟩ := node.leave_event _ absent
      cases impossible
  | clientError readable =>
    cases isHandler with
    | inl called =>
      obtain ⟨callback, same⟩ := called
      obtain ⟨_, impossible⟩ := node.clientError_event _ _ same
      cases impossible
    | inr absent =>
      obtain ⟨_, impossible⟩ := node.clientError_event _ _ absent
      cases impossible
  | accept | loginRequest | sessionMessage | setDisconnected | clientFree | notPersisted
  | persisted | insert | listener | refused | gone | again | failed | lookup | unmapNone | unmap
  | tell | endCatch | endCatchRemoved | checkPresent | checkDone | announce | runDisconnect
  | removeSession =>
    cases isHandler with
    | inl called =>
      obtain ⟨callback, same⟩ := called
      cases same
    | inr absent => cases absent

variable {place : Nat} {task : MessageTask} {garbage : Oid} {access : Access} {outcome : Outcome}

/-- What is known about a message task whose session is ready. -/
theorem ready_message (cells : Cells node)
    (ready : sessionReady node (.receive place garbage access outcome) = true)
    (there : node.messages[place]? = some task) :
    node.read task garbage = task.session ∧
      (access = .refused ∨ node.sessions task.session ≠ some none) := by
  simp only [sessionReady, there] at ready
  split at ready
  next mapping present =>
    obtain ⟨isCell, stored⟩ := Bool.and_eq_true_iff.mp ready
    have isSession : mapping.oid = task.session :=
      cells.own task (mem_of_getElem? there) mapping present (beq_iff_eq.mp isCell)
    constructor
    · unfold Node.read
      rw [present]
      simp only [if_pos (beq_iff_eq.mp isCell), isSession]
    · rw [← isSession]
      cases Bool.or_eq_true_iff.mp stored with
      | inl refused => exact .inl (beq_iff_eq.mp refused)
      | inr notBare => exact .inr (bne_iff_ne.mp notBare)
  next => cases ready

/-- A message whose session is ready does not miss a handler, and calls that of its session. -/
theorem receive_event (cells : Cells node) {seen : Event}
    (ready : sessionReady node (.receive place garbage access outcome) = true)
    (there : node.messages[place]? = some task)
    (happened : (node.receive place task garbage access outcome).2 = some seen) :
    ∃ handler, node.sessions task.session = some (some handler) ∧
      seen = .handlerCalled task.session task.session handler.receivedMessage := by
  obtain ⟨isSession, stored⟩ := ready_message cells ready there
  unfold Node.receive at happened
  rw [isSession] at happened
  simp only at happened
  split at happened
  next => cases happened
  next => cases happened
  next accessible bare =>
    cases stored with
    | inl refused => exact absurd refused accessible
    | inr notBare => exact absurd bare notBare
  next => cases happened
  next handler there =>
    cases happened
    exact ⟨handler, there, rfl⟩

theorem HandlersCalled.snoc (called : HandlersCalled trace)
    (last : ∀ session read callback, event = some (.handlerCalled session read callback) →
      read = session ∧ ∃ handler login, handler.receivedMessage = callback ∧
        (login, some (.loginCommitted session handler)) ∈ trace)
    (present : ∀ session read, event ≠ some (.absentHandler session read)) :
    HandlersCalled (trace ++ [(action, event)]) where
  committed := by
    intro early late before session read callback split
    rcases split_snoc split with ⟨same, ends, _⟩ | ⟨shorter, front, _⟩
    · cases ends
      rw [← same]
      exact last session read callback rfl
    · exact called.committed early shorter before session read callback front
  present := by
    intro before session read member
    cases mem_append.mp member with
    | inl earlier => exact called.present before session read earlier
    | inr isLast =>
      cases mem_singleton.mp isLast
      exact present session read rfl

/-- What holds after every run in which sessions are ready for their messages. -/
structure Handled (trace : List (Action × Option Event)) (node : Node) : Prop where
  cells : Cells node
  stored : ∀ oid handler, node.sessions oid = some (some handler) →
    ∃ login, (login, some (.loginCommitted oid handler)) ∈ trace
  called : HandlersCalled trace

theorem Handled.step (handled : Handled trace node) (ready : sessionReady node action = true)
    (taken : node.step action = some (next, event)) :
    Handled (trace ++ [(action, event)]) next where
  cells := handled.cells.step taken
  stored := by
    intro oid handler present
    cases stored_handler taken present with
    | inl before =>
      obtain ⟨login, member⟩ := handled.stored oid handler before
      exact ⟨login, mem_append_left _ member⟩
    | inr committed =>
      rw [committed]
      exact ⟨action, mem_append_right _ mem_cons_self⟩
  called := by
    apply handled.called.snoc
    · intro session read callback isCall
      obtain ⟨place, task, garbage, access, outcome, rfl, there, isEvent⟩ :=
        handler_events taken (.inl ⟨callback, isCall⟩)
      rw [isCall] at isEvent
      obtain ⟨handler, stored, same⟩ := receive_event handled.cells ready there isEvent.symm
      cases same
      obtain ⟨login, member⟩ := handled.stored _ handler stored
      exact ⟨rfl, handler, login, rfl, member⟩
    · intro session read isAbsent
      obtain ⟨place, task, garbage, access, outcome, rfl, there, isEvent⟩ :=
        handler_events taken (.inr isAbsent)
      rw [isAbsent] at isEvent
      obtain ⟨handler, _, same⟩ := receive_event handled.cells ready there isEvent.symm
      cases same

/-- In every run in which the session of a message is in the tables and not without a handler
when its task is attempted, handlers are called for their own sessions after their logins have
committed, and no handler is missed. -/
theorem handlers_called_when_ready {metaclient : Bool}
    (run : Run Node.step (fun node action => sessionReady node action = true) (.start metaclient)
      trace node) : HandlersCalled trace := by
  have handled : Handled trace node := by
    apply run.invariant Handled
    · exact ⟨.start metaclient, nofun, ⟨fun early _ _ _ _ _ split => by simp at split,
        fun _ _ _ member => nomatch member⟩⟩
    · exact fun _ handled ready taken => handled.step ready taken
  exact handled.called

/-- A client logs in and sends a message. -/
def messageAfterLogin : List Action :=
  [.accept 70, .loginRequest 0 true, .persist 0 (some 5), .insert 0,
    .execute 0 (.listener ⟨8, 9⟩), .sessionMessage 0 [1, 2], .receive 0 6 .callback .retry,
    .receive 0 6 .callback .success]

theorem handlers_called_when_ready_after_login :
    ∃ trace, (Action.receive 0 6 .callback .success, some (Event.handlerCalled 5 5 8)) ∈ trace ∧
      HandlersCalled trace := by
  refine ⟨_, ?_, handlers_called_when_ready (run_of_tested_exec
    (show exec _ (Node.start false) messageAfterLogin = some (_, _) from rfl))⟩
  decide

/-- A client sends a message while its login is still being executed. -/
def messageDuringLogin : List Action :=
  [.accept 70, .loginRequest 0 true, .persist 0 (some 5), .insert 0, .sessionMessage 0 [1, 2],
    .receive 0 6 .callback .success]

theorem message_during_login_misses_handler :
    ∃ trace node, Run Node.step anyAction (.start false) trace node ∧ ¬HandlersCalled trace := by
  refine ⟨_, _, run_of_exec (show exec _ _ messageDuringLogin = some (_, _) from rfl), ?_⟩
  intro called
  apply called.present (.receive 0 6 .callback .success) 5 5
  decide

end Gzochi.Game
