import Gzochi.Data.Procedures

/-!
# The removal of a session

A session is made when a client logs in and gets its handler when the login callback of the
application has returned one.  It is removed with the objects of Scheme for the session and for
its handler, whose ids are fields of the session; before the login they are what `calloc` has
put there, which is the id of another object.
-/

namespace Gzochi.Session

open Lib Data ObjectStore Attains

variable {Identity Callback Other OtherKind Bytes : Type}

/-- `gzochid_client_session_handler`. -/
structure ClientSessionHandler (Callback : Type) where
  receivedMessage : Callback
  disconnected : Callback

/-- `gzochid_client_session`. -/
structure ClientSession (Identity Callback : Type) where
  identity : Identity
  handler : Option (ClientSessionHandler Callback)
  scmOid : Oid
  handlerScmOid : Oid

def gzochidClientSessionNew (identity : Identity) : ClientSession Identity Callback where
  identity := identity
  handler := none
  scmOid := 0
  handlerScmOid := 0

def gzochidClientSessionSetHandler (session : ClientSession Identity Callback)
    (handler : ClientSessionHandler Callback) : ClientSession Identity Callback :=
  { session with handler := some handler }

def gzochidClientSessionSetHandlerScmOid (session : ClientSession Identity Callback)
    (handlerScmOid : Oid) : ClientSession Identity Callback :=
  { session with handlerScmOid := handlerScmOid }

def gzochidClientSessionSetScmOid (session : ClientSession Identity Callback) (scmOid : Oid) :
    ClientSession Identity Callback :=
  { session with scmOid := scmOid }

/-- What the login callback of an application comes to.  The objects of Scheme for the session
and for a listener get ids of the store. -/
inductive LoginOutcome (Callback : Type) where
  | exception
  | refused
  | invalid
  | listener (handler : ClientSessionHandler Callback) (handlerScmOid scmOid : Oid)

/-- What `gzochid_scheme_application_logged_in_worker` makes of the session. -/
def gzochidSchemeApplicationLoggedInWorker (session : ClientSession Identity Callback) :
    LoginOutcome Callback → ClientSession Identity Callback
  | .exception | .refused | .invalid => session
  | .listener handler handlerScmOid scmOid =>
      gzochidClientSessionSetScmOid
        (gzochidClientSessionSetHandlerScmOid (gzochidClientSessionSetHandler session handler)
          handlerScmOid) scmOid

/-- A run of the login worker, whose transaction may be rolled back. -/
structure LoginAttempt (Callback : Type) where
  outcome : LoginOutcome Callback
  committed : Bool

def LoginAttempt.apply (session : ClientSession Identity Callback)
    (attempt : LoginAttempt Callback) : ClientSession Identity Callback :=
  if attempt.committed then gzochidSchemeApplicationLoggedInWorker session attempt.outcome
  else session

/-- The session after some attempts to log in. -/
def loginState (identity : Identity) (attempts : List (LoginAttempt Callback)) :
    ClientSession Identity Callback :=
  attempts.foldl LoginAttempt.apply (gzochidClientSessionNew identity)

/-- The fields of a session that has no handler are those of a new one. -/
def ClientSession.Blank (session : ClientSession Identity Callback) : Prop :=
  session.handler = none → session.scmOid = 0 ∧ session.handlerScmOid = 0

theorem LoginAttempt.apply_blank {session : ClientSession Identity Callback}
    (blank : session.Blank) (attempt : LoginAttempt Callback) :
    (attempt.apply session).Blank := by
  unfold LoginAttempt.apply
  split
  next =>
    cases attempt.outcome with
    | exception | refused | invalid => exact blank
    | listener handler handlerScmOid scmOid => exact nofun
  next => exact blank

theorem loginState_blank (identity : Identity) (attempts : List (LoginAttempt Callback)) :
    (loginState identity attempts).Blank := by
  have every : ∀ session : ClientSession Identity Callback, session.Blank →
      (attempts.foldl LoginAttempt.apply session).Blank := by
    induction attempts with
    | nil => exact fun _ blank => blank
    | cons attempt rest ih =>
      exact fun session blank => ih _ (LoginAttempt.apply_blank blank attempt)
  apply every
  exact fun _ => ⟨rfl, rfl⟩

/-- The serializations that matter here, and the others. -/
inductive Kind (OtherKind : Type) where
  | clientSession
  | scmLocationAware
  | other (kind : OtherKind)
  deriving DecidableEq

/-- Sessions, and the objects of other serializations. -/
inductive Object (Identity Callback Other : Type) where
  | clientSession (session : ClientSession Identity Callback)
  | other (object : Other)

abbrev SessionCodec (Identity Callback Other OtherKind Bytes : Type) :=
  Codec (Kind OtherKind) (Object Identity Callback Other) Bytes

abbrev SessionProcedure (Identity Callback Other OtherKind Bytes : Type) :=
  Procedure (Kind OtherKind) (Object Identity Callback Other) Bytes String

/-- `SESSION_PREFIX` and the id. -/
def sessionBinding (sessionOid : Oid) : String := "s.session." ++ toString sessionOid

/-- The session at an address. -/
def loadSession (address : Address) :
    SessionProcedure Identity Callback Other OtherKind Bytes (ClientSession Identity Callback) := do
  match ← Procedure.load address with
  | .clientSession session => pure session
  | .other _ => Procedure.crash

section

variable (codec : SessionCodec Identity Callback Other OtherKind Bytes)

def removeSession (sessionOid : Oid) :
    SessionProcedure Identity Callback Other OtherKind Bytes Unit := do
  Procedure.gzochidDataRemoveBinding codec (sessionBinding sessionOid)
  Procedure.gzochidDataCreateReferenceToOid codec .clientSession sessionOid
  let obj ← Procedure.gzochidDataDereference codec sessionOid false
  let address ← Procedure.expect obj
  let session ← loadSession address
  Procedure.gzochidDataCreateReferenceToOid codec .scmLocationAware session.scmOid
  Procedure.gzochidDataCreateReferenceToOid codec .scmLocationAware session.handlerScmOid
  Procedure.callCleared codec (.removeObject session.scmOid)
  Procedure.callCleared codec (.removeObject session.handlerScmOid)
  Procedure.gzochidDataRemoveObject codec sessionOid

end

section

variable {codec : SessionCodec Identity Callback Other OtherKind Bytes}
  {store : ObjectStore (Kind OtherKind) (Object Identity Callback Other) Bytes String}
  {session : ClientSession Identity Callback} {sessionOid : Oid}

/-- The ids whose objects a removal deletes. -/
def ClientSession.deleted (session : ClientSession Identity Callback) (sessionOid : Oid) :
    List Oid :=
  [sessionOid, session.scmOid, session.handlerScmOid]

theorem attains_loadSession {address : Address} {post : ClientSession Identity Callback → _ → Prop}
    (there : store.memory address = some (.clientSession session)) (holds : post session store) :
    Attains store (loadSession address) post := by
  apply Attains.bind
  apply Attains.load there
  exact .pure holds

/-- Objects that there are references to are removed, whether they are stored or not. -/
theorem attains_removals {scmOid handlerScmOid : Oid}
    (scm : store.knowledge scmOid ≠ .unknown) (handler : store.knowledge handlerScmOid ≠ .unknown)
    (fetched : store.Fetched sessionOid) :
    Attains store (do
        Procedure.callCleared codec (.removeObject scmOid)
        Procedure.callCleared codec (.removeObject handlerScmOid)
        Procedure.gzochidDataRemoveObject codec sessionOid) fun _ next =>
      next.names = store.names ∧ ∀ oid, next.commit codec oid =
          if oid ∈ [sessionOid, scmOid, handlerScmOid] then none else store.commit codec oid := by
  apply Attains.bind
  apply removeObject_cleared scm
  intro _
  apply Attains.bind
  apply removeObject_cleared (remove_keeps_known handler scmOid)
  intro _
  apply removeObject_fetched ((fetched.remove scmOid).remove handlerScmOid)
  intro _
  constructor
  · rfl
  · intro oid
    rw [remove_commit, remove_commit, remove_commit]
    by_cases isSession : oid = sessionOid
    · rw [if_pos isSession, if_pos (by simp only [isSession, List.mem_cons, true_or])]
    · by_cases isHandler : oid = handlerScmOid
      · rw [if_neg isSession, if_pos isHandler,
          if_pos (by simp only [isHandler, List.mem_cons, true_or, or_true])]
      · rw [if_neg isSession, if_neg isHandler]
        simp only [List.mem_cons, isSession, isHandler, List.not_mem_nil, or_false, false_or]

theorem attains_removeSession [DecidableEq OtherKind]
    (bound : store.names (sessionBinding sessionOid) ≠ none)
    (stands : store.content codec .clientSession sessionOid = some (.clientSession session)) :
    Attains store (removeSession codec sessionOid) fun _ next =>
      next.names = update store.names (sessionBinding sessionOid) none ∧
        ∀ oid, next.commit codec oid =
          if oid ∈ session.deleted sessionOid then none else store.commit codec oid := by
  apply Attains.bind
  apply gzochidDataRemoveBinding bound
  intro _
  apply Attains.bind
  apply gzochidDataCreateReferenceToOid
  intro wellFormed
  apply Attains.bind
  apply dereference_look wellFormed (name_known Kind.clientSession sessionOid)
    ((name_content Kind.clientSession sessionOid).trans stands)
  intro address middle _ found looked
  apply Attains.bind
  apply expect rfl
  apply Attains.bind
  apply attains_loadSession looked.object
  have fetched : middle.Fetched sessionOid := .located looked.located
  have names : middle.names = update store.names (sessionBinding sessionOid) none := by
    rw [look_names found, name_names]
  have commit : ∀ oid, oid ≠ sessionOid → middle.commit codec oid = store.commit codec oid := by
    intro oid apart
    rw [looked.commit wellFormed apart, name_commit]
    rfl
  apply Attains.bind
  apply gzochidDataCreateReferenceToOid
  intro _
  apply Attains.bind
  apply gzochidDataCreateReferenceToOid
  intro _
  apply mono (attains_removals (name_keeps_known (name_known Kind.scmLocationAware session.scmOid)
      Kind.scmLocationAware session.handlerScmOid)
    (name_known Kind.scmLocationAware session.handlerScmOid)
    ((fetched.name Kind.scmLocationAware session.scmOid).name Kind.scmLocationAware
      session.handlerScmOid))
  intro _ next reached
  constructor
  · rw [reached.1, name_names, name_names, names]
  · intro oid
    rw [reached.2 oid, name_commit, name_commit]
    show (if oid ∈ session.deleted sessionOid then none else middle.commit codec oid) = _
    split
    next => rfl
    next spared =>
      apply commit
      intro same
      apply spared
      rw [same]
      exact List.mem_cons_self

/-- The objects of a session: the one for the session itself is there from the start, the others
when the login has completed. -/
def ClientSession.objects (session : ClientSession Identity Callback) : List Oid :=
  match session.handler with
  | none => []
  | some _ => [session.scmOid, session.handlerScmOid]

/-- The binding and the objects of a session are gone, and everything else is as before. -/
structure RemovesExactly (codec : SessionCodec Identity Callback Other OtherKind Bytes)
    (sessionOid : Oid) (session : ClientSession Identity Callback)
    (context after :
      DataContext (Kind OtherKind) (Object Identity Callback Other) Bytes String) : Prop where
  names : after.names = update context.names (sessionBinding sessionOid) none
  objects : ∀ oid, after.flushed codec oid =
    if oid ∈ sessionOid :: session.objects then none else context.flushed codec oid

/-- Without a handler the object that has the default id is deleted too. -/
theorem deleted_objects (blank : session.Blank) (sessionOid : Oid) (content : Oid → Option Bytes) :
    (∀ oid, (if oid ∈ session.deleted sessionOid then none else content oid) =
        if oid ∈ sessionOid :: session.objects then none else content oid) ↔
      session.handler ≠ none ∨ sessionOid = 0 ∨ content 0 = none := by
  cases handler : session.handler with
  | some handler =>
    have same : session.deleted sessionOid = sessionOid :: session.objects := by
      unfold ClientSession.deleted ClientSession.objects
      rw [handler]
    rw [same]
    constructor
    · exact fun _ => .inl nofun
    · exact fun _ _ => rfl
  | none =>
    obtain ⟨noScm, noHandler⟩ := blank handler
    have deleted : ∀ oid, oid ∈ session.deleted sessionOid ↔ oid = sessionOid ∨ oid = 0 := by
      intro oid
      unfold ClientSession.deleted
      rw [noScm, noHandler]
      simp only [List.mem_cons, List.not_mem_nil, or_false, or_self]
    have objects : ∀ oid, oid ∈ sessionOid :: session.objects ↔ oid = sessionOid := by
      intro oid
      unfold ClientSession.objects
      rw [handler]
      exact List.mem_singleton
    simp only [deleted, objects]
    constructor
    · intro same
      right
      by_cases isZero : sessionOid = 0
      · exact .inl isZero
      · right
        have atZero := same 0
        rw [if_pos (.inr rfl), if_neg (Ne.symm isZero)] at atZero
        exact atZero.symm
    · intro harmless oid
      by_cases isSession : oid = sessionOid
      · rw [if_pos (.inl isSession), if_pos isSession]
      · rw [if_neg isSession]
        by_cases isZero : oid = 0
        · rw [if_pos (.inr isZero), isZero]
          rcases harmless with absent | atZero | nothing
          · exact absurd rfl absent
          · exact absurd (isZero.trans atZero.symm) isSession
          · exact nothing.symm
        · rw [if_neg]
          intro either
          cases either with
          | inl same => exact isSession same
          | inr zero => exact isZero zero

/-- A removal ends, with an error only if the storage engine refuses something.  Otherwise it
removes the session and what belongs to it and nothing else exactly if the login has completed,
or there is no object of something else with the default id. -/
theorem removal_exact_iff [DecidableEq OtherKind]
    (codec : SessionCodec Identity Callback Other OtherKind Bytes)
    {context : DataContext (Kind OtherKind) (Object Identity Callback Other) Bytes String}
    {store : ObjectStore (Kind OtherKind) (Object Identity Callback Other) Bytes String}
    (fine : context.rollback = false) (refines : Refines context store) (sessionOid : Oid)
    (identity : Identity) (attempts : List (LoginAttempt Callback))
    (bound : context.names (sessionBinding sessionOid) ≠ none)
    (stands : store.content codec .clientSession sessionOid =
      some (.clientSession (loginState identity attempts))) :
    ∃ result after, (removeSession codec sessionOid).run context = .ok result after ∧
      match result with
      | .error _ => after.rollback = true
      | .ok _ =>
          RemovesExactly codec sessionOid (loginState identity attempts) context after ↔
            (loginState identity attempts).handler ≠ none ∨ sessionOid = 0 ∨
              context.flushed codec 0 = none := by
  have attains := attains_removeSession (refines.names ▸ bound) stands
  obtain ⟨result, after, ran, done⟩ := attains context fine refines
  apply Exists.intro result
  apply Exists.intro after
  apply And.intro ran
  cases result with
  | error error => exact done
  | ok value =>
      obtain ⟨_, next, reached, names, commit⟩ := done
      have same := deleted_objects (loginState_blank identity attempts) sessionOid
        (context.flushed codec)
      show RemovesExactly _ _ _ _ _ ↔ _
      rw [← same]
      have flushed : ∀ oid, after.flushed codec oid =
          if oid ∈ (loginState identity attempts).deleted sessionOid then none
          else context.flushed codec oid := by
        intro oid
        rw [flushed_commit reached, commit oid, flushed_commit refines]
      constructor
      · intro exact_ oid
        rw [← flushed oid, exact_.objects oid]
      · intro objects
        constructor
        · rw [reached.names, names, refines.names]
        · intro oid
          rw [flushed oid, objects oid]

end

/-- Objects stored as they are. -/
def plainCodec : SessionCodec Nat Nat Nat Unit (Object Nat Nat Nat) where
  serializer
    | .clientSession, .clientSession session => some (.clientSession session)
    | .scmLocationAware, .other object | .other (), .other object => some (.other object)
    | _, _ => none
  deserializer
    | .clientSession, .clientSession session => some (.clientSession session)
    | .scmLocationAware, .other object | .other (), .other object => some (.other object)
    | _, _ => none

/-- The first object of an application, and the session of a client that has tried to log in. -/
def loggingIn (attempts : List (LoginAttempt Nat)) :
    DataContext (Kind Unit) (Object Nat Nat Nat) (Object Nat Nat Nat) String :=
  DataContext.begin
    (fun oid =>
      if oid = 0 then some (.other 7)
      else if oid = 5 then some (.clientSession (loginState 1 attempts))
      else none)
    (fun name => if name = sessionBinding 5 then some 5 else none) fun _ => true

theorem removal_exact_iff_logged_in :
    let attempts := [⟨.exception, false⟩, ⟨.listener ⟨2, 3⟩ 8 9, true⟩]
    ∃ result after, (removeSession plainCodec 5).run (loggingIn attempts) = .ok result after ∧
      match result with
      | .error _ => after.rollback = true
      | .ok _ =>
          RemovesExactly plainCodec 5 (loginState 1 attempts) (loggingIn attempts) after ↔
            (loginState 1 attempts).handler ≠ none ∨ 5 = 0 ∨
              (loggingIn attempts).flushed plainCodec 0 = none :=
  removal_exact_iff plainCodec rfl (begin_refines _ _ _) 5 1
    [⟨.exception, false⟩, ⟨.listener ⟨2, 3⟩ 8 9, true⟩] (by simp [DataContext.begin]) rfl

/-- The login callback refuses the client; with its session the first object is deleted. -/
theorem refused_login_deletes_other :
    ∃ after, (removeSession plainCodec 5).run (loggingIn []) = .ok (.ok ()) after ∧
      (loggingIn []).flushed plainCodec 0 = some (.other 7) ∧
      after.flushed plainCodec 0 = none ∧
      ¬RemovesExactly plainCodec 5 (loginState 1 []) (loggingIn []) after := by
  refine ⟨_, rfl, rfl, rfl, ?_⟩
  intro removes
  have kept := removes.objects 0
  cases kept

end Gzochi.Session
