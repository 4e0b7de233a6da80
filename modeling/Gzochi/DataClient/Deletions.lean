import Gzochi.DataClient.Values

/-!
# What a deletion reports

A deletion looks for its key in the local store and, if it is not there, in the value cache,
where a key that does not exist has an entry without a value.
-/

namespace Gzochi.DataClient

open Lib Function

namespace Session

variable {session start : Session} {trace : List (Call × Answer)} {key : QualifiedKey} {now : Nat}
  {granted : Option Bytes}

/-- The key is not found if and only if a read would find nothing, and then it is gone. -/
def DeleteTruthful (session : Session) (now : Nat) (granted : Option Bytes)
    (key : QualifiedKey) : Prop :=
  ∃ next found read answer,
    session.step ⟨now, granted, .delete key⟩ = some (next, .deleted found) ∧
    session.step ⟨now, granted, .get key⟩ = some (read, answer) ∧
    (found = false ↔ answer = .value none) ∧
    ∀ later data last gotten, now ≤ later →
      next.step ⟨later, data, .get key⟩ = some (last, gotten) → gotten = .value none

/-- The transaction has not put the key after deleting it; where it has written nothing, there
is a value, or the key is locked for write and neither stored nor cached, or a read gives up. -/
def Deletable (trace : List (Call × Answer)) (session : Session) (now : Nat)
    (granted : Option Bytes) (key : QualifiedKey) : Prop :=
  match lastWrite trace key with
  | none => (session.locked ⟨now, granted, .get key⟩).localValue key = none →
      (session.store key = none ∧ session.cache key = none ∧ session.locks key = some true) ∨
      ∃ stored, session.store key = some stored ∧ stored.value = []
  | some none => True
  | some (some _) => key ∉ session.transaction.deletedKeys

theorem step_get_iff {next : Session} {answer : Answer} {now : Nat} {granted : Option Bytes}
    (taken : session.step ⟨now, granted, .get key⟩ = some (next, answer)) :
    answer = .value none ↔
      getInternal (session.locked ⟨now, granted, .get key⟩).cache
        (session.locked ⟨now, granted, .get key⟩).store
        (session.locked ⟨now, granted, .get key⟩).transaction key = some none := by
  simp only [step, Option.some.injEq, Prod.mk.injEq] at taken
  rw [← taken.2]
  unfold locked
  generalize getInternal _ _ _ key = found
  cases found <;> simp

theorem transactionDelete_missing_iff {cache store : Values} {transaction : Transaction} :
    (transactionDelete cache store transaction key).2 = false ↔
      transaction.view store key = none ∧ (cache key = none ∨ key ∈ transaction.deletedKeys) := by
  unfold transactionDelete
  cases transaction.view store key with
  | some stored => simp
  | none =>
    simp only [true_and]
    split
    next found =>
      simp [Option.isSome_iff_ne_none.mp found.1, found.2]
    next unknown =>
      simp only [true_iff]
      by_contra neither
      obtain ⟨cached, unlisted⟩ := not_or.mp neither
      exact unknown ⟨Option.isSome_iff_ne_none.mpr cached, unlisted⟩

theorem locked_unchanged (session : Session) (call : Call) :
    (session.locked call).transaction = session.transaction ∧
      (session.locked call).store = session.store :=
  ⟨(ensureLock_transaction _ _ _).1, (ensureLock_transaction _ _ _).2.1⟩

theorem locked_cache_none_iff : (session.locked ⟨now, granted, .delete key⟩).cache key = none ↔
    session.cache key = none ∧ session.locks key = some true := by
  unfold locked ensureLock
  split
  next enough =>
    have lock := enough.resolve_right fun read => Bool.noConfusion read.2
    exact ⟨fun absent => ⟨absent, lock⟩, And.left⟩
  next missing =>
    simp only [Operation.key, update_self, reduceCtorEq, false_iff]
    exact fun both => missing (.inl both.2)

/-- Whether the key is found, and what a read would find. -/
theorem Noted.deletable_iff (noted : Noted trace session) (timely : session.clock ≤ now)
    {writing reading : Session} (writes : writing = session.locked ⟨now, granted, .delete key⟩)
    (reads : reading = session.locked ⟨now, granted, .get key⟩) :
    ((transactionDelete writing.cache writing.store writing.transaction key).2 = false ↔
      getInternal reading.cache reading.store reading.transaction key = some none) ↔
      Deletable trace session now granted key := by
  have there : Noted trace reading := reads ▸ noted.locked timely
  have gets := there.getInternal_iff key
  obtain ⟨sameTransaction, sameStore⟩ := reads ▸ locked_unchanged session ⟨now, granted, .get key⟩
  obtain ⟨transaction, store⟩ := writes ▸ locked_unchanged session ⟨now, granted, .delete key⟩
  have uncached : writing.cache key = none ↔ _ := writes ▸ locked_cache_none_iff
  rw [transactionDelete_missing_iff, transaction, store, uncached]
  unfold Deletable expected Readable at *
  rw [sameStore, sameTransaction] at gets
  rw [sameStore, sameTransaction]
  cases last : lastWrite trace key with
  | none =>
    obtain ⟨unwritten, unlisted⟩ := noted.unwritten key last
    have seen : session.transaction.view session.store key = session.store key := by
      simp [Transaction.view, unwritten]
    simp only [last, Option.getD_none] at gets
    simp only [seen, unlisted, or_false, ← reads]
    cases stored : session.store key with
    | none =>
      rw [gets.mpr (by simp [stored])]
      simp only [true_and, reduceCtorEq, false_and, exists_false, or_false, Option.some.injEq]
      refine ⟨Iff.mpr, fun absent => ⟨fun both => ?_, absent⟩⟩
      have kept := @ensureLock_other { session with clock := now } key _ now granted false both.2
      have same : reading.cache key = none := reads ▸ kept.2.trans both.1
      simp [localValue, sameStore, stored, getTimestampFromCache, same]
    | some content =>
      simp only [reduceCtorEq, false_and, false_iff, false_or, Option.some.injEq, exists_eq_left']
      by_cases empty : content.value = []
      · simp [getInternal, unlisted, seen, stored, empty]
      · rw [gets.mpr (by simpa [stored] using empty)]
        simp [empty]
  | some written =>
    cases written with
    | none =>
      obtain ⟨lock, gone, known⟩ := noted.deleted key last
      simp only [last, Option.getD_some, iff_true] at gets
      simp only [gets, gone, lock, true_and, and_true, iff_true]
      exact known.symm
    | some value =>
      obtain ⟨_, time, wrote, later⟩ := there.put key value last
      have seen : session.transaction.view session.store key = some ⟨time, value⟩ := by
        rw [sameTransaction] at wrote
        simp [Transaction.view, wrote]
      simp only [seen, reduceCtorEq, false_and, false_iff]
      by_cases listed : key ∈ session.transaction.deletedKeys
      · simp [getInternal, listed]
      · by_cases empty : value = []
        · simp [getInternal, listed, seen, empty]
        · simp [getInternal, listed, seen, empty, Nat.not_lt.mpr later]

end Session

/-- A deletion reports what a read would have found, and leaves nothing of it. -/
theorem delete_truthful_iff {start session : Session} {trace : List (Call × Answer)}
    (fresh : start.Fresh) (run : Run Session.step Session.Timely start trace session) {now : Nat}
    (timely : session.clock ≤ now) (granted : Option Bytes) (key : QualifiedKey) :
    session.DeleteTruthful now granted key ↔ session.Deletable trace now granted key := by
  have noted : Session.Noted trace session :=
    run.invariant Session.Noted fresh.noted fun _ noted timely taken =>
      Session.step_noted noted timely taken
  rw [← noted.deletable_iff timely rfl rfl]
  constructor
  · rintro ⟨next, found, read, answer, deleted, gets, agree, _⟩
    cases deleted
    cases gets
    exact agree.trans (Session.step_get_iff rfl)
  · intro agree
    refine ⟨_, _, _, _, rfl, rfl, agree.trans (Session.step_get_iff rfl).symm, ?_⟩
    intro later data last gotten timely' taken
    have noted' : Session.Noted (trace ++ [(⟨now, granted, .delete key⟩, _)]) _ :=
      Session.step_noted noted timely rfl
    have clock : (session.locked ⟨now, granted, .delete key⟩).clock ≤ later :=
      Nat.le_trans (Nat.le_of_eq (Session.ensureLock_transaction _ _ _).2.2) timely'
    have there := @Session.Noted.locked _ _ ⟨later, data, .get key⟩ noted' clock
    have gone := there.getInternal_iff key
    simp only [Session.expected, Session.Readable, Session.lastWrite_snoc, Operation.key,
      Operation.written, if_true, Option.some_or, Option.getD_some, iff_true] at gone
    exact (Session.step_get_iff taken).mpr gone

/-- A value that comes with the lock is there for the deletion and for a read. -/
theorem delete_truthful_granted : Session.initial.DeleteTruthful 1 (some [5]) someKey := by
  refine (delete_truthful_iff Session.initial_fresh .nil (Nat.zero_le 1) _ _).mpr ?_
  intro absent
  cases absent

/-- A key that does not exist is found by a deletion, because its lock has left an entry in the
cache. -/
theorem missing_key_deleted : ¬∀ start session trace, start.Fresh →
    Run Session.step Session.Timely start trace session → ∀ now, session.clock ≤ now →
      ∀ granted key, session.DeleteTruthful now granted key := by
  intro claimed
  obtain ⟨next, found, read, answer, deleted, gets, agree, _⟩ :=
    claimed Session.initial _ _ Session.initial_fresh .nil 1 (Nat.zero_le 1) none someKey
  cases deleted
  cases gets
  cases agree.mpr rfl

end Gzochi.DataClient
