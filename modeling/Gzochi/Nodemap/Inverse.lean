import Gzochi.Nodemap.Model
import Mathlib.Data.UInt

/-!
# The two indexes of the session map

The table and the sequences are inverse to each other as long as every session that is
unmapped is found at its own place in the sequence of its node.  The comparison function
keeps only the lower half of the difference of two ids, so this may fail for ids that are
far apart.
-/

namespace Gzochi.Nodemap

open Lib Function

/-- The table and the sequences have the same sessions; every sequence has at least one, and
each once. -/
structure Inverse (nodemap : NodemapMem) : Prop where
  mapped : ∀ key nodeId, nodemap.sessionToNode key = some nodeId ↔
    ∃ sessions, nodemap.nodeToSessions nodeId = some sessions ∧ key ∈ sessions.toList
  once : ∀ nodeId sessions, nodemap.nodeToSessions nodeId = some sessions → sessions.toList.Nodup
  inhabited : ∀ nodeId sessions, nodemap.nodeToSessions nodeId = some sessions →
    sessions.toList ≠ []

theorem Inverse.of_each {nodemap : NodemapMem}
    (mapped : ∀ key nodeId, nodemap.sessionToNode key = some nodeId ↔
      ∃ sessions, nodemap.nodeToSessions nodeId = some sessions ∧ key ∈ sessions.toList)
    (each : ∀ nodeId sessions, nodemap.nodeToSessions nodeId = some sessions →
      sessions.toList.Nodup ∧ sessions.toList ≠ []) : Inverse nodemap :=
  ⟨mapped, fun nodeId sessions held => (each nodeId sessions held).1,
    fun nodeId sessions held => (each nodeId sessions held).2⟩

/-- A session to be unmapped is found at its own place: on the way down from the root of its
node's sequence, every other session compares according to the side on which it lies. -/
def FindsSession (nodemap : NodemapMem) : Call × Rebalancing → Prop
  | (.unmapSession key, _) => ∀ nodeId sessions, nodemap.sessionToNode key = some nodeId →
      nodemap.nodeToSessions nodeId = some sessions → sessions.LeadsTo compare key
  | _ => True

theorem new_inverse : Inverse NodemapMem.new where
  mapped := by simp [NodemapMem.new]
  once := nofun
  inhabited := nofun

namespace NodemapMem

variable {nodemap : NodemapMem} {rebalancing : Rebalancing} {key : QualifiedKey} {nodeId : NodeId}

theorem mapSession_mapped {other : NodeId} (mapped : nodemap.sessionToNode key = some other) :
    nodemap.mapSession rebalancing key nodeId = (nodemap, some .alreadyMapped) := by
  unfold mapSession
  rw [mapped]
  rfl

theorem mapSession_unmapped (unmapped : nodemap.sessionToNode key = none) :
    nodemap.mapSession rebalancing key nodeId =
      ({ sessionToNode := update nodemap.sessionToNode key (some nodeId)
         nodeToSessions := update nodemap.nodeToSessions nodeId (some (rebalancing.apply
          (((nodemap.nodeToSessions nodeId).getD .leaf).insert compare key))) }, none) := by
  unfold mapSession
  rw [unmapped]
  rfl

theorem unmapSession_mapped (mapped : nodemap.sessionToNode key = some nodeId) :
    nodemap.unmapSession rebalancing key =
      ({ sessionToNode := update nodemap.sessionToNode key none
         nodeToSessions := nodemap.removeFromNode rebalancing key nodeId }, none) := by
  unfold unmapSession
  rw [mapped]

theorem unmapSession_unmapped (unmapped : nodemap.sessionToNode key = none) :
    nodemap.unmapSession rebalancing key = (nodemap, some .notMapped) := by
  unfold unmapSession
  rw [unmapped]

end NodemapMem

namespace Inverse

variable {nodemap after : NodemapMem} {rebalancing : Rebalancing} {key : QualifiedKey}
  {nodeId : NodeId} {sessions : SearchTree QualifiedKey}

variable (inverse : Inverse nodemap)
include inverse

/-- The sessions of a node, whether it has a sequence or not. -/
theorem mem_getD : key ∈ ((nodemap.nodeToSessions nodeId).getD .leaf).toList ↔
      nodemap.sessionToNode key = some nodeId := by
  rw [inverse.mapped]
  cases nodemap.nodeToSessions nodeId with
  | none => simp
  | some sessions => simp

theorem mapSession (unmapped : nodemap.sessionToNode key = none) :
    Inverse (nodemap.mapSession rebalancing key nodeId).1 := by
  have fresh : key ∉ ((nodemap.nodeToSessions nodeId).getD .leaf).toList := by
    rw [inverse.mem_getD, unmapped]
    exact nofun
  have old_once : ((nodemap.nodeToSessions nodeId).getD .leaf).toList.Nodup := by
    cases held : nodemap.nodeToSessions nodeId with
    | none => exact List.nodup_nil
    | some sessions => exact inverse.once nodeId sessions held
  have perm := SearchTree.toList_insert compare key ((nodemap.nodeToSessions nodeId).getD .leaf)
  rw [NodemapMem.mapSession_unmapped unmapped]
  apply of_each
  · intro other otherNode
    show update nodemap.sessionToNode key (some nodeId) other = some otherNode ↔
      ∃ sessions, update nodemap.nodeToSessions nodeId _ otherNode = some sessions ∧ _
    by_cases sameNode : otherNode = nodeId
    · subst sameNode
      rw [update_self]
      simp only [Option.some.injEq, exists_eq_left', rebalancing.keeps, SearchTree.mem_insert]
      rw [inverse.mem_getD]
      by_cases same : other = key
      · subst same
        simp
      · rw [update_of_ne same]
        simp [same]
    · rw [update_of_ne sameNode, ← inverse.mapped]
      by_cases same : other = key
      · subst same
        rw [update_self, unmapped]
        simp [Ne.symm sameNode]
      · rw [update_of_ne same]
  · intro otherNode sessions held
    replace held : update nodemap.nodeToSessions nodeId _ otherNode = some sessions := held
    by_cases sameNode : otherNode = nodeId
    · subst sameNode
      rw [update_self] at held
      cases held
      rw [rebalancing.keeps, perm.nodup_iff, List.nodup_cons]
      exact ⟨⟨fresh, old_once⟩, List.ne_nil_of_mem (SearchTree.mem_insert.mpr (Or.inl rfl))⟩
    · rw [update_of_ne sameNode] at held
      exact ⟨inverse.once otherNode sessions held, inverse.inhabited otherNode sessions held⟩

/-- The sequence from which an unmapped session is taken. -/
theorem sessions_of (mapped : nodemap.sessionToNode key = some nodeId) :
    ∃ sessions, nodemap.nodeToSessions nodeId = some sessions ∧ key ∈ sessions.toList :=
  (inverse.mapped key nodeId).mp mapped

theorem unmapSession (mapped : nodemap.sessionToNode key = some nodeId)
    (held : nodemap.nodeToSessions nodeId = some sessions)
    (leads : sessions.LeadsTo compare key) :
    Inverse (nodemap.unmapSession rebalancing key).1 := by
  obtain ⟨before, after, split, rest⟩ :=
    SearchTree.remove_some (SearchTree.find_self_iff.mpr leads)
  have once := inverse.once nodeId sessions held
  rw [split, List.perm_middle.nodup_iff, List.nodup_cons] at once
  have kept : (rebalancing.apply (sessions.remove compare key)).toList = before ++ after := by
    rw [rebalancing.keeps, rest]
  have members : ∀ other, other ∈ before ++ after ↔
      nodemap.sessionToNode other = some nodeId ∧ other ≠ key := by
    intro other
    have all : nodemap.sessionToNode other = some nodeId ↔ other ∈ sessions.toList := by
      rw [inverse.mapped, held]
      simp
    rw [all, split, List.perm_middle.mem_iff, List.mem_cons]
    constructor
    · intro member
      exact ⟨Or.inr member, fun same => once.1 (same ▸ member)⟩
    · rintro ⟨same | member, unequal⟩
      · exact absurd same unequal
      · exact member
  have elsewhere : ∀ otherNode, otherNode ≠ nodeId →
      nodemap.removeFromNode rebalancing key nodeId otherNode =
        nodemap.nodeToSessions otherNode := by
    intro otherNode apart
    unfold NodemapMem.removeFromNode
    rw [held]
    exact update_of_ne apart _ _
  have here : nodemap.removeFromNode rebalancing key nodeId nodeId =
      if before ++ after = [] then none
      else some (rebalancing.apply (sessions.remove compare key)) := by
    unfold NodemapMem.removeFromNode
    rw [held]
    show update _ nodeId _ nodeId = _
    rw [update_self, kept]
  rw [NodemapMem.unmapSession_mapped mapped]
  apply of_each
  · intro other otherNode
    show update nodemap.sessionToNode key none other = some otherNode ↔
      ∃ sessions, nodemap.removeFromNode rebalancing key nodeId otherNode = some sessions ∧ _
    have entry : update nodemap.sessionToNode key none other = some otherNode ↔
        nodemap.sessionToNode other = some otherNode ∧ other ≠ key := by
      by_cases same : other = key
      · simp [same]
      · simp [same]
    rw [entry]
    by_cases sameNode : otherNode = nodeId
    · subst sameNode
      rw [here, ← members]
      by_cases empty : before ++ after = []
      · simp [empty]
      · rw [if_neg empty]
        simp [kept]
    · rw [elsewhere otherNode sameNode, ← inverse.mapped]
      constructor
      · exact And.left
      · intro there
        refine ⟨there, ?_⟩
        intro same
        rw [same, mapped] at there
        exact sameNode (Option.some.inj there).symm
  · intro otherNode others there
    replace there : nodemap.removeFromNode rebalancing key nodeId otherNode = some others := there
    by_cases sameNode : otherNode = nodeId
    · subst sameNode
      rw [here] at there
      split at there
      · cases there
      · rename_i remaining
        cases there
        rw [kept]
        exact ⟨once.2, remaining⟩
    · rw [elsewhere otherNode sameNode] at there
      exact ⟨inverse.once otherNode others there, inverse.inhabited otherNode others there⟩

omit inverse

theorem foldl_unmap (keys : List QualifiedKey) (sessionToNode : QualifiedKey → Option NodeId)
    (other : QualifiedKey) :
    keys.foldl (fun sessionToNode key => update sessionToNode key none) sessionToNode
      other = if other ∈ keys then none else sessionToNode other := by
  induction keys generalizing sessionToNode with
  | nil => rfl
  | cons key keys ih =>
    rw [List.foldl_cons, ih]
    by_cases later : other ∈ keys
    · rw [if_pos later, if_pos (List.mem_cons_of_mem key later)]
    · rw [if_neg later]
      by_cases same : other = key
      · rw [same, update_self, if_pos List.mem_cons_self]
      · rw [update_of_ne same, if_neg (by simp [same, later])]

/-- Exactly the sessions of the node leave the table. -/
theorem unmapAll_sessionToNode (inverse : Inverse nodemap) (nodeId : NodeId) :
    (nodemap.unmapAll nodeId).sessionToNode = fun key =>
      if nodemap.sessionToNode key = some nodeId then none else nodemap.sessionToNode key := by
  funext key
  unfold NodemapMem.unmapAll
  cases held : nodemap.nodeToSessions nodeId with
  | none =>
    have unmapped : nodemap.sessionToNode key ≠ some nodeId := by
      intro mapped
      obtain ⟨sessions, there, _⟩ := inverse.sessions_of mapped
      rw [held] at there
      cases there
    rw [if_neg unmapped]
  | some sessions =>
    have same : nodemap.sessionToNode key = some nodeId ↔ key ∈ sessions.toList := by
      rw [inverse.mapped, held]
      simp
    simp only [foldl_unmap, same]

theorem unmapAll_nodeToSessions (nodemap : NodemapMem) (nodeId : NodeId) :
    (nodemap.unmapAll nodeId).nodeToSessions = update nodemap.nodeToSessions nodeId none := by
  unfold NodemapMem.unmapAll
  cases held : nodemap.nodeToSessions nodeId with
  | none =>
    rw [← held, update_eq_self, held]
  | some sessions => rfl

theorem unmapAll (inverse : Inverse nodemap) (nodeId : NodeId) :
    Inverse (nodemap.unmapAll nodeId) := by
  have remaining : ∀ otherNode others, (nodemap.unmapAll nodeId).nodeToSessions otherNode =
      some others → otherNode ≠ nodeId ∧ nodemap.nodeToSessions otherNode = some others := by
    intro otherNode others there
    rw [unmapAll_nodeToSessions] at there
    by_cases sameNode : otherNode = nodeId
    · rw [sameNode, update_self] at there
      cases there
    · rw [update_of_ne sameNode] at there
      exact ⟨sameNode, there⟩
  constructor
  · intro key otherNode
    rw [inverse.unmapAll_sessionToNode, unmapAll_nodeToSessions]
    show (if nodemap.sessionToNode key = some nodeId then none else _) = some otherNode ↔ _
    by_cases sameNode : otherNode = nodeId
    · rw [sameNode, update_self]
      by_cases mapped : nodemap.sessionToNode key = some nodeId
      · simp [mapped]
      · simp [mapped]
    · rw [update_of_ne sameNode, ← inverse.mapped]
      by_cases mapped : nodemap.sessionToNode key = some nodeId
      · simp [mapped, Ne.symm sameNode]
      · rw [if_neg mapped]
  · intro otherNode others there
    exact inverse.once otherNode others (remaining otherNode others there).2
  · intro otherNode others there
    exact inverse.inhabited otherNode others (remaining otherNode others there).2

end Inverse

variable {nodemap after : NodemapMem} {call : Call} {rebalancing : Rebalancing} {reply : Reply}

/-- A call keeps the indexes inverse and does to the table what it does to the map. -/
theorem nodemapStep_refines (inverse : Inverse nodemap)
    (finds : FindsSession nodemap (call, rebalancing))
    (taken : nodemapStep nodemap (call, rebalancing) = some (after, reply)) :
    Inverse after ∧ sessionsStep nodemap.sessionToNode call =
      some (after.sessionToNode, reply) := by
  cases call with
  | mapSession key nodeId =>
    cases mapped : nodemap.sessionToNode key with
    | some there =>
      simp only [nodemapStep, NodemapMem.mapSession_mapped mapped] at taken
      cases taken
      refine ⟨inverse, ?_⟩
      simp only [sessionsStep, mapped]
      rfl
    | none =>
      have kept : Inverse (nodemap.mapSession rebalancing key nodeId).1 :=
        inverse.mapSession mapped
      rw [NodemapMem.mapSession_unmapped mapped] at kept
      simp only [nodemapStep, NodemapMem.mapSession_unmapped mapped] at taken
      cases taken
      refine ⟨kept, ?_⟩
      simp only [sessionsStep, mapped]
      rfl
  | unmapSession key =>
    cases mapped : nodemap.sessionToNode key with
    | some nodeId =>
      obtain ⟨sessions, held, _⟩ := inverse.sessions_of mapped
      have kept : Inverse (nodemap.unmapSession rebalancing key).1 :=
        inverse.unmapSession mapped held (finds nodeId sessions mapped held)
      rw [NodemapMem.unmapSession_mapped mapped] at kept
      simp only [nodemapStep, NodemapMem.unmapSession_mapped mapped] at taken
      cases taken
      refine ⟨kept, ?_⟩
      simp only [sessionsStep, mapped]
      rfl
    | none =>
      simp only [nodemapStep, NodemapMem.unmapSession_unmapped mapped] at taken
      cases taken
      refine ⟨inverse, ?_⟩
      simp only [sessionsStep, mapped]
      rfl
  | lookupSession key =>
    cases mapped : nodemap.sessionToNode key with
    | some nodeId | none =>
      simp only [nodemapStep, NodemapMem.lookupSession, mapped] at taken
      cases taken
      refine ⟨inverse, ?_⟩
      simp only [sessionsStep, mapped]
      rfl
  | unmapAll nodeId =>
    simp only [nodemapStep] at taken
    cases taken
    refine ⟨inverse.unmapAll nodeId, ?_⟩
    rw [inverse.unmapAll_sessionToNode]
    rfl

/-- A call that fails leaves everything as it is. -/
theorem nodemapStep_failed {error : NodemapError}
    (taken : nodemapStep nodemap (call, rebalancing) = some (after, .failed error)) :
    after = nodemap := by
  cases call with
  | mapSession key nodeId =>
    cases mapped : nodemap.sessionToNode key with
    | some there =>
      simp only [nodemapStep, NodemapMem.mapSession_mapped mapped] at taken
      cases taken
      rfl
    | none =>
      simp only [nodemapStep, NodemapMem.mapSession_unmapped mapped] at taken
      cases taken
  | unmapSession key =>
    cases mapped : nodemap.sessionToNode key with
    | some nodeId =>
      simp only [nodemapStep, NodemapMem.unmapSession_mapped mapped] at taken
      cases taken
    | none =>
      simp only [nodemapStep, NodemapMem.unmapSession_unmapped mapped] at taken
      cases taken
      rfl
  | lookupSession key =>
    simp only [nodemapStep, Option.some.injEq, Prod.mk.injEq] at taken
    exact taken.1.symm
  | unmapAll nodeId => cases taken

/-- After every run in which the sessions to be unmapped are found at their own places, the
two indexes are inverse, the table is what the calls make of a finite map, with the same
replies, and the calls that failed have changed nothing. -/
theorem nodemap_is_a_map {trace : List ((Call × Rebalancing) × Reply)}
    (run : Run nodemapStep FindsSession .new trace nodemap) :
    Inverse nodemap ∧
    Run sessionsStep anyAction (fun _ => none) (trace.map fun step => (step.1.1, step.2))
      nodemap.sessionToNode ∧
    ∀ call rebalancing after error,
      nodemapStep nodemap (call, rebalancing) = some (after, .failed error) → after = nodemap := by
  refine ⟨?_, ?_, fun _ _ _ _ => nodemapStep_failed⟩
  · apply run.state_invariant Inverse new_inverse
    intro state action next observation inverse finds taken
    exact (nodemapStep_refines inverse finds taken).1
  · have both := run.invariant (fun trace nodemap => Inverse nodemap ∧
      Run sessionsStep anyAction (fun _ => none) (trace.map fun step => (step.1.1, step.2))
        nodemap.sessionToNode) ⟨new_inverse, .nil⟩ ?_
    · exact both.2
    · intro trace state action next observation _ held finds taken
      obtain ⟨inverse, abstract⟩ := held
      obtain ⟨kept, same⟩ := nodemapStep_refines inverse finds taken
      refine ⟨kept, ?_⟩
      rw [List.map_append]
      exact abstract.snoc trivial same

/-- Two sessions of one application on one node. -/
def firstSession : QualifiedKey := ⟨"app", 0⟩

/-- Its id is 2 ^ 32 further. -/
def farSession : QualifiedKey := ⟨"app", 2 ^ 32⟩

/-- Both are mapped, and nothing is rotated. -/
def bothMapped : NodemapMem := stateAfter nodemapStep .new
  [(.mapSession firstSession 1, .none), (.mapSession farSession 1, .none)]

/-- The session at the root is found at its own place, however far the other one is. -/
theorem nodemap_is_a_map_far :
    ∃ (trace : List ((Call × Rebalancing) × Reply)) (nodemap : NodemapMem),
    Run nodemapStep FindsSession .new trace nodemap ∧
    trace.map (fun step => (step.1.1, step.2)) =
      [(.mapSession firstSession 1, .done), (.mapSession farSession 1, .done),
        (.unmapSession firstSession, .done)] ∧
    Inverse nodemap := by
  have mapped : Run nodemapStep FindsSession .new _ bothMapped :=
    (Run.nil.snoc (show FindsSession _ (.mapSession firstSession 1, .none) from trivial) rfl).snoc
      (show FindsSession _ (.mapSession farSession 1, .none) from trivial) rfl
  have finds : FindsSession bothMapped (.unmapSession firstSession, .none) := by
    intro nodeId sessions there held
    have same : nodeId = 1 := Option.some.inj (there.symm.trans (by decide))
    rw [same] at held
    have tree : sessions = .node .leaf firstSession (.node .leaf farSession .leaf) :=
      Option.some.inj (held.symm.trans (by decide))
    rw [tree]
    exact SearchTree.find_self_iff.mp (by decide)
  have run := mapped.snoc finds rfl
  exact ⟨_, _, run, by decide, (nodemap_is_a_map run).1⟩

/-- The other one is not: it compares equal to the one at the root, which is taken out in its
place. -/
theorem unmapping_takes_another :
    ∃ (trace : List ((Call × Rebalancing) × Reply)) (nodemap : NodemapMem),
      Run nodemapStep anyAction .new trace nodemap ∧
      trace.map (fun step => (step.1.1, step.2)) =
        [(.mapSession firstSession 1, .done), (.mapSession farSession 1, .done),
          (.unmapSession farSession, .done)] ∧
      ¬ Inverse nodemap := by
  have run : Run nodemapStep anyAction .new _ _ :=
    run_of_exec (show exec _ _ [(.mapSession firstSession 1, .none),
      (.mapSession farSession 1, .none), (.unmapSession farSession, .none)] = some (_, _) from rfl)
  refine ⟨_, _, run, by decide, ?_⟩
  intro inverse
  obtain ⟨sessions, held, member⟩ := (inverse.mapped firstSession 1).mp (by decide)
  have left : sessions = .node .leaf farSession .leaf :=
    Option.some.inj (held.symm.trans (by decide))
  rw [left] at member
  exact absurd member (by decide)

end Gzochi.Nodemap
