import Gzochi.Lib.Runs
import Gzochi.Lib.SearchTree
import Mathlib.Data.String.Basic

/-!
# The session map of the meta server

`nodemap-mem.c` keeps the node of every session in a table and the sessions of every node in
a sequence.  A sequence of GLib is a binary tree in which positions are found by the
comparison function; which tree it is depends on where its nodes are in memory, so after
every change the tree may have any shape.  GLib's own checks let a null sequence or a null
position pass without effect.
-/

namespace Gzochi.Nodemap

open Lib

/-- `nodemap_qualified_key`. -/
structure QualifiedKey where
  app : String
  sessionId : UInt64
  deriving DecidableEq

abbrev NodeId := Int

inductive NodemapError where
  | alreadyMapped
  | notMapped
  deriving DecidableEq

/-- The sign of `strcmp`. -/
def strcmp (a b : String) : Int := if a < b then -1 else if b < a then 1 else 0

/-- `nodemap_qualified_key_compare_data_func`.  The difference of the ids is a number of 64
bits; the function returns a `gint`. -/
def compare (a b : QualifiedKey) : Int :=
  let appCompare := strcmp a.app b.app
  if appCompare = 0 then ((a.sessionId - b.sessionId).toBitVec.setWidth 32).toInt else appCompare

/-- `gzochi_metad_nodemap_mem`. -/
structure NodemapMem where
  sessionToNode : QualifiedKey → Option NodeId
  nodeToSessions : NodeId → Option (SearchTree QualifiedKey)

/-- The rotations that GLib makes in a changed tree. -/
structure Rebalancing where
  apply : SearchTree QualifiedKey → SearchTree QualifiedKey
  keeps : ∀ tree, (apply tree).toList = tree.toList

def Rebalancing.none : Rebalancing := ⟨id, fun _ => rfl⟩

/-- `gzochi_metad_nodemap_mem_new`. -/
def NodemapMem.new : NodemapMem := ⟨fun _ => none, fun _ => none⟩

namespace NodemapMem

/-- `map_session`. -/
def mapSession (rebalancing : Rebalancing) (nodemap : NodemapMem) (key : QualifiedKey)
    (nodeId : NodeId) : NodemapMem × Option NodemapError :=
  if (nodemap.sessionToNode key).isSome then (nodemap, some .alreadyMapped)
  else
    let sessions := (nodemap.nodeToSessions nodeId).getD .leaf
    let sessions := rebalancing.apply (sessions.insert compare key)
    ({ sessionToNode := Function.update nodemap.sessionToNode key (some nodeId)
       nodeToSessions := Function.update nodemap.nodeToSessions nodeId (some sessions) }, none)

/-- The removal of a session from the sequence of a node, and of a sequence that is empty
then. -/
def removeFromNode (rebalancing : Rebalancing) (nodemap : NodemapMem) (key : QualifiedKey)
    (nodeId : NodeId) : NodeId → Option (SearchTree QualifiedKey) :=
  match nodemap.nodeToSessions nodeId with
  | none => nodemap.nodeToSessions
  | some sessions =>
      let sessions := rebalancing.apply (sessions.remove compare key)
      Function.update nodemap.nodeToSessions nodeId
        (if sessions.toList = [] then none else some sessions)

/-- `unmap_session`. -/
def unmapSession (rebalancing : Rebalancing) (nodemap : NodemapMem) (key : QualifiedKey) :
    NodemapMem × Option NodemapError :=
  match nodemap.sessionToNode key with
  | some nodeId =>
      ({ sessionToNode := Function.update nodemap.sessionToNode key none
         nodeToSessions := nodemap.removeFromNode rebalancing key nodeId }, none)
  | none => (nodemap, some .notMapped)

/-- `lookup_session`. -/
def lookupSession (nodemap : NodemapMem) (key : QualifiedKey) : Except NodemapError NodeId :=
  match nodemap.sessionToNode key with
  | some nodeId => .ok nodeId
  | none => .error .notMapped

/-- `unmap_all`, with `unmap_session_func` for each session of the node. -/
def unmapAll (nodemap : NodemapMem) (nodeId : NodeId) : NodemapMem :=
  match nodemap.nodeToSessions nodeId with
  | none => nodemap
  | some sessions =>
      { sessionToNode := sessions.toList.foldl
          (fun sessionToNode key => Function.update sessionToNode key none) nodemap.sessionToNode
        nodeToSessions := Function.update nodemap.nodeToSessions nodeId none }

end NodemapMem

/-! ## Calls -/

inductive Call where
  | mapSession (key : QualifiedKey) (nodeId : NodeId)
  | unmapSession (key : QualifiedKey)
  | lookupSession (key : QualifiedKey)
  | unmapAll (nodeId : NodeId)
  deriving DecidableEq

inductive Reply where
  | done
  | node (nodeId : NodeId)
  | failed (error : NodemapError)
  deriving DecidableEq

/-- The reply of a call that only reports an error. -/
def Reply.ofError : Option NodemapError → Reply
  | none => .done
  | some error => .failed error

/-- The reply of a lookup. -/
def Reply.ofLookup : Except NodemapError NodeId → Reply
  | .ok nodeId => .node nodeId
  | .error error => .failed error

/-- One call, with what GLib makes of the tree that it changes. -/
def nodemapStep (nodemap : NodemapMem) : Call × Rebalancing → Option (NodemapMem × Reply)
  | (.mapSession key nodeId, rebalancing) =>
      let (after, error) := nodemap.mapSession rebalancing key nodeId
      some (after, .ofError error)
  | (.unmapSession key, rebalancing) =>
      let (after, error) := nodemap.unmapSession rebalancing key
      some (after, .ofError error)
  | (.lookupSession key, _) => some (nodemap, .ofLookup (nodemap.lookupSession key))
  | (.unmapAll nodeId, _) => some (nodemap.unmapAll nodeId, .done)

/-! ## What the map is for -/

/-- The nodes of the sessions that are mapped. -/
abbrev Sessions := QualifiedKey → Option NodeId

/-- A finite map from sessions to nodes, to which a session is added only once and from which
only a session that is there can be taken. -/
def sessionsStep (sessions : Sessions) : Call → Option (Sessions × Reply)
  | .mapSession key nodeId =>
      match sessions key with
      | some _ => some (sessions, .failed .alreadyMapped)
      | none => some (Function.update sessions key (some nodeId), .done)
  | .unmapSession key =>
      match sessions key with
      | some _ => some (Function.update sessions key none, .done)
      | none => some (sessions, .failed .notMapped)
  | .lookupSession key =>
      match sessions key with
      | some nodeId => some (sessions, .node nodeId)
      | none => some (sessions, .failed .notMapped)
  | .unmapAll nodeId =>
      some (fun key => if sessions key = some nodeId then none else sessions key, .done)

end Gzochi.Nodemap
