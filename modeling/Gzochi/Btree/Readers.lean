import Gzochi.Btree.Model

/-!
# Readers lock before they look

The programs of a reader ask only for nodes they have come across, for a lock on every
node before they look at it, and for the lock of the tree wrapper before they look for
the root.
-/

namespace Gzochi.Btree

open Reading

open Lib (Program)

/-- What a reader knows: that a node exists, that it is locked, that it is a new root. -/
inductive Licence where
  | known (node : NodeId)
  | locked (node : NodeId)
  | created (node : NodeId)

/-- The nodes a header names. -/
def NodeView.PointsTo (view : NodeView) (node : NodeId) : Prop :=
  view.header.parent = some node ∨ view.header.next = some node ∨
    view.header.prev = some node ∨ view.header.firstChild = some node

def Look.Needs : Look → Licence → Prop
  | .roots, licence => licence = .locked wrapperLock
  | .lockedForWrite node, licence => licence = .created node
  | .lockNode node, licence => licence = .known node
  | .view node, licence => licence = .locked node
  | _, _ => False

def Look.Gives : (look : Look) → look.Answer → Licence → Prop
  | .lockWrapper, _, licence => licence = .locked wrapperLock
  | .roots, seen, licence =>
      licence = .known seen.1 ∨
      ∃ node, seen.2 = some node ∧ (licence = .known node ∨ licence = .created node)
  | .lockedForWrite node, answer, licence => answer = true ∧ licence = .locked node
  | .lockNode node, answer, licence => answer = true ∧ licence = .locked node
  | .view _, seen, licence => ∃ node, seen.PointsTo node ∧ licence = .known node
  | .giveUp, _, _ => False
  | .crash, _, _ => False

/-- The program keeps to the discipline, from what it knows at first to what it knows at
its end. -/
abbrev Guarded {α : Type} (licences : Licence → Prop) (program : Reading α)
    (post : (Licence → Prop) → α → Prop) : Prop :=
  Program.Guarded Look.Needs Look.Gives licences program post

/-- The program forgets nothing, and has locked every node it returns. -/
def Secures {α : Type} (licences : Licence → Prop) (nodes : α → NodeId → Prop)
    (after : Licence → Prop) (value : α) : Prop :=
  (∀ licence, licences licence → after licence) ∧
  ∀ node, nodes value node → after (.locked node)

/-- The nodes a pointer may name. -/
def pointsTo (pointer : Option NodeId) (node : NodeId) : Prop := pointer = some node

variable {licences : Licence → Prop} {node : NodeId}

theorem guarded_giveUp {α : Type} {post : (Licence → Prop) → α → Prop} :
    Guarded licences giveUp post :=
  ⟨fun _ needed => needed.elim, fun answer => answer.elim⟩

theorem guarded_crash {α : Type} {post : (Licence → Prop) → α → Prop} :
    Guarded licences crash post :=
  ⟨fun _ needed => needed.elim, fun answer => answer.elim⟩

/-- A look at a locked node: afterwards its neighbours are known. -/
theorem guarded_view (locked : licences (.locked node)) :
    Guarded licences (Program.perform (Look.view node)) fun after view =>
      (∀ licence, licences licence → after licence) ∧
      ∀ neighbour, view.PointsTo neighbour → after (.known neighbour) := by
  refine ⟨fun licence needed => needed ▸ locked, fun view => ⟨?_, ?_⟩⟩
  · intro licence member
    exact .inl member
  · intro neighbour pointed
    exact .inr ⟨neighbour, pointed, rfl⟩

theorem guarded_follow (target : Option NodeId)
    (known : ∀ node, target = some node → licences (.known node)) :
    Guarded licences (follow target) (Secures licences pointsTo) := by
  cases target with
  | none =>
    refine ⟨fun _ member => member, fun _ found => ?_⟩
    cases found
  | some target =>
    refine ⟨fun licence needed => needed ▸ known target rfl, ?_⟩
    intro present
    refine ⟨fun _ member => .inl member, ?_⟩
    intro node found
    cases present with
    | false => cases found
    | true =>
      injection found with same
      exact .inr ⟨rfl, by rw [same]⟩

variable (locked : licences (.locked node))
include locked

/-- Looking at a node and following one of its pointers. -/
theorem guarded_neighbour (pointer : NodeView → Option NodeId)
    (points : ∀ view target, pointer view = some target → view.PointsTo target) :
    Guarded licences (Program.perform (Look.view node) >>= fun view => follow (pointer view))
      (Secures licences pointsTo) := by
  apply (guarded_view locked).bind
  rintro after view ⟨kept, known⟩
  apply (guarded_follow (pointer view) fun target found =>
    known target (points view target found)).weaken
  intro later found secures
  exact ⟨fun licence member => secures.1 _ (kept _ member), secures.2⟩

theorem guarded_txFirstChild :
    Guarded licences (Reading.txFirstChild node) (Secures licences pointsTo) :=
  guarded_neighbour locked (fun view => view.header.firstChild) fun _ _ found =>
    .inr (.inr (.inr found))

theorem guarded_txNextSibling :
    Guarded licences (Reading.txNextSibling node) (Secures licences pointsTo) :=
  guarded_neighbour locked (fun view => view.header.next) fun _ _ found => .inr (.inl found)

omit locked

/-- The nodes the inner loop of `search` may end with. -/
def scanned : Scan → NodeId → Prop
  | .found leaf, node => leaf = node
  | .stopped child prev _, node => child = some node ∨ prev = some node

theorem guarded_searchChildren (key : Bytes) (bound : Nat) (child prev : Option NodeId)
    (nodeIsLeafParent : Bool) (licences : Licence → Prop)
    (secured : ∀ node, child = some node ∨ prev = some node → licences (.locked node)) :
    Guarded licences (searchChildren key bound child prev nodeIsLeafParent)
      (Secures licences scanned) := by
  induction bound generalizing child prev nodeIsLeafParent licences with
  | zero =>
    cases child with
    | none => exact ⟨fun _ member => member, secured⟩
    | some child => exact guarded_crash
  | succ bound ih =>
    cases child with
    | none => exact ⟨fun _ member => member, secured⟩
    | some child =>
      have locked : licences (.locked child) := secured child (.inl rfl)
      rw [searchChildren]
      apply (guarded_view locked).bind
      rintro seen view ⟨kept, _⟩
      have onward : ∀ leafParent, Guarded seen (Reading.txNextSibling child >>= fun next =>
            searchChildren key bound next (some child) leafParent)
          (Secures licences scanned) := by
        intro leafParent
        apply (guarded_txNextSibling (kept _ locked)).bind
        intro after next grown
        have rest := ih next (some child) leafParent after (by
          rintro node (found | found)
          · exact grown.2 node found
          · injection found with same
            exact grown.1 _ (kept _ (same ▸ locked)))
        exact rest.weaken fun _ _ held =>
          ⟨fun licence member => held.1 _ (grown.1 _ (kept _ member)), held.2⟩
      split
      · split
        · refine ⟨kept, ?_⟩
          intro node found
          cases prev with
          | none => exact kept _ (secured node (.inl (congrArg some found)))
          | some prev => exact kept _ (secured node (.inr (congrArg some found)))
        · exact onward true
      · split
        · exact ⟨kept, fun node found => kept _ (secured node found)⟩
        · exact onward nodeIsLeafParent

/-- The one node a program returns. -/
def returned (value node : NodeId) : Prop := value = node

theorem guarded_searchFrom (key : Bytes) (width bound : Nat) (isRoot : Bool)
    (licences : Licence → Prop) (locked : licences (.locked node)) :
    Guarded licences (searchFrom key width bound node isRoot) (Secures licences returned) := by
  induction bound generalizing node isRoot licences with
  | zero => exact guarded_crash
  | succ bound ih =>
    rw [searchFrom]
    apply (guarded_txFirstChild locked).bind
    intro after child grown
    apply (guarded_searchChildren key width child none false after (by
      rintro node (found | found)
      · exact grown.2 node found
      · cases found)).bind
    intro later scan held
    have kept : ∀ licence, licences licence → later licence :=
      fun licence member => held.1 _ (grown.1 _ member)
    have descend : ∀ next, later (.locked next) → Guarded later
        (searchFrom key width bound next false) (Secures licences returned) := by
      intro next secured
      exact (ih false later secured).weaken fun _ _ final =>
        ⟨fun licence member => final.1 _ (kept _ member), final.2⟩
    have stop : ∀ found, later (.locked found) → Guarded later
        (Pure.pure found : Reading NodeId) (Secures licences returned) :=
      fun found secured => ⟨kept, fun node same => same ▸ secured⟩
    split
    · exact stop _ (held.2 _ rfl)
    · exact descend _ (held.2 _ (.inl rfl))
    · split
      · exact stop _ (kept _ locked)
      · exact stop _ (held.2 _ (.inr rfl))
      · exact descend _ (held.2 _ (.inr rfl))
      · exact guarded_giveUp

theorem guarded_txRoot (licences : Licence → Prop) :
    Guarded licences txRoot (Secures licences returned) := by
  refine ⟨fun licence needed => needed.elim, fun _ => ⟨fun licence needed => .inr needed, ?_⟩⟩
  rintro ⟨root, newRoot⟩
  have committed : ∀ secured : Licence → Prop,
      (∀ licence, licences licence → secured licence) → secured (.known root) →
      Guarded secured (Program.perform (Look.lockNode root) >>= fun present =>
          if present then Pure.pure root else giveUp)
        (Secures licences returned) := by
    intro secured kept known
    refine ⟨fun licence needed => needed ▸ known, fun present => ?_⟩
    cases present with
    | false => exact guarded_giveUp
    | true =>
      refine ⟨fun licence member => .inl (kept _ member), ?_⟩
      intro node same
      exact .inr ⟨rfl, by rw [← same]⟩
  cases newRoot with
  | none =>
    exact committed _ (fun licence member => .inl (.inl member)) (.inr (.inl rfl))
  | some created =>
    refine ⟨fun licence needed => .inr (.inr ⟨created, rfl, .inr needed⟩), fun own => ?_⟩
    cases own with
    | false =>
      exact committed _ (fun licence member => .inl (.inl (.inl member))) (.inl (.inr (.inl rfl)))
    | true =>
      refine ⟨fun licence member => .inl (.inl (.inl member)), ?_⟩
      intro node same
      exact .inr ⟨rfl, by rw [← same]; rfl⟩

theorem guarded_search (bound : Nat) (key : Bytes) (licences : Licence → Prop) :
    Guarded licences (Reading.search bound key) (Secures licences returned) := by
  apply (guarded_txRoot licences).bind
  intro after root found
  exact (guarded_searchFrom key bound bound true after (found.2 root rfl)).weaken
    fun _ _ held => ⟨fun licence member => held.1 _ (found.1 _ member), held.2⟩

/-- So does `find_key_gte`. -/
theorem guarded_findKeyGte (bound : Nat) (key : Bytes) (licences : Licence → Prop) :
    Guarded licences (findKeyGte bound key) fun _ _ => True := by
  apply (guarded_search bound key licences).bind
  intro after node found
  apply (guarded_view (found.2 node rfl)).bind
  intro later view _
  cases view.page <;> trivial

end Gzochi.Btree
