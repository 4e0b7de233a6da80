import Mathlib.Data.Set.Finite.Basic
import Mathlib.Order.WellFounded

/-!
# Acyclic relations

Closure properties of relations without cycles, and the elimination order by which
a topological sort recognizes them: elements nobody points at are taken away one
by one until none is left.
-/

namespace Gzochi.Lib

universe u

variable {α : Type u}

/-- No element reaches itself along one or more edges. -/
def Acyclic (relation : α → α → Prop) : Prop :=
  ∀ element, ¬Relation.TransGen relation element element

namespace Acyclic

variable {relation other : α → α → Prop}

theorem mono (acyclic : Acyclic relation)
    (contained : ∀ first second, other first second → relation first second) :
    Acyclic other :=
  fun element cycle => acyclic element (Relation.TransGen.mono contained _ _ cycle)

theorem of_empty (empty : ∀ first second, ¬relation first second) : Acyclic relation := by
  intro element cycle
  rcases Relation.TransGen.head'_iff.mp cycle with ⟨second, edge, _⟩
  exact empty element second edge

/-- New edges into an element that has no edges of its own close no cycle. -/
theorem of_sink (acyclic : Acyclic relation) (sink : α)
    (contained : ∀ first second, other first second → relation first second ∨ second = sink)
    (stuck : ∀ second, ¬other sink second) : Acyclic other := by
  have avoid : ∀ {first second}, Relation.TransGen other first second →
      second ≠ sink → Relation.TransGen relation first second := by
    intro first second path
    induction path with
    | single edge =>
      intro different
      exact .single ((contained _ _ edge).resolve_right different)
    | tail path edge ih =>
      intro different
      have early := ih (by
        rintro rfl
        exact stuck _ edge)
      exact early.tail ((contained _ _ edge).resolve_right different)
  intro element cycle
  apply acyclic element
  apply avoid cycle
  rintro rfl
  rcases Relation.TransGen.head'_iff.mp cycle with ⟨second, edge, _⟩
  exact stuck second edge

/-- In a finite nonempty part of an acyclic relation, nobody points at some element. -/
theorem exists_free (acyclic : Acyclic relation) {elements : List α} (inhabited : elements ≠ []) :
    ∃ element ∈ elements, ∀ second ∈ elements, ¬relation second element := by
  let below (first second : { element // element ∈ elements }) : Prop :=
    Relation.TransGen relation first second
  have transitive : IsTrans { element // element ∈ elements } below :=
    ⟨fun _ _ _ early late => early.trans late⟩
  have irreflexive : Std.Irrefl below := ⟨fun element cycle => acyclic element cycle⟩
  have finite : Finite { element // element ∈ elements } :=
    (List.finite_toSet elements).to_subtype
  have wellFounded := Finite.wellFounded_of_trans_of_irrefl below
  obtain ⟨head, member⟩ := List.exists_mem_of_ne_nil elements inhabited
  obtain ⟨least, -, minimal⟩ := wellFounded.has_min Set.univ ⟨⟨head, member⟩, trivial⟩
  refine ⟨least, least.2, ?_⟩
  intro second listed edge
  exact minimal ⟨second, listed⟩ trivial (.single edge)

/-- If its edges lead to finitely many elements, every element reaches one without edges. -/
theorem exists_end (acyclic : Acyclic relation) {elements : List α}
    (targets : ∀ first second, relation first second → second ∈ elements) (start : α) :
    ∃ last, Relation.ReflTransGen relation start last ∧ ∀ next, ¬relation last next := by
  classical
  let reached := (start :: elements).filter (Relation.ReflTransGen relation start ·)
  have backwards : Acyclic (Function.swap relation) := fun element cycle =>
    acyclic element (Relation.transGen_swap.mp cycle)
  have member : start ∈ reached := by simp [reached, Relation.ReflTransGen.refl]
  obtain ⟨last, member, free⟩ := backwards.exists_free (List.ne_nil_of_mem member)
  have path : Relation.ReflTransGen relation start last :=
    of_decide_eq_true (List.mem_filter.mp member).2
  refine ⟨last, path, fun next edge => free next ?_ edge⟩
  simp [reached, targets last next edge, path.tail edge]

end Acyclic

variable [DecidableEq α]

/-- The list can be emptied by repeatedly erasing an element no remaining element
has an edge to. -/
inductive Peels (relation : α → α → Prop) : List α → Prop where
  | nil : Peels relation []
  | erase {element : α} {rest : List α} : element ∈ rest →
      (∀ other ∈ rest, ¬relation other element) →
      Peels relation (rest.erase element) → Peels relation rest

/-- A relation whose elements can be peeled off has no cycle among them. -/
theorem Peels.acyclic {relation : α → α → Prop} {elements : List α}
    (peels : Peels relation elements) :
    Acyclic fun first second =>
      first ∈ elements ∧ second ∈ elements ∧ relation first second := by
  induction peels with
  | nil => exact Acyclic.of_empty (by simp)
  | @erase element rest member free _ ih =>
    have avoid : ∀ {first second}, Relation.TransGen (fun first second =>
          first ∈ rest ∧ second ∈ rest ∧ relation first second) first second →
        first ≠ element → second ≠ element ∧
        Relation.TransGen (fun first second => first ∈ rest.erase element ∧
          second ∈ rest.erase element ∧ relation first second) first second := by
      intro first second path
      induction path with
      | @single second edge =>
        intro different
        have target : second ≠ element := by
          rintro rfl
          exact free first edge.1 edge.2.2
        exact ⟨target, .single ⟨(List.mem_erase_of_ne different).mpr edge.1,
          (List.mem_erase_of_ne target).mpr edge.2.1, edge.2.2⟩⟩
      | @tail middle second _ edge inner =>
        intro different
        obtain ⟨middleDifferent, path⟩ := inner different
        have target : second ≠ element := by
          rintro rfl
          exact free middle edge.1 edge.2.2
        exact ⟨target, path.tail ⟨(List.mem_erase_of_ne middleDifferent).mpr edge.1,
          (List.mem_erase_of_ne target).mpr edge.2.1, edge.2.2⟩⟩
    intro start cycle
    by_cases same : start = element
    · subst same
      rcases Relation.TransGen.tail'_iff.mp cycle with ⟨before, _, edge⟩
      exact free before edge.1 edge.2.2
    · exact ih start (avoid cycle same).2

end Gzochi.Lib
