import Mathlib.Data.Fintype.EquivFin

/-!
# Depth-first search along dependencies

A search starts from some keys.  Expanding a key makes a node, which may fail, and the node
needs further keys.  Keys that are cut off are passed over, and a key that is met again on
the path that leads to it fails the search.  What a search makes is a tree for each key,
whose nodes in post-order come after those of all keys they need.
-/

namespace Gzochi.Lib

open List

universe u v w

/-- Trees of nodes with any number of children. -/
inductive RoseTree (Node : Type u) where
  | node (value : Node) (children : List (RoseTree Node))

namespace RoseTree

variable {Node : Type u}

mutual

/-- The nodes of a tree, children first. -/
def postOrder : RoseTree Node → List Node
  | node value children => postOrderAll children ++ [value]

def postOrderAll : List (RoseTree Node) → List Node
  | [] => []
  | tree :: rest => tree.postOrder ++ postOrderAll rest

end

end RoseTree

namespace DepthFirst

variable {Key : Type u} {Node : Type v} {Error : Type w}

inductive Failure (Key : Type u) (Error : Type w) where
  | circular (key : Key)
  | refused (error : Error)

section Search

variable (expand : Key → Except Error Node) (needs : Node → List Key) (cut : Key → Prop)

/-- A search for some keys below a path, which is given from its end. -/
inductive Explores : List Key → List Key →
    Except (Failure Key Error) (List (RoseTree Node)) → Prop where
  | done {path : List Key} : Explores path [] (.ok [])
  | passed {path : List Key} {key : Key} {rest : List Key}
      {result : Except (Failure Key Error) (List (RoseTree Node))} (isCut : cut key)
      (later : Explores path rest result) : Explores path (key :: rest) result
  | circular {path : List Key} {key : Key} {rest : List Key} (uncut : ¬cut key)
      (onPath : key ∈ path) : Explores path (key :: rest) (.error (.circular key))
  | refused {path : List Key} {key : Key} {rest : List Key} {error : Error} (uncut : ¬cut key)
      (new : key ∉ path) (refuses : expand key = .error error) :
      Explores path (key :: rest) (.error (.refused error))
  | failedBelow {path : List Key} {key : Key} {rest : List Key} {made : Node}
      {failure : Failure Key Error} (uncut : ¬cut key) (new : key ∉ path)
      (expands : expand key = .ok made)
      (below : Explores (key :: path) (needs made) (.error failure)) :
      Explores path (key :: rest) (.error failure)
  | failedLater {path : List Key} {key : Key} {rest : List Key} {made : Node}
      {children : List (RoseTree Node)} {failure : Failure Key Error} (uncut : ¬cut key)
      (new : key ∉ path) (expands : expand key = .ok made)
      (below : Explores (key :: path) (needs made) (.ok children))
      (later : Explores path rest (.error failure)) :
      Explores path (key :: rest) (.error failure)
  | found {path : List Key} {key : Key} {rest : List Key} {made : Node}
      {children trees : List (RoseTree Node)} (uncut : ¬cut key) (new : key ∉ path)
      (expands : expand key = .ok made)
      (below : Explores (key :: path) (needs made) (.ok children))
      (later : Explores path rest (.ok trees)) :
      Explores path (key :: rest) (.ok (.node made children :: trees))

/-- The second key is needed by the first and not cut off. -/
def Follows (first second : Key) : Prop :=
  ∃ made, expand first = .ok made ∧ second ∈ needs made ∧ ¬cut second

/-- Following dependencies from a key. -/
def Reaches (first second : Key) : Prop :=
  Relation.ReflTransGen (Follows expand needs cut) first second

/-- Following dependencies from a key leads into a cycle. -/
def Cyclic (key : Key) : Prop :=
  ∃ again, Reaches expand needs cut key again ∧
    Relation.TransGen (Follows expand needs cut) again again

end Search

variable {expand : Key → Except Error Node} {needs : Node → List Key} {cut : Key → Prop}

variable {path : List Key}

/-- Over finitely many keys every search comes to an end. -/
theorem Explores.total [Finite Key] (distinct : path.Nodup) (keys : List Key) :
    ∃ result, Explores expand needs cut path keys result := by
  classical
  have fintype := Fintype.ofFinite Key
  have searches : ∀ bound (path : List Key), path.Nodup →
      Fintype.card Key ≤ bound + path.length → ∀ keys,
        ∃ result, Explores expand needs cut path keys result := by
    intro bound
    induction bound with
    | zero =>
      intro path distinct full keys
      have everything : ∀ key, key ∈ path := by
        intro key
        apply Classical.byContradiction
        intro missing
        have more := (nodup_cons.mpr ⟨missing, distinct⟩).length_le_card
        rw [length_cons] at more
        omega
      induction keys with
      | nil => exact ⟨_, .done⟩
      | cons key rest ih =>
        by_cases isCut : cut key
        · obtain ⟨result, later⟩ := ih
          exact ⟨result, .passed isCut later⟩
        · exact ⟨_, .circular isCut (everything key)⟩
    | succ bound shorter =>
      intro path distinct room keys
      induction keys with
      | nil => exact ⟨_, .done⟩
      | cons key rest ih =>
        obtain ⟨result, later⟩ := ih
        by_cases isCut : cut key
        · exact ⟨result, .passed isCut later⟩
        by_cases onPath : key ∈ path
        · exact ⟨_, .circular isCut onPath⟩
        cases expands : expand key with
        | error error => exact ⟨_, .refused isCut onPath expands⟩
        | ok made =>
          have longer : (key :: path).Nodup := nodup_cons.mpr ⟨onPath, distinct⟩
          have enough : Fintype.card Key ≤ bound + (key :: path).length := by
            rw [length_cons]
            omega
          obtain ⟨inner, below⟩ := shorter (key :: path) longer enough (needs made)
          cases inner with
          | error failure => exact ⟨_, .failedBelow isCut onPath expands below⟩
          | ok children =>
            cases result with
            | error failure => exact ⟨_, .failedLater isCut onPath expands below later⟩
            | ok trees => exact ⟨_, .found isCut onPath expands below later⟩
  exact searches (Fintype.card Key) path distinct (Nat.le_add_right _ _) keys

variable {keys : List Key} {key : Key}

/-- The key of a circular failure is on a cycle that the search has followed. -/
theorem Explores.circular_cyclic {head : Key}
    (explores : Explores expand needs cut path keys (.error (.circular key)))
    (chained : ∀ above ∈ path, Reaches expand needs cut above head)
    (needed : ∀ other ∈ keys, ¬cut other → Follows expand needs cut head other) :
    Cyclic expand needs cut head := by
  generalize result : (Except.error (.circular key) :
    Except (Failure Key Error) (List (RoseTree Node))) = outcome at explores
  induction explores generalizing head with
  | done => cases result
  | passed isCut later ih | failedLater uncut new expands below later _ ih =>
    exact ih chained (fun other member => needed other (mem_cons_of_mem _ member)) result
  | circular uncut onPath =>
    have edge := needed _ mem_cons_self uncut
    exact ⟨_, .single edge, Relation.TransGen.tail' (chained _ onPath) edge⟩
  | refused => cases result
  | @failedBelow path above rest made failure uncut new expands below ih =>
    have edge := needed _ mem_cons_self uncut
    have longer : ∀ other ∈ above :: path, Reaches expand needs cut other above := by
      intro other member
      cases mem_cons.mp member with
      | inl same => exact same ▸ .refl
      | inr member => exact (chained other member).tail edge
    obtain ⟨again, reaches, cycle⟩ := ih longer
      (fun other member uncut => ⟨made, expands, member, uncut⟩) result
    exact ⟨again, .head edge reaches, cycle⟩
  | found => cases result

variable {trees : List (RoseTree Node)}

/-- Nothing that a search has found leads into a cycle. -/
theorem Explores.accessible (explores : Explores expand needs cut path keys (.ok trees))
    (member : key ∈ keys) (uncut : ¬cut key) :
    Acc (fun lower upper => Follows expand needs cut upper lower) key := by
  generalize result : (Except.ok trees :
    Except (Failure Key Error) (List (RoseTree Node))) = outcome at explores
  induction explores generalizing trees key with
  | done => cases member
  | passed isCut later ih =>
    cases mem_cons.mp member with
    | inl same => exact (uncut (same ▸ isCut)).elim
    | inr member => exact ih member uncut result
  | circular => cases result
  | refused => cases result
  | failedBelow => cases result
  | failedLater => cases result
  | @found path first rest made children others _ new expands below later ihBelow ihLater =>
    cases mem_cons.mp member with
    | inl same =>
      subst same
      constructor
      rintro lower ⟨found, expandsToo, needed, lowerUncut⟩
      rw [expands] at expandsToo
      cases expandsToo
      exact ihBelow needed lowerUncut rfl
    | inr member => exact ihLater member uncut rfl

/-- A refusal is that of a key that dependencies lead to. -/
theorem Explores.refused_reached {error : Error}
    (explores : Explores expand needs cut path keys (.error (.refused error))) :
    ∃ key ∈ keys, ¬cut key ∧ ∃ last, Reaches expand needs cut key last ∧
      expand last = .error error := by
  generalize result : (Except.error (.refused error) :
    Except (Failure Key Error) (List (RoseTree Node))) = outcome at explores
  induction explores with
  | done => cases result
  | passed isCut later ih =>
    obtain ⟨key, member, found⟩ := ih result
    exact ⟨key, mem_cons_of_mem _ member, found⟩
  | circular => cases result
  | @refused path key rest other uncut new refuses =>
    cases result
    exact ⟨key, mem_cons_self, uncut, key, .refl, refuses⟩
  | @failedBelow path key rest made failure uncut new expands below ih =>
    obtain ⟨lower, member, lowerUncut, last, reaches, refuses⟩ := ih result
    exact ⟨key, mem_cons_self, uncut, last,
      .head ⟨made, expands, member, lowerUncut⟩ reaches, refuses⟩
  | failedLater uncut new expands below later ihBelow ihLater =>
    obtain ⟨key, member, found⟩ := ihLater result
    exact ⟨key, mem_cons_of_mem _ member, found⟩
  | found => cases result

/-! ## Cycles -/

section Mono

variable {more : Key → Prop}

variable (fewer : ∀ key, cut key → more key)
include fewer

/-- What is followed where more is cut off is followed where less is. -/
theorem Follows.mono {first second : Key}
    (follows : Follows expand needs more first second) : Follows expand needs cut first second := by
  obtain ⟨made, expands, needed, uncut⟩ := follows
  exact ⟨made, expands, needed, fun isCut => uncut (fewer second isCut)⟩

theorem Reaches.mono {first second : Key}
    (reaches : Reaches expand needs more first second) : Reaches expand needs cut first second :=
  Relation.ReflTransGen.mono (fun _ _ => Follows.mono fewer) _ _ reaches

theorem Cyclic.mono {key : Key}
    (cyclic : Cyclic expand needs more key) : Cyclic expand needs cut key := by
  obtain ⟨again, reaches, cycle⟩ := cyclic
  exact ⟨again, reaches.mono fewer,
    Relation.TransGen.mono (fun _ _ => Follows.mono fewer) _ _ cycle⟩

end Mono

/-- What leads into a cycle has a dependency that does. -/
theorem Cyclic.lower (cyclic : Cyclic expand needs cut key) :
    ∃ lower, Follows expand needs cut key lower ∧ Cyclic expand needs cut lower := by
  obtain ⟨again, reaches, cycle⟩ := cyclic
  cases reaches.cases_head with
  | inl here =>
    subst here
    obtain ⟨lower, edge, rest⟩ := Relation.TransGen.head'_iff.mp cycle
    exact ⟨lower, edge, key, rest, cycle⟩
  | inr further =>
    obtain ⟨lower, edge, rest⟩ := further
    exact ⟨lower, edge, again, rest, cycle⟩

theorem not_cyclic_of_acc
    (accessible : Acc (fun lower upper => Follows expand needs cut upper lower) key) :
    ¬Cyclic expand needs cut key := by
  induction accessible with
  | intro key _ ih =>
    intro cyclic
    obtain ⟨lower, edge, again⟩ := cyclic.lower
    exact ih lower edge again

/-! ## The order of what is found -/

/-- Every node comes after those of the keys it needs, unless they are cut off. -/
def Ordered (expand : Key → Except Error Node) (needs : Node → List Key) (cut : Key → Prop)
    (nodes : List Node) : Prop :=
  ∀ before made after, nodes = before ++ made :: after →
    ∀ key ∈ needs made, ¬cut key → ∃ earlier ∈ before, expand key = .ok earlier

theorem Ordered.nil : Ordered expand needs cut [] := by
  intro before made after whole
  cases before <;> cases whole

theorem Ordered.append {first second : List Node} (firstOrdered : Ordered expand needs cut first)
    (secondOrdered : Ordered expand needs cut second) :
    Ordered expand needs cut (first ++ second) := by
  intro before made after whole key needed uncut
  cases append_eq_append_iff.mp whole with
  | inl inSecond =>
    obtain ⟨shift, isBefore, isSecond⟩ := inSecond
    obtain ⟨earlier, member, expands⟩ :=
      secondOrdered shift made after isSecond key needed uncut
    exact ⟨earlier, isBefore ▸ mem_append_right _ member, expands⟩
  | inr inFirst =>
    obtain ⟨shift, isFirst, rest⟩ := inFirst
    cases shift with
    | nil =>
      obtain ⟨earlier, member, _⟩ :=
        secondOrdered [] made after (by simpa using rest.symm) key needed uncut
      cases member
    | cons head shift =>
      cases rest
      exact firstOrdered before made shift isFirst key needed uncut

theorem Ordered.snoc {nodes : List Node} {made : Node} (ordered : Ordered expand needs cut nodes)
    (satisfied : ∀ key ∈ needs made, ¬cut key → ∃ earlier ∈ nodes, expand key = .ok earlier) :
    Ordered expand needs cut (nodes ++ [made]) := by
  intro before last after whole key needed uncut
  cases eq_nil_or_concat after with
  | inl none =>
    subst none
    obtain ⟨isBefore, isLast⟩ := append_inj' whole rfl
    injection isLast with isLast _
    subst isBefore isLast
    exact satisfied key needed uncut
  | inr some =>
    obtain ⟨shorter, final, isAfter⟩ := some
    rw [isAfter, concat_eq_append, ← cons_append, ← append_assoc] at whole
    exact ordered before last shorter (append_inj' whole rfl).1 key needed uncut

variable (explores : Explores expand needs cut path keys (.ok trees))
include explores

/-- The nodes found are those of the keys that dependencies lead to. -/
theorem Explores.mem_postOrder {made : Node} : made ∈ RoseTree.postOrderAll trees ↔
      ∃ key ∈ keys, ¬cut key ∧ ∃ last, Reaches expand needs cut key last ∧
        expand last = .ok made := by
  generalize result : (Except.ok trees :
    Except (Failure Key Error) (List (RoseTree Node))) = outcome at explores
  induction explores generalizing trees made with
  | done =>
    cases result
    simp [RoseTree.postOrderAll]
  | @passed path key rest result isCut later ih =>
    rw [ih result]
    constructor
    · rintro ⟨other, member, found⟩
      exact ⟨other, mem_cons_of_mem _ member, found⟩
    · rintro ⟨other, member, uncut, found⟩
      cases mem_cons.mp member with
      | inl same => exact (uncut (same ▸ isCut)).elim
      | inr member => exact ⟨other, member, uncut, found⟩
  | circular => cases result
  | refused => cases result
  | failedBelow => cases result
  | failedLater => cases result
  | @found path key rest top children others uncut new expands below later ihBelow ihLater =>
    cases result
    rw [RoseTree.postOrderAll, RoseTree.postOrder, mem_append, mem_append,
      ihBelow rfl, ihLater rfl, mem_singleton]
    constructor
    · rintro ((⟨other, member, otherUncut, last, reaches, made⟩ | here) | inRest)
      · exact ⟨key, mem_cons_self, uncut, last,
          .head ⟨top, expands, member, otherUncut⟩ reaches, made⟩
      · exact ⟨key, mem_cons_self, uncut, key, .refl, here ▸ expands⟩
      · obtain ⟨other, member, found⟩ := inRest
        exact ⟨other, mem_cons_of_mem _ member, found⟩
    · rintro ⟨other, member, otherUncut, last, reaches, expandsLast⟩
      cases mem_cons.mp member with
      | inl same =>
        subst same
        cases reaches.cases_head with
        | inl here =>
          subst here
          rw [expands] at expandsLast
          injection expandsLast with same
          exact .inl (.inr same.symm)
        | inr further =>
          obtain ⟨lower, ⟨found, expandsToo, needed, lowerUncut⟩, rest⟩ := further
          rw [expands] at expandsToo
          cases expandsToo
          exact .inl (.inl ⟨lower, needed, lowerUncut, last, rest, expandsLast⟩)
      | inr member => exact .inr ⟨other, member, otherUncut, last, reaches, expandsLast⟩

/-- Everything that dependencies lead to has been expanded. -/
theorem Explores.reached_expands {last : Key} (member : key ∈ keys) (uncut : ¬cut key)
    (reaches : Reaches expand needs cut key last) :
    ∃ made, expand last = .ok made := by
  generalize result : (Except.ok trees :
    Except (Failure Key Error) (List (RoseTree Node))) = outcome at explores
  induction explores generalizing trees key with
  | done => cases member
  | passed isCut later ih =>
    cases mem_cons.mp member with
    | inl same => exact (uncut (same ▸ isCut)).elim
    | inr member => exact ih member uncut reaches result
  | circular => cases result
  | refused => cases result
  | failedBelow => cases result
  | failedLater => cases result
  | found _ _ expands below _ ihBelow ihLater =>
    cases mem_cons.mp member with
    | inl same =>
      subst same
      cases reaches.cases_head with
      | inl here => exact ⟨_, here ▸ expands⟩
      | inr further =>
        obtain ⟨lower, ⟨found, expandsToo, needed, lowerUncut⟩, rest⟩ := further
        rw [expands] at expandsToo
        cases expandsToo
        exact ihBelow needed lowerUncut rest rfl
    | inr member => exact ihLater member uncut reaches rfl

theorem Explores.ordered : Ordered expand needs cut (RoseTree.postOrderAll trees) := by
  generalize result : (Except.ok trees :
    Except (Failure Key Error) (List (RoseTree Node))) = outcome at explores
  induction explores generalizing trees with
  | done =>
    cases result
    exact .nil
  | passed _ _ ih => exact ih result
  | circular => cases result
  | refused => cases result
  | failedBelow => cases result
  | failedLater => cases result
  | @found path key rest top children others uncut new expands below later ihBelow ihLater =>
    cases result
    rw [RoseTree.postOrderAll, RoseTree.postOrder]
    refine ((ihBelow rfl).snoc ?_).append (ihLater rfl)
    intro lower needed lowerUncut
    obtain ⟨node, expandsLower⟩ := below.reached_expands needed lowerUncut .refl
    exact ⟨node, below.mem_postOrder.mpr
      ⟨lower, needed, lowerUncut, lower, .refl, expandsLower⟩, expandsLower⟩

end DepthFirst

end Gzochi.Lib
