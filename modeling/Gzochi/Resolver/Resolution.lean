import Gzochi.Resolver.DependencyTree
import Mathlib.Data.FinEnum

/-!
# What requiring a type comes to

The tables compare 32 bits of a type.  Where no two of the types that are met agree in these,
every type that is needed is constructed once, after the types it needs; a search that goes
around in a circle is reported.  A type that agrees with another one is taken for it.
-/

namespace Gzochi.Resolver

open Lib List Context
open DepthFirst (Explores Failure Follows Reaches Cyclic Ordered)

variable {classes : Classes} {context : Context}

theorem Context.insert_instances {object : Object} (absent : ¬context.contains object.type = true) :
    (context.insert object).instances = context.instances ++ [(object.type, object)] := by
  rw [insert, dif_neg absent]

variable {type : GType}

theorem Context.lookup_isSome (present : context.contains type = true) :
    ∃ object, context.lookup type = some object := by
  unfold contains at present
  unfold lookup
  rw [any_eq_true] at present
  obtain ⟨entry, member, same⟩ := present
  have found : (context.instances.find? fun entry => gInt entry.1 = gInt type).isSome := by
    rw [List.find?_isSome]
    exact ⟨entry, member, same⟩
  obtain ⟨first, isFirst⟩ := Option.isSome_iff_exists.mp found
  exact ⟨first.2, by rw [isFirst, Option.map_some]⟩

/-- The object that is found is in the table, under a key that compares equal. -/
theorem Context.lookup_mem {object : Object} (found : context.lookup type = some object) :
    (object.type, object) ∈ context.instances ∧ gInt object.type = gInt type := by
  unfold lookup at found
  obtain ⟨entry, isFirst, same⟩ := Option.map_eq_some_iff.mp found
  have member := mem_of_find?_eq_some isFirst
  have equal : gInt entry.1 = gInt type := by
    simpa only [decide_eq_true_eq] using List.find?_some isFirst
  have typed := context.typed entry member
  subst same
  rw [typed]
  exact ⟨member, equal⟩

theorem mapM_isSome {α β : Type} {f : α → Option β} {list : List α}
    (each : ∀ element ∈ list, ∃ value, f element = some value) :
    ∃ values, list.mapM f = some values := by
  induction list with
  | nil => exact ⟨[], rfl⟩
  | cons element rest ih =>
    obtain ⟨value, first⟩ := each element mem_cons_self
    obtain ⟨values, later⟩ := ih fun other member => each other (mem_cons_of_mem _ member)
    exact ⟨value :: values, by rw [mapM_cons, first, later]; rfl⟩

/-- For every parameter of a constructor there is an instance, or a constructor before it. -/
def Satisfied (context : Context) (ctors : List Constructor) : Prop :=
  ∀ before ctor after, ctors = before ++ ctor :: after → ∀ type ∈ extractDependencies ctor,
    context.contains type = true ∨ ∃ earlier ∈ before, earlier.type = type

/-- The entries for what has been constructed. -/
def entriesOf (built : List Construction) : List (GType × Object) :=
  built.map fun construction => (construction.object.type, construction.object)

/-- What the traversal does with some constructors. -/
structure Constructed (context : Context) (ctors : List Constructor) (after : Context)
    (built : List Construction) : Prop where
  instances : after.instances = context.instances ++ entriesOf built
  present : ∀ ctor ∈ ctors, after.contains ctor.type = true
  placed : ∀ before construction later, built = before ++ construction :: later →
    ∃ earlier ctor rest, ctors = earlier ++ ctor :: rest ∧
      ctor.type = construction.object.type ∧ ∀ other ∈ earlier,
        gInt other.type ∈
          (context.instances ++ entriesOf before).map fun entry => gInt entry.1

variable {after : Context}

theorem contains_append {more : List (GType × Object)}
    (extends_ : after.instances = context.instances ++ more)
    (present : context.contains type = true) : after.contains type = true := by
  rw [contains_iff] at present ⊢
  rw [extends_, map_append]
  exact mem_append_left _ present

/-- One constructor: its type is in the table afterwards. -/
theorem constructInstance_spec {ctor : Constructor}
    (satisfied : ∀ type ∈ extractDependencies ctor, context.contains type = true) :
    ∃ after built, constructInstance context ctor = some (after, built) ∧
      after.instances = context.instances ++ entriesOf built ∧
      after.contains ctor.type = true ∧
      (built = [] ∧ context.contains ctor.type = true ∨
        ∃ construction, built = [construction] ∧ construction.object.type = ctor.type) := by
  unfold constructInstance
  split
  next present =>
    exact ⟨context, [], rfl, (append_nil _).symm, present, .inl ⟨rfl, present⟩⟩
  next absent =>
    obtain ⟨injected, lookups⟩ : ∃ injected,
        (ctor.parameters.mapM fun pspec => context.lookup pspec.valueType) = some injected := by
      apply mapM_isSome
      intro pspec member
      exact lookup_isSome (satisfied _ (mem_map_of_mem member))
    rw [lookups]
    have inserted : (context.insert ⟨ctor.type, context.instances.length⟩).instances = _ :=
      insert_instances absent
    refine ⟨_, _, rfl, inserted, ?_, .inr ⟨_, rfl, rfl⟩⟩
    rw [contains_iff, inserted, map_append]
    exact mem_append_right _ mem_cons_self

theorem constructInstances_spec {ctors : List Constructor} (satisfied : Satisfied context ctors) :
    ∃ after built, constructInstances context ctors = some (after, built) ∧
      Constructed context ctors after built := by
  induction ctors generalizing context with
  | nil =>
    refine ⟨context, [], rfl, (append_nil _).symm, ?_, ?_⟩
    · intro ctor member
      cases member
    · intro before construction later whole
      cases before <;> cases whole
  | cons ctor rest ih =>
    have first : ∀ type ∈ extractDependencies ctor, context.contains type = true := by
      intro type member
      cases satisfied [] ctor rest rfl type member with
      | inl present => exact present
      | inr earlier =>
        obtain ⟨_, member, _⟩ := earlier
        cases member
    obtain ⟨middle, built, done, instances, present, either⟩ := constructInstance_spec first
    have later : Satisfied middle rest := by
      intro before other after whole type member
      cases satisfied (ctor :: before) other after (by rw [whole]; rfl) type member with
      | inl inContext => exact .inl (contains_append instances inContext)
      | inr inBefore =>
        obtain ⟨earlier, inside, same⟩ := inBefore
        cases mem_cons.mp inside with
        | inl isFirst => exact .inl (same ▸ isFirst ▸ present)
        | inr inside => exact .inr ⟨earlier, inside, same⟩
    obtain ⟨after, more, doneLater, constructed⟩ := ih later
    have whole : after.instances = context.instances ++ entriesOf (built ++ more) := by
      rw [constructed.instances, instances, entriesOf, entriesOf, entriesOf, map_append,
        append_assoc]
    refine ⟨after, built ++ more, by simp only [constructInstances, done, doneLater], whole, ?_, ?_⟩
    · intro other member
      cases mem_cons.mp member with
      | inl same => exact same ▸ contains_append constructed.instances present
      | inr member => exact constructed.present other member
    · intro before construction last split
      cases either with
      | inl skipped =>
        obtain ⟨rfl, contained⟩ := skipped
        obtain ⟨earlier, other, suffix, isRest, same, seen⟩ := constructed.placed _ _ _ split
        refine ⟨ctor :: earlier, other, suffix, by rw [isRest]; rfl, same, ?_⟩
        intro one member
        have grown : middle.instances = context.instances := by
          rw [instances, entriesOf, map_nil, append_nil]
        cases mem_cons.mp member with
        | inl isFirst =>
          rw [isFirst, map_append]
          exact mem_append_left _ ((contains_iff _ _).mp contained)
        | inr member => exact grown ▸ seen one member
      | inr made =>
        obtain ⟨construction', rfl, sameType⟩ := made
        cases before with
        | nil =>
          cases split
          exact ⟨[], ctor, rest, rfl, sameType.symm, fun _ member => nomatch member⟩
        | cons head before =>
          injection split with isFirst isMore
          subst isFirst
          obtain ⟨earlier, other, suffix, isRest, same, seen⟩ := constructed.placed _ _ _ isMore
          refine ⟨ctor :: earlier, other, suffix, by rw [isRest]; rfl, same, ?_⟩
          intro one member
          cases mem_cons.mp member with
          | inl isFirst =>
            rw [isFirst, ← sameType, map_append]
            exact mem_append_right _ mem_cons_self
          | inr member =>
            have known := seen one member
            rw [instances, entriesOf, map_cons, map_nil, append_assoc] at known
            exact known

/-- The context has an instance of exactly this type. -/
def Cached (context : Context) (type : GType) : Prop :=
  type ∈ context.instances.map Prod.fst

/-- The types that have to be instantiated when a type is required: it and those that
dependencies lead to, up to those that have instances. -/
def Needed (classes : Classes) (context : Context) (root type : GType) : Prop :=
  ¬Cached context root ∧
    Reaches (injectableConstructorForType classes) extractDependencies (Cached context) root type

/-- Following dependencies from a type leads into a cycle that no instance cuts. -/
def LeadsIntoCycle (classes : Classes) (context : Context) (root : GType) : Prop :=
  ¬Cached context root ∧
    Cyclic (injectableConstructorForType classes) extractDependencies (Cached context) root

/-- What requiring a type is to come to: a circular dependency is reported when there is one,
and otherwise every needed type is instantiated once, after those it depends on, and an
object of the required type is returned. -/
def Resolves (classes : Classes) (context : Context) (root : GType) (after : Context)
    (required : Required) : Prop :=
  ((∃ type, required = .failed (.circularDependency type)) ↔
    LeadsIntoCycle classes context root) ∧
  (¬LeadsIntoCycle classes context root →
    ∃ object built, required = .resolved object built ∧ object.type = root ∧
      after.instances = context.instances ++ entriesOf built ∧
      (built.map fun construction => construction.object.type).Nodup ∧
      (∀ type, type ∈ (built.map fun construction => construction.object.type) ↔
        Needed classes context root type) ∧
      ∀ before construction later, built = before ++ construction :: later → ∀ type,
        Follows (injectableConstructorForType classes) extractDependencies (Cached context)
          construction.object.type type →
        type ∈ before.map fun earlier => earlier.object.type)

/-- No two types that are met compare equal: where there is a cycle, the search is not kept
from it by a type that is taken for one that has an instance; where there is none, a needed
type is taken neither for one that has an instance nor for another needed one. -/
def Apart (classes : Classes) (context : Context) (root : GType) : Prop :=
  (LeadsIntoCycle classes context root →
    ¬context.contains root = true ∧
      Cyclic (injectableConstructorForType classes) extractDependencies
        (fun type => context.contains type = true) root) ∧
  (¬LeadsIntoCycle classes context root → ∀ type, Needed classes context root type →
    (∀ key, Cached context key → gInt key ≠ gInt type) ∧
    ∀ other, Needed classes context root other → gInt other = gInt type → other = type)

theorem contains_of_cached (cached : Cached context type) : context.contains type = true := by
  rw [contains_iff]
  obtain ⟨entry, member, same⟩ := mem_map.mp cached
  exact mem_map.mpr ⟨entry, member, congrArg gInt same⟩

/-- An instance of exactly the type is what is found. -/
theorem lookup_of_cached (cached : Cached context type) :
    ∃ object, context.lookup type = some object ∧ object.type = type := by
  obtain ⟨object, found⟩ := lookup_isSome (contains_of_cached cached)
  obtain ⟨member, equal⟩ := lookup_mem found
  obtain ⟨entry, entryMember, same⟩ := mem_map.mp cached
  have one : entry = (object.type, object) :=
    inj_on_of_nodup_map context.distinct entryMember member ((congrArg gInt same).trans equal.symm)
  refine ⟨object, found, ?_⟩
  rw [← same, one]

section Required

variable {root : GType}

/-- A type that is in the table, or taken for one that is. -/
theorem resolves_of_contains (classes : Classes) (present : context.contains root = true) :
    ∃ object, lookupRequired context root [] = (context, .resolved object []) ∧
      (Resolves classes context root context (.resolved object []) ↔
        Apart classes context root) := by
  by_cases cached : Cached context root
  · obtain ⟨object, found, same⟩ := lookup_of_cached cached
    refine ⟨object, by rw [lookupRequired, found], ?_⟩
    have nothing : ∀ type, ¬Needed classes context root type := fun _ needed => needed.1 cached
    have straight : ¬LeadsIntoCycle classes context root := fun leads => leads.1 cached
    constructor
    · intro _
      exact ⟨fun leads => (straight leads).elim, fun _ type needed => (nothing type needed).elim⟩
    · intro _
      constructor
      · constructor
        · rintro ⟨_, failed⟩
          cases failed
        · intro leads
          exact (straight leads).elim
      · intro _
        refine ⟨object, [], rfl, same, (append_nil _).symm, nodup_nil, ?_, ?_⟩
        · intro type
          constructor
          · intro member
            cases member
          · intro needed
            exact (nothing type needed).elim
        · intro before construction later whole
          cases before <;> cases whole
  · obtain ⟨object, found⟩ := lookup_isSome present
    refine ⟨object, by rw [lookupRequired, found], ?_⟩
    have needed : Needed classes context root root := ⟨cached, .refl⟩
    constructor
    · intro resolves
      constructor
      · intro leads
        obtain ⟨_, failed⟩ := resolves.1.mpr leads
        cases failed
      · intro straight
        obtain ⟨_, built, same, _, _, _, complete, _⟩ := resolves.2 straight
        injection same with _ nothing
        subst nothing
        cases (complete root).mpr needed
    · intro apart
      by_cases leads : LeadsIntoCycle classes context root
      · exact ((apart.1 leads).1 present).elim
      · rw [contains_iff] at present
        obtain ⟨entry, member, equal⟩ := mem_map.mp present
        exact ((apart.2 leads root needed).1 entry.1 (mem_map_of_mem member) equal).elim

/-- A circular dependency that is reported is there. -/
theorem resolves_of_circular {after : Context} {type : GType}
    (uncut : ¬context.contains root = true)
    (cyclic : Cyclic (injectableConstructorForType classes) extractDependencies
      (fun type => context.contains type = true) root) :
    Resolves classes context root after (.failed (.circularDependency type)) ↔
      Apart classes context root := by
  have leads : LeadsIntoCycle classes context root :=
    ⟨fun cached => uncut (contains_of_cached cached), cyclic.mono fun _ => contains_of_cached⟩
  constructor
  · intro _
    exact ⟨fun _ => ⟨uncut, cyclic⟩, fun straight => (straight leads).elim⟩
  · intro _
    exact ⟨⟨fun _ => leads, fun _ => ⟨type, rfl⟩⟩, fun straight => (straight leads).elim⟩

/-- Among types that are apart, what compares equal to a needed type is that type, as one of
those that have been constructed. -/
theorem mem_of_equal (straight : ¬LeadsIntoCycle classes context root)
    (apart : Apart classes context root) {type : GType} (needed : Needed classes context root type)
    {built : List Construction}
    (onlyNeeded : ∀ construction ∈ built, Needed classes context root construction.object.type)
    (equal : gInt type ∈ (context.instances ++ entriesOf built).map fun entry => gInt entry.1) :
    type ∈ built.map fun construction => construction.object.type := by
  obtain ⟨entry, member, same⟩ := mem_map.mp equal
  have different := apart.2 straight type needed
  cases mem_append.mp member with
  | inl inContext =>
    exact (different.1 entry.1 (mem_map_of_mem inContext) same).elim
  | inr inBuilt =>
    obtain ⟨construction, inside, rfl⟩ := mem_map.mp inBuilt
    have one := different.2 _ (onlyNeeded construction inside) same
    exact mem_map.mpr ⟨construction, inside, one⟩

/-- Among types that are apart, comparing 32 bits cuts off what is to be cut off. -/
theorem reaches_of_needed (straight : ¬LeadsIntoCycle classes context root)
    (apart : Apart classes context root) {type : GType}
    (needed : Needed classes context root type) :
    ¬context.contains type = true ∧
      Reaches (injectableConstructorForType classes) extractDependencies
        (fun type => context.contains type = true) root type := by
  have uncut : ∀ other, Needed classes context root other → ¬context.contains other = true := by
    intro other otherNeeded present
    rw [contains_iff] at present
    obtain ⟨entry, member, equal⟩ := mem_map.mp present
    exact (apart.2 straight other otherNeeded).1 entry.1 (mem_map_of_mem member) equal
  obtain ⟨uncached, reaches⟩ := needed
  refine ⟨uncut type ⟨uncached, reaches⟩, ?_⟩
  induction reaches with
  | refl => exact .refl
  | tail reached edge ih =>
    have next := uncut _ ⟨uncached, reached.tail edge⟩
    obtain ⟨made, expands, member, _⟩ := edge
    exact ih.tail ⟨made, expands, member, next⟩

/-- What the constructors of a dependency tree come to: they are those that the search led
to, each stands after those it depends on, and nothing else is constructed. -/
structure TreeBuilt (classes : Classes) (context : Context) (root : GType)
    (ctors : List Constructor) (after : Context) (built : List Construction) : Prop
    extends Constructed context ctors after built where
  uncut : ¬context.contains root = true
  mem_iff : ∀ {ctor}, ctor ∈ ctors ↔
    ∃ last, Reaches (injectableConstructorForType classes) extractDependencies
        (fun type => context.contains type = true) root last ∧
      injectableConstructorForType classes last = .ok ctor
  expands : ∀ {last}, Reaches (injectableConstructorForType classes) extractDependencies
    (fun type => context.contains type = true) root last →
      ∃ ctor, injectableConstructorForType classes last = .ok ctor
  ordered : Ordered (injectableConstructorForType classes) extractDependencies
    (fun type => context.contains type = true) ctors
  acyclic : ¬Cyclic (injectableConstructorForType classes) extractDependencies
    (fun type => context.contains type = true) root

/-- A dependency tree has been built, and its nodes are constructed. -/
theorem treeBuilt {ctor : Constructor} {children : List (RoseTree Constructor)}
    (uncut : ¬context.contains root = true)
    (made : injectableConstructorForType classes root = .ok ctor)
    (searches : Searches classes context [root] (extractDependencies ctor) (.ok children)) :
    ∃ after built,
      constructInstances context (RoseTree.node ctor children).postOrder = some (after, built) ∧
      TreeBuilt classes context root (RoseTree.node ctor children).postOrder after built := by
  have whole : Searches classes context [] [root] (.ok [.node ctor children]) :=
    .found uncut not_mem_nil made searches .done
  have listed : RoseTree.postOrderAll [.node ctor children] =
      (RoseTree.node ctor children).postOrder := append_nil _
  have ordered := whole.ordered
  rw [listed] at ordered
  have satisfied : Satisfied context (RoseTree.node ctor children).postOrder := by
    intro before other after split type member
    by_cases present : context.contains type = true
    · exact .inl present
    · obtain ⟨earlier, inside, expands⟩ := ordered before other after split type member present
      exact .inr ⟨earlier, inside, type_of_constructor expands⟩
  obtain ⟨after, built, done, constructed⟩ := constructInstances_spec satisfied
  refine ⟨after, built, done, { constructed with
    uncut := uncut
    mem_iff := ?_
    expands := whole.reached_expands mem_cons_self uncut
    ordered := ordered
    acyclic := DepthFirst.not_cyclic_of_acc (whole.accessible mem_cons_self uncut) }⟩
  intro other
  rw [← listed, whole.mem_postOrder]
  simp [uncut]

namespace TreeBuilt

variable {ctors : List Constructor} {built : List Construction} {object : Object}

theorem uncached (tree : TreeBuilt classes context root ctors after built) :
    ¬Cached context root :=
  fun cached => tree.uncut (contains_of_cached cached)

theorem onlyNeeded (tree : TreeBuilt classes context root ctors after built) :
    ∀ construction ∈ built, Needed classes context root construction.object.type := by
  intro construction member
  obtain ⟨before, later, split⟩ := append_of_mem member
  obtain ⟨earlier, other, rest, isList, same, _⟩ := tree.placed before construction later split
  obtain ⟨last, reaches, expands⟩ := tree.mem_iff.mp (isList ▸ mem_append_right _ mem_cons_self)
  have isType := (type_of_constructor expands).symm.trans same
  exact ⟨tree.uncached, isType ▸ reaches.mono fun _ => contains_of_cached⟩

/-- No key of the table compares equal to another. -/
theorem distinct (tree : TreeBuilt classes context root ctors after built) :
    ((entriesOf built).map fun entry => gInt entry.1).Nodup ∧
      ∀ key ∈ context.instances.map fun entry => gInt entry.1,
        ∀ other ∈ (entriesOf built).map fun entry => gInt entry.1, key ≠ other := by
  have distinct := after.distinct
  rw [tree.instances, map_append, nodup_append] at distinct
  exact distinct.2

/-- If everything needed has been constructed, no two of its types compare equal. -/
theorem apart_of_resolves (tree : TreeBuilt classes context root ctors after built)
    (resolves : Resolves classes context root after (.resolved object built)) :
    Apart classes context root := by
  constructor
  · intro leads
    obtain ⟨_, failed⟩ := resolves.1.mpr leads
    cases failed
  · intro straight type needed
    obtain ⟨_, _, same, _, _, _, complete, _⟩ := resolves.2 straight
    injection same with _ sameBuilt
    subst sameBuilt
    obtain ⟨construction, member, rfl⟩ := mem_map.mp ((complete type).mpr needed)
    constructor
    · intro key cached equal
      obtain ⟨entry, inContext, rfl⟩ := mem_map.mp cached
      exact tree.distinct.2 _ (mem_map_of_mem inContext) _
        (mem_map_of_mem (mem_map_of_mem member)) equal
    · intro other otherNeeded equal
      obtain ⟨second, secondMember, rfl⟩ := mem_map.mp ((complete other).mpr otherNeeded)
      have one := inj_on_of_nodup_map tree.distinct.1 (mem_map_of_mem secondMember)
        (mem_map_of_mem member) equal
      exact congrArg Prod.fst one

theorem types_nodup (tree : TreeBuilt classes context root ctors after built) :
    (built.map fun construction => construction.object.type).Nodup := by
  have inner := tree.distinct.1
  rw [entriesOf, map_map] at inner
  refine List.Nodup.of_map gInt ?_
  rw [map_map]
  exact inner

/-- The object that is found has the type required, not one that compares equal. -/
theorem lookup_type (tree : TreeBuilt classes context root ctors after built)
    (straight : ¬LeadsIntoCycle classes context root) (apart : Apart classes context root)
    (found : after.lookup root = some object) : object.type = root := by
  obtain ⟨member, equal⟩ := lookup_mem found
  rw [tree.instances] at member
  have different := apart.2 straight root ⟨tree.uncached, .refl⟩
  cases mem_append.mp member with
  | inl inContext =>
    exact (different.1 _ (mem_map_of_mem inContext) equal).elim
  | inr inBuilt =>
    obtain ⟨construction, inside, isEntry⟩ := mem_map.mp inBuilt
    injection isEntry with isType _
    exact different.2 _ (isType ▸ tree.onlyNeeded construction inside) equal

/-- What is needed is constructed. -/
theorem complete (tree : TreeBuilt classes context root ctors after built)
    (straight : ¬LeadsIntoCycle classes context root) (apart : Apart classes context root)
    {type : GType} (needed : Needed classes context root type) :
    type ∈ built.map fun construction => construction.object.type := by
  obtain ⟨typeUncut, reaches⟩ := reaches_of_needed straight apart needed
  obtain ⟨other, expands⟩ := tree.expands reaches
  have present := tree.present other (tree.mem_iff.mpr ⟨type, reaches, expands⟩)
  rw [type_of_constructor expands, contains_iff, tree.instances] at present
  exact mem_of_equal straight apart needed tree.onlyNeeded present

/-- What a construction depends on is constructed before it. -/
theorem dependencies_first (tree : TreeBuilt classes context root ctors after built)
    (straight : ¬LeadsIntoCycle classes context root) (apart : Apart classes context root)
    {before later : List Construction} {construction : Construction}
    (split : built = before ++ construction :: later) {type : GType}
    (follows : Follows (injectableConstructorForType classes) extractDependencies (Cached context)
      construction.object.type type) :
    type ∈ before.map fun earlier => earlier.object.type := by
  have inside : construction ∈ built := split ▸ mem_append_right _ mem_cons_self
  have needed : Needed classes context root type :=
    ⟨tree.uncached, (tree.onlyNeeded construction inside).2.tail follows⟩
  have typeUncut := (reaches_of_needed straight apart needed).1
  obtain ⟨earlier, other, rest, isList, same, seen⟩ :=
    tree.placed before construction later split
  obtain ⟨last, _, expandsLast⟩ := tree.mem_iff.mp (isList ▸ mem_append_right _ mem_cons_self)
  have isLast := type_of_constructor expandsLast
  obtain ⟨madeHere, expandsHere, member, _⟩ := follows
  rw [← same, isLast, expandsLast] at expandsHere
  cases expandsHere
  obtain ⟨ctorBefore, inEarlier, expandsType⟩ :=
    tree.ordered earlier other rest isList type member typeUncut
  have equal := seen ctorBefore inEarlier
  rw [type_of_constructor expandsType] at equal
  exact mem_of_equal straight apart needed
    (fun one inBefore => tree.onlyNeeded one (split ▸ mem_append_left _ inBefore)) equal

theorem resolves_of_apart (tree : TreeBuilt classes context root ctors after built)
    (found : after.lookup root = some object) (apart : Apart classes context root) :
    Resolves classes context root after (.resolved object built) := by
  have straight : ¬LeadsIntoCycle classes context root :=
    fun leads => tree.acyclic (apart.1 leads).2
  constructor
  · constructor
    · rintro ⟨_, failed⟩
      cases failed
    · intro leads
      exact (straight leads).elim
  · intro _
    refine ⟨object, built, rfl, tree.lookup_type straight apart found, tree.instances,
      tree.types_nodup, ?_, fun _ _ _ split _ => tree.dependencies_first straight apart split⟩
    intro type
    constructor
    · intro member
      obtain ⟨construction, inside, isType⟩ := mem_map.mp member
      exact isType ▸ tree.onlyNeeded construction inside
    · exact tree.complete straight apart

end TreeBuilt

/-- Requiring a type whose dependency tree can be built. -/
theorem resolves_of_tree {ctor : Constructor} {children : List (RoseTree Constructor)}
    (uncut : ¬context.contains root = true)
    (made : injectableConstructorForType classes root = .ok ctor)
    (searches : Searches classes context [root] (extractDependencies ctor) (.ok children)) :
    ∃ after built object,
      constructInstances context (RoseTree.node ctor children).postOrder = some (after, built) ∧
      lookupRequired after root built = (after, .resolved object built) ∧
      (Resolves classes context root after (.resolved object built) ↔
        Apart classes context root) := by
  obtain ⟨after, built, done, tree⟩ := treeBuilt uncut made searches
  have presentRoot : after.contains root = true := by
    have isHere := tree.present ctor (tree.mem_iff.mpr ⟨root, .refl, made⟩)
    rw [type_of_constructor made] at isHere
    exact isHere
  obtain ⟨object, found⟩ := lookup_isSome presentRoot
  exact ⟨after, built, object, done, by rw [lookupRequired, found], tree.apart_of_resolves,
    tree.resolves_of_apart found⟩

end Required

/-- A request comes to an end: to a result after so many steps of building the tree.  Where
all needed types have constructors whose arguments can be injected, the result is what it is
to be exactly when no two of the types that are met are taken for each other. -/
theorem requireFull_resolves (classes : Classes) (context : Context) (root : GType) :
    ∃ after required, (∃ enough, ∀ fuel ≥ enough,
        gzochidResolverRequireFull classes context root fuel = some (after, required)) ∧
      ((∀ type, Needed classes context root type →
          ∃ ctor, injectableConstructorForType classes type = .ok ctor) →
        (Resolves classes context root after required ↔ Apart classes context root)) := by
  by_cases present : context.contains root = true
  · obtain ⟨object, found, resolves⟩ := resolves_of_contains classes present
    refine ⟨context, .resolved object [], ⟨0, ?_⟩, fun _ => resolves⟩
    intro fuel _
    rw [gzochidResolverRequireFull, if_pos present, found]
  · have uncached : ¬Cached context root := fun cached => present (contains_of_cached cached)
    cases made : injectableConstructorForType classes root with
    | error err =>
      refine ⟨context, .failed err, ⟨0, ?_⟩, ?_⟩
      · intro fuel _
        simp only [gzochidResolverRequireFull, if_neg present, buildDependencyTree, made]
      · intro injectable
        obtain ⟨ctor, isCtor⟩ := injectable root ⟨uncached, .refl⟩
        rw [made] at isCtor
        cases isCtor
    | ok ctor =>
      obtain ⟨result, searches⟩ : ∃ result,
          Searches classes context [root] (extractDependencies ctor) result :=
        Explores.total (nodup_singleton root) _
      obtain ⟨enough, builds⟩ := buildDependencyTree_eq made searches
      cases result with
      | ok children =>
        obtain ⟨after, built, object, done, found, resolves⟩ :=
          resolves_of_tree present made searches
        refine ⟨after, .resolved object built, ⟨enough, ?_⟩, fun _ => resolves⟩
        intro fuel more
        simp only [gzochidResolverRequireFull, if_neg present, builds fuel more, done, found]
      | error failure =>
        refine ⟨context, .failed (errorOf failure), ⟨enough, ?_⟩, ?_⟩
        · intro fuel more
          simp only [gzochidResolverRequireFull, if_neg present, builds fuel more]
        · intro injectable
          cases failure with
          | circular type =>
            apply resolves_of_circular present
            refine searches.circular_cyclic ?_ ?_
            · intro above member
              exact mem_singleton.mp member ▸ .refl
            · intro other member uncut
              exact ⟨ctor, made, member, uncut⟩
          | refused err =>
            obtain ⟨type, member, uncut, last, reaches, refuses⟩ := searches.refused_reached
            have edge : Follows (injectableConstructorForType classes) extractDependencies
                (fun type => context.contains type = true) root type :=
              ⟨ctor, made, member, uncut⟩
            have whole : Reaches (injectableConstructorForType classes) extractDependencies
                (fun type => context.contains type = true) root last := .head edge reaches
            obtain ⟨other, isCtor⟩ := injectable last
              ⟨uncached, whole.mono fun _ => contains_of_cached⟩
            rw [refuses] at isCtor
            cases isCtor

theorem constructInstance_instances {context : Context} {ctor : Constructor}
    {built : List Construction} (done : constructInstance context ctor = some (after, built)) :
    after.instances = context.instances ++ entriesOf built := by
  unfold constructInstance at done
  split at done
  next =>
    cases done
    exact (append_nil _).symm
  next absent =>
    split at done
    next => cases done
    next =>
      cases done
      exact insert_instances absent

theorem constructInstances_instances {context : Context} {ctors : List Constructor}
    {built : List Construction} (done : constructInstances context ctors = some (after, built)) :
    after.instances = context.instances ++ entriesOf built := by
  induction ctors generalizing context built with
  | nil =>
    cases done
    exact (append_nil _).symm
  | cons ctor rest ih =>
    simp only [constructInstances] at done
    split at done
    next => cases done
    next middle first doneFirst =>
      split at done
      next => cases done
      next last later doneLater =>
        cases done
        rw [ih doneLater, constructInstance_instances doneFirst, append_assoc, entriesOf,
          entriesOf, entriesOf, map_append]

/-- What has been constructed for a request. -/
def Required.built : Required → List Construction
  | .resolved _ built => built
  | _ => []

/-- What is returned has been constructed, or nothing has. -/
theorem lookupRequired_built {context : Context} {root : GType} {built : List Construction}
    {required : Required} (done : lookupRequired context root built = (after, required)) :
    after = context ∧ (required.built = [] ∨ required.built = built) := by
  unfold lookupRequired at done
  split at done
  next =>
    cases done
    exact ⟨rfl, .inr rfl⟩
  next =>
    cases done
    exact ⟨rfl, .inl rfl⟩

/-- A request adds entries to the table, those of what is constructed among them. -/
theorem requireFull_instances {context : Context} {root : GType} {fuel : Nat} {required : Required}
    (done : gzochidResolverRequireFull classes context root fuel = some (after, required)) :
    ∃ more, after.instances = context.instances ++ more ∧
      (required.built = [] ∨ more = entriesOf required.built) := by
  unfold gzochidResolverRequireFull at done
  split at done
  next =>
    injection done with isResult
    obtain ⟨same, either⟩ := lookupRequired_built isResult
    rw [or_self] at either
    exact ⟨[], by rw [same, append_nil], .inl either⟩
  next =>
    split at done
    next => cases done
    next =>
      cases done
      exact ⟨[], by rw [append_nil], .inl rfl⟩
    next =>
      split at done
      next =>
        cases done
        exact ⟨[], by rw [append_nil], .inl rfl⟩
      next last built constructed =>
        injection done with isResult
        obtain ⟨same, either⟩ := lookupRequired_built isResult
        refine ⟨entriesOf built, by rw [same, constructInstances_instances constructed], ?_⟩
        exact either.imp_right fun isBuilt => by rw [isBuilt]

/-- Requests and provisions of instances in one context. -/
inductive Action where
  | require (type : GType) (fuel : Nat)
  | provide (object : Object)

/-- One of them, and what has been constructed. -/
def step (classes : Classes) (context : Context) : Action → Option (Context × List Construction)
  | .require type fuel =>
      (gzochidResolverRequireFull classes context type fuel).map fun done =>
        (done.1, done.2.built)
  | .provide object => some ((gzochidResolverProvide context object).1, [])

/-- What has been constructed in a run. -/
def constructedIn (trace : List (Action × List Construction)) : List Construction :=
  trace.flatMap Prod.snd

/-- One step adds entries to the table, those of what is constructed among them. -/
theorem step_instances {context : Context} {action : Action} {built : List Construction}
    (taken : step classes context action = some (after, built)) :
    ∃ more, after.instances = context.instances ++ more ∧
      (built = [] ∨ more = entriesOf built) := by
  cases action with
  | provide object =>
    cases taken
    unfold gzochidResolverProvide
    split
    next => exact ⟨[], (append_nil _).symm, .inl rfl⟩
    next absent => exact ⟨_, insert_instances absent, .inl rfl⟩
  | require type fuel =>
    obtain ⟨⟨last, required⟩, done, same⟩ := Option.map_eq_some_iff.mp taken
    cases same
    exact requireFull_instances done

/-- In one context no two objects of one type are ever constructed, nor one of a type that
has an instance from the beginning. -/
theorem constructed_once {trace : List (Action × List Construction)}
    (run : Run (step classes) anyAction context trace after) :
    ((constructedIn trace).map fun construction => construction.object.type).Nodup ∧
      ∀ construction ∈ constructedIn trace, ¬Cached context construction.object.type := by
  have kept : ∃ more, after.instances = context.instances ++ more ∧
      List.Sublist ((constructedIn trace).map fun construction => construction.object.type)
        (more.map Prod.fst) := by
    refine run.invariant (fun trace after => ∃ more, after.instances = context.instances ++ more ∧
      List.Sublist ((constructedIn trace).map fun construction => construction.object.type)
        (more.map Prod.fst)) ⟨[], (append_nil _).symm, .slnil⟩ ?_
    intro trace middle action last built _ holds _ taken
    obtain ⟨more, grown, sublist⟩ := holds
    obtain ⟨new, grownAgain, either⟩ := step_instances taken
    refine ⟨more ++ new, by rw [grownAgain, grown, append_assoc], ?_⟩
    have constructed : constructedIn (trace ++ [(action, built)]) =
        constructedIn trace ++ built := by
      rw [constructedIn, flatMap_append, flatMap_singleton]
      rfl
    rw [constructed, map_append, map_append]
    refine sublist.append ?_
    cases either with
    | inl nothing =>
      rw [nothing]
      exact nil_sublist _
    | inr all =>
      rw [all, entriesOf, map_map]
      exact List.Sublist.refl _
  obtain ⟨more, grown, sublist⟩ := kept
  have distinct : (after.instances.map Prod.fst).Nodup := by
    refine List.Nodup.of_map gInt ?_
    rw [map_map]
    exact after.distinct
  rw [grown, map_append, nodup_append] at distinct
  refine ⟨distinct.2.1.sublist sublist, ?_⟩
  intro construction member cached
  exact distinct.2.2 _ cached _ (sublist.subset (mem_map_of_mem member)) rfl

/-- In one context no object is ever constructed of a type that another one has been
constructed of.  A request comes to an end, after so many steps of building the tree; where
all needed types have constructors whose arguments can be injected, its result is what it is
to be exactly when no two of the types that are met are taken for each other. -/
theorem require_resolves (classes : Classes) :
    (∀ {context : Context} {trace : List (Action × List Construction)} {after : Context},
      Run (step classes) anyAction context trace after →
        ((constructedIn trace).map fun construction => construction.object.type).Nodup ∧
        ∀ construction ∈ constructedIn trace, ¬Cached context construction.object.type) ∧
    ∀ (context : Context) (root : GType), ∃ after required, (∃ enough, ∀ fuel ≥ enough,
          gzochidResolverRequireFull classes context root fuel = some (after, required)) ∧
        ((∀ type, Needed classes context root type →
            ∃ ctor, injectableConstructorForType classes type = .ok ctor) →
          (Resolves classes context root after required ↔ Apart classes context root)) :=
  ⟨constructed_once, requireFull_resolves classes⟩

/-- A type that has a dependency. -/
def oneDependency : Classes := fun type =>
  if type = 16 then [⟨"dependency", 24, true, true, true, false⟩] else []

theorem follows_oneDependency {cut : GType → Prop} {first second : GType}
    (follows : Follows (injectableConstructorForType oneDependency) extractDependencies cut first
      second) : first = 16 ∧ second = 24 := by
  obtain ⟨made, expands, needed, _⟩ := follows
  unfold injectableConstructorForType oneDependency at expands
  by_cases isFirst : first = 16
  · subst isFirst
    simp only [if_true] at expands
    cases expands
    exact ⟨rfl, mem_singleton.mp needed⟩
  · rw [if_neg isFirst] at expands
    cases expands
    cases needed

/-- Both types are instantiated, and the object is of the type required. -/
theorem require_resolves_oneDependency : ∃ after required, (∃ enough, ∀ fuel ≥ enough,
        gzochidResolverRequireFull oneDependency (gzochidResolutionContextInit 8) 16 fuel =
          some (after, required)) ∧
      Resolves oneDependency (gzochidResolutionContextInit 8) 16 after required := by
  obtain ⟨after, required, ends, resolves⟩ :=
    (require_resolves oneDependency).2 (gzochidResolutionContextInit 8) 16
  refine ⟨after, required, ends, (resolves ?_).mpr ⟨?_, ?_⟩⟩
  · intro type _
    unfold injectableConstructorForType oneDependency
    by_cases isFirst : type = 16
    · rw [if_pos isFirst]
      exact ⟨_, rfl⟩
    · rw [if_neg isFirst]
      exact ⟨_, rfl⟩
  · intro leads
    obtain ⟨lower, edge, again⟩ := leads.2.lower
    obtain ⟨_, further, _⟩ := again.lower
    have first := (follows_oneDependency edge).2
    have second := (follows_oneDependency further).1
    rw [first] at second
    cases second
  · have types : ∀ {type}, Needed oneDependency (gzochidResolutionContextInit 8) 16 type →
        type = 16 ∨ type = 24 := by
      intro type needed
      cases needed.2.cases_tail with
      | inl here => exact .inl here
      | inr further =>
          obtain ⟨_, _, edge⟩ := further
          exact .inr (follows_oneDependency edge).2
    intro _ type needed
    constructor
    · intro key cached
      rw [mem_singleton.mp cached]
      cases types needed with
      | inl isType => subst isType; decide
      | inr isType => subst isType; decide
    · intro other otherNeeded
      cases types needed with
      | inl isType | inr isType =>
          cases types otherNeeded with
          | inl isOther | inr isOther => subst isType isOther; decide

/-- A context with an instance of one type.  Types are the addresses of their nodes. -/
def provided : Context :=
  (gzochidResolverProvide (gzochidResolutionContextInit 0x555500001000) ⟨0x555500002340, 1⟩).1

/-- A type that agrees with it in 32 bits is required, and the instance is returned. -/
theorem other_type_returned :
    (∀ fuel, gzochidResolverRequireFull (fun _ => []) provided 0x555600002340 fuel =
      some (provided, .resolved ⟨0x555500002340, 1⟩ [])) ∧
    ¬Resolves (fun _ => []) provided 0x555600002340 provided
      (.resolved ⟨0x555500002340, 1⟩ []) := by
  constructor
  · intro fuel
    rfl
  · intro resolves
    have straight : ¬LeadsIntoCycle (fun _ => []) provided 0x555600002340 := by
      intro leads
      obtain ⟨_, ⟨_, expands, needed, _⟩, _⟩ := leads.2.lower
      cases expands
      cases needed
    obtain ⟨_, _, same, isRoot, _⟩ := resolves.2 straight
    cases same
    cases isRoot

end Gzochi.Resolver
