import Gzochi.Lib.DepthFirst
import Gzochi.Lib.Runs

/-!
# The component resolver

`resolver.c`.  An instance of a type is made by a constructor whose object parameters are
instances of further types.  A resolution context keeps an instance of each type it has met,
and what is required is found there or constructed after a tree of dependencies has been
built.

Constructors of objects do nothing to a resolution context but take their arguments.  The
references and floating references to objects play no part.  The tables are those of
GLib, hashed and compared as numbers of 32 bits.
-/

namespace Gzochi.Resolver

open Lib

abbrev GType := UInt64

/-- A property of a class, a `GParamSpec`: its name, the type of its values, whether that is
an object type, and its flags. -/
structure ParamSpec where
  name : String
  valueType : GType
  isObject : Bool
  writable : Bool
  construct : Bool
  constructOnly : Bool
  deriving DecidableEq

/-- The properties that `g_object_class_list_properties` lists of each type. -/
abbrev Classes := GType → List ParamSpec

inductive ResolutionError where
  | circularDependency (type : GType)
  | incompatibleConstructor (type : GType) (property : String)
  | duplicateType (type : GType)
  deriving DecidableEq

/-- An object has a type, and a number to tell it from others. -/
structure Object where
  type : GType
  serial : Nat
  deriving DecidableEq

/-- `constructor`. -/
structure Constructor where
  type : GType
  parameters : List ParamSpec
  deriving DecidableEq

/-- `is_injectable`. -/
def isInjectable (pspec : ParamSpec) : Bool :=
  pspec.isObject && pspec.writable && (pspec.construct || pspec.constructOnly)

/-- `injectable_constructor_for_type`. -/
def injectableConstructorForType (classes : Classes) (type : GType) :
    Except ResolutionError Constructor :=
  match (classes type).find? fun pspec => !isInjectable pspec && pspec.constructOnly with
  | some pspec => .error (.incompatibleConstructor type pspec.name)
  | none => .ok ⟨type, (classes type).filter isInjectable⟩

/-- `extract_dependencies`. -/
def extractDependencies (ctor : Constructor) : List GType :=
  ctor.parameters.map ParamSpec.valueType

/-- The part of a type that `g_int_hash` and `g_int_equal` look at, on a machine that has the
low bytes first. -/
def gInt (type : GType) : UInt32 := type.toUInt32

/-- `GzochidResolutionContext`: the table of instances, each under its type, with no two keys
that compare equal. -/
structure Context where
  instances : List (GType × Object)
  typed : ∀ entry ∈ instances, entry.2.type = entry.1
  distinct : (instances.map fun entry => gInt entry.1).Nodup

namespace Context

/-- `g_hash_table_contains`. -/
def contains (context : Context) (type : GType) : Bool :=
  context.instances.any fun entry => gInt entry.1 = gInt type

/-- `g_hash_table_lookup`. -/
def lookup (context : Context) (type : GType) : Option Object :=
  (context.instances.find? fun entry => gInt entry.1 = gInt type).map Prod.snd

theorem contains_iff (context : Context) (type : GType) : context.contains type = true ↔
      gInt type ∈ context.instances.map fun entry => gInt entry.1 := by
  unfold contains
  rw [List.any_eq_true, List.mem_map]
  simp only [decide_eq_true_eq]

/-- `g_hash_table_insert` of an object under its type, which the table does not contain. -/
def insert (context : Context) (object : Object) : Context :=
  if present : context.contains object.type = true then context
  else
    { instances := context.instances ++ [(object.type, object)]
      typed := by
        intro entry member
        cases List.mem_append.mp member with
        | inl member => exact context.typed entry member
        | inr member => exact List.mem_singleton.mp member ▸ rfl
      distinct := by
        rw [contains_iff] at present
        rw [List.map_append, List.nodup_append]
        refine ⟨context.distinct, List.nodup_singleton _, ?_⟩
        intro first member second last same
        rw [List.mem_singleton.mp last] at same
        subst same
        exact present member }

end Context

/-- `gzochid_resolution_context_init`. -/
def gzochidResolutionContextInit (resolutionContextType : GType) : Context where
  instances := [(resolutionContextType, ⟨resolutionContextType, 0⟩)]
  typed := fun _ member => List.mem_singleton.mp member ▸ rfl
  distinct := List.nodup_singleton _

/-! ## The dependency tree -/

/-- `tree_state`, with the constructor of its node.  The nodes above are those of the states
below in the stack.  The children of a node are added to it here when their state is popped,
and not when it is pushed. -/
structure TreeState where
  ctor : Constructor
  types : List GType
  children : List (RoseTree Constructor)

/-- `has_ancestor_with_type`, from the node of the first state. -/
def hasAncestorWithType (stack : List TreeState) (type : GType) : Bool :=
  stack.any fun state => state.ctor.type = type

/-- `build_dependency_tree_inner`: the stack with the state that is to be pushed on it, if
any. -/
def buildDependencyTreeInner (classes : Classes) (context : Context) (state : TreeState)
    (type : GType) (types : List GType) (below : List TreeState) :
    Except ResolutionError (List TreeState) :=
  let state := { state with types := types }
  if context.contains type then
    .ok (state :: below)
  else if hasAncestorWithType (state :: below) type then
    .error (.circularDependency type)
  else
    match injectableConstructorForType classes type with
    | .error err => .error err
    | .ok ctor => .ok (⟨ctor, extractDependencies ctor, []⟩ :: state :: below)

/-- The loop of `build_dependency_tree`, as long as there is fuel. -/
def buildLoop (classes : Classes) (context : Context) :
    Nat → TreeState → List TreeState → Option (Except ResolutionError (RoseTree Constructor))
  | 0, _, _ => none
  | fuel + 1, state, below =>
      match state.types with
      | [] =>
          let node := RoseTree.node state.ctor state.children
          match below with
          | [] => some (.ok node)
          | parent :: below =>
              buildLoop classes context fuel
                { parent with children := parent.children ++ [node] } below
      | type :: types =>
          match buildDependencyTreeInner classes context state type types below with
          | .error err => some (.error err)
          | .ok (state :: below) => buildLoop classes context fuel state below
          | .ok [] => none

/-- `build_dependency_tree`. -/
def buildDependencyTree (classes : Classes) (context : Context) (rootType : GType)
    (fuel : Nat) : Option (Except ResolutionError (RoseTree Constructor)) :=
  match injectableConstructorForType classes rootType with
  | .error err => some (.error err)
  | .ok ctor => buildLoop classes context fuel ⟨ctor, extractDependencies ctor, []⟩ []

/-! ## Construction -/

/-- An object that was constructed, with the objects that were injected into it. -/
structure Construction where
  object : Object
  injected : List Object
  deriving DecidableEq

/-- `construct_instance`; no result where the assertion fails that there are instances for
all parameters. -/
def constructInstance (context : Context) (ctor : Constructor) :
    Option (Context × List Construction) :=
  if context.contains ctor.type then
    some (context, [])
  else
    match ctor.parameters.mapM fun pspec => context.lookup pspec.valueType with
    | none => none
    | some injected =>
        let inst : Object := ⟨ctor.type, context.instances.length⟩
        some (context.insert inst, [⟨inst, injected⟩])

/-- `g_node_traverse` over the nodes in post-order. -/
def constructInstances (context : Context) : List Constructor →
    Option (Context × List Construction)
  | [] => some (context, [])
  | ctor :: rest =>
      match constructInstance context ctor with
      | none => none
      | some (context, built) =>
          match constructInstances context rest with
          | none => none
          | some (context, later) => some (context, built ++ later)

/-- What requiring a type comes to: an object, with what was constructed on the way, an
error, or a failed assertion. -/
inductive Required where
  | resolved (object : Object) (built : List Construction)
  | failed (err : ResolutionError)
  | aborted
  deriving DecidableEq

/-- The end of `gzochid_resolver_require_full`; a null pointer is no object to take a
reference to. -/
def lookupRequired (context : Context) (type : GType) (built : List Construction) :
    Context × Required :=
  match context.lookup type with
  | some object => (context, .resolved object built)
  | none => (context, .aborted)

/-- `gzochid_resolver_require_full`. -/
def gzochidResolverRequireFull (classes : Classes) (context : Context) (type : GType)
    (fuel : Nat) : Option (Context × Required) :=
  if context.contains type then
    some (lookupRequired context type [])
  else
    match buildDependencyTree classes context type fuel with
    | none => none
    | some (.error err) => some (context, .failed err)
    | some (.ok dependencyTree) =>
        match constructInstances context dependencyTree.postOrder with
        | none => some (context, .aborted)
        | some (context, built) => some (lookupRequired context type built)

/-- `gzochid_resolver_provide`. -/
def gzochidResolverProvide (context : Context) (object : Object) :
    Context × Option ResolutionError :=
  if context.contains object.type then (context, some (.duplicateType object.type))
  else (context.insert object, none)

end Gzochi.Resolver
