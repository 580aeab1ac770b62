import ProvenGraphcal.Library.NonEmpty
import ProvenGraphcal.Library.SortedMap

/-!
# Identities of DAGs, instances and declarations

A DAG is identified by a file, followed by the inline DAGs and include instances that lead to it.
`N` are the spellings and `A` the scopes of instances; the order of identities is a parameter.
-/

namespace ProvenGraphcal

/-- One step of a DAG's identity, with its relationship to the parent. -/
inductive DagSegment (N A : Type)
  | file (name : N)
  | inlineDag (name : N)
  | instance (scope : A)
  deriving DecidableEq

variable {N A : Type}

def DagSegment.isInstance : DagSegment N A → Bool
  | .instance _ => true
  | _ => false

def DagSegment.isFile : DagSegment N A → Bool
  | .file _ => true
  | _ => false

structure DagId (N A : Type) where
  package : N
  segments : NonEmpty (DagSegment N A)

namespace DagId

def leaf (id : DagId N A) : DagSegment N A := id.segments.items.getLast id.segments.nonempty

/-- The concrete include-instance child allocated in `scope`. -/
def instanceChild (id : DagId N A) (scope : A) : DagId N A :=
  ⟨id.package, ⟨id.segments.items ++ [.instance scope], by simp⟩⟩

/-- The module this one is nested in; a file root has none. -/
def parent (id : DagId N A) : Option (DagId N A) :=
  if id.leaf.isFile then none
  else (NonEmpty.tryFromVec id.segments.items.dropLast).map fun segments => ⟨id.package, segments⟩

/-- A strict descendant: an inline DAG or instance nested at any depth. -/
def isDescendantOf [DecidableEq N] [DecidableEq A] (id ancestor : DagId N A) : Bool :=
  id.package = ancestor.package &&
    ancestor.segments.items <+: id.segments.items &&
      ((id.segments.items.drop ancestor.segments.items.length).head?.any fun child =>
        !child.isFile)

theorem ext_segments {id id' : DagId N A} (hpackage : id.package = id'.package)
    (hsegments : id.segments.items = id'.segments.items) : id = id' := by
  obtain ⟨package, items, h⟩ := id
  obtain ⟨package', items', h'⟩ := id'
  obtain rfl : package = package' := hpackage
  obtain rfl : items = items' := hsegments
  rfl

@[simp] theorem leaf_instanceChild (id : DagId N A) (scope : A) :
    (id.instanceChild scope).leaf = .instance scope := by
  simp [leaf, instanceChild]

@[simp] theorem parent_instanceChild (id : DagId N A) (scope : A) :
    (id.instanceChild scope).parent = some id := by
  have hdrop : NonEmpty.tryFromVec (id.instanceChild scope).segments.items.dropLast =
      some id.segments := by
    rw [NonEmpty.tryFromVec_eq_some]
    simp [instanceChild]
  rw [parent, leaf_instanceChild, hdrop]
  rfl

theorem instanceChild_inj {id id' : DagId N A} {scope scope' : A}
    (h : id.instanceChild scope = id'.instanceChild scope') : id = id' ∧ scope = scope' := by
  have hparent := congrArg parent h
  have hleaf := congrArg leaf h
  rw [parent_instanceChild, parent_instanceChild] at hparent
  rw [leaf_instanceChild, leaf_instanceChild] at hleaf
  exact ⟨Option.some.inj hparent, DagSegment.instance.inj hleaf⟩

end DagId

/-- One include instance: the module that allocated it, the scope it occupies there, and the
canonical definition it instantiates. -/
structure InstanceId (N A : Type) where
  parent : DagId N A
  scope : A
  template : DagId N A
  canonical : template.leaf.isInstance = false

/-- The namespace allocated to the instance. -/
def InstanceId.owner (id : InstanceId N A) : DagId N A := id.parent.instanceChild id.scope

/-- A name with the DAG that owns it. -/
structure ResolvedName (N A : Type) where
  owner : DagId N A
  leaf : N

theorem ResolvedName.ext_parts {name name' : ResolvedName N A} (howner : name.owner = name'.owner)
    (hleaf : name.leaf = name'.leaf) : name = name' := by
  cases name
  cases name'
  congr

instance [DecidableEq (DagId N A)] [DecidableEq N] : DecidableEq (ResolvedName N A) :=
  fun name name' => decidable_of_iff (name.owner = name'.owner ∧ name.leaf = name'.leaf)
    ⟨fun h => ResolvedName.ext_parts h.1 h.2, fun h => h ▸ ⟨rfl, rfl⟩⟩

/-- The declaration `name` of the template that `instanceId` instantiates. -/
def templateDeclaration (instanceId : InstanceId N A) (name : N) : ResolvedName N A :=
  ⟨instanceId.template, name⟩

/-- The importer-side target of one index binding. -/
inductive InstanceIndexBindingTarget (N A : Type)
  | declared (index : ResolvedName N A)
  | finite (size : ℕ)

/-- The substitution of one template: its bound index, type and dimension ports. -/
structure StaticSubstitution (N A : Type) where
  indexes : List (ResolvedName N A × InstanceIndexBindingTarget N A)
  types : List (ResolvedName N A × ResolvedName N A)
  dimensions : List (ResolvedName N A × ResolvedName N A)

structure StaticSpecializationId (N A : Type) where
  template : DagId N A
  substitution : StaticSubstitution N A

/-- One edge of the template and instance graph. -/
structure InstanceRecord (N A : Type) where
  id : InstanceId N A
  specialization : StaticSpecializationId N A
  template_eq : specialization.template = id.template

def InstanceRecord.substitution (record : InstanceRecord N A) : StaticSubstitution N A :=
  record.specialization.substitution

/-- How the bodies a DAG runs name its declarations: as written, or with the owners of the template
side replaced by concrete ones. -/
inductive InstanceFrame (N A : Type) [LinearOrder (DagId N A)]
  | canonical
  | instance (specialization : StaticSpecializationId N A)
    (owners : SortedMap (DagId N A) (DagId N A))

namespace InstanceFrame

variable [LinearOrder (DagId N A)]

def isInstance : InstanceFrame N A → Bool
  | canonical => false
  | .instance _ _ => true

/-- The identity the frame's DAG uses for a template-side identity. -/
def rebase : InstanceFrame N A → ResolvedName N A → ResolvedName N A
  | canonical, definition => definition
  | .instance _ owners, definition =>
    match owners.get? definition.owner with
    | none => definition
    | some owner => ⟨owner, definition.leaf⟩

/-- The frame of the instance that `record` allocates in the DAG that runs in `parent`;
`templateEdges` are the instances the template itself includes. -/
def ofRecord (parent : InstanceFrame N A) (record : InstanceRecord N A)
    (templateEdges : List (InstanceId N A)) : InstanceFrame N A :=
  let owners := match parent with
    | canonical => SortedMap.empty
    | .instance _ owners => owners
  let owners := owners.insert record.id.template record.id.owner
  .instance record.specialization (templateEdges.foldl
    (fun owners edge => owners.insert edge.owner (record.id.owner.instanceChild edge.scope)) owners)

end InstanceFrame

/-!
# Include edges and the substitution they compose

The record of one include: the instance it allocates, its value bindings and what its site exposes.
`K` is what an expression node holds besides its children.
-/

variable {K : Type}

/-- An expression: a `todo<T> { … }` hole over its interface, or any other node. -/
inductive HirExpr (K : Type)
  | todoHole (interface : List (HirExpr K))
  | other (kind : K) (children : List (HirExpr K))

namespace HirExpr

mutual

/-- Every occurrence of a subexpression, in pre-order. -/
def visitExpr : HirExpr K → List (HirExpr K)
  | todoHole interface => todoHole interface :: visitChildren interface
  | other kind children => other kind children :: visitChildren children

def visitChildren : List (HirExpr K) → List (HirExpr K)
  | [] => []
  | child :: rest => visitExpr child ++ visitChildren rest

end

def isTodoHole : HirExpr K → Bool
  | todoHole _ => true
  | other _ _ => false

def containsTodoHole (expr : HirExpr K) : Bool := expr.visitExpr.any isTodoHole

end HirExpr

/-- A reference to a declaration as the template that writes it names it. -/
structure LocalDecl (N A : Type) where
  definition : ResolvedName N A

/-- A declared index with the leaf it is shown under, or a structural finite axis. -/
inductive IndexTypeRef (N A : Type)
  | declared (name : N) (resolved : ResolvedName N A)
  | finite (size : ℕ)

namespace IndexTypeRef

def fromResolved (resolved : ResolvedName N A) : IndexTypeRef N A :=
  declared resolved.leaf resolved

def declaredResolved : IndexTypeRef N A → Option (ResolvedName N A)
  | declared _ resolved => some resolved
  | finite _ => none

end IndexTypeRef

/-- One axis segment in a per-variant assertion expectation. -/
inductive ExpectedFailKeyPart (N A : Type)
  | named (index : IndexTypeRef N A) (variant : N)
  | finitePosition (position : ℕ)

/-- Whether the whole assertion or selected indexed entries should fail. -/
inductive ExpectedFail (N A : Type)
  | all
  | variants (keys : NonEmpty (NonEmpty (ExpectedFailKeyPart N A)))

/-- One instance value exposed through the including DAG. -/
structure InstanceValueProjection (N A : Type) where
  target : LocalDecl N A

/-- One instance assertion exposed through the including DAG, with the site's expectation. -/
structure InstanceAssertionProjection (N A : Type) where
  target : LocalDecl N A
  expectedFail : Option (ExpectedFail N A)

/-- One plot requested from the instance, bound under `alias`. -/
structure InstancePlotProjection (N A : Type) where
  target : LocalDecl N A

/-- One include edge after its value expressions are lowered. -/
structure HirInstanceRecord (N A K : Type) where
  instanceRecord : InstanceRecord N A
  valueBindings : List (ResolvedName N A × HirExpr K)
  runtimeUnitNames : List N
  outputProjections : List (InstanceValueProjection N A)
  assertionProjections : List (InstanceAssertionProjection N A)
  plotProjections : List (InstancePlotProjection N A)

def HirInstanceRecord.id (edge : HirInstanceRecord N A K) : InstanceId N A := edge.instanceRecord.id

/-! ## Composition -/

section Composition

variable [DecidableEq (DagId N A)] [DecidableEq N]

namespace StaticSubstitution

/-- The target that stands for the index `source` under the substitution. -/
def index (substitution : StaticSubstitution N A) (source : ResolvedName N A) :
    InstanceIndexBindingTarget N A :=
  (substitution.indexes.lookup source).getD (.declared source)

/-- The nominal type that stands for `source` under the substitution. -/
def type (substitution : StaticSubstitution N A) (source : ResolvedName N A) : ResolvedName N A :=
  (substitution.types.lookup source).getD source

/-- The dimension that stands for `source` under the substitution. -/
def dimension (substitution : StaticSubstitution N A) (source : ResolvedName N A) :
    ResolvedName N A :=
  (substitution.dimensions.lookup source).getD source

end StaticSubstitution

def composeIndexTarget (substitution : StaticSubstitution N A) :
    InstanceIndexBindingTarget N A → InstanceIndexBindingTarget N A
  | .declared source =>
    match substitution.indexes.lookup source with
    | some replacement => replacement
    | none => .declared source
  | .finite size => .finite size

def composeTypeTarget (substitution : StaticSubstitution N A) (target : ResolvedName N A) :
    ResolvedName N A :=
  match substitution.types.lookup target with
  | some replacement => replacement
  | none => target

def composeDimensionTarget (substitution : StaticSubstitution N A) (target : ResolvedName N A) :
    ResolvedName N A :=
  match substitution.dimensions.lookup target with
  | some replacement => replacement
  | none => target

/-- The substitution of a nested edge under the enclosing one: every target it binds is replaced
as the enclosing substitution replaces it. -/
def composeTargets (substitution nested : StaticSubstitution N A) : StaticSubstitution N A where
  indexes := nested.indexes.map fun e => (e.1, composeIndexTarget substitution e.2)
  types := nested.types.map fun e => (e.1, composeTypeTarget substitution e.2)
  dimensions := nested.dimensions.map fun e => (e.1, composeDimensionTarget substitution e.2)

/-- Re-parent the instance under `parent`, composing its substitution through `compose`. -/
def InstanceRecord.rebase (record : InstanceRecord N A) (parent : DagId N A)
    (compose : StaticSubstitution N A → StaticSubstitution N A) : InstanceRecord N A where
  id := { record.id with parent := parent }
  specialization :=
    { record.specialization with substitution := compose record.specialization.substitution }
  template_eq := record.template_eq

def specializeKeyPart (substitution : StaticSubstitution N A) :
    ExpectedFailKeyPart N A → ExpectedFailKeyPart N A
  | .named index variant =>
    match index.declaredResolved.bind fun source => substitution.indexes.lookup source with
    | some (.declared target) => .named (.fromResolved target) variant
    | some (.finite size) => .named (.finite size) variant
    | none => .named index variant
  | .finitePosition position => .finitePosition position

def specializeExpectedFail (substitution : StaticSubstitution N A) :
    ExpectedFail N A → ExpectedFail N A
  | .all => .all
  | .variants keys => .variants (keys.map fun key => key.map (specializeKeyPart substitution))

/-- Re-parent one instance edge of the template under the concrete `owner`. -/
def rebaseNestedInstance (nested : HirInstanceRecord N A K) (owner : DagId N A)
    (substitution : StaticSubstitution N A) : HirInstanceRecord N A K :=
  { nested with
    instanceRecord := nested.instanceRecord.rebase owner (composeTargets substitution)
    assertionProjections := nested.assertionProjections.map fun projection =>
      { projection with
        expectedFail := projection.expectedFail.map (specializeExpectedFail substitution) } }

theorem lookup_map_snd {V W : Type} (f : V → W) (table : List (ResolvedName N A × V))
    (key : ResolvedName N A) :
    (table.map fun e => (e.1, f e.2)).lookup key = (table.lookup key).map f := by
  induction table with
  | nil => rfl
  | cons e rest ih =>
    rw [List.map_cons, List.lookup_cons, List.lookup_cons]
    cases key == e.1 with
    | true => rfl
    | false => exact ih

theorem composeTypeTarget_eq (substitution : StaticSubstitution N A) (target : ResolvedName N A) :
    composeTypeTarget substitution target = substitution.type target := by
  unfold composeTypeTarget StaticSubstitution.type
  cases substitution.types.lookup target <;> rfl

theorem composeDimensionTarget_eq (substitution : StaticSubstitution N A)
    (target : ResolvedName N A) :
    composeDimensionTarget substitution target = substitution.dimension target := by
  unfold composeDimensionTarget StaticSubstitution.dimension
  cases substitution.dimensions.lookup target <;> rfl

theorem composeIndexTarget_declared (substitution : StaticSubstitution N A)
    (source : ResolvedName N A) :
    composeIndexTarget substitution (.declared source) = substitution.index source := by
  simp only [composeIndexTarget, StaticSubstitution.index]
  cases substitution.indexes.lookup source <;> rfl

/-- `composed` is `outer` after `inner` on the ports that `inner` binds, and binds no others. -/
structure Composes (outer inner composed : StaticSubstitution N A) : Prop where
  index_bound : ∀ port source, inner.indexes.lookup port = some (.declared source) →
    composed.indexes.lookup port = some (outer.index source)
  index_finite : ∀ port size, inner.indexes.lookup port = some (.finite size) →
    composed.indexes.lookup port = some (.finite size)
  index_free : ∀ port, inner.indexes.lookup port = none → composed.indexes.lookup port = none
  type_bound : ∀ port source, inner.types.lookup port = some source →
    composed.types.lookup port = some (outer.type source)
  type_free : ∀ port, inner.types.lookup port = none → composed.types.lookup port = none
  dimension_bound : ∀ port source, inner.dimensions.lookup port = some source →
    composed.dimensions.lookup port = some (outer.dimension source)
  dimension_free : ∀ port, inner.dimensions.lookup port = none →
    composed.dimensions.lookup port = none

theorem composes_composeTargets (outer inner : StaticSubstitution N A) :
    Composes outer inner (composeTargets outer inner) where
  index_bound port source h := by
    rw [composeTargets, lookup_map_snd, h, Option.map_some, composeIndexTarget_declared]
  index_finite port size h := by
    rw [composeTargets, lookup_map_snd, h]
    rfl
  index_free port h := by
    rw [composeTargets, lookup_map_snd, h]
    rfl
  type_bound port source h := by
    rw [composeTargets, lookup_map_snd, h, Option.map_some, composeTypeTarget_eq]
  type_free port h := by
    rw [composeTargets, lookup_map_snd, h]
    rfl
  dimension_bound port source h := by
    rw [composeTargets, lookup_map_snd, h, Option.map_some, composeDimensionTarget_eq]
  dimension_free port h := by
    rw [composeTargets, lookup_map_snd, h]
    rfl

end Composition

end ProvenGraphcal
