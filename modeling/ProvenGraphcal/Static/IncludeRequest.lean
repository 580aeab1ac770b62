import ProvenGraphcal.Resolve.Projection

/-!
# Requests for the instances of includes

An include's bindings are classified by their markers, checked against the interfaces of its
template and of the including module, and resolved to canonical names. Values that bindings give
to parameters, attributes of items and source spans are left out.
-/

namespace ProvenGraphcal.Static

open Resolve

variable {N : Type}

inductive StaticInputKind
  | type
  | dimension
  | index
  deriving DecidableEq

/-- The order of the markers `dim`, `index` and `type`. -/
def StaticInputKind.markerRank : StaticInputKind → ℕ
  | .dimension => 0
  | .index => 1
  | .type => 2

inductive StaticRole
  | fixed
  | optionalInput
  | requiredInput
  deriving DecidableEq

namespace StaticRole

def isBindable : StaticRole → Bool
  | .optionalInput | .requiredInput => true
  | .fixed => false

def isRequired : StaticRole → Bool
  | .requiredInput => true
  | .fixed | .optionalInput => false

def isConcrete : StaticRole → Bool
  | .fixed | .optionalInput => true
  | .requiredInput => false

end StaticRole

inductive DeclExposure
  | priv
  | inputPort
  | explicitExport

/-- The kinds of terms that a binding names in place of a parameter. -/
inductive NonParamKind
  | constNode
  | node
  | assert

/-- What include processing reads of a module's interface. -/
structure ModuleInterface (N : Type) where
  declaresParam : N → Bool
  nonParamKind : N → Option NonParamKind
  staticRole : StaticInputKind → N → Option StaticRole
  staticOrder : List (StaticInputKind × N)
  exposure : N → ImportItemNamespace → Option DeclExposure
  requiredParams : List N

inductive IncludeError (N : Type)
  | bindingNotAParam (name : N) (actual : NonParamKind)
  | unknownParamBinding (name : N)
  | dagInputCategoryMismatch (name : N) (expected : InputBindingCategory)
  | invalidTypeLevelBindingValue (name : N)
  | invalidStaticBindingTarget (kind : StaticInputKind) (name target : N)
  | duplicateIncludeSelection (category : ImportItemNamespace) (name : N)
  | importPrivateItem (name : N)
  | importNameNotFound (name : N)
  | requiredStaticInputNotBound (kind : StaticInputKind) (name : N)
  | missingDagBindings (missing : List N)
  | portWithoutIdentity (error : Resolve.ModuleResolveError N)
  | indexBindingNotAnIndex (port target : N)
  | unresolvedTarget (error : Resolve.ModuleResolveError N)

/-! ## Authored bindings -/

inductive IndexBindingTarget (N : Type)
  | declared (name : N)
  | finite (size : ℕ)

/-- The name that a binding gives to a type or a dimension. -/
def extractTypeName (name : N) : BindingValue N → Except (IncludeError N) N
  | .path ⟨[], target⟩ => .ok target
  | .path _ | .finite _ | .other => .error (.invalidTypeLevelBindingValue name)

def extractIndexBindingTarget (name : N) :
    BindingValue N → Except (IncludeError N) (IndexBindingTarget N)
  | .path ⟨[], target⟩ => .ok (.declared target)
  | .finite (some size) => .ok (.finite size)
  | .path _ | .finite none | .other => .error (.invalidTypeLevelBindingValue name)

section Processing

variable [LinearOrder N]

/-- The bindings of an include by category, keyed by the template's names. -/
structure ClassifiedBindings (N : Type) [LinearOrder N] where
  params : List N
  indexes : SortedMap N (IndexBindingTarget N)
  types : SortedMap N N
  dims : SortedMap N N

namespace ModuleInterface

variable (dep : ModuleInterface N)

def staticInputIsBindable (kind : StaticInputKind) (name : N) : Bool :=
  (dep.staticRole kind name).any StaticRole.isBindable

def classifyParamBinding (out : ClassifiedBindings N) (binding : ParamBinding N) :
    Except (IncludeError N) (ClassifiedBindings N) :=
  match binding.category with
  | .unmarked =>
    if dep.declaresParam binding.name then
      .ok { out with params := out.params ++ [binding.name] }
    else
      match dep.nonParamKind binding.name with
      | some kind => .error (.bindingNotAParam binding.name kind)
      | none => .error (.unknownParamBinding binding.name)
  | .type =>
    if dep.staticInputIsBindable .type binding.name then do
      let target ← extractTypeName binding.name binding.value
      return { out with types := out.types.insert binding.name target }
    else .error (.dagInputCategoryMismatch binding.name .type)
  | .dimension =>
    if dep.staticInputIsBindable .dimension binding.name then do
      let target ← extractTypeName binding.name binding.value
      return { out with dims := out.dims.insert binding.name target }
    else .error (.dagInputCategoryMismatch binding.name .dimension)
  | .index =>
    if dep.staticInputIsBindable .index binding.name then do
      let target ← extractIndexBindingTarget binding.name binding.value
      return { out with indexes := out.indexes.insert binding.name target }
    else .error (.dagInputCategoryMismatch binding.name .index)

def classifyParamBindings (bindings : List (ParamBinding N)) :
    Except (IncludeError N) (ClassifiedBindings N) :=
  bindings.foldlM dep.classifyParamBinding ⟨[], .empty, .empty, .empty⟩

/-- An index may also be bound to a required index of the including module. -/
def staticBindingCompositionValid (kind : StaticInputKind) (input target : StaticRole) : Bool :=
  input.isBindable && (target.isConcrete || (kind = .index && target = .requiredInput))

def invalidTarget (importer : ModuleInterface N) (kind : StaticInputKind)
    (bindings : List (N × N)) : Option (StaticInputKind × N × N) :=
  (bindings.find? fun (input, target) =>
    match dep.staticRole kind input, importer.staticRole kind target with
    | some role, some targetRole => !staticBindingCompositionValid kind role targetRole
    | _, _ => false).map fun (input, target) => (kind, input, target)

def IndexBindingTarget.declared? : IndexBindingTarget N → Option N
  | .declared target => some target
  | .finite _ => none

def validateConcreteStaticBindingTargets (importer : ModuleInterface N)
    (bindings : ClassifiedBindings N) : Except (IncludeError N) Unit :=
  let declaredIndexes := bindings.indexes.entries.filterMap fun (input, target) =>
    (IndexBindingTarget.declared? target).map (input, ·)
  match dep.invalidTarget importer .type bindings.types.entries <|>
    dep.invalidTarget importer .dimension bindings.dims.entries <|>
      dep.invalidTarget importer .index declaredIndexes with
  | none => .ok ()
  | some (kind, name, target) => .error (.invalidStaticBindingTarget kind name target)

def ensureIncludeItemSelectable (name : N) (category : ImportItemNamespace) :
    Except (IncludeError N) Unit :=
  match dep.exposure name category with
  | some .explicitExport | some .inputPort => .ok ()
  | some .priv => .error (.importPrivateItem name)
  | none => .error (.importNameNotFound name)

def isBound (bindings : ClassifiedBindings N) (kind : StaticInputKind) (name : N) : Bool :=
  match kind with
  | .type => (bindings.types.get? name).isSome
  | .dimension => (bindings.dims.get? name).isSome
  | .index => (bindings.indexes.get? name).isSome

def markerLe (a b : StaticInputKind × N) : Bool :=
  a.1.markerRank < b.1.markerRank || (a.1.markerRank = b.1.markerRank && a.2 ≤ b.2)

def validateRequiredStaticBindings (bindings : ClassifiedBindings N) :
    Except (IncludeError N) Unit :=
  let missing := dep.staticOrder.filter fun (kind, name) =>
    (dep.staticRole kind name).any StaticRole.isRequired && !isBound bindings kind name
  match missing.mergeSort markerLe with
  | [] => .ok ()
  | (kind, name) :: _ => .error (.requiredStaticInputNotBound kind name)

local instance lawfulParam : LawfulBEq N := inferInstance

def validateRequiredParamBindings (bindings : ClassifiedBindings N) :
    Except (IncludeError N) Unit :=
  match dep.requiredParams.filter fun name => name ∉ bindings.params with
  | [] => .ok ()
  | missing => .error (.missingDagBindings (missing.mergeSort fun a b => a ≤ b))

end ModuleInterface

/-- A selected item by name; its category is not recorded. -/
structure ImportAlias (N : Type) where
  original : N
  localName : N

/-- No producer is selected twice in one category. -/
def validateUniqueIncludeProducers (items : List (Item N)) :
    Except (IncludeError N) (List (Item N)) :=
  items.foldlM (Checked.insertDistinct (fun item => (item.selection.category, item.name.name))
    (fun _ item => .duplicateIncludeSelection item.selection.category item.name.name)
      fun _ => .ok ()) []

/-- A plot is requested from the instance, and has no alias. -/
def isPlot (exportsPlot : N → Bool) (item : Item N) : Bool :=
  item.selection.category = .term && exportsPlot item.name.name

def selectiveNames (dep : ModuleInterface N) (exportsPlot : N → Bool) (items : List (Item N)) :
    Except (IncludeError N) (List (ImportAlias N)) := do
  let _ ← validateUniqueIncludeProducers items
  items.forM fun item => dep.ensureIncludeItemSelectable item.name.name item.selection.category
  return (items.filter fun item => !isPlot exportsPlot item).map fun item =>
    ⟨item.name.name, localNameAtom item⟩

end Processing

section Canonical

variable [LinearOrder N] [LinearOrder (ResolvedName N (ScopeSegment N))]

abbrev CanonicalName (N : Type) := ResolvedName N (ScopeSegment N)

abbrev IndexTarget (N : Type) := InstanceIndexBindingTarget N (ScopeSegment N)

/-- The bindings of an include, resolved at its site. -/
structure IncludeStaticBindings (N : Type) [LinearOrder N] [LinearOrder (CanonicalName N)] where
  indexes : SortedMap (CanonicalName N) (IndexTarget N)
  types : SortedMap (CanonicalName N) (CanonicalName N)
  dimensions : SortedMap (CanonicalName N) (CanonicalName N)

/-- Where an include's bindings are resolved: ports in the template, targets in the importer. -/
structure IncludeSite (N : Type) [LinearOrder N] where
  resolver : ModuleResolver N
  preludeDimension : NamePath N → Option (CanonicalName N)
  template : SourceDagId N
  importer : SourceDagId N

namespace IncludeSite

variable (site : IncludeSite N)

/-- The declaration of a name in a module's own table. -/
def declaration (t : SymbolTable) (owner : SourceDagId N) (name : N) :
    Except (Resolve.ModuleResolveError N) (CanonicalName N) := do
  let symbols ← site.resolver.moduleSymbols owner
  match (symbols.tables t).get? name with
  | some symbol => return symbol.resolved
  | none => throw (.unknownName owner (.table t) name)

def port (t : SymbolTable) (name : N) : Except (IncludeError N) (CanonicalName N) :=
  (site.declaration t site.template name).mapError .portWithoutIdentity

def localTarget (t : SymbolTable) (name : N) :
    Except (Resolve.ModuleResolveError N) (CanonicalName N) := do
  return (← site.resolver.resolveSymbolPath t site.importer ⟨[], name⟩).resolved

def index (port : N) (authored : IndexBindingTarget N) :
    Except (IncludeError N) (CanonicalName N × IndexTarget N) := do
  let identity ← site.port .index port
  match authored with
  | .declared target =>
    let declared ← (site.localTarget .index target).mapError fun _ =>
      .indexBindingNotAnIndex port target
    return (identity, .declared declared)
  | .finite size => return (identity, .finite size)

def structType (port target : N) :
    Except (IncludeError N) (CanonicalName N × CanonicalName N) := do
  let identity ← site.port .structType port
  return (identity, ← (site.localTarget .structType target).mapError .unresolvedTarget)

/-- A dimension target may also name a prelude dimension. -/
def dimension (port target : N) :
    Except (IncludeError N) (CanonicalName N × CanonicalName N) := do
  let identity ← site.port .dimension port
  match site.localTarget .dimension target with
  | .ok target => return (identity, target)
  | .error e =>
    match site.preludeDimension ⟨[], target⟩ with
    | some target => return (identity, target)
    | none => throw (.unresolvedTarget e)

def resolve (bindings : ClassifiedBindings N) :
    Except (IncludeError N) (IncludeStaticBindings N) := do
  let indexes ← bindings.indexes.entries.mapM fun entry => site.index entry.1 entry.2
  let types ← bindings.types.entries.mapM fun entry => site.structType entry.1 entry.2
  let dimensions ← bindings.dims.entries.mapM fun entry => site.dimension entry.1 entry.2
  return ⟨.ofList indexes, .ofList types, .ofList dimensions⟩

end IncludeSite

/-- What instantiating an include reads of it. -/
structure IncludeInstanceRequest (N : Type) [LinearOrder N] [LinearOrder (CanonicalName N)] where
  template : SourceDagId N
  staticBindings : IncludeStaticBindings N
  selectiveNames : Option (List (ImportAlias N))

def aliasesOf (dep : ModuleInterface N) (exportsPlot : N → Bool) (decl : Include N) :
    Except (IncludeError N) (Option (List (ImportAlias N))) :=
  match decl.kind with
  | .module _ => .ok none
  | .selective items => do return some (← selectiveNames dep exportsPlot items)

/-- Process an include of a file or of an inline DAG. -/
def processInclude (site : IncludeSite N) (dep importer : ModuleInterface N)
    (exportsPlot : N → Bool) (decl : Include N) :
    Except (IncludeError N) (IncludeInstanceRequest N) := do
  let bindings ← dep.classifyParamBindings decl.paramBindings
  dep.validateConcreteStaticBindingTargets importer bindings
  let aliases ← aliasesOf dep exportsPlot decl
  dep.validateRequiredStaticBindings bindings
  dep.validateRequiredParamBindings bindings
  return ⟨site.template, ← site.resolve bindings, aliases⟩

end Canonical

end ProvenGraphcal.Static
