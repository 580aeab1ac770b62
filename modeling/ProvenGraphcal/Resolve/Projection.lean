import ProvenGraphcal.Resolve.Resolver

/-!
# Path resolution
-/

namespace ProvenGraphcal

deriving instance DecidableEq for Access

/-- The child module of the inline `dag` declaration `name`. -/
def DagId.inlineDagChild {N A : Type} (id : DagId N A) (name : N) : DagId N A :=
  ⟨id.package, ⟨id.segments.items ++ [.inlineDag name], by simp⟩⟩

namespace Resolve

variable {N : Type} [LinearOrder N]

namespace ModuleResolver

variable (resolver : ModuleResolver N)

/-- The category of what occupies a slot, private occupants skipped if it must be public. -/
def visibleSurfaceKind (owner : SourceDagId N) (ns : Namespace) (atom : N)
    (requiresPublic : Bool) : Except (ModuleResolveError N) (Option SurfaceNameKind) := do
  let entry ← resolver.entry owner
  let visible (occupant : Occupant) : Bool := !requiresPublic || occupant.visibility.isPublic
  let occupant := match (entry.symbols.occupant ns atom).filter visible with
    | some occupant => some occupant
    | none => (entry.scope.occupant ns atom).filter visible
  return occupant.bind (·.surface?)

/-- The module one segment below `target`: a nested alias, or else an inline DAG. -/
def nestedModule (target : SourceDagId N) (segment : N) (access : Access) :
    Except (ModuleResolveError N) (SourceDagId N) := do
  let scope ← resolver.moduleScope target
  match scope.moduleAliases.get? segment with
  | some nested =>
    if access.requiresPublic ∧ ¬ nested.visibility.isPublic then
      throw (.privateName target .dagAlias segment)
    else return nested.target
  | none =>
    let child := target.inlineDagChild segment
    if resolver.modules.contains child then return child else throw (.unknownModule child)

def descend (access : Access) :
    SourceDagId N → List N → Except (ModuleResolveError N) (SourceDagId N)
  | target, [] => .ok target
  | target, segment :: rest => do
    let next ← resolver.nestedModule target segment access
    resolver.ensureModulePathVisible next access
    descend access next rest

/-- The module that a qualifier reaches from `owner`, with the access of its first alias. -/
def resolveModuleQualifier (owner : SourceDagId N) (head : N) (rest : List N) :
    Except (ModuleResolveError N) (SourceDagId N × Access) := do
  let scope ← resolver.moduleScope owner
  match scope.moduleAliases.get? head with
  | none => throw (.unknownModuleAlias owner head)
  | some binding =>
    -- the alias may name a private inline DAG itself
    resolver.ensureModulePathVisible binding.target binding.access
    let target ← resolver.descend binding.access binding.target rest
    if resolver.modules.contains target then return (target, binding.access)
    else throw (.unknownModule target)

/-- The error of a name that is in no table of its kind. -/
def notFound (t : SymbolTable) (owner : SourceDagId N) (path : NamePath N)
    (requiresPublic : Bool) : Except (ModuleResolveError N) (ModuleResolveError N) := do
  match ← resolver.visibleSurfaceKind owner t.namespaceOf path.leaf requiresPublic with
  | some actual => return .wrongUniverseName owner path t.surfaceKind actual
  | none => return .unknownName owner (.table t) path.leaf

/-- The module's own declarations, then its selective imports. -/
def visibleSymbol (t : SymbolTable) (entry : ModuleEntry N) (name : N) : Option (Symbol N t) :=
  (entry.symbols.tables t).get? name <|> (entry.scope.selected t).get? name

def resolveSymbolPath (t : SymbolTable) (owner : SourceDagId N) (path : NamePath N) :
    Except (ModuleResolveError N) (Symbol N t) := do
  match path.qualifier with
  | [] =>
    let entry ← resolver.entry owner
    match visibleSymbol t entry path.leaf with
    | some symbol => return symbol
    | none => throw (← resolver.notFound t owner path false)
  | head :: rest =>
    let (target, access) ← resolver.resolveModuleQualifier owner head rest
    let entry ← resolver.entry target
    match visibleSymbol t entry path.leaf with
    | some symbol =>
      if access.requiresPublic ∧ ¬ symbol.visibility.isPublic then
        throw (.privateName target (.table t) path.leaf)
      else return symbol
    | none => throw (← resolver.notFound t target path access.requiresPublic)

/-! ## Call paths -/

/-- The inline DAG that `parent` declares as `head`. -/
def declaredDagChild (parent : SourceDagId N) (head : N) : Option (SourceDagId N) := do
  let entry ← resolver.modules.get? parent
  let symbol ← (entry.symbols.tables .decl).get? head
  let child := parent.inlineDagChild symbol.resolved.leaf
  if symbol.data = .dag ∧ resolver.modules.contains child then some child else none

/-- A local DAG is visible in its module and in the modules nested in it. -/
def localDag (owner : SourceDagId N) (head : N) : Option (SourceDagId N) :=
  resolver.declaredDagChild owner head <|>
    owner.parent.bind fun parent => resolver.declaredDagChild parent head

/-- Note a candidate; one that is known becomes local if it is met as a local one. -/
def noteCandidate (candidates : List (SourceDagId N × Access))
    (candidate : SourceDagId N × Access) : List (SourceDagId N × Access) :=
  if candidate.1 ∈ candidates.map Prod.fst then
    if candidate.2 = .localAccess then
      candidates.map fun known => if known.1 = candidate.1 then candidate else known
    else candidates
  else candidates ++ [candidate]

/-- What the first segment of a call path may name. -/
def callCandidates (owner : SourceDagId N) (scope : ModuleScope N) (head : N) :
    List (SourceDagId N × Access) :=
  let localTarget := (resolver.localDag owner head).map (·, Access.localAccess)
  let selectedTarget := ((scope.selected .decl).get? head).bind fun imported =>
    if imported.data = .dag then
      some (imported.resolved.owner.inlineDagChild imported.resolved.leaf, Access.crossModule)
    else none
  let aliasTarget := (scope.moduleAliases.get? head).bind fun binding =>
    if isCallable binding.role then some (binding.target, binding.access) else none
  (localTarget.toList ++ selectedTarget.toList ++ aliasTarget.toList).foldl noteCandidate []

/-- Descend to inline DAGs only. -/
def descendDags (access : Access) :
    SourceDagId N → List N → Except (ModuleResolveError N) (SourceDagId N)
  | target, [] => .ok target
  | target, segment :: rest => do
    let child := target.inlineDagChild segment
    if ¬ resolver.modules.contains child then throw (.unknownModule child)
    resolver.ensureModulePathVisible child access
    descendDags access child rest

/-- The DAG that a call path names. -/
def resolveModulePath (owner : SourceDagId N) (head : N) (rest : List N) :
    Except (ModuleResolveError N) (SourceDagId N) := do
  let scope ← resolver.moduleScope owner
  match resolver.callCandidates owner scope head with
  | [(target, access)] =>
    resolver.ensureModulePathVisible target access
    resolver.descendDags access target rest
  | [] =>
    if (scope.moduleAliases.get? head).isSome then throw (.includedInstanceNotCallable owner head)
    else if rest = [] then throw (.unknownModule (owner.inlineDagChild head))
    else throw (.unknownModuleAlias owner head)
  | candidates => throw (.ambiguousCallableModule owner head (candidates.map Prod.fst))

end ModuleResolver

end Resolve

end ProvenGraphcal

/-!
# Projection of the items that an include selects

After the items of an include are registered, each is redirected to the target that the include's
bindings give it, or becomes a declaration of the including module.
-/

namespace ProvenGraphcal.Resolve

variable {N : Type}

def BindingValue.path? : BindingValue N → Option (NamePath N)
  | .path target => some target
  | .finite _ | .other => none

/-- The index that a binding value names when it is a concrete `Fin(n)`. -/
def finiteIndexBinding : BindingValue N → Option ℕ
  | .finite size? => size?
  | .path _ | .other => none

def hasStaticBindings (decl : Include N) : Bool :=
  decl.paramBindings.any fun binding => binding.category ≠ .unmarked

def hasDimensionBindings (decl : Include N) : Bool :=
  decl.paramBindings.any fun binding => binding.category = .dimension

/-- The include's `dim Port: Target` bindings whose target is a path. -/
def dimensionPortBindings (decl : Include N) : List (DimensionPortBinding N) :=
  decl.paramBindings.filterMap fun binding =>
    if binding.category = .dimension then binding.value.path?.map (⟨binding.name, ·⟩) else none

/-- The bindings that may redirect an item of this category. -/
def bindingCategory : ImportItemNamespace → Option InputBindingCategory
  | .type => some .type
  | .dimension => some .dimension
  | .index => some .index
  | .unit | .term => none

/-- The binding that an item is redirected by. -/
def itemBinding [DecidableEq N] (decl : Include N) (item : Item N) : Option (ParamBinding N) :=
  (bindingCategory item.selection.category).bind fun category =>
    decl.paramBindings.find? fun binding =>
      binding.category = category ∧ binding.name = item.name.name

def itemBindingPath [DecidableEq N] (decl : Include N) (item : Item N) : Option (NamePath N) :=
  (itemBinding decl item).bind (·.value.path?)

/-- What the projection does with one item. -/
inductive StaticUpdate (N : Type)
  | keep
  | select (t : SymbolTable) (name : N) (symbol : Symbol N t)
  | projectType (name : N) (projection : StaticProjection N) (symbol : Symbol N .structType)
  | projectDimension (name : N) (projection : DimensionProjection N)
    (symbol : Symbol N .dimension)
  | projectIndex (name : N) (finite? : Option ℕ) (symbol : Symbol N .index)

variable [LinearOrder N]

def ModuleEntry.setSelected (entry : ModuleEntry N) (t : SymbolTable) (name : N)
    (symbol? : Option (Symbol N t)) : ModuleEntry N :=
  { entry with scope := { entry.scope with selected := entry.scope.selected.set t name symbol? } }

def StaticUpdate.apply : StaticUpdate N → ModuleEntry N → ModuleEntry N
  | .keep, entry => entry
  | .select t name symbol, entry => entry.setSelected t name (some symbol)
  | .projectType name projection symbol, entry =>
    let entry := entry.setSelected .structType name none
    { entry with symbols := { entry.symbols.set .structType name (some symbol) with
        structTypeProjections := entry.symbols.structTypeProjections.insert name projection } }
  | .projectDimension name projection symbol, entry =>
    let entry := entry.setSelected .dimension name none
    { entry with symbols := { entry.symbols.set .dimension name (some symbol) with
        dimensionProjections := entry.symbols.dimensionProjections.insert name projection } }
  | .projectIndex name finite? symbol, entry =>
    { entry with symbols := { entry.symbols.set .index name (some symbol) with
        finiteIndexProjections := match finite? with
          | some size => entry.symbols.finiteIndexProjections.insert name size
          | none => entry.symbols.finiteIndexProjections } }

namespace ModuleResolver

variable (resolver : ModuleResolver N)

/-- The binding that `template` publicly exports. -/
def templateExport (t : SymbolTable) (template : SourceDagId N) (atom : N) :
    Except (ModuleResolveError N) (Symbol N t) := do
  match ← resolver.exportedSymbolForImport t template atom .crossModule with
  | .pub symbol => return symbol
  | .priv => throw (.privateName template (.table t) atom)
  | .missing => throw (.unknownName template (.table t) atom)

variable (owner template : SourceDagId N) (decl : Include N)

/-- The bound target, or else what the template exports. -/
def effectiveTarget (t : SymbolTable) (item : Item N) :
    Except (ModuleResolveError N) (Symbol N t) :=
  match itemBindingPath decl item with
  | some path => resolver.resolveSymbolPath t owner path
  | none => resolver.templateExport t template item.name.name

def selectedUpdate (t : SymbolTable) (item : Item N) :
    Except (ModuleResolveError N) (StaticUpdate N) := do
  let symbol ← resolver.effectiveTarget owner template decl t item
  return .select t (localNameAtom item) (symbol.rebind (.ofVisibility item.visibility))

def typeUpdate (item : Item N) : Except (ModuleResolveError N) (StaticUpdate N) :=
  if itemBindingPath decl item = none ∧ hasStaticBindings decl then do
    let symbols ← resolver.moduleSymbols template
    match (symbols.tables .structType).get? item.name.name with
    | none => throw (.unknownName template (.table .structType) item.name.name)
    | some source =>
      -- the include's instance owns the specialized type
      return .projectType (localNameAtom item) ⟨⟨template, item.name.name⟩, decl.instanceScope⟩
        ⟨⟨owner.instanceChild decl.instanceScope, item.name.name⟩, .ofVisibility item.visibility,
          source.data⟩
  else resolver.selectedUpdate owner template decl .structType item

def dimensionUpdate (item : Item N) : Except (ModuleResolveError N) (StaticUpdate N) :=
  if itemBindingPath decl item = none ∧ hasDimensionBindings decl then
    .ok (.projectDimension (localNameAtom item)
      ⟨⟨⟨template, item.name.name⟩, decl.instanceScope⟩, dimensionPortBindings decl⟩
      ⟨⟨owner, localNameAtom item⟩, .ofVisibility item.visibility, ()⟩)
  else resolver.selectedUpdate owner template decl .dimension item

def indexUpdate (item : Item N) : Except (ModuleResolveError N) (StaticUpdate N) :=
  match itemBinding decl item, itemBindingPath decl item with
  | some binding, none =>
    .ok (.projectIndex (localNameAtom item) (finiteIndexBinding binding.value)
      ⟨⟨owner, localNameAtom item⟩, .ofVisibility item.visibility, []⟩)
  | _, _ => resolver.selectedUpdate owner template decl .index item

/-- The include binds the type of this name. -/
def bindsType (name : N) : Bool :=
  decl.paramBindings.any fun binding => binding.category = .type ∧ binding.name = name

/-- The include selects the type of this name. -/
def selectsType (items : List (Item N)) (name : N) : Bool :=
  items.any fun candidate => candidate.selection.category = .type ∧ candidate.name.name = name

/-- A constructor whose type the include specializes belongs to the instance. -/
def projectedConstructor (items : List (Item N)) (item : Item N)
    (constructor : Symbol N .constructor) : Symbol N .constructor :=
  if hasStaticBindings decl ∧ selectsType items constructor.data.ownerType then
    ⟨⟨owner.instanceChild decl.instanceScope, constructor.resolved.leaf⟩,
      .ofVisibility item.visibility, constructor.data⟩
  else constructor

/-- The visibility that a selected constructor has already. -/
def constructorVisibility (entry : ModuleEntry N) (item : Item N) : BindableVisibility :=
  match (entry.scope.selected .constructor).get? (localNameAtom item) with
  | some existing => existing.visibility
  | none => .ofVisibility item.visibility

/-- Only constructors of the template are redirected. -/
def termUpdate (items : List (Item N)) (item : Item N) :
    Except (ModuleResolveError N) (StaticUpdate N) := do
  match ← resolver.exportedSymbolForImport .constructor template item.name.name .crossModule with
  | .priv | .missing => return .keep
  | .pub constructor =>
    if bindsType decl constructor.data.ownerType then
      throw (.constructorOwnerRebound owner item.name.name
        ⟨constructor.resolved.owner, constructor.data.ownerType⟩)
    else
      let entry ← resolver.entry owner
      return .select .constructor (localNameAtom item)
        ((projectedConstructor owner decl items item constructor).rebind
          (constructorVisibility entry item))

def itemUpdate (items : List (Item N)) (item : Item N) :
    Except (ModuleResolveError N) (StaticUpdate N) :=
  match item.selection.category with
  | .type => resolver.typeUpdate owner template decl item
  | .dimension => resolver.dimensionUpdate owner template decl item
  | .index => resolver.indexUpdate owner template decl item
  | .unit => resolver.selectedUpdate owner template decl .unit item
  | .term => resolver.termUpdate owner template decl items item

/-- Project one item. -/
def projectItem (items : List (Item N)) (item : Item N) :
    Except (ModuleResolveError N) (ModuleResolver N) := do
  let update ← resolver.itemUpdate owner template decl items item
  match update with
  | .keep => return resolver
  | update =>
    let _ ← resolver.entry owner
    return resolver.updateEntry owner update.apply

/-- Redirect the selected items to their effective targets. -/
def applyIncludeStaticProjectionBindings : Except (ModuleResolveError N) (ModuleResolver N) :=
  match decl.kind with
  | .module _ => .ok resolver
  | .selective items =>
    items.foldlM (fun resolver item => resolver.projectItem owner template decl items item) resolver

end ModuleResolver

end ProvenGraphcal.Resolve
