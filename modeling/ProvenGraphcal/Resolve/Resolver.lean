import ProvenGraphcal.Library.InsertionMap
import ProvenGraphcal.Resolve.Symbols

/-!
# Import scopes: aliases and selective imports

Which spellings a namespace reserves is a parameter.
-/

namespace ProvenGraphcal.Resolve

variable {N : Type}

structure ModuleAliasTarget (N : Type) where
  target : SourceDagId N
  access : Access
  role : ModuleAliasRole
  visibility : BindableVisibility

def isCallable : ModuleAliasRole → Bool
  | .importedDag => true
  | .includedInstance => false

/-- The declaring package and the written path decide the plugin's identity. -/
structure PluginAliasTarget (N : Type) where
  package : N
  path : N
  functions : List N

structure ModuleScope (N : Type) [LinearOrder N] where
  moduleAliases : SortedMap N (ModuleAliasTarget N)
  pluginAliases : SortedMap N (PluginAliasTarget N)
  selected : Tables N

/-- What a local name that an edge introduces denotes. -/
inductive ImportTarget (N : Type)
  | moduleAlias (target : SourceDagId N) (access : Access) (role : ModuleAliasRole)
  | symbol (t : SymbolTable) (symbol : Symbol N t)

namespace ImportTarget

def itemKind : ImportTarget N → Option ExportedImportItemKind
  | .moduleAlias .. => none
  | .symbol _ binding => some binding.itemKind

def namespaceOf : ImportTarget N → Namespace
  | .moduleAlias .. => .term
  | .symbol t _ => t.namespaceOf

end ImportTarget

/-- One local name that an import or include introduces. -/
structure ImportAddition (N : Type) where
  name : N
  visibility : BindableVisibility
  target : ImportTarget N

/-- The alias of a whole module: the explicit one, or the path's last segment. -/
def moduleAlias (path : ModulePath N) (alias? : Option N) : N := alias?.getD path.leaf.name

variable [LinearOrder N]

namespace ModuleScope

def empty : ModuleScope N := ⟨.empty, .empty, .empty⟩

def occupant (scope : ModuleScope N) (ns : Namespace) (atom : N) : Option Occupant :=
  match ns with
  | .term =>
    scope.selected.occupant .term atom <|>
      (scope.moduleAliases.get? atom).map (fun target => ⟨target.visibility, none⟩) <|>
        (scope.pluginAliases.get? atom).map fun _ => ⟨.priv, none⟩
  | .static | .unit => scope.selected.occupant ns atom

def install (scope : ModuleScope N) (addition : ImportAddition N) : ModuleScope N :=
  match addition.target with
  | .moduleAlias target access role =>
    { scope with moduleAliases :=
        scope.moduleAliases.insert addition.name ⟨target, access, role, addition.visibility⟩ }
  | .symbol t symbol =>
    { scope with selected :=
        scope.selected.set t addition.name (some (symbol.rebind addition.visibility)) }

variable (reserved : Namespace → N → Bool)

/-- Install one name: its slot must be free, and an item's name not reserved. -/
def addImport (symbols : ModuleSymbols N) (scope : ModuleScope N) (addition : ImportAddition N) :
    Except (ModuleResolveError N) (ModuleScope N) :=
  let ns := addition.target.namespaceOf
  match symbols.occupant ns addition.name <|> scope.occupant ns addition.name with
  | some _ => .error (.duplicateImportName symbols.owner ns addition.name)
  | none =>
    match addition.target.itemKind with
    | some kind =>
      if reserved ns addition.name then
        .error (.reservedImportName symbols.owner kind addition.name)
      else .ok (scope.install addition)
    | none => .ok (scope.install addition)

def addImports (scope : ModuleScope N) (symbols : ModuleSymbols N)
    (additions : List (ImportAddition N)) : Except (ModuleResolveError N) (ModuleScope N) :=
  additions.foldlM (addImport reserved symbols) scope

end ModuleScope

/-- The alias that a declaration introduces, and whether it re-spells a single-segment path. -/
def declaredAlias : Decl N → Option (N × Bool)
  | .importDecl (.module _ path alias?) | .includeDecl ⟨path, _, .module alias?⟩ =>
    let name := moduleAlias path alias?
    some (name, path.segments.items.length = 1 && path.leaf.name = name)
  | .otherDecl (.pluginImport _ name _) => some (name, false)
  | _ => none

/-- An earlier plugin alias stands in the way of a plugin alias only. -/
def pluginAliasInWay (scope : ModuleScope N) (name : N) : Decl N → Bool
  | .otherDecl (.pluginImport ..) => (scope.pluginAliases.get? name).isSome
  | _ => false

/-- Claim the alias one declaration introduces. -/
def declareAlias (symbols : ModuleSymbols N) (scope : ModuleScope N) (decl : Decl N) :
    Except (ModuleResolveError N) (ModuleScope N) :=
  match declaredAlias decl with
  | none => .ok scope
  | some (name, respellsPath) =>
    let namesLocalDag := respellsPath && symbols.declaresDag name
    if ((symbols.occupant .term name).isSome && !namesLocalDag) ||
        pluginAliasInWay scope name decl then
      .error (.duplicateImportName symbols.owner .term name)
    else
      match decl with
      | .otherDecl (.pluginImport path _ functions) => do
        let functions ← functions.foldlM (Checked.insertDistinct id
          (fun _ function => .duplicatePluginFunction symbols.owner function) fun _ => .ok ()) []
        return { scope with
          pluginAliases := scope.pluginAliases.insert name ⟨symbols.owner.package, path, functions⟩ }
      | _ => .ok scope

/-- Claim the aliases of the declarations, skipping each one that is refused. -/
def declareAliases (symbols : ModuleSymbols N) :
    ModuleScope N → List (Decl N) → ModuleScope N × List (ModuleResolveError N)
  | scope, [] => (scope, [])
  | scope, decl :: rest =>
    match declareAlias symbols scope decl with
    | .ok next => declareAliases symbols next rest
    | .error e =>
      let (declared, errors) := declareAliases symbols scope rest
      (declared, e :: errors)

/-- One module: its own declarations and its import scope. -/
structure ModuleEntry (N : Type) [LinearOrder N] where
  symbols : ModuleSymbols N
  scope : ModuleScope N

/-- The declared symbols and aliases of a module, with the errors of what was refused. -/
def collectedEntry (owner : SourceDagId N) (declarations : List (Decl N)) :
    ModuleEntry N × List (ModuleResolveError N) :=
  let (symbols, errors) := ModuleSymbols.collect owner declarations
  let (scope, aliasErrors) := declareAliases symbols .empty declarations
  (⟨symbols, scope⟩, errors ++ aliasErrors)

/-!
# Registration of imports and includes in the scopes of a resolver
-/

/-- The modules of a project, keyed by identity. -/
structure ModuleResolver (N : Type) [LinearOrder N] where
  modules : InsertionMap (SourceDagId N) (ModuleEntry N)

/-- What looking a name up on a module's public surface finds. -/
inductive ExportLookup (N : Type) (t : SymbolTable)
  | pub (symbol : Symbol N t)
  | priv
  | missing

namespace ExportLookup

variable {t : SymbolTable}

def public? : ExportLookup N t → Option (Symbol N t)
  | pub symbol => some symbol
  | priv | missing => none

def isPublic : ExportLookup N t → Bool
  | pub _ => true
  | priv | missing => false

def isPrivate : ExportLookup N t → Bool
  | priv => true
  | pub _ | missing => false

end ExportLookup

def exportedSymbol {t : SymbolTable} (table : SortedMap N (Symbol N t)) (atom : N)
    (access : Access) : ExportLookup N t :=
  match table.get? atom with
  | none => .missing
  | some symbol =>
    if ¬ access.requiresPublic ∨ symbol.visibility.isPublic then .pub symbol else .priv

/-- The error of a module path through a DAG that is private. -/
def ofPathError : ProvenGraphcal.ModuleResolveError N Empty → ModuleResolveError N
  | .unknownModule owner => .unknownModule owner
  | .privateName owner name => .privateName owner .dag name

/-- The addition of an item that denotes a symbol. -/
def itemAddition (item : Item N) (t : SymbolTable) (symbol : Symbol N t) : ImportAddition N :=
  ⟨localNameAtom item, .ofVisibility item.visibility, .symbol t symbol⟩

namespace ModuleResolver

variable (resolver : ModuleResolver N)

def entry (owner : SourceDagId N) : Except (ModuleResolveError N) (ModuleEntry N) :=
  match resolver.modules.get? owner with
  | some entry => .ok entry
  | none => .error (.unknownModule owner)

/-- The entry of `owner`, if there is one, replaced by `f`. -/
def updateEntry (owner : SourceDagId N) (f : ModuleEntry N → ModuleEntry N) : ModuleResolver N :=
  ⟨resolver.modules.modify owner f⟩

def moduleSymbols (owner : SourceDagId N) : Except (ModuleResolveError N) (ModuleSymbols N) :=
  return (← resolver.entry owner).symbols

def moduleScope (owner : SourceDagId N) : Except (ModuleResolveError N) (ModuleScope N) :=
  return (← resolver.entry owner).scope

/-- The declarations of a module as a path to it reads them: which are DAGs, and which public. -/
def declSymbols (owner : SourceDagId N) : Option (N → Option DeclSymbol) :=
  (resolver.modules.get? owner).map fun entry name =>
    ((entry.symbols.tables .decl).get? name).map fun symbol =>
      ⟨if symbol.data = .dag then .dag else .value,
        if symbol.visibility.isPublic then .pub else .priv⟩

def ensureModulePathVisible (target : SourceDagId N) (access : Access) :
    Except (ModuleResolveError N) Unit :=
  (ProvenGraphcal.ensureModulePathVisible resolver.declSymbols target access).mapError ofPathError

/-! ## The public surface, one name at a time -/

/-- A module's own declarations first, then its selective imports. -/
def exportedSymbolForImport (t : SymbolTable) (target : SourceDagId N) (atom : N)
    (access : Access) : Except (ModuleResolveError N) (ExportLookup N t) := do
  let symbols ← resolver.moduleSymbols target
  match exportedSymbol (symbols.tables t) atom access with
  | .missing =>
    let scope ← resolver.moduleScope target
    return exportedSymbol (scope.selected t) atom access
  | found => return found

/-- The categories in which a name is public. -/
def exportedImportItemCategories (target : SourceDagId N) (atom : N) (access : Access) :
    Except (ModuleResolveError N) (Option (NonEmpty ImportItemNamespace)) := do
  let tables : List SymbolTable := [.decl, .constructor, .structType, .dimension, .unit, .index]
  let exported ← tables.mapM fun t => do
    let found ← resolver.exportedSymbolForImport t target atom access
    return (t.category, found.isPublic)
  return NonEmpty.tryFromVec (exported.foldl (fun categories (category, isPublic) =>
    if isPublic ∧ category ∉ categories then categories ++ [category] else categories) [])

/-- The error of an item that names nothing in its category. -/
def missingImportItem (target : SourceDagId N) (item : Item N) (category : NameCategory)
    (access : Access) : Except (ModuleResolveError N) (ModuleResolveError N) := do
  match ← resolver.exportedImportItemCategories target item.name.name access with
  | none => return .unknownName target category item.name.name
  | some alternatives =>
    return .wrongImportCategory target item.name.name item.selection.category alternatives

def requiredExportedSymbolForImport (t : SymbolTable) (target : SourceDagId N) (item : Item N)
    (access : Access) : Except (ModuleResolveError N) (Symbol N t) := do
  match ← resolver.exportedSymbolForImport t target item.name.name access with
  | .pub symbol => return symbol
  | .priv => throw (.privateImportItem target (.table t) item.name.name)
  | .missing => throw (← resolver.missingImportItem target item (.table t) access)

def termImportItemAdditions (target : SourceDagId N) (item : Item N) (access : Access) :
    Except (ModuleResolveError N) (List (ImportAddition N)) := do
  let decl ← resolver.exportedSymbolForImport .decl target item.name.name access
  let constructor ← resolver.exportedSymbolForImport .constructor target item.name.name access
  let additions := (decl.public?.map (itemAddition item .decl)).toList ++
    (constructor.public?.map (itemAddition item .constructor)).toList
  if additions ≠ [] then return additions
  else if decl.isPrivate ∨ constructor.isPrivate then
    throw (.privateImportItem target .termImport item.name.name)
  else throw (← resolver.missingImportItem target item .termImport access)

def symbolImportItemAdditions (t : SymbolTable) (target : SourceDagId N) (item : Item N)
    (access : Access) : Except (ModuleResolveError N) (List (ImportAddition N)) := do
  let symbol ← resolver.requiredExportedSymbolForImport t target item access
  return [itemAddition item t symbol]

def importItemAdditions (target : SourceDagId N) (item : Item N) (access : Access) :
    Except (ModuleResolveError N) (List (ImportAddition N)) :=
  match item.selection.category with
  | .term => resolver.termImportItemAdditions target item access
  | .type => resolver.symbolImportItemAdditions .structType target item access
  | .dimension => resolver.symbolImportItemAdditions .dimension target item access
  | .unit => resolver.symbolImportItemAdditions .unit target item access
  | .index => resolver.symbolImportItemAdditions .index target item access

/-- A reusable DAG cannot be selected from a configured instance. -/
def checkProjectable (target : SourceDagId N) (item : Item N) (role : ModuleAliasRole)
    (addition : ImportAddition N) : Except (ModuleResolveError N) Unit :=
  match role, addition.target.itemKind with
  | .includedInstance, some kind =>
    if includeProjection kind = none then
      .error (.includeItemNotProjectable target item.name.name kind)
    else .ok ()
  | _, _ => .ok ()

def selectedAdditions (target : SourceDagId N) (access : Access) (role : ModuleAliasRole)
    (item : Item N) : Except (ModuleResolveError N) (List (ImportAddition N)) := do
  let additions ← resolver.importItemAdditions target item access
  additions.forM (checkProjectable target item role)
  return additions

def importAdditions (path : ModulePath N) (tail : ImportTail N (ItemSelection N))
    (target : SourceDagId N) (access : Access) (role : ModuleAliasRole) :
    Except (ModuleResolveError N) (List (ImportAddition N)) :=
  match tail with
  | .module alias? visibility =>
    .ok [⟨moduleAlias path alias?, .ofVisibility visibility, .moduleAlias target access role⟩]
  | .selective items => do
    let chunks ← items.mapM (resolver.selectedAdditions target access role)
    return chunks.flatten

/-- Selecting items or re-exporting the alias reaches through the target's path. -/
def ensureTailVisible (tail : ImportTail N (ItemSelection N)) (target : SourceDagId N)
    (access : Access) : Except (ModuleResolveError N) Unit :=
  if tail.requiresVisibleModulePath then resolver.ensureModulePathVisible target access
  else .ok ()

variable (reserved : Namespace → N → Bool)

/-- Add names to the scope of `owner`. -/
def addImports (owner : SourceDagId N) (additions : List (ImportAddition N)) :
    Except (ModuleResolveError N) (ModuleResolver N) := do
  let entry ← resolver.entry owner
  let scope ← entry.scope.addImports reserved entry.symbols additions
  return resolver.updateEntry owner fun entry => { entry with scope := scope }

def registerImportWithAccess (owner : SourceDagId N) (path : ModulePath N)
    (tail : ImportTail N (ItemSelection N)) (target : SourceDagId N) (role : ModuleAliasRole) :
    Except (ModuleResolveError N) (ModuleResolver N) := do
  -- every import or include edge crosses a module boundary
  let _ ← resolver.moduleSymbols owner
  let _ ← resolver.moduleSymbols target
  resolver.ensureTailVisible tail target .crossModule
  let additions ← resolver.importAdditions path tail target .crossModule role
  resolver.addImports reserved owner additions

def registerImport (owner : SourceDagId N) (decl : Import N) (target : SourceDagId N) :
    Except (ModuleResolveError N) (ModuleResolver N) :=
  resolver.registerImportWithAccess reserved owner decl.path (.ofImport decl) target .importedDag

def registerInclude (owner : SourceDagId N) (path : ModulePath N)
    (kind : ImportKind N (ItemSelection N)) (target : SourceDagId N) :
    Except (ModuleResolveError N) (ModuleResolver N) :=
  resolver.registerImportWithAccess reserved owner path (.ofInclude kind) target .includedInstance

end ModuleResolver

end ProvenGraphcal.Resolve
