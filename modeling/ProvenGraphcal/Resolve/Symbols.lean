import ProvenGraphcal.Graph.Ordering
import ProvenGraphcal.Include.ModuleResolver

/-!
# Namespaces, symbol tables and categories of names

A slot is a namespace with a name. The symbol tables split a namespace for lookup; selective
imports name a category, which two tables of the Term namespace share.
-/

namespace ProvenGraphcal.Resolve

/-- The unit of collision checking and name lookup. -/
inductive Namespace
  | term
  | static
  | unit
  deriving DecidableEq

/-- The category that a selective import item is marked with. -/
inductive ImportItemNamespace
  | term
  | type
  | dimension
  | unit
  | index
  deriving DecidableEq

def Namespace.of : ImportItemNamespace → Namespace
  | .term => .term
  | .unit => .unit
  | .type | .dimension | .index => .static

inductive DeclSymbolKind
  | const
  | param
  | node
  | assert
  | plot
  | figure
  | layer
  | dag
  deriving DecidableEq

inductive UnitConstness
  | const
  | dynamic
  deriving DecidableEq

inductive BindableVisibility
  | priv
  | pub
  | publicBind
  deriving DecidableEq

def BindableVisibility.isPublic : BindableVisibility → Bool
  | .pub | .publicBind => true
  | .priv => false

def BindableVisibility.ofVisibility : Visibility → BindableVisibility
  | .priv => .priv
  | .pub => .pub

/-- Category of one exported symbol. -/
inductive ExportedImportItemKind
  | decl (kind : DeclSymbolKind)
  | constructor
  | dimension
  | unit (constness : UnitConstness)
  | type
  | index
  deriving DecidableEq

namespace ExportedImportItemKind

def namespaceOf : ExportedImportItemKind → ImportItemNamespace
  | .decl _ | .constructor => .term
  | .dimension => .dimension
  | .unit _ => .unit
  | .type => .type
  | .index => .index

def sortRank (kind : ExportedImportItemKind) : ℕ :=
  match kind.namespaceOf with
  | .term => 0
  | .type => 1
  | .dimension => 2
  | .unit => 3
  | .index => 4

end ExportedImportItemKind

inductive IncludeProjection
  | staticDeclaration
  | constNode
  | constructor
  | runtimeTerm
  | assertion
  | visualization
  | staticUnit
  | runtimeUnit
  deriving DecidableEq

/-- What selecting a symbol from a configured instance gives; a reusable DAG is no member. -/
def includeProjection : ExportedImportItemKind → Option IncludeProjection
  | .decl .const => some .constNode
  | .decl .param | .decl .node => some .runtimeTerm
  | .decl .assert => some .assertion
  | .decl .plot | .decl .figure | .decl .layer => some .visualization
  | .decl .dag => none
  | .constructor => some .constructor
  | .dimension | .type | .index => some .staticDeclaration
  | .unit .const => some .staticUnit
  | .unit .dynamic => some .runtimeUnit

inductive SymbolTable
  | decl
  | constructor
  | dimension
  | structType
  | index
  | unit
  deriving DecidableEq

/-- The category reported when a name is found in the wrong universe. -/
inductive SurfaceNameKind
  | value
  | dimension
  | unit
  | type
  | index
  | indexLabel
  | constructor
  deriving DecidableEq

namespace SymbolTable

def namespaceOf : SymbolTable → Namespace
  | .decl | .constructor => .term
  | .dimension | .structType | .index => .static
  | .unit => .unit

def surfaceKind : SymbolTable → SurfaceNameKind
  | .decl => .value
  | .constructor => .constructor
  | .dimension => .dimension
  | .structType => .type
  | .index => .index
  | .unit => .unit

/-- The selective-import category of the table's names. -/
def category : SymbolTable → ImportItemNamespace
  | .decl | .constructor => .term
  | .dimension => .dimension
  | .structType => .type
  | .index => .index
  | .unit => .unit

theorem namespace_of_category (t : SymbolTable) : Namespace.of t.category = t.namespaceOf := by
  cases t <;> rfl

end SymbolTable

/-- The tables of a namespace, in the order they are consulted. -/
def Namespace.tables : Namespace → List SymbolTable
  | .term => [.decl, .constructor]
  | .static => [.dimension, .structType, .index]
  | .unit => [.unit]

@[simp] theorem Namespace.mem_tables {ns : Namespace} {t : SymbolTable} :
    t ∈ ns.tables ↔ t.namespaceOf = ns := by
  cases ns <;> cases t <;> decide

/-- What a failed lookup searched. -/
inductive NameCategory
  | table (table : SymbolTable)
  | ofNamespace (ns : Namespace)
  | termImport
  | dagAlias
  | dag
  deriving DecidableEq

/-!
# Declared symbols of one module

`N` are the spellings. Source spans, and the reason why a spelling is reserved, are left out.
-/

variable {N : Type}

/-- A path of names: module segments, then the leaf. -/
structure NamePath (N : Type) where
  qualifier : List N
  leaf : N
  deriving DecidableEq

inductive GenericConstraint
  | dim
  | index
  | nat
  | type
  deriving DecidableEq

structure GenericParamSignature (N : Type) where
  name : N
  constraint : GenericConstraint
  hasDefault : Bool
  deriving DecidableEq

inductive TypeDeclBody (N : Type)
  | required
  | constructors (members : List N)

/-- The declarations that are no DAG, import or include; an index lists its variants if it is a
named one. -/
inductive OtherDecl (N : Type)
  | param (name : N)
  | node (visibility : Visibility) (name : N)
  | constNode (visibility : Visibility) (name : N)
  | assert (visibility : Visibility) (name : N)
  | plot (visibility : Visibility) (name : N)
  | figure (visibility : Visibility) (name : N)
  | layer (visibility : Visibility) (name : N)
  | baseDimension (visibility : Visibility) (name : N)
  | dimension (visibility : BindableVisibility) (name : N)
  | unit (visibility : Visibility) (name : N) (constness : UnitConstness)
  | type (visibility : BindableVisibility) (name : N) (genericParams : List (GenericParamSignature N))
    (body : TypeDeclBody N)
  | index (visibility : BindableVisibility) (name : N) (variants? : Option (NonEmpty N))
  | pluginImport (path name : N) (functions : List N)

inductive InputBindingCategory
  | unmarked
  | type
  | dimension
  | index
  deriving DecidableEq

/-- The value of a binding: a path, an index `Fin(n)` with its size if `n` is a number, or any
other expression. -/
inductive BindingValue (N : Type)
  | path (path : NamePath N)
  | finite (size? : Option ℕ)
  | other

structure ParamBinding (N : Type) where
  category : InputBindingCategory
  name : N
  value : BindingValue N

/-- What an import item carries besides its name and visibility. -/
structure ItemSelection (N : Type) where
  category : ImportItemNamespace
  alias? : Option N

abbrev Item (N : Type) := ImportItem N (ItemSelection N)

abbrev Import (N : Type) := ImportDecl N (ItemSelection N)

abbrev Include (N : Type) := IncludeDecl N (ItemSelection N) (ParamBinding N)

abbrev Decl (N : Type) := Declaration N (ItemSelection N) (ParamBinding N) (OtherDecl N)

def localNameAtom (item : Item N) : N := item.selection.alias?.getD item.name.name

inductive ModuleResolveError (N : Type)
  | duplicateModule (owner : SourceDagId N)
  | ambiguousModulePath (first second : SourceDagId N)
  | recursiveIncludeExpansion (cycle : Cycle (SourceDagId N) Unit)
  | unknownModule (owner : SourceDagId N)
  | unknownModuleAlias (owner : SourceDagId N) (name : N)
  | ambiguousCallableModule (owner : SourceDagId N) (name : N) (targets : List (SourceDagId N))
  | includedInstanceNotCallable (owner : SourceDagId N) (name : N)
  | duplicateSymbol (owner : SourceDagId N) (ns : Namespace) (name : N)
  | duplicateIndexVariant (owner : SourceDagId N) (index variant : N)
  | duplicatePluginFunction (owner : SourceDagId N) (function : N)
  | duplicateImportName (owner : SourceDagId N) (ns : Namespace) (name : N)
  | reservedImportName (owner : SourceDagId N) (kind : ExportedImportItemKind) (name : N)
  | unknownName (owner : SourceDagId N) (category : NameCategory) (name : N)
  | wrongImportCategory (owner : SourceDagId N) (name : N) (requested : ImportItemNamespace)
    (alternatives : NonEmpty ImportItemNamespace)
  | wrongUniverseName (owner : SourceDagId N) (name : NamePath N)
    (expected actual : SurfaceNameKind)
  | includeItemNotProjectable (owner : SourceDagId N) (name : N) (kind : ExportedImportItemKind)
  | constructorOwnerRebound (owner : SourceDagId N) (constructor : N)
    (ownerType : ResolvedName N (ScopeSegment N))
  | privateName (owner : SourceDagId N) (category : NameCategory) (name : N)
  | privateImportItem (owner : SourceDagId N) (category : NameCategory) (name : N)

/-- The generic signature of a constructor's owning type, which is declared beside it. -/
structure ConstructorSignature (N : Type) where
  ownerType : N
  genericParams : List (GenericParamSignature N)
  deriving DecidableEq

/-- What a declaration of each table carries; an index carries its variants. -/
@[reducible] def Declared (N : Type) : SymbolTable → Type
  | .decl => DeclSymbolKind
  | .constructor => ConstructorSignature N
  | .dimension => Unit
  | .structType => List (GenericParamSignature N)
  | .index => List N
  | .unit => UnitConstness

/-- One name visible in a module, bound to its canonical target. -/
structure Symbol (N : Type) (t : SymbolTable) where
  resolved : ResolvedName N (ScopeSegment N)
  visibility : BindableVisibility
  data : Declared N t

/-- The same target, bound at another site. -/
def Symbol.rebind {t : SymbolTable} (symbol : Symbol N t) (visibility : BindableVisibility) :
    Symbol N t :=
  { symbol with visibility := visibility }

/-- The selective-import category of what the symbol denotes. -/
def Symbol.itemKind : {t : SymbolTable} → Symbol N t → ExportedImportItemKind
  | .decl, symbol => .decl symbol.data
  | .unit, symbol => .unit symbol.data
  | .dimension, _ => .dimension
  | .structType, _ => .type
  | .index, _ => .index
  | .constructor, _ => .constructor

theorem Symbol.namespaceOf_itemKind {t : SymbolTable} (symbol : Symbol N t) :
    symbol.itemKind.namespaceOf = t.category := by
  cases t <;> rfl

/-- The binding that occupies one slot; an alias has no surface category. -/
structure Occupant where
  visibility : BindableVisibility
  surface? : Option SurfaceNameKind

section Tables

variable [LinearOrder N]

/-- One table of symbols for each kind of name. -/
abbrev Tables (N : Type) [LinearOrder N] := (t : SymbolTable) → SortedMap N (Symbol N t)

namespace Tables

def empty : Tables N := fun _ => .empty

def set (tables : Tables N) (t : SymbolTable) (name : N) (symbol? : Option (Symbol N t)) :
    Tables N :=
  Function.update tables t ((tables t).set name symbol?)

def occupant (tables : Tables N) (ns : Namespace) (atom : N) : Option Occupant :=
  ns.tables.findSome? fun t =>
    ((tables t).get? atom).map fun symbol => ⟨symbol.visibility, some t.surfaceKind⟩

@[simp] theorem get?_empty (t : SymbolTable) (name : N) :
    ((empty : Tables N) t).get? name = none := rfl

theorem get?_set_self (tables : Tables N) (t : SymbolTable) (name : N)
    (symbol? : Option (Symbol N t)) : ((tables.set t name symbol?) t).get? name = symbol? := by
  rw [set, Function.update_self, SortedMap.get?_set, if_pos rfl]

theorem get?_set_of_ne (tables : Tables N) {t t' : SymbolTable} {name name' : N}
    (symbol? : Option (Symbol N t)) (h : t' = t → name' ≠ name) :
    ((tables.set t name symbol?) t').get? name' = (tables t').get? name' := by
  by_cases ht : t' = t
  · subst ht
    rw [set, Function.update_self, SortedMap.get?_set, if_neg (h rfl)]
  · rw [set, Function.update_of_ne ht]

/-- A slot is free when no table of its namespace has the name. -/
theorem occupant_eq_none {tables : Tables N} {ns : Namespace} {atom : N} :
    tables.occupant ns atom = none ↔
      ∀ t : SymbolTable, t.namespaceOf = ns → (tables t).get? atom = none := by
  rw [occupant, List.findSome?_eq_none_iff]
  simp only [Namespace.mem_tables, Option.map_eq_none_iff]

end Tables

/-! ## The symbols of a module -/

/-- A template declaration that a selective include projects into the importer. -/
structure StaticProjection (N : Type) where
  template : ResolvedName N (ScopeSegment N)
  instanceScope : ScopeSegment N
  deriving DecidableEq

/-- One `dim Port: Target` binding of an include. -/
structure DimensionPortBinding (N : Type) where
  port : N
  target : NamePath N
  deriving DecidableEq

structure DimensionProjection (N : Type) where
  projection : StaticProjection N
  ports : List (DimensionPortBinding N)
  deriving DecidableEq

structure ModuleSymbols (N : Type) [LinearOrder N] where
  owner : SourceDagId N
  tables : Tables N
  dimensionProjections : SortedMap N (DimensionProjection N)
  finiteIndexProjections : SortedMap N ℕ
  structTypeProjections : SortedMap N (StaticProjection N)

namespace ModuleSymbols

def empty (owner : SourceDagId N) : ModuleSymbols N := ⟨owner, .empty, .empty, .empty, .empty⟩

def set (symbols : ModuleSymbols N) (t : SymbolTable) (name : N) (symbol? : Option (Symbol N t)) :
    ModuleSymbols N :=
  { symbols with tables := symbols.tables.set t name symbol? }

def occupant (symbols : ModuleSymbols N) (ns : Namespace) (atom : N) : Option Occupant :=
  symbols.tables.occupant ns atom

/-- The module declares a `dag` of this name. -/
def declaresDag (symbols : ModuleSymbols N) (atom : N) : Bool :=
  ((symbols.tables .decl).get? atom).any fun symbol => symbol.data = .dag

/-- Claim the name's slot and record the declaration. -/
def declare (symbols : ModuleSymbols N) (t : SymbolTable) (name : N)
    (visibility : BindableVisibility) (data : Declared N t) :
    Except (ModuleResolveError N) (ModuleSymbols N) :=
  match symbols.occupant t.namespaceOf name with
  | some _ => .error (.duplicateSymbol symbols.owner t.namespaceOf name)
  | none => .ok (symbols.set t name (some ⟨⟨symbols.owner, name⟩, visibility, data⟩))

/-- The symbols after a declaration, with its error; what a refused one recorded stays. -/
abbrev Collected (N : Type) [LinearOrder N] := ModuleSymbols N × Option (ModuleResolveError N)

def orKeep (symbols : ModuleSymbols N) :
    Except (ModuleResolveError N) (ModuleSymbols N) → Collected N
  | .ok next => (next, none)
  | .error e => (symbols, some e)

def declareConstructors (visibility : BindableVisibility) (signature : ConstructorSignature N) :
    ModuleSymbols N → List N → Collected N
  | symbols, [] => (symbols, none)
  | symbols, member :: members =>
    match symbols.declare .constructor member visibility signature with
    | .ok next => declareConstructors visibility signature next members
    | .error e => (symbols, some e)

def declareType (symbols : ModuleSymbols N) (visibility : BindableVisibility) (name : N)
    (genericParams : List (GenericParamSignature N)) (body : TypeDeclBody N) : Collected N :=
  match symbols.declare .structType name visibility genericParams with
  | .error e => (symbols, some e)
  | .ok next =>
    match body with
    | .required => (next, none)
    | .constructors members => declareConstructors visibility ⟨name, genericParams⟩ next members

/-- The distinct variants of an index. -/
def indexVariants (owner : SourceDagId N) (name : N) (variants? : Option (NonEmpty N)) :
    Except (ModuleResolveError N) (List N) :=
  ((variants?.map NonEmpty.items).getD []).foldlM (Checked.insertDistinct id
    (fun _ variant => .duplicateIndexVariant owner name variant) fun _ => .ok ()) []

def declareIndex (symbols : ModuleSymbols N) (visibility : BindableVisibility) (name : N)
    (variants? : Option (NonEmpty N)) : Except (ModuleResolveError N) (ModuleSymbols N) := do
  let variants ← indexVariants symbols.owner name variants?
  symbols.declare .index name visibility variants

def collectDeclaration (symbols : ModuleSymbols N) : Decl N → Collected N
  | .dagDecl visibility name _ =>
    symbols.orKeep (symbols.declare .decl name (.ofVisibility visibility) .dag)
  | .otherDecl (.param name) => symbols.orKeep (symbols.declare .decl name .publicBind .param)
  | .otherDecl (.node visibility name) =>
    symbols.orKeep (symbols.declare .decl name (.ofVisibility visibility) .node)
  | .otherDecl (.constNode visibility name) =>
    symbols.orKeep (symbols.declare .decl name (.ofVisibility visibility) .const)
  | .otherDecl (.assert visibility name) =>
    symbols.orKeep (symbols.declare .decl name (.ofVisibility visibility) .assert)
  | .otherDecl (.plot visibility name) =>
    symbols.orKeep (symbols.declare .decl name (.ofVisibility visibility) .plot)
  | .otherDecl (.figure visibility name) =>
    symbols.orKeep (symbols.declare .decl name (.ofVisibility visibility) .figure)
  | .otherDecl (.layer visibility name) =>
    symbols.orKeep (symbols.declare .decl name (.ofVisibility visibility) .layer)
  | .otherDecl (.baseDimension visibility name) =>
    symbols.orKeep (symbols.declare .dimension name (.ofVisibility visibility) ())
  | .otherDecl (.dimension visibility name) =>
    symbols.orKeep (symbols.declare .dimension name visibility ())
  | .otherDecl (.unit visibility name constness) =>
    symbols.orKeep (symbols.declare .unit name (.ofVisibility visibility) constness)
  | .otherDecl (.type visibility name genericParams body) =>
    symbols.declareType visibility name genericParams body
  | .otherDecl (.index visibility name variants?) =>
    symbols.orKeep (symbols.declareIndex visibility name variants?)
  | .otherDecl (.pluginImport ..) | .importDecl _ | .includeDecl _ => (symbols, none)

/-- Collect the declarations from here on, skipping each one that is refused. -/
def collectFrom : ModuleSymbols N → List (Decl N) → ModuleSymbols N × List (ModuleResolveError N)
  | symbols, [] => (symbols, [])
  | symbols, decl :: rest =>
    let (next, error?) := symbols.collectDeclaration decl
    let (collected, errors) := collectFrom next rest
    (collected, error?.toList ++ errors)

def collect (owner : SourceDagId N) (declarations : List (Decl N)) :
    ModuleSymbols N × List (ModuleResolveError N) :=
  collectFrom (empty owner) declarations

end ModuleSymbols

end Tables

end ProvenGraphcal.Resolve
