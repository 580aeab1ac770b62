import ProvenGraphcal.Include.PlotExport
import ProvenGraphcal.Static.DimensionDefinitions

/-!
# Required Static inputs that a declaration depends on

A declaration refers to the dimensions, types and indexes that its signature names. Values, domain
bounds and source spans are left out.
-/

namespace ProvenGraphcal.Static

open Resolve

variable {N : Type}

inductive IndexExpr (N : Type)
  | name (path : NamePath N)
  | finite
  | bareNat

def DimTermName.asPath : DimTermName N → Option (NamePath N)
  | .dimensionless => none
  | .path name => some name

inductive AmbiguousGenericArg (N : Type)
  | name (name : N)
  | mul (operands : List (AmbiguousGenericArg N))

mutual

/-- An element type with its index suffix, which is empty if there is none. -/
inductive TypeExpr (N : Type)
  | mk (kind : TypeExprKind N) (indexes : List (IndexExpr N))

inductive TypeExprKind (N : Type)
  | dimensionless
  | bool
  | int
  | datetime
  | datetimeApplication (typeArgs : List (TypeExpr N))
  | complexApplication (genericArgs : List (GenericArg N))
  | keyApplication (genericArgs : List (GenericArg N))
  | indexLabel
  | dimExpr (expr : DimExpr N)
  | typeApplication (name : NamePath N) (genericArgs : List (GenericArg N))

inductive GenericArg (N : Type)
  | type (typeExpr : TypeExpr N)
  | index (index : IndexExpr N)
  | nat
  | ambiguous (argument : AmbiguousGenericArg N)

end

structure GenericParam (N : Type) where
  name : N
  default : Option (GenericArg N)

/-- A constructor with the types of its fields. -/
structure UnionMember (N : Type) where
  name : N
  payload : Option (List (TypeExpr N))

inductive TypeDeclBody (N : Type)
  | required
  | constructors (members : List (UnionMember N))

inductive IndexDeclKind (N : Type)
  | named
  | range
  | linspace
  | requiredNamed
  | requiredCoordinate (dimension : DimExpr N)

inductive DeclKind (N : Type)
  | param (name : N) (typeAnn : TypeExpr N)
  | node (name : N) (typeAnn : TypeExpr N)
  | constNode (name : N) (typeAnn : TypeExpr N)
  | baseDimension (name : N)
  | dimension (visibility : BindableVisibility) (name : N) (definition : Option (DimExpr N))
  | unit (name : N) (dimType : DimExpr N)
  | type (visibility : BindableVisibility) (name : N) (genericParams : List (GenericParam N))
    (body : TypeDeclBody N)
  | index (visibility : BindableVisibility) (name : N) (kind : IndexDeclKind N)
  | importDecl
  | pluginImport
  | includeDecl
  | dag (name : N) (body : List (DeclKind N))
  | assert (name : N)
  | plot (name : N)
  | figure (name : N)
  | layer (name : N)

namespace DeclKind

/-- The name that a declaration itself binds. -/
def declaredName : DeclKind N → Option (IntroducedKind × N)
  | param name _ => some (.param, name)
  | node name _ => some (.node, name)
  | constNode name _ => some (.constNode, name)
  | assert name => some (.assert, name)
  | plot name => some (.plot, name)
  | figure name => some (.figure, name)
  | layer name => some (.layer, name)
  | dag name _ => some (.dag, name)
  | baseDimension name => some (.baseDimension, name)
  | dimension _ name _ => some (.dimension, name)
  | unit name _ => some (.unit, name)
  | type _ name _ _ => some (.type, name)
  | index _ name _ => some (.index, name)
  | importDecl | pluginImport | includeDecl => none

def constructors : DeclKind N → List (UnionMember N)
  | type _ _ _ (.constructors members) => members
  | _ => []

/-- The declaration's own name, then its constructors. -/
def introducedNames (decl : DeclKind N) : List (IntroducedKind × N) :=
  decl.declaredName.toList ++ decl.constructors.map fun member => (.constructor, member.name)

end DeclKind

inductive Requirement
  | defaulted
  | required

structure StaticInterface where
  kind : StaticInputKind
  role : StaticRole

/-- A required declaration that is not bindable has no role. -/
def staticRoleOf : BindableVisibility → Requirement → Option StaticRole
  | .publicBind, .defaulted => some .optionalInput
  | .publicBind, .required => some .requiredInput
  | .priv, .defaulted | .pub, .defaulted => some .fixed
  | .priv, .required | .pub, .required => none

def staticInterface : DeclKind N → Option StaticInterface
  | .baseDimension _ => some ⟨.dimension, .fixed⟩
  | .dimension visibility _ definition =>
    (staticRoleOf visibility (if definition.isNone then .required else .defaulted)).map
      (⟨.dimension, ·⟩)
  | .type visibility _ _ body =>
    (staticRoleOf visibility (match body with
      | .required => .required
      | .constructors _ => .defaulted)).map (⟨.type, ·⟩)
  | .index visibility _ kind =>
    (staticRoleOf visibility (match kind with
      | .requiredNamed | .requiredCoordinate _ => .required
      | .named | .range | .linspace => .defaulted)).map (⟨.index, ·⟩)
  | _ => none

/-! ## References -/

inductive ResolvedStaticName (N : Type)
  | dimension (name : ResolvedName N (ScopeSegment N))
  | type (name : ResolvedName N (ScopeSegment N))
  | index (name : ResolvedName N (ScopeSegment N))

namespace ResolvedStaticName

def resolved : ResolvedStaticName N → ResolvedName N (ScopeSegment N)
  | dimension name | type name | index name => name

def owner (name : ResolvedStaticName N) : SourceDagId N := name.resolved.owner

def atom (name : ResolvedStaticName N) : N := name.resolved.leaf

end ResolvedStaticName

structure StaticReference (N : Type) where
  path : NamePath N
  target : ResolvedStaticName N

def staticInputKind : ResolvedStaticName N → StaticInputKind
  | .dimension _ => .dimension
  | .type _ => .type
  | .index _ => .index

def StaticReference.kind (reference : StaticReference N) : StaticInputKind :=
  staticInputKind reference.target

/-- Which symbols the place of a name admits. -/
inductive StaticPosition
  | dimension
  | type
  | index
  | typeOrDimension
  | any

def StaticPosition.admits : StaticPosition → ResolvedStaticName N → Bool
  | .any, _ => true
  | .dimension, .dimension _ | .typeOrDimension, .dimension _ => true
  | .type, .type _ | .typeOrDimension, .type _ => true
  | .index, .index _ => true
  | _, _ => false

variable [LinearOrder N]

def resolveStaticPath (resolver : ModuleResolver N) (owner : SourceDagId N) (path : NamePath N) :
    Except (Resolve.ModuleResolveError N) (ResolvedStaticName N) :=
  match resolver.resolveSymbolPath .dimension owner path with
  | .ok symbol => .ok (.dimension symbol.resolved)
  | .error _ =>
    match resolver.resolveSymbolPath .structType owner path with
    | .ok symbol => .ok (.type symbol.resolved)
    | .error _ =>
      match resolver.resolveSymbolPath .index owner path with
      | .ok symbol => .ok (.index symbol.resolved)
      | .error e => .error e

structure StaticScope (N : Type) [LinearOrder N] where
  owner : SourceDagId N
  resolver : ModuleResolver N

/-- Where references are collected: generic parameters are no symbols of the module. -/
structure Collector (N : Type) [LinearOrder N] where
  scope : StaticScope N
  genericParameters : List N

namespace Collector

local instance lawfulParameter : LawfulBEq N := inferInstance

/-- A name that is not resolved is no reference. -/
def path (collector : Collector N) (path : NamePath N) (position : StaticPosition) :
    List (StaticReference N) :=
  if path.qualifier = [] ∧ path.leaf ∈ collector.genericParameters then []
  else
    match resolveStaticPath collector.scope.resolver collector.scope.owner path with
    | .ok target => if position.admits target then [⟨path, target⟩] else []
    | .error _ => []

def dimExpr (collector : Collector N) (expr : DimExpr N) : List (StaticReference N) :=
  (expr.terms.filterMap fun term => term.name.asPath).flatMap (collector.path · .dimension)

def indexExpr (collector : Collector N) : IndexExpr N → List (StaticReference N)
  | .name path => collector.path path .index
  | .finite | .bareNat => []

mutual

def ambiguousGenericArg (collector : Collector N) :
    AmbiguousGenericArg N → List (StaticReference N)
  | .name name => collector.path ⟨[], name⟩ .any
  | .mul operands => collector.ambiguousGenericArgs operands

def ambiguousGenericArgs (collector : Collector N) :
    List (AmbiguousGenericArg N) → List (StaticReference N)
  | [] => []
  | operand :: operands =>
    collector.ambiguousGenericArg operand ++ collector.ambiguousGenericArgs operands

end

mutual

def typeExpr (collector : Collector N) : TypeExpr N → List (StaticReference N)
  | .mk kind indexes => collector.typeExprKind kind ++ indexes.flatMap collector.indexExpr

def typeExprKind (collector : Collector N) : TypeExprKind N → List (StaticReference N)
  | .dimExpr ⟨[⟨_, name, none⟩]⟩ =>
    match name.asPath with
    | some path => collector.path path .typeOrDimension
    | none => []
  | .dimExpr expr => collector.dimExpr expr
  | .typeApplication name genericArgs =>
    collector.path name .type ++ collector.genericArgs genericArgs
  | .complexApplication genericArgs | .keyApplication genericArgs =>
    collector.genericArgs genericArgs
  | .datetimeApplication typeArgs => collector.typeExprs typeArgs
  | .indexLabel | .dimensionless | .bool | .int | .datetime => []

def genericArg (collector : Collector N) : GenericArg N → List (StaticReference N)
  | .type typeExpr => collector.typeExpr typeExpr
  | .index index => collector.indexExpr index
  | .nat => []
  | .ambiguous argument => collector.ambiguousGenericArg argument

def genericArgs (collector : Collector N) : List (GenericArg N) → List (StaticReference N)
  | [] => []
  | argument :: arguments => collector.genericArg argument ++ collector.genericArgs arguments

def typeExprs (collector : Collector N) : List (TypeExpr N) → List (StaticReference N)
  | [] => []
  | argument :: arguments => collector.typeExpr argument ++ collector.typeExprs arguments

end

mutual

def declaration (collector : Collector N) : DeclKind N → List (StaticReference N)
  | .param _ typeAnn | .node _ typeAnn | .constNode _ typeAnn => collector.typeExpr typeAnn
  | .unit _ dimType => collector.dimExpr dimType
  | .dimension _ _ definition =>
    match definition with
    | some definition => collector.dimExpr definition
    | none => []
  | .type _ _ genericParams body =>
    let collector := { collector with genericParameters := genericParams.map GenericParam.name }
    (match body with
      | .constructors members =>
        members.flatMap fun member => (member.payload.getD []).flatMap collector.typeExpr
      | .required => []) ++
      (genericParams.filterMap (·.default)).flatMap collector.genericArg
  | .index _ _ (.requiredCoordinate dimension) => collector.dimExpr dimension
  | .index .. => []
  | .dag name body =>
    -- the body resolves in its own module
    declarations ⟨⟨collector.scope.owner.inlineDagChild name, collector.scope.resolver⟩, []⟩ body
  | .baseDimension _ | .assert _ | .plot _ | .figure _ | .layer _ | .importDecl
  | .pluginImport | .includeDecl => []

def declarations (collector : Collector N) : List (DeclKind N) → List (StaticReference N)
  | [] => []
  | decl :: decls => collector.declaration decl ++ collector.declarations decls

end

end Collector

/-- The references of a signature, in source order. -/
def declarationStaticReferences (decl : DeclKind N) (scope : StaticScope N) :
    List (StaticReference N) :=
  Collector.declaration ⟨scope, []⟩ decl

structure StaticDeclarationKey (N : Type) where
  kind : StaticInputKind
  name : N
  deriving DecidableEq

structure RequiredStaticDependency (N : Type) where
  kind : StaticInputKind
  name : N
  deriving DecidableEq

structure ModuleDeclarations (N : Type) [LinearOrder N] where
  declarations : List (DeclKind N)
  scope : StaticScope N

def declarationNameInNamespace (decl : DeclKind N) (name : N) (ns : ImportItemNamespace) : Bool :=
  decl.introducedNames.any fun introduced =>
    introduced.1.namespaceOf = ns && introduced.2 = name

omit [LinearOrder N] in
def staticDeclaration (decl : DeclKind N) : Option (StaticDeclarationKey N × StaticRole) := do
  let interface ← staticInterface decl
  let introduced ← decl.declaredName
  return (⟨interface.kind, introduced.2⟩, interface.role)

/-- The value of a key in a map that is built in this order: a later entry replaces an earlier. -/
def collected {V : Type} (entries : List (StaticDeclarationKey N × V))
    (key : StaticDeclarationKey N) : Option V :=
  entries.reverse.lookup key

namespace ModuleDeclarations

variable (module : ModuleDeclarations N)

def interfaces : List (StaticDeclarationKey N × StaticRole) :=
  module.declarations.filterMap staticDeclaration

def declarationByKey : List (StaticDeclarationKey N × DeclKind N) :=
  module.declarations.filterMap fun decl =>
    (staticDeclaration decl).map fun entry => (entry.1, decl)

/-- The declaration of this module that a reference names; other modules are outside. -/
def localCandidate (reference : StaticReference N) : Option (StaticDeclarationKey N) :=
  if reference.target.owner = module.scope.owner then
    let candidate : StaticDeclarationKey N := ⟨reference.kind, reference.target.atom⟩
    if (collected module.interfaces candidate).isSome then some candidate else none
  else none

/-- Visit references in order, with a visit of a declaration's own references. -/
def visitEach (visit : List (StaticReference N) → List (StaticDeclarationKey N) →
      Option (Option (RequiredStaticDependency N) × List (StaticDeclarationKey N))) :
    List (StaticReference N) → List (StaticDeclarationKey N) →
      Option (Option (RequiredStaticDependency N) × List (StaticDeclarationKey N))
  | [], visited => some (none, visited)
  | reference :: references, visited =>
    match module.localCandidate reference with
    | none => visitEach visit references visited
    | some candidate =>
      if candidate ∈ visited then visitEach visit references visited
      else
        match collected module.interfaces candidate with
        | none => none
        | some role =>
          if role = .requiredInput then
            some (some ⟨candidate.kind, candidate.name⟩, candidate :: visited)
          else
            match collected module.declarationByKey candidate with
            | none => visitEach visit references (candidate :: visited)
            | some decl =>
              match visit (declarationStaticReferences decl module.scope)
                (candidate :: visited) with
              | none => none
              | some (some required, visited) => some (some required, visited)
              | some (none, visited) => visitEach visit references visited

/-- The depth of the recursion is bounded by the fuel. -/
def visitReferences : ℕ → List (StaticReference N) → List (StaticDeclarationKey N) →
    Option (Option (RequiredStaticDependency N) × List (StaticDeclarationKey N))
  | 0 => module.visitEach fun _ _ => none
  | fuel + 1 => module.visitEach (visitReferences fuel)

def selected (name : N) (ns : ImportItemNamespace) : Option (DeclKind N) :=
  module.declarations.find? fun decl => declarationNameInNamespace decl name ns

/-- The outer result is missing only if the search did not end. -/
def firstRequiredStaticDependency (name : N) (ns : ImportItemNamespace) :
    Option (Option (RequiredStaticDependency N)) :=
  match module.selected name ns with
  | none => some none
  | some selected =>
    (module.visitReferences (module.declarations.length + 1)
      (declarationStaticReferences selected module.scope) []).map Prod.fst

end ModuleDeclarations

/-!
# The search for required Static inputs

The search over references is a search for a goal among the keys of the module's declarations.
-/

open Resolve GoalSearch

variable {N : Type} [LinearOrder N]
variable {result : Bool × List (StaticDeclarationKey N)} {decl : DeclKind N}
variable {visited : List (StaticDeclarationKey N)} {references : List (StaticReference N)}
variable {key : StaticDeclarationKey N} {role : StaticRole} {fuel : ℕ}

namespace ModuleDeclarations

variable (module : ModuleDeclarations N)

/-- The last declaration of a key. -/
def lastDeclaration (key : StaticDeclarationKey N) : Option (DeclKind N) :=
  module.declarations.reverse.find? fun decl => (staticDeclaration decl).map Prod.fst = some key

/-- A key has a declaration in the module, with its role. -/
def Declares (key : StaticDeclarationKey N) (role : StaticRole) (decl : DeclKind N) : Prop :=
  module.lastDeclaration key = some decl ∧ staticDeclaration decl = some (key, role)

theorem lookup_filterMap {α V : Type} (entry : α → Option (StaticDeclarationKey N × V))
    (items : List α) (key : StaticDeclarationKey N) :
    (items.filterMap entry).lookup key =
      (items.find? fun item => (entry item).map Prod.fst = some key).bind fun item =>
        (entry item).map Prod.snd := by
  induction items with
  | nil => rfl
  | cons item items ih =>
    cases hentry : entry item with
    | none =>
      rw [List.filterMap_cons_none hentry, ih, List.find?_cons_of_neg (by simp [hentry])]
    | some e =>
      obtain ⟨key', v⟩ := e
      rw [List.filterMap_cons_some hentry]
      by_cases hkey : key' = key
      · subst hkey
        rw [List.lookup_cons_self, List.find?_cons_of_pos (by simp [hentry]), Option.bind_some,
          hentry]
        rfl
      · rw [List.lookup_cons, List.find?_cons_of_neg (by simpa [hentry] using hkey), ih,
          show (key == key') = false from beq_eq_false_iff_ne.mpr (Ne.symm hkey)]

theorem lastDeclaration_entry (h : module.lastDeclaration key = some decl) :
    ∃ role, staticDeclaration decl = some (key, role) := by
  have hkey := List.find?_some h
  rw [decide_eq_true_eq, Option.map_eq_some_iff] at hkey
  obtain ⟨⟨_, role⟩, hentry, rfl⟩ := hkey
  exact ⟨role, hentry⟩

/-- The map of interfaces has the role of the declaration of a key. -/
theorem collected_interfaces :
    collected module.interfaces key = some role ↔ ∃ decl, module.Declares key role decl := by
  rw [collected, interfaces, ← List.filterMap_reverse, lookup_filterMap, Option.bind_eq_some_iff]
  refine exists_congr fun decl => and_congr_right fun hdecl => ?_
  obtain ⟨role', hentry⟩ := module.lastDeclaration_entry hdecl
  rw [hentry, Option.map_some, Option.some.injEq, Option.some.injEq, Prod.mk.injEq]
  exact (and_iff_right rfl).symm

theorem collected_declarationByKey (h : module.Declares key role decl) :
    collected module.declarationByKey key = some decl := by
  have hfind : (module.declarations.reverse.find? fun decl =>
      ((staticDeclaration decl).map fun entry => (entry.1, decl)).map Prod.fst = some key) =
      module.lastDeclaration key := by
    congr 1
    funext decl
    rw [Option.map_map]
    rfl
  rw [collected, declarationByKey, ← List.filterMap_reverse, lookup_filterMap, hfind,
    Option.bind_eq_some_iff]
  exact ⟨decl, h.1, by rw [h.2]; rfl⟩

/-- The key of the declaration that a reference names, if it is of this module. -/
def Names (reference : StaticReference N) (key : StaticDeclarationKey N) : Prop :=
  reference.target.owner = module.scope.owner ∧ key = ⟨reference.kind, reference.target.atom⟩

/-- A required input is reached from the references of a declaration. -/
inductive RequiredFrom : DeclKind N → RequiredStaticDependency N → Prop
  | here {decl decl' : DeclKind N} {reference : StaticReference N} {key : StaticDeclarationKey N} :
    reference ∈ declarationStaticReferences decl module.scope → module.Names reference key →
      module.Declares key .requiredInput decl' → RequiredFrom decl ⟨key.kind, key.name⟩
  | through {decl decl' : DeclKind N} {reference : StaticReference N}
      {key : StaticDeclarationKey N} {role : StaticRole} {required : RequiredStaticDependency N} :
    reference ∈ declarationStaticReferences decl module.scope → module.Names reference key →
      module.Declares key role decl' → RequiredFrom decl' required → RequiredFrom decl required

/-! ## The search among keys -/

def isRequired (key : StaticDeclarationKey N) : Bool :=
  collected module.interfaces key = some .requiredInput

/-- The keys that the references of a declaration name. -/
def candidates (decl : DeclKind N) : List (StaticDeclarationKey N) :=
  (declarationStaticReferences decl module.scope).filterMap module.localCandidate

def nextKeys (key : StaticDeclarationKey N) : List (StaticDeclarationKey N) :=
  ((collected module.declarationByKey key).map module.candidates).getD []

theorem nextKeys_of_declares (h : module.Declares key role decl) :
    module.nextKeys key = module.candidates decl := by
  rw [nextKeys, module.collected_declarationByKey h]
  rfl

theorem localCandidate_eq_some {reference : StaticReference N} :
    module.localCandidate reference = some key ↔
      module.Names reference key ∧ ∃ role decl, module.Declares key role decl := by
  have hdeclared : (collected module.interfaces key).isSome = true ↔
      ∃ role decl, module.Declares key role decl := by
    rw [Option.isSome_iff_exists]
    exact exists_congr fun role => module.collected_interfaces
  rw [← hdeclared, localCandidate, Names]
  dsimp only
  split_ifs with howner hsome
  · rw [Option.some.injEq]
    constructor
    · rintro rfl
      exact ⟨⟨howner, rfl⟩, hsome⟩
    · rintro ⟨⟨_, rfl⟩, _⟩
      rfl
  · refine ⟨nofun, fun ⟨⟨_, hkey⟩, h⟩ => ?_⟩
    rw [hkey] at h
    exact absurd h hsome
  · exact ⟨nofun, fun ⟨⟨h, _⟩, _⟩ => absurd h howner⟩

/-- A search among keys, as the search over references returns it. -/
def outcome (result : Bool × List (StaticDeclarationKey N)) :
    Option (RequiredStaticDependency N) × List (StaticDeclarationKey N) :=
  (if result.1 then result.2.head?.map fun key => ⟨key.kind, key.name⟩ else none, result.2)

/-- A search over references whose visits follow those of the keys follows the search. -/
theorem visitEach_eq_outcome {visit : List (StaticReference N) → List (StaticDeclarationKey N) →
      Option (Option (RequiredStaticDependency N) × List (StaticDeclarationKey N))}
    (hvisit : ∀ references visited result,
      anyVisit (GoalSearch.visit (fun _ => true) module.isRequired module.nextKeys fuel)
        (references.filterMap module.localCandidate) visited = some result →
      visit references visited = some (outcome result)) (h : anyVisit
        (GoalSearch.visit (fun _ => true) module.isRequired module.nextKeys (fuel + 1))
        (references.filterMap module.localCandidate) visited = some result) :
    module.visitEach visit references visited = some (outcome result) := by
  induction references generalizing visited with
  | nil =>
    cases h
    rfl
  | cons reference references ih =>
    rw [visitEach]
    cases hcandidate : module.localCandidate reference with
    | none =>
      rw [List.filterMap_cons_none hcandidate] at h
      exact ih h
    | some candidate =>
      rw [List.filterMap_cons_some hcandidate, anyVisit, GoalSearch.visit] at h
      dsimp only
      by_cases hseen : candidate ∈ visited
      · rw [if_pos hseen] at h ⊢
        exact ih (by simpa using h)
      · obtain ⟨_, role, decl, hdeclares⟩ := module.localCandidate_eq_some.mp hcandidate
        have hrole := module.collected_interfaces.mpr ⟨decl, hdeclares⟩
        have hdecl := module.collected_declarationByKey hdeclares
        have hnext := module.nextKeys_of_declares hdeclares
        rw [if_neg hseen] at h ⊢
        rw [hrole, hdecl]
        dsimp only
        by_cases hrequired : role = .requiredInput
        · have hgoal : module.isRequired candidate = true :=
            decide_eq_true (hrole.trans (congrArg some hrequired))
          rw [hgoal] at h
          rw [if_pos hrequired]
          cases h
          rfl
        · have hgoal : module.isRequired candidate = false :=
            decide_eq_false fun h => hrequired (Option.some.inj (hrole.symm.trans h))
          rw [hgoal, hnext] at h
          rw [if_neg hrequired]
          cases hfirst : anyVisit (GoalSearch.visit (fun _ => true) module.isRequired
            module.nextKeys fuel) (module.candidates decl) (candidate :: visited) with
          | none => simp [hfirst] at h
          | some first =>
            obtain ⟨success, seen⟩ := first
            rw [hvisit _ _ _ hfirst]
            cases success with
            | false => exact ih (by simpa [hfirst] using h)
            | true =>
              -- the goal that was seen last is the input that is returned
              obtain ⟨_, _, goal, rest, rfl, _⟩ :=
                anyVisit_findsLast (fun _ _ _ => visit_findsLast) hfirst
              have hresult : (true, goal :: rest) = result := by simpa [hfirst] using h
              rw [← hresult]
              rfl

theorem visitEach_of_no_candidate
    (visit : List (StaticReference N) → List (StaticDeclarationKey N) →
      Option (Option (RequiredStaticDependency N) × List (StaticDeclarationKey N)))
    (visited : List (StaticDeclarationKey N))
    (h : references.filterMap module.localCandidate = []) :
    module.visitEach visit references visited = some (none, visited) := by
  induction references with
  | nil => rfl
  | cons reference references ih =>
    have hnone : module.localCandidate reference = none :=
      List.filterMap_eq_nil_iff.mp h reference List.mem_cons_self
    rw [List.filterMap_cons_none hnone] at h
    rw [visitEach, hnone]
    exact ih h

theorem visitReferences_eq_outcome
    (h : anyVisit (GoalSearch.visit (fun _ => true) module.isRequired module.nextKeys fuel)
      (references.filterMap module.localCandidate) visited = some result) :
    module.visitReferences fuel references visited = some (outcome result) := by
  induction fuel generalizing references visited result with
  | zero =>
    -- without fuel, the search among keys ends only if there is none
    match hkeys : references.filterMap module.localCandidate, h with
    | [], h =>
      cases h
      exact module.visitEach_of_no_candidate _ visited hkeys
  | succ fuel ih =>
    exact module.visitEach_eq_outcome (fun _ _ _ => ih) h

theorem mem_candidates :
    key ∈ module.candidates decl ↔
      ∃ reference ∈ declarationStaticReferences decl module.scope, module.Names reference key ∧
        ∃ role decl', module.Declares key role decl' := by
  rw [candidates, List.mem_filterMap]
  exact exists_congr fun reference => and_congr_right fun _ => module.localCandidate_eq_some

theorem requiredFrom_of_reaches {goal : StaticDeclarationKey N}
    (hgoal : module.isRequired goal = true) (hkey : key ∈ module.candidates decl)
    (h : Reaches (fun _ => true) (fun b => decide (b = goal)) module.nextKeys key) :
    module.RequiredFrom decl ⟨goal.kind, goal.name⟩ := by
  induction h generalizing decl with
  | here _ heq =>
    obtain rfl := of_decide_eq_true heq
    obtain ⟨reference, hreference, hnames, _⟩ := module.mem_candidates.mp hkey
    obtain ⟨decl', hdeclares⟩ := module.collected_interfaces.mp (of_decide_eq_true hgoal)
    exact .here hreference hnames hdeclares
  | step _ hnext _ ih =>
    obtain ⟨reference, hreference, hnames, role, decl', hdeclares⟩ := module.mem_candidates.mp hkey
    rw [module.nextKeys_of_declares hdeclares] at hnext
    exact .through hreference hnames hdeclares (ih hnext)

theorem reaches_of_requiredFrom {required : RequiredStaticDependency N}
    (h : module.RequiredFrom decl required) :
    ∃ key ∈ module.candidates decl,
      Reaches (fun _ => true) module.isRequired module.nextKeys key := by
  induction h with
  | @here decl decl' reference key hreference hnames hdeclares =>
    have hgoal : module.isRequired key = true :=
      decide_eq_true (module.collected_interfaces.mpr ⟨_, hdeclares⟩)
    exact ⟨key, module.mem_candidates.mpr ⟨reference, hreference, hnames, _, _, hdeclares⟩,
      .here rfl hgoal⟩
  | @through decl decl' reference key role required hreference hnames hdeclares _ ih =>
    obtain ⟨next, hnext, hreaches⟩ := ih
    rw [← module.nextKeys_of_declares hdeclares] at hnext
    exact ⟨key, module.mem_candidates.mpr ⟨reference, hreference, hnames, _, _, hdeclares⟩,
      .step rfl hnext hreaches⟩

def keys : List (StaticDeclarationKey N) := module.interfaces.map Prod.fst

theorem length_keys_le : module.keys.length ≤ module.declarations.length := by
  rw [keys, List.length_map]
  exact List.length_filterMap_le _ _

theorem mem_keys_of_candidate (h : key ∈ module.candidates decl) : key ∈ module.keys := by
  obtain ⟨_, _, _, role, decl', hfound, hentry⟩ := module.mem_candidates.mp h
  have hmem := List.mem_reverse.mp (List.mem_of_find?_eq_some hfound)
  exact List.mem_map.mpr ⟨(key, role), List.mem_filterMap.mpr ⟨decl', hmem, hentry⟩, rfl⟩

theorem mem_keys_of_next {next : StaticDeclarationKey N} (h : next ∈ module.nextKeys key) :
    next ∈ module.keys := by
  rw [nextKeys] at h
  match hdecl : collected module.declarationByKey key, h with
  | some decl, h => exact module.mem_keys_of_candidate h

/-- The search from the selected declaration ends, and returns a required input that is reached if
there is one. -/
theorem firstRequiredStaticDependency_spec (name : N) (ns : ImportItemNamespace) :
    ∃ found, module.firstRequiredStaticDependency name ns = some found ∧
      (found.isSome = true ↔ ∃ selected ∈ module.selected name ns,
        ∃ required, module.RequiredFrom selected required) ∧
      ∀ required ∈ found, ∃ selected ∈ module.selected name ns,
        module.RequiredFrom selected required := by
  rw [firstRequiredStaticDependency]
  cases module.selected name ns with
  | none => exact ⟨none, rfl, by simp, by simp⟩
  | some selected =>
    have hweight : unseen module.keys [] ≤ module.declarations.length := by
      rw [unseen, openWeight]
      have := module.length_keys_le
      simpa using this
    have hsome : (anyVisit (GoalSearch.visit (fun _ => true) module.isRequired module.nextKeys
        (module.declarations.length + 1)) (module.candidates selected) []).isSome = true := by
      refine anyVisit_isSome (fun _ _ _ => visit_subset) (fun key hkey seen hseen => ?_) hweight
      exact visit_isSome (fun _ _ next hnext _ => module.mem_keys_of_next hnext)
        (fun _ => module.mem_keys_of_candidate hkey) (by omega)
    obtain ⟨result, hresult⟩ := Option.isSome_iff_exists.mp hsome
    have hspec := anyVisit_spec (fun _ _ _ => visit_spec) hresult
    have hfound := module.visitReferences_eq_outcome hresult
    refine ⟨(outcome result).1, congrArg (Option.map Prod.fst) hfound, ?_⟩
    obtain ⟨success, seen⟩ := result
    cases success with
    | true =>
      obtain ⟨key, hkey, goal, rest, rfl, hgoal, hreaches⟩ :=
        anyVisit_findsLast (fun _ _ _ => visit_findsLast) hresult
      have hrequired := module.requiredFrom_of_reaches hgoal hkey hreaches
      refine ⟨⟨fun _ => ⟨selected, rfl, _, hrequired⟩, fun _ => rfl⟩, fun required h => ?_⟩
      cases h
      exact ⟨selected, rfl, hrequired⟩
    | false =>
      refine ⟨⟨fun h => absurd h Bool.false_ne_true, ?_⟩, fun required h => by cases h⟩
      rintro ⟨_, hselected, required, hrequired⟩
      obtain rfl := Option.mem_some.mp hselected
      obtain ⟨key, hkey, hreaches⟩ := module.reaches_of_requiredFrom hrequired
      obtain ⟨hclosed, hvisited⟩ := hspec.2 rfl
      exact absurd hreaches (hclosed.not_reaches (hvisited key hkey rfl))

end ModuleDeclarations

end ProvenGraphcal.Static
