import ProvenGraphcal.Instance.Record
import ProvenGraphcal.Syntax.Span

/-!
# Loaded files and the inline DAGs in them

`N` are spellings, `A` instance scopes, `I` what an import item carries besides its visibility, `P`
the parameter bindings of an include and `O` the declarations that are no DAG, import or include.
-/

namespace ProvenGraphcal

deriving instance DecidableEq for DagId

inductive Visibility
  | priv
  | pub
  deriving DecidableEq

def Visibility.isPublic : Visibility → Bool
  | .pub => true
  | .priv => false

structure Ident (N : Type) where
  name : N
  span : Span

/-- A dot-separated module path. -/
structure ModulePath (N : Type) where
  segments : NonEmpty (Ident N)
  span : Span

variable {N A I P O : Type}

/-- The spelling of a path, without its positions in the source. -/
def ModulePath.key (path : ModulePath N) : List N := path.segments.items.map (·.name)

def ModulePath.leaf (path : ModulePath N) : Ident N :=
  path.segments.items.getLast path.segments.nonempty

structure ImportItem (N I : Type) where
  visibility : Visibility
  name : Ident N
  selection : I

/-- What an include introduces: selected items, or the alias of the instance. -/
inductive ImportKind (N I : Type)
  | selective (items : List (ImportItem N I))
  | module (alias? : Option N)

inductive ImportDecl (N I : Type)
  | module (visibility : Visibility) (path : ModulePath N) (alias? : Option N)
  | selective (path : ModulePath N) (items : List (ImportItem N I))

def ImportDecl.path : ImportDecl N I → ModulePath N
  | .module _ path _ => path
  | .selective path _ => path

structure IncludeDecl (N I P : Type) where
  path : ModulePath N
  paramBindings : List P
  kind : ImportKind N I

/-- The scope of an include instance: its alias, or the place of an include without one. -/
inductive ScopeSegment (N : Type)
  | named (name : N)
  | includeInstance (offset : ℕ)
  deriving DecidableEq

def IncludeDecl.instanceScope (decl : IncludeDecl N I P) : ScopeSegment N :=
  match decl.kind with
  | .module alias? => .named (alias?.getD decl.path.leaf.name)
  | .selective _ => .includeInstance decl.path.span.offset

inductive Declaration (N I P O : Type)
  | dagDecl (visibility : Visibility) (name : N) (body : List (Declaration N I P O))
  | importDecl (decl : ImportDecl N I)
  | includeDecl (decl : IncludeDecl N I P)
  | otherDecl (decl : O)

structure DagDecl (N I P O : Type) where
  visibility : Visibility
  name : N
  body : List (Declaration N I P O)

def dagDeclAt (declarations : List (Declaration N I P O)) (index : ℕ) : Option (DagDecl N I P O) :=
  match declarations[index]? with
  | some (.dagDecl visibility name body) => some ⟨visibility, name, body⟩
  | _ => none

/-- The path from a file's root to one nested DAG body, as indices of declarations. -/
structure DagBodyLocator where
  first : ℕ
  rest : List ℕ

def DagBodyLocator.declaration (locator : DagBodyLocator)
    (ast : List (Declaration N I P O)) : Option (DagDecl N I P O) :=
  (dagDeclAt ast locator.first).bind fun dag =>
    locator.rest.foldlM (fun dag index => dagDeclAt dag.body index) dag

/-- The DAGs that a path of indices opens, the outermost first. -/
def dagsAlong : List (Declaration N I P O) → List ℕ → Option (List (DagDecl N I P O))
  | _, [] => some []
  | declarations, index :: rest =>
    (dagDeclAt declarations index).bind fun dag => (dagsAlong dag.body rest).map (dag :: ·)

def DagBodyLocator.dags (locator : DagBodyLocator) (ast : List (Declaration N I P O)) :
    Option (List (DagDecl N I P O)) :=
  dagsAlong ast (locator.first :: locator.rest)

theorem foldlM_dagDeclAt (dag : DagDecl N I P O) (rest : List ℕ) :
    rest.foldlM (fun dag index => dagDeclAt dag.body index) dag =
      (dagsAlong dag.body rest).map fun dags => (dag :: dags).getLast (List.cons_ne_nil _ _) := by
  induction rest generalizing dag with
  | nil => rfl
  | cons index rest ih =>
    rw [List.foldlM_cons, dagsAlong]
    cases dagDeclAt dag.body index with
    | none => rfl
    | some child =>
      have h := ih child
      simp only [Option.bind_some, Option.map_map, Option.bind_eq_bind] at h ⊢
      congr

/-- A locator addresses the last of the DAGs it opens. -/
theorem DagBodyLocator.declaration_eq_getLast? (locator : DagBodyLocator)
    {ast : List (Declaration N I P O)} {dags : List (DagDecl N I P O)}
    (h : locator.dags ast = some dags) : locator.declaration ast = dags.getLast? := by
  rw [DagBodyLocator.dags, dagsAlong, Option.bind_eq_some_iff] at h
  obtain ⟨dag, hdag, h⟩ := h
  obtain ⟨inner, hinner, rfl⟩ := Option.map_eq_some_iff.mp h
  rw [declaration, hdag, Option.bind_some, foldlM_dagDeclAt, hinner, List.getLast?_eq_some_getLast]
  rfl

/-- The position of a loaded module: its file, and the inline DAG unless it is the file's root. -/
structure LoadedModuleId where
  file : ℕ
  inline : Option ℕ

/-- The module that a path names: its file, its own identity and its position. -/
structure ResolvedModuleTarget (N A : Type) where
  sourceFile : DagId N A
  target : DagId N A
  module : LoadedModuleId

/-- An inline DAG, and the targets of the imports and includes in its body. -/
structure LoadedDag (N A : Type) where
  dagId : DagId N A
  parentDagId : DagId N A
  bodyLocator : DagBodyLocator
  resolvedImports : List (List N × ResolvedModuleTarget N A)

/-- A file; its inline DAGs are where their locators say. -/
structure LoadedFile (N A I P O : Type) where
  dagId : DagId N A
  sourceId : ℕ
  ast : List (Declaration N I P O)
  resolvedImports : List (List N × ResolvedModuleTarget N A)
  inlineDags : List (LoadedDag N A)
  owned : ∀ dag ∈ inlineDags, dag.parentDagId = dagId
  located : ∀ dag ∈ inlineDags, (dag.bodyLocator.dags ast).isSome

def LoadedDag.declaration (dag : LoadedDag N A) (file : LoadedFile N A I P O) :
    Option (DagDecl N I P O) :=
  dag.bodyLocator.declaration file.ast

def LoadedDag.body (dag : LoadedDag N A) (file : LoadedFile N A I P O) :
    List (Declaration N I P O) :=
  ((dag.declaration file).map (·.body)).getD []

/-- The `dag` declarations from the file's root down to this one. -/
def LoadedDag.dags (dag : LoadedDag N A) (file : LoadedFile N A I P O) : List (DagDecl N I P O) :=
  (dag.bodyLocator.dags file.ast).getD []

inductive LoadedModule (N A I P O : Type)
  | fileRoot (file : LoadedFile N A I P O)
  | inlineDag (file : LoadedFile N A I P O) (dag : LoadedDag N A)

namespace LoadedModule

def file : LoadedModule N A I P O → LoadedFile N A I P O
  | fileRoot file => file
  | inlineDag file _ => file

def dagId : LoadedModule N A I P O → DagId N A
  | fileRoot file => file.dagId
  | inlineDag _ dag => dag.dagId

def declarations : LoadedModule N A I P O → List (Declaration N I P O)
  | fileRoot file => file.ast
  | inlineDag file dag => dag.body file

def resolvedImports : LoadedModule N A I P O → List (List N × ResolvedModuleTarget N A)
  | fileRoot file => file.resolvedImports
  | inlineDag _ dag => dag.resolvedImports

/-- The target recorded for a module path, by its spelling. -/
def target? [BEq N] (module : LoadedModule N A I P O) (path : ModulePath N) :
    Option (ResolvedModuleTarget N A) :=
  module.resolvedImports.lookup path.key

/-- The module's imports that have a target. -/
def importsWithTargets [BEq N] (module : LoadedModule N A I P O) :
    List (ImportDecl N I × ResolvedModuleTarget N A) :=
  module.declarations.filterMap fun
    | .importDecl decl => (module.target? decl.path).map fun target => (decl, target)
    | _ => none

/-- The module's includes that have a target. -/
def includesWithTargets [BEq N] (module : LoadedModule N A I P O) :
    List (IncludeDecl N I P × ResolvedModuleTarget N A) :=
  module.declarations.filterMap fun
    | .includeDecl decl => (module.target? decl.path).map fun target => (decl, target)
    | _ => none

end LoadedModule

/-! ## Projects -/

def moduleAt (files : List (LoadedFile N A I P O)) (id : LoadedModuleId) :
    Option (LoadedModule N A I P O) :=
  files[id.file]?.bind fun file =>
    match id.inline with
    | none => some (.fileRoot file)
    | some index => file.inlineDags[index]?.map (.inlineDag file)

/-- The modules of a project: the root and the inline DAGs of every file. -/
def modulesOf (files : List (LoadedFile N A I P O)) : List (LoadedModule N A I P O) :=
  files.flatMap fun file => .fileRoot file :: file.inlineDags.map (.inlineDag file)

/-- The files of a project, read under a root directory unless it is a single buffer; every target
names a module of the file it says. -/
structure LoadedProject (N A I P O : Type) where
  hasRoot : Bool
  files : List (LoadedFile N A I P O)
  placed : ∀ module ∈ modulesOf files, ∀ entry ∈ module.resolvedImports,
    ∃ target, moduleAt files entry.2.module = some target ∧
      target.dagId = entry.2.target ∧ target.file.dagId = entry.2.sourceFile

def LoadedProject.targetModule (project : LoadedProject N A I P O)
    (target : ResolvedModuleTarget N A) : Option (LoadedModule N A I P O) :=
  moduleAt project.files target.module

variable {module : LoadedModule N A I P O} {target : ResolvedModuleTarget N A}

theorem LoadedModule.mem_of_target? [BEq N] [LawfulBEq N] {path : ModulePath N}
    (h : module.target? path = some target) : (path.key, target) ∈ module.resolvedImports := by
  obtain ⟨before, after, heq, -⟩ := List.lookup_eq_some_iff.mp h
  rw [heq]
  exact List.mem_append_right _ List.mem_cons_self

variable {decl : IncludeDecl N I P}

theorem LoadedModule.mem_includesWithTargets [BEq N] [LawfulBEq N]
    (h : (decl, target) ∈ module.includesWithTargets) :
    (decl.path.key, target) ∈ module.resolvedImports := by
  obtain ⟨declaration, -, hdecl⟩ := List.mem_filterMap.mp h
  cases declaration with
  | includeDecl decl' =>
    obtain ⟨target', htarget, heq⟩ := Option.map_eq_some_iff.mp hdecl
    cases heq
    exact mem_of_target? htarget
  | _ => cases hdecl

/-- The module that an include names lies in the file its target says. -/
theorem LoadedProject.exists_targetModule [BEq N] [LawfulBEq N] (project : LoadedProject N A I P O)
    (hmodule : module ∈ modulesOf project.files) (h : (decl, target) ∈ module.includesWithTargets) :
    ∃ named, project.targetModule target = some named ∧ named.dagId = target.target ∧
      named.file.dagId = target.sourceFile :=
  project.placed module hmodule _ (LoadedModule.mem_includesWithTargets h)

end ProvenGraphcal

/-!
# Registration of imports and includes

The scopes under construction are a parameter `S`; how an edge's names enter a scope is theirs.
-/

namespace ProvenGraphcal

inductive DeclSymbolKind
  | dag
  | value
  deriving DecidableEq

structure DeclSymbol where
  kind : DeclSymbolKind
  visibility : Visibility

inductive Access
  | localAccess
  | crossModule

def Access.requiresPublic : Access → Bool
  | .crossModule => true
  | .localAccess => false

inductive ModuleAliasRole
  | importedDag
  | includedInstance

/-- The names an edge introduces, with the visibility its form gives them. -/
inductive ImportTail (N I : Type)
  | module (alias? : Option N) (visibility : Visibility)
  | selective (items : List (ImportItem N I))

variable {N I P O S E : Type}

namespace ImportTail

def ofImport : ImportDecl N I → ImportTail N I
  | .module visibility _ alias? => .module alias? visibility
  | .selective _ items => .selective items

/-- The alias of an include names a private instance. -/
def ofInclude : ImportKind N I → ImportTail N I
  | .module alias? => .module alias? .priv
  | .selective items => .selective items

def requiresVisibleModulePath : ImportTail N I → Bool
  | .selective _ => true
  | .module _ visibility => visibility.isPublic

end ImportTail

abbrev SourceDagId (N : Type) := DagId N (ScopeSegment N)

inductive ModuleResolveError (N E : Type)
  | unknownModule (owner : SourceDagId N)
  | privateName (owner : SourceDagId N) (name : N)
  | other (error : E)

theorem DagId.length_of_parent {A : Type} {child parent : DagId N A}
    (h : child.parent = some parent) :
    parent.segments.items.length < child.segments.items.length := by
  unfold DagId.parent at h
  split_ifs at h with hfile
  obtain ⟨segments, hsegments, rfl⟩ := Option.map_eq_some_iff.mp h
  rw [NonEmpty.tryFromVec_eq_some] at hsegments
  have hpos := List.length_pos_of_ne_nil child.segments.nonempty
  rw [hsegments, List.length_dropLast]
  omega

/-- Every inline DAG from `child` up to its file's root is public, as far as the symbols know. -/
def inlineDagsPublic (symbols : SourceDagId N → Option (N → Option DeclSymbol))
    (child : SourceDagId N) : Except (ModuleResolveError N E) Unit :=
  match child.leaf with
  | .inlineDag name =>
    match _h : child.parent with
    | none => .ok ()
    | some parent =>
      match (symbols parent).bind (· name) with
      | none => .ok ()
      | some symbol =>
        if symbol.kind ≠ .dag then .ok ()
        else if ¬ symbol.visibility.isPublic then .error (.privateName parent name)
        else inlineDagsPublic symbols parent
  | _ => .ok ()
termination_by child.segments.items.length
decreasing_by exact DagId.length_of_parent _h

def ensureModulePathVisible (symbols : SourceDagId N → Option (N → Option DeclSymbol))
    (target : SourceDagId N) (access : Access) : Except (ModuleResolveError N E) Unit :=
  if ¬ access.requiresPublic then .ok () else inlineDagsPublic symbols target

/-- The scopes of the modules: their symbols, and how edges and projections change them. -/
structure ModuleScopes (N I P S E : Type) where
  symbols : S → SourceDagId N → Option (N → Option DeclSymbol)
  addImports : SourceDagId N → ModulePath N → ImportTail N I → SourceDagId N → Access →
    ModuleAliasRole → S → Except E S
  inheritScope : SourceDagId N → SourceDagId N → S → Except E S
  applyIncludeStaticProjectionBindings : SourceDagId N → SourceDagId N → IncludeDecl N I P → S →
    Except E S

namespace ModuleScopes

variable (scopes : ModuleScopes N I P S E)

def moduleSymbols (s : S) (owner : SourceDagId N) :
    Except (ModuleResolveError N E) (N → Option DeclSymbol) :=
  match scopes.symbols s owner with
  | some symbols => .ok symbols
  | none => .error (.unknownModule owner)

/-- Selecting items or re-exporting the alias reaches through the target's path. -/
def ensureTailVisible (s : S) (tail : ImportTail N I) (target : SourceDagId N) (access : Access) :
    Except (ModuleResolveError N E) Unit :=
  if tail.requiresVisibleModulePath then ensureModulePathVisible (scopes.symbols s) target access
  else .ok ()

def registerImportWithAccess (owner : SourceDagId N) (path : ModulePath N) (tail : ImportTail N I)
    (target : SourceDagId N) (role : ModuleAliasRole) (s : S) :
    Except (ModuleResolveError N E) S := do
  -- every import or include edge crosses a module boundary
  let _ ← scopes.moduleSymbols s owner
  let _ ← scopes.moduleSymbols s target
  scopes.ensureTailVisible s tail target .crossModule
  (scopes.addImports owner path tail target .crossModule role s).mapError .other

def registerImport (owner : SourceDagId N) (decl : ImportDecl N I) (target : SourceDagId N)
    (s : S) : Except (ModuleResolveError N E) S :=
  scopes.registerImportWithAccess owner decl.path (.ofImport decl) target .importedDag s

def registerInclude (owner : SourceDagId N) (path : ModulePath N) (kind : ImportKind N I)
    (target : SourceDagId N) (s : S) : Except (ModuleResolveError N E) S :=
  scopes.registerImportWithAccess owner path (.ofInclude kind) target .includedInstance s

end ModuleScopes

inductive Edge (N I P : Type)
  | importEdge (decl : ImportDecl N I) (target : SourceDagId N)
  | includeEdge (decl : IncludeDecl N I P) (template : SourceDagId N)

/-- The imports and includes of a module that have a target, in declaration order. -/
def LoadedModule.edges [BEq N] (module : LoadedModule N (ScopeSegment N) I P O) :
    List (Edge N I P) :=
  module.declarations.filterMap fun
    | .importDecl decl => (module.target? decl.path).map fun target => .importEdge decl target.target
    | .includeDecl decl =>
      (module.target? decl.path).map fun target => .includeEdge decl target.target
    | _ => none

namespace ModuleScopes

variable (scopes : ModuleScopes N I P S E)

def registerEdge (owner : SourceDagId N) (s : S) :
    Edge N I P → Except (ModuleResolveError N E) S
  | .importEdge decl target => scopes.registerImport owner decl target s
  | .includeEdge decl template => do
    let inst := owner.instanceChild decl.instanceScope
    let s ← (scopes.inheritScope inst template s).mapError .other
    let s ← scopes.registerInclude owner decl.path decl.kind inst s
    (scopes.applyIncludeStaticProjectionBindings owner template decl s).mapError .other

def completeOwnScope (owner : SourceDagId N) (edges : List (Edge N I P)) (s : S) :
    Except (ModuleResolveError N E) S :=
  edges.foldlM (scopes.registerEdge owner) s

end ModuleScopes

end ProvenGraphcal
