import ProvenGraphcal.Include.ModuleResolver

/-!
# The includes of file roots and of DAG bodies

What an accepted import or include adds to the context `C` is a parameter.
-/

namespace ProvenGraphcal

variable {N I P O S C E : Type}

inductive PipelineError (N E : Type)
  | resolve (error : ModuleResolveError N E)
  | importPrivateItem (source : ℕ) (span : Span) (name : N) (filePath : ModulePath N)
  | includeWithoutTarget (source : ℕ) (span : Span) (path : List N)
  | other (error : E)

abbrev SourceFile (N I P O : Type) := LoadedFile N (ScopeSegment N) I P O

abbrev SourceModule (N I P O : Type) := LoadedModule N (ScopeSegment N) I P O

abbrev SourceProject (N I P O : Type) := LoadedProject N (ScopeSegment N) I P O

abbrev ModuleTarget (N : Type) := ResolvedModuleTarget N (ScopeSegment N)

/-- How the declarations of a module extend its context; cancellation refuses as well. -/
structure Processing (N I P O C E : Type) where
  pureImport : SourceModule N I P O → ModuleTarget N → ImportDecl N I → C → Except E C
  fileInclude : SourceModule N I P O → ModuleTarget N → IncludeDecl N I P → C → Except E C
  inlineDagInclude : SourceModule N I P O → SourceModule N I P O → N → IncludeDecl N I P → C →
    Except E C

/-- The inline DAG that a target names, with its declaration; none for a file root. -/
def LoadedProject.inlineTarget (project : SourceProject N I P O) (target : ModuleTarget N) :
    Option (SourceFile N I P O × LoadedDag N (ScopeSegment N) × DagDecl N I P O) :=
  match project.targetModule target with
  | some (.inlineDag file dag) => (dag.declaration file).map fun decl => (file, dag, decl)
  | _ => none

namespace Processing

variable (processing : Processing N I P O C E) (project : SourceProject N I P O)

def processPureImports [BEq N] (including : SourceModule N I P O)
    (imports : List (ImportDecl N I × ModuleTarget N)) (ctx : C) :
    Except (PipelineError N E) C :=
  imports.foldlM (fun ctx (decl, target) =>
    (processing.pureImport including target decl ctx).mapError .other) ctx

def processFileRootInclude (including : SourceModule N I P O) (ctx : C)
    (site : IncludeDecl N I P × ModuleTarget N) : Except (PipelineError N E) C :=
  match project.inlineTarget site.2 with
  | some _ => .ok ctx
  | none => (processing.fileInclude including site.2 site.1 ctx).mapError .other

/-- The file's first include without a target. -/
def includeWithoutTarget [BEq N] (file : SourceFile N I P O) : Option (ModulePath N) :=
  file.ast.findSome? fun
    | .includeDecl decl =>
      if ((LoadedModule.fileRoot file).target? decl.path).isSome then none else some decl.path
    | _ => none

/-- The step of a file root's last loop: one include of an inline DAG. -/
def includeAtFileRoot [DecidableEq N] (file : SourceFile N I P O) (ctx : C)
    (site : IncludeDecl N I P × ModuleTarget N) : Except (PipelineError N E) C :=
  match project.inlineTarget site.2 with
  | none => .ok ctx
  | some (targetFile, dag, decl) =>
    if ¬ decl.visibility.isPublic ∧ site.2.sourceFile ≠ file.dagId then
      .error (.importPrivateItem file.sourceId site.1.path.leaf.span site.1.path.leaf.name
        site.1.path)
    else
      (processing.inlineDagInclude (.fileRoot file) (.inlineDag targetFile dag) decl.name site.1
        ctx).mapError .other

/-- The pure imports and the includes of whole files. -/
def processFileDependencies [DecidableEq N] (file : SourceFile N I P O) (ctx : C) :
    Except (PipelineError N E) C := do
  let root := LoadedModule.fileRoot file
  let ctx ← processing.processPureImports root root.importsWithTargets ctx
  let ctx ← root.includesWithTargets.foldlM (processing.processFileRootInclude project root) ctx
  match includeWithoutTarget file with
  | some path =>
    if project.hasRoot then .error (.includeWithoutTarget file.sourceId path.span path.key)
    else .ok ctx
  | none => .ok ctx

def processFileBodyDeclarations [DecidableEq N] (file : SourceFile N I P O) (ctx : C) :
    Except (PipelineError N E) C := do
  let ctx ← processing.processFileDependencies project file ctx
  (LoadedModule.fileRoot file).includesWithTargets.foldlM
    (processing.includeAtFileRoot project file) ctx

def processDagBodyImportDeclarations [DecidableEq N] (file : SourceFile N I P O)
    (dag : LoadedDag N (ScopeSegment N)) (ctx : C) : Except (PipelineError N E) C :=
  let body := LoadedModule.inlineDag file dag
  processing.processPureImports body
    (body.importsWithTargets.filter fun site => site.2.target ≠ dag.parentDagId) ctx

/-- The step of the loop over a DAG body: one include of a file or an inline DAG. -/
def includeInDagBody (including : SourceModule N I P O) (ctx : C)
    (site : IncludeDecl N I P × ModuleTarget N) : Except (PipelineError N E) C :=
  match project.inlineTarget site.2 with
  | none => (processing.fileInclude including site.2 site.1 ctx).mapError .other
  | some (targetFile, dag, decl) =>
    (processing.inlineDagInclude including (.inlineDag targetFile dag) decl.name site.1
      ctx).mapError .other

def processDagBodyIncludeDeclarations [DecidableEq N] (file : SourceFile N I P O)
    (dag : LoadedDag N (ScopeSegment N)) (ctx : C) : Except (PipelineError N E) C :=
  let body := LoadedModule.inlineDag file dag
  body.includesWithTargets.foldlM (processing.includeInDagBody project body) ctx

def processDagBody [DecidableEq N] (file : SourceFile N I P O)
    (dag : LoadedDag N (ScopeSegment N)) (ctx : C) : Except (PipelineError N E) C := do
  let ctx ← processing.processDagBodyImportDeclarations file dag ctx
  processing.processDagBodyIncludeDeclarations project file dag ctx

/-! ## A module's edges and declarations -/

def processModule [DecidableEq N] : SourceModule N I P O → C → Except (PipelineError N E) C
  | .fileRoot file, ctx => processing.processFileBodyDeclarations project file ctx
  | .inlineDag file dag, ctx => processing.processDagBody project file dag ctx

/-- The module's scope is completed in the resolver, then its declarations are processed. -/
def acceptModule [DecidableEq N] (scopes : ModuleScopes N I P S E) (module : SourceModule N I P O)
    (s : S) (ctx : C) : Except (PipelineError N E) (S × C) := do
  let s ← (scopes.completeOwnScope module.dagId module.edges s).mapError .resolve
  let ctx ← processing.processModule project module ctx
  return (s, ctx)

end Processing

/-!
# Which inline DAGs an accepted include reaches

A DAG of another file should be reached through public DAGs only. The loop over a file root's
includes looks at the included DAG alone, and the loop over a DAG body's includes looks at none.
-/

namespace LoadedProject

/-- The module includes this inline DAG. -/
def Includes [BEq N] (project : SourceProject N I P O) (module : SourceModule N I P O)
    (file : SourceFile N I P O) (dag : LoadedDag N (ScopeSegment N)) : Prop :=
  ∃ site ∈ module.includesWithTargets, project.targetModule site.2 = some (.inlineDag file dag)

end LoadedProject

namespace LoadedDag

variable (dag : LoadedDag N (ScopeSegment N)) (file : SourceFile N I P O)

/-- Every DAG from the file's root down to this one is public. -/
def PathPublic : Prop := ∀ decl ∈ dag.dags file, decl.visibility.isPublic

/-- Every DAG that encloses this one is public. -/
def EnclosingPublic : Prop := ∀ decl ∈ (dag.dags file).dropLast, decl.visibility.isPublic

/-- The DAG itself is public. -/
def DeclaredPublic : Prop := ∀ decl, dag.declaration file = some decl → decl.visibility.isPublic

variable {dag file}

theorem exists_declaration (h : dag ∈ file.inlineDags) :
    ∃ enclosing decl, dag.dags file = enclosing ++ [decl] ∧ dag.declaration file = some decl := by
  obtain ⟨dags, hdags⟩ := Option.isSome_iff_exists.mp (file.located dag h)
  have hpath : dag.dags file = dags := by rw [LoadedDag.dags, hdags, Option.getD_some]
  have hlast : dag.declaration file = dags.getLast? :=
    dag.bodyLocator.declaration_eq_getLast? hdags
  have hne : dags ≠ [] := by
    rintro rfl
    obtain ⟨decl, -, h⟩ := Option.bind_eq_some_iff.mp hdags
    obtain ⟨_, -, h⟩ := Option.map_eq_some_iff.mp h
    cases h
  refine ⟨dags.dropLast, dags.getLast hne, ?_, ?_⟩
  · rw [hpath, List.dropLast_append_getLast]
  · rw [hlast, List.getLast?_eq_some_getLast hne]

theorem pathPublic_iff (h : dag ∈ file.inlineDags) :
    dag.PathPublic file ↔ dag.EnclosingPublic file ∧ dag.DeclaredPublic file := by
  obtain ⟨enclosing, decl, hdags, hdecl⟩ := exists_declaration h
  unfold PathPublic EnclosingPublic DeclaredPublic
  rw [hdags, hdecl, List.dropLast_concat]
  simp only [List.mem_append, List.mem_singleton, Option.some.injEq, forall_eq', or_imp,
    forall_and, forall_eq]

end LoadedDag

/-- Each included inline DAG is the module's own file's, or reached through public DAGs only. -/
def IncludesVisible [BEq N] (project : SourceProject N I P O) (module : SourceModule N I P O) :
    Prop :=
  ∀ file dag, project.Includes module file dag →
    file.dagId = module.file.dagId ∨ dag.PathPublic file

theorem mem_inlineDags_of_moduleAt {A : Type} {files : List (LoadedFile N A I P O)}
    {id : LoadedModuleId} {file : LoadedFile N A I P O} {dag : LoadedDag N A}
    (h : moduleAt files id = some (.inlineDag file dag)) : dag ∈ file.inlineDags := by
  obtain ⟨file', -, h⟩ := Option.bind_eq_some_iff.mp h
  split at h
  · cases h
  · obtain ⟨dag', hdag, heq⟩ := Option.map_eq_some_iff.mp h
    cases heq
    exact List.mem_of_getElem? hdag

theorem LoadedProject.Includes.mem_inlineDags [BEq N] {project : SourceProject N I P O}
    {module : SourceModule N I P O} {file : SourceFile N I P O}
    {dag : LoadedDag N (ScopeSegment N)} (h : project.Includes module file dag) :
    dag ∈ file.inlineDags := by
  obtain ⟨site, -, h⟩ := h
  exact mem_inlineDags_of_moduleAt h

variable {target : ModuleTarget N}

theorem LoadedProject.inlineTarget_of_targetModule {project : SourceProject N I P O}
    {file : SourceFile N I P O} {dag : LoadedDag N (ScopeSegment N)}
    (h : project.targetModule target = some (.inlineDag file dag)) :
    ∃ decl, dag.declaration file = some decl ∧
      project.inlineTarget target = some (file, dag, decl) := by
  obtain ⟨_, decl, -, hdecl⟩ := LoadedDag.exists_declaration (mem_inlineDags_of_moduleAt h)
  refine ⟨decl, hdecl, ?_⟩
  rw [inlineTarget, h]
  simp only [hdecl, Option.map_some]

theorem LoadedProject.inlineTarget_eq_some {project : SourceProject N I P O}
    {file : SourceFile N I P O} {dag : LoadedDag N (ScopeSegment N)} {decl : DagDecl N I P O}
    (h : project.inlineTarget target = some (file, dag, decl)) :
    project.targetModule target = some (.inlineDag file dag) ∧
      dag.declaration file = some decl := by
  unfold inlineTarget at h
  split at h
  · rename_i file' dag' hmodule
    obtain ⟨decl', hdecl, heq⟩ := Option.map_eq_some_iff.mp h
    cases heq
    exact ⟨hmodule, hdecl⟩
  · cases h

variable {site : IncludeDecl N I P × ModuleTarget N}

namespace Processing

variable (processing : Processing N I P O C E) (project : SourceProject N I P O)

/-- The step of a file root's last loop without its look at the visibility. -/
def includeUnchecked (file : SourceFile N I P O) (ctx : C)
    (site : IncludeDecl N I P × ModuleTarget N) : Except (PipelineError N E) C :=
  match project.inlineTarget site.2 with
  | none => .ok ctx
  | some _ => processing.includeInDagBody project (.fileRoot file) ctx site

/-- The run over a module without any look at the visibility of what its includes name. -/
def otherChecks [DecidableEq N] (scopes : ModuleScopes N I P S E) (module : SourceModule N I P O)
    (s : S) (ctx : C) : Except (PipelineError N E) (S × C) := do
  let s ← (scopes.completeOwnScope module.dagId module.edges s).mapError .resolve
  let ctx ← match module with
    | .fileRoot file => do
      let ctx ← processing.processFileDependencies project file ctx
      module.includesWithTargets.foldlM (processing.includeUnchecked project file) ctx
    | .inlineDag file dag => processing.processDagBody project file dag ctx
  return (s, ctx)

/-- The include names a DAG of another file that is itself private. -/
def RefusedAtFileRoot (file : SourceFile N I P O) (target : ModuleTarget N) : Prop :=
  ∃ targetFile dag decl, project.inlineTarget target = some (targetFile, dag, decl) ∧
    ¬ decl.visibility.isPublic ∧ target.sourceFile ≠ file.dagId

variable {processing project}
variable {file : SourceFile N I P O}

theorem includeAtFileRoot_refused [DecidableEq N] (h : RefusedAtFileRoot project file site.2)
    (ctx ctx' : C) : processing.includeAtFileRoot project file ctx site ≠ .ok ctx' := by
  obtain ⟨targetFile, dag, decl, htarget, hprivate, hforeign⟩ := h
  unfold includeAtFileRoot
  rw [htarget]
  simp only [if_pos (And.intro hprivate hforeign)]
  exact nofun

theorem includeAtFileRoot_allowed [DecidableEq N] (h : ¬ RefusedAtFileRoot project file site.2)
    (ctx : C) : processing.includeAtFileRoot project file ctx site =
      processing.includeUnchecked project file ctx site := by
  unfold includeAtFileRoot includeUnchecked includeInDagBody
  cases htarget : project.inlineTarget site.2 with
  | none => rfl
  | some found =>
    have hallowed : ¬ (¬ found.2.2.visibility.isPublic ∧ site.2.sourceFile ≠ file.dagId) :=
      fun hrefused => h ⟨found.1, found.2.1, found.2.2, htarget, hrefused⟩
    simp only [if_neg hallowed]

/-- A file root is accepted when the other checks pass and no include names a private DAG of
another file. -/
theorem acceptModule_fileRoot [DecidableEq N] (scopes : ModuleScopes N I P S E)
    (file : SourceFile N I P O) (s : S) (ctx : C) (r : S × C) :
    processing.acceptModule project scopes (.fileRoot file) s ctx = .ok r ↔
      (∀ site ∈ (LoadedModule.fileRoot file).includesWithTargets,
        ¬ RefusedAtFileRoot project file site.2) ∧
      processing.otherChecks project scopes (.fileRoot file) s ctx = .ok r := by
  have hloop : ∀ deps ctx', (LoadedModule.fileRoot file).includesWithTargets.foldlM
      (processing.includeAtFileRoot project file) deps = .ok ctx' ↔
        (∀ site ∈ (LoadedModule.fileRoot file).includesWithTargets,
          ¬ RefusedAtFileRoot project file site.2) ∧
        (LoadedModule.fileRoot file).includesWithTargets.foldlM
          (processing.includeUnchecked project file) deps = .ok ctx' := fun deps ctx' =>
    Checked.foldlM_refusing (fun _ _ h => includeAtFileRoot_refused h)
      fun _ _ h => includeAtFileRoot_allowed h
  unfold acceptModule otherChecks processModule processFileBodyDeclarations
  simp only [Checked.bind_eq_ok]
  constructor
  · rintro ⟨s', hs, ctx', ⟨deps, hdeps, hrun⟩, hr⟩
    obtain ⟨hno, hrun⟩ := (hloop _ _).mp hrun
    exact ⟨hno, s', hs, deps, hdeps, ctx', hrun, hr⟩
  · rintro ⟨hno, s', hs, deps, hdeps, ctx', hrun, hr⟩
    exact ⟨s', hs, ctx', ⟨deps, hdeps, (hloop _ _).mpr ⟨hno, hrun⟩⟩, hr⟩

/-- Nothing in a DAG body is refused for its visibility. -/
theorem acceptModule_inlineDag [DecidableEq N] (scopes : ModuleScopes N I P S E)
    (file : SourceFile N I P O) (dag : LoadedDag N (ScopeSegment N)) (s : S) (ctx : C) :
    processing.acceptModule project scopes (.inlineDag file dag) s ctx =
      processing.otherChecks project scopes (.inlineDag file dag) s ctx := rfl

end Processing

/-! ## Acceptance and visibility -/

section Acceptance

variable {project : SourceProject N I P O}
variable {file : SourceFile N I P O}

/-- Of the inline DAGs a file root includes, the loop refuses another file's private ones. -/
theorem exists_refused_iff [DecidableEq N]
    (hfile : LoadedModule.fileRoot file ∈ modulesOf project.files) :
    (∃ site ∈ (LoadedModule.fileRoot file).includesWithTargets,
      Processing.RefusedAtFileRoot project file site.2) ↔
    ∃ named dag, project.Includes (.fileRoot file) named dag ∧ named.dagId ≠ file.dagId ∧
      ¬ dag.DeclaredPublic named := by
  constructor
  · rintro ⟨site, hsite, named, dag, decl, htarget, hprivate, hforeign⟩
    obtain ⟨hmodule, hdecl⟩ := LoadedProject.inlineTarget_eq_some htarget
    obtain ⟨target, hplaced, -, hfile'⟩ := project.exists_targetModule hfile hsite
    rw [hmodule] at hplaced
    cases hplaced
    refine ⟨named, dag, ⟨site, hsite, hmodule⟩, ?_, fun h => hprivate (h decl hdecl)⟩
    exact fun h => hforeign (hfile'.symm.trans h)
  · rintro ⟨named, dag, ⟨site, hsite, hmodule⟩, hforeign, hprivate⟩
    obtain ⟨decl, hdecl, htarget⟩ := LoadedProject.inlineTarget_of_targetModule hmodule
    obtain ⟨target, hplaced, -, hfile'⟩ := project.exists_targetModule hfile hsite
    rw [hmodule] at hplaced
    cases hplaced
    refine ⟨site, hsite, named, dag, decl, htarget, fun hpublic => hprivate ?_, fun h => ?_⟩
    · intro decl' hdecl'
      cases hdecl.symm.trans hdecl'
      exact hpublic
    · exact hforeign (hfile'.trans h)

/-- An accepted file root reaches private DAGs of other files only by way of a public DAG inside a
private one. -/
theorem fileRoot_includesVisible_iff [DecidableEq N] (processing : Processing N I P O C E)
    (scopes : ModuleScopes N I P S E) (hfile : LoadedModule.fileRoot file ∈ modulesOf project.files)
    (s : S) (ctx : C) :
    ((∃ r, processing.acceptModule project scopes (.fileRoot file) s ctx = .ok r) →
        IncludesVisible project (.fileRoot file)) ↔
      (∃ named dag, project.Includes (.fileRoot file) named dag ∧ named.dagId ≠ file.dagId ∧
        ¬ dag.DeclaredPublic named) ∨
      (∀ named dag, project.Includes (.fileRoot file) named dag →
        named.dagId = file.dagId ∨ dag.EnclosingPublic named) ∨
      ∀ r, processing.otherChecks project scopes (.fileRoot file) s ctx ≠ .ok r := by
  rw [← exists_refused_iff hfile]
  simp only [Processing.acceptModule_fileRoot]
  constructor
  · intro h
    by_contra hcond
    push Not at hcond
    obtain ⟨hno, ⟨named, dag, hincludes, hforeign, henclosing⟩, r, hr⟩ := hcond
    rcases h ⟨r, hno, hr⟩ named dag hincludes with hown | hpublic
    · exact hforeign hown
    · exact henclosing ((LoadedDag.pathPublic_iff hincludes.mem_inlineDags).mp hpublic).1
  · rintro hcond ⟨r, hno, hr⟩ named dag hincludes
    rcases hcond with ⟨site, hsite, hrefused⟩ | henclosing | hothers
    · exact absurd hrefused (hno site hsite)
    · rcases henclosing named dag hincludes with hown | hpublic
      · exact .inl hown
      · by_cases hown : named.dagId = file.dagId
        · exact .inl hown
        refine .inr ((LoadedDag.pathPublic_iff hincludes.mem_inlineDags).mpr ⟨hpublic, ?_⟩)
        by_contra hprivate
        obtain ⟨site, hsite, hrefused⟩ :=
          (exists_refused_iff hfile).mpr ⟨named, dag, hincludes, hown, hprivate⟩
        exact hno site hsite hrefused
    · exact absurd hr (hothers r)

/-- A DAG body is accepted whatever the visibility of the DAGs it includes. -/
theorem inlineDag_includesVisible_iff [DecidableEq N] (processing : Processing N I P O C E)
    (scopes : ModuleScopes N I P S E) (file : SourceFile N I P O)
    (body : LoadedDag N (ScopeSegment N)) (s : S) (ctx : C) :
    ((∃ r, processing.acceptModule project scopes (.inlineDag file body) s ctx = .ok r) →
        IncludesVisible project (.inlineDag file body)) ↔
      (∀ named dag, project.Includes (.inlineDag file body) named dag →
        named.dagId = file.dagId ∨ dag.PathPublic named) ∨
      ∀ r, processing.otherChecks project scopes (.inlineDag file body) s ctx ≠ .ok r := by
  simp only [Processing.acceptModule_inlineDag]
  constructor
  · intro h
    by_cases hothers : ∃ r, processing.otherChecks project scopes (.inlineDag file body) s ctx =
        .ok r
    · exact .inl (h hothers)
    · exact .inr fun r hr => hothers ⟨r, hr⟩
  · rintro (hvisible | hothers) ⟨r, hr⟩
    · exact hvisible
    · exact absurd hr (hothers r)

/-- The two loops treat one include alike unless it names a private DAG of another file. -/
theorem includePaths_agree_iff [DecidableEq N] (processing : Processing N I P O C E)
    (hfile : LoadedModule.fileRoot file ∈ modulesOf project.files)
    (hsite : site ∈ (LoadedModule.fileRoot file).includesWithTargets) {named : SourceFile N I P O}
    {dag : LoadedDag N (ScopeSegment N)}
    (hmodule : project.targetModule site.2 = some (.inlineDag named dag)) (ctx : C) :
    ((∃ r, processing.includeAtFileRoot project file ctx site = .ok r) ↔
        ∃ r, processing.includeInDagBody project (.fileRoot file) ctx site = .ok r) ↔
      named.dagId = file.dagId ∨ dag.DeclaredPublic named ∨
        ∀ r, processing.includeInDagBody project (.fileRoot file) ctx site ≠ .ok r := by
  obtain ⟨decl, hdecl, htarget⟩ := LoadedProject.inlineTarget_of_targetModule hmodule
  obtain ⟨target, hplaced, -, hsource⟩ := project.exists_targetModule hfile hsite
  rw [hmodule] at hplaced
  cases hplaced
  have hunchecked : processing.includeUnchecked project file ctx site =
      processing.includeInDagBody project (.fileRoot file) ctx site := by
    rw [Processing.includeUnchecked, htarget]
  by_cases hrefused : Processing.RefusedAtFileRoot project file site.2
  · obtain ⟨named', dag', decl', htarget', hprivate, hforeign⟩ := hrefused
    cases htarget.symm.trans htarget'
    have hroot : ∀ r, processing.includeAtFileRoot project file ctx site ≠ .ok r :=
      Processing.includeAtFileRoot_refused ⟨named, dag, decl, htarget, hprivate, hforeign⟩ ctx
    constructor
    · intro h
      exact .inr (.inr fun r hr => (h.mpr ⟨r, hr⟩).elim fun r' hr' => hroot r' hr')
    · rintro (hown | hpublic | hrest)
      · exact absurd (hsource.symm.trans hown) hforeign
      · exact absurd (hpublic decl hdecl) hprivate
      · exact ⟨fun ⟨r, hr⟩ => absurd hr (hroot r), fun ⟨r, hr⟩ => absurd hr (hrest r)⟩
  · rw [Processing.includeAtFileRoot_allowed hrefused, hunchecked]
    refine ⟨fun _ => ?_, fun _ => Iff.rfl⟩
    by_cases hown : named.dagId = file.dagId
    · exact .inl hown
    refine .inr (.inl fun decl' hdecl' => ?_)
    cases hdecl.symm.trans hdecl'
    by_contra hprivate
    exact hrefused ⟨named, dag, decl, htarget, hprivate, fun h => hown (hsource.trans h)⟩

end Acceptance

/-- Visibility holds of accepted file roots unless a public DAG in a private one is included, and
of accepted DAG bodies unless some DAG on a path is private; the two loops differ on another file's
private DAGs. -/
theorem includeVisibility_spec [DecidableEq N] (processing : Processing N I P O C E)
    (scopes : ModuleScopes N I P S E) (project : SourceProject N I P O) (s : S) (ctx : C) :
    (∀ file, LoadedModule.fileRoot file ∈ modulesOf project.files →
      (((∃ r, processing.acceptModule project scopes (.fileRoot file) s ctx = .ok r) →
          IncludesVisible project (.fileRoot file)) ↔
        (∃ named dag, project.Includes (.fileRoot file) named dag ∧ named.dagId ≠ file.dagId ∧
          ¬ dag.DeclaredPublic named) ∨
        (∀ named dag, project.Includes (.fileRoot file) named dag →
          named.dagId = file.dagId ∨ dag.EnclosingPublic named) ∨
        ∀ r, processing.otherChecks project scopes (.fileRoot file) s ctx ≠ .ok r)) ∧
    (∀ file body,
      (((∃ r, processing.acceptModule project scopes (.inlineDag file body) s ctx = .ok r) →
          IncludesVisible project (.inlineDag file body)) ↔
        (∀ named dag, project.Includes (.inlineDag file body) named dag →
          named.dagId = file.dagId ∨ dag.PathPublic named) ∨
        ∀ r, processing.otherChecks project scopes (.inlineDag file body) s ctx ≠ .ok r)) ∧
    (∀ file, LoadedModule.fileRoot file ∈ modulesOf project.files →
      ∀ site ∈ (LoadedModule.fileRoot file).includesWithTargets, ∀ named dag,
        project.targetModule site.2 = some (.inlineDag named dag) →
        (((∃ r, processing.includeAtFileRoot project file ctx site = .ok r) ↔
            ∃ r, processing.includeInDagBody project (.fileRoot file) ctx site = .ok r) ↔
          named.dagId = file.dagId ∨ dag.DeclaredPublic named ∨
            ∀ r, processing.includeInDagBody project (.fileRoot file) ctx site ≠ .ok r)) :=
  ⟨fun _ hfile => fileRoot_includesVisible_iff processing scopes hfile s ctx,
    fun file body => inlineDag_includesVisible_iff processing scopes file body s ctx,
    fun _ hfile _ hsite _ _ hmodule => includePaths_agree_iff processing hfile hsite hmodule ctx⟩

/-! ## A private DAG reached from another file

`lib` holds `dag hidden { pub dag inner {} }`. The root of `main` includes `lib.hidden.inner()` and
its DAG `body` includes `lib.hidden()`.
-/

namespace Tunnel

inductive Name
  | pkg
  | main
  | lib
  | hidden
  | inner
  | body
  deriving DecidableEq

def file (name : Name) : SourceDagId Name := ⟨.pkg, ⟨[.file name], List.cons_ne_nil _ _⟩⟩

def inlineDag (name : Name) (dags : List Name) : SourceDagId Name :=
  ⟨.pkg, ⟨.file name :: dags.map .inlineDag, List.cons_ne_nil _ _⟩⟩

def path (first : Name) (rest : List Name) : ModulePath Name :=
  ⟨⟨(first :: rest).map fun name => ⟨name, ⟨0, 0⟩⟩, by simp⟩, ⟨0, 0⟩⟩

def includeOf (path : ModulePath Name) : IncludeDecl Name Unit Unit := ⟨path, [], .module none⟩

def hiddenTarget : ModuleTarget Name := ⟨file .lib, inlineDag .lib [.hidden], ⟨0, some 0⟩⟩

def innerTarget : ModuleTarget Name := ⟨file .lib, inlineDag .lib [.hidden, .inner], ⟨0, some 1⟩⟩

def hiddenDag : LoadedDag Name (ScopeSegment Name) :=
  ⟨inlineDag .lib [.hidden], file .lib, ⟨0, []⟩, []⟩

def innerDag : LoadedDag Name (ScopeSegment Name) :=
  ⟨inlineDag .lib [.hidden, .inner], file .lib, ⟨0, [0]⟩, []⟩

def bodyDag : LoadedDag Name (ScopeSegment Name) :=
  ⟨inlineDag .main [.body], file .main, ⟨1, []⟩, [([.lib, .hidden], hiddenTarget)]⟩

def lib : SourceFile Name Unit Unit Unit where
  dagId := file .lib
  sourceId := 0
  ast := [.dagDecl .priv .hidden [.dagDecl .pub .inner []]]
  resolvedImports := []
  inlineDags := [hiddenDag, innerDag]
  owned := by simp [hiddenDag, innerDag]
  located := by simp [hiddenDag, innerDag, DagBodyLocator.dags, dagsAlong, dagDeclAt]

def main : SourceFile Name Unit Unit Unit where
  dagId := file .main
  sourceId := 1
  ast := [.includeDecl (includeOf (path .lib [.hidden, .inner])),
    .dagDecl .pub .body [.includeDecl (includeOf (path .lib [.hidden]))]]
  resolvedImports := [([.lib, .hidden, .inner], innerTarget)]
  inlineDags := [bodyDag]
  owned := by simp [bodyDag]
  located := by simp [bodyDag, DagBodyLocator.dags, dagsAlong, dagDeclAt]

def project : SourceProject Name Unit Unit Unit where
  hasRoot := true
  files := [lib, main]
  placed := by
    intro module hmodule entry hentry
    simp only [modulesOf, List.flatMap_cons, List.flatMap_nil, lib, main, List.map_cons,
      List.map_nil, List.append_nil, List.mem_cons, List.mem_append, List.not_mem_nil,
      or_false] at hmodule
    rcases hmodule with (rfl | rfl | rfl) | rfl | rfl
    · cases hentry
    · cases hentry
    · cases hentry
    · cases List.mem_singleton.mp hentry
      exact ⟨.inlineDag lib innerDag, rfl, rfl, rfl⟩
    · cases List.mem_singleton.mp hentry
      exact ⟨.inlineDag lib hiddenDag, rfl, rfl, rfl⟩

/-- Every module is known and every edge adds its names. -/
def scopes : ModuleScopes Name Unit Unit Unit Unit where
  symbols _ _ := some fun _ => none
  addImports _ _ _ _ _ _ _ := .ok ()
  inheritScope _ _ _ := .ok ()
  applyIncludeStaticProjectionBindings _ _ _ _ := .ok ()

/-- The context lists the DAGs to instantiate. -/
def processing : Processing Name Unit Unit Unit (List Name) Unit where
  pureImport _ _ _ ctx := .ok ctx
  fileInclude _ _ _ ctx := .ok ctx
  inlineDagInclude _ _ name _ ctx := .ok (ctx ++ [name])

theorem root_accepted : processing.acceptModule project scopes (.fileRoot main) () [] =
    .ok ((), [.inner]) := rfl

theorem body_accepted : processing.acceptModule project scopes (.inlineDag main bodyDag) () [] =
    .ok ((), [.hidden]) := rfl

theorem root_escapes : ¬ IncludesVisible project (.fileRoot main) := by
  intro h
  rcases h lib innerDag ⟨(_, innerTarget), List.mem_singleton.mpr rfl, rfl⟩ with hown | hpublic
  · exact absurd hown (by decide)
  · exact absurd (hpublic ⟨.priv, .hidden, [.dagDecl .pub .inner []]⟩ List.mem_cons_self)
      (by decide)

theorem body_escapes : ¬ IncludesVisible project (.inlineDag main bodyDag) := by
  intro h
  rcases h lib hiddenDag ⟨(_, hiddenTarget), List.mem_singleton.mpr rfl, rfl⟩ with hown | hpublic
  · exact absurd hown (by decide)
  · exact absurd (hpublic ⟨.priv, .hidden, [.dagDecl .pub .inner []]⟩ List.mem_cons_self)
      (by decide)

/-- Both accepted modules of `main` reach the private DAG, and an include of it is refused at a
file's root but not in a DAG body. -/
theorem accepted_includes_escape :
    (¬ ∀ module ∈ modulesOf project.files,
      (∃ r, processing.acceptModule project scopes module () [] = .ok r) →
        IncludesVisible project module) ∧
    ¬ ((∃ r, processing.includeAtFileRoot project main []
        (includeOf (path .lib [.hidden]), hiddenTarget) = .ok r) ↔
      ∃ r, processing.includeInDagBody project (.fileRoot main) []
        (includeOf (path .lib [.hidden]), hiddenTarget) = .ok r) := by
  constructor
  · intro h
    refine root_escapes (h _ ?_ ⟨_, root_accepted⟩)
    simp [modulesOf, project]
  · intro h
    obtain ⟨r, hr⟩ := h.mpr ⟨_, rfl⟩
    cases hr

/-- Neither module of `main` meets its condition. -/
theorem conditions_fail :
    ¬ ((∃ named dag, project.Includes (.fileRoot main) named dag ∧ named.dagId ≠ main.dagId ∧
          ¬ dag.DeclaredPublic named) ∨
        (∀ named dag, project.Includes (.fileRoot main) named dag →
          named.dagId = main.dagId ∨ dag.EnclosingPublic named) ∨
        ∀ r, processing.otherChecks project scopes (.fileRoot main) () [] ≠ .ok r) ∧
    ¬ ((∀ named dag, project.Includes (.inlineDag main bodyDag) named dag →
          named.dagId = main.dagId ∨ dag.PathPublic named) ∨
        ∀ r, processing.otherChecks project scopes (.inlineDag main bodyDag) () [] ≠ .ok r) := by
  have hspec := includeVisibility_spec processing scopes project () []
  constructor
  · intro h
    refine root_escapes ((hspec.1 main ?_).mpr h ⟨_, root_accepted⟩)
    simp [modulesOf, project]
  · exact fun h => body_escapes ((hspec.2.1 main bodyDag).mpr h ⟨_, body_accepted⟩)

end Tunnel

end ProvenGraphcal
