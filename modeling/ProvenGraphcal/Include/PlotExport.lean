import ProvenGraphcal.Include.IncludeVisibility
import ProvenGraphcal.Library.GoalSearch
import ProvenGraphcal.Static.IncludeRequest

/-!
# The plots that a file exports

A plot is exported by the module that declares it and by the includes that select it publicly.
Of an interface, only the importable names are modelled.
-/

namespace ProvenGraphcal.Resolve

open Static
open List (mem_cons_self mem_flatMap mem_map mem_of_getElem?)

variable {N : Type}

inductive IntroducedKind
  | param
  | node
  | constNode
  | assert
  | plot
  | figure
  | layer
  | dag
  | constructor
  | baseDimension
  | dimension
  | unit
  | type
  | index
  deriving DecidableEq

def IntroducedKind.namespaceOf : IntroducedKind → ImportItemNamespace
  | .param | .node | .constNode | .assert | .plot | .figure | .layer | .dag | .constructor => .term
  | .baseDimension | .dimension => .dimension
  | .unit => .unit
  | .type => .type
  | .index => .index

deriving instance DecidableEq for DeclExposure

structure IntroducedName (N : Type) where
  kind : IntroducedKind
  atom : N
  exposure : DeclExposure

def exposureFromPublic (isPublic : Bool) : DeclExposure :=
  if isPublic then .explicitExport else .priv

/-- The name that a declaration itself binds. -/
def declaredName : Decl N → Option (IntroducedName N)
  | .dagDecl visibility name _ => some ⟨.dag, name, exposureFromPublic visibility.isPublic⟩
  | .importDecl _ | .includeDecl _ | .otherDecl (.pluginImport ..) => none
  | .otherDecl (.param name) => some ⟨.param, name, .inputPort⟩
  | .otherDecl (.node visibility name) => some ⟨.node, name, exposureFromPublic visibility.isPublic⟩
  | .otherDecl (.constNode visibility name) =>
    some ⟨.constNode, name, exposureFromPublic visibility.isPublic⟩
  | .otherDecl (.assert visibility name) =>
    some ⟨.assert, name, exposureFromPublic visibility.isPublic⟩
  | .otherDecl (.plot visibility name) => some ⟨.plot, name, exposureFromPublic visibility.isPublic⟩
  | .otherDecl (.figure visibility name) =>
    some ⟨.figure, name, exposureFromPublic visibility.isPublic⟩
  | .otherDecl (.layer visibility name) =>
    some ⟨.layer, name, exposureFromPublic visibility.isPublic⟩
  | .otherDecl (.baseDimension visibility name) =>
    some ⟨.baseDimension, name, exposureFromPublic visibility.isPublic⟩
  | .otherDecl (.dimension visibility name) =>
    some ⟨.dimension, name, exposureFromPublic visibility.isPublic⟩
  | .otherDecl (.unit visibility name _) =>
    some ⟨.unit, name, exposureFromPublic visibility.isPublic⟩
  | .otherDecl (.type visibility name _ _) =>
    some ⟨.type, name, exposureFromPublic visibility.isPublic⟩
  | .otherDecl (.index visibility name _) =>
    some ⟨.index, name, exposureFromPublic visibility.isPublic⟩

def constructorMembers : Decl N → List N
  | .otherDecl (.type _ _ _ (.constructors members)) => members
  | _ => []

/-- The declaration's own name, then its constructors with the same exposure. -/
def introducedNames (decl : Decl N) : List (IntroducedName N) :=
  let exposure := ((declaredName decl).map (·.exposure)).getD .priv
  (declaredName decl).toList ++
    (constructorMembers decl).map fun member => ⟨.constructor, member, exposure⟩

inductive InterfaceOrigin
  | declared (kind : IntroducedKind)
  | reExport
  deriving DecidableEq

structure InterfaceEntry where
  origin : InterfaceOrigin
  exposure : DeclExposure
  deriving DecidableEq

structure InterfaceSlot (N : Type) where
  ns : ImportItemNamespace
  name : N
  deriving DecidableEq

/-- The entries in source order, each with its slot. -/
structure ModuleInterface (N : Type) where
  slots : List (InterfaceSlot N × InterfaceEntry)

namespace ModuleInterface

def empty : ModuleInterface N := ⟨[]⟩

def insert (interface : ModuleInterface N) (ns : ImportItemNamespace) (name : N)
    (entry : InterfaceEntry) : ModuleInterface N :=
  ⟨interface.slots ++ [(⟨ns, name⟩, entry)]⟩

def insertReexport (interface : ModuleInterface N) (ns : ImportItemNamespace) (name : N) :
    ModuleInterface N :=
  interface.insert ns name ⟨.reExport, .explicitExport⟩

def insertIntroduced (interface : ModuleInterface N) (introduced : IntroducedName N) :
    ModuleInterface N :=
  interface.insert introduced.kind.namespaceOf introduced.atom
    ⟨.declared introduced.kind, introduced.exposure⟩

def publicItems (items : List (Item N)) : List (Item N) :=
  items.filter fun item => item.visibility.isPublic

def addDeclaration (interface : ModuleInterface N) (decl : Decl N) : ModuleInterface N :=
  let introduced := (introducedNames decl).foldl insertIntroduced interface
  match decl with
  | .importDecl (.selective _ items) =>
    (publicItems items).foldl
      (fun interface item => interface.insertReexport item.selection.category (localNameAtom item))
      introduced
  | .includeDecl ⟨_, _, .selective items⟩ =>
    (publicItems items).foldl
      (fun interface item => interface.insertReexport .term (localNameAtom item)) introduced
  | _ => introduced

/-- The interface of the module with these declarations. -/
def new (declarations : List (Decl N)) : ModuleInterface N :=
  declarations.foldl addDeclaration empty

def entries [DecidableEq N] (interface : ModuleInterface N) (name : N)
    (ns : ImportItemNamespace) : List InterfaceEntry :=
  (interface.slots.filter fun slot => slot.1 = ⟨ns, name⟩).map Prod.snd

/-- One of the module's own declarations introduces the name and exports it. -/
def explicitlyExports [DecidableEq N] (interface : ModuleInterface N) (name : N)
    (kind : IntroducedKind) : Bool :=
  (interface.entries name kind.namespaceOf).any fun entry =>
    entry.origin = .declared kind ∧ entry.exposure = .explicitExport

end ModuleInterface

abbrev ItemFile (N : Type) :=
  LoadedFile N (ScopeSegment N) (ItemSelection N) (ParamBinding N) (OtherDecl N)

abbrev ItemModule (N : Type) :=
  LoadedModule N (ScopeSegment N) (ItemSelection N) (ParamBinding N) (OtherDecl N)

/-- A project whose files have identities of their own; those of inline DAGs end in the DAG's
name. -/
structure IndexedProject (N : Type) extends
    LoadedProject N (ScopeSegment N) (ItemSelection N) (ParamBinding N) (OtherDecl N) where
  file_ids_nodup : (files.map (·.dagId)).Nodup
  file_id_isFile : ∀ file ∈ files, file.dagId.leaf.isFile = true
  inline_id_not_isFile : ∀ file ∈ files, ∀ dag ∈ file.inlineDags, dag.dagId.leaf.isFile = false

/-- The identities of the modules of one file. -/
def fileModules (file : ItemFile N) (index : ℕ) : List (SourceDagId N × LoadedModuleId) :=
  (file.dagId, ⟨index, none⟩) ::
    file.inlineDags.zipIdx.map fun (dag, inline) => (dag.dagId, ⟨index, some inline⟩)

namespace IndexedProject

variable (project : IndexedProject N)

def moduleEntries : List (SourceDagId N × LoadedModuleId) :=
  project.files.zipIdx.flatMap fun (file, index) => fileModules file index

variable [DecidableEq N]

/-- The file that owns a file root or an inline DAG; of equal identities the last one stands. -/
def owner (dagId : SourceDagId N) : Option (ItemFile N) :=
  (project.moduleEntries.reverse.lookup dagId).bind fun module => project.files[module.file]?

/-- The file of this file-root identity. -/
def file? (dagId : SourceDagId N) : Option (ItemFile N) :=
  (project.owner dagId).filter fun file => file.dagId = dagId

end IndexedProject

def selectiveItems : ImportKind N (ItemSelection N) → List (Item N)
  | .selective items => items
  | .module _ => []

/-- The public items of selective includes that bind this name: what each selects, and where. -/
def publicSelections [DecidableEq N] (module : ItemModule N) (name : N) :
    List (N × ModuleTarget N) :=
  module.includesWithTargets.flatMap fun site =>
    ((selectiveItems site.1.kind).filter fun item =>
      item.visibility.isPublic ∧ localNameAtom item = name).map
        fun item => (item.name.name, site.2)

section Search

variable [DecidableEq N] (project : IndexedProject N)

def isLoaded (key : SourceDagId N × N) : Bool := (project.file? key.1).isSome

def rootExports (key : SourceDagId N × N) : Bool :=
  (project.file? key.1).any fun file =>
    (ModuleInterface.new file.ast).explicitlyExports key.2 .plot

/-- The items go on at the files of their targets. -/
def rootSelections (key : SourceDagId N × N) : List (SourceDagId N × N) :=
  ((project.file? key.1).toList.flatMap fun file => publicSelections (.fileRoot file) key.2).map
    fun (original, target) => (target.sourceFile, original)

/-- The spellings of the items of selective includes. -/
def selectedNames (file : ItemFile N) : List N :=
  (LoadedModule.fileRoot file).includesWithTargets.flatMap fun site =>
    (selectiveItems site.1.kind).map fun item => item.name.name

/-- What the search can come to from this name. -/
def searchKeys (name : N) : List (SourceDagId N × N) :=
  (project.files.map (·.dagId)).product (name :: project.files.flatMap selectedNames)

/-- Whether a file exports a plot, itself or through its includes. -/
def fileExportsPlot (dagId : SourceDagId N) (name : N) : Option Bool :=
  GoalSearch.search (isLoaded project) (rootExports project) (rootSelections project)
    (searchKeys project name) (dagId, name)

/-- A chain of public items, each renaming the name of the next, ends at a module that exports the
plot. It lists the modules that the includes target; at each it goes on where `continueAt` says. -/
inductive PlotChain (continueAt : ItemModule N → ItemModule N) :
    ItemModule N → N → List (ItemModule N) → Prop
  | here {module : ItemModule N} {name : N} :
    (ModuleInterface.new module.declarations).explicitlyExports name .plot = true →
    PlotChain continueAt module name []
  | through {module target : ItemModule N} {name original : N} {resolved : ModuleTarget N}
    {targets : List (ItemModule N)} :
    (original, resolved) ∈ publicSelections module name →
    project.targetModule resolved = some target →
    PlotChain continueAt (continueAt target) original targets →
    PlotChain continueAt module name (target :: targets)

end Search

def owningRoot (module : ItemModule N) : ItemModule N := .fileRoot module.file

def isInlineDag : ItemModule N → Prop
  | .fileRoot _ => False
  | .inlineDag _ _ => True

variable {module : ItemModule N}

theorem owningRoot_of_not_isInlineDag (h : ¬ isInlineDag module) :
    owningRoot module = module := by
  cases module with
  | fileRoot file => rfl
  | inlineDag file dag => exact absurd trivial h

/-! ## Files and targets -/

variable {files : List (ItemFile N)}

theorem moduleAt_mem {id : LoadedModuleId} (h : moduleAt files id = some module) :
    module ∈ modulesOf files ∧ module.file ∈ files := by
  obtain ⟨file, hfile, h⟩ := Option.bind_eq_some_iff.mp h
  have hmem : file ∈ files := mem_of_getElem? hfile
  cases hinline : id.inline with
  | none =>
    rw [hinline] at h
    cases h
    exact ⟨mem_flatMap.mpr ⟨file, hmem, mem_cons_self⟩, hmem⟩
  | some index =>
    rw [hinline] at h
    obtain ⟨dag, hdag, rfl⟩ := Option.map_eq_some_iff.mp h
    have hdagmem : dag ∈ file.inlineDags := mem_of_getElem? hdag
    exact ⟨mem_flatMap.mpr
      ⟨file, hmem, List.mem_cons_of_mem _ (List.mem_map_of_mem hdagmem)⟩, hmem⟩

variable {file : ItemFile N}

theorem fileRoot_mem (h : file ∈ files) :
    LoadedModule.fileRoot file ∈ modulesOf files :=
  mem_flatMap.mpr ⟨file, h, mem_cons_self⟩

variable {dagId : SourceDagId N}

namespace IndexedProject

variable (project : IndexedProject N)

/-- An entry under a file's identity is in that file. -/
theorem file_of_mem_moduleEntries (hfile : file ∈ project.files) {module : LoadedModuleId}
    (h : (file.dagId, module) ∈ project.moduleEntries) :
    project.files[module.file]? = some file := by
  obtain ⟨⟨other, index⟩, hother, hentry⟩ := mem_flatMap.mp h
  have hat : project.files[index]? = some other := by
    simpa using List.mem_zipIdx_iff_getElem?.mp hother
  have hmem : other ∈ project.files := mem_of_getElem? hat
  rcases List.mem_cons.mp hentry with heq | hinline
  · obtain ⟨hid, rfl⟩ := Prod.mk.injEq .. ▸ heq
    rw [hat, List.inj_on_of_nodup_map project.file_ids_nodup hfile hmem hid]
  · obtain ⟨⟨dag, inline⟩, hdag, heq⟩ := mem_map.mp hinline
    obtain ⟨hid, -⟩ := Prod.mk.injEq .. ▸ heq
    have hdagmem : dag ∈ other.inlineDags := by
      have hat' := List.mem_zipIdx_iff_getElem?.mp hdag
      exact mem_of_getElem? hat'
    have hroot := project.file_id_isFile file hfile
    rw [← hid, project.inline_id_not_isFile other hmem dag hdagmem] at hroot
    cases hroot

variable [DecidableEq N]

theorem file?_eq_some :
    project.file? dagId = some file ↔ file ∈ project.files ∧ file.dagId = dagId := by
  rw [file?, Option.filter_eq_some_iff]
  constructor
  · rintro ⟨howner, hid⟩
    obtain ⟨module, -, hfile⟩ := Option.bind_eq_some_iff.mp howner
    exact ⟨mem_of_getElem? hfile, by simpa using hid⟩
  · rintro ⟨hfile, rfl⟩
    refine ⟨?_, by simp⟩
    obtain ⟨index, hindex⟩ := List.mem_iff_getElem?.mp hfile
    have hentry : (file.dagId, (⟨index, none⟩ : LoadedModuleId)) ∈ project.moduleEntries := by
      refine mem_flatMap.mpr ⟨(file, index), ?_, mem_cons_self⟩
      exact List.mem_zipIdx_iff_getElem?.mpr hindex
    cases hlookup : project.moduleEntries.reverse.lookup file.dagId with
    | none =>
      have hno := List.lookup_eq_none_iff.mp hlookup _ (List.mem_reverse.mpr hentry)
      simp at hno
    | some module =>
      obtain ⟨before, after, heq, -⟩ := List.lookup_eq_some_iff.mp hlookup
      have hmem : (file.dagId, module) ∈ project.moduleEntries := by
        rw [← List.mem_reverse, heq]
        exact List.mem_append_right _ mem_cons_self
      rw [owner, hlookup]
      exact project.file_of_mem_moduleEntries hfile hmem

end IndexedProject

variable {targets : List (ItemModule N)} {resolved : ModuleTarget N} {name : N}
variable {key : SourceDagId N × N}

section Search

variable [DecidableEq N] (project : IndexedProject N)

/-- The module that a public selection names lies in the file of its target. -/
theorem exists_target_of_mem_publicSelections (hmodule : module ∈ modulesOf project.files)
    {original : N} (h : (original, resolved) ∈ publicSelections module name) :
    ∃ target, project.targetModule resolved = some target ∧ target.file ∈ project.files ∧
      target.file.dagId = resolved.sourceFile := by
  obtain ⟨⟨decl, resolved'⟩, hinclude, hitem⟩ := mem_flatMap.mp h
  obtain ⟨item, -, heq⟩ := mem_map.mp hitem
  obtain rfl : resolved' = resolved := congrArg Prod.snd heq
  obtain ⟨target, htarget, -, hid⟩ := project.exists_targetModule hmodule hinclude
  exact ⟨target, htarget, (moduleAt_mem htarget).2, hid⟩

theorem mem_selectedNames {original : N}
    (h : (original, resolved) ∈ publicSelections (.fileRoot file) name) :
    original ∈ selectedNames file := by
  obtain ⟨⟨decl, resolved'⟩, hinclude, hitem⟩ := mem_flatMap.mp h
  obtain ⟨item, hmem, heq⟩ := mem_map.mp hitem
  refine mem_flatMap.mpr ⟨(decl, resolved'), hinclude, mem_map.mpr ⟨item, ?_, ?_⟩⟩
  · exact (List.mem_filter.mp hmem).1
  · exact congrArg Prod.fst heq

theorem mem_rootSelections :
    key ∈ rootSelections project (dagId, name) ↔ ∃ file, project.file? dagId = some file ∧
      ∃ resolved, (key.2, resolved) ∈ publicSelections (.fileRoot file) name ∧
        resolved.sourceFile = key.1 := by
  rw [rootSelections, mem_map]
  constructor
  · rintro ⟨⟨original, resolved⟩, hmem, rfl⟩
    obtain ⟨file, hfile, hselection⟩ := mem_flatMap.mp hmem
    exact ⟨file, Option.mem_toList.mp hfile, resolved, hselection, rfl⟩
  · rintro ⟨file, hfile, resolved, hselection, hid⟩
    refine ⟨(key.2, resolved), mem_flatMap.mpr ⟨file, ?_, hselection⟩, ?_⟩
    · exact Option.mem_toList.mpr hfile
    · exact Prod.ext hid rfl

theorem exists_plotChain_of_reaches
    (h : GoalSearch.Reaches (isLoaded project) (rootExports project) (rootSelections project) key) :
    ∀ file, project.file? key.1 = some file →
      ∃ targets, PlotChain project owningRoot (.fileRoot file) key.2 targets := by
  induction h with
  | here hloaded hexports =>
    intro file hfile
    rw [rootExports, hfile] at hexports
    exact ⟨[], .here hexports⟩
  | step hloaded hselection hreaches ih =>
    intro file hfile
    obtain ⟨file', hfile', resolved, hmem, hid⟩ := (mem_rootSelections project).mp hselection
    obtain rfl := Option.some_inj.mp (hfile.symm.trans hfile')
    have hroot := fileRoot_mem ((project.file?_eq_some).mp hfile).1
    obtain ⟨target, htarget, hfiles, hsource⟩ :=
      exists_target_of_mem_publicSelections project hroot hmem
    obtain ⟨targets, hchain⟩ :=
      ih target.file ((project.file?_eq_some).mpr ⟨hfiles, hsource.trans hid⟩)
    exact ⟨target :: targets, .through hmem htarget hchain⟩

theorem reaches_of_plotChain (h : PlotChain project owningRoot module name targets) :
    ∀ file ∈ project.files, module = .fileRoot file →
      GoalSearch.Reaches (isLoaded project) (rootExports project) (rootSelections project)
        (file.dagId, name) := by
  induction h with
  | here hexports =>
    rintro file hfile rfl
    have hlookup := (project.file?_eq_some).mpr ⟨hfile, rfl⟩
    refine .here ?_ ?_
    · rw [isLoaded, hlookup]
      rfl
    · rw [rootExports, hlookup]
      exact hexports
  | @through module target name original resolved targets hmem htarget hchain ih =>
    rintro file hfile rfl
    have hlookup := (project.file?_eq_some).mpr ⟨hfile, rfl⟩
    obtain ⟨target', htarget', hfiles, hsource⟩ :=
      exists_target_of_mem_publicSelections project (fileRoot_mem hfile) hmem
    obtain rfl := Option.some_inj.mp (htarget.symm.trans htarget')
    refine .step ?_ ?_ (ih target.file hfiles rfl)
    · rw [isLoaded, hlookup]
      rfl
    · exact (mem_rootSelections project).mpr ⟨file, hlookup, resolved, hmem, hsource.symm⟩

/-- The search ends, and follows the chains that go on at the owning files. -/
theorem fileExportsPlot_eq_some (hfile : file ∈ project.files) (name : N) :
    ∃ found, fileExportsPlot project file.dagId name = some found ∧
      (found = true ↔ ∃ targets, PlotChain project owningRoot (.fileRoot file) name targets) := by
  have hall : ∀ a ∈ searchKeys project name, ∀ b ∈ rootSelections project a,
      isLoaded project b = true → b ∈ searchKeys project name := by
    rintro ⟨dagId, from'⟩ - b hb hloaded
    obtain ⟨source, hsource, resolved, hmem, hid⟩ := (mem_rootSelections project).mp hb
    obtain ⟨target, htarget⟩ := Option.isSome_iff_exists.mp hloaded
    obtain ⟨htarget, hid'⟩ := (project.file?_eq_some).mp htarget
    refine List.pair_mem_product.mpr ⟨?_, ?_⟩
    · exact mem_map.mpr ⟨target, htarget, hid'⟩
    · refine List.mem_cons_of_mem _ (mem_flatMap.mpr ⟨source, ?_, mem_selectedNames hmem⟩)
      exact ((project.file?_eq_some).mp hsource).1
  have hstart : (file.dagId, name) ∈ searchKeys project name :=
    List.pair_mem_product.mpr ⟨List.mem_map_of_mem hfile, mem_cons_self⟩
  obtain ⟨found, hfound, hiff⟩ :=
    GoalSearch.search_eq_some (rootExports project) hall fun _ => hstart
  refine ⟨found, hfound, hiff.trans ⟨fun h => ?_, fun h => ?_⟩⟩
  · exact exists_plotChain_of_reaches project h file ((project.file?_eq_some).mpr ⟨hfile, rfl⟩)
  · obtain ⟨targets, hchain⟩ := h
    exact reaches_of_plotChain project hchain file hfile rfl

/-- Chains over the same targets are the same if they go on alike at these. -/
theorem PlotChain.congr {continueAt continueAt' : ItemModule N → ItemModule N}
    (h : PlotChain project continueAt module name targets)
    (heq : ∀ target ∈ targets, continueAt target = continueAt' target) :
    PlotChain project continueAt' module name targets := by
  induction h with
  | here hexports => exact .here hexports
  | through hmem htarget hchain ih =>
    refine .through hmem htarget ?_
    rw [← heq _ mem_cons_self]
    exact ih fun target htarget => heq target (List.mem_cons_of_mem _ htarget)

/-- The module exports the plot through a chain with an inline DAG among its targets. -/
def ThroughInlineDag (continueAt : ItemModule N → ItemModule N) (module : ItemModule N)
    (name : N) : Prop :=
  ∃ targets, (∃ target ∈ targets, isInlineDag target) ∧
    PlotChain project continueAt module name targets

/-- The module exports the plot through a chain of file roots. -/
def ThroughFileRoots (module : ItemModule N) (name : N) : Prop :=
  ∃ targets, (∀ target ∈ targets, ¬ isInlineDag target) ∧ PlotChain project id module name targets

theorem exists_plotChain_iff (continueAt : ItemModule N → ItemModule N)
    (hroot : ∀ target, ¬ isInlineDag target → continueAt target = target) (module : ItemModule N)
    (name : N) :
    (∃ targets, PlotChain project continueAt module name targets) ↔
      ThroughFileRoots project module name ∨
        ThroughInlineDag project continueAt module name := by
  constructor
  · rintro ⟨targets, hchain⟩
    by_cases hinline : ∃ target ∈ targets, isInlineDag target
    · exact .inr ⟨targets, hinline, hchain⟩
    · have hno : ∀ target ∈ targets, ¬ isInlineDag target :=
        fun target htarget hi => hinline ⟨target, htarget, hi⟩
      exact .inl ⟨targets, hno, hchain.congr project fun target ht => hroot target (hno target ht)⟩
  · rintro (⟨targets, hno, hchain⟩ | ⟨targets, -, hchain⟩)
    · exact ⟨targets, hchain.congr project fun target ht => (hroot target (hno target ht)).symm⟩
    · exact ⟨targets, hchain⟩

/-- The search ends. It answers as the chains do unless only one of two holds: a chain reaches the
plot through an inline DAG, or it would if the includes of inline DAGs were those of their files;
and no chain of file roots reaches it. -/
theorem fileExportsPlot_iff_chain (file : ItemFile N) (hfile : file ∈ project.files) (name : N) :
    ∃ found, fileExportsPlot project file.dagId name = some found ∧
      ((found = true ↔ ∃ targets, PlotChain project id (.fileRoot file) name targets) ↔
        (ThroughFileRoots project (.fileRoot file) name ∨
          (ThroughInlineDag project owningRoot (.fileRoot file) name ↔
            ThroughInlineDag project id (.fileRoot file) name))) := by
  obtain ⟨found, hfound, hiff⟩ := fileExportsPlot_eq_some project hfile name
  refine ⟨found, hfound, ?_⟩
  have howning := exists_plotChain_iff project owningRoot
    (fun _ => owningRoot_of_not_isInlineDag) (.fileRoot file) name
  have hactual := exists_plotChain_iff project id (fun _ _ => rfl) (.fileRoot file) name
  rw [hiff, howning, hactual]
  by_cases hroots : ThroughFileRoots project (.fileRoot file) name <;> simp [hroots]

end Search

namespace PlotOfInlineDag

def ident (name : String) : Ident String := ⟨name, ⟨0, 0⟩⟩

def libId : SourceDagId String := ⟨"p", ⟨[.file "lib"], by simp⟩⟩

def chartsId : SourceDagId String := ⟨"p", ⟨[.file "lib", .inlineDag "charts"], by simp⟩⟩

def mainId : SourceDagId String := ⟨"p", ⟨[.file "main"], by simp⟩⟩

/-- `pub dag charts { pub plot curve … }`. -/
def libFile : ItemFile String where
  dagId := libId
  sourceId := 0
  ast := [.dagDecl .pub "charts" [.otherDecl (.plot .pub "curve")]]
  resolvedImports := []
  inlineDags := [⟨chartsId, libId, ⟨0, []⟩, []⟩]
  owned := by simp
  located := by simp [DagBodyLocator.dags, dagsAlong, dagDeclAt]

/-- `include lib.charts::{pub curve};`. -/
def mainFile : ItemFile String where
  dagId := mainId
  sourceId := 1
  ast := [.includeDecl ⟨⟨⟨[ident "lib", ident "charts"], by simp⟩, ⟨0, 0⟩⟩, [],
    .selective [⟨.pub, ident "curve", ⟨.term, none⟩⟩]⟩]
  resolvedImports := [(["lib", "charts"], ⟨libId, chartsId, ⟨0, some 0⟩⟩)]
  inlineDags := []
  owned := by simp
  located := by simp

def project : IndexedProject String where
  hasRoot := true
  files := [libFile, mainFile]
  placed := by
    simp [modulesOf, LoadedModule.resolvedImports, libFile, mainFile, moduleAt,
      LoadedModule.dagId, LoadedModule.file]
  file_ids_nodup := by decide
  file_id_isFile := by simp [libFile, mainFile, libId, mainId, DagId.leaf, DagSegment.isFile]
  inline_id_not_isFile := by
    simp [libFile, mainFile, chartsId, DagId.leaf, DagSegment.isFile]

/-- The search misses the plot, which a chain of one item reaches. -/
theorem inline_plot_missed :
    fileExportsPlot project mainFile.dagId "curve" = some false ∧
      ∃ targets, PlotChain project id (.fileRoot mainFile) "curve" targets := by
  refine ⟨by decide, [.inlineDag libFile ⟨chartsId, libId, ⟨0, []⟩, []⟩], ?_⟩
  have hselected : publicSelections (.fileRoot mainFile) "curve" =
      [("curve", ⟨libId, chartsId, ⟨0, some 0⟩⟩)] := rfl
  have hmem := hselected ▸ mem_cons_self
  exact .through hmem rfl (.here (by decide))

theorem fileExportsPlot_iff_chain_main :
    ∃ found, fileExportsPlot project mainFile.dagId "curve" = some found ∧
      ((found = true ↔ ∃ targets, PlotChain project id (.fileRoot mainFile) "curve" targets) ↔
        (ThroughFileRoots project (.fileRoot mainFile) "curve" ∨
          (ThroughInlineDag project owningRoot (.fileRoot mainFile) "curve" ↔
            ThroughInlineDag project id (.fileRoot mainFile) "curve"))) :=
  fileExportsPlot_iff_chain project mainFile (by simp [project]) "curve"

end PlotOfInlineDag

end ProvenGraphcal.Resolve
