import ProvenGraphcal.Library.Worklist
import ProvenGraphcal.Resolve.Projection

/-!
# Building a resolver

Source modules are collected, then every include is expanded into instances, and last the scopes
are completed, dependencies first. What the loader decides about paths is a parameter.
-/

namespace ProvenGraphcal.Resolve

variable {N : Type}

/-- The module that a path names in an import or an include, as the loader resolved it. -/
structure ModuleTargets (N : Type) where
  importTarget : SourceDagId N → ModulePath N → Option (SourceDagId N)
  includeTarget : SourceDagId N → ModulePath N → Option (SourceDagId N)

/-- What is known of spellings: those a namespace reserves, and the file names that are names. -/
structure Spellings (N : Type) where
  reserved : Namespace → N → Bool
  isAtom : N → Bool

/-- The spelling of a module on an import path; instances have none. -/
def modulePathKey (isAtom : N → Bool) (id : SourceDagId N) : Option (List N) :=
  id.segments.items.mapM fun
    | .file name => if isAtom name then some name else none
    | .inlineDag name => some name
    | .instance _ => none

abbrev ModuleEdge (N : Type) := Edge N (ItemSelection N) (ParamBinding N)

/-- The source module whose completed scope registering this edge reads. -/
def dependency : ModuleEdge N → SourceDagId N
  | .importEdge _ target => target
  | .includeEdge _ template => template

def instantiation : ModuleEdge N → Option (Include N × SourceDagId N)
  | .importEdge _ _ => none
  | .includeEdge decl template => some (decl, template)

/-- The imports and includes of a module whose path names one, in declaration order. -/
def moduleEdges (targets : ModuleTargets N) (owner : SourceDagId N)
    (declarations : List (Decl N)) : List (ModuleEdge N) :=
  declarations.filterMap fun
    | .importDecl decl => (targets.importTarget owner decl.path).map (.importEdge decl)
    | .includeDecl decl => (targets.includeTarget owner decl.path).map (.includeEdge decl)
    | _ => none

/-- The includes among a module's edges, each with its template. -/
def instantiations (edges : List (ModuleEdge N)) : List (Include N × SourceDagId N) :=
  edges.filterMap instantiation

/-- An error of the resolver; `outOfFuel` stands for an expansion that does not end. -/
inductive BuildError (N : Type)
  | resolve (error : ModuleResolveError N)
  | outOfFuel

/-- An error raised while completing the scope of one module. -/
structure ScopeError (N : Type) where
  module : SourceDagId N
  error : ModuleResolveError N

variable [LinearOrder N]

structure SourceModule (N : Type) [LinearOrder N] where
  declarations : List (Decl N)
  entry : ModuleEntry N

/-- The declarations of every source module, and the paths that name one. -/
structure SymbolTables (N : Type) [LinearOrder N] where
  modules : InsertionMap (SourceDagId N) (SourceModule N)
  modulePaths : InsertionMap (N × List N) (SourceDagId N)

namespace SymbolTables

def empty : SymbolTables N := ⟨.empty, .empty⟩

/-- A new module whose path no other module has. -/
def newModulePath (isAtom : N → Bool) (tables : SymbolTables N) (owner : SourceDagId N) :
    Except (ModuleResolveError N) (Option (N × List N)) :=
  if tables.modules.contains owner then .error (.duplicateModule owner)
  else
    let key? := (modulePathKey isAtom owner).map (owner.package, ·)
    match key?.bind tables.modulePaths.get? with
    | some first => .error (.ambiguousModulePath first owner)
    | none => .ok key?

def insert (tables : SymbolTables N) (owner : SourceDagId N) (key? : Option (N × List N))
    (module : SourceModule N) : SymbolTables N where
  modules := tables.modules.insert owner module
  modulePaths := match key? with
    | some key => tables.modulePaths.insert key owner
    | none => tables.modulePaths

/-- Add a file root or an inline `dag`; its first error stands for all of them. -/
def addModule (isAtom : N → Bool) (tables : SymbolTables N)
    (source : SourceDagId N × List (Decl N)) :
    Except (ModuleResolveError N) (SymbolTables N) := do
  let key? ← newModulePath isAtom tables source.1
  let (entry, errors) := collectedEntry source.1 source.2
  match errors with
  | e :: _ => throw e
  | [] => return tables.insert source.1 key? ⟨source.2, entry⟩

end SymbolTables

/-- The insertions of a graph with an edge from each module to the templates it includes. -/
def includeGraph (order : List (SourceDagId N))
    (ownEdges : List (SourceDagId N × List (ModuleEdge N))) :
    List (Insertion (SourceDagId N) Unit) :=
  order.map .node ++ ownEdges.flatMap fun (owner, edges) =>
    (instantiations edges).map fun (_, template) => .dependency owner template ()

/-- Refuse a cycle of includes; the search always ends with an order or a cycle. -/
def rejectRecursiveIncludes (order : List (SourceDagId N))
    (ownEdges : List (SourceDagId N × List (ModuleEdge N))) : Except (ModuleResolveError N) Unit :=
  match (DependencyGraph.build (includeGraph order ownEdges)).intoDepthFirstOrder with
  | some (.error cycle) => .error (.recursiveIncludeExpansion cycle)
  | _ => .ok ()

/-- The modules with the instances allocated so far, each with its template. -/
structure Expanded (N : Type) [LinearOrder N] where
  modules : InsertionMap (SourceDagId N) (ModuleEntry N)
  instances : List (SourceDagId N × SourceDagId N)

/-- Add the instance `inst` of `template`, collected from the template's declarations. -/
def allocateInstance (declarations : SourceDagId N → Option (List (Decl N)))
    (inst template : SourceDagId N) (s : Expanded N) :
    Except (ModuleResolveError N) (Expanded N) :=
  match declarations template with
  | none => .error (.unknownModule template)
  | some declared =>
    if s.modules.contains inst then .error (.duplicateModule inst)
    else
      let (entry, errors) := collectedEntry inst declared
      match errors with
      | e :: _ => .error e
      | [] => .ok ⟨s.modules.insert inst entry, s.instances ++ [(inst, template)]⟩

/-- Add the instances of every include that `template` reaches, allocated from `base` on. -/
def expandInstances (edges : SourceDagId N → List (ModuleEdge N))
    (declarations : SourceDagId N → Option (List (Decl N))) :
    ℕ → SourceDagId N → SourceDagId N → Expanded N → Except (BuildError N) (Expanded N)
  | 0, _, _, _ => .error .outOfFuel
  | fuel + 1, base, template, s =>
    (instantiations (edges template)).foldlM (fun s (decl, nested) => do
      let inst := base.instanceChild decl.instanceScope
      let s ← (allocateInstance declarations inst nested s).mapError .resolve
      expandInstances edges declarations fuel inst nested s) s

/-- Every module with the source of its scope: its own edges, or the template of an instance. -/
structure ScopeBuilder (N : Type) [LinearOrder N] where
  resolver : ModuleResolver N
  own : List (SourceDagId N × List (ModuleEdge N))
  inherited : List (SourceDagId N × SourceDagId N)

/-- The edges of a source module. -/
def edgesOf (own : List (SourceDagId N × List (ModuleEdge N))) (owner : SourceDagId N) :
    List (ModuleEdge N) :=
  (own.lookup owner).getD []

/-- Connect every module's edges and expand the includes. -/
def SymbolTables.scopes (tables : SymbolTables N) (targets : ModuleTargets N) :
    Except (BuildError N) (ScopeBuilder N) := do
  let order := tables.modules.keys
  let own := tables.modules.entries.map fun (owner, module) =>
    (owner, moduleEdges targets owner module.declarations)
  (rejectRecursiveIncludes order own).mapError .resolve
  let declarations owner := (tables.modules.get? owner).map SourceModule.declarations
  let expanded ← order.foldlM (fun s root =>
    expandInstances (edgesOf own) declarations order.length root root s)
    ⟨tables.modules.map SourceModule.entry, []⟩
  return ⟨⟨expanded.modules⟩, own, expanded.instances⟩

/-! ## Scopes -/

namespace ModuleResolver

variable (reserved : Namespace → N → Bool) (resolver : ModuleResolver N)

/-- Give `inst` the current scope of its template. -/
def inheritScope (inst template : SourceDagId N) :
    Except (ModuleResolveError N) (ModuleResolver N) := do
  let scope ← resolver.moduleScope template
  let _ ← resolver.entry inst
  return resolver.updateEntry inst fun entry => { entry with scope := scope }

def registerEdge (owner : SourceDagId N) (edge : ModuleEdge N) :
    Except (ModuleResolveError N) (ModuleResolver N) :=
  match edge with
  | .importEdge decl target => resolver.registerImport reserved owner decl target
  | .includeEdge decl template => do
    let inst := owner.instanceChild decl.instanceScope
    let resolver ← resolver.inheritScope inst template
    let resolver ← resolver.registerInclude reserved owner decl.path decl.kind inst
    resolver.applyIncludeStaticProjectionBindings owner template decl

/-- Register the edges of a source module, in declaration order. -/
def completeOwnScope (owner : SourceDagId N) (edges : List (ModuleEdge N)) :
    Except (ModuleResolveError N) (ModuleResolver N) :=
  edges.foldlM (fun resolver edge => resolver.registerEdge reserved owner edge) resolver

end ModuleResolver

namespace ScopeBuilder

variable (builder : ScopeBuilder N)

/-- The source modules in the order in which their scopes are completed. -/
def completionOrder : List (SourceDagId N) :=
  PostOrderWalk.completionOrder (fun owner => (builder.own.lookup owner).isSome)
    (fun owner => (edgesOf builder.own owner).map dependency) (builder.own.map Prod.fst)

def completeScope (reserved : Namespace → N → Bool) (resolver : ModuleResolver N)
    (owner : SourceDagId N) : Except (ScopeError N) (ModuleResolver N) :=
  (resolver.completeOwnScope reserved owner (edgesOf builder.own owner)).mapError (⟨owner, ·⟩)

/-- Complete every scope, and give each instance the scope of its template. -/
def freeze (reserved : Namespace → N → Bool) : Except (ScopeError N) (ModuleResolver N) := do
  let resolver ← builder.completionOrder.foldlM (builder.completeScope reserved) builder.resolver
  builder.inherited.foldlM (fun resolver (inst, template) =>
    (resolver.inheritScope inst template).mapError (⟨inst, ·⟩)) resolver

end ScopeBuilder

/-- The resolver of source modules, connected as the targets say. -/
def ModuleResolver.build (spellings : Spellings N) (targets : ModuleTargets N)
    (sources : List (SourceDagId N × List (Decl N))) : Except (BuildError N) (ModuleResolver N) := do
  let tables ← (sources.foldlM (SymbolTables.addModule spellings.isAtom) .empty).mapError .resolve
  let builder ← tables.scopes targets
  (builder.freeze spellings.reserved).mapError fun e => .resolve e.error

/-!
# Which places hold a name

A module holds a name in tables of declarations and of selective imports, and among its aliases.
The board of a module forgets what is bound there and keeps the visibility of the binding.
-/

inductive Place
  | declared (t : SymbolTable)
  | selected (t : SymbolTable)
  | moduleAlias
  | pluginAlias
  deriving DecidableEq

def Place.namespaceOf : Place → Namespace
  | declared t | selected t => t.namespaceOf
  | moduleAlias | pluginAlias => .term

/-- The visibility of what each place binds a name to. -/
abbrev Board (N : Type) := Place → N → Option BindableVisibility

variable {N : Type}
variable {v : BindableVisibility} {places : List Place} {name : N} {ns : Namespace} {p : Place}

namespace Board

/-- No place of the slot has the name. -/
def Free (board : Board N) (ns : Namespace) (name : N) : Prop :=
  ∀ p : Place, p.namespaceOf = ns → board p name = none

/-- Exactly these places of their slot have the name, with this visibility. -/
structure Holds (board : Board N) (places : List Place) (name : N) (v : BindableVisibility) :
    Prop where
  at_place : ∀ p ∈ places, board p name = some v
  elsewhere : ∀ p ∈ places, ∀ p' : Place, p'.namespaceOf = p.namespaceOf → p' ∉ places →
    board p' name = none

/-- The slot has the same bindings on both boards. -/
def SameSlot (board board' : Board N) (ns : Namespace) (name : N) : Prop :=
  ∀ p : Place, p.namespaceOf = ns → board' p name = board p name

/-- Each name has at most one place in each namespace. -/
def OneBindingPerSlot (board : Board N) : Prop :=
  ∀ name p p', p.namespaceOf = p'.namespaceOf → board p name ≠ none → board p' name ≠ none → p = p'

variable {board : Board N}

theorem Free.congr {board' : Board N} (h : board.Free ns name)
    (hsame : SameSlot board board' ns name) : board'.Free ns name :=
  fun p hp => (hsame p hp).trans (h p hp)

theorem Holds.congr {board' : Board N} (h : board.Holds (p :: places) name v)
    (hplaces : ∀ q ∈ places, q.namespaceOf = p.namespaceOf)
    (hsame : SameSlot board board' p.namespaceOf name) : board'.Holds (p :: places) name v := by
  have hns : ∀ q ∈ p :: places, q.namespaceOf = p.namespaceOf :=
    List.forall_mem_cons.mpr ⟨rfl, hplaces⟩
  refine ⟨fun q hq => ?_, fun q hq p' hp' hne => ?_⟩
  · rw [hsame q (hns q hq)]
    exact h.at_place q hq
  · rw [hsame p' (hp'.trans (hns q hq))]
    exact h.elsewhere q hq p' hp' hne

theorem Holds.not_free (h : board.Holds (p :: places) name v) :
    ¬ board.Free p.namespaceOf name := by
  intro hfree
  have hp := h.at_place p List.mem_cons_self
  rw [hfree p rfl] at hp
  cases hp

/-- The board with one binding set or removed. -/
def put [DecidableEq N] (board : Board N) (p : Place) (name : N) (v? : Option BindableVisibility) :
    Board N :=
  fun q n => if q = p ∧ n = name then v? else board q n

theorem put_sameSlot [DecidableEq N] (board : Board N) (v? : Option BindableVisibility) {name' : N}
    (h : (ns, name') ≠ (p.namespaceOf, name)) : SameSlot board (board.put p name v?) ns name' := by
  intro q hq
  refine if_neg fun ⟨hqp, hname⟩ => h ?_
  rw [← hq, hqp, hname]

theorem put_holds [DecidableEq N]
    (h : ∀ q : Place, q.namespaceOf = p.namespaceOf → q ≠ p → board q name = none)
    (v : BindableVisibility) : (board.put p name (some v)).Holds [p] name v := by
  refine ⟨fun q hq => ?_, fun q hq q' hq' hne => ?_⟩
  · rw [List.mem_singleton.mp hq]
    exact if_pos ⟨rfl, rfl⟩
  · rw [List.mem_singleton] at hq hne
    subst hq
    exact (if_neg fun h => hne h.1).trans (h q' hq' hne)

theorem SameSlot.trans {board board' board'' : Board N} {ns : Namespace} {name : N}
    (h : SameSlot board board' ns name) (h' : SameSlot board' board'' ns name) :
    SameSlot board board'' ns name :=
  fun p hp => (h' p hp).trans (h p hp)

end Board

variable [LinearOrder N]

/-- The places that a module's tables fill. -/
def ModuleEntry.board (entry : ModuleEntry N) : Board N
  | .declared t, name => ((entry.symbols.tables t).get? name).map (·.visibility)
  | .selected t, name => ((entry.scope.selected t).get? name).map (·.visibility)
  | .moduleAlias, name => (entry.scope.moduleAliases.get? name).map (·.visibility)
  | .pluginAlias, name => (entry.scope.pluginAliases.get? name).map fun _ => .priv

theorem tables_board_set (tables : Tables N) (t t' : SymbolTable) (name name' : N)
    (symbol? : Option (Symbol N t)) :
    (((tables.set t name symbol?) t').get? name').map (·.visibility) =
      if t' = t ∧ name' = name then symbol?.map (·.visibility)
      else ((tables t').get? name').map (·.visibility) := by
  split_ifs with h
  · obtain ⟨rfl, rfl⟩ := h
    rw [Tables.get?_set_self]
  · rw [Tables.get?_set_of_ne]
    exact fun ht hname => h ⟨ht, hname⟩

/-- A slot is free in a module when neither its symbols nor its scope have an occupant. -/
theorem ModuleEntry.occupant_eq_none {entry : ModuleEntry N} {ns : Namespace} {name : N} :
    (entry.symbols.occupant ns name <|> entry.scope.occupant ns name) = none ↔
      entry.board.Free ns name := by
  have hdeclared : entry.symbols.occupant ns name = none ↔
      ∀ t : SymbolTable, t.namespaceOf = ns → entry.board (.declared t) name = none := by
    rw [ModuleSymbols.occupant, Tables.occupant_eq_none]
    simp only [ModuleEntry.board, Option.map_eq_none_iff]
  have hselected : entry.scope.selected.occupant ns name = none ↔
      ∀ t : SymbolTable, t.namespaceOf = ns → entry.board (.selected t) name = none := by
    rw [Tables.occupant_eq_none]
    simp only [ModuleEntry.board, Option.map_eq_none_iff]
  have hscope : entry.scope.occupant ns name = none ↔
      (∀ t : SymbolTable, t.namespaceOf = ns → entry.board (.selected t) name = none) ∧
        (ns = .term → entry.board .moduleAlias name = none ∧
          entry.board .pluginAlias name = none) := by
    rw [← hselected]
    cases ns <;> simp [ModuleScope.occupant, ModuleEntry.board]
  have hor : ∀ a b : Option Occupant, (a <|> b) = none ↔ a = none ∧ b = none := by
    intro a b
    cases a <;> simp
  rw [hor, hdeclared, hscope]
  constructor
  · rintro ⟨hd, hs, halias⟩ (t | t | _ | _) hp
    · exact hd t hp
    · exact hs t hp
    · exact (halias hp.symm).1
    · exact (halias hp.symm).2
  · exact fun h => ⟨fun t ht => h (.declared t) ht, fun t ht => h (.selected t) ht,
      fun hns => ⟨h .moduleAlias hns.symm, h .pluginAlias hns.symm⟩⟩

theorem ModuleEntry.board_setSelected (entry : ModuleEntry N) (t : SymbolTable) (name : N)
    (symbol? : Option (Symbol N t)) : (entry.setSelected t name symbol?).board =
      entry.board.put (.selected t) name (symbol?.map (·.visibility)) := by
  funext p n
  cases p with
  | selected t' =>
    simp only [Board.put, Place.selected.injEq]
    exact tables_board_set entry.scope.selected t t' name n symbol?
  | declared t' => simp [Board.put, ModuleEntry.board, ModuleEntry.setSelected]
  | moduleAlias => simp [Board.put, ModuleEntry.board, ModuleEntry.setSelected]
  | pluginAlias => simp [Board.put, ModuleEntry.board, ModuleEntry.setSelected]

/-- Symbols enter the board by their tables only. -/
theorem ModuleEntry.board_setDeclared (entry : ModuleEntry N) (t : SymbolTable) (name : N)
    (symbol? : Option (Symbol N t)) {symbols : ModuleSymbols N}
    (h : symbols.tables = entry.symbols.tables.set t name symbol?) :
    ({ entry with symbols := symbols } : ModuleEntry N).board =
      entry.board.put (.declared t) name (symbol?.map (·.visibility)) := by
  funext p n
  cases p with
  | declared t' =>
    simp only [Board.put, Place.declared.injEq, ModuleEntry.board, h]
    exact tables_board_set entry.symbols.tables t t' name n symbol?
  | selected t' => simp [Board.put, ModuleEntry.board]
  | moduleAlias => simp [Board.put, ModuleEntry.board]
  | pluginAlias => simp [Board.put, ModuleEntry.board]

/-- The place that an edge binds a target in. -/
def ImportTarget.place : ImportTarget N → Place
  | .moduleAlias .. => .moduleAlias
  | .symbol t _ => .selected t

omit [LinearOrder N] in
@[simp] theorem ImportTarget.namespaceOf_place (target : ImportTarget N) :
    target.place.namespaceOf = target.namespaceOf := by
  cases target <;> rfl

theorem ModuleEntry.board_install (entry : ModuleEntry N) (addition : ImportAddition N) :
    ({ entry with scope := entry.scope.install addition } : ModuleEntry N).board =
      entry.board.put addition.target.place addition.name (some addition.visibility) := by
  obtain ⟨name, visibility, target⟩ := addition
  cases target with
  | symbol t symbol =>
    exact entry.board_setSelected t name (some (symbol.rebind visibility))
  | moduleAlias target access role =>
    funext p n
    cases p with
    | moduleAlias =>
      simp only [ModuleEntry.board, ModuleScope.install, SortedMap.get?_insert, Board.put,
        ImportTarget.place, true_and]
      split_ifs <;> rfl
    | declared t => simp [Board.put, ModuleEntry.board, ImportTarget.place]
    | selected t => simp [Board.put, ModuleEntry.board, ModuleScope.install, ImportTarget.place]
    | pluginAlias => simp [Board.put, ModuleEntry.board, ModuleScope.install, ImportTarget.place]

/-- The board after the projection of one item. -/
theorem StaticUpdate.board_apply (update : StaticUpdate N) (entry : ModuleEntry N) :
    (update.apply entry).board = match update with
      | .keep => entry.board
      | .select t name symbol => entry.board.put (.selected t) name (some symbol.visibility)
      | .projectType name _ symbol =>
        (entry.board.put (.selected .structType) name none).put (.declared .structType) name
          (some symbol.visibility)
      | .projectDimension name _ symbol =>
        (entry.board.put (.selected .dimension) name none).put (.declared .dimension) name
          (some symbol.visibility)
      | .projectIndex name _ symbol =>
        entry.board.put (.declared .index) name (some symbol.visibility) := by
  cases update with
  | keep => rfl
  | select t name symbol => exact entry.board_setSelected t name (some symbol)
  | projectType name projection symbol =>
    have hselected := entry.board_setSelected .structType name none
    dsimp only
    rw [← Option.map_none, ← hselected]
    exact (entry.setSelected .structType name none).board_setDeclared _ _ (some symbol) rfl
  | projectDimension name projection symbol =>
    have hselected := entry.board_setSelected .dimension name none
    dsimp only
    rw [← Option.map_none, ← hselected]
    exact (entry.setSelected .dimension name none).board_setDeclared _ _ (some symbol) rfl
  | projectIndex name finite? symbol =>
    exact entry.board_setDeclared _ _ (some symbol) rfl

end ProvenGraphcal.Resolve
