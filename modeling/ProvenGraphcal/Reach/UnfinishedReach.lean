import ProvenGraphcal.Instance.Record
import ProvenGraphcal.Library.Worklist
import ProvenGraphcal.Registry.SlotOrder

/-!
# Checked programs

The DAGs of one file and of everything it imports, with the declarations, include edges and
dependency tables that the compiler's later passes read. `K` is what an expression node holds
besides its children.
-/

namespace ProvenGraphcal

open List (mem_append mem_filter mem_filterMap mem_flatMap mem_map mem_reverse)

variable {N A K : Type}

/-- A value, assertion or visualization declaration. -/
inductive CheckedDecl (N A K : Type)
  | const (identity : ResolvedName N A) (expr : HirExpr K)
  | param (identity : ResolvedName N A) (default : Option (HirExpr K))
  | node (identity : ResolvedName N A) (definition : HirExpr K)
  | assert (identity : ResolvedName N A)
  | plot (identity : ResolvedName N A)
  | figure (identity : ResolvedName N A)
  | layer (identity : ResolvedName N A)

def CheckedDecl.identity : CheckedDecl N A K → ResolvedName N A
  | const identity _ => identity
  | param identity _ => identity
  | node identity _ => identity
  | assert identity => identity
  | plot identity => identity
  | figure identity => identity
  | layer identity => identity

/-- The declarations of the DAG `owner`, in source order. -/
structure DeclTable (N A K : Type) (owner : DagId N A) where
  decls : List (CheckedDecl N A K)
  owned : ∀ decl ∈ decls, decl.identity.owner = owner
  distinct : (decls.map CheckedDecl.identity).Nodup

section Bodies

variable [LinearOrder (DagId N A)] [DecidableEq N]

def DeclTable.get {owner : DagId N A} (table : DeclTable N A K owner)
    (key : ResolvedName N A) : Option (CheckedDecl N A K) :=
  table.decls.find? fun decl => decl.identity = key

/-- One inline call of `target`, projecting its declaration `output`. -/
structure DagCallRead (N A : Type) where
  target : DagId N A
  output : ResolvedName N A
  binds : Bool

/-- What each declaration of one body reads. -/
structure ResolvedDagDependencies (N A : Type) where
  runtimeDeps : List (ResolvedName N A × List (ResolvedName N A))
  constDeps : List (ResolvedName N A × List (ResolvedName N A))
  assertDeps : List (ResolvedName N A × List (ResolvedName N A))
  presentationDeps : List (ResolvedName N A × List (ResolvedName N A))
  callReads : List (ResolvedName N A × List (DagCallRead N A))

/-- A checked body. -/
structure CheckedDag (N A K : Type) [LinearOrder (DagId N A)] where
  dagId : DagId N A
  frame : InstanceFrame N A
  decls : DeclTable N A K dagId
  semanticInstances : List (HirInstanceRecord N A K)
  dependencies : ResolvedDagDependencies N A

namespace CheckedDag

def isSemanticInstance (dag : CheckedDag N A K) : Bool := dag.frame.isInstance

/-- Whether `key` is a constant or node whose formula contains a hole. -/
def isUnfinished (dag : CheckedDag N A K) (key : ResolvedName N A) : Bool :=
  match dag.decls.get key with
  | some (.node _ definition) => definition.containsTodoHole
  | some (.const _ expr) => expr.containsTodoHole
  | _ => false

/-- The identities of the declarations, in source order. -/
def declarations (dag : CheckedDag N A K) : List (ResolvedName N A) :=
  dag.decls.decls.map CheckedDecl.identity

end CheckedDag

instance : SlotBody (CheckedDag N A K) (CheckedDag N A K) (DagId N A) where
  ofShared dag := dag
  slotId := CheckedDag.dagId
  dagId := CheckedDag.dagId
  slotId_ofShared _ := rfl

/-- The checked DAGs of one file and of everything it imports. -/
structure CheckedDagRegistry (N A K : Type) [LinearOrder (DagId N A)] [DecidableEq N] where
  dags : DagSlots (CheckedDag N A K) (CheckedDag N A K) (DagId N A)
  aligned : dags.Aligned

variable {registry : CheckedDagRegistry N A K}

namespace CheckedDagRegistry

/-- The DAG with this identity. -/
def get (registry : CheckedDagRegistry N A K) (id : DagId N A) : Option (CheckedDag N A K) :=
  (registry.dags.position id).bind registry.dags.bodyAt

/-- Every DAG, in position order. -/
def values (registry : CheckedDagRegistry N A K) : List (CheckedDag N A K) :=
  (List.range registry.dags.len).filterMap registry.dags.bodyAt

/-- The include edge that materializes the instance `owner`. -/
def instanceEdge (registry : CheckedDagRegistry N A K) (owner : DagId N A) :
    Option (HirInstanceRecord N A K) := do
  let dag ← registry.get (← owner.parent)
  dag.semanticInstances.find? fun record => record.id.owner = owner

/-- The template declaration that the instance owning `declaration` copies it from. -/
def templateDeclarationOf (registry : CheckedDagRegistry N A K)
    (declaration : ResolvedName N A) : Option (ResolvedName N A) :=
  (registry.instanceEdge declaration.owner).map fun record =>
    templateDeclaration record.id declaration.leaf

/-- The registry has the DAG `id` with body `dag` exactly when `dag` is one of its DAGs. -/
theorem mem_values_of_get {id : DagId N A} {dag : CheckedDag N A K}
    (h : registry.get id = some dag) : dag ∈ registry.values := by
  obtain ⟨p, -, hbody⟩ := Option.bind_eq_some_iff.mp h
  exact mem_filterMap.mpr
    ⟨p, List.mem_range.mpr (DagSlots.Aligned.bodyAt_lt hbody), hbody⟩

/-- An edge is found under the instance it materializes. -/
theorem instanceEdge_owner {owner : DagId N A} {record : HirInstanceRecord N A K}
    (h : registry.instanceEdge owner = some record) :
    record.id.owner = owner := by
  obtain ⟨parent, -, h⟩ := Option.bind_eq_some_iff.mp h
  obtain ⟨dag, -, hfind⟩ := Option.bind_eq_some_iff.mp h
  have howner := List.find?_some hfind
  exact of_decide_eq_true howner

/-- A template is canonical: nothing is copied from it into it. -/
theorem templateDeclarationOf_template (registry : CheckedDagRegistry N A K)
    (id : InstanceId N A) (name : N) :
    registry.templateDeclarationOf (templateDeclaration id name) = none := by
  rw [templateDeclarationOf, Option.map_eq_none_iff]
  cases hedge : registry.instanceEdge (templateDeclaration id name).owner with
  | none => rfl
  | some record =>
    have howner : record.id.owner = id.template := instanceEdge_owner hedge
    have hleaf := id.canonical
    rw [← howner, InstanceId.owner, DagId.leaf_instanceChild] at hleaf
    cases hleaf

end CheckedDagRegistry

/-- A checked file. -/
structure CheckedTir (N A K : Type) [LinearOrder (DagId N A)] [DecidableEq N] where
  dags : CheckedDagRegistry N A K

/-- Every DAG of the file: its root and the descendants of the root. -/
def CheckedTir.localDags [DecidableEq A] (tir : CheckedTir N A K) :
    Option (List (DagId N A × CheckedDag N A K)) := do
  let root ← tir.dags.dags.root
  let locals ← tir.dags.dags.localIter
  return locals.filter fun e => e.1 = root.dagId || e.1.isDescendantOf root.dagId

end Bodies

/-!
# The unfinished declarations a checked file is answerable for

A file accounts for its own unfinished declarations, used or not, and for every unfinished
declaration of another module that one of its declarations or include sites reaches.
-/

open Relation

variable [LinearOrder (DagId N A)] [DecidableEq N]

/-- Every declaration `declaration` of `dag` reads directly, including the outputs of the inline
calls it makes. -/
def reads (dag : CheckedDag N A K) (declaration : ResolvedName N A) : List (ResolvedName N A) :=
  let dependencies := dag.dependencies
  ([dependencies.constDeps, dependencies.runtimeDeps, dependencies.assertDeps,
      dependencies.presentationDeps].filterMap fun map => map.lookup declaration).flatten ++
    ((dependencies.callReads.lookup declaration).getD []).map DagCallRead.output

namespace CheckedDagRegistry

/-- The DAG that runs the instance of `record`. -/
def semanticInstance (registry : CheckedDagRegistry N A K) (record : HirInstanceRecord N A K) :
    Option (HirInstanceRecord N A K × CheckedDag N A K) :=
  (registry.get record.id.owner).map (record, ·)

end CheckedDagRegistry

/-- Every instance declaration an include site exposes. -/
def exposedTargets (inst : HirInstanceRecord N A K × CheckedDag N A K) : List (ResolvedName N A) :=
  let resolve := fun target : LocalDecl N A => inst.2.frame.rebase target.definition
  inst.1.outputProjections.map (fun projection => resolve projection.target) ++
    inst.1.assertionProjections.map (fun projection => resolve projection.target) ++
      inst.1.plotProjections.map fun projection => resolve projection.target

/-- The declaration a source file defines that `declaration` is; a template is canonical, so the
loop is left after at most one iteration. -/
def sourceDeclaration (registry : CheckedDagRegistry N A K) (declaration : ResolvedName N A) :
    ResolvedName N A :=
  Loop.runWhile registry.templateDeclarationOf 1 declaration

/-- The walk: the pending declarations, the next one first, and the sets it fills. -/
structure UnfinishedWalk (N A : Type) where
  pending : List (ResolvedName N A)
  visited : Finset (ResolvedName N A)
  unfinished : Finset (ResolvedName N A)

/-- One iteration. -/
def UnfinishedWalk.visit (registry : CheckedDagRegistry N A K) (s : UnfinishedWalk N A) :
    Option (UnfinishedWalk N A) :=
  match s.pending with
  | [] => none
  | declaration :: pending =>
    if declaration ∈ s.visited then some { s with pending := pending }
    else
      let visited := insert declaration s.visited
      match registry.get declaration.owner with
      | none => some ⟨pending, visited, s.unfinished⟩
      | some dag =>
        let unfinished := if dag.isUnfinished declaration then
          insert (sourceDeclaration registry declaration) s.unfinished else s.unfinished
        some ⟨(reads dag declaration).reverse ++ pending, visited, unfinished⟩

/-- Every declaration that some declaration of the registry reads. -/
def CheckedDagRegistry.targets (registry : CheckedDagRegistry N A K) : List (ResolvedName N A) :=
  registry.values.flatMap fun dag =>
    let dependencies := dag.dependencies
    [dependencies.constDeps, dependencies.runtimeDeps, dependencies.assertDeps,
      dependencies.presentationDeps].flatten.flatMap Prod.snd ++
    (dependencies.callReads.flatMap Prod.snd).map DagCallRead.output

/-- What the walk pushes when it visits `declaration`. -/
def pushedReads (registry : CheckedDagRegistry N A K) (declaration : ResolvedName N A) :
    List (ResolvedName N A) :=
  ((registry.get declaration.owner).elim [] fun dag => reads dag declaration).reverse

/-- The state in which the walk from `start` is left. -/
def walkFrom (registry : CheckedDagRegistry N A K) (start : List (ResolvedName N A)) :
    UnfinishedWalk N A :=
  Loop.runWhile (UnfinishedWalk.visit registry)
    (Worklist.fuel (pushedReads registry) (start ++ registry.targets) start.reverse)
    ⟨start.reverse, ∅, ∅⟩

/-- The declarations the walk of a file starts from: those of its own DAGs, and those its include
sites expose. -/
def startingDeclarations (registry : CheckedDagRegistry N A K)
    (localDags : List (DagId N A × CheckedDag N A K)) : List (ResolvedName N A) :=
  let ownDags := (localDags.filter fun e => !e.2.isSemanticInstance).map Prod.snd
  ownDags.flatMap CheckedDag.declarations ++
    ((ownDags.flatMap CheckedDag.semanticInstances).filterMap
      registry.semanticInstance).flatMap exposedTargets

/-- The unfinished declarations the file is answerable for; `none` stands for an index that
panics. -/
def CheckedTir.reachableUnfinished [DecidableEq A] (tir : CheckedTir N A K) :
    Option (Finset (ResolvedName N A)) := do
  let localDags ← tir.localDags
  return (walkFrom tir.dags (startingDeclarations tir.dags localDags)).unfinished

/-- A dependency table of `declaration`'s DAG lists `target` under `declaration`. -/
def RunsReading (registry : CheckedDagRegistry N A K) (declaration target : ResolvedName N A) : Prop :=
  ∃ dag, registry.get declaration.owner = some dag ∧
    ∃ map ∈ [dag.dependencies.constDeps, dag.dependencies.runtimeDeps,
        dag.dependencies.assertDeps, dag.dependencies.presentationDeps],
      ∃ targets, map.lookup declaration = some targets ∧ target ∈ targets

/-- `declaration` makes an inline call that projects `target`. -/
def Calls (registry : CheckedDagRegistry N A K) (declaration target : ResolvedName N A) : Prop :=
  ∃ dag, registry.get declaration.owner = some dag ∧
    ∃ calls, dag.dependencies.callReads.lookup declaration = some calls ∧
      ∃ call ∈ calls, call.output = target

/-- An include of `dag` exposes `target`, in the frame of the DAG that runs the instance. -/
def Includes (registry : CheckedDagRegistry N A K) (dag : CheckedDag N A K)
    (target : ResolvedName N A) : Prop :=
  ∃ record ∈ dag.semanticInstances, ∃ inst,
    registry.get record.id.owner = some inst ∧
      ∃ exposed ∈ record.outputProjections.map InstanceValueProjection.target ++
          record.assertionProjections.map InstanceAssertionProjection.target ++
          record.plotProjections.map InstancePlotProjection.target,
        inst.frame.rebase exposed.definition = target

/-- The registry has `declaration`, a constant or node whose formula contains a hole. -/
def Unfinished (registry : CheckedDagRegistry N A K) (declaration : ResolvedName N A) : Prop :=
  ∃ dag, registry.get declaration.owner = some dag ∧ dag.isUnfinished declaration = true

/-- Following include instances back to their templates from `declaration` ends at `source`. -/
def SourceOf (registry : CheckedDagRegistry N A K) (declaration source : ResolvedName N A) : Prop :=
  ReflTransGen (fun copy original => registry.templateDeclarationOf copy = some original)
      declaration source ∧
    registry.templateDeclarationOf source = none

/-- A DAG the file writes itself: its root or a descendant of it, no instance. -/
def OwnDag [DecidableEq A] (tir : CheckedTir N A K) (dag : CheckedDag N A K) : Prop :=
  dag ∈ tir.dags.dags.locals ∧ dag.frame.isInstance = false ∧
    ∃ root, tir.dags.dags.root = some root ∧
      (dag.dagId = root.dagId ∨ dag.dagId.isDescendantOf root.dagId = true)

theorem sourceDeclaration_ends (registry : CheckedDagRegistry N A K)
    (declaration : ResolvedName N A) :
    registry.templateDeclarationOf (sourceDeclaration registry declaration) = none := by
  unfold sourceDeclaration
  cases htemplate : registry.templateDeclarationOf declaration with
  | none => rwa [Loop.runWhile_none htemplate]
  | some template =>
    rw [Loop.runWhile_some htemplate, Loop.runWhile_zero]
    obtain ⟨record, -, rfl⟩ := Option.map_eq_some_iff.mp htemplate
    exact registry.templateDeclarationOf_template _ _

variable {registry : CheckedDagRegistry N A K} {declaration : ResolvedName N A}

theorem sourceOf_iff {source : ResolvedName N A} :
    SourceOf registry declaration source ↔ sourceDeclaration registry declaration = source := by
  constructor
  · rintro ⟨hpath, hend⟩
    unfold sourceDeclaration
    obtain rfl | ⟨template, htemplate, hrest⟩ := ReflTransGen.cases_head hpath
    · exact Loop.runWhile_none hend 1
    · rw [Loop.runWhile_some htemplate, Loop.runWhile_zero]
      obtain rfl | ⟨next, hnext, -⟩ := ReflTransGen.cases_head hrest
      · rfl
      · obtain ⟨record, -, rfl⟩ := Option.map_eq_some_iff.mp htemplate
        rw [registry.templateDeclarationOf_template] at hnext
        cases hnext
  · rintro rfl
    refine ⟨?_, sourceDeclaration_ends registry declaration⟩
    unfold sourceDeclaration
    cases htemplate : registry.templateDeclarationOf declaration with
    | none => rw [Loop.runWhile_none htemplate]
    | some template =>
      rw [Loop.runWhile_some htemplate, Loop.runWhile_zero]
      exact .single htemplate

/-! ## The walk as a worklist -/

theorem mem_reads {dag : CheckedDag N A K} {target : ResolvedName N A} :
    target ∈ reads dag declaration ↔
      (∃ map ∈ [dag.dependencies.constDeps, dag.dependencies.runtimeDeps,
          dag.dependencies.assertDeps, dag.dependencies.presentationDeps],
        ∃ targets, map.lookup declaration = some targets ∧ target ∈ targets) ∨
      ∃ calls, dag.dependencies.callReads.lookup declaration = some calls ∧
        ∃ call ∈ calls, call.output = target := by
  rw [reads, mem_append, List.mem_flatten]
  refine or_congr ⟨?_, ?_⟩ ?_
  · rintro ⟨targets, htargets, hmem⟩
    obtain ⟨map, hmap, hlookup⟩ := mem_filterMap.mp htargets
    exact ⟨map, hmap, targets, hlookup, hmem⟩
  · rintro ⟨map, hmap, targets, hlookup, hmem⟩
    exact ⟨targets, mem_filterMap.mpr ⟨map, hmap, hlookup⟩, hmem⟩
  · cases hcalls : dag.dependencies.callReads.lookup declaration with
    | none => simp
    | some calls => simp

/-- The walk pushes what the visited declaration reads or calls. -/
theorem mem_pushedReads {target : ResolvedName N A} :
    target ∈ pushedReads registry declaration ↔
      RunsReading registry declaration target ∨ Calls registry declaration target := by
  unfold pushedReads RunsReading Calls
  rw [mem_reverse]
  cases registry.get declaration.owner with
  | none => simp
  | some dag =>
    have hmem : target ∈ (some dag).elim [] (fun dag => reads dag declaration) ↔
        target ∈ reads dag declaration := Iff.rfl
    rw [hmem, mem_reads]
    simp only [Option.some.injEq, exists_eq_left']

theorem mem_of_lookup {V : Type} {table : List (ResolvedName N A × V)} {key : ResolvedName N A}
    {value : V} (h : table.lookup key = some value) : (key, value) ∈ table := by
  obtain ⟨l, r, rfl, -⟩ := List.lookup_eq_some_iff.mp h
  simp

theorem mem_targets {target : ResolvedName N A} (h : target ∈ pushedReads registry declaration) :
    target ∈ registry.targets := by
  rcases mem_pushedReads.mp h with ⟨dag, hdag, map, hmap, targets, hlookup, hmem⟩ |
    ⟨dag, hdag, calls, hlookup, call, hcall, rfl⟩
  · refine mem_flatMap.mpr ⟨dag, CheckedDagRegistry.mem_values_of_get hdag, ?_⟩
    refine List.mem_append_left _ (mem_flatMap.mpr ⟨(declaration, targets), ?_, hmem⟩)
    exact List.mem_flatten.mpr ⟨map, hmap, mem_of_lookup hlookup⟩
  · refine mem_flatMap.mpr ⟨dag, CheckedDagRegistry.mem_values_of_get hdag, ?_⟩
    refine List.mem_append_right _ (List.mem_map_of_mem ?_)
    exact mem_flatMap.mpr ⟨(declaration, calls), mem_of_lookup hlookup, hcall⟩

/-- The state agrees with a worklist's, and holds the sources of the unfinished visited
declarations. -/
structure WalkTracks (registry : CheckedDagRegistry N A K) (s : UnfinishedWalk N A)
    (w : Worklist (ResolvedName N A)) : Prop where
  pending : s.pending = w.pending
  visited : ∀ d, d ∈ s.visited ↔ d ∈ w.visited
  unfinished : ∀ source, source ∈ s.unfinished ↔
    ∃ d ∈ w.visited, Unfinished registry d ∧ sourceDeclaration registry d = source

theorem WalkTracks.visit {registry : CheckedDagRegistry N A K} {s : UnfinishedWalk N A}
    {w : Worklist (ResolvedName N A)} (h : WalkTracks registry s w) :
    Option.Rel (WalkTracks registry) (s.visit registry) (w.visit (pushedReads registry)) := by
  unfold UnfinishedWalk.visit Worklist.visit
  rw [← h.pending]
  cases hpending : s.pending with
  | nil => exact .none
  | cons d rest =>
    by_cases hd : d ∈ s.visited
    · simp only [if_pos hd, if_pos ((h.visited d).mp hd)]
      exact .some ⟨rfl, h.visited, h.unfinished⟩
    · simp only [if_neg hd, if_neg fun hw => hd ((h.visited d).mpr hw)]
      have hvisited : ∀ e, e ∈ insert d s.visited ↔ e ∈ d :: w.visited := fun e => by
        rw [Finset.mem_insert, List.mem_cons, h.visited]
      have hcons : ∀ source, (∃ e ∈ d :: w.visited, Unfinished registry e ∧
          sourceDeclaration registry e = source) ↔
          (Unfinished registry d ∧ sourceDeclaration registry d = source) ∨
            source ∈ s.unfinished := fun source => by
        rw [List.exists_mem_cons_iff, h.unfinished]
      have hdag : Unfinished registry d ↔
          ∃ dag, registry.get d.owner = some dag ∧ dag.isUnfinished d = true := Iff.rfl
      unfold pushedReads
      cases hget : registry.get d.owner with
      | none =>
        refine .some ⟨rfl, hvisited, fun source => ?_⟩
        rw [hcons, hdag, hget]
        simp
      | some dag =>
        refine .some ⟨rfl, hvisited, fun source => ?_⟩
        rw [hcons, hdag, hget]
        simp only [Option.some.injEq, exists_eq_left']
        by_cases hunfinished : dag.isUnfinished d = true
        · rw [if_pos hunfinished, Finset.mem_insert, eq_comm, and_iff_right hunfinished]
        · rw [if_neg hunfinished, or_iff_right fun h => hunfinished h.1]

theorem mem_universe (registry : CheckedDagRegistry N A K) (start : List (ResolvedName N A)) :
    (∀ d ∈ start.reverse, d ∈ start ++ registry.targets) ∧
      ∀ d ∈ start ++ registry.targets, ∀ e ∈ pushedReads registry d,
        e ∈ start ++ registry.targets :=
  ⟨fun _ hd => List.mem_append_left _ (mem_reverse.mp hd),
    fun _ _ _ he => List.mem_append_right _ (mem_targets he)⟩

/-- The walk ends, and its result are the sources of the unfinished declarations reached. -/
theorem walkFrom_spec (registry : CheckedDagRegistry N A K) (start : List (ResolvedName N A)) :
    (walkFrom registry start).visit registry = none ∧
      ∀ source, source ∈ (walkFrom registry start).unfinished ↔
        ∃ d, (∃ d₀ ∈ start, ReflTransGen
            (fun a b => RunsReading registry a b ∨ Calls registry a b) d₀ d) ∧
          Unfinished registry d ∧ SourceOf registry d source := by
  obtain ⟨hstart, hclosed⟩ := mem_universe registry start
  have htracks : WalkTracks registry (walkFrom registry start)
      (Worklist.run (pushedReads registry) (start ++ registry.targets) start.reverse) :=
    Loop.runWhile_simulates (WalkTracks registry) (fun _ _ h => h.visit) _
      ⟨rfl, fun d => by simp, fun source => by simp⟩
  constructor
  · have hpending := Worklist.run_pending hstart hclosed
    unfold UnfinishedWalk.visit
    rw [htracks.pending, hpending]
  · intro source
    rw [htracks.unfinished]
    simp only [Worklist.mem_run_visited hstart hclosed, Worklist.Reached, mem_pushedReads,
      mem_reverse, sourceOf_iff]

section File

variable [DecidableEq A]

/-- The file starts from the declarations of its own DAGs and from what their includes expose. -/
theorem startingDeclarations_spec (tir : CheckedTir N A K) :
    ∃ localDags, tir.localDags = some localDags ∧
      ∀ d, d ∈ startingDeclarations tir.dags localDags ↔
        ∃ dag, OwnDag tir dag ∧ (d ∈ dag.declarations ∨ Includes tir.dags dag d) := by
  have haligned := tir.dags.aligned
  obtain ⟨visited, hvisited, hmem⟩ := haligned.mem_localIter
  obtain ⟨root, hroot⟩ : ∃ root, tir.dags.dags.root = some root :=
    ⟨_, List.getElem?_eq_getElem haligned.locals_pos⟩
  refine ⟨_, by rw [CheckedTir.localDags, hroot, hvisited]; rfl, fun d => ?_⟩
  have hown : ∀ dag, dag ∈ (List.map Prod.snd (List.filter (fun e => !e.2.isSemanticInstance)
      (visited.filter fun e => e.1 = root.dagId || e.1.isDescendantOf root.dagId))) ↔
        OwnDag tir dag := by
    intro dag
    rw [mem_map]
    constructor
    · rintro ⟨e, he, rfl⟩
      obtain ⟨he, hcanonical⟩ := mem_filter.mp he
      obtain ⟨he, hroot'⟩ := mem_filter.mp he
      obtain ⟨hlocal, hid⟩ := (hmem e).mp he
      have hid : e.2.dagId = e.1 := hid
      have hcanonical : e.2.frame.isInstance = false := Bool.not_eq_true' _ ▸ hcanonical
      refine ⟨hlocal, hcanonical, root, hroot, ?_⟩
      rw [hid]
      simpa using hroot'
    · rintro ⟨hlocal, hcanonical, root', hroot', hplace⟩
      obtain rfl : root = root' := Option.some.inj (hroot.symm.trans hroot')
      refine ⟨(dag.dagId, dag), mem_filter.mpr ⟨mem_filter.mpr
        ⟨(hmem _).mpr ⟨hlocal, rfl⟩, by simpa using hplace⟩, ?_⟩, rfl⟩
      simpa [CheckedDag.isSemanticInstance] using hcanonical
  have hexposed : ∀ (record : HirInstanceRecord N A K) (inst : CheckedDag N A K),
      d ∈ exposedTargets (record, inst) ↔
        ∃ exposed ∈ record.outputProjections.map InstanceValueProjection.target ++
            record.assertionProjections.map InstanceAssertionProjection.target ++
            record.plotProjections.map InstancePlotProjection.target,
          inst.frame.rebase exposed.definition = d := by
    intro record inst
    simp only [exposedTargets, mem_append, mem_map, or_and_right, exists_or,
      exists_exists_and_eq_and]
  unfold startingDeclarations
  rw [mem_append, mem_flatMap, mem_flatMap]
  constructor
  · rintro (⟨dag, hdag, hd⟩ | ⟨⟨record, inst⟩, hinst, hd⟩)
    · exact ⟨dag, (hown dag).mp hdag, .inl hd⟩
    · obtain ⟨record', hrecord, hsome⟩ := mem_filterMap.mp hinst
      obtain ⟨dag, hdag, hrecord⟩ := mem_flatMap.mp hrecord
      obtain ⟨inst', hget, hpair⟩ := Option.map_eq_some_iff.mp hsome
      cases hpair
      exact ⟨dag, (hown dag).mp hdag, .inr ⟨record, hrecord, inst, hget,
        (hexposed record inst).mp hd⟩⟩
  · rintro ⟨dag, hdag, hd | ⟨record, hrecord, inst, hget, hd⟩⟩
    · exact .inl ⟨dag, (hown dag).mpr hdag, hd⟩
    · refine .inr ⟨(record, inst), mem_filterMap.mpr ⟨record,
        mem_flatMap.mpr ⟨dag, (hown dag).mpr hdag, hrecord⟩, ?_⟩,
        (hexposed record inst).mpr hd⟩
      rw [CheckedDagRegistry.semanticInstance, hget]
      rfl

end File

end ProvenGraphcal
