import ProvenGraphcal.Schedule.DynamicUnits

/-!
# The reads of runtime units reach their readers

The closure of a unit meets the units its scale uses, and what they read is added to everything
that uses the unit in a literal.
-/

namespace ProvenGraphcal.DynamicUnits

open Relation
open InsertionMap (entries_ofList mem_entries_iff mem_keys)
open List (mem_append mem_cons mem_filter mem_filterMap mem_flatMap mem_map mem_map_of_mem
  mem_reverse mem_singleton)

variable {N A : Type} [LinearOrder (DagId N A)] [DecidableEq N]

/-- `expr` reads the declaration that `frame` names `decl`. -/
def Reads (frame : BodyFrame N A) (expr : Expr N A) (decl : ResolvedName N A) : Prop :=
  ∃ target, ((Expr.graphRef target).Occurs expr ∨ (Expr.constRef (.decl target)).Occurs expr) ∧
    frame.resolve target = decl

/-- A quantity literal of `expr` has the unit that `frame` names `unit`. -/
def UsesUnit (frame : BodyFrame N A) (expr : Expr N A) (unit : ResolvedName N A) : Prop :=
  ∃ terms, (Expr.quantityLiteral terms).Occurs expr ∧ ∃ term ∈ terms, frame.resolveUnit term = unit

/-- What a declaration is evaluated from, and the table of what it reads. -/
inductive ReadKind
  | runtime
  | assert
  | presentation

def ResolvedDagDependencies.table (dependencies : ResolvedDagDependencies N A) :
    ReadKind → ReadMap N A
  | .runtime => dependencies.runtimeDeps
  | .assert => dependencies.assertDeps
  | .presentation => dependencies.presentationDeps

/-- The expressions of the declarations of a DAG that are evaluated in its frame. -/
inductive DagTIR.Evaluates (dag : DagTIR N A) : ReadKind → ResolvedName N A → Expr N A → Prop
  | default {entry : ParamEntry N A} {expr : Expr N A} : entry ∈ dag.decls.params →
    entry.default = some expr → Evaluates dag .runtime entry.identity expr
  | node {entry : NodeEntry N A} : entry ∈ dag.decls.nodes →
    Evaluates dag .runtime entry.identity entry.definition
  | assert {entry : AssertEntry N A} {expr : Expr N A} : entry ∈ dag.decls.asserts →
    expr ∈ entry.body.expressions → Evaluates dag .assert entry.identity expr
  | plot {entry : PlotEntry N A} {expr : Expr N A} : entry ∈ dag.decls.plots →
    expr ∈ entry.body.encodings ∨ expr ∈ entry.body.markProperties ∨
      expr ∈ entry.body.properties → Evaluates dag .presentation entry.identity expr
  | figure {entry : CompositionEntry N A} {expr : Expr N A} : entry ∈ dag.decls.figures →
    expr ∈ entry.fields → Evaluates dag .presentation entry.identity expr
  | layer {entry : CompositionEntry N A} {expr : Expr N A} : entry ∈ dag.decls.layers →
    expr ∈ entry.fields → Evaluates dag .presentation entry.identity expr

namespace UncheckedTir

variable (tir : UncheckedTir N A)

/-- The DAG `dag` of the program owns `unit`, with the scale `expr`. -/
def Scale (unit : ResolvedName N A) (dag : DagTIR N A) (expr : Expr N A) : Prop :=
  (∃ p, tir.dags.bodyAt p = some dag) ∧ dag.dynamicUnitScales.scales.get? unit = some expr

def IsRuntimeUnit (unit : ResolvedName N A) : Prop := ∃ dag expr, tir.Scale unit dag expr

/-- A quantity literal in the scale of `unit` has the runtime unit `used`. -/
def ScaleUses (unit used : ResolvedName N A) : Prop :=
  ∃ dag expr, tir.Scale unit dag expr ∧ UsesUnit dag.frame expr used ∧ tir.IsRuntimeUnit used

/-- A scale that the scale of `unit` reaches reads `decl`, as the owner of its unit names it. -/
def ScaleReads (unit decl : ResolvedName N A) : Prop :=
  ∃ reached, ReflTransGen tir.ScaleUses unit reached ∧
    ∃ dag expr, tir.Scale reached dag expr ∧ Reads dag.frame expr decl

end UncheckedTir

variable {frame : BodyFrame N A} {expr : Expr N A} {unit : ResolvedName N A}

theorem mem_collectUnitNames :
    unit ∈ collectUnitNames frame expr ↔ UsesUnit frame expr unit := by
  rw [collectUnitNames, List.mem_dedup, mem_flatMap]
  constructor
  · rintro ⟨node, hnode, hunit⟩
    cases node with
    | quantityLiteral terms =>
      obtain ⟨term, hterm, rfl⟩ := mem_map.mp hunit
      exact ⟨terms, Expr.mem_visitExpr.mp hnode, term, hterm, rfl⟩
    | _ => cases hunit
  · rintro ⟨terms, hoccurs, term, hterm, rfl⟩
    exact ⟨_, Expr.mem_visitExpr.mpr hoccurs, mem_map_of_mem hterm⟩

variable {target : LocalDecl N A}

omit [LinearOrder (DagId N A)] [DecidableEq N] in
theorem mem_graphRefs :
    target ∈ (collectExprDependencies expr).graphRefs ↔ (Expr.graphRef target).Occurs expr := by
  rw [collectExprDependencies, mem_filterMap, ← Expr.mem_visitExpr]
  constructor
  · rintro ⟨node, hnode, htarget⟩
    cases node with
    | graphRef target =>
      cases htarget
      exact hnode
    | _ => cases htarget
  · exact fun h => ⟨_, h, rfl⟩

omit [LinearOrder (DagId N A)] [DecidableEq N] in
theorem mem_constRefs :
    target ∈ (collectExprDependencies expr).constRefs ↔
      (Expr.constRef (.decl target)).Occurs expr := by
  rw [collectExprDependencies, mem_filterMap, ← Expr.mem_visitExpr]
  constructor
  · rintro ⟨node, hnode, htarget⟩
    cases node with
    | constRef reference =>
      cases reference with
      | decl target =>
        cases htarget
        exact hnode
      | builtin => cases htarget
    | _ => cases htarget
  · exact fun h => ⟨_, h, rfl⟩

variable {decl : ResolvedName N A}

theorem mem_runtimeReads :
    decl ∈ runtimeReads frame expr ↔ Reads frame expr decl := by
  rw [runtimeReads, resolveAll, List.mem_toFinset, mem_map, Reads]
  apply exists_congr
  intro target
  rw [mem_append, mem_graphRefs, mem_constRefs]

/-- The walk follows a worklist over the runtime units, and has the reads of those it visited. -/
def Follows (direct : DirectReads N A) (s : ScaleWalk N A)
    (w : Worklist (ResolvedName N A)) : Prop :=
  s.pending = w.pending ∧ s.visited = w.visited ∧
    ∀ decl, decl ∈ s.reads ↔
      ∃ unit ∈ s.visited, ∃ own used, direct.get? unit = some (own, used) ∧ decl ∈ own

variable {direct : DirectReads N A}

theorem follows_step {s : ScaleWalk N A} {w : Worklist (ResolvedName N A)}
    (h : Follows direct s w) :
    Option.Rel (Follows direct) (s.step direct) (w.visit (usedUnits direct)) := by
  obtain ⟨hpending, hvisited, hreads⟩ := h
  unfold ScaleWalk.step Worklist.visit
  rw [← hpending, ← hvisited]
  cases s.pending with
  | nil => exact .none
  | cons unit rest =>
    dsimp only
    by_cases hmem : unit ∈ s.visited
    · rw [if_pos hmem, if_pos hmem]
      exact .some ⟨rfl, rfl, hreads⟩
    · rw [if_neg hmem, if_neg hmem, usedUnits]
      cases hdirect : direct.get? unit with
      | none =>
        refine .some ⟨rfl, rfl, fun decl => ?_⟩
        rw [hreads]
        constructor
        · rintro ⟨unit', hunit', hrest⟩
          exact ⟨unit', List.mem_cons_of_mem _ hunit', hrest⟩
        · rintro ⟨unit', hunit', own, used, hget, hdecl⟩
          rcases mem_cons.mp hunit' with rfl | hunit'
          · rw [hdirect] at hget
            cases hget
          · exact ⟨unit', hunit', own, used, hget, hdecl⟩
      | some entry =>
        obtain ⟨own, used⟩ := entry
        refine .some ⟨rfl, rfl, fun decl => ?_⟩
        rw [Finset.mem_union, hreads]
        constructor
        · rintro (⟨unit', hunit', hrest⟩ | hdecl)
          · exact ⟨unit', List.mem_cons_of_mem _ hunit', hrest⟩
          · exact ⟨unit, List.mem_cons_self, own, used, hdirect, hdecl⟩
        · rintro ⟨unit', hunit', own', used', hget, hdecl⟩
          rcases mem_cons.mp hunit' with rfl | hunit'
          · rw [hdirect] at hget
            cases hget
            exact .inr hdecl
          · exact .inl ⟨unit', hunit', own', used', hget, hdecl⟩

/-- The closure of a runtime unit has the reads of the units it reaches. -/
theorem mem_closureReads (hunit : unit ∈ direct.keys) :
    decl ∈ closureReads direct unit ↔
      ∃ reached, ReflTransGen (fun unit used => used ∈ usedUnits direct unit) unit reached ∧
        ∃ own used, direct.get? reached = some (own, used) ∧ decl ∈ own := by
  have hstart : Follows direct ⟨[unit], [], ∅⟩ ⟨[unit], []⟩ := ⟨rfl, rfl, by simp⟩
  obtain ⟨-, hvisited, hreads⟩ := Loop.runWhile_simulates (Follows direct)
    (fun _ _ => follows_step) (Worklist.fuel (usedUnits direct) direct.keys [unit]) hstart
  have hclosed : ∀ unit ∈ direct.keys, ∀ used ∈ usedUnits direct unit, used ∈ direct.keys := by
    intro unit _ used hused
    unfold usedUnits at hused
    split at hused
    · rw [mem_reverse, mem_filter] at hused
      exact mem_keys.mpr (Option.isSome_iff_exists.mp hused.2)
    · cases hused
  have hstarted : ∀ unit' ∈ [unit], unit' ∈ direct.keys := by
    intro unit' hmem
    rw [mem_singleton.mp hmem]
    exact hunit
  rw [closureReads, hreads]
  apply exists_congr
  intro reached
  rw [hvisited]
  refine and_congr_left fun _ => ?_
  have hrun := Worklist.mem_run_visited hstarted hclosed (a := reached)
  rw [Worklist.run] at hrun
  rw [hrun, Worklist.Reached]
  simp only [mem_singleton, exists_eq_left]

/-! ## The program's units -/

variable {dag : DagTIR N A}

namespace UncheckedTir

variable (tir : UncheckedTir N A)

/-- A runtime unit has one scale, in the DAG that owns it. -/
theorem Scale.unique {tir : UncheckedTir N A} {dag' : DagTIR N A} {expr' : Expr N A}
    (h : tir.Scale unit dag expr) (h' : tir.Scale unit dag' expr') :
    dag = dag' ∧ expr = expr' := by
  obtain ⟨⟨p, hp⟩, hget⟩ := h
  obtain ⟨⟨q, hq⟩, hget'⟩ := h'
  have hid := dag.dynamicUnitScales.owned unit (mem_keys.mpr ⟨_, hget⟩)
  have hid' := dag'.dynamicUnitScales.owned unit (mem_keys.mpr ⟨_, hget'⟩)
  obtain rfl : p = q := tir.aligned.position_inj hp hq (hid.symm.trans hid')
  obtain rfl : dag = dag' := Option.some.inj (hp.symm.trans hq)
  exact ⟨rfl, Option.some.inj (hget.symm.trans hget')⟩

/-- Only runtime units have scales that read. -/
theorem ScaleReads.isRuntimeUnit {tir : UncheckedTir N A} (h : tir.ScaleReads unit decl) :
    tir.IsRuntimeUnit unit := by
  obtain ⟨reached, hpath, dag, expr, hscale, -⟩ := h
  rcases hpath.cases_head with rfl | ⟨next, ⟨dag', expr', hscale', -⟩, -⟩
  · exact ⟨dag, expr, hscale⟩
  · exact ⟨dag', expr', hscale'⟩

/-- The direct reads of the program are those of each scale, in the frame of its owner. -/
theorem direct_spec : ∃ direct, tir.direct = some direct ∧ ∀ unit entry,
    direct.get? unit = some entry ↔ ∃ dag expr, tir.Scale unit dag expr ∧
      entry = (runtimeReads dag.frame expr, collectUnitNames dag.frame expr) := by
  obtain ⟨visited, hiter, hnodup, hmem⟩ := tir.aligned.mem_iter
  have hunits : ((visited.flatMap fun e => e.2.dynamicUnitScales.scales.entries.map fun scale =>
      (scale.1, (runtimeReads e.2.frame scale.2, collectUnitNames e.2.frame scale.2))).map
        Prod.fst).Nodup := by
    rw [List.map_flatMap, List.nodup_flatMap]
    refine ⟨fun e _ => ?_, ?_⟩
    · rw [List.map_map]
      exact e.2.dynamicUnitScales.scales.distinct
    · -- two DAGs own different units
      have hne : visited.Pairwise fun e e' => e.1 ≠ e'.1 := List.pairwise_map.mp hnodup
      refine hne.imp_of_mem fun {e e'} he he' hne => ?_
      intro unit hunit hunit'
      dsimp only at hunit hunit'
      rw [List.map_map] at hunit hunit'
      have howner : unit.owner = e.2.dagId := e.2.dynamicUnitScales.owned unit hunit
      have howner' : unit.owner = e'.2.dagId := e'.2.dynamicUnitScales.owned unit hunit'
      apply hne
      calc e.1 = e.2.dagId := ((hmem e).mp he).2.symm
        _ = e'.2.dagId := howner.symm.trans howner'
        _ = e'.1 := ((hmem e').mp he').2
  refine ⟨_, by rw [direct, hiter]; rfl, fun unit entry => ?_⟩
  rw [← mem_entries_iff, entries_ofList hunits, mem_flatMap]
  constructor
  · rintro ⟨e, he, hentry⟩
    obtain ⟨scale, hscale, heq⟩ := mem_map.mp hentry
    obtain ⟨rfl, rfl⟩ := Prod.mk.inj heq
    exact ⟨e.2, scale.2, ⟨((hmem e).mp he).1, mem_entries_iff.mp hscale⟩, rfl⟩
  · rintro ⟨dag, expr, ⟨hdag, hget⟩, rfl⟩
    exact ⟨(dag.dagId, dag), (hmem _).mpr ⟨hdag, rfl⟩,
      mem_map.mpr ⟨(unit, expr), mem_entries_iff.mpr hget, rfl⟩⟩

/-- The reads of each runtime unit are those of the scales it reaches. -/
theorem mem_dynamicUnitScaleReads : ∃ scaleDeps, tir.dynamicUnitScaleReads = some scaleDeps ∧
    (∀ unit, tir.IsRuntimeUnit unit ↔ ∃ reads, scaleDeps.get? unit = some reads) ∧
      ∀ unit reads, scaleDeps.get? unit = some reads →
        ∀ decl, decl ∈ reads ↔ tir.ScaleReads unit decl := by
  obtain ⟨direct, hdirect, hget⟩ := tir.direct_spec
  have hruntime : ∀ unit, tir.IsRuntimeUnit unit ↔ unit ∈ direct.keys := by
    intro unit
    rw [mem_keys, IsRuntimeUnit]
    constructor
    · rintro ⟨dag, expr, hscale⟩
      exact ⟨_, (hget unit _).mpr ⟨dag, expr, hscale, rfl⟩⟩
    · rintro ⟨entry, hentry⟩
      obtain ⟨dag, expr, hscale, -⟩ := (hget unit entry).mp hentry
      exact ⟨dag, expr, hscale⟩
  have huses : ∀ unit used, used ∈ usedUnits direct unit ↔ tir.ScaleUses unit used := by
    intro unit used
    unfold usedUnits
    constructor
    · intro hused
      split at hused
      case h_1 own units hentry =>
        obtain ⟨dag, expr, hscale, heq⟩ := (hget unit _).mp hentry
        obtain ⟨rfl, rfl⟩ := Prod.mk.inj heq
        rw [mem_reverse, mem_filter, mem_collectUnitNames] at hused
        exact ⟨dag, expr, hscale, hused.1, (hruntime used).mpr
          (mem_keys.mpr (Option.isSome_iff_exists.mp hused.2))⟩
      case h_2 => cases hused
    · rintro ⟨dag, expr, hscale, hused, hunit⟩
      rw [(hget unit _).mpr ⟨dag, expr, hscale, rfl⟩]
      rw [mem_reverse, mem_filter, mem_collectUnitNames]
      exact ⟨hused,
        Option.isSome_iff_exists.mpr (mem_keys.mp ((hruntime used).mp hunit))⟩
  have hkeys : ((direct.keys.map fun unit => (unit, closureReads direct unit)).map
      Prod.fst).Nodup := by
    rw [List.map_map]
    exact (List.map_id direct.keys).symm ▸ direct.distinct
  have hclosure : ∀ unit reads, (InsertionMap.ofList (direct.keys.map fun unit =>
      (unit, closureReads direct unit))).get? unit = some reads ↔
        unit ∈ direct.keys ∧ reads = closureReads direct unit := by
    intro unit reads
    rw [← mem_entries_iff, entries_ofList hkeys, mem_map]
    constructor
    · rintro ⟨unit', hunit', heq⟩
      obtain ⟨rfl, rfl⟩ := Prod.mk.inj heq
      exact ⟨hunit', rfl⟩
    · rintro ⟨hunit, rfl⟩
      exact ⟨unit, hunit, rfl⟩
  refine ⟨_, by rw [dynamicUnitScaleReads, hdirect]; rfl, fun unit => ?_, ?_⟩
  · rw [hruntime]
    exact ⟨fun h => ⟨_, (hclosure unit _).mpr ⟨h, rfl⟩⟩,
      fun ⟨reads, h⟩ => ((hclosure unit reads).mp h).1⟩
  · intro unit reads hreads decl
    obtain ⟨hunit, rfl⟩ := (hclosure unit reads).mp hreads
    rw [mem_closureReads hunit, ScaleReads]
    have hrel : (fun unit used => used ∈ usedUnits direct unit) = tir.ScaleUses := by
      funext unit used
      exact propext (huses unit used)
    rw [hrel]
    refine exists_congr fun reached => and_congr_right fun _ => ?_
    constructor
    · rintro ⟨own, used, hentry, hdecl⟩
      obtain ⟨dag, expr, hscale, heq⟩ := (hget reached _).mp hentry
      obtain ⟨rfl, rfl⟩ := Prod.mk.inj heq
      exact ⟨dag, expr, hscale, mem_runtimeReads.mp hdecl⟩
    · rintro ⟨dag, expr, hscale, hdecl⟩
      exact ⟨_, _, (hget reached _).mpr ⟨dag, expr, hscale, rfl⟩, mem_runtimeReads.mpr hdecl⟩

end UncheckedTir

/-! ## The readers -/

variable {scaleDeps : ReadMap N A}

theorem mem_readsOf {units : List (ResolvedName N A)} : decl ∈ readsOf scaleDeps units ↔
      ∃ unit ∈ units, ∃ reads, scaleDeps.get? unit = some reads ∧ decl ∈ reads := by
  have hfold : ∀ (tables : List (Finset (ResolvedName N A))) (start : Finset (ResolvedName N A)),
      decl ∈ tables.foldl (· ∪ ·) start ↔ decl ∈ start ∨ ∃ reads ∈ tables, decl ∈ reads := by
    intro tables
    induction tables with
    | nil => simp
    | cons reads rest ih =>
      intro start
      rw [List.foldl_cons, ih, Finset.mem_union, List.exists_mem_cons_iff, or_assoc]
  rw [readsOf, hfold]
  simp only [Finset.notMem_empty, false_or, mem_filterMap]
  constructor
  · rintro ⟨reads, ⟨unit, hunit, hget⟩, hdecl⟩
    exact ⟨unit, hunit, reads, hget, hdecl⟩
  · rintro ⟨unit, hunit, reads, hget, hdecl⟩
    exact ⟨reads, ⟨unit, hunit, hget⟩, hdecl⟩

variable {expressions : List (Expr N A)}

theorem mem_unitsOf :
    unit ∈ unitsOf frame expressions ↔ ∃ expr ∈ expressions, UsesUnit frame expr unit := by
  rw [unitsOf, List.mem_dedup, mem_flatMap]
  simp only [mem_collectUnitNames]

/-- The declarations that `reader` reads by the table. -/
def ReadMap.readsBy (map : ReadMap N A) (reader : ResolvedName N A) : Finset (ResolvedName N A) :=
  (map.get? reader).getD ∅

theorem readsBy_extendReads (map : ReadMap N A)
    (extra : ResolvedName N A × Finset (ResolvedName N A)) (reader : ResolvedName N A) :
    (extendReads map extra).readsBy reader =
      map.readsBy reader ∪ if reader = extra.1 then extra.2 else ∅ := by
  unfold extendReads ReadMap.readsBy
  by_cases hempty : extra.2 = ∅
  · rw [if_pos hempty, hempty, ite_self, Finset.union_empty]
  · rw [if_neg hempty, InsertionMap.get?_insert]
    split_ifs with hreader
    · rw [hreader, Option.getD_some]
    · rw [Finset.union_empty]

variable {reader : ResolvedName N A}

/-- A reader reads what it read before and what it is extended with. -/
theorem mem_foldl_extendReads {map : ReadMap N A}
    {extra : List (ResolvedName N A × Finset (ResolvedName N A))} :
    decl ∈ ReadMap.readsBy (extra.foldl extendReads map) reader ↔
      decl ∈ map.readsBy reader ∨ ∃ reads, (reader, reads) ∈ extra ∧ decl ∈ reads := by
  induction extra generalizing map with
  | nil => simp
  | cons e rest ih =>
    rw [List.foldl_cons, ih, readsBy_extendReads, Finset.mem_union, or_assoc]
    refine or_congr_right ?_
    constructor
    · rintro (hmem | ⟨reads, hreads, hmem⟩)
      · split_ifs at hmem with hreader
        · exact ⟨e.2, mem_cons.mpr (.inl (Prod.ext hreader rfl)), hmem⟩
        · exact absurd hmem (Finset.notMem_empty decl)
      · exact ⟨reads, List.mem_cons_of_mem e hreads, hmem⟩
    · rintro ⟨reads, hreads, hmem⟩
      rcases mem_cons.mp hreads with rfl | hreads
      · rw [if_pos rfl]
        exact .inl hmem
      · exact .inr ⟨reads, hreads, hmem⟩

/-- A literal of one of the expressions has a unit whose scale reads `decl`. -/
def Needs (scaleDeps : ReadMap N A) (frame : BodyFrame N A) (expr : Expr N A)
    (decl : ResolvedName N A) : Prop :=
  ∃ unit, UsesUnit frame expr unit ∧ ∃ reads, scaleDeps.get? unit = some reads ∧ decl ∈ reads

theorem mem_readsOf_unitsOf :
    decl ∈ readsOf scaleDeps (unitsOf frame expressions) ↔
      ∃ expr ∈ expressions, Needs scaleDeps frame expr decl := by
  rw [mem_readsOf]
  constructor
  · rintro ⟨unit, hunit, hreads⟩
    obtain ⟨expr, hexpr, huses⟩ := mem_unitsOf.mp hunit
    exact ⟨expr, hexpr, unit, huses, hreads⟩
  · rintro ⟨expr, hexpr, unit, huses, hreads⟩
    exact ⟨unit, mem_unitsOf.mpr ⟨expr, hexpr, huses⟩, hreads⟩

theorem evaluates_runtime :
    dag.Evaluates .runtime reader expr ↔
      (∃ entry ∈ dag.decls.params, entry.identity = reader ∧ entry.default = some expr) ∨
        ∃ entry ∈ dag.decls.nodes, entry.identity = reader ∧ entry.definition = expr := by
  constructor
  · intro h
    cases h with
    | default hentry hexpr => exact .inl ⟨_, hentry, rfl, hexpr⟩
    | node hentry => exact .inr ⟨_, hentry, rfl, rfl⟩
  · rintro (⟨entry, hentry, rfl, hexpr⟩ | ⟨entry, hentry, rfl, rfl⟩)
    · exact .default hentry hexpr
    · exact .node hentry

theorem evaluates_assert :
    dag.Evaluates .assert reader expr ↔
      ∃ entry ∈ dag.decls.asserts, entry.identity = reader ∧ expr ∈ entry.body.expressions := by
  constructor
  · intro h
    cases h with
    | assert hentry hexpr => exact ⟨_, hentry, rfl, hexpr⟩
  · rintro ⟨entry, hentry, rfl, hexpr⟩
    exact .assert hentry hexpr

theorem evaluates_presentation :
    dag.Evaluates .presentation reader expr ↔
      ∃ e ∈ presentationExpressions dag.decls, e.1 = reader ∧ expr ∈ e.2 := by
  constructor
  · intro h
    cases h with
    | @plot entry _ hentry hexpr =>
      refine ⟨_, List.mem_append_left _ (mem_map_of_mem hentry), rfl, ?_⟩
      rw [mem_append, mem_append, or_assoc]
      exact hexpr
    | figure hentry hexpr =>
      exact ⟨_, List.mem_append_right _ (mem_map_of_mem (List.mem_append_left _ hentry)), rfl,
        hexpr⟩
    | layer hentry hexpr =>
      exact ⟨_, List.mem_append_right _ (mem_map_of_mem (List.mem_append_right _ hentry)), rfl,
        hexpr⟩
  · rintro ⟨e, he, rfl, hexpr⟩
    rcases mem_append.mp he with he | he
    · obtain ⟨entry, hentry, rfl⟩ := mem_map.mp he
      rw [mem_append, mem_append, or_assoc] at hexpr
      exact .plot hentry hexpr
    · obtain ⟨entry, hentry, rfl⟩ := mem_map.mp he
      rcases mem_append.mp hentry with hentry | hentry
      · exact .figure hentry hexpr
      · exact .layer hentry hexpr

/-- A declaration reads what it read before and what the units of its literals need. -/
theorem readsBy_addDynamicUnitReads {kind : ReadKind} :
    decl ∈ ((dag.addDynamicUnitReads scaleDeps).dependencies.table kind).readsBy reader ↔
      decl ∈ (dag.dependencies.table kind).readsBy reader ∨
        ∃ expr, dag.Evaluates kind reader expr ∧ Needs scaleDeps dag.frame expr decl := by
  cases kind with
  | runtime =>
    refine mem_foldl_extendReads.trans (or_congr_right ?_)
    simp only [evaluates_runtime, mem_append, mem_filterMap, mem_map,
      Option.map_eq_some_iff, Prod.mk.injEq]
    constructor
    · rintro ⟨reads, ⟨entry, hentry, expr, hexpr, hid, rfl⟩ | ⟨entry, hentry, hid, rfl⟩, hdecl⟩
      · obtain ⟨expr', hmem, hneeds⟩ := mem_readsOf_unitsOf.mp hdecl
        obtain rfl := mem_singleton.mp hmem
        exact ⟨expr', .inl ⟨entry, hentry, hid, hexpr⟩, hneeds⟩
      · obtain ⟨expr', hmem, hneeds⟩ := mem_readsOf_unitsOf.mp hdecl
        exact ⟨expr', .inr ⟨entry, hentry, hid, (mem_singleton.mp hmem).symm⟩, hneeds⟩
    · rintro ⟨expr, ⟨entry, hentry, hid, hexpr⟩ | ⟨entry, hentry, hid, rfl⟩, hneeds⟩
      · exact ⟨_, .inl ⟨entry, hentry, expr, hexpr, hid, rfl⟩,
          mem_readsOf_unitsOf.mpr ⟨expr, List.mem_singleton_self expr, hneeds⟩⟩
      · exact ⟨_, .inr ⟨entry, hentry, hid, rfl⟩,
          mem_readsOf_unitsOf.mpr ⟨_, List.mem_singleton_self _, hneeds⟩⟩
  | assert =>
    refine mem_foldl_extendReads.trans (or_congr_right ?_)
    simp only [evaluates_assert, mem_map, Prod.mk.injEq]
    constructor
    · rintro ⟨reads, ⟨entry, hentry, hid, rfl⟩, hdecl⟩
      obtain ⟨expr, hmem, hneeds⟩ := mem_readsOf_unitsOf.mp hdecl
      exact ⟨expr, ⟨entry, hentry, hid, hmem⟩, hneeds⟩
    · rintro ⟨expr, ⟨entry, hentry, hid, hmem⟩, hneeds⟩
      exact ⟨_, ⟨entry, hentry, hid, rfl⟩, mem_readsOf_unitsOf.mpr ⟨expr, hmem, hneeds⟩⟩
  | presentation =>
    refine mem_foldl_extendReads.trans (or_congr_right ?_)
    simp only [evaluates_presentation, mem_map, Prod.mk.injEq]
    constructor
    · rintro ⟨reads, ⟨e, he, hid, rfl⟩, hdecl⟩
      obtain ⟨expr, hmem, hneeds⟩ := mem_readsOf_unitsOf.mp hdecl
      exact ⟨expr, ⟨e, he, hid, hmem⟩, hneeds⟩
    · rintro ⟨expr, ⟨e, he, hid, hmem⟩, hneeds⟩
      exact ⟨_, ⟨e, he, hid, rfl⟩, mem_readsOf_unitsOf.mpr ⟨expr, hmem, hneeds⟩⟩

/-- The declarations of `order` stand after what they read. -/
def Respects (map : ReadMap N A) (order : List (ResolvedName N A)) : Prop :=
  ∀ before reader after, order = before ++ reader :: after →
    ∀ decl ∈ map.readsBy reader, decl ∈ before

/-- The DAG `after` is `before`, with the reads of the runtime units that its literals use. -/
structure UncheckedTir.Augmented (tir : UncheckedTir N A) (before after : DagTIR N A) : Prop where
  same : after = { before with dependencies := after.dependencies }
  reads : ∀ kind reader decl, decl ∈ (after.dependencies.table kind).readsBy reader ↔
    decl ∈ (before.dependencies.table kind).readsBy reader ∨
      ∃ expr, before.Evaluates kind reader expr ∧
        ∃ unit, UsesUnit before.frame expr unit ∧ tir.ScaleReads unit decl
  scheduled : ∀ kind order, Respects (after.dependencies.table kind) order →
    ∀ done reader rest, order = done ++ reader :: rest →
      ∀ expr, before.Evaluates kind reader expr → ∀ unit, UsesUnit before.frame expr unit →
        ∀ decl, tir.ScaleReads unit decl → decl ∈ done

theorem UncheckedTir.augmented_of_reads {tir : UncheckedTir N A} {before after : DagTIR N A}
    (hsame : after = { before with dependencies := after.dependencies })
    (hreads : ∀ kind reader decl, decl ∈ (after.dependencies.table kind).readsBy reader ↔
      decl ∈ (before.dependencies.table kind).readsBy reader ∨
        ∃ expr, before.Evaluates kind reader expr ∧
          ∃ unit, UsesUnit before.frame expr unit ∧ tir.ScaleReads unit decl) :
    tir.Augmented before after where
  same := hsame
  reads := hreads
  scheduled kind _ horder done reader rest heq expr hexpr unit huses decl hdecl :=
    horder done reader rest heq decl
      ((hreads kind reader decl).mpr (.inr ⟨expr, hexpr, unit, huses, hdecl⟩))

/-- The reads of a runtime unit are those of all the scales it reaches, each named by the owner of
its unit, and every expression of a local DAG depends on the reads of the units it uses. -/
theorem UncheckedTir.scale_reads_complete (tir : UncheckedTir N A) :
    (∀ unit dag expr, tir.Scale unit dag expr → dag.dagId = unit.owner ∧
      ∀ dag' expr', tir.Scale unit dag' expr' → dag' = dag ∧ expr' = expr) ∧
    ∃ scaleDeps augmented, tir.dynamicUnitScaleReads = some scaleDeps ∧
      (∀ unit, tir.IsRuntimeUnit unit ↔ ∃ reads, scaleDeps.get? unit = some reads) ∧
      (∀ unit reads, scaleDeps.get? unit = some reads →
        ∀ decl, decl ∈ reads ↔ tir.ScaleReads unit decl) ∧
      tir.augmentRuntimeDeps = some augmented ∧
      List.Forall₂ tir.Augmented tir.dags.localsMut augmented := by
  refine ⟨fun unit dag expr hscale => ⟨?_, fun dag' expr' hscale' => hscale'.unique hscale⟩, ?_⟩
  · exact (dag.dynamicUnitScales.owned unit (mem_keys.mpr ⟨_, hscale.2⟩)).symm
  obtain ⟨scaleDeps, hdeps, hruntime, hreads⟩ := tir.mem_dynamicUnitScaleReads
  have hneeds : ∀ (dag : DagTIR N A) expr decl, Needs scaleDeps dag.frame expr decl ↔
      ∃ unit, UsesUnit dag.frame expr unit ∧ tir.ScaleReads unit decl := by
    intro dag expr decl
    refine exists_congr fun unit => and_congr_right fun _ => ?_
    constructor
    · rintro ⟨reads, hget, hdecl⟩
      exact (hreads unit reads hget decl).mp hdecl
    · intro hdecl
      obtain ⟨reads, hget⟩ := (hruntime unit).mp hdecl.isRuntimeUnit
      exact ⟨reads, hget, (hreads unit reads hget decl).mpr hdecl⟩
  have haugment : tir.augmentRuntimeDeps = some (if scaleDeps.entries.isEmpty then
      tir.dags.localsMut else tir.dags.localsMut.map fun dag =>
        dag.addDynamicUnitReads scaleDeps) := by
    rw [augmentRuntimeDeps, hdeps]
    exact (apply_ite some _ _ _).symm
  refine ⟨scaleDeps, _, hdeps, hruntime, hreads, haugment, ?_⟩
  split_ifs with hempty
  · -- without runtime units nothing is needed
    refine List.forall₂_same.mpr fun dag _ => augmented_of_reads rfl fun kind reader decl => ?_
    refine (or_iff_left ?_).symm
    rintro ⟨expr, -, unit, -, hdecl⟩
    obtain ⟨reads, hget⟩ := (hruntime unit).mp hdecl.isRuntimeUnit
    have hmem := mem_entries_iff.mpr hget
    rw [List.isEmpty_iff.mp hempty] at hmem
    cases hmem
  · rw [List.forall₂_map_right_iff]
    refine List.forall₂_same.mpr fun dag _ => augmented_of_reads rfl fun kind reader decl => ?_
    rw [readsBy_addDynamicUnitReads]
    simp only [hneeds]

end ProvenGraphcal.DynamicUnits
