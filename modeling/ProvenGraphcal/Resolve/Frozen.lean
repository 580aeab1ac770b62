import ProvenGraphcal.Resolve.Collected

/-!
# The modules of a builder

Every source module is collected, and every include a source module reaches has an instance of its
own, collected from its template's declarations.
-/

namespace ProvenGraphcal.Resolve

open Checked (bind_eq_ok)

variable {N : Type} [LinearOrder N]

/-- The tables hold the sources, each collected from its declarations. -/
structure Collects (sources : List (SourceDagId N × List (Decl N))) (tables : SymbolTables N) :
    Prop where
  mem : ∀ owner declarations, (owner, declarations) ∈ sources ↔
    ∃ module, tables.modules.get? owner = some module ∧ module.declarations = declarations
  entry : ∀ owner module, tables.modules.get? owner = some module →
    module.entry = (collectedEntry owner module.declarations).1
  accepted : ∀ owner module, tables.modules.get? owner = some module →
    (collectedEntry owner module.declarations).2 = []

variable {isAtom : N → Bool}

theorem addModule_eq_ok {tables next : SymbolTables N} {source : SourceDagId N × List (Decl N)}
    (h : SymbolTables.addModule isAtom tables source = .ok next) :
    tables.modules.get? source.1 = none ∧
      next.modules = tables.modules.insert source.1
        ⟨source.2, (collectedEntry source.1 source.2).1⟩ ∧
      (collectedEntry source.1 source.2).2 = [] := by
  obtain ⟨key?, hkey, h⟩ := bind_eq_ok.mp h
  have hnew : tables.modules.get? source.1 = none := by
    unfold SymbolTables.newModulePath at hkey
    split_ifs at hkey with hcontains
    exact InsertionMap.contains_eq_false.mp (Bool.eq_false_iff.mpr hcontains)
  refine ⟨hnew, ?_⟩
  dsimp only at h
  split at h
  case h_1 => cases h
  case h_2 hnone =>
    cases h
    exact ⟨rfl, hnone⟩

theorem collects_addModules {sources : List (SourceDagId N × List (Decl N))}
    {tables : SymbolTables N}
    (h : sources.foldlM (SymbolTables.addModule isAtom) .empty = .ok tables) :
    Collects sources tables := by
  induction sources using List.reverseRecOn generalizing tables with
  | nil =>
    cases h
    exact ⟨fun owner declarations => iff_of_false nofun (fun ⟨_, h, _⟩ => nomatch h), nofun, nofun⟩
  | append_singleton sources source ih =>
    rw [List.foldlM_append, bind_eq_ok] at h
    obtain ⟨before, hbefore, h⟩ := h
    rw [List.foldlM_cons, bind_eq_ok] at h
    obtain ⟨next, hnext, h⟩ := h
    cases h
    obtain ⟨hmem, hentry, haccepted⟩ := ih hbefore
    obtain ⟨hnew, hmodules, hlast⟩ := addModule_eq_ok hnext
    refine ⟨fun owner declarations => ?_, fun owner module hmodule => ?_,
      fun owner module hmodule => ?_⟩
    · rw [List.mem_append, List.mem_singleton, hmem, hmodules, InsertionMap.get?_insert]
      split_ifs with howner
      · subst howner
        simp only [hnew, Option.some.injEq, exists_eq_left']
        constructor
        · rintro (⟨_, h, _⟩ | heq)
          · cases h
          · rw [← heq]
        · exact fun heq => .inr (by rw [← heq])
      · refine or_iff_left fun heq => howner (heq ▸ rfl)
    · rw [hmodules, InsertionMap.get?_insert] at hmodule
      split_ifs at hmodule with howner
      · cases hmodule
        rw [howner]
      · exact hentry owner module hmodule
    · rw [hmodules, InsertionMap.get?_insert] at hmodule
      split_ifs at hmodule with howner
      · cases hmodule
        rw [howner]
        exact hlast
      · exact haccepted owner module hmodule

/-! ## Instances -/

/-- What the expansion keeps: source modules, and instances collected from their templates. -/
structure ExpandedFrom (tables : SymbolTables N) (s : Expanded N) : Prop where
  source : ∀ owner module, tables.modules.get? owner = some module →
    s.modules.get? owner = some module.entry
  allocated : ∀ edge ∈ s.instances, tables.modules.get? edge.1 = none ∧
    ∃ module, tables.modules.get? edge.2 = some module ∧
      s.modules.get? edge.1 = some (collectedEntry edge.1 module.declarations).1
  known : ∀ m entry, s.modules.get? m = some entry →
    tables.modules.get? m ≠ none ∨ ∃ template, (m, template) ∈ s.instances
  distinct : (s.instances.map Prod.fst).Nodup

variable {tables : SymbolTables N} {s s' : Expanded N}

def declarationsOf (tables : SymbolTables N) (owner : SourceDagId N) : Option (List (Decl N)) :=
  (tables.modules.get? owner).map SourceModule.declarations

variable {template : SourceDagId N}

theorem allocateInstance_expanded {inst : SourceDagId N}
    (h : allocateInstance (declarationsOf tables) inst template s = .ok s')
    (hs : ExpandedFrom tables s) :
    ExpandedFrom tables s' ∧ s'.instances = s.instances ++ [(inst, template)] := by
  unfold allocateInstance at h
  split at h
  case h_1 => cases h
  case h_2 declared hdeclared =>
    obtain ⟨module, hmodule, rfl⟩ := Option.map_eq_some_iff.mp hdeclared
    split_ifs at h with hcontains
    have hnew : s.modules.get? inst = none :=
      InsertionMap.contains_eq_false.mp (Bool.eq_false_iff.mpr hcontains)
    dsimp only at h
    split at h
    · cases h
    cases h
    have hne : ∀ m entry, s.modules.get? m = some entry → m ≠ inst := by
      rintro m entry hm rfl
      rw [hnew] at hm
      cases hm
    have hsource : tables.modules.get? inst = none := by
      cases htables : tables.modules.get? inst with
      | none => rfl
      | some module => exact absurd rfl (hne inst _ (hs.source inst module htables))
    refine ⟨⟨fun owner module' howner => ?_, fun edge hedge => ?_, fun m entry hm => ?_, ?_⟩, rfl⟩
    · rw [InsertionMap.get?_insert, if_neg (hne owner _ (hs.source owner module' howner))]
      exact hs.source owner module' howner
    · rcases List.mem_append.mp hedge with hedge | hedge
      · obtain ⟨hnone, module', hmodule', hget⟩ := hs.allocated edge hedge
        refine ⟨hnone, module', hmodule', ?_⟩
        rw [InsertionMap.get?_insert, if_neg (hne edge.1 _ hget)]
        exact hget
      · rw [List.mem_singleton.mp hedge]
        exact ⟨hsource, module, hmodule, by rw [InsertionMap.get?_insert, if_pos rfl]⟩
    · rw [InsertionMap.get?_insert] at hm
      split_ifs at hm with hinst
      · exact .inr ⟨template, by rw [hinst]; exact List.mem_append_right _ List.mem_cons_self⟩
      · exact (hs.known m entry hm).imp_right fun h => h.imp fun t => List.mem_append_left _
    · rw [List.map_append, List.map_singleton]
      refine DependencyOrder.nodup_concat (fun hmem => ?_) hs.distinct
      obtain ⟨edge, hedge, heq⟩ := List.mem_map.mp hmem
      obtain ⟨-, _, -, hget⟩ := hs.allocated edge hedge
      exact hne edge.1 _ hget heq

/-- The instances that the includes of `template` allocate from `base` on, with their templates. -/
inductive Reached (includes : SourceDagId N → Include N → SourceDagId N → Prop)
    (base template : SourceDagId N) : SourceDagId N → SourceDagId N → Prop
  | direct {decl : Include N} {nested : SourceDagId N} (h : includes template decl nested) :
    Reached includes base template (base.instanceChild decl.instanceScope) nested
  | within {inst t : SourceDagId N} {decl : Include N} {nested : SourceDagId N}
    (hinst : Reached includes base template inst t) (h : includes t decl nested) :
    Reached includes base template (inst.instanceChild decl.instanceScope) nested

omit [LinearOrder N] in
theorem reached_iff {includes : SourceDagId N → Include N → SourceDagId N → Prop}
    {base inst t : SourceDagId N} : Reached includes base template inst t ↔
      ∃ decl nested, includes template decl nested ∧
        ((inst, t) = (base.instanceChild decl.instanceScope, nested) ∨
          Reached includes (base.instanceChild decl.instanceScope) nested inst t) := by
  constructor
  · intro h
    induction h with
    | direct h => exact ⟨_, _, h, .inl rfl⟩
    | within _ h ih =>
      obtain ⟨decl, nested, hfirst, heq | hrest⟩ := ih
      · cases heq
        exact ⟨_, _, hfirst, .inr (.direct h)⟩
      · exact ⟨decl, nested, hfirst, .inr (.within hrest h)⟩
  · rintro ⟨decl, nested, hfirst, heq | hrest⟩
    · cases heq
      exact .direct hfirst
    · induction hrest with
      | direct h => exact .within (.direct hfirst) h
      | within _ h ih => exact .within ih h

omit [LinearOrder N] in
theorem Reached.mono {includes includes' : SourceDagId N → Include N → SourceDagId N → Prop}
    {base inst t : SourceDagId N} (h : Reached includes base template inst t)
    (hsub : ∀ m decl nested, includes m decl nested → includes' m decl nested) :
    Reached includes' base template inst t := by
  induction h with
  | direct h => exact .direct (hsub _ _ _ h)
  | within _ h ih => exact .within ih (hsub _ _ _ h)

/-- The includes among the edges of each module. -/
def EdgeIncludes (edges : SourceDagId N → List (ModuleEdge N)) (m : SourceDagId N)
    (decl : Include N) (template : SourceDagId N) : Prop :=
  (decl, template) ∈ instantiations (edges m)

variable {edges : SourceDagId N → List (ModuleEdge N)} {fuel : ℕ}

/-- The expansion adds exactly the instances that are reached. -/
theorem expandInstances_expanded {base : SourceDagId N}
    (h : expandInstances edges (declarationsOf tables) fuel base template s = .ok s')
    (hs : ExpandedFrom tables s) : ExpandedFrom tables s' ∧ ∀ inst t, (inst, t) ∈ s'.instances ↔
      (inst, t) ∈ s.instances ∨ Reached (EdgeIncludes edges) base template inst t := by
  induction fuel generalizing base template s s' with
  | zero => cases h
  | succ fuel ih =>
    unfold expandInstances at h
    suffices hfold : ExpandedFrom tables s' ∧ ∀ inst t, (inst, t) ∈ s'.instances ↔
        (inst, t) ∈ s.instances ∨ ∃ decl nested, (decl, nested) ∈ instantiations (edges template) ∧
          ((inst, t) = (base.instanceChild decl.instanceScope, nested) ∨
            Reached (EdgeIncludes edges) (base.instanceChild decl.instanceScope) nested inst t) by
      refine ⟨hfold.1, fun inst t => (hfold.2 inst t).trans (or_congr_right (Iff.symm ?_))⟩
      exact reached_iff
    generalize instantiations (edges template) = includes at h ⊢
    induction includes generalizing s with
    | nil =>
      cases h
      exact ⟨hs, fun inst t => by simp⟩
    | cons edge rest ihrest =>
      rw [List.foldlM_cons, bind_eq_ok] at h
      obtain ⟨next, hnext, hrest⟩ := h
      obtain ⟨middle, hmiddle, hnext⟩ := bind_eq_ok.mp hnext
      rw [Checked.mapError_eq_ok] at hmiddle
      obtain ⟨hexpanded, hinstances⟩ := allocateInstance_expanded hmiddle hs
      obtain ⟨hexpanded', hmem⟩ := ih hnext hexpanded
      obtain ⟨hfinal, hmem'⟩ := ihrest hexpanded' hrest
      refine ⟨hfinal, fun inst t => ?_⟩
      rw [hmem', hmem, hinstances, List.mem_append, List.mem_singleton]
      simp only [List.mem_cons, or_and_right, exists_or, ← Prod.exists',
        exists_eq_left, or_assoc]

/-- A template that is expanded does not include itself. -/
theorem expandInstances_irrefl {declarations : SourceDagId N → Option (List (Decl N))}
    {base : SourceDagId N} (h : expandInstances edges declarations fuel base template s = .ok s') :
    ∀ edge ∈ instantiations (edges template), edge.2 ≠ template := by
  induction fuel generalizing base s s' with
  | zero => cases h
  | succ fuel ih =>
    intro edge hedge heq
    obtain ⟨_, _, hrun⟩ := Checked.exists_step_of_foldlM h hedge
    obtain ⟨_, -, hrun⟩ := bind_eq_ok.mp hrun
    rw [heq] at hrun
    exact ih hrun edge hedge heq

/-- What the builder of connected tables holds. -/
structure Connected (targets : ModuleTargets N) (tables : SymbolTables N)
    (builder : ScopeBuilder N) : Prop where
  expanded : ExpandedFrom tables ⟨builder.resolver.modules, builder.inherited⟩
  keys : builder.own.map Prod.fst = tables.modules.keys
  edges : ∀ owner module, tables.modules.get? owner = some module →
    edgesOf builder.own owner = moduleEdges targets owner module.declarations
  instances : ∀ inst t, (inst, t) ∈ builder.inherited ↔ ∃ root ∈ tables.modules.keys,
    Reached (EdgeIncludes (edgesOf builder.own)) root root inst t
  irrefl : ∀ owner ∈ tables.modules.keys,
    ∀ edge ∈ instantiations (edgesOf builder.own owner), edge.2 ≠ owner

variable {targets : ModuleTargets N} {builder : ScopeBuilder N}

/-- Every include of a source module has its instance. -/
theorem Connected.includes (h : Connected targets tables builder) {owner : SourceDagId N}
    (howner : owner ∈ tables.modules.keys) {edge : Include N × SourceDagId N}
    (hedge : edge ∈ instantiations (edgesOf builder.own owner)) :
    (owner.instanceChild edge.1.instanceScope, edge.2) ∈ builder.inherited ∧ edge.2 ≠ owner :=
  ⟨(h.instances _ _).mpr ⟨owner, howner, .direct hedge⟩, h.irrefl owner howner edge hedge⟩

theorem expandRoots_expanded {roots : List (SourceDagId N)} (h : roots.foldlM (fun s root =>
      expandInstances edges (declarationsOf tables) fuel root root s) s = .ok s')
    (hs : ExpandedFrom tables s) :
    ExpandedFrom tables s' ∧ (∀ inst t, (inst, t) ∈ s'.instances ↔ (inst, t) ∈ s.instances ∨
        ∃ root ∈ roots, Reached (EdgeIncludes edges) root root inst t) ∧
      ∀ root ∈ roots, ∀ edge ∈ instantiations (edges root), edge.2 ≠ root := by
  induction roots generalizing s with
  | nil =>
    cases h
    exact ⟨hs, fun inst t => by simp, nofun⟩
  | cons root rest ih =>
    rw [List.foldlM_cons, bind_eq_ok] at h
    obtain ⟨next, hnext, hrest⟩ := h
    obtain ⟨hexpanded, hmem⟩ := expandInstances_expanded hnext hs
    obtain ⟨hfinal, hmem', hothers⟩ := ih hrest hexpanded
    refine ⟨hfinal, fun inst t => ?_,
      List.forall_mem_cons.mpr ⟨expandInstances_irrefl hnext, hothers⟩⟩
    simp only [hmem', hmem, List.exists_mem_cons_iff, or_assoc]

theorem scopes_connected (h : tables.scopes targets = .ok builder) :
    Connected targets tables builder := by
  obtain ⟨_, -, h⟩ := bind_eq_ok.mp h
  obtain ⟨expanded, hexpanded, h⟩ := bind_eq_ok.mp h
  cases h
  have hstart : ExpandedFrom tables ⟨tables.modules.map SourceModule.entry, []⟩ := by
    refine ⟨fun owner module hmodule => ?_, nofun, fun m entry hm => .inl fun hnone => ?_,
      List.nodup_nil⟩
    · rw [InsertionMap.get?_map, hmodule]
      rfl
    · rw [InsertionMap.get?_map, hnone] at hm
      cases hm
  obtain ⟨hfinal, hmem, hirrefl⟩ := expandRoots_expanded hexpanded hstart
  refine ⟨hfinal, ?_, fun owner module hmodule => ?_, fun inst t => ?_, hirrefl⟩
  · exact List.map_map
  · have hlookup := InsertionMap.lookup_map_value (fun owner (module : SourceModule N) =>
      moduleEdges targets owner module.declarations) owner tables.modules.entries
    refine (congrArg (Option.getD · []) hlookup).trans ?_
    rw [← InsertionMap.get?, hmodule]
    rfl
  · exact (hmem inst t).trans (or_iff_right List.not_mem_nil)

open DependencyOrder

/-!
# The modules of a frozen resolver

Each source module ends with what its edges made of what it declared. Each instance has the symbols
collected from its template's declarations, and its template's scope.
-/

open ProvenGraphcal.Checked (bind_eq_ok foldlM_invariant mapError_eq_ok)

variable {N : Type} [LinearOrder N]

open ModuleResolver

variable {targets : ModuleTargets N} {tables : SymbolTables N} {builder : ScopeBuilder N}
  {reserved : Namespace → N → Bool} {resolver resolver' : ModuleResolver N}

/-- What a frozen resolver holds for every module. -/
structure FrozenFrom (tables : SymbolTables N) (builder : ScopeBuilder N)
    (resolver : ModuleResolver N) : Prop where
  source : ∀ owner module, tables.modules.get? owner = some module →
    ∃ entry, resolver.modules.get? owner = some entry ∧
      RunEffect (edgesOf builder.own owner) module.entry.board entry.board ∧
      Kept module.entry entry
  inst : ∀ edge ∈ builder.inherited, ∃ module source,
    tables.modules.get? edge.2 = some module ∧ resolver.modules.get? edge.2 = some source ∧
      resolver.modules.get? edge.1 =
        some ⟨(collectedEntry edge.1 module.declarations).1.symbols, source.scope⟩
  known : ∀ m entry, resolver.modules.get? m = some entry →
    tables.modules.get? m ≠ none ∨ ∃ template, (m, template) ∈ builder.inherited

/-- The modules while the scopes of the pending ones are not completed. -/
structure Midway (tables : SymbolTables N) (builder : ScopeBuilder N)
    (pending : List (SourceDagId N)) (resolver : ModuleResolver N) : Prop where
  source : ∀ owner module, tables.modules.get? owner = some module →
    ∃ entry, resolver.modules.get? owner = some entry ∧ Kept module.entry entry ∧
      (owner ∈ pending → entry = module.entry) ∧
      (owner ∉ pending →
        RunEffect (edgesOf builder.own owner) module.entry.board entry.board)
  inst : ∀ edge ∈ builder.inherited, ∃ module,
    tables.modules.get? edge.2 = some module ∧
      (resolver.modules.get? edge.1).map (·.symbols) =
        some (collectedEntry edge.1 module.declarations).1.symbols
  known : ∀ m entry, resolver.modules.get? m = some entry →
    tables.modules.get? m ≠ none ∨ ∃ template, (m, template) ∈ builder.inherited

variable {pending : List (SourceDagId N)}

theorem midway_start (h : Connected targets tables builder)
    (hpending : ∀ m ∈ tables.modules.keys, m ∈ pending) :
    Midway tables builder pending builder.resolver := by
  refine ⟨fun owner module hmodule => ?_, fun edge hedge => ?_, h.expanded.known⟩
  · refine ⟨module.entry, h.expanded.source owner module hmodule, .refl _, fun _ => rfl,
      fun hout => absurd (hpending owner (InsertionMap.mem_keys.mpr ⟨module, hmodule⟩)) hout⟩
  · obtain ⟨-, module, hmodule, hentry⟩ := h.expanded.allocated edge hedge
    refine ⟨module, hmodule, ?_⟩
    rw [hentry]
    rfl

variable {owner : SourceDagId N}

/-- Includes of a module are well placed while the modules are completed. -/
theorem Midway.edgeWellPlaced (h : Midway tables builder pending resolver)
    (hconnected : Connected targets tables builder)
    (hcollected : ∀ m module, tables.modules.get? m = some module →
      module.entry = (collectedEntry m module.declarations).1)
    (howner : owner ∈ tables.modules.keys) {edge : ModuleEdge N}
    (hedge : edge ∈ edgesOf builder.own owner) : resolver.EdgeWellPlaced owner edge := by
  rintro decl template rfl
  have hmem : (decl, template) ∈ instantiations (edgesOf builder.own owner) :=
    List.mem_filterMap.mpr ⟨_, hedge, rfl⟩
  obtain ⟨hinherited, hself⟩ := hconnected.includes howner hmem
  obtain ⟨hnew, -⟩ := hconnected.expanded.allocated _ hinherited
  obtain ⟨module, hmodule, hsymbols⟩ := h.inst _ hinherited
  refine ⟨hself, ?_, fun entry source hentry hsource name => ?_⟩
  · rintro heq
    rw [← heq, hmodule] at hnew
    cases hnew
  · obtain ⟨source', hsource', hkept, -⟩ := h.source template module hmodule
    cases hsource.symm.trans hsource'
    rw [hentry] at hsymbols
    have hinst : entry.symbols = (collectedEntry (owner.instanceChild decl.instanceScope)
        module.declarations).1.symbols := Option.some.inj hsymbols
    have hconstructors : source.symbols.tables .constructor =
        (collectedEntry template module.declarations).1.symbols.tables .constructor := by
      rw [hkept.tables .constructor nofun, hcollected template module hmodule]
    have hagree := collectedEntry_declared_board (owner.instanceChild decl.instanceScope) template
      module.declarations .constructor name
    simp only [ModuleEntry.board, hinst, hconstructors]
    exact hagree

theorem Midway.complete (h : Midway tables builder (owner :: pending) resolver)
    (hconnected : Connected targets tables builder)
    (hcollected : ∀ m module, tables.modules.get? m = some module →
      module.entry = (collectedEntry m module.declarations).1)
    (howner : owner ∈ tables.modules.keys) (hfresh : owner ∉ pending)
    (hcomplete : resolver.completeOwnScope reserved owner (edgesOf builder.own owner) =
      .ok resolver') : Midway tables builder pending resolver' := by
  obtain ⟨module, hmodule⟩ := InsertionMap.mem_keys.mp howner
  obtain ⟨entry, hentry, -, hpending, -⟩ := h.source owner module hmodule
  obtain rfl := hpending List.mem_cons_self
  obtain ⟨entry', hcompleted⟩ := completeOwnScope_completed hentry
    (fun edge hedge => h.edgeWellPlaced hconnected hcollected howner hedge) hcomplete
  refine ⟨fun m module' hm => ?_, fun edge hedge => ?_, fun m entry₁ hm => ?_⟩
  · by_cases heq : m = owner
    · subst heq
      cases hmodule.symm.trans hm
      exact ⟨entry', hcompleted.completed, hcompleted.kept, fun hin => absurd hin hfresh,
        fun _ => hcompleted.effect⟩
    · obtain ⟨entry₀, hentry₀, hkept, hwaiting, hdone⟩ := h.source m module' hm
      refine ⟨entry₀, ?_, hkept, fun hin => hwaiting (List.mem_cons_of_mem _ hin),
        fun hout => hdone fun hin => ?_⟩
      · rw [hcompleted.others m heq fun edge hedge hinst => ?_, hentry₀]
        -- a source module is no instance
        cases edge with
        | importEdge decl target => cases hinst
        | includeEdge decl template =>
          cases hinst
          obtain ⟨hinherited, -⟩ := hconnected.includes howner
            (List.mem_filterMap.mpr ⟨.includeEdge decl template, hedge, rfl⟩)
          obtain ⟨hnew, -⟩ := hconnected.expanded.allocated _ hinherited
          rw [hnew] at hm
          cases hm
      · exact (List.mem_cons.mp hin).elim heq hout
  · obtain ⟨module', hmodule', hsymbols⟩ := h.inst edge hedge
    obtain ⟨hnew, -⟩ := hconnected.expanded.allocated _ hedge
    refine ⟨module', hmodule', ?_⟩
    rw [hcompleted.symbols edge.1 ?_, hsymbols]
    intro heq
    rw [heq, hmodule] at hnew
    cases hnew
  · by_cases heq : m = owner
    · exact .inl (by rw [heq, hmodule]; exact nofun)
    · have hsymbols := hcompleted.symbols m heq
      rw [hm] at hsymbols
      obtain ⟨entry₀, hentry₀, -⟩ := Option.map_eq_some_iff.mp hsymbols.symm
      exact h.known m entry₀ hentry₀

theorem Midway.completeAll (h : Midway tables builder pending resolver)
    (hconnected : Connected targets tables builder)
    (hcollected : ∀ m module, tables.modules.get? m = some module →
      module.entry = (collectedEntry m module.declarations).1)
    (hknown : ∀ m ∈ pending, m ∈ tables.modules.keys) (hdistinct : pending.Nodup)
    (hrun : pending.foldlM (builder.completeScope reserved) resolver = .ok resolver') :
    Midway tables builder [] resolver' := by
  induction pending generalizing resolver with
  | nil =>
    cases hrun
    exact h
  | cons owner rest ih =>
    rw [List.foldlM_cons, bind_eq_ok] at hrun
    obtain ⟨next, hnext, hrest⟩ := hrun
    rw [ScopeBuilder.completeScope, mapError_eq_ok] at hnext
    rw [List.nodup_cons] at hdistinct
    have hnext := h.complete hconnected hcollected (hknown owner List.mem_cons_self) hdistinct.1 hnext
    exact ih hnext (fun m hm => hknown m (List.mem_cons_of_mem _ hm)) hdistinct.2 hrest

/-- Instances get the scopes of their templates, which are no instances. -/
theorem inheritAll_spec {inherited : List (SourceDagId N × SourceDagId N)}
    (hdistinct : (inherited.map Prod.fst).Nodup)
    (htemplates : ∀ edge ∈ inherited, edge.2 ∉ inherited.map Prod.fst)
    (h : inherited.foldlM (fun resolver edge => (resolver.inheritScope edge.1 edge.2).mapError
      (ScopeError.mk edge.1)) resolver = .ok resolver') :
    (∀ m, m ∉ inherited.map Prod.fst → resolver'.modules.get? m = resolver.modules.get? m) ∧
      ∀ edge ∈ inherited, ∃ entry source, resolver.modules.get? edge.1 = some entry ∧
        resolver'.modules.get? edge.2 = some source ∧
        resolver'.modules.get? edge.1 = some ⟨entry.symbols, source.scope⟩ := by
  induction inherited generalizing resolver with
  | nil =>
    cases h
    exact ⟨fun _ _ => rfl, nofun⟩
  | cons edge rest ih =>
    rw [List.foldlM_cons, bind_eq_ok] at h
    obtain ⟨next, hnext, hrest⟩ := h
    rw [mapError_eq_ok] at hnext
    rw [List.map_cons, List.nodup_cons] at hdistinct
    obtain ⟨entry, source, hentry, hsource, hget⟩ := inheritScope_eq_ok hnext
    have hkeys : ∀ m, m ∉ (edge :: rest).map Prod.fst → m ≠ edge.1 ∧ m ∉ rest.map Prod.fst := by
      intro m hm
      rw [List.map_cons, List.mem_cons, not_or] at hm
      exact hm
    obtain ⟨hothers, hinst⟩ := ih hdistinct.2
      (fun e he => (hkeys e.2 (htemplates e (List.mem_cons_of_mem _ he))).2) hrest
    refine ⟨fun m hm => ?_, fun e he => ?_⟩
    · rw [hothers m (hkeys m hm).2, hget, if_neg (hkeys m hm).1]
    · rcases List.mem_cons.mp he with rfl | he
      · obtain ⟨hne, hout⟩ := hkeys e.2 (htemplates e List.mem_cons_self)
        refine ⟨entry, source, hentry, ?_, ?_⟩
        · rw [hothers e.2 hout, hget, if_neg hne, hsource]
        · rw [hothers e.1 hdistinct.1, hget, if_pos rfl]
      · obtain ⟨entry', source', hentry', hsource', hfinal⟩ := hinst e he
        have hne : e.1 ≠ edge.1 := fun heq => hdistinct.1 (heq ▸ List.mem_map_of_mem he)
        rw [hget, if_neg hne] at hentry'
        exact ⟨entry', source', hentry', hsource', hfinal⟩

/-! ## Freezing -/

theorem completionOrder_keys (h : Connected targets tables builder) :
    builder.completionOrder.Perm tables.modules.keys := by
  rw [← h.keys]
  refine PostOrderWalk.completionOrder_perm (fun owner => ?_) ?_
  · rw [List.lookup_isSome_iff, List.mem_map]
    exact exists_congr fun edge => and_congr_right fun _ => by rw [beq_iff_eq, eq_comm]
  · rw [h.keys]
    exact tables.modules.distinct

theorem freeze_frozen (hconnected : Connected targets tables builder)
    (hcollected : ∀ m module, tables.modules.get? m = some module →
      module.entry = (collectedEntry m module.declarations).1)
    (h : builder.freeze reserved = .ok resolver) : FrozenFrom tables builder resolver := by
  obtain ⟨completed, hcompleted, h⟩ := bind_eq_ok.mp h
  have hperm := completionOrder_keys hconnected
  have hmidway := (midway_start hconnected fun m hm => hperm.mem_iff.mpr hm).completeAll hconnected
    hcollected (fun m hm => hperm.mem_iff.mp hm) (hperm.nodup_iff.mpr tables.modules.distinct)
    hcompleted
  have hsource : ∀ m module, tables.modules.get? m = some module →
      m ∉ builder.inherited.map Prod.fst := by
    intro m module hm hmem
    obtain ⟨edge, hedge, rfl⟩ := List.mem_map.mp hmem
    rw [(hconnected.expanded.allocated edge hedge).1] at hm
    cases hm
  obtain ⟨hothers, hinst⟩ := inheritAll_spec hconnected.expanded.distinct (fun edge hedge => by
    obtain ⟨-, module, hmodule, -⟩ := hconnected.expanded.allocated edge hedge
    exact hsource edge.2 module hmodule) h
  refine ⟨fun owner module hmodule => ?_, fun edge hedge => ?_, fun m entry hm => ?_⟩
  · obtain ⟨entry, hentry, hkept, -, heffect⟩ := hmidway.source owner module hmodule
    refine ⟨entry, ?_, heffect List.not_mem_nil, hkept⟩
    rw [hothers owner (hsource owner module hmodule), hentry]
  · obtain ⟨module, hmodule, hsymbols⟩ := hmidway.inst edge hedge
    obtain ⟨entry, source, hentry, hfound, hfinal⟩ := hinst edge hedge
    rw [hentry] at hsymbols
    refine ⟨module, source, hmodule, hfound, ?_⟩
    rw [hfinal, ← Option.some.inj hsymbols]
  · by_cases hinherited : m ∈ builder.inherited.map Prod.fst
    · obtain ⟨edge, hedge, rfl⟩ := List.mem_map.mp hinherited
      exact .inr ⟨edge.2, hedge⟩
    · rw [hothers m hinherited] at hm
      exact hmidway.known m entry hm

/-- Everything that building a resolver went through. -/
theorem build_frozen {spellings : Spellings N} {sources : List (SourceDagId N × List (Decl N))}
    (h : ModuleResolver.build spellings targets sources = .ok resolver) :
    ∃ tables builder, Collects sources tables ∧ Connected targets tables builder ∧
      FrozenFrom tables builder resolver := by
  obtain ⟨tables, htables, h⟩ := bind_eq_ok.mp h
  obtain ⟨builder, hbuilder, h⟩ := bind_eq_ok.mp h
  rw [mapError_eq_ok] at htables h
  have hcollects := collects_addModules htables
  have hconnected := scopes_connected hbuilder
  exact ⟨tables, builder, hcollects, hconnected, freeze_frozen hconnected hcollects.entry h⟩

/-!
# Every alias of a frozen resolver requires public targets
-/

/-- The aliases of every module cross a module boundary. -/
def AliasesCross (resolver : ModuleResolver N) : Prop :=
  ∀ m entry, resolver.modules.get? m = some entry →
    ∀ name binding, entry.scope.moduleAliases.get? name = some binding →
      binding.access = .crossModule

namespace ModuleScope

/-- An alias of a scope was there or is one of the additions. -/
theorem addImports_aliases {reserved : Namespace → N → Bool} {symbols : ModuleSymbols N}
    {additions : List (ImportAddition N)} {scope scope' : ModuleScope N}
    (h : scope.addImports reserved symbols additions = .ok scope') {P : ModuleAliasTarget N → Prop}
    (hscope : ∀ name binding, scope.moduleAliases.get? name = some binding → P binding)
    (hadditions : ∀ a ∈ additions, ∀ target access role,
      a.target = .moduleAlias target access role → P ⟨target, access, role, a.visibility⟩) :
    ∀ name binding, scope'.moduleAliases.get? name = some binding → P binding := by
  refine foldlM_invariant (fun s => ∀ name binding, s.moduleAliases.get? name =
    some binding → P binding) (fun a ha s s' hs hadd => ?_) hscope h
  have hadded : (ModuleEntry.mk symbols s).board.Free _ _ ∧ _ := addImport_eq_ok hadd
  obtain ⟨-, rfl⟩ := hadded
  intro name binding hget
  unfold install at hget
  split at hget
  case h_1 target access role htarget =>
    simp only [SortedMap.get?_insert] at hget
    split_ifs at hget with heq
    · cases hget
      exact hadditions a ha target access role htarget
    · exact hs name binding hget
  case h_2 => exact hs name binding hget

end ModuleScope

theorem StaticUpdate.apply_aliases (update : StaticUpdate N) (entry : ModuleEntry N) :
    (update.apply entry).scope.moduleAliases = entry.scope.moduleAliases := by
  cases update <;> rfl

namespace ModuleResolver

variable {reserved : Namespace → N → Bool} {resolver resolver' : ModuleResolver N}
  {owner : SourceDagId N}

theorem registerImportWithAccess_cross {path : ModulePath N}
    {tail : ImportTail N (ItemSelection N)} {target : SourceDagId N} {role : ModuleAliasRole}
    (h : resolver.registerImportWithAccess reserved owner path tail target role = .ok resolver')
    (hcross : AliasesCross resolver) : AliasesCross resolver' := by
  obtain ⟨additions, entry, scope, hadditions, hentry, hscope, hget⟩ :=
    registerImportWithAccess_eq_ok h
  intro m entry' hm
  rw [hget] at hm
  split_ifs at hm with howner
  · cases hm
    refine ModuleScope.addImports_aliases hscope (hcross owner entry hentry) ?_
    intro a ha target' access role' htarget
    cases tail with
    | module alias? visibility =>
      cases hadditions
      cases List.mem_singleton.mp ha
      cases htarget
      rfl
    | selective items =>
      obtain ⟨chunks, rfl, hchunks⟩ := importAdditions_selective hadditions
      obtain ⟨chunk, hchunk, ha⟩ := List.mem_flatten.mp ha
      obtain ⟨item, -, hadded⟩ := Checked.exists_of_forall₂_right hchunks hchunk
      obtain ⟨t, symbol, heq, -⟩ := ((importItemAdditions_spec hadded).2 a ha).table
      rw [heq] at htarget
      cases htarget
  · exact hcross m entry' hm

theorem inheritScope_cross {inst template : SourceDagId N}
    (h : resolver.inheritScope inst template = .ok resolver') (hcross : AliasesCross resolver) :
    AliasesCross resolver' := by
  obtain ⟨entry, source, -, hsource, hget⟩ := inheritScope_eq_ok h
  intro m entry' hm
  rw [hget] at hm
  split_ifs at hm
  · cases hm
    exact hcross template source hsource
  · exact hcross m entry' hm

theorem registerEdge_cross {edge : ModuleEdge N}
    (h : resolver.registerEdge reserved owner edge = .ok resolver')
    (hcross : AliasesCross resolver) : AliasesCross resolver' := by
  cases edge with
  | importEdge decl target => exact registerImportWithAccess_cross h hcross
  | includeEdge decl template =>
    obtain ⟨inherited, hinherited, h⟩ := bind_eq_ok.mp h
    obtain ⟨registered, hregistered, h⟩ := bind_eq_ok.mp h
    have hcross := registerImportWithAccess_cross hregistered (inheritScope_cross hinherited hcross)
    unfold applyIncludeStaticProjectionBindings at h
    split at h
    · cases h
      exact hcross
    · refine foldlM_invariant AliasesCross (fun item _ s s' hs hproject => ?_) hcross h
      obtain ⟨update, -, hget⟩ := projectItem_eq_ok hproject
      intro m entry hm
      rw [hget] at hm
      split_ifs at hm
      · obtain ⟨entry₀, hentry₀, rfl⟩ := Option.map_eq_some_iff.mp hm
        rw [update.apply_aliases]
        exact hs m entry₀ hentry₀
      · exact hs m entry hm

end ModuleResolver

/-- The aliases of a built resolver all cross a module boundary. -/
theorem build_aliasesCross {spellings : Spellings N} {targets : ModuleTargets N}
    {sources : List (SourceDagId N × List (Decl N))} {resolver : ModuleResolver N}
    (h : ModuleResolver.build spellings targets sources = .ok resolver) :
    AliasesCross resolver := by
  obtain ⟨tables, htables, h⟩ := bind_eq_ok.mp h
  obtain ⟨builder, hbuilder, h⟩ := bind_eq_ok.mp h
  rw [mapError_eq_ok] at htables h
  have hcollects := collects_addModules htables
  have hconnected := scopes_connected hbuilder
  have hstart : AliasesCross builder.resolver := by
    intro m entry hm name binding hbinding
    have hempty : entry.scope.moduleAliases = .empty := by
      rcases hconnected.expanded.known m entry hm with hsource | ⟨template, hinst⟩
      · obtain ⟨module, hmodule⟩ := Option.ne_none_iff_exists'.mp hsource
        cases hm.symm.trans (hconnected.expanded.source m module hmodule)
        rw [hcollects.entry m module hmodule]
        exact (collectedEntry_declared m module.declarations).aliases
      · obtain ⟨-, module, -, hget⟩ := hconnected.expanded.allocated _ hinst
        cases hm.symm.trans hget
        exact (collectedEntry_declared m module.declarations).aliases
    rw [hempty] at hbinding
    cases hbinding
  obtain ⟨completed, hcompleted, h⟩ := bind_eq_ok.mp h
  have hcompleted : AliasesCross completed := by
    refine foldlM_invariant AliasesCross (fun owner _ s s' hs hscope => ?_) hstart hcompleted
    rw [ScopeBuilder.completeScope, mapError_eq_ok] at hscope
    exact foldlM_invariant AliasesCross
      (fun edge _ r r' hr hedge => ModuleResolver.registerEdge_cross hedge hr) hs hscope
  refine foldlM_invariant AliasesCross (fun edge _ s s' hs hinherit => ?_) hcompleted h
  rw [mapError_eq_ok] at hinherit
  exact ModuleResolver.inheritScope_cross hinherit hs

end ProvenGraphcal.Resolve
