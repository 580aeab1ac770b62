import ProvenGraphcal.Resolve.Frozen

/-!
# One binding for each name and namespace

A slot has two bindings only where an include selects an index that it binds to no path: the
projection declares such an index and leaves it selected. Instances have one binding in any case.
-/

namespace ProvenGraphcal.Resolve

variable {N : Type} [LinearOrder N]

open Board ModuleResolver

/-! ## Boards after all edges -/

/-- Every selected index that the include binds is bound to a path. -/
def IndexesBoundToPaths (decl : Include N) : Prop :=
  ∀ items, decl.kind = .selective items → ∀ item ∈ items, item.selection.category = .index →
    ∀ binding, itemBinding decl item = some binding → binding.value.path? ≠ none

theorem includeOutcome_eq_doubled {decl : Include N} {item : Item N} :
    includeOutcome decl item = .doubled ↔ item.selection.category = .index ∧
      ∃ binding, itemBinding decl item = some binding ∧ binding.value.path? = none := by
  unfold includeOutcome itemBindingPath
  cases hcategory : item.selection.category with
  | index =>
    cases hbinding : itemBinding decl item with
    | none => simp
    | some binding => simp
  | type | dimension =>
    simp only [reduceCtorEq, false_and, iff_false]
    split_ifs <;> exact nofun
  | unit | term => simp

theorem boundToPaths_iff (decl : Include N) (template : SourceDagId N) :
    IndexesBoundToPaths decl ↔
      ∀ entry ∈ edgeItems (.includeEdge decl template), entry.2 ≠ .doubled := by
  obtain ⟨path, bindings, kind⟩ := decl
  unfold IndexesBoundToPaths
  cases kind with
  | module alias? => exact iff_of_true nofun nofun
  | selective items =>
    simp only [edgeItems, List.forall_mem_map, ImportKind.selective.injEq, forall_eq',
      ne_eq, includeOutcome_eq_doubled, not_and, not_exists]

theorem importItems_selected (decl : Import N) (target : SourceDagId N) :
    ∀ entry ∈ edgeItems (.importEdge decl target), entry.2 = .selected := by
  cases decl with
  | module visibility path alias? => exact nofun
  | selective path items =>
    rintro entry hentry
    obtain ⟨item, -, rfl⟩ := List.mem_map.mp hentry
    rfl

variable {board : Board N} {name : N}

omit [LinearOrder N] in
theorem Holds.eq_of_ne_none {q : Place} {v : BindableVisibility} (h : board.Holds [q] name v)
    {p : Place} (hns : p.namespaceOf = q.namespaceOf) (hp : board p name ≠ none) : p = q := by
  by_contra hne
  exact hp (h.elsewhere q List.mem_cons_self p hns fun hmem => hne (List.mem_singleton.mp hmem))

variable {edges : List (ModuleEdge N)} {ns : Namespace}

/-- An introduced name is bound once, or twice by a doubled item. -/
theorem IntroducedIn.bound (h : IntroducedIn edges board ns name) :
    (∃ q v, q.namespaceOf = ns ∧ board.Holds [q] name v) ∨
      ∃ edge ∈ edges, ∃ entry ∈ edgeItems edge, entry.2 = .doubled ∧ ∃ t, t.namespaceOf = ns ∧
        board.Holds [.declared t, .selected t] name (.ofVisibility entry.1.visibility) := by
  rcases h with ⟨edge, -, entry, -, rfl, -, hheld⟩ |
    ⟨edge, hedge, entry, hentry, hslot, t, hcategory, hheld⟩
  · exact .inl ⟨.moduleAlias, _, rfl, hheld⟩
  · have hns : t.namespaceOf = ns := by
      rw [← t.namespace_of_category, hcategory]
      exact congrArg Prod.fst hslot
    rw [show localNameAtom entry.1 = name from congrArg Prod.snd hslot] at hheld
    cases houtcome : entry.2 with
    | selected =>
      rw [houtcome] at hheld
      exact .inl ⟨.selected t, _, hns, hheld⟩
    | projected =>
      rw [houtcome] at hheld
      exact .inl ⟨.declared t, _, hns, hheld⟩
    | doubled =>
      rw [houtcome] at hheld
      exact .inr ⟨edge, hedge, entry, hentry, houtcome, t, hns, hheld⟩

/-- Outside the declarations, an introduced name is bound at most once. -/
theorem IntroducedIn.undeclared (h : IntroducedIn edges board ns name) :
    ∃ q, ∀ p : Place, p.namespaceOf = ns → (∀ t, p ≠ .declared t) → board p name ≠ none → p = q := by
  rcases h with ⟨edge, -, entry, -, rfl, -, hheld⟩ |
    ⟨edge, -, entry, -, hslot, t, hcategory, hheld⟩
  · exact ⟨.moduleAlias, fun p hp _ hne => Holds.eq_of_ne_none hheld hp hne⟩
  · have hns : t.namespaceOf = ns := by
      rw [← t.namespace_of_category, hcategory]
      exact congrArg Prod.fst hslot
    rw [show localNameAtom entry.1 = name from congrArg Prod.snd hslot] at hheld
    refine ⟨.selected t, fun p hp hnot hne => ?_⟩
    by_contra hselected
    have hplaces : p ∉ ItemOutcome.places t entry.2 := by
      cases entry.2 <;> simp [ItemOutcome.places, hnot, hselected]
    obtain ⟨q, hq, hqns⟩ : ∃ q ∈ ItemOutcome.places t entry.2, q.namespaceOf = t.namespaceOf := by
      cases entry.2 <;> exact ⟨_, List.mem_cons_self, rfl⟩
    exact hne (hheld.elsewhere q hq p (hp.trans (hqns.trans hns).symm) hplaces)

theorem RunEffect.oneBinding {board' : Board N} (h : RunEffect edges board board')
    (hstart : board.OneBindingPerSlot)
    (hitems : ∀ edge ∈ edges, ∀ entry ∈ edgeItems edge, entry.2 ≠ .doubled) :
    board'.OneBindingPerSlot := by
  intro name p p' hns hp hp'
  rcases h.slot p.namespaceOf name with hsame | ⟨-, hintroduced⟩
  · rw [hsame p rfl] at hp
    rw [hsame p' hns.symm] at hp'
    exact hstart name p p' hns hp hp'
  · obtain ⟨q, v, hq, hheld⟩ := hintroduced.bound.resolve_right
      fun ⟨edge, hedge, entry, hentry, hdoubled, _⟩ => hitems edge hedge entry hentry hdoubled
    have hfirst := Holds.eq_of_ne_none hheld hq.symm hp
    rw [hfirst, Holds.eq_of_ne_none hheld (hns ▸ hq.symm) hp']

theorem RunEffect.not_doubled {board' : Board N} (h : RunEffect edges board board')
    (hone : board'.OneBindingPerSlot) :
    ∀ edge ∈ edges, ∀ entry ∈ edgeItems edge, entry.2 ≠ .doubled := by
  intro edge hedge entry hentry hdoubled
  obtain ⟨-, t, -, hheld⟩ := h.items edge hedge entry hentry
  rw [hdoubled] at hheld
  have hdeclared := hheld.at_place (.declared t) List.mem_cons_self
  have hselected := hheld.at_place (.selected t) (List.mem_cons_of_mem _ List.mem_cons_self)
  refine absurd (hone (localNameAtom entry.1) (.declared t) (.selected t) rfl ?_ ?_) nofun
  · rw [hdeclared]
    exact nofun
  · rw [hselected]
    exact nofun

/-- Declarations beside a scope that edges of the same declarations introduced. -/
theorem RunEffect.oneBinding_inherited {board' final : Board N} (h : RunEffect edges board board')
    (hstart : board.OneBindingPerSlot)
    (hdeclared : ∀ t name, final (.declared t) name = board (.declared t) name)
    (hscope : ∀ p name, (∀ t, p ≠ .declared t) → final p name = board' p name) :
    final.OneBindingPerSlot := by
  intro name p p' hns hp hp'
  rcases h.slot p.namespaceOf name with hsame | ⟨hfree, hintroduced⟩
  · have hback : ∀ q : Place, q.namespaceOf = p.namespaceOf → final q name = board q name := by
      intro q hq
      by_cases hdecl : ∃ t, q = .declared t
      · obtain ⟨t, rfl⟩ := hdecl
        exact hdeclared t name
      · rw [hscope q name (not_exists.mp hdecl), hsame q hq]
    rw [hback p rfl] at hp
    rw [hback p' hns.symm] at hp'
    exact hstart name p p' hns hp hp'
  · obtain ⟨q, hq⟩ := hintroduced.undeclared
    have hscoped : ∀ r : Place, r.namespaceOf = p.namespaceOf → final r name ≠ none → r = q := by
      intro r hr hne
      have hnot : ∀ t, r ≠ .declared t := by
        rintro t rfl
        exact hne ((hdeclared t name).trans (hfree _ hr))
      exact hq r hr hnot (hscope r name hnot ▸ hne)
    rw [hscoped p rfl hp, hscoped p' hns.symm hp']

/-- Each name of each module has one binding in a namespace, and a bare path denotes it. -/
def OneBindingEach (resolver : ModuleResolver N) : Prop :=
  ∀ m entry, resolver.modules.get? m = some entry → entry.board.OneBindingPerSlot ∧
    ∀ (t : SymbolTable) (name : N) (symbol : Symbol N t),
      (entry.symbols.tables t).get? name = some symbol ∨
        (entry.scope.selected t).get? name = some symbol →
      resolver.resolveSymbolPath t m ⟨[], name⟩ = .ok symbol

variable {entry : ModuleEntry N} {resolver : ModuleResolver N}

theorem resolve_bare {m : SourceDagId N} (hentry : resolver.modules.get? m = some entry)
    (h : entry.board.OneBindingPerSlot) (t : SymbolTable) (name : N) (symbol : Symbol N t)
    (hbound : (entry.symbols.tables t).get? name = some symbol ∨
      (entry.scope.selected t).get? name = some symbol) :
    resolver.resolveSymbolPath t m ⟨[], name⟩ = .ok symbol := by
  have hvisible : visibleSymbol t entry name = some symbol := by
    unfold visibleSymbol
    rcases hbound with hdeclared | hselected
    · rw [hdeclared]
      rfl
    · have hnone : (entry.symbols.tables t).get? name = none := by
        by_contra hdeclared
        refine absurd (h name (.declared t) (.selected t) rfl ?_ ?_) (by simp)
        · simpa [ModuleEntry.board] using hdeclared
        · simp [ModuleEntry.board, hselected]
      rw [hnone, hselected]
      rfl
  unfold resolveSymbolPath
  rw [entry_eq_ok.mpr hentry]
  simp only [bind, Except.bind]
  rw [hvisible]
  rfl

theorem oneBindingEach_iff : OneBindingEach resolver ↔
    ∀ m entry, resolver.modules.get? m = some entry → entry.board.OneBindingPerSlot :=
  ⟨fun h m entry hentry => (h m entry hentry).1, fun h m entry hentry =>
    ⟨h m entry hentry, resolve_bare hentry (h m entry hentry)⟩⟩

/-- The instances have one binding for each name, whatever the includes bind. -/
theorem FrozenFrom.instance_oneBinding {tables : SymbolTables N} {builder : ScopeBuilder N}
    (h : FrozenFrom tables builder resolver) (hcollected : ∀ m module,
      tables.modules.get? m = some module →
        module.entry = (collectedEntry m module.declarations).1)
    {edge : SourceDagId N × SourceDagId N} (hedge : edge ∈ builder.inherited)
    (hentry : resolver.modules.get? edge.1 = some entry) :
    entry.board.OneBindingPerSlot := by
  obtain ⟨module, source, hmodule, hsource, hinst⟩ := h.inst edge hedge
  obtain ⟨source', hsource', heffect, -⟩ := h.source edge.2 module hmodule
  cases hsource.symm.trans hsource'
  cases hentry.symm.trans hinst
  rw [hcollected edge.2 module hmodule] at heffect
  refine heffect.oneBinding_inherited (collectedEntry_oneBinding _ _) (fun t name => ?_)
    fun p name hp => ?_
  · exact collectedEntry_declared_board edge.1 edge.2 module.declarations t name
  · cases p with
    | declared t => exact absurd rfl (hp t)
    | selected t => rfl
    | moduleAlias => rfl
    | pluginAlias => rfl

/-- The condition is on the includes of the sources whose path names a template. -/
theorem build_oneBindingEach_iff (spellings : Spellings N) (targets : ModuleTargets N)
    (sources : List (SourceDagId N × List (Decl N))) (resolver : ModuleResolver N)
    (h : ModuleResolver.build spellings targets sources = .ok resolver) :
    OneBindingEach resolver ↔ ∀ owner declarations, (owner, declarations) ∈ sources →
      ∀ decl template, .includeEdge decl template ∈ moduleEdges targets owner declarations →
        IndexesBoundToPaths decl := by
  obtain ⟨tables, builder, hcollects, hconnected, hfrozen⟩ := build_frozen h
  rw [oneBindingEach_iff]
  constructor
  · intro hone owner declarations hsource decl template hedge
    obtain ⟨module, hmodule, rfl⟩ := (hcollects.mem owner declarations).mp hsource
    obtain ⟨entry, hentry, heffect, -⟩ := hfrozen.source owner module hmodule
    rw [← hconnected.edges owner module hmodule] at hedge
    rw [boundToPaths_iff decl template]
    exact heffect.not_doubled (hone owner entry hentry) _ hedge
  · intro hbound m entry hentry
    rcases hfrozen.known m entry hentry with hsource | ⟨template, hedge⟩
    · obtain ⟨module, hmodule⟩ := Option.ne_none_iff_exists'.mp hsource
      obtain ⟨entry', hentry', heffect, -⟩ := hfrozen.source m module hmodule
      cases hentry.symm.trans hentry'
      rw [hcollects.entry m module hmodule] at heffect
      refine heffect.oneBinding (collectedEntry_oneBinding _ _) fun edge hedge => ?_
      cases edge with
      | importEdge decl target =>
        intro item hitem
        rw [importItems_selected decl target item hitem]
        exact nofun
      | includeEdge decl template =>
        rw [← boundToPaths_iff]
        refine hbound m module.declarations ((hcollects.mem m _).mpr ⟨module, hmodule, rfl⟩) decl
          template ?_
        rwa [← hconnected.edges m module hmodule]
    · exact hfrozen.instance_oneBinding hcollects.entry hedge hentry

omit [LinearOrder N] in
/-- The root module of a file. -/
def fileRoot (package file : N) : SourceDagId N := ⟨package, ⟨[.file file], List.cons_ne_nil _ _⟩⟩

omit [LinearOrder N] in
/-- A path of one segment, at the start of its file. -/
def rootPath (name : N) : ModulePath N := ⟨⟨[⟨name, ⟨0, 0⟩⟩], List.cons_ne_nil _ _⟩, ⟨0, 0⟩⟩

namespace FiniteIndex

inductive Name
  | pkg
  | main
  | lib
  | cells
  deriving DecidableEq

instance : LinearOrder Name :=
  LinearOrder.lift' Name.ctorIdx fun a b h => by
    cases a <;> cases b <;> first | rfl | exact absurd h (by decide)

/-- `include lib(index cells: Fin(3))::{index cells};` -/
def selected : Include Name where
  path := rootPath .lib
  paramBindings := [⟨.index, .cells, .finite (some 3)⟩]
  kind := .selective [⟨.priv, ⟨.cells, ⟨0, 0⟩⟩, ⟨.index, none⟩⟩]

/-- The same include, of the whole instance. -/
def whole : Include Name := { selected with kind := .module none }

def sources (decl : Include Name) : List (SourceDagId Name × List (Decl Name)) :=
  [(fileRoot .pkg .lib, [.otherDecl (.index .publicBind .cells none)]),
    (fileRoot .pkg .main, [.includeDecl decl])]

def spellings : Spellings Name := ⟨fun _ _ => false, fun _ => true⟩

def targets : ModuleTargets Name where
  importTarget _ _ := none
  includeTarget _ path := if path.key = [.lib] then some (fileRoot .pkg .lib) else none

/-- The including module declares the selected index and keeps it selected. -/
theorem selected_twice : ∃ resolver,
    ModuleResolver.build spellings targets (sources selected) = .ok resolver ∧
      ¬ OneBindingEach resolver := by
  obtain ⟨resolver, hbuild, htwice⟩ := Checked.exists_ok_of_any
    (x := ModuleResolver.build spellings targets (sources selected))
    (p := fun resolver => (resolver.modules.get? (fileRoot .pkg .main)).any fun entry =>
      (entry.board (.declared .index) .cells).isSome &&
        (entry.board (.selected .index) .cells).isSome) (by decide +kernel)
  refine ⟨resolver, hbuild, fun hone => ?_⟩
  obtain ⟨entry, hentry, hplaces⟩ := (Option.any_eq_true _ _).mp htwice
  rw [Bool.and_eq_true, Option.isSome_iff_ne_none, Option.isSome_iff_ne_none] at hplaces
  refine absurd ((hone _ entry hentry).1 .cells (.declared .index) (.selected .index) rfl
    hplaces.1 hplaces.2) nofun

/-- Including the instance as a whole leaves one binding for each name. -/
theorem whole_once : ∃ resolver,
    ModuleResolver.build spellings targets (sources whole) = .ok resolver ∧
      OneBindingEach resolver := by
  obtain ⟨resolver, hbuild, -⟩ := Checked.exists_ok_of_any
    (x := ModuleResolver.build spellings targets (sources whole)) (p := fun _ => true)
    (by decide +kernel)
  refine ⟨resolver, hbuild, (build_oneBindingEach_iff _ _ _ _ hbuild).mpr ?_⟩
  intro owner declarations hsource decl template hedge
  rcases List.mem_cons.mp hsource with heq | hsource
  · cases heq
    cases hedge
  · cases List.mem_singleton.mp hsource
    obtain ⟨declaration, hmem, heq⟩ := List.mem_filterMap.mp hedge
    cases List.mem_singleton.mp hmem
    cases heq
    exact nofun

end FiniteIndex

end ProvenGraphcal.Resolve
