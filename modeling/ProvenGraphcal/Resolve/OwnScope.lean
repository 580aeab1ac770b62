import ProvenGraphcal.Resolve.EdgeEffect

/-!
# Completing the scope of one source module
-/

namespace ProvenGraphcal.Resolve

variable {N : Type} [LinearOrder N]

open Board

/-- The instance that an edge allocates in its owner. -/
def edgeInstance (owner : SourceDagId N) : ModuleEdge N → Option (SourceDagId N)
  | .importEdge _ _ => none
  | .includeEdge decl _ => some (owner.instanceChild decl.instanceScope)

omit [LinearOrder N] in
theorem instanceChild_ne (owner : SourceDagId N) (scope : ScopeSegment N) :
    owner.instanceChild scope ≠ owner := by
  intro h
  have hlength := congrArg (fun id => id.segments.items.length) h
  simp [DagId.instanceChild] at hlength

variable {board board' : Board N} {edge : ModuleEdge N} {entry : ModuleEntry N}

namespace ModuleResolver

variable {reserved : Namespace → N → Bool} {resolver resolver' : ModuleResolver N}
  {owner : SourceDagId N}

/-- Two modules declare the same constructors, as far as their boards tell. -/
def ConstructorsAgree (resolver : ModuleResolver N) (m m' : SourceDagId N) : Prop :=
  ∀ entry entry', resolver.modules.get? m = some entry → resolver.modules.get? m' = some entry' →
    ∀ name, entry.board (.declared .constructor) name = entry'.board (.declared .constructor) name

/-- An include of another source module, whose instance declares what the template declares. -/
def EdgeWellPlaced (resolver : ModuleResolver N) (owner : SourceDagId N) (edge : ModuleEdge N) :
    Prop :=
  ∀ decl template, edge = .includeEdge decl template → template ≠ owner ∧
    template ≠ owner.instanceChild decl.instanceScope ∧
    resolver.ConstructorsAgree (owner.instanceChild decl.instanceScope) template

/-- What registering an edge does to the modules. -/
structure EdgeRegistered (owner : SourceDagId N) (edge : ModuleEdge N)
    (resolver resolver' : ModuleResolver N) (entry entry' : ModuleEntry N) : Prop where
  registered : resolver'.modules.get? owner = some entry'
  effect : EdgeEffect edge entry.board entry'.board
  kept : Kept entry entry'
  symbols : ∀ m, m ≠ owner →
    (resolver'.modules.get? m).map (·.symbols) = (resolver.modules.get? m).map (·.symbols)
  others : ∀ m, m ≠ owner → edgeInstance owner edge ≠ some m →
    resolver'.modules.get? m = resolver.modules.get? m

theorem effect_of_alias {alias? : Option N} {visibility : Visibility}
    (htail : edgeTail edge = .module alias? visibility)
    (hfree : board.Free .term (moduleAlias (edgePath edge) alias?))
    (hholds : board'.Holds [.moduleAlias] (moduleAlias (edgePath edge) alias?)
      (.ofVisibility visibility))
    (hrest : ∀ ns name, (ns, name) ≠ (Namespace.term, moduleAlias (edgePath edge) alias?) →
      SameSlot board board' ns name) : EdgeEffect edge board board' := by
  have halias : edgeAlias edge = some (moduleAlias (edgePath edge) alias?, visibility) := by
    rw [edgeAlias, htail]
  have hitems : edgeItems edge = [] := by
    match edge, htail with
    | .importEdge (.module ..) _, _ => rfl
    | .includeEdge ⟨_, _, .module _⟩ _, _ => rfl
  have hslots : edgeSlots edge = [(.term, moduleAlias (edgePath edge) alias?)] := by
    rw [edgeSlots, halias, hitems]
    rfl
  refine ⟨fun slot hslot => ?_, fun ns name hne => hrest ns name ?_, fun entry hentry => ?_,
    fun entry hentry => ?_⟩
  · rw [hslots, List.mem_singleton] at hslot
    rw [hslot]
    exact hfree
  · rwa [hslots, List.mem_singleton] at hne
  · rw [hitems] at hentry
    cases hentry
  · rw [halias] at hentry
    cases hentry
    exact hholds

/-- A selective edge takes the slots of its items. -/
theorem effect_of_items {items : List (Item N)} {outcome : Item N → ItemOutcome}
    (htail : edgeTail edge = .selective items)
    (hitems : edgeItems edge = items.map fun item => (item, outcome item))
    (hfree : ∀ item ∈ items, board.Free (itemSlot item).1 (itemSlot item).2)
    (hheld : ∀ item ∈ items, ∃ t, ItemHeld item t ((outcome item).places t) board')
    (hrest : ∀ ns name, (ns, name) ∉ items.map itemSlot → SameSlot board board' ns name) :
    EdgeEffect edge board board' := by
  have halias : edgeAlias edge = none := by rw [edgeAlias, htail]
  have hslots : edgeSlots edge = items.map itemSlot := by
    rw [edgeSlots, halias, hitems, List.map_map]
    rfl
  refine ⟨fun slot hslot => ?_, fun ns name hne => hrest ns name (hslots ▸ hne),
    fun entry hentry => ?_, fun entry hentry => ?_⟩
  · rw [hslots] at hslot
    obtain ⟨item, hitem, rfl⟩ := List.mem_map.mp hslot
    exact hfree item hitem
  · rw [hitems] at hentry
    obtain ⟨item, hitem, rfl⟩ := List.mem_map.mp hentry
    exact hheld item hitem
  · rw [halias] at hentry
    cases hentry

theorem registerImport_registered {decl : Import N} {target : SourceDagId N}
    (hentry : resolver.modules.get? owner = some entry)
    (h : resolver.registerImport reserved owner decl target = .ok resolver') :
    ∃ entry', EdgeRegistered owner (.importEdge decl target) resolver resolver' entry entry' := by
  obtain ⟨additions, found, scope, hadditions, hfound, hscope, hget⟩ :=
    registerImportWithAccess_eq_ok h
  cases hentry.symm.trans hfound
  have htail := registered_tail hadditions hscope
  refine ⟨⟨entry.symbols, scope⟩, ?_, ?_, ⟨rfl, fun _ _ => rfl, addImports_plugins hscope⟩,
    fun m hm => ?_, fun m hm _ => ?_⟩
  · rw [hget, if_pos rfl]
  · cases decl with
    | module visibility path alias? =>
      exact effect_of_alias rfl htail.1 htail.2.1 htail.2.2
    | selective path items =>
      have hitems : edgeItems (.importEdge (.selective path items) target) =
          items.map fun item => (item, ItemOutcome.selected) := rfl
      refine effect_of_items rfl hitems htail.1.free (fun item hitem => ?_) htail.1.rest
      obtain ⟨t, hheld, -⟩ := htail.2 item hitem
      exact ⟨t, hheld⟩
  · rw [hget, if_neg hm]
  · rw [hget, if_neg hm]

/-- The instance gets the scope of its template, and nothing else changes. -/
theorem inheritScope_eq_ok {inst template : SourceDagId N}
    (h : resolver.inheritScope inst template = .ok resolver') :
    ∃ entry source, resolver.modules.get? inst = some entry ∧
      resolver.modules.get? template = some source ∧
      ∀ m, resolver'.modules.get? m =
        if m = inst then some ⟨entry.symbols, source.scope⟩ else resolver.modules.get? m := by
  obtain ⟨scope, hscope, h⟩ := Checked.bind_eq_ok.mp h
  obtain ⟨entry, hentry, rfl⟩ := Checked.bind_pure_eq_ok.mp h
  obtain ⟨source, hsource, rfl⟩ := moduleScope_eq_ok.mp hscope
  rw [entry_eq_ok] at hentry
  refine ⟨entry, source, hentry, hsource, fun m => ?_⟩
  rw [get?_updateEntry]
  split_ifs with hm
  · rw [hm, hentry]
    rfl
  · rfl

/-- A template exports a constructor only if its instance does. -/
theorem exists_instance_constructor {source : ModuleEntry N}
    (hagree : ∀ name, entry.board (.declared .constructor) name =
      source.board (.declared .constructor) name) {atom : N} {constructor : Symbol N .constructor}
    (h : source.exported .constructor atom .crossModule = .pub constructor) :
    ∃ constructor', (ModuleEntry.mk entry.symbols source.scope).exported .constructor atom
      .crossModule = .pub constructor' := by
  have hsource := ModuleEntry.exists_exported_iff.mp ⟨constructor, h⟩
  refine ModuleEntry.exists_exported_iff.mpr ?_
  have hdeclared : (ModuleEntry.mk entry.symbols source.scope).board (.declared .constructor) atom =
      source.board (.declared .constructor) atom := hagree atom
  rw [hdeclared]
  exact hsource

theorem registerEdge_registered (hentry : resolver.modules.get? owner = some entry)
    (hplaced : resolver.EdgeWellPlaced owner edge)
    (h : resolver.registerEdge reserved owner edge = .ok resolver') :
    ∃ entry', EdgeRegistered owner edge resolver resolver' entry entry' := by
  cases edge with
  | importEdge decl target => exact registerImport_registered hentry h
  | includeEdge decl template =>
    obtain ⟨htemplate, hinst, hagree⟩ := hplaced decl template rfl
    obtain ⟨inherited, hinherited, h⟩ := Checked.bind_eq_ok.mp h
    obtain ⟨registered, hregistered, h⟩ := Checked.bind_eq_ok.mp h
    obtain ⟨instEntry, source, hinstEntry, hsource, hinherit⟩ := inheritScope_eq_ok hinherited
    obtain ⟨additions, found, scope, hadditions, hfound, hscope, hget⟩ :=
      registerImportWithAccess_eq_ok hregistered
    have howner : inherited.modules.get? owner = some entry := by
      rw [hinherit, if_neg (instanceChild_ne _ _).symm, hentry]
    cases howner.symm.trans hfound
    have htail := registered_tail hadditions hscope
    have hkept : Kept entry ⟨entry.symbols, scope⟩ :=
      ⟨rfl, fun _ _ => rfl, addImports_plugins hscope⟩
    have hothers : ∀ m, m ≠ owner → m ≠ owner.instanceChild decl.instanceScope →
        registered.modules.get? m = resolver.modules.get? m := by
      intro m hm hmi
      rw [hget, if_neg hm, hinherit, if_neg hmi]
    have hsymbols : ∀ m, m ≠ owner → (registered.modules.get? m).map (·.symbols) =
        (resolver.modules.get? m).map (·.symbols) := by
      intro m hm
      rw [hget, if_neg hm, hinherit]
      split_ifs with hmi
      · rw [hmi, hinstEntry]
        rfl
      · rfl
    have hregisteredOwner : registered.modules.get? owner = some ⟨entry.symbols, scope⟩ := by
      rw [hget, if_pos rfl]
    obtain ⟨path, bindings, kind⟩ := decl
    cases kind with
    | module alias? =>
      cases h
      refine ⟨_, hregisteredOwner, effect_of_alias rfl htail.1 htail.2.1 htail.2.2, hkept,
        hsymbols, fun m hm hmi => hothers m hm fun he => hmi (he ▸ rfl)⟩
    | selective items =>
      -- the template still exports at projection what the instance exported at registration
      have hconstructor : ∀ item ∈ items, ∃ t, ItemHeld item t [.selected t]
          (ModuleEntry.mk entry.symbols scope).board ∧
          (item.selection.category = .term → ∀ constructor, registered.exportedSymbolForImport
            .constructor template item.name.name .crossModule = .ok (.pub constructor) →
              t = .constructor) := by
        intro item hitem
        obtain ⟨t, hheld, hconstructor⟩ := htail.2 item hitem
        refine ⟨t, hheld, fun hterm constructor hc => ?_⟩
        rw [exportedSymbolForImport_eq_ok] at hc
        obtain ⟨source', hsource', hc⟩ := hc
        rw [hothers template htemplate hinst, hsource] at hsource'
        cases hsource'
        obtain ⟨constructor', hc'⟩ := exists_instance_constructor
          (hagree instEntry source hinstEntry hsource) hc
        refine hconstructor hterm constructor' ?_
        rw [exportedSymbolForImport_eq_ok]
        exact ⟨_, by rw [hinherit, if_pos rfl], hc'⟩
      obtain ⟨entry', hentry', hunchanged, hkept', houtcomes, hsame⟩ :=
        projectItems_effect htemplate h hregisteredOwner htail.1.distinct hconstructor
      refine ⟨entry', hentry', ?_, hkept.trans hkept', fun m hm => ?_, fun m hm hmi => ?_⟩
      · exact effect_of_items rfl rfl htail.1.free houtcomes fun ns name hne =>
          (htail.1.rest ns name hne).trans (hsame ns name hne)
      · rw [hunchanged m hm, hsymbols m hm]
      · rw [hunchanged m hm, hothers m hm fun he => hmi (he ▸ rfl)]

end ModuleResolver

/-! ## All edges of a module -/

/-- The boards of a module before and after its edges are registered. -/
inductive RunEffect : List (ModuleEdge N) → Board N → Board N → Prop
  | nil (board : Board N) : RunEffect [] board board
  | cons {edge : ModuleEdge N} {rest : List (ModuleEdge N)} {board next board' : Board N}
    (first : EdgeEffect edge board next) (others : RunEffect rest next board') :
    RunEffect (edge :: rest) board board'

omit [LinearOrder N] in
theorem ItemHeld.not_free {item : Item N} {t : SymbolTable} {outcome : ItemOutcome}
    {board : Board N} (h : ItemHeld item t (outcome.places t) board) :
    ¬ board.Free (itemSlot item).1 (itemSlot item).2 := by
  obtain ⟨hcategory, hholds⟩ := h
  have hns : (itemSlot item).1 = t.namespaceOf := by
    rw [itemSlot, ← hcategory, t.namespace_of_category]
  rw [hns]
  cases outcome with
  | selected => exact hholds.not_free
  | projected => exact hholds.not_free
  | doubled => exact hholds.not_free

/-- The slots of an edge are taken afterwards. -/
theorem EdgeEffect.not_free {edge : ModuleEdge N} {board board' : Board N}
    (h : EdgeEffect edge board board') {ns : Namespace} {name : N}
    (hslot : (ns, name) ∈ edgeSlots edge) : ¬ board'.Free ns name := by
  rcases List.mem_append.mp hslot with hslot | hslot
  · obtain ⟨entry, hentry, heq⟩ := List.mem_map.mp hslot
    cases heq
    exact (h.alias_held entry (Option.mem_toList.mp hentry)).not_free
  · obtain ⟨entry, hentry, heq⟩ := List.mem_map.mp hslot
    obtain ⟨t, hheld⟩ := h.items entry hentry
    have hfree := hheld.not_free
    rwa [heq] at hfree

variable {name : N} {ns : Namespace}

/-- A slot that is taken before an edge stays as it is. -/
theorem EdgeEffect.same (h : EdgeEffect edge board board') (hfree : ¬ board.Free ns name) :
    SameSlot board board' ns name :=
  h.rest ns name fun hslot => hfree (h.free _ hslot)

theorem RunEffect.same {edges : List (ModuleEdge N)} {board board' : Board N}
    (h : RunEffect edges board board') {ns : Namespace} {name : N} (hfree : ¬ board.Free ns name) :
    SameSlot board board' ns name := by
  induction h with
  | nil => exact fun _ _ => rfl
  | @cons edge rest board next board' first _ ih =>
    have hfirst := first.same hfree
    exact hfirst.trans (ih fun hnext => hfree (hnext.congr fun p hp => (hfirst p hp).symm))

/-- A slot that is free before the edges is free of every edge's names, or takes one of them. -/
theorem EdgeEffect.free_of_rest (h : EdgeEffect edge board board') (hfree : board'.Free ns name) :
    board.Free ns name :=
  hfree.congr fun p hp => (h.rest ns name (fun hslot => h.not_free hslot hfree) p hp).symm

/-- Every item of the edges took a free slot and stays where the projection left it. -/
theorem RunEffect.items {edges : List (ModuleEdge N)} {board board' : Board N}
    (h : RunEffect edges board board') : ∀ edge ∈ edges, ∀ entry ∈ edgeItems edge,
      board.Free (itemSlot entry.1).1 (itemSlot entry.1).2 ∧
        ∃ t, ItemHeld entry.1 t (entry.2.places t) board' := by
  induction h with
  | nil => exact nofun
  | @cons edge rest board next board' first others ih =>
    intro edge' hedge' entry hentry
    rcases List.mem_cons.mp hedge' with rfl | hedge'
    · obtain ⟨t, hheld⟩ := first.items entry hentry
      refine ⟨first.free (itemSlot entry.1) ?_, t, hheld.congr (others.same hheld.not_free)⟩
      exact List.mem_append_right _ (List.mem_map_of_mem (f := fun e => itemSlot e.1) hentry)
    · obtain ⟨hfree, hheld⟩ := ih edge' hedge' entry hentry
      exact ⟨first.free_of_rest hfree, hheld⟩

/-- The names an edge introduces in a slot, as they are bound in the end. -/
def IntroducedIn (edges : List (ModuleEdge N)) (board : Board N) (ns : Namespace) (name : N) :
    Prop :=
  (∃ edge ∈ edges, ∃ entry ∈ edgeAlias edge, ns = .term ∧ name = entry.1 ∧
    board.Holds [.moduleAlias] name (.ofVisibility entry.2)) ∨
  ∃ edge ∈ edges, ∃ entry ∈ edgeItems edge, itemSlot entry.1 = (ns, name) ∧
    ∃ t, ItemHeld entry.1 t (entry.2.places t) board

theorem EdgeEffect.introduced (h : EdgeEffect edge board board')
    (hslot : (ns, name) ∈ edgeSlots edge) : IntroducedIn [edge] board' ns name := by
  rcases List.mem_append.mp hslot with hslot | hslot
  · obtain ⟨entry, hentry, heq⟩ := List.mem_map.mp hslot
    cases heq
    rw [Option.mem_toList] at hentry
    exact .inl ⟨edge, List.mem_cons_self, entry, hentry, rfl, rfl, h.alias_held entry hentry⟩
  · obtain ⟨entry, hentry, heq⟩ := List.mem_map.mp hslot
    exact .inr ⟨edge, List.mem_cons_self, entry, hentry, heq, h.items entry hentry⟩

theorem IntroducedIn.congr {edges : List (ModuleEdge N)} {board board' : Board N} {ns : Namespace}
    {name : N} (h : IntroducedIn edges board ns name) (hsame : SameSlot board board' ns name) :
    IntroducedIn edges board' ns name := by
  rcases h with ⟨edge, hedge, entry, hentry, rfl, rfl, hholds⟩ |
    ⟨edge, hedge, entry, hentry, hslot, t, hheld⟩
  · exact .inl ⟨edge, hedge, entry, hentry, rfl, rfl, hholds.congr nofun hsame⟩
  · refine .inr ⟨edge, hedge, entry, hentry, hslot, t, hheld.congr ?_⟩
    rw [hslot]
    exact hsame

variable {edges : List (ModuleEdge N)}

theorem IntroducedIn.mono {edges' : List (ModuleEdge N)} (h : IntroducedIn edges board ns name)
    (hsub : ∀ edge ∈ edges, edge ∈ edges') :
    IntroducedIn edges' board ns name := by
  rcases h with ⟨edge, hedge, rest⟩ | ⟨edge, hedge, rest⟩
  · exact .inl ⟨edge, hsub edge hedge, rest⟩
  · exact .inr ⟨edge, hsub edge hedge, rest⟩

/-- Each slot is as it was, or was free and holds what one of the edges introduces. -/
theorem RunEffect.slot (h : RunEffect edges board board') (ns : Namespace) (name : N) :
    SameSlot board board' ns name ∨
      board.Free ns name ∧ IntroducedIn edges board' ns name := by
  induction h with
  | nil => exact .inl fun _ _ => rfl
  | @cons edge rest board next board' first others ih =>
    by_cases hslot : (ns, name) ∈ edgeSlots edge
    · refine .inr ⟨first.free _ hslot, ?_⟩
      exact ((first.introduced hslot).congr (others.same (first.not_free hslot))).mono
        fun e he => List.mem_singleton.mp he ▸ List.mem_cons_self
    · have hfirst := first.rest ns name hslot
      rcases ih with hsame | ⟨hfree, hintroduced⟩
      · exact .inl (hfirst.trans hsame)
      · exact .inr ⟨first.free_of_rest hfree,
          hintroduced.mono fun e he => List.mem_cons_of_mem _ he⟩

namespace ModuleResolver

variable {reserved : Namespace → N → Bool} {resolver resolver' : ModuleResolver N}
  {owner : SourceDagId N}

/-- What the modules other than the owner declare decides whether an edge is well placed. -/
theorem EdgeWellPlaced.congr (h : resolver.EdgeWellPlaced owner edge) (hsymbols : ∀ m, m ≠ owner →
      (resolver'.modules.get? m).map (·.symbols) = (resolver.modules.get? m).map (·.symbols)) :
    resolver'.EdgeWellPlaced owner edge := by
  intro decl template hedge
  obtain ⟨htemplate, hinst, hagree⟩ := h decl template hedge
  refine ⟨htemplate, hinst, fun entry source hentry hsource name => ?_⟩
  have hinstSymbols := hsymbols _ (instanceChild_ne owner decl.instanceScope)
  have htemplateSymbols := hsymbols template htemplate
  rw [hentry] at hinstSymbols
  rw [hsource] at htemplateSymbols
  obtain ⟨entry₀, hentry₀, heq⟩ := Option.map_eq_some_iff.mp hinstSymbols.symm
  obtain ⟨source₀, hsource₀, heq'⟩ := Option.map_eq_some_iff.mp htemplateSymbols.symm
  have hname := hagree entry₀ source₀ hentry₀ hsource₀ name
  simp only [ModuleEntry.board, heq, heq'] at hname
  exact hname

/-- What completing a module's scope does to the modules. -/
structure ScopeCompleted (owner : SourceDagId N) (edges : List (ModuleEdge N))
    (resolver resolver' : ModuleResolver N) (entry entry' : ModuleEntry N) : Prop where
  completed : resolver'.modules.get? owner = some entry'
  effect : RunEffect edges entry.board entry'.board
  kept : Kept entry entry'
  symbols : ∀ m, m ≠ owner →
    (resolver'.modules.get? m).map (·.symbols) = (resolver.modules.get? m).map (·.symbols)
  others : ∀ m, m ≠ owner → (∀ edge ∈ edges, edgeInstance owner edge ≠ some m) →
    resolver'.modules.get? m = resolver.modules.get? m

theorem completeOwnScope_completed (hentry : resolver.modules.get? owner = some entry)
    (hplaced : ∀ edge ∈ edges, resolver.EdgeWellPlaced owner edge)
    (h : resolver.completeOwnScope reserved owner edges = .ok resolver') :
    ∃ entry', ScopeCompleted owner edges resolver resolver' entry entry' := by
  induction edges generalizing resolver entry with
  | nil =>
    cases h
    exact ⟨entry, hentry, .nil _, .refl entry, fun _ _ => rfl, fun _ _ _ => rfl⟩
  | cons edge rest ih =>
    unfold completeOwnScope at h
    rw [List.foldlM_cons, Checked.bind_eq_ok] at h
    obtain ⟨next, hnext, hrest⟩ := h
    obtain ⟨middle, hmiddle⟩ :=
      registerEdge_registered hentry (hplaced edge List.mem_cons_self) hnext
    obtain ⟨entry', hentry'⟩ := ih hmiddle.registered
      (fun e he => (hplaced e (List.mem_cons_of_mem _ he)).congr hmiddle.symbols) hrest
    refine ⟨entry', hentry'.completed, .cons hmiddle.effect hentry'.effect,
      hmiddle.kept.trans hentry'.kept, fun m hm => ?_, fun m hm hinst => ?_⟩
    · exact (hentry'.symbols m hm).trans (hmiddle.symbols m hm)
    · rw [hentry'.others m hm fun e he => hinst e (List.mem_cons_of_mem _ he),
        hmiddle.others m hm (hinst edge List.mem_cons_self)]

end ModuleResolver

end ProvenGraphcal.Resolve
