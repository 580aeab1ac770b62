import ProvenGraphcal.Resolve.OneBinding

/-!
# Aliases at their declaration and at their registration

A declaration claims the Term slot of its alias, and the registered edge claims it again. Only the
first claim exempts an alias that re-spells a local `dag`.
-/

namespace ProvenGraphcal.Resolve

open Checked (bind_eq_ok)
open StaticUpdate (board_apply)
open List (foldlM_cons map_map mem_append mem_cons_self mem_filterMap mem_map mem_singleton)
open Option (map_eq_none_iff map_eq_some_iff map_none)

variable {N : Type} [LinearOrder N]

open Board

/-! ## What edges can take in the Term namespace -/

/-- The symbols of the Term namespace stay, and only these slots are taken. -/
structure TermGrowth (entry entry' : ModuleEntry N) (slots : List (Namespace × N)) : Prop where
  tables : ∀ t : SymbolTable, t.namespaceOf = .term →
    entry'.symbols.tables t = entry.symbols.tables t
  bound : ∀ (p : Place) name, p.namespaceOf = .term → entry'.board p name ≠ none →
    entry.board p name ≠ none ∨ (Namespace.term, name) ∈ slots

theorem TermGrowth.refl (entry : ModuleEntry N) : TermGrowth entry entry [] :=
  ⟨fun _ _ => rfl, fun _ _ _ h => .inl h⟩

theorem TermGrowth.trans {entry entry' entry'' : ModuleEntry N} {slots slots' : List (Namespace × N)}
    (h : TermGrowth entry entry' slots) (h' : TermGrowth entry' entry'' slots') :
    TermGrowth entry entry'' (slots ++ slots') := by
  refine ⟨fun t ht => (h'.tables t ht).trans (h.tables t ht), fun p name hp hne => ?_⟩
  rw [mem_append]
  rcases h'.bound p name hp hne with hmiddle | hslot
  · exact (h.bound p name hp hmiddle).imp_right .inl
  · exact .inr (.inr hslot)

theorem TermGrowth.mono {entry entry' : ModuleEntry N} {slots slots' : List (Namespace × N)}
    (h : TermGrowth entry entry' slots) (hsub : ∀ slot ∈ slots, slot ∈ slots') :
    TermGrowth entry entry' slots' :=
  ⟨h.tables, fun p name hp hne => (h.bound p name hp hne).imp_right (hsub _)⟩

/-- Slots that stay the same take nothing. -/
theorem TermGrowth.of_rest {entry entry' : ModuleEntry N} {slots : List (Namespace × N)}
    (htables : ∀ t : SymbolTable, t.namespaceOf = .term →
      entry'.symbols.tables t = entry.symbols.tables t)
    (hrest : ∀ ns name, (ns, name) ∉ slots → SameSlot entry.board entry'.board ns name) :
    TermGrowth entry entry' slots := by
  refine ⟨htables, fun p name hp hne => or_iff_not_imp_right.mpr fun hslot => ?_⟩
  rwa [hrest .term name hslot p hp] at hne

variable {access : Access} {items : List (Item N)} {role : ModuleAliasRole} {name : N}
variable {target : SourceDagId N}

namespace ModuleResolver

variable {resolver resolver' : ModuleResolver N} {owner template : SourceDagId N}
  {decl : Include N} {item : Item N} {reserved : Namespace → N → Bool}

/-- Projecting an item changes its slot only. -/
theorem itemUpdate_rest {update : StaticUpdate N}
    (h : resolver.itemUpdate owner template decl items item = .ok update) (entry : ModuleEntry N)
    {ns : Namespace} (hne : (ns, name) ≠ itemSlot item) :
    SameSlot entry.board (update.apply entry).board ns name := by
  have hput : ∀ (board : Board N) (p : Place) (v? : Option BindableVisibility),
      p.namespaceOf = (itemSlot item).1 →
        SameSlot board (board.put p (localNameAtom item) v?) ns name := by
    intro board p v? hp
    refine put_sameSlot _ _ fun heq => hne ?_
    rw [heq, hp]
    rfl
  have hselected : ∀ t : SymbolTable, t.namespaceOf = (itemSlot item).1 →
      resolver.selectedUpdate owner template decl t item = .ok update →
        SameSlot entry.board (update.apply entry).board ns name := by
    intro t ht hselected
    obtain ⟨symbol, rfl⟩ := selectedUpdate_eq_ok hselected
    rw [board_apply]
    exact hput _ _ _ ht
  have hslot : (itemSlot item).1 = Namespace.of item.selection.category := rfl
  unfold itemUpdate at h
  split at h
  case h_1 hcategory =>
    rw [hcategory] at hslot
    unfold typeUpdate at h
    split_ifs at h
    · obtain ⟨symbols, -, h⟩ := bind_eq_ok.mp h
      split at h
      · cases h
      · cases h
        rw [board_apply]
        exact (hput _ (.selected .structType) _ hslot.symm).trans
          (hput _ (.declared .structType) _ hslot.symm)
    · exact hselected .structType hslot.symm h
  case h_2 hcategory =>
    rw [hcategory] at hslot
    unfold dimensionUpdate at h
    split_ifs at h
    · cases h
      rw [board_apply]
      exact (hput _ (.selected .dimension) _ hslot.symm).trans
        (hput _ (.declared .dimension) _ hslot.symm)
    · exact hselected .dimension hslot.symm h
  case h_3 hcategory =>
    rw [hcategory] at hslot
    unfold indexUpdate at h
    split at h
    · cases h
      rw [board_apply]
      exact hput _ _ _ hslot.symm
    · exact hselected .index hslot.symm h
  case h_4 hcategory =>
    rw [hcategory] at hslot
    exact hselected .unit hslot.symm h
  case h_5 hcategory =>
    rw [hcategory] at hslot
    obtain ⟨found, -, h⟩ := bind_eq_ok.mp h
    cases found with
    | priv =>
      cases h
      exact fun _ _ => rfl
    | missing =>
      cases h
      exact fun _ _ => rfl
    | pub constructor =>
      dsimp only at h
      split_ifs at h
      obtain ⟨entry', -, h⟩ := bind_eq_ok.mp h
      cases h
      rw [board_apply]
      exact hput _ _ _ hslot.symm

variable {entry : ModuleEntry N}

theorem projectItems_growth {rest : List (Item N)}
    (h : rest.foldlM (fun resolver item => resolver.projectItem owner template decl items item)
      resolver = .ok resolver') (hentry : resolver.modules.get? owner = some entry) :
    ∃ entry', resolver'.modules.get? owner = some entry' ∧
      TermGrowth entry entry' (rest.map itemSlot) := by
  induction rest generalizing resolver entry with
  | nil =>
    cases h
    exact ⟨entry, hentry, .refl entry⟩
  | cons item rest ih =>
    rw [foldlM_cons, bind_eq_ok] at h
    obtain ⟨next, hnext, hrest⟩ := h
    obtain ⟨update, hupdate, hget⟩ := projectItem_eq_ok hnext
    have hmoved : TermGrowth entry (update.apply entry) [itemSlot item] := by
      refine .of_rest (fun t ht => (update.kept entry).tables t (by rw [ht]; exact nofun)) ?_
      exact fun ns name hne => itemUpdate_rest hupdate entry fun heq =>
        hne (mem_singleton.mpr heq)
    have howner : next.modules.get? owner = some (update.apply entry) := by
      rw [hget, if_pos rfl, hentry]
      rfl
    obtain ⟨entry', hentry', hgrowth⟩ := ih hrest howner
    exact ⟨entry', hentry', hmoved.trans hgrowth⟩

/-- The slots of what a tail introduces. -/
def TailSlot (path : ModulePath N) (slot : Namespace × N) :
    ImportTail N (ItemSelection N) → Prop
  | .module alias? _ => slot = (.term, moduleAlias path alias?)
  | .selective items => ∃ item ∈ items, slot = itemSlot item

/-- The additions of an edge take the edge's slots. -/
theorem importAdditions_slots {path : ModulePath N} {tail : ImportTail N (ItemSelection N)}
    {additions : List (ImportAddition N)}
    (h : resolver.importAdditions path tail target access role = .ok additions) :
    ∀ a ∈ additions, TailSlot path a.slot tail := by
  cases tail with
  | module alias? visibility =>
    cases h
    intro a ha
    rw [mem_singleton.mp ha]
    rfl
  | selective items =>
    obtain ⟨chunks, rfl, hchunks⟩ := importAdditions_selective h
    intro a ha
    obtain ⟨chunk, hchunk, ha⟩ := List.mem_flatten.mp ha
    obtain ⟨item, hitem, hadditions⟩ := Checked.exists_of_forall₂_right hchunks hchunk
    exact ⟨item, hitem, ((importItemAdditions_spec hadditions).2 a ha).slot⟩

variable {edge : ModuleEdge N}

theorem mem_edgeSlots_tail {slot : Namespace × N}
    (h : TailSlot (edgePath edge) slot (edgeTail edge)) : slot ∈ edgeSlots edge := by
  unfold edgeSlots edgeAlias
  rw [mem_append]
  match edge, h with
  | .importEdge (.module visibility path alias?) target, h =>
    exact .inl (mem_map.mpr ⟨_, List.mem_singleton_self _, h.symm⟩)
  | .includeEdge ⟨path, bindings, .module alias?⟩ template, h =>
    exact .inl (mem_map.mpr ⟨_, List.mem_singleton_self _, h.symm⟩)
  | .importEdge (.selective path items) target, ⟨item, hitem, heq⟩ =>
    exact .inr (mem_map.mpr ⟨_, List.mem_map_of_mem hitem, heq.symm⟩)
  | .includeEdge ⟨path, bindings, .selective items⟩ template, ⟨item, hitem, heq⟩ =>
    exact .inr (mem_map.mpr ⟨_, List.mem_map_of_mem hitem, heq.symm⟩)

theorem registerImportWithAccess_growth (edge : ModuleEdge N)
    (hentry : resolver.modules.get? owner = some entry)
    (h : resolver.registerImportWithAccess reserved owner (edgePath edge) (edgeTail edge) target
      role = .ok resolver') :
    ∃ scope, resolver'.modules.get? owner = some ⟨entry.symbols, scope⟩ ∧
      TermGrowth entry ⟨entry.symbols, scope⟩ (edgeSlots edge) := by
  obtain ⟨additions, found, scope, hadditions, hfound, hscope, hget⟩ :=
    registerImportWithAccess_eq_ok h
  cases hentry.symm.trans hfound
  refine ⟨scope, by rw [hget, if_pos rfl], ?_⟩
  have hadded := addImports_added hscope
  have hgrowth : TermGrowth entry ⟨entry.symbols, scope⟩ (additions.map ImportAddition.slot) :=
    .of_rest (fun _ _ => rfl) hadded.rest
  refine hgrowth.mono fun slot hslot => ?_
  obtain ⟨a, ha, rfl⟩ := mem_map.mp hslot
  exact mem_edgeSlots_tail (importAdditions_slots hadditions a ha)

theorem registerEdge_growth (hentry : resolver.modules.get? owner = some entry)
    (h : resolver.registerEdge reserved owner edge = .ok resolver') :
    ∃ entry', resolver'.modules.get? owner = some entry' ∧
      TermGrowth entry entry' (edgeSlots edge) := by
  cases edge with
  | importEdge decl target =>
    obtain ⟨scope, hscope, hgrowth⟩ :=
      registerImportWithAccess_growth (.importEdge decl target) hentry h
    exact ⟨_, hscope, hgrowth⟩
  | includeEdge decl template =>
    obtain ⟨inherited, hinherited, h⟩ := bind_eq_ok.mp h
    obtain ⟨registered, hregistered, h⟩ := bind_eq_ok.mp h
    obtain ⟨_, _, -, -, hinherit⟩ := inheritScope_eq_ok hinherited
    have howner : inherited.modules.get? owner = some entry := by
      rw [hinherit, if_neg (instanceChild_ne _ _).symm, hentry]
    obtain ⟨scope, hscope, hgrowth⟩ :=
      registerImportWithAccess_growth (.includeEdge decl template) howner hregistered
    unfold applyIncludeStaticProjectionBindings at h
    split at h
    case h_1 =>
      cases h
      exact ⟨_, hscope, hgrowth⟩
    case h_2 items hkind =>
      obtain ⟨entry', hentry', hprojected⟩ := projectItems_growth h hscope
      refine ⟨entry', hentry', (hgrowth.trans hprojected).mono fun slot hslot => ?_⟩
      rcases mem_append.mp hslot with hslot | hslot
      · exact hslot
      · refine mem_edgeSlots_tail ?_
        obtain ⟨item, hitem, rfl⟩ := mem_map.mp hslot
        rw [edgeTail, hkind]
        exact ⟨item, hitem, rfl⟩

theorem completeOwnScope_growth {edges : List (ModuleEdge N)}
    (hentry : resolver.modules.get? owner = some entry)
    (h : resolver.completeOwnScope reserved owner edges = .ok resolver') :
    ∃ entry', resolver'.modules.get? owner = some entry' ∧
      TermGrowth entry entry' (edges.flatMap edgeSlots) := by
  induction edges generalizing resolver entry with
  | nil =>
    cases h
    exact ⟨entry, hentry, .refl entry⟩
  | cons edge rest ih =>
    unfold completeOwnScope at h
    rw [foldlM_cons, bind_eq_ok] at h
    obtain ⟨next, hnext, hrest⟩ := h
    obtain ⟨middle, hmiddle, hfirst⟩ := registerEdge_growth hentry hnext
    obtain ⟨entry', hentry', hothers⟩ := ih hmiddle hrest
    rw [List.flatMap_cons]
    exact ⟨entry', hentry', hfirst.trans hothers⟩

end ModuleResolver

/-! ## The slot of one alias -/

/-- The edge's additions find free slots in the scope of its owner. -/
def ModuleResolver.Admits (reserved : Namespace → N → Bool) (resolver : ModuleResolver N)
    (owner : SourceDagId N) : ModuleEdge N → Prop
  | .importEdge decl target => ∃ additions next,
    resolver.importAdditions decl.path (.ofImport decl) target .crossModule .importedDag =
      .ok additions ∧ resolver.addImports reserved owner additions = .ok next
  | .includeEdge decl _ => ∃ additions next,
    resolver.importAdditions decl.path (.ofInclude decl.kind)
      (owner.instanceChild decl.instanceScope) .crossModule .includedInstance = .ok additions ∧
      resolver.addImports reserved owner additions = .ok next

theorem addImport_alias_ok {reserved : Namespace → N → Bool} {entry : ModuleEntry N}
    {v : BindableVisibility} :
    (∃ scope, entry.scope.addImports reserved entry.symbols
      [⟨name, v, .moduleAlias target access role⟩] = .ok scope) ↔ entry.board.Free .term name := by
  constructor
  · rintro ⟨scope, h⟩
    exact (addImports_added h).free _ mem_cons_self
  · intro hfree
    have hnone := ModuleEntry.occupant_eq_none.mpr hfree
    refine ⟨entry.scope.install ⟨name, v, .moduleAlias target access role⟩, ?_⟩
    simp only [ModuleScope.addImports, foldlM_cons, List.foldlM_nil, ModuleScope.addImport,
      ImportTarget.namespaceOf, ImportTarget.itemKind, hnone]
    rfl

/-- An alias is admitted when its Term slot is free. -/
theorem admits_iff {reserved : Namespace → N → Bool} {resolver : ModuleResolver N}
    {owner : SourceDagId N} {entry : ModuleEntry N} {edge : ModuleEdge N} {alias? : N × Visibility}
    (hentry : resolver.modules.get? owner = some entry) (halias : edgeAlias edge = some alias?) :
    resolver.Admits reserved owner edge ↔ entry.board.Free .term alias?.1 := by
  have hadd : ∀ additions, (∃ next, resolver.addImports reserved owner additions = .ok next) ↔
      ∃ scope, entry.scope.addImports reserved entry.symbols additions = .ok scope := by
    intro additions
    have hfound := ModuleResolver.entry_eq_ok.mpr hentry
    constructor
    · rintro ⟨next, h⟩
      obtain ⟨found, hfound', h⟩ := bind_eq_ok.mp h
      cases hfound.symm.trans hfound'
      obtain ⟨scope, hscope, -⟩ := bind_eq_ok.mp h
      exact ⟨scope, hscope⟩
    · rintro ⟨scope, hscope⟩
      exact ⟨_, bind_eq_ok.mpr ⟨entry, hfound, bind_eq_ok.mpr ⟨scope, hscope, rfl⟩⟩⟩
  match edge, halias with
  | .importEdge (.module visibility path alias?) target, halias =>
    cases halias
    rw [← addImport_alias_ok, ← hadd]
    exact ⟨fun ⟨_, next, h, hnext⟩ => ⟨next, Except.ok.inj h ▸ hnext⟩,
      fun ⟨next, hnext⟩ => ⟨_, next, rfl, hnext⟩⟩
  | .includeEdge ⟨path, bindings, .module alias?⟩ template, halias =>
    cases halias
    rw [← addImport_alias_ok, ← hadd]
    exact ⟨fun ⟨_, next, h, hnext⟩ => ⟨next, Except.ok.inj h ▸ hnext⟩,
      fun ⟨next, hnext⟩ => ⟨_, next, rfl, hnext⟩⟩

/-- The Term names that an import, an include or a plugin import introduces. -/
def termNames : Decl N → List N
  | .importDecl (.module _ path alias?) | .includeDecl ⟨path, _, .module alias?⟩ =>
    [moduleAlias path alias?]
  | .importDecl (.selective _ items) | .includeDecl ⟨_, _, .selective items⟩ =>
    (items.filter fun item => item.selection.category = .term).map localNameAtom
  | .otherDecl (.pluginImport _ name _) => [name]
  | _ => []

def Introduces (declarations : List (Decl N)) (name : N) : Prop :=
  ∃ decl ∈ declarations, name ∈ termNames decl

omit [LinearOrder N] in
theorem mem_termNames_items (h : (Namespace.term, name) ∈ items.map itemSlot) :
    name ∈ (items.filter fun item => item.selection.category = .term).map localNameAtom := by
  obtain ⟨item, hitem, heq⟩ := mem_map.mp h
  obtain ⟨hns, hname⟩ := Prod.mk.inj heq
  refine mem_map.mpr ⟨item, List.mem_filter.mpr ⟨hitem, decide_eq_true ?_⟩, hname⟩
  cases hcategory : item.selection.category <;> rw [hcategory] at hns <;> first | rfl | cases hns

theorem introduces_of_slot {targets : ModuleTargets N} {owner : SourceDagId N}
    {declarations : List (Decl N)}
    (h : (Namespace.term, name) ∈ (moduleEdges targets owner declarations).flatMap edgeSlots) :
    Introduces declarations name := by
  obtain ⟨edge, hedge, hslot⟩ := List.mem_flatMap.mp h
  obtain ⟨decl, hdecl, heq⟩ := mem_filterMap.mp hedge
  refine ⟨decl, hdecl, ?_⟩
  match decl, heq with
  | .importDecl (.module visibility path alias?), heq =>
    obtain ⟨target, -, rfl⟩ := map_eq_some_iff.mp heq
    rw [(Prod.mk.inj (mem_singleton.mp hslot)).2]
    exact mem_cons_self
  | .includeDecl ⟨path, bindings, .module alias?⟩, heq =>
    obtain ⟨target, -, rfl⟩ := map_eq_some_iff.mp heq
    rw [(Prod.mk.inj (mem_singleton.mp hslot)).2]
    exact mem_cons_self
  | .importDecl (.selective path items), heq =>
    obtain ⟨target, -, rfl⟩ := map_eq_some_iff.mp heq
    refine mem_termNames_items ?_
    rwa [edgeSlots, edgeItems, map_map] at hslot
  | .includeDecl ⟨path, bindings, .selective items⟩, heq =>
    obtain ⟨target, -, rfl⟩ := map_eq_some_iff.mp heq
    refine mem_termNames_items ?_
    rwa [edgeSlots, edgeItems, map_map] at hslot

variable {scope : ModuleScope N} {symbols : ModuleSymbols N}

theorem declareAlias_plugin {next : ModuleScope N} {decl : Decl N}
    (h : declareAlias symbols scope decl = .ok next) (hname : next.pluginAliases.get? name ≠ none) :
    scope.pluginAliases.get? name ≠ none ∨
      ∃ path functions, decl = .otherDecl (.pluginImport path name functions) := by
  unfold declareAlias at h
  split at h
  case h_1 =>
    cases h
    exact .inl hname
  case h_2 found respells halias =>
    dsimp only at h
    split_ifs at h
    split at h
    case h_1 path _ functions _ _ =>
      obtain ⟨functions', -, h⟩ := bind_eq_ok.mp h
      cases halias
      cases h
      simp only [SortedMap.get?_insert] at hname
      split_ifs at hname with heq
      · exact .inr ⟨_, _, by rw [heq]⟩
      · exact .inl hname
    case h_2 =>
      cases h
      exact .inl hname

/-- A plugin alias comes from a plugin import. -/
theorem declareAliases_plugin {declarations : List (Decl N)}
    (h : (declareAliases symbols scope declarations).1.pluginAliases.get? name ≠ none) :
    scope.pluginAliases.get? name ≠ none ∨
      ∃ path functions, .otherDecl (.pluginImport path name functions) ∈ declarations := by
  induction declarations generalizing scope with
  | nil => exact .inl h
  | cons decl rest ih =>
    have hrest : ∀ {scope' : ModuleScope N}, (scope'.pluginAliases.get? name ≠ none →
        scope.pluginAliases.get? name ≠ none ∨
          ∃ path functions, decl = .otherDecl (.pluginImport path name functions)) →
        (declareAliases symbols scope' rest).1.pluginAliases.get? name ≠ none →
        scope.pluginAliases.get? name ≠ none ∨
          ∃ path functions, .otherDecl (.pluginImport path name functions) ∈ decl :: rest := by
      intro scope' hdecl h
      rcases ih h with h | ⟨path, functions, hmem⟩
      · exact (hdecl h).imp_right fun ⟨path, functions, heq⟩ =>
          ⟨path, functions, heq ▸ mem_cons_self⟩
      · exact .inr ⟨path, functions, List.mem_cons_of_mem _ hmem⟩
    unfold declareAliases at h
    cases hdecl : declareAlias symbols scope decl with
    | ok next =>
      rw [hdecl] at h
      exact hrest (declareAlias_plugin hdecl) h
    | error e =>
      rw [hdecl] at h
      exact hrest .inl h

variable {respellsPath : Bool}

/-- An import or include edge comes from a declaration that claims its alias without a plugin. -/
theorem declaredAlias_of_edge {decl : Decl N} {targets : ModuleTargets N} {owner : SourceDagId N}
    {edge : ModuleEdge N} (halias : declaredAlias decl = some (name, respellsPath))
    (hedge : edge ∈ moduleEdges targets owner [decl]) :
    declareAlias symbols scope decl =
        (if ((symbols.occupant .term name).isSome &&
            !(respellsPath && symbols.declaresDag name)) = true then
          .error (.duplicateImportName symbols.owner .term name)
        else .ok scope) ∧
      ∃ visibility, edgeAlias edge = some (name, visibility) := by
  obtain ⟨_, hmem, hedge⟩ := mem_filterMap.mp hedge
  rw [mem_singleton.mp hmem] at hedge
  unfold declareAlias
  match decl, halias, hedge with
  | .importDecl (.module visibility path alias?), halias, hedge =>
    obtain ⟨target, -, rfl⟩ := map_eq_some_iff.mp hedge
    cases halias
    exact ⟨by simp only [declaredAlias, pluginAliasInWay, Bool.or_false], visibility, rfl⟩
  | .includeDecl ⟨path, bindings, .module alias?⟩, halias, hedge =>
    obtain ⟨target, -, rfl⟩ := map_eq_some_iff.mp hedge
    cases halias
    exact ⟨by simp only [declaredAlias, pluginAliasInWay, Bool.or_false], .priv, rfl⟩

theorem declareAlias_ok_iff {decl : Decl N} {targets : ModuleTargets N} {owner : SourceDagId N}
    {edge : ModuleEdge N} (halias : declaredAlias decl = some (name, respellsPath))
    (hedge : edge ∈ moduleEdges targets owner [decl]) :
    (∃ next, declareAlias symbols scope decl = .ok next) ↔
      symbols.occupant .term name = none ∨ (respellsPath && symbols.declaresDag name) = true := by
  rw [(declaredAlias_of_edge halias hedge).1]
  cases symbols.occupant .term name <;> cases respellsPath && symbols.declaresDag name <;> simp

/-- The Term slot of an alias at its registration. -/
theorem free_at_registration {targets : ModuleTargets N} {owner : SourceDagId N}
    {before after : List (Decl N)} {decl : Decl N} {edge : ModuleEdge N}
    (hedge : edge ∈ moduleEdges targets owner [decl]) {entry entry' : ModuleEntry N}
    (hentry : entry = (collectedEntry owner (before ++ decl :: after)).1)
    (hgrowth : TermGrowth entry entry' ((moduleEdges targets owner before).flatMap edgeSlots))
    (hother : ¬ Introduces (before ++ after) name) :
    entry'.board.Free .term name ↔ entry.symbols.occupant .term name = none := by
  have hplugin : entry.board .pluginAlias name = none := by
    by_contra hne
    have hne' : (declareAliases entry.symbols .empty (before ++ decl :: after)).1.pluginAliases.get?
        name ≠ none := by
      rw [hentry] at hne ⊢
      exact fun h => hne (map_eq_none_iff.mpr h)
    obtain ⟨path, functions, hmem⟩ := (declareAliases_plugin hne').resolve_left fun h => h rfl
    rcases mem_append.mp hmem with hmem | hmem
    · exact hother ⟨_, List.mem_append_left _ hmem, mem_cons_self⟩
    · rcases List.mem_cons.mp hmem with rfl | hmem
      · cases hedge
      · exact hother ⟨_, List.mem_append_right _ hmem, mem_cons_self⟩
  have hdeclared := collectedEntry_declared owner (before ++ decl :: after)
  rw [← hentry] at hdeclared
  rw [ModuleSymbols.occupant, Tables.occupant_eq_none]
  constructor
  · intro hfree t ht
    rw [← hgrowth.tables t ht]
    exact map_eq_none_iff.mp (hfree (.declared t) ht)
  · intro hnone p hp
    by_contra hne
    rcases hgrowth.bound p name hp hne with hstart | hslot
    · cases p with
      | declared t => exact hstart (map_eq_none_iff.mpr (hnone t hp))
      | selected t =>
        exact hstart (by simp only [ModuleEntry.board, hdeclared.selected, Tables.get?_empty,
          map_none])
      | moduleAlias =>
        exact hstart (by simp only [ModuleEntry.board, hdeclared.aliases, SortedMap.get?_empty,
          map_none])
      | pluginAlias => exact hstart hplugin
    · obtain ⟨d, hd, hname⟩ := introduces_of_slot hslot
      exact hother ⟨d, List.mem_append_left _ hd, hname⟩

/-- A local `dag` takes the Term slot of its name. -/
theorem occupant_of_declaresDag (h : symbols.declaresDag name = true) :
    symbols.occupant .term name ≠ none := by
  intro hnone
  rw [ModuleSymbols.occupant, Tables.occupant_eq_none] at hnone
  rw [ModuleSymbols.declaresDag, hnone .decl rfl] at h
  cases h

theorem aliasSlot_iff (reserved : Namespace → N → Bool) (targets : ModuleTargets N)
    (owner : SourceDagId N) (before after : List (Decl N)) (decl : Decl N) (name : N)
    (respellsPath : Bool) (halias : declaredAlias decl = some (name, respellsPath))
    (edge : ModuleEdge N) (hedge : edge ∈ moduleEdges targets owner [decl])
    (entry : ModuleEntry N) (hcollected : entry = (collectedEntry owner (before ++ decl :: after)).1)
    (resolver resolver' : ModuleResolver N) (hentry : resolver.modules.get? owner = some entry)
    (hrun : resolver.completeOwnScope reserved owner (moduleEdges targets owner before) =
      .ok resolver') :
    ((∃ next, declareAlias entry.symbols (declareAliases entry.symbols .empty before).1 decl =
        .ok next) →
      (resolver'.Admits reserved owner edge ∨ Introduces (before ++ after) name ↔
        (respellsPath && entry.symbols.declaresDag name) = false ∨
          Introduces (before ++ after) name)) ∧
    (entry.symbols.occupant .term name ≠ none →
      (respellsPath && entry.symbols.declaresDag name) = false →
      (∀ scope, ¬ ∃ next, declareAlias entry.symbols scope decl = .ok next) ∧
        ¬ resolver'.Admits reserved owner edge) := by
  obtain ⟨entry', hentry', hgrowth⟩ := ModuleResolver.completeOwnScope_growth hentry hrun
  obtain ⟨visibility, hedgeAlias⟩ :=
    (declaredAlias_of_edge halias hedge : declareAlias entry.symbols .empty decl = _ ∧ _).2
  have hallowed : resolver'.Admits reserved owner edge ↔ entry'.board.Free .term name :=
    admits_iff hentry' hedgeAlias
  constructor
  · intro hclaimed
    rw [declareAlias_ok_iff halias hedge] at hclaimed
    by_cases hother : Introduces (before ++ after) name
    · exact iff_of_true (.inr hother) (.inr hother)
    rw [or_iff_left hother, or_iff_left hother, hallowed,
      free_at_registration hedge hcollected hgrowth hother]
    constructor
    · intro hnone
      by_contra hdag
      rw [Bool.not_eq_false, Bool.and_eq_true] at hdag
      exact occupant_of_declaresDag hdag.2 hnone
    · exact fun hdag => hclaimed.resolve_right (by rw [hdag]; exact nofun)
  · intro hoccupied hunrelated
    refine ⟨fun scope => ?_, fun hallows => ?_⟩
    · rw [declareAlias_ok_iff halias hedge, not_or, hunrelated]
      exact ⟨hoccupied, nofun⟩
    · rw [hallowed] at hallows
      refine hoccupied (Tables.occupant_eq_none.mpr fun t ht => ?_)
      rw [← hgrowth.tables t ht]
      exact map_eq_none_iff.mp (hallows (.declared t) ht)

namespace LocalDag

inductive Name
  | pkg
  | main
  | velocity
  | other
  deriving DecidableEq

instance : LinearOrder Name :=
  LinearOrder.lift' Name.ctorIdx fun a b h => by
    cases a <;> cases b <;> first | rfl | exact absurd h (by decide)

def root : SourceDagId Name := fileRoot .pkg .main

/-- `dag velocity {}` -/
def velocityDag : Decl Name := .dagDecl .priv .velocity []

/-- `include velocity();`, perhaps with an alias. -/
def including (alias? : Option Name) : Include Name := ⟨rootPath .velocity, [], .module alias?⟩

def declarations (alias? : Option Name) : List (Decl Name) :=
  [velocityDag, .includeDecl (including alias?)]

def sources (alias? : Option Name) : List (SourceDagId Name × List (Decl Name)) :=
  [(root, declarations alias?), (root.inlineDagChild .velocity, [])]

def targets : ModuleTargets Name where
  importTarget _ _ := none
  includeTarget _ path :=
    if path.key = [.velocity] then some (root.inlineDagChild .velocity) else none

def edge (alias? : Option Name) : ModuleEdge Name :=
  .includeEdge (including alias?) (root.inlineDagChild .velocity)

def entry (alias? : Option Name) : ModuleEntry Name := (collectedEntry root (declarations alias?)).1

def resolver (alias? : Option Name) : ModuleResolver Name :=
  ⟨InsertionMap.empty.insert root (entry alias?)⟩

def nothingReserved : Namespace → Name → Bool := fun _ _ => false

/-- The alias `velocity` is claimed, and its registration fails in the build. -/
theorem respelled_refused :
    (∃ next, declareAlias (entry none).symbols
      (declareAliases (entry none).symbols .empty [velocityDag]).1
      (.includeDecl (including none)) = .ok next) ∧
    ¬ ((resolver none).Admits nothingReserved root (edge none) ∨
      Introduces [velocityDag] Name.velocity) ∧
    (match ModuleResolver.build ⟨nothingReserved, fun _ => true⟩ targets (sources none) with
    | .error (.resolve (.duplicateImportName owner ns name)) =>
      decide (owner = root ∧ ns = .term ∧ name = .velocity)
    | _ => false) = true := by
  refine ⟨⟨_, rfl⟩, ?_, by decide +kernel⟩
  rintro (hallowed | ⟨decl, hdecl, hname⟩)
  · have hfree : (entry none).board.Free .term .velocity := (admits_iff rfl rfl).mp hallowed
    have hdag := hfree (.declared .decl) rfl
    revert hdag
    decide +kernel
  · rw [mem_singleton.mp hdecl] at hname
    cases hname

/-- Under another name the include is admitted. -/
theorem renamed_admitted :
    (resolver (some .other)).Admits nothingReserved root (edge (some .other)) := by
  have hslot := (aliasSlot_iff nothingReserved targets root [velocityDag] []
    (.includeDecl (including (some .other))) .other false rfl (edge (some .other)) mem_cons_self
    (entry (some .other)) rfl (resolver (some .other)) (resolver (some .other)) rfl rfl).1 ⟨_, rfl⟩
  refine (hslot.mpr (.inl rfl)).resolve_right ?_
  rintro ⟨decl, hdecl, hname⟩
  rw [List.append_nil, mem_singleton] at hdecl
  rw [hdecl] at hname
  cases hname

end LocalDag

end ProvenGraphcal.Resolve
