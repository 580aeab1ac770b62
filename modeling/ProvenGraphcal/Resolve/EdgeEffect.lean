import ProvenGraphcal.Resolve.Registration

/-!
# The effect of one edge on the module that has it

Each name that an edge introduces takes a free slot. The rest of the module stays, and of the other
modules only the instance of an include gets another scope.
-/

namespace ProvenGraphcal.Resolve

open Checked (bind_eq_ok)

variable {N : Type} [LinearOrder N]

open Board

/-- What the declarations and selective imports of a module export. -/
def ModuleEntry.exported (entry : ModuleEntry N) (t : SymbolTable) (atom : N) (access : Access) :
    ExportLookup N t :=
  match exportedSymbol (entry.symbols.tables t) atom access with
  | .missing => exportedSymbol (entry.scope.selected t) atom access
  | found => found

variable {access : Access} {atom : N} {t : SymbolTable}

theorem ModuleResolver.exportedSymbolForImport_eq_ok {resolver : ModuleResolver N}
    {target : SourceDagId N} {found : ExportLookup N t} :
    resolver.exportedSymbolForImport t target atom access = .ok found ↔
      ∃ entry, resolver.modules.get? target = some entry ∧
        entry.exported t atom access = found := by
  unfold exportedSymbolForImport moduleSymbols moduleScope ModuleResolver.entry
  cases hentry : resolver.modules.get? target with
  | none => exact iff_of_false nofun fun ⟨_, h, _⟩ => nomatch h
  | some entry =>
    simp only [Option.some.injEq, exists_eq_left']
    unfold ModuleEntry.exported
    change (match exportedSymbol (entry.symbols.tables t) atom access with
      | .missing => _
      | found => _) = _ ↔ _
    cases exportedSymbol (entry.symbols.tables t) atom access with
    | missing => exact ⟨Except.ok.inj, congrArg _⟩
    | pub symbol => exact ⟨Except.ok.inj, congrArg _⟩
    | priv => exact ⟨Except.ok.inj, congrArg _⟩

theorem exportedSymbol_eq_missing {table : SortedMap N (Symbol N t)} :
    exportedSymbol table atom access = .missing ↔ table.get? atom = none := by
  unfold exportedSymbol
  cases table.get? atom with
  | none => exact iff_of_true rfl rfl
  | some symbol =>
    dsimp only
    split_ifs
    · exact iff_of_false nofun nofun
    · exact iff_of_false nofun nofun

theorem exportedSymbol_eq_pub {table : SortedMap N (Symbol N t)} {symbol : Symbol N t} :
    exportedSymbol table atom .crossModule = .pub symbol ↔
      table.get? atom = some symbol ∧ symbol.visibility.isPublic = true := by
  unfold exportedSymbol
  cases table.get? atom with
  | none => exact iff_of_false nofun fun h => nomatch h.1
  | some found =>
    simp only [Access.requiresPublic, not_true_eq_false, false_or, Option.some.injEq]
    split_ifs with h
    · simp only [ExportLookup.pub.injEq]
      exact ⟨fun he => ⟨he, he ▸ h⟩, fun he => he.1⟩
    · exact iff_of_false nofun fun he => h (he.1 ▸ he.2)

variable {entry : ModuleEntry N}

theorem ModuleEntry.exported_eq_pub {symbol : Symbol N t} :
    entry.exported t atom .crossModule = .pub symbol ↔
      symbol.visibility.isPublic = true ∧ ((entry.symbols.tables t).get? atom = some symbol ∨
        (entry.symbols.tables t).get? atom = none ∧
          (entry.scope.selected t).get? atom = some symbol) := by
  unfold ModuleEntry.exported
  cases hdeclared : exportedSymbol (entry.symbols.tables t) atom .crossModule with
  | missing =>
    rw [exportedSymbol_eq_missing] at hdeclared
    rw [exportedSymbol_eq_pub, hdeclared]
    simp [and_comm]
  | pub found =>
    rw [exportedSymbol_eq_pub] at hdeclared
    rw [hdeclared.1]
    simp only [ExportLookup.pub.injEq, Option.some.injEq, reduceCtorEq, false_and, or_false]
    exact ⟨fun h => ⟨h ▸ hdeclared.2, h⟩, fun h => h.2⟩
  | priv =>
    refine iff_of_false nofun ?_
    rintro ⟨hpublic, hfound | ⟨hnone, -⟩⟩
    · rw [exportedSymbol_eq_pub.mpr ⟨hfound, hpublic⟩] at hdeclared
      cases hdeclared
    · rw [exportedSymbol_eq_missing.mpr hnone] at hdeclared
      cases hdeclared

/-- Whether a name is exported depends on the board only. -/
theorem ModuleEntry.exists_exported_iff :
    (∃ symbol, entry.exported t atom .crossModule = .pub symbol) ↔
      (∃ v, entry.board (.declared t) atom = some v ∧ v.isPublic = true) ∨
        entry.board (.declared t) atom = none ∧
          ∃ v, entry.board (.selected t) atom = some v ∧ v.isPublic = true := by
  simp only [ModuleEntry.exported_eq_pub, ModuleEntry.board, Option.map_eq_some_iff,
    Option.map_eq_none_iff]
  constructor
  · rintro ⟨symbol, hpublic, hdeclared | ⟨hnone, hselected⟩⟩
    · exact .inl ⟨_, ⟨symbol, hdeclared, rfl⟩, hpublic⟩
    · exact .inr ⟨hnone, _, ⟨symbol, hselected, rfl⟩, hpublic⟩
  · rintro (⟨_, ⟨symbol, hdeclared, rfl⟩, hpublic⟩ | ⟨hnone, _, ⟨symbol, hselected, rfl⟩, hpublic⟩)
    · exact ⟨symbol, hpublic, .inl hdeclared⟩
    · exact ⟨symbol, hpublic, .inr ⟨hnone, hselected⟩⟩

def edgePath : ModuleEdge N → ModulePath N
  | .importEdge decl _ => decl.path
  | .includeEdge decl _ => decl.path

def edgeTail : ModuleEdge N → ImportTail N (ItemSelection N)
  | .importEdge decl _ => .ofImport decl
  | .includeEdge decl _ => .ofInclude decl.kind

/-- The alias that an edge of a whole module introduces. -/
def edgeAlias (edge : ModuleEdge N) : Option (N × Visibility) :=
  match edgeTail edge with
  | .module alias? visibility => some (moduleAlias (edgePath edge) alias?, visibility)
  | .selective _ => none

/-- The items that an edge selects, with where they end up. -/
def edgeItems : ModuleEdge N → List (Item N × ItemOutcome)
  | .importEdge (.selective _ items) _ => items.map (·, .selected)
  | .includeEdge ⟨path, bindings, .selective items⟩ _ =>
    items.map fun item => (item, includeOutcome ⟨path, bindings, .selective items⟩ item)
  | _ => []

/-- The slots of the names that an edge introduces. -/
def edgeSlots (edge : ModuleEdge N) : List (Namespace × N) :=
  (edgeAlias edge).toList.map (fun entry => (.term, entry.1)) ++
    (edgeItems edge).map fun entry => itemSlot entry.1

structure EdgeEffect (edge : ModuleEdge N) (board board' : Board N) : Prop where
  free : ∀ slot ∈ edgeSlots edge, board.Free slot.1 slot.2
  rest : ∀ ns name, (ns, name) ∉ edgeSlots edge → SameSlot board board' ns name
  items : ∀ entry ∈ edgeItems edge, ∃ t, ItemHeld entry.1 t (entry.2.places t) board'
  alias_held : ∀ entry ∈ edgeAlias edge,
    board'.Holds [.moduleAlias] entry.1 (.ofVisibility entry.2)

/-- What no edge changes in the module that has it. -/
structure Kept (entry entry' : ModuleEntry N) : Prop where
  owner : entry'.symbols.owner = entry.symbols.owner
  tables : ∀ t : SymbolTable, t.namespaceOf ≠ .static →
    entry'.symbols.tables t = entry.symbols.tables t
  plugins : entry'.scope.pluginAliases = entry.scope.pluginAliases

theorem Kept.refl (entry : ModuleEntry N) : Kept entry entry := ⟨rfl, fun _ _ => rfl, rfl⟩

theorem Kept.trans {entry entry' entry'' : ModuleEntry N} (h : Kept entry entry')
    (h' : Kept entry' entry'') : Kept entry entry'' :=
  ⟨h'.owner.trans h.owner, fun t ht => (h'.tables t ht).trans (h.tables t ht),
    h'.plugins.trans h.plugins⟩

theorem Tables.set_of_ne (tables : Tables N) {t' : SymbolTable} (name : N)
    (symbol? : Option (Symbol N t)) (h : t' ≠ t) : tables.set t name symbol? t' = tables t' :=
  Function.update_of_ne h _ _

theorem StaticUpdate.kept (update : StaticUpdate N) (entry : ModuleEntry N) :
    Kept entry (update.apply entry) := by
  have hset : ∀ (t : SymbolTable) (name : N) (symbol? : Option (Symbol N t)) (t' : SymbolTable),
      t.namespaceOf = .static → t'.namespaceOf ≠ .static →
        entry.symbols.tables.set t name symbol? t' = entry.symbols.tables t' := by
    intro t name symbol? t' ht ht'
    exact Tables.set_of_ne _ _ _ fun he => ht' (he ▸ ht)
  cases update with
  | keep => exact .refl entry
  | select t name symbol => exact ⟨rfl, fun _ _ => rfl, rfl⟩
  | projectType name projection symbol => exact ⟨rfl, fun t ht => hset _ _ _ t rfl ht, rfl⟩
  | projectDimension name projection symbol => exact ⟨rfl, fun t ht => hset _ _ _ t rfl ht, rfl⟩
  | projectIndex name finite? symbol => exact ⟨rfl, fun t ht => hset _ _ _ t rfl ht, rfl⟩

variable {additions : List (ImportAddition N)} {scope : ModuleScope N}

theorem addImports_plugins {reserved : Namespace → N → Bool} {symbols : ModuleSymbols N}
    {scope' : ModuleScope N} (h : scope.addImports reserved symbols additions = .ok scope') :
    scope'.pluginAliases = scope.pluginAliases := by
  refine Checked.foldlM_invariant (fun s => s.pluginAliases = scope.pluginAliases)
    (fun a _ s s' hs ha => ?_) rfl h
  have hadded : (ModuleEntry.mk symbols s).board.Free _ _ ∧ _ := addImport_eq_ok ha
  obtain ⟨-, rfl⟩ := hadded
  rw [← hs]
  unfold ModuleScope.install
  split <;> rfl

/-! ## Registration -/

omit [LinearOrder N] in
theorem ItemHeld.congr {item : Item N} {t : SymbolTable} {outcome : ItemOutcome}
    {board board' : Board N} (h : ItemHeld item t (outcome.places t) board)
    (hsame : SameSlot board board' (itemSlot item).1 (itemSlot item).2) :
    ItemHeld item t (outcome.places t) board' := by
  obtain ⟨hcategory, hholds⟩ := h
  have hns : (itemSlot item).1 = t.namespaceOf := by
    rw [itemSlot, ← hcategory, t.namespace_of_category]
  rw [hns] at hsame
  refine ⟨hcategory, ?_⟩
  cases outcome with
  | selected => exact hholds.congr nofun hsame
  | projected => exact hholds.congr nofun hsame
  | doubled => exact hholds.congr (by simp [Place.namespaceOf]) hsame

variable {item : Item N}

omit [LinearOrder N] in
theorem ItemHeld.congr_selected {board board' : Board N} (h : ItemHeld item t [.selected t] board)
    (hsame : SameSlot board board' (itemSlot item).1 (itemSlot item).2) :
    ItemHeld item t [.selected t] board' :=
  @ItemHeld.congr N item t .selected board board' h hsame

variable {tail : ImportTail N (ItemSelection N)} {role : ModuleAliasRole} {path : ModulePath N}

namespace ModuleResolver

variable {reserved : Namespace → N → Bool} {resolver resolver' : ModuleResolver N}
  {owner target : SourceDagId N}

theorem get?_updateEntry (resolver : ModuleResolver N) (owner m : SourceDagId N)
    (f : ModuleEntry N → ModuleEntry N) : (resolver.updateEntry owner f).modules.get? m =
      if m = owner then (resolver.modules.get? m).map f else resolver.modules.get? m :=
  InsertionMap.get?_modify _ _ _ _

theorem entry_eq_ok :
    resolver.entry owner = .ok entry ↔ resolver.modules.get? owner = some entry := by
  unfold ModuleResolver.entry
  cases resolver.modules.get? owner with
  | none => exact iff_of_false nofun nofun
  | some found => exact ⟨fun h => congrArg some (Except.ok.inj h),
      fun h => congrArg Except.ok (Option.some.inj h)⟩

theorem moduleScope_eq_ok : resolver.moduleScope owner = .ok scope ↔
    ∃ entry, resolver.modules.get? owner = some entry ∧ entry.scope = scope := by
  unfold moduleScope
  rw [bind_eq_ok]
  simp only [entry_eq_ok]
  exact exists_congr fun entry => and_congr_right fun _ =>
    ⟨Except.ok.inj, congrArg _⟩

/-- A registration adds its additions to the scope of the owner. -/
theorem registerImportWithAccess_eq_ok
    (h : resolver.registerImportWithAccess reserved owner path tail target role = .ok resolver') :
    ∃ additions entry scope,
      resolver.importAdditions path tail target .crossModule role = .ok additions ∧
      resolver.modules.get? owner = some entry ∧
      entry.scope.addImports reserved entry.symbols additions = .ok scope ∧
      ∀ m, resolver'.modules.get? m =
        if m = owner then some ⟨entry.symbols, scope⟩ else resolver.modules.get? m := by
  obtain ⟨_, -, h⟩ := bind_eq_ok.mp h
  obtain ⟨_, -, h⟩ := bind_eq_ok.mp h
  obtain ⟨_, -, h⟩ := bind_eq_ok.mp h
  obtain ⟨additions, hadditions, h⟩ := bind_eq_ok.mp h
  obtain ⟨entry, hentry, h⟩ := bind_eq_ok.mp h
  obtain ⟨scope, hscope, h⟩ := bind_eq_ok.mp h
  cases h
  rw [entry_eq_ok] at hentry
  refine ⟨additions, entry, scope, hadditions, hentry, hscope, fun m => ?_⟩
  rw [get?_updateEntry]
  split_ifs with hm
  · rw [hm, hentry]
    rfl
  · rfl

/-- The board of the owner after a registration: the tail's alias, or its items selected. -/
theorem registered_tail
    (h : resolver.importAdditions path tail target .crossModule role = .ok additions)
    (hscope : entry.scope.addImports reserved entry.symbols additions = .ok scope) :
    match tail with
    | .module alias? visibility =>
      entry.board.Free .term (moduleAlias path alias?) ∧
      (ModuleEntry.mk entry.symbols scope).board.Holds [.moduleAlias] (moduleAlias path alias?)
        (.ofVisibility visibility) ∧
      ∀ ns name, (ns, name) ≠ (Namespace.term, moduleAlias path alias?) →
        SameSlot entry.board (ModuleEntry.mk entry.symbols scope).board ns name
    | .selective items =>
      Registered items entry.board (ModuleEntry.mk entry.symbols scope).board ∧
      ∀ item ∈ items, ∃ t,
        ItemHeld item t [.selected t] (ModuleEntry.mk entry.symbols scope).board ∧
        (item.selection.category = .term → ∀ constructor, resolver.exportedSymbolForImport
          .constructor target item.name.name .crossModule = .ok (.pub constructor) →
            t = .constructor) := by
  cases tail with
  | selective items => exact selective_registered h hscope
  | module alias? visibility =>
    cases h
    have hadded := addImports_added hscope
    refine ⟨hadded.free _ List.mem_cons_self, hadded.holds _ List.mem_cons_self,
      fun ns name hne => hadded.rest ns name ?_⟩
    rw [List.map_singleton, List.mem_singleton]
    exact hne

variable {template : SourceDagId N} {decl : Include N}

theorem projectItem_eq_ok {items : List (Item N)}
    (h : resolver.projectItem owner template decl items item = .ok resolver') :
    ∃ update, resolver.itemUpdate owner template decl items item = .ok update ∧
      ∀ m, resolver'.modules.get? m =
        if m = owner then (resolver.modules.get? m).map update.apply
        else resolver.modules.get? m := by
  obtain ⟨update, hupdate, h⟩ := bind_eq_ok.mp h
  refine ⟨update, hupdate, fun m => ?_⟩
  split at h
  · cases h
    split_ifs
    · exact Option.map_id_apply.symm
    · rfl
  · obtain ⟨_, -, h⟩ := bind_eq_ok.mp h
    cases h
    exact get?_updateEntry _ _ _ _

/-- Projecting items one after the other moves each to the places of its outcome. -/
theorem projectItems_effect {items rest : List (Item N)} (htemplate : template ≠ owner)
    (h : rest.foldlM (fun resolver item => resolver.projectItem owner template decl items item)
      resolver = .ok resolver') (hentry : resolver.modules.get? owner = some entry)
    (hdistinct : (rest.map itemSlot).Nodup)
    (hheld : ∀ item ∈ rest, ∃ t, ItemHeld item t [.selected t] entry.board ∧
      (item.selection.category = .term → ∀ constructor, resolver.exportedSymbolForImport
        .constructor template item.name.name .crossModule = .ok (.pub constructor) →
          t = .constructor)) :
    ∃ entry', resolver'.modules.get? owner = some entry' ∧
      (∀ m, m ≠ owner → resolver'.modules.get? m = resolver.modules.get? m) ∧
      Kept entry entry' ∧
      (∀ item ∈ rest, ∃ t, ItemHeld item t ((includeOutcome decl item).places t) entry'.board) ∧
      ∀ ns name, (ns, name) ∉ rest.map itemSlot → SameSlot entry.board entry'.board ns name := by
  induction rest generalizing resolver entry with
  | nil =>
    cases h
    exact ⟨entry, hentry, fun _ _ => rfl, .refl entry, nofun, fun _ _ _ _ _ => rfl⟩
  | cons item rest ih =>
    rw [List.foldlM_cons, bind_eq_ok] at h
    obtain ⟨next, hnext, hrest⟩ := h
    obtain ⟨update, hupdate, hget⟩ := projectItem_eq_ok hnext
    obtain ⟨t, hitem, hconstructor⟩ := hheld item List.mem_cons_self
    rw [List.map_cons, List.nodup_cons] at hdistinct
    have hfits : Fits decl item t update entry := itemUpdate_fits hupdate hentry hitem hconstructor
    have hns : t.namespaceOf = (itemSlot item).1 := by
      rw [itemSlot, ← hitem.1, t.namespace_of_category]
    have hmoved : ∀ ns name, (ns, name) ≠ itemSlot item →
        SameSlot entry.board (update.apply entry).board ns name := by
      intro ns name hne
      refine hfits.rest ns name fun he => hne ?_
      rw [he, hns]
      rfl
    have hother : ∀ m, m ≠ owner → next.modules.get? m = resolver.modules.get? m := by
      intro m hm
      rw [hget, if_neg hm]
    have howner : next.modules.get? owner = some (update.apply entry) := by
      rw [hget, if_pos rfl, hentry]
      rfl
    have hheld' : ∀ item' ∈ rest, ∃ t, ItemHeld item' t [.selected t] (update.apply entry).board ∧
        (item'.selection.category = .term → ∀ constructor, next.exportedSymbolForImport
          .constructor template item'.name.name .crossModule = .ok (.pub constructor) →
            t = .constructor) := by
      intro item' hitem'
      obtain ⟨t', hheld', hconstructor'⟩ := hheld item' (List.mem_cons_of_mem _ hitem')
      have hslot : itemSlot item' ≠ itemSlot item := fun he =>
        hdistinct.1 (he ▸ List.mem_map_of_mem hitem')
      refine ⟨t', hheld'.congr_selected (hmoved _ _ hslot),
        fun hterm constructor hc => hconstructor' hterm constructor ?_⟩
      rw [exportedSymbolForImport_eq_ok] at hc ⊢
      rwa [hother template htemplate] at hc
    obtain ⟨entry', hentry', hothers, hkept, houtcomes, hsame⟩ :=
      ih hrest howner hdistinct.2 hheld'
    refine ⟨entry', hentry', fun m hm => (hothers m hm).trans (hother m hm),
      (update.kept entry).trans hkept, fun item' hitem' => ?_, fun ns name hne => ?_⟩
    · rcases List.mem_cons.mp hitem' with rfl | hitem'
      · exact ⟨t, ItemHeld.congr ⟨hitem.1, hfits.holds⟩ (hsame _ _ hdistinct.1)⟩
      · exact houtcomes item' hitem'
    · rw [List.map_cons, List.mem_cons, not_or] at hne
      exact (hmoved ns name hne.1).trans (hsame ns name hne.2)

end ModuleResolver

end ProvenGraphcal.Resolve
