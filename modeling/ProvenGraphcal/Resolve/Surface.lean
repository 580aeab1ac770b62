import ProvenGraphcal.Resolve.OneBinding

/-!
# The public surface of a module

The listing of a module's public names goes through whole tables, the import of one name looks it
up in the declarations first. They agree where no public name is bound twice in its namespace.
-/

namespace ProvenGraphcal.Resolve

open List (map_map mem_cons_self mem_map mem_singleton nodup_append)

variable {N : Type}

inductive ExportedBindingTarget (N : Type)
  | decl (identity : ResolvedName N (ScopeSegment N)) (kind : DeclSymbolKind)
  | constructor (identity : ResolvedName N (ScopeSegment N))
  | dimension (identity : ResolvedName N (ScopeSegment N))
  | unit (identity : ResolvedName N (ScopeSegment N)) (constness : UnitConstness)
  | type (identity : ResolvedName N (ScopeSegment N))
  | index (identity : ResolvedName N (ScopeSegment N))

def ExportedBindingTarget.kind : ExportedBindingTarget N → ExportedImportItemKind
  | decl _ kind => .decl kind
  | constructor _ => .constructor
  | dimension _ => .dimension
  | unit _ constness => .unit constness
  | type _ => .type
  | index _ => .index

/-- One public name with its canonical target. -/
structure ExportedBinding (N : Type) where
  name : N
  target : ExportedBindingTarget N

/-- What the listing tells of a symbol. -/
def Symbol.exportedTarget : {t : SymbolTable} → Symbol N t → ExportedBindingTarget N
  | .decl, symbol => .decl symbol.resolved symbol.data
  | .unit, symbol => .unit symbol.resolved symbol.data
  | .constructor, symbol => .constructor symbol.resolved
  | .structType, symbol => .type symbol.resolved
  | .dimension, symbol => .dimension symbol.resolved
  | .index, symbol => .index symbol.resolved

variable {t : SymbolTable}

theorem Symbol.kind_exportedTarget (symbol : Symbol N t) :
    symbol.exportedTarget.kind = symbol.itemKind := by
  cases t <;> rfl

/-- The name and selective-import category of a listed binding. -/
def ExportedBinding.item (binding : ExportedBinding N) : N × ImportItemNamespace :=
  (binding.name, binding.target.kind.namespaceOf)

variable [LinearOrder N]

/-- The order of the listing. -/
def ExportedBinding.Le (a b : ExportedBinding N) : Prop :=
  a.target.kind.sortRank < b.target.kind.sortRank ∨
    a.target.kind.sortRank = b.target.kind.sortRank ∧ a.name ≤ b.name

instance : DecidableRel (ExportedBinding.Le (N := N)) := fun _ _ => instDecidableOr

def publicBindings {t : SymbolTable} (table : SortedMap N (Symbol N t)) :
    List (ExportedBinding N) :=
  (table.entries.filter fun e => e.2.visibility.isPublic).map fun e => ⟨e.1, e.2.exportedTarget⟩

namespace ModuleEntry

/-- The public declarations of one table, then the public selective imports. -/
def publicSymbols (entry : ModuleEntry N) (t : SymbolTable) : List (ExportedBinding N) :=
  publicBindings (entry.symbols.tables t) ++ publicBindings (entry.scope.selected t)

def exportedTables : List SymbolTable :=
  [.decl, .unit, .constructor, .structType, .dimension, .index]

def exportedBindings (entry : ModuleEntry N) : List (ExportedBinding N) :=
  (exportedTables.flatMap entry.publicSymbols).insertionSort ExportedBinding.Le

end ModuleEntry

variable {binding : ExportedBinding N}

theorem mem_publicBindings {table : SortedMap N (Symbol N t)} : binding ∈ publicBindings table ↔
      ∃ symbol, table.get? binding.name = some symbol ∧ symbol.visibility.isPublic = true ∧
        binding.target = symbol.exportedTarget := by
  simp only [publicBindings, mem_map, List.mem_filter]
  constructor
  · rintro ⟨e, ⟨he, hpublic⟩, rfl⟩
    exact ⟨e.2, SortedMap.get?_eq_some.mpr he, hpublic, rfl⟩
  · rintro ⟨symbol, hget, hpublic, htarget⟩
    refine ⟨(binding.name, symbol), ⟨SortedMap.get?_eq_some.mp hget, hpublic⟩, ?_⟩
    rw [← htarget]

theorem nodup_publicBindings (table : SortedMap N (Symbol N t)) :
    ((publicBindings table).map ExportedBinding.name).Nodup := by
  rw [publicBindings, map_map]
  exact table.keys_nodup.sublist (List.filter_sublist.map _)

namespace ModuleEntry

variable {entry : ModuleEntry N}

/-- The symbol is a public binding of the name. -/
def Publishes (entry : ModuleEntry N) (t : SymbolTable) (name : N) (symbol : Symbol N t) : Prop :=
  symbol.visibility.isPublic = true ∧ ((entry.symbols.tables t).get? name = some symbol ∨
    (entry.scope.selected t).get? name = some symbol)

theorem mem_publicSymbols :
    binding ∈ entry.publicSymbols t ↔
      ∃ symbol, entry.Publishes t binding.name symbol ∧ binding.target = symbol.exportedTarget := by
  simp only [publicSymbols, List.mem_append, mem_publicBindings, Publishes, ← exists_or]
  exact exists_congr fun symbol => by tauto

theorem mem_exportedBindings :
    binding ∈ entry.exportedBindings ↔ ∃ t symbol, entry.Publishes t binding.name symbol ∧
      binding.target = symbol.exportedTarget := by
  rw [exportedBindings, List.mem_insertionSort, List.mem_flatMap]
  constructor
  · rintro ⟨t, -, hmem⟩
    exact ⟨t, mem_publicSymbols.mp hmem⟩
  · rintro ⟨t, hsymbol⟩
    exact ⟨t, by cases t <;> decide, mem_publicSymbols.mpr hsymbol⟩

theorem item_of_mem (h : binding ∈ entry.publicSymbols t) :
    binding.target.kind.namespaceOf = t.category := by
  obtain ⟨symbol, -, htarget⟩ := mem_publicSymbols.mp h
  rw [htarget, Symbol.kind_exportedTarget, Symbol.namespaceOf_itemKind]

end ModuleEntry

/-- A slot with a public binding has no other one. -/
def Board.PublicOnce (board : Board N) : Prop :=
  ∀ name p p' v, p.namespaceOf = p'.namespaceOf → board p name = some v → v.isPublic = true →
    board p' name ≠ none → p = p'

omit [LinearOrder N] in
theorem Board.OneBindingPerSlot.publicOnce {board : Board N} (h : board.OneBindingPerSlot) :
    board.PublicOnce :=
  fun name p p' _ hns hp _ hp' => h name p p' hns (by rw [hp]; exact nofun) hp'

variable {name : N}

namespace ModuleEntry

variable {entry : ModuleEntry N}

section

variable (honce : entry.board.PublicOnce)

include honce

/-- A public name has one table and one symbol in its namespace. -/
theorem Publishes.unique {t' : SymbolTable} {symbol : Symbol N t} {symbol' : Symbol N t'}
    (h : entry.Publishes t name symbol) (h' : entry.Publishes t' name symbol')
    (hns : t.namespaceOf = t'.namespaceOf) : t = t' ∧ HEq symbol symbol' := by
  have hplaces : ∀ {p : Place} (p' : Place), p.namespaceOf = t.namespaceOf →
      p'.namespaceOf = t'.namespaceOf → entry.board p name = some symbol.visibility →
        entry.board p' name ≠ none → p = p' := fun p' hp hp' hfirst hsecond =>
    honce name _ _ _ (hp.trans (hns.trans hp'.symm)) hfirst h.1 hsecond
  obtain ⟨-, hdeclared | hselected⟩ := h
  · have hfirst : entry.board (.declared t) name = some symbol.visibility := by
      rw [board, hdeclared]
      rfl
    obtain ⟨-, hdeclared' | hselected'⟩ := h'
    · cases hplaces (.declared t') rfl rfl hfirst (by simp [board, hdeclared'])
      exact ⟨rfl, heq_of_eq (Option.some.inj (hdeclared.symm.trans hdeclared'))⟩
    · cases hplaces (.selected t') rfl rfl hfirst (by simp [board, hselected'])
  · have hfirst : entry.board (.selected t) name = some symbol.visibility := by
      rw [board, hselected]
      rfl
    obtain ⟨-, hdeclared' | hselected'⟩ := h'
    · cases hplaces (.declared t') rfl rfl hfirst (by simp [board, hdeclared'])
    · cases hplaces (.selected t') rfl rfl hfirst (by simp [board, hselected'])
      exact ⟨rfl, heq_of_eq (Option.some.inj (hselected.symm.trans hselected'))⟩

/-- The import of a name finds what the module publishes. -/
theorem exported_eq_pub_iff {symbol : Symbol N t} :
    entry.exported t name .crossModule = .pub symbol ↔
      entry.Publishes t name symbol := by
  rw [exported_eq_pub, Publishes]
  refine and_congr_right fun hpublic => or_congr_right ⟨And.right, fun hselected => ⟨?_, hselected⟩⟩
  by_contra hdeclared
  refine absurd (honce name (.selected t) (.declared t) symbol.visibility rfl ?_ hpublic ?_) nofun
  · rw [board, hselected]
    rfl
  · simpa [board] using hdeclared

theorem nodup_publicSymbols (t : SymbolTable) :
    ((entry.publicSymbols t).map ExportedBinding.name).Nodup := by
  rw [publicSymbols, List.map_append, nodup_append]
  refine ⟨nodup_publicBindings _, nodup_publicBindings _, fun name hname name' hname' heq => ?_⟩
  subst heq
  obtain ⟨binding, hbinding, rfl⟩ := mem_map.mp hname
  obtain ⟨binding', hbinding', heq⟩ := mem_map.mp hname'
  obtain ⟨symbol, hdeclared, hpublic, -⟩ := mem_publicBindings.mp hbinding
  obtain ⟨symbol', hselected, -⟩ := mem_publicBindings.mp hbinding'
  rw [heq] at hselected
  refine absurd (honce binding.name (.declared t) (.selected t) symbol.visibility rfl ?_ hpublic ?_)
    nofun
  · rw [board, hdeclared]
    rfl
  · simp [board, hselected]

/-- No pair of a name and a category is listed twice. -/
theorem once_of_publicOnce : (entry.exportedBindings.map ExportedBinding.item).Nodup := by
  have hperm := (List.perm_insertionSort ExportedBinding.Le
    (exportedTables.flatMap entry.publicSymbols)).map ExportedBinding.item
  rw [exportedBindings, hperm.nodup_iff, List.map_flatMap, List.nodup_flatMap]
  constructor
  · intro t _
    refine List.Nodup.of_map Prod.fst ?_
    rw [map_map]
    exact nodup_publicSymbols honce t
  · have hdistinct : exportedTables.Nodup := by decide
    refine hdistinct.imp fun {t t'} hne => ?_
    intro pair hpair hpair'
    obtain ⟨binding, hbinding, rfl⟩ := mem_map.mp hpair
    obtain ⟨binding', hbinding', heq⟩ := mem_map.mp hpair'
    obtain ⟨hname, hcategory⟩ := Prod.mk.inj heq
    rw [item_of_mem hbinding, item_of_mem hbinding'] at hcategory
    obtain ⟨symbol, hsymbol, -⟩ := mem_publicSymbols.mp hbinding
    obtain ⟨symbol', hsymbol', -⟩ := mem_publicSymbols.mp hbinding'
    rw [hname] at hsymbol'
    refine hne (Publishes.unique honce hsymbol hsymbol' ?_).1
    rw [← t.namespace_of_category, ← t'.namespace_of_category, hcategory]

end

end ModuleEntry

/-- The tables in which an item of a category is looked up. -/
def ImportItemNamespace.tables : ImportItemNamespace → List SymbolTable
  | .term => [.decl, .constructor]
  | .type => [.structType]
  | .dimension => [.dimension]
  | .unit => [.unit]
  | .index => [.index]

namespace ModuleResolver

variable {resolver : ModuleResolver N} {m : SourceDagId N} {entry : ModuleEntry N}

/-- An import adds the public symbols of its tables, and needs one. -/
theorem importItemAdditions_eq_ok (hentry : resolver.modules.get? m = some entry) {item : Item N}
    {additions : List (ImportAddition N)} :
    resolver.importItemAdditions m item .crossModule = .ok additions ↔
      additions ≠ [] ∧ additions = item.selection.category.tables.filterMap fun t =>
        (entry.exported t item.name.name .crossModule).public?.map (itemAddition item t) := by
  have hexported : ∀ t, resolver.exportedSymbolForImport t m item.name.name .crossModule =
      .ok (entry.exported t item.name.name .crossModule) := fun t =>
    exportedSymbolForImport_eq_ok.mpr ⟨entry, hentry, rfl⟩
  have hone : ∀ t : SymbolTable, resolver.symbolImportItemAdditions t m item .crossModule =
      .ok additions ↔ additions ≠ [] ∧ additions = [t].filterMap fun t =>
        (entry.exported t item.name.name .crossModule).public?.map (itemAddition item t) := by
    intro t
    rw [symbolImportItemAdditions_eq_ok, hexported]
    cases hfound : entry.exported t item.name.name .crossModule with
    | pub symbol =>
      simp only [List.filterMap_cons, hfound, ExportLookup.public?, Option.map_some,
        List.filterMap_nil, Except.ok.injEq, ExportLookup.pub.injEq, exists_eq_left']
      exact ⟨fun h => ⟨h ▸ List.cons_ne_nil _ _, h⟩, And.right⟩
    | priv => simp [hfound, ExportLookup.public?]
    | missing => simp [hfound, ExportLookup.public?]
  unfold importItemAdditions
  cases hcategory : item.selection.category with
  | type => exact hone .structType
  | dimension => exact hone .dimension
  | unit => exact hone .unit
  | index => exact hone .index
  | term =>
    have hlists : ImportItemNamespace.term.tables.filterMap (fun t =>
        (entry.exported t item.name.name .crossModule).public?.map (itemAddition item t)) =
        ((entry.exported .decl item.name.name .crossModule).public?.map
          (itemAddition item .decl)).toList ++
        ((entry.exported .constructor item.name.name .crossModule).public?.map
          (itemAddition item .constructor)).toList := by
      simp only [ImportItemNamespace.tables, List.filterMap_cons, List.filterMap_nil]
      cases (entry.exported .decl item.name.name .crossModule).public? <;>
        cases (entry.exported .constructor item.name.name .crossModule).public? <;> rfl
    rw [hlists]
    constructor
    · intro h
      obtain ⟨decl, constructor, hdecl, hconstructor, hne, heq⟩ := termImportItemAdditions_eq_ok h
      rw [hexported] at hdecl hconstructor
      cases hdecl
      cases hconstructor
      exact ⟨hne, heq⟩
    · rintro ⟨hne, rfl⟩
      unfold termImportItemAdditions
      rw [hexported, hexported]
      change (if _ then _ else _) = _
      rw [if_pos hne]
      rfl

end ModuleResolver

/-! ## Agreement -/

/-- What the listing tells of an import's target; an alias is not listed. -/
def ImportTarget.exported : ImportTarget N → Option (ExportedBindingTarget N)
  | .moduleAlias .. => none
  | .symbol _ binding => some binding.exportedTarget

/-- The pair of an item's name and category. -/
def importedPair (item : Item N) : N × ImportItemNamespace :=
  (item.name.name, item.selection.category)

/-- Each public pair is listed once and exactly these pairs can be imported, as listed. -/
structure SurfaceAgrees (resolver : ModuleResolver N) (m : SourceDagId N) (entry : ModuleEntry N) :
    Prop where
  once : (entry.exportedBindings.map ExportedBinding.item).Nodup
  imported : ∀ item : Item N,
    (∃ additions, resolver.importItemAdditions m item .crossModule = .ok additions) ↔
      importedPair item ∈ entry.exportedBindings.map ExportedBinding.item
  target : ∀ (item : Item N) additions,
    resolver.importItemAdditions m item .crossModule = .ok additions →
      ∀ binding ∈ entry.exportedBindings, binding.item = importedPair item →
        additions.map (·.target.exported) = [some binding.target]

theorem mem_categoryTables {category : ImportItemNamespace} :
    t ∈ category.tables ↔ t.category = category := by
  cases category <;> cases t <;> decide

/-- The tables of a category share a namespace. -/
theorem namespace_eq_of_category {t' : SymbolTable} (h : t.category = t'.category) :
    t.namespaceOf = t'.namespaceOf := by
  rw [← t.namespace_of_category, ← t'.namespace_of_category, h]

theorem filterMap_eq_singleton {α β : Type} {f : α → Option β} {l : List α} {a : α} {b : β}
    (hl : l.Nodup) (ha : a ∈ l) (hb : f a = some b) (hf : ∀ a' ∈ l, a' ≠ a → f a' = none) :
    l.filterMap f = [b] := by
  obtain ⟨before, after, rfl⟩ := List.append_of_mem ha
  have hnone : ∀ part : List α, (∀ a' ∈ part, a' ∈ before ++ a :: after ∧ a' ≠ a) →
      part.filterMap f = [] := fun part hpart =>
    List.filterMap_eq_nil_iff.mpr fun a' ha' => hf a' (hpart a' ha').1 (hpart a' ha').2
  rw [nodup_append, List.nodup_cons] at hl
  obtain ⟨-, ⟨hafter, -⟩, hbefore⟩ := hl
  rw [List.filterMap_append, List.filterMap_cons, hb,
    hnone before fun a' ha' => ⟨by simp [ha'], hbefore a' ha' a mem_cons_self⟩,
    hnone after fun a' ha' => ⟨by simp [ha'], fun heq => hafter (heq ▸ ha')⟩]
  rfl

theorem surfaceAgrees_of_publicOnce {resolver : ModuleResolver N} {m : SourceDagId N}
    {entry : ModuleEntry N} (hentry : resolver.modules.get? m = some entry)
    (honce : entry.board.PublicOnce) : SurfaceAgrees resolver m entry := by
  have hadded : ∀ (item : Item N) (a : ImportAddition N),
      a ∈ item.selection.category.tables.filterMap (fun t =>
        (entry.exported t item.name.name .crossModule).public?.map (itemAddition item t)) ↔
      ∃ t symbol, t.category = item.selection.category ∧
        entry.Publishes t item.name.name symbol ∧ itemAddition item t symbol = a := by
    intro item a
    simp only [List.mem_filterMap, mem_categoryTables, Option.map_eq_some_iff]
    refine exists_congr fun t => ?_
    rw [← exists_and_left]
    refine exists_congr fun symbol => and_congr_right fun _ => and_congr_left fun _ => ?_
    rw [← ModuleEntry.exported_eq_pub_iff honce]
    cases entry.exported t item.name.name .crossModule <;> simp [ExportLookup.public?]
  refine ⟨ModuleEntry.once_of_publicOnce honce, fun item => ?_, fun item additions h => ?_⟩
  · simp only [ModuleResolver.importItemAdditions_eq_ok hentry, exists_eq_right, ne_eq,
      List.eq_nil_iff_forall_not_mem, hadded, not_forall, not_not, mem_map,
      ModuleEntry.mem_exportedBindings]
    constructor
    · rintro ⟨-, t, symbol, hcategory, hsymbol, -⟩
      refine ⟨⟨item.name.name, symbol.exportedTarget⟩, ⟨t, symbol, hsymbol, rfl⟩, ?_⟩
      rw [ExportedBinding.item, Symbol.kind_exportedTarget, Symbol.namespaceOf_itemKind, hcategory,
        importedPair]
    · rintro ⟨binding, ⟨t, symbol, hsymbol, htarget⟩, hpair⟩
      obtain ⟨hname, hcategory⟩ := Prod.mk.inj hpair
      rw [htarget, Symbol.kind_exportedTarget, Symbol.namespaceOf_itemKind] at hcategory
      exact ⟨_, t, symbol, hcategory, hname ▸ hsymbol, rfl⟩
  · obtain ⟨hne, hadditions⟩ := (ModuleResolver.importItemAdditions_eq_ok hentry).mp h
    intro binding hbinding hpair
    obtain ⟨t, symbol, hsymbol, htarget⟩ := ModuleEntry.mem_exportedBindings.mp hbinding
    obtain ⟨hname, hcategory⟩ := Prod.mk.inj hpair
    rw [htarget, Symbol.kind_exportedTarget, Symbol.namespaceOf_itemKind] at hcategory
    rw [hname] at hsymbol
    have hfound := (ModuleEntry.exported_eq_pub_iff honce).mpr hsymbol
    rw [hadditions, filterMap_eq_singleton (a := t) (b := itemAddition item t symbol), htarget]
    · rfl
    · cases item.selection.category <;> decide
    · exact mem_categoryTables.mpr hcategory
    · rw [hfound]
      rfl
    · intro t' ht' hne'
      cases hfound' : entry.exported t' item.name.name .crossModule with
      | priv => rfl
      | missing => rfl
      | pub symbol' =>
        rw [ModuleEntry.exported_eq_pub_iff honce] at hfound'
        refine absurd (ModuleEntry.Publishes.unique honce hfound' hsymbol ?_).1 hne'
        exact namespace_eq_of_category ((mem_categoryTables.mp ht').trans hcategory.symm)

/-- A public symbol in both tables is listed twice. -/
theorem not_surfaceAgrees {resolver : ModuleResolver N} {m : SourceDagId N} {entry : ModuleEntry N}
    {v : BindableVisibility} (hpublic : v.isPublic = true)
    (hdeclared : entry.board (.declared t) name = some v)
    (hselected : entry.board (.selected t) name = some v) : ¬ SurfaceAgrees resolver m entry := by
  intro hagrees
  obtain ⟨symbol, hget, rfl⟩ := Option.map_eq_some_iff.mp hdeclared
  obtain ⟨symbol', hget', hv⟩ := Option.map_eq_some_iff.mp hselected
  have hperm := (List.perm_insertionSort ExportedBinding.Le
    (ModuleEntry.exportedTables.flatMap entry.publicSymbols)).map ExportedBinding.item
  have honce := hperm.nodup_iff.mp hagrees.once
  rw [List.map_flatMap, List.nodup_flatMap] at honce
  have htable := honce.1 t (by cases t <;> decide)
  rw [ModuleEntry.publicSymbols, List.map_append, nodup_append] at htable
  refine htable.2.2 (name, t.category) ?_ (name, t.category) ?_ rfl
  · refine mem_map.mpr ⟨⟨name, symbol.exportedTarget⟩, ?_, ?_⟩
    · exact mem_publicBindings.mpr ⟨symbol, hget, hpublic, rfl⟩
    · rw [ExportedBinding.item, Symbol.kind_exportedTarget, Symbol.namespaceOf_itemKind]
  · refine mem_map.mpr ⟨⟨name, symbol'.exportedTarget⟩, ?_, ?_⟩
    · exact mem_publicBindings.mpr ⟨symbol', hget', hv ▸ hpublic, rfl⟩
    · rw [ExportedBinding.item, Symbol.kind_exportedTarget, Symbol.namespaceOf_itemKind]

/-- Every public index that the include selects and binds is bound to a path. -/
def PublicIndexesBoundToPaths (decl : Include N) : Prop :=
  ∀ items, decl.kind = .selective items → ∀ item ∈ items, item.visibility = .pub →
    item.selection.category = .index →
      ∀ binding, itemBinding decl item = some binding → binding.value.path? ≠ none

theorem publicBoundToPaths_iff (decl : Include N) (template : SourceDagId N) :
    PublicIndexesBoundToPaths decl ↔ ∀ entry ∈ edgeItems (.includeEdge decl template),
      entry.2 = .doubled → entry.1.visibility = .priv := by
  obtain ⟨path, bindings, kind⟩ := decl
  unfold PublicIndexesBoundToPaths
  cases kind with
  | module alias? => exact iff_of_true nofun nofun
  | selective items =>
    simp only [edgeItems, List.forall_mem_map, ImportKind.selective.injEq, forall_eq',
      includeOutcome_eq_doubled]
    refine forall₂_congr fun item _ => ?_
    cases item.visibility <;> simp

theorem RunEffect.publicOnce {edges : List (ModuleEdge N)} {board board' : Board N}
    (h : RunEffect edges board board') (hstart : board.OneBindingPerSlot)
    (hitems : ∀ edge ∈ edges, ∀ entry ∈ edgeItems edge, entry.2 = .doubled →
      entry.1.visibility = .priv) : board'.PublicOnce := by
  intro name p p' v hns hp hpublic hp'
  rcases h.slot p.namespaceOf name with hsame | ⟨-, hintroduced⟩
  · rw [hsame p rfl] at hp
    rw [hsame p' hns.symm] at hp'
    exact hstart name p p' hns (by rw [hp]; exact nofun) hp'
  · rcases hintroduced.bound with ⟨q, w, hq, hheld⟩ |
      ⟨edge, hedge, entry, hentry, hdoubled, t, ht, hheld⟩
    · have hfirst := Holds.eq_of_ne_none hheld hq.symm (by rw [hp]; exact nofun)
      rw [hfirst, Holds.eq_of_ne_none hheld (hns ▸ hq.symm) hp']
    · -- a private item leaves nothing public in its slot
      rw [hitems edge hedge entry hentry hdoubled] at hheld
      by_cases hmem : p ∈ [Place.declared t, .selected t]
      · cases hp.symm.trans (hheld.at_place p hmem)
        cases hpublic
      · cases hp.symm.trans (hheld.elsewhere _ mem_cons_self p ht.symm hmem)

theorem build_surfaceAgrees_iff (spellings : Spellings N) (targets : ModuleTargets N)
    (sources : List (SourceDagId N × List (Decl N))) (resolver : ModuleResolver N)
    (h : ModuleResolver.build spellings targets sources = .ok resolver) :
    (∀ m entry, resolver.modules.get? m = some entry → SurfaceAgrees resolver m entry) ↔
      ∀ owner declarations, (owner, declarations) ∈ sources →
        ∀ decl template, .includeEdge decl template ∈ moduleEdges targets owner declarations →
          PublicIndexesBoundToPaths decl := by
  obtain ⟨tables, builder, hcollects, hconnected, hfrozen⟩ := build_frozen h
  constructor
  · intro hagrees owner declarations hsource decl template hedge
    obtain ⟨module, hmodule, rfl⟩ := (hcollects.mem owner declarations).mp hsource
    obtain ⟨entry, hentry, heffect, -⟩ := hfrozen.source owner module hmodule
    rw [← hconnected.edges owner module hmodule] at hedge
    rw [publicBoundToPaths_iff decl template]
    intro item hitem hdoubled
    by_contra hpublic
    obtain ⟨-, t, -, hheld⟩ := heffect.items _ hedge item hitem
    rw [hdoubled] at hheld
    refine not_surfaceAgrees ?_ (hheld.at_place (.declared t) mem_cons_self)
      (hheld.at_place (.selected t) (List.mem_cons_of_mem _ mem_cons_self))
      (hagrees owner entry hentry)
    cases hvisibility : item.1.visibility with
    | priv => exact absurd hvisibility hpublic
    | pub => rfl
  · intro hbound m entry hentry
    refine surfaceAgrees_of_publicOnce hentry ?_
    rcases hfrozen.known m entry hentry with hsource | ⟨template, hedge⟩
    · obtain ⟨module, hmodule⟩ := Option.ne_none_iff_exists'.mp hsource
      obtain ⟨entry', hentry', heffect, -⟩ := hfrozen.source m module hmodule
      cases hentry.symm.trans hentry'
      rw [hcollects.entry m module hmodule] at heffect
      refine heffect.publicOnce (collectedEntry_oneBinding _ _) fun edge hedge => ?_
      cases edge with
      | importEdge decl target =>
        intro item hitem hdoubled
        rw [importItems_selected decl target item hitem] at hdoubled
        cases hdoubled
      | includeEdge decl template =>
        rw [← publicBoundToPaths_iff]
        refine hbound m module.declarations ((hcollects.mem m _).mpr ⟨module, hmodule, rfl⟩) decl
          template ?_
        rwa [← hconnected.edges m module hmodule]
    · exact (hfrozen.instance_oneBinding hcollects.entry hedge hentry).publicOnce

namespace FiniteIndex

/-- `include lib(index cells: Fin(3))::{pub index cells};` -/
def published : Include Name :=
  { selected with kind := .selective [⟨.pub, ⟨.cells, ⟨0, 0⟩⟩, ⟨.index, none⟩⟩] }

/-- The published index is listed twice. -/
theorem published_twice : ∃ resolver,
    ModuleResolver.build spellings targets (sources published) = .ok resolver ∧
      ¬ ∀ m entry, resolver.modules.get? m = some entry → SurfaceAgrees resolver m entry := by
  obtain ⟨resolver, hbuild, htwice⟩ := Checked.exists_ok_of_any
    (x := ModuleResolver.build spellings targets (sources published))
    (p := fun resolver => (resolver.modules.get? (fileRoot .pkg .main)).any fun entry =>
      entry.board (.declared .index) .cells = some .pub ∧
        entry.board (.selected .index) .cells = some .pub) (by decide +kernel)
  refine ⟨resolver, hbuild, fun hagrees => ?_⟩
  obtain ⟨entry, hentry, hplaces⟩ := (Option.any_eq_true _ _).mp htwice
  obtain ⟨hdeclared, hselected⟩ := of_decide_eq_true hplaces
  exact not_surfaceAgrees rfl hdeclared hselected (hagrees _ entry hentry)

/-- The private one is neither listed nor importable. -/
theorem selected_surface : ∃ resolver,
    ModuleResolver.build spellings targets (sources selected) = .ok resolver ∧
      ∀ m entry, resolver.modules.get? m = some entry → SurfaceAgrees resolver m entry := by
  obtain ⟨resolver, hbuild, -⟩ := Checked.exists_ok_of_any
    (x := ModuleResolver.build spellings targets (sources selected)) (p := fun _ => true)
    (by decide +kernel)
  refine ⟨resolver, hbuild, (build_surfaceAgrees_iff _ _ _ _ hbuild).mpr ?_⟩
  intro owner declarations hsource decl template hedge
  rcases List.mem_cons.mp hsource with heq | hsource
  · cases heq
    cases hedge
  · cases mem_singleton.mp hsource
    obtain ⟨declaration, hmem, heq⟩ := List.mem_filterMap.mp hedge
    cases mem_singleton.mp hmem
    cases heq
    intro items hitems item hitem hpublic
    cases hitems
    cases mem_singleton.mp hitem
    cases hpublic

end FiniteIndex

end ProvenGraphcal.Resolve
