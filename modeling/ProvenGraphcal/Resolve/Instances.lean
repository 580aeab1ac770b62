import ProvenGraphcal.Resolve.Surface

/-!
# What an instance offers beside its template

An instance has the scope of its template, and declarations collected anew. A type or dimension
that the template projected out of its scope is in neither.
-/

namespace ProvenGraphcal.Resolve

open List (any_nil mem_cons_self mem_filterMap mem_map)

variable {N : Type} [LinearOrder N]

open Board ModuleResolver

/-- A source module has an include whose path names this template. -/
def SourceIncludes (targets : ModuleTargets N) (sources : List (SourceDagId N × List (Decl N)))
    (owner : SourceDagId N) (decl : Include N) (template : SourceDagId N) : Prop :=
  ∃ declarations, (owner, declarations) ∈ sources ∧
    .includeEdge decl template ∈ moduleEdges targets owner declarations

/-- The instance that an include of a source module reaches, through any chain of templates. -/
def IsInstanceOf (targets : ModuleTargets N) (sources : List (SourceDagId N × List (Decl N)))
    (inst template : SourceDagId N) : Prop :=
  ∃ root, Reached (SourceIncludes targets sources) root root inst template

variable {decl : Include N} {template : SourceDagId N}

omit [LinearOrder N] in
theorem edgeIncludes_iff_mem {edges : SourceDagId N → List (ModuleEdge N)} {m : SourceDagId N} :
    EdgeIncludes edges m decl template ↔ .includeEdge decl template ∈ edges m := by
  unfold EdgeIncludes instantiations
  rw [mem_filterMap]
  constructor
  · rintro ⟨edge, hedge, heq⟩
    cases edge with
    | importEdge decl target => cases heq
    | includeEdge decl' template' =>
      cases heq
      exact hedge
  · exact fun hedge => ⟨_, hedge, rfl⟩

omit [LinearOrder N] in
theorem IsInstanceOf.included {targets : ModuleTargets N}
    {sources : List (SourceDagId N × List (Decl N))} {inst : SourceDagId N}
    (h : IsInstanceOf targets sources inst template) :
    ∃ owner decl, SourceIncludes targets sources owner decl template := by
  obtain ⟨root, h⟩ := h
  cases h with
  | direct h => exact ⟨_, _, h⟩
  | within _ h => exact ⟨_, _, h⟩

section Connected

variable {targets : ModuleTargets N} {sources : List (SourceDagId N × List (Decl N))}
  {tables : SymbolTables N} {builder : ScopeBuilder N}

theorem edgeIncludes_iff (hcollects : Collects sources tables)
    (hconnected : Connected targets tables builder) {m : SourceDagId N} :
    EdgeIncludes (edgesOf builder.own) m decl template ↔
      SourceIncludes targets sources m decl template := by
  rw [edgeIncludes_iff_mem]
  constructor
  · intro hedge
    have hsource : m ∈ builder.own.map Prod.fst := by
      unfold edgesOf at hedge
      cases hlookup : builder.own.lookup m with
      | none => rw [hlookup] at hedge; cases hedge
      | some edges =>
        obtain ⟨l, r, heq, -⟩ := List.lookup_eq_some_iff.mp hlookup
        rw [heq]
        exact mem_map.mpr ⟨_, List.mem_append_right _ mem_cons_self, rfl⟩
    rw [hconnected.keys] at hsource
    obtain ⟨module, hmodule⟩ := InsertionMap.mem_keys.mp hsource
    rw [hconnected.edges m module hmodule] at hedge
    exact ⟨module.declarations, (hcollects.mem m _).mpr ⟨module, hmodule, rfl⟩, hedge⟩
  · rintro ⟨declarations, hsource, hedge⟩
    obtain ⟨module, hmodule, rfl⟩ := (hcollects.mem m declarations).mp hsource
    rwa [hconnected.edges m module hmodule]

theorem inherited_of_instance (hcollects : Collects sources tables)
    (hconnected : Connected targets tables builder) {inst : SourceDagId N}
    (h : IsInstanceOf targets sources inst template) : (inst, template) ∈ builder.inherited := by
  obtain ⟨root, h⟩ := h
  refine (hconnected.instances _ _).mpr ⟨root, ?_,
    h.mono fun m decl nested => (edgeIncludes_iff hcollects hconnected).mpr⟩
  obtain ⟨decl, nested, ⟨declarations, hsource, -⟩, -⟩ := reached_iff.mp h
  obtain ⟨module, hmodule, -⟩ := (hcollects.mem root declarations).mp hsource
  exact InsertionMap.mem_keys.mpr ⟨module, hmodule⟩

end Connected

/-- The table has a public binding of the name. -/
def Board.Exposes (board : Board N) (t : SymbolTable) (name : N) : Prop :=
  ∃ v : BindableVisibility, v.isPublic = true ∧
    (board (.declared t) name = some v ∨ board (.selected t) name = some v)

/-- A name both declared and selected has one visibility. -/
def Board.SameVisibility (board : Board N) : Prop :=
  ∀ t name v w, board (.declared t) name = some v → board (.selected t) name = some w → v = w

variable {entry : ModuleEntry N}

theorem exposes_iff {t : SymbolTable} {name : N} :
    entry.board.Exposes t name ↔ ∃ symbol, entry.Publishes t name symbol := by
  unfold Exposes ModuleEntry.Publishes
  simp only [ModuleEntry.board, Option.map_eq_some_iff]
  constructor
  · rintro ⟨_, hpublic, ⟨symbol, hget, rfl⟩ | ⟨symbol, hget, rfl⟩⟩
    · exact ⟨symbol, hpublic, .inl hget⟩
    · exact ⟨symbol, hpublic, .inr hget⟩
  · rintro ⟨symbol, hpublic, hget | hget⟩
    · exact ⟨_, hpublic, .inl ⟨symbol, hget, rfl⟩⟩
    · exact ⟨_, hpublic, .inr ⟨symbol, hget, rfl⟩⟩

/-- The listed pairs are the names that tables of the category expose. -/
theorem exposedPair_iff {pair : N × ImportItemNamespace} :
    pair ∈ entry.exportedBindings.map ExportedBinding.item ↔
      ∃ t : SymbolTable, t.category = pair.2 ∧ entry.board.Exposes t pair.1 := by
  obtain ⟨name, category⟩ := pair
  simp only [mem_map, ModuleEntry.mem_exportedBindings, exposes_iff]
  constructor
  · rintro ⟨binding, ⟨t, symbol, hsymbol, htarget⟩, heq⟩
    obtain ⟨rfl, rfl⟩ := Prod.mk.inj heq
    refine ⟨t, ?_, symbol, hsymbol⟩
    rw [htarget, Symbol.kind_exportedTarget, Symbol.namespaceOf_itemKind]
  · rintro ⟨t, rfl, symbol, hsymbol⟩
    refine ⟨⟨name, symbol.exportedTarget⟩, ⟨t, symbol, hsymbol, rfl⟩, ?_⟩
    rw [ExportedBinding.item, Symbol.kind_exportedTarget, Symbol.namespaceOf_itemKind]

variable {item : Item N} {resolver : ModuleResolver N}

/-- An item can be imported when a table of its category exposes its name. -/
theorem importable_iff {m : SourceDagId N} (hentry : resolver.modules.get? m = some entry)
    (hsame : entry.board.SameVisibility) :
    (∃ additions, resolver.importItemAdditions m item .crossModule = .ok additions) ↔
      ∃ t : SymbolTable, t.category = item.selection.category ∧
        entry.board.Exposes t item.name.name := by
  have hexported : ∀ t : SymbolTable, (∃ symbol, (entry.exported t item.name.name
      .crossModule).public? = some symbol) ↔ entry.board.Exposes t item.name.name := by
    intro t
    have hpublic : (∃ symbol, (entry.exported t item.name.name .crossModule).public? =
        some symbol) ↔ ∃ symbol, entry.exported t item.name.name .crossModule = .pub symbol := by
      cases entry.exported t item.name.name .crossModule <;> simp [ExportLookup.public?]
    rw [hpublic, ModuleEntry.exists_exported_iff]
    constructor
    · rintro (⟨v, hdeclared, hv⟩ | ⟨-, v, hselected, hv⟩)
      · exact ⟨v, hv, .inl hdeclared⟩
      · exact ⟨v, hv, .inr hselected⟩
    · rintro ⟨v, hv, hdeclared | hselected⟩
      · exact .inl ⟨v, hdeclared, hv⟩
      · cases hdeclared : entry.board (.declared t) item.name.name with
        | none => exact .inr ⟨rfl, v, hselected, hv⟩
        | some w => exact .inl ⟨w, rfl, hsame t _ w v hdeclared hselected ▸ hv⟩
  simp only [importItemAdditions_eq_ok hentry, exists_eq_right, ne_eq,
    List.eq_nil_iff_forall_not_mem, not_forall, not_not, mem_filterMap, mem_categoryTables,
    Option.map_eq_some_iff, ← hexported]
  constructor
  · rintro ⟨-, t, hcategory, symbol, hsymbol, -⟩
    exact ⟨t, hcategory, symbol, hsymbol⟩
  · rintro ⟨t, hcategory, symbol, hsymbol⟩
    exact ⟨_, t, hcategory, symbol, hsymbol, rfl⟩

omit [LinearOrder N] in
theorem Board.OneBindingPerSlot.sameVisibility {board : Board N} (h : board.OneBindingPerSlot) :
    board.SameVisibility := by
  intro t name v w hdeclared hselected
  refine absurd (h name (.declared t) (.selected t) rfl ?_ ?_) nofun
  · rw [hdeclared]
    exact nofun
  · rw [hselected]
    exact nofun

/-! ## Projected names -/

/-- A public type or dimension that the include selects is bound to a path, or nothing that
would specialize it is bound. -/
def KeepsPublicItems (decl : Include N) : Prop :=
  ∀ items, decl.kind = .selective items → ∀ item ∈ items, item.visibility = .pub →
    itemBindingPath decl item ≠ none ∨
      (item.selection.category = .type → hasStaticBindings decl = false) ∧
      (item.selection.category = .dimension → hasDimensionBindings decl = false)

theorem includeOutcome_eq_projected :
    includeOutcome decl item = .projected ↔ itemBindingPath decl item = none ∧
      (item.selection.category = .type ∧ hasStaticBindings decl = true ∨
        item.selection.category = .dimension ∧ hasDimensionBindings decl = true) := by
  unfold includeOutcome
  cases item.selection.category with
  | type => simp
  | dimension => simp
  | index =>
    split_ifs <;> simp
  | unit => simp
  | term => simp

theorem includeItems_outcome {entry : Item N × ItemOutcome}
    (h : entry ∈ edgeItems (.includeEdge decl template)) :
    entry.2 = includeOutcome decl entry.1 := by
  obtain ⟨path, bindings, kind⟩ := decl
  cases kind with
  | module alias? => cases h
  | selective items =>
    obtain ⟨item, -, rfl⟩ := mem_map.mp h
    rfl

theorem keepsPublicItems_iff (decl : Include N) (template : SourceDagId N) :
    KeepsPublicItems decl ↔ ∀ entry ∈ edgeItems (.includeEdge decl template),
      entry.2 = .projected → entry.1.visibility = .priv := by
  obtain ⟨path, bindings, kind⟩ := decl
  unfold KeepsPublicItems
  cases kind with
  | module alias? => exact iff_of_true nofun nofun
  | selective items =>
    simp only [edgeItems, List.forall_mem_map, ImportKind.selective.injEq, forall_eq',
      includeOutcome_eq_projected]
    refine forall₂_congr fun item _ => ?_
    cases item.visibility with
    | priv => simp
    | pub =>
      cases hpath : itemBindingPath ⟨path, bindings, .selective items⟩ item <;>
        cases item.selection.category <;> simp

theorem RunEffect.sameVisibility {edges : List (ModuleEdge N)} {board board' : Board N}
    (h : RunEffect edges board board') (hstart : board.OneBindingPerSlot) :
    board'.SameVisibility := by
  intro t name v w hdeclared hselected
  rcases h.slot t.namespaceOf name with hsame | ⟨-, hintroduced⟩
  · rw [hsame (.declared t) rfl] at hdeclared
    rw [hsame (.selected t) rfl] at hselected
    refine absurd (hstart name (.declared t) (.selected t) rfl ?_ ?_) nofun
    · rw [hdeclared]; exact nofun
    · rw [hselected]; exact nofun
  · rcases hintroduced.bound with ⟨q, u, hq, hheld⟩ | ⟨_, _, _, _, _, t', ht', hheld⟩
    · have hfirst := Holds.eq_of_ne_none hheld (p := .declared t) hq.symm
        (by rw [hdeclared]; exact nofun)
      have hsecond := Holds.eq_of_ne_none hheld (p := .selected t) hq.symm
        (by rw [hselected]; exact nofun)
      cases hfirst.trans hsecond.symm
    · have hplace : ∀ {p : Place} {u : BindableVisibility}, p.namespaceOf = t.namespaceOf →
          board' p name = some u → p ∈ [Place.declared t', .selected t'] := by
        intro p u hp hu
        by_contra hmem
        rw [hheld.elsewhere _ mem_cons_self p (hp.trans ht'.symm) hmem] at hu
        cases hu
      cases hdeclared.symm.trans (hheld.at_place _ (hplace rfl hdeclared))
      cases hselected.symm.trans (hheld.at_place _ (hplace rfl hselected))
      rfl

section Inherited

variable {edges : List (ModuleEdge N)} {board board' final : Board N}
  (hdeclared : ∀ t name, final (.declared t) name = board (.declared t) name)
  (hselected : ∀ t name, final (.selected t) name = board' (.selected t) name)

include hdeclared hselected

/-- The instance exposes what the template exposes, if no public name was projected. -/
theorem RunEffect.exposes_iff (h : RunEffect edges board board')
    (hitems : ∀ edge ∈ edges, ∀ entry ∈ edgeItems edge, entry.2 = .projected →
      entry.1.visibility = .priv) (t : SymbolTable) (name : N) :
    final.Exposes t name ↔ board'.Exposes t name := by
  unfold Exposes
  rw [hdeclared, hselected]
  refine exists_congr fun v => and_congr_right fun hpublic => ?_
  rcases h.slot t.namespaceOf name with hsame | ⟨hfree, hintroduced⟩
  · rw [hsame (.declared t) rfl]
  · rw [hfree (.declared t) rfl]
    refine ⟨fun hor => .inr (hor.resolve_left nofun), fun hor => .inr (hor.elim (fun hv => ?_) id)⟩
    rcases hintroduced with ⟨edge, -, entry, -, hterm, -, hheld⟩ |
      ⟨edge, hedge, entry, hentry, hslot, t', hcategory, hheld⟩
    · cases Holds.eq_of_ne_none hheld (p := .declared t) hterm (by rw [hv]; exact nofun)
    · have hns : t'.namespaceOf = t.namespaceOf := by
        rw [← t'.namespace_of_category, hcategory]
        exact congrArg Prod.fst hslot
      rw [show localNameAtom entry.1 = name from congrArg Prod.snd hslot] at hheld
      cases houtcome : entry.2 with
      | selected =>
        rw [houtcome] at hheld
        cases Holds.eq_of_ne_none (q := .selected t') hheld (p := .declared t) hns.symm
          (by rw [hv]; exact nofun)
      | projected =>
        rw [houtcome] at hheld
        cases Holds.eq_of_ne_none (q := .declared t') hheld (p := .declared t) hns.symm
          (by rw [hv]; exact nofun)
        rw [hitems edge hedge entry hentry houtcome] at hheld
        cases hv.symm.trans (hheld.at_place (.declared t) mem_cons_self)
        cases hpublic
      | doubled =>
        rw [houtcome] at hheld
        by_cases ht : t = t'
        · subst ht
          have hfirst := hheld.at_place (.declared t) mem_cons_self
          have hsecond := hheld.at_place (.selected t) (List.mem_cons_of_mem _ mem_cons_self)
          rw [hsecond, ← hfirst, hv]
        · have hnone : board' (.declared t) name = none :=
            hheld.elsewhere (.declared t') mem_cons_self (.declared t) hns.symm
              (by simp [ItemOutcome.places, ht])
          rw [hv] at hnone
          cases hnone

/-- A public name that was projected is exposed by the template only. -/
theorem RunEffect.exposes_projected (h : RunEffect edges board board')
    {edge : ModuleEdge N} (hedge : edge ∈ edges) {entry : Item N × ItemOutcome}
    (hentry : entry ∈ edgeItems edge) (hprojected : entry.2 = .projected)
    (hpublic : entry.1.visibility = .pub) :
    ∃ t : SymbolTable, t.category = entry.1.selection.category ∧
      board'.Exposes t (localNameAtom entry.1) ∧ ¬ final.Exposes t (localNameAtom entry.1) := by
  obtain ⟨hfree, t, hcategory, hheld⟩ := h.items edge hedge entry hentry
  have hns : (itemSlot entry.1).1 = t.namespaceOf := by
    rw [itemSlot, ← hcategory, t.namespace_of_category]
  rw [hprojected, hpublic] at hheld
  refine ⟨t, hcategory, ⟨.pub, rfl, .inl (hheld.at_place _ mem_cons_self)⟩, ?_⟩
  rintro ⟨v, -, hv | hv⟩
  · have hnone : board (.declared t) (localNameAtom entry.1) = none := hfree _ hns.symm
    rw [hdeclared, hnone] at hv
    cases hv
  · rw [hselected, hheld.elsewhere _ mem_cons_self (.selected t) rfl
      (by simp [ItemOutcome.places])] at hv
    cases hv

end Inherited

/-- Only terms have two tables. -/
theorem eq_of_category {t t' : SymbolTable} (h : t'.category = t.category)
    (hterm : t.category ≠ .term) : t' = t := by
  revert h hterm
  cases t <;> cases t' <;> decide

/-- Both modules list the same pairs, and the same items can be imported from them. -/
structure OffersSame (resolver : ModuleResolver N) (inst template : SourceDagId N)
    (entry source : ModuleEntry N) : Prop where
  listed : ∀ pair, pair ∈ entry.exportedBindings.map ExportedBinding.item ↔
    pair ∈ source.exportedBindings.map ExportedBinding.item
  imported : ∀ item : Item N,
    (∃ additions, resolver.importItemAdditions inst item .crossModule = .ok additions) ↔
      ∃ additions, resolver.importItemAdditions template item .crossModule = .ok additions

/-- The boards of an instance and its template. -/
structure BesideTemplate (edges : List (ModuleEdge N)) (entry source : ModuleEntry N)
    (board : Board N) : Prop where
  effect : RunEffect edges board source.board
  start : board.OneBindingPerSlot
  declared : ∀ t name, entry.board (.declared t) name = board (.declared t) name
  selected : ∀ t name, entry.board (.selected t) name = source.board (.selected t) name
  inst : entry.board.OneBindingPerSlot

theorem FrozenFrom.beside {sources : List (SourceDagId N × List (Decl N))} {tables : SymbolTables N}
    {builder : ScopeBuilder N} (h : FrozenFrom tables builder resolver)
    (hcollects : Collects sources tables) {inst : SourceDagId N}
    (hinherited : (inst, template) ∈ builder.inherited) :
    ∃ entry source board, resolver.modules.get? inst = some entry ∧
      resolver.modules.get? template = some source ∧
      BesideTemplate (edgesOf builder.own template) entry source board := by
  obtain ⟨module, source, hmodule, hsource, hinst⟩ := h.inst _ hinherited
  obtain ⟨source', hsource', heffect, -⟩ := h.source template module hmodule
  cases hsource.symm.trans hsource'
  rw [hcollects.entry template module hmodule] at heffect
  exact ⟨_, source, _, hinst, hsource, heffect, collectedEntry_oneBinding _ _,
    collectedEntry_declared_board inst template module.declarations, fun _ _ => rfl,
    h.instance_oneBinding hcollects.entry hinherited hinst⟩

theorem build_offersSame_iff (spellings : Spellings N) (targets : ModuleTargets N)
    (sources : List (SourceDagId N × List (Decl N))) (resolver : ModuleResolver N)
    (h : ModuleResolver.build spellings targets sources = .ok resolver) :
    (∀ inst template, IsInstanceOf targets sources inst template →
      ∃ entry source, resolver.modules.get? inst = some entry ∧
        resolver.modules.get? template = some source ∧
        OffersSame resolver inst template entry source) ↔
      ∀ owner decl template, SourceIncludes targets sources owner decl template →
        ∀ inner nested, SourceIncludes targets sources template inner nested →
          KeepsPublicItems inner := by
  obtain ⟨tables, builder, hcollects, hconnected, hfrozen⟩ := build_frozen h
  have hedges : ∀ m decl t, SourceIncludes targets sources m decl t ↔
      .includeEdge decl t ∈ edgesOf builder.own m := fun m decl t => by
    rw [← edgeIncludes_iff hcollects hconnected, edgeIncludes_iff_mem]
  constructor
  · intro hoffers owner decl template hinclude inner nested hinner
    have hinst : IsInstanceOf targets sources (owner.instanceChild decl.instanceScope) template :=
      ⟨owner, .direct hinclude⟩
    obtain ⟨entry, source, hentry, hsource, hsame⟩ := hoffers _ template hinst
    obtain ⟨entry', source', board, hentry', hsource', hbeside⟩ :=
      hfrozen.beside hcollects (inherited_of_instance hcollects hconnected hinst)
    cases hentry.symm.trans hentry'
    cases hsource.symm.trans hsource'
    rw [keepsPublicItems_iff inner nested]
    intro item hitem hprojected
    by_contra hprivate
    have hpublic : item.1.visibility = .pub := by
      cases hvisibility : item.1.visibility with
      | priv => exact absurd hvisibility hprivate
      | pub => rfl
    obtain ⟨t, hcategory, hexposed, hnot⟩ := hbeside.effect.exposes_projected hbeside.declared
      hbeside.selected ((hedges _ _ _).mp hinner) hitem hprojected hpublic
    obtain ⟨t', hcategory', hexposed'⟩ := exposedPair_iff.mp ((hsame.listed
      (localNameAtom item.1, item.1.selection.category)).mpr
        (exposedPair_iff.mpr ⟨t, hcategory, hexposed⟩))
    rw [includeItems_outcome hitem, includeOutcome_eq_projected] at hprojected
    have hterm : item.1.selection.category ≠ .term := by
      rcases hprojected.2 with ⟨htype, -⟩ | ⟨hdimension, -⟩
      · rw [htype]
        exact nofun
      · rw [hdimension]
        exact nofun
    have hsingle := eq_of_category (hcategory'.trans hcategory.symm) (hcategory ▸ hterm)
    exact hnot (hsingle ▸ hexposed')
  · intro hkeeps inst template hinst
    obtain ⟨entry, source, board, hentry, hsource, hbeside⟩ :=
      hfrozen.beside hcollects (inherited_of_instance hcollects hconnected hinst)
    have hitems : ∀ edge ∈ edgesOf builder.own template, ∀ item ∈ edgeItems edge,
        item.2 = .projected → item.1.visibility = .priv := by
      obtain ⟨owner, decl, hinclude⟩ := hinst.included
      intro edge hedge
      cases edge with
      | importEdge decl target =>
        intro item hitem hprojected
        rw [importItems_selected decl target item hitem] at hprojected
        cases hprojected
      | includeEdge inner nested =>
        rw [← keepsPublicItems_iff]
        exact hkeeps owner decl template hinclude inner nested ((hedges _ _ _).mpr hedge)
    have hexposes := hbeside.effect.exposes_iff hbeside.declared hbeside.selected hitems
    refine ⟨entry, source, hentry, hsource, fun pair => ?_, fun item => ?_⟩
    · rw [exposedPair_iff, exposedPair_iff]
      exact exists_congr fun t => and_congr_right fun _ => hexposes t pair.1
    · rw [importable_iff hentry hbeside.inst.sameVisibility,
        importable_iff hsource (hbeside.effect.sameVisibility hbeside.start)]
      exact exists_congr fun t => and_congr_right fun _ => hexposes t item.name.name

namespace ReExport

inductive Name
  | pkg
  | main
  | mid
  | leaf
  | element
  | pair
  | item
  deriving DecidableEq

instance : LinearOrder Name :=
  LinearOrder.lift' Name.ctorIdx fun a b h => by
    cases a <;> cases b <;> first | rfl | exact absurd h (by decide)

/-- `include leaf(..)::{pub type pair};` -/
def selecting (bindings : List (ParamBinding Name)) : Include Name where
  path := rootPath .leaf
  paramBindings := bindings
  kind := .selective [⟨.pub, ⟨.pair, ⟨0, 0⟩⟩, ⟨.type, none⟩⟩]

/-- `main` includes `mid`, which re-exports a type of `leaf`. -/
def sources (bindings : List (ParamBinding Name)) : List (SourceDagId Name × List (Decl Name)) :=
  [(fileRoot .pkg .leaf, [.otherDecl (.type .publicBind .element [] .required),
      .otherDecl (.type .pub .pair [] (.constructors []))]),
    (fileRoot .pkg .mid, [.otherDecl (.type .pub .item [] (.constructors [])),
      .includeDecl (selecting bindings)]),
    (fileRoot .pkg .main, [.includeDecl ⟨rootPath .mid, [], .module none⟩])]

def spellings : Spellings Name := ⟨fun _ _ => false, fun _ => true⟩

def targets : ModuleTargets Name where
  importTarget _ _ := none
  includeTarget _ path :=
    if path.key = [.leaf] then some (fileRoot .pkg .leaf)
    else if path.key = [.mid] then some (fileRoot .pkg .mid) else none

/-- `leaf(type element: item)` -/
def bound : List (ParamBinding Name) := [⟨.type, .element, .path ⟨[], .item⟩⟩]

def instanceOfMid : SourceDagId Name := (fileRoot .pkg .main).instanceChild (.named .mid)

theorem isInstanceOf_mid (bindings : List (ParamBinding Name)) :
    IsInstanceOf targets (sources bindings) instanceOfMid (fileRoot .pkg .mid) := by
  have hinclude : SourceIncludes targets (sources bindings) (fileRoot .pkg .main)
      ⟨rootPath .mid, [], .module none⟩ (fileRoot .pkg .mid) :=
    ⟨_, List.mem_cons_of_mem _ (List.mem_cons_of_mem _ mem_cons_self), mem_cons_self⟩
  exact ⟨_, .direct hinclude⟩

/-- The template exposes the type that its include specializes, and the instance does not. -/
theorem bound_lost : ∃ resolver,
    ModuleResolver.build spellings targets (sources bound) = .ok resolver ∧
      ¬ ∀ inst template, IsInstanceOf targets (sources bound) inst template →
        ∃ entry source, resolver.modules.get? inst = some entry ∧
          resolver.modules.get? template = some source ∧
          OffersSame resolver inst template entry source := by
  obtain ⟨resolver, hbuild, hlost⟩ := Checked.exists_ok_of_any
    (x := ModuleResolver.build spellings targets (sources bound))
    (p := fun resolver => (resolver.modules.get? instanceOfMid).any fun entry =>
      (resolver.modules.get? (fileRoot .pkg .mid)).any fun source =>
        (Name.pair, ImportItemNamespace.type) ∈ source.exportedBindings.map ExportedBinding.item ∧
        (Name.pair, ImportItemNamespace.type) ∉ entry.exportedBindings.map ExportedBinding.item)
    (by decide +kernel)
  refine ⟨resolver, hbuild, fun hoffers => ?_⟩
  obtain ⟨entry, source, hentry, hsource, hsame⟩ := hoffers _ _ (isInstanceOf_mid bound)
  rw [hentry, Option.any_some, hsource, Option.any_some] at hlost
  obtain ⟨hexposed, hnot⟩ := of_decide_eq_true hlost
  exact hnot ((hsame.listed _).mpr hexposed)

/-- Without bindings the instance keeps what its template re-exports. -/
theorem unbound_kept : ∃ resolver,
    ModuleResolver.build spellings targets (sources []) = .ok resolver ∧
      ∃ entry source, resolver.modules.get? instanceOfMid = some entry ∧
        resolver.modules.get? (fileRoot .pkg .mid) = some source ∧
        OffersSame resolver instanceOfMid (fileRoot .pkg .mid) entry source := by
  obtain ⟨resolver, hbuild, -⟩ := Checked.exists_ok_of_any
    (x := ModuleResolver.build spellings targets (sources [])) (p := fun _ => true)
    (by decide +kernel)
  refine ⟨resolver, hbuild, (build_offersSame_iff _ _ _ _ hbuild).mpr ?_ _ _ (isInstanceOf_mid [])⟩
  intro owner decl template _ inner nested ⟨declarations, hsource, hedge⟩
  have hinner : .includeDecl inner ∈ declarations := by
    obtain ⟨declaration, hmem, heq⟩ := mem_filterMap.mp hedge
    cases declaration with
    | includeDecl decl' =>
      obtain ⟨_, -, heq⟩ := Option.map_eq_some_iff.mp heq
      cases heq
      exact hmem
    | importDecl decl' =>
      obtain ⟨_, -, heq⟩ := Option.map_eq_some_iff.mp heq
      cases heq
    | dagDecl visibility name body => cases heq
    | otherDecl decl' => cases heq
  have hunbound : inner.paramBindings = [] := by
    simp only [sources, List.mem_cons, List.not_mem_nil, or_false, Prod.mk.injEq] at hsource
    rcases hsource with ⟨-, rfl⟩ | ⟨-, rfl⟩ | ⟨-, rfl⟩
    · simp at hinner
    · obtain rfl : inner = selecting [] := by simpa using hinner
      rfl
    · obtain rfl : inner = ⟨rootPath .mid, [], .module none⟩ := by simpa using hinner
      rfl
  intro items _ item _ _
  refine .inr ⟨fun _ => ?_, fun _ => ?_⟩
  · rw [hasStaticBindings, hunbound, any_nil]
  · rw [hasDimensionBindings, hunbound, any_nil]

end ReExport

end ProvenGraphcal.Resolve
