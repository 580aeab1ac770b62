import ProvenGraphcal.Resolve.Board

/-!
# What registering an edge adds to a module's board
-/

open ProvenGraphcal.Checked (bind_eq_ok)
open ProvenGraphcal.Resolve.StaticUpdate (board_apply)

open List (map_cons mem_cons mem_cons_self mem_singleton)

namespace ProvenGraphcal.Resolve

variable {N : Type} [LinearOrder N]

open Board

def ImportAddition.slot (addition : ImportAddition N) : Namespace × N :=
  (addition.target.namespaceOf, addition.name)

variable {entry : ModuleEntry N} {scope : ModuleScope N}

theorem addImport_eq_ok {reserved : Namespace → N → Bool} {addition : ImportAddition N}
    (h : ModuleScope.addImport reserved entry.symbols entry.scope addition = .ok scope) :
    entry.board.Free addition.slot.1 addition.slot.2 ∧ scope = entry.scope.install addition := by
  unfold ModuleScope.addImport at h
  dsimp only at h
  split at h
  case h_1 => cases h
  case h_2 hnone =>
    refine ⟨ModuleEntry.occupant_eq_none.mp hnone, ?_⟩
    split at h
    · split_ifs at h
      cases h
      rfl
    · cases h
      rfl

/-- Each added name takes a free slot of its own, and the other slots stay. -/
structure Added (additions : List (ImportAddition N)) (board board' : Board N) : Prop where
  distinct : (additions.map ImportAddition.slot).Nodup
  free : ∀ a ∈ additions, board.Free a.slot.1 a.slot.2
  holds : ∀ a ∈ additions, board'.Holds [a.target.place] a.name a.visibility
  rest : ∀ ns name, (ns, name) ∉ additions.map ImportAddition.slot →
    SameSlot board board' ns name

theorem addImports_added {reserved : Namespace → N → Bool} {additions : List (ImportAddition N)}
    (h : entry.scope.addImports reserved entry.symbols additions = .ok scope) :
    Added additions entry.board ({ entry with scope := scope } : ModuleEntry N).board := by
  induction additions generalizing entry with
  | nil =>
    cases h
    exact ⟨List.nodup_nil, nofun, nofun, fun _ _ _ _ _ => rfl⟩
  | cons a rest ih =>
    unfold ModuleScope.addImports at h
    rw [List.foldlM_cons, bind_eq_ok] at h
    obtain ⟨next, ha, hrest⟩ := h
    obtain ⟨hfree, rfl⟩ := addImport_eq_ok ha
    have hnext : Added rest
        ({ entry with scope := entry.scope.install a } : ModuleEntry N).board _ := ih hrest
    have hboard := entry.board_install a
    have hslot : ∀ ns name, (ns, name) ≠ a.slot →
        SameSlot entry.board (ModuleEntry.mk entry.symbols (entry.scope.install a)).board ns name := by
      intro ns name hne
      rw [hboard]
      refine put_sameSlot _ _ ?_
      rwa [ImportTarget.namespaceOf_place]
    have hholds : (ModuleEntry.mk entry.symbols (entry.scope.install a)).board.Holds
        [a.target.place] a.name a.visibility := by
      rw [hboard]
      refine put_holds (fun q hq _ => hfree q ?_) _
      rw [hq, ImportTarget.namespaceOf_place]
      rfl
    -- the slot of `a` is taken from here on
    have hfresh : a.slot ∉ rest.map ImportAddition.slot := by
      intro hmem
      obtain ⟨b, hb, hslot⟩ := List.mem_map.mp hmem
      have hfreeb := hnext.free b hb
      rw [hslot] at hfreeb
      refine hholds.not_free ?_
      rwa [ImportTarget.namespaceOf_place]
    refine ⟨?_, ?_, ?_, ?_⟩
    · rw [map_cons, List.nodup_cons]
      exact ⟨hfresh, hnext.distinct⟩
    · intro b hb
      rcases mem_cons.mp hb with rfl | hb
      · exact hfree
      · have hne : b.slot ≠ a.slot := fun he => hfresh (he ▸ List.mem_map_of_mem hb)
        intro p hp
        rw [← hslot b.slot.1 b.slot.2 hne p hp]
        exact hnext.free b hb p hp
    · intro b hb
      rcases mem_cons.mp hb with rfl | hb
      · refine hholds.congr nofun (hnext.rest _ _ ?_)
        rwa [ImportTarget.namespaceOf_place]
      · exact hnext.holds b hb
    · intro ns name hne
      rw [map_cons, mem_cons, not_or] at hne
      exact (hslot ns name hne.1).trans (hnext.rest ns name hne.2)

/-- The slot that an item's local name takes. -/
def itemSlot (item : Item N) : Namespace × N :=
  (Namespace.of item.selection.category, localNameAtom item)

/-- The symbols that an item's additions are made of. -/
structure ItemAddition (item : Item N) (a : ImportAddition N) : Prop where
  name : a.name = localNameAtom item
  visibility : a.visibility = .ofVisibility item.visibility
  table : ∃ t symbol, a.target = .symbol t symbol ∧ t.category = item.selection.category

omit [LinearOrder N] in
theorem ItemAddition.slot {item : Item N} {a : ImportAddition N} (h : ItemAddition item a) :
    a.slot = itemSlot item := by
  obtain ⟨t, symbol, htarget, hcategory⟩ := h.table
  unfold ImportAddition.slot itemSlot
  rw [h.name, htarget, ← hcategory, t.namespace_of_category]
  rfl

variable {t : SymbolTable}

omit [LinearOrder N] in
theorem itemAddition_spec {item : Item N} (symbol : Symbol N t)
    (h : t.category = item.selection.category) : ItemAddition item (itemAddition item t symbol) :=
  ⟨rfl, rfl, t, symbol, rfl, h⟩

variable {items : List (Item N)} {role : ModuleAliasRole} {path : ModulePath N}

namespace ModuleResolver

variable {resolver : ModuleResolver N} {target : SourceDagId N} {item : Item N} {access : Access}
  {additions : List (ImportAddition N)}

/-- A term item adds what the target exports as a declaration and as a constructor. -/
theorem termImportItemAdditions_eq_ok
    (h : resolver.termImportItemAdditions target item access = .ok additions) :
    ∃ decl constructor,
      resolver.exportedSymbolForImport .decl target item.name.name access = .ok decl ∧
      resolver.exportedSymbolForImport .constructor target item.name.name access =
        .ok constructor ∧
      additions ≠ [] ∧
      additions = (decl.public?.map (itemAddition item .decl)).toList ++
        (constructor.public?.map (itemAddition item .constructor)).toList := by
  obtain ⟨decl, hdecl, h⟩ := bind_eq_ok.mp h
  obtain ⟨constructor, hconstructor, h⟩ := bind_eq_ok.mp h
  refine ⟨decl, constructor, hdecl, hconstructor, ?_⟩
  dsimp only at h
  split_ifs at h with hne
  · cases h
    exact ⟨hne, rfl⟩
  · obtain ⟨e, -, h⟩ := bind_eq_ok.mp h
    cases h

theorem requiredExportedSymbolForImport_eq_ok {symbol : Symbol N t} :
    resolver.requiredExportedSymbolForImport t target item access = .ok symbol ↔
      resolver.exportedSymbolForImport t target item.name.name access = .ok (.pub symbol) := by
  unfold requiredExportedSymbolForImport
  rw [bind_eq_ok]
  constructor
  · rintro ⟨found, hfound, h⟩
    cases found with
    | pub symbol' =>
      cases h
      exact hfound
    | priv => cases h
    | missing =>
      obtain ⟨e, -, h⟩ := bind_eq_ok.mp h
      cases h
  · exact fun h => ⟨.pub symbol, h, rfl⟩

theorem symbolImportItemAdditions_eq_ok :
    resolver.symbolImportItemAdditions t target item access = .ok additions ↔
      ∃ symbol, resolver.exportedSymbolForImport t target item.name.name access =
        .ok (.pub symbol) ∧ additions = [itemAddition item t symbol] := by
  unfold symbolImportItemAdditions
  rw [bind_eq_ok]
  simp only [requiredExportedSymbolForImport_eq_ok]
  refine exists_congr fun symbol => and_congr_right fun _ => ?_
  exact ⟨fun h => (Except.ok.inj h).symm, fun h => congrArg Except.ok h.symm⟩

/-- The additions of an item are in its category, under its local name. -/
theorem importItemAdditions_spec
    (h : resolver.importItemAdditions target item access = .ok additions) :
    additions ≠ [] ∧ ∀ a ∈ additions, ItemAddition item a := by
  have hsymbol : ∀ t : SymbolTable, t.category = item.selection.category →
      resolver.symbolImportItemAdditions t target item access = .ok additions →
        additions ≠ [] ∧ ∀ a ∈ additions, ItemAddition item a := by
    intro t ht hadditions
    obtain ⟨symbol, -, rfl⟩ := symbolImportItemAdditions_eq_ok.mp hadditions
    refine ⟨List.cons_ne_nil _ _, fun a ha => ?_⟩
    rw [mem_singleton.mp ha]
    exact itemAddition_spec symbol ht
  unfold importItemAdditions at h
  split at h
  case h_1 hcategory =>
    obtain ⟨decl, constructor, -, -, hne, rfl⟩ := termImportItemAdditions_eq_ok h
    refine ⟨hne, fun a ha => ?_⟩
    simp only [List.mem_append, Option.mem_toList, Option.map_eq_some_iff] at ha
    rcases ha with ⟨symbol, -, rfl⟩ | ⟨symbol, -, rfl⟩
    · exact itemAddition_spec symbol hcategory.symm
    · exact itemAddition_spec symbol hcategory.symm
  case h_2 hcategory => exact hsymbol .structType hcategory.symm h
  case h_3 hcategory => exact hsymbol .dimension hcategory.symm h
  case h_4 hcategory => exact hsymbol .unit hcategory.symm h
  case h_5 hcategory => exact hsymbol .index hcategory.symm h

/-- The additions of the selected items, item by item. -/
theorem importAdditions_selective
    (h : resolver.importAdditions path (.selective items) target access role = .ok additions) :
    ∃ chunks, additions = chunks.flatten ∧ List.Forall₂ (fun item chunk =>
      resolver.importItemAdditions target item access = .ok chunk) items chunks := by
  obtain ⟨chunks, hchunks, h⟩ := bind_eq_ok.mp h
  cases h
  refine ⟨chunks, rfl, (Checked.mapM_eq_ok.mp hchunks).imp fun item chunk hchunk => ?_⟩
  obtain ⟨found, hfound, hchunk⟩ := bind_eq_ok.mp hchunk
  obtain ⟨_, -, hchunk⟩ := bind_eq_ok.mp hchunk
  cases hchunk
  exact hfound

end ModuleResolver

variable {chunks : List (List (ImportAddition N))}

omit [LinearOrder N] in
/-- An item whose slot no other addition takes has one addition. -/
theorem exists_single_additions
    (h : List.Forall₂ (fun item chunk => chunk ≠ [] ∧ ∀ a ∈ chunk, ItemAddition item a) items
      chunks) (hnodup : (chunks.flatten.map ImportAddition.slot).Nodup) :
    List.Forall₂ (fun item chunk => ∃ a, chunk = [a] ∧ ItemAddition item a) items chunks := by
  induction h with
  | nil => exact .nil
  | @cons item chunk items chunks hchunk _ ih =>
    rw [List.flatten_cons, List.map_append, List.nodup_append] at hnodup
    obtain ⟨hfirst, hrest, -⟩ := hnodup
    refine .cons ?_ (ih hrest)
    obtain ⟨hne, hitem⟩ := hchunk
    match chunk, hne with
    | [a], _ => exact ⟨a, rfl, hitem a mem_cons_self⟩
    | a :: b :: rest, _ =>
      rw [map_cons, map_cons, List.nodup_cons] at hfirst
      refine absurd ?_ hfirst.1
      rw [(hitem a mem_cons_self).slot,
        ← (hitem b (List.mem_cons_of_mem _ mem_cons_self)).slot]
      exact mem_cons_self

omit [LinearOrder N] in
theorem flatten_slots
    (h : List.Forall₂ (fun item chunk => ∃ a, chunk = [a] ∧ ItemAddition item a) items chunks) :
    chunks.flatten.map ImportAddition.slot = items.map itemSlot := by
  induction h with
  | nil => rfl
  | cons hchunk _ ih =>
    obtain ⟨a, rfl, ha⟩ := hchunk
    rw [List.flatten_cons, List.map_append, ih, List.map_singleton, ha.slot]
    rfl

/-- Each item takes a free slot of its own, in a table of its category. -/
structure Registered (items : List (Item N)) (board board' : Board N) : Prop where
  distinct : (items.map itemSlot).Nodup
  free : ∀ item ∈ items, board.Free (itemSlot item).1 (itemSlot item).2
  rest : ∀ ns name, (ns, name) ∉ items.map itemSlot → SameSlot board board' ns name

/-- The item's local name is bound in these tables only. -/
def ItemHeld (item : Item N) (t : SymbolTable) (places : List Place) (board : Board N) : Prop :=
  t.category = item.selection.category ∧
    board.Holds places (localNameAtom item) (.ofVisibility item.visibility)

namespace ModuleResolver

variable {resolver : ModuleResolver N} {target : SourceDagId N} {access : Access}
  {reserved : Namespace → N → Bool}

/-- Where an item is selected: a term is a constructor if the target exports it as one. -/
theorem selective_registered {additions : List (ImportAddition N)}
    (h : resolver.importAdditions path (.selective items) target access role = .ok additions)
    (hscope : entry.scope.addImports reserved entry.symbols additions = .ok scope) :
    Registered items entry.board (ModuleEntry.mk entry.symbols scope).board ∧
      ∀ item ∈ items, ∃ t, ItemHeld item t [.selected t] (ModuleEntry.mk entry.symbols scope).board ∧
        (item.selection.category = .term → ∀ constructor, resolver.exportedSymbolForImport
          .constructor target item.name.name access = .ok (.pub constructor) → t = .constructor) := by
  obtain ⟨chunks, rfl, hchunks⟩ := importAdditions_selective h
  have hadded := addImports_added hscope
  have hsingle := exists_single_additions
    (hchunks.imp fun item chunk hchunk => importItemAdditions_spec hchunk) hadded.distinct
  have hslots := flatten_slots hsingle
  have hmem : ∀ item ∈ items, ∃ a ∈ chunks.flatten, ItemAddition item a ∧
      resolver.importItemAdditions target item access = .ok [a] := by
    clear hadded hslots hscope h
    induction hchunks with
    | nil => exact nofun
    | cons hchunk _ ih =>
      obtain ⟨⟨a, rfl, ha⟩, htail⟩ := List.forall₂_cons.mp hsingle
      intro item hitem
      rcases mem_cons.mp hitem with rfl | hitem
      · exact ⟨a, by simp, ha, hchunk⟩
      · obtain ⟨b, hb, hspec⟩ := ih htail item hitem
        exact ⟨b, by simp [hb], hspec⟩
  refine ⟨⟨hslots ▸ hadded.distinct, fun item hitem => ?_, fun ns name hne => ?_⟩,
    fun item hitem => ?_⟩
  · obtain ⟨a, ha, hspec, -⟩ := hmem item hitem
    rw [← hspec.slot]
    exact hadded.free a ha
  · rw [← hslots] at hne
    exact hadded.rest ns name hne
  · obtain ⟨a, ha, hspec, hadditions⟩ := hmem item hitem
    obtain ⟨t, symbol, htarget, hcategory⟩ := hspec.table
    have hholds := hadded.holds a ha
    rw [htarget, hspec.name, hspec.visibility] at hholds
    refine ⟨t, ⟨hcategory, hholds⟩, fun hterm constructor hconstructor => ?_⟩
    have hadditions : resolver.termImportItemAdditions target item access = .ok [a] := by
      rw [importItemAdditions, hterm] at hadditions
      exact hadditions
    obtain ⟨decl, found, -, hfound, -, heq⟩ := termImportItemAdditions_eq_ok hadditions
    rw [hconstructor] at hfound
    cases hfound
    have hlast : a = itemAddition item .constructor constructor := by
      cases hdecl : decl.public? with
      | none =>
        rw [hdecl] at heq
        simpa [ExportLookup.public?] using heq
      | some symbol =>
        rw [hdecl] at heq
        simp [ExportLookup.public?] at heq
    rw [hlast] at htarget
    cases htarget
    rfl

end ModuleResolver

/-!
# Where the projection of an include leaves its items

An item that was selected stays so, or becomes a declaration of the including module. An index
item bound to something other than a path becomes a declaration and stays selected as well.
-/

open Board

inductive ItemOutcome
  | selected
  | projected
  | doubled
  deriving DecidableEq

def ItemOutcome.places (t : SymbolTable) : ItemOutcome → List Place
  | selected => [.selected t]
  | projected => [.declared t]
  | doubled => [.declared t, .selected t]

def includeOutcome (decl : Include N) (item : Item N) : ItemOutcome :=
  match item.selection.category with
  | .type =>
    if itemBindingPath decl item = none ∧ hasStaticBindings decl then .projected else .selected
  | .dimension =>
    if itemBindingPath decl item = none ∧ hasDimensionBindings decl then .projected else .selected
  | .index =>
    if (itemBinding decl item).isSome ∧ itemBindingPath decl item = none then .doubled
    else .selected
  | .unit | .term => .selected

/-- A name is moved to other places of its slot, and nothing else changes. -/
structure Moved (board board' : Board N) (ns : Namespace) (name : N) (places : List Place)
    (v : BindableVisibility) : Prop where
  holds : board'.Holds places name v
  rest : ∀ ns' name', (ns', name') ≠ (ns, name) → SameSlot board board' ns' name'

variable {board : Board N} {t : SymbolTable} {name : N} {v : BindableVisibility}

section

variable (h : board.Holds [.selected t] name v)

include h

theorem moved_select :
    Moved board (board.put (.selected t) name (some v)) t.namespaceOf name [.selected t] v where
  holds := put_holds (fun q hq hne =>
    h.elsewhere _ mem_cons_self q hq fun hmem => hne (mem_singleton.mp hmem)) v
  rest _ _ hne := put_sameSlot _ _ hne

theorem moved_project :
    Moved board ((board.put (.selected t) name none).put (.declared t) name (some v))
      t.namespaceOf name [.declared t] v where
  holds := put_holds (fun q hq _ => by
    by_cases hqt : q = .selected t
    · exact if_pos ⟨hqt, rfl⟩
    · exact (if_neg fun hq' => hqt hq'.1).trans
        (h.elsewhere _ mem_cons_self q hq fun hmem => hqt (mem_singleton.mp hmem))) v
  rest _ _ hne := (put_sameSlot _ _ hne).trans (put_sameSlot _ _ hne)

theorem moved_double :
    Moved board (board.put (.declared t) name (some v)) t.namespaceOf name
      [.declared t, .selected t] v where
  holds := by
    refine ⟨fun q hq => ?_, fun q hq q' hq' hne => ?_⟩
    · rcases mem_cons.mp hq with rfl | hq
      · exact if_pos ⟨rfl, rfl⟩
      · rw [mem_singleton.mp hq]
        exact (if_neg fun h => nomatch h.1).trans (h.at_place _ mem_cons_self)
    · rw [mem_cons, mem_singleton, not_or] at hne
      have hns : q'.namespaceOf = t.namespaceOf := by
        rw [hq']
        rcases mem_cons.mp hq with rfl | hq
        · rfl
        · rw [mem_singleton.mp hq]
          rfl
      refine (if_neg fun h => hne.1 h.1).trans (h.elsewhere (.selected t) mem_cons_self q' hns ?_)
      exact fun hmem => hne.2 (mem_singleton.mp hmem)
  rest _ _ hne := put_sameSlot _ _ hne

end

/-! ## Updates of one item -/

/-- The update moves a selected item to the places of its outcome. -/
def Fits (decl : Include N) (item : Item N) (t : SymbolTable) (update : StaticUpdate N)
    (entry : ModuleEntry N) : Prop :=
  Moved entry.board (update.apply entry).board t.namespaceOf (localNameAtom item)
    ((includeOutcome decl item).places t) (.ofVisibility item.visibility)

variable {items : List (Item N)}

namespace ModuleResolver

variable {resolver : ModuleResolver N} {owner template : SourceDagId N} {decl : Include N}
  {item : Item N} {update : StaticUpdate N}

theorem selectedUpdate_eq_ok
    (h : resolver.selectedUpdate owner template decl t item = .ok update) :
    ∃ symbol : Symbol N t, update =
      .select t (localNameAtom item) (symbol.rebind (.ofVisibility item.visibility)) := by
  obtain ⟨symbol, -, h⟩ := bind_eq_ok.mp h
  exact ⟨symbol, (Except.ok.inj h).symm⟩

variable {entry : ModuleEntry N}

theorem selectedUpdate_fits
    (h : resolver.selectedUpdate owner template decl t item = .ok update)
    (houtcome : includeOutcome decl item = .selected) (hheld : ItemHeld item t [.selected t] entry.board) :
    Fits decl item t update entry := by
  obtain ⟨symbol, rfl⟩ := selectedUpdate_eq_ok h
  unfold Fits
  rw [houtcome, board_apply]
  exact moved_select hheld.2

theorem typeUpdate_fits (h : resolver.typeUpdate owner template decl item = .ok update)
    (hcategory : item.selection.category = .type)
    (hheld : ItemHeld item .structType [.selected .structType] entry.board) :
    Fits decl item .structType update entry := by
  unfold typeUpdate at h
  split_ifs at h with hprojected
  · obtain ⟨symbols, -, h⟩ := bind_eq_ok.mp h
    split at h
    · cases h
    · cases h
      unfold Fits
      rw [includeOutcome, hcategory, board_apply]
      rw [if_pos hprojected]
      exact moved_project hheld.2
  · refine selectedUpdate_fits h ?_ hheld
    rw [includeOutcome, hcategory]
    exact if_neg hprojected

theorem dimensionUpdate_fits (h : resolver.dimensionUpdate owner template decl item = .ok update)
    (hcategory : item.selection.category = .dimension)
    (hheld : ItemHeld item .dimension [.selected .dimension] entry.board) :
    Fits decl item .dimension update entry := by
  unfold dimensionUpdate at h
  split_ifs at h with hprojected
  · cases h
    unfold Fits
    rw [includeOutcome, hcategory, board_apply]
    rw [if_pos hprojected]
    exact moved_project hheld.2
  · refine selectedUpdate_fits h ?_ hheld
    rw [includeOutcome, hcategory]
    exact if_neg hprojected

theorem indexUpdate_fits (h : resolver.indexUpdate owner template decl item = .ok update)
    (hcategory : item.selection.category = .index)
    (hheld : ItemHeld item .index [.selected .index] entry.board) :
    Fits decl item .index update entry := by
  unfold indexUpdate at h
  split at h
  case h_1 binding hbinding hpath =>
    cases h
    unfold Fits
    rw [includeOutcome, hcategory, board_apply]
    dsimp only
    rw [if_pos ⟨by rw [hbinding]; rfl, hpath⟩]
    exact moved_double hheld.2
  case h_2 hnot =>
    refine selectedUpdate_fits h ?_ hheld
    rw [includeOutcome, hcategory]
    refine if_neg fun ⟨hsome, hpath⟩ => ?_
    obtain ⟨binding, hbinding⟩ := Option.isSome_iff_exists.mp hsome
    exact hnot binding hbinding hpath

/-- A term item that the template exports as a constructor is one already. -/
theorem termUpdate_fits (h : resolver.termUpdate owner template decl items item = .ok update)
    (hentry : resolver.modules.get? owner = some entry)
    (hcategory : item.selection.category = .term)
    (hheld : ItemHeld item t [.selected t] entry.board)
    (hconstructor : ∀ constructor, resolver.exportedSymbolForImport .constructor template
      item.name.name .crossModule = .ok (.pub constructor) → t = .constructor) :
    Fits decl item t update entry := by
  have houtcome : includeOutcome decl item = .selected := by rw [includeOutcome, hcategory]
  obtain ⟨found, hfound, h⟩ := bind_eq_ok.mp h
  unfold Fits
  rw [houtcome]
  cases found with
  | priv =>
    cases h
    exact ⟨hheld.2, fun _ _ _ _ _ => rfl⟩
  | missing =>
    cases h
    exact ⟨hheld.2, fun _ _ _ _ _ => rfl⟩
  | pub constructor =>
    obtain rfl := hconstructor constructor hfound
    dsimp only at h
    split_ifs at h
    obtain ⟨entry', hentry', h⟩ := bind_eq_ok.mp h
    obtain rfl : entry = entry' := by
      rw [ModuleResolver.entry, hentry] at hentry'
      exact Except.ok.inj hentry'
    cases h
    have hvisible := hheld.2.at_place _ mem_cons_self
    have hvisibility : constructorVisibility entry item = .ofVisibility item.visibility := by
      unfold constructorVisibility
      cases hget : (entry.scope.selected .constructor).get? (localNameAtom item) with
      | none => rfl
      | some existing =>
        simpa [ModuleEntry.board, hget] using hvisible
    rw [board_apply, hvisibility]
    exact moved_select hheld.2

/-- Every item is moved to the places of its outcome. -/
theorem itemUpdate_fits (h : resolver.itemUpdate owner template decl items item = .ok update)
    (hentry : resolver.modules.get? owner = some entry)
    (hheld : ItemHeld item t [.selected t] entry.board)
    (hconstructor : item.selection.category = .term → ∀ constructor,
      resolver.exportedSymbolForImport .constructor template item.name.name .crossModule =
        .ok (.pub constructor) → t = .constructor) :
    Fits decl item t update entry := by
  have hcategory := hheld.1
  unfold itemUpdate at h
  split at h
  case h_1 htype =>
    cases t <;> rw [htype] at hcategory <;> cases hcategory
    exact typeUpdate_fits h htype hheld
  case h_2 hdimension =>
    cases t <;> rw [hdimension] at hcategory <;> cases hcategory
    exact dimensionUpdate_fits h hdimension hheld
  case h_3 hindex =>
    cases t <;> rw [hindex] at hcategory <;> cases hcategory
    exact indexUpdate_fits h hindex hheld
  case h_4 hunit =>
    cases t <;> rw [hunit] at hcategory <;> cases hcategory
    refine selectedUpdate_fits h ?_ hheld
    rw [includeOutcome, hunit]
  case h_5 hterm => exact termUpdate_fits h hentry hterm hheld (hconstructor hterm)

end ModuleResolver

end ProvenGraphcal.Resolve
