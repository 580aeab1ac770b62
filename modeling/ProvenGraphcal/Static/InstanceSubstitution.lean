import ProvenGraphcal.Resolve.OneBinding
import ProvenGraphcal.Static.DimensionDefinitions
import ProvenGraphcal.Static.IncludeRequest

/-!
# The substitution that an instance records

The aliases of selected items carry names without categories, and each is looked up as a type in
the template and in the importer. The substitution is the one that the include writes if and only
if no item of another category comes to name a type on both sides.
-/

namespace ProvenGraphcal.Static

open Resolve
open Checked (bind_eq_ok bind_pure_eq_ok distinct_eq_ok exists_ok_of_any forM_eq_ok)

variable {N : Type}

variable {binding : ParamBinding N}

section Authored

variable {α K V : Type}

/-- The port and target of a binding, if it is of the category and resolves. -/
def resolvedBinding (category : InputBindingCategory)
    (extract : N → BindingValue N → Except (IncludeError N) α)
    (resolve : N → α → Except (IncludeError N) (K × V)) (binding : ParamBinding N) :
    Option (K × V) :=
  if binding.category = category then
    (extract binding.name binding.value).toOption.bind fun target =>
      (resolve binding.name target).toOption
  else none

/-- The bindings of a category, as they are authored. -/
def authored (category : InputBindingCategory)
    (extract : N → BindingValue N → Except (IncludeError N) α) (bindings : List (ParamBinding N)) :
    List (N × α) :=
  bindings.filterMap fun binding =>
    if binding.category = category then
      (extract binding.name binding.value).toOption.map (binding.name, ·)
    else none

variable {category : InputBindingCategory}
  {extract : N → BindingValue N → Except (IncludeError N) α}
  {resolve : N → α → Except (IncludeError N) (K × V)} {bindings : List (ParamBinding N)}

theorem resolvedBinding_eq_some {e : K × V} :
    resolvedBinding category extract resolve binding = some e ↔
      binding.category = category ∧ ∃ target, extract binding.name binding.value = .ok target ∧
        resolve binding.name target = .ok e := by
  unfold resolvedBinding
  split_ifs with hcategory
  · rw [Option.bind_eq_some_iff]
    simp only [hcategory, true_and]
    refine exists_congr fun target => and_congr ?_ ?_
    · cases extract binding.name binding.value <;> simp [Except.toOption]
    · cases resolve binding.name target <;> simp [Except.toOption]
  · simp [hcategory]

theorem mem_authored {e : N × α} :
    e ∈ authored category extract bindings ↔ ∃ binding ∈ bindings, binding.category = category ∧
      extract binding.name binding.value = .ok e.2 ∧ e.1 = binding.name := by
  unfold authored
  rw [List.mem_filterMap]
  refine exists_congr fun binding => and_congr_right fun _ => ?_
  split_ifs with hcategory
  · cases hextract : extract binding.name binding.value with
    | error e' => simp [Except.toOption]
    | ok target =>
      obtain ⟨port, target'⟩ := e
      simp [Except.toOption, hcategory, eq_comm, and_comm]
  · simp [hcategory]

theorem foldl_authored_cons {β : Type} (f : β → N × α → β) (init : β) (binding : ParamBinding N) :
    (authored category extract (binding :: bindings)).foldl f init =
      (authored category extract bindings).foldl f
        ((authored category extract [binding]).foldl f init) := by
  rw [← List.foldl_append]
  exact congrArg (List.foldl f init)
    (List.filterMap_append : ([binding] ++ bindings).filterMap _ = _)

end Authored

variable [LinearOrder N]

/-- The bindings of each category are inserted one after another. -/
def Classifies (out : ClassifiedBindings N) (bindings : List (ParamBinding N))
    (next : ClassifiedBindings N) : Prop :=
  next.types = (authored .type extractTypeName bindings).foldl
      (fun m e => m.insert e.1 e.2) out.types ∧
    next.dims = (authored .dimension extractTypeName bindings).foldl
      (fun m e => m.insert e.1 e.2) out.dims ∧
    next.indexes = (authored .index extractIndexBindingTarget bindings).foldl
      (fun m e => m.insert e.1 e.2) out.indexes

section Classification

variable {dep : ModuleInterface N} {out next : ClassifiedBindings N}

theorem classifyParamBinding_eq_ok (h : dep.classifyParamBinding out binding = .ok next) :
    Classifies out [binding] next := by
  unfold ModuleInterface.classifyParamBinding at h
  unfold Classifies
  cases hcategory : binding.category with
  | unmarked =>
    rw [hcategory] at h
    dsimp only at h
    split_ifs at h
    · cases h
      simp [authored, hcategory]
    · split at h <;> cases h
  | type =>
    rw [hcategory] at h
    dsimp only at h
    split_ifs at h
    obtain ⟨target, htarget, rfl⟩ := bind_pure_eq_ok.mp h
    simp [authored, hcategory, htarget, Except.toOption]
  | dimension =>
    rw [hcategory] at h
    dsimp only at h
    split_ifs at h
    obtain ⟨target, htarget, rfl⟩ := bind_pure_eq_ok.mp h
    simp [authored, hcategory, htarget, Except.toOption]
  | index =>
    rw [hcategory] at h
    dsimp only at h
    split_ifs at h
    obtain ⟨target, htarget, rfl⟩ := bind_pure_eq_ok.mp h
    simp [authored, hcategory, htarget, Except.toOption]

theorem classifyParamBindings_eq_ok {bindings : List (ParamBinding N)}
    (h : bindings.foldlM dep.classifyParamBinding out = .ok next) :
    Classifies out bindings next := by
  induction bindings generalizing out with
  | nil =>
    cases h
    exact ⟨rfl, rfl, rfl⟩
  | cons binding rest ih =>
    obtain ⟨mid, hmid, hrest⟩ := bind_eq_ok.mp h
    obtain ⟨htypes, hdims, hindexes⟩ := classifyParamBinding_eq_ok hmid
    obtain ⟨htypes', hdims', hindexes'⟩ := ih hrest
    refine ⟨?_, ?_, ?_⟩
    · rw [foldl_authored_cons, ← htypes, htypes']
    · rw [foldl_authored_cons, ← hdims, hdims']
    · rw [foldl_authored_cons, ← hindexes, hindexes']

end Classification

/-- A map holds the bindings of an include, each port with one of its targets. -/
structure Records {K V : Type} [LinearOrder K] (bound : ParamBinding N → Option (K × V))
    (bindings : List (ParamBinding N)) (m : SortedMap K V) : Prop where
  sound : ∀ k v, m.get? k = some v → ∃ binding ∈ bindings, bound binding = some (k, v)
  complete : ∀ binding ∈ bindings, ∀ k v, bound binding = some (k, v) → m.get? k ≠ none

/-- Resolving the authored bindings records them, where a port's identity is its name's. -/
theorem records_ofList {α K V : Type} [LinearOrder K] {category : InputBindingCategory}
    {extract : N → BindingValue N → Except (IncludeError N) α}
    {resolve : N → α → Except (IncludeError N) (K × V)} {bindings : List (ParamBinding N)}
    (hport : ∀ port target target' e e', resolve port target = .ok e →
      resolve port target' = .ok e' → e.1 = e'.1) {l : List (K × V)}
    (h : (SortedMap.ofList (authored category extract bindings)).entries.mapM
      (fun entry => resolve entry.1 entry.2) = .ok l) :
    Records (resolvedBinding category extract resolve) bindings (.ofList l) := by
  have hresolved := Checked.mapM_eq_ok.mp h
  constructor
  · intro k v hget
    have hmem := SortedMap.mem_of_get?_ofList hget
    obtain ⟨⟨port, target⟩, hentry, hresolve⟩ := Checked.exists_of_forall₂_right hresolved hmem
    have hauthored := SortedMap.mem_of_get?_ofList (SortedMap.get?_eq_some.mpr hentry)
    obtain ⟨binding, hbinding, hcategory, hextract, rfl⟩ := mem_authored.mp hauthored
    exact ⟨binding, hbinding,
      resolvedBinding_eq_some.mpr ⟨hcategory, target, hextract, hresolve⟩⟩
  · intro binding hbinding k v hbound
    obtain ⟨hcategory, target, hextract, hresolve⟩ := resolvedBinding_eq_some.mp hbound
    have hauthored : (binding.name, target) ∈ authored category extract bindings :=
      mem_authored.mpr ⟨binding, hbinding, hcategory, hextract, rfl⟩
    have hkept := SortedMap.get?_ofList_ne_none (List.mem_map_of_mem (f := Prod.fst) hauthored)
    obtain ⟨target', htarget'⟩ := Option.ne_none_iff_exists'.mp hkept
    have hentry := SortedMap.get?_eq_some.mp htarget'
    obtain ⟨e, he, hresolve'⟩ := Checked.exists_of_forall₂_right (List.Forall₂.flip hresolved) hentry
    have hidentity : k = e.1 := hport _ _ _ _ _ hresolve hresolve'
    rw [hidentity]
    exact SortedMap.get?_ofList_ne_none (List.mem_map_of_mem he)

variable [LinearOrder (CanonicalName N)]
variable {e : CanonicalName N × CanonicalName N} {port : N}

namespace IncludeSite

variable (site : IncludeSite N)

omit [LinearOrder (CanonicalName N)] in
theorem structType_fst {target : N} (h : site.structType port target = .ok e) :
    site.port .structType port = .ok e.1 := by
  obtain ⟨identity, hidentity, hrest⟩ := bind_eq_ok.mp h
  obtain ⟨target, -, heq⟩ := bind_eq_ok.mp hrest
  cases heq
  exact hidentity

omit [LinearOrder (CanonicalName N)] in
theorem dimension_fst {target : N} (h : site.dimension port target = .ok e) :
    site.port .dimension port = .ok e.1 := by
  obtain ⟨identity, hidentity, hrest⟩ := bind_eq_ok.mp h
  split at hrest
  · cases hrest
    exact hidentity
  · split at hrest <;> cases hrest
    exact hidentity

omit [LinearOrder (CanonicalName N)] in
theorem index_fst {target : IndexBindingTarget N} {e : CanonicalName N × IndexTarget N}
    (h : site.index port target = .ok e) : site.port .index port = .ok e.1 := by
  obtain ⟨identity, hidentity, hrest⟩ := bind_eq_ok.mp h
  split at hrest
  · obtain ⟨declared, -, heq⟩ := bind_eq_ok.mp hrest
    cases heq
    exact hidentity
  · cases hrest
    exact hidentity

end IncludeSite

def IncludeStaticBindings.substitution (bindings : IncludeStaticBindings N) :
    StaticSubstitution N (ScopeSegment N) :=
  ⟨bindings.indexes.entries, bindings.types.entries, bindings.dimensions.entries⟩

namespace IncludeSite

variable (site : IncludeSite N)

/-- The type that a local name denotes in a module. -/
def localType (owner : SourceDagId N) (name : N) : Option (CanonicalName N) :=
  ((site.resolver.resolveSymbolPath .structType owner ⟨[], name⟩).toOption).map (·.resolved)

/-- The types that an alias names in the template and in the importer. -/
def aliasedTypes (names : ImportAlias N) : Option (CanonicalName N × CanonicalName N) := do
  let source ← site.localType site.template names.original
  let target ← site.localType site.importer names.localName
  return (source, target)

def substitutedTypes (request : IncludeInstanceRequest N) :
    SortedMap (CanonicalName N) (CanonicalName N) :=
  (request.selectiveNames.getD []).foldl (fun types names =>
    match site.aliasedTypes names with
    | some (source, target) => types.insert source target
    | none => types) request.staticBindings.types

/-- The include's own bindings, and every alias that names a type on both sides. -/
def instanceSubstitution (request : IncludeInstanceRequest N) :
    StaticSubstitution N (ScopeSegment N) :=
  { request.staticBindings.substitution with types := (site.substitutedTypes request).entries }

end IncludeSite

def includedItems (decl : Include N) : List (Item N) :=
  match decl.kind with
  | .module _ => []
  | .selective items => items

/-- The same include with only the `type` items selected. -/
def onlyTypeItems (decl : Include N) : Include N :=
  match decl.kind with
  | .module _ => decl
  | .selective items =>
    { decl with kind := .selective (items.filter fun item => item.selection.category = .type) }

/-- The items that have an alias. -/
def aliasedItems (exportsPlot : N → Bool) (decl : Include N) : List (Item N) :=
  (includedItems decl).filter fun item => !isPlot exportsPlot item

def itemAlias (item : Item N) : ImportAlias N := ⟨item.name.name, localNameAtom item⟩

namespace IncludeSite

variable (site : IncludeSite N)

def boundType : ParamBinding N → Option (CanonicalName N × CanonicalName N) :=
  resolvedBinding .type extractTypeName site.structType

def boundDimension : ParamBinding N → Option (CanonicalName N × CanonicalName N) :=
  resolvedBinding .dimension extractTypeName site.dimension

def boundIndex : ParamBinding N → Option (CanonicalName N × IndexTarget N) :=
  resolvedBinding .index extractIndexBindingTarget site.index

/-- A `type` binding or a `type` item of the include gives `source` this target. -/
def AsksFor (decl : Include N) (source target : CanonicalName N) : Prop :=
  (∃ binding ∈ decl.paramBindings, site.boundType binding = some (source, target)) ∨
    ∃ item ∈ includedItems decl, item.selection.category = .type ∧
      site.aliasedTypes (itemAlias item) = some (source, target)

/-- The substitution holds what the include asks for, and the other items change nothing. -/
structure SubstitutesAsked (dep importer : ModuleInterface N) (exportsPlot : N → Bool)
    (decl : Include N) (request : IncludeInstanceRequest N) : Prop where
  types : ∀ source target, (source, target) ∈ (site.instanceSubstitution request).types ↔
    site.AsksFor decl source target
  dimensions : ∀ source target,
    (source, target) ∈ (site.instanceSubstitution request).dimensions ↔
      ∃ binding ∈ decl.paramBindings, site.boundDimension binding = some (source, target)
  indexes : ∀ source target, (source, target) ∈ (site.instanceSubstitution request).indexes ↔
    ∃ binding ∈ decl.paramBindings, site.boundIndex binding = some (source, target)
  otherItems : ∃ request',
    processInclude site dep importer exportsPlot (onlyTypeItems decl) = .ok request' ∧
      site.instanceSubstitution request' = site.instanceSubstitution request

/-- What is asked for is unambiguous. -/
structure AsksOnce (decl : Include N) : Prop where
  types : ∀ source target target', site.AsksFor decl source target →
    site.AsksFor decl source target' → target = target'
  dimensions : ∀ binding ∈ decl.paramBindings, ∀ binding' ∈ decl.paramBindings,
    ∀ source target target', site.boundDimension binding = some (source, target) →
      site.boundDimension binding' = some (source, target') → target = target'
  indexes : ∀ binding ∈ decl.paramBindings, ∀ binding' ∈ decl.paramBindings,
    ∀ source target target', site.boundIndex binding = some (source, target) →
      site.boundIndex binding' = some (source, target') → target = target'

/-- An item of another category that names a type on both sides, with no later item naming the
same type of the template, gives it a target that is asked for. -/
def OthersNameAsked (exportsPlot : N → Bool) (decl : Include N) : Prop :=
  ∀ before item after source target,
    aliasedItems exportsPlot decl = before ++ item :: after →
    item.selection.category ≠ .type →
    site.aliasedTypes (itemAlias item) = some (source, target) →
    (∀ later ∈ after, ∀ target', site.aliasedTypes (itemAlias later) ≠ some (source, target')) →
    site.AsksFor decl source target

end IncludeSite

/-! ## The requests that are processed -/

section Processed

variable {site : IncludeSite N} {dep importer : ModuleInterface N} {exportsPlot : N → Bool}
  {decl : Include N} {request : IncludeInstanceRequest N}

/-- What a request records of its include. -/
structure Processed (site : IncludeSite N) (exportsPlot : N → Bool) (decl : Include N)
    (request : IncludeInstanceRequest N) : Prop where
  aliases : request.selectiveNames.getD [] = (aliasedItems exportsPlot decl).map itemAlias
  types : Records site.boundType decl.paramBindings request.staticBindings.types
  dimensions : Records site.boundDimension decl.paramBindings request.staticBindings.dimensions
  indexes : Records site.boundIndex decl.paramBindings request.staticBindings.indexes

omit [LinearOrder (CanonicalName N)] in
theorem aliasesOf_eq_ok {aliases : Option (List (ImportAlias N))}
    (h : aliasesOf dep exportsPlot decl = .ok aliases) :
    aliases.getD [] = (aliasedItems exportsPlot decl).map itemAlias := by
  obtain ⟨path, bindings, kind⟩ := decl
  cases kind with
  | module alias? =>
    cases h
    rfl
  | selective items =>
    obtain ⟨names, hnames, rfl⟩ := bind_pure_eq_ok.mp h
    obtain ⟨_, -, hrest⟩ := bind_eq_ok.mp hnames
    obtain ⟨_, -, heq⟩ := bind_eq_ok.mp hrest
    cases heq
    rfl

theorem resolve_records {bindings : ClassifiedBindings N} {resolved : IncludeStaticBindings N}
    (hclassified : Classifies ⟨[], .empty, .empty, .empty⟩ decl.paramBindings bindings)
    (h : site.resolve bindings = .ok resolved) :
    Records site.boundType decl.paramBindings resolved.types ∧
      Records site.boundDimension decl.paramBindings resolved.dimensions ∧
      Records site.boundIndex decl.paramBindings resolved.indexes := by
  obtain ⟨htypes, hdims, hindexes⟩ := hclassified
  obtain ⟨indexes, hindexList, h⟩ := bind_eq_ok.mp h
  obtain ⟨types, htypeList, h⟩ := bind_eq_ok.mp h
  obtain ⟨dimensions, hdimList, rfl⟩ := bind_pure_eq_ok.mp h
  rw [htypes] at htypeList
  rw [hdims] at hdimList
  rw [hindexes] at hindexList
  have hfst : ∀ {t : SymbolTable} {port : N} {k k' : CanonicalName N},
      site.port t port = .ok k → site.port t port = .ok k' → k = k' :=
    fun hk hk' => Except.ok.inj (hk.symm.trans hk')
  refine ⟨records_ofList ?_ htypeList, records_ofList ?_ hdimList, records_ofList ?_ hindexList⟩
  · exact fun _ _ _ _ _ h h' => hfst (site.structType_fst h) (site.structType_fst h')
  · exact fun _ _ _ _ _ h h' => hfst (site.dimension_fst h) (site.dimension_fst h')
  · exact fun _ _ _ _ _ h h' => hfst (site.index_fst h) (site.index_fst h')

theorem processInclude_eq_ok (h : processInclude site dep importer exportsPlot decl = .ok request) :
    Processed site exportsPlot decl request := by
  obtain ⟨bindings, hbindings, h⟩ := bind_eq_ok.mp h
  obtain ⟨_, -, h⟩ := bind_eq_ok.mp h
  obtain ⟨aliases, haliases, h⟩ := bind_eq_ok.mp h
  obtain ⟨_, -, h⟩ := bind_eq_ok.mp h
  obtain ⟨_, -, h⟩ := bind_eq_ok.mp h
  obtain ⟨resolved, hresolved, rfl⟩ := bind_pure_eq_ok.mp h
  obtain ⟨htypes, hdimensions, hindexes⟩ :=
    resolve_records (classifyParamBindings_eq_ok hbindings) hresolved
  exact ⟨aliasesOf_eq_ok haliases, htypes, hdimensions, hindexes⟩

omit [LinearOrder (CanonicalName N)] in
/-- Leaving items out leaves a selection valid. -/
theorem selectiveNames_filter {items : List (Item N)} {aliases : List (ImportAlias N)}
    (h : selectiveNames dep exportsPlot items = .ok aliases) (p : Item N → Bool) :
    ∃ aliases', selectiveNames dep exportsPlot (items.filter p) = .ok aliases' := by
  obtain ⟨seen, hseen, h⟩ := bind_eq_ok.mp h
  obtain ⟨u, hselectable, -⟩ := bind_eq_ok.mp h
  obtain ⟨hnodup, hchecks, -⟩ := distinct_eq_ok.mp hseen
  have hunique : validateUniqueIncludeProducers (items.filter p) =
      .ok (items.filter p).reverse :=
    distinct_eq_ok.mpr ⟨hnodup.sublist (List.filter_sublist.map _),
      fun item hitem => hchecks item (List.mem_of_mem_filter hitem), rfl⟩
  have hfiltered : (items.filter p).forM (fun item =>
      dep.ensureIncludeItemSelectable item.name.name item.selection.category) = .ok () :=
    forM_eq_ok.mpr fun item hitem =>
      forM_eq_ok.mp hselectable item (List.mem_of_mem_filter hitem)
  exact ⟨_, bind_eq_ok.mpr ⟨_, hunique, bind_eq_ok.mpr ⟨_, hfiltered, rfl⟩⟩⟩

theorem processInclude_onlyTypeItems
    (h : processInclude site dep importer exportsPlot decl = .ok request) :
    ∃ request', processInclude site dep importer exportsPlot (onlyTypeItems decl) = .ok request' ∧
      request'.staticBindings = request.staticBindings := by
  obtain ⟨bindings, hbindings, h⟩ := bind_eq_ok.mp h
  obtain ⟨_, htargets, h⟩ := bind_eq_ok.mp h
  obtain ⟨aliases, haliases, h⟩ := bind_eq_ok.mp h
  obtain ⟨_, hstatic, h⟩ := bind_eq_ok.mp h
  obtain ⟨_, hparams, h⟩ := bind_eq_ok.mp h
  obtain ⟨resolved, hresolved, rfl⟩ := bind_pure_eq_ok.mp h
  obtain ⟨path, paramBindings, kind⟩ := decl
  have hfiltered : ∃ aliases', aliasesOf dep exportsPlot
      (onlyTypeItems ⟨path, paramBindings, kind⟩) = .ok aliases' := by
    cases kind with
    | module alias? => exact ⟨none, rfl⟩
    | selective items =>
      obtain ⟨names, hnames, -⟩ := bind_eq_ok.mp haliases
      obtain ⟨names', hnames'⟩ := selectiveNames_filter hnames fun item =>
        item.selection.category = .type
      exact ⟨some names', bind_eq_ok.mpr ⟨names', hnames', rfl⟩⟩
  obtain ⟨aliases', haliases'⟩ := hfiltered
  have hparamBindings : (onlyTypeItems ⟨path, paramBindings, kind⟩).paramBindings =
      paramBindings := by
    cases kind <;> rfl
  refine ⟨⟨site.template, resolved, aliases'⟩, ?_, rfl⟩
  unfold processInclude
  rw [hparamBindings]
  refine bind_eq_ok.mpr ⟨bindings, hbindings, bind_eq_ok.mpr ⟨_, htargets, ?_⟩⟩
  refine bind_eq_ok.mpr ⟨aliases', haliases', bind_eq_ok.mpr ⟨_, hstatic, ?_⟩⟩
  exact bind_eq_ok.mpr ⟨_, hparams, bind_eq_ok.mpr ⟨resolved, hresolved, rfl⟩⟩

end Processed

/-! ## When the substitution is what the include asks for -/

omit [LinearOrder N] [LinearOrder (CanonicalName N)] in
/-- A map is the relation that its bindings describe when they agree. -/
theorem Records.mem_iff_agree {K V : Type} [LinearOrder K]
    {bound : ParamBinding N → Option (K × V)} {bindings : List (ParamBinding N)}
    {m : SortedMap K V} (h : Records bound bindings m) :
    (∀ k v, (k, v) ∈ m.entries ↔ ∃ binding ∈ bindings, bound binding = some (k, v)) ↔
      ∀ binding ∈ bindings, ∀ binding' ∈ bindings, ∀ k v v', bound binding = some (k, v) →
        bound binding' = some (k, v') → v = v' := by
  constructor
  · intro hmem binding hbinding binding' hbinding' k v v' hv hv'
    have hget := SortedMap.get?_eq_some.mpr ((hmem k v).mpr ⟨binding, hbinding, hv⟩)
    have hget' := SortedMap.get?_eq_some.mpr ((hmem k v').mpr ⟨binding', hbinding', hv'⟩)
    exact Option.some.inj (hget.symm.trans hget')
  · intro hagree k v
    rw [← SortedMap.get?_eq_some]
    refine ⟨h.sound k v, ?_⟩
    rintro ⟨binding, hbinding, hv⟩
    obtain ⟨v', hv'⟩ := Option.ne_none_iff_exists'.mp (h.complete binding hbinding k v hv)
    obtain ⟨binding', hbinding', hbound⟩ := h.sound k v' hv'
    rw [hv', hagree binding hbinding binding' hbinding' k v v' hv hbound]

variable {source target : CanonicalName N} {item : Item N}

section Exactness

variable {site : IncludeSite N} {exportsPlot : N → Bool} {decl : Include N}
  {request : IncludeInstanceRequest N}

theorem substitutedTypes_eq (hprocessed : Processed site exportsPlot decl request) :
    site.substitutedTypes request =
      ((aliasedItems exportsPlot decl).filterMap fun item =>
        site.aliasedTypes (itemAlias item)).foldl (fun m e => m.insert e.1 e.2)
          request.staticBindings.types := by
  unfold IncludeSite.substitutedTypes
  rw [hprocessed.aliases, List.foldl_map]
  generalize aliasedItems exportsPlot decl = items
  generalize request.staticBindings.types = types
  induction items generalizing types with
  | nil => rfl
  | cons item rest ih =>
    rw [List.foldl_cons, ih, List.filterMap_cons]
    cases site.aliasedTypes (itemAlias item) <;> rfl

/-- The last item that names a type on both sides decides, or else the include's binding. -/
theorem mem_types_iff (hprocessed : Processed site exportsPlot decl request) :
    (source, target) ∈ (site.instanceSubstitution request).types ↔
      (∃ before item after, aliasedItems exportsPlot decl = before ++ item :: after ∧
        site.aliasedTypes (itemAlias item) = some (source, target) ∧
        ∀ later ∈ after, ∀ target', site.aliasedTypes (itemAlias later) ≠ some (source, target')) ∨
      (∀ item ∈ aliasedItems exportsPlot decl, ∀ target',
        site.aliasedTypes (itemAlias item) ≠ some (source, target')) ∧
        request.staticBindings.types.get? source = some target := by
  have hnames : ∀ items : List (Item N),
      source ∉ (items.filterMap fun item => site.aliasedTypes (itemAlias item)).map Prod.fst ↔
        ∀ item ∈ items, ∀ target', site.aliasedTypes (itemAlias item) ≠ some (source, target') := by
    intro items
    rw [List.mem_map]
    constructor
    · intro h item hitem target' hnamed
      exact h ⟨_, List.mem_filterMap.mpr ⟨item, hitem, hnamed⟩, rfl⟩
    · rintro h ⟨⟨k, target'⟩, hmem, rfl⟩
      obtain ⟨item, hitem, hnamed⟩ := List.mem_filterMap.mp hmem
      exact h item hitem target' hnamed
  change (source, target) ∈ (site.substitutedTypes request).entries ↔ _
  rw [← SortedMap.get?_eq_some, substitutedTypes_eq hprocessed, SortedMap.get?_foldl_insert_eq_some,
    hnames]
  refine or_congr_left ?_
  constructor
  · rintro ⟨before, after, hsplit, hafter⟩
    obtain ⟨items, rest, hitems, -, hrest⟩ := List.filterMap_eq_append_iff.mp hsplit
    obtain ⟨skipped, item, later, hlater, hskipped, hitem, hafter'⟩ :=
      List.filterMap_eq_cons_iff.mp hrest
    refine ⟨items ++ skipped, item, later, ?_, hitem, ?_⟩
    · rw [hitems, hlater, List.append_assoc]
    · rw [← hnames, hafter']
      exact hafter
  · rintro ⟨before, item, after, hsplit, hitem, hafter⟩
    rw [hsplit, List.filterMap_append, List.filterMap_cons, hitem]
    exact ⟨_, _, rfl, (hnames after).mpr hafter⟩

omit [LinearOrder N] [LinearOrder (CanonicalName N)] in
theorem mem_aliasedItems (hitem : item ∈ includedItems decl)
    (htype : item.selection.category = .type) : item ∈ aliasedItems exportsPlot decl := by
  refine List.mem_filter.mpr ⟨hitem, ?_⟩
  rw [isPlot, htype]
  rfl

/-- What is recorded is asked for. -/
theorem asksFor_of_mem (hprocessed : Processed site exportsPlot decl request)
    (hothers : site.OthersNameAsked exportsPlot decl)
    (h : (source, target) ∈ (site.instanceSubstitution request).types) :
    site.AsksFor decl source target := by
  rcases (mem_types_iff hprocessed).mp h with ⟨before, item, after, hsplit, hitem, hafter⟩ | ⟨-, hget⟩
  · by_cases htype : item.selection.category = .type
    · have hmem : item ∈ aliasedItems exportsPlot decl := by
        rw [hsplit]
        exact List.mem_append_right _ List.mem_cons_self
      exact .inr ⟨item, List.mem_of_mem_filter hmem, htype, hitem⟩
    · exact hothers before item after source target hsplit htype hitem hafter
  · exact .inl (hprocessed.types.sound source target hget)

/-- A type that a target is asked for has a recorded target. -/
theorem exists_mem_of_asksFor (hprocessed : Processed site exportsPlot decl request)
    (h : site.AsksFor decl source target) :
    ∃ target', (source, target') ∈ (site.instanceSubstitution request).types := by
  have hkey : (site.substitutedTypes request).get? source ≠ none := by
    rw [substitutedTypes_eq hprocessed]
    refine SortedMap.get?_foldl_insert_ne_none ?_
    rcases h with ⟨binding, hbinding, hbound⟩ | ⟨item, hitem, htype, hnamed⟩
    · exact .inr (hprocessed.types.complete binding hbinding source target hbound)
    · have hmem : (source, target) ∈ (aliasedItems exportsPlot decl).filterMap fun item =>
          site.aliasedTypes (itemAlias item) :=
        List.mem_filterMap.mpr ⟨item, mem_aliasedItems hitem htype, hnamed⟩
      exact .inl (List.mem_map_of_mem (f := Prod.fst) hmem)
  obtain ⟨target', htarget'⟩ := Option.ne_none_iff_exists'.mp hkey
  exact ⟨target', SortedMap.get?_eq_some.mp htarget'⟩

theorem types_unique {target' : CanonicalName N}
    (h : (source, target) ∈ (site.instanceSubstitution request).types)
    (h' : (source, target') ∈ (site.instanceSubstitution request).types) : target = target' :=
  Option.some.inj ((SortedMap.get?_eq_some.mpr h).symm.trans (SortedMap.get?_eq_some.mpr h'))

theorem mem_types_iff_asksFor (hprocessed : Processed site exportsPlot decl request) :
    (∀ source target, (source, target) ∈ (site.instanceSubstitution request).types ↔
      site.AsksFor decl source target) ↔
    (∀ source target target', site.AsksFor decl source target →
      site.AsksFor decl source target' → target = target') ∧
      site.OthersNameAsked exportsPlot decl := by
  constructor
  · intro h
    refine ⟨fun source target target' hasked hasked' => ?_, ?_⟩
    · exact types_unique ((h source target).mpr hasked) ((h source target').mpr hasked')
    · intro before item after source target hsplit _ hitem hafter
      exact (h source target).mp
        ((mem_types_iff hprocessed).mpr (.inl ⟨before, item, after, hsplit, hitem, hafter⟩))
  · rintro ⟨honce, hothers⟩ source target
    refine ⟨asksFor_of_mem hprocessed hothers, fun hasked => ?_⟩
    obtain ⟨target', hmem⟩ := exists_mem_of_asksFor hprocessed hasked
    rwa [honce source target target' hasked (asksFor_of_mem hprocessed hothers hmem)]

omit [LinearOrder N] [LinearOrder (CanonicalName N)] in
theorem paramBindings_onlyTypeItems (decl : Include N) :
    (onlyTypeItems decl).paramBindings = decl.paramBindings := by
  obtain ⟨path, bindings, kind⟩ := decl
  cases kind <;> rfl

omit [LinearOrder N] [LinearOrder (CanonicalName N)] in
theorem mem_onlyTypeItems : item ∈ includedItems (onlyTypeItems decl) ↔
    item ∈ includedItems decl ∧ item.selection.category = .type := by
  obtain ⟨path, bindings, kind⟩ := decl
  cases kind with
  | module alias? => simp [onlyTypeItems, includedItems]
  | selective items => simp [onlyTypeItems, includedItems, List.mem_filter]

omit [LinearOrder (CanonicalName N)] in
theorem asksFor_onlyTypeItems :
    site.AsksFor (onlyTypeItems decl) source target ↔ site.AsksFor decl source target := by
  unfold IncludeSite.AsksFor
  rw [paramBindings_onlyTypeItems]
  refine or_congr_right (exists_congr fun item => ?_)
  rw [mem_onlyTypeItems, and_assoc]
  exact and_congr_right fun _ => and_self_left

omit [LinearOrder (CanonicalName N)] in
theorem othersNameAsked_onlyTypeItems :
    site.OthersNameAsked exportsPlot (onlyTypeItems decl) := by
  intro before item after source target hsplit hother
  have hmem : item ∈ aliasedItems exportsPlot (onlyTypeItems decl) := by
    rw [hsplit]
    exact List.mem_append_right _ List.mem_cons_self
  exact absurd (mem_onlyTypeItems.mp (List.mem_of_mem_filter hmem)).2 hother

/-- An include that asks for nothing twice substitutes what it asks for exactly when the items of
other categories name nothing else. -/
theorem instanceSubstitution_asked_iff (site : IncludeSite N) (dep importer : ModuleInterface N)
    (exportsPlot : N → Bool) (decl : Include N) (request : IncludeInstanceRequest N)
    (h : processInclude site dep importer exportsPlot decl = .ok request) :
    site.SubstitutesAsked dep importer exportsPlot decl request ↔
      site.AsksOnce decl ∧ site.OthersNameAsked exportsPlot decl := by
  have hprocessed := processInclude_eq_ok h
  have htypes := mem_types_iff_asksFor hprocessed
  have hdimensions := hprocessed.dimensions.mem_iff_agree
  have hindexes := hprocessed.indexes.mem_iff_agree
  constructor
  · intro hasked
    obtain ⟨honce, hothers⟩ := htypes.mp hasked.types
    exact ⟨⟨honce, hdimensions.mp hasked.dimensions, hindexes.mp hasked.indexes⟩, hothers⟩
  · rintro ⟨honce, hothers⟩
    have hmem := htypes.mpr ⟨honce.types, hothers⟩
    refine ⟨hmem, hdimensions.mpr honce.dimensions, hindexes.mpr honce.indexes, ?_⟩
    obtain ⟨request', hrequest', hbindings⟩ := processInclude_onlyTypeItems h
    refine ⟨request', hrequest', ?_⟩
    have honly : ∀ source target, (source, target) ∈ (site.instanceSubstitution request').types ↔
        site.AsksFor (onlyTypeItems decl) source target := by
      refine (mem_types_iff_asksFor (processInclude_eq_ok hrequest')).mpr
        ⟨fun source target target' hasked hasked' => ?_, othersNameAsked_onlyTypeItems⟩
      exact honce.types source target target' (asksFor_onlyTypeItems.mp hasked)
        (asksFor_onlyTypeItems.mp hasked')
    have hsame : site.substitutedTypes request' = site.substitutedTypes request := by
      refine SortedMap.ext_get? fun source => Option.ext fun target => ?_
      rw [SortedMap.get?_eq_some, SortedMap.get?_eq_some]
      exact (honly source target).trans (asksFor_onlyTypeItems.trans (hmem source target).symm)
    unfold IncludeSite.instanceSubstitution
    rw [hbindings, hsame]

end Exactness

namespace SelectedConstructor

inductive Name
  | pkg
  | main
  | lib
  | shape
  | other
  | mkOther
  | kept
  deriving DecidableEq

instance : LinearOrder Name :=
  LinearOrder.lift' Name.ctorIdx fun a b h => by
    cases a <;> cases b <;> first | rfl | exact absurd h (by decide)

instance : LinearOrder (CanonicalName Name) := nameOrder

/-- `include lib()::{item as local};`, with the category of the item. -/
def selecting (category : ImportItemNamespace) (localName : Name) : Include Name where
  path := rootPath .lib
  paramBindings := []
  kind := .selective [⟨.priv, ⟨.shape, ⟨0, 0⟩⟩, ⟨category, some localName⟩⟩]

/-- `lib` declares a type with a constructor of its name, and `main` a type `other`. -/
def sources (decl : Include Name) : List (SourceDagId Name × List (Resolve.Decl Name)) :=
  [(fileRoot .pkg .lib, [.otherDecl (.type .pub .shape [] (.constructors [.shape]))]),
    (fileRoot .pkg .main, [.otherDecl (.type .priv .other [] (.constructors [.mkOther])),
      .includeDecl decl])]

def spellings : Spellings Name := ⟨fun _ _ => false, fun _ => true⟩

def targets : ModuleTargets Name where
  importTarget _ _ := none
  includeTarget _ path := if path.key = [.lib] then some (fileRoot .pkg .lib) else none

def interface (exported : Name) : ModuleInterface Name where
  declaresParam _ := false
  nonParamKind _ := none
  staticRole kind name := if kind = .type ∧ name = exported then some .fixed else none
  staticOrder := [(.type, exported)]
  exposure name category :=
    if name = exported ∧ (category = .type ∨ category = .term) then some .explicitExport else none
  requiredParams := []

def site (resolver : ModuleResolver Name) : IncludeSite Name :=
  ⟨resolver, fun _ => none, fileRoot .pkg .lib, fileRoot .pkg .main⟩

def process (resolver : ModuleResolver Name) (decl : Include Name) :
    Except (IncludeError Name) (IncludeInstanceRequest Name) :=
  processInclude (site resolver) (interface .shape) (interface .other) (fun _ => false) decl

/-- Selecting the constructor of `shape` as `other` retypes the instance's `shape`. -/
theorem constructor_retypes : ∃ resolver request,
    ModuleResolver.build spellings targets (sources (selecting .term .other)) = .ok resolver ∧
      process resolver (selecting .term .other) = .ok request ∧
      ¬ (site resolver).SubstitutesAsked (interface .shape) (interface .other) (fun _ => false)
        (selecting .term .other) request := by
  obtain ⟨resolver, hbuild, hprocess⟩ := exists_ok_of_any
    (x := ModuleResolver.build spellings targets (sources (selecting .term .other)))
    (p := fun resolver => (process resolver (selecting .term .other)).toOption.any fun request =>
      decide ((⟨fileRoot .pkg .lib, .shape⟩, ⟨fileRoot .pkg .main, .other⟩) ∈
        ((site resolver).instanceSubstitution request).types)) (by decide +kernel)
  obtain ⟨request, hrequest, hmem⟩ := exists_ok_of_any hprocess
  refine ⟨resolver, request, hbuild, hrequest, fun hasked => ?_⟩
  rcases (hasked.types _ _).mp (of_decide_eq_true hmem) with ⟨binding, hbinding, -⟩ | hselected
  · cases hbinding
  · obtain ⟨item, hitem, htype, -⟩ := hselected
    cases List.mem_singleton.mp hitem
    cases htype

/-- Selecting the type maps it to what its local name denotes. -/
theorem type_kept : ∃ resolver request,
    ModuleResolver.build spellings targets (sources (selecting .type .kept)) = .ok resolver ∧
      process resolver (selecting .type .kept) = .ok request ∧
      (site resolver).SubstitutesAsked (interface .shape) (interface .other) (fun _ => false)
        (selecting .type .kept) request := by
  obtain ⟨resolver, hbuild, hprocess⟩ := exists_ok_of_any
    (x := ModuleResolver.build spellings targets (sources (selecting .type .kept)))
    (p := fun resolver => (process resolver (selecting .type .kept)).toOption.any fun _ => true)
    (by decide +kernel)
  obtain ⟨request, hrequest, -⟩ := exists_ok_of_any hprocess
  refine ⟨resolver, request, hbuild, hrequest,
    (instanceSubstitution_asked_iff _ _ _ _ _ _ hrequest).mpr ⟨⟨?_, nofun, nofun⟩, ?_⟩⟩
  · rintro source target target' (⟨binding, hbinding, -⟩ | ⟨item, hitem, -, hnamed⟩)
      (⟨binding', hbinding', -⟩ | ⟨item', hitem', -, hnamed'⟩)
    · cases hbinding
    · cases hbinding
    · cases hbinding'
    · cases List.mem_singleton.mp hitem
      cases List.mem_singleton.mp hitem'
      exact (Prod.ext_iff.mp (Option.some.inj (hnamed.symm.trans hnamed'))).2
  · intro before item after source target hsplit hother
    have hmem : item ∈ aliasedItems (fun _ => false) (selecting .type .kept) := by
      rw [hsplit]
      exact List.mem_append_right _ List.mem_cons_self
    cases List.mem_singleton.mp (List.mem_of_mem_filter hmem)
    exact absurd rfl hother

end SelectedConstructor

end ProvenGraphcal.Static
