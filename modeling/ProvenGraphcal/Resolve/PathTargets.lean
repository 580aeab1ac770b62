import ProvenGraphcal.Resolve.PathVisibility

/-!
# What a path can depend on

A path through an alias stays on public aliases, public inline DAGs and a public binding. So it
keeps its target as long as the public names and aliases of the other modules keep theirs.
-/

namespace ProvenGraphcal.Resolve

open Checked (bind_eq_ok exists_ok_of_any)
open Option (bind_some filter_some map_some)

variable {N : Type} [LinearOrder N]

open ModuleResolver

/-- Each inline module is the body of a `dag` that its parent declares. -/
def DagsDeclared (sources : List (SourceDagId N × List (Decl N))) : Prop :=
  ∀ m body, (m, body) ∈ sources → ∀ name, m.leaf = .inlineDag name →
    ∃ parent declarations visibility, m.parent = some parent ∧
      (parent, declarations) ∈ sources ∧ .dagDecl visibility name body ∈ declarations

omit [LinearOrder N] in
theorem Reached.leaf {includes : SourceDagId N → Include N → SourceDagId N → Prop}
    {base template inst t : SourceDagId N} (h : Reached includes base template inst t) :
    ∃ scope, inst.leaf = .instance scope := by
  cases h with
  | direct h => exact ⟨_, DagId.leaf_instanceChild _ _⟩
  | within _ h => exact ⟨_, DagId.leaf_instanceChild _ _⟩

variable {entry : ModuleEntry N} {name : N} {m : SourceDagId N}

section Levels

variable {targets : ModuleTargets N} {sources : List (SourceDagId N × List (Decl N))}
  {tables : SymbolTables N} {builder : ScopeBuilder N} {resolver : ModuleResolver N}

theorem dagSymbol_of_declared (hcollects : Collects sources tables)
    (hfrozen : FrozenFrom tables builder resolver) {declarations : List (Decl N)}
    (hsource : (m, declarations) ∈ sources) {visibility : Visibility} {body : List (Decl N)}
    (hdag : .dagDecl visibility name body ∈ declarations) :
    resolver.dagSymbol m name ≠ none := by
  obtain ⟨module, hmodule, rfl⟩ := (hcollects.mem m declarations).mp hsource
  obtain ⟨entry, hentry, -, hkept⟩ := hfrozen.source m module hmodule
  obtain ⟨symbol, hsymbol, hdata⟩ := ModuleSymbols.collectFrom_dag
    (List.append_eq_nil_iff.mp (hcollects.accepted m module hmodule)).1 hdag
  have hget : (entry.symbols.tables .decl).get? name = some symbol := by
    rw [hkept.tables .decl (by decide), hcollects.entry m module hmodule]
    exact hsymbol
  rw [dagSymbol, hentry, bind_some, hget, filter_some, if_pos (decide_eq_true hdata)]
  exact Option.some_ne_none symbol

theorem ModuleResolver.LevelsPublic.toRoot (hdeclared : DagsDeclared sources)
    (hcollects : Collects sources tables) (hfrozen : FrozenFrom tables builder resolver)
    (h : resolver.LevelsPublic m) (hsource : ∃ declarations, (m, declarations) ∈ sources) :
    resolver.PublicToRoot m := by
  induction h with
  | @top m hundeclared =>
    refine .root fun name hleaf => ?_
    obtain ⟨body, hbody⟩ := hsource
    obtain ⟨parent, siblings, visibility, hparent, hsiblings, hdag⟩ := hdeclared m body hbody name hleaf
    exact dagSymbol_of_declared hcollects hfrozen hsiblings hdag (hundeclared name parent hleaf hparent)
  | @level m parent name symbol hleaf hparent hdag hpublic _ ih =>
    obtain ⟨body, hbody⟩ := hsource
    obtain ⟨parent', siblings, -, hparent', hsiblings, -⟩ := hdeclared m body hbody name hleaf
    cases hparent.symm.trans hparent'
    exact .level hleaf hparent hdag hpublic (ih ⟨siblings, hsiblings⟩)

theorem levelsPublic_toRoot (hdeclared : DagsDeclared sources) (hcollects : Collects sources tables)
    (hconnected : Connected targets tables builder) (hfrozen : FrozenFrom tables builder resolver)
    (hentry : resolver.modules.get? m = some entry) (h : resolver.LevelsPublic m) :
    resolver.PublicToRoot m := by
  rcases hfrozen.known m entry hentry with hsource | ⟨template, hinst⟩
  · obtain ⟨module, hmodule⟩ := Option.ne_none_iff_exists'.mp hsource
    exact h.toRoot hdeclared hcollects hfrozen
      ⟨module.declarations, (hcollects.mem m _).mpr ⟨module, hmodule, rfl⟩⟩
  · obtain ⟨root, -, hreached⟩ := (hconnected.instances m template).mp hinst
    obtain ⟨scope, hleaf⟩ := hreached.leaf
    exact .root fun name hname => nomatch hleaf.symm.trans hname

end Levels

/-- Paths through an alias go through public aliases and DAGs only, and symbols are public. -/
structure PathsStayPublic (resolver : ModuleResolver N) : Prop where
  symbols : ∀ (t : SymbolTable) (owner : SourceDagId N) (head leaf : N) (rest : List N)
    (symbol : Symbol N t), resolver.resolveSymbolPath t owner ⟨head :: rest, leaf⟩ = .ok symbol →
    ∃ entry final found, resolver.modules.get? owner = some entry ∧
      QualifiedRoute resolver resolver.PublicToRoot entry head rest final ∧
      resolver.modules.get? final = some found ∧ visibleSymbol t found leaf = some symbol ∧
      symbol.visibility.isPublic = true
  modules : ∀ (owner target : SourceDagId N) (head : N) (rest : List N),
    resolver.localDag owner head = none → resolver.resolveModulePath owner head rest = .ok target →
    ∃ entry start, resolver.modules.get? owner = some entry ∧ CallableHead entry head start ∧
      (∀ found, resolver.modules.get? start = some found → resolver.PublicToRoot start) ∧
      resolver.DagRoute resolver.PublicToRoot start rest target

/-! ## Two resolvers -/

/-- What a module publishes under a name. -/
def publicBinding (resolver : ModuleResolver N) (m : SourceDagId N) (t : SymbolTable) (name : N) :
    Option (ResolvedName N (ScopeSegment N)) :=
  (((resolver.modules.get? m).bind fun entry => visibleSymbol t entry name).filter
    fun symbol => symbol.visibility.isPublic).map (·.resolved)

/-- The target of a module's public alias. -/
def publicAlias (resolver : ModuleResolver N) (m : SourceDagId N) (name : N) :
    Option (SourceDagId N) :=
  (((resolver.modules.get? m).bind fun entry => entry.scope.moduleAliases.get? name).filter
    fun binding => binding.visibility.isPublic).map (·.target)

/-- What a module publishes denotes the same in two resolvers. -/
structure PublishesSame (resolver resolver' : ModuleResolver N) (m : SourceDagId N) : Prop where
  bindings : ∀ t name, publicBinding resolver' m t name = publicBinding resolver m t name
  aliases : ∀ name, publicAlias resolver' m name = publicAlias resolver m name

/-- What a bare name denotes in a module. -/
def nameTarget (resolver : ModuleResolver N) (m : SourceDagId N) (t : SymbolTable) (name : N) :
    Option (ResolvedName N (ScopeSegment N)) :=
  ((resolver.modules.get? m).bind fun entry => visibleSymbol t entry name).map (·.resolved)

def aliasTarget (resolver : ModuleResolver N) (m : SourceDagId N) (name : N) :
    Option (SourceDagId N) :=
  ((resolver.modules.get? m).bind fun entry => entry.scope.moduleAliases.get? name).map (·.target)

/-- The DAGs that the head of a call path may name. -/
def callTargets (resolver : ModuleResolver N) (m : SourceDagId N) (head : N) :
    Option (List (SourceDagId N)) :=
  (resolver.modules.get? m).map fun entry =>
    (resolver.callCandidates m entry.scope head).map Prod.fst

/-- The names in the scope of a module denote the same in two resolvers. -/
structure SameScope (resolver resolver' : ModuleResolver N) (m : SourceDagId N) : Prop where
  names : ∀ t name, nameTarget resolver' m t name = nameTarget resolver m t name
  aliases : ∀ name, aliasTarget resolver' m name = aliasTarget resolver m name
  calls : ∀ head, callTargets resolver' m head = callTargets resolver m head

/-- Every path that resolves in the module in both resolvers has one target. -/
structure SameTargets (resolver resolver' : ModuleResolver N) (owner : SourceDagId N) : Prop where
  symbols : ∀ (t : SymbolTable) (path : NamePath N) (symbol symbol' : Symbol N t),
    resolver.resolveSymbolPath t owner path = .ok symbol →
    resolver'.resolveSymbolPath t owner path = .ok symbol' → symbol'.resolved = symbol.resolved
  modules : ∀ (head : N) (rest : List N) (target target' : SourceDagId N),
    resolver.resolveModulePath owner head rest = .ok target →
    resolver'.resolveModulePath owner head rest = .ok target' → target' = target

variable {rest : List N} {head : N} {owner : SourceDagId N} {t : SymbolTable}

section Two

variable {resolver resolver' : ModuleResolver N}
variable {binding : ModuleAliasTarget N}

theorem publicAlias_of_some (hentry : resolver.modules.get? m = some entry)
    (hbinding : entry.scope.moduleAliases.get? name = some binding)
    (hpublic : binding.visibility.isPublic = true) :
    publicAlias resolver m name = some binding.target := by
  rw [publicAlias, hentry, bind_some, hbinding, filter_some, if_pos hpublic,
    map_some]

theorem publicAlias_of_none (hentry : resolver.modules.get? m = some entry)
    (hnone : entry.scope.moduleAliases.get? name = none) :
    publicAlias resolver m name = none := by
  rw [publicAlias, hentry, bind_some, hnone, Option.filter_none, Option.map_none]

theorem publishesSame_of_unknown (h : m ∉ resolver.modules.keys) (h' : m ∉ resolver'.modules.keys) :
    PublishesSame resolver resolver' m := by
  rw [InsertionMap.mem_keys, not_exists, ← Option.eq_none_iff_forall_ne_some] at h h'
  refine ⟨fun t name => ?_, fun name => ?_⟩
  · rw [publicBinding, publicBinding, h, h']
  · rw [publicAlias, publicAlias, h, h']

theorem publicBinding_of_some {symbol : Symbol N t} (hentry : resolver.modules.get? m = some entry)
    (hsymbol : visibleSymbol t entry name = some symbol)
    (hpublic : symbol.visibility.isPublic = true) :
    publicBinding resolver m t name = some symbol.resolved := by
  rw [publicBinding, hentry, bind_some, hsymbol, filter_some, if_pos hpublic,
    map_some]

theorem ModuleResolver.PublicRoute.same_final (hsame : ∀ m, PublishesSame resolver resolver' m)
    {visible visible' : SourceDagId N → Prop} {final final' : SourceDagId N}
    (h : resolver.PublicRoute visible m rest final)
    (h' : resolver'.PublicRoute visible' m rest final') : final' = final := by
  induction h generalizing final' with
  | here =>
    cases h'
    rfl
  | @nestedAlias m final entry segment rest binding hentry hbinding hpublic _ _ ih =>
    have halias := publicAlias_of_some hentry hbinding hpublic
    rw [← (hsame m).aliases] at halias
    cases h' with
    | nestedAlias hentry' hbinding' hpublic' _ hrest' =>
      rw [publicAlias_of_some hentry' hbinding' hpublic'] at halias
      exact ih (Option.some.inj halias ▸ hrest')
    | inlineDag hentry' hnone' => cases halias.symm.trans (publicAlias_of_none hentry' hnone')
  | @inlineDag m final entry segment rest hentry hnone _ _ ih =>
    have halias := publicAlias_of_none hentry hnone
    rw [← (hsame m).aliases] at halias
    cases h' with
    | nestedAlias hentry' hbinding' hpublic' =>
      cases halias.symm.trans (publicAlias_of_some hentry' hbinding' hpublic')
    | inlineDag _ _ _ hrest' => exact ih hrest'

theorem resolveSymbolPath_bare {leaf : N} {symbol : Symbol N t}
    (h : resolver.resolveSymbolPath t owner ⟨[], leaf⟩ = .ok symbol) :
    ∃ entry, resolver.modules.get? owner = some entry ∧ visibleSymbol t entry leaf = some symbol := by
  obtain ⟨entry, hentry, h⟩ := bind_eq_ok.mp h
  rw [entry_eq_ok] at hentry
  refine ⟨entry, hentry, ?_⟩
  cases hvisible : visibleSymbol t entry leaf with
  | none =>
    rw [hvisible] at h
    obtain ⟨e, -, h⟩ := bind_eq_ok.mp h
    cases h
  | some symbol' =>
    rw [hvisible] at h
    cases h
    rfl

theorem nameTarget_of_some {symbol : Symbol N t} (hentry : resolver.modules.get? m = some entry)
    (hsymbol : visibleSymbol t entry name = some symbol) :
    nameTarget resolver m t name = some symbol.resolved := by
  rw [nameTarget, hentry, bind_some, hsymbol, map_some]

theorem aliasTarget_of_some (hentry : resolver.modules.get? m = some entry)
    (hbinding : entry.scope.moduleAliases.get? name = some binding) :
    aliasTarget resolver m name = some binding.target := by
  rw [aliasTarget, hentry, bind_some, hbinding, map_some]

theorem resolveSymbolPath_same (hcross : AliasesCross resolver) (hcross' : AliasesCross resolver')
    (hsame : ∀ m, PublishesSame resolver resolver' m) (howner : SameScope resolver resolver' owner)
    {path : NamePath N} {symbol symbol' : Symbol N t}
    (h : resolver.resolveSymbolPath t owner path = .ok symbol)
    (h' : resolver'.resolveSymbolPath t owner path = .ok symbol') :
    symbol'.resolved = symbol.resolved := by
  obtain ⟨qualifier, leaf⟩ := path
  cases qualifier with
  | nil =>
    obtain ⟨entry, hentry, hsymbol⟩ := resolveSymbolPath_bare h
    obtain ⟨entry', hentry', hsymbol'⟩ := resolveSymbolPath_bare h'
    have hnames := howner.names t leaf
    rw [nameTarget_of_some hentry hsymbol, nameTarget_of_some hentry' hsymbol'] at hnames
    exact Option.some.inj hnames
  | cons head rest =>
    obtain ⟨entry, final, found, hentry, ⟨binding, hbinding, -, hroute⟩, hfound, hvisible, hpublic⟩ :=
      resolveSymbolPath_qualified hcross h
    obtain ⟨entry', final', found', hentry', ⟨binding', hbinding', -, hroute'⟩, hfound', hvisible',
      hpublic'⟩ := resolveSymbolPath_qualified hcross' h'
    have haliases := howner.aliases head
    rw [aliasTarget_of_some hentry hbinding, aliasTarget_of_some hentry' hbinding'] at haliases
    obtain rfl := hroute.same_final hsame (Option.some.inj haliases ▸ hroute')
    have hpublished := publicBinding_of_some hfound hvisible hpublic
    rw [← (hsame final').bindings, publicBinding_of_some hfound' hvisible' hpublic'] at hpublished
    exact Option.some.inj hpublished

theorem descendDags_eq_ok {access : Access} {final : SourceDagId N}
    (h : resolver.descendDags access m rest = .ok final) :
    final = rest.foldl DagId.inlineDagChild m := by
  induction rest generalizing m with
  | nil => exact (Except.ok.inj h).symm
  | cons segment rest ih =>
    unfold descendDags at h
    dsimp only at h
    split_ifs at h with hknown
    · obtain ⟨_, -, h⟩ := bind_eq_ok.mp h
      exact ih h
    · cases h

theorem resolveModulePath_eq_ok {target : SourceDagId N}
    (h : resolver.resolveModulePath owner head rest = .ok target) :
    ∃ entry start access, resolver.modules.get? owner = some entry ∧
      resolver.callCandidates owner entry.scope head = [(start, access)] ∧
      target = rest.foldl DagId.inlineDagChild start := by
  obtain ⟨scope, hscope, h⟩ := bind_eq_ok.mp h
  obtain ⟨entry, hentry, rfl⟩ := moduleScope_eq_ok.mp hscope
  split at h
  case h_1 start access hcandidates =>
    obtain ⟨_, -, h⟩ := bind_eq_ok.mp h
    exact ⟨entry, start, access, hentry, hcandidates, descendDags_eq_ok h⟩
  case h_2 => split_ifs at h
  case h_3 => cases h

theorem resolveModulePath_same (hsame : SameScope resolver resolver' owner)
    {target target' : SourceDagId N} (h : resolver.resolveModulePath owner head rest = .ok target)
    (h' : resolver'.resolveModulePath owner head rest = .ok target') : target' = target := by
  obtain ⟨entry, start, access, hentry, hstart, rfl⟩ := resolveModulePath_eq_ok h
  obtain ⟨entry', start', access', hentry', hstart', rfl⟩ := resolveModulePath_eq_ok h'
  have hcalls := hsame.calls head
  rw [callTargets, callTargets, hentry, hentry', map_some, map_some, hstart, hstart']
    at hcalls
  cases hcalls
  rfl

end Two

theorem pathsStayPublic {targets : ModuleTargets N} {sources : List (SourceDagId N × List (Decl N))}
    {tables : SymbolTables N} {builder : ScopeBuilder N} {resolver : ModuleResolver N}
    (hdeclared : DagsDeclared sources) (hcollects : Collects sources tables)
    (hconnected : Connected targets tables builder) (hfrozen : FrozenFrom tables builder resolver)
    (hcross : AliasesCross resolver) : PathsStayPublic resolver := by
  have hroot : ∀ m entry, resolver.modules.get? m = some entry → resolver.LevelsPublic m →
      resolver.PublicToRoot m :=
    fun m entry hentry hlevels => levelsPublic_toRoot hdeclared hcollects hconnected hfrozen hentry hlevels
  constructor
  · intro t owner head leaf rest symbol h
    obtain ⟨entry, final, found, hentry, ⟨binding, hbinding, hvisible, hroute⟩, hfound, hsymbol⟩ :=
      resolveSymbolPath_qualified hcross h
    obtain ⟨known, hknown⟩ := hroute.known
    exact ⟨entry, final, found, hentry, ⟨binding, hbinding, hroot _ known hknown hvisible,
      hroute.imp hroot⟩, hfound, hsymbol⟩
  · intro owner target head rest hlocal h
    obtain ⟨entry, start, hentry, hhead, hlevels, hroute⟩ := resolveModulePath_route hcross hlocal h
    exact ⟨entry, start, hentry, hhead, fun found hfound => hroot start found hfound hlevels,
      hroute.imp hroot⟩

/-- Paths stay on what is public, and depend on nothing else of other modules. -/
theorem build_pathTargets (spellings : Spellings N) (targets : ModuleTargets N)
    (sources : List (SourceDagId N × List (Decl N))) (resolver : ModuleResolver N)
    (h : ModuleResolver.build spellings targets sources = .ok resolver)
    (hdeclared : DagsDeclared sources) :
    PathsStayPublic resolver ∧
      ∀ (spellings' : Spellings N) (targets' : ModuleTargets N)
        (sources' : List (SourceDagId N × List (Decl N))) (resolver' : ModuleResolver N),
        ModuleResolver.build spellings' targets' sources' = .ok resolver' →
        (∀ m, PublishesSame resolver resolver' m) →
        ∀ owner, SameScope resolver resolver' owner → SameTargets resolver resolver' owner := by
  obtain ⟨tables, builder, hcollects, hconnected, hfrozen⟩ := build_frozen h
  refine ⟨pathsStayPublic hdeclared hcollects hconnected hfrozen (build_aliasesCross h), ?_⟩
  intro spellings' targets' sources' resolver' h' hsame owner howner
  refine ⟨fun t path symbol symbol' hsymbol hsymbol' => ?_,
    fun head rest target target' htarget htarget' => ?_⟩
  · exact resolveSymbolPath_same (build_aliasesCross h) (build_aliasesCross h') hsame howner hsymbol
      hsymbol'
  · exact resolveModulePath_same howner htarget htarget'

namespace PrivateBinding

inductive Name
  | pkg
  | main
  | mid
  | tmpl
  | other
  | port
  | item
  | thing
  | shown
  | hidden
  deriving DecidableEq

instance : LinearOrder Name :=
  LinearOrder.lift' Name.ctorIdx fun a b h => by
    cases a <;> cases b <;> first | rfl | exact absurd h (by decide)

/-- `include tmpl(type port: item)::{pub type port as shown};` -/
def binding : Include Name where
  path := rootPath .tmpl
  paramBindings := [⟨.type, .port, .path ⟨[], .item⟩⟩]
  kind := .selective [⟨.pub, ⟨.port, ⟨0, 0⟩⟩, ⟨.type, some .shown⟩⟩]

/-- `main` imports `mid`, and `shown` from it; `mid` has other declarations than the include. -/
def sources (privates : List (Decl Name)) : List (SourceDagId Name × List (Decl Name)) :=
  [(fileRoot .pkg .other, [.otherDecl (.type .pub .thing [] (.constructors []))]),
    (fileRoot .pkg .tmpl, [.otherDecl (.type .publicBind .port [] .required)]),
    (fileRoot .pkg .mid, privates ++ [.includeDecl binding]),
    (fileRoot .pkg .main, [.importDecl (.module .priv (rootPath .mid) none),
      .importDecl (.selective (rootPath .mid) [⟨.priv, ⟨.shown, ⟨0, 0⟩⟩, ⟨.type, none⟩⟩])])]

/-- `type item;` -/
def declared : Decl Name := .otherDecl (.type .priv .item [] (.constructors []))

/-- `import other::{type thing as item};` -/
def imported : Decl Name :=
  .importDecl (.selective (rootPath .other)
    [⟨.priv, ⟨.thing, ⟨0, 0⟩⟩, ⟨.type, some .item⟩⟩])

def spellings : Spellings Name := ⟨fun _ _ => false, fun _ => true⟩

def fileOf (path : ModulePath Name) : Option (SourceDagId Name) :=
  if path.key = [.other] then some (fileRoot .pkg .other)
  else if path.key = [.tmpl] then some (fileRoot .pkg .tmpl)
  else if path.key = [.mid] then some (fileRoot .pkg .mid) else none

def targets : ModuleTargets Name := ⟨fun _ => fileOf, fun _ => fileOf⟩

/-- The path `mid::shown` denotes what the private name `item` of `mid` does. -/
theorem private_retargets : ∃ resolver resolver',
    ModuleResolver.build spellings targets (sources [declared]) = .ok resolver ∧
      ModuleResolver.build spellings targets (sources [imported]) = .ok resolver' ∧
      ∃ symbol symbol',
        resolver.resolveSymbolPath .structType (fileRoot .pkg .main) ⟨[.mid], .shown⟩ = .ok symbol ∧
        resolver'.resolveSymbolPath .structType (fileRoot .pkg .main) ⟨[.mid], .shown⟩ =
          .ok symbol' ∧ symbol'.resolved ≠ symbol.resolved := by
  have hpath : ∀ (privates : List (Decl Name)) (file : Name),
      (ModuleResolver.build spellings targets (sources privates)).toOption.any (fun resolver =>
        (resolver.resolveSymbolPath .structType (fileRoot .pkg .main) ⟨[.mid], .shown⟩).toOption.any
          fun symbol => symbol.resolved.owner = fileRoot .pkg file) = true →
      ∃ resolver symbol, ModuleResolver.build spellings targets (sources privates) = .ok resolver ∧
        resolver.resolveSymbolPath .structType (fileRoot .pkg .main) ⟨[.mid], .shown⟩ = .ok symbol ∧
        symbol.resolved.owner = fileRoot .pkg file := by
    intro privates file h
    obtain ⟨resolver, hbuild, h⟩ := exists_ok_of_any h
    obtain ⟨symbol, hsymbol, h⟩ := exists_ok_of_any h
    exact ⟨resolver, symbol, hbuild, hsymbol, of_decide_eq_true h⟩
  obtain ⟨resolver, symbol, hbuild, hsymbol, howner⟩ := hpath [declared] .mid (by decide +kernel)
  obtain ⟨resolver', symbol', hbuild', hsymbol', howner'⟩ := hpath [imported] .other (by decide +kernel)
  refine ⟨resolver, resolver', hbuild, hbuild', symbol, symbol', hsymbol, hsymbol', fun heq => ?_⟩
  rw [heq, howner] at howner'
  exact absurd howner' (by decide)

/-- A private type that nothing in `mid` uses. -/
def unused : Decl Name := .otherDecl (.type .priv .hidden [] (.constructors []))

def names : List Name :=
  [.pkg, .main, .mid, .tmpl, .other, .port, .item, .thing, .shown, .hidden]

theorem mem_names (name : Name) : name ∈ names := by
  cases name <;> decide

theorem dagsDeclared (privates : List (Decl Name)) : DagsDeclared (sources privates) := by
  intro m body hsource name hleaf
  have hfile : ∃ file, m = fileRoot .pkg file := by
    simp only [sources, List.mem_cons, List.not_mem_nil, or_false, Prod.mk.injEq] at hsource
    rcases hsource with ⟨rfl, -⟩ | ⟨rfl, -⟩ | ⟨rfl, -⟩ | ⟨rfl, -⟩ <;> exact ⟨_, rfl⟩
  obtain ⟨file, rfl⟩ := hfile
  cases hleaf

/-- Both resolvers publish the same in their modules, and `main` has the same names. -/
def agree (resolver resolver' : ModuleResolver Name) : Bool :=
  (resolver.modules.keys ++ resolver'.modules.keys).all (fun m => names.all fun name =>
    decide (publicAlias resolver' m name = publicAlias resolver m name) &&
      ModuleEntry.exportedTables.all fun t =>
        decide (publicBinding resolver' m t name = publicBinding resolver m t name)) &&
  names.all fun name =>
    decide (aliasTarget resolver' (fileRoot .pkg .main) name =
      aliasTarget resolver (fileRoot .pkg .main) name) &&
    decide (callTargets resolver' (fileRoot .pkg .main) name =
      callTargets resolver (fileRoot .pkg .main) name) &&
    ModuleEntry.exportedTables.all fun t =>
      decide (nameTarget resolver' (fileRoot .pkg .main) t name =
        nameTarget resolver (fileRoot .pkg .main) t name)

variable {resolver resolver' : ModuleResolver Name}

theorem publishesSame_of_agree (h : agree resolver resolver' = true) (m : SourceDagId Name) :
    PublishesSame resolver resolver' m := by
  have hmodules := (Bool.and_eq_true _ _ ▸ h).1
  by_cases hm : m ∈ resolver.modules.keys ++ resolver'.modules.keys
  · have hnames := List.all_eq_true.mp hmodules m hm
    refine ⟨fun t name => ?_, fun name => ?_⟩
    · have hname := (Bool.and_eq_true _ _ ▸ List.all_eq_true.mp hnames name (mem_names name)).2
      exact of_decide_eq_true (List.all_eq_true.mp hname t (by cases t <;> decide))
    · have hname := (Bool.and_eq_true _ _ ▸ List.all_eq_true.mp hnames name (mem_names name)).1
      exact of_decide_eq_true hname
  · rw [List.mem_append, not_or] at hm
    exact publishesSame_of_unknown hm.1 hm.2

theorem sameScope_of_agree (h : agree resolver resolver' = true) :
    SameScope resolver resolver' (fileRoot .pkg .main) := by
  have hnames := (Bool.and_eq_true _ _ ▸ h).2
  have hname : ∀ name, _ := fun name => List.all_eq_true.mp hnames name (mem_names name)
  simp only [Bool.and_eq_true, decide_eq_true_eq] at hname
  refine ⟨fun t name => ?_, fun name => (hname name).1.1, fun name => (hname name).1.2⟩
  exact of_decide_eq_true (List.all_eq_true.mp (hname name).2 t (by cases t <;> decide))

/-- A private declaration that is added leaves every target in `main`. -/
theorem unused_retargets_nothing : ∃ resolver resolver',
    ModuleResolver.build spellings targets (sources [declared]) = .ok resolver ∧
      ModuleResolver.build spellings targets (sources [declared, unused]) = .ok resolver' ∧
      PathsStayPublic resolver ∧ SameTargets resolver resolver' (fileRoot .pkg .main) := by
  obtain ⟨resolver, hbuild, h⟩ := exists_ok_of_any
    (x := ModuleResolver.build spellings targets (sources [declared]))
    (p := fun resolver => (ModuleResolver.build spellings targets
      (sources [declared, unused])).toOption.any (agree resolver)) (by decide +kernel)
  obtain ⟨resolver', hbuild', h⟩ := exists_ok_of_any h
  obtain ⟨hpublic, hsame⟩ := build_pathTargets _ _ _ _ hbuild (dagsDeclared _)
  exact ⟨resolver, resolver', hbuild, hbuild', hpublic, hsame _ _ _ _ hbuild'
    (publishesSame_of_agree h) _ (sameScope_of_agree h)⟩

end PrivateBinding

end ProvenGraphcal.Resolve
