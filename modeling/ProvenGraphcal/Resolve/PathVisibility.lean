import ProvenGraphcal.Resolve.Surface

/-!
# What a path through an alias can reach

Such a path goes through public nested aliases and public inline DAGs, to a public binding. Its
target depends on what the modules it crosses publish and on nothing else of them.
-/

namespace ProvenGraphcal.Resolve

open Checked (bind_eq_ok)

variable {N : Type} [LinearOrder N]
variable {candidates : List (SourceDagId N × Access)} {rest : List N} {head : N}
variable {m owner : SourceDagId N} {candidate : SourceDagId N × Access}
variable {visible : SourceDagId N → Prop}

namespace ModuleResolver

variable (resolver : ModuleResolver N)

/-- The inline `dag` that a module declares under a name. -/
def dagSymbol (parent : SourceDagId N) (name : N) : Option (Symbol N .decl) :=
  ((resolver.modules.get? parent).bind fun entry => (entry.symbols.tables .decl).get? name).filter
    fun symbol => symbol.data = .dag

/-- The inline DAGs up from `m` are public, as far as they are declared. -/
inductive LevelsPublic : SourceDagId N → Prop
  | top {m : SourceDagId N} (h : ∀ name parent, m.leaf = .inlineDag name →
      m.parent = some parent → resolver.dagSymbol parent name = none) : LevelsPublic m
  | level {m parent : SourceDagId N} {name : N} {symbol : Symbol N .decl}
      (hleaf : m.leaf = .inlineDag name) (hparent : m.parent = some parent)
      (hdag : resolver.dagSymbol parent name = some symbol)
      (hpublic : symbol.visibility.isPublic = true) (above : LevelsPublic parent) : LevelsPublic m

/-- Every inline DAG from `m` up to a file root or an instance is declared and public. -/
inductive PublicToRoot : SourceDagId N → Prop
  | root {m : SourceDagId N} (h : ∀ name, m.leaf ≠ .inlineDag name) : PublicToRoot m
  | level {m parent : SourceDagId N} {name : N} {symbol : Symbol N .decl}
      (hleaf : m.leaf = .inlineDag name) (hparent : m.parent = some parent)
      (hdag : resolver.dagSymbol parent name = some symbol)
      (hpublic : symbol.visibility.isPublic = true) (above : PublicToRoot parent) : PublicToRoot m

variable {resolver}

theorem declSymbols_bind (parent : SourceDagId N) (name : N) :
    (resolver.declSymbols parent).bind (· name) =
      ((resolver.modules.get? parent).bind fun entry =>
        (entry.symbols.tables .decl).get? name).map fun symbol =>
          ⟨if symbol.data = .dag then .dag else .value,
            if symbol.visibility.isPublic then .pub else .priv⟩ := by
  unfold declSymbols
  cases resolver.modules.get? parent <;> rfl

omit [LinearOrder N] in
/-- The check of one level at which a DAG is declared. -/
theorem inlineDagsPublic_level {E : Type} {symbols : SourceDagId N → Option (N → Option DeclSymbol)}
    {parent : SourceDagId N} {name : N} {symbol : DeclSymbol} (hleaf : m.leaf = .inlineDag name)
    (hparent : m.parent = some parent) (hsymbol : (symbols parent).bind (· name) = some symbol)
    (hkind : ¬ symbol.kind ≠ .dag) :
    (inlineDagsPublic symbols m : Except (ProvenGraphcal.ModuleResolveError N E) Unit) =
      if ¬ symbol.visibility.isPublic then .error (.privateName parent name)
      else inlineDagsPublic symbols parent := by
  rw [inlineDagsPublic.eq_def, hleaf]
  dsimp only
  split
  case h_1 hnone => cases hparent.symm.trans hnone
  case h_2 parent' hparent' =>
    cases hparent.symm.trans hparent'
    rw [hsymbol]
    dsimp only
    rw [if_neg hkind]

theorem ensureModulePathVisible_eq_ok
    (h : resolver.ensureModulePathVisible m .crossModule = .ok ()) : resolver.LevelsPublic m := by
  unfold ensureModulePathVisible at h
  rw [Checked.mapError_eq_ok] at h
  unfold ProvenGraphcal.ensureModulePathVisible at h
  rw [if_neg (by decide)] at h
  have hundeclared : ∀ {m parent : SourceDagId N} {name : N}, m.leaf = .inlineDag name →
      m.parent = some parent → resolver.dagSymbol parent name = none → resolver.LevelsPublic m := by
    intro m parent name hleaf hparent hnone
    refine .top fun name' parent' hleaf' hparent' => ?_
    cases hleaf.symm.trans hleaf'
    cases hparent.symm.trans hparent'
    exact hnone
  induction m using inlineDagsPublic.induct resolver.declSymbols with
  | case1 m name hleaf hparent =>
    exact .top fun _ _ _ hparent' => nomatch hparent.symm.trans hparent'
  | case2 m name hleaf parent hparent hnone =>
    rw [declSymbols_bind, Option.map_eq_none_iff] at hnone
    exact hundeclared hleaf hparent (by rw [dagSymbol, hnone]; rfl)
  | case3 m name hleaf parent hparent symbol hsymbol hkind =>
    rw [declSymbols_bind, Option.map_eq_some_iff] at hsymbol
    obtain ⟨declared, hdeclared, rfl⟩ := hsymbol
    refine hundeclared hleaf hparent ?_
    rw [dagSymbol, hdeclared, Option.filter_some, if_neg]
    intro hdag
    exact hkind (if_pos (of_decide_eq_true hdag))
  | case4 m name hleaf parent hparent symbol hsymbol hkind hprivate =>
    rw [inlineDagsPublic_level hleaf hparent hsymbol hkind, if_pos hprivate] at h
    cases h
  | case5 m name hleaf parent hparent symbol hsymbol hkind hpublic ih =>
    rw [inlineDagsPublic_level hleaf hparent hsymbol hkind, if_neg hpublic] at h
    rw [declSymbols_bind, Option.map_eq_some_iff] at hsymbol
    obtain ⟨declared, hdeclared, rfl⟩ := hsymbol
    have hdag : declared.data = .dag := by
      by_contra hne
      exact hkind (by simp [hne])
    have hvisible : declared.visibility.isPublic = true := by
      by_contra hne
      exact hpublic (by simp [hne, Visibility.isPublic])
    refine .level hleaf hparent ?_ hvisible (ih h)
    rw [dagSymbol, hdeclared, Option.filter_some, if_pos (decide_eq_true hdag)]
  | case6 m hleaf => exact .top fun name _ hleaf' _ => (hleaf name hleaf').elim

/-! ## Routes of qualified paths -/

variable (resolver) in
/-- A route through nested modules: public aliases, and inline DAGs where there is no alias. -/
inductive PublicRoute (visible : SourceDagId N → Prop) :
    SourceDagId N → List N → SourceDagId N → Prop
  | here {m : SourceDagId N} {entry : ModuleEntry N} (hentry : resolver.modules.get? m = some entry) :
    PublicRoute visible m [] m
  | nestedAlias {m final : SourceDagId N} {entry : ModuleEntry N} {segment : N} {rest : List N}
      {binding : ModuleAliasTarget N} (hentry : resolver.modules.get? m = some entry)
      (hbinding : entry.scope.moduleAliases.get? segment = some binding)
      (hpublic : binding.visibility.isPublic = true) (hvisible : visible binding.target)
      (hrest : PublicRoute visible binding.target rest final) :
    PublicRoute visible m (segment :: rest) final
  | inlineDag {m final : SourceDagId N} {entry : ModuleEntry N} {segment : N} {rest : List N}
      (hentry : resolver.modules.get? m = some entry)
      (hnone : entry.scope.moduleAliases.get? segment = none)
      (hvisible : visible (m.inlineDagChild segment))
      (hrest : PublicRoute visible (m.inlineDagChild segment) rest final) :
    PublicRoute visible m (segment :: rest) final

theorem PublicRoute.known {final : SourceDagId N} (h : resolver.PublicRoute visible m rest final) :
    ∃ entry, resolver.modules.get? m = some entry := by
  cases h with
  | here hentry => exact ⟨_, hentry⟩
  | nestedAlias hentry => exact ⟨_, hentry⟩
  | inlineDag hentry => exact ⟨_, hentry⟩

theorem PublicRoute.imp {visible' : SourceDagId N → Prop} {final : SourceDagId N}
    (h : resolver.PublicRoute visible m rest final)
    (himp : ∀ m entry, resolver.modules.get? m = some entry → visible m → visible' m) :
    resolver.PublicRoute visible' m rest final := by
  induction h with
  | here hentry => exact .here hentry
  | nestedAlias hentry hbinding hpublic hvisible hrest ih =>
    obtain ⟨entry, hknown⟩ := hrest.known
    exact .nestedAlias hentry hbinding hpublic (himp _ entry hknown hvisible) ih
  | inlineDag hentry hnone hvisible hrest ih =>
    obtain ⟨entry, hknown⟩ := hrest.known
    exact .inlineDag hentry hnone (himp _ entry hknown hvisible) ih

theorem contains_iff : resolver.modules.contains m = true ↔
    ∃ entry, resolver.modules.get? m = some entry :=
  Option.isSome_iff_exists

theorem descend_route {final : SourceDagId N}
    (hknown : ∃ entry, resolver.modules.get? final = some entry)
    (h : resolver.descend .crossModule m rest = .ok final) :
    resolver.PublicRoute resolver.LevelsPublic m rest final := by
  induction rest generalizing m with
  | nil =>
    cases h
    obtain ⟨entry, hentry⟩ := hknown
    exact .here hentry
  | cons segment rest ih =>
    obtain ⟨next, hnext, h⟩ := bind_eq_ok.mp h
    obtain ⟨_, hvisible, h⟩ := bind_eq_ok.mp h
    obtain ⟨scope, hscope, hnext⟩ := bind_eq_ok.mp hnext
    obtain ⟨entry, hentry, rfl⟩ := moduleScope_eq_ok.mp hscope
    cases hbinding : entry.scope.moduleAliases.get? segment with
    | some binding =>
      rw [hbinding] at hnext
      dsimp only at hnext
      split_ifs at hnext with hprivate
      cases hnext
      have hpublic : binding.visibility.isPublic = true := by
        by_contra hne
        exact hprivate ⟨rfl, hne⟩
      exact .nestedAlias hentry hbinding hpublic (ensureModulePathVisible_eq_ok hvisible) (ih h)
    | none =>
      rw [hbinding] at hnext
      dsimp only at hnext
      split_ifs at hnext
      cases hnext
      exact .inlineDag hentry hbinding (ensureModulePathVisible_eq_ok hvisible) (ih h)

/-- A qualified path goes through an alias of its module, and a public route from there. -/
def QualifiedRoute (resolver : ModuleResolver N) (visible : SourceDagId N → Prop)
    (entry : ModuleEntry N) (head : N) (rest : List N) (final : SourceDagId N) : Prop :=
  ∃ binding, entry.scope.moduleAliases.get? head = some binding ∧
    visible binding.target ∧ resolver.PublicRoute visible binding.target rest final

theorem resolveModuleQualifier_eq_ok (hcross : AliasesCross resolver) {target : SourceDagId N}
    {access : Access} (h : resolver.resolveModuleQualifier owner head rest = .ok (target, access)) :
    access = .crossModule ∧ ∃ entry, resolver.modules.get? owner = some entry ∧
      QualifiedRoute resolver resolver.LevelsPublic entry head rest target := by
  obtain ⟨scope, hscope, h⟩ := bind_eq_ok.mp h
  obtain ⟨entry, hentry, rfl⟩ := moduleScope_eq_ok.mp hscope
  cases hbinding : entry.scope.moduleAliases.get? head with
  | none => rw [hbinding] at h; cases h
  | some binding =>
    rw [hbinding] at h
    obtain ⟨_, hvisible, h⟩ := bind_eq_ok.mp h
    obtain ⟨final, hfinal, h⟩ := bind_eq_ok.mp h
    split_ifs at h with hknown
    cases h
    rw [hcross owner entry hentry head binding hbinding] at hvisible hfinal
    refine ⟨hcross owner entry hentry head binding hbinding, entry, hentry, binding, hbinding,
      ensureModulePathVisible_eq_ok hvisible, descend_route (contains_iff.mp hknown) hfinal⟩

/-- The binding that a qualified path denotes is public in the module that its route reaches. -/
theorem resolveSymbolPath_qualified (hcross : AliasesCross resolver) {t : SymbolTable} {leaf : N}
    {symbol : Symbol N t}
    (h : resolver.resolveSymbolPath t owner ⟨head :: rest, leaf⟩ = .ok symbol) :
    ∃ entry final found, resolver.modules.get? owner = some entry ∧
      QualifiedRoute resolver resolver.LevelsPublic entry head rest final ∧
      resolver.modules.get? final = some found ∧ visibleSymbol t found leaf = some symbol ∧
      symbol.visibility.isPublic = true := by
  obtain ⟨⟨target, access⟩, hqualifier, h⟩ := bind_eq_ok.mp h
  obtain ⟨found, hfound, h⟩ := bind_eq_ok.mp h
  obtain ⟨rfl, entry, hentry, hroute⟩ := resolveModuleQualifier_eq_ok hcross hqualifier
  rw [entry_eq_ok] at hfound
  cases hvisible : visibleSymbol t found leaf with
  | none =>
    rw [hvisible] at h
    obtain ⟨e, -, h⟩ := bind_eq_ok.mp h
    cases h
  | some symbol' =>
    rw [hvisible] at h
    dsimp only at h
    split_ifs at h with hprivate
    cases h
    refine ⟨entry, target, found, hentry, hroute, hfound, hvisible, ?_⟩
    by_contra hne
    exact hprivate ⟨rfl, hne⟩

variable (resolver) in
/-- A descent through inline DAGs. -/
inductive DagRoute (visible : SourceDagId N → Prop) : SourceDagId N → List N → SourceDagId N → Prop
  | here (m : SourceDagId N) : DagRoute visible m [] m
  | down {m final : SourceDagId N} {segment : N} {rest : List N} {entry : ModuleEntry N}
      (hentry : resolver.modules.get? (m.inlineDagChild segment) = some entry)
      (hvisible : visible (m.inlineDagChild segment))
      (hrest : DagRoute visible (m.inlineDagChild segment) rest final) :
    DagRoute visible m (segment :: rest) final

theorem DagRoute.imp {visible' : SourceDagId N → Prop} {final : SourceDagId N}
    (h : resolver.DagRoute visible m rest final)
    (himp : ∀ m entry, resolver.modules.get? m = some entry → visible m → visible' m) :
    resolver.DagRoute visible' m rest final := by
  induction h with
  | here => exact .here _
  | down hentry hvisible _ ih => exact .down hentry (himp _ _ hentry hvisible) ih

theorem descendDags_route {final : SourceDagId N}
    (h : resolver.descendDags .crossModule m rest = .ok final) :
    resolver.DagRoute resolver.LevelsPublic m rest final := by
  induction rest generalizing m with
  | nil =>
    cases h
    exact .here _
  | cons segment rest ih =>
    unfold descendDags at h
    dsimp only at h
    split_ifs at h with hknown
    · obtain ⟨_, hvisible, h⟩ := bind_eq_ok.mp h
      obtain ⟨entry, hentry⟩ := contains_iff.mp hknown
      exact .down hentry (ensureModulePathVisible_eq_ok hvisible) (ih h)
    · cases h

/-- What a head that is no local DAG may name: a selected DAG, or a callable alias. -/
def CallableHead (entry : ModuleEntry N) (head : N) (start : SourceDagId N) : Prop :=
  (∃ symbol, (entry.scope.selected .decl).get? head = some symbol ∧ symbol.data = .dag ∧
    start = symbol.resolved.owner.inlineDagChild symbol.resolved.leaf) ∨
  ∃ binding, entry.scope.moduleAliases.get? head = some binding ∧ isCallable binding.role = true ∧
    start = binding.target

theorem mem_noteCandidate {known : SourceDagId N × Access}
    (h : known ∈ noteCandidate candidates candidate) :
    known ∈ candidates ∨ known = candidate := by
  unfold noteCandidate at h
  split_ifs at h
  · obtain ⟨before, hbefore, heq⟩ := List.mem_map.mp h
    split_ifs at heq
    · exact .inr heq.symm
    · exact .inl (heq ▸ hbefore)
  · exact .inl h
  · rcases List.mem_append.mp h with h | h
    · exact .inl h
    · exact .inr (List.mem_singleton.mp h)

theorem mem_noted {noted : List (SourceDagId N × Access)} {known : SourceDagId N × Access}
    (h : known ∈ candidates.foldl noteCandidate noted) :
    known ∈ noted ∨ known ∈ candidates := by
  induction candidates generalizing noted with
  | nil => exact .inl h
  | cons candidate rest ih =>
    rcases ih h with hnoted | hrest
    · refine (mem_noteCandidate hnoted).imp_right fun heq => ?_
      rw [heq]
      exact List.mem_cons_self
    · exact .inr (List.mem_cons_of_mem _ hrest)

theorem mem_callCandidates (hcross : AliasesCross resolver) {entry : ModuleEntry N}
    (hentry : resolver.modules.get? owner = some entry)
    (hlocal : resolver.localDag owner head = none)
    (h : candidate ∈ resolver.callCandidates owner entry.scope head) :
    candidate.2 = .crossModule ∧ CallableHead entry head candidate.1 := by
  unfold callCandidates at h
  rw [hlocal] at h
  have hmem := (mem_noted h).resolve_left List.not_mem_nil
  rw [Option.map_none, Option.toList_none, List.nil_append, List.mem_append, Option.mem_toList,
    Option.mem_toList] at hmem
  rcases hmem with hselected | halias
  · obtain ⟨symbol, hsymbol, hselected⟩ := Option.bind_eq_some_iff.mp hselected
    split_ifs at hselected with hdag
    cases hselected
    exact ⟨rfl, .inl ⟨symbol, hsymbol, hdag, rfl⟩⟩
  · obtain ⟨binding, hbinding, halias⟩ := Option.bind_eq_some_iff.mp halias
    split_ifs at halias with hcallable
    cases halias
    exact ⟨hcross owner entry hentry head binding hbinding, .inr ⟨binding, hbinding, hcallable, rfl⟩⟩

/-- A call path whose head is no local DAG. -/
theorem resolveModulePath_route (hcross : AliasesCross resolver) {target : SourceDagId N}
    (hlocal : resolver.localDag owner head = none)
    (h : resolver.resolveModulePath owner head rest = .ok target) :
    ∃ entry start, resolver.modules.get? owner = some entry ∧ CallableHead entry head start ∧
      resolver.LevelsPublic start ∧ resolver.DagRoute resolver.LevelsPublic start rest target := by
  obtain ⟨scope, hscope, h⟩ := bind_eq_ok.mp h
  obtain ⟨entry, hentry, rfl⟩ := moduleScope_eq_ok.mp hscope
  split at h
  case h_1 start access hcandidates =>
    obtain ⟨_, hvisible, h⟩ := bind_eq_ok.mp h
    have hmem : (start, access) ∈ resolver.callCandidates owner entry.scope head := by
      rw [hcandidates]
      exact List.mem_cons_self
    obtain ⟨haccess, hhead⟩ := mem_callCandidates hcross hentry hlocal hmem
    obtain rfl : access = .crossModule := haccess
    exact ⟨entry, start, hentry, hhead, ensureModulePathVisible_eq_ok hvisible,
      descendDags_route h⟩
  case h_2 => split_ifs at h
  case h_3 => cases h

end ModuleResolver

end ProvenGraphcal.Resolve
