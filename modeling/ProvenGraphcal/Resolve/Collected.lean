import ProvenGraphcal.Resolve.OwnScope

/-!
# Collected modules

A collected module binds each name once in each namespace. What it declares depends on its
declarations only, so an instance declares what its template does.
-/

namespace ProvenGraphcal.Resolve

variable {N : Type} [LinearOrder N]

open Board

/-! ## One binding per slot -/

/-- Each name is in at most one table of each namespace. -/
def Tables.Disjoint (tables : Tables N) : Prop :=
  ∀ name (t t' : SymbolTable), t.namespaceOf = t'.namespaceOf → (tables t).get? name ≠ none →
    (tables t').get? name ≠ none → t = t'

variable {name : N} {t : SymbolTable}

theorem Tables.disjoint_set {tables : Tables N} (h : tables.Disjoint)
    (hfree : tables.occupant t.namespaceOf name = none) (symbol : Symbol N t) :
    (tables.set t name (some symbol)).Disjoint := by
  rw [Tables.occupant_eq_none] at hfree
  intro name' t₁ t₂ hns h₁ h₂
  by_cases hname : name' = name
  · subst hname
    have htaken : ∀ t' : SymbolTable, t'.namespaceOf = t.namespaceOf →
        ((tables.set t name' (some symbol)) t').get? name' ≠ none → t' = t := by
      intro t' ht' hget
      by_contra hne
      rw [Tables.get?_set_of_ne _ _ fun he => absurd he hne] at hget
      exact hget (hfree t' ht')
    by_cases ht : t₁.namespaceOf = t.namespaceOf
    · rw [htaken t₁ ht h₁, htaken t₂ (hns ▸ ht) h₂]
    · rw [Tables.get?_set_of_ne _ _ fun he => absurd (congrArg SymbolTable.namespaceOf he) ht] at h₁
      rw [Tables.get?_set_of_ne _ _ fun he =>
        absurd (hns.trans (congrArg SymbolTable.namespaceOf he)) ht] at h₂
      exact h name' t₁ t₂ hns h₁ h₂
  · rw [Tables.get?_set_of_ne _ _ fun _ => hname] at h₁ h₂
    exact h name' t₁ t₂ hns h₁ h₂

variable {P : ModuleSymbols N → Prop}

namespace ModuleSymbols

variable {symbols : ModuleSymbols N}

theorem declare_eq_ok {next : ModuleSymbols N} {visibility : BindableVisibility}
    {data : Declared N t} (h : symbols.declare t name visibility data = .ok next) :
    symbols.occupant t.namespaceOf name = none ∧
      next = symbols.set t name (some ⟨⟨symbols.owner, name⟩, visibility, data⟩) := by
  unfold declare at h
  split at h
  · cases h
  case h_2 hfree => exact ⟨hfree, (Except.ok.inj h).symm⟩

/-- What every accepted declaration of a name keeps, every collected declaration keeps. -/
theorem collectDeclaration_invariant
    (hdeclare : ∀ (symbols next : ModuleSymbols N) (t : SymbolTable) (name : N)
      (visibility : BindableVisibility) (data : Declared N t), P symbols →
        symbols.declare t name visibility data = .ok next → P next) (h : P symbols)
    (decl : Decl N) :
    P (symbols.collectDeclaration decl).1 := by
  have hkeep : ∀ (t : SymbolTable) (name : N) (visibility : BindableVisibility)
      (data : Declared N t), P (symbols.orKeep (symbols.declare t name visibility data)).1 := by
    intro t name visibility data
    cases hd : symbols.declare t name visibility data with
    | error e => exact h
    | ok next => exact hdeclare _ _ _ _ _ _ h hd
  have hconstructors : ∀ (visibility : BindableVisibility) (signature : ConstructorSignature N)
      (members : List N) (symbols : ModuleSymbols N), P symbols →
        P (declareConstructors visibility signature symbols members).1 := by
    intro visibility signature members
    induction members with
    | nil => exact fun _ hs => hs
    | cons member members ih =>
      intro symbols hs
      unfold declareConstructors
      cases hd : symbols.declare .constructor member visibility signature with
      | error e => exact hs
      | ok next => exact ih next (hdeclare _ _ _ _ _ _ hs hd)
  have hindex : ∀ (visibility : BindableVisibility) (name : N) (variants? : Option (NonEmpty N)),
      P (symbols.orKeep (symbols.declareIndex visibility name variants?)).1 := by
    intro visibility name variants?
    cases hd : symbols.declareIndex visibility name variants? with
    | error e => exact h
    | ok next =>
      obtain ⟨variants, -, hd⟩ := Checked.bind_eq_ok.mp hd
      exact hdeclare _ _ _ _ _ _ h hd
  have htype : ∀ (visibility : BindableVisibility) (name : N)
      (genericParams : List (GenericParamSignature N)) (body : TypeDeclBody N),
        P (symbols.declareType visibility name genericParams body).1 := by
    intro visibility name genericParams body
    unfold declareType
    cases hd : symbols.declare .structType name visibility genericParams with
    | error e => exact h
    | ok next =>
      have hnext := hdeclare _ _ _ _ _ _ h hd
      cases body with
      | required => exact hnext
      | constructors members => exact hconstructors _ _ _ _ hnext
  match decl with
  | .importDecl _ | .includeDecl _ | .otherDecl (.pluginImport ..) => exact h
  | .otherDecl (.type visibility name genericParams body) => exact htype _ _ _ _
  | .otherDecl (.index visibility name variants?) => exact hindex _ _ _
  | .dagDecl .. | .otherDecl (.param _) | .otherDecl (.node ..) | .otherDecl (.constNode ..)
  | .otherDecl (.assert ..) | .otherDecl (.plot ..) | .otherDecl (.figure ..)
  | .otherDecl (.layer ..) | .otherDecl (.baseDimension ..) | .otherDecl (.dimension ..)
  | .otherDecl (.unit ..) => exact hkeep _ _ _ _

theorem collectFrom_invariant (hdecl : ∀ (symbols : ModuleSymbols N) (decl : Decl N), P symbols →
      P (symbols.collectDeclaration decl).1) (declarations : List (Decl N)) (h : P symbols) :
    P (collectFrom symbols declarations).1 := by
  induction declarations generalizing symbols with
  | nil => exact h
  | cons decl rest ih => exact ih (hdecl symbols decl h)

theorem collect_disjoint (owner : SourceDagId N) (declarations : List (Decl N)) :
    (collect owner declarations).1.tables.Disjoint := by
  refine collectFrom_invariant (P := fun symbols => symbols.tables.Disjoint)
    (fun symbols decl h => collectDeclaration_invariant (P := fun s => s.tables.Disjoint)
      (fun s next t name v data hs hd => ?_) h decl) declarations (fun _ _ _ _ h _ => absurd rfl h)
  obtain ⟨hfree, rfl⟩ := declare_eq_ok hd
  exact Tables.disjoint_set hs hfree _

/-- A name stays declared while more declarations are collected. -/
theorem collectFrom_keeps (declarations : List (Decl N)) {symbol : Symbol N t}
    (h : (symbols.tables t).get? name = some symbol) :
    ((collectFrom symbols declarations).1.tables t).get? name = some symbol := by
  refine collectFrom_invariant (P := fun s => (s.tables t).get? name = some symbol)
    (fun s decl hs => collectDeclaration_invariant
      (P := fun s => (s.tables t).get? name = some symbol)
      (fun s next t' name' v data hs hd => ?_) hs decl) declarations h
  obtain ⟨hfree, rfl⟩ := declare_eq_ok hd
  have hne : t = t' → name ≠ name' := by
    rintro rfl rfl
    rw [occupant, Tables.occupant_eq_none] at hfree
    cases hs.symm.trans (hfree t rfl)
  exact (Tables.get?_set_of_ne _ _ hne).trans hs

/-- Declarations collected without an error leave every DAG among them declared. -/
theorem collectFrom_dag {declarations : List (Decl N)}
    (h : (collectFrom symbols declarations).2 = []) {visibility : Visibility} {body : List (Decl N)}
    (hmem : .dagDecl visibility name body ∈ declarations) :
    ∃ symbol, ((collectFrom symbols declarations).1.tables .decl).get? name = some symbol ∧
      symbol.data = .dag := by
  induction declarations generalizing symbols with
  | nil => cases hmem
  | cons decl rest ih =>
    obtain ⟨hfirst, hrest⟩ : (symbols.collectDeclaration decl).2.toList = [] ∧
        (collectFrom (symbols.collectDeclaration decl).1 rest).2 = [] :=
      List.append_eq_nil_iff.mp h
    rcases List.mem_cons.mp hmem with rfl | hmem
    · have hstep : symbols.collectDeclaration (.dagDecl visibility name body) =
          symbols.orKeep (symbols.declare .decl name (.ofVisibility visibility) .dag) := rfl
      cases hd : symbols.declare .decl name (.ofVisibility visibility) .dag with
      | error e =>
        rw [hstep, hd] at hfirst
        cases hfirst
      | ok next =>
        obtain ⟨-, hnext⟩ := declare_eq_ok hd
        have hdeclared : ((symbols.collectDeclaration (.dagDecl visibility name body)).1.tables
            .decl).get? name = some ⟨⟨symbols.owner, name⟩, .ofVisibility visibility, .dag⟩ := by
          rw [hstep, hd, orKeep, hnext]
          exact Tables.get?_set_self _ _ _ _
        exact ⟨_, collectFrom_keeps rest hdeclared, rfl⟩
    · exact ih hrest hmem

end ModuleSymbols

/-- Before its edges are registered, a scope holds plugin aliases in free slots only. -/
structure AliasesDeclared (symbols : ModuleSymbols N) (scope : ModuleScope N) : Prop where
  selected : scope.selected = .empty
  aliases : scope.moduleAliases = .empty
  free : ∀ name, scope.pluginAliases.get? name ≠ none → symbols.occupant .term name = none

theorem declareAlias_cases {symbols : ModuleSymbols N} {scope next : ModuleScope N} {decl : Decl N}
    (h : declareAlias symbols scope decl = .ok next) : next = scope ∨
      ∃ name target, symbols.occupant .term name = none ∧
        next = { scope with pluginAliases := scope.pluginAliases.insert name target } := by
  unfold declareAlias at h
  split at h
  case h_1 => exact .inl (Except.ok.inj h).symm
  case h_2 name respells halias =>
    dsimp only at h
    split_ifs at h with hrefused
    split at h
    case h_1 path name' functions =>
      obtain ⟨functions', -, h⟩ := Checked.bind_eq_ok.mp h
      cases halias
      refine .inr ⟨name, _, ?_, (Except.ok.inj h).symm⟩
      cases hoccupant : symbols.occupant .term name with
      | none => rfl
      | some occupant => simp [hoccupant] at hrefused
    case h_2 => exact .inl (Except.ok.inj h).symm

theorem declareAliases_declared {symbols : ModuleSymbols N} (declarations : List (Decl N))
    {scope : ModuleScope N} (h : AliasesDeclared symbols scope) :
    AliasesDeclared symbols (declareAliases symbols scope declarations).1 := by
  induction declarations generalizing scope with
  | nil => exact h
  | cons decl rest ih =>
    unfold declareAliases
    cases hdecl : declareAlias symbols scope decl with
    | error e => exact ih h
    | ok next =>
      refine ih ?_
      rcases declareAlias_cases hdecl with rfl | ⟨name, target, hfree, rfl⟩
      · exact h
      · refine ⟨h.selected, h.aliases, fun name' hname' => ?_⟩
        simp only [SortedMap.get?_insert] at hname'
        split_ifs at hname' with heq
        · rwa [heq]
        · exact h.free name' hname'

theorem collectedEntry_declared (owner : SourceDagId N) (declarations : List (Decl N)) :
    AliasesDeclared (collectedEntry owner declarations).1.symbols
      (collectedEntry owner declarations).1.scope :=
  declareAliases_declared declarations ⟨rfl, rfl, fun _ h => absurd rfl h⟩

/-- A collected module binds each name once in each namespace. -/
theorem collectedEntry_oneBinding (owner : SourceDagId N) (declarations : List (Decl N)) :
    (collectedEntry owner declarations).1.board.OneBindingPerSlot := by
  have hdisjoint := ModuleSymbols.collect_disjoint owner declarations
  have hdeclared := collectedEntry_declared owner declarations
  have hfree : ∀ (t : SymbolTable) (name : N),
      (collectedEntry owner declarations).1.board (.selected t) name = none := by
    intro t name
    simp only [ModuleEntry.board, hdeclared.selected, Tables.get?_empty, Option.map_none]
  have halias : ∀ name : N,
      (collectedEntry owner declarations).1.board .moduleAlias name = none := by
    intro name
    simp only [ModuleEntry.board, hdeclared.aliases, SortedMap.get?_empty, Option.map_none]
  have hplugin : ∀ (t : SymbolTable) (name : N), t.namespaceOf = .term →
      (collectedEntry owner declarations).1.board .pluginAlias name ≠ none →
        (collectedEntry owner declarations).1.board (.declared t) name = none := by
    intro t name ht hname
    have hnone := hdeclared.free name fun he => hname (by simp only [ModuleEntry.board, he]; rfl)
    simp only [ModuleEntry.board, Tables.occupant_eq_none.mp hnone t ht, Option.map_none]
  rintro name (t | t | _ | _) (t' | t' | _ | _) hns h h'
  · refine congrArg Place.declared (hdisjoint name t t' hns (fun he => h ?_) fun he => h' ?_)
    · simp only [ModuleEntry.board, collectedEntry, he, Option.map_none]
    · simp only [ModuleEntry.board, collectedEntry, he, Option.map_none]
  all_goals first
    | exact absurd (hfree _ name) h
    | exact absurd (hfree _ name) h'
    | exact absurd (halias name) h
    | exact absurd (halias name) h'
    | exact absurd (hplugin _ name hns h') h
    | exact absurd (hplugin _ name hns.symm h) h'
    | rfl

/-- The same names with the same facts, whoever owns them. -/
def SameDeclared (symbols symbols' : ModuleSymbols N) : Prop :=
  ∀ (t : SymbolTable) (name : N),
    ((symbols.tables t).get? name).map (fun symbol => (symbol.visibility, symbol.data)) =
      ((symbols'.tables t).get? name).map fun symbol => (symbol.visibility, symbol.data)

/-- Both succeed, with related results, or both fail. -/
def BothAgree {α ε : Type} (R : α → α → Prop) : Except ε α → Except ε α → Prop
  | .ok a, .ok a' => R a a'
  | .error _, .error _ => True
  | _, _ => False

namespace ModuleSymbols

variable {symbols symbols' : ModuleSymbols N}

section

variable (h : SameDeclared symbols symbols')

include h

theorem occupant_none_iff (ns : Namespace) (name : N) :
    symbols.occupant ns name = none ↔ symbols'.occupant ns name = none := by
  unfold occupant
  rw [Tables.occupant_eq_none, Tables.occupant_eq_none]
  refine forall_congr' fun t => imp_congr_right fun _ => ?_
  rw [← Option.map_eq_none_iff (f := fun symbol : Symbol N t => (symbol.visibility, symbol.data)),
    h t name, Option.map_eq_none_iff]

theorem declare_agree (t : SymbolTable) (name : N) (visibility : BindableVisibility)
    (data : Declared N t) :
    BothAgree SameDeclared (symbols.declare t name visibility data)
      (symbols'.declare t name visibility data) := by
  have hiff := occupant_none_iff h t.namespaceOf name
  unfold declare
  cases hs : symbols.occupant t.namespaceOf name with
  | some occupant =>
    cases hs' : symbols'.occupant t.namespaceOf name with
    | some occupant' => trivial
    | none => rw [hiff.mpr hs'] at hs; cases hs
  | none =>
    rw [hiff.mp hs]
    intro t' name'
    by_cases hat : t' = t ∧ name' = name
    · obtain ⟨rfl, rfl⟩ := hat
      simp only [set, Tables.get?_set_self, Option.map_some]
    · have hne : t' = t → name' ≠ name := fun ht hname => hat ⟨ht, hname⟩
      simp only [set, Tables.get?_set_of_ne _ _ hne]
      exact h t' name'

theorem orKeep_same {result result' : Except (ModuleResolveError N) (ModuleSymbols N)}
    (hresult : BothAgree SameDeclared result result') :
    SameDeclared (symbols.orKeep result).1 (symbols'.orKeep result').1 := by
  cases result with
  | error e => cases result' with
    | error e' => exact h
    | ok next' => exact hresult.elim
  | ok next => cases result' with
    | error e' => exact hresult.elim
    | ok next' => exact hresult

end

theorem declareConstructors_same (visibility : BindableVisibility)
    (signature : ConstructorSignature N) (members : List N) (h : SameDeclared symbols symbols') :
    SameDeclared (declareConstructors visibility signature symbols members).1
      (declareConstructors visibility signature symbols' members).1 := by
  induction members generalizing symbols symbols' with
  | nil => exact h
  | cons member members ih =>
    have hagree := declare_agree h .constructor member visibility signature
    unfold declareConstructors
    cases hd : symbols.declare .constructor member visibility signature with
    | error e => cases hd' : symbols'.declare .constructor member visibility signature with
      | error e' => exact h
      | ok next' => rw [hd, hd'] at hagree; exact hagree.elim
    | ok next => cases hd' : symbols'.declare .constructor member visibility signature with
      | error e' => rw [hd, hd'] at hagree; exact hagree.elim
      | ok next' => rw [hd, hd'] at hagree; exact ih hagree

theorem indexVariants_eq_ok {owner : SourceDagId N} {variants? : Option (NonEmpty N)}
    {variants : List N} : indexVariants owner name variants? = .ok variants ↔
      ((variants?.map NonEmpty.items).getD []).Nodup ∧
        variants = ((variants?.map NonEmpty.items).getD []).reverse := by
  unfold indexVariants
  rw [Checked.distinct_eq_ok, List.map_id]
  simp

section

variable (h : SameDeclared symbols symbols')

include h

theorem declareIndex_agree (visibility : BindableVisibility) (name : N)
    (variants? : Option (NonEmpty N)) :
    BothAgree SameDeclared (symbols.declareIndex visibility name variants?)
      (symbols'.declareIndex visibility name variants?) := by
  unfold declareIndex
  cases hv : indexVariants symbols.owner name variants? with
  | ok variants =>
    have hv' : indexVariants symbols'.owner name variants? = .ok variants :=
      indexVariants_eq_ok.mpr (indexVariants_eq_ok.mp hv)
    rw [hv']
    exact declare_agree h .index name visibility variants
  | error e => cases hv' : indexVariants symbols'.owner name variants? with
    | error e' => trivial
    | ok variants =>
      rw [indexVariants_eq_ok.mpr (indexVariants_eq_ok.mp hv')] at hv
      cases hv

theorem declareType_same (visibility : BindableVisibility) (name : N)
    (genericParams : List (GenericParamSignature N)) (body : TypeDeclBody N) :
    SameDeclared (symbols.declareType visibility name genericParams body).1
      (symbols'.declareType visibility name genericParams body).1 := by
  have hagree := declare_agree h .structType name visibility genericParams
  unfold declareType
  cases hd : symbols.declare .structType name visibility genericParams with
  | error e => cases hd' : symbols'.declare .structType name visibility genericParams with
    | error e' => exact h
    | ok next' => rw [hd, hd'] at hagree; exact hagree.elim
  | ok next => cases hd' : symbols'.declare .structType name visibility genericParams with
    | error e' => rw [hd, hd'] at hagree; exact hagree.elim
    | ok next' =>
      rw [hd, hd'] at hagree
      cases body with
      | required => exact hagree
      | constructors members => exact declareConstructors_same _ _ _ hagree

theorem collectDeclaration_same (decl : Decl N) :
    SameDeclared (symbols.collectDeclaration decl).1 (symbols'.collectDeclaration decl).1 :=
  match decl with
  | .importDecl _ | .includeDecl _ | .otherDecl (.pluginImport ..) => h
  | .otherDecl (.type ..) => declareType_same h _ _ _ _
  | .otherDecl (.index ..) => orKeep_same h (declareIndex_agree h _ _ _)
  | .dagDecl .. | .otherDecl (.param _) | .otherDecl (.node ..) | .otherDecl (.constNode ..)
  | .otherDecl (.assert ..) | .otherDecl (.plot ..) | .otherDecl (.figure ..)
  | .otherDecl (.layer ..) | .otherDecl (.baseDimension ..) | .otherDecl (.dimension ..)
  | .otherDecl (.unit ..) => orKeep_same h (declare_agree h _ _ _ _)

end

theorem collectFrom_same (declarations : List (Decl N)) (h : SameDeclared symbols symbols') :
    SameDeclared (collectFrom symbols declarations).1 (collectFrom symbols' declarations).1 := by
  induction declarations generalizing symbols symbols' with
  | nil => exact h
  | cons decl rest ih => exact ih (collectDeclaration_same h decl)

theorem collect_same (owner owner' : SourceDagId N) (declarations : List (Decl N)) :
    SameDeclared (collect owner declarations).1 (collect owner' declarations).1 :=
  collectFrom_same declarations fun _ _ => rfl

end ModuleSymbols

/-- An instance and its template hold the same names where their declarations put them. -/
theorem collectedEntry_declared_board (owner owner' : SourceDagId N)
    (declarations : List (Decl N)) (t : SymbolTable) (name : N) :
    (collectedEntry owner declarations).1.board (.declared t) name =
      (collectedEntry owner' declarations).1.board (.declared t) name := by
  have hsame := congrArg (Option.map Prod.fst)
    (ModuleSymbols.collect_same owner owner' declarations t name)
  rw [Option.map_map, Option.map_map] at hsame
  exact hsame

end ProvenGraphcal.Resolve
