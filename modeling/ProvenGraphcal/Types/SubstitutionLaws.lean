import ProvenGraphcal.Types.TypeMeaning

/-!
# Composition and closed bindings
-/

set_option linter.unusedSectionVars false

namespace ProvenGraphcal

open Checked (bind_eq_ok bind_pure_eq_ok mapError_eq_ok map_eq_ok)

variable {P B N : Type} [LinearOrder P] [LinearOrder B]

variable {p : NatPolyForm P}

namespace NatPolyForm

theorem denoteMonomial_const (n : ℕ) (m : Monomial P) :
    denoteMonomial (fun _ => n) m = n ^ (m.factors.entries.map fun factor => factor.2.val).sum := by
  unfold denoteMonomial
  induction m.factors.entries with
  | nil => rfl
  | cons factor rest ih =>
    rw [List.map_cons, List.prod_cons, List.map_cons, List.sum_cons, pow_add, ih]

/-- A form with a variable grows when every variable goes from one to two. -/
theorem denote_one_lt_denote_two (h : p.variables ≠ []) :
    p.denote (fun _ => 1) < p.denote fun _ => 2 := by
  obtain ⟨x, hx⟩ := List.exists_mem_of_ne_nil _ h
  obtain ⟨m, hm, hx⟩ := List.mem_flatMap.mp hx
  obtain ⟨term, hterm, rfl⟩ := List.mem_map.mp hm
  obtain ⟨factor, hfactor, rfl⟩ := List.mem_map.mp hx
  have hcoeff : 0 < term.2.val := Nat.pos_of_ne_zero fun hzero => by
    have hfree := p.zeroFree.of_mem hterm
    rw [← Bool.not_eq_true, LawfulExponent.isZero_iff] at hfree
    exact hfree hzero
  have hexp : 0 < factor.2.val := Nat.pos_of_ne_zero fun hzero => by
    have hfree := term.1.zeroFree.of_mem hfactor
    rw [← Bool.not_eq_true, LawfulExponent.isZero_iff] at hfree
    exact hfree hzero
  have hdegree : 0 < (term.1.factors.entries.map fun factor => factor.2.val).sum :=
    lt_of_lt_of_le hexp (List.single_le_sum (fun _ _ => Nat.zero_le _) _
      (List.mem_map_of_mem hfactor))
  apply List.sum_lt_sum
  · intro term' _
    rw [denoteMonomial_const, denoteMonomial_const, one_pow]
    exact Nat.mul_le_mul_left _ (Nat.one_le_two_pow)
  · refine ⟨term, hterm, ?_⟩
    rw [denoteMonomial_const, denoteMonomial_const, one_pow]
    exact Nat.mul_lt_mul_of_pos_left (Nat.one_lt_two_pow hdegree.ne') hcoeff

theorem mem_variableSet {x : P} : x ∈ p.variableSet ↔ x ∈ p.variables :=
  List.mem_toFinset

/-- Closed forms for all variables of a form give a closed form. -/
theorem variables_substituteForms {bindings : P → Option (NatPolyForm P)} {r : NatPolyForm P}
    (h : p.substituteForms bindings = .ok r)
    (hclosed : ∀ x ∈ p.variables, ∃ form, bindings x = some form ∧ form.variables = []) :
    r.variables = [] := by
  by_contra hne
  have hlt := denote_one_lt_denote_two hne
  rw [denote_substituteForms h, denote_substituteForms h] at hlt
  refine absurd (denote_congr fun x hx => ?_) (Nat.ne_of_lt hlt)
  obtain ⟨form, hform, hvariables⟩ := hclosed x (mem_variableSet.mp hx)
  rw [replacement, hform, Option.getD_some]
  refine denote_congr fun y hy => ?_
  rw [mem_variableSet, hvariables] at hy
  cases hy

end NatPolyForm

namespace Substitution

variable (s : Substitution P B N)

/-- The parameter is bound to an argument of its sort without parameters. -/
def BindsClosed : SortedParam P → Prop
  | .dim name => ∃ dim, s.dims name = some dim ∧ dim.params = []
  | .index name => ∃ index, s.indexes name = some index ∧ index.params = []
  | .nat name => ∃ form, s.nats name = some form ∧ form.variables = []
  | .type name => ∃ valueType, s.types name = some valueType ∧ valueType.params = []

end Substitution

variable {terms : List (ResolvedDimTerm P B)} {result : ResolvedDim P B}

theorem params_collapseDimTerms {span : Span} (h : collapseDimTerms terms span = .ok result)
    (hterms : terms.flatMap ResolvedDimTerm.params = []) : result.params = [] := by
  unfold collapseDimTerms at h
  split at h
  · cases h
    exact hterms
  · obtain ⟨dimension, -, hresult⟩ := bind_eq_ok.mp h
    cases hresult
    rfl

variable {op : MulDivOp} {power : Rational}

theorem params_expandDimTerm {term result : ResolvedDimTerm P B}
    (h : expandDimTerm power op term = .ok result) :
    result.params = term.params := by
  cases term with
  | concrete dim inner innerOp | genericParam name inner innerOp span =>
    obtain ⟨product, -, hresult⟩ := bind_eq_ok.mp h
    cases hresult
    rfl

theorem params_expandDimArg {arg : ResolvedDim P B} (h : expandDimArg arg power op = .ok terms) :
    terms.flatMap ResolvedDimTerm.params = arg.params := by
  cases arg with
  | concrete dim =>
    rw [expandDimArg] at h
    split_ifs at h with hdim <;> cases h <;> rfl
  | symbolic inner span =>
    have hterms := Checked.mapM_eq_ok.mp h
    clear h
    rw [ResolvedDim.params]
    induction hterms with
    | nil => rfl
    | cons hterm _ ih =>
      rw [List.flatMap_cons, List.flatMap_cons, params_expandDimTerm hterm, ih]

namespace Substitution

variable {s : Substitution P B N}

theorem params_substituteDimTerm {term : ResolvedDimTerm P B}
    (h : s.substituteDimTerm term = .ok terms)
    (hclosed : ∀ param ∈ term.params, s.BindsClosed param) :
    terms.flatMap ResolvedDimTerm.params = [] := by
  cases term with
  | concrete dim power op =>
    cases h
    rfl
  | genericParam name power op span =>
    obtain ⟨replacement, hname, hparams⟩ := hclosed (.dim name) List.mem_cons_self
    simp only [substituteDimTerm, hname] at h
    rw [params_expandDimArg h, hparams]

theorem params_applyDimTerms {span : Span} (h : s.applyDimTerms terms span = .ok result)
    (hclosed : ∀ term ∈ terms, ∀ param ∈ term.params, s.BindsClosed param) :
    result.params = [] := by
  obtain ⟨substituted, hsubstituted, hcollapse⟩ :=
    bind_eq_ok.mp (mapError_eq_ok.mp h)
  refine params_collapseDimTerms hcollapse ?_
  refine Checked.foldlM_invariant (fun terms => terms.flatMap ResolvedDimTerm.params = []) ?_ rfl
    hsubstituted
  intro term hterm before after hbefore hstep
  obtain ⟨expanded, hexpanded, rfl⟩ := bind_pure_eq_ok.mp hstep
  rw [List.flatMap_append, hbefore, params_substituteDimTerm hexpanded (hclosed term hterm)]
  rfl

theorem params_applyDimArg {arg : ResolvedDim P B} (h : s.applyDimArg arg = .ok result)
    (hclosed : ∀ param ∈ arg.params, s.BindsClosed param) : result.params = [] := by
  unfold applyDimArg at h
  split at h
  · rename_i name hlone
    obtain ⟨inner, outer, rfl⟩ := ResolvedDim.loneGenericParam_eq_some hlone
    obtain ⟨replacement, hname, hparams⟩ := hclosed (.dim name) List.mem_cons_self
    cases h
    rw [hname, Option.getD_some, hparams]
  · split at h
    · refine params_applyDimTerms h fun term hterm param hparam => ?_
      exact hclosed param (List.mem_flatMap.mpr ⟨term, hterm, hparam⟩)
    · cases h
      rfl

theorem params_applyNat {form result : NatPolyForm P} {span : Span}
    (h : s.applyNat form span = .ok result)
    (hclosed : ∀ param ∈ form.params, s.BindsClosed param) : result.params = [] := by
  have hvariables : result.variables = [] :=
    NatPolyForm.variables_substituteForms (mapError_eq_ok.mp h) fun x hx =>
      hclosed (.nat x) (List.mem_map_of_mem hx)
  rw [NatPolyForm.params, hvariables, List.map_nil]

theorem params_applyIndex {index result : ResolvedIndex P N} (h : s.applyIndex index = .ok result)
    (hclosed : ∀ param ∈ index.params, s.BindsClosed param) : result.params = [] := by
  cases index with
  | concrete name span =>
    cases h
    rfl
  | genericParam name span =>
    obtain ⟨replacement, hname, hparams⟩ := hclosed (.index name) List.mem_cons_self
    cases h
    rw [hname, Option.getD_some, hparams]
  | finite form span =>
    obtain ⟨next, hnext, rfl⟩ := bind_pure_eq_ok.mp h
    exact params_applyNat hnext hclosed

mutual

theorem params_applyValue {valueType result : ResolvedValueType P B N}
    (h : s.applyValue valueType = .ok result)
    (hclosed : ∀ param ∈ valueType.params, s.BindsClosed param) : result.params = [] := by
  cases valueType with
  | bool | int | datetime scale =>
    cases h
    rfl
  | quantity dimension | complex dimension span =>
    obtain ⟨next, hnext, rfl⟩ := bind_pure_eq_ok.mp h
    exact params_applyDimArg hnext hclosed
  | key index span =>
    obtain ⟨next, hnext, rfl⟩ := bind_pure_eq_ok.mp h
    exact params_applyIndex hnext hclosed
  | struct name genericArgs span =>
    obtain ⟨next, hnext, rfl⟩ := bind_pure_eq_ok.mp h
    exact params_applyGenericArgs hnext hclosed
  | genericTypeParam name span =>
    obtain ⟨replacement, hname, hparams⟩ := hclosed (.type name) List.mem_cons_self
    cases h
    rw [hname, Option.getD_some, hparams]

theorem params_applyGenericArg {arg result : ResolvedGenericArg P B N}
    (h : s.applyGenericArg arg = .ok result)
    (hclosed : ∀ param ∈ arg.params, s.BindsClosed param) : result.params = [] := by
  cases arg with
  | dim dimension =>
    obtain ⟨next, hnext, rfl⟩ := bind_pure_eq_ok.mp h
    exact params_applyDimArg hnext hclosed
  | index index =>
    obtain ⟨next, hnext, rfl⟩ := bind_pure_eq_ok.mp h
    exact params_applyIndex hnext hclosed
  | nat form span =>
    obtain ⟨next, hnext, rfl⟩ := bind_pure_eq_ok.mp h
    exact params_applyNat hnext hclosed
  | type valueType =>
    obtain ⟨next, hnext, rfl⟩ := bind_pure_eq_ok.mp h
    exact params_applyValue hnext hclosed

theorem params_applyGenericArgs {args results : List (ResolvedGenericArg P B N)}
    (h : s.applyGenericArgs args = .ok results)
    (hclosed : ∀ param ∈ argParams args, s.BindsClosed param) : argParams results = [] := by
  cases args with
  | nil =>
    cases h
    rfl
  | cons arg rest =>
    obtain ⟨next, hnext, h⟩ := bind_eq_ok.mp h
    obtain ⟨nexts, hnexts, rfl⟩ := bind_pure_eq_ok.mp h
    rw [argParams,
      params_applyGenericArg hnext fun param hparam => hclosed param (List.mem_append_left _ hparam),
      params_applyGenericArgs hnexts fun param hparam =>
        hclosed param (List.mem_append_right _ hparam)]
    rfl

end

/-- A type whose parameters are all bound to closed arguments becomes parameter-free. -/
theorem params_apply {type result : ResolvedDeclType P B N} (h : s.apply type = .ok result)
    (hclosed : ∀ param ∈ type.params, s.BindsClosed param) : result.params = [] := by
  cases type with
  | value valueType =>
    obtain ⟨next, hnext, rfl⟩ := bind_pure_eq_ok.mp h
    exact params_applyValue hnext hclosed
  | indexed element indexes =>
    obtain ⟨next, hnext, h⟩ := bind_eq_ok.mp h
    obtain ⟨nexts, hnexts, rfl⟩ := bind_pure_eq_ok.mp h
    rw [ResolvedDeclType.params] at hclosed ⊢
    rw [params_applyValue hnext fun param hparam => hclosed param (List.mem_append_left _ hparam),
      List.nil_append, List.flatMap_eq_nil_iff]
    intro axis haxis
    obtain ⟨index, hindex, happly⟩ :=
      Checked.exists_of_forall₂_right (NonEmpty.tryMapRef_eq_ok hnexts) haxis
    refine params_applyIndex happly fun param hparam => hclosed param ?_
    exact List.mem_append_right _ (List.mem_flatMap.mpr ⟨index, hindex, hparam⟩)

/-! ## Composition -/

/-- `u` binds what `s` binds to the `t`-instance of its binding, and the rest as `t` does. -/
structure ComposesTo (s t u : Substitution P B N) : Prop where
  dims : ∀ name, (match s.dims name with
    | some dim => some <$> t.applyDimArg dim
    | none => .ok (t.dims name)) = .ok (u.dims name)
  indexes : ∀ name, (match s.indexes name with
    | some index => some <$> t.applyIndex index
    | none => .ok (t.indexes name)) = .ok (u.indexes name)
  nats : ∀ name, ∃ span, (match s.nats name with
    | some form => some <$> t.applyNat form span
    | none => .ok (t.nats name)) = .ok (u.nats name)
  types : ∀ name, (match s.types name with
    | some valueType => some <$> t.applyValue valueType
    | none => .ok (t.types name)) = .ok (u.types name)

theorem ComposesTo.assign_eq {t u : Substitution P B N} (h : ComposesTo s t u)
    (env : Assignment P B N) : u.assign env = s.assign (t.assign env) := by
  have hdims : (u.assign env).dims = (s.assign (t.assign env)).dims := by
    funext name
    have hname := h.dims name
    rw [assign_dims, assign_dims, assign_dims]
    cases hs : s.dims name with
    | none =>
      rw [hs] at hname
      rw [← Except.ok.inj hname]
      rfl
    | some dim =>
      rw [hs] at hname
      obtain ⟨result, hresult, hu⟩ := map_eq_ok.mp hname
      rw [← hu]
      exact t.denote_applyDimArg hresult
  have hindexes : (u.assign env).indexes = (s.assign (t.assign env)).indexes := by
    funext name
    have hname := h.indexes name
    rw [assign_indexes, assign_indexes, assign_indexes]
    cases hs : s.indexes name with
    | none =>
      rw [hs] at hname
      rw [← Except.ok.inj hname]
      rfl
    | some index =>
      rw [hs] at hname
      obtain ⟨result, hresult, hu⟩ := map_eq_ok.mp hname
      rw [← hu]
      exact t.denote_applyIndex hresult
  have hnats : (u.assign env).nats = (s.assign (t.assign env)).nats := by
    funext name
    obtain ⟨span, hname⟩ := h.nats name
    rw [assign_nats, assign_nats, assign_nats]
    cases hs : s.nats name with
    | none =>
      rw [hs] at hname
      rw [← Except.ok.inj hname]
      rfl
    | some form =>
      rw [hs] at hname
      obtain ⟨result, hresult, hu⟩ := map_eq_ok.mp hname
      rw [← hu]
      exact t.denote_applyNat hresult
  have htypes : (u.assign env).types = (s.assign (t.assign env)).types := by
    funext name
    have hname := h.types name
    rw [assign_types, assign_types, assign_types]
    cases hs : s.types name with
    | none =>
      rw [hs] at hname
      rw [← Except.ok.inj hname]
      rfl
    | some valueType =>
      rw [hs] at hname
      obtain ⟨result, hresult, hu⟩ := map_eq_ok.mp hname
      rw [← hu]
      exact t.denote_applyValue hresult
  cases hu : u.assign env
  cases hst : s.assign (t.assign env)
  rw [hu, hst] at hdims hindexes hnats htypes
  congr

/-- Substitution preserves meaning; hence one substitution after another means what the composed
one does, and closed bindings for all parameters leave none. -/
theorem substitution_preserves_meaning (P B N : Type) [LinearOrder P] [LinearOrder B] :
    (∀ (s : Substitution P B N) (type result : ResolvedDeclType P B N), s.apply type = .ok result →
      ∀ env, result.denote env = type.denote (s.assign env)) ∧
    (∀ (s t u : Substitution P B N) (type first second once : ResolvedDeclType P B N),
      ComposesTo s t u → s.apply type = .ok first → t.apply first = .ok second →
        u.apply type = .ok once → ∀ env, second.denote env = once.denote env) ∧
    (∀ (s : Substitution P B N) (type result : ResolvedDeclType P B N), s.apply type = .ok result →
      (∀ param ∈ type.params, s.BindsClosed param) → result.params = []) := by
  refine ⟨fun s type result h env => s.denote_apply h, ?_, fun s type result => params_apply⟩
  intro s t u type first second once hcompose hs ht hu env
  rw [t.denote_apply ht, s.denote_apply hs, u.denote_apply hu, hcompose.assign_eq]

/-! ## A nominal type instantiated twice

`Track<Length / D^2, N, F>[I]` where `D = E / Time`, `N = M`, `F = E` and `I = J`, then
`E = Length`, `M = 3` and `J = Leg`. Parameters, base dimensions and names are numbered.
-/

namespace Track

def two : Rational := ⟨2, 1, Nat.one_pos, by decide, by decide, RatioInt.one_le_max _⟩

def length : Dimension ℕ := .base 0

def time : Dimension ℕ := .base 1

def span : Span := ⟨0, 0⟩

def productDim : ResolvedDim ℕ ℕ :=
  .symbolic [.concrete length .one .mul, .genericParam 0 two .div span] span

def track : ResolvedDeclType ℕ ℕ ℕ :=
  .indexed (.struct 0 [.dim productDim, .nat (.fromVar 1) span, .type (.genericTypeParam 2 span)]
    span) (.singleton (.genericParam 3 span))

def lone (name : ℕ) : ResolvedDim ℕ ℕ := .symbolic [.genericParam name .one .mul span] span

def outer : Substitution ℕ ℕ ℕ where
  dims
    | 0 => some (.symbolic [.genericParam 10 .one .mul span, .concrete time .one .div] span)
    | _ => none
  nats
    | 1 => some (.fromVar 11)
    | _ => none
  types
    | 2 => some (.quantity (lone 10))
    | _ => none
  indexes
    | 3 => some (.genericParam 13 span)
    | _ => none

def inner : Substitution ℕ ℕ ℕ where
  dims
    | 10 => some (.concrete length)
    | _ => none
  nats
    | 11 => some (.fromConstant 3)
    | _ => none
  types _ := none
  indexes
    | 13 => some (.concrete 1 span)
    | _ => none

def composed : Substitution ℕ ℕ ℕ where
  dims
    | 0 => (inner.applyDimArg ((outer.dims 0).getD (lone 0))).toOption
    | name + 1 => inner.dims (name + 1)
  nats
    | 1 => some (.fromConstant 3)
    | name => inner.nats name
  types
    | 2 => some (.quantity (.concrete length))
    | _ => none
  indexes
    | 3 => some (.concrete 1 span)
    | name => inner.indexes name

theorem outer_applyNat : outer.applyNat (.fromVar 1) span = .ok (.fromVar 11) := by
  decide +kernel

theorem inner_applyNat : inner.applyNat (.fromVar 11) span = .ok (.fromConstant 3) := by
  decide +kernel

theorem composed_applyNat : composed.applyNat (.fromVar 1) span = .ok (.fromConstant 3) := by
  decide +kernel

theorem composesTo_composed : ComposesTo outer inner composed where
  dims
    | 0 => rfl
    | _ + 1 => rfl
  nats
    | 0 => ⟨span, rfl⟩
    | 1 => ⟨span, congrArg (some <$> ·) inner_applyNat⟩
    | _ + 2 => ⟨span, rfl⟩
  types
    | 0 => rfl
    | 1 => rfl
    | 2 => rfl
    | _ + 3 => rfl
  indexes
    | 0 => rfl
    | 1 => rfl
    | 2 => rfl
    | 3 => rfl
    | _ + 4 => rfl

def first : ResolvedDeclType ℕ ℕ ℕ :=
  .indexed (.struct 0 [.dim ((outer.applyDimArg productDim).toOption.getD productDim),
    .nat (.fromVar 11) span, .type (.quantity (lone 10))] span) (.singleton (.genericParam 13 span))

attribute [local simp] apply applyValue applyGenericArgs applyGenericArg

theorem outer_apply : outer.apply track = .ok first := by
  simp only [track, apply, applyValue, applyGenericArgs, applyGenericArg, outer_applyNat]
  rfl

theorem exists_inner_apply : ∃ second, inner.apply first = .ok second := by
  simp only [first, apply, applyValue, applyGenericArgs, applyGenericArg, inner_applyNat]
  exact ⟨_, rfl⟩

theorem exists_composed_apply : ∃ once, composed.apply track = .ok once := by
  simp only [track, apply, applyValue, applyGenericArgs, applyGenericArg, composed_applyNat]
  exact ⟨_, rfl⟩

theorem composed_closed : ∀ param ∈ track.params, composed.BindsClosed param := by
  have hparams : track.params = [.dim 0, .nat 1, .type 2, .index 3] := rfl
  rw [hparams]
  simp only [List.forall_mem_cons, List.not_mem_nil, false_implies, implies_true, and_true]
  exact ⟨⟨_, rfl, rfl⟩, ⟨_, rfl, rfl⟩, ⟨_, rfl, rfl⟩, ⟨_, rfl, rfl⟩⟩

theorem track_instantiated : ∃ second once, outer.apply track = .ok first ∧
    inner.apply first = .ok second ∧ composed.apply track = .ok once ∧ once.params = [] ∧
    (∀ env, first.denote env = track.denote (outer.assign env)) ∧
    ∀ env, second.denote env = once.denote env := by
  obtain ⟨hmeaning, hcompose, hclosed⟩ := substitution_preserves_meaning ℕ ℕ ℕ
  obtain ⟨second, hsecond⟩ := exists_inner_apply
  obtain ⟨once, honce⟩ := exists_composed_apply
  refine ⟨second, once, outer_apply, hsecond, honce, ?_, ?_, ?_⟩
  · exact hclosed composed track once honce composed_closed
  · exact hmeaning outer track first outer_apply
  · exact hcompose outer inner composed track first second once composesTo_composed outer_apply
      hsecond honce

end Track

end Substitution

end ProvenGraphcal
