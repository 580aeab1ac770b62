import ProvenGraphcal.Algebra.NatPolyDenotation
import ProvenGraphcal.Types.Substitution

/-!
# What types mean, and what substitution does to it

A type means a type without parameters once each parameter is given a meaning of its sort: a
dimension is a rational combination of base dimensions, a Nat form a number.
-/

set_option linter.unusedSectionVars false

namespace ProvenGraphcal

open Checked (bind_eq_ok bind_pure_eq_ok mapError_eq_ok)

inductive IndexMeaning (N : Type)
  | declared (name : N)
  | finite (size : ℕ)

mutual

inductive TypeMeaning (B N : Type)
  | bool
  | int
  | datetime (scale : TimeScale)
  | quantity (dimension : B →₀ ℚ)
  | complex (dimension : B →₀ ℚ)
  | key (index : IndexMeaning N)
  | struct (name : N) (args : List (ArgMeaning B N))

inductive ArgMeaning (B N : Type)
  | dim (dimension : B →₀ ℚ)
  | index (index : IndexMeaning N)
  | nat (value : ℕ)
  | type (valueType : TypeMeaning B N)

end

inductive DeclMeaning (B N : Type)
  | value (valueType : TypeMeaning B N)
  | indexed (element : TypeMeaning B N) (axes : List (IndexMeaning N))

/-- A meaning of its sort for every parameter. -/
structure Assignment (P B N : Type) where
  dims : P → B →₀ ℚ
  indexes : P → IndexMeaning N
  nats : P → ℕ
  types : P → TypeMeaning B N

variable {P B N : Type} [LinearOrder P] [LinearOrder B]

def MulDivOp.sign : MulDivOp → ℚ
  | .mul => 1
  | .div => -1

noncomputable def ResolvedDimTerm.denote (env : P → B →₀ ℚ) : ResolvedDimTerm P B → B →₀ ℚ
  | .concrete dim power op => (op.sign * power.value) • dim.toFinsupp
  | .genericParam name power op _ => (op.sign * power.value) • env name

noncomputable def denoteTerms (env : P → B →₀ ℚ) (terms : List (ResolvedDimTerm P B)) : B →₀ ℚ :=
  (terms.map (ResolvedDimTerm.denote env)).sum

noncomputable def ResolvedDim.denote (env : P → B →₀ ℚ) : ResolvedDim P B → B →₀ ℚ
  | .concrete dim => dim.toFinsupp
  | .symbolic terms _ => denoteTerms env terms

def ResolvedIndex.denote (env : Assignment P B N) : ResolvedIndex P N → IndexMeaning N
  | .concrete name _ => .declared name
  | .genericParam name _ => env.indexes name
  | .finite form _ => .finite (form.denote env.nats)

mutual

noncomputable def ResolvedValueType.denote (env : Assignment P B N) :
    ResolvedValueType P B N → TypeMeaning B N
  | .bool => .bool
  | .int => .int
  | .datetime scale => .datetime scale
  | .quantity dimension => .quantity (dimension.denote env.dims)
  | .complex dimension _ => .complex (dimension.denote env.dims)
  | .key index _ => .key (index.denote env)
  | .struct name genericArgs _ => .struct name (denoteArgs env genericArgs)
  | .genericTypeParam name _ => env.types name

noncomputable def ResolvedGenericArg.denote (env : Assignment P B N) :
    ResolvedGenericArg P B N → ArgMeaning B N
  | .dim dimension => .dim (dimension.denote env.dims)
  | .index index => .index (index.denote env)
  | .nat form _ => .nat (form.denote env.nats)
  | .type valueType => .type (valueType.denote env)

noncomputable def denoteArgs (env : Assignment P B N) :
    List (ResolvedGenericArg P B N) → List (ArgMeaning B N)
  | [] => []
  | arg :: rest => arg.denote env :: denoteArgs env rest

end

noncomputable def ResolvedDeclType.denote (env : Assignment P B N) :
    ResolvedDeclType P B N → DeclMeaning B N
  | .value valueType => .value (valueType.denote env)
  | .indexed element indexes =>
    .indexed (element.denote env) (indexes.items.map (ResolvedIndex.denote env))

/-- Each bound parameter means what its binding does, the others what they did. -/
noncomputable def Substitution.assign (s : Substitution P B N) (env : Assignment P B N) :
    Assignment P B N where
  dims name := ((s.dims name).map (ResolvedDim.denote env.dims)).getD (env.dims name)
  indexes name := ((s.indexes name).map (ResolvedIndex.denote env)).getD (env.indexes name)
  nats name := ((s.nats name).map fun form => form.denote env.nats).getD (env.nats name)
  types name := ((s.types name).map (ResolvedValueType.denote env)).getD (env.types name)

namespace Substitution

variable (s : Substitution P B N) (env : Assignment P B N) (name : P)

theorem assign_dims : (s.assign env).dims name =
    ((s.dims name).map (ResolvedDim.denote env.dims)).getD (env.dims name) := rfl

theorem assign_indexes : (s.assign env).indexes name =
    ((s.indexes name).map (ResolvedIndex.denote env)).getD (env.indexes name) := rfl

theorem assign_nats : (s.assign env).nats name =
    ((s.nats name).map fun form => form.denote env.nats).getD (env.nats name) := rfl

theorem assign_types : (s.assign env).types name =
    ((s.types name).map (ResolvedValueType.denote env)).getD (env.types name) := rfl

end Substitution

/-! ## Dimensions -/

theorem sign_combineDimOps (outer inner : MulDivOp) :
    (combineDimOps outer inner).sign = outer.sign * inner.sign := by
  cases outer <;> cases inner <;> simp [combineDimOps, MulDivOp.sign]

theorem denoteTerms_append (env : P → B →₀ ℚ) (terms others : List (ResolvedDimTerm P B)) :
    denoteTerms env (terms ++ others) = denoteTerms env terms + denoteTerms env others := by
  unfold denoteTerms
  rw [List.map_append, List.sum_append]

theorem denoteTerms_cons (env : P → B →₀ ℚ) (term : ResolvedDimTerm P B)
    (terms : List (ResolvedDimTerm P B)) :
    denoteTerms env (term :: terms) = term.denote env + denoteTerms env terms := by
  unfold denoteTerms
  rw [List.map_cons, List.sum_cons]

variable {op : MulDivOp} {power : Rational}

theorem denote_expandDimTerm {env : P → B →₀ ℚ} {term result : ResolvedDimTerm P B}
    (h : expandDimTerm power op term = .ok result) :
    result.denote env = (op.sign * power.value) • term.denote env := by
  cases term with
  | concrete dim inner innerOp =>
    obtain ⟨product, hproduct, rfl⟩ := bind_pure_eq_ok.mp h
    rw [ResolvedDimTerm.denote, ResolvedDimTerm.denote, smul_smul, sign_combineDimOps,
      Ratio.mul_eq_ok.mp hproduct]
    congr 1
    ring
  | genericParam name inner innerOp span =>
    obtain ⟨product, hproduct, rfl⟩ := bind_pure_eq_ok.mp h
    rw [ResolvedDimTerm.denote, ResolvedDimTerm.denote, smul_smul, sign_combineDimOps,
      Ratio.mul_eq_ok.mp hproduct]
    congr 1
    ring

variable {terms : List (ResolvedDimTerm P B)}

theorem denote_expandDimTerms {env : P → B →₀ ℚ} {results : List (ResolvedDimTerm P B)}
    (h : List.Forall₂ (fun a b => expandDimTerm power op a = .ok b) terms results) :
    denoteTerms env results = (op.sign * power.value) • denoteTerms env terms := by
  induction h with
  | nil => simp [denoteTerms]
  | cons hterm _ ih =>
    rw [denoteTerms_cons, denoteTerms_cons, smul_add, denote_expandDimTerm hterm, ih]

theorem Dimension.toFinsupp_of_isDimensionless {d : Dimension B} (h : d.isDimensionless = true) :
    d.toFinsupp = 0 := by
  have hentries : d.exponents.factors.entries = [] := List.isEmpty_iff.mp h
  have hone : d.exponents = SparseMonomial.one := by
    apply SparseMonomial.ext_factors
    apply SortedMap.ext_perm
    rw [hentries]
    exact List.Perm.refl []
  rw [Dimension.toFinsupp, hone, SparseMonomial.toFinsupp_one]

/-- The outer power and operator distribute over every term of the argument. -/
theorem denote_expandDimArg {env : P → B →₀ ℚ} {arg : ResolvedDim P B}
    (h : expandDimArg arg power op = .ok terms) :
    denoteTerms env terms = (op.sign * power.value) • arg.denote env := by
  cases arg with
  | concrete dim =>
    rw [expandDimArg] at h
    split_ifs at h with hdim
    · cases h
      rw [ResolvedDim.denote, Dimension.toFinsupp_of_isDimensionless hdim, smul_zero]
      rfl
    · cases h
      rw [denoteTerms_cons, ResolvedDim.denote, ResolvedDimTerm.denote]
      exact add_zero _
  | symbolic inner span =>
    exact denote_expandDimTerms (Checked.mapM_eq_ok.mp h)

theorem toFinsupp_foldConcreteTerm {dimension result : Dimension B}
    {term : Dimension B × Rational × MulDivOp}
    (h : foldConcreteTerm dimension term = .ok result) :
    result.toFinsupp =
      dimension.toFinsupp + (term.2.2.sign * term.2.1.value) • term.1.toFinsupp := by
  obtain ⟨powered, hpowered, h⟩ := bind_eq_ok.mp h
  rw [Dimension.pow_eq_ok] at hpowered
  cases hop : term.2.2 with
  | mul =>
    rw [hop] at h
    rw [Dimension.checkedMul_eq_ok.mp h, hpowered, MulDivOp.sign, one_mul]
  | div =>
    rw [hop] at h
    rw [Dimension.checkedDiv_eq_ok.mp h, hpowered, MulDivOp.sign, neg_one_mul, neg_smul,
      sub_eq_add_neg]

theorem toFinsupp_foldConcrete {env : P → B →₀ ℚ}
    {concrete : List (Dimension B × Rational × MulDivOp)}
    (hconcrete : terms.mapM asConcreteTerm = some concrete) {init result : Dimension B}
    (h : concrete.foldlM foldConcreteTerm init = .ok result) :
    result.toFinsupp = init.toFinsupp + denoteTerms env terms := by
  induction terms generalizing concrete init with
  | nil =>
    cases hconcrete
    cases h
    exact (add_zero _).symm
  | cons term terms ih =>
    rw [List.mapM_cons] at hconcrete
    cases term with
    | genericParam name power op span => cases hconcrete
    | concrete dim power op =>
      obtain ⟨rest, hrest, rfl⟩ : ∃ rest, terms.mapM asConcreteTerm = some rest ∧
          (dim, power, op) :: rest = concrete := by
        obtain ⟨_, hfirst, hconcrete⟩ := Option.bind_eq_some_iff.mp hconcrete
        cases hfirst
        obtain ⟨rest, hrest, hcons⟩ := Option.bind_eq_some_iff.mp hconcrete
        exact ⟨rest, hrest, Option.some.inj hcons⟩
      rw [List.foldlM_cons, bind_eq_ok] at h
      obtain ⟨next, hnext, h⟩ := h
      rw [ih hrest h, toFinsupp_foldConcreteTerm hnext, denoteTerms_cons, ResolvedDimTerm.denote,
        add_assoc]

variable {span : Span}

theorem denote_collapseDimTerms {env : P → B →₀ ℚ} {result : ResolvedDim P B}
    (h : collapseDimTerms terms span = .ok result) :
    result.denote env = denoteTerms env terms := by
  unfold collapseDimTerms at h
  split at h
  · cases h
    rfl
  · rename_i concrete hconcrete
    obtain ⟨dimension, hfold, rfl⟩ := bind_pure_eq_ok.mp h
    rw [ResolvedDim.denote, toFinsupp_foldConcrete hconcrete hfold,
      Dimension.toFinsupp_dimensionless, zero_add]

namespace Substitution

variable (s : Substitution P B N)
variable {env : Assignment P B N}

theorem denote_substituteDimTerm {term : ResolvedDimTerm P B}
    (h : s.substituteDimTerm term = .ok terms) :
    denoteTerms env.dims terms = term.denote (s.assign env).dims := by
  have hsingle : denoteTerms env.dims [term] = term.denote env.dims := by
    rw [denoteTerms_cons]
    exact add_zero _
  cases term with
  | concrete dim power op =>
    cases h
    exact hsingle
  | genericParam name power op span =>
    rw [substituteDimTerm] at h
    cases hname : s.dims name with
    | none =>
      simp only [hname] at h
      cases h
      rw [hsingle, ResolvedDimTerm.denote, ResolvedDimTerm.denote, assign_dims, hname]
      rfl
    | some replacement =>
      simp only [hname] at h
      rw [denote_expandDimArg h, ResolvedDimTerm.denote, assign_dims, hname]
      rfl

theorem denote_substituteDimTerms {init : List (ResolvedDimTerm P B)}
    {result : List (ResolvedDimTerm P B)} (h : terms.foldlM (fun substituted term => do
      return substituted ++ (← s.substituteDimTerm term)) init = .ok result) :
    denoteTerms env.dims result =
      denoteTerms env.dims init + denoteTerms (s.assign env).dims terms := by
  refine Checked.foldlM_sum (denoteTerms env.dims) h fun term init next hnext => ?_
  obtain ⟨expanded, hexpanded, rfl⟩ := bind_pure_eq_ok.mp hnext
  rw [denoteTerms_append, s.denote_substituteDimTerm hexpanded]

theorem denote_applyDimArg {arg result : ResolvedDim P B} (h : s.applyDimArg arg = .ok result) :
    result.denote env.dims = arg.denote (s.assign env).dims := by
  unfold applyDimArg at h
  split at h
  · rename_i name hlone
    cases h
    obtain ⟨inner, outer, rfl⟩ := ResolvedDim.loneGenericParam_eq_some hlone
    have hlone : (ResolvedDim.symbolic [.genericParam name .one .mul inner] outer).denote
        (s.assign env).dims = (s.assign env).dims name := by
      simp [ResolvedDim.denote, denoteTerms, ResolvedDimTerm.denote, MulDivOp.sign]
    rw [hlone, assign_dims]
    cases s.dims name with
    | none => simp [ResolvedDim.denote, denoteTerms, ResolvedDimTerm.denote, MulDivOp.sign]
    | some replacement => rfl
  · split at h
    · rename_i terms span hlone
      obtain ⟨substituted, hsubstituted, hcollapse⟩ :=
        bind_eq_ok.mp (mapError_eq_ok.mp h)
      rw [denote_collapseDimTerms hcollapse, s.denote_substituteDimTerms hsubstituted]
      exact zero_add _
    · cases h
      rfl

theorem denote_applyNat {form result : NatPolyForm P} (h : s.applyNat form span = .ok result) :
    result.denote env.nats = form.denote (s.assign env).nats := by
  rw [NatPolyForm.denote_substituteForms (mapError_eq_ok.mp h)]
  congr 1
  funext name
  rw [assign_nats, NatPolyForm.replacement]
  cases s.nats name with
  | none => exact NatPolyForm.denote_fromVar name env.nats
  | some replacement => rfl

theorem denote_applyIndex {index result : ResolvedIndex P N} (h : s.applyIndex index = .ok result) :
    result.denote env = index.denote (s.assign env) := by
  cases index with
  | concrete name span =>
    cases h
    rfl
  | genericParam name span =>
    cases h
    rw [ResolvedIndex.denote, assign_indexes]
    cases s.indexes name with
    | none => rfl
    | some replacement => rfl
  | finite form span =>
    obtain ⟨next, hnext, rfl⟩ := bind_pure_eq_ok.mp h
    rw [ResolvedIndex.denote, ResolvedIndex.denote, s.denote_applyNat hnext]

mutual

theorem denote_applyValue {env : Assignment P B N} {valueType result : ResolvedValueType P B N}
    (h : s.applyValue valueType = .ok result) :
    result.denote env = valueType.denote (s.assign env) := by
  cases valueType with
  | bool | int | datetime scale =>
    cases h
    rfl
  | quantity dimension | complex dimension span =>
    obtain ⟨next, hnext, rfl⟩ := bind_pure_eq_ok.mp h
    rw [ResolvedValueType.denote, ResolvedValueType.denote, s.denote_applyDimArg hnext]
  | key index span =>
    obtain ⟨next, hnext, rfl⟩ := bind_pure_eq_ok.mp h
    rw [ResolvedValueType.denote, ResolvedValueType.denote, s.denote_applyIndex hnext]
  | struct name genericArgs span =>
    obtain ⟨next, hnext, rfl⟩ := bind_pure_eq_ok.mp h
    rw [ResolvedValueType.denote, ResolvedValueType.denote, denote_applyGenericArgs hnext]
  | genericTypeParam name span =>
    cases h
    rw [ResolvedValueType.denote, assign_types]
    cases s.types name with
    | none => rfl
    | some replacement => rfl

theorem denote_applyGenericArg {env : Assignment P B N} {arg result : ResolvedGenericArg P B N}
    (h : s.applyGenericArg arg = .ok result) : result.denote env = arg.denote (s.assign env) := by
  cases arg with
  | dim dimension =>
    obtain ⟨next, hnext, rfl⟩ := bind_pure_eq_ok.mp h
    rw [ResolvedGenericArg.denote, ResolvedGenericArg.denote, s.denote_applyDimArg hnext]
  | index index =>
    obtain ⟨next, hnext, rfl⟩ := bind_pure_eq_ok.mp h
    rw [ResolvedGenericArg.denote, ResolvedGenericArg.denote, s.denote_applyIndex hnext]
  | nat form span =>
    obtain ⟨next, hnext, rfl⟩ := bind_pure_eq_ok.mp h
    rw [ResolvedGenericArg.denote, ResolvedGenericArg.denote, s.denote_applyNat hnext]
  | type valueType =>
    obtain ⟨next, hnext, rfl⟩ := bind_pure_eq_ok.mp h
    rw [ResolvedGenericArg.denote, ResolvedGenericArg.denote, denote_applyValue hnext]

theorem denote_applyGenericArgs {env : Assignment P B N}
    {args results : List (ResolvedGenericArg P B N)} (h : s.applyGenericArgs args = .ok results) :
    denoteArgs env results = denoteArgs (s.assign env) args := by
  cases args with
  | nil =>
    cases h
    rfl
  | cons arg rest =>
    obtain ⟨next, hnext, h⟩ := bind_eq_ok.mp h
    obtain ⟨nexts, hnexts, rfl⟩ := bind_pure_eq_ok.mp h
    rw [denoteArgs, denoteArgs, denote_applyGenericArg hnext, denote_applyGenericArgs hnexts]

end

/-- Substituting in a type and giving its parameters the meanings of their bindings agree. -/
theorem denote_apply {type result : ResolvedDeclType P B N} (h : s.apply type = .ok result) :
    result.denote env = type.denote (s.assign env) := by
  cases type with
  | value valueType =>
    obtain ⟨next, hnext, rfl⟩ := bind_pure_eq_ok.mp h
    rw [ResolvedDeclType.denote, ResolvedDeclType.denote, s.denote_applyValue hnext]
  | indexed element indexes =>
    obtain ⟨next, hnext, h⟩ := bind_eq_ok.mp h
    obtain ⟨nexts, hnexts, rfl⟩ := bind_pure_eq_ok.mp h
    have haxes : nexts.items.map (ResolvedIndex.denote env) =
        indexes.items.map (ResolvedIndex.denote (s.assign env)) := by
      refine (List.forall₂_eq_eq_eq ▸ ?_)
      rw [List.forall₂_map_left_iff, List.forall₂_map_right_iff]
      exact (NonEmpty.tryMapRef_eq_ok hnexts).flip.imp fun b a hab => s.denote_applyIndex hab
    rw [ResolvedDeclType.denote, ResolvedDeclType.denote, s.denote_applyValue hnext, haxes]

end Substitution

end ProvenGraphcal
