import Mathlib.Algebra.MvPolynomial.Funext
import Mathlib.Algebra.MvPolynomial.Monad
import ProvenGraphcal.Algebra.NatPolyForm

/-!
# The polynomial that a Nat form stands for

`toMvPoly` reads a form as a multivariate polynomial. Forms with the same polynomial are equal,
each form operation computes the operation on polynomials, and evaluation computes its value.
-/

namespace ProvenGraphcal.NatPolyForm

open MvPolynomial (monomial X C)
open Checked (bind_eq_ok bind_pure_eq_ok foldlM_prod foldlM_sum mapError_eq_ok)

variable {GenericParamId : Type} [LinearOrder GenericParamId]

/-- The value of a monomial under an assignment. -/
def denoteMonomial (σ : GenericParamId → ℕ) (m : Monomial GenericParamId) : ℕ :=
  (m.factors.entries.map fun factor => σ factor.1 ^ factor.2.val).prod

/-- The polynomial function on the naturals that a form denotes. -/
def denote (p : NatPolyForm GenericParamId) (σ : GenericParamId → ℕ) : ℕ :=
  (p.terms.entries.map fun term => term.2.val * denoteMonomial σ term.1).sum

/-- Coefficients of monomials as a polynomial. -/
noncomputable def polyHom : (Monomial GenericParamId →₀ ℕ) →+ MvPolynomial GenericParamId ℕ :=
  Finsupp.liftAddHom fun m => (monomial m.toFinsupp).toAddMonoidHom

noncomputable def toMvPoly (p : NatPolyForm GenericParamId) : MvPolynomial GenericParamId ℕ :=
  polyHom (exponents p.terms)

@[simp] theorem polyHom_single (m : Monomial GenericParamId) (c : ℕ) :
    polyHom (Finsupp.single m c) = monomial m.toFinsupp c := by
  simp [polyHom]

theorem coeff_polyHom (f : Monomial GenericParamId →₀ ℕ) (m : Monomial GenericParamId) :
    (polyHom f).coeff m.toFinsupp = f m := by
  induction f using Finsupp.induction_linear with
  | zero => simp
  | add f g hf hg => simp [hf, hg]
  | single k c =>
    rw [polyHom_single, MvPolynomial.coeff_monomial, Finsupp.single_apply]
    by_cases h : k = m
    · simp [h]
    · rw [if_neg h, if_neg fun he => h (SparseMonomial.toFinsupp_injective he)]

variable {p : NatPolyForm GenericParamId}

theorem eq_of_toMvPoly {q : NatPolyForm GenericParamId} (h : p.toMvPoly = q.toMvPoly) :
    p = q := by
  refine ext_terms (exponents_injective p.zeroFree q.zeroFree ?_)
  ext m
  rw [← coeff_polyHom, ← coeff_polyHom]
  exact congrArg (MvPolynomial.coeff m.toFinsupp) h

/-- A product over an exponent function, factor by factor. -/
theorem prod_toFinsupp {M : Type} [CommMonoid M] (f : GenericParamId → M)
    (m : Monomial GenericParamId) :
    (m.toFinsupp.prod fun x n => f x ^ n) =
      (m.factors.entries.map fun e => f e.1 ^ e.2.val).prod := by
  unfold SparseMonomial.toFinsupp
  rw [exponents_eq_factors_sum]
  induction m.factors.entries with
  | nil => simp
  | cons e rest ih =>
    have hsingle : ((Finsupp.single e.1 (value e.2)).prod fun x n => f x ^ n) = f e.1 ^ e.2.val :=
      Finsupp.prod_single_index (pow_zero _)
    rw [List.map_cons, List.sum_cons, List.map_cons, List.prod_cons, ← ih, ← hsingle]
    exact Finsupp.prod_add_index' (fun x => pow_zero _) fun x m n => pow_add _ _ _

theorem eval_monomial (σ : GenericParamId → ℕ) (m : Monomial GenericParamId) (c : ℕ) :
    MvPolynomial.eval σ (monomial m.toFinsupp c) = c * denoteMonomial σ m := by
  rw [MvPolynomial.eval_monomial, denoteMonomial, prod_toFinsupp]

theorem polyHom_exponents (terms : Terms GenericParamId) :
    polyHom (exponents terms) =
      (terms.entries.map fun t => monomial t.1.toFinsupp t.2.val).sum := by
  rw [exponents_eq_factors_sum, map_list_sum, List.map_map]
  refine congrArg List.sum (List.map_congr_left fun t _ => ?_)
  exact polyHom_single t.1 t.2.val

theorem denote_eq_eval (p : NatPolyForm GenericParamId) (σ : GenericParamId → ℕ) :
    p.denote σ = MvPolynomial.eval σ p.toMvPoly := by
  rw [toMvPoly, polyHom_exponents, map_list_sum, List.map_map]
  refine congrArg List.sum (List.map_congr_left fun t _ => ?_)
  exact (eval_monomial σ t.1 t.2.val).symm

/-- Forms that agree at every assignment of naturals are the same form. -/
theorem eq_of_denote {q : NatPolyForm GenericParamId} (h : ∀ σ, p.denote σ = q.denote σ) :
    p = q := by
  -- The naturals are infinite in the integral domain ℤ, where agreement decides equality.
  have hinj : Function.Injective (MvPolynomial.map (σ := GenericParamId) (Int.ofNatHom)) :=
    MvPolynomial.map_injective _ Nat.cast_injective
  apply eq_of_toMvPoly
  apply hinj
  refine MvPolynomial.funext_set (fun _ => Set.range ((↑) : ℕ → ℤ))
    (fun _ => Set.infinite_range_of_injective Nat.cast_injective) fun x hx => ?_
  choose σ hσ using fun i => hx i (Set.mem_univ i)
  have hcast : ∀ r : MvPolynomial GenericParamId ℕ,
      MvPolynomial.eval x (MvPolynomial.map Int.ofNatHom r) = (MvPolynomial.eval σ r : ℕ) := by
    intro r
    rw [MvPolynomial.eval_map, ← funext hσ]
    exact (MvPolynomial.eval₂_comp Int.ofNatHom σ r).symm
  rw [hcast, hcast, ← denote_eq_eval, ← denote_eq_eval, h]

/-! ## Arithmetic -/

theorem exponents_addTerm {terms next : Terms GenericParamId} {mono : Monomial GenericParamId}
    {coeff : U64} (h : addTerm terms mono coeff = .ok next) :
    exponents next = exponents terms + Finsupp.single mono coeff.val := by
  obtain ⟨sum, hsum, rfl⟩ := bind_pure_eq_ok.mp h
  have hval := LawfulExponent.checkedAdd_eq_ok.mp hsum
  have hentry : value ((terms.get? mono).getD 0) = exponents terms mono := by
    cases hm : terms.get? mono with
    | none => exact (exponents_of_absent hm).symm
    | some c => exact (exponents_of_get? hm).symm
  ext m
  rw [exponents_insert, Finsupp.add_apply, Finsupp.single_apply, hval, hentry]
  by_cases hm : m = mono
  · simp [hm, value_u64]
  · simp [hm, Ne.symm hm]

theorem exponents_retainNonZero (terms : Terms GenericParamId) :
    exponents (retainNonZero terms) = exponents terms := by
  ext m
  rw [exponents_apply, exponents_apply, get?_retainNonZero]
  cases terms.get? m with
  | none => rfl
  | some c =>
    rw [Option.filter_some]
    split_ifs with h
    · rfl
    · have hz : value c = 0 := (LawfulExponent.isZero_iff c).mp (by simpa using h)
      simp [hz]

theorem toMvPoly_fromConstant (c : U64) :
    (fromConstant c : NatPolyForm GenericParamId).toMvPoly = C c.val := by
  have hone : (SparseMonomial.one : Monomial GenericParamId).toFinsupp = 0 :=
    SparseMonomial.toFinsupp_one
  unfold fromConstant toMvPoly
  split_ifs with h
  · have hz : c.val = 0 := (LawfulExponent.isZero_iff c).mp h
    simp [hz]
  · have hexp : exponents ((SortedMap.empty : Terms GenericParamId).insert .one c) =
        Finsupp.single .one c.val := by
      ext m
      rw [exponents_insert, exponents_empty, Finsupp.single_apply]
      simp [eq_comm, value_u64]
    rw [hexp, polyHom_single, hone]
    rfl

theorem toMvPoly_fromVar (name : GenericParamId) : (fromVar name).toMvPoly = X name := by
  unfold fromVar toMvPoly
  have hexp : exponents ((SortedMap.empty : Terms GenericParamId).insert (.single name 1) 1) =
      Finsupp.single (.single name 1) 1 := by
    ext m
    rw [exponents_insert, exponents_empty, Finsupp.single_apply]
    simp [eq_comm, value_u64]
  rw [hexp, polyHom_single, SparseMonomial.toFinsupp_single]
  rfl

variable {l : List (Monomial GenericParamId × U64)}

theorem exponents_addTerms {terms result : Terms GenericParamId}
    (h : l.foldlM (fun terms t => addTerm terms t.1 t.2) terms = .ok result) :
    exponents result =
      exponents terms + (l.map fun t => Finsupp.single t.1 (value t.2)).sum := by
  exact foldlM_sum exponents h fun _ _ _ hnext => exponents_addTerm hnext

theorem toMvPoly_add {q r : NatPolyForm GenericParamId} (h : p.add q = .ok r) :
    r.toMvPoly = p.toMvPoly + q.toMvPoly := by
  obtain ⟨terms, hterms, rfl⟩ := bind_pure_eq_ok.mp h
  unfold toMvPoly
  rw [exponents_retainNonZero, exponents_addTerms hterms, ← exponents_eq_factors_sum, map_add]

theorem polyHom_mulTerm {t₁ t₂ : Monomial GenericParamId × U64} {terms next : Terms GenericParamId}
    (h : mulTerm t₁ terms t₂ = .ok next) :
    polyHom (exponents next) = polyHom (exponents terms) +
      monomial t₁.1.toFinsupp t₁.2.val * monomial t₂.1.toFinsupp t₂.2.val := by
  obtain ⟨mono, hmono, h⟩ := bind_eq_ok.mp h
  obtain ⟨term, hterm, hnext⟩ := bind_eq_ok.mp h
  have hval : term.val = t₁.2.val * t₂.2.val := LawfulExponent.checkedMul_eq_ok.mp hterm
  rw [exponents_addTerm hnext, map_add, polyHom_single, hval,
    SparseMonomial.tryMul_eq_ok.mp hmono, MvPolynomial.monomial_mul]

theorem polyHom_mulRow {t₁ : Monomial GenericParamId × U64} {terms result : Terms GenericParamId}
    (h : l.foldlM (mulTerm t₁) terms = .ok result) :
    polyHom (exponents result) = polyHom (exponents terms) +
      monomial t₁.1.toFinsupp t₁.2.val *
        (l.map fun t => monomial t.1.toFinsupp t.2.val).sum := by
  rw [← List.sum_map_mul_left]
  exact foldlM_sum (polyHom ∘ exponents) h fun _ _ _ hnext => polyHom_mulTerm hnext

theorem polyHom_mulRows {l' : List (Monomial GenericParamId × U64)}
    {terms result : Terms GenericParamId}
    (h : l.foldlM (fun terms t₁ => l'.foldlM (mulTerm t₁) terms) terms = .ok result) :
    polyHom (exponents result) = polyHom (exponents terms) +
      (l.map fun t => monomial t.1.toFinsupp t.2.val).sum *
        (l'.map fun t => monomial t.1.toFinsupp t.2.val).sum := by
  rw [← List.sum_map_mul_right]
  exact foldlM_sum (polyHom ∘ exponents) h fun _ _ _ hnext => polyHom_mulRow hnext

theorem toMvPoly_mul {q r : NatPolyForm GenericParamId} (h : p.mul q = .ok r) :
    r.toMvPoly = p.toMvPoly * q.toMvPoly := by
  obtain ⟨terms, hterms, rfl⟩ := bind_pure_eq_ok.mp h
  unfold toMvPoly
  rw [exponents_retainNonZero, polyHom_mulRows hterms, polyHom_exponents p.terms,
    polyHom_exponents q.terms, exponents_empty, map_zero, zero_add]

variable {n : ℕ}

theorem toMvPoly_pow {r : NatPolyForm GenericParamId} (h : p.pow n = .ok r) :
    r.toMvPoly = p.toMvPoly ^ n := by
  induction n using Nat.strong_induction_on generalizing r with
  | _ n ih =>
    rw [pow] at h
    have hsquare : ∀ half square : NatPolyForm GenericParamId, 2 ≤ n → p.pow (n / 2) = .ok half →
        half.mul half = .ok square → square.toMvPoly = p.toMvPoly ^ (2 * (n / 2)) := by
      intro half square hn hhalf hmul
      rw [toMvPoly_mul hmul, ih (n / 2) (by omega) hhalf, ← pow_add, two_mul]
    split_ifs at h with h0 h1 hpar
    · cases h
      rw [h0, pow_zero, toMvPoly_fromConstant]
      exact C.map_one
    · cases h
      rw [h1, pow_one]
    · obtain ⟨half, hhalf, h⟩ := bind_eq_ok.mp h
      obtain ⟨square, hmul, h⟩ := bind_eq_ok.mp h
      cases h
      rw [hsquare half r (by omega) hhalf hmul]
      congr 1
      omega
    · obtain ⟨half, hhalf, h⟩ := bind_eq_ok.mp h
      obtain ⟨square, hmul, h⟩ := bind_eq_ok.mp h
      rw [toMvPoly_mul h, hsquare half square (by omega) hhalf hmul, ← pow_succ]
      congr 1
      omega

section Substitution

variable (bindings : GenericParamId → Option (NatPolyForm GenericParamId))

theorem toMvPoly_substituteFactors {l : List (GenericParamId × U64)}
    {product result : NatPolyForm GenericParamId}
    (h : l.foldlM (fun product factor => do
      let power ← (replacement bindings factor.1).pow factor.2.val
      product.mul power) product = .ok result) :
    result.toMvPoly = product.toMvPoly *
      (l.map fun factor => (replacement bindings factor.1).toMvPoly ^ factor.2.val).prod := by
  refine foldlM_prod toMvPoly h fun factor product next hnext => ?_
  obtain ⟨power, hpower, hmul⟩ := bind_eq_ok.mp hnext
  rw [toMvPoly_mul hmul, toMvPoly_pow hpower]

theorem bind_monomial (t : Monomial GenericParamId × U64) :
    MvPolynomial.bind₁ (fun x => (replacement bindings x).toMvPoly)
        (monomial t.1.toFinsupp t.2.val) =
      C t.2.val * (t.1.factors.entries.map fun factor =>
        (replacement bindings factor.1).toMvPoly ^ factor.2.val).prod := by
  rw [MvPolynomial.bind₁_monomial]
  congr 1
  exact prod_toFinsupp (fun x => (replacement bindings x).toMvPoly) t.1

theorem toMvPoly_substituteTerms {sum result : NatPolyForm GenericParamId}
    (h : l.foldlM (fun sum term => do
      let term ← substituteTerm bindings term
      sum.add term) sum = .ok result) :
    result.toMvPoly = sum.toMvPoly +
      MvPolynomial.bind₁ (fun x => (replacement bindings x).toMvPoly)
        (l.map fun t => monomial t.1.toFinsupp t.2.val).sum := by
  rw [map_list_sum, List.map_map]
  refine foldlM_sum toMvPoly h fun term sum next hnext => ?_
  obtain ⟨term', hterm', hadd⟩ := bind_eq_ok.mp hnext
  rw [toMvPoly_add hadd, Function.comp_apply, bind_monomial,
    toMvPoly_substituteFactors bindings hterm', toMvPoly_fromConstant]

theorem toMvPoly_substituteForms {r : NatPolyForm GenericParamId}
    (h : p.substituteForms bindings = .ok r) :
    r.toMvPoly = MvPolynomial.bind₁ (fun x => (replacement bindings x).toMvPoly) p.toMvPoly := by
  rw [toMvPoly_substituteTerms bindings h, toMvPoly_fromConstant, ← polyHom_exponents p.terms]
  simp [toMvPoly]

end Substitution

variable {σ : GenericParamId → ℕ}

section Evaluation

variable {E : Type} {fromOverflow : NatOverflowError → E} {binding : GenericParamId → Except E U64}

theorem evalFactor_eq {base exponent u : U64}
    (h : evalFactor fromOverflow base exponent = .ok u) : u.val = base.val ^ exponent.val := by
  unfold evalFactor at h
  split_ifs at h
  exact checkedU64_eq_ok.mp (mapError_eq_ok.mp h)

omit [LinearOrder GenericParamId] in
theorem evaluateFactors_eq (hσ : ∀ x u, binding x = .ok u → σ x = u.val)
    {l : List (GenericParamId × U64)} {product u : U64} (h : l.foldlM (fun product factor => do
      let factor ← evalFactor fromOverflow (← binding factor.1) factor.2
      (checkedMul product factor).mapError fromOverflow) product = .ok u) :
    u.val = product.val * (l.map fun factor => σ factor.1 ^ factor.2.val).prod := by
  refine foldlM_prod Fin.val h fun factor product next hnext => ?_
  obtain ⟨base, hbase, hnext⟩ := bind_eq_ok.mp hnext
  obtain ⟨power, hpower, hmul⟩ := bind_eq_ok.mp hnext
  have hval : next.val = product.val * power.val :=
    LawfulExponent.checkedMul_eq_ok.mp (mapError_eq_ok.mp hmul)
  rw [hval, evalFactor_eq hpower, ← hσ _ _ hbase]

theorem evaluateTerms_eq (hσ : ∀ x u, binding x = .ok u → σ x = u.val) {sum u : U64}
    (h : l.foldlM (fun sum term => do
      let term ← evaluateMonomial fromOverflow binding term.1 term.2
      (checkedAdd sum term).mapError fromOverflow) sum = .ok u) :
    u.val = sum.val + (l.map fun term => term.2.val * denoteMonomial σ term.1).sum := by
  refine foldlM_sum Fin.val h fun term sum next hnext => ?_
  obtain ⟨term', hterm', hadd⟩ := bind_eq_ok.mp hnext
  have hval : next.val = sum.val + term'.val :=
    LawfulExponent.checkedAdd_eq_ok.mp (mapError_eq_ok.mp hadd)
  rw [hval, evaluateFactors_eq hσ hterm']
  rfl

/-- Where evaluation succeeds, its result is the exact value of the denoted polynomial. -/
theorem evaluateWith_eq (hσ : ∀ x u, binding x = .ok u → σ x = u.val) {u : U64}
    (h : p.evaluateWith fromOverflow binding = .ok u) :
    u.val = p.denote σ := by
  have heval := evaluateTerms_eq hσ h
  rw [heval]
  exact Nat.zero_add _

end Evaluation

theorem denote_add {q r : NatPolyForm GenericParamId} (h : p.add q = .ok r)
    (σ : GenericParamId → ℕ) : r.denote σ = p.denote σ + q.denote σ := by
  simp only [denote_eq_eval, toMvPoly_add h, map_add]

theorem denote_mul {q r : NatPolyForm GenericParamId} (h : p.mul q = .ok r)
    (σ : GenericParamId → ℕ) : r.denote σ = p.denote σ * q.denote σ := by
  simp only [denote_eq_eval, toMvPoly_mul h, map_mul]

theorem denote_pow {r : NatPolyForm GenericParamId} (h : p.pow n = .ok r) (σ : GenericParamId → ℕ) :
    r.denote σ = p.denote σ ^ n := by
  simp only [denote_eq_eval, toMvPoly_pow h, map_pow]

theorem denote_substituteForms {bindings : GenericParamId → Option (NatPolyForm GenericParamId)}
    {r : NatPolyForm GenericParamId} (h : p.substituteForms bindings = .ok r)
    (σ : GenericParamId → ℕ) :
    r.denote σ = p.denote fun x => (replacement bindings x).denote σ := by
  rw [denote_eq_eval, denote_eq_eval, toMvPoly_substituteForms bindings h]
  simp only [denote_eq_eval]
  exact MvPolynomial.eval₂Hom_bind₁ (RingHom.id ℕ) σ _ p.toMvPoly

@[simp] theorem denote_fromConstant (c : U64) (σ : GenericParamId → ℕ) :
    (fromConstant c).denote σ = c.val := by
  rw [denote_eq_eval, toMvPoly_fromConstant, MvPolynomial.eval_C]

@[simp] theorem denote_fromVar (name : GenericParamId) (σ : GenericParamId → ℕ) :
    (fromVar name).denote σ = σ name := by
  rw [denote_eq_eval, toMvPoly_fromVar, MvPolynomial.eval_X]

theorem denote_congr {τ : GenericParamId → ℕ} (h : ∀ x ∈ p.variableSet, σ x = τ x) :
    p.denote σ = p.denote τ := by
  refine congrArg List.sum (List.map_congr_left fun t ht => ?_)
  refine congrArg (t.2.val * ·) (congrArg List.prod (List.map_congr_left fun factor hf => ?_))
  have hmem : factor.1 ∈ p.variableSet := by
    rw [variableSet, List.mem_toFinset, List.mem_flatMap]
    exact ⟨t.1, List.mem_map_of_mem ht, List.mem_map_of_mem hf⟩
  rw [h factor.1 hmem]

theorem isLeq_iff {q : NatPolyForm GenericParamId} :
    p.isLeq q = true ↔ exponents p.terms ≤ exponents q.terms := by
  refine ⟨fun h m => ?_, fun h => List.all_eq_true.mpr fun term hterm => ?_⟩
  swap
  · have hle := h term.1
    rw [exponents_of_get? (SortedMap.get?_eq_some.mpr hterm), exponents_apply] at hle
    cases hq : q.terms.get? term.1 <;> simpa [hq, value_u64] using hle
  cases hm : p.terms.get? m with
  | none =>
    rw [exponents_of_absent hm]
    exact Nat.zero_le _
  | some c =>
    have hle : c ≤ (q.terms.get? m).getD 0 := by
      simpa using List.all_eq_true.mp h (m, c) (SortedMap.get?_eq_some.mp hm)
    rw [exponents_of_get? hm, exponents_apply]
    cases hq : q.terms.get? m with
    | none => simpa [hq, value_u64] using hle
    | some d => simpa [hq, value_u64] using hle

/-- The coefficientwise comparison is sound for every assignment of naturals. -/
theorem denote_le_of_isLeq {q : NatPolyForm GenericParamId} (h : p.isLeq q = true)
    (σ : GenericParamId → ℕ) : p.denote σ ≤ q.denote σ := by
  have hq : q.toMvPoly = p.toMvPoly + polyHom (exponents q.terms - exponents p.terms) := by
    rw [toMvPoly, toMvPoly, ← map_add, add_tsub_cancel_of_le (isLeq_iff.mp h)]
  rw [denote_eq_eval, denote_eq_eval, hq, map_add]
  exact Nat.le_add_right _ _

/-- A checked operation whose successes are exact fails where no form is exact. -/
theorem error_of_not_exists {x : Except NatOverflowError (NatPolyForm GenericParamId)}
    {f : (GenericParamId → ℕ) → ℕ} (hexact : ∀ r, x = .ok r → ∀ σ, r.denote σ = f σ)
    (h : ¬∃ r : NatPolyForm GenericParamId, ∀ σ, r.denote σ = f σ) : x = .error .overflow := by
  cases x with
  | error e =>
    cases e
    rfl
  | ok r => exact absurd ⟨r, hexact r rfl⟩ h

/-- Nat forms are a faithful normal form of polynomials: evaluation commutes with every
operation, equality is equality of polynomial functions, and what does not fit is an error. -/
theorem natPolyForm_faithful (GenericParamId : Type) [LinearOrder GenericParamId] :
    (∀ (E : Type) (fromOverflow : NatOverflowError → E) (binding : GenericParamId → Except E U64)
        (p q r : NatPolyForm GenericParamId) (vp vq vr : U64),
        p.evaluateWith fromOverflow binding = .ok vp →
        q.evaluateWith fromOverflow binding = .ok vq →
        r.evaluateWith fromOverflow binding = .ok vr →
        (p.add q = .ok r → vr.val = vp.val + vq.val) ∧
        (p.mul q = .ok r → vr.val = vp.val * vq.val) ∧
        (∀ n : ℕ, p.pow n = .ok r → vr.val = vp.val ^ n)) ∧
      (∀ (E : Type) (fromOverflow : NatOverflowError → E) (binding : GenericParamId → Except E U64)
        (p r : NatPolyForm GenericParamId)
        (bindings : GenericParamId → Option (NatPolyForm GenericParamId)) (v w : U64),
        p.substituteForms bindings = .ok r → r.evaluateWith fromOverflow binding = .ok v →
        p.evaluateWith fromOverflow
          (fun x => (replacement bindings x).evaluateWith fromOverflow binding) = .ok w → v = w) ∧
      (∀ (E : Type) (fromOverflow : NatOverflowError → E) (σ : GenericParamId → U64)
        (p : NatPolyForm GenericParamId) (v : U64),
        p.evaluateWith fromOverflow (fun x => .ok (σ x)) = .ok v →
        v.val = p.denote fun x => (σ x).val) ∧
      (∀ p q : NatPolyForm GenericParamId, p = q ↔ ∀ σ, p.denote σ = q.denote σ) ∧
      (∀ p q : NatPolyForm GenericParamId,
        ((¬∃ r : NatPolyForm GenericParamId, ∀ σ, r.denote σ = p.denote σ + q.denote σ) →
          p.add q = .error .overflow) ∧
        ((¬∃ r : NatPolyForm GenericParamId, ∀ σ, r.denote σ = p.denote σ * q.denote σ) →
          p.mul q = .error .overflow) ∧
        (∀ n : ℕ, (¬∃ r : NatPolyForm GenericParamId, ∀ σ, r.denote σ = p.denote σ ^ n) →
          p.pow n = .error .overflow)) ∧
      (∀ (p : NatPolyForm GenericParamId)
        (bindings : GenericParamId → Option (NatPolyForm GenericParamId)),
        (¬∃ r : NatPolyForm GenericParamId,
          ∀ σ, r.denote σ = p.denote fun x => (replacement bindings x).denote σ) →
        p.substituteForms bindings = .error .overflow) := by
  refine ⟨?_, ?_, ?_, ?_, ?_, ?_⟩
  · intro E fromOverflow binding p q r vp vq vr hp hq hr
    obtain ⟨σ, hσ⟩ : ∃ σ : GenericParamId → ℕ, ∀ x u, binding x = .ok u → σ x = u.val :=
      ⟨fun x => (binding x).toOption.elim 0 Fin.val, fun x u h => by simp [h, Except.toOption]⟩
    rw [evaluateWith_eq hσ hp, evaluateWith_eq hσ hq, evaluateWith_eq hσ hr]
    exact ⟨fun h => denote_add h σ, fun h => denote_mul h σ, fun n h => denote_pow h σ⟩
  · intro E fromOverflow binding p r bindings v w h hv hw
    obtain ⟨σ, hσ⟩ : ∃ σ : GenericParamId → ℕ, ∀ x u, binding x = .ok u → σ x = u.val :=
      ⟨fun x => (binding x).toOption.elim 0 Fin.val, fun x u h => by simp [h, Except.toOption]⟩
    have hinner : ∀ x u, (replacement bindings x).evaluateWith fromOverflow binding = .ok u →
        (replacement bindings x).denote σ = u.val := fun x u hu => (evaluateWith_eq hσ hu).symm
    rw [Fin.ext_iff, evaluateWith_eq hσ hv, denote_substituteForms h, ← evaluateWith_eq hinner hw]
  · intro E fromOverflow σ p v hv
    refine evaluateWith_eq (fun x u h => ?_) hv
    cases h
    rfl
  · exact fun p q => ⟨fun h σ => by rw [h], eq_of_denote⟩
  · exact fun p q => ⟨error_of_not_exists fun r => denote_add,
      error_of_not_exists fun r => denote_mul, fun n => error_of_not_exists fun r => denote_pow⟩
  · exact fun p bindings => error_of_not_exists fun r => denote_substituteForms

/-- The comparison is a partial order, and it bounds what the forms evaluate to, whatever forms are
first substituted for parameters. -/
theorem isLeq_sound (GenericParamId : Type) [LinearOrder GenericParamId] :
    IsPartialOrder (NatPolyForm GenericParamId) (fun p q => p.isLeq q = true) ∧
    ∀ (E : Type) (fromOverflow : NatOverflowError → E) (binding : GenericParamId → Except E U64)
      (bindings : GenericParamId → Option (NatPolyForm GenericParamId))
      (p q p' q' : NatPolyForm GenericParamId) (vp vq : U64), p.isLeq q = true →
      p.substituteForms bindings = .ok p' → q.substituteForms bindings = .ok q' →
      p'.evaluateWith fromOverflow binding = .ok vp →
      q'.evaluateWith fromOverflow binding = .ok vq → vp ≤ vq := by
  constructor
  · refine @IsPartialOrder.mk _ _ (@IsPreorder.mk _ _ ⟨fun p => ?_⟩ ⟨fun p q r hp hq => ?_⟩)
      ⟨fun p q hp hq => ?_⟩
    · exact isLeq_iff.mpr le_rfl
    · exact isLeq_iff.mpr ((isLeq_iff.mp hp).trans (isLeq_iff.mp hq))
    · have hexponents := (isLeq_iff.mp hp).antisymm (isLeq_iff.mp hq)
      exact ext_terms (exponents_injective p.zeroFree q.zeroFree hexponents)
  · intro E fromOverflow binding bindings p q p' q' vp vq hle hp hq hvp hvq
    obtain ⟨σ, hσ⟩ : ∃ σ : GenericParamId → ℕ, ∀ x u, binding x = .ok u → σ x = u.val :=
      ⟨fun x => (binding x).toOption.elim 0 Fin.val, fun x u h => by simp [h, Except.toOption]⟩
    rw [Fin.le_def, evaluateWith_eq hσ hvp, evaluateWith_eq hσ hvq, denote_substituteForms hp,
      denote_substituteForms hq]
    exact denote_le_of_isLeq hle _

theorem one_isLeq_two : (1 : U64) ≤ 2 :=
  (isLeq_sound ℕ).2 Unit (fun _ => ()) (fun _ => .ok 0) (fun _ => none) (.fromConstant 1)
    (.fromConstant 2) (.fromConstant 1) (.fromConstant 2) 1 2 (by decide) (by decide) (by decide)
    (by decide) (by decide)

end ProvenGraphcal.NatPolyForm
