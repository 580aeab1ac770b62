import ProvenGraphcal.Algebra.SparseMonomial

/-!
# Type-level Nat forms

Polynomials with `u64` coefficients and exponents, kept as a map from monomials to non-zero
coefficients. Every operation is checked; none wraps.
-/

namespace ProvenGraphcal

inductive NatOverflowError
  | overflow
  deriving DecidableEq

/-- A `u64`. -/
abbrev U64 := Fin (2 ^ 64)

instance u64_neZero : NeZero (2 ^ 64) := ⟨by decide⟩

/-- The `u64` of value `n`, or the overflow that computing it reports. -/
def checkedU64 (n : ℕ) : Except NatOverflowError U64 :=
  if h : n < 2 ^ 64 then .ok ⟨n, h⟩ else .error .overflow

theorem checkedU64_eq_ok {n : ℕ} {u : U64} : checkedU64 n = .ok u ↔ u.val = n := by
  unfold checkedU64
  split_ifs with h
  · rw [Except.ok.injEq, Fin.ext_iff]
    exact eq_comm
  · refine ⟨nofun, fun hu => ?_⟩
    exact absurd (hu ▸ u.isLt) h

instance : MonomialExponent U64 NatOverflowError where
  isZero u := u.val == 0
  checkedAdd a b := checkedU64 (a.val + b.val)
  checkedMul a b := checkedU64 (a.val * b.val)

instance : ExponentValue U64 ℕ := ⟨Fin.val⟩

theorem value_u64 (u : U64) : value u = u.val := rfl

instance : LawfulExponent U64 where
  value_injective := Fin.val_injective
  exists_zero := ⟨0, rfl⟩
  isZero_iff u := by
    change (u.val == 0) = true ↔ u.val = 0
    exact beq_iff_eq
  checkedAdd_eq_ok := checkedU64_eq_ok
  checkedMul_eq_ok := checkedU64_eq_ok

variable {GenericParamId : Type} [LinearOrder GenericParamId]

/-- A product of variables raised to natural number exponents. -/
abbrev Monomial (GenericParamId : Type) [LinearOrder GenericParamId] :=
  SparseMonomial GenericParamId U64

/-- The terms of a polynomial under construction: zero coefficients may still occur. -/
abbrev Terms (GenericParamId : Type) [LinearOrder GenericParamId] :=
  SortedMap (Monomial GenericParamId) U64

/-- `BTreeMap::retain` of the non-zero coefficients. -/
def retainNonZero (terms : Terms GenericParamId) : Terms GenericParamId :=
  terms.filter fun _ c => !isZero c

theorem get?_retainNonZero (terms : Terms GenericParamId) (m : Monomial GenericParamId) :
    (retainNonZero terms).get? m = (terms.get? m).filter fun c => !isZero c := by
  rw [retainNonZero, SortedMap.filter, SortedMap.get?_filterMap]
  cases terms.get? m with
  | none => rfl
  | some c => by_cases h : isZero c = true <;> simp [h, Option.filter_some]

theorem retainNonZero_zeroFree (terms : Terms GenericParamId) :
    ZeroFree (retainNonZero terms) := by
  intro m c h
  rw [get?_retainNonZero, Option.filter_eq_some_iff] at h
  simpa using h.2

/-- A normalized polynomial: monomials mapped to their non-zero coefficients. -/
structure NatPolyForm (GenericParamId : Type) [LinearOrder GenericParamId] where
  terms : Terms GenericParamId
  zeroFree : ZeroFree terms

namespace NatPolyForm

theorem ext_terms {p q : NatPolyForm GenericParamId} (h : p.terms = q.terms) : p = q := by
  cases p
  cases q
  congr

instance : DecidableEq (NatPolyForm GenericParamId) := fun p q =>
  decidable_of_iff (p.terms = q.terms) ⟨ext_terms, congrArg terms⟩

def fromConstant (c : U64) : NatPolyForm GenericParamId :=
  if h : isZero c = true then ⟨.empty, zeroFree_empty⟩
  else ⟨SortedMap.empty.insert .one c, zeroFree_empty.insert (Bool.not_eq_true _ ▸ h)⟩

def fromVar (name : GenericParamId) : NatPolyForm GenericParamId :=
  ⟨SortedMap.empty.insert (.single name 1) 1, zeroFree_empty.insert rfl⟩

/-- `*terms.entry(mono).or_insert(0)` increased by `coeff`. -/
def addTerm (terms : Terms GenericParamId) (mono : Monomial GenericParamId) (coeff : U64) :
    Except NatOverflowError (Terms GenericParamId) := do
  let entry := (terms.get? mono).getD 0
  let sum ← checkedAdd entry coeff
  return terms.insert mono sum

def add (p other : NatPolyForm GenericParamId) :
    Except NatOverflowError (NatPolyForm GenericParamId) := do
  let terms ← other.terms.entries.foldlM (fun terms term => addTerm terms term.1 term.2) p.terms
  return ⟨retainNonZero terms, retainNonZero_zeroFree terms⟩

def mulTerm (t₁ : Monomial GenericParamId × U64) (terms : Terms GenericParamId)
    (t₂ : Monomial GenericParamId × U64) : Except NatOverflowError (Terms GenericParamId) := do
  let mono ← t₁.1.tryMul t₂.1
  let term ← checkedMul t₁.2 t₂.2
  addTerm terms mono term

/-- Multiply two polynomials (distributive law). -/
def mul (p other : NatPolyForm GenericParamId) :
    Except NatOverflowError (NatPolyForm GenericParamId) := do
  let terms ← p.terms.entries.foldlM
    (fun terms t₁ => other.terms.entries.foldlM (mulTerm t₁) terms) .empty
  return ⟨retainNonZero terms, retainNonZero_zeroFree terms⟩

def pow (p : NatPolyForm GenericParamId) (exponent : ℕ) :
    Except NatOverflowError (NatPolyForm GenericParamId) :=
  if h0 : exponent = 0 then .ok (fromConstant 1)
  else if h1 : exponent = 1 then .ok p
  else do
    let half ← p.pow (exponent / 2)
    let square ← half.mul half
    if exponent % 2 = 0 then
      return square
    else
      square.mul p
  termination_by exponent

/-- The form that replaces `variable` (the variable itself when it is not bound). -/
def replacement (bindings : GenericParamId → Option (NatPolyForm GenericParamId))
    (variable' : GenericParamId) : NatPolyForm GenericParamId :=
  (bindings variable').getD (fromVar variable')

def substituteTerm (bindings : GenericParamId → Option (NatPolyForm GenericParamId))
    (term : Monomial GenericParamId × U64) :
    Except NatOverflowError (NatPolyForm GenericParamId) :=
  term.1.factors.entries.foldlM (fun product factor => do
    let power ← (replacement bindings factor.1).pow factor.2.val
    product.mul power) (fromConstant term.2)

/-- Substitute variables with other normalized Nat forms. -/
def substituteForms (p : NatPolyForm GenericParamId)
    (bindings : GenericParamId → Option (NatPolyForm GenericParamId)) :
    Except NatOverflowError (NatPolyForm GenericParamId) :=
  p.terms.entries.foldlM (fun sum term => do
    let term ← substituteTerm bindings term
    sum.add term) (fromConstant 0)

section Evaluation

variable {E : Type}

/-- `var^exponent`: the exponent must fit a `u32`, the power a `u64`. -/
def evalFactor (fromOverflow : NatOverflowError → E) (base exponent : U64) : Except E U64 :=
  if exponent.val < 2 ^ 32 then
    (checkedU64 (base.val ^ exponent.val)).mapError fromOverflow
  else .error (fromOverflow .overflow)

def evaluateMonomial (fromOverflow : NatOverflowError → E) (binding : GenericParamId → Except E U64)
    (monomial : Monomial GenericParamId) (coefficient : U64) : Except E U64 :=
  monomial.factors.entries.foldlM (fun product factor => do
    let factor ← evalFactor fromOverflow (← binding factor.1) factor.2
    (checkedMul product factor).mapError fromOverflow) coefficient

/-- Evaluate with a fallible binding lookup supplied by the caller. -/
def evaluateWith (fromOverflow : NatOverflowError → E) (binding : GenericParamId → Except E U64)
    (p : NatPolyForm GenericParamId) : Except E U64 :=
  p.terms.entries.foldlM (fun sum term => do
    let term ← evaluateMonomial fromOverflow binding term.1 term.2
    (checkedAdd sum term).mapError fromOverflow) 0

end Evaluation

/-- The constant term (coefficient of the empty monomial). -/
def constant (p : NatPolyForm GenericParamId) : U64 := (p.terms.get? .one).getD 0

def isConstant (p : NatPolyForm GenericParamId) : Bool := p.terms.keys.all SparseMonomial.isEmpty

def constantValue (p : NatPolyForm GenericParamId) : Option U64 :=
  if p.isConstant then some p.constant else none

/-- Every coefficient is at most the other form's. -/
def isLeq (p other : NatPolyForm GenericParamId) : Bool :=
  p.terms.entries.all fun term => term.2 ≤ (other.terms.get? term.1).getD 0

/-- `variables`: those that occur in any monomial. -/
def variableSet (p : NatPolyForm GenericParamId) : Finset GenericParamId :=
  (p.terms.keys.flatMap fun mono => mono.factors.keys).toFinset

end NatPolyForm

end ProvenGraphcal
