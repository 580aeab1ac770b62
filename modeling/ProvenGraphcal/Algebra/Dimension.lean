import ProvenGraphcal.Algebra.SparseMonomial

namespace ProvenGraphcal

abbrev Rational := Ratio .i32

/-- A physical dimension: base dimensions raised to non-zero rational exponents. -/
structure Dimension (BaseDimId : Type) [LinearOrder BaseDimId] where
  exponents : SparseMonomial BaseDimId Rational

namespace Dimension

variable {BaseDimId : Type} [LinearOrder BaseDimId]

instance : DecidableEq (Dimension BaseDimId) := fun a b =>
  decidable_of_iff (a.exponents = b.exponents)
    ⟨fun h => by cases a; cases b; congr, congrArg exponents⟩

def dimensionless : Dimension BaseDimId := ⟨.one⟩

instance : Inhabited (Dimension BaseDimId) := ⟨dimensionless⟩

def base (id : BaseDimId) : Dimension BaseDimId := ⟨.single id .one⟩

def isDimensionless (d : Dimension BaseDimId) : Bool := d.exponents.isEmpty

/-- The exponent of a base dimension (zero if absent). -/
def getExponent (d : Dimension BaseDimId) (id : BaseDimId) : Rational :=
  (d.exponents.get id).getD .zero

def tryFromFactors (factors : List (BaseDimId × Rational)) :
    Except (MonomialFactorError BaseDimId) (Dimension BaseDimId) := do
  return ⟨← SparseMonomial.tryFromFactors factors⟩

def pow (d : Dimension BaseDimId) (exp : Rational) : Except RatioError (Dimension BaseDimId) := do
  return ⟨← d.exponents.tryPow exp⟩

def checkedMul (d other : Dimension BaseDimId) : Except RatioError (Dimension BaseDimId) := do
  return ⟨← d.exponents.tryMul other.exponents⟩

def checkedDiv (d other : Dimension BaseDimId) : Except RatioError (Dimension BaseDimId) := do
  return ⟨← d.exponents.tryDiv other.exponents⟩

def inverse (d : Dimension BaseDimId) : Dimension BaseDimId := ⟨d.exponents.inverse⟩

/-- The exponent of every base dimension, as a rational number. -/
noncomputable def toFinsupp (d : Dimension BaseDimId) : BaseDimId →₀ ℚ := d.exponents.toFinsupp

theorem eq_of_toFinsupp {a b : Dimension BaseDimId} (h : a.toFinsupp = b.toFinsupp) : a = b := by
  have he := SparseMonomial.toFinsupp_injective h
  cases a
  cases b
  congr

@[simp] theorem toFinsupp_dimensionless : (dimensionless : Dimension BaseDimId).toFinsupp = 0 :=
  SparseMonomial.toFinsupp_one

@[simp] theorem toFinsupp_inverse (d : Dimension BaseDimId) : d.inverse.toFinsupp = -d.toFinsupp :=
  SparseMonomial.toFinsupp_inverse d.exponents

theorem toFinsupp_base (id : BaseDimId) : (base id).toFinsupp = Finsupp.single id 1 := by
  change (SparseMonomial.single id Ratio.one).toFinsupp = _
  rw [SparseMonomial.toFinsupp_single]
  congr 1
  exact Ratio.value_one

/-- A dimension is the sum of its factors. -/
theorem toFinsupp_eq_sum (d : Dimension BaseDimId) : d.toFinsupp =
    (d.exponents.factors.entries.map fun factor => Finsupp.single factor.1 factor.2.value).sum :=
  exponents_eq_factors_sum d.exponents.factors

theorem toFinsupp_apply (d : Dimension BaseDimId) (id : BaseDimId) :
    d.toFinsupp id = (d.getExponent id).value := by
  change ProvenGraphcal.exponents d.exponents.factors id = _
  unfold getExponent SparseMonomial.get
  cases h : d.exponents.factors.get? id with
  | none => rw [exponents_of_absent h, Option.getD_none, Ratio.value_zero]
  | some e => exact exponents_of_get? h

theorem wrap_eq_ok {ε : Type} {x : Except ε (SparseMonomial BaseDimId Rational)}
    {d : Dimension BaseDimId} :
    (do return ⟨← x⟩ : Except ε (Dimension BaseDimId)) = .ok d ↔ x = .ok d.exponents := by
  rw [Checked.bind_eq_ok]
  constructor
  · rintro ⟨m, hm, h⟩
    cases h
    exact hm
  · intro h
    exact ⟨_, h, rfl⟩

theorem checkedMul_eq_ok {a b c : Dimension BaseDimId} :
    a.checkedMul b = .ok c ↔ c.toFinsupp = a.toFinsupp + b.toFinsupp :=
  wrap_eq_ok.trans SparseMonomial.tryMul_eq_ok

theorem checkedDiv_eq_ok {a b c : Dimension BaseDimId} :
    a.checkedDiv b = .ok c ↔ c.toFinsupp = a.toFinsupp - b.toFinsupp :=
  wrap_eq_ok.trans SparseMonomial.tryDiv_eq_ok

theorem pow_eq_ok {a c : Dimension BaseDimId} {p : Rational} :
    a.pow p = .ok c ↔ c.toFinsupp = p.value • a.toFinsupp :=
  wrap_eq_ok.trans SparseMonomial.tryPow_eq_ok

/-- A checked product of powers adds their exponents. -/
theorem toFinsupp_foldlM_mul_pow {α : Type} {l : List α} {base : α → Dimension BaseDimId}
    {power : α → Rational} {init result : Dimension BaseDimId}
    (h : l.foldlM (fun acc a => do acc.checkedMul (← (base a).pow (power a))) init = .ok result) :
    result.toFinsupp =
      init.toFinsupp + (l.map fun a => (power a).value • (base a).toFinsupp).sum := by
  refine Checked.foldlM_sum toFinsupp h fun a acc next hnext => ?_
  obtain ⟨powered, hpowered, hmul⟩ := Checked.bind_eq_ok.mp hnext
  rw [checkedMul_eq_ok.mp hmul, pow_eq_ok.mp hpowered]

theorem tryFromFactors_eq_ok {l : List (BaseDimId × Rational)} {d : Dimension BaseDimId} :
    tryFromFactors l = .ok d ↔ d.exponents.factors.entries.Perm l :=
  wrap_eq_ok.trans SparseMonomial.tryFromFactors_eq_ok

theorem eq_iff_getExponent {a b : Dimension BaseDimId} :
    a = b ↔ ∀ id, a.getExponent id = b.getExponent id := by
  refine ⟨fun h id => by rw [h], fun h => eq_of_toFinsupp ?_⟩
  ext id
  rw [toFinsupp_apply, toFinsupp_apply, h]

theorem mul_assoc_of_ok {a b c ab bc x y : Dimension BaseDimId} (hab : a.checkedMul b = .ok ab)
    (hx : ab.checkedMul c = .ok x) (hbc : b.checkedMul c = .ok bc)
    (hy : a.checkedMul bc = .ok y) : x = y := by
  rw [checkedMul_eq_ok] at hab hx hbc hy
  apply eq_of_toFinsupp
  rw [hx, hy, hab, hbc, add_assoc]

theorem mul_comm_of_ok {a b c : Dimension BaseDimId} :
    a.checkedMul b = .ok c ↔ b.checkedMul a = .ok c := by
  rw [checkedMul_eq_ok, checkedMul_eq_ok, add_comm]

theorem mul_dimensionless (a : Dimension BaseDimId) : a.checkedMul dimensionless = .ok a := by
  rw [checkedMul_eq_ok, toFinsupp_dimensionless, add_zero]

theorem dimensionless_mul (a : Dimension BaseDimId) : dimensionless.checkedMul a = .ok a := by
  rw [checkedMul_eq_ok, toFinsupp_dimensionless, zero_add]

theorem div_self (a : Dimension BaseDimId) : a.checkedDiv a = .ok dimensionless := by
  rw [checkedDiv_eq_ok, toFinsupp_dimensionless, sub_self]

theorem mul_pow_of_ok {a b ab ap bp x y : Dimension BaseDimId} {p : Rational}
    (hab : a.checkedMul b = .ok ab) (hx : ab.pow p = .ok x) (hap : a.pow p = .ok ap)
    (hbp : b.pow p = .ok bp) (hy : ap.checkedMul bp = .ok y) : x = y := by
  rw [checkedMul_eq_ok] at hab hy
  rw [pow_eq_ok] at hx hap hbp
  apply eq_of_toFinsupp
  rw [hx, hy, hab, hap, hbp, smul_add]

theorem pow_pow_of_ok {a ap x y : Dimension BaseDimId} {p q pq : Rational}
    (hap : a.pow p = .ok ap) (hx : ap.pow q = .ok x) (hpq : p.mul q = .ok pq)
    (hy : a.pow pq = .ok y) : x = y := by
  rw [pow_eq_ok] at hap hx hy
  rw [Ratio.mul_eq_ok] at hpq
  apply eq_of_toFinsupp
  rw [hx, hy, hap, hpq, smul_smul, mul_comm]

theorem pow_add_of_ok {a ap aq x y : Dimension BaseDimId} {p q r : Rational}
    (hr : p.add q = .ok r) (hx : a.pow r = .ok x) (hap : a.pow p = .ok ap)
    (haq : a.pow q = .ok aq) (hy : ap.checkedMul aq = .ok y) : x = y := by
  rw [pow_eq_ok] at hx hap haq
  rw [Ratio.add_eq_ok] at hr
  rw [checkedMul_eq_ok] at hy
  apply eq_of_toFinsupp
  rw [hx, hy, hap, haq, hr, add_smul]

/-- The factor map of a dimension holds no zero exponent and every base once. -/
theorem normalized (d : Dimension BaseDimId) :
    (∀ factor ∈ d.exponents.factors.entries, factor.2.isZero = false) ∧
      (d.exponents.factors.entries.map Prod.fst).Nodup :=
  ⟨fun _ h => d.exponents.zeroFree.of_mem h, d.exponents.factors.keys_nodup⟩

/-- The algebra of dimensions: the laws hold for the derived equality wherever no exponent
overflows, and the representation is canonical. -/
theorem dimension_algebra (BaseDimId : Type) [LinearOrder BaseDimId] :
    (∀ a b c ab bc x y : Dimension BaseDimId, a.checkedMul b = .ok ab → ab.checkedMul c = .ok x →
        b.checkedMul c = .ok bc → a.checkedMul bc = .ok y → x = y) ∧
      (∀ a b x : Dimension BaseDimId, a.checkedMul b = .ok x ↔ b.checkedMul a = .ok x) ∧
      (∀ a : Dimension BaseDimId, a.checkedMul dimensionless = .ok a ∧
        dimensionless.checkedMul a = .ok a ∧ a.checkedDiv a = .ok dimensionless) ∧
      (∀ (a b ab ap bp x y : Dimension BaseDimId) (p : Rational), a.checkedMul b = .ok ab →
        ab.pow p = .ok x → a.pow p = .ok ap → b.pow p = .ok bp → ap.checkedMul bp = .ok y →
        x = y) ∧
      (∀ (a ap x y : Dimension BaseDimId) (p q pq : Rational), a.pow p = .ok ap →
        ap.pow q = .ok x → p.mul q = .ok pq → a.pow pq = .ok y → x = y) ∧
      (∀ (a ap aq x y : Dimension BaseDimId) (p q r : Rational), p.add q = .ok r →
        a.pow r = .ok x → a.pow p = .ok ap → a.pow q = .ok aq → ap.checkedMul aq = .ok y →
        x = y) ∧
      (∀ d : Dimension BaseDimId,
        (∀ factor ∈ d.exponents.factors.entries, factor.2.isZero = false) ∧
          (d.exponents.factors.entries.map Prod.fst).Nodup) ∧
      (∀ a b : Dimension BaseDimId, a = b ↔ ∀ id, a.getExponent id = b.getExponent id) ∧
      (∀ (l l' : List (BaseDimId × Rational)) (d : Dimension BaseDimId), l.Perm l' →
        tryFromFactors l = .ok d → tryFromFactors l' = .ok d) ∧
      (∀ (l : List (BaseDimId × Rational)) (d : Dimension BaseDimId),
        tryFromFactors l = .ok d → ∀ id e, d.exponents.get id = some e ↔ (id, e) ∈ l) := by
  refine ⟨fun a b c ab bc x y => mul_assoc_of_ok, fun a b x => mul_comm_of_ok,
    fun a => ⟨mul_dimensionless a, dimensionless_mul a, div_self a⟩,
    fun a b ab ap bp x y p => mul_pow_of_ok, fun a ap x y p q pq => pow_pow_of_ok,
    fun a ap aq x y p q r => pow_add_of_ok, normalized, fun a b => eq_iff_getExponent, ?_, ?_⟩
  · intro l l' d hperm hl
    rw [tryFromFactors_eq_ok] at hl ⊢
    exact hl.trans hperm
  · intro l d hl id e
    rw [tryFromFactors_eq_ok] at hl
    rw [SparseMonomial.get, SortedMap.get?_eq_some, hl.mem_iff]

end Dimension

end ProvenGraphcal
