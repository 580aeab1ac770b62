import Mathlib.Algebra.BigOperators.GroupWithZero.Action
import Mathlib.Data.Finsupp.SMul
import Mathlib.GroupTheory.GroupAction.Ring
import ProvenGraphcal.Algebra.Ratio
import ProvenGraphcal.Library.Checked
import ProvenGraphcal.Library.SortedMap

/-!
# Sparse monomials

Finite products of keys raised to non-zero exponents. The operations work on the factor map, one
factor at a time; each is shown to keep the map free of zero exponents before it is bundled.
-/

namespace ProvenGraphcal

/-- Exponent arithmetic required by `SparseMonomial`. -/
class MonomialExponent (E : Type) (Err : outParam Type) where
  isZero : E → Bool
  checkedAdd : E → E → Except Err E
  checkedMul : E → E → Except Err E

export MonomialExponent (isZero checkedAdd checkedMul)

instance (T : RatioInt) : MonomialExponent (Ratio T) RatioError where
  isZero := Ratio.isZero
  checkedAdd := Ratio.add
  checkedMul := Ratio.mul

/-- Exponents whose negation is total and keeps non-zero exponents non-zero. -/
class SignedExponent (E : Type) {Err : outParam Type} [MonomialExponent E Err] extends Neg E where
  isZero_neg : ∀ e : E, isZero (-e) = isZero e

instance (T : RatioInt) : SignedExponent (Ratio T) where
  neg := Ratio.neg
  isZero_neg := Ratio.isZero_neg

/-- No factor carries a zero exponent. -/
def ZeroFree {K E Err : Type} [LinearOrder K] [MonomialExponent E Err]
    (factors : SortedMap K E) : Prop :=
  ∀ k e, factors.get? k = some e → isZero e = false

/-- A product of distinct keys raised to non-zero exponents. -/
structure SparseMonomial (K E : Type) {Err : Type} [LinearOrder K] [MonomialExponent E Err] where
  factors : SortedMap K E
  zeroFree : ZeroFree factors

inductive MonomialFactorError (K : Type)
  | zeroExponent (key : K)
  | duplicateKey (key : K)

section Representation

variable {K E Err : Type} [LinearOrder K] [MonomialExponent E Err]

theorem zeroFree_empty : ZeroFree (SortedMap.empty : SortedMap K E) := by
  intro k e h
  simp at h

theorem ZeroFree.insert {factors : SortedMap K E} (h : ZeroFree factors) {key : K} {exponent : E}
    (he : isZero exponent = false) : ZeroFree (factors.insert key exponent) := by
  intro k e hk
  rw [SortedMap.get?_insert] at hk
  split_ifs at hk
  · cases hk
    exact he
  · exact h k e hk

variable {factors : SortedMap K E}

theorem ZeroFree.remove (h : ZeroFree factors) (key : K) :
    ZeroFree (factors.set key none) := by
  intro k e hk
  rw [SortedMap.get?_set] at hk
  split_ifs at hk
  exact h k e hk

theorem ZeroFree.of_mem (h : ZeroFree factors) {factor : K × E} (hf : factor ∈ factors.entries) :
    isZero factor.2 = false :=
  h factor.1 factor.2 (SortedMap.get?_eq_some.mpr hf)

end Representation

namespace SparseMonomial

variable {K E Err : Type} [LinearOrder K] [MonomialExponent E Err]

theorem ext_factors {a b : SparseMonomial K E} (h : a.factors = b.factors) : a = b := by
  cases a
  cases b
  congr

instance [DecidableEq E] : DecidableEq (SparseMonomial K E) := fun a b =>
  decidable_of_iff (a.factors = b.factors) ⟨ext_factors, congrArg factors⟩

/-- The derived order: factor maps compared lexicographically. -/
instance [LinearOrder E] : LinearOrder (SparseMonomial K E) :=
  LinearOrder.lift' factors fun _ _ => ext_factors

/-! ## Operations -/

/-- The unit monomial (empty product). -/
def one : SparseMonomial K E := ⟨.empty, zeroFree_empty⟩

def isEmpty (m : SparseMonomial K E) : Bool := m.factors.isEmpty

/-- The only factor, when there is exactly one. -/
def asSingle (m : SparseMonomial K E) : Option (K × E) :=
  match m.factors.entries with
  | [factor] => some factor
  | _ => none

def single (key : K) (exponent : E) : SparseMonomial K E :=
  if h : isZero exponent = true then one
  else ⟨SortedMap.empty.insert key exponent, zeroFree_empty.insert (Bool.not_eq_true _ ▸ h)⟩

/-- The exponent of `key`, or `none` when the key does not occur. -/
def get (m : SparseMonomial K E) (key : K) : Option E := m.factors.get? key

def pushFactor (factors : SortedMap K E) (factor : K × E) :
    Except (MonomialFactorError K) (SortedMap K E) :=
  if isZero factor.2 then .error (.zeroExponent factor.1)
  else
    match factors.get? factor.1 with
    | none => .ok (factors.insert factor.1 factor.2)
    | some _ => .error (.duplicateKey factor.1)

variable {factor : K × E} {factors : SortedMap K E}

theorem pushFactor_eq_ok {next : SortedMap K E} :
    pushFactor factors factor = .ok next ↔
      isZero factor.2 = false ∧ factors.get? factor.1 = none ∧
        next = factors.insert factor.1 factor.2 := by
  unfold pushFactor
  split_ifs with hz
  · simp [hz]
  · cases hg : factors.get? factor.1 <;> simp [hz, eq_comm]

variable {l : List (K × E)}

theorem pushFactors_zeroFree (h : l.foldlM pushFactor .empty = .ok factors) : ZeroFree factors := by
  refine Checked.foldlM_invariant ZeroFree (fun factor _ s s' hs hstep => ?_) zeroFree_empty h
  obtain ⟨hz, -, rfl⟩ := pushFactor_eq_ok.mp hstep
  exact hs.insert hz

def tryFromFactors (l : List (K × E)) :
    Except (MonomialFactorError K) (SparseMonomial K E) :=
  match h : l.foldlM pushFactor .empty with
  | .ok factors => .ok ⟨factors, pushFactors_zeroFree h⟩
  | .error e => .error e

/-- One factor of the right operand multiplied into the left one's entries. -/
def mulFactor (factors : SortedMap K E) (factor : K × E) : Except Err (SortedMap K E) :=
  match factors.get? factor.1 with
  | none => .ok (factors.insert factor.1 factor.2)
  | some own => do
    let sum ← checkedAdd own factor.2
    if isZero sum then
      return factors.set factor.1 none
    else
      return factors.insert factor.1 sum

theorem mulFactor_zeroFree {next : SortedMap K E} (hfactors : ZeroFree factors)
    (hfactor : isZero factor.2 = false) (h : mulFactor factors factor = .ok next) :
    ZeroFree next := by
  unfold mulFactor at h
  split at h
  · cases h
    exact hfactors.insert hfactor
  · obtain ⟨sum, -, hsum⟩ := Checked.bind_eq_ok.mp h
    split_ifs at hsum with hz <;> cases hsum
    · exact hfactors.remove _
    · exact hfactors.insert (Bool.not_eq_true _ ▸ hz)

theorem mulFactors_zeroFree (a b : SparseMonomial K E)
    (h : b.factors.entries.foldlM mulFactor a.factors = .ok factors) : ZeroFree factors :=
  Checked.foldlM_invariant ZeroFree
    (fun _ hf _ _ hs hstep => mulFactor_zeroFree hs (b.zeroFree.of_mem hf) hstep) a.zeroFree h

/-- Product of two monomials (exponents add; cancelled factors vanish). -/
def tryMul (a b : SparseMonomial K E) : Except Err (SparseMonomial K E) :=
  match h : b.factors.entries.foldlM mulFactor a.factors with
  | .ok factors => .ok ⟨factors, mulFactors_zeroFree a b h⟩
  | .error e => .error e

def powFactor (exponent : E) (factors : SortedMap K E) (factor : K × E) :
    Except Err (SortedMap K E) := do
  let product ← checkedMul factor.2 exponent
  if isZero product then
    return factors
  else
    return factors.insert factor.1 product

theorem powFactors_zeroFree (exponent : E)
    (h : l.foldlM (powFactor exponent) .empty = .ok factors) : ZeroFree factors := by
  refine Checked.foldlM_invariant ZeroFree (fun factor _ s s' hs hstep => ?_) zeroFree_empty h
  obtain ⟨product, -, hp⟩ := Checked.bind_eq_ok.mp hstep
  split_ifs at hp with hz <;> cases hp
  · exact hs
  · exact hs.insert (Bool.not_eq_true _ ▸ hz)

/-- Raise every factor to `exponent` (the unit for a zero exponent). -/
def tryPow (m : SparseMonomial K E) (exponent : E) : Except Err (SparseMonomial K E) :=
  if isZero exponent then .ok one
  else
    match h : m.factors.entries.foldlM (powFactor exponent) .empty with
    | .ok factors => .ok ⟨factors, powFactors_zeroFree exponent h⟩
    | .error e => .error e

theorem map_neg_zeroFree [SignedExponent E] (m : SparseMonomial K E) :
    ZeroFree (m.factors.map (- ·)) := by
  intro k e h
  rw [SortedMap.get?_map, Option.map_eq_some_iff] at h
  obtain ⟨own, hown, rfl⟩ := h
  rw [SignedExponent.isZero_neg]
  exact m.zeroFree k own hown

/-- The multiplicative inverse (every exponent negated). -/
def inverse [SignedExponent E] (m : SparseMonomial K E) : SparseMonomial K E :=
  ⟨m.factors.map (- ·), m.map_neg_zeroFree⟩

def tryDiv [SignedExponent E] (a b : SparseMonomial K E) : Except Err (SparseMonomial K E) :=
  tryMul a b.inverse

/-- The monomial with its keys replaced by an injective renaming. -/
def mapKeys {L : Type} [LinearOrder L] (f : K → L) (m : SparseMonomial K E) :
    SparseMonomial L E where
  factors := SortedMap.ofList (m.factors.entries.map fun e => (f e.1, e.2))
  zeroFree k e h := by
    obtain ⟨factor, hfactor, he⟩ := List.mem_map.mp (SortedMap.mem_of_get?_ofList h)
    cases he
    exact m.zeroFree.of_mem hfactor

variable {m : SparseMonomial K E}

theorem mapKeys_perm {L : Type} [LinearOrder L] {f : K → L}
    (hf : ∀ a ∈ m.factors.keys, ∀ b ∈ m.factors.keys, f a = f b → a = b) :
    (m.mapKeys f).factors.entries.Perm (m.factors.entries.map fun e => (f e.1, e.2)) := by
  apply SortedMap.ofList_perm
  rw [List.map_map]
  have hmap : (Prod.fst ∘ fun e : K × E => (f e.1, e.2)) = f ∘ Prod.fst := rfl
  rw [hmap, ← List.map_map]
  exact List.Nodup.map_on hf m.factors.keys_nodup

theorem ext_get {a b : SparseMonomial K E} (h : ∀ k, a.get k = b.get k) : a = b :=
  ext_factors (SortedMap.ext_get? h)

theorem pushFactors_perm {result : SortedMap K E} (h : l.foldlM pushFactor factors = .ok result) :
    result.entries.Perm (l ++ factors.entries) := by
  induction l generalizing factors with
  | nil =>
    cases h
    exact List.Perm.refl _
  | cons factor rest ih =>
    rw [List.foldlM_cons, Checked.bind_eq_ok] at h
    obtain ⟨next, hnext, hrest⟩ := h
    obtain ⟨-, hnone, rfl⟩ := pushFactor_eq_ok.mp hnext
    refine (ih hrest).trans ?_
    have hperm := SortedMap.insert_entries_perm (v := factor.2) hnone
    exact (hperm.append_left rest).trans List.perm_middle

theorem exists_pushFactors (factors : SortedMap K E) (hzero : ∀ factor ∈ l, isZero factor.2 = false)
    (hkeys : ((l ++ factors.entries).map Prod.fst).Nodup) :
    ∃ result, l.foldlM pushFactor factors = .ok result := by
  induction l generalizing factors with
  | nil => exact ⟨factors, rfl⟩
  | cons factor rest ih =>
    have hnone : factors.get? factor.1 = none := by
      rw [SortedMap.get?_eq_none]
      intro hmem
      rw [List.cons_append, List.map_cons, List.nodup_cons, List.map_append] at hkeys
      exact hkeys.1 (List.mem_append_right _ hmem)
    have hperm := SortedMap.insert_entries_perm (v := factor.2) hnone
    obtain ⟨result, hresult⟩ := ih (factors.insert factor.1 factor.2)
      (fun other hother => hzero other (List.mem_cons_of_mem _ hother)) (by
        refine (List.Perm.nodup_iff ?_).mp hkeys
        exact (((hperm.append_left rest).trans List.perm_middle).map _).symm)
    refine ⟨result, ?_⟩
    have hpush := pushFactor_eq_ok.mpr ⟨hzero factor List.mem_cons_self, hnone, rfl⟩
    rw [List.foldlM_cons, hpush]
    exact hresult

/-- A written factor list is accepted exactly when it is, in some order, a monomial's factors. -/
theorem tryFromFactors_eq_ok :
    tryFromFactors l = .ok m ↔ m.factors.entries.Perm l := by
  have hsound : ∀ m, tryFromFactors l = .ok m → m.factors.entries.Perm l := by
    intro m h
    unfold tryFromFactors at h
    split at h
    case h_1 factors hfactors =>
      cases h
      simpa using pushFactors_perm hfactors
    case h_2 => cases h
  refine ⟨hsound m, fun h => ?_⟩
  have hok : ∃ m' : SparseMonomial K E, tryFromFactors l = .ok m' := by
    obtain ⟨result, hresult⟩ := exists_pushFactors .empty
      (fun factor hfactor => m.zeroFree.of_mem (h.mem_iff.mpr hfactor)) (by
        rw [SortedMap.entries_empty, List.append_nil]
        exact (h.map Prod.fst).nodup_iff.mp m.factors.keys_nodup)
    unfold tryFromFactors
    split
    · exact ⟨_, rfl⟩
    · simp_all
  obtain ⟨m', hm'⟩ := hok
  rw [hm', ext_factors (SortedMap.ext_perm ((hsound m' hm').trans h.symm))]

end SparseMonomial

/-!
# Monomials as exponent functions

A monomial is read as a finitely supported exponent function. The reading is injective, and every
checked operation computes the operation on exponent functions, exactly when the result is
representable.
-/

/-- What an exponent stands for. -/
class ExponentValue (E : Type) (R : outParam Type) where
  value : E → R

export ExponentValue (value)

/-- The exponent arithmetic is exact arithmetic in `R`, checked for representability. -/
class LawfulExponent (E : Type) {R Err : outParam Type} [MonomialExponent E Err] [CommSemiring R]
    [ExponentValue E R] : Prop where
  value_injective : Function.Injective (value (E := E))
  exists_zero : ∃ e : E, value e = 0
  isZero_iff : ∀ e : E, isZero e = true ↔ value e = 0
  checkedAdd_eq_ok : ∀ {a b c : E}, checkedAdd a b = .ok c ↔ value c = value a + value b
  checkedMul_eq_ok : ∀ {a b c : E}, checkedMul a b = .ok c ↔ value c = value a * value b

instance (T : RatioInt) : ExponentValue (Ratio T) ℚ := ⟨Ratio.value⟩

instance (T : RatioInt) : LawfulExponent (Ratio T) where
  value_injective := Ratio.value_injective
  exists_zero := ⟨Ratio.zero, Ratio.value_zero⟩
  isZero_iff := Ratio.isZero_iff
  checkedAdd_eq_ok := Ratio.add_eq_ok
  checkedMul_eq_ok := Ratio.mul_eq_ok

variable {K E Err R : Type} [LinearOrder K] [MonomialExponent E Err] [CommSemiring R]
  [ExponentValue E R] [LawfulExponent E]

variable {e : E}

theorem isZero_eq_false : isZero e = false ↔ value e ≠ 0 := by
  rw [← Bool.not_eq_true, LawfulExponent.isZero_iff]

/-- The exponents that a factor map gives to the keys. -/
noncomputable def exponents (factors : SortedMap K E) : K →₀ R :=
  Finsupp.onFinset factors.keys.toFinset (fun k => ((factors.get? k).map value).getD 0) fun k hk => by
    rw [List.mem_toFinset, SortedMap.mem_keys, ← Option.ne_none_iff_exists']
    intro h
    exact hk (by rw [h]; rfl)

theorem exponents_apply (factors : SortedMap K E) (k : K) :
    exponents factors k = ((factors.get? k).map value).getD 0 := rfl

variable {k : K} {factors : SortedMap K E}

theorem exponents_of_get? (h : factors.get? k = some e) : exponents factors k = value e := by
  simp [exponents_apply, h]

theorem exponents_of_absent (h : factors.get? k = none) :
    exponents factors k = 0 := by
  simp [exponents_apply, h]

@[simp] theorem exponents_empty : exponents (SortedMap.empty : SortedMap K E) = 0 := by
  ext k
  simp [exponents_apply]

theorem exponents_insert (factors : SortedMap K E) (key : K) (e : E) (k : K) :
    exponents (factors.insert key e) k = if k = key then value e else exponents factors k := by
  simp only [exponents_apply, SortedMap.get?_insert]
  split_ifs <;> simp

theorem exponents_remove (factors : SortedMap K E) (key k : K) :
    exponents (factors.set key none) k = if k = key then 0 else exponents factors k := by
  simp only [exponents_apply, SortedMap.get?_set]
  split_ifs <;> simp

/-- Without zero exponents, equal exponent functions come from equal maps. -/
theorem exponents_injective {a b : SortedMap K E} (ha : ZeroFree a) (hb : ZeroFree b)
    (h : exponents a = exponents b) : a = b := by
  have hone : ∀ {a b : SortedMap K E} {k : K} {e : E}, ZeroFree a → exponents a = exponents b →
      a.get? k = some e → b.get? k = some e := by
    intro a b k e ha h hk
    have hne : value e ≠ 0 := isZero_eq_false.mp (ha k e hk)
    have hval : exponents b k = value e := by rw [← h, exponents_of_get? hk]
    cases hb : b.get? k with
    | none => exact absurd (hval.symm.trans (exponents_of_absent hb)) hne
    | some e' =>
      rw [exponents_of_get? hb] at hval
      rw [LawfulExponent.value_injective hval]
  refine SortedMap.ext_get? fun k => Option.ext fun e => ⟨hone ha h, hone hb h.symm⟩

/-- Every exponent of a factor map, zero included, is representable. -/
theorem exists_value {K E Err R : Type} [LinearOrder K] [MonomialExponent E Err] [CommSemiring R]
    [ExponentValue E R] [LawfulExponent E] (factors : SortedMap K E) (k : K) :
    ∃ e : E, value e = exponents factors k := by
  cases hk : factors.get? k with
  | none =>
    obtain ⟨z, hz⟩ := LawfulExponent.exists_zero (E := E)
    exact ⟨z, hz.trans (exponents_of_absent hk).symm⟩
  | some e => exact ⟨e, (exponents_of_get? hk).symm⟩

variable {l : List (K × E)}

theorem exponents_eq_sum (hl : (l.map Prod.fst).Nodup) (k : K) :
    (l.map fun e => Finsupp.single e.1 (value e.2)).sum k =
      ((SortedMap.lookup k l).map value).getD 0 := by
  induction l with
  | nil => simp [SortedMap.lookup]
  | cons e rest ih =>
    rw [List.map_cons, List.nodup_cons] at hl
    rw [List.map_cons, List.sum_cons, Finsupp.add_apply, ih hl.2, SortedMap.lookup]
    by_cases hk : k = e.1
    · have hnone : SortedMap.lookup k rest = none := SortedMap.lookup_eq_none.mpr (hk ▸ hl.1)
      rw [if_pos hk, hnone]
      simp [hk]
    · rw [if_neg hk]
      simp [Ne.symm hk]

/-- A factor map's exponent function is the sum of its factors. -/
theorem exponents_eq_factors_sum (factors : SortedMap K E) :
    exponents factors = (factors.entries.map fun e => Finsupp.single e.1 (value e.2)).sum := by
  ext k
  rw [exponents_eq_sum factors.keys_nodup]
  rfl

variable {exponent : E} {factor : K × E}

namespace SparseMonomial

/-- The exponent function of a monomial. -/
noncomputable def toFinsupp (m : SparseMonomial K E) : K →₀ R := exponents m.factors

theorem toFinsupp_injective : Function.Injective (toFinsupp (K := K) (E := E) (R := R)) :=
  fun a b h => ext_factors (exponents_injective a.zeroFree b.zeroFree h)

omit [LawfulExponent E] in
@[simp] theorem toFinsupp_one : (one : SparseMonomial K E).toFinsupp = 0 := exponents_empty

theorem toFinsupp_single (key : K) (exponent : E) :
    (single key exponent).toFinsupp = Finsupp.single key (value exponent) := by
  ext k
  unfold single
  split_ifs with hz
  · have h0 : value exponent = 0 := (LawfulExponent.isZero_iff exponent).mp hz
    simp [h0]
  · change exponents (SortedMap.empty.insert key exponent) k = _
    rw [exponents_insert, exponents_empty]
    simp [Finsupp.single_apply, eq_comm]

theorem exponents_mulFactor {next : SortedMap K E} (h : mulFactor factors factor = .ok next) :
    exponents next = exponents factors + Finsupp.single factor.1 (value factor.2) := by
  ext k
  rw [Finsupp.add_apply, Finsupp.single_apply]
  unfold mulFactor at h
  split at h
  case h_1 hnone =>
    cases h
    rw [exponents_insert]
    by_cases hk : k = factor.1
    · simp [hk, exponents_of_absent hnone]
    · simp [hk, Ne.symm hk]
  case h_2 own hown =>
    obtain ⟨sum, hsum, hnext⟩ := Checked.bind_eq_ok.mp h
    have hval := LawfulExponent.checkedAdd_eq_ok.mp hsum
    have hown' := exponents_of_get? hown
    split_ifs at hnext with hz <;> cases hnext
    · have hzero : value sum = 0 := (LawfulExponent.isZero_iff sum).mp hz
      rw [exponents_remove]
      by_cases hk : k = factor.1
      · simp [hk, hown', ← hval, hzero]
      · simp [hk, Ne.symm hk]
    · rw [exponents_insert]
      by_cases hk : k = factor.1
      · simp [hk, hown', ← hval]
      · simp [hk, Ne.symm hk]

theorem exists_mulFactor {sum : E} (h : value sum = exponents factors factor.1 + value factor.2) :
    ∃ next, mulFactor factors factor = .ok next := by
  unfold mulFactor
  cases hown : factors.get? factor.1 with
  | none => exact ⟨_, rfl⟩
  | some own =>
    rw [exponents_of_get? hown] at h
    simp only [LawfulExponent.checkedAdd_eq_ok.mpr h]
    exact ⟨_, (apply_ite Except.ok _ _ _).symm⟩

theorem exponents_mulFactors {result : SortedMap K E}
    (h : l.foldlM mulFactor factors = .ok result) :
    exponents result =
      exponents factors + (l.map fun e => Finsupp.single e.1 (value e.2)).sum := by
  exact Checked.foldlM_sum exponents h fun _ _ _ hnext => exponents_mulFactor hnext

/-- The product fold succeeds when every exponent sum it meets is representable. -/
theorem exists_mulFactors (hl : (l.map Prod.fst).Nodup) (factors : SortedMap K E)
    (h : ∀ factor ∈ l, ∃ sum : E, value sum = exponents factors factor.1 + value factor.2) :
    ∃ result, l.foldlM mulFactor factors = .ok result := by
  induction l generalizing factors with
  | nil => exact ⟨factors, rfl⟩
  | cons factor rest ih =>
    rw [List.map_cons, List.nodup_cons] at hl
    obtain ⟨sum, hsum⟩ := h factor List.mem_cons_self
    obtain ⟨next, hnext⟩ := exists_mulFactor hsum
    obtain ⟨result, hresult⟩ := ih hl.2 next fun other hother => by
      have hne : factor.1 ≠ other.1 := fun he => hl.1 (he ▸ List.mem_map_of_mem hother)
      rw [exponents_mulFactor hnext, Finsupp.add_apply, Finsupp.single_eq_of_ne' hne, add_zero]
      exact h other (List.mem_cons_of_mem _ hother)
    refine ⟨result, ?_⟩
    rw [List.foldlM_cons, hnext]
    exact hresult

/-- The product of two monomials adds their exponent functions, and fails only when the sum has
no representation. -/
theorem tryMul_eq_ok {a b c : SparseMonomial K E} :
    tryMul a b = .ok c ↔ c.toFinsupp = a.toFinsupp + b.toFinsupp := by
  have hsound : ∀ c, tryMul a b = .ok c → c.toFinsupp = a.toFinsupp + b.toFinsupp := by
    intro c h
    unfold tryMul at h
    split at h
    case h_1 factors hfactors =>
      cases h
      unfold toFinsupp
      rw [exponents_mulFactors hfactors, ← exponents_eq_factors_sum]
    case h_2 => cases h
  refine ⟨hsound c, fun h => ?_⟩
  have hok : ∃ c', tryMul a b = .ok c' := by
    obtain ⟨result, hresult⟩ := exists_mulFactors b.factors.keys_nodup a.factors
      fun factor hfactor => by
        obtain ⟨sum, hsum⟩ := exists_value c.factors factor.1
        refine ⟨sum, hsum.trans ?_⟩
        have hb := exponents_of_get? (SortedMap.get?_eq_some.mpr hfactor)
        rw [← hb]
        exact DFunLike.congr_fun h factor.1
    unfold tryMul
    split
    · exact ⟨_, rfl⟩
    · simp_all
  obtain ⟨c', hc'⟩ := hok
  rw [hc', toFinsupp_injective ((hsound c' hc').trans h.symm)]

/-! ## Powers -/

theorem exponents_powFactor {next : SortedMap K E} (habsent : factors.get? factor.1 = none)
    (h : powFactor exponent factors factor = .ok next) :
    exponents next =
      exponents factors + Finsupp.single factor.1 (value factor.2 * value exponent) := by
  ext k
  rw [Finsupp.add_apply, Finsupp.single_apply]
  obtain ⟨product, hproduct, hnext⟩ := Checked.bind_eq_ok.mp h
  have hval := LawfulExponent.checkedMul_eq_ok.mp hproduct
  rw [← hval]
  split_ifs at hnext with hz <;> cases hnext
  · have hzero : value product = 0 := (LawfulExponent.isZero_iff product).mp hz
    simp [hzero]
  · rw [exponents_insert]
    by_cases hk : k = factor.1
    · simp [hk, exponents_of_absent habsent]
    · simp [hk, Ne.symm hk]

theorem get?_powFactor {next : SortedMap K E} (hk : k ≠ factor.1)
    (h : powFactor exponent factors factor = .ok next) :
    next.get? k = factors.get? k := by
  obtain ⟨product, -, hnext⟩ := Checked.bind_eq_ok.mp h
  split_ifs at hnext <;> cases hnext
  · rfl
  · rw [SortedMap.get?_insert, if_neg hk]

theorem exponents_powFactors (hl : (l.map Prod.fst).Nodup) {result : SortedMap K E}
    (habsent : ∀ factor ∈ l, factors.get? factor.1 = none)
    (h : l.foldlM (powFactor exponent) factors = .ok result) :
    exponents result = exponents factors +
      (l.map fun e => Finsupp.single e.1 (value e.2 * value exponent)).sum := by
  induction l generalizing factors with
  | nil =>
    cases h
    simp
  | cons factor rest ih =>
    rw [List.map_cons, List.nodup_cons] at hl
    rw [List.foldlM_cons, Checked.bind_eq_ok] at h
    obtain ⟨next, hnext, hrest⟩ := h
    have hrest' := ih hl.2 (fun other hother => by
      have hne : other.1 ≠ factor.1 := fun he => hl.1 (he ▸ List.mem_map_of_mem hother)
      rw [get?_powFactor hne hnext]
      exact habsent other (List.mem_cons_of_mem _ hother)) hrest
    rw [hrest', exponents_powFactor (habsent factor List.mem_cons_self) hnext, List.map_cons,
      List.sum_cons, add_assoc]

theorem exists_powFactors (factors : SortedMap K E)
    (h : ∀ factor ∈ l, ∃ product : E, value product = value factor.2 * value exponent) :
    ∃ result, l.foldlM (powFactor exponent) factors = .ok result := by
  induction l generalizing factors with
  | nil => exact ⟨factors, rfl⟩
  | cons factor rest ih =>
    obtain ⟨product, hproduct⟩ := h factor List.mem_cons_self
    have hnext : ∃ next, powFactor exponent factors factor = .ok next := by
      unfold powFactor
      rw [LawfulExponent.checkedMul_eq_ok.mpr hproduct]
      exact ⟨_, (apply_ite Except.ok _ _ _).symm⟩
    obtain ⟨next, hnext⟩ := hnext
    obtain ⟨result, hresult⟩ := ih next fun other hother =>
      h other (List.mem_cons_of_mem _ hother)
    refine ⟨result, ?_⟩
    rw [List.foldlM_cons, hnext]
    exact hresult

theorem smul_exponents (r : R) (factors : SortedMap K E) :
    r • exponents factors =
      (factors.entries.map fun e => Finsupp.single e.1 (value e.2 * r)).sum := by
  rw [exponents_eq_factors_sum, List.smul_sum, List.map_map]
  congr 2
  ext e k
  simp [mul_comm]

/-- A power scales the exponent function. -/
theorem tryPow_eq_ok {a c : SparseMonomial K E} {p : E} :
    tryPow a p = .ok c ↔ c.toFinsupp = value p • a.toFinsupp := by
  have hsound : ∀ c, tryPow a p = .ok c → c.toFinsupp = value p • a.toFinsupp := by
    intro c h
    unfold tryPow at h
    split_ifs at h with hz
    · cases h
      rw [(LawfulExponent.isZero_iff p).mp hz, zero_smul, toFinsupp_one]
    · split at h
      case h_1 factors hfactors =>
        cases h
        have hsum := exponents_powFactors a.factors.keys_nodup (fun _ _ => rfl) hfactors
        unfold toFinsupp
        rw [hsum, exponents_empty, zero_add, smul_exponents]
      case h_2 => cases h
  refine ⟨hsound c, fun h => ?_⟩
  have hok : ∃ c', tryPow a p = .ok c' := by
    have hproducts : ∀ factor ∈ a.factors.entries,
        ∃ product : E, value product = value factor.2 * value p := by
      intro factor hfactor
      obtain ⟨product, hproduct⟩ := exists_value c.factors factor.1
      refine ⟨product, hproduct.trans ?_⟩
      have ha := exponents_of_get? (SortedMap.get?_eq_some.mpr hfactor)
      rw [← ha, mul_comm]
      exact DFunLike.congr_fun h factor.1
    obtain ⟨result, hresult⟩ := exists_powFactors .empty hproducts
    unfold tryPow
    split_ifs
    · exact ⟨_, rfl⟩
    · split
      · exact ⟨_, rfl⟩
      · simp_all
  obtain ⟨c', hc'⟩ := hok
  rw [hc', toFinsupp_injective ((hsound c' hc').trans h.symm)]

end SparseMonomial

/-- Negation of exponents is negation in `R`. -/
class LawfulSignedExponent (E : Type) {R Err : outParam Type} [MonomialExponent E Err]
    [CommRing R] [ExponentValue E R] [SignedExponent E] : Prop where
  value_neg : ∀ e : E, value (-e) = -value e

instance (T : RatioInt) : LawfulSignedExponent (Ratio T) := ⟨Ratio.value_neg⟩

namespace SparseMonomial

variable {K E Err R : Type} [LinearOrder K] [MonomialExponent E Err] [CommRing R]
  [ExponentValue E R] [LawfulExponent E] [SignedExponent E] [LawfulSignedExponent E]

omit [LawfulExponent E] in
theorem toFinsupp_inverse (m : SparseMonomial K E) : m.inverse.toFinsupp = -m.toFinsupp := by
  ext k
  rw [Finsupp.neg_apply]
  change exponents (m.factors.map (- ·)) k = -exponents m.factors k
  rw [exponents_apply, exponents_apply, SortedMap.get?_map]
  cases m.factors.get? k with
  | none => simp
  | some e => simp [LawfulSignedExponent.value_neg]

theorem tryDiv_eq_ok {a b c : SparseMonomial K E} :
    tryDiv a b = .ok c ↔ c.toFinsupp = a.toFinsupp - b.toFinsupp := by
  rw [tryDiv, tryMul_eq_ok, toFinsupp_inverse, sub_eq_add_neg]

end SparseMonomial

end ProvenGraphcal
