import Mathlib.Data.Nat.Cast.Field
import Mathlib.Tactic.FieldSimp
import Mathlib.Tactic.NormNum
import Mathlib.Tactic.Positivity
import Mathlib.Tactic.Ring

/-!
# Reduced rationals over a symmetric fixed-width range

A `Ratio` carries the invariants its constructors enforce. `Ratio.value` is its meaning in `ℚ`;
each checked operation succeeds exactly when the exact result is representable.
-/

namespace ProvenGraphcal

/-- The component integer types that can carry a `Ratio`. -/
inductive RatioInt
  | i32
  | i64

/-- `T::MAX`, the largest magnitude that `narrow_magnitude` accepts. -/
def RatioInt.max : RatioInt → ℕ
  | .i32 => 2 ^ 31 - 1
  | .i64 => 2 ^ 63 - 1

theorem RatioInt.one_le_max (T : RatioInt) : 1 ≤ T.max := by
  cases T <;> decide

theorem RatioInt.max_le (T : RatioInt) : T.max ≤ 2 ^ 63 - 1 := by
  cases T <;> decide

inductive RatioError
  | zeroDenominator
  | overflow
  deriving DecidableEq

structure Ratio (T : RatioInt) where
  num : ℤ
  den : ℕ
  den_pos : 0 < den
  coprime : num.natAbs.Coprime den
  num_le : num.natAbs ≤ T.max
  den_le : den ≤ T.max
  deriving DecidableEq

namespace Ratio

variable {T : RatioInt}

def zero : Ratio T := ⟨0, 1, Nat.one_pos, Nat.coprime_one_right 0, Nat.zero_le _, T.one_le_max⟩

def one : Ratio T := ⟨1, 1, Nat.one_pos, Nat.coprime_one_right 1, T.one_le_max, T.one_le_max⟩

instance : Inhabited (Ratio T) := ⟨zero⟩

/-- A magnitude with the sign put back. -/
def withSign (negative : Bool) (magnitude : ℕ) : ℤ :=
  if negative then -(magnitude : ℤ) else magnitude

@[simp] theorem natAbs_withSign (negative : Bool) (magnitude : ℕ) :
    (withSign negative magnitude).natAbs = magnitude := by
  cases negative <;> simp [withSign]

/-- The reduced quotient `num / den`, computed from widened components. -/
def tryFromWide (num den : ℤ) : Except RatioError (Ratio T) :=
  if hden : den = 0 then
    .error .zeroDenominator
  else if num = 0 then
    .ok zero
  else
    let divisor := Nat.gcd num.natAbs den.natAbs
    if hnum : num.natAbs / divisor ≤ T.max then
      if hle : den.natAbs / divisor ≤ T.max then
        .ok {
          num := withSign (decide (num < 0) != decide (den < 0)) (num.natAbs / divisor)
          den := den.natAbs / divisor
          den_pos := Nat.div_pos (Nat.gcd_le_right _ (Int.natAbs_pos.mpr hden))
            (Nat.gcd_pos_of_pos_right _ (Int.natAbs_pos.mpr hden))
          coprime := by
            rw [natAbs_withSign]
            exact Nat.coprime_div_gcd_div_gcd
              (Nat.gcd_pos_of_pos_right _ (Int.natAbs_pos.mpr hden))
          num_le := by rwa [natAbs_withSign]
          den_le := hle }
      else .error .overflow
    else .error .overflow

def tryNew (num den : ℤ) : Except RatioError (Ratio T) := tryFromWide num den

def isZero (r : Ratio T) : Bool := r.num == 0

/-- An `i128` result, if it is in range. -/
def checkedI128 (x : ℤ) : Option ℤ := if -2 ^ 127 ≤ x ∧ x ≤ 2 ^ 127 - 1 then some x else none

def checkedCombine (lhs rhs : Ratio T) (combine : ℤ → ℤ → Option ℤ) :
    Except RatioError (Ratio T) :=
  match checkedI128 (lhs.num * rhs.den), checkedI128 (rhs.num * lhs.den),
      checkedI128 (lhs.den * rhs.den) with
  | some l, some r, some den =>
    match combine l r with
    | some num => tryFromWide num den
    | none => .error .overflow
  | _, _, _ => .error .overflow

def neg (r : Ratio T) : Ratio T where
  num := -r.num
  den := r.den
  den_pos := r.den_pos
  coprime := by simpa using r.coprime
  num_le := by simpa using r.num_le
  den_le := r.den_le

def add (lhs rhs : Ratio T) : Except RatioError (Ratio T) :=
  checkedCombine lhs rhs fun l r => checkedI128 (l + r)

def sub (lhs rhs : Ratio T) : Except RatioError (Ratio T) :=
  checkedCombine lhs rhs fun l r => checkedI128 (l - r)

def mul (lhs rhs : Ratio T) : Except RatioError (Ratio T) :=
  match checkedI128 (lhs.num * rhs.num), checkedI128 (lhs.den * rhs.den) with
  | some num, some den => tryFromWide num den
  | _, _ => .error .overflow

@[simp] theorem isZero_neg (r : Ratio T) : r.neg.isZero = r.isZero := by
  simp [isZero, neg]

/-! ## Meaning -/

def value (r : Ratio T) : ℚ := r.num / r.den

theorem num_value (r : Ratio T) : r.value.num = r.num := by
  have h : ((r.num : ℚ) / ((r.den : ℤ) : ℚ)).num = r.num :=
    Rat.num_div_eq_of_coprime (by exact_mod_cast r.den_pos) (by simpa using r.coprime)
  simpa [value] using h

theorem den_value (r : Ratio T) : r.value.den = r.den := by
  have h : (((r.num : ℚ) / ((r.den : ℤ) : ℚ)).den : ℤ) = r.den :=
    Rat.den_div_eq_of_coprime (by exact_mod_cast r.den_pos) (by simpa using r.coprime)
  exact_mod_cast (by simpa [value] using h : ((r.value).den : ℤ) = r.den)

/-- Structural equality of ratios is equality of values. -/
theorem value_injective : Function.Injective (value (T := T)) := by
  intro r s h
  have hn : r.num = s.num := by rw [← num_value, h, num_value]
  have hd : r.den = s.den := by rw [← den_value, h, den_value]
  cases r
  cases s
  simp_all

@[simp] theorem value_zero : (zero : Ratio T).value = 0 := by simp [value, zero]

@[simp] theorem value_one : (one : Ratio T).value = 1 := by simp [value, one]

@[simp] theorem value_neg (r : Ratio T) : r.neg.value = -r.value := by
  simp [value, neg, neg_div]

theorem isZero_iff (r : Ratio T) : r.isZero = true ↔ r.value = 0 := by
  have h : (r.den : ℚ) ≠ 0 := by exact_mod_cast r.den_pos.ne'
  simp [isZero, value, h]

theorem den_cast_ne_zero (r : Ratio T) : (r.den : ℚ) ≠ 0 := by
  exact_mod_cast r.den_pos.ne'

theorem withSign_cast (negative : Bool) (magnitude : ℕ) :
    ((withSign negative magnitude : ℤ) : ℚ) = if negative then -(magnitude : ℚ) else magnitude := by
  cases negative <;> simp [withSign]

/-- The sign that `try_from_wide` restores turns the magnitudes into the quotient. -/
theorem withSign_div (num den : ℤ) :
    (if (decide (num < 0) != decide (den < 0)) then -(num.natAbs : ℚ) else num.natAbs) /
      den.natAbs = num / den := by
  have habs (x : ℤ) : (x.natAbs : ℚ) = |(x : ℚ)| := by
    rw [Nat.cast_natAbs]
    exact Int.cast_abs
  rcases lt_or_ge num 0 with hn | hn <;> rcases lt_or_ge den 0 with hd | hd
  · have hn' : (num : ℚ) < 0 := by exact_mod_cast hn
    have hd' : (den : ℚ) < 0 := by exact_mod_cast hd
    simp [hn, hd, abs_of_neg hn', abs_of_neg hd']
  · have hn' : (num : ℚ) < 0 := by exact_mod_cast hn
    have hd' : 0 ≤ (den : ℚ) := by exact_mod_cast hd
    simp [hn, not_lt.mpr hd, abs_of_neg hn', abs_of_nonneg hd']
  · have hn' : 0 ≤ (num : ℚ) := by exact_mod_cast hn
    have hd' : (den : ℚ) < 0 := by exact_mod_cast hd
    simp [not_lt.mpr hn, hd, abs_of_nonneg hn', abs_of_neg hd']
  · have hn' : 0 ≤ (num : ℚ) := by exact_mod_cast hn
    have hd' : 0 ≤ (den : ℚ) := by exact_mod_cast hd
    simp [not_lt.mpr hn, not_lt.mpr hd, abs_of_nonneg hn', abs_of_nonneg hd']

theorem withSign_div_gcd {num den : ℤ} (hden : den ≠ 0) :
    ((withSign (decide (num < 0) != decide (den < 0))
        (num.natAbs / Nat.gcd num.natAbs den.natAbs) : ℤ) : ℚ) /
      ((den.natAbs / Nat.gcd num.natAbs den.natAbs : ℕ) : ℚ) = num / den := by
  set g := Nat.gcd num.natAbs den.natAbs with hg
  have hgpos : 0 < g := Nat.gcd_pos_of_pos_right _ (Int.natAbs_pos.mpr hden)
  have hgq : (g : ℚ) ≠ 0 := by exact_mod_cast hgpos.ne'
  have hnum : ((num.natAbs / g : ℕ) : ℚ) = (num.natAbs : ℚ) / g :=
    Nat.cast_div (Nat.gcd_dvd_left _ _) hgq
  have hdenq : ((den.natAbs / g : ℕ) : ℚ) = (den.natAbs : ℚ) / g :=
    Nat.cast_div (Nat.gcd_dvd_right _ _) hgq
  rw [← withSign_div, withSign_cast, hnum, hdenq]
  split_ifs
  · rw [← neg_div, div_div_div_cancel_right₀ hgq]
  · rw [div_div_div_cancel_right₀ hgq]

/-- Coprime components are the least ones of a quotient: any representable ratio of the same
value has them as its magnitudes. -/
theorem magnitudes_of_value {num den : ℤ} (hden : den ≠ 0) {r : Ratio T}
    (h : r.value = num / den) :
    num.natAbs / Nat.gcd num.natAbs den.natAbs = r.num.natAbs ∧
      den.natAbs / Nat.gcd num.natAbs den.natAbs = r.den := by
  set g := Nat.gcd num.natAbs den.natAbs with hg
  have hgpos : 0 < g := Nat.gcd_pos_of_pos_right _ (Int.natAbs_pos.mpr hden)
  have hcross : r.num * den = num * r.den := by
    have hdq : (den : ℚ) ≠ 0 := by exact_mod_cast hden
    have hr : (r.den : ℚ) ≠ 0 := r.den_cast_ne_zero
    have hq : (r.num : ℚ) * den = num * r.den := (div_eq_div_iff hr hdq).mp h
    exact_mod_cast hq
  have habs : r.num.natAbs * den.natAbs = num.natAbs * r.den := by
    have h := congrArg Int.natAbs hcross
    simpa [Int.natAbs_mul] using h
  have hcop : (num.natAbs / g).Coprime (den.natAbs / g) := Nat.coprime_div_gcd_div_gcd hgpos
  have hn : num.natAbs = num.natAbs / g * g := (Nat.div_mul_cancel (Nat.gcd_dvd_left _ _)).symm
  have hd : den.natAbs = den.natAbs / g * g := (Nat.div_mul_cancel (Nat.gcd_dvd_right _ _)).symm
  have hred : r.num.natAbs * (den.natAbs / g) = (num.natAbs / g) * r.den := by
    apply Nat.eq_of_mul_eq_mul_right hgpos
    calc r.num.natAbs * (den.natAbs / g) * g = r.num.natAbs * (den.natAbs / g * g) := by ring
      _ = num.natAbs / g * g * r.den := by rw [← hd, ← hn, habs]
      _ = num.natAbs / g * r.den * g := by ring
  have hden_eq : den.natAbs / g = r.den := by
    apply Nat.dvd_antisymm
    · exact hcop.symm.dvd_of_dvd_mul_left ⟨r.num.natAbs, by rw [← hred, Nat.mul_comm]⟩
    · exact r.coprime.symm.dvd_of_dvd_mul_left ⟨num.natAbs / g, by rw [hred, Nat.mul_comm]⟩
  refine ⟨?_, hden_eq⟩
  rw [hden_eq] at hred
  exact (Nat.eq_of_mul_eq_mul_right r.den_pos hred).symm

/-- `try_from_wide` returns the quotient whenever the type can represent it, and only then. -/
theorem tryFromWide_eq_ok {num den : ℤ} (hden : den ≠ 0) {r : Ratio T} :
    tryFromWide num den = .ok r ↔ r.value = num / den := by
  have hsound : ∀ r : Ratio T, tryFromWide num den = .ok r → r.value = num / den := by
    intro r h
    unfold tryFromWide at h
    rw [dif_neg hden] at h
    dsimp only at h
    split_ifs at h with hnum hn hd
    · cases h
      simp [hnum]
    · cases h
      exact withSign_div_gcd hden
  refine ⟨hsound r, fun h => ?_⟩
  obtain ⟨hn, hd⟩ := magnitudes_of_value hden h
  have hok : ∃ s : Ratio T, tryFromWide num den = .ok s := by
    unfold tryFromWide
    rw [dif_neg hden]
    dsimp only
    split_ifs with hnum hnum' hden'
    · exact ⟨_, rfl⟩
    · exact ⟨_, rfl⟩
    · exact absurd (hd ▸ r.den_le) hden'
    · exact absurd (hn ▸ r.num_le) hnum'
  obtain ⟨s, hs⟩ := hok
  rw [hs, value_injective ((hsound s hs).trans h.symm)]

theorem num_abs_lt (r : Ratio T) : |r.num| < 2 ^ 63 := by
  have h := r.num_le.trans T.max_le
  rw [Int.abs_eq_natAbs]
  omega

theorem den_lt (r : Ratio T) : (r.den : ℤ) < 2 ^ 63 := by
  have h := r.den_le.trans T.max_le
  omega

/-- The products of two ratios' components stay inside `i128`. -/
theorem abs_mul_lt {x y : ℤ} (hx : |x| < 2 ^ 63) (hy : |y| < 2 ^ 63) : |x * y| < 2 ^ 126 := by
  calc |x * y| = |x| * |y| := abs_mul x y
    _ < 2 ^ 63 * 2 ^ 63 := mul_lt_mul'' hx hy (abs_nonneg x) (abs_nonneg y)
    _ = 2 ^ 126 := by norm_num

theorem checkedI128_of_abs_lt {x : ℤ} (h : |x| < 2 ^ 127) : checkedI128 x = some x := by
  have ⟨h1, h2⟩ := abs_lt.mp h
  rw [checkedI128, if_pos (by omega)]

theorem den_abs_lt (r : Ratio T) : |(r.den : ℤ)| < 2 ^ 63 := by
  rw [abs_of_nonneg (Int.natCast_nonneg _)]
  exact r.den_lt

theorem checkedI128_mul {x y : ℤ} (hx : |x| < 2 ^ 63) (hy : |y| < 2 ^ 63) :
    checkedI128 (x * y) = some (x * y) :=
  checkedI128_of_abs_lt ((abs_mul_lt hx hy).trans (by norm_num))

theorem den_mul_den_ne_zero (a b : Ratio T) : (a.den * b.den : ℤ) ≠ 0 := by
  have ha : (a.den : ℤ) ≠ 0 := by exact_mod_cast a.den_pos.ne'
  have hb : (b.den : ℤ) ≠ 0 := by exact_mod_cast b.den_pos.ne'
  exact mul_ne_zero ha hb

theorem checkedCombine_eq_ok {a b c : Ratio T} {combine : ℤ → ℤ → ℤ} {value : ℚ}
    (hbound : |combine (a.num * b.den) (b.num * a.den)| < 2 ^ 127)
    (hvalue : value = (combine (a.num * b.den) (b.num * a.den) : ℤ) / (a.den * b.den : ℤ)) :
    checkedCombine a b (fun l r => checkedI128 (combine l r)) = .ok c ↔ c.value = value := by
  have hwide : checkedCombine a b (fun l r => checkedI128 (combine l r)) =
      tryFromWide (combine (a.num * b.den) (b.num * a.den)) (a.den * b.den) := by
    simp only [checkedCombine, checkedI128_mul a.num_abs_lt b.den_abs_lt,
      checkedI128_mul b.num_abs_lt a.den_abs_lt, checkedI128_mul a.den_abs_lt b.den_abs_lt,
      checkedI128_of_abs_lt hbound]
  rw [hwide, tryFromWide_eq_ok (den_mul_den_ne_zero a b), hvalue]

theorem cross_add_lt (a b : Ratio T) : |a.num * b.den| + |b.num * a.den| < 2 ^ 127 :=
  (add_lt_add (abs_mul_lt a.num_abs_lt b.den_abs_lt)
    (abs_mul_lt b.num_abs_lt a.den_abs_lt)).trans_eq (by norm_num)

theorem add_eq_ok {a b c : Ratio T} : add a b = .ok c ↔ c.value = a.value + b.value := by
  refine checkedCombine_eq_ok ((abs_add_le _ _).trans_lt (cross_add_lt a b)) ?_
  have ha := a.den_cast_ne_zero
  have hb := b.den_cast_ne_zero
  push_cast
  unfold value
  field_simp

theorem sub_eq_ok {a b c : Ratio T} : sub a b = .ok c ↔ c.value = a.value - b.value := by
  refine checkedCombine_eq_ok ((abs_sub _ _).trans_lt (cross_add_lt a b)) ?_
  have ha := a.den_cast_ne_zero
  have hb := b.den_cast_ne_zero
  push_cast
  unfold value
  field_simp

theorem mul_eq_ok {a b c : Ratio T} : mul a b = .ok c ↔ c.value = a.value * b.value := by
  have hmul : mul a b = tryFromWide (a.num * b.num) (a.den * b.den) := by
    simp only [mul, checkedI128_mul a.num_abs_lt b.num_abs_lt,
      checkedI128_mul a.den_abs_lt b.den_abs_lt]
  rw [hmul, tryFromWide_eq_ok (den_mul_den_ne_zero a b)]
  have hval : a.value * b.value = ((a.num * b.num : ℤ) : ℚ) / ((a.den * b.den : ℤ) : ℚ) := by
    push_cast
    exact div_mul_div_comm _ _ _ _
  rw [hval]

end Ratio

/-!
# Ratio arithmetic against exact arithmetic

Each operation returns the exact rational in lowest terms, or fails because its components are out
of range. Nothing in between leaves the wide type.
-/

/-- Euclid's algorithm, by which `try_from_wide` reduces. -/
def gcd (a b : ℕ) : ℕ :=
  if b = 0 then a else gcd b (a % b)
termination_by b
decreasing_by exact Nat.mod_lt _ (by omega)

theorem gcd_eq (a b : ℕ) : gcd a b = Nat.gcd a b := by
  induction a, b using gcd.induct with
  | case1 a =>
    rw [gcd, if_pos rfl, Nat.gcd_zero_right]
  | case2 a b hzero ih =>
    rw [gcd, if_neg hzero, ih, Nat.gcd_comm b, ← Nat.gcd_rec, Nat.gcd_comm]

namespace Ratio

variable {T : RatioInt}

/-- The components of `q` in lowest terms are in the symmetric range. -/
def Representable (T : RatioInt) (q : ℚ) : Prop := q.num.natAbs ≤ T.max ∧ q.den ≤ T.max

instance (T : RatioInt) (q : ℚ) : Decidable (Representable T q) :=
  inferInstanceAs (Decidable (_ ∧ _))

/-- The ratio with the components of `q` in lowest terms. -/
def ofRat (q : ℚ) (h : Representable T q) : Ratio T :=
  ⟨q.num, q.den, q.den_pos, q.reduced, h.1, h.2⟩

/-- What exact arithmetic with a final range check gives. -/
def exactly (T : RatioInt) (q : ℚ) : Except RatioError (Ratio T) :=
  if h : Representable T q then .ok (ofRat q h) else .error .overflow

theorem value_ofRat (q : ℚ) (h : Representable T q) : (ofRat q h).value = q := Rat.num_div_den q

theorem representable_value (r : Ratio T) : Representable T r.value := by
  unfold Representable
  rw [num_value, den_value]
  exact ⟨r.num_le, r.den_le⟩

theorem exactly_value (r : Ratio T) : exactly T r.value = .ok r := by
  rw [exactly, dif_pos r.representable_value]
  exact congrArg Except.ok (value_injective (value_ofRat r.value r.representable_value))

/-- A result that is right whenever it is given, and never fails but by an overflow, is exact. -/
theorem eq_exactly {result : Except RatioError (Ratio T)} {q : ℚ}
    (hok : ∀ c, result = .ok c ↔ c.value = q) (herror : ∀ e, result = .error e → e = .overflow) :
    result = exactly T q := by
  by_cases h : Representable T q
  · rw [exactly, dif_pos h]
    exact (hok _).mpr (value_ofRat q h)
  · rw [exactly, dif_neg h]
    cases hresult : result with
    | error e => rw [herror e hresult]
    | ok c =>
      have hvalue := (hok c).mp hresult
      exact absurd (hvalue ▸ c.representable_value) h

theorem tryFromWide_error {num den : ℤ} (hden : den ≠ 0) {e : RatioError}
    (h : (tryFromWide num den : Except RatioError (Ratio T)) = .error e) : e = .overflow := by
  unfold tryFromWide at h
  rw [dif_neg hden] at h
  dsimp only at h
  split_ifs at h
  · cases h
    rfl
  · cases h
    rfl

theorem tryFromWide_eq {num den : ℤ} (hden : den ≠ 0) :
    (tryFromWide num den : Except RatioError (Ratio T)) = exactly T (num / den) :=
  eq_exactly (fun _ => tryFromWide_eq_ok hden) fun _ => tryFromWide_error hden

/-- Every value that the operations compute in `i128` from the components of two ratios. -/
def wideValues (a b : Ratio T) : List ℤ :=
  [a.num * b.den, b.num * a.den, a.den * b.den, a.num * b.den + b.num * a.den,
    a.num * b.den - b.num * a.den, a.num * b.num]

theorem checkedI128_wideValues (a b : Ratio T) :
    ∀ x ∈ wideValues a b, checkedI128 x = some x := by
  intro x h
  have hl := abs_mul_lt a.num_abs_lt b.den_abs_lt
  have hr := abs_mul_lt b.num_abs_lt a.den_abs_lt
  have hd := abs_mul_lt a.den_abs_lt b.den_abs_lt
  have hn := abs_mul_lt a.num_abs_lt b.num_abs_lt
  have hsum := (abs_add_le (a.num * b.den) (b.num * a.den)).trans_lt (add_lt_add hl hr)
  have hdiff := (abs_sub (a.num * b.den) (b.num * a.den)).trans_lt (add_lt_add hl hr)
  apply checkedI128_of_abs_lt
  simp only [wideValues, List.mem_cons, List.not_mem_nil, or_false] at h
  rcases h with rfl | rfl | rfl | rfl | rfl | rfl
  · exact hl.trans (by norm_num)
  · exact hr.trans (by norm_num)
  · exact hd.trans (by norm_num)
  · exact hsum.trans_eq (by norm_num)
  · exact hdiff.trans_eq (by norm_num)
  · exact hn.trans (by norm_num)

theorem add_eq_tryFromWide (a b : Ratio T) :
    add a b = tryFromWide (a.num * b.den + b.num * a.den) (a.den * b.den) := by
  have h := checkedI128_wideValues a b
  simp only [wideValues, List.forall_mem_cons] at h
  simp only [add, checkedCombine, h]

theorem sub_eq_tryFromWide (a b : Ratio T) :
    sub a b = tryFromWide (a.num * b.den - b.num * a.den) (a.den * b.den) := by
  have h := checkedI128_wideValues a b
  simp only [wideValues, List.forall_mem_cons] at h
  simp only [sub, checkedCombine, h]

theorem mul_eq_tryFromWide (a b : Ratio T) :
    mul a b = tryFromWide (a.num * b.num) (a.den * b.den) := by
  have h := checkedI128_wideValues a b
  simp only [wideValues, List.forall_mem_cons] at h
  simp only [mul, h]

theorem add_eq (a b : Ratio T) : add a b = exactly T (a.value + b.value) := by
  refine eq_exactly (fun _ => add_eq_ok) fun e h => ?_
  rw [add_eq_tryFromWide] at h
  exact tryFromWide_error (den_mul_den_ne_zero a b) h

theorem sub_eq (a b : Ratio T) : sub a b = exactly T (a.value - b.value) := by
  refine eq_exactly (fun _ => sub_eq_ok) fun e h => ?_
  rw [sub_eq_tryFromWide] at h
  exact tryFromWide_error (den_mul_den_ne_zero a b) h

theorem mul_eq (a b : Ratio T) : mul a b = exactly T (a.value * b.value) := by
  refine eq_exactly (fun _ => mul_eq_ok) fun e h => ?_
  rw [mul_eq_tryFromWide] at h
  exact tryFromWide_error (den_mul_den_ne_zero a b) h

theorem neg_eq (a : Ratio T) : .ok a.neg = exactly T (-a.value) := by
  rw [← value_neg, exactly_value]

theorem exactly_eq_ok {q : ℚ} {c : Ratio T} :
    exactly T q = .ok c ↔ Representable T q ∧ c.num = q.num ∧ c.den = q.den := by
  constructor
  · intro h
    unfold exactly at h
    split_ifs at h with hq
    cases h
    exact ⟨hq, rfl, rfl⟩
  · intro ⟨hq, hnum, hden⟩
    rw [exactly, dif_pos hq]
    refine congrArg Except.ok (value_injective ?_)
    rw [value_ofRat]
    unfold value
    rw [hnum, hden]
    exact (Rat.num_div_den q).symm

/-- Addition, subtraction, multiplication and negation give the exact result in lowest terms where
it is representable and overflow otherwise, and so does the quotient of two integers unless the
divisor is zero. No value computed on the way overflows `i128`. -/
theorem ratio_arithmetic (T : RatioInt) (a b : Ratio T) :
    (add a b = exactly T (a.value + b.value) ∧ sub a b = exactly T (a.value - b.value) ∧
      mul a b = exactly T (a.value * b.value) ∧ .ok a.neg = exactly T (-a.value) ∧
      ∀ num den : ℤ, tryFromWide num den =
        if den = 0 then .error .zeroDenominator else exactly T (num / den)) ∧
    (∀ (q : ℚ) (c : Ratio T), exactly T q = .ok c ↔
      Representable T q ∧ c.num = q.num ∧ c.den = q.den) ∧
    (∀ c : Ratio T, c.value = c.num / c.den ∧ 0 < c.den ∧ gcd c.num.natAbs c.den = 1) ∧
    ∀ x ∈ wideValues a b, checkedI128 x = some x := by
  refine ⟨⟨add_eq a b, sub_eq a b, mul_eq a b, neg_eq a, fun num den => ?_⟩,
    fun _ _ => exactly_eq_ok, fun c => ⟨rfl, c.den_pos, ?_⟩, checkedI128_wideValues a b⟩
  · split_ifs with hden
    · rw [tryFromWide, dif_pos hden]
    · exact tryFromWide_eq hden
  · rw [gcd_eq]
    exact c.coprime

end Ratio

end ProvenGraphcal
