import Mathlib.Data.Rat.Floor
import Mathlib.Tactic.Positivity

/-!
# Binary64 numbers and integers

A finite number is the rational that it denotes, so the two zeros are one number, as they are in
every comparison. Integers are converted with ties to even.
-/

namespace ProvenGraphcal

/-- A multiple of a power of two that binary64 can hold. -/
def IsBinary64 (q : ℚ) : Prop :=
  ∃ (m : ℤ) (e : ℤ), |m| < 2 ^ 53 ∧ -1074 ≤ e ∧ e ≤ 971 ∧ q = m * 2 ^ e

theorem isBinary64_zero : IsBinary64 0 :=
  ⟨0, 0, by norm_num, by norm_num, by norm_num, by norm_num⟩

/-- A finite binary64 number. -/
structure Binary64 where
  val : ℚ
  isBinary64 : IsBinary64 val
  deriving DecidableEq

namespace Binary64

@[ext] theorem ext {x y : Binary64} (h : x.val = y.val) : x = y := by
  cases x
  cases y
  congr

/-- The bits of a magnitude that do not fit the significand. -/
def droppedBits (a : ℕ) : ℕ := a.log2 - 52

/-- The significand of a magnitude, rounded to nearest with ties to even. -/
def significand (a : ℕ) : ℕ :=
  let unit := 2 ^ droppedBits a
  if unit < 2 * (a % unit) ∨ 2 * (a % unit) = unit ∧ a / unit % 2 = 1 then a / unit + 1
  else a / unit

def roundMagnitude (a : ℕ) : ℕ := significand a * 2 ^ droppedBits a

/-- The integer that a conversion to binary64 gives. -/
def roundInt (n : ℤ) : ℤ := n.sign * roundMagnitude n.natAbs

theorem significand_le (a : ℕ) : significand a ≤ 2 ^ 53 := by
  have hquotient : a / 2 ^ droppedBits a < 2 ^ 53 := by
    apply Nat.div_lt_of_lt_mul
    have hlog := Nat.lt_log2_self (n := a)
    rw [← Nat.pow_add]
    refine hlog.trans_le (Nat.pow_le_pow_right (by decide) ?_)
    unfold droppedBits
    omega
  unfold significand
  dsimp only
  split_ifs
  · omega
  · omega

theorem roundMagnitude_of_dvd {a : ℕ} (h : 2 ^ droppedBits a ∣ a) : roundMagnitude a = a := by
  have hunit : 0 < 2 ^ droppedBits a := Nat.two_pow_pos _
  have hsignificand : significand a = a / 2 ^ droppedBits a := by
    unfold significand
    dsimp only
    rw [Nat.mod_eq_zero_of_dvd h, if_neg]
    omega
  rw [roundMagnitude, hsignificand, Nat.div_mul_cancel h]

/-- A magnitude with a short significand ends in as many zeros as are dropped. -/
theorem dvd_of_isBinary64 {a : ℕ} (h : IsBinary64 a) : 2 ^ droppedBits a ∣ a := by
  obtain ⟨m, e, hm, -, -, ha⟩ := h
  by_cases hzero : droppedBits a = 0
  · rw [hzero]
    exact one_dvd a
  have hlog : a.log2 = 52 + droppedBits a := by
    unfold droppedBits at hzero ⊢
    omega
  have hpos : a ≠ 0 := by
    rintro rfl
    exact hzero rfl
  have hlarge : 2 ^ (52 + droppedBits a) ≤ a := hlog ▸ Nat.log2_self_le hpos
  have hexponent : (droppedBits a : ℤ) ≤ e := by
    by_contra hlt
    -- a smaller exponent leaves too small a number
    have hsmall : (a : ℚ) < 2 ^ (52 + droppedBits a) := by
      have hm' : (m : ℚ) < 2 ^ (53 : ℤ) := by
        exact_mod_cast (le_abs_self m).trans_lt hm
      calc (a : ℚ) = m * 2 ^ e := ha
        _ < 2 ^ (53 : ℤ) * 2 ^ e := mul_lt_mul_of_pos_right hm' (zpow_pos (by norm_num) _)
        _ = 2 ^ (53 + e) := (zpow_add₀ (by norm_num) _ _).symm
        _ ≤ 2 ^ ((52 + droppedBits a : ℕ) : ℤ) := by
          apply zpow_le_zpow_right₀ (by norm_num)
          omega
        _ = 2 ^ (52 + droppedBits a) := zpow_natCast _ _
    exact absurd hlarge (not_le.mpr (by exact_mod_cast hsmall))
  obtain ⟨k, hk⟩ : ∃ k : ℕ, e = droppedBits a + k := ⟨(e - droppedBits a).toNat, by omega⟩
  have hint : (a : ℤ) = 2 ^ droppedBits a * (m * 2 ^ k) := by
    have hrat : (a : ℚ) = 2 ^ droppedBits a * (m * 2 ^ k) := by
      rw [ha, hk, zpow_add₀ (by norm_num), zpow_natCast, zpow_natCast]
      ring
    exact_mod_cast hrat
  exact Int.natCast_dvd_natCast.mp ⟨m * 2 ^ k, by exact_mod_cast hint⟩

theorem isBinary64_neg {q : ℚ} (h : IsBinary64 q) : IsBinary64 (-q) := by
  obtain ⟨m, e, hm, hlow, hhigh, rfl⟩ := h
  refine ⟨-m, e, by rwa [abs_neg], hlow, hhigh, ?_⟩
  push_cast
  ring

/-- Rounding a number that binary64 can hold changes nothing. -/
theorem roundInt_of_isBinary64 {n : ℤ} (h : IsBinary64 n) : roundInt n = n := by
  have hnat : IsBinary64 (n.natAbs : ℕ) := by
    rcases Int.natAbs_eq n with hn | hn
    · have hcast : (n : ℚ) = (n.natAbs : ℕ) := congrArg (Int.cast : ℤ → ℚ) hn
      rwa [hcast] at h
    · have hcast : (n : ℚ) = -((n.natAbs : ℕ) : ℚ) := by
        rw [← Int.cast_natCast, ← Int.cast_neg, ← hn]
      have hneg := isBinary64_neg h
      rwa [hcast, neg_neg] at hneg
  rw [roundInt, roundMagnitude_of_dvd (dvd_of_isBinary64 hnat)]
  exact Int.sign_mul_natAbs n

theorem isBinary64_roundMagnitude {a : ℕ} (h : a ≤ 2 ^ 63) : IsBinary64 (roundMagnitude a : ℕ) := by
  have hbits : droppedBits a ≤ 11 := by
    by_cases hzero : a = 0
    · rw [hzero]
      decide
    · have hlog := (Nat.log2_lt hzero).mpr (h.trans_lt (by norm_num : 2 ^ 63 < 2 ^ 64))
      unfold droppedBits
      omega
  rcases (significand_le a).lt_or_eq with hlt | heq
  · refine ⟨significand a, droppedBits a, ?_, by omega, by omega, ?_⟩
    · rw [abs_of_nonneg (Int.natCast_nonneg _)]
      exact_mod_cast hlt
    · rw [roundMagnitude]
      push_cast
      rw [zpow_natCast]
  · -- a carry moves the significand by one place
    refine ⟨2 ^ 52, droppedBits a + 1, by norm_num, by omega, by omega, ?_⟩
    rw [roundMagnitude, heq, zpow_add₀ (by norm_num), zpow_natCast]
    push_cast
    ring

theorem isBinary64_roundInt {n : ℤ} (h : n.natAbs ≤ 2 ^ 63) : IsBinary64 (roundInt n) := by
  have hround := isBinary64_roundMagnitude h
  rw [roundInt]
  rcases lt_trichotomy n 0 with hneg | rfl | hpos
  · rw [Int.sign_eq_neg_one_of_neg hneg]
    rw [neg_one_mul]
    exact isBinary64_neg hround
  · exact ⟨0, 0, by norm_num, by norm_num, by norm_num, by norm_num⟩
  · rw [Int.sign_eq_one_of_pos hpos]
    rw [one_mul]
    exact hround

end Binary64

end ProvenGraphcal
