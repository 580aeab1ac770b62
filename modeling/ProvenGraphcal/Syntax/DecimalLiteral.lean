import ProvenGraphcal.Algebra.Ratio

/-!
# Decimal literals as exact rationals

A number token has the pattern `[0-9][0-9_]*(\.[0-9][0-9_]*)?([eE][+-]?[0-9][0-9_]*)?`. Its digits
are assembled into one integer before it is scaled, so large integers in between refuse literals
whose value is small.
-/

namespace ProvenGraphcal.DecimalLiteral

open Option (bind_eq_bind bind_eq_some_iff bind_some elim_none elim_some some_inj)

/-- A digit, then digits and separators. -/
structure DigitRun where
  first : Char
  rest : List Char
  first_isDigit : first.isDigit = true
  rest_isDigit : ∀ c ∈ rest, c.isDigit = true ∨ c = '_'

inductive Sign
  | plus
  | minus

def Sign.char : Sign → Char
  | .plus => '+'
  | .minus => '-'

structure Exponent where
  upper : Bool
  sign? : Option Sign
  run : DigitRun

structure NumberToken where
  whole : DigitRun
  fraction? : Option DigitRun
  exponent? : Option Exponent

def DigitRun.text (run : DigitRun) : List Char := run.first :: run.rest

def Exponent.marker (exponent : Exponent) : Char := if exponent.upper then 'E' else 'e'

def Exponent.signText (exponent : Exponent) : List Char :=
  (exponent.sign?.map Sign.char).toList

def Exponent.text (exponent : Exponent) : List Char :=
  exponent.marker :: (exponent.signText ++ exponent.run.text)

/-- The texts of number tokens. -/
def NumberToken.text (token : NumberToken) : List Char :=
  token.whole.text ++ (token.fraction?.elim [] fun run => '.' :: run.text) ++
    token.exponent?.elim [] Exponent.text

def DigitRun.digits (run : DigitRun) : List Char := run.text.filter (· ≠ '_')

def DigitRun.value (run : DigitRun) : ℕ := Nat.ofDigitChars 10 run.digits 0

def Exponent.value (exponent : Exponent) : ℤ :=
  match exponent.sign? with
  | some .minus => -(exponent.run.value : ℤ)
  | _ => exponent.run.value

namespace NumberToken

variable (token : NumberToken)

def fractionDigits : List Char := token.fraction?.elim [] DigitRun.digits

def exponentValue : ℤ := token.exponent?.elim 0 Exponent.value

/-- The value of the literal: the whole part and the fraction, scaled by a power of ten. -/
def value : ℚ :=
  (token.whole.value + (Nat.ofDigitChars 10 token.fractionDigits 0 : ℚ) /
    10 ^ token.fractionDigits.length) * 10 ^ token.exponentValue

/-- The digits before the exponent as one integer. -/
def mantissa : ℕ := Nat.ofDigitChars 10 (token.whole.digits ++ token.fractionDigits) 0

end NumberToken

/-- The text before and after the first separator. -/
def splitOnce (isSeparator : Char → Bool) : List Char → Option (List Char × List Char)
  | [] => none
  | c :: rest =>
    if isSeparator c then some ([], rest)
    else (splitOnce isSeparator rest).map fun (before, after) => (c :: before, after)

def parseDigits (text : List Char) : Option ℕ :=
  if text ≠ [] ∧ text.all Char.isDigit then some (Nat.ofDigitChars 10 text 0) else none

/-- An integer of a signed type with this greatest value, if it is in range. -/
def checked (max : ℕ) (x : ℤ) : Option ℤ := if -(max : ℤ) - 1 ≤ x ∧ x ≤ max then some x else none

/-- Read a decimal integer with an optional sign. -/
def parseInteger (max : ℕ) : List Char → Option ℤ
  | '+' :: text => (parseDigits text).bind fun n => checked max n
  | '-' :: text => (parseDigits text).bind fun n => checked max (-(n : ℤ))
  | text => (parseDigits text).bind fun n => checked max n

def i32Max : ℕ := 2 ^ 31 - 1

def i128Max : ℕ := 2 ^ 127 - 1

def isExponentMarker (c : Char) : Bool := c = 'e' || c = 'E'

/-- The mantissa and the exponent of a text without separators. -/
def splitExponent (normalized : List Char) : Option (List Char × ℤ) :=
  match splitOnce isExponentMarker normalized with
  | some (mantissa, exponent) => (parseInteger i32Max exponent).map fun exponent =>
    (mantissa, exponent)
  | none => some (normalized, 0)

/-- The numerator and the denominator of the scaled integer. -/
def scaled (numerator decimalScale : ℤ) : Option (ℤ × ℤ) :=
  if 0 ≤ decimalScale then do
    return (numerator, ← checked i128Max (10 ^ decimalScale.toNat))
  else do
    let scale ← checked i32Max (-decimalScale)
    let power ← checked i128Max (10 ^ scale.toNat)
    return (← checked i128Max (numerator * power), 1)

/-- The exact value of the text of a number token, whose characters are one byte each. -/
def exactDecimalLiteral (text : List Char) : Option (Ratio .i64) := do
  let normalized := text.filter (· ≠ '_')
  let (mantissa, exponent) ← splitExponent normalized
  let (whole, fractional) := (splitOnce (· = '.') mantissa).getD (mantissa, [])
  let numerator ← parseInteger i128Max (whole ++ fractional)
  let fractionalDigits ← checked i32Max fractional.length
  let decimalScale ← checked i32Max (fractionalDigits - exponent)
  let (numerator, denominator) ← scaled numerator decimalScale
  (Ratio.tryFromWide numerator denominator).toOption

variable {c : Char}

theorem DigitRun.isDigit_of_mem {run : DigitRun} (h : c ∈ run.digits) :
    c.isDigit = true := by
  obtain ⟨hmem, hne⟩ := List.mem_filter.mp h
  rcases List.mem_cons.mp hmem with rfl | hrest
  · exact run.first_isDigit
  · rcases run.rest_isDigit c hrest with hdigit | hunderscore
    · exact hdigit
    · simp [hunderscore] at hne

theorem DigitRun.digits_eq_cons (run : DigitRun) :
    run.digits = run.first :: run.rest.filter (· ≠ '_') := by
  have hne : run.first ≠ '_' := by
    intro h
    have hdigit := run.first_isDigit
    rw [h] at hdigit
    exact absurd hdigit (by decide)
  rw [digits, text, List.filter_cons_of_pos (by simpa using hne)]

variable {isSeparator : Char → Bool} {text : List Char}

theorem splitOnce_eq_none (h : ∀ c ∈ text, isSeparator c = false) :
    splitOnce isSeparator text = none := by
  induction text with
  | nil => rfl
  | cons c rest ih =>
    rw [splitOnce, h c List.mem_cons_self, ih fun c hc => h c (List.mem_cons_of_mem _ hc)]
    rfl

theorem splitOnce_append {before : List Char} {separator : Char}
    (h : ∀ c ∈ before, isSeparator c = false) (hseparator : isSeparator separator = true)
    (after : List Char) :
    splitOnce isSeparator (before ++ separator :: after) = some (before, after) := by
  induction before with
  | nil => rw [List.nil_append, splitOnce, if_pos hseparator]
  | cons c rest ih =>
    rw [List.cons_append, splitOnce, h c List.mem_cons_self,
      ih fun c hc => h c (List.mem_cons_of_mem _ hc)]
    rfl

theorem parseDigits_eq_some (hne : text ≠ []) (h : ∀ c ∈ text, c.isDigit = true) :
    parseDigits text = some (Nat.ofDigitChars 10 text 0) := by
  rw [parseDigits, if_pos ⟨hne, List.all_eq_true.mpr h⟩]

variable {max : ℕ}

/-- A text of digits has no sign. -/
theorem parseInteger_digits (hne : text ≠ []) (h : ∀ c ∈ text, c.isDigit = true) :
    parseInteger max text = checked max (Nat.ofDigitChars 10 text 0) := by
  have hparse := parseDigits_eq_some hne h
  unfold parseInteger
  split
  · exact absurd (h '+' List.mem_cons_self) (by decide)
  · exact absurd (h '-' List.mem_cons_self) (by decide)
  · rw [hparse]
    rfl

theorem isDigit_not_separator (h : c.isDigit = true) :
    isExponentMarker c = false ∧ c ≠ '.' := by
  constructor
  · rw [isExponentMarker, Bool.or_eq_false_iff, decide_eq_false_iff_not, decide_eq_false_iff_not]
    exact ⟨fun he => absurd (he ▸ h) (by decide), fun he => absurd (he ▸ h) (by decide)⟩
  · exact fun hdot => absurd (hdot ▸ h) (by decide)

theorem checked_eq_some {x y : ℤ} :
    checked max x = some y ↔ (-(max : ℤ) - 1 ≤ x ∧ x ≤ max) ∧ y = x := by
  unfold checked
  split_ifs with h
  · rw [some_inj, eq_comm]
    exact (and_iff_right h).symm
  · exact ⟨nofun, fun hsome => absurd hsome.1 h⟩

/-! ## The pieces of a token -/

theorem Exponent.parseInteger_text (exponent : Exponent) (max : ℕ) :
    parseInteger max (exponent.signText ++ exponent.run.digits) = checked max exponent.value := by
  have hne : exponent.run.digits ≠ [] := by
    rw [exponent.run.digits_eq_cons]
    exact List.cons_ne_nil _ _
  have hdigits : ∀ c ∈ exponent.run.digits, c.isDigit = true := fun c => DigitRun.isDigit_of_mem
  have hparse := parseDigits_eq_some hne hdigits
  obtain ⟨upper, sign?, run⟩ := exponent
  match sign? with
  | none => exact parseInteger_digits hne hdigits
  | some .plus =>
    show (parseDigits run.digits).bind _ = _
    rw [hparse]
    rfl
  | some .minus =>
    show (parseDigits run.digits).bind _ = _
    rw [hparse]
    rfl

namespace NumberToken

variable (token : NumberToken)

/-- The text of the mantissa without separators. -/
def mantissaText : List Char :=
  token.whole.digits ++ token.fraction?.elim [] fun run => '.' :: run.digits

theorem filter_text : token.text.filter (· ≠ '_') = token.mantissaText ++
    token.exponent?.elim [] fun exponent =>
      exponent.marker :: (exponent.signText ++ exponent.run.digits) := by
  obtain ⟨whole, fraction?, exponent?⟩ := token
  have hfraction : (fraction?.elim [] fun run => '.' :: run.text).filter (· ≠ '_') =
      fraction?.elim [] fun run => '.' :: run.digits := by
    cases fraction? with
    | none => rfl
    | some run => exact List.filter_cons_of_pos (by decide)
  have hexponent : (exponent?.elim [] Exponent.text).filter (· ≠ '_') =
      exponent?.elim [] fun exponent =>
        exponent.marker :: (exponent.signText ++ exponent.run.digits) := by
    cases exponent? with
    | none => rfl
    | some exponent =>
      obtain ⟨upper, sign?, run⟩ := exponent
      have hmarker : (Exponent.mk upper sign? run).marker ≠ '_' := by
        cases upper <;> simp [Exponent.marker]
      have hsign : (Exponent.mk upper sign? run).signText.filter (· ≠ '_') =
          (Exponent.mk upper sign? run).signText := by
        match sign? with
        | none => rfl
        | some .plus => rfl
        | some .minus => rfl
      show ((Exponent.mk upper sign? run).marker ::
        ((Exponent.mk upper sign? run).signText ++ run.text)).filter _ = _
      rw [List.filter_cons_of_pos (by simpa using hmarker), List.filter_append, hsign]
      rfl
  rw [text, List.filter_append, List.filter_append, hfraction, hexponent]
  rfl

theorem isDigit_of_mem_fractionDigits (h : c ∈ token.fractionDigits) :
    c.isDigit = true := by
  unfold fractionDigits at h
  cases hfraction : token.fraction? with
  | none =>
    rw [hfraction] at h
    cases h
  | some run =>
    rw [hfraction] at h
    exact DigitRun.isDigit_of_mem h

theorem not_isExponentMarker_of_mem (h : c ∈ token.mantissaText) :
    isExponentMarker c = false := by
  rcases List.mem_append.mp h with hwhole | hfraction
  · exact (isDigit_not_separator (DigitRun.isDigit_of_mem hwhole)).1
  · cases htoken : token.fraction? with
    | none =>
      rw [htoken] at hfraction
      cases hfraction
    | some run =>
      rw [htoken] at hfraction
      rcases List.mem_cons.mp hfraction with rfl | hdigit
      · rfl
      · exact (isDigit_not_separator (DigitRun.isDigit_of_mem hdigit)).1

theorem splitExponent_text : splitExponent (token.text.filter (· ≠ '_')) =
    (checked i32Max token.exponentValue).map fun exponent => (token.mantissaText, exponent) := by
  rw [token.filter_text, splitExponent]
  cases hexponent : token.exponent? with
  | none =>
    have hnone : splitOnce isExponentMarker (token.mantissaText ++ []) = none := by
      rw [List.append_nil]
      exact splitOnce_eq_none fun c => token.not_isExponentMarker_of_mem
    have hzero : token.exponentValue = 0 := by rw [exponentValue, hexponent]; rfl
    rw [elim_none, hnone, hzero, List.append_nil]
    rfl
  | some exponent =>
    have hmarker : isExponentMarker exponent.marker = true := by
      unfold Exponent.marker
      split_ifs <;> rfl
    have hvalue : token.exponentValue = exponent.value := by rw [exponentValue, hexponent]; rfl
    rw [elim_some, splitOnce_append (fun c => token.not_isExponentMarker_of_mem) hmarker,
      hvalue]
    show (parseInteger i32Max (exponent.signText ++ exponent.run.digits)).map _ = _
    rw [exponent.parseInteger_text]

theorem splitOnce_mantissaText : (splitOnce (· = '.') token.mantissaText).getD
    (token.mantissaText, []) = (token.whole.digits, token.fractionDigits) := by
  have hwhole : ∀ c ∈ token.whole.digits, decide (c = '.') = false := by
    intro c hc
    exact decide_eq_false (isDigit_not_separator (DigitRun.isDigit_of_mem hc)).2
  unfold mantissaText fractionDigits
  cases token.fraction? with
  | none =>
    rw [elim_none, List.append_nil, splitOnce_eq_none hwhole]
    rfl
  | some run =>
    rw [elim_some, splitOnce_append hwhole (by decide)]
    rfl

theorem parseInteger_mantissa :
    parseInteger i128Max (token.whole.digits ++ token.fractionDigits) =
      checked i128Max token.mantissa := by
  apply parseInteger_digits
  · rw [token.whole.digits_eq_cons]
    exact List.cons_ne_nil _ _
  · intro c hc
    rcases List.mem_append.mp hc with hwhole | hfraction
    · exact DigitRun.isDigit_of_mem hwhole
    · exact token.isDigit_of_mem_fractionDigits hfraction

/-- The digits before the exponent, with the point put back. -/
theorem value_eq : token.value =
    token.mantissa * (10 : ℚ) ^ (token.exponentValue - token.fractionDigits.length) := by
  have hmantissa : token.mantissa = 10 ^ token.fractionDigits.length * token.whole.value +
      Nat.ofDigitChars 10 token.fractionDigits 0 := by
    rw [mantissa, Nat.ofDigitChars_append, Nat.ofDigitChars_eq_ofDigitChars_zero]
    rfl
  have hten : (10 : ℚ) ^ token.fractionDigits.length ≠ 0 := by positivity
  rw [value, zpow_sub₀ (by norm_num), zpow_natCast, hmantissa]
  push_cast
  field_simp

/-- Every step before the reduction stays in its range. -/
structure InRange : Prop where
  exponent_ge : -2 ^ 31 ≤ token.exponentValue
  exponent_le : token.exponentValue ≤ 2 ^ 31 - 1
  fraction_le : token.fractionDigits.length ≤ 2 ^ 31 - 1
  scale_le : (token.fractionDigits.length - token.exponentValue).natAbs ≤ 38
  mantissa_le : token.mantissa ≤ 2 ^ 127 - 1

theorem exactDecimalLiteral_text : exactDecimalLiteral token.text = (do
    let exponent ← checked i32Max token.exponentValue
    let numerator ← checked i128Max token.mantissa
    let fractionalDigits ← checked i32Max token.fractionDigits.length
    let decimalScale ← checked i32Max (fractionalDigits - exponent)
    let (numerator, denominator) ← scaled numerator decimalScale
    (Ratio.tryFromWide numerator denominator).toOption) := by
  unfold exactDecimalLiteral
  dsimp only
  rw [token.splitExponent_text]
  cases hexponent : checked i32Max token.exponentValue with
  | none => rfl
  | some exponent =>
    simp only [Option.map_some, bind_eq_bind, bind_some,
      token.splitOnce_mantissaText, token.parseInteger_mantissa]

end NumberToken

variable {n : ℕ}

theorem pow_le_i128Max : (10 : ℤ) ^ n ≤ i128Max ↔ n ≤ 38 := by
  constructor
  · intro h
    by_contra hlarge
    have hpow : (10 : ℤ) ^ 39 ≤ 10 ^ n := pow_le_pow_right₀ (by norm_num) (by omega)
    have hmax : (i128Max : ℤ) < 10 ^ 39 := by decide
    omega
  · intro h
    have hpow : (10 : ℤ) ^ n ≤ 10 ^ 38 := pow_le_pow_right₀ (by norm_num) h
    have hmax : (10 : ℤ) ^ 38 ≤ i128Max := by decide
    omega

theorem checked_pow {x : ℤ} :
    checked i128Max (10 ^ n) = some x ↔ n ≤ 38 ∧ x = 10 ^ n := by
  have hpos : (0 : ℤ) < 10 ^ n := by positivity
  rw [checked_eq_some, pow_le_i128Max]
  constructor
  · rintro ⟨⟨-, hle⟩, rfl⟩
    exact ⟨hle, rfl⟩
  · rintro ⟨hle, rfl⟩
    exact ⟨⟨by omega, hle⟩, rfl⟩

/-- A scaled pair is the integer with the point put back. -/
theorem scaled_eq_some {numerator scale : ℤ} {pair : ℤ × ℤ}
    (h : scaled numerator scale = some pair) :
    scale.natAbs ≤ 38 ∧ pair.2 ≠ 0 ∧
      (pair.1 : ℚ) / pair.2 = numerator * (10 : ℚ) ^ (-scale) := by
  unfold scaled at h
  split_ifs at h with hsign
  · obtain ⟨power, hpower, h⟩ := bind_eq_some_iff.mp h
    obtain ⟨hle, rfl⟩ := checked_pow.mp hpower
    cases h
    refine ⟨by omega, by positivity, ?_⟩
    have hscale : scale = (scale.toNat : ℤ) := (Int.toNat_of_nonneg hsign).symm
    rw [hscale, zpow_neg, zpow_natCast]
    push_cast
    rw [Int.toNat_natCast, div_eq_mul_inv]
  · obtain ⟨negated, hnegated, h⟩ := bind_eq_some_iff.mp h
    obtain ⟨-, rfl⟩ := checked_eq_some.mp hnegated
    obtain ⟨power, hpower, h⟩ := bind_eq_some_iff.mp h
    obtain ⟨hle, rfl⟩ := checked_pow.mp hpower
    obtain ⟨product, hproduct, h⟩ := bind_eq_some_iff.mp h
    obtain ⟨-, rfl⟩ := checked_eq_some.mp hproduct
    cases h
    refine ⟨by omega, one_ne_zero, ?_⟩
    have hscale : -scale = ((-scale).toNat : ℤ) := (Int.toNat_of_nonneg (by omega)).symm
    rw [Int.cast_one, div_one, hscale, zpow_natCast]
    push_cast
    rw [Int.toNat_natCast]

/-- An integer is scaled unless the power or the product leaves its range. -/
theorem exists_scaled (numerator : ℕ) {scale : ℤ} (hscale : scale.natAbs ≤ 38)
    (hproduct : scale < 0 → (numerator : ℤ) * 10 ^ (-scale).toNat ≤ i128Max) :
    ∃ pair, scaled numerator scale = some pair := by
  unfold scaled
  split_ifs with hsign
  · have hpower := checked_pow.mpr ⟨(by omega : scale.toNat ≤ 38), rfl⟩
    rw [hpower]
    exact ⟨_, rfl⟩
  · have hi32 : (38 : ℤ) ≤ i32Max := by decide
    have hnegated : checked i32Max (-scale) = some (-scale) :=
      checked_eq_some.mpr ⟨by omega, rfl⟩
    have hpower := checked_pow.mpr ⟨(by omega : (-scale).toNat ≤ 38), rfl⟩
    have hpos : (0 : ℤ) ≤ numerator * 10 ^ (-scale).toNat := by positivity
    have hchecked := checked_eq_some.mpr
      ⟨⟨(by omega : -(i128Max : ℤ) - 1 ≤ numerator * 10 ^ (-scale).toNat),
        hproduct (by omega)⟩, rfl⟩
    simp only [hnegated, hpower, hchecked, bind_eq_bind, bind_some]
    exact ⟨_, rfl⟩

namespace NumberToken

variable {token : NumberToken} {r : Ratio .i64}

theorem inRange_of_eq_some (h : exactDecimalLiteral token.text = some r) :
    token.InRange ∧ r.value = token.value := by
  rw [token.exactDecimalLiteral_text] at h
  obtain ⟨exponent, hexponent, h⟩ := bind_eq_some_iff.mp h
  obtain ⟨⟨hge, hle⟩, rfl⟩ := checked_eq_some.mp hexponent
  obtain ⟨numerator, hnumerator, h⟩ := bind_eq_some_iff.mp h
  obtain ⟨⟨-, hmantissa⟩, rfl⟩ := checked_eq_some.mp hnumerator
  obtain ⟨digits, hdigits, h⟩ := bind_eq_some_iff.mp h
  obtain ⟨⟨-, hfraction⟩, rfl⟩ := checked_eq_some.mp hdigits
  obtain ⟨scale, hscale, h⟩ := bind_eq_some_iff.mp h
  obtain ⟨-, rfl⟩ := checked_eq_some.mp hscale
  obtain ⟨pair, hpair, h⟩ := bind_eq_some_iff.mp h
  obtain ⟨hsmall, hden, hvalue⟩ := scaled_eq_some hpair
  have hok : Ratio.tryFromWide pair.1 pair.2 = .ok r := by
    change (Ratio.tryFromWide pair.1 pair.2).toOption = some r at h
    cases hratio : Ratio.tryFromWide (T := .i64) pair.1 pair.2 with
    | ok ratio =>
      rw [hratio] at h
      exact congrArg _ (some_inj.mp h)
    | error e =>
      rw [hratio] at h
      cases h
  refine ⟨⟨?_, ?_, ?_, hsmall, ?_⟩, ?_⟩
  · simp only [i32Max] at hge
    omega
  · simp only [i32Max] at hle
    omega
  · simp only [i32Max] at hfraction
    omega
  · simp only [i128Max] at hmantissa
    omega
  · rw [(Ratio.tryFromWide_eq_ok hden).mp hok, hvalue, token.value_eq, neg_sub]
    rfl

/-- A literal that is scaled up stays in range when its value fits. -/
theorem scaled_le (hvalue : r.value = token.value)
    (hn : token.exponentValue - token.fractionDigits.length = n) :
    (token.mantissa : ℤ) * 10 ^ n ≤ i128Max := by
  have hint : r.value = ((token.mantissa * 10 ^ n : ℤ) : ℚ) := by
    rw [hvalue, token.value_eq, hn, zpow_natCast]
    push_cast
    rfl
  have hnum : r.num = token.mantissa * 10 ^ n := by
    rw [← r.num_value, hint, Rat.num_intCast]
  have hle := r.num_le
  have hmax : RatioInt.max .i64 ≤ i128Max := by decide
  omega

theorem eq_some_of_inRange (h : token.InRange) (hvalue : r.value = token.value) :
    exactDecimalLiteral token.text = some r := by
  have hexponent : checked i32Max token.exponentValue = some token.exponentValue := by
    have hge := h.exponent_ge
    have hle := h.exponent_le
    exact checked_eq_some.mpr ⟨by simp only [i32Max]; omega, rfl⟩
  have hmantissa : checked i128Max token.mantissa = some (token.mantissa : ℤ) := by
    have hle := h.mantissa_le
    exact checked_eq_some.mpr ⟨by simp only [i128Max]; omega, rfl⟩
  have hfraction : checked i32Max token.fractionDigits.length =
      some (token.fractionDigits.length : ℤ) := by
    have hle := h.fraction_le
    exact checked_eq_some.mpr ⟨by simp only [i32Max]; omega, rfl⟩
  have hscale : checked i32Max (token.fractionDigits.length - token.exponentValue) =
      some (token.fractionDigits.length - token.exponentValue) := by
    have hle := h.scale_le
    exact checked_eq_some.mpr ⟨by simp only [i32Max]; omega, rfl⟩
  obtain ⟨pair, hpair⟩ := exists_scaled token.mantissa h.scale_le fun hneg =>
    scaled_le hvalue (by omega)
  obtain ⟨-, hden, hquotient⟩ := scaled_eq_some hpair
  have hok : Ratio.tryFromWide pair.1 pair.2 = .ok r := by
    rw [Ratio.tryFromWide_eq_ok hden, hquotient, hvalue, token.value_eq, neg_sub]
    rfl
  rw [token.exactDecimalLiteral_text]
  simp only [hexponent, hmantissa, hfraction, hscale, hpair, hok, bind_eq_bind,
    bind_some]
  rfl

/-- The conversion is exact on the literals whose value does not fit, and on those whose digits,
exponent and scale stay in range. -/
theorem exactDecimalLiteral_exact_iff (token : NumberToken) :
    (∀ r, exactDecimalLiteral token.text = some r ↔ r.value = token.value) ↔
      ((∃ r : Ratio .i64, r.value = token.value) → token.InRange) := by
  constructor
  · rintro hexact ⟨r, hr⟩
    exact (inRange_of_eq_some ((hexact r).mpr hr)).1
  · intro hrange r
    exact ⟨fun h => (inRange_of_eq_some h).2, fun h => eq_some_of_inRange (hrange ⟨r, h⟩) h⟩

/-- `0e100`. -/
def zeroLiteral : NumberToken where
  whole := ⟨'0', [], rfl, by simp⟩
  fraction? := none
  exponent? := some ⟨false, none, ⟨'1', ['0', '0'], rfl, by simp⟩⟩

/-- Zero fits, but its power of ten does not. -/
theorem zero_literal_rejected :
    zeroLiteral.text = ['0', 'e', '1', '0', '0'] ∧
      (Ratio.zero : Ratio .i64).value = zeroLiteral.value ∧
        exactDecimalLiteral zeroLiteral.text = none := by
  refine ⟨rfl, ?_, by decide⟩
  have hmantissa : zeroLiteral.mantissa = 0 := by decide
  rw [value_eq, hmantissa, Ratio.value_zero, Nat.cast_zero, zero_mul]

end NumberToken

end ProvenGraphcal.DecimalLiteral
