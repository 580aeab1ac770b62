import ProvenGraphcal.Host.Scalar
import ProvenGraphcal.Static.DimensionDefinitions

/-!
# Checked arithmetic

`Int` operations with overflow checks, and finite quantities and positive unit scales over binary64
operations that are given no meaning beyond what the types of finite values need.
-/

namespace ProvenGraphcal.Constant

open Host (I64)

inductive IntArithOp
  | add
  | sub
  | mul
  | mod
  deriving DecidableEq

inductive IntArithError
  | moduloByZero
  | overflow
  | negationOverflow
  | negativeExponent
  | exponentTooLarge
  deriving DecidableEq

/-- The integer, if it fits in 64 bits. -/
def checkedI64 (n : ℤ) : Option I64 := if h : -2 ^ 63 ≤ n ∧ n < 2 ^ 63 then some ⟨n, h⟩ else none

def okOr {α ε : Type} (value : Option α) (error : ε) : Except ε α :=
  match value with
  | some value => .ok value
  | none => .error error

/-- The remainder has the sign of the dividend; with the divisor `-1` it is zero. -/
def arith (op : IntArithOp) (lhs rhs : I64) : Except IntArithError I64 :=
  match op with
  | .add => okOr (checkedI64 (lhs.val + rhs.val)) .overflow
  | .sub => okOr (checkedI64 (lhs.val - rhs.val)) .overflow
  | .mul => okOr (checkedI64 (lhs.val * rhs.val)) .overflow
  | .mod =>
    if rhs.val = 0 then .error .moduloByZero
    else if rhs.val = -1 then .ok ⟨0, by decide⟩
    else okOr (checkedI64 (lhs.val.tmod rhs.val)) .overflow

def negate (value : I64) : Except IntArithError I64 :=
  okOr (checkedI64 (-value.val)) .negationOverflow

def power (base exponent : I64) : Except IntArithError I64 :=
  if exponent.val < 0 then .error .negativeExponent
  else if 2 ^ 32 ≤ exponent.val then .error .exponentTooLarge
  else okOr (checkedI64 (base.val ^ exponent.val.toNat)) .overflow

inductive IntDivisionFn
  | floor
  | ceil
  | trunc
  deriving DecidableEq

inductive IntDivisionError
  | divisionByZero
  | overflow
  deriving DecidableEq

/-- An inexact quotient moves one step away from zero for `floor` when it is negative, and for
`ceil` when it is positive. -/
def divide (function : IntDivisionFn) (dividend divisor : I64) : Except IntDivisionError I64 :=
  if divisor.val = 0 then .error .divisionByZero
  else do
    let truncated ← okOr (checkedI64 (dividend.val.tdiv divisor.val)) .overflow
    let exact := dividend.val.tmod divisor.val == 0
    let negative := decide (dividend.val < 0) != decide (divisor.val < 0)
    match function with
    | .floor =>
      if !exact && negative then okOr (checkedI64 (truncated.val - 1)) .overflow else .ok truncated
    | .ceil =>
      if !exact && !negative then okOr (checkedI64 (truncated.val + 1)) .overflow
      else .ok truncated
    | .trunc => .ok truncated

abbrev ExactRational := Ratio .i64

inductive BuiltinConst
  | pi
  | e
  | tau
  | sqrt2
  | ln2
  | ln10
  deriving DecidableEq

/-- The binary64 operations that constants and nodes are computed with. -/
class Binary64Ops (F : Type) where
  isFinite : F → Bool
  isNan : F → Bool
  /-- `x == 0.0` -/
  eqZero : F → Bool
  /-- `x >= 0.0` -/
  isNonNegative : F → Bool
  /-- `x <= 0.0` -/
  isNonPositive : F → Bool
  neg : F → F
  add : F → F → F
  sub : F → F → F
  mul : F → F → F
  div : F → F → F
  powf : F → F → F
  powi : F → ℤ → F
  /-- `value as f64` -/
  ofInt : ℤ → F
  /-- `x as i128` -/
  toInt : F → ℤ
  /-- `constant.value()` -/
  constant : BuiltinConst → F
  isFinite_neg : ∀ x, isFinite x = true → isFinite (neg x) = true
  isFinite_ofInt : ∀ n : I64, isFinite (ofInt n.val) = true
  isPositive_one : isNonPositive (ofInt 1) = false

open Binary64Ops

variable {F : Type} [Binary64Ops F]

/-- `ratio.as_f64()` -/
def asF64 {T : RatioInt} (r : Ratio T) : F := div (ofInt r.num) (ofInt r.den)

/-! ## Finite quantities -/

inductive FiniteArithmeticError
  | infinite
  | underflow
  | divisionByZero
  | notANumber
  deriving DecidableEq

/-- No binary64 value equals the integer. -/
structure ExactI64ToF64Error where
  value : I64
  deriving DecidableEq

inductive ExactPowerError
  | evenRootOfNegative
  deriving DecidableEq

inductive ExactPowerFailure
  | noRealValue (error : ExactPowerError)
  | arithmetic (error : FiniteArithmeticError)
  deriving DecidableEq

structure FiniteQuantity (F : Type) [Binary64Ops F] where
  get : F
  finite : isFinite get = true

namespace FiniteQuantity

/-- The value, or itself as the error. -/
def tryNew (value : F) : Except F (FiniteQuantity F) :=
  if h : isFinite value = true then .ok ⟨value, h⟩ else .error value

def negated (x : FiniteQuantity F) : FiniteQuantity F := ⟨neg x.get, isFinite_neg _ x.finite⟩

def finiteResult (value : F) : Except FiniteArithmeticError (FiniteQuantity F) :=
  if h : isFinite value = true then .ok ⟨value, h⟩ else .error .infinite

def nonzeroResult (value : F) (mathematicallyNonzero : Bool) :
    Except FiniteArithmeticError (FiniteQuantity F) := do
  let value ← finiteResult value
  if mathematicallyNonzero && eqZero value.get then .error .underflow else .ok value

def checkedAdd (x y : FiniteQuantity F) : Except FiniteArithmeticError (FiniteQuantity F) :=
  finiteResult (add x.get y.get)

def checkedSub (x y : FiniteQuantity F) : Except FiniteArithmeticError (FiniteQuantity F) :=
  finiteResult (sub x.get y.get)

def checkedMul (x y : FiniteQuantity F) : Except FiniteArithmeticError (FiniteQuantity F) :=
  nonzeroResult (mul x.get y.get) (!eqZero x.get && !eqZero y.get)

def checkedDiv (x y : FiniteQuantity F) : Except FiniteArithmeticError (FiniteQuantity F) :=
  if eqZero y.get then .error .divisionByZero
  else nonzeroResult (div x.get y.get) (!eqZero x.get)

def checkedPowf (x y : FiniteQuantity F) : Except FiniteArithmeticError (FiniteQuantity F) :=
  let result := powf x.get y.get
  if isNan result then .error .notANumber
  else nonzeroResult result (!eqZero x.get && !eqZero y.get)

end FiniteQuantity

def exactI64ToF64 (value : I64) : Except ExactI64ToF64Error F :=
  let converted : F := ofInt value.val
  if toInt converted = value.val then .ok converted else .error ⟨value⟩

theorem isFinite_exactI64ToF64 {value : I64} {converted : F}
    (h : exactI64ToF64 value = .ok converted) : isFinite converted = true := by
  unfold exactI64ToF64 at h
  dsimp only at h
  split_ifs at h
  cases h
  exact isFinite_ofInt value

/-- The exact real value of an integer, which is finite. -/
def FiniteQuantity.fromExactInt (value : I64) : Except ExactI64ToF64Error (FiniteQuantity F) :=
  match h : exactI64ToF64 value with
  | .ok converted => .ok ⟨converted, isFinite_exactI64ToF64 h⟩
  | .error error => .error error

def ExactRational.isInteger (r : ExactRational) : Bool := r.den == 1

/-- `Ratio::<i64>::pow_f64`. -/
def powF64 (exponent : ExactRational) (base : F) : Except ExactPowerError F :=
  if exponent.den = 1 ∧ -2 ^ 31 ≤ exponent.num ∧ exponent.num < 2 ^ 31 then
    .ok (powi base exponent.num)
  else if isNonNegative base then .ok (powf base (asF64 exponent))
  else if exponent.den % 2 = 0 then .error .evenRootOfNegative
  else
    let magnitude := powf (neg base) (asF64 exponent)
    .ok (if exponent.num % 2 = 0 then magnitude else neg magnitude)

def FiniteQuantity.checkedExactPower (x : FiniteQuantity F) (exponent : ExactRational) :
    Except ExactPowerFailure (FiniteQuantity F) := do
  let result ← (powF64 exponent x.get).mapError .noRealValue
  if isNan result then .error (.arithmetic .notANumber)
  else (nonzeroResult result (!eqZero x.get)).mapError .arithmetic

/-! ## Unit scales -/

inductive PositiveFiniteScaleError (F : Type)
  | nonFinite (value : F)
  | nonPositive (value : F)

structure PositiveFiniteScale (F : Type) [Binary64Ops F] where
  get : F
  finite : isFinite get = true
  positive : isNonPositive get = false

namespace PositiveFiniteScale

def one : PositiveFiniteScale F :=
  ⟨ofInt 1, isFinite_ofInt ⟨1, by decide⟩, isPositive_one⟩

def new (value : F) : Except (PositiveFiniteScaleError F) (PositiveFiniteScale F) :=
  if hfinite : isFinite value = true then
    if hpositive : isNonPositive value = false then .ok ⟨value, hfinite, hpositive⟩
    else .error (.nonPositive value)
  else .error (.nonFinite value)

def checkedMul (x y : PositiveFiniteScale F) :
    Except (PositiveFiniteScaleError F) (PositiveFiniteScale F) := new (mul x.get y.get)

def checkedDiv (x y : PositiveFiniteScale F) :
    Except (PositiveFiniteScaleError F) (PositiveFiniteScale F) := new (div x.get y.get)

def checkedPow (x : PositiveFiniteScale F) (exp : Rational) :
    Except (PositiveFiniteScaleError F) (PositiveFiniteScale F) :=
  new (if exp.den = 1 then powi x.get exp.num else powf x.get (asF64 exp))

end PositiveFiniteScale

/-!
# The expressions of the constant sublanguage

Literals, built-in constants, arithmetic, and the built-in calls that make an `Int` conversion or
an `Int` division explicit.
-/

open Static (MulDivOp)

structure UnitExprItem (U : Type) where
  op : MulDivOp
  name : U
  nameSpan : Span
  power : Option Rational

def UnitExprItem.effectivePower {U : Type} (item : UnitExprItem U) : Rational :=
  item.power.getD .one

structure UnitExpr (U : Type) where
  terms : List (UnitExprItem U)
  span : Span

/-- The exponent of `^`, classified by the parser before literals lose their spelling. -/
inductive PowerExponent
  | exact (exponent : ExactRational)
  | floatSyntax (exact : Option ExactRational)
  | runtime

inductive BinOp
  | add
  | sub
  | mul
  | div
  | mod
  | pow (exponent : PowerExponent)

/-- `to_float` and the `div_*` built-ins. -/
inductive BuiltinFn
  | toFloat
  | intDivision (function : IntDivisionFn)
  deriving DecidableEq

def BuiltinFn.arity : BuiltinFn → ℕ
  | .toFloat => 1
  | .intDivision _ => 2

structure Callee where
  function : BuiltinFn
  span : Span

inductive Expr (F U : Type)
  | number (span : Span) (value : F)
  | integer (span : Span) (value : I64)
  | constant (span : Span) (constant : BuiltinConst)
  | quantityLiteral (span : Span) (value : F) (unit : UnitExpr U)
  | neg (span : Span) (operand : Expr F U)
  | binOp (span : Span) (op : BinOp) (lhs rhs : Expr F U)
  | call (span : Span) (callee : Callee) (args : List (Expr F U))

namespace Expr

variable {F U : Type}

def span : Expr F U → Span
  | number span _ => span
  | integer span _ => span
  | constant span _ => span
  | quantityLiteral span _ _ => span
  | neg span _ => span
  | binOp span _ _ _ => span
  | call span _ _ => span

@[elab_as_elim]
theorem induction {motive : Expr F U → Prop}
    (number : ∀ span value, motive (.number span value))
    (integer : ∀ span value, motive (.integer span value))
    (constant : ∀ span constant, motive (.constant span constant))
    (quantityLiteral : ∀ span value unit, motive (.quantityLiteral span value unit))
    (neg : ∀ span operand, motive operand → motive (.neg span operand))
    (binOp : ∀ span op lhs rhs, motive lhs → motive rhs → motive (.binOp span op lhs rhs))
    (call : ∀ span callee args, (∀ arg ∈ args, motive arg) → motive (.call span callee args)) :
    ∀ expr, motive expr
  | .number span value => number span value
  | .integer span value => integer span value
  | .constant span c => constant span c
  | .quantityLiteral span value unit => quantityLiteral span value unit
  | .neg span operand =>
    neg span operand (induction number integer constant quantityLiteral neg binOp call operand)
  | .binOp span op lhs rhs =>
    binOp span op lhs rhs (induction number integer constant quantityLiteral neg binOp call lhs)
      (induction number integer constant quantityLiteral neg binOp call rhs)
  | .call span callee args =>
    call span callee args fun arg _ =>
      induction number integer constant quantityLiteral neg binOp call arg

/-- A float literal, or its negation. -/
def isSignedFloatLiteral : Expr F U → Bool
  | .number _ _ => true
  | .neg _ (.number _ _) => true
  | _ => false

/-- What the parser promises: number literals are finite, and the exponents with float syntax are
float literals. -/
def Parsed [Binary64Ops F] : Expr F U → Prop
  | .number _ value => Binary64Ops.isFinite value = true
  | .quantityLiteral _ value _ => Binary64Ops.isFinite value = true
  | .neg _ operand => operand.Parsed
  | .binOp _ op lhs rhs =>
    lhs.Parsed ∧ rhs.Parsed ∧ ∀ exact, op = .pow (.floatSyntax exact) → rhs.isSignedFloatLiteral
  | .call _ _ args => ∀ arg ∈ args, arg.Parsed
  | _ => True

/-- The units that the quantity literals of an expression name. -/
def units : Expr F U → List U
  | .quantityLiteral _ _ unit => unit.terms.map UnitExprItem.name
  | .neg _ operand => operand.units
  | .binOp _ _ lhs rhs => lhs.units ++ rhs.units
  | .call _ _ args => args.flatMap units
  | _ => []

/-- An expression that unit scales admit. -/
def WithoutUnits : Expr F U → Prop
  | .quantityLiteral _ _ _ => False
  | .neg _ operand => operand.WithoutUnits
  | .binOp _ _ lhs rhs => lhs.WithoutUnits ∧ rhs.WithoutUnits
  | .call _ _ args => ∀ arg ∈ args, arg.WithoutUnits
  | _ => True

end Expr

/-!
# The typing rules that constants and node bodies share

The rules for the operators of the constant sublanguage on the types that its expressions have: an
`Int`, or a real quantity of a dimension. Errors keep the types that they spell.
-/

inductive CheckedType (B : Type) [LinearOrder B]
  | int
  | quantity (dimension : Dimension B)
  deriving DecidableEq

inductive OperandExpectation
  | quantityType
  | int
  | nonNegativeIntExponent
  | nonNegativeExactIntExponent
  | dimensionlessExponent
  deriving DecidableEq

inductive MismatchOperand (B : Type) [LinearOrder B]
  | expected (expectation : OperandExpectation)
  | type (type : CheckedType B)
  | dimension (dimension : Dimension B)
  | moduloOperands (lhs rhs : CheckedType B)
  | intExponent (value : I64)

/-- The rule that a mismatch breaks; the only value that is no quantity is an `Int`. -/
inductive MismatchRule
  | expectedQuantity
  | additionSameDimension
  | moduloInt
  | nonNegativeExponent
  | exactIntegerExponent
  | dimensionlessExponent
  | toFloatInt
  | intDivisionOperands (function : IntDivisionFn)
  deriving DecidableEq

inductive DimensionError (B U : Type) [LinearOrder B]
  | dimensionMismatch (expected found : MismatchOperand B) (help : MismatchRule)
  | intOperandDivision
  | dimensionOverflow
  | unknownUnit (name : U)
  | floatPowerExponent (replacement : Option Rational)
  | runtimeExponentForDimensionedBase
  | unitScaleTypeMismatch (name : U) (found : CheckedType B)

inductive SemanticError (B U : Type) [LinearOrder B]
  | dimension (span : Span) (error : DimensionError B U)
  | wrongArity (span : Span) (name : BuiltinFn) (expected got : ℕ)

variable {B U : Type} [LinearOrder B]

structure Operand (B : Type) [LinearOrder B] where
  ty : CheckedType B
  span : Span

def mismatch (span : Span) (expected found : MismatchOperand B) (help : MismatchRule) :
    SemanticError B U :=
  .dimension span (.dimensionMismatch expected found help)

def notAQuantity (spelling : CheckedType B) (span : Span) : SemanticError B U :=
  mismatch span (.expected .quantityType) (.type spelling) .expectedQuantity

def expectQuantity (inferred : CheckedType B) (span : Span) :
    Except (SemanticError B U) (Dimension B) :=
  match inferred with
  | .quantity dimension => .ok dimension
  | .int => .error (notAQuantity .int span)

/-- The dimension of one operand of `*` or `/`; an `Int` scales the other operand. -/
def productOperand (operand : Operand B) : Except (SemanticError B U) (Dimension B) :=
  match operand.ty with
  | .int => .ok .dimensionless
  | other => expectQuantity other operand.span

/-- `Rational::try_from`. -/
def rationalTryFrom (exponent : ExactRational) : Except RatioError Rational :=
  Ratio.tryFromWide exponent.num exponent.den

/-- The exact spelling to suggest for an exponent with float syntax. -/
def exactFloatReplacement (exact : Option ExactRational) : Option Rational :=
  exact.bind fun exponent => (rationalTryFrom exponent).toOption

def overflowAt {α : Type} (span : Span) (result : Except RatioError α) :
    Except (SemanticError B U) α :=
  result.mapError fun _ => .dimension span .dimensionOverflow

theorem natAbs_num_lt (r : ExactRational) : r.num.natAbs < 2 ^ 63 :=
  r.num_le.trans_lt (by decide)

/-- `exponent.num()` -/
def ExactRational.numI64 (r : ExactRational) : I64 :=
  ⟨r.num, by have h := natAbs_num_lt r; omega⟩

/-- The exponent of an `Int` power, when it is known. -/
def knownIntExponent (exponent : PowerExponent) (rhsConstInt : Option I64) : Option I64 :=
  match exponent with
  | .exact exact => if exact.isInteger then some exact.numI64 else none
  | .runtime => rhsConstInt
  | .floatSyntax _ => none

def additiveRule (lhs rhs : Operand B) : Except (SemanticError B U) (CheckedType B) :=
  if lhs.ty = .int ∧ rhs.ty = .int then .ok .int
  else do
    let lhsDim ← expectQuantity lhs.ty lhs.span
    let rhsDim ← expectQuantity rhs.ty rhs.span
    if lhsDim ≠ rhsDim then
      .error (mismatch rhs.span (.dimension lhsDim) (.dimension rhsDim) .additionSameDimension)
    else .ok (.quantity lhsDim)

/-- The rule for `^` on an `Int` base. -/
def intPowerRule (exponent : PowerExponent) (rhs : Operand B) (rhsConstInt : Option I64) :
    Except (SemanticError B U) (CheckedType B) :=
  match knownIntExponent exponent rhsConstInt with
  | some value =>
    if 0 ≤ value.val then .ok .int
    else .error (mismatch rhs.span (.expected .nonNegativeIntExponent) (.intExponent value)
      .nonNegativeExponent)
  | none =>
    .error (mismatch rhs.span (.expected .nonNegativeExactIntExponent) (.type rhs.ty)
      .exactIntegerExponent)

/-- A runtime exponent must be an `Int` or dimensionless. -/
def runtimeExponentRule (rhs : Operand B) : Except (SemanticError B U) Unit :=
  if rhs.ty = .int then .ok ()
  else do
    let rhsDim ← expectQuantity rhs.ty rhs.span
    if rhsDim.isDimensionless then .ok ()
    else .error (mismatch rhs.span (.expected .dimensionlessExponent) (.dimension rhsDim)
      .dimensionlessExponent)

/-- The rule for `^` on a quantity base. -/
def quantityPowerRule (exprSpan : Span) (exponent : PowerExponent) (lhsDim : Dimension B)
    (rhs : Operand B) : Except (SemanticError B U) (CheckedType B) :=
  match exponent with
  | .exact exact =>
    if lhsDim.isDimensionless then .ok (.quantity .dimensionless)
    else do
      let rational ← overflowAt rhs.span (rationalTryFrom exact)
      return .quantity (← overflowAt exprSpan (lhsDim.pow rational))
  | .floatSyntax exact => do
    runtimeExponentRule rhs
    if lhsDim.isDimensionless then .ok (.quantity .dimensionless)
    else .error (.dimension rhs.span (.floatPowerExponent (exactFloatReplacement exact)))
  | .runtime => do
    runtimeExponentRule rhs
    if lhsDim.isDimensionless then .ok (.quantity .dimensionless)
    else .error (.dimension rhs.span .runtimeExponentForDimensionedBase)

/-- Typing rule for a binary operation; `rhsConstInt` is the folded value of the right operand. -/
def binopRule (exprSpan : Span) (op : BinOp) (lhs rhs : Operand B) (rhsConstInt : Option I64) :
    Except (SemanticError B U) (CheckedType B) :=
  match op with
  | .add => additiveRule lhs rhs
  | .sub => additiveRule lhs rhs
  | .mul =>
    if lhs.ty = .int ∧ rhs.ty = .int then .ok .int
    else do
      let lhsDim ← productOperand lhs
      let rhsDim ← productOperand rhs
      return .quantity (← overflowAt exprSpan (lhsDim.checkedMul rhsDim))
  | .div =>
    if lhs.ty = .int ∧ rhs.ty = .int then .error (.dimension exprSpan .intOperandDivision)
    else do
      let lhsDim ← productOperand lhs
      let rhsDim ← productOperand rhs
      return .quantity (← overflowAt exprSpan (lhsDim.checkedDiv rhsDim))
  | .mod =>
    if lhs.ty = .int ∧ rhs.ty = .int then .ok .int
    else .error (mismatch exprSpan (.expected .int) (.moduloOperands lhs.ty rhs.ty) .moduloInt)
  | .pow exponent =>
    if lhs.ty = .int then intPowerRule exponent rhs rhsConstInt
    else do
      let lhsDim ← expectQuantity lhs.ty lhs.span
      quantityPowerRule exprSpan exponent lhsDim rhs

/-- Negation keeps the type of its operand. -/
def unaryRule (operand : Operand B) : Except (SemanticError B U) (CheckedType B) := .ok operand.ty

def toFloatRule (arg : Operand B) : Except (SemanticError B U) (CheckedType B) :=
  if arg.ty ≠ .int then
    .error (mismatch arg.span (.expected .int) (.type arg.ty) .toFloatInt)
  else .ok (.quantity .dimensionless)

def intDivisionOperandRule (function : IntDivisionFn) (arg : Operand B) :
    Except (SemanticError B U) Unit :=
  if arg.ty = .int then .ok ()
  else .error (mismatch arg.span (.expected .int) (.type arg.ty) (.intDivisionOperands function))

end ProvenGraphcal.Constant
