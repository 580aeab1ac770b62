import ProvenGraphcal.Constant.OperatorTyping

/-!
# Unit expressions

A unit expression has a dimension and a compound scale. Constants resolve both at once; node bodies
find the dimension when they are checked and the scale when they are evaluated.
-/

namespace ProvenGraphcal.Constant

open Static (MulDivOp)

variable {F B U : Type} [Binary64Ops F] [LinearOrder B]

inductive UnitScale (F : Type) [Binary64Ops F]
  | const (scale : PositiveFiniteScale F)
  | runtime (scale : PositiveFiniteScale F)
  | dynamic (baseUnitScale : PositiveFiniteScale F)

def UnitScale.staticScale : UnitScale F → Option (PositiveFiniteScale F)
  | .const scale => some scale
  | .runtime scale => some scale
  | .dynamic _ => none

structure UnitInfo (F B : Type) [Binary64Ops F] [LinearOrder B] where
  dimension : Dimension B
  scale : UnitScale F

/-- One `op unit^power` factor of a compound scale. -/
structure UnitScaleTerm (F : Type) [Binary64Ops F] where
  op : MulDivOp
  scale : PositiveFiniteScale F
  power : Rational

inductive UnitScaleStepError (F : Type)
  | power (error : PositiveFiniteScaleError F)
  | compound (error : PositiveFiniteScaleError F)

/-- The error of the scale itself. -/
def UnitScaleStepError.inner : UnitScaleStepError F → PositiveFiniteScaleError F
  | .power error => error
  | .compound error => error

def UnitScaleTerm.applyTo (term : UnitScaleTerm F) (acc : PositiveFiniteScale F) :
    Except (UnitScaleStepError F) (PositiveFiniteScale F) := do
  let powered ← (term.scale.checkedPow term.power).mapError .power
  (match term.op with
    | .mul => acc.checkedMul powered
    | .div => acc.checkedDiv powered).mapError .compound

/-- `dimension * powered` or `dimension / powered`. -/
def combineDimension (op : MulDivOp) (dimension powered : Dimension B) :
    Except RatioError (Dimension B) :=
  match op with
  | .mul => dimension.checkedMul powered
  | .div => dimension.checkedDiv powered

inductive UnitResolveError (F U : Type)
  | unknownUnit (name : U)
  | dynamicScale (name : U)
  | invalidScale (error : PositiveFiniteScaleError F)
  | ratio (error : RatioError)

/-- One step of the fold, which also multiplies the dimension. -/
def resolveUnitTerm (lookup : U → Option (UnitInfo F B))
    (acc : Dimension B × PositiveFiniteScale F) (item : UnitExprItem U) :
    Except (UnitResolveError F U) (Dimension B × PositiveFiniteScale F) := do
  let info ← okOr (lookup item.name) (.unknownUnit item.name)
  let power := item.effectivePower
  let poweredDim ← (info.dimension.pow power).mapError .ratio
  let scale ← okOr info.scale.staticScale (.dynamicScale item.name)
  let dim ← (combineDimension item.op acc.1 poweredDim).mapError .ratio
  let compound ← ((⟨item.op, scale, power⟩ : UnitScaleTerm F).applyTo acc.2).mapError
    fun error => .invalidScale error.inner
  return (dim, compound)

/-- `resolve_unit_expr_with` -/
def resolveUnitExprWith (lookup : U → Option (UnitInfo F B)) (expr : UnitExpr U) :
    Except (UnitResolveError F U) (Dimension B × PositiveFiniteScale F) :=
  expr.terms.foldlM (resolveUnitTerm lookup) (.dimensionless, .one)

structure ResolvedUnitExprItem (U : Type) where
  op : MulDivOp
  name : U
  nameSpan : Span
  power : Rational

structure ResolvedUnitExpr (U : Type) where
  terms : List (ResolvedUnitExprItem U)
  span : Span

/-- One step of `resolve_unit_dimension_or_diagnose`. -/
def unitDimensionTerm (units : U → Option (UnitInfo F B)) (dimension : Dimension B)
    (item : ResolvedUnitExprItem U) : Except (SemanticError B U) (Dimension B) := do
  let info ← okOr (units item.name) (.dimension item.nameSpan (.unknownUnit item.name))
  let termDimension ← overflowAt item.nameSpan (info.dimension.pow item.power)
  overflowAt item.nameSpan (combineDimension item.op dimension termDimension)

def resolveUnitDimension (units : U → Option (UnitInfo F B)) (unit : ResolvedUnitExpr U) :
    Except (SemanticError B U) (Dimension B) :=
  unit.terms.foldlM (unitDimensionTerm units) .dimensionless

/-!
# Constant expressions, their evaluator and their lowering

A lowered constant is sorted: `Int` nodes and real nodes. `Q` is the witness of a position that it
admits quantity literals. Every operator is typed with the shared rules; then the `Int` or the real
node is built that the type of the result selects.
-/

open Host (I64)

inductive ArithOp
  | add
  | sub
  | mul
  | div
  deriving DecidableEq

/-- Why an `Int` is converted to a quantity. -/
inductive IntConversion
  | toFloat
  | scaling
  | exponent
  deriving DecidableEq

/-- A unit literal with what it was resolved to. -/
structure ConstUnit (F B U : Type) [Binary64Ops F] [LinearOrder B] where
  spelling : UnitExpr U
  dimension : Dimension B
  scale : PositiveFiniteScale F

inductive ConstInt
  | literal (span : Span) (value : I64)
  | neg (span : Span) (operand : ConstInt)
  | arith (span : Span) (op : IntArithOp) (lhs rhs : ConstInt)
  | division (span : Span) (function : IntDivisionFn) (dividend divisor : ConstInt)
  | power (span : Span) (base exponent : ConstInt)

inductive ConstReal (F B U Q : Type) [Binary64Ops F] [LinearOrder B]
  | number (span : Span) (value : FiniteQuantity F)
  | builtin (span : Span) (constant : BuiltinConst)
  | quantity (span : Span) (value : FiniteQuantity F) (unit : ConstUnit F B U) (admitted : Q)
  | fromInt (span : Span) (conversion : IntConversion) (operand : ConstInt)
  | neg (span : Span) (operand : ConstReal F B U Q)
  | arith (span : Span) (op : ArithOp) (lhs rhs : ConstReal F B U Q)
  | exactPower (span : Span) (base : ConstReal F B U Q) (exponent : ExactRational)
  | power (span : Span) (base exponent : ConstReal F B U Q)

inductive ConstExprError (F U : Type)
  | nonConstantScale (span : Span)
  | nonStaticCoordinate (span : Span)
  | nonFiniteLiteral (value : F) (span : Span)
  | unit (error : UnitResolveError F U) (span : Span)
  | int (error : IntArithError) (span : Span)
  | intDivision (error : IntDivisionError) (span : Span)
  | toFloat (error : ExactI64ToF64Error) (span : Span)
  | intScalar (error : ExactI64ToF64Error) (span : Span)
  | intExponent (error : ExactI64ToF64Error) (span : Span)
  | intUnitScale (error : ExactI64ToF64Error) (span : Span)
  | arithmetic (error : FiniteArithmeticError) (span : Span)
  | exactPower (error : ExactPowerError) (span : Span)
  | invalidUnitScale (error : PositiveFiniteScaleError F) (span : Span)

variable {F B U Q : Type} [Binary64Ops F] [LinearOrder B]

namespace ConstInt

def span : ConstInt → Span
  | literal span _ => span
  | neg span _ => span
  | arith span _ _ _ => span
  | division span _ _ _ => span
  | power span _ _ => span

/-- Checked `Int` arithmetic, operands left to right. -/
def evaluate : ConstInt → Except (ConstExprError F U) I64
  | literal _ value => .ok value
  | neg span operand => do
    let operand ← operand.evaluate
    (negate operand).mapError (.int · span)
  | arith span op lhs rhs => do
    let lhs ← lhs.evaluate
    let rhs ← rhs.evaluate
    (Constant.arith op lhs rhs).mapError (.int · span)
  | division span function dividend divisor => do
    let dividend ← dividend.evaluate
    let divisor ← divisor.evaluate
    (divide function dividend divisor).mapError (.intDivision · span)
  | power span base exponent => do
    let base ← base.evaluate
    let exponent ← exponent.evaluate
    (Constant.power base exponent).mapError (.int · span)

end ConstInt

/-- The checked operation of `+ - * /`. -/
def checkedArith (op : ArithOp) (lhs rhs : FiniteQuantity F) :
    Except FiniteArithmeticError (FiniteQuantity F) :=
  match op with
  | .add => lhs.checkedAdd rhs
  | .sub => lhs.checkedSub rhs
  | .mul => lhs.checkedMul rhs
  | .div => lhs.checkedDiv rhs

/-- The diagnostic of an `Int` that has no exact binary64 value. -/
def IntConversion.error (conversion : IntConversion) (span : Span) (error : ExactI64ToF64Error) :
    ConstExprError F U :=
  match conversion with
  | .toFloat => .toFloat error span
  | .scaling => .intScalar error span
  | .exponent => .intExponent error span

namespace ConstReal

def span : ConstReal F B U Q → Span
  | number span _ => span
  | builtin span _ => span
  | quantity span _ _ _ => span
  | fromInt span _ _ => span
  | neg span _ => span
  | arith span _ _ _ => span
  | exactPower span _ _ => span
  | power span _ _ => span

def evaluate : ConstReal F B U Q → Except (ConstExprError F U) (FiniteQuantity F)
  | number _ value => .ok value
  | builtin span constant =>
    (FiniteQuantity.tryNew (Binary64Ops.constant constant)).mapError
      fun _ => .arithmetic .infinite span
  | quantity span value unit _ =>
    (FiniteQuantity.tryNew (Binary64Ops.mul value.get unit.scale.get)).mapError
      fun _ => .arithmetic .infinite span
  | fromInt _ conversion operand => do
    let value ← operand.evaluate
    (FiniteQuantity.fromExactInt value).mapError (conversion.error operand.span)
  | neg _ operand => do
    let operand ← operand.evaluate
    return operand.negated
  | arith span op lhs rhs => do
    let lhs ← lhs.evaluate
    let rhs ← rhs.evaluate
    (checkedArith op lhs rhs).mapError (.arithmetic · span)
  | exactPower span base exponent => do
    let base ← base.evaluate
    (base.checkedExactPower exponent).mapError fun
      | .noRealValue error => .exactPower error span
      | .arithmetic error => .arithmetic error span
  | power span base exponent => do
    let base ← base.evaluate
    let exponent ← exponent.evaluate
    (base.checkedPowf exponent).mapError (.arithmetic · span)

end ConstReal

inductive UnitScaleExpr (F B U : Type) [Binary64Ops F] [LinearOrder B]
  | int (expr : ConstInt)
  | real (expr : ConstReal F B U Empty)

/-- The scale factor, which must be positive and finite. -/
def UnitScaleExpr.evaluate :
    UnitScaleExpr F B U → Except (ConstExprError F U) (PositiveFiniteScale F)
  | .int expr => do
    let int ← expr.evaluate
    let value : FiniteQuantity F ←
      (FiniteQuantity.fromExactInt int).mapError (.intUnitScale · expr.span)
    (PositiveFiniteScale.new value.get).mapError (.invalidUnitScale · expr.span)
  | .real expr => do
    let value ← expr.evaluate
    (PositiveFiniteScale.new value.get).mapError (.invalidUnitScale · expr.span)

/-- A coordinate bound or step. -/
structure CoordinateExpr (F B U : Type) [Binary64Ops F] [LinearOrder B] where
  expr : ConstReal F B U Unit
  dimension : Dimension B

def CoordinateExpr.evaluate (coordinate : CoordinateExpr F B U) :
    Except (ConstExprError F U) (FiniteQuantity F) := coordinate.expr.evaluate

/-! ## Lowering -/

inductive ConstLowerError (F B U : Type) [LinearOrder B]
  | expr (error : ConstExprError F U)
  | type (error : SemanticError B U)

/-- A lowered subexpression with the type that the shared rules gave it. -/
inductive Typed (F B U Q : Type) [Binary64Ops F] [LinearOrder B]
  | int (int : ConstInt)
  | real (real : ConstReal F B U Q) (dimension : Dimension B)

namespace Typed

def checkedType : Typed F B U Q → CheckedType B
  | int _ => .int
  | real _ dimension => .quantity dimension

/-- An `Int` that meets a quantity is converted. -/
def intoReal (conversion : IntConversion) : Typed F B U Q → ConstReal F B U Q
  | int operand => .fromInt operand.span conversion operand
  | real operand _ => operand

end Typed

/-- A constant position: the unit resolver when it admits quantity literals, and the diagnostic of
a construct outside its sublanguage. -/
structure Lowering (F B U Q : Type) [Binary64Ops F] [LinearOrder B] where
  quantity : Option Q
  resolveUnit :
    Option (UnitExpr U → Except (UnitResolveError F U) (Dimension B × PositiveFiniteScale F))
  nonConstant : Span → ConstExprError F U

namespace Lowering

/-- The `Int` node for an operation that the rules typed as `Int`. -/
def intNode (span : Span) (op : BinOp) (lhs : Typed F B U Q) (rhs : Option (Typed F B U Q))
    (rhsSpan : Span) : Option ConstInt :=
  match lhs with
  | .real _ _ => none
  | .int lhs => do
    let rhs ← match op, rhs with
      | .pow (.exact exponent), none => some (ConstInt.literal rhsSpan exponent.numI64)
      | _, some (.int rhs) => some rhs
      | _, _ => none
    match op with
    | .add => return .arith span .add lhs rhs
    | .sub => return .arith span .sub lhs rhs
    | .mul => return .arith span .mul lhs rhs
    | .mod => return .arith span .mod lhs rhs
    | .pow _ => return .power span lhs rhs
    | .div => none

/-- The real node for an operation that the rules typed as a quantity. -/
def realNode (span : Span) (op : BinOp) (lhs : Typed F B U Q) (rhs : Option (Typed F B U Q)) :
    Option (ConstReal F B U Q) :=
  -- only `*` and `/` come here with an `Int` on the left
  let lhs := lhs.intoReal .scaling
  match op with
  | .pow (.exact exponent) => some (.exactPower span lhs exponent)
  | .pow _ => rhs.map fun rhs => .power span lhs (rhs.intoReal .exponent)
  | .add => rhs.map fun rhs => .arith span .add lhs (rhs.intoReal .scaling)
  | .sub => rhs.map fun rhs => .arith span .sub lhs (rhs.intoReal .scaling)
  | .mul => rhs.map fun rhs => .arith span .mul lhs (rhs.intoReal .scaling)
  | .div => rhs.map fun rhs => .arith span .div lhs (rhs.intoReal .scaling)
  | .mod => none

/-- The exact exponent is an `Int` when it is integral, as in a node body. -/
def exactExponentType (exponent : ExactRational) : CheckedType B :=
  if exponent.isInteger then .int else .quantity .dimensionless

/-- The folded exponent of a power. -/
def rhsConstInt (op : BinOp) (rhs : Option (Typed F B U Q)) : Option I64 :=
  match op, rhs with
  | .pow _, some (.int exponent) => (exponent.evaluate : Except (ConstExprError F U) I64).toOption
  | _, _ => none

variable (lowering : Lowering F B U Q)

/-- Type a binary operation on lowered operands and build its node. -/
def binop (span : Span) (op : BinOp) (lhs : Typed F B U Q) (lhsSpan : Span)
    (rhs : Option (Typed F B U Q)) (rhsType : CheckedType B) (rhsSpan : Span) :
    Except (ConstLowerError F B U) (Typed F B U Q) := do
  let result ← (binopRule span op ⟨lhs.checkedType, lhsSpan⟩ ⟨rhsType, rhsSpan⟩
    (rhsConstInt op rhs)).mapError .type
  let built := match result with
    | .int => (intNode span op lhs rhs rhsSpan).map .int
    | .quantity dimension => (realNode span op lhs rhs).map (.real · dimension)
  okOr built (.expr (lowering.nonConstant span))

/-- The operand of a built-in that takes an `Int`. -/
def intArgument (typed : Typed F B U Q) (span : Span) : Except (ConstLowerError F B U) ConstInt :=
  match typed with
  | .int int => .ok int
  | .real _ _ => .error (.expr (lowering.nonConstant span))

/-- Lower and type an expression, reporting the first error in source order. -/
def lower : Expr F U → Except (ConstLowerError F B U) (Typed F B U Q)
  | .number span value => do
    let value ← (FiniteQuantity.tryNew value).mapError fun value =>
      .expr (.nonFiniteLiteral value span)
    return .real (.number span value) .dimensionless
  | .integer span value => .ok (.int (.literal span value))
  | .constant span constant => .ok (.real (.builtin span constant) .dimensionless)
  | .quantityLiteral span value unit =>
    match lowering.quantity, lowering.resolveUnit with
    | some admitted, some resolve => do
      let value ← (FiniteQuantity.tryNew value).mapError fun value =>
        .expr (.nonFiniteLiteral value span)
      let (dimension, scale) ← (resolve unit).mapError fun error => .expr (.unit error unit.span)
      return .real (.quantity span value ⟨unit, dimension, scale⟩ admitted) dimension
    | _, _ => .error (.expr (lowering.nonConstant span))
  | .neg span operand => do
    let lowered ← lower operand
    let _ ← (unaryRule ⟨lowered.checkedType, operand.span⟩).mapError .type
    match lowered with
    | .int int => return .int (.neg span int)
    | .real real dimension => return .real (.neg span real) dimension
  | .binOp span op lhs rhs => do
    let lhsTyped ← lower lhs
    match op with
    | .pow (.exact exponent) =>
      -- the operator carries the exponent; the right operand is not lowered
      lowering.binop span op lhsTyped lhs.span none (exactExponentType exponent) rhs.span
    | _ =>
      let rhsTyped ← lower rhs
      lowering.binop span op lhsTyped lhs.span (some rhsTyped) rhsTyped.checkedType rhs.span
  | .call span callee args =>
    match callee.function, args with
    | .toFloat, [arg] => do
      let typed ← lower arg
      let _ ← (toFloatRule ⟨typed.checkedType, arg.span⟩).mapError .type
      let int ← lowering.intArgument typed span
      return .real (.fromInt span .toFloat int) .dimensionless
    | .intDivision function, [dividend, divisor] => do
      let typed ← lower dividend
      let _ ← (intDivisionOperandRule function ⟨typed.checkedType, dividend.span⟩).mapError .type
      let dividend ← lowering.intArgument typed dividend.span
      let typed ← lower divisor
      let _ ← (intDivisionOperandRule function ⟨typed.checkedType, divisor.span⟩).mapError .type
      let divisor ← lowering.intArgument typed divisor.span
      return .int (.division span function dividend divisor)
    | function, args =>
      .error (.type (.wrongArity callee.span function function.arity args.length))

end Lowering

def unitScaleLowering : Lowering F B U Empty where
  quantity := none
  resolveUnit := none
  nonConstant := .nonConstantScale

/-- `StaticScaleSource::lower` -/
def lowerUnitScale (unit : U) (expr : Expr F U) :
    Except (ConstLowerError F B U) (UnitScaleExpr F B U) := do
  match ← unitScaleLowering.lower expr with
  | .int int => return .int int
  | .real real dimension =>
    if dimension.isDimensionless then return .real real
    else .error (.type (.dimension expr.span (.unitScaleTypeMismatch unit (.quantity dimension))))

def coordinateLowering (units : U → Option (UnitInfo F B)) : Lowering F B U Unit where
  quantity := some ()
  resolveUnit := some (resolveUnitExprWith units)
  nonConstant := .nonStaticCoordinate

def lowerCoordinateExpr (units : U → Option (UnitInfo F B)) (expr : Expr F U) :
    Except (ConstLowerError F B U) (CoordinateExpr F B U) := do
  match ← (coordinateLowering units).lower expr with
  | .real real dimension => return ⟨real, dimension⟩
  | .int int => .error (.type (notAQuantity .int int.span))

end ProvenGraphcal.Constant
