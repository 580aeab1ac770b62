import ProvenGraphcal.Constant.ConstExpr
import ProvenGraphcal.Library.Agreement

/-!
# Checking the same expressions as node bodies

A body is lowered to HIR, its type is inferred, and the typed tree is assembled whose operations the
operand types select.
-/

namespace ProvenGraphcal.Constant

open Host (I64)
open Static (MulDivOp)

inductive HirExpr (F U : Type)
  | number (span : Span) (value : F)
  | integer (span : Span) (value : I64)
  | constant (span : Span) (constant : BuiltinConst)
  | quantityLiteral (span : Span) (value : F) (unit : ResolvedUnitExpr U)
  | neg (span : Span) (operand : HirExpr F U)
  | binOp (span : Span) (op : BinOp) (lhs rhs : HirExpr F U)
  | call (span : Span) (callee : Callee) (args : List (HirExpr F U))

inductive ExprLowerError (U : Type)
  | unknownUnit (name : U) (span : Span)

variable {F B U : Type} [Binary64Ops F] [LinearOrder B]

def HirExpr.span : HirExpr F U → Span
  | .number span _ => span
  | .integer span _ => span
  | .constant span _ => span
  | .quantityLiteral span _ _ => span
  | .neg span _ => span
  | .binOp span _ _ _ => span
  | .call span _ _ => span

def lowerUnitTerm (units : U → Option (UnitInfo F B)) (item : UnitExprItem U) :
    Except (ExprLowerError U) (ResolvedUnitExprItem U) :=
  match units item.name with
  | some _ => .ok ⟨item.op, item.name, item.nameSpan, item.effectivePower⟩
  | none => .error (.unknownUnit item.name item.nameSpan)

def lowerUnitExpr (units : U → Option (UnitInfo F B)) (unit : UnitExpr U) :
    Except (ExprLowerError U) (ResolvedUnitExpr U) := do
  return ⟨← unit.terms.mapM (lowerUnitTerm units), unit.span⟩

/-- The literal that stands for an exact exponent. -/
def exactExponentLiteral (exponent : ExactRational) (span : Span) : HirExpr F U :=
  if exponent.isInteger then .integer span exponent.numI64 else .number span (asF64 exponent)

mutual

def lowerExpr (units : U → Option (UnitInfo F B)) :
    Expr F U → Except (ExprLowerError U) (HirExpr F U)
  | .number span value => .ok (.number span value)
  | .integer span value => .ok (.integer span value)
  | .constant span constant => .ok (.constant span constant)
  | .quantityLiteral span value unit => do
    return .quantityLiteral span value (← lowerUnitExpr units unit)
  | .neg span operand => do return .neg span (← lowerExpr units operand)
  | .binOp span op lhs rhs => do
    let lhs ← lowerExpr units lhs
    match op with
    | .pow (.exact exponent) =>
      return .binOp span op lhs (exactExponentLiteral exponent rhs.span)
    | _ => return .binOp span op lhs (← lowerExpr units rhs)
  | .call span callee args => do return .call span callee (← lowerArgs units args)

def lowerArgs (units : U → Option (UnitInfo F B)) :
    List (Expr F U) → Except (ExprLowerError U) (List (HirExpr F U))
  | [] => .ok []
  | arg :: args => do
    let arg ← lowerExpr units arg
    return arg :: (← lowerArgs units args)

end

/-- Fold a static `Int` expression; nothing when it is not static or has no value. -/
def tryConstInt : HirExpr F U → Option I64
  | .integer _ value => some value
  | .neg _ operand => do (negate (← tryConstInt operand)).toOption
  | .call _ callee args =>
    match callee.function, args with
    | .intDivision function, [dividend, divisor] => do
      (divide function (← tryConstInt dividend) (← tryConstInt divisor)).toOption
    | _, _ => none
  | .binOp _ op lhs rhs => do
    let l ← tryConstInt lhs
    let r ← tryConstInt rhs
    match op with
    | .add => (arith .add l r).toOption
    | .sub => (arith .sub l r).toOption
    | .mul => (arith .mul l r).toOption
    | .mod => (arith .mod l r).toOption
    | .pow _ => (power l r).toOption
    | .div => none
  | _ => none

/-- The right operand of `+` and `^` is folded. -/
def inferRhsConstInt (op : BinOp) (rhs : HirExpr F U) : Option I64 :=
  match op with
  | .pow _ => tryConstInt rhs
  | .add => tryConstInt rhs
  | _ => none

def infer (units : U → Option (UnitInfo F B)) :
    HirExpr F U → Except (SemanticError B U) (CheckedType B)
  | .number _ _ => .ok (.quantity .dimensionless)
  | .integer _ _ => .ok .int
  | .constant _ _ => .ok (.quantity .dimensionless)
  | .quantityLiteral _ _ unit => do return .quantity (← resolveUnitDimension units unit)
  | .neg _ operand => do
    let type ← infer units operand
    unaryRule ⟨type, operand.span⟩
  | .binOp span op lhs rhs => do
    let lhsType ← infer units lhs
    let rhsType ← infer units rhs
    binopRule span op ⟨lhsType, lhs.span⟩ ⟨rhsType, rhs.span⟩ (inferRhsConstInt op rhs)
  | .call _ callee args =>
    match callee.function, args with
    | .toFloat, [arg] => do
      let type ← infer units arg
      toFloatRule ⟨type, arg.span⟩
    | .intDivision function, [dividend, divisor] => do
      let type ← infer units dividend
      intDivisionOperandRule function ⟨type, dividend.span⟩
      let type ← infer units divisor
      intDivisionOperandRule function ⟨type, divisor.span⟩
      return .int
    | function, args => .error (.wrongArity callee.span function function.arity args.length)

/-! ## Typed trees -/

inductive QExpr (F N : Type)
  | number (value : F)
  | constant (constant : BuiltinConst)
  | arith (op : ArithOp) (lhs rhs : N)
  | exactPower (base : N) (exponent : ExactRational) (exponentExpr : N)
  | power (base exponent : N)
  | neg (operand : N)
  | fromInt (conversion : IntConversion) (arg : N)

inductive IExpr (N : Type)
  | literal (value : I64)
  | arith (op : IntArithOp) (lhs rhs : N)
  | division (function : IntDivisionFn) (dividend divisor : N)
  | exactPower (base : N) (exponent : I64) (exponentExpr : N)
  | power (base exponent : N)
  | neg (operand : N)

inductive TExpr (F B U : Type) [LinearOrder B]
  | quantity (span : Span) (ty : CheckedType B) (operation : QExpr F (TExpr F B U))
  | int (span : Span) (ty : CheckedType B) (operation : IExpr (TExpr F B U))
  | quantityLiteral (span : Span) (ty : CheckedType B) (value : F) (unit : ResolvedUnitExpr U)

namespace TExpr

def ty : TExpr F B U → CheckedType B
  | quantity _ ty _ => ty
  | int _ ty _ => ty
  | quantityLiteral _ ty _ _ => ty

def span : TExpr F B U → Span
  | quantity span _ _ => span
  | int span _ _ => span
  | quantityLiteral span _ _ _ => span

end TExpr

inductive TExprKind (F B U : Type) [LinearOrder B]
  | quantity (operation : QExpr F (TExpr F B U))
  | int (operation : IExpr (TExpr F B U))
  | quantityLiteral (value : F) (unit : ResolvedUnitExpr U)

/-- The tree of a checked expression. -/
def TExpr.new (span : Span) (ty : CheckedType B) : TExprKind F B U → TExpr F B U
  | .quantity operation => .quantity span ty operation
  | .int operation => .int span ty operation
  | .quantityLiteral value unit => .quantityLiteral span ty value unit

/-- The exact dimensionless value of an `Int` operand that meets a quantity. -/
def intToQuantity (conversion : IntConversion) (int : TExpr F B U) : TExpr F B U :=
  .quantity int.span (.quantity .dimensionless) (.fromInt conversion int)

def convertIntOperand (op : BinOp) (lhs rhs : TExpr F B U) : TExpr F B U × TExpr F B U :=
  match op, lhs.ty, rhs.ty with
  | .mul, .int, .quantity _ => (intToQuantity .scaling lhs, rhs)
  | .div, .int, .quantity _ => (intToQuantity .scaling lhs, rhs)
  | .mul, .quantity _, .int => (lhs, intToQuantity .scaling rhs)
  | .div, .quantity _, .int => (lhs, intToQuantity .scaling rhs)
  | .pow .runtime, .quantity _, .int => (lhs, intToQuantity .exponent rhs)
  | _, _, _ => (lhs, rhs)

inductive BinaryOperation
  | int (op : IntArithOp)
  | intExactPower (exponent : I64)
  | intPower
  | quantity (op : ArithOp)
  | quantityExactPower (exponent : ExactRational)
  | quantityPower

/-- The operation that an operator selects for its operand types. -/
def BinaryOperation.select (op : BinOp) (lhs rhs : CheckedType B) : Option BinaryOperation :=
  match op, lhs, rhs with
  | .mod, .int, .int => some (.int .mod)
  | .add, .int, .int => some (.int .add)
  | .sub, .int, .int => some (.int .sub)
  | .mul, .int, .int => some (.int .mul)
  | .add, .quantity _, .quantity _ => some (.quantity .add)
  | .sub, .quantity _, .quantity _ => some (.quantity .sub)
  | .mul, .quantity _, .quantity _ => some (.quantity .mul)
  | .div, .quantity _, .quantity _ => some (.quantity .div)
  | .pow (.exact exponent), .int, _ =>
    if exponent.isInteger then some (.intExactPower exponent.numI64) else none
  | .pow .runtime, .int, .int => some .intPower
  | .pow (.exact exponent), .quantity _, _ => some (.quantityExactPower exponent)
  | .pow (.floatSyntax _), .quantity _, .quantity _ => some .quantityPower
  | .pow .runtime, .quantity _, .quantity _ => some .quantityPower
  | _, _, _ => none

def BinaryOperation.kind (operation : BinaryOperation) (lhs rhs : TExpr F B U) :
    TExprKind F B U :=
  match operation with
  | .int op => .int (.arith op lhs rhs)
  | .intExactPower exponent => .int (.exactPower lhs exponent rhs)
  | .intPower => .int (.power lhs rhs)
  | .quantity op => .quantity (.arith op lhs rhs)
  | .quantityExactPower exponent => .quantity (.exactPower lhs exponent rhs)
  | .quantityPower => .quantity (.power lhs rhs)

/-- The typed form of `lhs op rhs`, if checking admits its operand types. -/
def binary (op : BinOp) (lhs rhs : TExpr F B U) : Option (TExprKind F B U) := do
  let operands := convertIntOperand op lhs rhs
  let operation ← BinaryOperation.select op operands.1.ty operands.2.ty
  return operation.kind operands.1 operands.2

def unary (operand : TExpr F B U) : TExprKind F B U :=
  match operand.ty with
  | .quantity _ => .quantity (.neg operand)
  | .int => .int (.neg operand)

/-- The typed form of a built-in call, if checking admits its argument types. -/
def builtinCall (function : BuiltinFn) (args : List (TExpr F B U)) : Option (TExprKind F B U) :=
  match function, args with
  | .toFloat, [arg] =>
    match arg.ty with
    | .int => some (.quantity (.fromInt .toFloat arg))
    | .quantity _ => none
  | .intDivision function, [dividend, divisor] =>
    match dividend.ty, divisor.ty with
    | .int, .int => some (.int (.division function dividend divisor))
    | _, _ => none
  | _, _ => none

/-- Inference recorded no type, or the operands have types that checking refuses. -/
inductive AssemblyError
  | missingType (span : Span)
  | uncheckedOperands (span : Span)

/-- The tree with the type that inference recorded for the expression. -/
def withRecordedType (units : U → Option (UnitInfo F B)) (expr : HirExpr F U)
    (kind : TExprKind F B U) : Except AssemblyError (TExpr F B U) :=
  match infer units expr with
  | .ok ty => .ok (.new expr.span ty kind)
  | .error _ => .error (.missingType expr.span)

mutual

/-- The typed tree of an expression whose types were inferred. -/
def assemble (units : U → Option (UnitInfo F B)) :
    HirExpr F U → Except AssemblyError (TExpr F B U)
  | .number span value => withRecordedType units (.number span value) (.quantity (.number value))
  | .integer span value => withRecordedType units (.integer span value) (.int (.literal value))
  | .constant span constant =>
    withRecordedType units (.constant span constant) (.quantity (.constant constant))
  | .quantityLiteral span value unit =>
    withRecordedType units (.quantityLiteral span value unit) (.quantityLiteral value unit)
  | .neg span operand => do
    let tree ← assemble units operand
    withRecordedType units (.neg span operand) (unary tree)
  | .binOp span op lhs rhs => do
    let lhsTree ← assemble units lhs
    let rhsTree ← assemble units rhs
    let kind ← okOr (binary op lhsTree rhsTree) (.uncheckedOperands span)
    withRecordedType units (.binOp span op lhs rhs) kind
  | .call span callee args => do
    let trees ← assembleArgs units args
    let kind ← okOr (builtinCall callee.function trees) (.uncheckedOperands span)
    withRecordedType units (.call span callee args) kind

def assembleArgs (units : U → Option (UnitInfo F B)) :
    List (HirExpr F U) → Except AssemblyError (List (TExpr F B U))
  | [] => .ok []
  | arg :: args => do
    let arg ← assemble units arg
    return arg :: (← assembleArgs units args)

end

/-!
# Evaluating node bodies
-/

open ProvenGraphcal.Checked (bind_eq_ok mapError_eq_ok mapM_eq_ok)

inductive QuantityValidationError (F : Type)
  | nonFinite (context : String) (value : F)
  | nanResult (context : String)
  | infiniteResult (context : String)
  | underflowToZero (context : String)
  | divisionByZero

def QuantityValidationError.fromArithmetic {F : Type} (error : FiniteArithmeticError)
    (context : String) : QuantityValidationError F :=
  match error with
  | .infinite => .infiniteResult context
  | .underflow => .underflowToZero context
  | .divisionByZero => .divisionByZero
  | .notANumber => .nanResult context

inductive IntegerFailure
  | divisionByZero
  | moduloByZero
  | overflow
  | negationOverflow
  | negativeExponent
  | exponentTooLarge

def IntegerFailure.fromIntArith : IntArithError → IntegerFailure
  | .moduloByZero => .moduloByZero
  | .overflow => .overflow
  | .negationOverflow => .negationOverflow
  | .negativeExponent => .negativeExponent
  | .exponentTooLarge => .exponentTooLarge

def IntegerFailure.fromIntDivision : IntDivisionError → IntegerFailure
  | .divisionByZero => .divisionByZero
  | .overflow => .overflow

inductive UnitScaleContext
  | dynamicUnit
  | exponentiation
  | compound

inductive RuntimeFailure (F : Type)
  | quantityDivisionByZero
  | validation (error : QuantityValidationError F)
  | integer (error : IntegerFailure)
  | toFloat (error : ExactI64ToF64Error)
  | intScalar (error : ExactI64ToF64Error)
  | intExponent (error : ExactI64ToF64Error)
  | exactPower (error : ExactPowerError)
  | unitScale (context : UnitScaleContext) (error : PositiveFiniteScaleError F)

inductive RuntimeError (F U : Type)
  | failure (failure : RuntimeFailure F) (span : Span)
  | shape (expected : String) (span : Span)
  | unknownCheckedUnit (name : U) (span : Span)

inductive RuntimeValue (F : Type) [Binary64Ops F]
  | quantity (value : FiniteQuantity F)
  | int (value : I64)

variable {F B U : Type} [Binary64Ops F] [LinearOrder B]

def finiteQuantity (value : F) (context : String) (span : Span) :
    Except (RuntimeError F U) (FiniteQuantity F) :=
  (FiniteQuantity.tryNew value).mapError fun value =>
    .failure (.validation (.nonFinite context value)) span

def quantityArith (op : ArithOp) (lhs rhs : FiniteQuantity F) (span : Span) :
    Except (RuntimeError F U) (FiniteQuantity F) :=
  (checkedArith op lhs rhs).mapError fun error =>
    .failure (match error with
      | .divisionByZero => .quantityDivisionByZero
      | error => .validation (.fromArithmetic error "arithmetic operation")) span

def evalExactQuantityPower (base : FiniteQuantity F) (exponent : ExactRational) (span : Span) :
    Except (RuntimeError F U) (FiniteQuantity F) :=
  (base.checkedExactPower exponent).mapError fun error =>
    .failure (match error with
      | .noRealValue error => .exactPower error
      | .arithmetic error => .validation (.fromArithmetic error "power operation")) span

def quantityPower (base exponent : FiniteQuantity F) (span : Span) :
    Except (RuntimeError F U) (FiniteQuantity F) :=
  (base.checkedPowf exponent).mapError fun error =>
    .failure (.validation (.fromArithmetic error "arithmetic operation")) span

def intArith (op : IntArithOp) (lhs rhs : I64) (span : Span) : Except (RuntimeError F U) I64 :=
  (arith op lhs rhs).mapError fun error => .failure (.integer (.fromIntArith error)) span

def intNegate (value : I64) (span : Span) : Except (RuntimeError F U) I64 :=
  (negate value).mapError fun error => .failure (.integer (.fromIntArith error)) span

def intPower (base exponent : I64) (span : Span) : Except (RuntimeError F U) I64 :=
  (power base exponent).mapError fun error => .failure (.integer (.fromIntArith error)) span

def intDivision (function : IntDivisionFn) (dividend divisor : I64) (span : Span) :
    Except (RuntimeError F U) I64 :=
  (divide function dividend divisor).mapError fun error =>
    .failure (.integer (.fromIntDivision error)) span

/-- The exact conversion of an operand, which is checked to be finite once more. -/
def intConversion (conversion : IntConversion) (value : I64) (span : Span) :
    Except (RuntimeError F U) (FiniteQuantity F) := do
  let value ← (exactI64ToF64 value).mapError fun error =>
    .failure (match conversion with
      | .toFloat => .toFloat error
      | .scaling => .intScalar error
      | .exponent => .intExponent error) span
  finiteQuantity value "Int conversion" span

section UnitScales

variable (units : U → Option (UnitInfo F B))
  (dynamicScale : U → PositiveFiniteScale F → Span →
    Except (RuntimeError F U) (PositiveFiniteScale F))

/-- The scale of one unit; that of a dynamic unit is the value of its expression. -/
def termScale (item : ResolvedUnitExprItem U) :
    UnitScale F → Except (RuntimeError F U) (PositiveFiniteScale F)
  | .const scale => .ok scale
  | .runtime scale => .ok scale
  | .dynamic baseUnitScale => dynamicScale item.name baseUnitScale item.nameSpan

/-- One step of `fold_unit_scale`, which names the unit whose scale leaves the range. -/
def unitScaleTerm (unitSpan : Span) (acc : PositiveFiniteScale F) (item : ResolvedUnitExprItem U) :
    Except (RuntimeError F U) (PositiveFiniteScale F) := do
  let info ← okOr (units item.name) (.unknownCheckedUnit item.name item.nameSpan)
  let scale ← termScale dynamicScale item info.scale
  ((⟨item.op, scale, item.power⟩ : UnitScaleTerm F).applyTo acc).mapError fun
    | .power error => .failure (.unitScale .exponentiation error) item.nameSpan
    | .compound error => .failure (.unitScale .compound error) unitSpan

def resolveUnitScale (unit : ResolvedUnitExpr U) :
    Except (RuntimeError F U) (PositiveFiniteScale F) :=
  unit.terms.foldlM (unitScaleTerm units dynamicScale unit.span) .one

def checkedUnitScaledValue (value : F) (scale : PositiveFiniteScale F) (span : Span) :
    Except (RuntimeError F U) (FiniteQuantity F) :=
  finiteQuantity (Binary64Ops.mul value scale.get) "quantity literal value" span

def readQuantity (value : RuntimeValue F) (span : Span) :
    Except (RuntimeError F U) (FiniteQuantity F) :=
  match value with
  | .quantity value => .ok value
  | .int _ => .error (.shape "a quantity" span)

def readInt (value : RuntimeValue F) (span : Span) : Except (RuntimeError F U) I64 :=
  match value with
  | .int value => .ok value
  | .quantity _ => .error (.shape "an Int" span)

/-- Evaluate a checked tree, operands left to right. -/
def eval : TExpr F B U → Except (RuntimeError F U) (RuntimeValue F)
  | .quantity span _ (.number value) => .quantity <$> finiteQuantity value "numeric literal" span
  | .quantity span _ (.constant constant) =>
    .quantity <$> finiteQuantity (Binary64Ops.constant constant) "built-in constant" span
  | .quantity span _ (.arith op lhs rhs) => .quantity <$> do
    let l ← eval lhs >>= (readQuantity · lhs.span)
    let r ← eval rhs >>= (readQuantity · rhs.span)
    quantityArith op l r span
  | .quantity span _ (.exactPower base exponent _) => .quantity <$> do
    let b ← eval base >>= (readQuantity · base.span)
    evalExactQuantityPower b exponent span
  | .quantity span _ (.power base exponent) => .quantity <$> do
    let b ← eval base >>= (readQuantity · base.span)
    let e ← eval exponent >>= (readQuantity · exponent.span)
    quantityPower b e span
  | .quantity _ _ (.neg operand) => .quantity <$> do
    let value ← eval operand >>= (readQuantity · operand.span)
    return value.negated
  | .quantity _ _ (.fromInt conversion arg) => .quantity <$> do
    let value ← eval arg >>= (readInt · arg.span)
    intConversion conversion value arg.span
  | .int _ _ (.literal value) => .ok (.int value)
  | .int span _ (.arith op lhs rhs) => .int <$> do
    let l ← eval lhs >>= (readInt · lhs.span)
    let r ← eval rhs >>= (readInt · rhs.span)
    intArith op l r span
  | .int span _ (.division function dividend divisor) => .int <$> do
    let l ← eval dividend >>= (readInt · dividend.span)
    let r ← eval divisor >>= (readInt · divisor.span)
    intDivision function l r span
  | .int span _ (.exactPower base exponent _) => .int <$> do
    let b ← eval base >>= (readInt · base.span)
    intPower b exponent span
  | .int span _ (.power base exponent) => .int <$> do
    let b ← eval base >>= (readInt · base.span)
    let e ← eval exponent >>= (readInt · exponent.span)
    intPower b e span
  | .int span _ (.neg operand) => .int <$> do
    let value ← eval operand >>= (readInt · operand.span)
    intNegate value span
  | .quantityLiteral span _ value unit => .quantity <$> do
    let scale ← resolveUnitScale units dynamicScale unit
    checkedUnitScaledValue value scale span

end UnitScales

/-- Why a node body has no value. -/
inductive NodeError (F B U : Type) [LinearOrder B]
  | lower (error : ExprLowerError U)
  | type (error : SemanticError B U)
  | assembly (error : AssemblyError)
  | runtime (error : RuntimeError F U)

/-- The checked tree of a body with its type. -/
def checkBody (units : U → Option (UnitInfo F B)) (expr : Expr F U) :
    Except (NodeError F B U) (CheckedType B × TExpr F B U) := do
  let hir ← (lowerExpr units expr).mapError .lower
  let type ← (infer units hir).mapError .type
  let tree ← (assemble units hir).mapError .assembly
  return (type, tree)

/-- A body's type and value. -/
def nodeValue (units : U → Option (UnitInfo F B))
    (dynamicScale : U → PositiveFiniteScale F → Span →
      Except (RuntimeError F U) (PositiveFiniteScale F)) (expr : Expr F U) :
    Except (NodeError F B U) (CheckedType B × RuntimeValue F) := do
  let (type, tree) ← checkBody units expr
  let value ← (eval units dynamicScale tree).mapError .runtime
  return (type, value)

/-!
# Units and numbers mean the same in constants and node bodies
-/

open Agreement

variable {ε : Type}

theorem okOr_eq_ok {α : Type} {value : Option α} {error : ε} {v : α} :
    okOr value error = .ok v ↔ value = some v := by
  cases value with
  | none => exact ⟨nofun, nofun⟩
  | some w =>
    exact ⟨fun h => congrArg some (Except.ok.inj h), fun h => congrArg _ (Option.some.inj h)⟩

variable {value : F} {q : FiniteQuantity F}

theorem tryNew_eq_ok :
    FiniteQuantity.tryNew value = .ok q ↔ value = q.get := by
  unfold FiniteQuantity.tryNew
  constructor
  · intro h
    split_ifs at h
    cases h
    rfl
  · rintro rfl
    rw [dif_pos q.finite]

variable {s : PositiveFiniteScale F}

theorem new_eq_ok :
    PositiveFiniteScale.new value = .ok s ↔ value = s.get := by
  unfold PositiveFiniteScale.new
  constructor
  · intro h
    split_ifs at h
    cases h
    rfl
  · rintro rfl
    rw [dif_pos s.finite, dif_pos s.positive]

theorem fromExactInt_eq_ok {value : I64} :
    FiniteQuantity.fromExactInt value = .ok q ↔ exactI64ToF64 value = .ok q.get := by
  unfold FiniteQuantity.fromExactInt
  split
  next converted hconverted =>
    constructor
    · intro h
      cases h
      exact hconverted
    · intro h
      have hget := Except.ok.inj (hconverted.symm.trans h)
      subst hget
      rfl
  next error herror =>
    exact ⟨nofun, fun h => nomatch herror.symm.trans h⟩

variable {span : Span}

theorem finiteQuantity_eq_ok {context : String} :
    (finiteQuantity value context span : Except (RuntimeError F U) (FiniteQuantity F)) = .ok q ↔
      value = q.get := by
  rw [finiteQuantity, mapError_eq_ok, tryNew_eq_ok]

theorem agree_finiteQuantity (value : F) (f : F → ε) (context : String) (span : Span) :
    Agree ((FiniteQuantity.tryNew value).mapError f)
      (finiteQuantity value context span : Except (RuntimeError F U) (FiniteQuantity F)) :=
  agree_mapErrors _ _ _

/-- The conversion of a node checks once more that the exact value is finite. -/
theorem agree_intConversion (conversion : IntConversion) (value : I64) (f : ExactI64ToF64Error → ε)
    (span : Span) :
    Agree ((FiniteQuantity.fromExactInt value).mapError f)
      (intConversion conversion value span : Except (RuntimeError F U) (FiniteQuantity F)) := by
  intro q
  rw [mapError_eq_ok, fromExactInt_eq_ok, intConversion, bind_eq_ok]
  constructor
  · intro h
    exact ⟨q.get, mapError_eq_ok.mpr h, finiteQuantity_eq_ok.mpr rfl⟩
  · rintro ⟨converted, hconverted, hq⟩
    rw [finiteQuantity_eq_ok.mp hq] at hconverted
    exact mapError_eq_ok.mp hconverted

/-! ## Unit expressions -/

/-- Every known unit of the list has a static scale. -/
def UnitsStatic (units : U → Option (UnitInfo F B)) (names : List U) : Prop :=
  ∀ name ∈ names, ∀ info, units name = some info → info.scale.staticScale ≠ none

variable {units : U → Option (UnitInfo F B)}
  {dynamicScale : U → PositiveFiniteScale F → Span →
    Except (RuntimeError F U) (PositiveFiniteScale F)}

variable {item : UnitExprItem U}

theorem lowerUnitTerm_eq_ok {resolved : ResolvedUnitExprItem U} :
    lowerUnitTerm units item = .ok resolved ↔ (∃ info, units item.name = some info) ∧
      resolved = ⟨item.op, item.name, item.nameSpan, item.effectivePower⟩ := by
  unfold lowerUnitTerm
  cases h : units item.name with
  | none => exact ⟨nofun, fun ⟨⟨_, h⟩, _⟩ => (nomatch h)⟩
  | some info =>
    exact ⟨fun h => ⟨⟨info, rfl⟩, (Except.ok.inj h).symm⟩, fun h => congrArg _ h.2.symm⟩

theorem termScale_eq_ok {item : ResolvedUnitExprItem U} {scale : UnitScale F}
    (h : scale.staticScale = some s) :
    termScale dynamicScale item scale = .ok s := by
  cases scale with
  | const scale => exact congrArg _ (Option.some.inj h)
  | runtime scale => exact congrArg _ (Option.some.inj h)
  | dynamic base => cases h

/-- One term contributes the same dimension and the same factor on both sides. -/
theorem resolveUnitTerm_eq_ok (hstatic : UnitsStatic units [item.name]) {d₀ d : Dimension B}
    {s₀ : PositiveFiniteScale F} :
    resolveUnitTerm units (d₀, s₀) item = .ok (d, s) ↔
      ∃ resolved, lowerUnitTerm units item = .ok resolved ∧
        unitDimensionTerm units d₀ resolved = .ok d ∧
        unitScaleTerm units dynamicScale span s₀ resolved = .ok s := by
  cases hinfo : units item.name with
  | none =>
    constructor
    · intro h
      rw [resolveUnitTerm, hinfo] at h
      cases h
    · rintro ⟨resolved, hresolved, -⟩
      obtain ⟨⟨info, hsome⟩, -⟩ := lowerUnitTerm_eq_ok.mp hresolved
      exact nomatch hinfo.symm.trans hsome
  | some info =>
    obtain ⟨scale, hscale⟩ := Option.ne_none_iff_exists'.mp
      (hstatic item.name List.mem_cons_self info hinfo)
    have hresolved : lowerUnitTerm units item =
        .ok ⟨item.op, item.name, item.nameSpan, item.effectivePower⟩ :=
      lowerUnitTerm_eq_ok.mpr ⟨⟨info, hinfo⟩, rfl⟩
    rw [hresolved]
    simp only [resolveUnitTerm, unitDimensionTerm, unitScaleTerm, hinfo, okOr, hscale, overflowAt,
      termScale_eq_ok hscale, bind_eq_ok, mapError_eq_ok, Except.ok.injEq,
      exists_eq_left', pure, Except.pure, Prod.mk.injEq]
    constructor
    · rintro ⟨powered, hpowered, dim, hdim, compound, hcompound, rfl, rfl⟩
      exact ⟨⟨powered, hpowered, hdim⟩, hcompound⟩
    · rintro ⟨⟨powered, hpowered, hdim⟩, hcompound⟩
      exact ⟨powered, hpowered, d, hdim, s, hcompound, rfl, rfl⟩

/-- The fold over both, and the two folds over what the terms are lowered to. -/
theorem foldlM_resolveUnitTerm {terms : List (UnitExprItem U)}
    (hstatic : UnitsStatic units (terms.map UnitExprItem.name)) {d₀ d : Dimension B}
    {s₀ : PositiveFiniteScale F} :
    terms.foldlM (resolveUnitTerm units) (d₀, s₀) = .ok (d, s) ↔
      ∃ items, terms.mapM (lowerUnitTerm units) = .ok items ∧
        items.foldlM (unitDimensionTerm units) d₀ = .ok d ∧
        items.foldlM (unitScaleTerm units dynamicScale span) s₀ = .ok s := by
  induction terms generalizing d₀ s₀ with
  | nil =>
    rw [List.mapM_nil]
    constructor
    · intro h
      cases h
      exact ⟨[], rfl, rfl, rfl⟩
    · rintro ⟨items, hitems, hd, hs⟩
      cases hitems
      cases hd
      cases hs
      rfl
  | cons item rest ih =>
    have hitem : UnitsStatic units [item.name] := fun name hname =>
      hstatic name (List.mem_cons.mpr (.inl (List.mem_singleton.mp hname)))
    have hrest : UnitsStatic units (rest.map UnitExprItem.name) := fun name hname =>
      hstatic name (List.mem_cons_of_mem _ hname)
    rw [List.foldlM_cons, bind_eq_ok]
    constructor
    · rintro ⟨⟨d₁, s₁⟩, hterm, hfold⟩
      obtain ⟨resolved, hresolved, hd, hs⟩ := (resolveUnitTerm_eq_ok hitem).mp hterm
      obtain ⟨items, hitems, hds, hss⟩ := (ih hrest).mp hfold
      refine ⟨resolved :: items, mapM_eq_ok.mpr (.cons hresolved
        (mapM_eq_ok.mp hitems)), ?_, ?_⟩
      · exact bind_eq_ok.mpr ⟨d₁, hd, hds⟩
      · exact bind_eq_ok.mpr ⟨s₁, hs, hss⟩
    · rintro ⟨items, hitems, hd, hs⟩
      cases mapM_eq_ok.mp hitems with
      | cons hresolved hlowered =>
        obtain ⟨d₁, hd₁, hd⟩ := bind_eq_ok.mp hd
        obtain ⟨s₁, hs₁, hs⟩ := bind_eq_ok.mp hs
        exact ⟨(d₁, s₁), (resolveUnitTerm_eq_ok hitem).mpr ⟨_, hresolved, hd₁, hs₁⟩,
          (ih hrest).mpr ⟨_, mapM_eq_ok.mpr hlowered, hd, hs⟩⟩

/-- A constant resolves a unit expression to the dimension that a body is checked with and the
scale that it is evaluated with. -/
theorem resolveUnitExprWith_eq_ok {unit : UnitExpr U}
    (hstatic : UnitsStatic units (unit.terms.map UnitExprItem.name)) {d : Dimension B} :
    resolveUnitExprWith units unit = .ok (d, s) ↔
      ∃ resolved, lowerUnitExpr units unit = .ok resolved ∧
        resolveUnitDimension units resolved = .ok d ∧
        resolveUnitScale units dynamicScale resolved = .ok s := by
  unfold resolveUnitExprWith
  rw [foldlM_resolveUnitTerm hstatic]
  constructor
  · rintro ⟨items, hitems, hd, hs⟩
    exact ⟨⟨items, unit.span⟩, bind_eq_ok.mpr ⟨items, hitems, rfl⟩, hd, hs⟩
  · rintro ⟨resolved, hresolved, hd, hs⟩
    obtain ⟨items, hitems, h⟩ := bind_eq_ok.mp hresolved
    cases h
    exact ⟨items, hitems, hd, hs⟩

end ProvenGraphcal.Constant
