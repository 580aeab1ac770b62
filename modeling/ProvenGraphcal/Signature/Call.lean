import ProvenGraphcal.Signature.Validation

/-!
# Checking a call against a signature

The walk of a call: bare parameters bind dimension variables, compound ones are evaluated, axis
variables are bound by the arguments' indexes. Its declarative counterpart is substitution: a
kind matches a type under an assignment of dimensions and indexes to the binders.
-/

namespace ProvenGraphcal

variable {S Name B Index : Type} [LinearOrder Name] [LinearOrder B]

/-- The struct-result payload of an extern declaration: a nominal record and its field shape. -/
structure ExternStructResult (Name B : Type) [LinearOrder B] where
  recordType : Name
  shape : StructShape Name B

/-- The inferred types of arguments and results. -/
inductive CheckedType (Name B Index : Type) [LinearOrder B]
  | quantity (dimension : Dimension B)
  | complex (dimension : Dimension B)
  | bool
  | int
  | datetime
  | key (index : Index)
  | struct (recordType : Name)
  | indexed (element : CheckedType Name B Index) (index : Index)

inductive ExternScalar
  | bool
  | int

inductive OperandExpectation (Name Index : Type)
  | bool
  | int
  | quantityType
  | externIndexedCollection (rank : ℕ)
  | externIndexedQuantityCollection (rank : ℕ)
  | externScalarAxes (scalar : ExternScalar) (rank : ℕ)
  | externSharedAxis (bound : Index) (variable' : IndexBinder Name)

inductive MismatchOperand (Name B Index : Type) [LinearOrder B]
  | dimension (dimension : Dimension B)
  | expected (expectation : OperandExpectation Name Index)
  | type (type : CheckedType Name B Index)

inductive MismatchRule (Name B : Type) [LinearOrder B]
  | parameterSameDimension (parameter boundBy : Name)
  | parameterDimension (parameter : Name) (dimension : Dimension B)
  | expectedQuantity
  | externScalarParameter (parameter : Name) (scalar : ExternScalar)
  | externAxisPerIndexVariable (parameter : Name)
  | externQuantityElements (parameter : Name)
  | externScalarElements (parameter : Name) (scalar : ExternScalar)
  | externSharedIndexVariable (variable' : IndexBinder Name)

inductive CallError (Name B Index : Type) [LinearOrder B]
  | wrongArity (expected got : ℕ)
  | dimensionMismatch (expected found : MismatchOperand Name B Index) (help : MismatchRule Name B)
  | dimensionOverflow
  /-- Internal: a monomial met a dimension variable without a binding. -/
  | unboundDimVar (var : DimBinder Name)
  /-- Internal: a result axis met an index variable without a binding. -/
  | unboundIndexVar (index : IndexBinder Name)

inductive DimMonomialEvalError (V : Type)
  | unboundVar (var : V)
  | overflow (error : RatioError)

/-- One factor of a monomial multiplied into the dimension computed so far. -/
def DimMonomial.evalFactor {V : Type} (lookup : V → Option (Dimension B)) (result : Dimension B)
    (factor : V × Rational) : Except (DimMonomialEvalError V) (Dimension B) :=
  match lookup factor.1 with
  | none => .error (.unboundVar factor.1)
  | some bound => do
    let powered ← (bound.pow factor.2).mapError .overflow
    (result.checkedMul powered).mapError .overflow

/-- The concrete dimension of a monomial under `lookup`. -/
def DimMonomial.eval {V : Type} [LinearOrder V] (m : DimMonomial V B)
    (lookup : V → Option (Dimension B)) : Except (DimMonomialEvalError V) (Dimension B) :=
  m.vars.factors.entries.foldlM (DimMonomial.evalFactor lookup) m.fixed

/-- The dimension a variable is bound to, and the parameter whose argument bound it. -/
structure DimBinding (Name B : Type) [LinearOrder B] where
  dimension : Dimension B
  parameter : Name

structure CallState (Name B Index : Type) [LinearOrder B] where
  bindings : DimBinder Name → Option (DimBinding Name B)
  indexBindings : IndexBinder Name → Option Index

namespace CallState

def new : CallState Name B Index := ⟨fun _ => none, fun _ => none⟩

def dimension (state : CallState Name B Index) (var : DimBinder Name) : Option (Dimension B) :=
  (state.bindings var).map DimBinding.dimension

def evalMonomial (state : CallState Name B Index) (m : DimMonomial (DimBinder Name) B) :
    Except (CallError Name B Index) (Dimension B) :=
  (m.eval state.dimension).mapError fun
    | .unboundVar var => .unboundDimVar var
    | .overflow _ => .dimensionOverflow

/-- Bind or compare the variable of a bare parameter; evaluate and compare a compound one. -/
def checkQuantityParam (state : CallState Name B Index) (param : Name)
    (m : DimMonomial (DimBinder Name) B) (argDim : Dimension B) :
    Except (CallError Name B Index) (CallState Name B Index) :=
  match m.asBareVar with
  | some var =>
    match state.bindings var with
    | some bound =>
      if argDim ≠ bound.dimension then
        .error (.dimensionMismatch (.dimension bound.dimension) (.dimension argDim)
          (.parameterSameDimension param bound.parameter))
      else .ok state
    | none =>
      .ok { state with bindings := Function.update state.bindings var (some ⟨argDim, param⟩) }
  | none => do
    let expected ← state.evalMonomial m
    if argDim ≠ expected then
      .error (.dimensionMismatch (.dimension expected) (.dimension argDim)
        (.parameterDimension param expected))
    else .ok state

/-- The outermost `rank` axes of a type, and the type under them. -/
def peelAxes : ℕ → CheckedType Name B Index → Option (List Index × CheckedType Name B Index)
  | 0, t => some ([], t)
  | rank + 1, .indexed element index =>
    (peelAxes rank element).map fun (indexes, leaf) => (index :: indexes, leaf)
  | _ + 1, _ => none

def checkIndex [DecidableEq Index] (argType : CheckedType Name B Index)
    (state : CallState Name B Index) (pair : IndexBinder Name × Index) :
    Except (CallError Name B Index) (CallState Name B Index) :=
  match state.indexBindings pair.1 with
  | none =>
    .ok { state with
      indexBindings := Function.update state.indexBindings pair.1 (some pair.2) }
  | some bound =>
    if bound ≠ pair.2 then
      .error (.dimensionMismatch (.expected (.externSharedAxis bound pair.1)) (.type argType)
        (.externSharedIndexVariable pair.1))
    else .ok state

def checkElement (state : CallState Name B Index) (param : Name) (rank : ℕ)
    (argType : CheckedType Name B Index) :
    ScalarValueKind (DimBinder Name) B → CheckedType Name B Index →
      Except (CallError Name B Index) (CallState Name B Index)
  | .quantity m, .quantity argDim => state.checkQuantityParam param m argDim
  | .quantity _, _ =>
    .error (.dimensionMismatch (.expected (.externIndexedQuantityCollection rank)) (.type argType)
      (.externQuantityElements param))
  | .bool, .bool => .ok state
  | .bool, _ =>
    .error (.dimensionMismatch (.expected (.externScalarAxes .bool rank)) (.type argType)
      (.externScalarElements param .bool))
  | .int, .int => .ok state
  | .int, _ =>
    .error (.dimensionMismatch (.expected (.externScalarAxes .int rank)) (.type argType)
      (.externScalarElements param .int))

def checkScalar (state : CallState Name B Index) (param : Name) :
    ScalarValueKind (DimBinder Name) B → CheckedType Name B Index →
      Except (CallError Name B Index) (CallState Name B Index)
  | .bool, .bool => .ok state
  | .bool, argType =>
    .error (.dimensionMismatch (.expected .bool) (.type argType)
      (.externScalarParameter param .bool))
  | .int, .int => .ok state
  | .int, argType =>
    .error (.dimensionMismatch (.expected .int) (.type argType) (.externScalarParameter param .int))
  | .quantity m, .quantity argDim => state.checkQuantityParam param m argDim
  | .quantity _, argType =>
    .error (.dimensionMismatch (.expected .quantityType) (.type argType) .expectedQuantity)

/-- One argument against its parameter. -/
def checkParam [DecidableEq Index] (state : CallState Name B Index)
    (pair : BoundParam Name B × CheckedType Name B Index) :
    Except (CallError Name B Index) (CallState Name B Index) :=
  match pair.1.kind with
  | .scalar element => state.checkScalar pair.1.name element pair.2
  | .indexed element indexes =>
    let rank := indexes.items.length
    match peelAxes rank pair.2 with
    | none =>
      .error (.dimensionMismatch (.expected (.externIndexedCollection rank)) (.type pair.2)
        (.externAxisPerIndexVariable pair.1.name))
    | some (argIndexes, leaf) => do
      let state ← state.checkElement pair.1.name rank pair.2 element leaf
      (indexes.items.zip argIndexes).foldlM (checkIndex pair.2) state

def elementType (state : CallState Name B Index) :
    ScalarValueKind (DimBinder Name) B →
      Except (CallError Name B Index) (CheckedType Name B Index)
  | .quantity m => do return .quantity (← state.evalMonomial m)
  | .bool => .ok .bool
  | .int => .ok .int

/-- An axis put around a type, at the index its variable is bound to. -/
def wrapAxis (state : CallState Name B Index) (element : CheckedType Name B Index)
    (index : IndexBinder Name) : Except (CallError Name B Index) (CheckedType Name B Index) :=
  match state.indexBindings index with
  | none => .error (.unboundIndexVar index)
  | some bound => .ok (.indexed element bound)

def resultType (state : CallState Name B Index) :
    ResultKind (ExternStructResult Name B) (DimBinder Name) (IndexBinder Name) B →
      Except (CallError Name B Index) (CheckedType Name B Index)
  | .value kind => do
    let leaf ← state.elementType kind.element
    kind.indexes.reverse.foldlM state.wrapAxis leaf
  | .struct payload => .ok (.struct payload.recordType)

end CallState

/-- Check an extern function call whose arguments have the types `args`. -/
def inferExternFnCall [DecidableEq Index] (sig : FunctionSignature (ExternStructResult Name B) Name B)
    (args : List (CheckedType Name B Index)) :
    Except (CallError Name B Index) (CheckedType Name B Index) :=
  if args.length ≠ sig.params.length then
    .error (.wrongArity sig.params.length args.length)
  else do
    let state ← (sig.params.zip args).foldlM CallState.checkParam .new
    state.resultType sig.result

end ProvenGraphcal
