import Mathlib.Data.String.Basic
import ProvenGraphcal.Signature.EquivalenceLaws
import ProvenGraphcal.Static.DimensionDefinitions

/-!
# Plugin manifests

The wire form of the functions that a plugin provides, and the check of its shape: bounded lists
and names, positive denominators, non-zero powers, no name twice.
-/

namespace ProvenGraphcal.Plugin

structure ManifestRational where
  num : Int32
  den : Int32
  deriving DecidableEq

structure ManifestVarPower where
  var : String
  pow : ManifestRational
  deriving DecidableEq

structure ManifestDimPower where
  dim : String
  pow : ManifestRational
  deriving DecidableEq

structure ManifestMonomial where
  vars : List ManifestVarPower
  fixed : List ManifestDimPower
  deriving DecidableEq

inductive ManifestArrayElementKind
  | quantity (monomial : ManifestMonomial)
  | bool
  | int
  deriving DecidableEq

inductive ManifestParamKind
  | quantity (monomial : ManifestMonomial)
  | bool
  | int
  | array (element : ManifestArrayElementKind) (indexes : List String)
  deriving DecidableEq

inductive ManifestFieldKind
  | quantity (monomial : ManifestMonomial)
  | bool
  | int
  deriving DecidableEq

structure ManifestField where
  name : String
  kind : ManifestFieldKind
  deriving DecidableEq

inductive ManifestResultKind
  | quantity (monomial : ManifestMonomial)
  | bool
  | int
  | array (element : ManifestArrayElementKind) (indexes : List String)
  | struct (fields : List ManifestField)
  deriving DecidableEq

structure ManifestParam where
  name : String
  kind : ManifestParamKind
  deriving DecidableEq

structure ManifestFunction where
  name : String
  dimVars : List String
  indexVars : List String
  params : List ManifestParam
  result : ManifestResultKind
  deriving DecidableEq

structure PluginManifest where
  abiVersion : UInt32
  functions : List ManifestFunction
  deriving DecidableEq

def usizeMax : ℕ := 2 ^ 64 - 1

def checkedAddUsize (a b : ℕ) : Option ℕ := if a + b ≤ usizeMax then some (a + b) else none

def paramKindAbiParameterSlots : ManifestParamKind → Option ℕ
  | .quantity _ => some 1
  | .bool => some 1
  | .int => some 1
  | .array _ indexes => checkedAddUsize indexes.length 1

def resultAbiParameterSlots : ManifestResultKind → ℕ
  | .array _ _ => 1
  | .struct _ => 1
  | .quantity _ => 0
  | .bool => 0
  | .int => 0

/-- The raw WebAssembly parameters that the signature needs. -/
def ManifestFunction.abiParameterSlots (function : ManifestFunction) : Option ℕ := do
  let params ← function.params.foldlM (fun slots param => do
    checkedAddUsize slots (← paramKindAbiParameterSlots param.kind)) 0
  checkedAddUsize params (resultAbiParameterSlots function.result)

/-! ## Validation -/

def maxAbiFunctionParams : ℕ := 32

def maxManifestFunctions : ℕ := 256

def maxManifestNameBytes : ℕ := 256

def maxManifestVariables : ℕ := 32

def maxManifestParameters : ℕ := maxAbiFunctionParams

def maxManifestArrayAxes : ℕ := maxAbiFunctionParams - 1

def maxManifestStructFields : ℕ := 256

def maxManifestMonomialFactors : ℕ := 64

inductive NameRole
  | function
  | dimVar
  | indexVar
  | field
  | param
  | monomialVar
  | fixedDim
  deriving DecidableEq

inductive ManifestListRole
  | functions
  | dimensionVariables
  | indexVariables
  | parameters
  | arrayAxes
  | structFields
  | monomialFactors
  deriving DecidableEq

inductive ManifestValidationError
  | noFunctions
  | duplicateFunction (name : String)
  | tooManyItems (function : Option String) (role : ManifestListRole) (count max : ℕ)
  | emptyName (function : Option String) (role : NameRole)
  | nameTooLong (function : Option String) (role : NameRole) (bytes max : ℕ)
  | duplicateDimVar (function var : String)
  | duplicateIndexVar (function var : String)
  | emptyArrayAxes (function : String)
  | emptyStruct (function : String)
  | duplicateStructField (function field : String)
  | structFieldWithDimVars (function field : String)
  | tooManyAbiParameters (function : String) (slots max : ℕ)
  | duplicateParam (function param : String)
  | duplicateMonomialVar (function var : String)
  | duplicateFixedDim (function dim : String)
  | nonPositiveDenominator (function : String) (num den : Int32)
  | zeroPower (function : String)
  deriving DecidableEq

abbrev Validated := Except ManifestValidationError Unit

def validateListCount (count max : ℕ) (role : ManifestListRole) (function : Option String) :
    Validated :=
  if count > max then .error (.tooManyItems function role count max) else .ok ()

def validateName (name : String) (role : NameRole) (function : Option String) : Validated :=
  if name = "" then .error (.emptyName function role)
  else if name.utf8ByteSize > maxManifestNameBytes then
    .error (.nameTooLong function role name.utf8ByteSize maxManifestNameBytes)
  else .ok ()

def validatePower (function : ManifestFunction) (pow : ManifestRational) : Validated :=
  if pow.den.toInt ≤ 0 then .error (.nonPositiveDenominator function.name pow.num pow.den)
  else if pow.num.toInt = 0 then .error (.zeroPower function.name)
  else .ok ()

/-- The loop over a list of named items: each name is checked and new, and then the item is
checked. -/
def validateNamed {α : Type} (key : α → String) (role : NameRole) (function : Option String)
    (duplicate : α → ManifestValidationError) (check : α → Validated) :
    List String → List α → Validated
  | _, [] => .ok ()
  | seen, item :: rest => do
    validateName (key item) role function
    if key item ∈ seen then .error (duplicate item)
    else
      check item
      validateNamed key role function duplicate check (key item :: seen) rest

def validateMonomial (function : ManifestFunction) (monomial : ManifestMonomial) : Validated := do
  validateListCount (monomial.vars.length + monomial.fixed.length) maxManifestMonomialFactors
    .monomialFactors (some function.name)
  validateNamed ManifestVarPower.var .monomialVar (some function.name)
    (fun factor => .duplicateMonomialVar function.name factor.var)
    (fun factor => validatePower function factor.pow) [] monomial.vars
  validateNamed ManifestDimPower.dim .fixedDim (some function.name)
    (fun factor => .duplicateFixedDim function.name factor.dim)
    (fun factor => validatePower function factor.pow) [] monomial.fixed

def validateArrayElement (function : ManifestFunction) : ManifestArrayElementKind → Validated
  | .quantity monomial => validateMonomial function monomial
  | .bool => .ok ()
  | .int => .ok ()

def validateArray (function : ManifestFunction) (element : ManifestArrayElementKind)
    (indexes : List String) : Validated := do
  validateListCount indexes.length maxManifestArrayAxes .arrayAxes (some function.name)
  if indexes.isEmpty then .error (.emptyArrayAxes function.name)
  else
    indexes.forM fun index => validateName index .indexVar (some function.name)
    validateArrayElement function element

def validateFieldKind (function : ManifestFunction) (field : ManifestField) : Validated :=
  match field.kind with
  | .bool => .ok ()
  | .int => .ok ()
  | .quantity monomial =>
    if !monomial.vars.isEmpty then .error (.structFieldWithDimVars function.name field.name)
    else validateMonomial function monomial

def validateStruct (function : ManifestFunction) (fields : List ManifestField) : Validated := do
  validateListCount fields.length maxManifestStructFields .structFields (some function.name)
  if fields.isEmpty then .error (.emptyStruct function.name)
  else
    validateNamed ManifestField.name .field (some function.name)
      (fun field => .duplicateStructField function.name field.name)
      (validateFieldKind function) [] fields

def validateParamKind (function : ManifestFunction) : ManifestParamKind → Validated
  | .quantity monomial => validateMonomial function monomial
  | .array element indexes => validateArray function element indexes
  | .bool => .ok ()
  | .int => .ok ()

def validateResultKind (function : ManifestFunction) : ManifestResultKind → Validated
  | .quantity monomial => validateMonomial function monomial
  | .array element indexes => validateArray function element indexes
  | .struct fields => validateStruct function fields
  | .bool => .ok ()
  | .int => .ok ()

def validateFunction (function : ManifestFunction) : Validated := do
  validateListCount function.dimVars.length maxManifestVariables .dimensionVariables
    (some function.name)
  validateNamed id .dimVar (some function.name)
    (fun var => .duplicateDimVar function.name var) (fun _ => .ok ()) [] function.dimVars
  validateListCount function.indexVars.length maxManifestVariables .indexVariables
    (some function.name)
  validateNamed id .indexVar (some function.name)
    (fun var => .duplicateIndexVar function.name var) (fun _ => .ok ()) [] function.indexVars
  validateListCount function.params.length maxManifestParameters .parameters (some function.name)
  validateNamed ManifestParam.name .param (some function.name)
    (fun param => .duplicateParam function.name param.name)
    (fun param => validateParamKind function param.kind) [] function.params
  validateResultKind function function.result
  let slots := function.abiParameterSlots.getD usizeMax
  if slots > maxAbiFunctionParams then
    .error (.tooManyAbiParameters function.name slots maxAbiFunctionParams)
  else .ok ()

/-- The shape rules of a manifest. -/
def PluginManifest.validate (manifest : PluginManifest) : Validated := do
  validateListCount manifest.functions.length maxManifestFunctions .functions none
  if manifest.functions.isEmpty then .error .noFunctions
  else
    validateNamed ManifestFunction.name .function none
      (fun function => .duplicateFunction function.name) validateFunction [] manifest.functions

/-!
# From manifests to signatures

The boundary at which the strings of a manifest become names, base dimensions and exponents of a
validated signature.
-/

open Static (PreludeBaseDimension)

/-- A name without path separators. -/
structure NameAtom where
  text : String
  nonempty : text ≠ ""
  noDot : '.' ∉ text.toList
  deriving DecidableEq

theorem NameAtom.text_injective : Function.Injective NameAtom.text := by
  intro a b h
  cases a
  cases b
  congr

instance : LinearOrder NameAtom := LinearOrder.lift' NameAtom.text NameAtom.text_injective

inductive NameAtomError
  | empty
  | containsDot
  deriving DecidableEq

def NameAtom.parse (s : String) : Except NameAtomError NameAtom :=
  if hempty : s = "" then .error .empty
  else if hdot : '.' ∈ s.toList then .error .containsDot
  else .ok ⟨s, hempty, hdot⟩

def preludeBaseDimension : String → Option PreludeBaseDimension
  | "Length" => some .length
  | "Time" => some .time
  | "Mass" => some .mass
  | "Temperature" => some .temperature
  | "ElectricCurrent" => some .electricCurrent
  | "Amount" => some .amount
  | "LuminousIntensity" => some .luminousIntensity
  | "Angle" => some .angle
  | _ => none

variable {B : Type} [LinearOrder B]

inductive ConvertErrorKind
  | invalidFunctionName (name : String) (source : NameAtomError)
  | invalidDimVarName (name : String) (source : NameAtomError)
  | invalidIndexVarName (name : String) (source : NameAtomError)
  | invalidFieldName (name : String) (source : NameAtomError)
  | invalidParamName (name : String) (source : NameAtomError)
  | emptyArrayAxes
  | unknownBaseDimension (dim : String)
  | rational (source : RatioError)
  | signature (source : SignatureError NameAtom)

structure ManifestConvertError where
  function : String
  kind : ConvertErrorKind

variable (prelude : PreludeBaseDimension ↪ B)

def convertName (invalid : String → NameAtomError → ConvertErrorKind) (name : String) :
    Except ConvertErrorKind NameAtom :=
  (NameAtom.parse name).mapError (invalid name)

def convertDimVar : String → Except ConvertErrorKind NameAtom := convertName .invalidDimVarName

def convertIndexVar : String → Except ConvertErrorKind NameAtom := convertName .invalidIndexVarName

def convertRational (pow : ManifestRational) : Except ConvertErrorKind Rational :=
  (Ratio.tryNew pow.num.toInt pow.den.toInt).mapError .rational

def convertVar (factor : ManifestVarPower) : Except ConvertErrorKind (NameAtom × Rational) := do
  return (← convertDimVar factor.var, ← convertRational factor.pow)

/-- The fixed dimension with one more base dimension. -/
def convertFixed (fixed : Dimension B) (factor : ManifestDimPower) :
    Except ConvertErrorKind (Dimension B) := do
  match preludeBaseDimension factor.dim with
  | none => .error (.unknownBaseDimension factor.dim)
  | some base =>
    let powered ← ((Dimension.base (prelude base)).pow (← convertRational factor.pow)).mapError
      .rational
    (fixed.checkedMul powered).mapError .rational

/-- `SignatureError::from` of a factor error of a written monomial. -/
def namedFactorError : MonomialFactorError NameAtom → SignatureError NameAtom
  | .zeroExponent var => .zeroExponent var
  | .duplicateKey var => .duplicateMonomialVar var

def convertMonomial (monomial : ManifestMonomial) :
    Except ConvertErrorKind (DimMonomial NameAtom B) := do
  let vars ← monomial.vars.mapM convertVar
  let fixed ← monomial.fixed.foldlM (convertFixed prelude) .dimensionless
  (DimMonomial.tryNew vars fixed).mapError fun error => .signature (namedFactorError error)

def convertArrayElement :
    ManifestArrayElementKind → Except ConvertErrorKind (ScalarValueKind NameAtom B)
  | .quantity monomial => do return .quantity (← convertMonomial prelude monomial)
  | .bool => .ok .bool
  | .int => .ok .int

def convertArray (element : ManifestArrayElementKind) (indexes : List String) :
    Except ConvertErrorKind (ParamKind NameAtom NameAtom B) := do
  let indexes ← indexes.mapM convertIndexVar
  match NonEmpty.tryFromVec indexes with
  | none => .error .emptyArrayAxes
  | some indexes => return .indexed (← convertArrayElement prelude element) indexes

def convertParamKind :
    ManifestParamKind → Except ConvertErrorKind (ParamKind NameAtom NameAtom B)
  | .bool => .ok (.scalar .bool)
  | .int => .ok (.scalar .int)
  | .quantity monomial => do return .scalar (.quantity (← convertMonomial prelude monomial))
  | .array element indexes => convertArray prelude element indexes

/-- A field's quantity keeps the fixed dimension only: validation has excluded variables. -/
def convertFieldKind : ManifestFieldKind → Except ConvertErrorKind (StructFieldKind B)
  | .bool => .ok .bool
  | .int => .ok .int
  | .quantity monomial => do return .quantity (← convertMonomial prelude monomial).fixed

def convertStructField (field : ManifestField) :
    Except ConvertErrorKind (NameAtom × StructFieldKind B) := do
  let name ← convertName .invalidFieldName field.name
  return (name, ← convertFieldKind prelude field.kind)

def convertResultKind : ManifestResultKind →
    Except ConvertErrorKind (ResultKind (StructShape NameAtom B) NameAtom NameAtom B)
  | .bool => .ok (.value (.scalar .bool))
  | .int => .ok (.value (.scalar .int))
  | .quantity monomial => do
    return .value (.scalar (.quantity (← convertMonomial prelude monomial)))
  | .array element indexes => do return .value (← convertArray prelude element indexes)
  | .struct fields => do
    let fields ← fields.mapM (convertStructField prelude)
    return .struct (← (StructShape.tryNew fields).mapError .signature)

def convertParam (param : ManifestParam) :
    Except ConvertErrorKind (NamedParam NameAtom B) := do
  let name ← convertName .invalidParamName param.name
  return ⟨name, ← convertParamKind prelude param.kind⟩

instance : StructResult (StructShape NameAtom B) NameAtom B := ⟨id⟩

/-- A signature whose struct results are field shapes. -/
abbrev PluginSignature (B : Type) [LinearOrder B] :=
  FunctionSignature (StructShape NameAtom B) NameAtom B

def convertParts (function : ManifestFunction) :
    Except ConvertErrorKind (NameAtom × PluginSignature B) := do
  let name ← convertName .invalidFunctionName function.name
  let dimVars ← function.dimVars.mapM convertDimVar
  let indexVars ← function.indexVars.mapM convertIndexVar
  let params ← function.params.mapM (convertParam prelude)
  let result ← convertResultKind prelude function.result
  let signature ← (FunctionSignature.tryFromParts dimVars indexVars params result).mapError
    .signature
  return (name, signature)

def convertFunction (function : ManifestFunction) :
    Except ManifestConvertError (NameAtom × PluginSignature B) :=
  (convertParts prelude function).mapError fun kind => ⟨function.name, kind⟩

def convertManifest (manifest : PluginManifest) :
    Except ManifestConvertError (List (NameAtom × PluginSignature B)) :=
  manifest.functions.mapM (convertFunction prelude)

inductive WasmValType
  | i32
  | f64
  deriving DecidableEq

structure ExpectedWasmType where
  params : List WasmValType
  results : List WasmValType
  deriving DecidableEq

def paramWasmTypes {V I : Type} [LinearOrder V] : ParamKind V I B → List WasmValType
  | .scalar _ => [.f64]
  | .indexed _ indexes => .i32 :: List.replicate indexes.items.length .i32

def resultWasmType {S V I : Type} [LinearOrder V] : ResultKind S V I B → ExpectedWasmType
  | .value (.scalar _) => ⟨[], [.f64]⟩
  | .value (.indexed _ _) => ⟨[.i32], []⟩
  | .struct _ => ⟨[.i32], []⟩

/-- Arrays cross as a pointer and their extents, records and array results through a pointer. -/
def expectedWasmType (signature : PluginSignature B) : ExpectedWasmType where
  params := signature.params.flatMap (fun param => paramWasmTypes param.kind) ++
    (resultWasmType signature.result).params
  results := (resultWasmType signature.result).results

end ProvenGraphcal.Plugin
