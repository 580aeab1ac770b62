import ProvenGraphcal.Library.DistinctKeys
import ProvenGraphcal.Protocol.WireType

/-!
# Model interfaces

The parameters and the public outputs of a model, with the domains of the parameters.
-/

namespace ProvenGraphcal.Protocol

inductive BoundsError
  | unbounded
  | inverted
  deriving DecidableEq

/-- Inclusive bounds, at least one of them declared, the lower one not above the upper one. -/
structure Bounds (T : Type) [LT T] where
  min : Option T
  max : Option T
  valid : ¬ (min.isNone = true ∧ max.isNone = true) ∧
    ∀ lower ∈ min, ∀ upper ∈ max, ¬ upper < lower

def Bounds.new {T : Type} [LT T] [DecidableLT T] (min max : Option T) :
    Except BoundsError (Bounds T) :=
  if hbound : min.isNone = true ∧ max.isNone = true then .error .unbounded
  else if horder : ∀ lower ∈ min, ∀ upper ∈ max, ¬ upper < lower then .ok ⟨min, max, hbound, horder⟩
  else .error .inverted

inductive Domain (F : Type) [LT F]
  | quantity (bounds : Bounds F)
  | int (bounds : Bounds Int64)
  | datetime (bounds : Bounds F)

variable {F : Type} [FiniteF64 F]

/-- The scale of a unit: a positive finite number. -/
structure SiScale (F : Type) [FiniteF64 F] where
  value : F
  positive : 0 < value
  deriving DecidableEq

/-- `value`, given in SI, in the unit of the scale; none if that is not finite. -/
def SiScale.fromSi (scale : SiScale F) (value : F) : Option F :=
  FiniteF64.quotient value scale.value

/-- Whether a parameter of `wire` can declare `domain`. -/
def domainFits (wire : WireType F) (domain : Domain F) : Bool :=
  match wire.leaf, domain with
  | .quantity _, .quantity _ => true
  | .int, .int _ => true
  | .datetime _, .datetime _ => true
  | _, _ => false

/-! ## Ports -/

def PortWire.admitsDomain : PortWire F → Option (Domain F) → Bool
  | _, none => true
  | .supported wire, some domain => domainFits wire domain
  | .unsupported _, some _ => false

structure ParameterDescription (F : Type) [FiniteF64 F] where
  name : PortName
  graphcalType : String
  wire : PortWire F
  domain : Option (Domain F)
  hasDefault : Bool
  consistent : wire.admitsDomain domain = true

structure OutputDescription (F : Type) where
  name : PortName
  graphcalType : String
  wire : PortWire F

/-- The parameters and the outputs in declaration order, no name listed twice among either. -/
structure ModelInterface (F : Type) [FiniteF64 F] where
  parameters : List (ParameterDescription F)
  outputs : List (OutputDescription F)
  distinctParameters : (parameters.map ParameterDescription.name).Nodup
  distinctOutputs : (outputs.map OutputDescription.name).Nodup

def ModelInterface.parameter (interface : ModelInterface F) (name : PortName) :
    Option (ParameterDescription F) :=
  interface.parameters.find? fun parameter => parameter.name = name

def ModelInterface.output (interface : ModelInterface F) (name : PortName) :
    Option (OutputDescription F) :=
  interface.outputs.find? fun output => output.name = name

theorem ModelInterface.parameter_isSome {interface : ModelInterface F} {name : PortName} :
    (interface.parameter name).isSome = true ↔
      name ∈ interface.parameters.map ParameterDescription.name := by
  rw [ModelInterface.parameter, List.find?_isSome, List.mem_map]
  simp only [decide_eq_true_eq]

theorem ModelInterface.output_isSome {interface : ModelInterface F} {name : PortName} :
    (interface.output name).isSome = true ↔
      name ∈ interface.outputs.map OutputDescription.name := by
  rw [ModelInterface.output, List.find?_isSome, List.mem_map]
  simp only [decide_eq_true_eq]

/-!
# Session configuration

Which parameters a session varies, which outputs it reads, and the unit each quantity travels in.
-/

/-- A unit chosen for one selected quantity port. -/
structure UnitChoice where
  port : PortName
  unit : UnitSpelling
  deriving DecidableEq

structure SessionSpec where
  inputs : List PortName
  outputs : List PortName
  units : List UnitChoice
  fixed : List PortName
  deriving DecidableEq

inductive SessionError
  | noInputs
  | noOutputs
  | duplicateInput (name : PortName)
  | duplicateOutput (name : PortName)
  | unknownInput (name : PortName)
  | unknownOutput (name : PortName)
  | unsupportedInput (name : PortName) (reason : String)
  | unsupportedOutput (name : PortName) (reason : String)
  | missingDefault (name : PortName)
  | duplicateFixed (name : PortName)
  | unknownFixed (name : PortName)
  | variedAndFixed (name : PortName)
  | duplicateUnit (name : PortName)
  | unitForUnselectedPort (name : PortName)
  | unitForNonQuantity (name : PortName)
  | unresolvedUnit (name : PortName) (unit : UnitSpelling) (reason : String)
  | unrepresentableDomain (name : PortName)
  deriving DecidableEq

structure SessionInput (F : Type) [FiniteF64 F] where
  name : PortName
  wire : WireType F
  domain : Option (Domain F)
  siScale : Option (SiScale F)

structure SessionOutput (F : Type) [FiniteF64 F] where
  name : PortName
  wire : WireType F
  siScale : Option (SiScale F)

/-- The request and result shape of a session over an interface with this fingerprint. -/
structure SessionSchema (F : Type) [FiniteF64 F] (Fingerprint : Type) where
  interfaceFingerprint : Fingerprint
  inputs : List (SessionInput F)
  outputs : List (SessionOutput F)

/-- The unit that a port travels in by choice. -/
def chosen (name : PortName) (wire : WireType F) (scale : Option (SiScale F)) :
    Option UnitChoice := do
  let _ ← scale
  let quantity ← wire.quantity?
  let unit ← quantity.unit
  some ⟨name, unit⟩

variable {Fingerprint : Type}

/-- The selection the schema was configured from, without the fixed parameters. -/
def SessionSchema.spec (session : SessionSchema F Fingerprint) : SessionSpec :=
  ⟨session.inputs.map SessionInput.name, session.outputs.map SessionOutput.name,
    (session.inputs.filterMap fun input => chosen input.name input.wire input.siScale) ++
      session.outputs.filterMap fun output => chosen output.name output.wire output.siScale,
    []⟩

/-- Resolves the unit chosen for a port to its scale, or says why it cannot carry the port. -/
abbrev UnitResolver (F : Type) [FiniteF64 F] := PortName → UnitSpelling → Except String (SiScale F)

/-- The set of `names`, each of them known and selected once. -/
def selected (duplicate unknown : PortName → SessionError) (known : PortName → Bool) :
    List PortName → List PortName → Except SessionError (List PortName)
  | seen, [] => .ok seen
  | seen, name :: rest =>
    if name ∈ seen then .error (duplicate name)
    else if known name = false then .error (unknown name)
    else selected duplicate unknown known (seen ++ [name]) rest

def ModelInterface.varied (interface : ModelInterface F) (spec : SessionSpec) :
    Except SessionError (List PortName) :=
  selected .duplicateInput .unknownInput (fun name => (interface.parameter name).isSome) []
    spec.inputs

def ModelInterface.read (interface : ModelInterface F) (spec : SessionSpec) :
    Except SessionError (List PortName) :=
  selected .duplicateOutput .unknownOutput (fun name => (interface.output name).isSome) []
    spec.outputs

/-- The unit chosen for each selected port. -/
def unitChoicesFrom (varied read : List PortName) :
    List UnitChoice → List UnitChoice → Except SessionError (List UnitChoice)
  | choices, [] => .ok choices
  | choices, choice :: rest =>
    if choice.port ∉ varied ∧ choice.port ∉ read then .error (.unitForUnselectedPort choice.port)
    else if choice.port ∈ choices.map UnitChoice.port then .error (.duplicateUnit choice.port)
    else unitChoicesFrom varied read (choices ++ [choice]) rest

def unitChoices (spec : SessionSpec) (varied read : List PortName) :
    Except SessionError (List UnitChoice) :=
  unitChoicesFrom varied read [] spec.units

def choiceFor (choices : List UnitChoice) (name : PortName) : Option UnitSpelling :=
  (choices.find? fun choice => choice.port = name).map UnitChoice.unit

def ModelInterface.fixedParametersFrom (interface : ModelInterface F) (varied : List PortName) :
    List PortName → List PortName → Except SessionError (List PortName)
  | fixed, [] => .ok fixed
  | fixed, name :: rest =>
    if name ∈ fixed then .error (.duplicateFixed name)
    else if (interface.parameter name).isNone then .error (.unknownFixed name)
    else if name ∈ varied then .error (.variedAndFixed name)
    else interface.fixedParametersFrom varied (fixed ++ [name]) rest

def ModelInterface.fixedParameters (interface : ModelInterface F) (spec : SessionSpec)
    (varied : List PortName) : Except SessionError (List PortName) :=
  interface.fixedParametersFrom varied [] spec.fixed

/-- The wire and the scale of a port carried in the unit `choice`, or in its canonical unit. -/
def chosenWire (name : PortName) (wire : WireType F) (choice : Option UnitSpelling)
    (resolver : UnitResolver F) : Except SessionError (WireType F × Option (SiScale F)) :=
  match choice with
  | none => .ok (wire, none)
  | some unit =>
    match wire.withUnit unit with
    | none => .error (.unitForNonQuantity name)
    | some chosen =>
      match resolver name unit with
      | .error reason => .error (.unresolvedUnit name unit reason)
      | .ok scale =>
        match chosen with
        | .error error => .error (.unresolvedUnit name unit error.text)
        | .ok chosen => .ok (chosen, some scale)

def convertBound (scale : SiScale F) : Option F → Option (Option F)
  | none => some none
  | some bound => (scale.fromSi bound).map some

/-- `domain`, in the canonical unit, in the unit of `scale`. -/
def convertedDomain (domain : Domain F) (scale : Option (SiScale F)) : Option (Domain F) :=
  match domain, scale with
  | .quantity bounds, some scale => do
    let min ← convertBound scale bounds.min
    let max ← convertBound scale bounds.max
    match Bounds.new min max with
    | .ok bounds => some (.quantity bounds)
    | .error _ => none
  | domain, _ => some domain

def sessionDomain (name : PortName) (domain : Option (Domain F)) (scale : Option (SiScale F)) :
    Except SessionError (Option (Domain F)) :=
  match domain with
  | none => .ok none
  | some domain =>
    match convertedDomain domain scale with
    | some domain => .ok (some domain)
    | none => .error (.unrepresentableDomain name)

/-- The input that a parameter becomes, or none where it keeps its default or is fixed. -/
def sessionInput (varied fixed : List PortName) (choice : PortName → Option UnitSpelling)
    (resolver : UnitResolver F) (parameter : ParameterDescription F) :
    Except SessionError (Option (SessionInput F)) :=
  if parameter.name ∉ varied then
    if parameter.hasDefault = false ∧ parameter.name ∉ fixed then
      .error (.missingDefault parameter.name)
    else .ok none
  else
    match parameter.wire with
    | .supported wire => do
      let (wire, siScale) ← chosenWire parameter.name wire (choice parameter.name) resolver
      let domain ← sessionDomain parameter.name parameter.domain siScale
      .ok (some ⟨parameter.name, wire, domain, siScale⟩)
    | .unsupported reason => .error (.unsupportedInput parameter.name reason)

/-- The output that is read, or none where the session does not select it. -/
def sessionOutput (read : List PortName) (choice : PortName → Option UnitSpelling)
    (resolver : UnitResolver F) (output : OutputDescription F) :
    Except SessionError (Option (SessionOutput F)) :=
  if output.name ∉ read then .ok none
  else
    match output.wire with
    | .supported wire => do
      let (wire, siScale) ← chosenWire output.name wire (choice output.name) resolver
      .ok (some ⟨output.name, wire, siScale⟩)
    | .unsupported reason => .error (.unsupportedOutput output.name reason)

/-- Configure a session that varies and reads the ports that `spec` selects. -/
def ModelInterface.configure (fingerprintOf : ModelInterface F → Fingerprint)
    (interface : ModelInterface F) (spec : SessionSpec) (resolver : UnitResolver F) :
    Except SessionError (SessionSchema F Fingerprint) :=
  if spec.inputs.isEmpty then .error .noInputs
  else if spec.outputs.isEmpty then .error .noOutputs
  else do
    let varied ← interface.varied spec
    let read ← interface.read spec
    let choices ← unitChoices spec varied read
    let fixed ← interface.fixedParameters spec varied
    let inputs ← interface.parameters.mapM (sessionInput varied fixed (choiceFor choices) resolver)
    let outputs ← interface.outputs.mapM (sessionOutput read (choiceFor choices) resolver)
    .ok ⟨fingerprintOf interface, inputs.reduceOption, outputs.reduceOption⟩

end ProvenGraphcal.Protocol
