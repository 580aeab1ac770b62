import ProvenGraphcal.Protocol.ArrowSchema
import ProvenGraphcal.Protocol.Session

/-!
# The schema of a stored session record

What a session writes into the schema of its record, and the session that a record schema restores.
-/

namespace ProvenGraphcal.Protocol

instance {kind : LabelKind} : LinearOrder (Label kind) :=
  LinearOrder.lift' Label.text Label.text_injective

def protocolVersion : ℕ := 2

inductive StreamKind
  | request
  | result
  | record
  deriving DecidableEq

/-- The value of a schema's metadata key. -/
structure SchemaMetadata (F Fingerprint : Type) [FiniteF64 F] where
  protocolVersion : ℕ
  interfaceFingerprint : Fingerprint
  stream : StreamKind
  siScales : SortedMap PortName (SiScale F)

/-- The value of a field's metadata key. -/
inductive FieldMetadata (F : Type) [FiniteF64 F]
  | input (wire : WireType F) (domain : Option (Domain F))
  | output (wire : WireType F)
  | inputs
  | outputs
  | outcome

/-- The texts that metadata are written to and read from. -/
structure MetadataFormats (F Fingerprint : Type) [FiniteF64 F] extends SchemaFormats where
  writeField : FieldMetadata F → String
  writeSchema : SchemaMetadata F Fingerprint → String
  readField : String → Option (FieldMetadata F)
  readSchema : String → Option (SchemaMetadata F Fingerprint)

variable {F Fingerprint : Type} [FiniteF64 F] (formats : MetadataFormats F Fingerprint)

def metadataOf (text : String) : Metadata := SortedMap.empty.insert metadataKey text

/-- The scales that a session writes, those of the inputs first. -/
def SessionSchema.siScales (session : SessionSchema F Fingerprint) :
    SortedMap PortName (SiScale F) :=
  SortedMap.ofList <|
    (session.inputs.filterMap fun input => input.siScale.map (Prod.mk input.name)) ++
      session.outputs.filterMap fun output => output.siScale.map (Prod.mk output.name)

def SessionSchema.schemaMetadata (session : SessionSchema F Fingerprint) (stream : StreamKind) :
    SchemaMetadata F Fingerprint :=
  ⟨Protocol.protocolVersion, session.interfaceFingerprint, stream, session.siScales⟩

def inputField (input : SessionInput F) : Field DataType :=
  ⟨input.name.text, dataType input.wire, false,
    metadataOf (formats.writeField (.input input.wire input.domain))⟩

def outputField (output : SessionOutput F) : Field DataType :=
  ⟨output.name.text, dataType output.wire, true,
    metadataOf (formats.writeField (.output output.wire))⟩

def inputsField : String := "inputs"
def outputsField : String := "outputs"

def recordInputsField (session : SessionSchema F Fingerprint) : Field DataType :=
  ⟨inputsField, .struct (session.inputs.map (inputField formats)), false,
    metadataOf (formats.writeField .inputs)⟩

def recordOutputsField (session : SessionSchema F Fingerprint) : Field DataType :=
  ⟨outputsField, .struct (session.outputs.map (outputField formats)), false,
    metadataOf (formats.writeField .outputs)⟩

def recordMetadata (session : SessionSchema F Fingerprint) : Metadata :=
  metadataOf (formats.writeSchema (session.schemaMetadata .record))

inductive RecordPart
  | inputs
  | outputs
  deriving DecidableEq

inductive RecordSchemaError
  | schemaMetadata
  | stream (received : StreamKind)
  | protocolVersion (expected received : ℕ)
  | fieldMetadata (field : String)
  | unexpectedRole (field : String)
  | partCount (part : RecordPart) (count : ℕ)
  | notStruct (field : String)
  | portName (field : String) (source : LabelError)
  | portMetadata (port : PortName)
  | domainKindMismatch (port : PortName)
  | scaleForNonQuantity (port : PortName)
  | scaleForUnknownPort (port : PortName)
  | session (error : SessionError)
  | mismatch (error : SchemaMismatch)
  deriving DecidableEq

structure Schema where
  fields : List (Field DataType)
  metadata : Metadata

/-- The role of a top-level field, none for a field of the application. -/
def fieldRole (field : Field DataType) : Except RecordSchemaError (Option (FieldMetadata F)) :=
  match field.metadata.get? metadataKey with
  | none => .ok none
  | some text =>
    match formats.readField text with
    | some role => .ok (some role)
    | none => .error (.fieldMetadata field.name)

/-- The fields with the roles of the two structs, each with its position. -/
def partsFrom (inputs outputs : List (ℕ × Field DataType)) :
    ℕ → List (Field DataType) →
      Except RecordSchemaError (List (ℕ × Field DataType) × List (ℕ × Field DataType))
  | _, [] => .ok (inputs, outputs)
  | position, field :: rest => do
    match ← fieldRole formats field with
    | none => partsFrom inputs outputs (position + 1) rest
    | some .inputs => partsFrom (inputs ++ [(position, field)]) outputs (position + 1) rest
    | some .outputs => partsFrom inputs (outputs ++ [(position, field)]) (position + 1) rest
    | some _ => .error (.unexpectedRole field.name)

def single (parts : List (ℕ × Field DataType)) (part : RecordPart) :
    Except RecordSchemaError (ℕ × Field DataType) :=
  match parts with
  | [found] => .ok found
  | _ => .error (.partCount part parts.length)

def children (field : Field DataType) : Except RecordSchemaError (List (Field DataType)) :=
  match field.dataType with
  | .struct fields => .ok fields
  | _ => .error (.notStruct field.name)

/-- The name and the metadata of a port field. -/
def port (field : Field DataType) : Except RecordSchemaError (PortName × FieldMetadata F) :=
  match Label.new .portName field.name with
  | .error source => .error (.portName field.name source)
  | .ok port =>
    match (field.metadata.get? metadataKey).bind formats.readField with
    | some role => .ok (port, role)
    | none => .error (.portMetadata port)

abbrev Scales (F : Type) [FiniteF64 F] := SortedMap PortName (SiScale F)

def takeScale (scales : Scales F) (port : PortName) (wire : WireType F) :
    Except RecordSchemaError (Option (SiScale F) × Scales F) :=
  let scale := scales.get? port
  if scale.isSome = true ∧ wire.quantity?.isNone = true then .error (.scaleForNonQuantity port)
  else .ok (scale, scales.set port none)

def restoreInput (scales : Scales F) (field : Field DataType) :
    Except RecordSchemaError (SessionInput F × Scales F) := do
  let (name, role) ← port formats field
  match role with
  | .input wire domain =>
    if domain.any (fun domain => !domainFits wire domain) then .error (.domainKindMismatch name)
    else do
      let (siScale, scales) ← takeScale scales name wire
      .ok (⟨name, wire, domain, siScale⟩, scales)
  | _ => .error (.portMetadata name)

def restoreOutput (scales : Scales F) (field : Field DataType) :
    Except RecordSchemaError (SessionOutput F × Scales F) := do
  let (name, role) ← port formats field
  match role with
  | .output wire => do
    let (siScale, scales) ← takeScale scales name wire
    .ok (⟨name, wire, siScale⟩, scales)
  | _ => .error (.portMetadata name)

/-- The ports of a struct in order, with the scales that they leave. -/
def restorePorts {α : Type}
    (restore : Scales F → Field DataType → Except RecordSchemaError (α × Scales F)) :
    Scales F → List (Field DataType) → Except RecordSchemaError (List α × Scales F)
  | scales, [] => .ok ([], scales)
  | scales, field :: rest => do
    let (first, scales) ← restore scales field
    let (ports, scales) ← restorePorts restore scales rest
    .ok (first :: ports, scales)

def firstRepeated : List PortName → List PortName → Option PortName
  | _, [] => none
  | seen, name :: rest => if name ∈ seen then some name else firstRepeated (name :: seen) rest

/-- A schema restored from a stored description of its ports. -/
def SessionSchema.restore (interfaceFingerprint : Fingerprint) (inputs : List (SessionInput F))
    (outputs : List (SessionOutput F)) : Except SessionError (SessionSchema F Fingerprint) :=
  if inputs.isEmpty then .error .noInputs
  else if outputs.isEmpty then .error .noOutputs
  else
    match firstRepeated [] (inputs.map SessionInput.name) with
    | some name => .error (.duplicateInput name)
    | none =>
      match firstRepeated [] (outputs.map SessionOutput.name) with
      | some name => .error (.duplicateOutput name)
      | none => .ok ⟨interfaceFingerprint, inputs, outputs⟩

structure RecordSchema (F Fingerprint : Type) [FiniteF64 F] where
  session : SessionSchema F Fingerprint
  inputs : ℕ
  outputs : ℕ

/-- The stream and the version that a record has. -/
def checkMetadata (metadata : SchemaMetadata F Fingerprint) : Except RecordSchemaError Unit := do
  Checked.reject (metadata.stream ≠ .record) (.stream metadata.stream)
  Checked.reject (metadata.protocolVersion ≠ Protocol.protocolVersion)
    (.protocolVersion Protocol.protocolVersion metadata.protocolVersion)

/-- Restore the session recorded by `schema`. -/
def RecordSchema.decode (schema : Schema) :
    Except RecordSchemaError (RecordSchema F Fingerprint) :=
  match (schema.metadata.get? metadataKey).bind formats.readSchema with
  | none => .error .schemaMetadata
  | some schemaMetadata => do
    checkMetadata schemaMetadata
    let (inputs, outputs) ← partsFrom formats [] [] 0 schema.fields
    let inputs ← single inputs .inputs
    let outputs ← single outputs .outputs
    let inputChildren ← children inputs.2
    let (sessionInputs, scales) ←
      restorePorts (restoreInput formats) schemaMetadata.siScales inputChildren
    let outputChildren ← children outputs.2
    let (sessionOutputs, scales) ← restorePorts (restoreOutput formats) scales outputChildren
    match scales.keys with
    | port :: _ => .error (.scaleForUnknownPort port)
    | [] => do
      let session ← (SessionSchema.restore schemaMetadata.interfaceFingerprint sessionInputs
        sessionOutputs).mapError .session
      -- every port is known now; the stored fields are those that the session gives
      (fieldsMatch formats.toSchemaFormats ""
        [recordInputsField formats session, recordOutputsField formats session]
        [inputs.2, outputs.2]).mapError .mismatch
      .ok ⟨session, inputs.1, outputs.1⟩

end ProvenGraphcal.Protocol
