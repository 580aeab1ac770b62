import ProvenGraphcal.Protocol.ResultAlignment

/-!
# Record batches

What the protocol uses of the record batches of the Arrow library, and what their documentation
says of it.
-/

namespace ProvenGraphcal.Protocol

structure ArrowBatches (F : Type) extends ArrowArrays F where
  uint8Array : RowArray ArrayRef UInt8
  /-- The number in a row; any number where the row is null. -/
  uint8Value : ArrayRef → ℕ → UInt8
  RecordBatch : Type
  recordBatch : Schema → List ArrayRef → Except ArrowError RecordBatch
  columns : RecordBatch → List ArrayRef
  numRows : RecordBatch → ℕ

namespace ArrowBatches

variable {F : Type} (arrays : ArrowBatches F)

/-- `StructArray::try_new`: the first column gives the number of rows. -/
def structOf (fields : List (Field DataType)) (columns : List arrays.ArrayRef)
    (nulls : Option (List Bool)) : Except ArrowError arrays.ArrayRef :=
  match columns.head? with
  | none => .error (.invalidArgumentError
      ("use StructArray::try_new_with_length or StructArray::new_empty_fields to create a struct " ++
        "array with no fields so that the length can be set correctly"))
  | some column => arrays.structArray fields columns nulls (arrays.len column)

/-- What the documentation says of arrays and record batches. -/
structure Documented : Prop extends arrays.toArrowArrays.Documented where
  uint8 : arrays.RowsDocumented arrays.uint8Array .uint8
  uint8Value : ∀ array rows, arrays.uint8Array.downcast array = some rows →
    ∀ (row : ℕ) number, rows[row]? = some (some number) → arrays.uint8Value array row = number
  recordBatch : ∀ (schema : Schema) columns len, columns ≠ [] →
    arrays.Fit schema.fields columns len →
    ∃ batch, arrays.recordBatch schema columns = .ok batch ∧ arrays.columns batch = columns ∧
      arrays.numRows batch = len

variable {arrays}

/-- A struct of columns for its fields, none of its own rows null. -/
theorem Documented.structOf (documented : arrays.Documented) {fields : List (Field DataType)}
    {columns : List arrays.ArrayRef} {len : ℕ} (hne : fields ≠ [])
    (hfit : arrays.Fit fields columns len) :
    ∃ array, arrays.structOf fields columns none = .ok array ∧
      arrays.Made array (.struct fields) (List.replicate len true) ∧
      arrays.asStructArray array = some columns := by
  cases hfit with
  | nil => exact absurd rfl hne
  | cons hcolumn hrest =>
    obtain ⟨array, hnew, hmade, hback⟩ :=
      documented.struct _ _ none len (.cons hcolumn hrest) fun valid hvalid => nomatch hvalid
    refine ⟨array, ?_, hmade, hback⟩
    rw [← hnew, ← hcolumn.2.1]
    rfl

end ArrowBatches

variable {F : Type}

/-- The record batches in memory: columns of one length for the fields of their schema. -/
abbrev memoryBatches (F : Type) : ArrowBatches F where
  toArrowArrays := memoryArrays F
  uint8Array := ⟨.uint8, fun | .uint8 rows => some rows | _ => none⟩
  uint8Value array row :=
    match array with
    | .uint8 rows => rows[row]?.join.getD 0
    | _ => 0
  RecordBatch := List (MemoryArray F) × ℕ
  recordBatch schema columns :=
    match columns.head? with
    | none => .error (.invalidArgumentError "must either specify a row count or at least one column")
    | some column =>
      if schema.fields.length = columns.length ∧
          (∀ entry ∈ schema.fields.zip columns, entry.2.dataType = entry.1.dataType ∧
            entry.2.len = column.len ∧
            (entry.1.nullable = false → entry.2.logicalNullCount = 0)) then
        .ok (columns, column.len)
      else .error (.invalidArgumentError "Incorrect columns for RecordBatch")
  columns := Prod.fst
  numRows := Prod.snd

theorem memoryBatches_documented (F : Type) : (memoryBatches F).Documented where
  toDocumented := memoryArrays_documented F
  uint8 := memoryArrays_rows (fun _ => rfl) (fun _ => ⟨rfl, rfl, rfl⟩) (fun _ _ _ => rfl)
    fun array _ h => by cases array <;> cases h; rfl
  uint8Value array rows h row number hnumber := by
    cases array with
    | uint8 rows' =>
      cases h
      show (rows[row]?.join).getD 0 = number
      rw [hnumber]
      rfl
    | _ => cases h
  recordBatch schema columns len hne hfit := by
    obtain ⟨column, rest, rfl⟩ := List.exists_cons_of_ne_nil hne
    have hlen : column.len = len := by
      obtain ⟨field, -, hfield⟩ := Checked.exists_of_forall₂_right hfit List.mem_cons_self
      exact hfield.2.1
    refine ⟨(column :: rest, column.len), if_pos ⟨hfit.length_eq, fun entry hentry => ?_⟩, rfl, hlen⟩
    have hfits := List.forall₂_zip hfit hentry
    exact ⟨hfits.1, hfits.2.1.trans hlen.symm, hfits.2.2⟩

/-!
# Encoding and decoding result batches

A result is a struct of the outputs beside a struct of the outcomes. An output is null exactly in
the rows without values.
-/

def RowStatus.code : RowStatus → UInt8
  | success => 0
  | assertionFailed => 1
  | inputOutOfDomain => 2
  | evaluationError => 3

/-- A status byte that names no status. -/
structure UnknownRowStatus where
  code : UInt8
  deriving DecidableEq

def RowStatus.tryFrom (code : UInt8) : Except UnknownRowStatus RowStatus :=
  if code = 0 then .ok success
  else if code = 1 then .ok assertionFailed
  else if code = 2 then .ok inputOutOfDomain
  else if code = 3 then .ok evaluationError
  else .error ⟨code⟩

theorem RowStatus.tryFrom_code (status : RowStatus) : tryFrom status.code = .ok status := by
  cases status <;> rfl

def RowFailure.subject : RowFailure → Option String
  | assertionFailed assertion _ => some assertion
  | inputOutOfDomain parameter _ => some parameter.text
  | evaluationError _ => none

/-- Why a received struct array is not valid output values. -/
inductive OutputDecodeError (F : Type)
  | columnCount (expected received : ℕ)
  | nulls (count : ℕ)
  | arrowType (output : PortName)
  | nonFinite (output : PortName) (row : ℕ)
  | value (output : PortName) (source : ValueDecodeError F)
  | partialRow (row : ℕ) (present absent : PortName)
  | values (error : OutputValuesError)

/-- Why a received record batch is not a valid result. -/
inductive ResultDecodeError (F : Type)
  | layout
  | missingValues (row : ℕ)
  | unexpectedValues (row : ℕ) (status : RowStatus)
  | status (unknown : UnknownRowStatus) (row : ℕ)
  | missingFailurePart (row : ℕ) (part : String)
  | subject (row : ℕ) (source : LabelError)
  | outputs (error : OutputDecodeError F)

def outcomeField : String := "outcome"
def statusField : String := "status"
def subjectField : String := "subject"
def messageField : String := "message"

def outcomeFields : List (Field DataType) :=
  [.new statusField .uint8 false, .new subjectField .utf8 true, .new messageField .utf8 true]

variable {F Fingerprint : Type} [FiniteF64 F]

/-- The schema of the session's result stream. -/
def resultSchema (formats : MetadataFormats F Fingerprint) (session : SessionSchema F Fingerprint) :
    Schema :=
  ⟨[recordOutputsField formats session,
      ⟨outcomeField, .struct outcomeFields, false, metadataOf (formats.writeField .outcome)⟩],
    metadataOf (formats.writeSchema (session.schemaMetadata .result))⟩

variable (arrays : ArrowBatches F)

def encodeColumn (output : SessionOutput F) (column : OutputColumn F) :
    Except ArrowError arrays.ArrayRef :=
  match column, output.wire with
  | .quantity values, _ =>
    .ok (arrays.float64Array.collect (values.map fun value => value.map .finite))
  | .int values, _ => .ok (arrays.int64Array.collect values)
  | .bool values, _ => .ok (arrays.booleanArray.collect values)
  | .key values, .key axis => keyArray arrays.toArrowArrays axis values
  | .key _, _ => .error (.invalidArgumentError
      ("key column for non-key output `" ++ output.name.text ++ "`"))
  | .datetime values, _ =>
    .ok (arrays.float64Array.collect (values.map fun value => value.map .finite))
  | .complex values, wire =>
    let filled := withPlaceholders wire
      (values.map fun value => value.map fun parts => .complex parts.1 parts.2)
    encode arrays.toArrowArrays wire filled.1 (some filled.2)
  | .structured values, wire =>
    let filled := withPlaceholders wire values
    encode arrays.toArrowArrays wire filled.1 (some filled.2)

def OutputValues.toStructArray (formats : MetadataFormats F Fingerprint)
    (values : OutputValues F Fingerprint) : Except ArrowError arrays.ArrayRef := do
  let columns ← (values.schema.outputs.zip values.columns).mapM fun entry =>
    encodeColumn arrays entry.1 entry.2
  arrays.structOf (values.schema.outputs.map (outputField formats)) columns none

def statusCode (failure : Option RowFailure) : UInt8 :=
  match failure with
  | none => RowStatus.success.code
  | some failure => failure.status.code

/-- The struct of the outcomes of rows with these failures. -/
def outcomeArray (failures : List (Option RowFailure)) : Except ArrowError arrays.ArrayRef :=
  arrays.structOf outcomeFields
    [arrays.uint8Array.collect (failures.map fun failure => some (statusCode failure)),
      arrays.stringArray.collect (failures.map fun failure => failure.bind RowFailure.subject),
      arrays.stringArray.collect (failures.map fun failure => failure.map RowFailure.message)] none

def ResultBatch.toRecordBatch (formats : MetadataFormats F Fingerprint)
    (batch : ResultBatch F Fingerprint) : Except ArrowError arrays.RecordBatch := do
  let outputs ← batch.values.toStructArray arrays formats
  let outcome ← outcomeArray arrays batch.failures
  arrays.recordBatch (resultSchema formats batch.values.schema) [outputs, outcome]

/-! ## Decoding outputs -/

def quantityRow (output : PortName) (value : Option (F64 F)) (row : ℕ) :
    Except (OutputDecodeError F) (Option (Value F)) :=
  match value with
  | none => .ok none
  | some value =>
    (okOr value.toFinite (.nonFinite output row)).map fun value => some (.quantity value)

/-- The values of one output column, none in null rows. -/
def decodeOutput (output : PortName) (wire : WireType F) (array : arrays.ArrayRef) :
    Except (OutputDecodeError F) (List (Option (Value F))) :=
  match wire with
  | .quantity _ => do
    let rows ← okOr (arrays.float64Array.downcast array) (.arrowType output)
    Rows.collectRows (quantityRow output) rows
  | .int => do
    let rows ← okOr (arrays.int64Array.downcast array) (.arrowType output)
    return rows.map fun value => value.map .int
  | .bool => do
    let rows ← okOr (arrays.booleanArray.downcast array) (.arrowType output)
    return rows.map fun value => value.map .bool
  | wire => (decode arrays.toArrowArrays wire array).mapError (.value output)

/-- The values of a row, none where it has none; a row has all of its values or none. -/
def outputRow (outputs : List (SessionOutput F)) (columns : List (List (Option (Value F))))
    (row : ℕ) : Except (OutputDecodeError F) (Option (List (Value F))) :=
  let present := (outputs.zip columns).find? fun entry => entry.2[row]?.join.isSome
  let absent := (outputs.zip columns).find? fun entry => entry.2[row]?.join.isNone
  match present, absent with
  | some present, some absent => .error (.partialRow row present.1.name absent.1.name)
  | some _, none => .ok (some (columns.filterMap fun column => column[row]?.join))
  | none, _ => .ok none

def pushDecoded (columns : List (List (Option (Value F))))
    (builder : OutputValuesBuilder F Fingerprint) (row : ℕ) :
    Except (OutputDecodeError F) (OutputValuesBuilder F Fingerprint) := do
  let values ← outputRow builder.schema.outputs columns row
  match builder.push values with
  | (.ok _, builder) => .ok builder
  | (.error error, _) => .error (.values error)

/-- The struct array with these columns as output values of the session. -/
def OutputValues.fromStructArray (schema : SessionSchema F Fingerprint) (array : arrays.ArrayRef)
    (columns : List arrays.ArrayRef) :
    Except (OutputDecodeError F) (OutputValues F Fingerprint) := do
  Checked.reject (columns.length ≠ schema.outputs.length)
    (.columnCount schema.outputs.length columns.length)
  let nullCount := (arrays.valid array).count false
  Checked.reject (0 < nullCount) (.nulls nullCount)
  let columns ← (schema.outputs.zip columns).mapM fun entry =>
    decodeOutput arrays entry.1.name entry.1.wire entry.2
  let builder ← (List.range (arrays.len array)).foldlM (pushDecoded columns) (.new schema)
  builder.finish.mapError .values

def failurePart (parts : List (Option String)) (row : ℕ) (part : String) :
    Except (ResultDecodeError F) String :=
  okOr parts[row]?.join (.missingFailurePart row part)

/-- The failure of a row, from the number of its status. -/
def failureRow (present : List Bool) (status : ℕ → UInt8) (subjects messages : List (Option String))
    (row : ℕ) : Except (ResultDecodeError F) (Option RowFailure) :=
  match RowStatus.tryFrom (status row) with
  | .error unknown => .error (.status unknown row)
  | .ok .success => if present[row]? = some true then .ok none else .error (.missingValues row)
  | .ok status =>
    if present[row]? = some true then .error (.unexpectedValues row status)
    else do
      let message ← failurePart messages row "message"
      match status with
      | .assertionFailed =>
        let assertion ← failurePart subjects row "subject"
        return some (.assertionFailed assertion message)
      | .inputOutOfDomain =>
        let text ← failurePart subjects row "subject"
        let parameter ← (Label.new .portName text).mapError (.subject row)
        return some (.inputOutOfDomain parameter message)
      | _ => return some (.evaluationError message)

def structColumns (array : arrays.ArrayRef) : Option (arrays.ArrayRef × List arrays.ArrayRef) :=
  (arrays.asStructArray array).map (Prod.mk array)

/-- The statuses, subjects and messages in the columns of the outcomes. -/
def outcomeColumns (columns : List arrays.ArrayRef) :
    Except (ResultDecodeError F) ((ℕ → UInt8) × List (Option String) × List (Option String)) :=
  match columns with
  | [statuses, subjects, messages] => do
    let _ ← okOr (arrays.uint8Array.downcast statuses) .layout
    let subjects ← okOr (arrays.stringArray.downcast subjects) .layout
    let messages ← okOr (arrays.stringArray.downcast messages) .layout
    return (arrays.uint8Value statuses, subjects, messages)
  | _ => .error .layout

def ResultBatch.fromRecordBatch (schema : SessionSchema F Fingerprint)
    (batch : arrays.RecordBatch) :
    Except (ResultDecodeError F) (ResultBatch F Fingerprint) := do
  let structs ← okOr ((arrays.columns batch).mapM (structColumns arrays)) .layout
  match structs with
  | [outputs, outcome] =>
    let (statuses, subjects, messages) ← outcomeColumns arrays outcome.2
    let values ← (OutputValues.fromStructArray arrays schema outputs.1 outputs.2).mapError .outputs
    let failures ← (List.range (arrays.numRows batch)).mapM
      (failureRow values.present statuses subjects messages)
    okOr (ResultBatch.fromParts values failures) .layout
  | _ => .error .layout

end ProvenGraphcal.Protocol
