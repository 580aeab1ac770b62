import ProvenGraphcal.Protocol.RecordRoundTrip
import ProvenGraphcal.Protocol.ValueArray

/-!
# Result batches

The outcomes of the rows of one request, column by column.
-/

open List (ext_getElem? length_map map_append mem_map)

namespace ProvenGraphcal.Protocol

/-- Why one row produced no outputs. -/
inductive RowFailure
  | assertionFailed (assertion message : String)
  | inputOutOfDomain (parameter : PortName) (message : String)
  | evaluationError (message : String)
  deriving DecidableEq

inductive RowStatus
  | success | assertionFailed | inputOutOfDomain | evaluationError
  deriving DecidableEq

def RowFailure.status : RowFailure → RowStatus
  | assertionFailed _ _ => .assertionFailed
  | inputOutOfDomain _ _ => .inputOutOfDomain
  | evaluationError _ => .evaluationError

def RowFailure.message : RowFailure → String
  | assertionFailed _ message => message
  | inputOutOfDomain _ message => message
  | evaluationError message => message

inductive RowOutcome (α : Type)
  | success (values : α)
  | failure (failure : RowFailure)

variable {F : Type}

/-- The values of one read output, none in the rows without values. -/
inductive OutputColumn (F : Type)
  | quantity (values : List (Option F))
  | int (values : List (Option Int64))
  | bool (values : List (Option Bool))
  /-- Entry positions within the output's key type. -/
  | key (values : List (Option ℕ))
  | complex (values : List (Option (F × F)))
  | datetime (values : List (Option F))
  | structured (values : List (Option (Value F)))

namespace OutputColumn

def empty : WireType F → OutputColumn F
  | .quantity _ => quantity []
  | .complex _ => complex []
  | .int => int []
  | .bool => bool []
  | .key _ => key []
  | .datetime _ => datetime []
  | .indexed _ _ => structured []
  | .algebraic _ _ => structured []

def len : OutputColumn F → ℕ
  | quantity values => values.length
  | int values => values.length
  | bool values => values.length
  | key values => values.length
  | complex values => values.length
  | datetime values => values.length
  | structured values => values.length

def pushNone : OutputColumn F → OutputColumn F
  | quantity values => quantity (values ++ [none])
  | int values => int (values ++ [none])
  | bool values => bool (values ++ [none])
  | key values => key (values ++ [none])
  | complex values => complex (values ++ [none])
  | datetime values => datetime (values ++ [none])
  | structured values => structured (values ++ [none])

variable [DecidableEq F]

/-- Append the value; none, with the column as it was, where it is of another kind. -/
def push (column : OutputColumn F) (value : Value F) (wire : WireType F) :
    Option (OutputColumn F) :=
  match column, value, wire with
  | quantity values, .quantity value, _ => some (quantity (values ++ [some value]))
  | datetime values, .datetime value, _ => some (datetime (values ++ [some value]))
  | int values, .int value, _ => some (int (values ++ [some value]))
  | bool values, .bool value, _ => some (bool (values ++ [some value]))
  | key values, .key value, .key axis =>
    (axis.position value).map fun position => key (values ++ [some position])
  | complex values, .complex re im, _ => some (complex (values ++ [some (re, im)]))
  | structured values, .indexed entries, _ =>
    some (structured (values ++ [some (.indexed entries)]))
  | structured values, .algebraic constructor fields, _ =>
    some (structured (values ++ [some (.algebraic constructor fields)]))
  | _, _, _ => none

/-- The value in a row. -/
def value (column : OutputColumn F) (wire : WireType F) (row : ℕ) : Option (Value F) :=
  match column, wire with
  | quantity values, .quantity _ => values[row]?.join.map .quantity
  | int values, .int => values[row]?.join.map .int
  | bool values, .bool => values[row]?.join.map .bool
  | key values, .key axis => (values[row]?.join.bind axis.key).map .key
  | complex values, .complex _ => values[row]?.join.map fun parts => .complex parts.1 parts.2
  | datetime values, .datetime _ => values[row]?.join.map .datetime
  | structured values, .indexed _ _ => values[row]?.join
  | structured values, .algebraic _ _ => values[row]?.join
  | _, _ => none

end OutputColumn

inductive OutputValuesError
  | valueCount (expected found : ℕ)
  | kindMismatch (output : PortName)
  | empty
  deriving DecidableEq

variable [FiniteF64 F] {Fingerprint : Type}

/-- The values of a session's read outputs; a row has a value for each of them or none. -/
structure OutputValues (F : Type) [FiniteF64 F] (Fingerprint : Type) where
  schema : SessionSchema F Fingerprint
  present : List Bool
  columns : List (OutputColumn F)

/-- Accumulates rows into `OutputValues`. -/
structure OutputValuesBuilder (F : Type) [FiniteF64 F] (Fingerprint : Type) where
  schema : SessionSchema F Fingerprint
  present : List Bool
  columns : List (OutputColumn F)

namespace OutputValuesBuilder

def new (schema : SessionSchema F Fingerprint) : OutputValuesBuilder F Fingerprint :=
  ⟨schema, [], schema.outputs.map fun output => .empty output.wire⟩

/-- Append the values of a row to the columns; a column that refuses its value stays as it was. -/
def pushValues : List (OutputColumn F) → List (SessionOutput F) → List (Value F) →
    List (OutputColumn F)
  | column :: columns, output :: outputs, value :: values =>
    (column.push value output.wire).getD column :: pushValues columns outputs values
  | columns, _, _ => columns

/-- Append one row, and the builder after the call. -/
def push (builder : OutputValuesBuilder F Fingerprint) (values : Option (List (Value F))) :
    Except OutputValuesError Unit × OutputValuesBuilder F Fingerprint :=
  match values with
  | none =>
    (.ok (), { builder with
      columns := builder.columns.map OutputColumn.pushNone
      present := builder.present ++ [false] })
  | some values =>
    let outputs := builder.schema.outputs
    if values.length ≠ outputs.length then
      (.error (.valueCount outputs.length values.length), builder)
    else
      match (outputs.zip values).find? fun entry => !Value.conformsTo entry.1.wire entry.2 with
      | some entry => (.error (.kindMismatch entry.1.name), builder)
      | none =>
        (.ok (), { builder with
          columns := pushValues builder.columns outputs values
          present := builder.present ++ [true] })

def finish (builder : OutputValuesBuilder F Fingerprint) :
    Except OutputValuesError (OutputValues F Fingerprint) :=
  if builder.present.isEmpty then .error .empty
  else .ok ⟨builder.schema, builder.present, builder.columns⟩

end OutputValuesBuilder

/-- A row outcome for every request row. -/
structure ResultBatch (F : Type) [FiniteF64 F] (Fingerprint : Type) where
  values : OutputValues F Fingerprint
  failures : List (Option RowFailure)

/-- The values with the failures of the rows, unless the two disagree. -/
def ResultBatch.fromParts (values : OutputValues F Fingerprint)
    (failures : List (Option RowFailure)) : Option (ResultBatch F Fingerprint) :=
  if values.present.length = failures.length ∧
      ((values.present.zip failures).all fun entry => entry.1 == entry.2.isNone) = true then
    some ⟨values, failures⟩
  else none

/-- Accumulates row outcomes into a `ResultBatch`. -/
structure ResultBatchBuilder (F : Type) [FiniteF64 F] (Fingerprint : Type) where
  values : OutputValuesBuilder F Fingerprint
  failures : List (Option RowFailure)

namespace ResultBatchBuilder

def new (schema : SessionSchema F Fingerprint) : ResultBatchBuilder F Fingerprint := ⟨.new schema, []⟩

/-- Append one row outcome, and the builder after the call. -/
def push (builder : ResultBatchBuilder F Fingerprint) (outcome : RowOutcome (List (Value F))) :
    Except OutputValuesError Unit × ResultBatchBuilder F Fingerprint :=
  match outcome with
  | .success values =>
    match builder.values.push (some values) with
    | (.error error, values) => (.error error, { builder with values })
    | (.ok _, values) => (.ok (), ⟨values, builder.failures ++ [none]⟩)
  | .failure failure =>
    match builder.values.push none with
    | (.error error, values) => (.error error, { builder with values })
    | (.ok _, values) => (.ok (), ⟨values, builder.failures ++ [some failure]⟩)

def finish (builder : ResultBatchBuilder F Fingerprint) :
    Except OutputValuesError (ResultBatch F Fingerprint) := do
  let values ← builder.values.finish
  return ⟨values, builder.failures⟩

/-- The builder after the pushes, some of which may be rejected. -/
def run (schema : SessionSchema F Fingerprint) (outcomes : List (RowOutcome (List (Value F)))) :
    ResultBatchBuilder F Fingerprint :=
  outcomes.foldl (fun builder outcome => (builder.push outcome).2) (new schema)

end ResultBatchBuilder

/-!
# Aligned result batches

A builder holds the rows that it accepted, each of them column by column.
-/

variable {F : Type}

variable {wire : WireType F}

namespace OutputColumn

variable [DecidableEq F]

/-- The column of an output with these values. -/
def of (wire : WireType F) (values : List (Option (Value F))) : OutputColumn F :=
  match wire with
  | .quantity _ => quantity (values.map fun value => value.bind Value.number?)
  | .complex _ => complex (values.map fun value => value.bind Value.complex?)
  | .int => int (values.map fun value => value.bind Value.int?)
  | .bool => bool (values.map fun value => value.bind Value.bool?)
  | .key axis => key (values.map fun value => value.bind (Value.position? axis))
  | .datetime _ => datetime (values.map fun value => value.bind Value.number?)
  | .indexed _ _ => structured values
  | .algebraic _ _ => structured values

theorem of_nil (wire : WireType F) : of wire [] = empty wire := by
  cases wire <;> rfl

theorem len_of (wire : WireType F) (values : List (Option (Value F))) :
    (of wire values).len = values.length := by
  cases wire <;> first | rfl | exact length_map _

theorem pushNone_of (wire : WireType F) (values : List (Option (Value F))) :
    (of wire values).pushNone = of wire (values ++ [none]) := by
  cases wire <;> simp only [of, pushNone, map_append] <;> rfl

/-- A conforming value is never refused. -/
theorem push_of (values : List (Option (Value F))) {value : Value F}
    (h : Value.conformsTo wire value = true) :
    (of wire values).push value wire = some (of wire (values ++ [some value])) := by
  cases wire with
  | quantity type =>
    obtain ⟨number, rfl⟩ := conformsTo_quantity.mp h
    simp only [of, push, map_append]
    rfl
  | complex type =>
    obtain ⟨parts, rfl⟩ := conformsTo_complex.mp h
    simp only [of, push, map_append]
    rfl
  | int =>
    obtain ⟨number, rfl⟩ := conformsTo_int.mp h
    simp only [of, push, map_append]
    rfl
  | bool =>
    obtain ⟨bool, rfl⟩ := conformsTo_bool.mp h
    simp only [of, push, map_append]
    rfl
  | key axis =>
    obtain ⟨key, rfl, hposition⟩ := conformsTo_key.mp h
    obtain ⟨position, hposition⟩ := Option.isSome_iff_exists.mp hposition
    have hvalue : Value.position? axis (.key key) = some position := hposition
    simp only [of, push, map_append, hposition, Option.map_some, List.map_singleton,
      Option.bind_some, hvalue]
  | datetime scale =>
    obtain ⟨number, rfl⟩ := conformsTo_datetime.mp h
    simp only [of, push, map_append]
    rfl
  | indexed axis element =>
    obtain ⟨entries, rfl, -⟩ := conformsTo_indexed.mp h
    rfl
  | algebraic name constructors =>
    obtain ⟨row, rfl, -⟩ := conformsTo_algebraic.mp h
    rfl

/-- The column gives back the values it was made of. -/
theorem value_of {values : List (Option (Value F))}
    (h : ∀ value, some value ∈ values → Value.conformsTo wire value = true) (row : ℕ) :
    (of wire values).value wire row = values[row]?.join := by
  have hmap : ∀ {α : Type} (content : Value F → Option α) (back : α → Option (Value F)),
      (∀ value, some value ∈ values → (content value).bind back = some value) →
      ((values.map fun value => value.bind content)[row]?.join).bind back = values[row]?.join := by
    intro α content back hback
    rw [List.getElem?_map]
    cases hrow : values[row]? with
    | none => rfl
    | some value =>
      cases value with
      | none => rfl
      | some value => exact hback value (List.mem_of_getElem? hrow)
  cases wire with
  | quantity type =>
    refine Option.map_eq_bind.trans (hmap Value.number? _ fun value hmem => ?_)
    obtain ⟨number, rfl⟩ := conformsTo_quantity.mp (h value hmem)
    rfl
  | complex type =>
    refine Option.map_eq_bind.trans (hmap Value.complex? _ fun value hmem => ?_)
    obtain ⟨parts, rfl⟩ := conformsTo_complex.mp (h value hmem)
    rfl
  | int =>
    refine Option.map_eq_bind.trans (hmap Value.int? _ fun value hmem => ?_)
    obtain ⟨number, rfl⟩ := conformsTo_int.mp (h value hmem)
    rfl
  | bool =>
    refine Option.map_eq_bind.trans (hmap Value.bool? _ fun value hmem => ?_)
    obtain ⟨bool, rfl⟩ := conformsTo_bool.mp (h value hmem)
    rfl
  | key axis =>
    refine Option.map_bind.trans (hmap (Value.position? axis) _ fun value hmem => ?_)
    obtain ⟨key, rfl, hposition⟩ := conformsTo_key.mp (h value hmem)
    obtain ⟨position, hposition⟩ := Option.isSome_iff_exists.mp hposition
    have hvalue : Value.position? axis (.key key) = some position := hposition
    rw [hvalue]
    show (axis.key position).map Value.key = some (Value.key key)
    rw [Axis.key_of_position hposition]
    rfl
  | datetime scale =>
    refine Option.map_eq_bind.trans (hmap Value.number? _ fun value hmem => ?_)
    obtain ⟨number, rfl⟩ := conformsTo_datetime.mp (h value hmem)
    rfl
  | indexed axis element => rfl
  | algebraic name constructors => rfl

end OutputColumn

/-! ## Rows of values -/

variable [FiniteF64 F] {Fingerprint : Type}

/-- A value of each output. -/
def ConformOutputs (outputs : List (SessionOutput F)) (values : List (Value F)) : Prop :=
  List.Forall₂ (fun output value => Value.conformsTo output.wire value = true) outputs values

variable {outputs : List (SessionOutput F)} {values : List (Value F)} {output : SessionOutput F}
variable {position : ℕ}

theorem ConformOutputs.exists_value (h : ConformOutputs outputs values)
    (houtput : outputs[position]? = some output) :
    ∃ value, values[position]? = some value ∧ Value.conformsTo output.wire value = true := by
  obtain ⟨hlength, hget⟩ := List.forall₂_iff_get.mp h
  obtain ⟨hlt, rfl⟩ := List.getElem?_eq_some_iff.mp houtput
  exact ⟨_, List.getElem?_eq_getElem (hlength ▸ hlt), hget position hlt (hlength ▸ hlt)⟩

/-- The values of the output at a position, row by row. -/
def columnValues (rows : List (Option (List (Value F)))) (position : ℕ) :
    List (Option (Value F)) :=
  rows.map fun row => row.bind fun values => values[position]?

/-- The columns of these rows. -/
def columnsOf (outputs : List (SessionOutput F)) (rows : List (Option (List (Value F)))) :
    List (OutputColumn F) :=
  outputs.mapIdx fun position output => .of output.wire (columnValues rows position)

theorem getElem?_columnsOf (outputs : List (SessionOutput F))
    (rows : List (Option (List (Value F)))) (position : ℕ) :
    (columnsOf outputs rows)[position]? =
      outputs[position]?.map fun output => .of output.wire (columnValues rows position) :=
  List.getElem?_mapIdx

variable {rows : List (Option (List (Value F)))}

theorem columnValues_conform (h : ∀ values, some values ∈ rows → ConformOutputs outputs values)
    (houtput : outputs[position]? = some output) :
    ∀ value, some value ∈ columnValues rows position →
      Value.conformsTo output.wire value = true := by
  intro value hmem
  obtain ⟨row, hrow, hvalue⟩ := mem_map.mp hmem
  obtain ⟨values, rfl, hvalue⟩ := Option.bind_eq_some_iff.mp hvalue
  obtain ⟨found, hfound, hconforms⟩ := (h values hrow).exists_value houtput
  rwa [Option.some.inj (hvalue.symm.trans hfound)]

namespace OutputValuesBuilder

/-- The builder holds the rows. -/
structure Represents (builder : OutputValuesBuilder F Fingerprint)
    (rows : List (Option (List (Value F)))) : Prop where
  conform : ∀ values, some values ∈ rows → ConformOutputs builder.schema.outputs values
  present : builder.present = rows.map Option.isSome
  columns : builder.columns = columnsOf builder.schema.outputs rows

theorem represents_new (schema : SessionSchema F Fingerprint) : (new schema).Represents [] := by
  refine ⟨fun values hmem => (nomatch hmem), rfl, ext_getElem? fun position => ?_⟩
  rw [getElem?_columnsOf]
  show (schema.outputs.map _)[position]? = schema.outputs[position]?.map _
  rw [List.getElem?_map]
  exact congrArg (Option.map · _) (funext fun output => (OutputColumn.of_nil output.wire).symm)

theorem getElem?_pushValues {columns : List (OutputColumn F)}
    (hcolumns : columns.length = outputs.length) (hvalues : outputs.length = values.length)
    (position : ℕ) :
    (pushValues columns outputs values)[position]? = columns[position]?.bind fun column =>
      outputs[position]?.bind fun output => values[position]?.map fun value =>
        (column.push value output.wire).getD column := by
  induction columns generalizing outputs values position with
  | nil =>
    rw [pushValues]
    · rfl
    · exact fun _ _ _ _ _ _ hnil => (nomatch hnil)
  | cons column columns ih =>
    cases outputs with
    | nil => cases hcolumns
    | cons output outputs =>
      cases values with
      | nil => cases hvalues
      | cons value values =>
        cases position with
        | zero => rfl
        | succ position =>
          exact ih (Nat.succ.inj hcolumns) (Nat.succ.inj hvalues) position

/-- A row of values is appended to every column. -/
theorem pushValues_columnsOf (rows : List (Option (List (Value F))))
    (h : ConformOutputs outputs values) :
    pushValues (columnsOf outputs rows) outputs values =
      columnsOf outputs (rows ++ [some values]) := by
  have hlength : (columnsOf outputs rows).length = outputs.length := List.length_mapIdx
  refine ext_getElem? fun position => ?_
  rw [getElem?_pushValues hlength h.length_eq, getElem?_columnsOf, getElem?_columnsOf]
  cases houtput : outputs[position]? with
  | none => rfl
  | some output =>
    obtain ⟨value, hvalue, hconforms⟩ := h.exists_value houtput
    have hrows : columnValues (rows ++ [some values]) position =
        columnValues rows position ++ [values[position]?] := by
      rw [columnValues, map_append]
      rfl
    rw [hrows, hvalue]
    show some (((OutputColumn.of output.wire (columnValues rows position)).push value
      output.wire).getD _) = _
    rw [OutputColumn.push_of _ hconforms]
    rfl

theorem map_pushNone_columnsOf (outputs : List (SessionOutput F))
    (rows : List (Option (List (Value F)))) :
    (columnsOf outputs rows).map OutputColumn.pushNone = columnsOf outputs (rows ++ [none]) := by
  refine ext_getElem? fun position => ?_
  rw [List.getElem?_map, getElem?_columnsOf, getElem?_columnsOf, Option.map_map]
  congr 1
  funext output
  show (OutputColumn.of output.wire (columnValues rows position)).pushNone = _
  rw [OutputColumn.pushNone_of, columnValues, columnValues, map_append]
  rfl

/-- What one push does: a row that does not conform leaves the builder as it was, any other is
appended. -/
theorem push_cases {builder : OutputValuesBuilder F Fingerprint} (h : builder.Represents rows)
    (row : Option (List (Value F))) :
    (∃ error, builder.push row = (.error error, builder) ∧
      ∃ values, row = some values ∧ ¬ ConformOutputs builder.schema.outputs values) ∨
    ∃ builder', builder.push row = (.ok (), builder') ∧ builder'.schema = builder.schema ∧
      builder'.Represents (rows ++ [row]) := by
  cases row with
  | none =>
    refine .inr ⟨_, rfl, rfl, fun values hmem => ?_, ?_, ?_⟩
    · rcases List.mem_append.mp hmem with hmem | hmem
      · exact h.conform values hmem
      · cases List.mem_singleton.mp hmem
    · show builder.present ++ [false] = _
      rw [h.present, map_append]
      rfl
    · show builder.columns.map OutputColumn.pushNone = _
      rw [h.columns, map_pushNone_columnsOf]
  | some values =>
    unfold push
    dsimp only
    split_ifs with hlength
    · refine .inl ⟨_, rfl, values, rfl, fun hconform => hlength hconform.length_eq.symm⟩
    · cases hfound : (builder.schema.outputs.zip values).find? fun entry =>
          !Value.conformsTo entry.1.wire entry.2 with
      | some entry =>
        refine .inl ⟨_, rfl, values, rfl, fun hconform => ?_⟩
        have hmem := List.mem_of_find?_eq_some hfound
        have hrefused := List.find?_some hfound
        rw [List.forall₂_zip hconform hmem] at hrefused
        cases hrefused
      | none =>
        have hconform : ConformOutputs builder.schema.outputs values := by
          refine List.forall₂_iff_zip.mpr ⟨(not_not.mp hlength).symm, fun {output value} hmem => ?_⟩
          have haccepted := List.find?_eq_none.mp hfound _ hmem
          rwa [Bool.not_eq_true', Bool.not_eq_false] at haccepted
        refine .inr ⟨_, rfl, rfl, fun found hmem => ?_, ?_, ?_⟩
        · rcases List.mem_append.mp hmem with hmem | hmem
          · exact h.conform found hmem
          · cases List.mem_singleton.mp hmem
            exact hconform
        · show builder.present ++ [true] = _
          rw [h.present, map_append]
          rfl
        · show pushValues builder.columns builder.schema.outputs values = _
          rw [h.columns, pushValues_columnsOf rows hconform]

end OutputValuesBuilder

/-! ## Accepted outcomes -/

def RowOutcome.values? {α : Type} : RowOutcome α → Option α
  | success values => some values
  | failure _ => none

def RowOutcome.failure? {α : Type} : RowOutcome α → Option RowFailure
  | success _ => none
  | failure reason => some reason

namespace ResultBatchBuilder

/-- The builder holds the outcomes. -/
structure Represents (builder : ResultBatchBuilder F Fingerprint)
    (accepted : List (RowOutcome (List (Value F)))) : Prop where
  values : builder.values.Represents (accepted.map RowOutcome.values?)
  failures : builder.failures = accepted.map RowOutcome.failure?

/-- Successes and failures are pushed alike. -/
theorem push_eq (builder : ResultBatchBuilder F Fingerprint)
    (outcome : RowOutcome (List (Value F))) :
    builder.push outcome =
      match builder.values.push outcome.values? with
      | (.error error, values) => (.error error, { builder with values })
      | (.ok _, values) => (.ok (), ⟨values, builder.failures ++ [outcome.failure?]⟩) := by
  cases outcome <;> rfl

/-- What one push does: a rejected outcome leaves the builder as it was, any other is appended. -/
theorem push_cases {builder : ResultBatchBuilder F Fingerprint}
    {accepted : List (RowOutcome (List (Value F)))} (h : builder.Represents accepted)
    (outcome : RowOutcome (List (Value F))) :
    (∃ error, builder.push outcome = (.error error, builder)) ∨
    ∃ builder', builder.push outcome = (.ok (), builder') ∧
      builder'.values.schema = builder.values.schema ∧
      builder'.Represents (accepted ++ [outcome]) := by
  have happend : ∀ (values : OutputValuesBuilder F Fingerprint),
      values.Represents (accepted.map RowOutcome.values? ++ [outcome.values?]) →
      (⟨values, builder.failures ++ [outcome.failure?]⟩ :
        ResultBatchBuilder F Fingerprint).Represents (accepted ++ [outcome]) := by
    intro values hvalues
    refine ⟨?_, ?_⟩
    · rwa [map_append]
    · show builder.failures ++ _ = _
      rw [h.failures, map_append]
      rfl
  rw [push_eq]
  rcases OutputValuesBuilder.push_cases h.values outcome.values? with
    ⟨error, hpush, -⟩ | ⟨values, hpush, hschema, hvalues⟩
  · rw [hpush]
    exact .inl ⟨error, rfl⟩
  · rw [hpush]
    exact .inr ⟨_, rfl, hschema, happend values hvalues⟩

/-- After any pushes the builder holds those of their outcomes that it accepted. -/
theorem exists_accepted (schema : SessionSchema F Fingerprint)
    (outcomes : List (RowOutcome (List (Value F)))) :
    (run schema outcomes).values.schema = schema ∧
      ∃ accepted, (run schema outcomes).Represents accepted := by
  induction outcomes using List.reverseRecOn with
  | nil => exact ⟨rfl, [], OutputValuesBuilder.represents_new schema, rfl⟩
  | append_singleton outcomes outcome ih =>
    obtain ⟨hschema, accepted, haccepted⟩ := ih
    have hrun : run schema (outcomes ++ [outcome]) = ((run schema outcomes).push outcome).2 := by
      rw [run, List.foldl_append]
      rfl
    rw [hrun]
    rcases push_cases haccepted outcome with ⟨error, hpush⟩ | ⟨builder, hpush, hsame, happended⟩
    · rw [hpush]
      exact ⟨hschema, accepted, haccepted⟩
    · rw [hpush]
      exact ⟨hsame.trans hschema, _, happended⟩

/-- Columns, presence and failures of `rows` rows; each row either failed and has no value in any
column, or has a value of its type in every column. -/
structure Aligned (builder : ResultBatchBuilder F Fingerprint) (rows : ℕ) : Prop where
  present : builder.values.present.length = rows
  failures : builder.failures.length = rows
  columns : List.Forall₂ (fun (_ : SessionOutput F) column => column.len = rows)
    builder.values.schema.outputs builder.values.columns
  row : ∀ row < rows,
    (∃ failure, builder.failures[row]? = some (some failure) ∧
      builder.values.present[row]? = some false ∧
      List.Forall₂ (fun (output : SessionOutput F) column => column.value output.wire row = none)
        builder.values.schema.outputs builder.values.columns) ∨
    (builder.failures[row]? = some none ∧ builder.values.present[row]? = some true ∧
      List.Forall₂ (fun (output : SessionOutput F) column => ∃ value,
          column.value output.wire row = some value ∧ Value.conformsTo output.wire value = true)
        builder.values.schema.outputs builder.values.columns)

theorem forall₂_columnsOf {P : SessionOutput F → OutputColumn F → Prop}
    (h : ∀ (position : ℕ) output, outputs[position]? = some output →
      P output (.of output.wire (columnValues rows position))) :
    List.Forall₂ P outputs (columnsOf outputs rows) := by
  refine List.forall₂_iff_get.mpr ⟨List.length_mapIdx.symm, fun position hlt hlt' => ?_⟩
  have hcolumn := getElem?_columnsOf outputs rows position
  rw [List.getElem?_eq_getElem hlt, List.getElem?_eq_getElem hlt'] at hcolumn
  show P outputs[position] (columnsOf outputs rows)[position]
  rw [Option.some.inj hcolumn]
  exact h position _ (List.getElem?_eq_getElem hlt)

theorem Represents.aligned {builder : ResultBatchBuilder F Fingerprint}
    {accepted : List (RowOutcome (List (Value F)))} (h : builder.Represents accepted) :
    builder.Aligned accepted.length := by
  refine ⟨?_, ?_, ?_, fun row hrow => ?_⟩
  · rw [h.values.present, length_map, length_map]
  · rw [h.failures, length_map]
  · rw [h.values.columns]
    refine forall₂_columnsOf fun position output _ => ?_
    rw [OutputColumn.len_of, columnValues, length_map, length_map]
  · have houtcome := List.getElem?_eq_getElem hrow
    have hvalue : ∀ (position : ℕ) output, builder.values.schema.outputs[position]? = some output →
        (OutputColumn.of output.wire
          (columnValues (accepted.map RowOutcome.values?) position)).value output.wire row =
        accepted[row].values?.bind fun values => values[position]? := by
      intro position output houtput
      rw [OutputColumn.value_of (columnValues_conform h.values.conform houtput), columnValues,
        List.getElem?_map, List.getElem?_map, houtcome]
      rfl
    have hconform := h.values.conform
    rw [h.failures, h.values.present, h.values.columns, List.getElem?_map, List.getElem?_map,
      List.getElem?_map, houtcome]
    cases hfound : accepted[row] with
    | failure failure =>
      refine .inl ⟨failure, rfl, rfl, forall₂_columnsOf fun position output houtput => ?_⟩
      rw [hvalue position output houtput, hfound]
      rfl
    | success values =>
      have hmem : some values ∈ accepted.map RowOutcome.values? :=
        mem_map.mpr ⟨accepted[row], List.getElem_mem hrow, by rw [hfound]; rfl⟩
      refine .inr ⟨rfl, rfl, forall₂_columnsOf fun position output houtput => ?_⟩
      obtain ⟨value, hget, hconforms⟩ := (hconform values hmem).exists_value houtput
      refine ⟨value, ?_, hconforms⟩
      rw [hvalue position output houtput, hfound]
      exact hget

end ResultBatchBuilder

end ProvenGraphcal.Protocol
