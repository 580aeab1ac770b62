import ProvenGraphcal.Protocol.RecordRestoration
import ProvenGraphcal.Protocol.ResultCodec
import ProvenGraphcal.Protocol.ValueCodec

/-!
# Result batches survive the way through Arrow
-/

open ProvenGraphcal.Checked (bind_eq_ok mapError_eq_ok reject_of_not)

namespace ProvenGraphcal.Protocol

open List (cons_ne_nil length_map map_congr_left map_id map_map mem_map)

variable {F : Type} {arrays : ArrowBatches F}

variable {failure : Option RowFailure} {row : ℕ}

/-- The outcome of a row is read back from its parts. -/
theorem failureRow_of {present : List Bool} {status : ℕ → UInt8}
    {subjects messages : List (Option String)} (hpresent : present[row]? = some failure.isNone)
    (hstatus : status row = statusCode failure)
    (hsubject : subjects[row]?.join = failure.bind RowFailure.subject)
    (hmessage : messages[row]?.join = failure.map RowFailure.message) :
    failureRow (F := F) present status subjects messages row = .ok failure := by
  unfold failureRow
  rw [hstatus, hpresent]
  cases failure with
  | none => rfl
  | some failure =>
    have hpart : failurePart (F := F) messages row "message" = .ok failure.message := by
      rw [failurePart, hmessage]
      rfl
    have hsubject : ∀ subject, failure.subject = some subject →
        failurePart (F := F) subjects row "subject" = .ok subject := by
      intro subject hsome
      rw [failurePart, hsubject]
      show okOr failure.subject _ = _
      rw [hsome]
      rfl
    rw [statusCode, RowStatus.tryFrom_code]
    cases failure with
    | assertionFailed assertion message =>
      have hassertion := hsubject assertion rfl
      show (failurePart messages row "message" >>= _) = _
      rw [hpart]
      show (failurePart subjects row "subject" >>= _) = _
      rw [hassertion]
      rfl
    | inputOutOfDomain parameter message =>
      have hparameter := hsubject parameter.text rfl
      show (failurePart messages row "message" >>= _) = _
      rw [hpart]
      show (failurePart subjects row "subject" >>= _) = _
      rw [hparameter]
      show ((Label.new .portName parameter.text).mapError _ >>= _) = _
      rw [Label.new_text]
      rfl
    | evaluationError message =>
      show (failurePart messages row "message" >>= _) = _
      rw [hpart]
      rfl

/-- The struct of the outcomes, and what is read from its columns. -/
theorem outcomeArray_of (documented : arrays.Documented) (failures : List (Option RowFailure)) :
    ∃ array columns status, outcomeArray arrays failures = .ok array ∧
      arrays.Made array (.struct outcomeFields) (List.replicate failures.length true) ∧
      arrays.asStructArray array = some columns ∧
      outcomeColumns arrays columns = .ok (status,
        failures.map (fun failure => failure.bind RowFailure.subject),
        failures.map (fun failure => failure.map RowFailure.message)) ∧
      ∀ (row : ℕ) failure, failures[row]? = some failure → status row = statusCode failure := by
  have hstatuses := documented.uint8.made (failures.map fun failure => some (statusCode failure))
  have hsubjects := documented.string.made
    (failures.map fun failure => failure.bind RowFailure.subject)
  have hmessages := documented.string.made
    (failures.map fun failure => failure.map RowFailure.message)
  have hfit : arrays.Fit outcomeFields
      [arrays.uint8Array.collect (failures.map fun failure => some (statusCode failure)),
        arrays.stringArray.collect (failures.map fun failure => failure.bind RowFailure.subject),
        arrays.stringArray.collect (failures.map fun failure => failure.map RowFailure.message)]
      failures.length := by
    refine .cons ⟨hstatuses.dataType, ?_, fun _ => ?_⟩ (.cons ⟨hsubjects.dataType, ?_, nofun⟩
      (.cons ⟨hmessages.dataType, ?_, nofun⟩ .nil))
    · rw [hstatuses.len_eq, length_map, length_map]
    · rw [hstatuses.logicalNullCount, List.count_eq_zero]
      intro hmem
      rw [map_map] at hmem
      obtain ⟨failure, -, hfalse⟩ := mem_map.mp hmem
      cases hfalse
    · rw [hsubjects.len_eq, length_map, length_map]
    · rw [hmessages.len_eq, length_map, length_map]
  obtain ⟨array, hnew, hmade, hback⟩ := documented.structOf (cons_ne_nil _ _) hfit
  refine ⟨array, _, arrays.uint8Value (arrays.uint8Array.collect
    (failures.map fun failure => some (statusCode failure))), hnew, hmade, hback, ?_,
    fun row failure hrow => ?_⟩
  · refine bind_eq_ok.mpr ⟨_, okOr_eq_ok.mpr (documented.uint8.collect _), ?_⟩
    refine bind_eq_ok.mpr ⟨_, okOr_eq_ok.mpr (documented.string.collect _), ?_⟩
    exact bind_eq_ok.mpr ⟨_, okOr_eq_ok.mpr (documented.string.collect _), rfl⟩
  · refine documented.uint8Value _ _ (documented.uint8.collect _) row _ ?_
    rw [List.getElem?_map, hrow]
    rfl

/-! ## Columns -/

variable {values : List (Option (Value F))} {α : Type}

/-- Rows of values of one shape are made of their contents. -/
theorem exists_map_option {make : α → Value F}
    (h : ∀ value, some value ∈ values → ∃ a, make a = value) :
    ∃ found : List (Option α), found.map (Option.map make) = values := by
  refine Rows.exists_map_of_forall fun value hmem => ?_
  cases value with
  | none => exact ⟨none, rfl⟩
  | some value =>
    obtain ⟨a, ha⟩ := h value hmem
    exact ⟨some a, congrArg some ha⟩

theorem map_bind_map (make : α → Value F) (content : Value F → Option α)
    (h : ∀ a, content (make a) = some a) (found : List (Option α)) :
    ((found.map (Option.map make)).map fun value => value.bind content) = found := by
  rw [map_map]
  refine (map_congr_left fun value _ => ?_).trans (map_id found)
  cases value with
  | none => rfl
  | some a => exact h a

theorem map_isSome_map {β : Type} (make : α → β) (found : List (Option α)) :
    (found.map (Option.map make)).map Option.isSome = found.map Option.isSome := by
  rw [map_map]
  exact map_congr_left fun value _ => Option.isSome_map

variable {Fingerprint : Type} [FiniteF64 F]

/-- The array holds the values of the output row by row. -/
structure HoldsOutput (arrays : ArrowBatches F) (output : SessionOutput F)
    (values : List (Option (Value F))) (array : arrays.ArrayRef) : Prop where
  made : arrays.Made array (dataType output.wire) (values.map Option.isSome)
  decode : decodeOutput arrays output.name output.wire array = .ok values

theorem holdsOutput_collect {β : Type} {kind : RowArray arrays.ArrayRef α}
    (output : SessionOutput F) (hkind : arrays.RowsDocumented kind (dataType output.wire))
    (make : β → Value F) (scalar : β → α) (found : List (Option β))
    (hdecode : decodeOutput arrays output.name output.wire
      (kind.collect (found.map (Option.map scalar))) = .ok (found.map (Option.map make))) :
    HoldsOutput arrays output (found.map (Option.map make))
      (kind.collect (found.map (Option.map scalar))) := by
  refine ⟨?_, hdecode⟩
  have hmade := hkind.made (found.map (Option.map scalar))
  rwa [map_isSome_map] at hmade ⊢

section

variable (documented : arrays.Documented)

include documented

/-- A column of values with placeholders in its empty rows. -/
theorem encode_withPlaceholders {wire : WireType F} (hwire : wire.Valid)
    (h : ∀ value, some value ∈ values → Value.conformsTo wire value = true) :
    ∃ array, encode arrays.toArrowArrays wire (withPlaceholders wire values).1
        (some (withPlaceholders wire values).2) = .ok array ∧
      arrays.Made array (dataType wire) (values.map Option.isSome) ∧
      decode arrays.toArrowArrays wire array = .ok values := by
  have hconforms : ∀ value ∈ (withPlaceholders wire values).1,
      Value.conformsTo wire value = true := by
    intro value hmem
    obtain ⟨row, hrow, rfl⟩ := mem_map.mp hmem
    cases row with
    | none => exact conformsTo_placeholder hwire
    | some value => exact h value hrow
  have hlength : ∀ rows ∈ some (withPlaceholders wire values).2,
      rows.length = (withPlaceholders wire values).1.length := by
    intro rows hrows
    cases hrows
    rw [withPlaceholders, length_map, length_map]
  obtain ⟨array, hnew, hmade, hdecode⟩ :=
    encodable documented.toDocumented hwire _ _ hconforms hlength
  refine ⟨array, hnew, hmade, hdecode.trans (congrArg Except.ok (List.ext_getElem? fun row => ?_))⟩
  rw [getElem?_masked, withPlaceholders, List.getElem?_map]
  cases hrow : values[row]? with
  | none => rfl
  | some value =>
    have hvalid : rowValid (some (values.map Option.isSome)) row = value.isSome := by
      rw [rowValid, List.getD_eq_getElem?_getD, List.getElem?_map, hrow]
      rfl
    show some (if rowValid (some (values.map Option.isSome)) row = true then _ else _) = _
    rw [hvalid]
    cases value <;> rfl

theorem encodeColumn_key (axis : Axis F) {name : PortName} {siScale : Option (SiScale F)}
    (h : ∀ value, some value ∈ values → Value.conformsTo (.key axis) value = true) :
    ∃ array, encodeColumn arrays ⟨name, .key axis, siScale⟩ (.of (.key axis) values) = .ok array ∧
      HoldsOutput arrays ⟨name, .key axis, siScale⟩ values array := by
  have hvalue : ∀ value, some value ∈ values → ∃ key position, Value.key key = value ∧
      axis.position key = some position ∧ axis.key position = some key := by
    intro value hmem
    obtain ⟨key, hkey, hsome⟩ := conformsTo_key.mp (h value hmem)
    obtain ⟨position, hposition⟩ := Option.isSome_iff_exists.mp hsome
    exact ⟨key, position, hkey, hposition, Axis.key_of_position hposition⟩
  have hpositions : ∀ position,
      some position ∈ values.map (fun value => value.bind (Value.position? axis)) →
      ∃ key, axis.key position = some key ∧ axis.position key = some position := by
    intro position hmem
    obtain ⟨value, hrow, hposition⟩ := mem_map.mp hmem
    obtain ⟨value, rfl, hposition⟩ := Option.bind_eq_some_iff.mp hposition
    obtain ⟨key, found, rfl, hfound, hback⟩ := hvalue value hrow
    cases Option.some.inj (hfound.symm.trans hposition)
    exact ⟨key, hback, hfound⟩
  obtain ⟨array, hnew, hmade, hdecode⟩ := keyArray_of_positions documented.toDocumented hpositions
  refine ⟨array, hnew, ?_, mapError_eq_ok.mpr ?_⟩
  · rw [map_map] at hmade
    have hsame : values.map (Option.isSome ∘ fun value => value.bind (Value.position? axis)) =
        values.map Option.isSome := by
      refine map_congr_left fun value hmem => ?_
      cases value with
      | none => rfl
      | some value =>
        obtain ⟨key, position, rfl, hposition, -⟩ := hvalue value hmem
        show (axis.position key).isSome = true
        rw [hposition]
        rfl
    rwa [hsame] at hmade
  · rw [decode, hdecode]
    refine congrArg Except.ok ?_
    rw [map_map]
    refine (map_congr_left fun value hmem => ?_).trans (map_id values)
    cases value with
    | none => rfl
    | some value =>
      obtain ⟨key, position, rfl, hposition, hback⟩ := hvalue value hmem
      show ((axis.position key).bind axis.key).map Value.key = some (Value.key key)
      rw [hposition]
      show (axis.key position).map Value.key = _
      rw [hback]
      rfl

/-- A column of conforming values is encoded to an array that holds them. -/
theorem encodeColumn_of {output : SessionOutput F} (hwire : output.wire.Valid)
    (h : ∀ value, some value ∈ values → Value.conformsTo output.wire value = true) :
    ∃ array, encodeColumn arrays output (.of output.wire values) = .ok array ∧
      HoldsOutput arrays output values array := by
  obtain ⟨name, wire, siScale⟩ := output
  cases wire with
  | quantity type =>
    obtain ⟨found, rfl⟩ := exists_map_option fun value hmem => conformsTo_quantity.mp (h value hmem)
    have hcolumn := map_bind_map Value.quantity Value.number?
      (fun _ => rfl) found
    refine ⟨_, congrArg (encodeColumn arrays _) (congrArg OutputColumn.quantity hcolumn),
      holdsOutput_collect _ documented.float64 _ F64.finite found ?_⟩
    show (okOr (arrays.float64Array.downcast _) _ >>= _) = _
    rw [documented.float64.collect]
    refine Rows.collectRows_map fun value _ row => ?_
    cases value <;> rfl
  | int =>
    obtain ⟨found, rfl⟩ := exists_map_option fun value hmem => conformsTo_int.mp (h value hmem)
    have hcolumn := map_bind_map (Value.int : Int64 → Value F) Value.int?
      (fun _ => rfl) found
    have harray := holdsOutput_collect ⟨name, .int, siScale⟩ documented.int64 Value.int id found
    rw [Option.map_id, map_id] at harray
    refine ⟨_, congrArg (encodeColumn arrays _) (congrArg OutputColumn.int hcolumn), harray ?_⟩
    show (okOr (arrays.int64Array.downcast _) _ >>= _) = _
    rw [documented.int64.collect]
    rfl
  | bool =>
    obtain ⟨found, rfl⟩ := exists_map_option fun value hmem => conformsTo_bool.mp (h value hmem)
    have hcolumn := map_bind_map (Value.bool : Bool → Value F) Value.bool?
      (fun _ => rfl) found
    have harray := holdsOutput_collect ⟨name, .bool, siScale⟩ documented.boolean Value.bool id found
    rw [Option.map_id, map_id] at harray
    refine ⟨_, congrArg (encodeColumn arrays _) (congrArg OutputColumn.bool hcolumn), harray ?_⟩
    show (okOr (arrays.booleanArray.downcast _) _ >>= _) = _
    rw [documented.boolean.collect]
    rfl
  | datetime scale =>
    obtain ⟨found, rfl⟩ := exists_map_option fun value hmem => conformsTo_datetime.mp (h value hmem)
    have hcolumn := map_bind_map Value.datetime Value.number?
      (fun _ => rfl) found
    refine ⟨_, congrArg (encodeColumn arrays _) (congrArg OutputColumn.datetime hcolumn),
      holdsOutput_collect _ documented.float64 _ F64.finite found ?_⟩
    show (decodeNumbers arrays.toArrowArrays Value.datetime _).mapError _ = _
    unfold decodeNumbers
    rw [documented.float64.collect]
    refine mapError_eq_ok.mpr (Rows.collectRows_map fun value _ row => ?_)
    cases value <;> rfl
  | key axis => exact encodeColumn_key documented axis h
  | complex type =>
    obtain ⟨array, hnew, hmade, hdecode⟩ := encode_withPlaceholders documented hwire h
    obtain ⟨found, rfl⟩ := exists_map_option fun value hmem => conformsTo_complex.mp (h value hmem)
    have hcolumn := map_bind_map (fun parts : F × F => Value.complex parts.1 parts.2)
      Value.complex? (fun _ => rfl) found
    refine ⟨array, ?_, hmade, mapError_eq_ok.mpr hdecode⟩
    exact (congrArg (encodeColumn arrays _) (congrArg OutputColumn.complex hcolumn)).trans hnew
  | indexed axis element =>
    obtain ⟨array, hnew, hmade, hdecode⟩ := encode_withPlaceholders documented hwire h
    exact ⟨array, hnew, hmade, mapError_eq_ok.mpr hdecode⟩
  | algebraic type constructors =>
    obtain ⟨array, hnew, hmade, hdecode⟩ := encode_withPlaceholders documented hwire h
    exact ⟨array, hnew, hmade, mapError_eq_ok.mpr hdecode⟩

end

/-! ## Rows -/

/-- The values of the rows, output by output. -/
def decodedColumns (outputs : List (SessionOutput F)) (rows : List (Option (List (Value F)))) :
    List (List (Option (Value F))) :=
  outputs.mapIdx fun position _ => columnValues rows position

theorem getElem?_decodedColumns (outputs : List (SessionOutput F))
    (rows : List (Option (List (Value F)))) (position : ℕ) :
    (decodedColumns outputs rows)[position]? =
      outputs[position]?.map fun _ => columnValues rows position :=
  List.getElem?_mapIdx

variable {rows : List (Option (List (Value F)))}

/-- A row is read back from the columns. -/
theorem outputRow_decodedColumns {outputs : List (SessionOutput F)} (hne : outputs ≠ [])
    {found : Option (List (Value F))} (hrow : rows[row]? = some found)
    (h : ∀ values, found = some values → ConformOutputs outputs values) :
    outputRow outputs (decodedColumns outputs rows) row = .ok found := by
  have hcolumn : ∀ position : ℕ, (columnValues rows position)[row]?.join =
      found.bind fun values => values[position]? := by
    intro position
    rw [columnValues, List.getElem?_map, hrow]
    rfl
  have hentry : ∀ entry ∈ outputs.zip (decodedColumns outputs rows), ∃ position : ℕ,
      outputs[position]? = some entry.1 ∧
        entry.2[row]?.join = found.bind fun values => values[position]? := by
    intro entry hmem
    obtain ⟨position, hposition⟩ := List.mem_iff_getElem?.mp hmem
    obtain ⟨houtput, hvalues⟩ := List.getElem?_zip_eq_some.mp hposition
    rw [getElem?_decodedColumns, houtput] at hvalues
    refine ⟨position, houtput, ?_⟩
    rw [← Option.some.inj hvalues]
    exact hcolumn position
  unfold outputRow
  cases found with
  | none =>
    have hpresent : ((outputs.zip (decodedColumns outputs rows)).find? fun entry =>
        entry.2[row]?.join.isSome) = none := by
      refine List.find?_eq_none.mpr fun entry hmem => ?_
      obtain ⟨position, -, hvalue⟩ := hentry entry hmem
      rw [hvalue]
      exact Bool.false_ne_true
    simp only [hpresent]
  | some values =>
    have hconform := h values rfl
    have hsome : ∀ entry ∈ outputs.zip (decodedColumns outputs rows),
        entry.2[row]?.join.isSome = true := by
      intro entry hmem
      obtain ⟨position, houtput, hvalue⟩ := hentry entry hmem
      obtain ⟨value, hget, -⟩ := hconform.exists_value houtput
      rw [hvalue]
      exact congrArg Option.isSome hget
    have habsent : ((outputs.zip (decodedColumns outputs rows)).find? fun entry =>
        entry.2[row]?.join.isNone) = none := by
      refine List.find?_eq_none.mpr fun entry hmem => ?_
      rw [Option.isNone_eq_false_iff.mpr (hsome entry hmem)]
      exact Bool.false_ne_true
    have hfirst : ((outputs.zip (decodedColumns outputs rows)).find? fun entry =>
        entry.2[row]?.join.isSome).isSome = true := by
      obtain ⟨output, rest, rfl⟩ := List.exists_cons_of_ne_nil hne
      have hmem : (output, columnValues rows 0) ∈
          (output :: rest).zip (decodedColumns (output :: rest) rows) :=
        List.mem_of_getElem? (List.getElem?_zip_eq_some.mpr
          ⟨rfl, getElem?_decodedColumns (output :: rest) rows 0⟩ : _[0]? = _)
      exact List.find?_isSome.mpr ⟨_, hmem, hsome _ hmem⟩
    obtain ⟨first, hfirst⟩ := Option.isSome_iff_exists.mp hfirst
    have hvalues : ((decodedColumns outputs rows).map fun column => column[row]?.join) =
        values.map some := by
      refine List.ext_getElem? fun position => ?_
      rw [List.getElem?_map, getElem?_decodedColumns, List.getElem?_map]
      cases houtput : outputs[position]? with
      | none =>
        have hlength := List.getElem?_eq_none_iff.mp houtput
        rw [hconform.length_eq] at hlength
        rw [List.getElem?_eq_none hlength]
        rfl
      | some found =>
        obtain ⟨value, hget, -⟩ := hconform.exists_value houtput
        rw [hget]
        exact congrArg some ((hcolumn position).trans hget)
    simp only [hfirst, habsent]
    refine congrArg (fun values => Except.ok (some values)) ?_
    have hread : ((decodedColumns outputs rows).map fun column =>
        column[row]?.join).filterMap id = values := by
      rw [hvalues, List.filterMap_map]
      exact List.filterMap_some
    rwa [List.filterMap_map] at hread

variable {builder : OutputValuesBuilder F Fingerprint}

namespace OutputValuesBuilder

/-- The rows and the schema determine the builder. -/
theorem Represents.unique {builder' : OutputValuesBuilder F Fingerprint}
    (h : builder.Represents rows) (h' : builder'.Represents rows)
    (hschema : builder.schema = builder'.schema) :
    builder = builder' := by
  obtain ⟨schema, present, columns⟩ := builder
  obtain ⟨schema', present', columns'⟩ := builder'
  cases hschema
  have hpresent : present = present' := h.present.trans h'.present.symm
  have hcolumns : columns = columns' := h.columns.trans h'.columns.symm
  rw [hpresent, hcolumns]

/-- The rows read back from the columns are pushed one after the other. -/
theorem foldlM_pushDecoded {schema : SessionSchema F Fingerprint} (hne : schema.outputs ≠ [])
    (h : ∀ values, some values ∈ rows → ConformOutputs schema.outputs values) {n : ℕ}
    (hn : n ≤ rows.length) :
    ∃ builder, (List.range n).foldlM (pushDecoded (decodedColumns schema.outputs rows))
        (new schema) = .ok builder ∧
      builder.schema = schema ∧ builder.Represents (rows.take n) := by
  induction n with
  | zero => exact ⟨new schema, rfl, rfl, represents_new schema⟩
  | succ n ih =>
    obtain ⟨builder, hfold, hschema, hrows⟩ := ih (Nat.le_of_succ_le hn)
    have hrow : rows[n]? = some rows[n] := List.getElem?_eq_getElem hn
    have hconform : ∀ values, rows[n] = some values → ConformOutputs schema.outputs values :=
      fun values hvalues => h values (hvalues ▸ List.getElem_mem hn)
    rw [List.range_succ, List.foldlM_append, hfold]
    rcases push_cases hrows rows[n] with
      ⟨error, -, values, hvalues, hno⟩ | ⟨builder', hpush, hsame, hpushed⟩
    · exact absurd (hschema.symm ▸ hconform values hvalues) hno
    · refine ⟨builder', ?_, hsame.trans hschema, ?_⟩
      · show pushDecoded _ builder n >>= pure = _
        rw [bind_pure, pushDecoded, hschema, outputRow_decodedColumns hne hrow hconform]
        simp only [bind, Except.bind]
        rw [hpush]
      · rwa [List.take_add_one, hrow]

end OutputValuesBuilder

/-- The struct of the outputs, with a column for each of them. -/
structure HoldsOutputs (arrays : ArrowBatches F) (outputs : List (SessionOutput F))
    (rows : List (Option (List (Value F)))) (array : arrays.ArrayRef)
    (columns : List arrays.ArrayRef) : Prop where
  valid : arrays.valid array = List.replicate rows.length true
  length : columns.length = outputs.length
  column : ∀ (position : ℕ) output column, outputs[position]? = some output →
    columns[position]? = some column →
      HoldsOutput arrays output (columnValues rows position) column

theorem toStructArray_of (formats : MetadataFormats F Fingerprint) (documented : arrays.Documented)
    (hne : builder.schema.outputs ≠ [])
    (hwires : ∀ output ∈ builder.schema.outputs, output.wire.Valid) (h : builder.Represents rows) :
    ∃ array columns, OutputValues.toStructArray arrays formats
        ⟨builder.schema, builder.present, builder.columns⟩ = .ok array ∧
      arrays.dataType array = .struct (builder.schema.outputs.map (outputField formats)) ∧
      arrays.logicalNullCount array = 0 ∧ arrays.asStructArray array = some columns ∧
      HoldsOutputs arrays builder.schema.outputs rows array columns := by
  obtain ⟨columns, hnew, hlength, hheld⟩ : ∃ columns,
      (builder.schema.outputs.zip builder.columns).mapM
        (fun entry => encodeColumn arrays entry.1 entry.2) = .ok columns ∧
      columns.length = (builder.schema.outputs.zip builder.columns).length ∧
      ∀ (position : ℕ) column, columns[position]? = some column →
        ∀ output, builder.schema.outputs[position]? = some output →
          HoldsOutput arrays output (columnValues rows position) column := by
    refine Rows.exists_mapM fun position entry hentry => ?_
    obtain ⟨houtput, hcolumn⟩ := List.getElem?_zip_eq_some.mp hentry
    rw [h.columns, getElem?_columnsOf, houtput] at hcolumn
    obtain ⟨column, hnew, hholds⟩ := encodeColumn_of documented
      (hwires _ (List.mem_of_getElem? houtput)) (columnValues_conform h.conform houtput)
    rw [← Option.some.inj hcolumn]
    refine ⟨column, hnew, fun output hfound => ?_⟩
    cases Option.some.inj (houtput.symm.trans hfound)
    exact hholds
  have hcount : columns.length = builder.schema.outputs.length := by
    have hbuilt : builder.columns.length = builder.schema.outputs.length := by
      rw [h.columns]
      exact List.length_mapIdx
    rw [hlength, List.length_zip, hbuilt, Nat.min_self]
  have hfit : arrays.Fit (builder.schema.outputs.map (outputField formats)) columns
      rows.length := by
    refine List.forall₂_iff_get.mpr ⟨by rw [length_map, hcount], fun position hlt hlt' => ?_⟩
    have houtput : position < builder.schema.outputs.length := hcount ▸ hlt'
    have hmade := (hheld position _ (List.getElem?_eq_getElem hlt') _
      (List.getElem?_eq_getElem houtput)).made
    have hfield : (builder.schema.outputs.map (outputField formats)).get ⟨position, hlt⟩ =
        outputField formats builder.schema.outputs[position] := List.getElem_map _
    rw [hfield]
    refine ⟨hmade.dataType, ?_, nofun⟩
    refine hmade.len_eq.trans ?_
    rw [columnValues, length_map, length_map]
  have hfields : builder.schema.outputs.map (outputField formats) ≠ [] := fun hnil =>
    hne (List.map_eq_nil_iff.mp hnil)
  obtain ⟨array, hstruct, hmade, hback⟩ := documented.structOf hfields hfit
  refine ⟨array, columns, ?_, hmade.dataType, ?_, hback, hmade.valid, hcount,
    fun position output column houtput hcolumn => hheld position column hcolumn output houtput⟩
  · show ((builder.schema.outputs.zip builder.columns).mapM _ >>= _) = _
    rw [hnew]
    exact hstruct
  · rw [hmade.logicalNullCount]
    exact count_rowMask_none rows.length

/-- The outputs of a builder with rows are read back from a struct that holds them. -/
theorem fromStructArray_of (hne : builder.schema.outputs ≠ []) (h : builder.Represents rows)
    (hrows : rows ≠ []) {array : arrays.ArrayRef} {columns : List arrays.ArrayRef}
    (hholds : HoldsOutputs arrays builder.schema.outputs rows array columns) :
    OutputValues.fromStructArray arrays builder.schema array columns =
      .ok ⟨builder.schema, builder.present, builder.columns⟩ := by
  have hnulls : (arrays.valid array).count false = 0 := by
    rw [hholds.valid]
    exact count_rowMask_none rows.length
  have hlen : arrays.len array = rows.length := by
    rw [ArrowArrays.len, hholds.valid, List.length_replicate]
  have hdecoded : (builder.schema.outputs.zip columns).mapM
      (fun entry => decodeOutput arrays entry.1.name entry.1.wire entry.2) =
        .ok (decodedColumns builder.schema.outputs rows) := by
    refine Rows.mapM_eq_ok_iff.mpr ⟨?_, fun position entry hentry => ?_⟩
    · rw [decodedColumns, List.length_mapIdx, List.length_zip, hholds.length, Nat.min_self]
    · obtain ⟨houtput, hcolumn⟩ := List.getElem?_zip_eq_some.mp hentry
      refine ⟨columnValues rows position, ?_, (hholds.column position _ _ houtput hcolumn).decode⟩
      rw [getElem?_decodedColumns, houtput]
      rfl
  obtain ⟨built, hfold, hschema, hbuilt⟩ :=
    OutputValuesBuilder.foldlM_pushDecoded hne h.conform (le_refl rows.length)
  rw [List.take_length] at hbuilt
  have hsame : built = builder := hbuilt.unique h hschema
  have hpresent : builder.present.isEmpty = false := by
    rw [h.present, List.isEmpty_eq_false_iff]
    exact fun hnil => hrows (List.map_eq_nil_iff.mp hnil)
  rw [hsame] at hfold
  refine bind_eq_ok.mpr ⟨(), reject_of_not (not_not.mpr hholds.length), ?_⟩
  refine bind_eq_ok.mpr ⟨(), reject_of_not (by omega), ?_⟩
  refine bind_eq_ok.mpr ⟨_, hdecoded, ?_⟩
  rw [hlen]
  refine bind_eq_ok.mpr ⟨builder, hfold, ?_⟩
  unfold OutputValuesBuilder.finish
  rw [hpresent]
  rfl

variable {accepted : List (RowOutcome (List (Value F)))}

namespace ResultBatchBuilder

/-- A row has values exactly when it has no failure. -/
theorem Represents.getElem?_present {builder : ResultBatchBuilder F Fingerprint}
    (h : builder.Represents accepted) (hrow : builder.failures[row]? = some failure) :
    builder.values.present[row]? = some failure.isNone := by
  rw [h.failures, List.getElem?_map] at hrow
  obtain ⟨found, hfound, rfl⟩ := Option.map_eq_some_iff.mp hrow
  rw [h.values.present, List.getElem?_map, List.getElem?_map, hfound]
  cases found <;> rfl

theorem Represents.fromParts {builder : ResultBatchBuilder F Fingerprint}
    {accepted : List (RowOutcome (List (Value F)))} (h : builder.Represents accepted) :
    ResultBatch.fromParts ⟨builder.values.schema, builder.values.present, builder.values.columns⟩
      builder.failures = some ⟨⟨builder.values.schema, builder.values.present,
        builder.values.columns⟩, builder.failures⟩ := by
  refine if_pos ⟨?_, ?_⟩
  · show builder.values.present.length = builder.failures.length
    rw [h.values.present, h.failures, length_map, length_map, length_map]
  · rw [List.all_eq_true]
    intro entry hmem
    obtain ⟨row, hrow⟩ := List.mem_iff_getElem?.mp hmem
    obtain ⟨hpresent, hfailure⟩ := List.getElem?_zip_eq_some.mp hrow
    have hsame : entry.1 = entry.2.isNone :=
      Option.some.inj (hpresent.symm.trans (h.getElem?_present hfailure))
    rw [hsame]
    exact beq_self_eq_true _

/-- A batch of the accepted outcomes survives the way through Arrow. -/
theorem Represents.roundTrip (formats : MetadataFormats F Fingerprint)
    (documented : arrays.Documented) {builder : ResultBatchBuilder F Fingerprint}
    (hne : builder.values.schema.outputs ≠ [])
    (hwires : ∀ output ∈ builder.values.schema.outputs, output.wire.Valid)
    (h : builder.Represents accepted) {batch : ResultBatch F Fingerprint}
    (hbatch : builder.finish = .ok batch) :
    ∃ record, batch.toRecordBatch arrays formats = .ok record ∧
      ResultBatch.fromRecordBatch arrays builder.values.schema record = .ok batch := by
  obtain ⟨values, hvalues, hbatch⟩ := bind_eq_ok.mp hbatch
  cases hbatch
  unfold OutputValuesBuilder.finish at hvalues
  split_ifs at hvalues with hempty
  cases hvalues
  have hrows : accepted.map RowOutcome.values? ≠ [] := fun hnil => by
    rw [h.values.present, hnil] at hempty
    exact hempty rfl
  obtain ⟨outputs, columns, hnew, htype, hnull, hback, hholds⟩ :=
    toStructArray_of formats documented hne hwires h.values
  obtain ⟨outcome, parts, status, houtcome, hmade, hparts, hread, hstatus⟩ :=
    outcomeArray_of documented builder.failures
  have hcount : builder.failures.length = (accepted.map RowOutcome.values?).length := by
    rw [h.failures, length_map, length_map]
  have hfit : arrays.Fit (resultSchema formats builder.values.schema).fields [outputs, outcome]
      (accepted.map RowOutcome.values?).length := by
    refine .cons ⟨htype, ?_, fun _ => hnull⟩ (.cons ⟨hmade.dataType, ?_, fun _ => ?_⟩ .nil)
    · rw [ArrowArrays.len, hholds.valid, List.length_replicate]
    · rw [hmade.len_eq, List.length_replicate, hcount]
    · rw [hmade.logicalNullCount]
      exact count_rowMask_none builder.failures.length
  obtain ⟨record, hrecord, hcolumns, hnum⟩ := documented.recordBatch _ _ _ (cons_ne_nil _ _) hfit
  refine ⟨record, bind_eq_ok.mpr ⟨outputs, hnew,
    bind_eq_ok.mpr ⟨outcome, houtcome, hrecord⟩⟩, ?_⟩
  have hstructs : (arrays.columns record).mapM (structColumns arrays) =
      some [(outputs, columns), (outcome, parts)] := by
    rw [hcolumns]
    simp only [List.mapM_cons, List.mapM_nil, structColumns, hback, hparts]
    rfl
  have hfailures : (List.range (arrays.numRows record)).mapM (failureRow builder.values.present status
      (builder.failures.map fun failure => failure.bind RowFailure.subject)
      (builder.failures.map fun failure => failure.map RowFailure.message)) =
        (.ok builder.failures : Except (ResultDecodeError F) _) := by
    refine Rows.range_mapM_ok (hcount.trans hnum.symm) fun row failure hrow => ?_
    refine failureRow_of (h.getElem?_present hrow) (hstatus row failure hrow) ?_ ?_
    · rw [List.getElem?_map, hrow]
      rfl
    · rw [List.getElem?_map, hrow]
      rfl
  refine bind_eq_ok.mpr ⟨_, okOr_eq_ok.mpr hstructs, ?_⟩
  refine bind_eq_ok.mpr ⟨_, hread, ?_⟩
  refine bind_eq_ok.mpr ⟨_, mapError_eq_ok.mpr
    (fromStructArray_of hne h.values hrows hholds), ?_⟩
  exact bind_eq_ok.mpr ⟨_, hfailures, okOr_eq_ok.mpr h.fromParts⟩

end ResultBatchBuilder

/-!
# Batches of row outcomes
-/

open ResultBatchBuilder

/-- After any pushes, some of them rejected: a rejected push changes nothing, columns and failures
are aligned, and the finished batch survives the way through Arrow. -/
theorem result_batches (formats : MetadataFormats F Fingerprint) (documented : arrays.Documented)
    (session : SessionSchema F Fingerprint) (hne : session.outputs ≠ [])
    (hwires : ∀ output ∈ session.outputs, output.wire.Valid)
    (outcomes : List (RowOutcome (List (Value F)))) :
    (∀ outcome error, ((run session outcomes).push outcome).1 = .error error →
      ((run session outcomes).push outcome).2 = run session outcomes) ∧
    (∃ rows, (run session outcomes).Aligned rows) ∧
    ∀ batch, (run session outcomes).finish = .ok batch →
      ∃ record, batch.toRecordBatch arrays formats = .ok record ∧
        ResultBatch.fromRecordBatch arrays session record = .ok batch := by
  obtain ⟨hschema, accepted, haccepted⟩ := exists_accepted session outcomes
  refine ⟨fun outcome error herror => ?_, ⟨_, haccepted.aligned⟩, fun batch hbatch => ?_⟩
  · rcases push_cases haccepted outcome with ⟨error', hpush⟩ | ⟨builder, hpush, -⟩
    · rw [hpush]
    · rw [hpush] at herror
      cases herror
  · have hround := haccepted.roundTrip formats documented (hschema.symm ▸ hne)
      (hschema.symm ▸ hwires) hbatch
    rwa [hschema] at hround

namespace SharedName

/-- A success, a row of another kind, a row that is too long, and a failure of each kind. -/
def outcomes : List (RowOutcome (List (Value ℚ))) :=
  [.success [.int 7], .success [.bool true], .success [.int 1, .int 2],
    .failure (.assertionFailed "limit" "limit exceeded"),
    .failure (.inputOutOfDomain position "above 10 m"), .failure (.evaluationError "boom")]

/-- The outcomes without those that are rejected. -/
def batch : ResultBatch ℚ Unit :=
  ⟨⟨session, [true, false, false, false], [.int [some 7, none, none, none]]⟩,
    [none, some (.assertionFailed "limit" "limit exceeded"),
      some (.inputOutOfDomain position "above 10 m"), some (.evaluationError "boom")]⟩

end SharedName

open scoped SharedName

theorem result_batches_time :
    (ResultBatchBuilder.run SharedName.session SharedName.outcomes).Aligned 4 ∧
    ∃ record, SharedName.batch.toRecordBatch (memoryBatches ℚ)
        (SharedName.writtenFormats SharedName.session) = .ok record ∧
      ResultBatch.fromRecordBatch (memoryBatches ℚ) SharedName.session record =
        .ok SharedName.batch := by
  have hbatches := result_batches (SharedName.writtenFormats SharedName.session)
    (memoryBatches_documented ℚ) SharedName.session (cons_ne_nil _ _)
    (List.forall_mem_singleton.mpr trivial) SharedName.outcomes
  obtain ⟨rows, haligned⟩ := hbatches.2.1
  have hrows : rows = 4 := haligned.failures.symm
  exact ⟨hrows ▸ haligned, hbatches.2.2 SharedName.batch rfl⟩

end ProvenGraphcal.Protocol
