import ProvenGraphcal.Protocol.RecordRoundTrip

/-!
# Restoring a session from its record

Which configured sessions the schema of their record restores, and what a schema that is accepted
has in common with the one that the restored session writes.
-/

namespace ProvenGraphcal.Protocol

open Checked (bind_eq_ok mapM_eq_ok)

variable {F Fingerprint : Type} [FiniteF64 F] {formats : MetadataFormats F Fingerprint}

/-! ## Configured sessions are valid -/

/-- A unit does not change which domains a wire can have. -/
theorem domainFits_withUnit {unit : UnitSpelling} {wire wire' : WireType F}
    (h : wire.withUnit unit = some (.ok wire')) (domain : Domain F) :
    domainFits wire' domain = domainFits wire domain := by
  induction wire using WireType.induction generalizing wire' with
  | quantity type =>
    obtain ⟨type', hnew, -⟩ := QuantityType.new_some type.dimension unit
    cases h
    cases domain <;> rfl
  | complex type =>
    obtain ⟨type', hnew, -⟩ := QuantityType.new_some type.dimension unit
    cases h
    cases domain <;> rfl
  | indexed axis element ih =>
    rw [WireType.withUnit, Option.map_eq_some_iff] at h
    obtain ⟨chosen, hchosen, hmap⟩ := h
    cases chosen with
    | error error => cases hmap
    | ok element' =>
      cases hmap
      show domainFits element' domain = domainFits element domain
      exact ih hchosen
  | int => cases h
  | bool => cases h
  | key axis => cases h
  | datetime scale => cases h
  | algebraic name constructors _ => cases h

variable {scale : Option (SiScale F)}

theorem domainFits_convertedDomain {domain domain' : Domain F}
    (h : convertedDomain domain scale = some domain') (wire : WireType F) :
    domainFits wire domain' = domainFits wire domain := by
  unfold convertedDomain at h
  split at h
  · next bounds scale =>
    simp only [Option.bind_eq_bind, Option.bind_eq_some_iff] at h
    obtain ⟨min, -, max, -, h⟩ := h
    split at h
    · cases h
      unfold domainFits
      cases wire.leaf <;> rfl
    · cases h
  · cases h
    rfl

theorem chosenWire_fits {name : PortName} {wire wire' : WireType F} {choice : Option UnitSpelling}
    {resolver : UnitResolver F} (h : chosenWire name wire choice resolver = .ok (wire', scale)) :
    (∀ domain, domainFits wire' domain = domainFits wire domain) ∧
      (scale.isSome = true → wire'.quantity?.isSome = true) := by
  rcases chosenWire_eq_ok h with ⟨rfl, rfl, rfl⟩ | ⟨unit, factor, rfl, hunit, rfl⟩
  · exact ⟨fun domain => rfl, nofun⟩
  · obtain ⟨_, type, heq, hquantity, -⟩ := WireType.withUnit_eq_some hunit
    cases heq
    exact ⟨domainFits_withUnit hunit, fun _ => by rw [hquantity]; rfl⟩

variable {choice : PortName → Option UnitSpelling}

theorem sessionInput_fits {varied fixed : List PortName} {resolver : UnitResolver F}
    {parameter : ParameterDescription F} {input : SessionInput F}
    (h : sessionInput varied fixed choice resolver parameter = .ok (some input)) :
    (∀ domain ∈ input.domain, domainFits input.wire domain = true) ∧
      (input.siScale.isSome = true → input.wire.quantity?.isSome = true) := by
  have hconsistent := parameter.consistent
  rcases sessionInput_ok h with ⟨-, hnone⟩ | ⟨-, _, wire, heq, -, hwire, hchosen, hdomain⟩
  · cases hnone
  · cases heq
    rw [hwire] at hconsistent
    obtain ⟨hfits, hscale⟩ := chosenWire_fits hchosen
    refine ⟨fun found hfound => ?_, hscale⟩
    rw [hfound] at hdomain
    cases hdeclared : parameter.domain with
    | none =>
      rw [hdeclared] at hdomain
      cases hdomain
    | some declared =>
      rw [hdeclared] at hdomain hconsistent
      unfold sessionDomain at hdomain
      dsimp only at hdomain
      cases hconverted : convertedDomain declared input.siScale with
      | none =>
        rw [hconverted] at hdomain
        cases hdomain
      | some converted =>
        rw [hconverted] at hdomain
        cases hdomain
        show domainFits input.wire found = true
        rw [hfits, domainFits_convertedDomain hconverted]
        exact hconsistent

theorem sessionOutput_fits {read : List PortName} {resolver : UnitResolver F}
    {output : OutputDescription F} {found : SessionOutput F}
    (h : sessionOutput read choice resolver output = .ok (some found)) :
    found.siScale.isSome = true → found.wire.quantity?.isSome = true := by
  rcases sessionOutput_ok h with ⟨-, hnone⟩ | ⟨-, _, wire, heq, -, hchosen⟩
  · cases hnone
  · cases heq
    exact (chosenWire_fits hchosen).2

section Configured

variable {fingerprintOf : ModelInterface F → Fingerprint} {interface : ModelInterface F}
  {resolver : UnitResolver F} {spec : SessionSpec} {session : SessionSchema F Fingerprint}

theorem valid_of_configure (h : interface.configure fingerprintOf spec resolver = .ok session) :
    session.Valid := by
  obtain ⟨hselects, -, -, fixed, inputs, outputs, -, hin, hout, hins, houts⟩ := configure_parts h
  obtain ⟨hnames, hnames'⟩ := names_of_configure h
  have hfits := forall_mem_reduceOption_of_forall₂ (P := fun input : SessionInput F =>
    (∀ domain ∈ input.domain, domainFits input.wire domain = true) ∧
      (input.siScale.isSome = true → input.wire.quantity?.isSome = true))
    (fun parameter input hok => sessionInput_fits hok) (mapM_eq_ok.mp hin)
  have hfits' := forall_mem_reduceOption_of_forall₂ (P := fun output : SessionOutput F =>
    output.siScale.isSome = true → output.wire.quantity?.isSome = true)
    (fun described output hok => sessionOutput_fits hok) (mapM_eq_ok.mp hout)
  rw [← hins] at hfits
  rw [← houts] at hfits'
  refine ⟨fun hnil => ?_, fun hnil => ?_, ?_, ?_, fun input hmem => (hfits input hmem).1,
    fun input hmem => (hfits input hmem).2, hfits'⟩
  · obtain ⟨name, hname⟩ := List.exists_mem_of_ne_nil _ hselects.inputs_ne
    have hmem : name ∈ session.inputs.map SessionInput.name := by
      rw [hnames, List.mem_filter, decide_eq_true_eq]
      exact ⟨hselects.inputs_known name hname, hname⟩
    rw [hnil] at hmem
    cases hmem
  · obtain ⟨name, hname⟩ := List.exists_mem_of_ne_nil _ hselects.outputs_ne
    have hmem : name ∈ session.outputs.map SessionOutput.name := by
      rw [hnames', List.mem_filter, decide_eq_true_eq]
      exact ⟨hselects.outputs_known name hname, hname⟩
    rw [hnil] at hmem
    cases hmem
  · rw [hnames]
    exact interface.distinctParameters.filter _
  · rw [hnames']
    exact interface.distinctOutputs.filter _

end Configured

/-! ## Records and what an application adds to them -/

@[simp] theorem get?_metadataOf (text : String) :
    (metadataOf text).get? metadataKey = some text := by
  rw [metadataOf, SortedMap.get?_insert, if_pos rfl]

variable {fields : List (Field DataType)}

theorem matchFields_self {parent : String} :
    matchFields formats.toSchemaFormats parent fields fields = .ok () ↔
      ∀ field ∈ fields,
        metadataMatches formats.toSchemaFormats field.metadata field.metadata = true ∧
          matchType formats.toSchemaFormats (fieldPath parent field.name) field.dataType
            field.dataType = .ok () := by
  induction fields with
  | nil => exact iff_of_true rfl fun field hmem => (nomatch hmem)
  | cons field rest ih =>
    rw [matchFields_cons, List.forall_mem_cons, ih]
    exact ⟨fun ⟨_, _, hmetadata, htype, hrest⟩ => ⟨⟨hmetadata, htype⟩, hrest⟩,
      fun ⟨⟨hmetadata, htype⟩, hrest⟩ => ⟨rfl, rfl, hmetadata, htype, hrest⟩⟩

theorem matchType_struct_self {path : String} :
    matchType formats.toSchemaFormats path (.struct fields) (.struct fields) = .ok () ↔
      matchFields formats.toSchemaFormats path fields fields = .ok () := by
  constructor
  · intro h
    obtain ⟨_, -, h⟩ := bind_eq_ok.mp h
    exact h
  · exact fun h => bind_eq_ok.mpr ⟨(), matchCount_eq_ok.mpr rfl, h⟩

/-- The metadata of all the fields that a session writes. -/
def SessionSchema.fieldMetadata (session : SessionSchema F Fingerprint) : List (FieldMetadata F) :=
  .inputs :: .outputs :: ((session.inputs.map fun input => .input input.wire input.domain) ++
    session.outputs.map fun output => .output output.wire)

theorem forall_mem_fieldMetadata {session : SessionSchema F Fingerprint}
    {P : FieldMetadata F → Prop} :
    (∀ metadata ∈ session.fieldMetadata, P metadata) ↔
      P .inputs ∧ P .outputs ∧ (∀ input ∈ session.inputs, P (.input input.wire input.domain)) ∧
        ∀ output ∈ session.outputs, P (.output output.wire) := by
  rw [SessionSchema.fieldMetadata, List.forall_mem_cons, List.forall_mem_cons,
    List.forall_mem_append, List.forall_mem_map, List.forall_mem_map]

/-- The fields that a session writes match themselves if their metadata are JSON. -/
theorem fieldsMatch_self {session : SessionSchema F Fingerprint} :
    fieldsMatch formats.toSchemaFormats ""
        [recordInputsField formats session, recordOutputsField formats session]
        [recordInputsField formats session, recordOutputsField formats session] = .ok () ↔
      ∀ metadata ∈ session.fieldMetadata,
        (formats.readValue (formats.writeField metadata)).isSome = true := by
  have hself : ∀ text, metadataMatches formats.toSchemaFormats (metadataOf text) (metadataOf text) =
      true ↔ (formats.readValue text).isSome = true := by
    intro text
    rw [metadataMatches_self, get?_metadataOf]
    simp only [Option.mem_def, Option.some.injEq, forall_eq']
  have hcount : fieldsMatch formats.toSchemaFormats ""
      [recordInputsField formats session, recordOutputsField formats session]
      [recordInputsField formats session, recordOutputsField formats session] =
      matchFields formats.toSchemaFormats ""
        [recordInputsField formats session, recordOutputsField formats session]
        [recordInputsField formats session, recordOutputsField formats session] := rfl
  rw [hcount, matchFields_self, forall_mem_fieldMetadata, List.forall_mem_cons,
    List.forall_mem_singleton]
  simp only [recordInputsField, recordOutputsField, hself, matchType_struct_self, matchFields_self,
    List.forall_mem_map, inputField, outputField, matchType_self (plain_dataType _), and_true]
  tauto

/-- The metadata of a session's record read back as they were written. -/
structure ReadsBack (formats : MetadataFormats F Fingerprint)
    (session : SessionSchema F Fingerprint) : Prop where
  schema : formats.readSchema (formats.writeSchema (session.schemaMetadata .record)) =
    some (session.schemaMetadata .record)
  fields : ∀ metadata ∈ session.fieldMetadata,
    formats.readField (formats.writeField metadata) = some metadata ∧
      (formats.readValue (formats.writeField metadata)).isSome = true

/-- The schema of a record of `session`: its two structs, among any fields of the application and
in any order. -/
structure IsRecord (formats : MetadataFormats F Fingerprint) (session : SessionSchema F Fingerprint)
    (schema : Schema) : Prop where
  fields : (schema.fields.filter tagged).Perm
    [recordInputsField formats session, recordOutputsField formats session]
  metadata : schema.metadata.get? metadataKey =
    some (formats.writeSchema (session.schemaMetadata .record))

theorem role_metadataOf {name text : String} {type : DataType} {nullable : Bool} :
    role formats ⟨name, type, nullable, metadataOf text⟩ = formats.readField text := by
  show ((metadataOf text).get? metadataKey).bind formats.readField = _
  rw [get?_metadataOf]
  rfl

variable {field : Field DataType} {p : FieldMetadata F → Bool}

theorem hasRole_eq_true :
    hasRole formats p field = true ↔ ∃ found, role formats field = some found ∧ p found = true := by
  unfold hasRole
  cases role formats field with
  | none => simp
  | some found => simp

theorem tagged_of_hasRole (h : hasRole formats p field = true) : tagged field = true := by
  obtain ⟨found, hrole, -⟩ := hasRole_eq_true.mp h
  exact tagged_of_role hrole

variable {schema : Schema}

/-- The only field of a record with a role that one of the two structs has. -/
theorem located_of_isRecord {session : SessionSchema F Fingerprint}
    (hrecord : IsRecord formats session schema) {struct : Field DataType}
    (hfilter : [recordInputsField formats session, recordOutputsField formats session].filter
      (hasRole formats p) = [struct]) :
    ∃ position, located (hasRole formats p) 0 schema.fields = [(position, struct)] := by
  have hfields : schema.fields.filter (hasRole formats p) = [struct] := by
    have hperm := hrecord.fields.filter (hasRole formats p)
    rw [hfilter, List.filter_filter] at hperm
    have hsame : schema.fields.filter (fun field => hasRole formats p field && tagged field) =
        schema.fields.filter (hasRole formats p) := by
      refine List.filter_congr fun field _ => ?_
      cases hrole : hasRole formats p field with
      | false => rfl
      | true => rw [tagged_of_hasRole hrole]; rfl
    rw [hsame] at hperm
    exact List.perm_singleton.mp hperm
  rw [← map_snd_located _ 0] at hfields
  obtain ⟨⟨position, field⟩, hlocated, hfield⟩ := List.map_eq_singleton_iff.mp hfields
  have hfield : field = struct := hfield
  exact ⟨position, by rw [hlocated, hfield]⟩

/-- A record of a valid session restores the session if and only if its metadata read back and no
output carries a scale under the name of an input. -/
theorem restores_iff {session : SessionSchema F Fingerprint} (hvalid : session.Valid)
    (hrecord : IsRecord formats session schema) :
    (∃ record, RecordSchema.decode formats schema = .ok record ∧ record.session = session) ↔
      ReadsBack formats session ∧ ¬ session.SharesScale := by
  constructor
  · rintro ⟨record, hdecode, hsession⟩
    obtain ⟨metadata, inputsStruct, outputsStruct, inputs, outputs, h⟩ := decode_eq_ok.mp hdecode
    subst hsession
    have hmetadata : metadata = record.session.schemaMetadata .record := by
      obtain ⟨version, fingerprint, stream, scales⟩ := metadata
      rw [SessionSchema.schemaMetadata, h.scales, h.fingerprint]
      have hstream : stream = .record := h.stream
      have hversion : version = protocolVersion := h.version
      rw [hstream, hversion]
    have hread := h.read
    rw [hrecord.metadata, Option.bind_some, hmetadata] at hread
    have hnames := h.fields_match
    obtain ⟨_, -, hnames⟩ := bind_eq_ok.mp hnames
    obtain ⟨hname, -, -, -, hnames⟩ := matchFields_cons.mp hnames
    obtain ⟨hname', -⟩ := matchFields_cons.mp hnames
    have hmem : ∀ p position struct,
        located (hasRole formats p) 0 schema.fields = [(position, struct)] →
        hasRole formats p struct = true ∧ (struct = recordInputsField formats record.session ∨
          struct = recordOutputsField formats record.session) := by
      intro p position struct hlocated
      obtain ⟨-, hget, hrole⟩ := mem_located.mp (hlocated ▸ List.mem_singleton_self (position, struct))
      have hstruct := hrecord.fields.mem_iff.mp (List.mem_filter.mpr
        ⟨List.mem_of_getElem? hget, tagged_of_hasRole hrole⟩)
      rw [List.mem_pair] at hstruct
      exact ⟨hrole, hstruct⟩
    obtain ⟨hrole, hstruct⟩ := hmem _ _ _ h.inputs_at
    obtain ⟨hrole', hstruct'⟩ := hmem _ _ _ h.outputs_at
    have hinputs : inputsStruct = recordInputsField formats record.session := by
      refine hstruct.resolve_right fun hswapped => ?_
      rw [hswapped] at hname
      have hdistinct : inputsField ≠ outputsField := by decide
      exact hdistinct hname
    have houtputs : outputsStruct = recordOutputsField formats record.session := by
      refine hstruct'.resolve_left fun hswapped => ?_
      rw [hswapped] at hname'
      have hdistinct : outputsField ≠ inputsField := by decide
      exact hdistinct hname'
    subst hinputs houtputs
    have hvalues := fieldsMatch_self.mp h.fields_match
    have hread_inputs := h.inputs_read
    have hread_outputs := h.outputs_read
    rw [← DataType.struct.inj h.inputs_struct, List.forall₂_map_left_iff] at hread_inputs
    rw [← DataType.struct.inj h.outputs_struct, List.forall₂_map_left_iff] at hread_outputs
    rw [List.forall₂_same] at hread_inputs hread_outputs
    refine ⟨⟨hread, fun found hfound => ⟨?_, hvalues found hfound⟩⟩, h.unshared⟩
    revert found
    rw [forall_mem_fieldMetadata]
    refine ⟨?_, ?_, fun input hinput => ?_, fun output houtput => ?_⟩
    · obtain ⟨found, hfound, hinputs⟩ := hasRole_eq_true.mp hrole
      rw [recordInputsField, role_metadataOf] at hfound
      cases found with
      | inputs => exact hfound
      | _ => cases hinputs
    · obtain ⟨found, hfound, houtputs⟩ := hasRole_eq_true.mp hrole'
      rw [recordOutputsField, role_metadataOf] at hfound
      cases found with
      | outputs => exact hfound
      | _ => cases houtputs
    · have hfound := (hread_inputs input hinput).role
      rwa [inputField, role_metadataOf] at hfound
    · have hfound := (hread_outputs output houtput).role
      rwa [outputField, role_metadataOf] at hfound
  · rintro ⟨hback, hshared⟩
    obtain ⟨hinputs, houtputs, hreads, hreads'⟩ := forall_mem_fieldMetadata.mp hback.fields
    have hrole : role formats (recordInputsField formats session) = some .inputs := by
      rw [recordInputsField, role_metadataOf, hinputs.1]
    have hrole' : role formats (recordOutputsField formats session) = some .outputs := by
      rw [recordOutputsField, role_metadataOf, houtputs.1]
    have hins : [recordInputsField formats session, recordOutputsField formats session].filter
        (hasRole formats FieldMetadata.isInputs) = [recordInputsField formats session] := by
      simp [hasRole, hrole, hrole', FieldMetadata.isInputs]
    have houts : [recordInputsField formats session, recordOutputsField formats session].filter
        (hasRole formats FieldMetadata.isOutputs) = [recordOutputsField formats session] := by
      simp [hasRole, hrole, hrole', FieldMetadata.isOutputs]
    obtain ⟨i, hi⟩ := located_of_isRecord hrecord hins
    obtain ⟨o, ho⟩ := located_of_isRecord hrecord houts
    refine ⟨⟨session, i, o⟩, decode_eq_ok.mpr ⟨session.schemaMetadata .record,
      recordInputsField formats session, recordOutputsField formats session,
      session.inputs.map (inputField formats), session.outputs.map (outputField formats), ?_⟩, rfl⟩
    refine ⟨?_, rfl, rfl, fun field hmem htagged => ?_, hi, ho, rfl, rfl, ?_, ?_, hvalid.inputs_ne,
      hvalid.outputs_ne, hvalid.inputs_nodup, hvalid.outputs_nodup, rfl, hshared, rfl,
      fieldsMatch_self.mpr fun metadata hmem => (hback.fields metadata hmem).2⟩
    · rw [hrecord.metadata, Option.bind_some]
      exact hback.schema
    · have hpart := hrecord.fields.mem_iff.mp (List.mem_filter.mpr ⟨hmem, htagged⟩)
      rcases List.mem_pair.mp hpart with rfl | rfl
      · exact .inl (by simp [hasRole, hrole, FieldMetadata.isInputs])
      · exact .inr (by simp [hasRole, hrole', FieldMetadata.isOutputs])
    · rw [List.forall₂_map_left_iff, List.forall₂_same]
      refine fun input hmem => ⟨rfl, ?_, hvalid.domain_fits input hmem, hvalid.input_scale input hmem⟩
      rw [inputField, role_metadataOf]
      exact (hreads input hmem).1
    · rw [List.forall₂_map_left_iff, List.forall₂_same]
      refine fun output hmem => ⟨rfl, ?_, hvalid.output_scale output hmem⟩
      rw [outputField, role_metadataOf]
      exact (hreads' output hmem).1

/-- The one struct with a role is at the one position that has it. -/
theorem role_iff_of_located (found : FieldMetadata F) {p : FieldMetadata F → Bool} {i : ℕ}
    {struct : Field DataType} (hp : ∀ other, p other = true ↔ other = found)
    (hlocated : located (hasRole formats p) 0 schema.fields = [(i, struct)]) :
    schema.fields[i]? = some struct ∧ ∀ j field, schema.fields[j]? = some field →
      (role formats field = some found ↔ j = i) := by
  have hmem : ∀ j field, (j, field) ∈ located (hasRole formats p) 0 schema.fields ↔
      schema.fields[j]? = some field ∧ role formats field = some found := by
    intro j field
    rw [mem_located, hasRole_eq_true]
    simp [hp]
  rw [hlocated] at hmem
  refine ⟨((hmem i struct).mp (List.mem_singleton_self _)).1, fun j field hfield => ?_⟩
  constructor
  · intro hrole
    have hpair := List.mem_singleton.mp ((hmem j field).mpr ⟨hfield, hrole⟩)
    rw [Prod.mk.injEq] at hpair
    exact hpair.1
  · rintro rfl
    obtain ⟨hstruct, hrole⟩ := (hmem j struct).mp (List.mem_singleton_self _)
    rwa [Option.some.inj (hfield.symm.trans hstruct)]

/-- A record restores the configured session that wrote it if and only if its metadata read back and
no output carries a scale under the name of an input; every accepted schema is, up to the
application's fields and the formatting of metadata, one that the restored session writes. -/
theorem record_round_trip (formats : MetadataFormats F Fingerprint) :
    (∀ (fingerprintOf : ModelInterface F → Fingerprint) (interface : ModelInterface F)
      (resolver : UnitResolver F) (spec : SessionSpec) (session : SessionSchema F Fingerprint)
      (schema : Schema), interface.configure fingerprintOf spec resolver = .ok session →
      IsRecord formats session schema →
      ((∃ record, RecordSchema.decode formats schema = .ok record ∧ record.session = session) ↔
        ReadsBack formats session ∧ ¬ session.SharesScale)) ∧
    ∀ (schema : Schema) (record : RecordSchema F Fingerprint),
      RecordSchema.decode formats schema = .ok record →
      ∃ inputsStruct outputsStruct,
        schema.fields[record.inputs]? = some inputsStruct ∧
        schema.fields[record.outputs]? = some outputsStruct ∧
        (∀ i field, schema.fields[i]? = some field →
          (role formats field = some .inputs ↔ i = record.inputs)) ∧
        (∀ i field, schema.fields[i]? = some field →
          (role formats field = some .outputs ↔ i = record.outputs)) ∧
        shapeFields [inputsStruct, outputsStruct] = shapeFields
          [recordInputsField formats record.session, recordOutputsField formats record.session] ∧
        ∃ metadata, (schema.metadata.get? metadataKey).bind formats.readSchema = some metadata ∧
          metadata.siScales = record.session.siScales := by
  refine ⟨fun _ _ _ _ _ _ hconfigure => restores_iff (valid_of_configure hconfigure), ?_⟩
  intro schema record h
  obtain ⟨metadata, inputsStruct, outputsStruct, inputs, outputs, h⟩ := decode_eq_ok.mp h
  obtain ⟨hget, hrole⟩ := role_iff_of_located .inputs
    (fun other => by cases other <;> simp [FieldMetadata.isInputs]) h.inputs_at
  obtain ⟨hget', hrole'⟩ := role_iff_of_located .outputs
    (fun other => by cases other <;> simp [FieldMetadata.isOutputs]) h.outputs_at
  exact ⟨inputsStruct, outputsStruct, hget, hget', hrole, hrole',
    (fieldsMatch_shape h.fields_match).symm, metadata, h.read, h.scales.symm⟩

namespace SharedName

/-- Texts for the metadata of one session, read as what they were written from. -/
def writeField : FieldMetadata ℚ → String
  | .inputs => "\x7b\"role\":\"inputs\"\x7d"
  | .outputs => "\x7b\"role\":\"outputs\"\x7d"
  | .outcome => "\x7b\"role\":\"outcome\"\x7d"
  | .input _ _ => "\x7b\"role\":\"input\"\x7d"
  | .output _ => "\x7b\"role\":\"output\"\x7d"

def writtenFormats (session : SessionSchema ℚ Unit) : MetadataFormats ℚ Unit where
  Value := String
  decEq := inferInstance
  readValue := some
  display _ := "type"
  writeField := writeField
  writeSchema _ := "\x7b\"stream\":\"record\"\x7d"
  readField text := session.fieldMetadata.find? fun metadata => writeField metadata = text
  readSchema _ := some (session.schemaMetadata .record)

def positionInput : SessionInput ℚ :=
  ⟨position, .quantity ⟨length.dimension, some block, fun h => (nomatch h)⟩, none,
    some blockScale⟩

def session : SessionSchema ℚ Unit := ⟨(), [positionInput], [⟨time, .int, none⟩]⟩

def sharedSession : SessionSchema ℚ Unit :=
  ⟨(), [positionInput], [⟨position, positionInput.wire, positionInput.siScale⟩]⟩

/-- The record of a session behind a field of the application. -/
def record (session : SessionSchema ℚ Unit) : Schema :=
  ⟨[.new "row" (.other "UInt64") false, recordInputsField (writtenFormats session) session,
    recordOutputsField (writtenFormats session) session], recordMetadata (writtenFormats session) session⟩

theorem isRecord (session : SessionSchema ℚ Unit) :
    IsRecord (writtenFormats session) session (record session) :=
  ⟨List.Perm.refl _, get?_metadataOf _⟩

theorem readsBack {session : SessionSchema ℚ Unit} {input : SessionInput ℚ}
    {output : SessionOutput ℚ} (hinputs : session.inputs = [input])
    (houtputs : session.outputs = [output]) : ReadsBack (writtenFormats session) session := by
  refine ⟨rfl, forall_mem_fieldMetadata.mpr ⟨⟨rfl, rfl⟩, ⟨?_, rfl⟩, ?_, ?_⟩⟩
  · simp [writtenFormats, SessionSchema.fieldMetadata, writeField]
  · rw [hinputs, List.forall_mem_singleton]
    simp [writtenFormats, SessionSchema.fieldMetadata, writeField, hinputs]
  · rw [houtputs, List.forall_mem_singleton]
    simp [writtenFormats, SessionSchema.fieldMetadata, writeField, hinputs, houtputs]

theorem configure_time : configure (spec [time]) = .ok session := by
  rfl

theorem configure_position : configure (spec [position]) = .ok sharedSession := by
  rfl

end SharedName

open scoped SharedName

theorem record_round_trip_time :
    ∃ record, RecordSchema.decode (SharedName.writtenFormats SharedName.session)
        (SharedName.record SharedName.session) = .ok record ∧
      record.session = SharedName.session := by
  refine ((record_round_trip _).1 _ _ _ _ _ _ SharedName.configure_time
    (SharedName.isRecord _)).mpr ⟨SharedName.readsBack rfl rfl, ?_⟩
  rintro ⟨input, -, output, houtput, -, hsome⟩
  rw [List.mem_singleton.mp houtput] at hsome
  cases hsome

/-- The record of a session that varies and reads `position` in one unit is accepted, and restores
a session that reads it without the unit. -/
theorem decode_shared :
    SharedName.configure (SharedName.spec [SharedName.position]) = .ok SharedName.sharedSession ∧
    IsRecord (SharedName.writtenFormats SharedName.sharedSession) SharedName.sharedSession
      (SharedName.record SharedName.sharedSession) ∧
    ReadsBack (SharedName.writtenFormats SharedName.sharedSession) SharedName.sharedSession ∧
    ∃ record, RecordSchema.decode (SharedName.writtenFormats SharedName.sharedSession)
        (SharedName.record SharedName.sharedSession) = .ok record ∧
      record.session.outputs.map SessionOutput.siScale = [none] ∧
      SharedName.sharedSession.outputs.map SessionOutput.siScale =
        [SharedName.positionInput.siScale] ∧
      record.session ≠ SharedName.sharedSession := by
  refine ⟨SharedName.configure_position, SharedName.isRecord _, SharedName.readsBack rfl rfl, ?_⟩
  obtain ⟨record, hdecode, htest⟩ := Checked.exists_ok_of_any
    (x := RecordSchema.decode (SharedName.writtenFormats SharedName.sharedSession)
      (SharedName.record SharedName.sharedSession))
    (p := fun record => record.session.outputs.map SessionOutput.siScale = [none])
    (by decide +kernel)
  have hnone := of_decide_eq_true htest
  refine ⟨record, hdecode, hnone, rfl, fun hsame => ?_⟩
  rw [hsame] at hnone
  cases hnone

end ProvenGraphcal.Protocol
