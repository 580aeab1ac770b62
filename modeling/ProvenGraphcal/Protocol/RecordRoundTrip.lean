import ProvenGraphcal.Protocol.RecordSchema
import ProvenGraphcal.Protocol.SessionFixedPoint

/-!
# Sessions and their record schemas
-/

namespace ProvenGraphcal.Protocol

open Checked (bind_eq_ok mapError_eq_ok reject_eq_ok)
open List (forall_mem_cons map_cons mem_cons mem_filter mem_map nodup_cons)

variable {F Fingerprint : Type} [FiniteF64 F] {formats : MetadataFormats F Fingerprint}

def FieldMetadata.isInputs : FieldMetadata F → Bool
  | .inputs => true
  | _ => false

def FieldMetadata.isOutputs : FieldMetadata F → Bool
  | .outputs => true
  | _ => false

/-- The role that a field's metadata reads as. -/
def role (formats : MetadataFormats F Fingerprint) (field : Field DataType) :
    Option (FieldMetadata F) :=
  (field.metadata.get? metadataKey).bind formats.readField

/-- Whether a field is one of the protocol rather than of the application. -/
def tagged (field : Field DataType) : Bool := (field.metadata.get? metadataKey).isSome

def hasRole (formats : MetadataFormats F Fingerprint) (p : FieldMetadata F → Bool)
    (field : Field DataType) : Bool := (role formats field).any p

/-- The fields with the property, each with its position. -/
def located (p : Field DataType → Bool) : ℕ → List (Field DataType) → List (ℕ × Field DataType)
  | _, [] => []
  | position, field :: rest =>
    if p field then (position, field) :: located p (position + 1) rest
    else located p (position + 1) rest

theorem map_snd_located (p : Field DataType → Bool) (position : ℕ) (fields : List (Field DataType)) :
    (located p position fields).map Prod.snd = fields.filter p := by
  induction fields generalizing position with
  | nil => rfl
  | cons field rest ih =>
    rw [located]
    by_cases h : p field = true
    · rw [if_pos h, map_cons, ih, List.filter_cons_of_pos h]
    · rw [if_neg h, ih, List.filter_cons_of_neg h]

variable {field : Field DataType} {fields : List (Field DataType)} {position : ℕ}

theorem mem_located {p : Field DataType → Bool} {i : ℕ} :
    (i, field) ∈ located p position fields ↔
      position ≤ i ∧ fields[i - position]? = some field ∧ p field = true := by
  induction fields generalizing position with
  | nil => simp [located]
  | cons first rest ih =>
    have hrest : (i, field) ∈ located p (position + 1) rest ↔
        position < i ∧ (first :: rest)[i - position]? = some field ∧ p field = true := by
      rw [ih]
      by_cases hlt : position < i
      · have hsub : i - position = i - (position + 1) + 1 := by omega
        rw [hsub, List.getElem?_cons_succ]
        exact and_congr_left fun _ => iff_of_true hlt hlt
      · exact iff_of_false (fun h => hlt h.1) fun h => hlt h.1
    have hhere : (i, field) = (position, first) ↔
        i = position ∧ (first :: rest)[i - position]? = some field := by
      rw [Prod.mk.injEq]
      refine and_congr_right fun hi => ?_
      rw [hi, Nat.sub_self, List.getElem?_cons_zero, Option.some.injEq]
      exact eq_comm
    rw [located]
    by_cases h : p first = true
    · rw [if_pos h, mem_cons, hrest, hhere]
      constructor
      · rintro (⟨rfl, hfield⟩ | ⟨hlt, hfield, hp⟩)
        · refine ⟨le_rfl, hfield, ?_⟩
          rw [Nat.sub_self, List.getElem?_cons_zero, Option.some.injEq] at hfield
          exact hfield ▸ h
        · exact ⟨hlt.le, hfield, hp⟩
      · rintro ⟨hle, hfield, hp⟩
        rcases eq_or_lt_of_le hle with heq | hlt
        · exact .inl ⟨heq.symm, hfield⟩
        · exact .inr ⟨hlt, hfield, hp⟩
    · rw [if_neg h, hrest]
      refine ⟨fun ⟨hlt, hrest⟩ => ⟨hlt.le, hrest⟩, fun ⟨hle, hfield, hp⟩ => ?_⟩
      refine ⟨lt_of_le_of_ne hle fun heq => ?_, hfield, hp⟩
      rw [← heq, Nat.sub_self, List.getElem?_cons_zero, Option.some.injEq] at hfield
      exact h (hfield ▸ hp)

theorem fieldRole_eq (field : Field DataType) :
    fieldRole formats field =
      match role formats field with
      | some found => .ok (some found)
      | none => if tagged field = true then .error (.fieldMetadata field.name) else .ok none := by
  unfold fieldRole tagged role
  cases field.metadata.get? metadataKey with
  | none => rfl
  | some text =>
    rw [Option.bind_some]
    dsimp only
    cases formats.readField text <;> rfl

variable {found : FieldMetadata F}

theorem tagged_of_role (h : role formats field = some found) : tagged field = true := by
  obtain ⟨text, htext, -⟩ := Option.bind_eq_some_iff.mp h
  rw [tagged, htext]
  rfl

/-- The loop passes over the fields of the application and collects the two kinds of structs. -/
theorem partsFrom_eq_ok {inputs outputs inputs' outputs' : List (ℕ × Field DataType)} :
    partsFrom formats inputs outputs position fields = .ok (inputs', outputs') ↔
      (∀ field ∈ fields, tagged field = true →
        hasRole formats FieldMetadata.isInputs field = true ∨ hasRole formats FieldMetadata.isOutputs field = true) ∧
      inputs' = inputs ++ located (hasRole formats FieldMetadata.isInputs) position fields ∧
      outputs' = outputs ++ located (hasRole formats FieldMetadata.isOutputs) position fields := by
  induction fields generalizing inputs outputs position with
  | nil =>
    rw [partsFrom, located, located, List.append_nil, List.append_nil, Except.ok.injEq,
      Prod.mk.injEq]
    refine ⟨fun h => ⟨fun field hmem => (nomatch hmem), h.1.symm, h.2.symm⟩,
      fun h => ⟨h.2.1.symm, h.2.2.symm⟩⟩
  | cons field rest ih =>
    rw [partsFrom, fieldRole_eq, forall_mem_cons, located, located]
    cases hrole : role formats field with
    | none =>
      by_cases htagged : tagged field = true
      · rw [if_pos htagged]
        refine ⟨nofun, fun h => ?_⟩
        simp [hasRole, hrole, htagged] at h
      · rw [if_neg htagged]
        show partsFrom formats inputs outputs (position + 1) rest = _ ↔ _
        rw [ih]
        simp [hasRole, hrole, htagged]
    | some found =>
      cases found with
      | inputs =>
        show partsFrom formats (inputs ++ [(position, field)]) outputs (position + 1) rest = _ ↔ _
        rw [ih]
        simp [hasRole, hrole, FieldMetadata.isInputs, FieldMetadata.isOutputs]
      | outputs =>
        show partsFrom formats inputs (outputs ++ [(position, field)]) (position + 1) rest = _ ↔ _
        rw [ih]
        simp [hasRole, hrole, FieldMetadata.isInputs, FieldMetadata.isOutputs]
      | input wire domain =>
        refine ⟨nofun, fun h => ?_⟩
        simp [hasRole, hrole, tagged_of_role hrole, FieldMetadata.isInputs,
          FieldMetadata.isOutputs] at h
      | output wire =>
        refine ⟨nofun, fun h => ?_⟩
        simp [hasRole, hrole, tagged_of_role hrole, FieldMetadata.isInputs,
          FieldMetadata.isOutputs] at h
      | outcome =>
        refine ⟨nofun, fun h => ?_⟩
        simp [hasRole, hrole, tagged_of_role hrole, FieldMetadata.isInputs,
          FieldMetadata.isOutputs] at h

theorem single_eq_ok {parts : List (ℕ × Field DataType)} {part : RecordPart}
    {found : ℕ × Field DataType} : single parts part = .ok found ↔ parts = [found] := by
  match parts with
  | [] => exact ⟨nofun, nofun⟩
  | [only] => exact ⟨fun h => by rw [Except.ok.inj h], fun h => by rw [List.singleton_inj.mp h]; rfl⟩
  | first :: second :: rest => exact ⟨nofun, nofun⟩

theorem children_eq_ok :
    children field = .ok fields ↔ field.dataType = .struct fields := by
  unfold children
  split
  · next fields' htype =>
    rw [htype, Except.ok.injEq, DataType.struct.injEq]
  · next hstruct => exact ⟨nofun, fun h => absurd h (hstruct fields)⟩

/-! ## The ports of a struct -/

theorem port_eq_ok {name : PortName} :
    port formats field = .ok (name, found) ↔
      field.name = name.text ∧ role formats field = some found := by
  unfold port
  cases hname : Label.new .portName field.name with
  | error source =>
    refine ⟨nofun, fun h => ?_⟩
    rw [h.1, Label.new_text] at hname
    cases hname
  | ok name' =>
    have htext := Label.new_eq_ok.mp hname
    have hsame : field.name = name.text ↔ name' = name := by
      rw [← htext]
      exact ⟨fun h => Label.text_injective h, fun h => h ▸ rfl⟩
    show (match role formats field with
      | some role => Except.ok (name', role)
      | none => Except.error (RecordSchemaError.portMetadata name')) = _ ↔ _
    rw [hsame]
    cases hrole : role formats field with
    | none => exact ⟨nofun, fun h => (nomatch h.2)⟩
    | some found' => simp

variable {scales scales' : Scales F}

theorem takeScale_eq_ok {name : PortName} {wire : WireType F} {scale : Option (SiScale F)} :
    takeScale scales name wire = .ok (scale, scales') ↔
      scale = scales.get? name ∧ (scale.isSome = true → wire.quantity?.isSome = true) ∧
        scales' = scales.set name none := by
  unfold takeScale
  dsimp only
  split_ifs with h
  · refine ⟨nofun, fun ⟨hscale, hquantity, _⟩ => ?_⟩
    rw [← hscale] at h
    have hsome := hquantity h.1
    rw [Option.isNone_iff_eq_none.mp h.2] at hsome
    cases hsome
  · rw [Except.ok.injEq, Prod.mk.injEq]
    constructor
    · rintro ⟨rfl, rfl⟩
      refine ⟨rfl, fun hsome => ?_, rfl⟩
      rw [← Option.not_isNone, Bool.not_eq_true']
      exact Bool.eq_false_iff.mpr fun hnone => h ⟨hsome, hnone⟩
    · rintro ⟨rfl, -, rfl⟩
      exact ⟨rfl, rfl⟩

theorem restoreInput_eq_ok {input : SessionInput F} :
    restoreInput formats scales field = .ok (input, scales') ↔
      field.name = input.name.text ∧
        role formats field = some (.input input.wire input.domain) ∧
        (∀ domain ∈ input.domain, domainFits input.wire domain = true) ∧
        input.siScale = scales.get? input.name ∧
        (input.siScale.isSome = true → input.wire.quantity?.isSome = true) ∧
        scales' = scales.set input.name none := by
  constructor
  · intro h
    obtain ⟨⟨name, found⟩, hport, h⟩ := bind_eq_ok.mp h
    obtain ⟨hname, hrole⟩ := port_eq_ok.mp hport
    cases found with
    | input wire domain =>
      dsimp only at h
      split_ifs at h with hfits
      obtain ⟨⟨scale, rest⟩, htake, h⟩ := bind_eq_ok.mp h
      obtain ⟨hscale, hquantity, hrest⟩ := takeScale_eq_ok.mp htake
      cases h
      refine ⟨hname, hrole, fun domain' hdomain => ?_, hscale, hquantity, hrest⟩
      have hdomain : domain = some domain' := hdomain
      rw [hdomain] at hfits
      simpa using hfits
    | _ => cases h
  · rintro ⟨hname, hrole, hfits, hscale, hquantity, hrest⟩
    refine bind_eq_ok.mpr ⟨_, port_eq_ok.mpr ⟨hname, hrole⟩, ?_⟩
    have hdomain : ¬ input.domain.any (fun domain => !domainFits input.wire domain) = true := by
      rw [Option.any_eq_true]
      rintro ⟨domain, hdomain, hmisfit⟩
      rw [hfits domain hdomain] at hmisfit
      cases hmisfit
    dsimp only
    rw [if_neg hdomain]
    exact bind_eq_ok.mpr
      ⟨_, takeScale_eq_ok.mpr ⟨hscale, hquantity, rfl⟩, by rw [hrest]⟩

theorem restoreOutput_eq_ok {output : SessionOutput F} :
    restoreOutput formats scales field = .ok (output, scales') ↔
      field.name = output.name.text ∧ role formats field = some (.output output.wire) ∧
        output.siScale = scales.get? output.name ∧
        (output.siScale.isSome = true → output.wire.quantity?.isSome = true) ∧
        scales' = scales.set output.name none := by
  constructor
  · intro h
    obtain ⟨⟨name, found⟩, hport, h⟩ := bind_eq_ok.mp h
    obtain ⟨hname, hrole⟩ := port_eq_ok.mp hport
    cases found with
    | output wire =>
      obtain ⟨⟨scale, rest⟩, htake, h⟩ := bind_eq_ok.mp h
      obtain ⟨hscale, hquantity, hrest⟩ := takeScale_eq_ok.mp htake
      cases h
      exact ⟨hname, hrole, hscale, hquantity, hrest⟩
    | _ => cases h
  · rintro ⟨hname, hrole, hscale, hquantity, hrest⟩
    refine bind_eq_ok.mpr ⟨_, port_eq_ok.mpr ⟨hname, hrole⟩, ?_⟩
    exact bind_eq_ok.mpr
      ⟨_, takeScale_eq_ok.mpr ⟨hscale, hquantity, rfl⟩, by rw [hrest]⟩

/-- A step that reads one port: it takes the scale recorded under the port's name. -/
structure Takes {α : Type}
    (restore : Scales F → Field DataType → Except RecordSchemaError (α × Scales F))
    (name : α → PortName) (scale : α → Option (SiScale F)) (good : Field DataType → α → Prop) :
    Prop where
  eq_ok : ∀ scales scales' field a, restore scales field = .ok (a, scales') ↔
    good field a ∧ scale a = scales.get? (name a) ∧ scales' = scales.set (name a) none

theorem left_cons (scales : Scales F) (first key : PortName) (names : List PortName) :
    (if key ∈ names then none else (scales.set first none).get? key) =
      if key ∈ first :: names then none else scales.get? key := by
  rw [SortedMap.get?_set]
  by_cases hfirst : key = first
  · simp [hfirst]
  · simp [hfirst]

section Ports

variable {α : Type} {restore : Scales F → Field DataType → Except RecordSchemaError (α × Scales F)}
  {name : α → PortName} {scale : α → Option (SiScale F)} {good : Field DataType → α → Prop}

variable {ports : List α}

theorem restorePorts_cons {rest : List (Field DataType)} :
    restorePorts restore scales (field :: rest) = .ok (ports, scales') ↔
      ∃ first scales₁ others, restore scales field = .ok (first, scales₁) ∧
        restorePorts restore scales₁ rest = .ok (others, scales') ∧ ports = first :: others := by
  constructor
  · intro h
    obtain ⟨⟨first, scales₁⟩, hfirst, h⟩ := bind_eq_ok.mp h
    obtain ⟨⟨others, scales₂⟩, hothers, h⟩ := bind_eq_ok.mp h
    cases h
    exact ⟨first, scales₁, others, hfirst, hothers, rfl⟩
  · rintro ⟨first, scales₁, others, hfirst, hothers, rfl⟩
    exact bind_eq_ok.mpr ⟨_, hfirst, bind_eq_ok.mpr ⟨_, hothers, rfl⟩⟩

/-- The ports of a struct with distinct names take the scales of their names, and no others. -/
theorem Takes.restorePorts_eq_ok (htakes : Takes restore name scale good)
    (hnodup : (ports.map name).Nodup) :
    restorePorts restore scales fields = .ok (ports, scales') ↔
      List.Forall₂ good fields ports ∧ (∀ a ∈ ports, scale a = scales.get? (name a)) ∧
        ∀ key, scales'.get? key = if key ∈ ports.map name then none else scales.get? key := by
  induction fields generalizing scales ports with
  | nil =>
    rw [restorePorts, Except.ok.injEq, Prod.mk.injEq, List.forall₂_nil_left_iff]
    constructor
    · rintro ⟨rfl, rfl⟩
      exact ⟨rfl, fun a hmem => (nomatch hmem), fun key => rfl⟩
    · rintro ⟨rfl, -, hscales⟩
      exact ⟨rfl, (SortedMap.ext_get? hscales).symm⟩
  | cons field rest ih =>
    rw [restorePorts_cons, List.forall₂_cons_left_iff]
    constructor
    · rintro ⟨first, scales₁, others, hfirst, hothers, rfl⟩
      obtain ⟨hgood, hscale, rfl⟩ := (htakes.eq_ok _ _ _ _).mp hfirst
      rw [map_cons, nodup_cons] at hnodup
      obtain ⟨hrest, hscales, hleft⟩ := (ih hnodup.2).mp hothers
      refine ⟨⟨first, others, hgood, hrest, rfl⟩, forall_mem_cons.mpr ⟨hscale, ?_⟩, ?_⟩
      · intro a ha
        rw [hscales a ha, SortedMap.get?_set, if_neg]
        exact fun heq => hnodup.1 (mem_map.mpr ⟨a, ha, heq⟩)
      · intro key
        rw [hleft, map_cons, left_cons]
    · rintro ⟨⟨first, others, hgood, hrest, rfl⟩, hscales, hleft⟩
      rw [map_cons, nodup_cons] at hnodup
      rw [forall_mem_cons] at hscales
      refine ⟨first, scales.set (name first) none, others,
        (htakes.eq_ok _ _ _ _).mpr ⟨hgood, hscales.1, rfl⟩, (ih hnodup.2).mpr ⟨hrest, ?_, ?_⟩, rfl⟩
      · intro a ha
        rw [hscales.2 a ha, SortedMap.get?_set, if_neg]
        exact fun heq => hnodup.1 (mem_map.mpr ⟨a, ha, heq⟩)
      · intro key
        rw [hleft, map_cons, left_cons]

end Ports

/-- The field reads as the input. -/
structure ReadsInput (formats : MetadataFormats F Fingerprint) (field : Field DataType)
    (input : SessionInput F) : Prop where
  name : field.name = input.name.text
  role : Protocol.role formats field = some (.input input.wire input.domain)
  domain : ∀ domain ∈ input.domain, domainFits input.wire domain = true
  scale : input.siScale.isSome = true → input.wire.quantity?.isSome = true

/-- The field reads as the output. -/
structure ReadsOutput (formats : MetadataFormats F Fingerprint) (field : Field DataType)
    (output : SessionOutput F) : Prop where
  name : field.name = output.name.text
  role : Protocol.role formats field = some (.output output.wire)
  scale : output.siScale.isSome = true → output.wire.quantity?.isSome = true

theorem takes_restoreInput :
    Takes (restoreInput formats) SessionInput.name SessionInput.siScale (ReadsInput formats) := by
  refine ⟨fun scales scales' field input => ?_⟩
  rw [restoreInput_eq_ok]
  exact ⟨fun ⟨hname, hrole, hdomain, htaken, hscale, hrest⟩ =>
      ⟨⟨hname, hrole, hdomain, hscale⟩, htaken, hrest⟩,
    fun ⟨h, htaken, hrest⟩ => ⟨h.name, h.role, h.domain, htaken, h.scale, hrest⟩⟩

theorem takes_restoreOutput :
    Takes (restoreOutput formats) SessionOutput.name SessionOutput.siScale
      (ReadsOutput formats) := by
  refine ⟨fun scales scales' field output => ?_⟩
  rw [restoreOutput_eq_ok]
  exact ⟨fun ⟨hname, hrole, htaken, hscale, hrest⟩ => ⟨⟨hname, hrole, hscale⟩, htaken, hrest⟩,
    fun ⟨h, htaken, hrest⟩ => ⟨h.name, h.role, htaken, h.scale, hrest⟩⟩

variable {key : PortName} {value : SiScale F}

section Written

variable {α : Type} (name : α → PortName) (scale : α → Option (SiScale F))

/-- The ports that have a scale, with their scales. -/
def scalePairs (ports : List α) : List (PortName × SiScale F) :=
  ports.filterMap fun a => (scale a).map (Prod.mk (name a))

variable {name scale}
variable {ports : List α}

theorem mem_scalePairs :
    (key, value) ∈ scalePairs name scale ports ↔
      ∃ a ∈ ports, name a = key ∧ scale a = some value := by
  unfold scalePairs
  rw [List.mem_filterMap]
  refine exists_congr fun a => and_congr_right fun _ => ?_
  cases scale a with
  | none => simp
  | some value' => simp

theorem map_fst_scalePairs (ports : List α) :
    (scalePairs name scale ports).map Prod.fst =
      (ports.filter fun a => (scale a).isSome).map name := by
  unfold scalePairs
  induction ports with
  | nil => rfl
  | cons a rest ih =>
    cases hscale : scale a with
    | none =>
      rw [List.filterMap_cons_none (by rw [hscale]; rfl), ih, List.filter_cons_of_neg]
      rw [hscale]
      exact Bool.false_ne_true
    | some value =>
      rw [List.filterMap_cons_some (by rw [hscale]; rfl), map_cons, ih,
        List.filter_cons_of_pos (by rw [hscale]; rfl), map_cons]

theorem nodup_map_fst_scalePairs (h : (ports.map name).Nodup) :
    ((scalePairs name scale ports).map Prod.fst).Nodup := by
  rw [map_fst_scalePairs]
  exact h.sublist (List.filter_sublist.map name)

end Written

/-- An output carries a scale under the name of an input. -/
def SessionSchema.SharesScale (session : SessionSchema F Fingerprint) : Prop :=
  ∃ input ∈ session.inputs, ∃ output ∈ session.outputs,
    input.name = output.name ∧ output.siScale.isSome = true

/-- Inputs and outputs with distinct names, at least one of each, and with domains and scales that
their wires can have. -/
structure SessionSchema.Valid (session : SessionSchema F Fingerprint) : Prop where
  inputs_ne : session.inputs ≠ []
  outputs_ne : session.outputs ≠ []
  inputs_nodup : (session.inputs.map SessionInput.name).Nodup
  outputs_nodup : (session.outputs.map SessionOutput.name).Nodup
  domain_fits : ∀ input ∈ session.inputs, ∀ domain ∈ input.domain,
    domainFits input.wire domain = true
  input_scale : ∀ input ∈ session.inputs, input.siScale.isSome = true →
    input.wire.quantity?.isSome = true
  output_scale : ∀ output ∈ session.outputs, output.siScale.isSome = true →
    output.wire.quantity?.isSome = true

variable {session : SessionSchema F Fingerprint}

/-- Where no scale is shared, the written map holds the scale of every port. -/
theorem siScales_get?_eq_some (hinputs : (session.inputs.map SessionInput.name).Nodup)
    (houtputs : (session.outputs.map SessionOutput.name).Nodup) (hshared : ¬ session.SharesScale) :
    session.siScales.get? key = some value ↔
      (∃ input ∈ session.inputs, input.name = key ∧ input.siScale = some value) ∨
        ∃ output ∈ session.outputs, output.name = key ∧ output.siScale = some value := by
  have hnodup : ((scalePairs SessionInput.name SessionInput.siScale session.inputs ++
      scalePairs SessionOutput.name SessionOutput.siScale session.outputs).map Prod.fst).Nodup := by
    rw [List.map_append, List.nodup_append]
    refine ⟨nodup_map_fst_scalePairs hinputs, nodup_map_fst_scalePairs houtputs, ?_⟩
    intro key hin key' hout heq
    rw [map_fst_scalePairs] at hin hout
    obtain ⟨input, hinput, rfl⟩ := mem_map.mp hin
    obtain ⟨output, houtput, rfl⟩ := mem_map.mp hout
    exact hshared ⟨input, (mem_filter.mp hinput).1, output, (mem_filter.mp houtput).1,
      heq, (mem_filter.mp houtput).2⟩
  rw [SortedMap.get?_eq_some, ← mem_scalePairs, ← mem_scalePairs, ← List.mem_append]
  exact (SortedMap.ofList_perm hnodup).mem_iff

/-- The scales that inputs and then outputs take from a map are those that they write, if they
leave none of it. -/
theorem siScales_eq_of_taken (hinputs : (session.inputs.map SessionInput.name).Nodup)
    (houtputs : (session.outputs.map SessionOutput.name).Nodup)
    (hin : ∀ input ∈ session.inputs, input.siScale = scales.get? input.name)
    (hout : ∀ output ∈ session.outputs, output.siScale =
      if output.name ∈ session.inputs.map SessionInput.name then none
      else scales.get? output.name) (hnone : ∀ key, key ∉ session.inputs.map SessionInput.name →
      key ∉ session.outputs.map SessionOutput.name → scales.get? key = none) :
    ¬ session.SharesScale ∧ session.siScales = scales := by
  have hshared : ¬ session.SharesScale := by
    rintro ⟨input, hinput, output, houtput, hname, hsome⟩
    rw [hout output houtput, if_pos (mem_map.mpr ⟨input, hinput, hname⟩)] at hsome
    cases hsome
  refine ⟨hshared, SortedMap.ext_get? fun key => Option.ext fun value => ?_⟩
  rw [siScales_get?_eq_some hinputs houtputs hshared]
  constructor
  · rintro (⟨input, hinput, rfl, hscale⟩ | ⟨output, houtput, rfl, hscale⟩)
    · rw [← hin input hinput, hscale]
    · rw [hout output houtput] at hscale
      split_ifs at hscale
      exact hscale
  · intro hscale
    by_cases hkey : key ∈ session.inputs.map SessionInput.name
    · obtain ⟨input, hinput, rfl⟩ := mem_map.mp hkey
      exact .inl ⟨input, hinput, rfl, (hin input hinput).trans hscale⟩
    · by_cases hkey' : key ∈ session.outputs.map SessionOutput.name
      · obtain ⟨output, houtput, rfl⟩ := mem_map.mp hkey'
        refine .inr ⟨output, houtput, rfl, ?_⟩
        rw [hout output houtput, if_neg hkey, hscale]
      · rw [hnone key hkey hkey'] at hscale
        cases hscale

/-! ## Decoding -/

theorem firstRepeated_eq_none {seen names : List PortName} :
    firstRepeated seen names = none ↔ names.Nodup ∧ ∀ name ∈ names, name ∉ seen := by
  induction names generalizing seen with
  | nil => simp [firstRepeated]
  | cons name rest ih =>
    rw [firstRepeated, nodup_cons, forall_mem_cons]
    by_cases h : name ∈ seen
    · rw [if_pos h]
      exact ⟨nofun, fun hall => absurd h hall.2.1⟩
    · rw [if_neg h, ih]
      constructor
      · intro ⟨hnodup, hfresh⟩
        refine ⟨⟨fun hmem => hfresh name hmem List.mem_cons_self, hnodup⟩, h, fun other hmem => ?_⟩
        exact fun hseen => hfresh other hmem (List.mem_cons_of_mem _ hseen)
      · intro ⟨⟨hnew, hnodup⟩, _, hrest⟩
        refine ⟨hnodup, fun other hmem hseen => ?_⟩
        rcases mem_cons.mp hseen with rfl | hseen
        · exact hnew hmem
        · exact hrest other hmem hseen

theorem restore_eq_ok {fingerprint : Fingerprint} {inputs : List (SessionInput F)}
    {outputs : List (SessionOutput F)} :
    SessionSchema.restore fingerprint inputs outputs = .ok session ↔
      inputs ≠ [] ∧ outputs ≠ [] ∧ (inputs.map SessionInput.name).Nodup ∧
        (outputs.map SessionOutput.name).Nodup ∧ session = ⟨fingerprint, inputs, outputs⟩ := by
  unfold SessionSchema.restore
  by_cases hin : inputs = []
  · rw [hin]
    exact ⟨nofun, fun h => absurd rfl h.1⟩
  by_cases hout : outputs = []
  · rw [hout, if_neg (by simpa using hin)]
    exact ⟨nofun, fun h => absurd rfl h.2.1⟩
  rw [if_neg (by simpa using hin), if_neg (by simpa using hout)]
  have hrepeated : ∀ names : List PortName, firstRepeated [] names = none ↔ names.Nodup := by
    intro names
    rw [firstRepeated_eq_none]
    exact and_iff_left fun name _ => List.not_mem_nil
  rw [← hrepeated, ← hrepeated]
  cases firstRepeated [] (inputs.map SessionInput.name) with
  | some name => exact ⟨nofun, fun h => (nomatch h.2.2.1)⟩
  | none =>
    cases firstRepeated [] (outputs.map SessionOutput.name) with
    | some name => exact ⟨nofun, fun h => (nomatch h.2.2.2.1)⟩
    | none =>
      refine ⟨fun h => ⟨hin, hout, rfl, rfl, (Except.ok.inj h).symm⟩, fun h => ?_⟩
      exact congrArg _ h.2.2.2.2.symm

theorem checkMetadata_eq_ok {metadata : SchemaMetadata F Fingerprint} :
    checkMetadata metadata = .ok () ↔
      metadata.stream = .record ∧ metadata.protocolVersion = protocolVersion := by
  constructor
  · intro h
    obtain ⟨_, hstream, h⟩ := bind_eq_ok.mp h
    rw [reject_eq_ok, not_not] at hstream h
    exact ⟨hstream, h⟩
  · intro ⟨hstream, hversion⟩
    exact bind_eq_ok.mpr ⟨(), reject_eq_ok.mpr (not_not.mpr hstream),
      reject_eq_ok.mpr (not_not.mpr hversion)⟩

/-- What a schema that decodes to `record` has: the two structs once each, which read as the ports
of the session and are the fields that it writes, and the scales that it writes. -/
structure Accepts (formats : MetadataFormats F Fingerprint) (schema : Schema)
    (record : RecordSchema F Fingerprint) (metadata : SchemaMetadata F Fingerprint)
    (inputsStruct outputsStruct : Field DataType) (inputs outputs : List (Field DataType)) :
    Prop where
  read : (schema.metadata.get? metadataKey).bind formats.readSchema = some metadata
  stream : metadata.stream = .record
  version : metadata.protocolVersion = protocolVersion
  roles : ∀ field ∈ schema.fields, tagged field = true →
    hasRole formats FieldMetadata.isInputs field = true ∨
      hasRole formats FieldMetadata.isOutputs field = true
  inputs_at : located (hasRole formats FieldMetadata.isInputs) 0 schema.fields =
    [(record.inputs, inputsStruct)]
  outputs_at : located (hasRole formats FieldMetadata.isOutputs) 0 schema.fields =
    [(record.outputs, outputsStruct)]
  inputs_struct : inputsStruct.dataType = .struct inputs
  outputs_struct : outputsStruct.dataType = .struct outputs
  inputs_read : List.Forall₂ (ReadsInput formats) inputs record.session.inputs
  outputs_read : List.Forall₂ (ReadsOutput formats) outputs record.session.outputs
  inputs_ne : record.session.inputs ≠ []
  outputs_ne : record.session.outputs ≠ []
  inputs_nodup : (record.session.inputs.map SessionInput.name).Nodup
  outputs_nodup : (record.session.outputs.map SessionOutput.name).Nodup
  fingerprint : record.session.interfaceFingerprint = metadata.interfaceFingerprint
  unshared : ¬ record.session.SharesScale
  scales : record.session.siScales = metadata.siScales
  fields_match : fieldsMatch formats.toSchemaFormats ""
    [recordInputsField formats record.session, recordOutputsField formats record.session]
    [inputsStruct, outputsStruct] = .ok ()

/-- Where no scale is shared, every port finds its scale in the written map. -/
theorem siScales_get?_name (hinputs : (session.inputs.map SessionInput.name).Nodup)
    (houtputs : (session.outputs.map SessionOutput.name).Nodup) (hshared : ¬ session.SharesScale) :
    (∀ input ∈ session.inputs, input.siScale = session.siScales.get? input.name) ∧
      (∀ output ∈ session.outputs, output.siScale =
        if output.name ∈ session.inputs.map SessionInput.name then none
        else session.siScales.get? output.name) ∧
      ∀ key, key ∉ session.inputs.map SessionInput.name →
        key ∉ session.outputs.map SessionOutput.name → session.siScales.get? key = none := by
  refine ⟨fun input hinput => Option.ext fun value => ?_, fun output houtput => ?_,
    fun key hin hout => Option.eq_none_iff_forall_not_mem.mpr fun value hvalue => ?_⟩
  · rw [siScales_get?_eq_some hinputs houtputs hshared]
    constructor
    · exact fun hvalue => .inl ⟨input, hinput, rfl, hvalue⟩
    · rintro (⟨other, hother, hname, hvalue⟩ | ⟨output, houtput, hname, hvalue⟩)
      · rwa [← List.inj_on_of_nodup_map hinputs hother hinput hname]
      · exact absurd ⟨input, hinput, output, houtput, hname.symm, by rw [hvalue]; rfl⟩ hshared
  · split_ifs with hname
    · obtain ⟨input, hinput, hname⟩ := mem_map.mp hname
      by_contra hsome
      exact hshared ⟨input, hinput, output, houtput, hname, Option.isSome_iff_ne_none.mpr hsome⟩
    · refine Option.ext fun value => ?_
      rw [siScales_get?_eq_some hinputs houtputs hshared]
      constructor
      · exact fun hvalue => .inr ⟨output, houtput, rfl, hvalue⟩
      · rintro (⟨input, hinput, hsame, -⟩ | ⟨other, hother, hsame, hvalue⟩)
        · exact absurd (mem_map.mpr ⟨input, hinput, hsame⟩) hname
        · rwa [← List.inj_on_of_nodup_map houtputs hother houtput hsame]
  · rcases (siScales_get?_eq_some hinputs houtputs hshared).mp hvalue with
      ⟨input, hinput, rfl, -⟩ | ⟨output, houtput, rfl, -⟩
    · exact hin (mem_map.mpr ⟨input, hinput, rfl⟩)
    · exact hout (mem_map.mpr ⟨output, houtput, rfl⟩)

/-- The map without the given keys. -/
def without (scales : Scales F) (names : List PortName) : Scales F :=
  scales.filter fun key _ => key ∉ names

theorem get?_without {names : List PortName} :
    (without scales names).get? key = if key ∈ names then none else scales.get? key := by
  rw [without, SortedMap.filter, SortedMap.get?_filterMap]
  by_cases h : key ∈ names
  · cases scales.get? key <;> simp [h]
  · cases scales.get? key <;> simp [h]

theorem decode_eq_ok {schema : Schema} {record : RecordSchema F Fingerprint} :
    RecordSchema.decode formats schema = .ok record ↔
      ∃ metadata inputsStruct outputsStruct inputs outputs,
        Accepts formats schema record metadata inputsStruct outputsStruct inputs outputs := by
  unfold RecordSchema.decode
  constructor
  · intro h
    cases hread : (schema.metadata.get? metadataKey).bind formats.readSchema with
    | none =>
      rw [hread] at h
      cases h
    | some metadata =>
      rw [hread] at h
      obtain ⟨_, hcheck, h⟩ := bind_eq_ok.mp h
      obtain ⟨hstream, hversion⟩ := checkMetadata_eq_ok.mp hcheck
      obtain ⟨⟨ins, outs⟩, hparts, h⟩ := bind_eq_ok.mp h
      obtain ⟨hroles, hins, houts⟩ := partsFrom_eq_ok.mp hparts
      obtain ⟨⟨i, inputsStruct⟩, hsingle, h⟩ := bind_eq_ok.mp h
      obtain ⟨⟨o, outputsStruct⟩, hsingle', h⟩ := bind_eq_ok.mp h
      obtain ⟨inputs, hchildren, h⟩ := bind_eq_ok.mp h
      obtain ⟨⟨sessionInputs, scales₁⟩, hinputs, h⟩ := bind_eq_ok.mp h
      obtain ⟨outputs, hchildren', h⟩ := bind_eq_ok.mp h
      obtain ⟨⟨sessionOutputs, scales₂⟩, houtputs, h⟩ := bind_eq_ok.mp h
      dsimp only at h
      split at h
      · cases h
      next hkeys =>
      obtain ⟨session, hrestore, h⟩ := bind_eq_ok.mp h
      obtain ⟨hne, hne', hnodup, hnodup', rfl⟩ :=
        restore_eq_ok.mp (mapError_eq_ok.mp hrestore)
      obtain ⟨_, hmatch, h⟩ := bind_eq_ok.mp h
      cases h
      obtain ⟨hread₁, htaken₁, hleft₁⟩ := (takes_restoreInput.restorePorts_eq_ok hnodup).mp hinputs
      obtain ⟨hread₂, htaken₂, hleft₂⟩ :=
        (takes_restoreOutput.restorePorts_eq_ok hnodup').mp houtputs
      let session : SessionSchema F Fingerprint :=
        ⟨metadata.interfaceFingerprint, sessionInputs, sessionOutputs⟩
      have hscales : ¬ session.SharesScale ∧ _ := siScales_eq_of_taken hnodup hnodup'
        htaken₁ (fun output hmem => by rw [htaken₂ output hmem, hleft₁]) (fun key hin hout => by
          have hempty : scales₂.get? key = none := by
            rw [SortedMap.get?_eq_none, hkeys]
            exact List.not_mem_nil
          rwa [hleft₂, if_neg hout, hleft₁, if_neg hin] at hempty)
      exact ⟨metadata, inputsStruct, outputsStruct, inputs, outputs,
        ⟨hread, hstream, hversion, hroles, hins.symm.trans (single_eq_ok.mp hsingle),
          houts.symm.trans (single_eq_ok.mp hsingle'), children_eq_ok.mp hchildren,
          children_eq_ok.mp hchildren', hread₁, hread₂, hne, hne', hnodup, hnodup', rfl,
          hscales.1, hscales.2, mapError_eq_ok.mp hmatch⟩⟩
  · rintro ⟨metadata, inputsStruct, outputsStruct, inputs, outputs, h⟩
    obtain ⟨session, i, o⟩ := record
    obtain ⟨fingerprint, sessionInputs, sessionOutputs⟩ := session
    have hfingerprint : fingerprint = metadata.interfaceFingerprint := h.fingerprint
    subst hfingerprint
    obtain ⟨htaken₁, htaken₂, hnone⟩ :=
      siScales_get?_name h.inputs_nodup h.outputs_nodup h.unshared
    rw [h.scales] at htaken₁ htaken₂ hnone
    have hinputs : restorePorts (restoreInput formats) metadata.siScales inputs =
        .ok (sessionInputs, without metadata.siScales (sessionInputs.map SessionInput.name)) :=
      (takes_restoreInput.restorePorts_eq_ok h.inputs_nodup).mpr
        ⟨h.inputs_read, htaken₁, fun key => get?_without⟩
    have houtputs : restorePorts (restoreOutput formats)
        (without metadata.siScales (sessionInputs.map SessionInput.name)) outputs =
        .ok (sessionOutputs, .empty) := by
      refine (takes_restoreOutput.restorePorts_eq_ok h.outputs_nodup).mpr
        ⟨h.outputs_read, fun output hmem => ?_, fun key => ?_⟩
      · rw [get?_without]
        exact htaken₂ output hmem
      · rw [get?_without, SortedMap.get?_empty]
        split_ifs with hout hin
        · rfl
        · rfl
        · exact (hnone key hin hout).symm
    have hrestore : SessionSchema.restore metadata.interfaceFingerprint sessionInputs
        sessionOutputs = .ok ⟨metadata.interfaceFingerprint, sessionInputs, sessionOutputs⟩ :=
      restore_eq_ok.mpr ⟨h.inputs_ne, h.outputs_ne, h.inputs_nodup, h.outputs_nodup, rfl⟩
    rw [h.read]
    refine bind_eq_ok.mpr ⟨(), checkMetadata_eq_ok.mpr ⟨h.stream, h.version⟩, ?_⟩
    refine bind_eq_ok.mpr ⟨_, partsFrom_eq_ok.mpr ⟨h.roles, rfl, rfl⟩, ?_⟩
    refine bind_eq_ok.mpr ⟨_, single_eq_ok.mpr h.inputs_at, ?_⟩
    refine bind_eq_ok.mpr ⟨_, single_eq_ok.mpr h.outputs_at, ?_⟩
    refine bind_eq_ok.mpr ⟨_, children_eq_ok.mpr h.inputs_struct, ?_⟩
    refine bind_eq_ok.mpr ⟨_, hinputs, ?_⟩
    refine bind_eq_ok.mpr ⟨_, children_eq_ok.mpr h.outputs_struct, ?_⟩
    refine bind_eq_ok.mpr ⟨_, houtputs, ?_⟩
    refine bind_eq_ok.mpr ⟨_, mapError_eq_ok.mpr hrestore, ?_⟩
    exact bind_eq_ok.mpr ⟨(), mapError_eq_ok.mpr h.fields_match, rfl⟩

end ProvenGraphcal.Protocol
