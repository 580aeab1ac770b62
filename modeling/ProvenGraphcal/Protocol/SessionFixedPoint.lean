import Mathlib.Data.List.ReduceOption
import Mathlib.Algebra.Ring.Rat
import ProvenGraphcal.Protocol.Session

/-!
# A session configured from its own description
-/

namespace ProvenGraphcal.Protocol

open Checked (bind_eq_ok mapM_eq_ok)
open List (map_cons mem_append mem_filter mem_map mem_singleton not_mem_nil)

variable {names : List PortName}

theorem selected_eq_ok {duplicate unknown : PortName → SessionError} {known : PortName → Bool}
    {seen result : List PortName} :
    selected duplicate unknown known seen names = .ok result ↔
      result = seen ++ names ∧ names.Nodup ∧ ∀ name ∈ names, name ∉ seen ∧ known name = true := by
  induction names generalizing seen with
  | nil =>
    rw [selected, List.append_nil]
    refine ⟨fun h => ?_, fun h => congrArg _ h.1.symm⟩
    cases h
    exact ⟨rfl, List.nodup_nil, fun name hmem => (nomatch hmem)⟩
  | cons name rest ih =>
    rw [selected, List.forall_mem_cons, List.nodup_cons]
    by_cases hseen : name ∈ seen
    · rw [if_pos hseen]
      exact ⟨nofun, fun h => absurd hseen h.2.2.1.1⟩
    rw [if_neg hseen]
    by_cases hknown : known name = false
    · rw [if_pos hknown]
      exact ⟨nofun, fun h => absurd (hknown.symm.trans h.2.2.1.2) Bool.false_ne_true⟩
    rw [if_neg hknown, ih, List.append_assoc]
    have hknown : known name = true := Bool.not_eq_false _ ▸ hknown
    constructor
    · intro ⟨hresult, hnodup, hrest⟩
      refine ⟨hresult, ⟨fun hmem => ?_, hnodup⟩, ⟨hseen, hknown⟩, fun name' hmem => ?_⟩
      · exact (hrest name hmem).1 (List.mem_append_right _ List.mem_cons_self)
      · exact ⟨fun h => (hrest name' hmem).1 (List.mem_append_left _ h), (hrest name' hmem).2⟩
    · intro ⟨hresult, ⟨hfresh, hnodup⟩, _, hrest⟩
      refine ⟨hresult, hnodup, fun name' hmem => ⟨fun h => ?_, (hrest name' hmem).2⟩⟩
      rcases mem_append.mp h with h | h
      · exact (hrest name' hmem).1 h
      · exact hfresh (mem_singleton.mp h ▸ hmem)

variable {read : List PortName} {choices : List UnitChoice}

theorem unitChoicesFrom_eq_ok {varied : List PortName} {units result : List UnitChoice} :
    unitChoicesFrom varied read choices units = .ok result ↔
      result = choices ++ units ∧ (units.map UnitChoice.port).Nodup ∧
        ∀ choice ∈ units, (choice.port ∈ varied ∨ choice.port ∈ read) ∧
          choice.port ∉ choices.map UnitChoice.port := by
  induction units generalizing choices with
  | nil =>
    rw [unitChoicesFrom, List.append_nil]
    refine ⟨fun h => ?_, fun h => congrArg _ h.1.symm⟩
    cases h
    exact ⟨rfl, List.nodup_nil, fun name hmem => (nomatch hmem)⟩
  | cons choice rest ih =>
    rw [unitChoicesFrom, List.forall_mem_cons, map_cons, List.nodup_cons]
    by_cases hselected : choice.port ∉ varied ∧ choice.port ∉ read
    · rw [if_pos hselected]
      exact ⟨nofun, fun h => absurd h.2.2.1.1 (not_or.mpr hselected)⟩
    rw [if_neg hselected]
    by_cases hseen : choice.port ∈ choices.map UnitChoice.port
    · rw [if_pos hseen]
      exact ⟨nofun, fun h => absurd hseen h.2.2.1.2⟩
    rw [if_neg hseen, ih, List.append_assoc, List.map_append, List.map_singleton]
    have hselected : choice.port ∈ varied ∨ choice.port ∈ read :=
      not_not.mp fun h => hselected (not_or.mp h)
    constructor
    · intro ⟨hresult, hnodup, hrest⟩
      refine ⟨hresult, ⟨fun hmem => ?_, hnodup⟩, ⟨hselected, hseen⟩, fun other hmem => ?_⟩
      · obtain ⟨other, hother, hport⟩ := mem_map.mp hmem
        exact (hrest other hother).2 (List.mem_append_right _ (mem_singleton.mpr hport))
      · exact ⟨(hrest other hmem).1, fun h => (hrest other hmem).2 (List.mem_append_left _ h)⟩
    · intro ⟨hresult, ⟨hfresh, hnodup⟩, _, hrest⟩
      refine ⟨hresult, hnodup, fun other hmem => ⟨(hrest other hmem).1, fun h => ?_⟩⟩
      rcases mem_append.mp h with h | h
      · exact (hrest other hmem).2 h
      · exact hfresh (mem_map.mpr ⟨other, hmem, mem_singleton.mp h⟩)

variable {name : PortName}

theorem choiceFor_isSome :
    (choiceFor choices name).isSome = true ↔ name ∈ choices.map UnitChoice.port := by
  rw [choiceFor, Option.isSome_map, List.find?_isSome, mem_map]
  simp only [decide_eq_true_eq]

/-- The choices written out for a list of ports. -/
def choicesOf (choice : PortName → Option UnitSpelling) (names : List PortName) :
    List UnitChoice :=
  names.filterMap fun name => (choice name).map (UnitChoice.mk name)

theorem map_port_choicesOf (choice : PortName → Option UnitSpelling) (names : List PortName) :
    (choicesOf choice names).map UnitChoice.port = names.filter fun name => (choice name).isSome := by
  induction names with
  | nil => rfl
  | cons name rest ih =>
    unfold choicesOf at ih ⊢
    cases hchoice : choice name with
    | none =>
      rw [List.filterMap_cons_none (by rw [hchoice]; rfl), ih, List.filter_cons_of_neg]
      rw [hchoice]
      exact Bool.false_ne_true
    | some unit =>
      rw [List.filterMap_cons_some (by rw [hchoice]; rfl), map_cons, ih,
        List.filter_cons_of_pos (by rw [hchoice]; rfl)]

variable {choice : PortName → Option UnitSpelling}

theorem choiceFor_choicesOf (hmem : name ∈ names) :
    choiceFor (choicesOf choice names) name = choice name := by
  induction names with
  | nil => cases hmem
  | cons first rest ih =>
    unfold choiceFor choicesOf at ih ⊢
    by_cases hname : first = name
    · subst hname
      cases hchoice : choice first with
      | none =>
        rw [List.filterMap_cons_none (by rw [hchoice]; rfl)]
        by_cases hrest : first ∈ rest
        · rw [ih hrest, hchoice]
        · rw [List.find?_eq_none.mpr, Option.map_none]
          intro other hother hport
          obtain ⟨name, hname, hsome⟩ := List.mem_filterMap.mp hother
          obtain ⟨unit, -, rfl⟩ := Option.map_eq_some_iff.mp hsome
          exact hrest (of_decide_eq_true hport ▸ hname)
      | some unit =>
        rw [List.filterMap_cons_some (by rw [hchoice]; rfl), List.find?_cons_of_pos (by simp)]
        rfl
    · have hrest : name ∈ rest := (List.mem_cons.mp hmem).resolve_left (Ne.symm hname)
      cases hchoice : choice first with
      | none => rw [List.filterMap_cons_none (by rw [hchoice]; rfl), ih hrest]
      | some unit =>
        rw [List.filterMap_cons_some (by rw [hchoice]; rfl),
          List.find?_cons_of_neg (by simpa using hname), ih hrest]

variable {F : Type} [FiniteF64 F]

section Chosen

variable {wire wire' : WireType F} {choice : Option UnitSpelling} {resolver : UnitResolver F}
  {scale : Option (SiScale F)}

section

variable (h : chosenWire name wire choice resolver = .ok (wire', scale))

include h

theorem chosenWire_eq_ok :
    (choice = none ∧ wire' = wire ∧ scale = none) ∨ ∃ unit factor, choice = some unit ∧
      wire.withUnit unit = some (.ok wire') ∧ scale = some factor := by
  unfold chosenWire at h
  cases choice with
  | none =>
    cases h
    exact .inl ⟨rfl, rfl, rfl⟩
  | some unit =>
    dsimp only at h
    cases hunit : wire.withUnit unit with
    | none =>
      rw [hunit] at h
      cases h
    | some result =>
      obtain ⟨wire'', -, rfl, -⟩ := WireType.withUnit_eq_some hunit
      rw [hunit] at h
      cases hscale : resolver name unit with
      | error reason =>
        rw [hscale] at h
        cases h
      | ok factor =>
        rw [hscale] at h
        cases h
        exact .inr ⟨unit, factor, rfl, hunit, rfl⟩

theorem chosen_chosenWire : chosen name wire' scale = choice.map (UnitChoice.mk name) := by
  rcases chosenWire_eq_ok h with ⟨rfl, -, rfl⟩ | ⟨unit, factor, rfl, hunit, rfl⟩
  · rfl
  · obtain ⟨_, type, heq, hquantity, hnamed⟩ := WireType.withUnit_eq_some hunit
    cases heq
    simp [chosen, hquantity, hnamed]

end

end Chosen

variable {parameter : ParameterDescription F}

theorem sessionInput_ok {varied fixed : List PortName} {resolver : UnitResolver F}
    {result : Option (SessionInput F)}
    (h : sessionInput varied fixed choice resolver parameter = .ok result) :
    (parameter.name ∉ varied ∧ result = none) ∨
      (parameter.name ∈ varied ∧ ∃ input wire, result = some input ∧ input.name = parameter.name ∧
        parameter.wire = .supported wire ∧ chosenWire parameter.name wire (choice parameter.name)
          resolver = .ok (input.wire, input.siScale) ∧
        sessionDomain parameter.name parameter.domain input.siScale = .ok input.domain) := by
  unfold sessionInput at h
  by_cases hvaried : parameter.name ∈ varied
  · rw [if_neg (not_not.mpr hvaried)] at h
    cases hwire : parameter.wire with
    | unsupported reason =>
      rw [hwire] at h
      cases h
    | supported wire =>
      rw [hwire] at h
      obtain ⟨⟨wire', scale⟩, hchosen, h⟩ := bind_eq_ok.mp h
      obtain ⟨domain, hdomain, h⟩ := bind_eq_ok.mp h
      cases h
      exact .inr ⟨hvaried, _, wire, rfl, rfl, rfl, hchosen, hdomain⟩
  · rw [if_pos hvaried] at h
    split at h
    · cases h
    · cases h
      exact .inl ⟨hvaried, rfl⟩

variable {output : OutputDescription F}

theorem sessionOutput_ok {resolver : UnitResolver F} {result : Option (SessionOutput F)}
    (h : sessionOutput read choice resolver output = .ok result) :
    (output.name ∉ read ∧ result = none) ∨
      (output.name ∈ read ∧ ∃ found wire, result = some found ∧ found.name = output.name ∧
        chosenWire output.name wire (choice output.name) resolver =
          .ok (found.wire, found.siScale)) := by
  unfold sessionOutput at h
  by_cases hread : output.name ∈ read
  · rw [if_neg (not_not.mpr hread)] at h
    cases hwire : output.wire with
    | unsupported reason =>
      rw [hwire] at h
      cases h
    | supported wire =>
      rw [hwire] at h
      obtain ⟨⟨wire', scale⟩, hchosen, h⟩ := bind_eq_ok.mp h
      cases h
      exact .inr ⟨hread, _, wire, rfl, rfl, hchosen⟩
  · rw [if_pos hread] at h
    cases h
    exact .inl ⟨hread, rfl⟩

/-- The ports of a loop that keeps the selected ones, with the name each had. -/
theorem map_reduceOption_of_forall₂ {α β : Type} {R : α → Option β → Prop} {name : α → PortName}
    {name' : β → PortName} (hR : ∀ a o, R a o → (name a ∉ names ∧ o = none) ∨
      (name a ∈ names ∧ ∃ b, o = some b ∧ name' b = name a)) {l : List α} {os : List (Option β)}
    (h : List.Forall₂ R l os) :
    os.reduceOption.map name' = (l.map name).filter fun n => n ∈ names := by
  induction h with
  | nil => rfl
  | @cons a o l os hao _ ih =>
    rcases hR a o hao with ⟨hout, rfl⟩ | ⟨hin, b, rfl, hname⟩
    · rw [List.reduceOption_cons_of_none, ih, map_cons, List.filter_cons_of_neg]
      simpa using hout
    · rw [List.reduceOption_cons_of_some, map_cons, ih, hname, map_cons,
        List.filter_cons_of_pos (by simpa using hin)]

theorem forall_mem_reduceOption_of_forall₂ {α β : Type} {R : α → Option β → Prop} {P : β → Prop}
    (hR : ∀ a b, R a (some b) → P b) {l : List α} {os : List (Option β)}
    (h : List.Forall₂ R l os) : ∀ b ∈ os.reduceOption, P b := by
  intro b hb
  obtain ⟨a, -, ha⟩ := Checked.exists_of_forall₂_right h (List.reduceOption_mem_iff.mp hb)
  exact hR a b ha

theorem mapM_congr {ε α β : Type} {f g : α → Except ε β} {l : List α} (h : ∀ a ∈ l, f a = g a) :
    l.mapM f = l.mapM g := by
  induction l with
  | nil => rfl
  | cons a rest ih =>
    rw [List.mapM_cons, List.mapM_cons, h a List.mem_cons_self,
      ih fun b hb => h b (List.mem_cons_of_mem _ hb)]

theorem sessionInput_congr {varied varied' fixed : List PortName}
    {choice' : PortName → Option UnitSpelling} {resolver : UnitResolver F}
    (hvaried : parameter.name ∈ varied ↔ parameter.name ∈ varied')
    (hchoice : parameter.name ∈ varied → choice parameter.name = choice' parameter.name) :
    sessionInput varied fixed choice resolver parameter =
      sessionInput varied' fixed choice' resolver parameter := by
  unfold sessionInput
  by_cases h : parameter.name ∈ varied
  · rw [if_neg (not_not.mpr h), if_neg (not_not.mpr (hvaried.mp h)), hchoice h]
  · rw [if_pos h, if_pos (mt hvaried.mpr h)]

theorem sessionOutput_congr {read' : List PortName} {choice' : PortName → Option UnitSpelling}
    {resolver : UnitResolver F} (hread : output.name ∈ read ↔ output.name ∈ read')
    (hchoice : output.name ∈ read → choice output.name = choice' output.name) :
    sessionOutput read choice resolver output = sessionOutput read' choice' resolver output := by
  unfold sessionOutput
  by_cases h : output.name ∈ read
  · rw [if_neg (not_not.mpr h), if_neg (not_not.mpr (hread.mp h)), hchoice h]
  · rw [if_pos h, if_pos (mt hread.mpr h)]

/-! ## Configuring -/

section Configuring

variable {Fingerprint : Type} {fingerprintOf : ModelInterface F → Fingerprint}
  {interface : ModelInterface F} {resolver : UnitResolver F}

/-- What a selection without fixed parameters passes. -/
structure Selects (interface : ModelInterface F) (spec : SessionSpec) : Prop where
  inputs_ne : spec.inputs ≠ []
  outputs_ne : spec.outputs ≠ []
  inputs_nodup : spec.inputs.Nodup
  inputs_known : ∀ name ∈ spec.inputs, name ∈ interface.parameters.map ParameterDescription.name
  outputs_nodup : spec.outputs.Nodup
  outputs_known : ∀ name ∈ spec.outputs, name ∈ interface.outputs.map OutputDescription.name

/-- The units that a specification may choose for its ports. -/
structure ChoosesUnits (spec : SessionSpec) : Prop where
  nodup : (spec.units.map UnitChoice.port).Nodup
  selected : ∀ choice ∈ spec.units, choice.port ∈ spec.inputs ∨ choice.port ∈ spec.outputs

variable {session : SessionSchema F Fingerprint} {spec : SessionSpec}

theorem configure_parts (h : interface.configure fingerprintOf spec resolver = .ok session) :
    Selects interface spec ∧ ChoosesUnits spec ∧
      session.interfaceFingerprint = fingerprintOf interface ∧
      ∃ fixed inputs outputs, interface.fixedParameters spec spec.inputs = .ok fixed ∧
        interface.parameters.mapM (sessionInput spec.inputs fixed (choiceFor spec.units) resolver) =
          .ok inputs ∧
        interface.outputs.mapM (sessionOutput spec.outputs (choiceFor spec.units) resolver) =
          .ok outputs ∧
        session.inputs = inputs.reduceOption ∧ session.outputs = outputs.reduceOption := by
  unfold ModelInterface.configure at h
  split_ifs at h with hinputs houtputs
  obtain ⟨varied, hvaried, h⟩ := bind_eq_ok.mp h
  obtain ⟨read, hread, h⟩ := bind_eq_ok.mp h
  obtain ⟨choices, hchoices, h⟩ := bind_eq_ok.mp h
  obtain ⟨fixed, hfixed, h⟩ := bind_eq_ok.mp h
  obtain ⟨rfl, hnodup, hknown⟩ := selected_eq_ok.mp hvaried
  obtain ⟨rfl, hnodup', hknown'⟩ := selected_eq_ok.mp hread
  obtain ⟨rfl, hunits, hports⟩ := unitChoicesFrom_eq_ok.mp hchoices
  simp only [List.nil_append] at h
  obtain ⟨inputs, hin, h⟩ := bind_eq_ok.mp h
  obtain ⟨outputs, hout, h⟩ := bind_eq_ok.mp h
  cases h
  exact ⟨⟨by simpa using hinputs, by simpa using houtputs, hnodup,
      fun name hmem => ModelInterface.parameter_isSome.mp (hknown name hmem).2, hnodup',
      fun name hmem => ModelInterface.output_isSome.mp (hknown' name hmem).2⟩,
    ⟨hunits, fun choice hmem => (hports choice hmem).1⟩, rfl, fixed, inputs, outputs, hfixed, hin,
    hout, rfl, rfl⟩

theorem configure_eq_ok (hfixed : spec.fixed = []) :
    interface.configure fingerprintOf spec resolver = .ok session ↔
      Selects interface spec ∧ ChoosesUnits spec ∧
        session.interfaceFingerprint = fingerprintOf interface ∧
        ∃ inputs outputs,
          interface.parameters.mapM (sessionInput spec.inputs [] (choiceFor spec.units) resolver) =
            .ok inputs ∧
          interface.outputs.mapM (sessionOutput spec.outputs (choiceFor spec.units) resolver) =
            .ok outputs ∧
          session.inputs = inputs.reduceOption ∧ session.outputs = outputs.reduceOption := by
  have hnone : interface.fixedParameters spec spec.inputs = .ok [] := by
    rw [ModelInterface.fixedParameters, hfixed]
    rfl
  constructor
  · intro h
    obtain ⟨hselects, hunits, hfingerprint, fixed, inputs, outputs, hfixed', hparts⟩ :=
      configure_parts h
    cases hnone.symm.trans hfixed'
    exact ⟨hselects, hunits, hfingerprint, inputs, outputs, hparts⟩
  · intro ⟨hselects, hunits, hfingerprint, inputs, outputs, hin, hout, hins, houts⟩
    have hvaried : interface.varied spec = .ok spec.inputs :=
      selected_eq_ok.mpr ⟨rfl, hselects.inputs_nodup, fun name hmem => ⟨not_mem_nil,
        ModelInterface.parameter_isSome.mpr (hselects.inputs_known name hmem)⟩⟩
    have hread : interface.read spec = .ok spec.outputs :=
      selected_eq_ok.mpr ⟨rfl, hselects.outputs_nodup, fun name hmem => ⟨not_mem_nil,
        ModelInterface.output_isSome.mpr (hselects.outputs_known name hmem)⟩⟩
    have hchoices : unitChoices spec spec.inputs spec.outputs = .ok spec.units :=
      unitChoicesFrom_eq_ok.mpr ⟨rfl, hunits.nodup,
        fun choice hmem => ⟨hunits.selected choice hmem, not_mem_nil⟩⟩
    rw [ModelInterface.configure, if_neg (by simpa using hselects.inputs_ne),
      if_neg (by simpa using hselects.outputs_ne)]
    simp only [hvaried, hread, hchoices, hnone, hin, hout, bind, Except.bind]
    cases session
    subst hfingerprint hins houts
    rfl

/-- The specification chooses a unit for a port that it both varies and reads. -/
def SessionSpec.ChoosesSharedUnit (spec : SessionSpec) : Prop :=
  ∃ choice ∈ spec.units, choice.port ∈ spec.inputs ∧ choice.port ∈ spec.outputs

instance (spec : SessionSpec) : Decidable spec.ChoosesSharedUnit :=
  inferInstanceAs (Decidable (∃ choice ∈ spec.units, _))

theorem names_of_configure (h : interface.configure fingerprintOf spec resolver = .ok session) :
    session.inputs.map SessionInput.name =
        (interface.parameters.map ParameterDescription.name).filter (fun name =>
          name ∈ spec.inputs) ∧
      session.outputs.map SessionOutput.name =
        (interface.outputs.map OutputDescription.name).filter fun name => name ∈ spec.outputs := by
  obtain ⟨-, -, -, fixed, inputs, outputs, -, hin, hout, hins, houts⟩ := configure_parts h
  rw [hins, houts]
  constructor
  · refine map_reduceOption_of_forall₂ (fun parameter result hok => ?_) (mapM_eq_ok.mp hin)
    rcases sessionInput_ok hok with hout | ⟨hmem, input, -, hresult, hname, -⟩
    · exact .inl hout
    · exact .inr ⟨hmem, input, hresult, hname⟩
  · refine map_reduceOption_of_forall₂ (fun output result hok => ?_) (mapM_eq_ok.mp hout)
    rcases sessionOutput_ok hok with hout | ⟨hmem, found, -, hresult, hname, -⟩
    · exact .inl hout
    · exact .inr ⟨hmem, found, hresult, hname⟩

/-- The description of a configured session lists its ports in declaration order, with the unit
chosen for each of them. -/
theorem spec_of_configure (hfixed : spec.fixed = [])
    (h : interface.configure fingerprintOf spec resolver = .ok session) :
    session.spec =
      ⟨(interface.parameters.map ParameterDescription.name).filter fun name => name ∈ spec.inputs,
        (interface.outputs.map OutputDescription.name).filter fun name => name ∈ spec.outputs,
        choicesOf (choiceFor spec.units)
          (((interface.parameters.map ParameterDescription.name).filter
              fun name => name ∈ spec.inputs) ++
            (interface.outputs.map OutputDescription.name).filter fun name => name ∈ spec.outputs),
        []⟩ := by
  obtain ⟨-, -, -, inputs, outputs, hin, hout, hins, houts⟩ := (configure_eq_ok hfixed).mp h
  obtain ⟨hnames, hnames'⟩ := names_of_configure h
  have hunits : (session.inputs.filterMap fun input => chosen input.name input.wire input.siScale) =
      choicesOf (choiceFor spec.units) (session.inputs.map SessionInput.name) := by
    unfold choicesOf
    rw [List.filterMap_map]
    refine List.filterMap_congr fun input hmem => ?_
    rw [hins] at hmem
    refine forall_mem_reduceOption_of_forall₂ (P := fun input =>
      chosen input.name input.wire input.siScale =
        (choiceFor spec.units input.name).map (UnitChoice.mk input.name))
      (fun parameter found hok => ?_) (mapM_eq_ok.mp hin) input hmem
    rcases sessionInput_ok hok with ⟨-, hnone⟩ | ⟨-, input, wire, hresult, hname, -, hchosen, -⟩
    · cases hnone
    · cases hresult
      rw [hname]
      exact chosen_chosenWire hchosen
  have hunits' : (session.outputs.filterMap fun output =>
      chosen output.name output.wire output.siScale) =
      choicesOf (choiceFor spec.units) (session.outputs.map SessionOutput.name) := by
    unfold choicesOf
    rw [List.filterMap_map]
    refine List.filterMap_congr fun output hmem => ?_
    rw [houts] at hmem
    refine forall_mem_reduceOption_of_forall₂ (P := fun output =>
      chosen output.name output.wire output.siScale =
        (choiceFor spec.units output.name).map (UnitChoice.mk output.name))
      (fun described found hok => ?_) (mapM_eq_ok.mp hout) output hmem
    rcases sessionOutput_ok hok with ⟨-, hnone⟩ | ⟨-, output, wire, hresult, hname, hchosen⟩
    · cases hnone
    · cases hresult
      rw [hname]
      exact chosen_chosenWire hchosen
  rw [SessionSchema.spec, hunits, hunits', ← hnames, ← hnames']
  unfold choicesOf
  rw [List.filterMap_append]

theorem nodup_ports_choicesOf_append {inputs outputs : List PortName} (hinputs : inputs.Nodup)
    (houtputs : outputs.Nodup) :
    ((choicesOf choice (inputs ++ outputs)).map UnitChoice.port).Nodup ↔
      ∀ name ∈ inputs, name ∈ outputs → choice name = none := by
  rw [map_port_choicesOf, List.filter_append, List.nodup_append]
  constructor
  · intro ⟨_, _, hdisjoint⟩ name hin hout
    by_contra hsome
    have hsome : (choice name).isSome = true := Option.isSome_iff_ne_none.mpr hsome
    exact hdisjoint name (mem_filter.mpr ⟨hin, hsome⟩) name
      (mem_filter.mpr ⟨hout, hsome⟩) rfl
  · intro h
    refine ⟨hinputs.filter _, houtputs.filter _, fun name hin name' hout heq => ?_⟩
    subst heq
    obtain ⟨hin, hsome⟩ := mem_filter.mp hin
    rw [h name hin (mem_filter.mp hout).1] at hsome
    cases hsome

/-- The description that a session reports configures to the session again if and only if no unit
was chosen for a name that is both varied and read. -/
theorem configure_spec_iff (fingerprintOf : ModelInterface F → Fingerprint)
    (interface : ModelInterface F) (resolver : UnitResolver F) (spec : SessionSpec)
    (hfixed : spec.fixed = []) (session : SessionSchema F Fingerprint)
    (h : interface.configure fingerprintOf spec resolver = .ok session) :
    interface.configure fingerprintOf session.spec resolver = .ok session ↔
      ¬ spec.ChoosesSharedUnit := by
  have hspec := spec_of_configure hfixed h
  obtain ⟨hselects, hunits, hfingerprint, inputs, outputs, hin, hout, hins, houts⟩ :=
    (configure_eq_ok hfixed).mp h
  generalize hI : ((interface.parameters.map ParameterDescription.name).filter
    fun name => name ∈ spec.inputs) = I at hspec
  generalize hO : ((interface.outputs.map OutputDescription.name).filter
    fun name => name ∈ spec.outputs) = O at hspec
  have hmemI : ∀ name, name ∈ I ↔ name ∈ spec.inputs := by
    intro name
    rw [← hI, mem_filter, decide_eq_true_eq]
    exact ⟨fun hmem => hmem.2, fun hmem => ⟨hselects.inputs_known name hmem, hmem⟩⟩
  have hmemO : ∀ name, name ∈ O ↔ name ∈ spec.outputs := by
    intro name
    rw [← hO, mem_filter, decide_eq_true_eq]
    exact ⟨fun hmem => hmem.2, fun hmem => ⟨hselects.outputs_known name hmem, hmem⟩⟩
  have hnodupI : I.Nodup := hI ▸ interface.distinctParameters.filter _
  have hnodupO : O.Nodup := hO ▸ interface.distinctOutputs.filter _
  have hshared : (∀ name ∈ I, name ∈ O → choiceFor spec.units name = none) ↔
      ¬ spec.ChoosesSharedUnit := by
    constructor
    · intro hnone ⟨choice, hchoice, hvaried, hread⟩
      have hsome := choiceFor_isSome.mpr (mem_map.mpr ⟨choice, hchoice, rfl⟩)
      rw [hnone _ ((hmemI _).mpr hvaried) ((hmemO _).mpr hread)] at hsome
      cases hsome
    · intro hnot name hvaried hread
      by_contra hsome
      have hport := choiceFor_isSome.mp (Option.isSome_iff_ne_none.mpr hsome)
      obtain ⟨choice, hchoice, rfl⟩ := mem_map.mp hport
      exact hnot ⟨choice, hchoice, (hmemI _).mp hvaried, (hmemO _).mp hread⟩
  rw [hspec, configure_eq_ok rfl, ← hshared, ← nodup_ports_choicesOf_append hnodupI hnodupO]
  constructor
  · exact fun hok => hok.2.1.nodup
  intro hnodup
  refine ⟨⟨?_, ?_, hnodupI, ?_, hnodupO, ?_⟩, ⟨hnodup, ?_⟩, hfingerprint, inputs, outputs, ?_, ?_,
    hins, houts⟩
  · obtain ⟨name, hname⟩ := List.exists_mem_of_ne_nil _ hselects.inputs_ne
    exact List.ne_nil_of_mem ((hmemI name).mpr hname)
  · obtain ⟨name, hname⟩ := List.exists_mem_of_ne_nil _ hselects.outputs_ne
    exact List.ne_nil_of_mem ((hmemO name).mpr hname)
  · exact fun name hname => hselects.inputs_known name ((hmemI name).mp hname)
  · exact fun name hname => hselects.outputs_known name ((hmemO name).mp hname)
  · intro choice hchoice
    have hport : choice.port ∈ (choicesOf (choiceFor spec.units) (I ++ O)).map UnitChoice.port :=
      mem_map.mpr ⟨choice, hchoice, rfl⟩
    rw [map_port_choicesOf] at hport
    exact mem_append.mp (mem_filter.mp hport).1
  · rw [← hin]
    refine mapM_congr fun parameter _ => sessionInput_congr (hmemI _) fun hmem => ?_
    exact choiceFor_choicesOf (List.mem_append_left _ hmem)
  · rw [← hout]
    refine mapM_congr fun output _ => sessionOutput_congr (hmemO _) fun hmem => ?_
    exact choiceFor_choicesOf (List.mem_append_right _ hmem)

end Configuring

namespace SharedName

/-- The exact rationals, on which the quotients of small binary64 numbers are those of the program
wherever these are exact. -/
scoped instance : FiniteF64 ℚ where
  decEq := inferInstance
  decLt := inferInstance
  quotient x y := some (x / y)

def label (kind : LabelKind) (text : String)
    (h : text.isEmpty = false ∧ text.toList.any isControl = false) : Label kind := ⟨text, h⟩

def position : PortName := label _ "position" (by decide +kernel)

def time : PortName := label _ "time" (by decide +kernel)

def metre : UnitSpelling := label _ "m" (by decide +kernel)

def block : UnitSpelling := label _ "block" (by decide +kernel)

def length : QuantityType :=
  ⟨⟨[(label _ "Length" (by decide +kernel), ⟨1, 1, by decide⟩)], List.pairwise_singleton _ _⟩,
    some metre, fun h => (nomatch h)⟩

/-- A model that passes its parameters on. -/
def interface : ModelInterface ℚ where
  parameters := [⟨position, "Length", .supported (.quantity length), none, true, rfl⟩,
    ⟨time, "Int", .supported .int, none, true, rfl⟩]
  outputs := [⟨position, "Length", .supported (.quantity length)⟩, ⟨time, "Int", .supported .int⟩]
  distinctParameters := by decide +kernel
  distinctOutputs := by decide +kernel

def blockScale : SiScale ℚ := ⟨512, by decide +kernel⟩

def blocks : UnitResolver ℚ := fun _ unit =>
  if unit = block then .ok blockScale else .error "not a length unit"

def spec (outputs : List PortName) : SessionSpec := ⟨[position], outputs, [⟨position, block⟩], []⟩

def configure (spec : SessionSpec) : Except SessionError (SessionSchema ℚ Unit) :=
  interface.configure (fun _ => ()) spec blocks

end SharedName

open scoped SharedName

/-- The session reports the unit of `position` twice, and its description is not accepted. -/
theorem configure_spec_shared : ∃ session,
    SharedName.configure (SharedName.spec [SharedName.position]) = .ok session ∧
      SharedName.configure session.spec = .error (.duplicateUnit SharedName.position) := by
  obtain ⟨session, hok, htest⟩ := Checked.exists_ok_of_any
    (x := SharedName.configure (SharedName.spec [SharedName.position]))
    (p := fun session => match SharedName.configure session.spec with
      | .error error => error = .duplicateUnit SharedName.position
      | .ok _ => false) (by decide +kernel)
  refine ⟨session, hok, ?_⟩
  cases hspec : SharedName.configure session.spec with
  | error error =>
    rw [hspec] at htest
    exact congrArg _ (of_decide_eq_true htest)
  | ok _ =>
    rw [hspec] at htest
    cases htest

theorem configure_spec_iff_time : ∃ session,
    SharedName.configure (SharedName.spec [SharedName.time]) = .ok session ∧
      (SharedName.configure session.spec = .ok session ↔
        ¬ (SharedName.spec [SharedName.time]).ChoosesSharedUnit) := by
  obtain ⟨session, hok, -⟩ := Checked.exists_ok_of_any
    (x := SharedName.configure (SharedName.spec [SharedName.time])) (p := fun _ => true)
    (by decide +kernel)
  exact ⟨session, hok, configure_spec_iff _ _ _ _ rfl session hok⟩

end ProvenGraphcal.Protocol
