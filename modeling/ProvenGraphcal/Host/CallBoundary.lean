import ProvenGraphcal.Host.ArgumentEncoding
import ProvenGraphcal.Host.Results

/-!
# Arguments and results of a host call
-/

namespace ProvenGraphcal.Host

open Checked (bind_eq_error bind_eq_ok mapError_eq_error)

variable {A I V B N T Err : Type} [IndexAxes A] [IndexBinders I] [LinearOrder V] [LinearOrder B]

variable {e : Err} {operands : Operands A N Err}

theorem Operands.read_eq_error {node : N} {expected : String}
    {extract : RuntimeValue A → Except (RuntimeValue A) T}
    (h : operands.read node expected extract = .error e) :
    operands.evaluate node = .error e ∨
      ∃ value other, operands.evaluate node = .ok value ∧ extract value = .error other := by
  rcases bind_eq_error.mp h with h | ⟨value, hvalue, h⟩
  · exact .inl h
  · obtain ⟨other, hother, -⟩ := mapError_eq_error h
    exact .inr ⟨value, other, hvalue, hother⟩

variable {bound : SortedMap I A} {position : ℕ}

/-- Of an argument of its kind, only the evaluation can fail as a value. -/
theorem evaluate_of_encodeArgument {argument : ExternArgKind I V B × N}
    (hkind : ∀ value, operands.evaluate argument.2 = .ok value → OfKind argument.1 value)
    (h : encodeArgument operands bound position argument = .error (.value e)) :
    operands.evaluate argument.2 = .error e := by
  obtain ⟨kind, node⟩ := argument
  have hread : ∀ {T : Type} {expected : String}
      {extract : RuntimeValue A → Except (RuntimeValue A) T},
      (∀ value, OfKind kind value → ∃ t, extract value = .ok t) →
      (operands.read node expected extract).mapError EncodeError.value = .error (.value e) →
      operands.evaluate node = .error e := by
    intro T expected extract hextract hfail
    obtain ⟨e', he, heq⟩ := mapError_eq_error hfail
    cases heq
    rcases Operands.read_eq_error he with h | ⟨value, other, hvalue, hother⟩
    · exact h
    · obtain ⟨t, ht⟩ := hextract value (hkind value hvalue)
      rw [ht] at hother
      cases hother
  cases kind with
  | quantity param =>
    rcases bind_eq_error.mp h with h | ⟨q, -, h⟩
    · refine hread (fun value hvalue => ?_) h
      cases hvalue with
      | quantity value => exact ⟨value, rfl⟩
    · cases h
  | bool param =>
    rcases bind_eq_error.mp h with h | ⟨b, -, h⟩
    · refine hread (fun value hvalue => ?_) h
      cases hvalue with
      | bool value => exact ⟨value, rfl⟩
    · cases h
  | int param =>
    rcases bind_eq_error.mp h with h | ⟨n, -, h⟩
    · refine hread (fun value hvalue => ?_) h
      cases hvalue with
      | int value => exact ⟨value, rfl⟩
    · rcases bind_eq_error.mp h with h | ⟨int, -, h⟩
      · obtain ⟨error, -, heq⟩ := mapError_eq_error h
        cases heq
      · cases h
  | indexed param element indexes =>
    rcases bind_eq_error.mp h with h | ⟨array, -, h⟩
    · refine hread (fun value hvalue => ?_) h
      cases hvalue with
      | indexed hrank hrect => exact ArrayArgument.exists_tryFromValue hrank hrect
    · rcases bind_eq_error.mp h with h | ⟨next, -, h⟩
      · obtain ⟨description, -, heq⟩ := mapError_eq_error h
        cases heq
      · rcases bind_eq_error.mp h with h | ⟨hosted, -, h⟩
        · obtain ⟨failure, -, heq⟩ := mapError_eq_error h
          cases heq
        · cases h

variable {arguments : List (ExternArgKind I V B × N)}

theorem evaluate_of_encodeFrom
    (hkinds : ∀ argument ∈ arguments, ∀ value, operands.evaluate argument.2 = .ok value →
      OfKind argument.1 value)
    (h : encodeFrom operands position bound arguments = .error (.value e)) :
    ∃ argument ∈ arguments, operands.evaluate argument.2 = .error e := by
  induction arguments generalizing bound position with
  | nil => cases h
  | cons argument rest ih =>
    rcases bind_eq_error.mp h with h | ⟨⟨host, next⟩, -, h⟩
    · exact ⟨argument, List.mem_cons_self,
        evaluate_of_encodeArgument (hkinds argument List.mem_cons_self) h⟩
    · rcases bind_eq_error.mp h with h | ⟨_, -, h⟩
      · obtain ⟨found, hfound, he⟩ := ih (fun other hother =>
          hkinds other (List.mem_cons_of_mem _ hother)) h
        exact ⟨found, List.mem_cons_of_mem _ hfound, he⟩
      · cases h

omit [IndexBinders I] in
theorem Evaluate.unique {values values' : List (RuntimeValue A)}
    (h : Evaluate operands arguments values) (h' : Evaluate operands arguments values') :
    values = values' :=
  List.right_unique_forall₂' (fun _ _ _ h h' => Except.ok.inj (h.symm.trans h')) h h'

omit [IndexBinders I] in
theorem Evaluate.ofKind {values : List (RuntimeValue A)} (h : Evaluate operands arguments values)
    (hkinds : ∀ argument ∈ arguments, ∀ value, operands.evaluate argument.2 = .ok value →
      OfKind argument.1 value) :
    List.Forall₂ (fun argument value => OfKind argument.1 value) arguments values := by
  obtain ⟨hlength, hvalues⟩ := List.forall₂_iff_zip.mp h
  refine List.forall₂_iff_zip.mpr ⟨hlength, fun hmem => ?_⟩
  exact hkinds _ (List.of_mem_zip hmem).1 _ (hvalues hmem)

variable {axes : NonEmpty A} {value : RuntimeValue A}

theorem rebuildArray_unchanged {kind : ScalarLeaf A T Unit}
    {validate : F64 → Except HostScalarError T} {raw : List F64} {data : List T}
    (hslots : List.Forall₂ (fun slot t => validate slot = .ok t) raw data)
    (hflat : Flat kind.element value axes.items data) (hfits : raw.length ≤ usizeMax) :
    decodeArrayValues raw validate = .ok data ∧
      ∃ indexed, rebuildArray axes data kind.leaf = .ok indexed ∧ value = indexed.toValue := by
  rw [hslots.length_eq] at hfits
  refine ⟨decodeArrayValues_eq_ok.mpr hslots, _,
    (rebuildArray_eq_ok hfits).mpr ⟨⟨axes, data, hflat.length_eq⟩, rfl, rfl, rfl⟩, ?_⟩
  exact hflat.injective (DenseArray.flat_toIndexed kind ⟨axes, data, hflat.length_eq⟩)

theorem decodeBool_encodeBool (b : Bool) : decodeBool (.finite (encodeBool b)) = .ok b := by
  refine decodeBool_eq_ok.mpr ⟨_, rfl, ?_⟩
  cases b with
  | false => rfl
  | true => rfl

theorem decodeInt_slot (int : HostInt) : decodeInt (.finite int.slot) = .ok int.value :=
  decodeInt_eq_ok.mpr ⟨_, rfl, int.exact⟩

/-- The elements of an array are rebuilt to the value they came from. -/
theorem rebuild_unchanged {element element' : ScalarValueKind V B}
    (hkind : slotKind element' = slotKind element) {elements : HostArrayElements}
    (h : Elements element value axes.items elements)
    (hfits : (elements.abiSlots.map F64.finite).length ≤ usizeMax) :
    ∃ values, decodeArray element' (elements.abiSlots.map .finite) = .ok values ∧
      ∃ indexed, rebuild axes values = .ok indexed ∧ value = indexed.toValue := by
  cases h with
  | @quantity _ _ _ data hflat =>
    have hslots : List.Forall₂ (fun slot q => validateQuantity slot = .ok q)
        (data.map F64.finite) data := by
      rw [List.forall₂_map_left_iff, List.forall₂_same]
      exact fun q _ => validateQuantity_eq_ok.mpr rfl
    obtain ⟨hdecoded, hrebuilt⟩ := rebuildArray_unchanged hslots hflat hfits
    cases element' with
    | quantity monomial => exact ⟨_, bind_eq_ok.mpr ⟨_, hdecoded, rfl⟩, hrebuilt⟩
    | bool => cases hkind
    | int => cases hkind
  | @bool _ _ data hflat =>
    have hslots : List.Forall₂ (fun slot b => decodeBool slot = .ok b)
        ((data.map encodeBool).map F64.finite) data := by
      rw [List.forall₂_map_left_iff, List.forall₂_map_left_iff, List.forall₂_same]
      exact fun b _ => decodeBool_encodeBool b
    obtain ⟨hdecoded, hrebuilt⟩ := rebuildArray_unchanged hslots hflat hfits
    cases element' with
    | bool => exact ⟨_, bind_eq_ok.mpr ⟨_, hdecoded, rfl⟩, hrebuilt⟩
    | quantity => cases hkind
    | int => cases hkind
  | @int _ _ data hflat =>
    have hslots : List.Forall₂ (fun slot n => decodeInt slot = .ok n)
        ((data.map HostInt.slot).map F64.finite) (data.map HostInt.value) := by
      rw [List.forall₂_map_left_iff, List.forall₂_map_left_iff, List.forall₂_map_right_iff,
        List.forall₂_same]
      exact fun int _ => decodeInt_slot int
    obtain ⟨hdecoded, hrebuilt⟩ := rebuildArray_unchanged hslots hflat hfits
    cases element' with
    | int => exact ⟨_, bind_eq_ok.mpr ⟨_, hdecoded, rfl⟩, hrebuilt⟩
    | quantity => cases hkind
    | bool => cases hkind

theorem Elements.axes_eq {element : ScalarValueKind V B} {value : RuntimeValue A} {axes : List A}
    {elements : HostArrayElements} (h : Elements element value axes elements) :
    axes = innerAxes value := by
  cases h with
  | quantity h => exact h.axes_eq
  | bool h => exact h.axes_eq
  | int h => exact h.axes_eq

omit [IndexBinders I] in
theorem decode_unchanged {param : String} {element element' : ScalarValueKind V B}
    {indexes : NonEmpty I} {resultIndexes : NonEmpty (TResultAxis I A)} {host : HostArgumentArray}
    (hcrosses : Crosses (.indexed param element indexes) value (.array host))
    (hkind : slotKind element' = slotKind element)
    (haxes : resultIndexes.items.map TResultAxis.axis = innerAxes value)
    (hfits : Fits (.fromArgument (.array host))) :
    decode (.value (.indexed element' resultIndexes) : TExternResult V I A B)
      (.fromArgument (.array host)) = .ok value := by
  cases hcrosses with
  | indexed hrank helements =>
    have hsame : (resultIndexes.map TResultAxis.axis).items = _ :=
      haxes.trans helements.axes_eq.symm
    rw [← hsame] at helements
    obtain ⟨values, hvalues, indexed, hindexed, hvalue⟩ :=
      rebuild_unchanged hkind helements hfits
    exact decode_array_eq_ok.mpr
      ⟨_, rfl, congrArg (List.map len) hsame.symm, values, hvalues, indexed, hindexed, hvalue⟩

/-- Arguments cross as they are unless an integer is inexact or the axes disagree, exactly the
admissible results decode, and an array returned unchanged decodes to its own value. -/
theorem host_call_boundary (A I V B N Err : Type) [IndexAxes A] [IndexBinders I] [LinearOrder V]
    [LinearOrder B] (operands : Operands A N Err) (arguments : List (ExternArgKind I V B × N)) :
    (∀ hosts bound, encode operands arguments = .ok (hosts, bound) →
      ∃ values, Evaluate operands arguments values ∧
        List.Forall₂ (fun pair host => Crosses pair.1.1 pair.2 host)
          (arguments.zip values) hosts) ∧
    ((∀ argument ∈ arguments, ∀ value, operands.evaluate argument.2 = .ok value →
        OfKind argument.1 value) →
      (∀ values, Evaluate operands arguments values →
        ((∃ encoded, encode operands arguments = .ok encoded) ↔
          (∀ value ∈ values, Exact value) ∧ Consistent (allBindings arguments values))) ∧
      ∀ e, encode operands arguments = .error (.value e) →
        ∃ argument ∈ arguments, operands.evaluate argument.2 = .error e) ∧
    (∀ (result : TExternResult V I A B) raw, Fits raw →
      ((∃ value, decode result raw = .ok value) ↔ Admissible result raw)) ∧
    ∀ (param : String) (element element' : ScalarValueKind V B) (indexes : NonEmpty I)
      (resultIndexes : NonEmpty (TResultAxis I A)) (value : RuntimeValue A)
      (host : HostArgumentArray),
      Crosses (.indexed param element indexes) value (.array host) →
      slotKind element' = slotKind element →
      resultIndexes.items.map TResultAxis.axis = innerAxes value →
      Fits (.fromArgument (.array host)) →
      decode (.value (.indexed element' resultIndexes) : TExternResult V I A B)
        (.fromArgument (.array host)) = .ok value := by
  refine ⟨fun hosts bound h => ?_, fun hkinds => ⟨fun values hvalues => ⟨?_, ?_⟩, ?_⟩,
    fun result raw hfits => ?_, ?_⟩
  · obtain ⟨values, hvalues, hcrosses, -⟩ := encode_eq_ok h
    exact ⟨values, hvalues, hcrosses⟩
  · rintro ⟨⟨hosts, bound⟩, h⟩
    obtain ⟨values', hvalues', hcrosses, hconsistent⟩ := encode_eq_ok h
    have hsame : values' = values := hvalues'.unique hvalues
    subst hsame
    refine ⟨fun value hvalue => ?_, hconsistent⟩
    rw [← List.map_snd_zip hvalues'.length_eq.ge] at hvalue
    obtain ⟨pair, hpair, rfl⟩ := List.mem_map.mp hvalue
    obtain ⟨host, -, hhost⟩ := Checked.exists_of_forall₂_right hcrosses.flip hpair
    exact Crosses.exact hhost
  · rintro ⟨hexact, hconsistent⟩
    exact exists_encode hvalues (hvalues.ofKind hkinds) hexact hconsistent
  · exact fun e h => evaluate_of_encodeFrom hkinds h
  · cases result with
    | value kind =>
      cases kind with
      | scalar element => exact exists_decode_scalar
      | indexed element indexes => exact exists_decode_array hfits
    | struct record => exact exists_decode_record
  · intro param element element' indexes resultIndexes value host hcrosses hkind haxes hfits
    exact decode_unchanged hcrosses hkind haxes hfits

end ProvenGraphcal.Host
