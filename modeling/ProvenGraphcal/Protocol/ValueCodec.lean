import ProvenGraphcal.Protocol.ValueErrors

/-!
# Tagged unions survive the way through Arrow
-/

open List (length_map map_map mem_map)

namespace ProvenGraphcal.Protocol

variable {F : Type} {arrays : ArrowArrays F}
variable {constructors : List (ConstructorType (WireType F))} {position : ℕ}

theorem constructorPosition_name (hnodup : (constructors.map ConstructorType.name).Nodup)
    {constructor : ConstructorType (WireType F)} (h : constructors[position]? = some constructor) :
    constructorPosition constructors constructor.name.text = some position := by
  obtain ⟨hlt, rfl⟩ := List.getElem?_eq_some_iff.mp h
  refine List.findIdx?_eq_some_iff_getElem.mpr ⟨hlt, decide_eq_true rfl, fun j hj => ?_⟩
  have hlt' : j < constructors.length := hj.trans hlt
  rw [Bool.not_eq_true, decide_eq_false_iff_not]
  intro htext
  have hj' : j < (constructors.map ConstructorType.name).length := by rwa [length_map]
  have hposition : position < (constructors.map ConstructorType.name).length := by
    rwa [length_map]
  have hname : (constructors.map ConstructorType.name)[j] =
      (constructors.map ConstructorType.name)[position] := by
    rw [List.getElem_map, List.getElem_map]
    exact Label.text_injective htext
  exact absurd (hnodup.getElem_inj_iff.mp hname) (by omega)

variable {rows : List (ℕ × List (Value F))} {valid : Option (List Bool)}

/-- The constructor of a row is the one whose struct is present there. -/
theorem decodeUnionRow_eq {array : arrays.ArrayRef}
    (hvalid : ∀ marks ∈ valid, marks.length = rows.length) {type : DataType}
    (hmade : arrays.Made array type (rowMask rows.length valid))
    {decoded : List (arrays.ArrayRef × List (List (Value F)))}
    (hspec : ∀ (k : ℕ) variant results, decoded[k]? = some (variant, results) →
      arrays.valid variant = rows.map (fun row => decide (row.1 = k)) ∧
      ∀ (i : ℕ) values, rows[i]? = some (k, values) → results[i]? = some values)
    (hlt : ∀ row ∈ rows, row.1 < decoded.length) {i : ℕ} {row : ℕ × List (Value F)}
    (hrow : rows[i]? = some row) :
    decodeUnionRow arrays array (rows.map fun row => some row.1) decoded i =
      .ok (if rowValid valid i then some (.algebraic row.1 row.2) else none) := by
  have hi := (List.getElem?_eq_some_iff.mp hrow).1
  have hpresent : Rows.positions (fun entry => arrays.isValid entry.1 i) decoded = [row.1] := by
    rw [Rows.positions_eq_singleton]
    intro k
    have hk : ∀ variant results, decoded[k]? = some (variant, results) →
        (arrays.isValid variant i = true ↔ k = row.1) := by
      intro variant results hk
      rw [ArrowArrays.isValid, (hspec k variant results hk).1, List.getD_eq_getElem?_getD,
        List.getElem?_map, hrow]
      exact decide_eq_true_iff.trans eq_comm
    constructor
    · rintro ⟨⟨variant, results⟩, hfound, hmarked⟩
      exact (hk variant results hfound).mp hmarked
    · intro hkey
      have hbound := hlt row (List.mem_of_getElem? hrow)
      have hfound := List.getElem?_eq_getElem (hkey ▸ hbound)
      exact ⟨_, hfound, (hk _ _ hfound).mpr hkey⟩
  unfold decodeUnionRow
  rw [hmade.isValid_eq hvalid hi, List.getElem?_map, hrow]
  cases rowValid valid i with
  | false => rfl
  | true =>
    obtain ⟨⟨variant, results⟩, hfound⟩ : ∃ entry, decoded[row.1]? = some entry :=
      ⟨_, List.getElem?_eq_getElem (hlt row (List.mem_of_getElem? hrow))⟩
    have hvalues := (hspec row.1 variant results hfound).2 i row.2 hrow
    show (if Rows.positions _ decoded ≠ [row.1] then _ else _) = _
    rw [if_neg (not_not.mpr hpresent), hfound]
    show Except.ok (some (Value.algebraic row.1 (results[i]?.getD []))) = _
    rw [hvalues]
    rfl

variable [DecidableEq F]

variable [Zero F]

theorem encodeVariants_spec (documented : arrays.Documented)
    (ih : ∀ constructor ∈ constructors, ∀ field ∈ constructor.fields, Encodable arrays field.wire)
    (hwires : ∀ constructor ∈ constructors, ∀ field ∈ constructor.fields, field.wire.Valid)
    (h : ∀ row ∈ rows, ∀ k constructor, constructors[k]? = some constructor →
      row.1 = position + k → ConformFields constructor.fields row.2) :
    ∃ variants decoded, encodeVariants arrays constructors position rows = .ok variants ∧
      arrays.Fit (variantFields constructors) variants rows.length ∧
      decodeVariants arrays constructors variants = .ok decoded ∧
      decoded.length = constructors.length ∧
      ∀ (k : ℕ) variant results, decoded[k]? = some (variant, results) →
        arrays.valid variant = rows.map (fun row => decide (row.1 = position + k)) ∧
        ∀ (i : ℕ) values, rows[i]? = some (position + k, values) → results[i]? = some values := by
  induction constructors generalizing position with
  | nil => exact ⟨[], [], rfl, .nil, rfl, rfl, fun k variant results hk => (nomatch hk)⟩
  | cons constructor rest ihrest =>
    rw [List.forall_mem_cons] at ih hwires
    let active := rows.map fun row => if row.1 = position then some row.2 else none
    have hvalues : ∀ values, some values ∈ active → ConformFields constructor.fields values := by
      intro values hmem
      obtain ⟨row, hrow, hvalues⟩ := mem_map.mp hmem
      split_ifs at hvalues with hchosen
      cases hvalues
      exact h row hrow 0 constructor rfl hchosen
    have hmarks : ∀ marks ∈ some (active.map Option.isSome), marks.length = active.length := by
      intro marks hmem
      cases hmem
      exact length_map _
    obtain ⟨variant, hvariant, hmade, columns, hback, hdecode⟩ :=
      encodeConstructor_spec documented ih.1 hwires.1 hmarks hvalues
    obtain ⟨results, hresults, hlen, hfields⟩ := hdecode (arrays.isValid variant)
    have hrest : ∀ row ∈ rows, ∀ k constructor, rest[k]? = some constructor →
        row.1 = position + 1 + k → ConformFields constructor.fields row.2 := by
      intro row hrow k constructor hk hchosen
      exact h row hrow (k + 1) constructor hk (by omega)
    obtain ⟨variants, decoded, hvariants, hfit, hdecoded, hcount, hspec⟩ := ihrest ih.2 hwires.2 hrest
    have hlength : active.length = rows.length := length_map _
    refine ⟨variant :: variants, (variant, results) :: decoded, ?_, ?_, ?_, ?_, ?_⟩
    · rw [encodeVariants]
      show (encodeConstructor arrays constructor active (some (active.map Option.isSome)) >>= _) = _
      rw [hvariant]
      show (encodeVariants arrays rest (position + 1) rows >>= _) = _
      rw [hvariants]
      rfl
    · refine .cons ⟨hmade.dataType, ?_, nofun⟩ hfit
      rw [hmade.len_eq, length_rowMask hmarks, hlength]
    · rw [decodeVariants, hback]
      show (decodeConstructor arrays constructor variant columns (arrays.isValid variant) >>= _) = _
      rw [hresults]
      show (decodeVariants arrays rest variants >>= _) = _
      rw [hdecoded]
      rfl
    · rw [List.length_cons, List.length_cons, hcount]
    · intro k found foundResults hk
      cases k with
      | zero =>
        cases hk
        refine ⟨?_, fun i values hi => hfields i values ?_⟩
        · rw [hmade.valid]
          show active.map Option.isSome = _
          rw [map_map]
          refine List.map_congr_left fun row _ => ?_
          show Option.isSome (if row.1 = position then some row.2 else none) = decide (row.1 = position)
          split_ifs with hchosen
          · exact (decide_eq_true hchosen).symm
          · exact (decide_eq_false hchosen).symm
        · rw [List.getElem?_map, hi]
          exact congrArg some (if_pos rfl)
      | succ k =>
        have hspec := hspec k found foundResults hk
        rwa [Nat.add_right_comm, Nat.add_assoc] at hspec

theorem encode_union (name : TypeName) (h : ∀ record, constructors ≠ [record]) :
    encode arrays (.algebraic name constructors)
      (rows.map fun row => Value.algebraic row.1 row.2) valid = (do
        let tags ← arrays.dictionaryArray
          (rows.map fun row => if row.1 < 2 ^ 31 then some (row.1 : ℤ) else none)
          (arrays.stringArray.collect
            (constructors.map fun constructor => some constructor.name.text))
        let columns ← encodeVariants arrays constructors 0 rows
        let variants ← arrays.structArray (variantFields constructors) columns none rows.length
        arrays.structArray
          [.new constructorField .dictionary false,
            .new variantsField (.struct (variantFields constructors)) false]
          [tags, variants] (nulls rows.length valid) rows.length) := by
  rw [encode, mapM_algebraic, length_map]
  · rfl
  · exact fun record hrecord => h record hrecord

/-- A type with several constructors. -/
theorem encodable_union (documented : arrays.Documented) (name : TypeName)
    (hunion : ∀ record, constructors ≠ [record])
    (hvalidType : (WireType.algebraic name constructors).Valid)
    (ih : ∀ constructor ∈ constructors, ∀ field ∈ constructor.fields, Encodable arrays field.wire) :
    Encodable arrays (.algebraic name constructors) := by
  intro values valid h hvalid
  obtain ⟨rows, rfl⟩ := Rows.exists_map_of_forall fun value hmem =>
    let ⟨row, hrow, _⟩ := conformsTo_algebraic.mp (h value hmem)
    show ∃ row : ℕ × List (Value F), Value.algebraic row.1 row.2 = value from ⟨row, hrow⟩
  rw [length_map] at hvalid
  obtain ⟨-, hcount, hnodup, hwires⟩ := hvalidType
  have hrows : ∀ row ∈ rows, ∃ constructor, constructors[row.1]? = some constructor ∧
      ConformFields constructor.fields row.2 := by
    intro row hmem
    have hrow := h _ (List.mem_map_of_mem hmem)
    rwa [Value.conformsTo, conformsConstructor_iff] at hrow
  have hconforms : ∀ row ∈ rows, ∀ k constructor, constructors[k]? = some constructor →
      row.1 = 0 + k → ConformFields constructor.fields row.2 := by
    intro row hmem k constructor hk hchosen
    obtain ⟨found, hfound, hfields⟩ := hrows row hmem
    rw [Nat.zero_add] at hchosen
    rw [hchosen, hk] at hfound
    cases hfound
    exact hfields
  obtain ⟨variants, decoded, hvariants, hfit, hdecoded, hlen, hspec⟩ :=
    encodeVariants_spec documented ih (fun constructor hmem =>
      (validConstructors_iff.mp hwires constructor hmem).2) hconforms
  have htags : ∀ position, some position ∈ rows.map (fun row => some row.1) →
      position < 2 ^ 31 ∧ ∃ label, (constructors.map fun c => c.name.text)[position]? = some label ∧
        constructorPosition constructors label = some position := by
    intro position hmem
    obtain ⟨row, hrow, hposition⟩ := mem_map.mp hmem
    cases hposition
    obtain ⟨constructor, hconstructor, -⟩ := hrows row hrow
    have hlt := (List.getElem?_eq_some_iff.mp hconstructor).1
    refine ⟨hlt.trans hcount, constructor.name.text, ?_, constructorPosition_name hnodup hconstructor⟩
    rw [List.getElem?_map, hconstructor]
    rfl
  obtain ⟨tags, htagsNew, htagsMade, htagsDecode⟩ := documented.dictionary_of_positions htags
  have hcodes : (rows.map fun row => if row.1 < 2 ^ 31 then some (row.1 : ℤ) else none) =
      (rows.map fun row => some row.1).map fun position => position.map axisSize := by
    rw [map_map]
    refine List.map_congr_left fun row hmem => ?_
    have hlt := (htags row.1 (List.mem_map_of_mem hmem)).1
    show (if row.1 < 2 ^ 31 then some (row.1 : ℤ) else none) = some (axisSize row.1)
    rw [if_pos hlt, axisSize_of_lt hlt]
  have htagsMade : arrays.Made tags .dictionary (rowMask rows.length none) := by
    rwa [map_map, show (Option.isSome ∘ fun row : ℕ × List (Value F) => some row.1) =
      fun _ => true from rfl, List.map_const'] at htagsMade
  obtain ⟨inner, hinner, hinnerMade, hinnerBack⟩ :=
    documented.struct _ _ none _ hfit fun _ hnone => (nomatch hnone)
  have hinnerMade : arrays.Made inner _ (rowMask rows.length none) := hinnerMade
  obtain ⟨array, hnew, hmade, hback⟩ := documented.struct
    [.new constructorField .dictionary false,
      .new variantsField (.struct (variantFields constructors)) false]
    [tags, inner] (nulls rows.length valid) rows.length
    (.cons ⟨htagsMade.dataType, htagsMade.fits.1, fun _ => htagsMade.fits.2⟩
      (.cons ⟨hinnerMade.dataType, hinnerMade.fits.1, fun _ => hinnerMade.fits.2⟩ .nil))
    (length_nulls hvalid)
  rw [nulls_getD hvalid] at hmade
  refine ⟨array, ?_, ?_, ?_⟩
  · rw [encode_union name hunion, hcodes]
    have hlabels : (constructors.map fun c => c.name.text).map some =
        constructors.map fun c => some c.name.text := map_map
    rw [hlabels] at htagsNew
    rw [htagsNew]
    show (encodeVariants arrays constructors 0 rows >>= _) = _
    rw [hvariants]
    show (arrays.structArray (variantFields constructors) variants none rows.length >>= _) = _
    rw [hinner]
    exact hnew
  · rw [length_map, dataType_union name hunion]
    exact hmade
  · rw [decode_union name hunion, hback]
    show (Except.mapError _ (decodeDictionary arrays tags (constructorPosition constructors)) >>= _)
      = _
    rw [htagsDecode]
    show (okOr (arrays.asStructArray inner) _ >>= _) = _
    rw [hinnerBack]
    show (Checked.reject (variants.length ≠ constructors.length) _ >>= _) = _
    have hvariantCount : variants.length = constructors.length := by
      rw [← hfit.length_eq, variantFields_eq_map, length_map]
    rw [Checked.reject_of_not (not_not.mpr hvariantCount)]
    show (decodeVariants arrays constructors variants >>= _) = _
    rw [hdecoded]
    refine Rows.range_mapM_ok ?_ fun i value hvalue => ?_
    · rw [length_masked, length_map, hmade.len_eq, length_rowMask hvalid]
    · rw [getElem?_masked, List.getElem?_map, Option.map_map] at hvalue
      obtain ⟨row, hrow, rfl⟩ := Option.map_eq_some_iff.mp hvalue
      refine decodeUnionRow_eq hvalid hmade ?_ (fun row hmem => ?_) hrow
      · simpa only [Nat.zero_add] using hspec
      · obtain ⟨constructor, hconstructor, -⟩ := hrows row hmem
        rw [hlen]
        exact (List.getElem?_eq_some_iff.mp hconstructor).1

/-- Conforming values encode, and decode to what they were at the valid rows. -/
theorem encodable (documented : arrays.Documented) {wire : WireType F} (h : wire.Valid) :
    Encodable arrays wire := by
  induction wire using WireType.induction with
  | quantity type => exact encodable_quantity documented type
  | complex type => exact encodable_complex documented type
  | int => exact encodable_int documented
  | bool => exact encodable_bool documented
  | key axis => exact encodable_key documented axis
  | datetime scale => exact encodable_datetime documented scale
  | indexed axis element ih => exact encodable_indexed documented axis (ih h)
  | algebraic name constructors ih =>
    have hwires := validConstructors_iff.mp h.2.2.2
    have ih : ∀ constructor ∈ constructors, ∀ field ∈ constructor.fields,
        Encodable arrays field.wire := fun constructor hmem field hfield =>
      ih constructor hmem field hfield ((hwires constructor hmem).2 field hfield)
    by_cases hrecord : ∃ record, constructors = [record]
    · obtain ⟨record, rfl⟩ := hrecord
      exact encodable_record documented name record (ih record List.mem_cons_self)
        (hwires record List.mem_cons_self).2
    · exact encodable_union documented name (not_exists.mp hrecord) h ih

/-!
# The Arrow codec of values
-/

variable {F : Type} [DecidableEq F] {arrays : ArrowArrays F}

/-- An error names a row of the array, and the slice of that row alone has the same error. -/
theorem decode_slice_of_error (documented : arrays.Documented) {wire : WireType F}
    {array : arrays.ArrayRef} {error : ValueDecodeError F}
    (h : decode arrays wire array = .error error) {row : ℕ} (hrow : error.row? = some row) :
    row < arrays.len array ∧
      decode arrays wire (arrays.slice array row 1) = .error (error.mapRow fun _ => 0) := by
  have hbound : ∀ o n, o + n ≤ arrays.len array → _ := fun o n =>
    cutsRows documented wire array o n
  have hlt : row < arrays.len array := (hbound 0 0 (Nat.zero_le _)).lt error row h hrow
  refine ⟨hlt, ?_⟩
  rw [(hbound row 1 hlt).error error row h hrow (le_refl row) (Nat.lt_succ_self row)]
  refine congrArg Except.error (Rows.RowError.mapRow_congr _ _ error fun named hnamed => ?_)
  have hsame : named = row := Option.some.inj (hnamed.symm.trans hrow)
  rw [hsame, Nat.sub_self]

variable [Zero F]

/-- Conforming values survive the way through Arrow at their valid rows; what is accepted from any
producer conforms to the type; and an error names the row it belongs to. -/
theorem value_codec (documented : arrays.Documented) {wire : WireType F} (hwire : wire.Valid) :
    (∀ (values : List (Value F)) (valid : Option (List Bool)),
      (∀ value ∈ values, Value.conformsTo wire value = true) →
      (∀ rows ∈ valid, rows.length = values.length) →
      ∃ array, encode arrays wire values valid = .ok array ∧
        arrays.dataType array = dataType wire ∧
        arrays.valid array = rowMask values.length valid ∧
        decode arrays wire array = .ok (masked valid values)) ∧
    (∀ array rows, decode arrays wire array = .ok rows →
      rows.map Option.isSome = arrays.valid array ∧
        ∀ value, some value ∈ rows → Value.conformsTo wire value = true) ∧
    ∀ array error row, decode arrays wire array = .error error → error.row? = some row →
      row < arrays.len array ∧
        decode arrays wire (arrays.slice array row 1) = .error (error.mapRow fun _ => 0) := by
  refine ⟨fun values valid hconforms hvalid => ?_, sound documented wire,
    fun array error row herror hrow => decode_slice_of_error documented herror hrow⟩
  obtain ⟨array, hnew, hmade, hdecode⟩ := encodable documented hwire values valid hconforms hvalid
  exact ⟨array, hnew, hmade.dataType, hmade.valid, hdecode⟩

/-! ## Pairs of shapes -/

namespace Shapes

def radius : FieldName := ⟨"radius", by decide +kernel⟩

def ratio : QuantityType := ⟨.dimensionless, none, fun _ => rfl⟩

def circle : ConstructorType (WireType ℚ) :=
  ⟨⟨"Circle", by decide +kernel⟩, [⟨radius, .quantity ratio⟩]⟩

def point : ConstructorType (WireType ℚ) := ⟨⟨"Point", by decide +kernel⟩, []⟩

def pair : Axis ℚ := ⟨⟨"Pair", by decide +kernel⟩, .finite 2, by decide⟩

def wire : WireType ℚ := .indexed pair (.algebraic ⟨"Shape", by decide +kernel⟩ [circle, point])

theorem wire_valid : wire.Valid := by
  refine ⟨by decide, by decide, by decide +kernel, ⟨by decide +kernel, ⟨trivial, trivial⟩, ?_⟩⟩
  exact ⟨by decide, trivial, trivial⟩

def first : Value ℚ := .indexed [.algebraic 0 [.quantity 3], .algebraic 1 []]

def second : Value ℚ := .indexed [.algebraic 1 [], .algebraic 1 []]

end Shapes

theorem value_codec_shapes : ∃ array,
    encode (memoryArrays ℚ) Shapes.wire [Shapes.first, Shapes.second] (some [true, false]) =
      .ok array ∧
    (memoryArrays ℚ).dataType array = dataType Shapes.wire ∧
    (memoryArrays ℚ).valid array = rowMask 2 (some [true, false]) ∧
    decode (memoryArrays ℚ) Shapes.wire array = .ok [some Shapes.first, none] :=
  (value_codec (memoryArrays_documented ℚ) Shapes.wire_valid).1 [Shapes.first, Shapes.second]
    (some [true, false]) (by decide +kernel) (by decide)

end ProvenGraphcal.Protocol
