import ProvenGraphcal.Protocol.ValueArray

/-!
# Masked rows
-/

namespace ProvenGraphcal.Protocol

open List (ext_getElem? length_map map_id map_map mem_map)

variable {F : Type}

theorem okOr_eq_ok {ε α : Type} {found : Option α} {e : ε} {a : α} :
    okOr found e = .ok a ↔ found = some a := by
  cases found with
  | none => exact iff_of_false nofun nofun
  | some b => exact ⟨fun h => congrArg some (Except.ok.inj h),
      fun h => congrArg Except.ok (Option.some.inj h)⟩

/-- The rows that `valid` marks. -/
def masked {α : Type} (valid : Option (List Bool)) (values : List α) : List (Option α) :=
  values.zipIdx.map fun (value, row) => if rowValid valid row then some value else none

variable {len : ℕ}

section Masked

variable {α β : Type} {valid : Option (List Bool)}

theorem length_masked (values : List α) : (masked valid values).length = values.length := by
  rw [masked, length_map, List.length_zipIdx]

theorem getElem?_masked (values : List α) (row : ℕ) : (masked valid values)[row]? =
    values[row]?.map fun value => if rowValid valid row then some value else none := by
  rw [masked, List.getElem?_map, List.getElem?_zipIdx, Option.map_map]
  simp only [Nat.zero_add]
  rfl

theorem masked_map (f : α → β) (values : List α) :
    masked valid (values.map f) = (masked valid values).map (Option.map f) := by
  refine ext_getElem? fun row => ?_
  rw [getElem?_masked, List.getElem?_map, List.getElem?_map, getElem?_masked, Option.map_map,
    Option.map_map]
  congr 1
  funext value
  show (if rowValid valid row then some (f value) else none) =
    Option.map f (if rowValid valid row then some value else none)
  split_ifs <;> rfl

theorem masked_none (values : List α) : masked none values = values.map some := by
  refine ext_getElem? fun row => ?_
  rw [getElem?_masked, List.getElem?_map]
  rfl

variable {values : List α}

theorem mem_of_some_mem_masked {value : α} (h : some value ∈ masked valid values) :
    value ∈ values := by
  obtain ⟨⟨found, row⟩, hmem, hfound⟩ := mem_map.mp h
  dsimp only at hfound
  split_ifs at hfound
  cases hfound
  exact (List.mem_zipIdx' hmem).2 ▸ List.getElem_mem _

/-- Whether each of `len` rows is marked. -/
def rowMask (len : ℕ) (valid : Option (List Bool)) : List Bool :=
  valid.getD (List.replicate len true)

theorem length_rowMask (h : ∀ rows ∈ valid, rows.length = len) :
    (rowMask len valid).length = len := by
  cases valid with
  | none => exact List.length_replicate
  | some rows => exact h rows rfl

theorem getElem?_rowMask (h : ∀ rows ∈ valid, rows.length = len) {row : ℕ} (hrow : row < len) :
    (rowMask len valid)[row]? = some (rowValid valid row) := by
  cases valid with
  | none => exact List.getElem?_replicate_of_lt hrow
  | some rows =>
    have hlt : row < rows.length := (h rows rfl).symm ▸ hrow
    show rows[row]? = some (rows.getD row false)
    rw [List.getD_eq_getElem?_getD, List.getElem?_eq_getElem hlt]
    rfl

theorem map_isSome_masked (h : ∀ rows ∈ valid, rows.length = values.length) :
    (masked valid values).map Option.isSome = rowMask values.length valid := by
  refine ext_getElem? fun row => ?_
  rw [List.getElem?_map, getElem?_masked]
  by_cases hrow : row < values.length
  · rw [getElem?_rowMask h hrow, List.getElem?_eq_getElem hrow]
    show some (Option.isSome (if rowValid valid row then _ else _)) = _
    cases rowValid valid row <;> rfl
  · rw [List.getElem?_eq_none (by omega), List.getElem?_eq_none]
    · rfl
    · rw [length_rowMask h]
      omega

/-- The null buffer marks the rows, when there is one. -/
theorem nulls_getD (h : ∀ rows ∈ valid, rows.length = len) :
    (nulls len valid).getD (List.replicate len true) = rowMask len valid := by
  unfold nulls
  dsimp only
  split_ifs with hall
  · rw [List.all_eq_true] at hall
    exact (List.eq_replicate_iff.mpr ⟨length_rowMask h, hall⟩).symm
  · rfl

theorem length_nulls (h : ∀ rows ∈ valid, rows.length = len) :
    ∀ rows ∈ nulls len valid, rows.length = len := by
  intro rows hrows
  unfold nulls at hrows
  dsimp only at hrows
  split_ifs at hrows
  · cases hrows
  · cases hrows
    exact length_rowMask h

theorem count_rowMask_none (len : ℕ) : (rowMask len none).count false = 0 :=
  List.count_eq_zero.mpr fun h => (nomatch List.eq_of_mem_replicate h)

end Masked

theorem scalars_map {α β : Type} {scalar : Value F → Option β} {make : α → Value F} {g : α → β}
    {found : List α} (h : ∀ a ∈ found, scalar (make a) = some (g a)) (valid : Option (List Bool)) :
    scalars scalar (found.map make) valid = .ok (masked valid (found.map g)) := by
  refine Rows.collectRows_eq_ok.mpr ⟨by simp [length_masked], fun row value hvalue => ?_⟩
  rw [List.getElem?_map] at hvalue
  obtain ⟨a, ha, rfl⟩ := Option.map_eq_some_iff.mp hvalue
  rw [getElem?_masked, List.getElem?_map, ha]
  refine ⟨_, rfl, ?_⟩
  rw [h a (List.mem_of_getElem? ha)]

/-!
# Values survive the way through Arrow
-/

variable {arrays : ArrowArrays F}

attribute [local simp] encode decode

variable {type : DataType} {array : arrays.ArrayRef}

theorem ArrowArrays.Made.len_eq {rows : List Bool} (h : arrays.Made array type rows) :
    arrays.len array = rows.length :=
  congrArg List.length h.valid

theorem ArrowArrays.Made.isValid_eq {len : ℕ} {valid : Option (List Bool)}
    (h : arrays.Made array type (rowMask len valid)) (hvalid : ∀ rows ∈ valid, rows.length = len)
    {row : ℕ} (hrow : row < len) :
    arrays.isValid array row = rowValid valid row := by
  rw [ArrowArrays.isValid, h.valid, List.getD_eq_getElem?_getD, getElem?_rowMask hvalid hrow]
  rfl

theorem decodeNumbers_collect (documented : arrays.Documented) (valid : Option (List Bool))
    (number : F → Value F) (found : List F) :
    decodeNumbers arrays number
      (arrays.float64Array.collect (masked valid (found.map F64.finite))) =
        .ok (masked valid (found.map number)) := by
  unfold decodeNumbers
  rw [documented.float64.collect, masked_map, masked_map]
  refine Rows.collectRows_map fun value _ row => ?_
  cases value <;> rfl

/-! ## Dictionaries and keys -/

theorem axisSize_of_lt {n : ℕ} (h : n < 2 ^ 31) : axisSize n = n := if_pos h

variable {positions : List (Option ℕ)}

/-- A dictionary of labels that resolve to their own positions. -/
theorem ArrowArrays.Documented.dictionary_of_positions (documented : arrays.Documented)
    {labels : List String} {resolve : String → Option ℕ}
    (h : ∀ position, some position ∈ positions → position < 2 ^ 31 ∧
      ∃ label, labels[position]? = some label ∧ resolve label = some position) :
    ∃ array, arrays.dictionaryArray (positions.map fun position => position.map axisSize)
        (arrays.stringArray.collect (labels.map some)) = .ok array ∧
      arrays.Made array .dictionary (positions.map Option.isSome) ∧
      decodeDictionary arrays array resolve = .ok positions := by
  have hcodes : ∀ key ∈ positions.map fun position => position.map axisSize,
      ∀ code : ℤ, key = some code → 0 ≤ code ∧ code < labels.length := by
    intro key hkey code hcode
    obtain ⟨position, hmem, rfl⟩ := mem_map.mp hkey
    obtain ⟨n, rfl, rfl⟩ := Option.map_eq_some_iff.mp hcode
    obtain ⟨hlt, label, hlabel, -⟩ := h n hmem
    have hbound := (List.getElem?_eq_some_iff.mp hlabel).1
    rw [axisSize_of_lt hlt]
    omega
  obtain ⟨array, hnew, hmade, hback⟩ := documented.dictionary _ labels hcodes
  refine ⟨array, hnew, ?_, ?_⟩
  · rw [map_map] at hmade
    have hsome : Option.isSome ∘ (fun position : Option ℕ => position.map axisSize) =
        Option.isSome := by
      funext position
      exact Option.isSome_map
    rwa [hsome] at hmade
  · have hrows : Rows.collectRows
        (dictionaryRow (labels.map some) ((labels.map some).map fun label => label.bind resolve))
        (positions.map fun position => position.map axisSize) = .ok positions := by
      refine Rows.collectRows_inverse fun position hmem row => ?_
      cases position with
      | none => rfl
      | some n =>
        obtain ⟨hlt, label, hlabel, hresolve⟩ := h n hmem
        have hbound := (List.getElem?_eq_some_iff.mp hlabel).1
        show dictionaryRow _ _ (some (axisSize n)) row = _
        have hentry : dictionaryEntry (labels.map some).length (axisSize n) = some n := by
          rw [axisSize_of_lt hlt, dictionaryEntry, length_map]
          show Option.filter _ (some n) = _
          rw [Option.filter_some, if_pos (decide_eq_true hbound)]
        simp only [dictionaryRow, hentry, List.getElem?_map, hlabel, Option.map_some,
          Option.join_some, Option.bind_some, hresolve]
    unfold decodeDictionary
    rw [hback]
    show (okOr (arrays.stringArray.downcast _) _ >>= _) = _
    rw [documented.string.collect]
    exact hrows

variable {axis : Axis F}

theorem Axis.lt_of_key {position : ℕ} {value : KeyValue F} (h : axis.key position = some value) :
    position < axis.len :=
  Axis.key_isSome.mp (h ▸ rfl)

theorem mapM_keyPosition (h : ∀ position, some position ∈ positions → position < axis.len) :
    positions.mapM (keyPosition axis) = .ok positions := by
  refine (Rows.mapM_ok_of_forall (fun position hmem => ?_)).trans
    (congrArg Except.ok (List.map_id' positions))
  cases position with
  | none => rfl
  | some n => exact if_pos (h n hmem)

variable [DecidableEq F]

/-- An array of keys at the positions of their entries. -/
theorem keyArray_of_positions (documented : arrays.Documented)
    (h : ∀ position, some position ∈ positions →
      ∃ value, axis.key position = some value ∧ axis.position value = some position) :
    ∃ array, keyArray arrays axis positions = .ok array ∧
      arrays.Made array (dataType (.key axis)) (positions.map Option.isSome) ∧
      decodeKeyPositions arrays axis array = .ok positions := by
  have hlt : ∀ position, some position ∈ positions → position < axis.len := fun position hmem => by
    obtain ⟨value, hvalue, -⟩ := h position hmem
    exact Axis.lt_of_key hvalue
  have hfits : ∀ position, some position ∈ positions → position < 2 ^ 31 := fun position hmem =>
    (hlt position hmem).trans axis.len_lt
  unfold keyArray decodeKeyPositions dataType
  rw [mapM_keyPosition hlt]
  unfold Axis.key at h
  cases hkind : axis.kind with
  | named variants =>
    simp only [hkind] at h
    have hlabels : ∀ position, some position ∈ positions → position < 2 ^ 31 ∧
        ∃ label, (variants.map Label.text)[position]? = some label ∧
          variantPosition axis label = some position := by
      intro position hmem
      obtain ⟨value, hvalue, hback⟩ := h position hmem
      obtain ⟨name, hname, rfl⟩ := Option.map_eq_some_iff.mp hvalue
      refine ⟨hfits position hmem, name.text, by rw [List.getElem?_map, hname]; rfl, ?_⟩
      rw [variantPosition, Label.new_text]
      exact hback
    obtain ⟨array, hnew, hmade, hdecode⟩ := documented.dictionary_of_positions hlabels
    refine ⟨array, ?_, hmade, ?_⟩
    · rw [map_map] at hnew
      exact hnew
    · show Except.mapError _ (decodeDictionary arrays array (variantPosition axis)) = _
      rw [hdecode]
      rfl
  | finite size =>
    simp only [hkind] at h
    have hmade := documented.uint32.made (positions.map fun position => position.map u32Size)
    have hsome : Option.isSome ∘ (fun position : Option ℕ => position.map u32Size) =
        Option.isSome := by
      funext position
      exact Option.isSome_map
    rw [map_map, hsome] at hmade
    refine ⟨_, rfl, hmade, ?_⟩
    show (okOr (arrays.uint32Array.downcast _) _ >>= _) = _
    rw [documented.uint32.collect]
    refine Rows.collectRows_inverse fun position hmem row => ?_
    cases position with
    | none => rfl
    | some n =>
      obtain ⟨value, hvalue, hback⟩ := h n hmem
      split_ifs at hvalue
      cases hvalue
      have hsize : u32Size n = n := if_pos ((hfits n hmem).trans (by decide))
      show (okOr (axis.position (.position (u32Size n))) _).map some = _
      rw [hsize, hback]
      rfl
  | coordinate dimension coordinates =>
    simp only [hkind] at h
    let number : Option ℕ → Option (F64 F) := fun position =>
      position.bind fun position => coordinates[position]?.map .finite
    have hmade := documented.float64.made (positions.map number)
    have hsome : (positions.map number).map Option.isSome = positions.map Option.isSome := by
      rw [map_map]
      refine List.map_congr_left fun position hmem => ?_
      cases position with
      | none => rfl
      | some n =>
        obtain ⟨value, hvalue, -⟩ := h n hmem
        obtain ⟨coordinate, hcoordinate, -⟩ := Option.map_eq_some_iff.mp hvalue
        show (coordinates[n]?.map F64.finite).isSome = true
        rw [hcoordinate]
        rfl
    rw [hsome] at hmade
    refine ⟨_, rfl, hmade, ?_⟩
    show (okOr (arrays.float64Array.downcast _) _ >>= _) = _
    rw [documented.float64.collect]
    refine Rows.collectRows_inverse fun position hmem row => ?_
    cases position with
    | none => rfl
    | some n =>
      obtain ⟨value, hvalue, hback⟩ := h n hmem
      obtain ⟨coordinate, hcoordinate, rfl⟩ := Option.map_eq_some_iff.mp hvalue
      show coordinateRow axis (coordinates[n]?.map F64.finite) row = _
      rw [hcoordinate]
      show (okOr (axis.position (.coordinate coordinate)) _).map some = _
      rw [hback]
      rfl

/-- The array holds the values of the wire type, null where `valid` is `false`. -/
structure Encodes (arrays : ArrowArrays F) (wire : WireType F) (values : List (Value F))
    (valid : Option (List Bool)) (array : arrays.ArrayRef) : Prop where
  made : arrays.Made array (dataType wire) (rowMask values.length valid)
  decode : decode arrays wire array = .ok (masked valid values)

variable {valid : Option (List Bool)}

/-- Every column of conforming values has an array that holds it. -/
def Encodable [Zero F] (arrays : ArrowArrays F) (wire : WireType F) : Prop :=
  ∀ (values : List (Value F)) (valid : Option (List Bool)),
    (∀ value ∈ values, Value.conformsTo wire value = true) →
    (∀ rows ∈ valid, rows.length = values.length) →
    ∃ array, encode arrays wire values valid = .ok array ∧ Encodes arrays wire values valid array

variable [Zero F]

/-- A type whose values are encoded row by row. -/
theorem encodable_of_rows {α β : Type} {kind : RowArray arrays.ArrayRef α} {wire : WireType F}
    (hkind : arrays.RowsDocumented kind (dataType wire)) (make : β → Value F) (scalar : β → α)
    (read : Value F → Option α) (hread : ∀ (found : List β), ∀ a ∈ found,
      read (make a) = some (scalar a))
    (hconforms : ∀ value, Value.conformsTo wire value = true → ∃ a, make a = value)
    (hencode : ∀ values valid rows, scalars read values valid = .ok rows →
      encode arrays wire values valid = .ok (kind.collect rows))
    (hdecode : ∀ (found : List β) valid,
      decode arrays wire (kind.collect (masked valid (found.map scalar))) =
        .ok (masked valid (found.map make))) : Encodable arrays wire := by
  intro values valid h hvalid
  obtain ⟨found, rfl⟩ :=
    Rows.exists_map_of_forall fun value hmem => hconforms value (h value hmem)
  refine ⟨_, hencode _ _ _ (scalars_map (hread found) valid), ?_, hdecode found valid⟩
  have hmade := hkind.made (masked valid (found.map scalar))
  rw [length_map] at hvalid ⊢
  rwa [map_isSome_masked (by rwa [length_map]), length_map] at hmade

section

variable (documented : arrays.Documented)

include documented

theorem encodable_quantity (type : QuantityType) : Encodable arrays (.quantity type) :=
  encodable_of_rows documented.float64 .quantity .finite
    (fun value => value.number?.map F64.finite) (fun _ _ _ => rfl) (fun _ => conformsTo_quantity.mp)
    (fun _ _ _ h => by rw [encode, h]; rfl)
    fun found valid => decodeNumbers_collect documented valid .quantity found

theorem encodable_datetime (scale : TimeScale) : Encodable arrays (.datetime scale) :=
  encodable_of_rows documented.float64 .datetime .finite
    (fun value => value.number?.map F64.finite) (fun _ _ _ => rfl) (fun _ => conformsTo_datetime.mp)
    (fun _ _ _ h => by rw [encode, h]; rfl)
    fun found valid => decodeNumbers_collect documented valid .datetime found

theorem encodable_int : Encodable arrays .int := by
  refine encodable_of_rows documented.int64 .int id Value.int? (fun _ _ _ => rfl)
    (fun _ => conformsTo_int.mp) (fun _ _ _ h => by rw [encode, h]; rfl) fun found valid => ?_
  rw [decode, documented.int64.collect, map_id, masked_map]
  rfl

theorem encodable_bool : Encodable arrays .bool := by
  refine encodable_of_rows documented.boolean .bool id Value.bool? (fun _ _ _ => rfl)
    (fun _ => conformsTo_bool.mp) (fun _ _ _ h => by rw [encode, h]; rfl) fun found valid => ?_
  rw [decode, documented.boolean.collect, map_id, masked_map]
  rfl

theorem encodable_key (axis : Axis F) : Encodable arrays (.key axis) := by
  intro values valid h hvalid
  obtain ⟨found, hfound⟩ := Rows.exists_map_of_forall fun value hmem =>
    let ⟨key, hkey, hposition⟩ := conformsTo_key.mp (h value hmem)
    show ∃ key : {key // (axis.position key).isSome = true}, Value.key key.1 = value from
      ⟨⟨key, hposition⟩, hkey⟩
  subst hfound
  have hscalars : scalars (Value.position? axis) (found.map fun key => .key key.1) valid =
      .ok (masked valid (found.map fun key => (axis.position key.1).get key.2)) :=
    scalars_map (fun key _ => (Option.some_get key.2).symm) valid
  have hpositions : ∀ position,
      some position ∈ masked valid (found.map fun key => (axis.position key.1).get key.2) →
        ∃ value, axis.key position = some value ∧ axis.position value = some position := by
    intro position hmem
    obtain ⟨key, -, rfl⟩ := mem_map.mp (mem_of_some_mem_masked hmem)
    have hposition := (Option.some_get key.2).symm
    exact ⟨key.1, Axis.key_of_position hposition, hposition⟩
  obtain ⟨array, hnew, hmade, hdecode⟩ := keyArray_of_positions documented hpositions
  refine ⟨array, by rw [encode, hscalars]; exact hnew, ?_, ?_⟩
  · rw [length_map] at hvalid ⊢
    rwa [map_isSome_masked (by rwa [length_map]), length_map] at hmade
  · rw [decode, hdecode]
    show Except.ok _ = Except.ok _
    rw [masked_map, masked_map, map_map]
    refine congrArg _ (List.map_congr_left fun key _ => ?_)
    cases key with
    | none => rfl
    | some key =>
      have hkey := Axis.key_of_position (Option.some_get key.2).symm
      show (axis.key _).map Value.key = some (Value.key key.1)
      rw [hkey]
      rfl

end

/-!
# Nested values survive the way through Arrow
-/

variable {F : Type} {arrays : ArrowArrays F}
variable {type : DataType} {α : Type}

/-- A column without nulls. -/
theorem made_collect_some {kind : RowArray arrays.ArrayRef α}
    (hkind : arrays.RowsDocumented kind type) (rows : List α) :
    arrays.Made (kind.collect (rows.map some)) type (rowMask rows.length none) := by
  have hmade := hkind.made (rows.map some)
  rwa [map_map, show Option.isSome ∘ some = fun _ : α => true from rfl, List.map_const'] at hmade

theorem ArrowArrays.Made.fits {array : arrays.ArrayRef} {len : ℕ}
    (h : arrays.Made array type (rowMask len none)) :
    arrays.len array = len ∧ arrays.logicalNullCount array = 0 := by
  rw [h.len_eq, h.logicalNullCount, count_rowMask_none]
  exact ⟨length_rowMask fun _ h => (nomatch h), rfl⟩

theorem requireValues_some (values : List (Value F)) (parentValid : ℕ → Bool) :
    requireValues (values.map some) parentValid = .ok values :=
  Rows.collectRows_inverse fun _ _ _ => rfl

theorem pushAll_eq_zipWith {rows : List (List α)} {values : List α}
    (h : rows.length = values.length) :
    pushAll rows values = List.zipWith (fun row value => row ++ [value]) rows values := by
  induction rows generalizing values with
  | nil => rfl
  | cons row rows ih =>
    cases values with
    | nil => cases h
    | cons value values =>
      rw [pushAll, List.zipWith_cons_cons, ih (Nat.succ.inj h)]

theorem length_pushAll {rows : List (List α)} {values : List α} (h : rows.length = values.length) :
    (pushAll rows values).length = rows.length := by
  rw [pushAll_eq_zipWith h, List.length_zipWith]
  omega

theorem getElem?_pushAll {rows : List (List α)} {values : List α} (h : rows.length = values.length)
    {i : ℕ} {row : List α} {value : α} (hrow : rows[i]? = some row)
    (hvalue : values[i]? = some value) :
    (pushAll rows values)[i]? = some (row ++ [value]) := by
  rw [pushAll_eq_zipWith h, List.getElem?_zipWith, hrow, hvalue]

theorem length_constructorFields (fields : List (FieldType (WireType F))) :
    (constructorFields fields).length = fields.length := by
  rw [constructorFields_eq_map, length_map]

theorem mapM_algebraic (rows : List (ℕ × List (Value F))) :
    ((rows.map fun row => Value.algebraic row.1 row.2).mapM fun value =>
      okOr value.algebraic? mismatch) = .ok rows :=
  Rows.mapM_inverse (by intros; rfl)

variable [DecidableEq F]

/-- The values of the fields, one each. -/
def ConformFields (fields : List (FieldType (WireType F))) (values : List (Value F)) : Prop :=
  List.Forall₂ (fun field value => Value.conformsTo field.wire value = true) fields values

variable {position : ℕ}

/-- The value of a row for the first of the fields. -/
theorem exists_first {field : FieldType (WireType F)} {rest : List (FieldType (WireType F))}
    {values : List (Value F)} (h : ConformFields (field :: rest) (values.drop position)) :
    ∃ value, values[position]? = some value ∧
      values.drop position = value :: values.drop (position + 1) ∧
      Value.conformsTo field.wire value = true ∧ ConformFields rest (values.drop (position + 1)) := by
  have hlt : position < values.length := by
    by_contra hge
    rw [List.drop_eq_nil_of_le (by omega)] at h
    cases h
  rw [List.drop_eq_getElem_cons hlt] at h ⊢
  obtain ⟨hvalue, hrest⟩ := List.forall₂_cons.mp h
  exact ⟨_, List.getElem?_eq_getElem hlt, rfl, hvalue, hrest⟩

theorem decode_union (name : TypeName) {constructors : List (ConstructorType (WireType F))}
    (h : ∀ record, constructors ≠ [record]) (array : arrays.ArrayRef) :
    decode arrays (.algebraic name constructors) array = (do
      let columns ← okOr (arrays.asStructArray array) .arrowType
      let parts ← twoColumns columns
      let tags ← (decodeDictionary arrays parts.1 (constructorPosition constructors)).mapError
        (DictionaryError.toValueError .unknownConstructor)
      let variants ← okOr (arrays.asStructArray parts.2) .arrowType
      Checked.reject (variants.length ≠ constructors.length) .arrowType
      let decoded ← decodeVariants arrays constructors variants
      (List.range (arrays.len array)).mapM (decodeUnionRow arrays array tags decoded)) := by
  rw [decode]
  exact fun record hrecord => h record hrecord

variable [Zero F]

theorem encodable_complex (documented : arrays.Documented) (type : QuantityType) :
    Encodable arrays (.complex type) := by
  intro values valid h hvalid
  obtain ⟨found, rfl⟩ :=
    Rows.exists_map_of_forall fun value hmem => conformsTo_complex.mp (h value hmem)
  rw [length_map] at hvalid
  have hparts : (found.map fun parts => Value.complex parts.1 parts.2).mapM
      (fun value => okOr value.complex? mismatch) = .ok found :=
    Rows.mapM_inverse (by intros; rfl)
  have hre := made_collect_some documented.float64 (found.map fun part => F64.finite part.1)
  have him := made_collect_some documented.float64 (found.map fun part => F64.finite part.2)
  rw [map_map, length_map] at hre him
  obtain ⟨array, hnew, hmade, hback⟩ := documented.struct complexFields _
    (nulls found.length valid) found.length
    (.cons ⟨hre.dataType, hre.fits.1, fun _ => hre.fits.2⟩
      (.cons ⟨him.dataType, him.fits.1, fun _ => him.fits.2⟩ .nil)) (length_nulls hvalid)
  rw [nulls_getD hvalid] at hmade
  have hdecode : decodeComplex arrays array =
      .ok (masked valid (found.map fun parts => Value.complex parts.1 parts.2)) := by
    unfold decodeComplex
    rw [hback]
    show (okOr (arrays.float64Array.downcast _) _ >>= _) = _
    rw [documented.float64.collect]
    show (okOr (arrays.float64Array.downcast _) _ >>= _) = _
    rw [documented.float64.collect]
    have hlen : arrays.len array = found.length := by rw [hmade.len_eq, length_rowMask hvalid]
    refine Rows.range_mapM_ok (by rw [length_masked, length_map, hlen]) fun row value hvalue => ?_
    rw [getElem?_masked, List.getElem?_map, Option.map_map] at hvalue
    obtain ⟨parts, hparts, rfl⟩ := Option.map_eq_some_iff.mp hvalue
    have hrow := (List.getElem?_eq_some_iff.mp hparts).1
    rw [hmade.isValid_eq hvalid hrow, List.getElem?_map, List.getElem?_map, hparts]
    cases rowValid valid row <;> rfl
  refine ⟨array, ?_, ?_, ?_⟩
  · rw [encode, hparts, length_map]
    exact hnew
  · rwa [length_map]
  · rw [decode, hdecode]

theorem encodable_indexed (documented : arrays.Documented) (axis : Axis F) {element : WireType F}
    (ih : Encodable arrays element) : Encodable arrays (.indexed axis element) := by
  intro values valid h hvalid
  obtain ⟨found, hfound⟩ := Rows.exists_map_of_forall fun value hmem =>
    let ⟨entries, hentries, hconforms⟩ := conformsTo_indexed.mp (h value hmem)
    show ∃ entries : {entries : List (Value F) // entries.length = axis.len ∧
        ∀ entry ∈ entries, Value.conformsTo element entry = true}, Value.indexed entries.1 = value
      from ⟨⟨entries, hconforms⟩, hentries⟩
  subst hfound
  have hentries : ((found.map fun entries => Value.indexed entries.1).mapM fun value =>
      okOr (value.indexed?.filter fun row => row.length = axis.len) mismatch) =
        .ok (found.map Subtype.val) := by
    rw [List.mapM_map]
    refine Rows.mapM_ok_of_forall fun entries _ => ?_
    show okOr (Option.filter _ (some entries.1)) mismatch = _
    rw [Option.filter_some, if_pos (decide_eq_true entries.2.1)]
    rfl
  have hlens : ∀ row ∈ found.map Subtype.val, row.length = axis.len :=
    List.forall_mem_map.mpr fun entries _ => entries.2.1
  have hlen := Rows.length_flatten hlens
  obtain ⟨child, hchild, hmade, hdecode⟩ := ih (found.map Subtype.val).flatten none
    (fun value hmem => by
      obtain ⟨row, hrow, hvalue⟩ := List.mem_flatten.mp hmem
      obtain ⟨entries, -, rfl⟩ := mem_map.mp hrow
      exact entries.2.2 value hvalue) fun _ hnone => (nomatch hnone)
  rw [length_map] at hvalid hlen
  obtain ⟨array, hnew, hmade', hback⟩ := documented.fixedSizeList
    (.new listItemField (dataType element) false) axis.len child (nulls found.length valid)
    found.length hmade.dataType (hmade.fits.1.trans hlen) hmade.fits.2 (length_nulls hvalid)
  rw [nulls_getD hvalid] at hmade'
  have hsize : axisSize axis.len = axis.len := axisSize_of_lt axis.len_lt
  refine ⟨array, ?_, ?_, ?_⟩
  · rw [encode, hentries]
    show (encode arrays element (found.map Subtype.val).flatten none >>= _) = _
    rw [hchild, length_map]
    show arrays.fixedSizeListArray _ (axisSize axis.len) _ _ _ = _
    rw [hsize]
    exact hnew
  · rw [length_map]
    show arrays.Made array (.fixedSizeList _ (axisSize axis.len)) _
    rw [hsize]
    exact hmade'
  · rw [decode, hback]
    have hfits : Checked.reject (Int.toNat? (axis.len : ℤ) ≠ some axis.len)
        (ValueDecodeError.arrowType : ValueDecodeError F) = .ok () :=
      Checked.reject_eq_ok.mpr (not_not.mpr rfl)
    show (Checked.reject (Int.toNat? (axis.len : ℤ) ≠ some axis.len) _ >>= _) = _
    rw [hfits]
    show ((decode arrays element child).mapError _ >>= _) = _
    rw [hdecode, masked_none]
    show ((requireValues _ _).mapError _ >>= _) = _
    rw [requireValues_some]
    show Except.ok _ = Except.ok _
    rw [Rows.chunks_flatten axis.len_pos hlens]
    refine congrArg _ (List.ext_getElem? fun row => ?_)
    rw [getElem?_masked, List.getElem?_map, List.getElem?_zipIdx, List.getElem?_map,
      List.getElem?_map]
    cases hrow : found[row]? with
    | none => rfl
    | some entries =>
      have hlt := (List.getElem?_eq_some_iff.mp hrow).1
      show some (if arrays.isValid array (0 + row) then _ else _) = _
      rw [Nat.zero_add, hmade'.isValid_eq hvalid hlt]
      rfl

/-! ## Structs -/

variable {rows : List (Option (List (Value F)))}

theorem encodeColumns_spec {fields : List (FieldType (WireType F))}
    (ih : ∀ field ∈ fields, Encodable arrays field.wire)
    (hwires : ∀ field ∈ fields, field.wire.Valid)
    (h : ∀ values, some values ∈ rows → ConformFields fields (values.drop position)) :
    ∃ columns, encodeColumns arrays fields position rows = .ok columns ∧
      arrays.Fit (constructorFields fields) columns rows.length ∧
      ∀ valid acc, acc.length = rows.length → ∃ result,
        decodeColumns arrays fields columns valid acc = .ok result ∧
        result.length = rows.length ∧
        ∀ (i : ℕ) values before, rows[i]? = some (some values) → acc[i]? = some before →
          result[i]? = some (before ++ values.drop position) := by
  induction fields generalizing position with
  | nil =>
    refine ⟨[], rfl, .nil, fun valid acc hacc => ⟨acc, rfl, hacc, fun i values before hi hbefore => ?_⟩⟩
    have hnil := List.forall₂_nil_left_iff.mp (h values (List.mem_of_getElem? hi))
    rw [hnil, List.append_nil, hbefore]
  | cons field rest ihrest =>
    obtain ⟨name, wire⟩ := field
    rw [List.forall_mem_cons] at ih hwires
    -- the column of the first field, with placeholders in the rows without fields
    let value : Option (List (Value F)) → Value F := fun row =>
      (row.bind fun values => values[position]?).getD (placeholder wire)
    have hvalues : rows.mapM (fieldValue wire position) = .ok (rows.map value) := by
      refine Rows.mapM_ok_of_forall fun row hmem => ?_
      cases row with
      | none => rfl
      | some values =>
        obtain ⟨first, hfirst, -⟩ := exists_first (h values hmem)
        show okOr values[position]? _ = .ok (values[position]?.getD _)
        rw [hfirst]
        rfl
    have hconforms : ∀ v ∈ rows.map value, Value.conformsTo wire v = true := by
      refine List.forall_mem_map.mpr fun row hmem => ?_
      cases row with
      | none => exact conformsTo_placeholder hwires.1
      | some values =>
        obtain ⟨first, hfirst, -, hvalue, -⟩ := exists_first (h values hmem)
        show Value.conformsTo wire (values[position]?.getD _) = true
        rw [hfirst]
        exact hvalue
    obtain ⟨column, hcolumn, hmade, hdecode⟩ := ih.1 (rows.map value) none hconforms
      fun _ hnone => (nomatch hnone)
    have hrest : ∀ values, some values ∈ rows →
        ConformFields rest (values.drop (position + 1)) := fun values hmem => by
      obtain ⟨_, -, -, -, hrest⟩ := exists_first (h values hmem)
      exact hrest
    obtain ⟨columns, hcolumns, hfit, hback⟩ := ihrest ih.2 hwires.2 hrest
    rw [length_map] at hmade
    refine ⟨column :: columns, ?_, .cons ⟨hmade.dataType, hmade.fits.1, fun _ => hmade.fits.2⟩ hfit,
      fun valid acc hacc => ?_⟩
    · rw [encodeColumns, hvalues]
      show (encode arrays wire _ none >>= _) = _
      rw [hcolumn]
      show (encodeColumns arrays rest (position + 1) rows >>= _) = _
      rw [hcolumns]
      rfl
    · have hlen : acc.length = (rows.map value).length := hacc.trans (length_map _).symm
      obtain ⟨result, hresult, hrlen, hrows⟩ := hback valid (pushAll acc (rows.map value))
        ((length_pushAll hlen).trans hacc)
      refine ⟨result, ?_, hrlen, fun i values before hi hbefore => ?_⟩
      · rw [decodeColumns, hdecode, masked_none]
        show (requireValues _ valid >>= _) = _
        rw [requireValues_some]
        exact hresult
      · obtain ⟨first, hfirst, hdrop, -⟩ := exists_first (h values (List.mem_of_getElem? hi))
        have hpushed := getElem?_pushAll hlen hbefore (by
          rw [List.getElem?_map, hi]
          show some (values[position]?.getD _) = some first
          rw [hfirst]
          rfl)
        rw [hrows i values _ hi hpushed, hdrop, List.append_assoc]
        rfl

theorem encodeConstructor_spec (documented : arrays.Documented)
    {constructor : ConstructorType (WireType F)}
    (ih : ∀ field ∈ constructor.fields, Encodable arrays field.wire)
    (hwires : ∀ field ∈ constructor.fields, field.wire.Valid) {valid : Option (List Bool)}
    (hvalid : ∀ marks ∈ valid, marks.length = rows.length)
    (h : ∀ values, some values ∈ rows → ConformFields constructor.fields values) :
    ∃ array, encodeConstructor arrays constructor rows valid = .ok array ∧
      arrays.Made array (.struct (constructorFields constructor.fields))
        (rowMask rows.length valid) ∧
      ∃ columns, arrays.asStructArray array = some columns ∧
        ∀ marked, ∃ result, decodeConstructor arrays constructor array columns marked = .ok result ∧
          result.length = rows.length ∧
          ∀ (i : ℕ) values, rows[i]? = some (some values) → result[i]? = some values := by
  obtain ⟨name, fields⟩ := constructor
  have hstart : ∀ values, some values ∈ rows → ConformFields fields (values.drop 0) := h
  obtain ⟨columns, hcolumns, hfit, hback⟩ := encodeColumns_spec ih hwires hstart
  obtain ⟨array, hnew, hmade, hstruct⟩ := documented.struct _ _ _ _ hfit (length_nulls hvalid)
  rw [nulls_getD hvalid] at hmade
  refine ⟨array, ?_, hmade, columns, hstruct, fun marked => ?_⟩
  · rw [encodeConstructor, hcolumns]
    exact hnew
  · have hlen : arrays.len array = rows.length := by rw [hmade.len_eq, length_rowMask hvalid]
    obtain ⟨result, hresult, hrlen, hrows⟩ := hback marked (List.replicate (arrays.len array) [])
      (by rw [List.length_replicate, hlen])
    refine ⟨result, ?_, hrlen, fun i values hi => ?_⟩
    · have hcount : columns.length = fields.length :=
        hfit.length_eq.symm.trans (length_constructorFields fields)
      rw [decodeConstructor, Checked.reject_of_not (not_not.mpr hcount)]
      exact hresult
    · have hlt := (List.getElem?_eq_some_iff.mp hi).1
      exact hrows i values [] hi (List.getElem?_replicate_of_lt (hlen.symm ▸ hlt))

/-- A type with one constructor. -/
theorem encodable_record (documented : arrays.Documented) (name : TypeName)
    (record : ConstructorType (WireType F))
    (ih : ∀ field ∈ record.fields, Encodable arrays field.wire)
    (hwires : ∀ field ∈ record.fields, field.wire.Valid) :
    Encodable arrays (.algebraic name [record]) := by
  intro values valid h hvalid
  obtain ⟨rows, rfl⟩ := Rows.exists_map_of_forall fun value hmem =>
    let ⟨row, hrow, _⟩ := conformsTo_algebraic.mp (h value hmem)
    show ∃ row : ℕ × List (Value F), Value.algebraic row.1 row.2 = value from ⟨row, hrow⟩
  rw [length_map] at hvalid
  have hrows : ∀ row ∈ rows, row.1 = 0 ∧ ConformFields record.fields row.2 := by
    intro row hmem
    have hrow := h _ (List.mem_map_of_mem hmem)
    rw [Value.conformsTo, conformsConstructor_iff] at hrow
    obtain ⟨found, hfound, hfields⟩ := hrow
    rw [List.getElem?_singleton] at hfound
    split_ifs at hfound with hzero
    cases hfound
    exact ⟨hzero, hfields⟩
  have hvalues : ∀ values, some values ∈ rows.map (fun row => some row.2) →
      ConformFields record.fields values := by
    intro values hmem
    obtain ⟨row, hrow, hvalues⟩ := mem_map.mp hmem
    cases hvalues
    exact (hrows row hrow).2
  have hmarks : ∀ marks ∈ valid, marks.length = (rows.map fun row => some row.2).length := by
    rwa [length_map]
  obtain ⟨array, hnew, hmade, columns, hback, hdecode⟩ :=
    encodeConstructor_spec documented ih hwires hmarks hvalues
  rw [length_map] at hmade
  obtain ⟨result, hresult, hlen, hfields⟩ := hdecode (arrays.isValid array)
  refine ⟨array, ?_, ?_, ?_⟩
  · rw [encode, mapM_algebraic]
    exact hnew
  · rwa [length_map]
  · rw [decode, hback]
    show (decodeConstructor arrays record array columns (arrays.isValid array) >>= _) = _
    rw [hresult]
    show Except.ok _ = Except.ok _
    refine congrArg _ (List.ext_getElem? fun i => ?_)
    rw [getElem?_masked, List.getElem?_map, List.getElem?_zipIdx, List.getElem?_map]
    cases hi : rows[i]? with
    | none =>
      rw [length_map] at hlen
      rw [List.getElem?_eq_none_iff] at hi
      rw [List.getElem?_eq_none (by omega)]
      rfl
    | some row =>
      have hlt := (List.getElem?_eq_some_iff.mp hi).1
      rw [hfields i row.2 (by rw [List.getElem?_map, hi]; rfl)]
      show some (if arrays.isValid array (0 + i) then some (Value.algebraic 0 row.2) else none) =
        some (if rowValid valid i then some (Value.algebraic row.1 row.2) else none)
      rw [Nat.zero_add, hmade.isValid_eq hvalid hlt, (hrows row (List.mem_of_getElem? hi)).1]

end ProvenGraphcal.Protocol
