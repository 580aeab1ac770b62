import ProvenGraphcal.Protocol.ValueRoundTrip

/-!
# Decoded values conform to their type
-/

namespace ProvenGraphcal.Protocol

open Checked (bind_eq_ok bind_pure_eq_ok mapError_eq_ok reject_eq_ok)

variable {F : Type} {arrays : ArrowArrays F}
variable {array : arrays.ArrayRef}

theorem ArrowArrays.lt_of_isValid {row : ℕ} (h : arrays.isValid array row = true) :
    row < arrays.len array := by
  by_contra hge
  rw [ArrowArrays.isValid, List.getD_eq_getElem?_getD, List.getElem?_eq_none (not_lt.mp hge)] at h
  cases h

variable {α : Type}

/-- Rows that are there exactly where the array is not null. -/
theorem map_isSome_of_range {rows : List (Option α)} (hlen : rows.length = arrays.len array)
    (h : ∀ (i : ℕ) row, rows[i]? = some row → row.isSome = arrays.isValid array i) :
    rows.map Option.isSome = arrays.valid array := by
  refine List.ext_getElem ((List.length_map _).trans hlen) fun i hi hi' => ?_
  rw [List.length_map] at hi
  have hrow := h i _ (List.getElem?_eq_getElem hi)
  rw [ArrowArrays.isValid, List.getD_eq_getElem?_getD, List.getElem?_eq_getElem hi'] at hrow
  rw [List.getElem_map]
  exact hrow

/-- What a checked step leaves of a row: a value with the property, when there was one. -/
def RowFits {α β : Type} (property : β → Prop) (a : Option α) (b : Option β) : Prop :=
  b.isSome = a.isSome ∧ ∀ value, b = some value → property value

theorem RowFits.rows {β : Type} {property : β → Prop} {l : List (Option α)} {r : List (Option β)}
    (h : List.Forall₂ (RowFits property) l r) :
    r.map Option.isSome = l.map Option.isSome ∧ ∀ value, some value ∈ r → property value := by
  induction h with
  | nil => exact ⟨rfl, fun value hmem => (nomatch hmem)⟩
  | cons hrow _ ih =>
    refine ⟨by rw [List.map_cons, List.map_cons, hrow.1, ih.1], fun value hmem => ?_⟩
    rcases List.mem_cons.mp hmem with heq | hmem
    · exact hrow.2 value heq.symm
    · exact ih.2 value hmem

theorem RowFits.map_rows {β : Type} (make : α → β) (rows : List (Option α)) :
    (rows.map fun row => row.map make).map Option.isSome = rows.map Option.isSome ∧
      ∀ value, some value ∈ rows.map (fun row => row.map make) → ∃ a, make a = value := by
  refine RowFits.rows (List.forall₂_map_right_iff.mpr (List.forall₂_same.mpr fun row _ => ?_))
  exact ⟨Option.isSome_map, fun value hvalue =>
    let ⟨a, _, ha⟩ := Option.map_eq_some_iff.mp hvalue
    ⟨a, ha⟩⟩

/-! ## Scalars -/

/-- The decoded rows are there where the array is not null, and conform to the type. -/
def Sound [DecidableEq F] (arrays : ArrowArrays F) (wire : WireType F) : Prop :=
  ∀ array rows, decode arrays wire array = .ok rows →
    rows.map Option.isSome = arrays.valid array ∧
      ∀ value, some value ∈ rows → Value.conformsTo wire value = true

theorem decodeNumbers_sound (documented : arrays.Documented) {number : F → Value F}
    {rows : List (Option (Value F))} (h : decodeNumbers arrays number array = .ok rows) :
    rows.map Option.isSome = arrays.valid array ∧
      ∀ value, some value ∈ rows → ∃ finite, number finite = value := by
  obtain ⟨raw, hraw, h⟩ := bind_eq_ok.mp h
  rw [← documented.float64.valid _ _ (okOr_eq_ok.mp hraw)]
  refine RowFits.rows (Rows.forall₂_of_collectRows h fun value row found hfound => ?_)
  cases value with
  | none =>
    cases hfound
    exact ⟨rfl, fun _ h => (nomatch h)⟩
  | some value =>
    cases value with
    | finite value =>
      cases hfound
      exact ⟨rfl, fun _ h => ⟨value, Option.some.inj h⟩⟩
    | notFinite => cases hfound

variable {rows : List (Option ℕ)}

theorem decodeDictionary_sound (documented : arrays.Documented) {resolve : String → Option ℕ}
    (h : decodeDictionary arrays array resolve = .ok rows) :
    rows.map Option.isSome = arrays.valid array ∧
      ∀ position, some position ∈ rows → ∃ label, resolve label = some position := by
  obtain ⟨⟨keys, values⟩, hdictionary, h⟩ := bind_eq_ok.mp h
  obtain ⟨labels, -, h⟩ := bind_eq_ok.mp h
  rw [← documented.dictionaryValid _ _ _ (okOr_eq_ok.mp hdictionary)]
  refine RowFits.rows (Rows.forall₂_of_collectRows h fun code row found hfound => ?_)
  cases code with
  | none =>
    cases hfound
    exact ⟨rfl, fun _ h => (nomatch h)⟩
  | some code =>
    unfold dictionaryRow at hfound
    dsimp only at hfound
    split at hfound
    · cases hfound
    · next entry hentry =>
      split at hfound
      · cases hfound
      · next position hposition =>
        cases hfound
        refine ⟨rfl, fun _ h => ?_⟩
        cases h
        rw [List.getElem?_map, Option.join_eq_some_iff, Option.map_eq_some_iff] at hposition
        obtain ⟨label, -, hlabel⟩ := hposition
        obtain ⟨text, -, htext⟩ := Option.bind_eq_some_iff.mp hlabel
        exact ⟨text, htext⟩

theorem requireValues_eq_ok {values : List (Option (Value F))} {parentValid : ℕ → Bool}
    {entries : List (Value F)} (h : requireValues values parentValid = .ok entries) :
    entries.length = values.length ∧ ∀ (i : ℕ) entry, entries[i]? = some entry →
      parentValid i = true → values[i]? = some (some entry) := by
  obtain ⟨hlen, hrows⟩ := Rows.collectRows_eq_ok.mp h
  refine ⟨hlen, fun i entry hentry hparent => ?_⟩
  have hi : i < values.length := hlen ▸ (List.getElem?_eq_some_iff.mp hentry).1
  have hvalue := List.getElem?_eq_getElem hi
  obtain ⟨found, hfound, hstep⟩ := hrows i _ hvalue
  rw [hentry] at hfound
  cases hfound
  rw [hvalue]
  cases hget : values[i] with
  | none =>
    rw [hget] at hstep
    rw [if_pos hparent] at hstep
    cases hstep
  | some value =>
    rw [hget] at hstep
    cases hstep
    rfl

theorem length_eq_of_map_isSome {rows : List (Option α)}
    (h : rows.map Option.isSome = arrays.valid array) : rows.length = arrays.len array :=
  (List.length_map _).symm.trans (congrArg List.length h)

variable [DecidableEq F]
variable {axis : Axis F}

/-- A row resolved to the position of a key. -/
theorem rowFits_position {value : KeyValue F} {a : α} {e : ValueDecodeError F} {row : Option ℕ}
    (h : (okOr (axis.position value) e).map some = .ok row) :
    RowFits (fun position => ∃ value, axis.position value = some position) (some a) row := by
  cases hposition : axis.position value with
  | none =>
    rw [hposition] at h
    cases h
  | some position =>
    rw [hposition] at h
    cases h
    exact ⟨rfl, fun _ h => ⟨value, hposition.trans h⟩⟩

theorem decodeKeyPositions_sound (documented : arrays.Documented)
    (h : decodeKeyPositions arrays axis array = .ok rows) :
    rows.map Option.isSome = arrays.valid array ∧
      ∀ position, some position ∈ rows → ∃ value, axis.position value = some position := by
  unfold decodeKeyPositions at h
  split at h
  · obtain ⟨hrows, hlabels⟩ := decodeDictionary_sound documented (mapError_eq_ok.mp h)
    refine ⟨hrows, fun position hmem => ?_⟩
    obtain ⟨label, hlabel⟩ := hlabels position hmem
    unfold variantPosition at hlabel
    split at hlabel
    · exact ⟨_, hlabel⟩
    · cases hlabel
  · obtain ⟨raw, hraw, h⟩ := bind_eq_ok.mp h
    rw [← documented.uint32.valid _ _ (okOr_eq_ok.mp hraw)]
    refine RowFits.rows (Rows.forall₂_of_collectRows h fun position row found hfound => ?_)
    cases position with
    | none =>
      cases hfound
      exact ⟨rfl, fun _ h => (nomatch h)⟩
    | some position => exact rowFits_position hfound
  · obtain ⟨raw, hraw, h⟩ := bind_eq_ok.mp h
    rw [← documented.float64.valid _ _ (okOr_eq_ok.mp hraw)]
    refine RowFits.rows (Rows.forall₂_of_collectRows h fun coordinate row found hfound => ?_)
    cases coordinate with
    | none =>
      cases hfound
      exact ⟨rfl, fun _ h => (nomatch h)⟩
    | some coordinate =>
      obtain ⟨finite, -, hfound⟩ := bind_eq_ok.mp hfound
      exact rowFits_position hfound

theorem sound_key (documented : arrays.Documented) (axis : Axis F) : Sound arrays (.key axis) := by
  intro array rows h
  obtain ⟨positions, hpositions, rfl⟩ := bind_pure_eq_ok.mp h
  obtain ⟨hrows, hkeys⟩ := decodeKeyPositions_sound documented hpositions
  have hkey : ∀ position, some position ∈ positions →
      ∃ value, axis.position value = some position ∧ axis.key position = some value := by
    intro position hmem
    obtain ⟨value, hvalue⟩ := hkeys position hmem
    exact ⟨value, hvalue, Axis.key_of_position hvalue⟩
  refine ⟨?_, fun value hmem => ?_⟩
  · rw [← hrows, List.map_map]
    refine List.map_congr_left fun position hmem => ?_
    cases position with
    | none => rfl
    | some position =>
      obtain ⟨value, -, hvalue⟩ := hkey position hmem
      show ((axis.key position).map Value.key).isSome = true
      rw [hvalue]
      rfl
  · obtain ⟨position, hmem, hvalue⟩ := List.mem_map.mp hmem
    cases position with
    | none => cases hvalue
    | some position =>
      obtain ⟨key, hposition, hkey⟩ := hkey position hmem
      have hvalue : (axis.key position).map Value.key = some value := hvalue
      rw [hkey] at hvalue
      cases hvalue
      show (axis.position key).isSome = true
      rw [hposition]
      rfl

theorem sound_complex (type : QuantityType) : Sound arrays (.complex type) := by
  intro array rows h
  obtain ⟨columns, -, h⟩ := bind_eq_ok.mp h
  obtain ⟨parts, -, h⟩ := bind_eq_ok.mp h
  obtain ⟨re, -, h⟩ := bind_eq_ok.mp h
  obtain ⟨im, -, h⟩ := bind_eq_ok.mp h
  obtain ⟨hlen, hrows⟩ := Rows.range_mapM_eq_ok.mp h
  have hrow : ∀ (i : ℕ) row, rows[i]? = some row →
      complexRow (arrays.isValid array i) re[i]?.join im[i]?.join i = .ok row := by
    intro i row hrow
    obtain ⟨found, hfound, hstep⟩ := hrows i (hlen ▸ (List.getElem?_eq_some_iff.mp hrow).1)
    rw [hrow] at hfound
    cases hfound
    exact hstep
  have hcases : ∀ (valid : Bool) (re im : Option (F64 F)) (i : ℕ) (row : Option (Value F)),
      complexRow valid re im i = .ok row →
        row.isSome = valid ∧ ∀ value, row = some value → ∃ re im, value = .complex re im := by
    intro valid re im i row h
    unfold complexRow at h
    split_ifs at h with hvalid
    · cases h
      exact ⟨hvalid.symm, fun _ h => (nomatch h)⟩
    · split at h
      · obtain ⟨re, -, h⟩ := bind_eq_ok.mp h
        obtain ⟨im, -, h⟩ := bind_eq_ok.mp h
        cases h
        exact ⟨(Bool.of_not_eq_false hvalid).symm, fun _ h => ⟨re, im, (Option.some.inj h).symm⟩⟩
      · cases h
  refine ⟨map_isSome_of_range hlen fun i row hi => (hcases _ _ _ _ _ (hrow i row hi)).1,
    fun value hmem => ?_⟩
  obtain ⟨i, hi⟩ := List.mem_iff_getElem?.mp hmem
  obtain ⟨re, im, rfl⟩ := (hcases _ _ _ _ _ (hrow i _ hi)).2 value rfl
  rfl

theorem sound_indexed (documented : arrays.Documented) (axis : Axis F) {element : WireType F}
    (ih : Sound arrays element) : Sound arrays (.indexed axis element) := by
  intro array rows h
  obtain ⟨⟨size, elements⟩, hlist, h⟩ := bind_eq_ok.mp h
  obtain ⟨_, hsize, h⟩ := bind_eq_ok.mp h
  obtain ⟨values, hvalues, h⟩ := bind_eq_ok.mp h
  obtain ⟨entries, hentries, rfl⟩ := bind_pure_eq_ok.mp h
  rw [reject_eq_ok, not_not] at hsize
  have hsize : size = axis.len := Int.mem_toNat?.mp hsize
  subst hsize
  have hlen := documented.fixedSizeListLen _ _ _ (okOr_eq_ok.mp hlist)
  obtain ⟨hvalid, hconforms⟩ := ih elements values (mapError_eq_ok.mp hvalues)
  obtain ⟨hcount, hrequired⟩ := requireValues_eq_ok (mapError_eq_ok.mp hentries)
  have htotal : entries.length = axis.len * arrays.len array :=
    hcount.trans ((length_eq_of_map_isSome hvalid).trans hlen)
  have hchunks := Rows.length_chunks axis.len_pos htotal
  have hrow : ∀ (i : ℕ) row, ((Rows.chunks axis.len entries).zipIdx.map fun entry =>
      if arrays.isValid array entry.2 then some (Value.indexed entry.1) else none)[i]? = some row →
        i < arrays.len array ∧ row = if arrays.isValid array i then
          some (Value.indexed ((entries.drop (i * axis.len)).take axis.len)) else none := by
    intro i row hrow
    rw [List.getElem?_map, List.getElem?_zipIdx, Nat.zero_add] at hrow
    obtain ⟨entry, hentry, rfl⟩ := Option.map_eq_some_iff.mp hrow
    obtain ⟨chunk, hchunk, rfl⟩ := Option.map_eq_some_iff.mp hentry
    have hi : i < arrays.len array := hchunks ▸ (List.getElem?_eq_some_iff.mp hchunk).1
    rw [Rows.getElem?_chunks axis.len_pos htotal hi] at hchunk
    cases hchunk
    exact ⟨hi, rfl⟩
  refine ⟨map_isSome_of_range ?_ fun i row hi => ?_, fun value hmem => ?_⟩
  · rw [List.length_map, List.length_zipIdx, hchunks]
  · rw [(hrow i row hi).2]
    cases arrays.isValid array i <;> rfl
  · obtain ⟨i, hi⟩ := List.mem_iff_getElem?.mp hmem
    obtain ⟨hlt, hvalue⟩ := hrow i _ hi
    split_ifs at hvalue with hparent
    cases hvalue
    have hfits : i * axis.len + axis.len ≤ entries.length := by
      rw [htotal, ← Nat.succ_mul, Nat.mul_comm]
      exact Nat.mul_le_mul_left axis.len hlt
    refine conformsTo_indexed.mpr ⟨_, rfl, Rows.length_cut hfits, fun entry hentry => ?_⟩
    obtain ⟨j, hj⟩ := List.mem_iff_getElem?.mp hentry
    have hj : (Rows.cut (i * axis.len) axis.len entries)[j]? = some entry := hj
    rw [Rows.getElem?_cut] at hj
    split_ifs at hj with hjlt
    have hdiv : (i * axis.len + j) / axis.len = i := by
      rw [Nat.mul_comm, Nat.mul_add_div axis.len_pos, Nat.div_eq_of_lt hjlt, Nat.add_zero]
    have hentry := hrequired _ entry hj (by rw [hdiv]; exact hparent)
    exact hconforms entry (List.mem_of_getElem? hentry)

variable {columns : List arrays.ArrayRef} {marked : ℕ → Bool}

theorem decodeColumns_sound {fields : List (FieldType (WireType F))}
    (ih : ∀ field ∈ fields, Sound arrays field.wire) (hcount : columns.length = fields.length)
    {acc rows : List (List (Value F))} (hlens : ∀ column ∈ columns, arrays.len column = acc.length)
    (h : decodeColumns arrays fields columns marked acc = .ok rows) :
    rows.length = acc.length ∧ ∀ (i : ℕ) before, acc[i]? = some before →
      ∃ values, rows[i]? = some (before ++ values) ∧
        (marked i = true → ConformFields fields values) := by
  induction fields generalizing columns acc with
  | nil =>
    rw [List.eq_nil_of_length_eq_zero hcount] at h
    cases h
    refine ⟨rfl, fun i before hi => ⟨[], by rw [hi, List.append_nil], fun _ => .nil⟩⟩
  | cons field rest ihrest =>
    obtain ⟨name, wire⟩ := field
    cases columns with
    | nil => cases hcount
    | cons column columns =>
      rw [List.forall_mem_cons] at ih hlens
      obtain ⟨values, hvalues, h⟩ := bind_eq_ok.mp h
      obtain ⟨entries, hentries, h⟩ := bind_eq_ok.mp h
      obtain ⟨hvalid, hconforms⟩ := ih.1 column values hvalues
      obtain ⟨hlen, hrequired⟩ := requireValues_eq_ok hentries
      have hsame : acc.length = entries.length := by
        rw [hlen, length_eq_of_map_isSome hvalid, hlens.1]
      have hpush := length_pushAll hsame
      obtain ⟨hrows, hspec⟩ := ihrest ih.2 (Nat.succ.inj hcount)
        (fun column hmem => (hlens.2 column hmem).trans hpush.symm) h
      refine ⟨hrows.trans hpush, fun i before hi => ?_⟩
      have hlt := (List.getElem?_eq_some_iff.mp hi).1
      obtain ⟨entry, hentry⟩ : ∃ entry, entries[i]? = some entry :=
        ⟨_, List.getElem?_eq_getElem (hsame ▸ hlt)⟩
      obtain ⟨values', hvalues', hconforms'⟩ := hspec i _ (getElem?_pushAll hsame hi hentry)
      refine ⟨entry :: values', by rw [hvalues', List.append_assoc]; rfl, fun hmarked => ?_⟩
      exact .cons (hconforms entry (List.mem_of_getElem? (hrequired i entry hentry hmarked)))
        (hconforms' hmarked)

/-- Where the struct is valid, the rows hold a value of each field. -/
theorem decodeConstructor_sound (documented : arrays.Documented)
    {constructor : ConstructorType (WireType F)}
    (ih : ∀ field ∈ constructor.fields, Sound arrays field.wire)
    (hcolumns : arrays.asStructArray array = some columns) {rows : List (List (Value F))}
    (h : decodeConstructor arrays constructor array columns marked = .ok rows) :
    rows.length = arrays.len array ∧ ∀ (i : ℕ) values, rows[i]? = some values →
      marked i = true → ConformFields constructor.fields values := by
  obtain ⟨name, fields⟩ := constructor
  obtain ⟨_, hcount, h⟩ := bind_eq_ok.mp h
  rw [reject_eq_ok, not_not] at hcount
  have hlens : ∀ column ∈ columns, arrays.len column =
      (List.replicate (arrays.len array) ([] : List (Value F))).length := fun column hmem => by
    rw [List.length_replicate]
    exact documented.structLen _ _ hcolumns column hmem
  obtain ⟨hlen, hspec⟩ := decodeColumns_sound ih hcount hlens h
  rw [List.length_replicate] at hlen
  refine ⟨hlen, fun i values hi hmarked => ?_⟩
  have hlt := (List.getElem?_eq_some_iff.mp hi).1
  obtain ⟨values', hvalues', hconforms⟩ :=
    hspec i [] (List.getElem?_replicate_of_lt (hlen ▸ hlt))
  rw [hi] at hvalues'
  cases hvalues'
  exact hconforms hmarked

theorem sound_record (documented : arrays.Documented) (name : TypeName)
    (record : ConstructorType (WireType F))
    (ih : ∀ field ∈ record.fields, Sound arrays field.wire) :
    Sound arrays (.algebraic name [record]) := by
  intro array rows h
  obtain ⟨columns, hcolumns, h⟩ := bind_eq_ok.mp h
  obtain ⟨fields, hfields, rfl⟩ := bind_pure_eq_ok.mp h
  obtain ⟨hlen, hconforms⟩ :=
    decodeConstructor_sound documented ih (okOr_eq_ok.mp hcolumns) hfields
  have hrow : ∀ (i : ℕ) row, (fields.zipIdx.map fun entry =>
      if arrays.isValid array entry.2 then some (Value.algebraic 0 entry.1) else none)[i]? =
        some row → ∃ values, fields[i]? = some values ∧
          row = if arrays.isValid array i then some (Value.algebraic 0 values) else none := by
    intro i row hrow
    rw [List.getElem?_map, List.getElem?_zipIdx, Nat.zero_add] at hrow
    obtain ⟨entry, hentry, rfl⟩ := Option.map_eq_some_iff.mp hrow
    obtain ⟨values, hvalues, rfl⟩ := Option.map_eq_some_iff.mp hentry
    exact ⟨values, hvalues, rfl⟩
  refine ⟨map_isSome_of_range ?_ fun i row hi => ?_, fun value hmem => ?_⟩
  · rw [List.length_map, List.length_zipIdx, hlen]
  · obtain ⟨values, -, hrow⟩ := hrow i row hi
    rw [hrow]
    cases arrays.isValid array i <;> rfl
  · obtain ⟨i, hi⟩ := List.mem_iff_getElem?.mp hmem
    obtain ⟨values, hvalues, hvalue⟩ := hrow i _ hi
    split_ifs at hvalue with hvalid
    cases hvalue
    exact conformsTo_algebraic.mpr ⟨(0, values), rfl, record, rfl, hconforms i values hvalues hvalid⟩

variable {constructors : List (ConstructorType (WireType F))}

section

variable (documented : arrays.Documented)

include documented

theorem decodeVariants_sound
    (ih : ∀ constructor ∈ constructors, ∀ field ∈ constructor.fields, Sound arrays field.wire)
    {decoded : List (arrays.ArrayRef × List (List (Value F)))}
    (h : decodeVariants arrays constructors columns = .ok decoded) :
    ∀ (k : ℕ) variant results, decoded[k]? = some (variant, results) →
      ∃ constructor, constructors[k]? = some constructor ∧ results.length = arrays.len variant ∧
        ∀ (i : ℕ) values, results[i]? = some values → arrays.isValid variant i = true →
          ConformFields constructor.fields values := by
  induction constructors generalizing columns decoded with
  | nil =>
    rw [decodeVariants] at h
    · cases h
      exact fun k variant results hk => (nomatch hk)
    · exact fun _ _ _ _ hnil => (nomatch hnil)
  | cons constructor rest ihrest =>
    rw [List.forall_mem_cons] at ih
    cases columns with
    | nil =>
      rw [decodeVariants] at h
      · cases h
        exact fun k variant results hk => (nomatch hk)
      · exact fun _ _ _ _ _ hnil => (nomatch hnil)
    | cons column columns =>
      obtain ⟨parts, hparts, h⟩ := bind_eq_ok.mp h
      obtain ⟨rows, hrows, h⟩ := bind_eq_ok.mp h
      obtain ⟨others, hothers, rfl⟩ := bind_pure_eq_ok.mp h
      intro k variant results hk
      cases k with
      | zero =>
        cases hk
        obtain ⟨hlen, hspec⟩ :=
          decodeConstructor_sound documented ih.1 (okOr_eq_ok.mp hparts) hrows
        exact ⟨constructor, rfl, hlen, hspec⟩
      | succ k => exact ihrest ih.2 hothers k variant results hk

theorem sound_union (name : TypeName) (hunion : ∀ record, constructors ≠ [record])
    (ih : ∀ constructor ∈ constructors, ∀ field ∈ constructor.fields, Sound arrays field.wire) :
    Sound arrays (.algebraic name constructors) := by
  intro array rows h
  rw [decode_union name hunion] at h
  obtain ⟨columns, -, h⟩ := bind_eq_ok.mp h
  obtain ⟨parts, -, h⟩ := bind_eq_ok.mp h
  obtain ⟨tags, -, h⟩ := bind_eq_ok.mp h
  obtain ⟨variants, -, h⟩ := bind_eq_ok.mp h
  obtain ⟨_, -, h⟩ := bind_eq_ok.mp h
  obtain ⟨decoded, hdecoded, h⟩ := bind_eq_ok.mp h
  have hvariants := decodeVariants_sound documented ih hdecoded
  obtain ⟨hlen, hrows⟩ := Rows.range_mapM_eq_ok.mp h
  have hrow : ∀ (i : ℕ) row, rows[i]? = some row → row.isSome = arrays.isValid array i ∧
      ∀ value, row = some value →
        Value.conformsTo (.algebraic name constructors) value = true := by
    intro i row hi
    obtain ⟨found, hfound, hstep⟩ := hrows i (hlen ▸ (List.getElem?_eq_some_iff.mp hi).1)
    rw [hi] at hfound
    cases hfound
    unfold decodeUnionRow at hstep
    split_ifs at hstep with hvalid
    · cases hstep
      exact ⟨hvalid.symm, fun _ hnone => (nomatch hnone)⟩
    · split at hstep
      · cases hstep
      · next tag htag =>
        split_ifs at hstep with hpresent
        cases hstep
        refine ⟨(Bool.of_not_eq_false hvalid).symm, fun value hvalue => ?_⟩
        cases hvalue
        -- the struct of the tag is the one present, so it holds the values of its fields
        obtain ⟨⟨variant, results⟩, hvariant, hmarked⟩ :=
          (Rows.positions_eq_singleton.mp (not_not.mp hpresent) tag).mpr rfl
        obtain ⟨constructor, hconstructor, hresults, hconforms⟩ :=
          hvariants tag variant results hvariant
        obtain ⟨values, hvalues⟩ : ∃ values, results[i]? = some values :=
          ⟨_, List.getElem?_eq_getElem (hresults ▸ ArrowArrays.lt_of_isValid hmarked)⟩
        rw [hvariant]
        show Value.conformsTo _ (Value.algebraic tag (results[i]?.getD [])) = true
        rw [hvalues]
        exact conformsTo_algebraic.mpr
          ⟨(tag, values), rfl, constructor, hconstructor, hconforms i values hvalues hmarked⟩
  refine ⟨map_isSome_of_range hlen fun i row hi => (hrow i row hi).1, fun value hmem => ?_⟩
  obtain ⟨i, hi⟩ := List.mem_iff_getElem?.mp hmem
  exact (hrow i _ hi).2 value rfl

/-- What decodes is there where the array is not null, and conforms to the type. -/
theorem sound (wire : WireType F) : Sound arrays wire := by
  induction wire using WireType.induction with
  | quantity type =>
    intro array rows h
    obtain ⟨hvalid, hvalues⟩ := decodeNumbers_sound documented h
    exact ⟨hvalid, fun value hmem => conformsTo_quantity.mpr (hvalues value hmem)⟩
  | datetime scale =>
    intro array rows h
    obtain ⟨hvalid, hvalues⟩ := decodeNumbers_sound documented h
    exact ⟨hvalid, fun value hmem => conformsTo_datetime.mpr (hvalues value hmem)⟩
  | complex type => exact sound_complex type
  | int =>
    intro array rows h
    obtain ⟨raw, hraw, rfl⟩ := bind_pure_eq_ok.mp h
    obtain ⟨hvalid, hvalues⟩ := RowFits.map_rows Value.int raw
    exact ⟨hvalid.trans (documented.int64.valid _ _ (okOr_eq_ok.mp hraw)),
      fun value hmem => conformsTo_int.mpr (hvalues value hmem)⟩
  | bool =>
    intro array rows h
    obtain ⟨raw, hraw, rfl⟩ := bind_pure_eq_ok.mp h
    obtain ⟨hvalid, hvalues⟩ := RowFits.map_rows Value.bool raw
    exact ⟨hvalid.trans (documented.boolean.valid _ _ (okOr_eq_ok.mp hraw)),
      fun value hmem => conformsTo_bool.mpr (hvalues value hmem)⟩
  | key axis => exact sound_key documented axis
  | indexed axis element ih => exact sound_indexed documented axis ih
  | algebraic name constructors ih =>
    by_cases hrecord : ∃ record, constructors = [record]
    · obtain ⟨record, rfl⟩ := hrecord
      exact sound_record documented name record (ih record List.mem_cons_self)
    · exact sound_union documented name (not_exists.mp hrecord) ih

end

end ProvenGraphcal.Protocol
