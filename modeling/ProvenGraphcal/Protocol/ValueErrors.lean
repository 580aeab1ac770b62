import ProvenGraphcal.Protocol.ValueSoundness

/-!
# Decoding errors name their row

Decoding a part of the rows gives that part of the values, or the error that the whole has there.
-/

namespace ProvenGraphcal.Protocol

open Rows (Cuts)
open Rows.RowError (row? mapRow)

variable {F : Type} {arrays : ArrowArrays F} {len o n : ℕ}
variable {array : arrays.ArrayRef}

theorem ArrowArrays.Documented.len_slice (documented : arrays.Documented)
    (h : o + n ≤ arrays.len array) :
    arrays.len (arrays.slice array o n) = n := by
  rw [ArrowArrays.len, documented.slice _ _ _ h, Rows.length_cut h]

theorem ArrowArrays.Documented.isValid_slice (documented : arrays.Documented)
    (h : o + n ≤ arrays.len array) {row : ℕ} (hrow : row < n) :
    arrays.isValid (arrays.slice array o n) row = arrays.isValid array (o + row) := by
  rw [ArrowArrays.isValid, documented.slice _ _ _ h, List.getD_eq_getElem?_getD,
    Rows.getElem?_cut_of_lt hrow, ← List.getD_eq_getElem?_getD]
  rfl

variable {α : Type}

/-- A reading of arrays that a slice keeps. -/
theorem cuts_okOr {ε β : Type} [Rows.RowError ε] {found : Option α} {found' : Option β} {f : α → β}
    {e : ε} (he : row? e = none) (h : ∀ a, found = some a → found' = some (f a)) :
    Cuts len o n f (okOr found e) (okOr found' e) := by
  cases found with
  | none => exact Cuts.fail he _
  | some a =>
    rw [h a rfl]
    exact Cuts.pure rfl

theorem cuts_reject {ε : Type} [Rows.RowError ε] {p : Prop} [Decidable p] {e : ε}
    (he : row? e = none) : Cuts len o n id (Checked.reject p e) (Checked.reject p e) := by
  unfold Checked.reject
  split_ifs
  · exact Cuts.fail he _
  · exact Cuts.pure rfl

/-- A step that fails at its row, if it does. -/
def FailsAtRow {ε α β : Type} [Rows.RowError ε] (step : α → ℕ → Except ε β) : Prop :=
  (∀ a row e, step a row = .error e → row? e = some row) ∧
    ∀ o a row, step a row = (step a (o + row)).mapError (mapRow (· - o))

theorem FailsAtRow.collectRows {ε α β : Type} [Rows.RowError ε] {step : α → ℕ → Except ε β}
    (h : FailsAtRow step) {rows : List α} (hlen : rows.length = len) (hfits : o + n ≤ len) :
    Cuts len o n (Rows.cut o n) (Rows.collectRows step rows)
      (Rows.collectRows step (Rows.cut o n rows)) :=
  Cuts.collectRows hlen hfits h.1 fun a row _ => h.2 o a row

/-- An error of the row. -/
theorem failsAtRow_of_cases {ε β : Type} [Rows.RowError ε] {step : α → ℕ → Except ε β}
    (h : ∀ a, (∃ b, ∀ row, step a row = .ok b) ∨
      ∃ e : ℕ → ε, (∀ row, step a row = .error (e row)) ∧ (∀ row, row? (e row) = some row) ∧
        ∀ f row, mapRow f (e row) = e (f row)) : FailsAtRow step := by
  refine ⟨fun a row e he => ?_, fun o a row => ?_⟩
  · obtain ⟨b, hb⟩ | ⟨e', he', hrow, -⟩ := h a
    · rw [hb] at he
      cases he
    · rw [he'] at he
      cases he
      exact hrow row
  · obtain ⟨b, hb⟩ | ⟨e', he', -, hmap⟩ := h a
    · rw [hb, hb]
      rfl
    · rw [he', he']
      show _ = Except.error (mapRow (· - o) (e' (o + row)))
      rw [hmap, Nat.add_sub_cancel_left]

theorem numberRow_failsAtRow (number : F → Value F) : FailsAtRow (numberRow number) := by
  refine failsAtRow_of_cases fun value => ?_
  cases value with
  | none => exact .inl ⟨none, fun _ => rfl⟩
  | some value =>
    cases value with
    | finite value => exact .inl ⟨some (number value), fun _ => rfl⟩
    | notFinite => exact .inr ⟨.nonFinite, fun _ => rfl, fun _ => rfl, fun _ _ => rfl⟩

theorem dictionaryRow_failsAtRow (labels : List (Option String)) (resolved : List (Option ℕ)) :
    FailsAtRow (dictionaryRow labels resolved) := by
  refine failsAtRow_of_cases fun code => ?_
  cases code with
  | none => exact .inl ⟨none, fun _ => rfl⟩
  | some code =>
    cases hentry : dictionaryEntry labels.length code with
    | none =>
      refine .inr ⟨.key, fun row => ?_, fun _ => rfl, fun _ _ => rfl⟩
      simp only [dictionaryRow, hentry]
    | some entry =>
      cases hposition : resolved[entry]?.join with
      | none =>
        refine .inr ⟨.unknown (labels[entry]?.join.getD "null"), fun row => ?_, fun _ => rfl,
          fun _ _ => rfl⟩
        simp only [dictionaryRow, hentry, hposition]
      | some position =>
        refine .inl ⟨some position, fun row => ?_⟩
        simp only [dictionaryRow, hentry, hposition]

theorem cuts_decodeNumbers (documented : arrays.Documented) (number : F → Value F)
    (h : o + n ≤ arrays.len array) :
    Cuts (arrays.len array) o n (Rows.cut o n) (decodeNumbers arrays number array)
      (decodeNumbers arrays number (arrays.slice array o n)) := by
  refine (cuts_okOr rfl fun rows hrows => documented.float64.slice _ _ _ _ h hrows).bind
    fun rows hrows => (numberRow_failsAtRow number).collectRows ?_ h
  exact length_eq_of_map_isSome (documented.float64.valid _ _ (okOr_eq_ok.mp hrows))

theorem cuts_decodeDictionary (documented : arrays.Documented) (resolve : String → Option ℕ)
    (h : o + n ≤ arrays.len array) :
    Cuts (arrays.len array) o n (Rows.cut o n) (decodeDictionary arrays array resolve)
      (decodeDictionary arrays (arrays.slice array o n) resolve) := by
  let cutKeys : List (Option ℤ) × arrays.ArrayRef → List (Option ℤ) × arrays.ArrayRef :=
    fun dictionary => (Rows.cut o n dictionary.1, dictionary.2)
  have hslice : ∀ dictionary, arrays.asDictionaryArray array = some dictionary →
      arrays.asDictionaryArray (arrays.slice array o n) = some (cutKeys dictionary) :=
    fun ⟨keys, values⟩ hfound => documented.dictionarySlice _ _ _ _ _ h hfound
  refine (cuts_okOr rfl hslice).bind fun ⟨keys, values⟩ hkeys => ?_
  -- a slice keeps the values of the dictionary
  have hlabels : Cuts (ε := DictionaryError) (arrays.len array) o n id
      (okOr (arrays.stringArray.downcast values) .arrowType)
      (okOr (arrays.stringArray.downcast values) .arrowType) :=
    cuts_okOr rfl fun labels hfound => hfound
  refine hlabels.bind fun labels _ => (dictionaryRow_failsAtRow labels _).collectRows ?_ h
  exact length_eq_of_map_isSome (documented.dictionaryValid _ _ _ (okOr_eq_ok.mp hkeys))

theorem cuts_toValueError {β : Type} {unknown : String → ℕ → ValueDecodeError F}
    (hrow : ∀ name row, row? (unknown name row) = some row)
    (hmap : ∀ f name row, mapRow f (unknown name row) = unknown name (f row)) {f : α → β}
    {x : Except DictionaryError α} {y : Except DictionaryError β} (h : Cuts len o n f x y) :
    Cuts len o n f (x.mapError (DictionaryError.toValueError unknown))
      (y.mapError (DictionaryError.toValueError unknown)) := by
  refine h.mapError (fun e => ?_) fun outer e => ?_
  · cases e with
    | arrowType => rfl
    | key row => rfl
    | unknown name row => exact hrow name row
  · cases e with
    | arrowType => rfl
    | key row => rfl
    | unknown name row => exact hmap outer name row

theorem complexRow_failsAtRow : FailsAtRow fun (parts : Bool × Option (F64 F) × Option (F64 F)) =>
    complexRow parts.1 parts.2.1 parts.2.2 := by
  refine failsAtRow_of_cases fun ⟨valid, re, im⟩ => ?_
  cases valid with
  | false => exact .inl ⟨none, fun _ => rfl⟩
  | true =>
    match re, im with
    | some (.finite re), some (.finite im) => exact .inl ⟨some (.complex re im), fun _ => rfl⟩
    | some (.finite _), some .notFinite =>
      exact .inr ⟨.nonFinite, fun _ => rfl, fun _ => rfl, fun _ _ => rfl⟩
    | some .notFinite, some _ =>
      exact .inr ⟨.nonFinite, fun _ => rfl, fun _ => rfl, fun _ _ => rfl⟩
    | none, _ => exact .inr ⟨.null, fun _ => rfl, fun _ => rfl, fun _ _ => rfl⟩
    | some (.finite _), none =>
      exact .inr ⟨.null, fun _ => rfl, fun _ => rfl, fun _ _ => rfl⟩
    | some .notFinite, none => exact .inr ⟨.null, fun _ => rfl, fun _ => rfl, fun _ _ => rfl⟩

theorem cuts_twoColumns {f : α → β} {columns : List α} :
    Cuts (ε := ValueDecodeError F) len o n (Prod.map f f) (twoColumns columns)
      (twoColumns (columns.map f)) := by
  match columns with
  | [] => exact Cuts.fail rfl _
  | [_] => exact Cuts.fail rfl _
  | [first, second] => exact Cuts.pure rfl
  | _ :: _ :: _ :: _ => exact Cuts.fail rfl _

variable {columns : List arrays.ArrayRef}

theorem twoColumns_len (documented : arrays.Documented)
    (hcolumns : arrays.asStructArray array = some columns)
    {parts : arrays.ArrayRef × arrays.ArrayRef}
    (h : (twoColumns columns : Except (ValueDecodeError F) _) = .ok parts) :
    arrays.len parts.1 = arrays.len array ∧ arrays.len parts.2 = arrays.len array := by
  have hlens := documented.structLen _ _ hcolumns
  unfold twoColumns at h
  split at h
  · cases h
    exact ⟨hlens _ List.mem_cons_self, hlens _ (List.mem_cons_of_mem _ List.mem_cons_self)⟩
  · cases h

theorem cuts_decodeComplex (documented : arrays.Documented) (h : o + n ≤ arrays.len array) :
    Cuts (arrays.len array) o n (Rows.cut o n) (decodeComplex arrays array)
      (decodeComplex arrays (arrays.slice array o n)) := by
  refine (cuts_okOr rfl fun columns hcolumns => documented.structSlice _ _ _ _ h hcolumns).bind
    fun columns hcolumns => cuts_twoColumns.bind fun parts hparts => ?_
  have hlens := twoColumns_len documented (okOr_eq_ok.mp hcolumns) hparts
  have hfits : o + n ≤ arrays.len parts.1 := hlens.1.symm ▸ h
  have hfits' : o + n ≤ arrays.len parts.2 := hlens.2.symm ▸ h
  refine (cuts_okOr rfl fun re hre => documented.float64.slice _ _ _ _ hfits hre).bind
    fun re _ => (cuts_okOr rfl fun im him => documented.float64.slice _ _ _ _ hfits' him).bind
    fun im _ => ?_
  rw [documented.len_slice h]
  refine Cuts.range h (fun row e he => complexRow_failsAtRow.1 (_, _, _) row e he)
    fun row hrow => ?_
  rw [documented.isValid_slice h hrow, Rows.getElem?_cut_of_lt hrow, Rows.getElem?_cut_of_lt hrow]
  exact complexRow_failsAtRow.2 o (_, _, _) row

/-! ## Nested values -/

theorem cuts_requireValues {values : List (Option (Value F))} (hlen : values.length = len)
    (h : o + n ≤ len) {marked marked' : ℕ → Bool} (hmarked : ∀ row < n, marked' row = marked (o + row)) :
    Cuts len o n (Rows.cut o n) (requireValues values marked)
      (requireValues (Rows.cut o n values) marked') := by
  refine Cuts.collectRows hlen h (fun value row e he => ?_) fun value row hrow => ?_
  · cases value with
    | some value => cases he
    | none =>
      split_ifs at he
      cases he
      rfl
  · cases value with
    | some value => rfl
    | none =>
      rw [hmarked row hrow]
      split_ifs
      · show _ = Except.error (ValueDecodeError.null (o + row - o))
        rw [Nat.add_sub_cancel_left]
      · rfl

/-- The values made of the rows where the array is not null. -/
theorem zipIdx_slice (documented : arrays.Documented) (h : o + n ≤ arrays.len array)
    (make : α → Value F) (rows : List α) :
    ((Rows.cut o n rows).zipIdx.map fun entry =>
      if arrays.isValid (arrays.slice array o n) entry.2 then some (make entry.1) else none) =
      Rows.cut o n (rows.zipIdx.map fun entry =>
        if arrays.isValid array entry.2 then some (make entry.1) else none) := by
  let row : α → ℕ → Option (Value F) := fun a i =>
    if arrays.isValid array i then some (make a) else none
  let row' : α → ℕ → Option (Value F) := fun a i =>
    if arrays.isValid (arrays.slice array o n) i then some (make a) else none
  have hrow : ∀ a, ∀ i < n, row' a i = row a (o + i) := fun a i hi => by
    show (if arrays.isValid (arrays.slice array o n) i then _ else _) = _
    rw [documented.isValid_slice h hi]
  exact Rows.zipIdx_cut hrow

theorem cut_pushAll {rows : List (List α)} {values : List α} (h : rows.length = values.length)
    (hfits : o + n ≤ rows.length) :
    pushAll (Rows.cut o n rows) (Rows.cut o n values) = Rows.cut o n (pushAll rows values) := by
  have hcut : (Rows.cut o n rows).length = (Rows.cut o n values).length := by
    rw [Rows.length_cut hfits, Rows.length_cut (h ▸ hfits)]
  rw [pushAll_eq_zipWith h, pushAll_eq_zipWith hcut, Rows.cut, Rows.cut, Rows.cut,
    List.drop_zipWith, List.take_zipWith]

/-- The value of a union at a row, from what decoding reads there. -/
def unionRow (valid : Bool) (tag : Option ℕ) (present : List ℕ) (fields : ℕ → List (Value F))
    (row : ℕ) : Except (ValueDecodeError F) (Option (Value F)) :=
  if valid = false then .ok none
  else
    match tag with
    | none => .error (.null row)
    | some tag =>
      if present ≠ [tag] then .error (.constructorPresence row)
      else .ok (some (.algebraic tag (fields tag)))

theorem unionRow_failsAtRow : FailsAtRow fun (read : Bool × Option ℕ × List ℕ × (ℕ → List (Value F))) =>
    unionRow read.1 read.2.1 read.2.2.1 read.2.2.2 := by
  refine failsAtRow_of_cases fun ⟨valid, tag, present, fields⟩ => ?_
  cases valid with
  | false => exact .inl ⟨none, fun _ => rfl⟩
  | true =>
    cases tag with
    | none => exact .inr ⟨.null, fun _ => rfl, fun _ => rfl, fun _ _ => rfl⟩
    | some tag =>
      by_cases hpresent : present = [tag]
      · exact .inl ⟨_, fun _ => if_neg (not_not.mpr hpresent)⟩
      · exact .inr ⟨.constructorPresence, fun _ => if_pos hpresent, fun _ => rfl, fun _ _ => rfl⟩

/-- The part of a decoded constructor. -/
def cutVariant (arrays : ArrowArrays F) (o n : ℕ) (entry : arrays.ArrayRef × List (List (Value F))) :
    arrays.ArrayRef × List (List (Value F)) :=
  (arrays.slice entry.1 o n, Rows.cut o n entry.2)

variable {decoded : List (arrays.ArrayRef × List (List (Value F)))}

theorem cuts_decodeUnionRow (documented : arrays.Documented) (h : o + n ≤ arrays.len array)
    (tags : List (Option ℕ)) (hlens : ∀ entry ∈ decoded, arrays.len entry.1 = arrays.len array) :
    Cuts (arrays.len array) o n (Rows.cut o n)
      ((List.range (arrays.len array)).mapM (decodeUnionRow arrays array tags decoded))
      ((List.range (arrays.len (arrays.slice array o n))).mapM
        (decodeUnionRow arrays (arrays.slice array o n) (Rows.cut o n tags)
          (decoded.map (cutVariant arrays o n)))) := by
  rw [documented.len_slice h]
  have hread : ∀ array tags (decoded : List (arrays.ArrayRef × List (List (Value F)))) row,
      decodeUnionRow arrays array tags decoded row =
      unionRow (arrays.isValid array row) tags[row]?.join
        (Rows.positions (fun entry => arrays.isValid entry.1 row) decoded)
        (fun tag => (decoded[tag]?.bind fun entry => entry.2[row]?).getD []) row :=
    fun _ _ _ _ => rfl
  refine Cuts.range h (fun row e he => ?_) fun row hrow => ?_
  · rw [hread] at he
    exact unionRow_failsAtRow.1 (_, _, _, _) row e he
  · have hpositions : Rows.positions (fun entry => arrays.isValid entry.1 row)
        (decoded.map (cutVariant arrays o n)) =
          Rows.positions (fun entry => arrays.isValid entry.1 (o + row)) decoded :=
      Rows.positions_map fun entry hmem =>
        documented.isValid_slice ((hlens entry hmem).symm ▸ h) hrow
    have hfields : (fun tag : ℕ => ((decoded.map (cutVariant arrays o n))[tag]?.bind fun entry =>
        entry.2[row]?).getD []) =
          fun tag : ℕ => (decoded[tag]?.bind fun entry => entry.2[o + row]?).getD [] := by
      funext tag
      rw [List.getElem?_map, Option.bind_map]
      cases decoded[tag]? with
      | none => rfl
      | some entry => exact congrArg (Option.getD · []) (Rows.getElem?_cut_of_lt hrow)
    rw [hread, hread, documented.isValid_slice h hrow, Rows.getElem?_cut_of_lt hrow, hpositions,
      hfields]
    exact unionRow_failsAtRow.2 o (_, _, _, _) row

variable [DecidableEq F]

/-- Decoding a slice gives the part of what decoding the array gives. -/
def CutsRows (arrays : ArrowArrays F) (wire : WireType F) : Prop :=
  ∀ array o n, o + n ≤ arrays.len array →
    Cuts (arrays.len array) o n (Rows.cut o n) (decode arrays wire array)
      (decode arrays wire (arrays.slice array o n))

theorem cuts_decodeColumns (documented : arrays.Documented) {fields : List (FieldType (WireType F))}
    (ih : ∀ field ∈ fields, CutsRows arrays field.wire)
    (hlens : ∀ column ∈ columns, arrays.len column = len) {marked marked' : ℕ → Bool}
    (hmarked : ∀ row < n, marked' row = marked (o + row)) {acc : List (List (Value F))}
    (hacc : acc.length = len) (h : o + n ≤ len) :
    Cuts len o n (Rows.cut o n) (decodeColumns arrays fields columns marked acc)
      (decodeColumns arrays fields (columns.map fun column => arrays.slice column o n) marked'
        (Rows.cut o n acc)) := by
  induction fields generalizing columns acc with
  | nil => exact Cuts.pure rfl
  | cons field rest ihrest =>
    obtain ⟨name, wire⟩ := field
    cases columns with
    | nil => exact Cuts.pure rfl
    | cons column columns =>
      rw [List.forall_mem_cons] at ih hlens
      rw [List.map_cons, decodeColumns, decodeColumns]
      have hfirst := ih.1 column o n (hlens.1.symm ▸ h)
      rw [hlens.1] at hfirst
      refine hfirst.bind fun values hvalues => ?_
      have hlen := length_eq_of_map_isSome (sound documented wire column values hvalues).1
      rw [hlens.1] at hlen
      refine (cuts_requireValues hlen h hmarked).bind fun entries hentries => ?_
      have hsame : acc.length = entries.length := by
        rw [(requireValues_eq_ok hentries).1, hlen, hacc]
      rw [cut_pushAll hsame (hacc.symm ▸ h)]
      exact ihrest ih.2 hlens.2 ((length_pushAll hsame).trans hacc)

theorem cuts_decodeConstructor (documented : arrays.Documented)
    {constructor : ConstructorType (WireType F)}
    (ih : ∀ field ∈ constructor.fields, CutsRows arrays field.wire)
    (hcolumns : arrays.asStructArray array = some columns) (h : o + n ≤ arrays.len array) :
    Cuts (arrays.len array) o n (Rows.cut o n)
      (decodeConstructor arrays constructor array columns (arrays.isValid array))
      (decodeConstructor arrays constructor (arrays.slice array o n)
        (columns.map fun column => arrays.slice column o n)
        (arrays.isValid (arrays.slice array o n))) := by
  obtain ⟨name, fields⟩ := constructor
  rw [decodeConstructor, decodeConstructor, List.length_map]
  refine (cuts_reject rfl).bind fun _ _ => ?_
  have hstart : List.replicate (arrays.len (arrays.slice array o n)) ([] : List (Value F)) =
      Rows.cut o n (List.replicate (arrays.len array) []) := by
    rw [documented.len_slice h, Rows.cut, List.drop_replicate, List.take_replicate,
      Nat.min_eq_left (by omega)]
  rw [hstart]
  exact cuts_decodeColumns documented ih (documented.structLen _ _ hcolumns)
    (fun row hrow => documented.isValid_slice h hrow) List.length_replicate h

theorem positionRow_failsAtRow (axis : Axis F) : FailsAtRow (positionRow axis) := by
  refine failsAtRow_of_cases fun position => ?_
  cases position with
  | none => exact .inl ⟨none, fun _ => rfl⟩
  | some position =>
    cases hfound : axis.position (.position position) with
    | none =>
      refine .inr ⟨.unknownPosition position, fun row => ?_, fun _ => rfl, fun _ _ => rfl⟩
      rw [positionRow, hfound]
      rfl
    | some found =>
      refine .inl ⟨some found, fun row => ?_⟩
      rw [positionRow, hfound]
      rfl

theorem coordinateRow_failsAtRow (axis : Axis F) : FailsAtRow (coordinateRow axis) := by
  refine failsAtRow_of_cases fun coordinate => ?_
  cases coordinate with
  | none => exact .inl ⟨none, fun _ => rfl⟩
  | some coordinate =>
    cases coordinate with
    | notFinite => exact .inr ⟨.nonFinite, fun _ => rfl, fun _ => rfl, fun _ _ => rfl⟩
    | finite coordinate =>
      have hstep : ∀ row, coordinateRow axis (some (.finite coordinate)) row =
          (okOr (axis.position (.coordinate coordinate))
            (.unknownCoordinate coordinate row)).map some := fun _ => rfl
      cases hfound : axis.position (.coordinate coordinate) with
      | none =>
        refine .inr ⟨.unknownCoordinate coordinate, fun row => ?_, fun _ => rfl, fun _ _ => rfl⟩
        rw [hstep, hfound]
        rfl
      | some found =>
        refine .inl ⟨some found, fun row => ?_⟩
        rw [hstep, hfound]
        rfl

section

variable (documented : arrays.Documented)

include documented

theorem cuts_decodeKeyPositions (axis : Axis F) (h : o + n ≤ arrays.len array) :
    Cuts (arrays.len array) o n (Rows.cut o n) (decodeKeyPositions arrays axis array)
      (decodeKeyPositions arrays axis (arrays.slice array o n)) := by
  unfold decodeKeyPositions
  cases axis.kind with
  | named variants =>
    exact cuts_toValueError (fun _ _ => rfl) (fun _ _ _ => rfl)
      (cuts_decodeDictionary documented (variantPosition axis) h)
  | finite size =>
    refine (cuts_okOr rfl fun rows hrows => documented.uint32.slice _ _ _ _ h hrows).bind
      fun rows hrows => (positionRow_failsAtRow axis).collectRows ?_ h
    exact length_eq_of_map_isSome (documented.uint32.valid _ _ (okOr_eq_ok.mp hrows))
  | coordinate dimension coordinates =>
    refine (cuts_okOr rfl fun rows hrows => documented.float64.slice _ _ _ _ h hrows).bind
      fun rows hrows => (coordinateRow_failsAtRow axis).collectRows ?_ h
    exact length_eq_of_map_isSome (documented.float64.valid _ _ (okOr_eq_ok.mp hrows))

theorem cuts_indexed (axis : Axis F) {element : WireType F} (ih : CutsRows arrays element) :
    CutsRows arrays (.indexed axis element) := by
  intro array o n h
  rw [decode, decode]
  cases hlist : arrays.asFixedSizeListArray array with
  | none => exact Cuts.fail rfl _
  | some list =>
    obtain ⟨size, elements⟩ := list
    by_cases hsize : size = axis.len
    · subst hsize
      have hlen := documented.fixedSizeListLen _ _ _ hlist
      have hbound : o * axis.len + n * axis.len ≤ arrays.len elements := by
        rw [hlen, ← Nat.add_mul, Nat.mul_comm]
        exact Nat.mul_le_mul_left axis.len h
      rw [documented.fixedSizeListSlice _ _ _ _ _ h hlist]
      refine (cuts_reject rfl).bind fun _ _ => ?_
      have hdecode := ih elements _ _ hbound
      rw [hlen] at hdecode
      refine (hdecode.divide axis.len_pos).bind fun values hvalues => ?_
      have hcount := length_eq_of_map_isSome
        (sound documented element elements values (Checked.mapError_eq_ok.mp hvalues)).1
      have hmarked : ∀ entry < n * axis.len,
          arrays.isValid (arrays.slice array o n) (entry / axis.len) =
            arrays.isValid array ((o * axis.len + entry) / axis.len) := by
        intro entry hentry
        rw [documented.isValid_slice h ((Nat.div_lt_iff_lt_mul axis.len_pos).mpr hentry),
          Nat.mul_comm o, Nat.mul_add_div axis.len_pos]
      let marked : ℕ → Bool := fun entry => arrays.isValid array (entry / axis.len)
      have hmarked : ∀ entry < n * axis.len,
          arrays.isValid (arrays.slice array o n) (entry / axis.len) =
            marked (o * axis.len + entry) := hmarked
      have hrequire := cuts_requireValues (hcount.trans hlen) (hlen ▸ hbound) hmarked
      refine (hrequire.divide axis.len_pos).bind fun entries hentries => Cuts.pure ?_
      have htotal : entries.length = axis.len * arrays.len array :=
        (requireValues_eq_ok (Checked.mapError_eq_ok.mp hentries)).1.trans (hcount.trans hlen)
      rw [Rows.chunks_cut axis.len_pos htotal h]
      exact zipIdx_slice documented h Value.indexed _
    · have hother : size.toNat? ≠ some axis.len := fun hsame => hsize (Int.mem_toNat?.mp hsame)
      have hreject : Checked.reject (size.toNat? ≠ some axis.len)
          (ValueDecodeError.arrowType : ValueDecodeError F) = .error .arrowType := if_pos hother
      show Cuts _ _ _ _ (Checked.reject (size.toNat? ≠ some axis.len) _ >>= _) _
      rw [hreject]
      exact Cuts.fail rfl _

theorem cuts_record (name : TypeName) (record : ConstructorType (WireType F))
    (ih : ∀ field ∈ record.fields, CutsRows arrays field.wire) :
    CutsRows arrays (.algebraic name [record]) := by
  intro array o n h
  refine (cuts_okOr rfl fun columns hcolumns => documented.structSlice _ _ _ _ h hcolumns).bind
    fun columns hcolumns => ?_
  refine (cuts_decodeConstructor documented ih (okOr_eq_ok.mp hcolumns) h).bind
    fun rows _ => Cuts.pure ?_
  exact zipIdx_slice documented h (Value.algebraic 0) rows

end

variable {constructors : List (ConstructorType (WireType F))}

theorem cuts_decodeVariants (documented : arrays.Documented)
    (ih : ∀ constructor ∈ constructors, ∀ field ∈ constructor.fields, CutsRows arrays field.wire)
    (hlens : ∀ column ∈ columns, arrays.len column = len) (h : o + n ≤ len) :
    Cuts len o n (List.map (cutVariant arrays o n)) (decodeVariants arrays constructors columns)
      (decodeVariants arrays constructors (columns.map fun column => arrays.slice column o n)) := by
  induction constructors generalizing columns with
  | nil =>
    rw [decodeVariants, decodeVariants]
    · exact Cuts.pure rfl
    all_goals rintro _ _ _ _ ⟨⟩
  | cons constructor rest ihrest =>
    rw [List.forall_mem_cons] at ih
    cases columns with
    | nil =>
      rw [List.map_nil, decodeVariants]
      · exact Cuts.pure rfl
      · rintro _ _ _ _ _ ⟨⟩
    | cons column columns =>
      rw [List.forall_mem_cons] at hlens
      rw [List.map_cons, decodeVariants, decodeVariants]
      have hfits : o + n ≤ arrays.len column := hlens.1.symm ▸ h
      refine (cuts_okOr rfl fun parts hparts => documented.structSlice _ _ _ _ hfits hparts).bind
        fun parts hparts => ?_
      have hfirst := cuts_decodeConstructor documented ih.1 (okOr_eq_ok.mp hparts) hfits
      rw [hlens.1] at hfirst
      exact hfirst.bind fun rows _ => (ihrest ih.2 hlens.2).bind fun decoded _ => Cuts.pure rfl

theorem mem_columns_of_decodeVariants
    (h : decodeVariants arrays constructors columns = .ok decoded) :
    ∀ entry ∈ decoded, entry.1 ∈ columns := by
  induction constructors generalizing columns decoded with
  | nil =>
    rw [decodeVariants] at h
    · cases h
      exact List.forall_mem_nil _
    · rintro _ _ _ _ ⟨⟩
  | cons constructor rest ih =>
    cases columns with
    | nil =>
      rw [decodeVariants] at h
      · cases h
        exact List.forall_mem_nil _
      · rintro _ _ _ _ _ ⟨⟩
    | cons column columns =>
      obtain ⟨parts, -, h⟩ := Checked.bind_eq_ok.mp h
      obtain ⟨rows, -, h⟩ := Checked.bind_eq_ok.mp h
      obtain ⟨others, hothers, rfl⟩ := Checked.bind_pure_eq_ok.mp h
      refine List.forall_mem_cons.mpr ⟨List.mem_cons_self, fun entry hmem => ?_⟩
      exact List.mem_cons_of_mem column (ih hothers entry hmem)

theorem cuts_union (documented : arrays.Documented) (name : TypeName)
    (hunion : ∀ record, constructors ≠ [record])
    (ih : ∀ constructor ∈ constructors, ∀ field ∈ constructor.fields, CutsRows arrays field.wire) :
    CutsRows arrays (.algebraic name constructors) := by
  intro array o n h
  rw [decode_union name hunion, decode_union name hunion]
  refine (cuts_okOr rfl fun columns hcolumns => documented.structSlice _ _ _ _ h hcolumns).bind
    fun columns hcolumns => cuts_twoColumns.bind fun parts hparts => ?_
  have hlens := twoColumns_len documented (okOr_eq_ok.mp hcolumns) hparts
  have htags := cuts_decodeDictionary documented (constructorPosition constructors)
    (hlens.1.symm ▸ h : o + n ≤ arrays.len parts.1)
  rw [hlens.1] at htags
  refine (cuts_toValueError (fun _ _ => rfl) (fun _ _ _ => rfl) htags).bind fun tags _ => ?_
  have hfits : o + n ≤ arrays.len parts.2 := hlens.2.symm ▸ h
  refine (cuts_okOr rfl fun variants hvariants =>
    documented.structSlice _ _ _ _ hfits hvariants).bind fun variants hvariants => ?_
  have hcolumnLens : ∀ column ∈ variants, arrays.len column = arrays.len array :=
    fun column hmem => (documented.structLen _ _ (okOr_eq_ok.mp hvariants) column hmem).trans hlens.2
  rw [List.length_map]
  refine (cuts_reject rfl).bind fun _ _ => ?_
  refine (cuts_decodeVariants documented ih hcolumnLens h).bind fun decoded hdecoded => ?_
  exact cuts_decodeUnionRow documented h tags fun entry hmem =>
    hcolumnLens _ (mem_columns_of_decodeVariants hdecoded entry hmem)

/-- Decoding a slice gives the part of what decoding the array gives. -/
theorem cutsRows (documented : arrays.Documented) (wire : WireType F) : CutsRows arrays wire := by
  induction wire using WireType.induction with
  | quantity type => exact fun array o n h => cuts_decodeNumbers documented .quantity h
  | datetime scale => exact fun array o n h => cuts_decodeNumbers documented .datetime h
  | complex type => exact fun array o n h => cuts_decodeComplex documented h
  | int =>
    intro array o n h
    exact (cuts_okOr rfl fun rows hrows => documented.int64.slice _ _ _ _ h hrows).bind
      fun rows _ => Cuts.pure (Rows.map_cut _ _ _ _)
  | bool =>
    intro array o n h
    exact (cuts_okOr rfl fun rows hrows => documented.boolean.slice _ _ _ _ h hrows).bind
      fun rows _ => Cuts.pure (Rows.map_cut _ _ _ _)
  | key axis =>
    intro array o n h
    exact (cuts_decodeKeyPositions documented axis h).bind
      fun positions _ => Cuts.pure (Rows.map_cut _ _ _ _)
  | indexed axis element ih => exact cuts_indexed documented axis ih
  | algebraic name constructors ih =>
    by_cases hrecord : ∃ record, constructors = [record]
    · obtain ⟨record, rfl⟩ := hrecord
      exact cuts_record documented name record (ih record List.mem_cons_self)
    · exact cuts_union documented name (not_exists.mp hrecord) ih

end ProvenGraphcal.Protocol
