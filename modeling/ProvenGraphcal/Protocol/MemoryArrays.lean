import ProvenGraphcal.Library.Rows
import ProvenGraphcal.Protocol.ArrowSchema

/-!
# Arrow arrays

What the protocol uses of the arrays of the Arrow library, and what their documentation says of it.
-/

namespace ProvenGraphcal.Protocol

/-- A binary64 number. -/
inductive F64 (F : Type)
  | finite (value : F)
  | notFinite
  deriving DecidableEq

/-- `FiniteF64::new`. -/
def F64.toFinite {F : Type} : F64 F → Option F
  | finite value => some value
  | notFinite => none

inductive ArrowError
  | invalidArgumentError (text : String)
  | other (text : String)
  deriving DecidableEq

/-- Arrays of one primitive type: made of their rows, and read row by row. -/
structure RowArray (ArrayRef α : Type) where
  collect : List (Option α) → ArrayRef
  downcast : ArrayRef → Option (List (Option α))

structure ArrowArrays (F : Type) where
  ArrayRef : Type
  dataType : ArrayRef → DataType
  /-- For each row, whether it is not null. -/
  valid : ArrayRef → List Bool
  logicalNullCount : ArrayRef → ℕ
  slice : ArrayRef → ℕ → ℕ → ArrayRef
  float64Array : RowArray ArrayRef (F64 F)
  int64Array : RowArray ArrayRef Int64
  booleanArray : RowArray ArrayRef Bool
  uint32Array : RowArray ArrayRef ℕ
  stringArray : RowArray ArrayRef String
  /-- A dictionary of keys and values. -/
  dictionaryArray : List (Option ℤ) → ArrayRef → Except ArrowError ArrayRef
  asDictionaryArray : ArrayRef → Option (List (Option ℤ) × ArrayRef)
  structArray : List (Field DataType) → List ArrayRef → Option (List Bool) → ℕ →
    Except ArrowError ArrayRef
  asStructArray : ArrayRef → Option (List ArrayRef)
  /-- Lists of one size, with their elements one after the other. -/
  fixedSizeListArray : Field DataType → ℤ → ArrayRef → Option (List Bool) → ℕ →
    Except ArrowError ArrayRef
  asFixedSizeListArray : ArrayRef → Option (ℤ × ArrayRef)

namespace ArrowArrays

variable {F : Type} (arrays : ArrowArrays F)

def len (array : arrays.ArrayRef) : ℕ := (arrays.valid array).length

def isValid (array : arrays.ArrayRef) (row : ℕ) : Bool := (arrays.valid array).getD row false

/-- An array of the given type whose rows are null where `rows` is `false`. -/
structure Made (array : arrays.ArrayRef) (type : DataType) (rows : List Bool) : Prop where
  dataType : arrays.dataType array = type
  valid : arrays.valid array = rows
  logicalNullCount : arrays.logicalNullCount array = rows.count false

/-- Columns of `len` rows for the fields of a struct. -/
def Fit (fields : List (Field DataType)) (columns : List arrays.ArrayRef) (len : ℕ) : Prop :=
  List.Forall₂ (fun field column => arrays.dataType column = field.dataType ∧
    arrays.len column = len ∧ (field.nullable = false → arrays.logicalNullCount column = 0))
    fields columns

/-- What the documentation says of arrays of one primitive type. -/
structure RowsDocumented {α : Type} (kind : RowArray arrays.ArrayRef α) (type : DataType) :
    Prop where
  made : ∀ rows, arrays.Made (kind.collect rows) type (rows.map Option.isSome)
  collect : ∀ rows, kind.downcast (kind.collect rows) = some rows
  valid : ∀ array rows, kind.downcast array = some rows →
    rows.map Option.isSome = arrays.valid array
  slice : ∀ array rows o n, o + n ≤ arrays.len array → kind.downcast array = some rows →
    kind.downcast (arrays.slice array o n) = some (Rows.cut o n rows)

/-- What the documentation says of arrays. -/
structure Documented : Prop where
  slice : ∀ array o n, o + n ≤ arrays.len array →
    arrays.valid (arrays.slice array o n) = Rows.cut o n (arrays.valid array)
  float64 : arrays.RowsDocumented arrays.float64Array .float64
  int64 : arrays.RowsDocumented arrays.int64Array .int64
  boolean : arrays.RowsDocumented arrays.booleanArray .boolean
  uint32 : arrays.RowsDocumented arrays.uint32Array .uint32
  string : arrays.RowsDocumented arrays.stringArray .utf8
  dictionary : ∀ (keys : List (Option ℤ)) (labels : List String),
    (∀ key ∈ keys, ∀ code : ℤ, key = some code → 0 ≤ code ∧ code < labels.length) →
    ∃ array, arrays.dictionaryArray keys (arrays.stringArray.collect (labels.map some)) =
        .ok array ∧
      arrays.Made array .dictionary (keys.map Option.isSome) ∧
      arrays.asDictionaryArray array =
        some (keys, arrays.stringArray.collect (labels.map some))
  dictionaryValid : ∀ array keys values, arrays.asDictionaryArray array = some (keys, values) →
    keys.map Option.isSome = arrays.valid array
  dictionarySlice : ∀ array keys values o n, o + n ≤ arrays.len array →
    arrays.asDictionaryArray array = some (keys, values) →
    arrays.asDictionaryArray (arrays.slice array o n) = some (Rows.cut o n keys, values)
  struct : ∀ fields columns nulls len, arrays.Fit fields columns len →
    (∀ valid ∈ nulls, valid.length = len) →
    ∃ array, arrays.structArray fields columns nulls len = .ok array ∧
      arrays.Made array (.struct fields) (nulls.getD (List.replicate len true)) ∧
      arrays.asStructArray array = some columns
  structLen : ∀ array columns, arrays.asStructArray array = some columns →
    ∀ column ∈ columns, arrays.len column = arrays.len array
  structSlice : ∀ array columns o n, o + n ≤ arrays.len array →
    arrays.asStructArray array = some columns →
    arrays.asStructArray (arrays.slice array o n) =
      some (columns.map fun column => arrays.slice column o n)
  fixedSizeList : ∀ field (size : ℕ) elements nulls len,
    arrays.dataType elements = field.dataType → arrays.len elements = size * len →
    arrays.logicalNullCount elements = 0 → (∀ valid ∈ nulls, valid.length = len) →
    ∃ array, arrays.fixedSizeListArray field size elements nulls len = .ok array ∧
      arrays.Made array (.fixedSizeList field size) (nulls.getD (List.replicate len true)) ∧
      arrays.asFixedSizeListArray array = some ((size : ℤ), elements)
  fixedSizeListLen : ∀ array (size : ℕ) elements,
    arrays.asFixedSizeListArray array = some ((size : ℤ), elements) →
    arrays.len elements = size * arrays.len array
  fixedSizeListSlice : ∀ array (size : ℕ) elements o n, o + n ≤ arrays.len array →
    arrays.asFixedSizeListArray array = some ((size : ℤ), elements) →
    arrays.asFixedSizeListArray (arrays.slice array o n) =
      some ((size : ℤ), arrays.slice elements (o * size) (n * size))

end ArrowArrays

/-!
# Arrow arrays in memory

Arrays as plain rows, with the documented behaviour of Arrow arrays.
-/

variable {F : Type}

inductive MemoryArray (F : Type)
  | float64 (rows : List (Option (F64 F)))
  | int64 (rows : List (Option Int64))
  | boolean (rows : List (Option Bool))
  | uint8 (rows : List (Option UInt8))
  | uint32 (rows : List (Option ℕ))
  | utf8 (rows : List (Option String))
  | dictionary (keys : List (Option ℤ)) (values : MemoryArray F)
  | struct (fields : List (Field DataType)) (columns : List (MemoryArray F)) (valid : List Bool)
  | fixedSizeList (field : Field DataType) (size : ℤ) (elements : MemoryArray F)
    (valid : List Bool)

namespace MemoryArray

def valid : MemoryArray F → List Bool
  | float64 rows => rows.map Option.isSome
  | int64 rows => rows.map Option.isSome
  | boolean rows => rows.map Option.isSome
  | uint8 rows => rows.map Option.isSome
  | uint32 rows => rows.map Option.isSome
  | utf8 rows => rows.map Option.isSome
  | dictionary keys _ => keys.map Option.isSome
  | struct _ _ valid => valid
  | fixedSizeList _ _ _ valid => valid

def len (array : MemoryArray F) : ℕ := array.valid.length

def dataType : MemoryArray F → DataType
  | float64 _ => .float64
  | int64 _ => .int64
  | boolean _ => .boolean
  | uint8 _ => .uint8
  | uint32 _ => .uint32
  | utf8 _ => .utf8
  | dictionary _ (utf8 _) => .dictionary
  | dictionary _ _ => .other "Dictionary"
  | struct fields _ _ => .struct fields
  | fixedSizeList field size _ _ => .fixedSizeList field size

/-- The rows without a value, among them those whose dictionary key stands for none. -/
def logicalNullCount : MemoryArray F → ℕ
  | dictionary keys values => keys.countP fun key =>
    match key with
    | none => true
    | some code => values.valid.getD code.toNat false = false
  | array => array.valid.count false

mutual

def slice : MemoryArray F → ℕ → ℕ → MemoryArray F
  | float64 rows, o, n => float64 (Rows.cut o n rows)
  | int64 rows, o, n => int64 (Rows.cut o n rows)
  | boolean rows, o, n => boolean (Rows.cut o n rows)
  | uint8 rows, o, n => uint8 (Rows.cut o n rows)
  | uint32 rows, o, n => uint32 (Rows.cut o n rows)
  | utf8 rows, o, n => utf8 (Rows.cut o n rows)
  | dictionary keys values, o, n => dictionary (Rows.cut o n keys) values
  | struct fields columns valid, o, n =>
    struct fields (sliceColumns columns o n) (Rows.cut o n valid)
  | fixedSizeList field size elements valid, o, n =>
    fixedSizeList field size (slice elements (o * size.toNat) (n * size.toNat)) (Rows.cut o n valid)

def sliceColumns : List (MemoryArray F) → ℕ → ℕ → List (MemoryArray F)
  | [], _, _ => []
  | column :: columns, o, n => slice column o n :: sliceColumns columns o n

end

theorem sliceColumns_eq_map (columns : List (MemoryArray F)) (o n : ℕ) :
    sliceColumns columns o n = columns.map fun column => column.slice o n := by
  induction columns with
  | nil => rfl
  | cons column columns ih => rw [sliceColumns, ih, List.map_cons]

theorem valid_slice (array : MemoryArray F) (o n : ℕ) :
    (array.slice o n).valid = Rows.cut o n array.valid := by
  cases array with
  | struct => rfl
  | fixedSizeList => rfl
  | _ => exact Rows.map_cut _ _ _ _

theorem len_slice {array : MemoryArray F} {o n : ℕ} (h : o + n ≤ array.len) :
    (array.slice o n).len = n := by
  rw [len, valid_slice, Rows.length_cut h]

end MemoryArray

open MemoryArray

/-- The arrays in memory, which reject parts that do not fit. -/
abbrev memoryArrays (F : Type) : ArrowArrays F where
  ArrayRef := MemoryArray F
  dataType := MemoryArray.dataType
  valid := MemoryArray.valid
  logicalNullCount := MemoryArray.logicalNullCount
  slice := MemoryArray.slice
  float64Array := ⟨float64, fun | float64 rows => some rows | _ => none⟩
  int64Array := ⟨int64, fun | int64 rows => some rows | _ => none⟩
  booleanArray := ⟨boolean, fun | boolean rows => some rows | _ => none⟩
  uint32Array := ⟨uint32, fun | uint32 rows => some rows | _ => none⟩
  stringArray := ⟨utf8, fun | utf8 rows => some rows | _ => none⟩
  dictionaryArray keys values :=
    if ∀ key ∈ keys, (key.all fun code => 0 ≤ code && code < (values.len : ℤ)) = true then
      .ok (dictionary keys values)
    else .error (.invalidArgumentError "Invalid dictionary key")
  asDictionaryArray := fun | dictionary keys values => some (keys, values) | _ => none
  structArray fields columns nulls len :=
    if fields.length = columns.length ∧
        (∀ entry ∈ fields.zip columns, entry.2.dataType = entry.1.dataType ∧ entry.2.len = len ∧
          (entry.1.nullable = false → entry.2.logicalNullCount = 0)) ∧
        (nulls.all fun valid => valid.length = len) = true then
      .ok (struct fields columns (nulls.getD (List.replicate len true)))
    else .error (.invalidArgumentError "Incorrect parts for StructArray")
  asStructArray := fun
    | struct _ columns valid =>
      if ∀ column ∈ columns, column.len = valid.length then some columns else none
    | _ => none
  fixedSizeListArray field size elements nulls len :=
    if elements.dataType = field.dataType ∧ elements.len = size * len ∧
        (field.nullable = false → elements.logicalNullCount = 0) ∧
        (nulls.all fun valid => valid.length = len) = true then
      .ok (fixedSizeList field size elements (nulls.getD (List.replicate len true)))
    else .error (.invalidArgumentError "Incorrect parts for FixedSizeListArray")
  asFixedSizeListArray := fun
    | fixedSizeList _ size elements valid =>
      if elements.len = size * valid.length then some (size, elements) else none
    | _ => none

theorem memoryArrays_rows {α : Type} {kind : RowArray (MemoryArray F) α} {type : DataType}
    (hcollect : ∀ rows, kind.downcast (kind.collect rows) = some rows)
    (hmade : ∀ rows, (memoryArrays F).Made (kind.collect rows) type (rows.map Option.isSome))
    (hslice : ∀ rows o n, (kind.collect rows).slice o n = kind.collect (Rows.cut o n rows))
    (hdowncast : ∀ array rows, kind.downcast array = some rows → array = kind.collect rows) :
    (memoryArrays F).RowsDocumented kind type where
  made := hmade
  collect := hcollect
  valid array rows h := by rw [hdowncast array rows h, (hmade rows).valid]
  slice array rows o n _ h := by
    rw [hdowncast array rows h]
    exact (congrArg kind.downcast (hslice rows o n)).trans (hcollect _)

theorem memoryArrays_dictionary (keys : List (Option ℤ)) (labels : List String)
    (h : ∀ key ∈ keys, ∀ code : ℤ, key = some code → 0 ≤ code ∧ code < labels.length) :
    ∃ array, (memoryArrays F).dictionaryArray keys
        ((memoryArrays F).stringArray.collect (labels.map some)) = .ok array ∧
      (memoryArrays F).Made array .dictionary (keys.map Option.isSome) ∧
      (memoryArrays F).asDictionaryArray array =
        some (keys, (memoryArrays F).stringArray.collect (labels.map some)) := by
  have hlen : (utf8 (labels.map some) : MemoryArray F).len = labels.length := by
    rw [MemoryArray.len, MemoryArray.valid, List.length_map, List.length_map]
  refine ⟨dictionary keys (utf8 (labels.map some)), if_pos fun key hkey => ?_, ⟨rfl, rfl, ?_⟩, rfl⟩
  · cases key with
    | none => rfl
    | some code =>
      have hcode := h _ hkey code rfl
      rw [hlen, Option.all_some, Bool.and_eq_true, decide_eq_true_eq, decide_eq_true_eq]
      exact hcode
  · -- no label is null, so a row is null exactly where its key is
    show keys.countP _ = (keys.map Option.isSome).countP _
    rw [List.countP_map]
    refine List.countP_congr fun key hkey => ?_
    cases key with
    | none => exact iff_of_true rfl rfl
    | some code =>
      obtain ⟨hpos, hlt⟩ := h _ hkey code rfl
      have hbound : code.toNat < labels.length := by omega
      refine iff_of_false ?_ nofun
      show ¬ decide ((utf8 (labels.map some) : MemoryArray F).valid.getD code.toNat false = false) = true
      have hvalid : (utf8 (labels.map some) : MemoryArray F).valid.getD code.toNat false = true := by
        rw [MemoryArray.valid, List.getD_eq_getElem?_getD, List.getElem?_map, List.getElem?_map,
          List.getElem?_eq_getElem hbound]
        rfl
      rw [hvalid]
      decide

theorem memoryArrays_struct (fields : List (Field DataType)) (columns : List (MemoryArray F))
    (nulls : Option (List Bool)) (len : ℕ) (hfit : (memoryArrays F).Fit fields columns len)
    (hnulls : ∀ valid ∈ nulls, valid.length = len) :
    ∃ array, (memoryArrays F).structArray fields columns nulls len = .ok array ∧
      (memoryArrays F).Made array (.struct fields) (nulls.getD (List.replicate len true)) ∧
      (memoryArrays F).asStructArray array = some columns := by
  have hmask : (nulls.getD (List.replicate len true)).length = len := by
    cases nulls with
    | none => exact List.length_replicate
    | some valid => exact hnulls valid rfl
  refine ⟨struct fields columns (nulls.getD (List.replicate len true)), ?_, ⟨rfl, rfl, rfl⟩, ?_⟩
  · refine if_pos ⟨hfit.length_eq, fun entry hentry => ?_, ?_⟩
    · exact List.forall₂_zip hfit hentry
    · cases nulls with
      | none => rfl
      | some valid => exact decide_eq_true (hnulls valid rfl)
  · refine if_pos fun column hmem => ?_
    obtain ⟨field, -, hcolumn⟩ := Checked.exists_of_forall₂_right hfit hmem
    exact hcolumn.2.1.trans hmask.symm

theorem memoryArrays_asStructArray {array : MemoryArray F} {columns : List (MemoryArray F)}
    (h : (memoryArrays F).asStructArray array = some columns) :
    ∃ fields valid, array = struct fields columns valid ∧
      ∀ column ∈ columns, column.len = valid.length := by
  cases array with
  | struct fields columns' valid =>
    have h : (if ∀ column ∈ columns', column.len = valid.length then some columns' else none) =
      some columns := h
    split_ifs at h with hlens
    cases h
    exact ⟨fields, valid, rfl, hlens⟩
  | _ => cases h

theorem memoryArrays_asFixedSizeListArray {array : MemoryArray F} {size : ℤ}
    {elements : MemoryArray F}
    (h : (memoryArrays F).asFixedSizeListArray array = some (size, elements)) :
    ∃ field valid, array = fixedSizeList field size elements valid ∧
      elements.len = size * valid.length := by
  cases array with
  | fixedSizeList field size' elements' valid =>
    have h : (if elements'.len = size' * valid.length then some (size', elements') else none) =
      some (size, elements) := h
    split_ifs at h with hlen
    cases h
    exact ⟨field, valid, rfl, hlen⟩
  | _ => cases h

theorem memoryArrays_fixedSizeList (field : Field DataType) (size : ℕ) (elements : MemoryArray F)
    (nulls : Option (List Bool)) (len : ℕ) (htype : elements.dataType = field.dataType)
    (hlen : elements.len = size * len) (hnull : elements.logicalNullCount = 0)
    (hnulls : ∀ valid ∈ nulls, valid.length = len) :
    ∃ array, (memoryArrays F).fixedSizeListArray field size elements nulls len = .ok array ∧
      (memoryArrays F).Made array (.fixedSizeList field size)
        (nulls.getD (List.replicate len true)) ∧
      (memoryArrays F).asFixedSizeListArray array = some ((size : ℤ), elements) := by
  have hmask : (nulls.getD (List.replicate len true)).length = len := by
    cases nulls with
    | none => exact List.length_replicate
    | some valid => exact hnulls valid rfl
  have hcast : (elements.len : ℤ) = size * len := by rw [hlen, Int.natCast_mul]
  refine ⟨fixedSizeList field size elements (nulls.getD (List.replicate len true)), ?_,
    ⟨rfl, rfl, rfl⟩, ?_⟩
  · refine if_pos ⟨htype, hcast, fun _ => hnull, ?_⟩
    cases nulls with
    | none => rfl
    | some valid => exact decide_eq_true (hnulls valid rfl)
  · exact if_pos (by rw [hmask]; exact hcast)

theorem memoryArrays_documented (F : Type) : (memoryArrays F).Documented where
  slice array o n _ := valid_slice array o n
  float64 := memoryArrays_rows (fun _ => rfl) (fun _ => ⟨rfl, rfl, rfl⟩) (fun _ _ _ => rfl)
    fun array _ h => by cases array <;> cases h; rfl
  int64 := memoryArrays_rows (fun _ => rfl) (fun _ => ⟨rfl, rfl, rfl⟩) (fun _ _ _ => rfl)
    fun array _ h => by cases array <;> cases h; rfl
  boolean := memoryArrays_rows (fun _ => rfl) (fun _ => ⟨rfl, rfl, rfl⟩) (fun _ _ _ => rfl)
    fun array _ h => by cases array <;> cases h; rfl
  uint32 := memoryArrays_rows (fun _ => rfl) (fun _ => ⟨rfl, rfl, rfl⟩) (fun _ _ _ => rfl)
    fun array _ h => by cases array <;> cases h; rfl
  string := memoryArrays_rows (fun _ => rfl) (fun _ => ⟨rfl, rfl, rfl⟩) (fun _ _ _ => rfl)
    fun array _ h => by cases array <;> cases h; rfl
  dictionary := memoryArrays_dictionary
  dictionaryValid array keys values h := by
    cases array with
    | dictionary keys values =>
      cases h
      rfl
    | _ => cases h
  dictionarySlice array keys values o n _ h := by
    cases array with
    | dictionary keys values =>
      cases h
      rfl
    | _ => cases h
  struct := memoryArrays_struct
  structLen array columns h := by
    obtain ⟨fields, valid, rfl, hlens⟩ := memoryArrays_asStructArray h
    exact hlens
  structSlice array columns o n hfits h := by
    obtain ⟨fields, valid, rfl, hlens⟩ := memoryArrays_asStructArray h
    have hfits : o + n ≤ valid.length := hfits
    show (if ∀ column ∈ sliceColumns columns o n, column.len = (Rows.cut o n valid).length then
      some (sliceColumns columns o n) else none) = _
    rw [sliceColumns_eq_map, if_pos]
    rw [List.forall_mem_map, Rows.length_cut hfits]
    exact fun column hmem => len_slice ((hlens column hmem).symm ▸ hfits)
  fixedSizeList := memoryArrays_fixedSizeList
  fixedSizeListLen array size elements h := by
    obtain ⟨field, valid, rfl, hlen⟩ := memoryArrays_asFixedSizeListArray h
    exact_mod_cast hlen
  fixedSizeListSlice array size elements o n hfits h := by
    obtain ⟨field, valid, rfl, hlen⟩ := memoryArrays_asFixedSizeListArray h
    have hfits : o + n ≤ valid.length := hfits
    have hlen : elements.len = size * valid.length := by exact_mod_cast hlen
    have hbound : o * size + n * size ≤ elements.len := by
      rw [hlen, ← Nat.add_mul, Nat.mul_comm]
      exact Nat.mul_le_mul_left size hfits
    refine if_pos ?_
    rw [Rows.length_cut hfits, Int.toNat_natCast, len_slice hbound, Int.natCast_mul, Int.mul_comm]

end ProvenGraphcal.Protocol
