import ProvenGraphcal.Protocol.MemoryArrays
import ProvenGraphcal.Protocol.Value

/-!
# Arrow arrays of values

Arrow arrays of one wire type, including nested values. A nested array is never null below its top
level: under a null row every child slot holds a placeholder of its type. The one nullable child is
a constructor struct inside a tagged union, which is non-null exactly in the rows that use that
constructor.
-/

namespace ProvenGraphcal.Protocol

variable {F : Type}

/-- Why an Arrow array does not hold values of a wire type. Rows are rows of the top-level column. -/
inductive ValueDecodeError (F : Type)
  | arrowType
  | nonFinite (row : ℕ)
  | null (row : ℕ)
  | unknownVariant (name : String) (row : ℕ)
  | unknownPosition (position row : ℕ)
  | unknownCoordinate (coordinate : F) (row : ℕ)
  | unknownConstructor (name : String) (row : ℕ)
  | dictionaryKey (row : ℕ)
  | constructorPresence (row : ℕ)
  deriving DecidableEq

namespace ValueDecodeError

/-- The row that the error names. -/
def row? : ValueDecodeError F → Option ℕ
  | arrowType => none
  | nonFinite row => some row
  | null row => some row
  | unknownVariant _ row => some row
  | unknownPosition _ row => some row
  | unknownCoordinate _ row => some row
  | unknownConstructor _ row => some row
  | dictionaryKey row => some row
  | constructorPresence row => some row

/-- The same error with its row mapped by `outer`. -/
def mapRow (outer : ℕ → ℕ) : ValueDecodeError F → ValueDecodeError F
  | arrowType => arrowType
  | nonFinite row => nonFinite (outer row)
  | null row => null (outer row)
  | unknownVariant name row => unknownVariant name (outer row)
  | unknownPosition position row => unknownPosition position (outer row)
  | unknownCoordinate coordinate row => unknownCoordinate coordinate (outer row)
  | unknownConstructor name row => unknownConstructor name (outer row)
  | dictionaryKey row => dictionaryKey (outer row)
  | constructorPresence row => constructorPresence (outer row)

instance : Rows.RowError (ValueDecodeError F) where
  row? := row?
  mapRow := mapRow
  row?_mapRow f e := by cases e <;> rfl
  mapRow_mapRow f g e := by cases e <;> rfl
  mapRow_congr f g e h := by cases e <;> simp_all [row?, mapRow]

end ValueDecodeError

/-- An entry of a string dictionary that resolves to no label. -/
inductive DictionaryError
  | arrowType
  | key (row : ℕ)
  | unknown (name : String) (row : ℕ)
  deriving DecidableEq

instance : Rows.RowError DictionaryError where
  row?
    | .arrowType => none
    | .key row => some row
    | .unknown _ row => some row
  mapRow outer
    | .arrowType => .arrowType
    | .key row => .key (outer row)
    | .unknown name row => .unknown name (outer row)
  row?_mapRow f e := by cases e <;> rfl
  mapRow_mapRow f g e := by cases e <;> rfl
  mapRow_congr f g e h := by cases e <;> simp_all

/-- The error in terms of values, where `unknown` is that of a label without a meaning. -/
def DictionaryError.toValueError (unknown : String → ℕ → ValueDecodeError F) :
    DictionaryError → ValueDecodeError F
  | .arrowType => .arrowType
  | .key row => .dictionaryKey row
  | .unknown name row => unknown name row

/-- `ok_or`. -/
def okOr {ε α : Type} (found : Option α) (e : ε) : Except ε α :=
  match found with
  | some a => .ok a
  | none => .error e

def mismatch : ArrowError := .invalidArgumentError "a value does not conform to its wire type"

def rowValid (valid : Option (List Bool)) (row : ℕ) : Bool :=
  match valid with
  | none => true
  | some valid => valid.getD row false

/-- The null buffer of `len` rows; none when every row is valid. -/
def nulls (len : ℕ) (valid : Option (List Bool)) : Option (List Bool) :=
  let valid := valid.getD (List.replicate len true)
  if valid.all id then none else some valid

/-- The scalars of the values, null where `valid` is `false`. -/
def scalars {α : Type} (scalar : Value F → Option α) (values : List (Value F))
    (valid : Option (List Bool)) : Except ArrowError (List (Option α)) :=
  Rows.collectRows (fun value row =>
    match scalar value with
    | some scalar => .ok (if rowValid valid row then some scalar else none)
    | none => .error mismatch) values

def Value.number? : Value F → Option F
  | .quantity value => some value
  | .datetime value => some value
  | _ => none

def Value.int? : Value F → Option Int64
  | .int value => some value
  | _ => none

def Value.bool? : Value F → Option Bool
  | .bool value => some value
  | _ => none

def Value.complex? : Value F → Option (F × F)
  | .complex re im => some (re, im)
  | _ => none

def Value.indexed? : Value F → Option (List (Value F))
  | .indexed entries => some entries
  | _ => none

def Value.algebraic? : Value F → Option (ℕ × List (Value F))
  | .algebraic constructor fields => some (constructor, fields)
  | _ => none

variable [DecidableEq F]

/-- The position of the value's entry on the axis of keys. -/
def Value.position? (axis : Axis F) : Value F → Option ℕ
  | .key value => axis.position value
  | _ => none

/-- `u32::try_from(n).unwrap_or(u32::MAX)`. -/
def u32Size (n : ℕ) : ℕ := if n < 2 ^ 32 then n else 2 ^ 32 - 1

variable (arrays : ArrowArrays F)

def keyPosition (axis : Axis F) (position : Option ℕ) : Except ArrowError (Option ℕ) :=
  match position with
  | none => .ok none
  | some position =>
    if position < axis.len then .ok (some position)
    else .error (.invalidArgumentError
      ("key position " ++ toString position ++ " is outside its axis"))

/-- The array of the axis's entries at the positions: a dictionary over every variant of a named
axis, the positions of a finite axis, or the coordinates of a coordinate axis. -/
def keyArray (axis : Axis F) (positions : List (Option ℕ)) : Except ArrowError arrays.ArrayRef := do
  let positions ← positions.mapM (keyPosition axis)
  match axis.kind with
  | .named variants =>
    arrays.dictionaryArray (positions.map fun position => position.map axisSize)
      (arrays.stringArray.collect (variants.map fun variant => some variant.text))
  | .finite _ =>
    return arrays.uint32Array.collect (positions.map fun position => position.map u32Size)
  | .coordinate _ coordinates =>
    return arrays.float64Array.collect (positions.map fun position =>
      position.bind fun position => coordinates[position]?.map .finite)

variable [Zero F]

/-- The field of a row at the position; a row without fields holds a placeholder. -/
def fieldValue (wire : WireType F) (position : ℕ) (row : Option (List (Value F))) :
    Except ArrowError (Value F) :=
  match row with
  | none => .ok (placeholder wire)
  | some fields =>
    okOr fields[position]? (.invalidArgumentError "a constructor value lacks a field")

mutual

/-- An Arrow array of the values, null where `valid` is `false`. Invalid rows still hold a
conforming value. -/
def encode : WireType F → List (Value F) → Option (List Bool) → Except ArrowError arrays.ArrayRef
  | .quantity _, values, valid => do
    let numbers ← scalars (fun value => value.number?.map .finite) values valid
    return arrays.float64Array.collect numbers
  | .datetime _, values, valid => do
    let numbers ← scalars (fun value => value.number?.map .finite) values valid
    return arrays.float64Array.collect numbers
  | .int, values, valid => do
    let numbers ← scalars Value.int? values valid
    return arrays.int64Array.collect numbers
  | .bool, values, valid => do
    let booleans ← scalars Value.bool? values valid
    return arrays.booleanArray.collect booleans
  | .key axis, values, valid => do
    let positions ← scalars (Value.position? axis) values valid
    keyArray arrays axis positions
  | .complex _, values, valid => do
    let parts ← values.mapM fun value => okOr value.complex? mismatch
    arrays.structArray complexFields
      [arrays.float64Array.collect (parts.map fun part => some (.finite part.1)),
        arrays.float64Array.collect (parts.map fun part => some (.finite part.2))]
      (nulls values.length valid) values.length
  | .indexed axis element, values, valid => do
    let entries ← values.mapM fun value =>
      okOr (value.indexed?.filter fun row => row.length = axis.len) mismatch
    let child ← encode element entries.flatten none
    arrays.fixedSizeListArray (.new listItemField (dataType element) false) (axisSize axis.len) child
      (nulls values.length valid) values.length
  | .algebraic _ [record], values, valid => do
    let rows ← values.mapM fun value => okOr value.algebraic? mismatch
    encodeConstructor record (rows.map fun row => some row.2) valid
  | .algebraic _ constructors, values, valid => do
    let rows ← values.mapM fun value => okOr value.algebraic? mismatch
    let tags ← arrays.dictionaryArray
      (rows.map fun row => if row.1 < 2 ^ 31 then some (row.1 : ℤ) else none)
      (arrays.stringArray.collect (constructors.map fun constructor => some constructor.name.text))
    let columns ← encodeVariants constructors 0 rows
    let variants ← arrays.structArray (variantFields constructors) columns none values.length
    arrays.structArray
      [.new constructorField .dictionary false,
        .new variantsField (.struct (variantFields constructors)) false]
      [tags, variants] (nulls values.length valid) values.length

/-- For each constructor, the struct of its fields over the rows that use it. -/
def encodeVariants : List (ConstructorType (WireType F)) → ℕ → List (ℕ × List (Value F)) →
    Except ArrowError (List arrays.ArrayRef)
  | [], _, _ => .ok []
  | constructor :: rest, position, rows => do
    let active := rows.map fun row => if row.1 = position then some row.2 else none
    let variant ← encodeConstructor constructor active (some (active.map Option.isSome))
    let variants ← encodeVariants rest (position + 1) rows
    return variant :: variants

/-- The struct of the constructor's fields over the rows, null where `valid` is `false`; a row
without fields holds placeholders. -/
def encodeConstructor : ConstructorType (WireType F) → List (Option (List (Value F))) →
    Option (List Bool) → Except ArrowError arrays.ArrayRef
  | ⟨_, fields⟩, rows, valid => do
    let columns ← encodeColumns fields 0 rows
    arrays.structArray (constructorFields fields) columns (nulls rows.length valid) rows.length

def encodeColumns : List (FieldType (WireType F)) → ℕ → List (Option (List (Value F))) →
    Except ArrowError (List arrays.ArrayRef)
  | [], _, _ => .ok []
  | ⟨_, wire⟩ :: rest, position, rows => do
    let values ← rows.mapM (fieldValue wire position)
    let column ← encode wire values none
    let columns ← encodeColumns rest (position + 1) rows
    return column :: columns

end

/-! ## Decoding -/

/-- The entry of a code, when it is one of `len`. -/
def dictionaryEntry (len : ℕ) (code : ℤ) : Option ℕ := code.toNat?.filter fun entry => entry < len

def dictionaryRow (labels : List (Option String)) (resolved : List (Option ℕ)) (code : Option ℤ)
    (row : ℕ) : Except DictionaryError (Option ℕ) :=
  match code with
  | none => .ok none
  | some code =>
    match dictionaryEntry labels.length code with
    | none => .error (.key row)
    | some entry =>
      match resolved[entry]?.join with
      | none => .error (.unknown (labels[entry]?.join.getD "null") row)
      | some position => .ok (some position)

/-- Resolve every entry of a string dictionary by its label; a null row decodes as `none`. -/
def decodeDictionary (array : arrays.ArrayRef) (resolve : String → Option ℕ) :
    Except DictionaryError (List (Option ℕ)) := do
  let (keys, values) ← okOr (arrays.asDictionaryArray array) .arrowType
  let labels ← okOr (arrays.stringArray.downcast values) .arrowType
  let resolved := labels.map fun label => label.bind resolve
  Rows.collectRows (dictionaryRow labels resolved) keys

/-- The position of the variant with the label. -/
def variantPosition (axis : Axis F) (label : String) : Option ℕ :=
  match Label.new .variantName label with
  | .ok variant => axis.position (.variant variant)
  | .error _ => none

def positionRow (axis : Axis F) (position : Option ℕ) (row : ℕ) :
    Except (ValueDecodeError F) (Option ℕ) :=
  match position with
  | none => .ok none
  | some position =>
    (okOr (axis.position (.position position)) (.unknownPosition position row)).map some

def coordinateRow (axis : Axis F) (coordinate : Option (F64 F)) (row : ℕ) :
    Except (ValueDecodeError F) (Option ℕ) :=
  match coordinate with
  | none => .ok none
  | some coordinate => do
    let coordinate ← okOr coordinate.toFinite (.nonFinite row)
    (okOr (axis.position (.coordinate coordinate)) (.unknownCoordinate coordinate row)).map some

/-- The positions of the keys in an array of keys; a null row decodes as `none`. -/
def decodeKeyPositions (axis : Axis F) (array : arrays.ArrayRef) :
    Except (ValueDecodeError F) (List (Option ℕ)) :=
  match axis.kind with
  | .named _ =>
    (decodeDictionary arrays array (variantPosition axis)).mapError
      (DictionaryError.toValueError .unknownVariant)
  | .finite _ => do
    let rows ← okOr (arrays.uint32Array.downcast array) .arrowType
    Rows.collectRows (positionRow axis) rows
  | .coordinate _ _ => do
    let rows ← okOr (arrays.float64Array.downcast array) .arrowType
    Rows.collectRows (coordinateRow axis) rows

/-- Require a value in every row the parent marks valid. -/
def requireValues (values : List (Option (Value F))) (parentValid : ℕ → Bool) :
    Except (ValueDecodeError F) (List (Value F)) :=
  Rows.collectRows (fun value row =>
    match value with
    | some value => .ok value
    | none =>
      if parentValid row then .error (.null row)
      -- placeholder slots under a null parent are never read
      else .ok (.bool false)) values

def numberRow (number : F → Value F) (value : Option (F64 F)) (row : ℕ) :
    Except (ValueDecodeError F) (Option (Value F)) :=
  match value with
  | none => .ok none
  | some value => (okOr value.toFinite (.nonFinite row)).map fun value => some (number value)

/-- The values of a number column, made by the kind of value. -/
def decodeNumbers (number : F → Value F) (array : arrays.ArrayRef) :
    Except (ValueDecodeError F) (List (Option (Value F))) := do
  let rows ← okOr (arrays.float64Array.downcast array) .arrowType
  Rows.collectRows (numberRow number) rows

/-- The columns of a struct that has two. -/
def twoColumns {α : Type} (columns : List α) : Except (ValueDecodeError F) (α × α) :=
  match columns with
  | [first, second] => .ok (first, second)
  | _ => .error .arrowType

def complexRow (valid : Bool) (re im : Option (F64 F)) (row : ℕ) :
    Except (ValueDecodeError F) (Option (Value F)) :=
  if valid = false then .ok none
  else
    match re, im with
    | some re, some im => do
      let re ← okOr re.toFinite (.nonFinite row)
      let im ← okOr im.toFinite (.nonFinite row)
      return some (.complex re im)
    | _, _ => .error (.null row)

def decodeComplex (array : arrays.ArrayRef) :
    Except (ValueDecodeError F) (List (Option (Value F))) := do
  let columns ← okOr (arrays.asStructArray array) .arrowType
  let parts ← twoColumns columns
  let re ← okOr (arrays.float64Array.downcast parts.1) .arrowType
  let im ← okOr (arrays.float64Array.downcast parts.2) .arrowType
  (List.range (arrays.len array)).mapM fun row =>
    complexRow (arrays.isValid array row) re[row]?.join im[row]?.join row

/-- Push a value on each of the rows. -/
def pushAll {α : Type} : List (List α) → List α → List (List α)
  | row :: rows, value :: values => (row ++ [value]) :: pushAll rows values
  | rows, _ => rows

/-- The value of a union at a row, from the tags and the decoded constructors. -/
def decodeUnionRow (array : arrays.ArrayRef) (tags : List (Option ℕ))
    (decoded : List (arrays.ArrayRef × List (List (Value F)))) (row : ℕ) :
    Except (ValueDecodeError F) (Option (Value F)) :=
  if arrays.isValid array row = false then .ok none
  else
    match tags[row]?.join with
    | none => .error (.null row)
    | some tag =>
      if Rows.positions (fun entry => arrays.isValid entry.1 row) decoded ≠ [tag] then
        .error (.constructorPresence row)
      else
        .ok (some (.algebraic tag ((decoded[tag]?.bind fun entry => entry.2[row]?).getD [])))

/-- The position of the constructor with the name. -/
def constructorPosition (constructors : List (ConstructorType (WireType F))) (name : String) :
    Option ℕ :=
  constructors.findIdx? fun constructor => constructor.name.text = name

mutual

/-- The values of the array as values of the wire type, `none` in null rows. -/
def decode : WireType F → arrays.ArrayRef → Except (ValueDecodeError F) (List (Option (Value F)))
  | .quantity _, array => decodeNumbers arrays .quantity array
  | .datetime _, array => decodeNumbers arrays .datetime array
  | .int, array => do
    let rows ← okOr (arrays.int64Array.downcast array) .arrowType
    return rows.map fun value => value.map .int
  | .bool, array => do
    let rows ← okOr (arrays.booleanArray.downcast array) .arrowType
    return rows.map fun value => value.map .bool
  | .key axis, array => do
    let positions ← decodeKeyPositions arrays axis array
    return positions.map fun position => (position.bind axis.key).map .key
  | .complex _, array => decodeComplex arrays array
  | .indexed axis element, array => do
    let (size, elements) ← okOr (arrays.asFixedSizeListArray array) .arrowType
    Checked.reject (size.toNat? ≠ some axis.len) .arrowType
    let entries ← (decode element elements).mapError (Rows.RowError.mapRow (· / axis.len))
    let entries ← (requireValues entries fun entry =>
      arrays.isValid array (entry / axis.len)).mapError (Rows.RowError.mapRow (· / axis.len))
    return (Rows.chunks axis.len entries).zipIdx.map fun (chunk, row) =>
      if arrays.isValid array row then some (.indexed chunk) else none
  | .algebraic _ [record], array => do
    let columns ← okOr (arrays.asStructArray array) .arrowType
    let rows ← decodeConstructor record array columns (arrays.isValid array)
    return rows.zipIdx.map fun (fields, row) =>
      if arrays.isValid array row then some (.algebraic 0 fields) else none
  | .algebraic _ constructors, array => do
    let columns ← okOr (arrays.asStructArray array) .arrowType
    let parts ← twoColumns columns
    let tags ← (decodeDictionary arrays parts.1 (constructorPosition constructors)).mapError
      (DictionaryError.toValueError .unknownConstructor)
    let variants ← okOr (arrays.asStructArray parts.2) .arrowType
    Checked.reject (variants.length ≠ constructors.length) .arrowType
    let decoded ← decodeVariants constructors variants
    (List.range (arrays.len array)).mapM (decodeUnionRow arrays array tags decoded)

def decodeVariants : List (ConstructorType (WireType F)) → List arrays.ArrayRef →
    Except (ValueDecodeError F) (List (arrays.ArrayRef × List (List (Value F))))
  | constructor :: rest, column :: columns => do
    let parts ← okOr (arrays.asStructArray column) .arrowType
    let rows ← decodeConstructor constructor column parts (arrays.isValid column)
    let decoded ← decodeVariants rest columns
    return (column, rows) :: decoded
  | _, _ => .ok []

/-- The field values of the constructor in every row of the struct, requiring values in the rows
`valid` marks. -/
def decodeConstructor : ConstructorType (WireType F) → arrays.ArrayRef → List arrays.ArrayRef →
    (ℕ → Bool) → Except (ValueDecodeError F) (List (List (Value F)))
  | ⟨_, fields⟩, structure_, columns, valid => do
    Checked.reject (columns.length ≠ fields.length) .arrowType
    decodeColumns fields columns valid (List.replicate (arrays.len structure_) [])

def decodeColumns : List (FieldType (WireType F)) → List arrays.ArrayRef → (ℕ → Bool) →
    List (List (Value F)) → Except (ValueDecodeError F) (List (List (Value F)))
  | ⟨_, wire⟩ :: fields, column :: columns, valid, rows => do
    let values ← decode wire column
    let values ← requireValues values valid
    decodeColumns fields columns valid (pushAll rows values)
  | _, _, _, rows => .ok rows

end

end ProvenGraphcal.Protocol
