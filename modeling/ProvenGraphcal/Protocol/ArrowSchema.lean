import Mathlib.Data.String.Basic
import ProvenGraphcal.Library.DistinctKeys
import ProvenGraphcal.Library.SortedMap
import ProvenGraphcal.Protocol.WireType

/-!
# Arrow schemas

The Arrow types of wire types, and the check that a received schema is the expected one.
-/

namespace ProvenGraphcal.Protocol

open Checked (bind_eq_ok reject_eq_ok)

/-- The key-value metadata of a field or a schema. -/
abbrev Metadata := SortedMap String String

structure Field (D : Type) where
  name : String
  dataType : D
  nullable : Bool
  metadata : Metadata

/-- The Arrow types of the protocol; every other one is told apart by what it is. -/
inductive DataType
  | float64
  | int64
  | boolean
  | uint8
  | uint32
  | utf8
  /-- Strings in a dictionary with 32-bit codes. -/
  | dictionary
  | fixedSizeList (item : Field DataType) (size : ℤ)
  | struct (fields : List (Field DataType))
  | other (type : String)

namespace DataType

theorem induction {P : DataType → Prop}
    (leaf : ∀ type, (∀ item size, type ≠ .fixedSizeList item size) →
      (∀ fields, type ≠ .struct fields) → P type)
    (fixedSizeList : ∀ item size, P item.dataType → P (.fixedSizeList item size))
    (struct : ∀ fields, (∀ field ∈ fields, P field.dataType) → P (.struct fields))
    (type : DataType) : P type := by
  refine @DataType.rec P (fun field => P field.dataType)
    (fun fields => ∀ field ∈ fields, P field.dataType)
    (leaf _ nofun nofun) (leaf _ nofun nofun) (leaf _ nofun nofun) (leaf _ nofun nofun)
    (leaf _ nofun nofun) (leaf _ nofun nofun) (leaf _ nofun nofun) fixedSizeList struct
    (fun type => leaf _ nofun nofun) (fun name type nullable metadata h => h) ?_ ?_ type
  · exact fun field hmem => (nomatch hmem)
  · exact fun field rest hfirst hrest => List.forall_mem_cons.mpr ⟨hfirst, hrest⟩

mutual

def beq : DataType → DataType → Bool
  | .float64, .float64 => true
  | .int64, .int64 => true
  | .boolean, .boolean => true
  | .uint8, .uint8 => true
  | .uint32, .uint32 => true
  | .utf8, .utf8 => true
  | .dictionary, .dictionary => true
  | .fixedSizeList ⟨name, type, nullable, metadata⟩ size, .fixedSizeList item size' =>
    name = item.name && nullable = item.nullable && metadata = item.metadata && size = size' &&
      beq type item.dataType
  | .struct fields, .struct fields' => beqFields fields fields'
  | .other type, .other type' => type = type'
  | _, _ => false

def beqFields : List (Field DataType) → List (Field DataType) → Bool
  | [], [] => true
  | ⟨name, type, nullable, metadata⟩ :: fields, field :: fields' =>
    name = field.name && nullable = field.nullable && metadata = field.metadata &&
      beq type field.dataType && beqFields fields fields'
  | _, _ => false

end

theorem beqFields_eq_true {fields fields' : List (Field DataType)}
    (ih : ∀ field ∈ fields, ∀ type', beq field.dataType type' = true ↔ field.dataType = type') :
    beqFields fields fields' = true ↔ fields = fields' := by
  induction fields generalizing fields' with
  | nil => cases fields' <;> simp [beqFields]
  | cons field rest ihrest =>
    obtain ⟨name, type, nullable, metadata⟩ := field
    rw [List.forall_mem_cons] at ih
    cases fields' with
    | nil => simp [beqFields]
    | cons field' rest' =>
      obtain ⟨name', type', nullable', metadata'⟩ := field'
      have htype : beq type type' = true ↔ type = type' := ih.1 type'
      simp only [beqFields, Bool.and_eq_true, decide_eq_true_eq, htype, ihrest ih.2,
        List.cons.injEq, Field.mk.injEq]
      tauto

theorem beq_eq_true {type type' : DataType} : beq type type' = true ↔ type = type' := by
  induction type using DataType.induction generalizing type' with
  | leaf type hlist hstruct =>
    cases type with
    | fixedSizeList item size => exact absurd rfl (hlist item size)
    | struct fields => exact absurd rfl (hstruct fields)
    | _ => cases type' <;> simp [beq]
  | fixedSizeList item size ih =>
    obtain ⟨name, type, nullable, metadata⟩ := item
    cases type' with
    | fixedSizeList item' size' =>
      obtain ⟨name', type', nullable', metadata'⟩ := item'
      have htype : beq type type' = true ↔ type = type' := ih
      simp only [beq, Bool.and_eq_true, decide_eq_true_eq, htype, DataType.fixedSizeList.injEq,
        Field.mk.injEq]
      tauto
    | _ => simp [beq]
  | struct fields ih =>
    cases type' with
    | struct fields' =>
      rw [beq, beqFields_eq_true fun field hmem type' => ih field hmem, DataType.struct.injEq]
    | _ => simp [beq]

instance : DecidableEq DataType := fun type type' =>
  decidable_of_iff (beq type type' = true) beq_eq_true

end DataType

def listItemField : String := "item"
def realField : String := "re"
def imaginaryField : String := "im"
def constructorField : String := "constructor"
def variantsField : String := "variants"

/-- `Field::new`. -/
def Field.new (name : String) (type : DataType) (nullable : Bool) : Field DataType :=
  ⟨name, type, nullable, .empty⟩

def complexFields : List (Field DataType) :=
  [.new realField .float64 false, .new imaginaryField .float64 false]

/-- An axis length as the size of an Arrow list. -/
def axisSize (len : ℕ) : ℤ := if len < 2 ^ 31 then len else 2 ^ 31 - 1

variable {F : Type}

mutual

/-- The Arrow type of the values of a wire type. -/
def dataType : WireType F → DataType
  | .quantity _ => .float64
  | .datetime _ => .float64
  | .complex _ => .struct complexFields
  | .int => .int64
  | .bool => .boolean
  | .key axis =>
    match axis.kind with
    | .named _ => .dictionary
    | .finite _ => .uint32
    | .coordinate _ _ => .float64
  | .indexed axis element =>
    .fixedSizeList (.new listItemField (dataType element) false) (axisSize axis.len)
  | .algebraic _ [⟨_, fields⟩] => .struct (constructorFields fields)
  | .algebraic _ constructors =>
    .struct [.new constructorField .dictionary false,
      .new variantsField (.struct (variantFields constructors)) false]

def constructorFields : List (FieldType (WireType F)) → List (Field DataType)
  | [] => []
  | ⟨name, wire⟩ :: rest => .new name.text (dataType wire) false :: constructorFields rest

def variantFields : List (ConstructorType (WireType F)) → List (Field DataType)
  | [] => []
  | ⟨name, fields⟩ :: rest =>
    .new name.text (.struct (constructorFields fields)) true :: variantFields rest

end

theorem constructorFields_eq_map (fields : List (FieldType (WireType F))) :
    constructorFields fields =
      fields.map fun field => .new field.name.text (dataType field.wire) false := by
  induction fields with
  | nil => rfl
  | cons field rest ih => rw [constructorFields, ih, List.map_cons]

theorem variantFields_eq_map (constructors : List (ConstructorType (WireType F))) :
    variantFields constructors = constructors.map fun constructor =>
      .new constructor.name.text (.struct (constructorFields constructor.fields)) true := by
  induction constructors with
  | nil => rfl
  | cons constructor rest ih => rw [variantFields, ih, List.map_cons]

theorem dataType_record (name : TypeName) (record : ConstructorType (WireType F)) :
    dataType (.algebraic name [record]) = .struct (constructorFields record.fields) := rfl

/-- A type with several constructors, or with none. -/
theorem dataType_union (name : TypeName) {constructors : List (ConstructorType (WireType F))}
    (h : ∀ record, constructors ≠ [record]) :
    dataType (.algebraic name constructors) =
      .struct [.new constructorField .dictionary false,
        .new variantsField (.struct (variantFields constructors)) false] := by
  match constructors with
  | [] => rfl
  | [record] => exact absurd rfl (h record)
  | first :: second :: rest => rfl

def metadataKey : String := "graphcal"

inductive SchemaMismatch
  | schemaMetadata (expected received : String)
  | fieldCount (path : String) (expected received : ℕ)
  | field (path expected received : String)
  deriving DecidableEq

def describeMetadata (metadata : Metadata) : String :=
  (metadata.get? metadataKey).getD "no graphcal metadata"

/-- What the comparison uses from outside: texts read as JSON values, and the names of types. -/
structure SchemaFormats where
  Value : Type
  decEq : DecidableEq Value
  readValue : String → Option Value
  display : DataType → String

variable (formats : SchemaFormats)

/-- Equal as JSON values, so that formatting and the order of keys do not matter. -/
def metadataMatches (expected received : Metadata) : Bool :=
  match expected.get? metadataKey, received.get? metadataKey with
  | none, none => true
  | some expected, some received =>
    match formats.readValue expected, formats.readValue received with
    | some expected, some received => @decide (expected = received) (formats.decEq _ _)
    | _, _ => false
  | _, _ => false

def fieldPath (parent name : String) : String :=
  if parent.isEmpty then name else parent ++ "." ++ name

def matchCount (parent : String) (expected received : ℕ) : Except SchemaMismatch Unit :=
  Checked.reject (expected ≠ received)
    (.fieldCount (if parent.isEmpty then "the top level" else "`" ++ parent ++ "`") expected received)

mutual

def matchFields (parent : String) :
    List (Field DataType) → List (Field DataType) → Except SchemaMismatch Unit
  | ⟨name, type, nullable, metadata⟩ :: rest, received :: rest' => do
    let path := fieldPath parent name
    Checked.reject (name ≠ received.name)
      (.field ("`" ++ path ++ "`") ("name `" ++ name ++ "`") ("name `" ++ received.name ++ "`"))
    Checked.reject (nullable ≠ received.nullable)
      (.field ("`" ++ path ++ "`") ("nullable " ++ toString nullable)
        ("nullable " ++ toString received.nullable))
    Checked.reject (metadataMatches formats metadata received.metadata = false)
      (.field ("`" ++ path ++ "`") (describeMetadata metadata)
        (describeMetadata received.metadata))
    matchType path type received.dataType
    matchFields parent rest rest'
  | _, _ => .ok ()

def matchType (path : String) : DataType → DataType → Except SchemaMismatch Unit
  | .struct expected, .struct received => do
    matchCount path expected.length received.length
    matchFields path expected received
  | expected, received =>
    if expected = received then .ok ()
    else .error (.field ("`" ++ path ++ "`") (formats.display expected) (formats.display received))

end

def fieldsMatch (parent : String) (expected received : List (Field DataType)) :
    Except SchemaMismatch Unit := do
  matchCount parent expected.length received.length
  matchFields formats parent expected received

/-! ## What the comparison accepts -/

mutual

/-- The type without the metadata of the fields of its structs. -/
def DataType.shape : DataType → DataType
  | .struct fields => .struct (shapeFields fields)
  | type => type

def shapeFields : List (Field DataType) → List (Field DataType)
  | [] => []
  | ⟨name, type, nullable, _⟩ :: rest => .new name type.shape nullable :: shapeFields rest

end

variable {formats}

theorem metadataMatches_self {metadata : Metadata} :
    metadataMatches formats metadata metadata = true ↔
      ∀ text ∈ metadata.get? metadataKey, (formats.readValue text).isSome = true := by
  unfold metadataMatches
  cases metadata.get? metadataKey with
  | none => simp
  | some text =>
    cases hread : formats.readValue text with
    | none => simp [hread]
    | some value => simp [hread]

theorem matchCount_eq_ok {path : String} {expected received : ℕ} :
    matchCount path expected received = .ok () ↔ expected = received := by
  rw [matchCount, reject_eq_ok, not_not]

theorem matchFields_cons {parent : String} {expected received : Field DataType}
    {rest rest' : List (Field DataType)} :
    matchFields formats parent (expected :: rest) (received :: rest') = .ok () ↔
      expected.name = received.name ∧ expected.nullable = received.nullable ∧
        metadataMatches formats expected.metadata received.metadata = true ∧
        matchType formats (fieldPath parent expected.name) expected.dataType received.dataType =
          .ok () ∧
        matchFields formats parent rest rest' = .ok () := by
  constructor
  · intro h
    obtain ⟨_, hname, h⟩ := bind_eq_ok.mp h
    obtain ⟨_, hnullable, h⟩ := bind_eq_ok.mp h
    obtain ⟨_, hmetadata, h⟩ := bind_eq_ok.mp h
    obtain ⟨_, htype, h⟩ := bind_eq_ok.mp h
    rw [reject_eq_ok, not_not] at hname hnullable
    rw [reject_eq_ok, Bool.not_eq_false] at hmetadata
    exact ⟨hname, hnullable, hmetadata, htype, h⟩
  · intro ⟨hname, hnullable, hmetadata, htype, hrest⟩
    refine bind_eq_ok.mpr ⟨(), reject_eq_ok.mpr (not_not.mpr hname), ?_⟩
    refine bind_eq_ok.mpr ⟨(), reject_eq_ok.mpr (not_not.mpr hnullable), ?_⟩
    refine bind_eq_ok.mpr ⟨(), reject_eq_ok.mpr ?_, ?_⟩
    · rw [hmetadata]
      exact nofun
    · exact bind_eq_ok.mpr ⟨(), htype, hrest⟩

theorem matchFields_shape {parent : String} {expected received : List (Field DataType)}
    (ih : ∀ field ∈ expected, ∀ path received,
      matchType formats path field.dataType received = .ok () →
        field.dataType.shape = received.shape)
    (hlen : expected.length = received.length)
    (h : matchFields formats parent expected received = .ok ()) :
    shapeFields expected = shapeFields received := by
  induction expected generalizing received with
  | nil =>
    rw [List.eq_nil_of_length_eq_zero hlen.symm]
  | cons field rest ihrest =>
    cases received with
    | nil => cases hlen
    | cons field' rest' =>
      obtain ⟨hname, hnullable, -, htype, hrest⟩ := matchFields_cons.mp h
      rw [List.forall_mem_cons] at ih
      rw [shapeFields, shapeFields, ih.1 _ _ htype,
        ihrest ih.2 (Nat.succ.inj hlen) hrest, hname, hnullable]

/-- Types that match differ in metadata only. -/
theorem matchType_shape {path : String} {expected received : DataType}
    (h : matchType formats path expected received = .ok ()) : expected.shape = received.shape := by
  induction expected using DataType.induction generalizing path received with
  | leaf expected hlist hstruct =>
    have hsame : expected = received := by
      unfold matchType at h
      split at h
      · exact absurd rfl (hstruct _)
      · split_ifs at h with hsame
        exact hsame
    rw [hsame]
  | fixedSizeList item size ih =>
    unfold matchType at h
    split_ifs at h with hsame
    rw [hsame]
  | struct fields ih =>
    unfold matchType at h
    split at h
    · next expected received hexpected =>
      cases hexpected
      obtain ⟨_, hcount, h⟩ := bind_eq_ok.mp h
      rw [DataType.shape, DataType.shape, matchFields_shape (fun field hmem path received =>
        ih field hmem) (matchCount_eq_ok.mp hcount) h]
    · split_ifs at h with hsame
      rw [hsame]

theorem fieldsMatch_shape {parent : String} {expected received : List (Field DataType)}
    (h : fieldsMatch formats parent expected received = .ok ()) :
    shapeFields expected = shapeFields received := by
  obtain ⟨_, hcount, h⟩ := bind_eq_ok.mp h
  exact matchFields_shape (fun field _ path received => matchType_shape) (matchCount_eq_ok.mp hcount) h

mutual

/-- No field inside the type carries metadata of the protocol. -/
def DataType.Plain : DataType → Prop
  | .struct fields => PlainFields fields
  | _ => True

def PlainFields : List (Field DataType) → Prop
  | [] => True
  | ⟨_, type, _, metadata⟩ :: rest =>
    metadata.get? metadataKey = none ∧ type.Plain ∧ PlainFields rest

end

theorem plainFields_iff {fields : List (Field DataType)} :
    PlainFields fields ↔
      ∀ field ∈ fields, field.metadata.get? metadataKey = none ∧ field.dataType.Plain := by
  induction fields with
  | nil => simp [PlainFields]
  | cons field rest ih => rw [PlainFields, ih, List.forall_mem_cons, and_assoc]

theorem matchType_self {path : String} {type : DataType} (h : type.Plain) :
    matchType formats path type type = .ok () := by
  induction type using DataType.induction generalizing path with
  | leaf type hlist hstruct =>
    unfold matchType
    split
    · exact absurd rfl (hstruct _)
    · exact if_pos rfl
  | fixedSizeList item size ih =>
    exact if_pos rfl
  | struct fields ih =>
    rw [DataType.Plain, plainFields_iff] at h
    refine bind_eq_ok.mpr ⟨(), matchCount_eq_ok.mpr rfl, ?_⟩
    generalize path = path
    induction fields with
    | nil => rfl
    | cons field rest ihrest =>
      rw [List.forall_mem_cons] at ih h
      refine matchFields_cons.mpr ⟨rfl, rfl, ?_, ih.1 h.1.2, ihrest ih.2 h.2⟩
      rw [metadataMatches_self, h.1.1]
      exact fun text hmem => (nomatch hmem)

/-- The Arrow types of the wire carry no metadata. -/
theorem plain_dataType (wire : WireType F) : (dataType wire).Plain := by
  have hconstructor : ∀ fields : List (FieldType (WireType F)),
      (∀ field ∈ fields, (dataType field.wire).Plain) →
        (DataType.struct (constructorFields fields)).Plain := by
    intro fields hfields
    rw [DataType.Plain, plainFields_iff, constructorFields_eq_map, List.forall_mem_map]
    exact fun field hmem => ⟨rfl, hfields field hmem⟩
  induction wire using WireType.induction with
  | quantity type => exact trivial
  | complex type => exact ⟨rfl, trivial, rfl, trivial, trivial⟩
  | int => exact trivial
  | bool => exact trivial
  | key axis =>
    unfold dataType
    split <;> exact trivial
  | datetime scale => exact trivial
  | indexed axis element ih => exact trivial
  | algebraic name constructors ih =>
    by_cases hrecord : ∃ record, constructors = [record]
    · obtain ⟨record, rfl⟩ := hrecord
      rw [dataType_record]
      exact hconstructor _ (ih record List.mem_cons_self)
    · rw [dataType_union name (not_exists.mp hrecord)]
      refine ⟨rfl, trivial, rfl, ?_, trivial⟩
      rw [DataType.Plain, plainFields_iff, variantFields_eq_map, List.forall_mem_map]
      exact fun constructor hmem => ⟨rfl, hconstructor _ (ih constructor hmem)⟩

end ProvenGraphcal.Protocol
