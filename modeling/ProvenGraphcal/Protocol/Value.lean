import ProvenGraphcal.Library.Binary64
import ProvenGraphcal.Protocol.WireType

/-!
# Values of wire types
-/

namespace ProvenGraphcal.Protocol

inductive Value (F : Type)
  | quantity (value : F)
  | complex (re im : F)
  | int (value : Int64)
  | bool (value : Bool)
  | key (value : KeyValue F)
  | datetime (value : F)
  | indexed (entries : List (Value F))
  | algebraic (constructor : ℕ) (fields : List (Value F))

variable {F : Type}
variable {axis : Axis F} {constructors : List (ConstructorType (WireType F))}
variable {fields : List (FieldType (WireType F))} {values : List (Value F)} {type : QuantityType}

section Conformance

variable [DecidableEq F]

mutual

/-- Whether the value has the shape of the wire type. -/
def Value.conformsTo : WireType F → Value F → Bool
  | .quantity _, .quantity _ => true
  | .complex _, .complex _ _ => true
  | .int, .int _ => true
  | .bool, .bool _ => true
  | .datetime _, .datetime _ => true
  | .key axis, .key value => (axis.position value).isSome
  | .indexed axis element, .indexed entries =>
    entries.length = axis.len && entries.all (Value.conformsTo element)
  | .algebraic _ constructors, .algebraic constructor fields =>
    conformsConstructor constructors constructor fields
  | _, _ => false

def conformsConstructor : List (ConstructorType (WireType F)) → ℕ → List (Value F) → Bool
  | [], _, _ => false
  | ⟨_, fields⟩ :: _, 0, values => fields.length = values.length && conformsFields fields values
  | _ :: rest, constructor + 1, values => conformsConstructor rest constructor values

def conformsFields : List (FieldType (WireType F)) → List (Value F) → Bool
  | ⟨_, wire⟩ :: rest, value :: values => Value.conformsTo wire value && conformsFields rest values
  | _, _ => true

end

attribute [local simp] Value.conformsTo conformsConstructor conformsFields

theorem conformsFields_iff :
    (fields.length = values.length ∧ conformsFields fields values = true) ↔
      List.Forall₂ (fun field value => Value.conformsTo field.wire value = true) fields values := by
  induction fields generalizing values with
  | nil =>
    cases values with
    | nil => simp
    | cons value values => simp
  | cons field rest ih =>
    cases values with
    | nil => simp
    | cons value values =>
      rw [List.forall₂_cons, ← ih, conformsFields, Bool.and_eq_true, List.length_cons,
        List.length_cons, Nat.succ_inj]
      tauto

/-- The fields of a constructor of the type, one value each. -/
theorem conformsConstructor_iff {constructor : ℕ} :
    conformsConstructor constructors constructor values = true ↔
      ∃ found, constructors[constructor]? = some found ∧
        List.Forall₂ (fun field value => Value.conformsTo field.wire value = true)
          found.fields values := by
  induction constructors generalizing constructor with
  | nil => simp
  | cons first rest ih =>
    cases constructor with
    | zero =>
      rw [conformsConstructor, Bool.and_eq_true, decide_eq_true_eq, conformsFields_iff,
        List.getElem?_cons_zero]
      exact ⟨fun h => ⟨first, rfl, h⟩, fun ⟨found, hfound, h⟩ => Option.some.inj hfound ▸ h⟩
    | succ constructor => rw [conformsConstructor, ih, List.getElem?_cons_succ]

variable {value : Value F}

theorem conformsTo_quantity :
    Value.conformsTo (.quantity type) value = true ↔ ∃ number, Value.quantity number = value := by
  cases value <;> simp

theorem conformsTo_datetime {scale : TimeScale} :
    Value.conformsTo (.datetime scale) value = true ↔ ∃ number, Value.datetime number = value := by
  cases value <;> simp

theorem conformsTo_complex :
    Value.conformsTo (.complex type) value = true ↔
      ∃ parts : F × F, Value.complex parts.1 parts.2 = value := by
  cases value <;> simp

theorem conformsTo_int :
    Value.conformsTo (.int : WireType F) value = true ↔ ∃ number, Value.int number = value := by
  cases value <;> simp

theorem conformsTo_bool :
    Value.conformsTo (.bool : WireType F) value = true ↔ ∃ bool, Value.bool bool = value := by
  cases value <;> simp

theorem conformsTo_key :
    Value.conformsTo (.key axis) value = true ↔
      ∃ key, Value.key key = value ∧ (axis.position key).isSome = true := by
  cases value <;> simp

theorem conformsTo_indexed {element : WireType F} :
    Value.conformsTo (.indexed axis element) value = true ↔
      ∃ entries, Value.indexed entries = value ∧ entries.length = axis.len ∧
        ∀ entry ∈ entries, Value.conformsTo element entry = true := by
  cases value <;> simp

theorem conformsTo_algebraic {name : TypeName} :
    Value.conformsTo (.algebraic name constructors) value = true ↔
      ∃ row : ℕ × List (Value F), Value.algebraic row.1 row.2 = value ∧
        ∃ found, constructors[row.1]? = some found ∧
          List.Forall₂ (fun field value => Value.conformsTo field.wire value = true)
            found.fields row.2 := by
  cases value with
  | algebraic constructor fields =>
    simp only [Value.conformsTo, conformsConstructor_iff, Value.algebraic.injEq]
    exact ⟨fun h => ⟨(constructor, fields), ⟨rfl, rfl⟩, h⟩, fun ⟨_, ⟨h₁, h₂⟩, h⟩ => h₁ ▸ h₂ ▸ h⟩
  | _ => simp

end Conformance

mutual

/-- Every algebraic type inside has a constructor, as many as 32-bit codes can tell apart, and no
two with one name; no constructor has two fields with one name. -/
def WireType.Valid : WireType F → Prop
  | .indexed _ element => element.Valid
  | .algebraic _ constructors =>
    constructors ≠ [] ∧ constructors.length < 2 ^ 31 ∧
      (constructors.map ConstructorType.name).Nodup ∧ ValidConstructors constructors
  | _ => True

def ValidConstructors : List (ConstructorType (WireType F)) → Prop
  | [] => True
  | ⟨_, fields⟩ :: rest =>
    (fields.map FieldType.name).Nodup ∧ ValidFields fields ∧ ValidConstructors rest

def ValidFields : List (FieldType (WireType F)) → Prop
  | [] => True
  | ⟨_, wire⟩ :: rest => wire.Valid ∧ ValidFields rest

end

theorem validFields_iff :
    ValidFields fields ↔ ∀ field ∈ fields, field.wire.Valid := by
  induction fields with
  | nil => simp [ValidFields]
  | cons field rest ih => rw [ValidFields, ih, List.forall_mem_cons]

theorem validConstructors_iff :
    ValidConstructors constructors ↔ ∀ constructor ∈ constructors,
      (constructor.fields.map FieldType.name).Nodup ∧
        ∀ field ∈ constructor.fields, field.wire.Valid := by
  induction constructors with
  | nil => simp [ValidConstructors]
  | cons constructor rest ih =>
    rw [ValidConstructors, validFields_iff, ih, List.forall_mem_cons, and_assoc]

/-! ## Placeholders -/

section Placeholder

variable [Zero F]

mutual

/-- A value that stands in under a null row. -/
def placeholder : WireType F → Value F
  | .quantity _ => .quantity 0
  | .datetime _ => .datetime 0
  | .complex _ => .complex 0 0
  | .int => .int 0
  | .bool => .bool false
  | .key axis => .key ((axis.key 0).getD (.position 0))
  | .indexed axis element => .indexed (List.replicate axis.len (placeholder element))
  | .algebraic _ (⟨_, fields⟩ :: _) => .algebraic 0 (placeholders fields)
  | .algebraic _ [] => .algebraic 0 []

def placeholders : List (FieldType (WireType F)) → List (Value F)
  | [] => []
  | ⟨_, wire⟩ :: rest => placeholder wire :: placeholders rest

end

/-- The values of a top-level column, with placeholders and a validity mask for the rows without
a value. -/
def withPlaceholders (wire : WireType F) (values : List (Option (Value F))) :
    List (Value F) × List Bool :=
  (values.map fun value => value.getD (placeholder wire), values.map Option.isSome)

end Placeholder

theorem Axis.len_pos (axis : Axis F) : 0 < axis.len := axis.valid.1

theorem Axis.len_lt (axis : Axis F) : axis.len < 2 ^ 31 := axis.valid.2.1

variable {position : ℕ}

theorem Axis.key_isSome :
    (axis.key position).isSome = true ↔ position < axis.len := by
  unfold Axis.key Axis.len AxisKind.len
  cases axis.kind with
  | named variants => simp
  | finite size => by_cases h : position < size <;> simp [h]
  | coordinate dimension coordinates => simp

variable [DecidableEq F]

/-- The position of a key is that of an entry with the key. -/
theorem Axis.key_of_position {value : KeyValue F} (h : axis.position value = some position) :
    axis.key position = some value := by
  unfold Axis.position at h
  unfold Axis.key
  split at h
  · next variants name hkind =>
    rw [List.findIdx?_eq_some_iff_getElem] at h
    obtain ⟨hlt, hname, -⟩ := h
    rw [hkind]
    show variants[position]?.map KeyValue.variant = _
    rw [List.getElem?_eq_getElem hlt, of_decide_eq_true hname]
    rfl
  · next size found hkind =>
    split_ifs at h with hlt
    cases h
    rw [hkind]
    exact if_pos hlt
  · next dimension coordinates coordinate hkind =>
    rw [List.findIdx?_eq_some_iff_getElem] at h
    obtain ⟨hlt, hcoordinate, -⟩ := h
    rw [hkind]
    show coordinates[position]?.map KeyValue.coordinate = _
    rw [List.getElem?_eq_getElem hlt, of_decide_eq_true hcoordinate]
    rfl
  · cases h

theorem Axis.position_key_isSome {value : KeyValue F} (h : axis.key position = some value) :
    (axis.position value).isSome = true := by
  unfold Axis.key at h
  unfold Axis.position
  split at h
  · next variants hkind =>
    obtain ⟨name, hname, rfl⟩ := Option.map_eq_some_iff.mp h
    rw [hkind]
    show (variants.findIdx? fun variant => variant = name).isSome = true
    rw [List.findIdx?_isSome, List.any_eq_true]
    exact ⟨name, List.mem_of_getElem? hname, decide_eq_true rfl⟩
  · next size hkind =>
    split_ifs at h with hlt
    cases h
    rw [hkind]
    show (if position < size then some position else none).isSome = true
    rw [if_pos hlt]
    rfl
  · next dimension coordinates hkind =>
    obtain ⟨coordinate, hcoordinate, rfl⟩ := Option.map_eq_some_iff.mp h
    rw [hkind]
    show (coordinates.findIdx? fun other => other = coordinate).isSome = true
    rw [List.findIdx?_isSome, List.any_eq_true]
    exact ⟨coordinate, List.mem_of_getElem? hcoordinate, decide_eq_true rfl⟩

variable [Zero F]

/-- A placeholder is a value of its type. -/
theorem conformsTo_placeholder {wire : WireType F} (h : wire.Valid) :
    Value.conformsTo wire (placeholder wire) = true := by
  induction wire using WireType.induction with
  | quantity type => rfl
  | complex type => rfl
  | int => rfl
  | bool => rfl
  | datetime scale => rfl
  | key axis =>
    have hsome := Axis.key_isSome.mpr axis.len_pos
    obtain ⟨value, hvalue⟩ := Option.isSome_iff_exists.mp hsome
    rw [placeholder, hvalue]
    exact Axis.position_key_isSome hvalue
  | indexed axis element ih =>
    rw [placeholder, Value.conformsTo, List.length_replicate, decide_eq_true rfl, Bool.true_and,
      List.all_eq_true]
    intro entry hentry
    rw [List.eq_of_mem_replicate hentry]
    exact ih h
  | algebraic name constructors ih =>
    obtain ⟨hne, -, -, hvalid⟩ := h
    obtain ⟨⟨first, fields⟩, rest, rfl⟩ := List.exists_cons_of_ne_nil hne
    rw [placeholder, Value.conformsTo, conformsConstructor_iff]
    refine ⟨⟨first, fields⟩, rfl, ?_⟩
    have hfields := (validConstructors_iff.mp hvalid _ List.mem_cons_self).2
    have ihfields := ih _ List.mem_cons_self
    clear ih hvalid hne
    induction fields with
    | nil => exact .nil
    | cons field fields ihrest =>
      rw [List.forall_mem_cons] at hfields ihfields
      exact .cons (ihfields.1 hfields.1) (ihrest hfields.2 ihfields.2)

/-!
# The keys of an axis and their positions

A description of an axis is checked for repeated variants, but not for repeated coordinates.
-/

variable {F : Type}

inductive AxisError
  | empty (index : IndexName)
  | duplicateVariant (index : IndexName) (variant : VariantName)
  | tooLarge (index : IndexName) (size : ℕ)
  deriving DecidableEq

def AxisKind.coordinates : AxisKind F → List F
  | named _ => []
  | finite _ => []
  | coordinate _ coordinates => coordinates

variable [DecidableEq F]

/-- Keys and positions are converted into each other without loss. -/
structure Axis.IndexesBothWays (axis : Axis F) : Prop where
  position_key : ∀ position key, axis.key position = some key → axis.position key = some position
  key_position : ∀ key position, axis.position key = some position → axis.key position = some key
  key_injective : ∀ position position' key, axis.key position = some key →
    axis.key position' = some key → position = position'

/-- The first place of an item is its only place if no item is repeated. -/
theorem findIdx?_of_nodup {α : Type} [DecidableEq α] {l : List α} (h : l.Nodup) {i : ℕ} {a : α}
    (ha : l[i]? = some a) : l.findIdx? (· = a) = some i := by
  obtain ⟨hi, rfl⟩ := List.getElem?_eq_some_iff.mp ha
  refine List.findIdx?_eq_some_iff_getElem.mpr ⟨hi, decide_eq_true rfl, fun j hj => ?_⟩
  rw [Bool.not_eq_true, decide_eq_false_iff_not, h.getElem_inj_iff]
  exact hj.ne

theorem Axis.position_of_key {axis : Axis F} (h : axis.kind.coordinates.Nodup) {position : ℕ}
    {key : KeyValue F} (hkey : axis.key position = some key) :
    axis.position key = some position := by
  have hvariants := axis.valid.2.2
  unfold Axis.key at hkey
  unfold Axis.position
  cases hkind : axis.kind with
  | named variants =>
    rw [hkind] at hkey hvariants
    obtain ⟨name, hname, rfl⟩ := Option.map_eq_some_iff.mp hkey
    exact findIdx?_of_nodup hvariants hname
  | finite size =>
    rw [hkind] at hkey
    obtain ⟨hlt, hkey⟩ := Option.ite_none_right_eq_some.mp hkey
    cases hkey
    exact if_pos hlt
  | coordinate dimension coordinates =>
    rw [hkind] at hkey h
    obtain ⟨coordinate, hcoordinate, rfl⟩ := Option.map_eq_some_iff.mp hkey
    exact findIdx?_of_nodup h hcoordinate

/-- The keys of an axis index it both ways exactly if no coordinate is repeated. -/
theorem Axis.indexesBothWays_iff (axis : Axis F) :
    axis.IndexesBothWays ↔ axis.kind.coordinates.Nodup := by
  constructor
  · intro h
    cases hkind : axis.kind with
    | named variants => exact List.nodup_nil
    | finite size => exact List.nodup_nil
    | coordinate dimension coordinates =>
      rw [AxisKind.coordinates, List.nodup_iff_injective_get]
      intro i j hij
      have hkey : ∀ k : Fin coordinates.length,
          axis.key k = some (.coordinate (coordinates.get k)) := by
        intro k
        unfold Axis.key
        rw [hkind]
        show coordinates[(k : ℕ)]?.map KeyValue.coordinate = _
        rw [List.getElem?_eq_getElem k.isLt]
        rfl
      exact Fin.ext (h.key_injective i j _ (hkey i) (hij ▸ hkey j))
  · intro h
    have hposition := fun position key (hkey : axis.key position = some key) =>
      Axis.position_of_key h hkey
    refine ⟨hposition, fun key position => Axis.key_of_position, fun p q key hp hq => ?_⟩
    exact Option.some.inj ((hposition p key hp).symm.trans (hposition q key hq))

/-- A coordinate axis of two zeros. -/
def zerosAxis : Axis Binary64 where
  index := ⟨"Step", by decide⟩
  kind := .coordinate .dimensionless [⟨0, isBinary64_zero⟩, ⟨0, isBinary64_zero⟩]
  valid := ⟨by decide, by decide, List.nodup_nil⟩

theorem zerosAxis_not_indexed : ¬ ∀ axis : Axis Binary64, axis.IndexesBothWays := by
  intro h
  exact absurd ((h zerosAxis).key_injective 0 1 _ rfl rfl) Nat.zero_ne_one

end ProvenGraphcal.Protocol
