import Mathlib.Algebra.Group.Nat.Defs
import Mathlib.Data.List.Nodup

/-!
# Wire types

The value types that a port of a model carries on the wire, and the values themselves. Finite
numbers are a type `F`, taken up to the equality of the program, in which the two zeros agree.
-/

namespace ProvenGraphcal.Protocol

/-- The finite binary64 numbers, with what the protocol computes on them. -/
class FiniteF64 (F : Type) extends Zero F, LT F where
  decEq : DecidableEq F
  decLt : DecidableLT F
  /-- The quotient, if it is finite. -/
  quotient : F → F → Option F

instance decidableEqFinite {F : Type} [FiniteF64 F] : DecidableEq F := FiniteF64.decEq

instance decidableLTFinite {F : Type} [FiniteF64 F] : DecidableLT F := FiniteF64.decLt

inductive LabelKind
  | portName | indexName | variantName | baseDimensionName | typeName | constructorName | fieldName
  | unitSpelling
  deriving DecidableEq

inductive LabelError
  | empty (kind : LabelKind)
  | controlCharacter (kind : LabelKind) (label : String)
  deriving DecidableEq

def isControl (c : Char) : Bool := c.val < 0x20 || (0x7F ≤ c.val && c.val ≤ 0x9F)

/-- A label of one kind: not empty and free of control characters. -/
structure Label (kind : LabelKind) where
  text : String
  valid : text.isEmpty = false ∧ text.toList.any isControl = false
  deriving DecidableEq

abbrev PortName := Label .portName
abbrev IndexName := Label .indexName
abbrev VariantName := Label .variantName
abbrev BaseDimensionName := Label .baseDimensionName
abbrev TypeName := Label .typeName
abbrev ConstructorName := Label .constructorName
abbrev FieldName := Label .fieldName
abbrev UnitSpelling := Label .unitSpelling

instance lawfulPortName : LawfulBEq PortName := inferInstance

def Label.new (kind : LabelKind) (text : String) : Except LabelError (Label kind) :=
  if hempty : text.isEmpty = true then .error (.empty kind)
  else if hcontrol : text.toList.any isControl = true then .error (.controlCharacter kind text)
  else .ok ⟨text, Bool.eq_false_iff.mpr hempty, Bool.eq_false_iff.mpr hcontrol⟩

@[simp] theorem Label.new_text {kind : LabelKind} (label : Label kind) :
    Label.new kind label.text = .ok label := by
  unfold Label.new
  rw [dif_neg (Bool.eq_false_iff.mp label.valid.1), dif_neg (Bool.eq_false_iff.mp label.valid.2)]

theorem Label.new_eq_ok {kind : LabelKind} {text : String} {label : Label kind} :
    Label.new kind text = .ok label ↔ label.text = text := by
  constructor
  · intro h
    unfold Label.new at h
    split_ifs at h
    cases h
    rfl
  · intro h
    rw [← h, Label.new_text]

theorem Label.text_injective {kind : LabelKind} : Function.Injective (@Label.text kind) :=
  fun a b h => Except.ok.inj (a.new_text.symm.trans ((congrArg _ h).trans b.new_text))

structure Exponent where
  numerator : Int
  denominator : ℕ
  reduced : 0 < denominator ∧ numerator ≠ 0 ∧ numerator.natAbs.gcd denominator = 1
  deriving DecidableEq

/-- Base dimensions with their exponents, in the order of the names. -/
structure Dimension where
  exponents : List (BaseDimensionName × Exponent)
  ascending : exponents.Pairwise fun a b => a.1.text < b.1.text
  deriving DecidableEq

def Dimension.dimensionless : Dimension := ⟨[], List.Pairwise.nil⟩

def Dimension.isDimensionless (dimension : Dimension) : Bool := dimension.exponents.isEmpty

/-- A dimensioned quantity names its unit. -/
structure QuantityType where
  dimension : Dimension
  unit : Option UnitSpelling
  named : unit.isNone = true → dimension.isDimensionless = true
  deriving DecidableEq

inductive QuantityTypeError
  | missingUnit
  deriving DecidableEq

def QuantityTypeError.text : QuantityTypeError → String
  | missingUnit => "a dimensioned quantity must name its unit"

def QuantityType.new (dimension : Dimension) (unit : Option UnitSpelling) :
    Except QuantityTypeError QuantityType :=
  if h : unit.isNone = true → dimension.isDimensionless = true then .ok ⟨dimension, unit, h⟩
  else .error .missingUnit

inductive AxisKind (F : Type)
  | named (variants : List VariantName)
  | finite (size : ℕ)
  | coordinate (dimension : Dimension) (coordinates : List F)
  deriving DecidableEq

def AxisKind.len {F : Type} : AxisKind F → ℕ
  | named variants => variants.length
  | finite size => size
  | coordinate _ coordinates => coordinates.length

def AxisKind.variants {F : Type} : AxisKind F → List VariantName
  | named variants => variants
  | finite _ => []
  | coordinate _ _ => []

/-- A fixed axis: at least one entry, as many as an Arrow list can hold, and no variant twice. -/
structure Axis (F : Type) where
  index : IndexName
  kind : AxisKind F
  valid : 0 < kind.len ∧ kind.len < 2 ^ 31 ∧ kind.variants.Nodup
  deriving DecidableEq

def Axis.len {F : Type} (axis : Axis F) : ℕ := axis.kind.len

/-- The entry of an axis, as the protocol names it. -/
inductive KeyValue (F : Type)
  | variant (name : VariantName)
  | position (position : ℕ)
  | coordinate (coordinate : F)
  deriving DecidableEq

def Axis.key {F : Type} (axis : Axis F) (position : ℕ) : Option (KeyValue F) :=
  match axis.kind with
  | .named variants => variants[position]?.map .variant
  | .finite size => if position < size then some (.position position) else none
  | .coordinate _ coordinates => coordinates[position]?.map .coordinate

def Axis.position {F : Type} [DecidableEq F] (axis : Axis F) (key : KeyValue F) : Option ℕ :=
  match axis.kind, key with
  | .named variants, .variant name => variants.findIdx? (· = name)
  | .finite size, .position position => if position < size then some position else none
  | .coordinate _ coordinates, .coordinate coordinate => coordinates.findIdx? (· = coordinate)
  | _, _ => none

inductive TimeScale
  | utc | tai | tt | tdb | et | gpst | gst | bdt | qzsst
  deriving DecidableEq

structure FieldType (W : Type) where
  name : FieldName
  wire : W

structure ConstructorType (W : Type) where
  name : ConstructorName
  fields : List (FieldType W)

inductive WireType (F : Type)
  | quantity (type : QuantityType)
  | complex (type : QuantityType)
  | int
  | bool
  | key (axis : Axis F)
  | datetime (scale : TimeScale)
  | indexed (axis : Axis F) (element : WireType F)
  | algebraic (name : TypeName) (constructors : List (ConstructorType (WireType F)))

namespace WireType

variable {F : Type}

theorem induction {P : WireType F → Prop} (quantity : ∀ type, P (.quantity type))
    (complex : ∀ type, P (.complex type)) (int : P .int) (bool : P .bool)
    (key : ∀ axis, P (.key axis)) (datetime : ∀ scale, P (.datetime scale))
    (indexed : ∀ axis element, P element → P (.indexed axis element))
    (algebraic : ∀ name constructors,
      (∀ constructor ∈ constructors, ∀ field ∈ constructor.fields, P field.wire) →
        P (.algebraic name constructors)) (wire : WireType F) : P wire := by
  refine @WireType.rec F P
    (fun constructors => ∀ constructor ∈ constructors, ∀ field ∈ constructor.fields, P field.wire)
    (fun constructor => ∀ field ∈ constructor.fields, P field.wire)
    (fun fields => ∀ field ∈ fields, P field.wire)
    (fun field => P field.wire)
    quantity complex int bool key datetime indexed algebraic ?_ ?_ ?_ ?_ ?_ ?_ wire
  · exact fun constructor hmem => (nomatch hmem)
  · exact fun constructor rest hfirst hrest => List.forall_mem_cons.mpr ⟨hfirst, hrest⟩
  · exact fun name fields hfields => hfields
  · exact fun field hmem => (nomatch hmem)
  · exact fun field rest hfirst hrest => List.forall_mem_cons.mpr ⟨hfirst, hrest⟩
  · exact fun name wire hwire => hwire

/-- The quantity type of a quantity-like wire. -/
def quantity? : WireType F → Option QuantityType
  | .quantity type => some type
  | .complex type => some type
  | .indexed _ element => element.quantity?
  | _ => none

/-- The wire with its quantities in `unit`; none if it carries no quantities. -/
def withUnit (unit : UnitSpelling) : WireType F → Option (Except QuantityTypeError (WireType F))
  | .quantity type => some ((QuantityType.new type.dimension (some unit)).map .quantity)
  | .complex type => some ((QuantityType.new type.dimension (some unit)).map .complex)
  | .indexed axis element => (element.withUnit unit).map fun element => element.map (.indexed axis)
  | _ => none

/-- The innermost element of an indexed wire, or the wire itself. -/
def leaf : WireType F → WireType F
  | .indexed _ element => element.leaf
  | wire => wire

end WireType

inductive PortWire (F : Type)
  | supported (wire : WireType F)
  | unsupported (reason : String)

theorem QuantityType.new_some (dimension : Dimension) (unit : UnitSpelling) :
    ∃ type, QuantityType.new dimension (some unit) = .ok type ∧ type.unit = some unit :=
  ⟨⟨dimension, some unit, nofun⟩, dif_pos _, rfl⟩

/-- A wire that carries quantities carries them in any unit. -/
theorem WireType.withUnit_eq_some {F : Type} {unit : UnitSpelling} {wire : WireType F}
    {chosen : Except QuantityTypeError (WireType F)} (h : wire.withUnit unit = some chosen) :
    ∃ wire' type, chosen = .ok wire' ∧ wire'.quantity? = some type ∧ type.unit = some unit := by
  induction wire using WireType.induction generalizing chosen with
  | quantity type =>
    obtain ⟨type', hnew, hunit⟩ := QuantityType.new_some type.dimension unit
    rw [WireType.withUnit, hnew] at h
    exact ⟨.quantity type', type', (Option.some.inj h).symm, rfl, hunit⟩
  | complex type =>
    obtain ⟨type', hnew, hunit⟩ := QuantityType.new_some type.dimension unit
    rw [WireType.withUnit, hnew] at h
    exact ⟨.complex type', type', (Option.some.inj h).symm, rfl, hunit⟩
  | indexed axis element ih =>
    rw [WireType.withUnit, Option.map_eq_some_iff] at h
    obtain ⟨chosen', hchosen, rfl⟩ := h
    obtain ⟨element', type, rfl, hquantity, hunit⟩ := ih hchosen
    exact ⟨.indexed axis element', type, rfl, hquantity, hunit⟩
  | int => cases h
  | bool => cases h
  | key axis => cases h
  | datetime scale => cases h
  | algebraic name constructors _ => cases h

end ProvenGraphcal.Protocol
