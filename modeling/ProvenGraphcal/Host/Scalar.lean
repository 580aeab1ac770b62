import ProvenGraphcal.Eval.RuntimeValue
import ProvenGraphcal.Library.Binary64
import ProvenGraphcal.Library.RowMajor

/-!
# Values of a program's indexes

Runtime values over the axes of one program, in which an axis is its index: indexes with the same
identity have the same keys. Every indexed value has one entry for each key of its axis.
-/

namespace ProvenGraphcal.Host

/-- The axes of a program, which match when they enumerate the same index. -/
class IndexAxes (A : Type) where
  decEq : DecidableEq A
  keys : A → NonEmpty IndexEntryKey

instance {A : Type} [IndexAxes A] : DecidableEq A := IndexAxes.decEq

/-- The number of entries of an axis. -/
def len {A : Type} [IndexAxes A] (axis : A) : ℕ := (IndexAxes.keys axis).items.length

theorem len_pos {A : Type} [IndexAxes A] (axis : A) : 0 < len axis :=
  List.length_pos_iff.mpr (IndexAxes.keys axis).nonempty

abbrev I64 := { n : ℤ // -2 ^ 63 ≤ n ∧ n < 2 ^ 63 }

/-- A constructor with its declared fields. -/
structure AppliedConstructor where
  constructor : String
  fields : List String
  deriving DecidableEq

inductive RuntimeValue (A : Type) [IndexAxes A]
  | quantity (value : Binary64)
  | complex (re im : Binary64)
  | bool (value : Bool)
  | int (value : I64)
  | key (axis : A) (position : Fin (len axis))
  | struct (application : AppliedConstructor)
      (values : Fin application.fields.length → RuntimeValue A)
  | indexed (axis : A) (entries : Fin (len axis) → RuntimeValue A)
  | datetime (epoch : Epoch)

/-- One entry for each key of the axis, in axis order. -/
structure IndexedValue (A : Type) [IndexAxes A] where
  axis : A
  entries : Fin (len axis) → RuntimeValue A

variable {A : Type} [IndexAxes A]

namespace RuntimeValue

def isIndexed : RuntimeValue A → Bool
  | indexed _ _ => true
  | quantity _ => false
  | complex _ _ => false
  | bool _ => false
  | int _ => false
  | key _ _ => false
  | struct _ _ => false
  | datetime _ => false

end RuntimeValue

/-- An indexed value built entry by entry, up to the first failure. -/
def IndexedValue.tryFromAxis {E : Type} (axis : A)
    (entry : Fin (len axis) → Except E (RuntimeValue A)) : Except E (IndexedValue A) := do
  return ⟨axis, ← RowMajor.tryOfFn entry⟩

/-!
# The slot of a scalar

Quantities, integers and Booleans cross the boundary to a host function in one binary64 slot each.
-/

/-- A raw slot. -/
inductive F64
  | finite (value : Binary64)
  | infinite (negative : Bool)
  | nan

theorem natAbs_le (n : I64) : n.val.natAbs ≤ 2 ^ 63 := by
  have h := n.property
  omega

/-- `value as f64`. -/
def asF64 (n : I64) : Binary64 :=
  ⟨Binary64.roundInt n.val, Binary64.isBinary64_roundInt (natAbs_le n)⟩

/-- The integral part. -/
def truncate (q : ℚ) : ℤ := if q < 0 then -⌊-q⌋ else ⌊q⌋

/-- `value as i64`, which saturates. -/
def asI64 (x : Binary64) : I64 :=
  ⟨max (-2 ^ 63) (min (2 ^ 63 - 1) (truncate x.val)), by omega⟩

/-- `value as i128`; only values rounded from an `i64` are converted. -/
def asI128 (x : Binary64) : ℤ := truncate x.val

theorem truncate_intCast (n : ℤ) : truncate n = n := by
  unfold truncate
  split_ifs
  · rw [← Int.cast_neg, Int.floor_intCast, neg_neg]
  · exact Int.floor_intCast n

/-! ## Encoding and decoding -/

inductive InvalidIntReason
  | nonFinite
  | nonInteger
  | outOfRange
  deriving DecidableEq

inductive HostScalarError
  | inexactIntArgument (value : I64)
  | nonFiniteQuantity (value : F64)
  | invalidInt (value : F64) (reason : InvalidIntReason)
  | invalidBool (value : F64)

def zero : Binary64 := ⟨0, isBinary64_zero⟩

def one : Binary64 := ⟨1, 1, 0, by norm_num, by norm_num, by norm_num, by norm_num⟩

def encodeBool (value : Bool) : Binary64 := if value then one else zero

def exactI64ToF64 (value : I64) : Option Binary64 :=
  if asI128 (asF64 value) = value.val then some (asF64 value) else none

def encodeInt (value : I64) : Except HostScalarError Binary64 :=
  match exactI64ToF64 value with
  | some slot => .ok slot
  | none => .error (.inexactIntArgument value)

def validateQuantity (value : F64) : Except HostScalarError Binary64 :=
  match value with
  | .finite value => .ok value
  | value => .error (.nonFiniteQuantity value)

def decodeBool (value : F64) : Except HostScalarError Bool :=
  match value with
  | .finite slot =>
    if slot.val = 0 then .ok false
    else if slot.val = 1 then .ok true
    else .error (.invalidBool value)
  | value => .error (.invalidBool value)

def decodeInt (value : F64) : Except HostScalarError I64 :=
  match value with
  | .finite slot =>
    if slot.val < -2 ^ 63 ∨ 2 ^ 63 ≤ slot.val then .error (.invalidInt value .outOfRange)
    else if (asF64 (asI64 slot)).val ≠ slot.val then .error (.invalidInt value .nonInteger)
    else .ok (asI64 slot)
  | value => .error (.invalidInt value .nonFinite)

/-- An integer whose slot is exact. -/
structure HostInt where
  value : I64
  slot : Binary64
  exact : slot.val = value.val

theorem asF64_of_exact {value : I64} {slot : Binary64} (h : exactI64ToF64 value = some slot) :
    slot.val = value.val := by
  unfold exactI64ToF64 at h
  split_ifs at h with hexact
  cases h
  have hround : truncate (Binary64.roundInt value.val) = value.val := hexact
  rw [truncate_intCast] at hround
  show ((Binary64.roundInt value.val : ℤ) : ℚ) = value.val
  rw [hround]

theorem encodeInt_eq_ok {value : I64} {slot : Binary64} :
    encodeInt value = .ok slot ↔ slot.val = value.val := by
  constructor
  · intro h
    unfold encodeInt at h
    split at h
    case h_1 found hfound =>
      cases h
      exact asF64_of_exact hfound
    case h_2 => cases h
  · intro h
    have hround : Binary64.roundInt value.val = value.val :=
      Binary64.roundInt_of_isBinary64 (h ▸ slot.isBinary64)
    have hslot : asF64 value = slot := by
      refine Binary64.ext (Eq.trans ?_ h.symm)
      show ((Binary64.roundInt value.val : ℤ) : ℚ) = value.val
      rw [hround]
    have hexact : exactI64ToF64 value = some slot := by
      unfold exactI64ToF64
      rw [hslot, if_pos]
      rw [asI128, h, truncate_intCast]
    rw [encodeInt, hexact]

def HostInt.tryNew (value : I64) : Except HostScalarError HostInt :=
  match h : encodeInt value with
  | .ok slot => .ok ⟨value, slot, encodeInt_eq_ok.mp h⟩
  | .error e => .error e

theorem HostInt.tryNew_eq_ok {value : I64} {int : HostInt} :
    HostInt.tryNew value = .ok int ↔ int.value = value := by
  unfold HostInt.tryNew
  constructor
  · intro h
    split at h
    case h_1 =>
      cases h
      rfl
    case h_2 => cases h
  · rintro rfl
    have hslot := encodeInt_eq_ok.mpr int.exact
    split
    case h_1 slot h =>
      rw [hslot] at h
      cases h
      rfl
    case h_2 e h =>
      rw [hslot] at h
      cases h

theorem validateQuantity_eq_ok {value : F64} {quantity : Binary64} :
    validateQuantity value = .ok quantity ↔ value = .finite quantity := by
  unfold validateQuantity
  split
  · rw [Except.ok.injEq, F64.finite.injEq]
  case h_2 hother => exact iff_of_false nofun fun h => hother _ h

/-- Exactly the numbers 0 and 1 are Booleans. -/
theorem decodeBool_eq_ok {value : F64} {bool : Bool} :
    decodeBool value = .ok bool ↔
      ∃ slot, value = .finite slot ∧ slot.val = if bool then 1 else 0 := by
  unfold decodeBool
  split
  case h_1 slot =>
    simp only [F64.finite.injEq, exists_eq_left']
    cases bool with
    | false =>
      rw [if_neg Bool.false_ne_true]
      split_ifs with hzero hone
      · exact iff_of_true rfl hzero
      · exact iff_of_false nofun hzero
      · exact iff_of_false nofun hzero
    | true =>
      rw [if_pos rfl]
      split_ifs with hzero hone
      · exact iff_of_false nofun fun hone => zero_ne_one (hzero.symm.trans hone)
      · exact iff_of_true rfl hone
      · exact iff_of_false nofun hone
  case h_2 hother => exact iff_of_false nofun fun ⟨slot, h, _⟩ => hother slot h

/-- Exactly the numbers that are integers in range are integers. -/
theorem decodeInt_eq_ok {value : F64} {int : I64} :
    decodeInt value = .ok int ↔ ∃ slot, value = .finite slot ∧ slot.val = int.val := by
  unfold decodeInt
  split
  case h_1 slot =>
    simp only [F64.finite.injEq, exists_eq_left']
    constructor
    · intro h
      split_ifs at h with hrange hround
      cases h
      rw [not_not] at hround
      have hint : ((Binary64.roundInt (asI64 slot).val : ℤ) : ℚ) = slot.val := hround
      -- a slot that equals the rounded integer is an integer, and is its own integral part
      have htruncate : (asI64 slot).val = Binary64.roundInt (asI64 slot).val := by
        have hlow : (-2 ^ 63 : ℤ) ≤ Binary64.roundInt (asI64 slot).val := by
          exact_mod_cast hint.symm ▸ not_lt.mp fun hlt => hrange (.inl hlt)
        have hhigh : Binary64.roundInt (asI64 slot).val < (2 ^ 63 : ℤ) := by
          exact_mod_cast hint.symm ▸ not_le.mp fun hle => hrange (.inr hle)
        have hvalue : (asI64 slot).val =
            max (-2 ^ 63) (min (2 ^ 63 - 1) (truncate slot.val)) := rfl
        rw [← hint, truncate_intCast] at hvalue
        omega
      rw [htruncate, hint]
    · intro h
      have hproperty := int.property
      have hrange : ¬ (slot.val < -2 ^ 63 ∨ 2 ^ 63 ≤ slot.val) := by
        rw [h]
        rintro (hlt | hle)
        · have hlt' : int.val < -2 ^ 63 := by exact_mod_cast hlt
          omega
        · have hle' : 2 ^ 63 ≤ int.val := by exact_mod_cast hle
          omega
      have hvalue : asI64 slot = int := by
        apply Subtype.ext
        show max (-2 ^ 63) (min (2 ^ 63 - 1) (truncate slot.val)) = int.val
        rw [h, truncate_intCast]
        omega
      have hround : (asF64 int).val = slot.val := by
        show ((Binary64.roundInt int.val : ℤ) : ℚ) = slot.val
        rw [Binary64.roundInt_of_isBinary64 (h ▸ slot.isBinary64), h]
      rw [if_neg hrange, hvalue, if_neg (not_not.mpr hround)]
  case h_2 hother => exact iff_of_false nofun fun ⟨slot, h, _⟩ => hother slot h

end ProvenGraphcal.Host
