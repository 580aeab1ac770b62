import ProvenGraphcal.Host.Arguments
import ProvenGraphcal.Signature.Equivalence

/-!
# Results of a host function

A raw result is validated against the declared result kind, and an array is rebuilt over the axes of
the call's type.
-/

open ProvenGraphcal.Checked (bind_eq_ok bind_pure_eq_ok mapError_eq_ok mapM_eq_ok)

namespace ProvenGraphcal.Host

variable {A I V B S T : Type} [IndexAxes A] [LinearOrder V] [LinearOrder B]

/-- A returned array; its extents and its elements need not agree. -/
structure HostArray where
  shape : List ℕ
  values : List F64

inductive HostFnValue
  | f64 (value : F64)
  | array (array : HostArray)
  | record (slots : List F64)

/-- The raw form of an argument, as a function that returns its input produces it. -/
def HostFnValue.fromArgument : HostArgument → HostFnValue
  | .scalar scalar => .f64 (.finite scalar.abiSlot)
  | .array host => .array ⟨host.shape, host.elements.abiSlots.map .finite⟩

inductive HostSlotLocation
  | scalar
  | arrayElement (index : ℕ)
  | structField (name : String)

inductive HostResultDecodeError
  | expectedScalar
  | expectedArray
  | expectedRecord
  | arrayRankMismatch (expected actual : ℕ)
  | recordArityMismatch (expected actual : ℕ)
  | invalidSlot (location : HostSlotLocation) (source : HostScalarError)

inductive ValidatedHostArrayValues (V B : Type) [LinearOrder V] [LinearOrder B]
  | quantity (element : DimMonomial V B) (values : List Binary64)
  | bool (values : List Bool)
  | int (values : List I64)

structure ValidatedHostArray (V I B : Type) [LinearOrder V] [LinearOrder B] where
  indexes : NonEmpty I
  shape : List ℕ
  values : ValidatedHostArrayValues V B

inductive ValidatedHostFieldValue
  | bool (value : Bool)
  | int (value : I64)
  | quantity (value : Binary64)

structure ValidatedHostField where
  name : String
  value : ValidatedHostFieldValue

inductive ValidatedHostResult (S V I B : Type) [LinearOrder V] [LinearOrder B]
  | bool (value : Bool)
  | int (value : I64)
  | quantity (dimension : DimMonomial V B) (value : Binary64)
  | array (array : ValidatedHostArray V I B)
  | struct (record : S) (fields : List ValidatedHostField)

def scalarSlot : HostFnValue → Except HostResultDecodeError F64
  | .f64 value => .ok value
  | .array _ => .error .expectedScalar
  | .record _ => .error .expectedScalar

def decodeArrayValues (raw : List F64) (decode : F64 → Except HostScalarError T) :
    Except HostResultDecodeError (List T) :=
  raw.zipIdx.mapM fun entry =>
    (decode entry.1).mapError (.invalidSlot (.arrayElement entry.2))

def decodeArray (element : ScalarValueKind V B) (raw : List F64) :
    Except HostResultDecodeError (ValidatedHostArrayValues V B) :=
  match element with
  | .quantity monomial => do return .quantity monomial (← decodeArrayValues raw validateQuantity)
  | .bool => do return .bool (← decodeArrayValues raw decodeBool)
  | .int => do return .int (← decodeArrayValues raw decodeInt)

def decodeFieldValue (kind : StructFieldKind B) (slot : F64) :
    Except HostScalarError ValidatedHostFieldValue :=
  match kind with
  | .bool => do return .bool (← decodeBool slot)
  | .int => do return .int (← decodeInt slot)
  | .quantity _ => do return .quantity (← validateQuantity slot)

def decodeField (field : String × StructFieldKind B) (slot : F64) :
    Except HostResultDecodeError ValidatedHostField := do
  return ⟨field.1, ← (decodeFieldValue field.2 slot).mapError
    (.invalidSlot (.structField field.1))⟩

/-- Decode a raw result according to the declared result kind. -/
def decodeResult [StructResult S String B] (declared : ResultKind S V I B) (raw : HostFnValue) :
    Except HostResultDecodeError (ValidatedHostResult S V I B) :=
  match declared with
  | .value (.scalar .bool) => do
    return .bool (← (decodeBool (← scalarSlot raw)).mapError (.invalidSlot .scalar))
  | .value (.scalar .int) => do
    return .int (← (decodeInt (← scalarSlot raw)).mapError (.invalidSlot .scalar))
  | .value (.scalar (.quantity dimension)) => do
    return .quantity dimension
      (← (validateQuantity (← scalarSlot raw)).mapError (.invalidSlot .scalar))
  | .value (.indexed element indexes) =>
    match raw with
    | .array array =>
      if array.shape.length ≠ indexes.items.length then
        .error (.arrayRankMismatch indexes.items.length array.shape.length)
      else do return .array ⟨indexes, array.shape, ← decodeArray element array.values⟩
    | _ => .error .expectedArray
  | .struct payload =>
    match raw with
    | .record slots =>
      let fields := (StructResult.shape payload).fields
      if slots.length ≠ fields.length then
        .error (.recordArityMismatch fields.length slots.length)
      else do
        return .struct payload
          (← (fields.zip slots).mapM fun entry => decodeField entry.1 entry.2)
    | _ => .error .expectedRecord

inductive StructFieldsError
  | missing (constructor field : String)
  | unexpected (constructor field : String)
  | duplicate (constructor field : String)

/-- The provided fields in order, each name once. -/
def provide (constructor : String) (fields : List (String × RuntimeValue A)) :
    Except StructFieldsError (List (String × RuntimeValue A)) :=
  fields.foldlM (fun provided entry =>
    if entry.1 ∈ provided.map Prod.fst then .error (.duplicate constructor entry.1)
    else .ok (provided ++ [entry])) []

/-- Take an entry out and put the last one in its place. -/
def swapRemove (field : String) : List (String × T) → Option (T × List (String × T))
  | [] => none
  | entry :: rest =>
    if entry.1 = field then
      some (entry.2, match rest.getLast? with
        | some last => last :: rest.dropLast
        | none => [])
    else (swapRemove field rest).map fun found => (found.1, entry :: found.2)

/-- The values of the declared fields, with the provided ones that are left. -/
def takeDeclared (constructor : String) : (declared : List String) → List (String × T) →
    Except StructFieldsError ((Fin declared.length → T) × List (String × T))
  | [], provided => .ok (fun i => i.elim0, provided)
  | field :: declared, provided =>
    match swapRemove field provided with
    | none => .error (.missing constructor field)
    | some (value, provided) => do
      let (values, provided) ← takeDeclared constructor declared provided
      return (Fin.cons value values, provided)

/-- Apply a constructor to exactly its declared fields. -/
def structTryNew (application : AppliedConstructor) (fields : List (String × RuntimeValue A)) :
    Except StructFieldsError (RuntimeValue A) := do
  let provided ← provide application.constructor fields
  let (values, left) ← takeDeclared application.constructor application.fields provided
  match left with
  | (field, _) :: _ => .error (.unexpected application.constructor field)
  | [] => .ok (.struct application values)

/-- The record of an extern declaration; its constructor is applied with the fields of its shape. -/
structure ExternStructResult (B : Type) [LinearOrder B] where
  applied : AppliedConstructor
  shape : StructShape String B
  fields_eq : applied.fields = shape.fields.map Prod.fst

instance : StructResult (ExternStructResult B) String B := ⟨ExternStructResult.shape⟩

/-- One axis of an indexed result: its index variable, and the axis of the call's type there. -/
structure TResultAxis (I A : Type) where
  binder : I
  axis : A

abbrev TExternResult (V I A B : Type) [LinearOrder V] [LinearOrder B] :=
  ResultKind (ExternStructResult B) V (TResultAxis I A) B

inductive ResultError
  | decode (error : HostResultDecodeError)
  | shape (returned expected : List ℕ)
  | malformedRecord (error : StructFieldsError)

/-- Rebuild a validated row-major result over `axes`. -/
def rebuildArray (axes : NonEmpty A) (values : List T) (leaf : T → RuntimeValue A) :
    Except (Failure ResultError) (IndexedValue A) :=
  match DenseArray.tryNew axes values with
  | .ok dense => .ok (dense.toIndexed leaf)
  | .error error => .error (.invariant ("dense array has " ++ toString error.actual ++
      " elements, but its axes have " ++ toString error.expected))

def rebuild (axes : NonEmpty A) : ValidatedHostArrayValues V B →
    Except (Failure ResultError) (IndexedValue A)
  | .quantity _ values => rebuildArray axes values .quantity
  | .bool values => rebuildArray axes values .bool
  | .int values => rebuildArray axes values .int

def ValidatedHostFieldValue.toValue : ValidatedHostFieldValue → RuntimeValue A
  | bool value => .bool value
  | int value => .int value
  | quantity value => .quantity value

/-- Validate a raw result and rebuild it over the axes of the call's type. -/
def decode (result : TExternResult V I A B) (raw : HostFnValue) :
    Except (Failure ResultError) (RuntimeValue A) := do
  match ← (decodeResult result raw).mapError fun error => .error (.decode error) with
  | .quantity _ value => .ok (.quantity value)
  | .int value => .ok (.int value)
  | .bool value => .ok (.bool value)
  | .array array =>
    let axes := array.indexes.map TResultAxis.axis
    if array.shape ≠ axes.items.map len then
      .error (.error (.shape array.shape (axes.items.map len)))
    else do return (← rebuild axes array.values).toValue
  | .struct record fields =>
    let provided := fields.map fun field => (field.name, field.value.toValue)
    (structTryNew record.applied provided).mapError fun error => .error (.malformedRecord error)

/-!
# Which raw results decode

A raw result decodes exactly when it has the declared kind, the extents of the axes with one element
for each combination of keys, only admissible elements, and the declared fields.
-/

inductive SlotKind
  | quantity
  | bool
  | int

def slotKind : ScalarValueKind V B → SlotKind
  | .quantity _ => .quantity
  | .bool => .bool
  | .int => .int

def fieldSlotKind : StructFieldKind B → SlotKind
  | .quantity _ => .quantity
  | .bool => .bool
  | .int => .int

/-- A finite quantity, an exact integer, or one of 0 and 1. -/
def AdmissibleSlot (kind : SlotKind) (slot : F64) : Prop :=
  ∃ x : Binary64, slot = .finite x ∧
    match kind with
    | .quantity => True
    | .bool => x.val = 0 ∨ x.val = 1
    | .int => ∃ n : I64, x.val = n.val

variable {slot : F64}

theorem exists_validateQuantity :
    (∃ q, validateQuantity slot = .ok q) ↔ AdmissibleSlot .quantity slot := by
  simp only [validateQuantity_eq_ok, AdmissibleSlot, and_true]

theorem exists_decodeBool :
    (∃ b, decodeBool slot = .ok b) ↔ AdmissibleSlot .bool slot := by
  simp only [decodeBool_eq_ok, AdmissibleSlot]
  constructor
  · rintro ⟨b, x, hslot, hx⟩
    refine ⟨x, hslot, ?_⟩
    cases b with
    | false => exact .inl hx
    | true => exact .inr hx
  · rintro ⟨x, hslot, hx | hx⟩
    · exact ⟨false, x, hslot, hx⟩
    · exact ⟨true, x, hslot, hx⟩

theorem exists_decodeInt :
    (∃ n, decodeInt slot = .ok n) ↔ AdmissibleSlot .int slot := by
  simp only [decodeInt_eq_ok, AdmissibleSlot]
  exact ⟨fun ⟨n, x, hslot, hx⟩ => ⟨x, hslot, n, hx⟩, fun ⟨x, hslot, n, hx⟩ => ⟨n, x, hslot, hx⟩⟩

variable {validate : F64 → Except HostScalarError T} {values : List T}

theorem decodeArrayValues_eq_ok {raw : List F64} : decodeArrayValues raw validate = .ok values ↔
      List.Forall₂ (fun slot t => validate slot = .ok t) raw values :=
  RowMajor.mapM_zipIdx_eq_ok fun _ _ => mapError_eq_ok

theorem exists_forall₂ {α : Type} {R : α → T → Prop} {raw : List α} :
    (∃ values, List.Forall₂ R raw values) ↔ ∀ slot ∈ raw, ∃ t, R slot t := by
  induction raw with
  | nil => exact iff_of_true ⟨[], .nil⟩ (List.forall_mem_nil _)
  | cons slot rest ih =>
    rw [List.forall_mem_cons, ← ih]
    constructor
    · rintro ⟨_, hvalues⟩
      cases hvalues with
      | cons h hrest => exact ⟨⟨_, h⟩, _, hrest⟩
    · rintro ⟨⟨t, h⟩, values, hrest⟩
      exact ⟨t :: values, .cons h hrest⟩

variable {axes : NonEmpty A} {leaf : T → RuntimeValue A}

/-- An array of machine size is rebuilt exactly when it fills the axes. -/
theorem rebuildArray_eq_ok (hfits : values.length ≤ usizeMax) {value : IndexedValue A} :
    rebuildArray axes values leaf = .ok value ↔
      ∃ array : DenseArray A T, array.axes = axes ∧ array.data = values ∧
        array.toIndexed leaf = value := by
  unfold rebuildArray
  constructor
  · intro h
    split at h
    case h_1 dense hdense =>
      cases h
      obtain ⟨haxes, hdata⟩ := (DenseArray.tryNew_eq_ok hfits).mp hdense
      exact ⟨dense, haxes, hdata, rfl⟩
    case h_2 => cases h
  · rintro ⟨array, haxes, hdata, hvalue⟩
    rw [(DenseArray.tryNew_eq_ok hfits).mpr ⟨haxes, hdata⟩]
    exact congrArg Except.ok hvalue

theorem exists_rebuildArray (hfits : values.length ≤ usizeMax) :
    (∃ value, rebuildArray axes values leaf = .ok value) ↔ values.length = size axes.items := by
  simp only [rebuildArray_eq_ok hfits]
  constructor
  · rintro ⟨value, array, rfl, rfl, -⟩
    exact array.length_eq
  · exact fun hlength => ⟨_, ⟨axes, values, hlength⟩, rfl, rfl, rfl⟩

/-- The decoder and the builder of one element kind. -/
theorem exists_decoded_array {raw : List F64} (leaf : T → RuntimeValue A)
    (hfits : raw.length ≤ usizeMax) :
    (∃ values, decodeArrayValues raw validate = .ok values ∧
      ∃ value, rebuildArray axes values leaf = .ok value) ↔
      (∀ slot ∈ raw, ∃ t, validate slot = .ok t) ∧ raw.length = size axes.items := by
  rw [← exists_forall₂]
  simp only [decodeArrayValues_eq_ok]
  constructor
  · rintro ⟨values, hvalues, hvalue⟩
    rw [exists_rebuildArray (hvalues.length_eq ▸ hfits), ← hvalues.length_eq] at hvalue
    exact ⟨⟨values, hvalues⟩, hvalue⟩
  · rintro ⟨⟨values, hvalues⟩, hlength⟩
    rw [hvalues.length_eq] at hfits hlength
    exact ⟨values, hvalues, (exists_rebuildArray hfits).mpr hlength⟩

/-- An array decodes when its elements are admissible and fill the axes. -/
theorem exists_decodeArray (element : ScalarValueKind V B) (axes : NonEmpty A) {raw : List F64}
    (hfits : raw.length ≤ usizeMax) :
    (∃ values, decodeArray element raw = .ok values ∧ ∃ value, rebuild axes values = .ok value) ↔
      (∀ slot ∈ raw, AdmissibleSlot (slotKind element) slot) ∧ raw.length = size axes.items := by
  have hbind : ∀ {T : Type} {validate : F64 → Except HostScalarError T}
      {f : List T → ValidatedHostArrayValues V B} {leaf : T → RuntimeValue A},
      (∀ values, rebuild axes (f values) = rebuildArray axes values leaf) →
      ((∃ values, (decodeArrayValues raw validate >>= fun v => .ok (f v)) = .ok values ∧
        ∃ value, rebuild axes values = .ok value) ↔
        (∀ slot ∈ raw, ∃ t, validate slot = .ok t) ∧ raw.length = size axes.items) := by
    intro T validate f leaf hf
    rw [← exists_decoded_array leaf hfits]
    constructor
    · rintro ⟨_, hvalues, hvalue⟩
      obtain ⟨values, hdecoded, rfl⟩ := bind_pure_eq_ok.mp hvalues
      exact ⟨values, hdecoded, hf values ▸ hvalue⟩
    · rintro ⟨values, hdecoded, hvalue⟩
      exact ⟨f values, bind_eq_ok.mpr ⟨values, hdecoded, rfl⟩, (hf values).symm ▸ hvalue⟩
  cases element with
  | quantity monomial =>
    simp only [slotKind, ← exists_validateQuantity]
    exact hbind fun _ => rfl
  | bool =>
    simp only [slotKind, ← exists_decodeBool]
    exact hbind fun _ => rfl
  | int =>
    simp only [slotKind, ← exists_decodeInt]
    exact hbind fun _ => rfl

/-! ## Records -/

variable {provided : List (String × T)}

theorem perm_swapRemove {field : String} {value : T} {rest : List (String × T)}
    (h : swapRemove field provided = some (value, rest)) :
    provided.Perm ((field, value) :: rest) := by
  induction provided generalizing rest with
  | nil => cases h
  | cons entry tail ih =>
    rw [swapRemove] at h
    split_ifs at h with hname
    · cases h
      rw [← hname, Prod.mk.eta, List.perm_cons]
      split
      case h_1 last hlast =>
        have hsplit : tail = tail.dropLast ++ [last] :=
          (List.dropLast_append_getLast? last hlast).symm
        exact (congrArg (List.Perm · (last :: tail.dropLast)) hsplit).mpr
          (List.perm_append_singleton last tail.dropLast)
      case h_2 hnone => rw [List.getLast?_eq_none_iff.mp hnone]
    · obtain ⟨⟨v, left⟩, hfound, heq⟩ := Option.map_eq_some_iff.mp h
      cases heq
      exact ((ih hfound).cons entry).trans (List.Perm.swap _ _ _)

theorem exists_swapRemove {field : String} (h : field ∈ provided.map Prod.fst) :
    ∃ found, swapRemove field provided = some found := by
  induction provided with
  | nil => cases h
  | cons entry tail ih =>
    rw [swapRemove]
    split_ifs with hname
    · exact ⟨_, rfl⟩
    · rcases List.mem_cons.mp h with heq | hmem
      · exact absurd heq.symm hname
      · obtain ⟨found, hfound⟩ := ih hmem
        exact ⟨_, Option.map_eq_some_iff.mpr ⟨found, hfound, rfl⟩⟩

/-- The declared fields are all found, and nothing is left, when they are exactly the provided
ones. -/
theorem exists_takeDeclared (constructor : String) {declared : List String}
    (hdistinct : declared.Nodup) (hsame : (provided.map Prod.fst).Perm declared) :
    ∃ values, takeDeclared constructor declared provided = .ok (values, []) := by
  induction declared generalizing provided with
  | nil =>
    cases List.map_eq_nil_iff.mp hsame.eq_nil
    exact ⟨_, rfl⟩
  | cons field declared ih =>
    obtain ⟨⟨value, rest⟩, hfound⟩ :=
      exists_swapRemove (hsame.mem_iff.mpr (List.mem_cons_self (a := field)))
    have hrest : (rest.map Prod.fst).Perm declared :=
      List.Perm.cons_inv (((perm_swapRemove hfound).map Prod.fst).symm.trans hsame)
    obtain ⟨values, hvalues⟩ := ih (List.nodup_cons.mp hdistinct).2 hrest
    refine ⟨Fin.cons value values, ?_⟩
    rw [takeDeclared, hfound]
    exact bind_eq_ok.mpr ⟨_, hvalues, rfl⟩

variable {fields : List (String × RuntimeValue A)}

/-- Fields with distinct names are provided as they are. -/
theorem provide_of_nodup {constructor : String} (h : (fields.map Prod.fst).Nodup) :
    provide constructor fields = .ok fields := by
  have hfold : ∀ (rest before : List (String × RuntimeValue A)),
      ((before ++ rest).map Prod.fst).Nodup →
      rest.foldlM (fun provided entry =>
        if entry.1 ∈ provided.map Prod.fst then
          (.error (.duplicate constructor entry.1) : Except StructFieldsError _)
        else .ok (provided ++ [entry])) before = .ok (before ++ rest) := by
    intro rest
    induction rest with
    | nil =>
      intro before _
      rw [List.append_nil]
      rfl
    | cons entry rest ih =>
      intro before hnodup
      have hnew : entry.1 ∉ before.map Prod.fst := by
        intro hmem
        rw [List.map_append, List.map_cons] at hnodup
        exact (List.nodup_append.mp hnodup).2.2 _ hmem _ List.mem_cons_self rfl
      rw [List.foldlM_cons, if_neg hnew]
      have happend : before ++ entry :: rest = (before ++ [entry]) ++ rest := by
        rw [List.append_assoc, List.singleton_append]
      rw [happend] at hnodup ⊢
      exact ih _ hnodup
  exact hfold fields [] h

theorem exists_structTryNew {application : AppliedConstructor}
    (hdistinct : application.fields.Nodup) (hsame : fields.map Prod.fst = application.fields) :
    ∃ value, structTryNew application fields = .ok value := by
  obtain ⟨values, hvalues⟩ :=
    exists_takeDeclared application.constructor hdistinct (List.Perm.of_eq hsame)
  refine ⟨.struct application values, ?_⟩
  unfold structTryNew
  rw [provide_of_nodup (hsame ▸ hdistinct)]
  exact bind_eq_ok.mpr ⟨_, rfl, bind_eq_ok.mpr ⟨_, hvalues, rfl⟩⟩

variable {field : String × StructFieldKind B}

theorem exists_decodeField :
    (∃ decoded, decodeField field slot = .ok decoded) ↔
      AdmissibleSlot (fieldSlotKind field.2) slot := by
  have hmap : (∃ decoded, decodeField field slot = .ok decoded) ↔
      ∃ value, decodeFieldValue field.2 slot = .ok value := by
    constructor
    · rintro ⟨_, h⟩
      obtain ⟨value, hvalue, -⟩ := bind_eq_ok.mp h
      exact ⟨value, mapError_eq_ok.mp hvalue⟩
    · rintro ⟨value, hvalue⟩
      exact ⟨_, bind_eq_ok.mpr ⟨value, mapError_eq_ok.mpr hvalue, rfl⟩⟩
  have hslot : ∀ {T : Type} {x : Except HostScalarError T} {f : T → ValidatedHostFieldValue},
      (∃ value, (x >>= fun t => .ok (f t)) = .ok value) ↔ ∃ t, x = .ok t := by
    intro T x f
    constructor
    · rintro ⟨_, h⟩
      obtain ⟨t, ht, -⟩ := bind_eq_ok.mp h
      exact ⟨t, ht⟩
    · rintro ⟨t, ht⟩
      exact ⟨_, bind_eq_ok.mpr ⟨t, ht, rfl⟩⟩
  rw [hmap]
  obtain ⟨name, kind⟩ := field
  cases kind with
  | quantity dimension => exact hslot.trans exists_validateQuantity
  | bool => exact hslot.trans exists_decodeBool
  | int => exact hslot.trans exists_decodeInt

theorem decodeField_name {decoded : ValidatedHostField} (h : decodeField field slot = .ok decoded) :
    decoded.name = field.1 := by
  obtain ⟨value, -, h⟩ := bind_eq_ok.mp h
  cases h
  rfl

/-! ## Results -/

/-- The number of returned slots fits the machine. -/
def Fits : HostFnValue → Prop
  | .f64 _ => True
  | .array returned => returned.values.length ≤ usizeMax
  | .record _ => True

/-- A raw result of the declared kind, with the extents of the axes and one element for each
combination, only admissible elements, and exactly the declared fields. -/
def Admissible (result : TExternResult V I A B) (raw : HostFnValue) : Prop :=
  match result, raw with
  | .value (.scalar element), .f64 slot => AdmissibleSlot (slotKind element) slot
  | .value (.indexed element indexes), .array returned =>
    returned.shape = indexes.items.map (fun index => len index.axis) ∧
      returned.values.length = returned.shape.prod ∧
      ∀ slot ∈ returned.values, AdmissibleSlot (slotKind element) slot
  | .struct record, .record slots =>
    List.Forall₂ (fun field slot => AdmissibleSlot (fieldSlotKind field.2) slot)
      record.shape.fields slots
  | _, _ => False

variable {raw : HostFnValue}

theorem exists_decoded_scalar {R U E : Type} {f : T → R} {describe : HostResultDecodeError → E}
    {rest : R → Except E U} {build : T → U} (hrest : ∀ t, rest (f t) = .ok (build t)) :
    (∃ value, ((scalarSlot raw >>= fun slot =>
      (validate slot).mapError (.invalidSlot .scalar) >>= fun t =>
        (.ok (f t) : Except HostResultDecodeError R)).mapError describe >>= rest) = .ok value) ↔
      ∃ slot, raw = .f64 slot ∧ ∃ t, validate slot = .ok t := by
  constructor
  · rintro ⟨_, h⟩
    obtain ⟨decoded, hdecoded, -⟩ := bind_eq_ok.mp h
    obtain ⟨slot, hslot, hdecoded⟩ := bind_eq_ok.mp (mapError_eq_ok.mp hdecoded)
    obtain ⟨t, ht, -⟩ := bind_eq_ok.mp hdecoded
    cases raw with
    | f64 value =>
      cases hslot
      exact ⟨_, rfl, t, mapError_eq_ok.mp ht⟩
    | array => cases hslot
    | record => cases hslot
  · rintro ⟨slot, rfl, t, ht⟩
    refine ⟨build t, bind_eq_ok.mpr ⟨f t, mapError_eq_ok.mpr ?_, hrest t⟩⟩
    exact bind_eq_ok.mpr ⟨slot, rfl,
      bind_eq_ok.mpr ⟨t, mapError_eq_ok.mpr ht, rfl⟩⟩

variable {element : ScalarValueKind V B}

theorem admissible_scalar :
    Admissible (.value (.scalar element) : TExternResult V I A B) raw ↔
      ∃ slot, raw = .f64 slot ∧ AdmissibleSlot (slotKind element) slot := by
  cases raw with
  | f64 value =>
    exact ⟨fun h => ⟨value, rfl, h⟩, fun ⟨slot, hslot, h⟩ => HostFnValue.f64.inj hslot ▸ h⟩
  | array => exact iff_of_false id fun ⟨_, h, _⟩ => nomatch h
  | record => exact iff_of_false id fun ⟨_, h, _⟩ => nomatch h

theorem exists_decode_scalar :
    (∃ value, decode (.value (.scalar element) : TExternResult V I A B) raw = .ok value) ↔
      Admissible (.value (.scalar element) : TExternResult V I A B) raw := by
  rw [admissible_scalar]
  cases element with
  | quantity monomial =>
    simp only [slotKind, ← exists_validateQuantity]
    exact exists_decoded_scalar fun _ => rfl
  | bool =>
    simp only [slotKind, ← exists_decodeBool]
    exact exists_decoded_scalar fun _ => rfl
  | int =>
    simp only [slotKind, ← exists_decodeInt]
    exact exists_decoded_scalar fun _ => rfl

variable {indexes : NonEmpty (TResultAxis I A)}

/-- An array that decodes has the extents of its axes and as many elements as they have entries. -/
theorem decode_array_eq_ok {value : RuntimeValue A} :
    decode (.value (.indexed element indexes) : TExternResult V I A B) raw = .ok value ↔
      ∃ returned, raw = .array returned ∧
        returned.shape = (indexes.map TResultAxis.axis).items.map len ∧
        ∃ values, decodeArray element returned.values = .ok values ∧
          ∃ indexed, rebuild (indexes.map TResultAxis.axis) values = .ok indexed ∧
            value = indexed.toValue := by
  constructor
  · intro h
    obtain ⟨decoded, hdecoded, h⟩ := bind_eq_ok.mp h
    rw [mapError_eq_ok] at hdecoded
    cases raw with
    | f64 => cases hdecoded
    | record => cases hdecoded
    | array returned =>
      rw [decodeResult] at hdecoded
      split_ifs at hdecoded with hrank
      obtain ⟨values, hvalues, rfl⟩ := bind_pure_eq_ok.mp hdecoded
      dsimp only at h
      split_ifs at h with hshape
      obtain ⟨indexed, hindexed, rfl⟩ := bind_pure_eq_ok.mp h
      exact ⟨returned, rfl, not_not.mp hshape, values, hvalues, indexed, hindexed, rfl⟩
  · rintro ⟨returned, rfl, hshape, values, hvalues, indexed, hindexed, rfl⟩
    have hrank : ¬ returned.shape.length ≠ indexes.items.length := by
      rw [hshape, NonEmpty.map, List.length_map, List.length_map]
      exact not_not.mpr rfl
    refine bind_eq_ok.mpr
      ⟨.array ⟨indexes, returned.shape, values⟩, mapError_eq_ok.mpr ?_, ?_⟩
    · rw [decodeResult, if_neg hrank]
      exact bind_eq_ok.mpr ⟨values, hvalues, rfl⟩
    · dsimp only
      rw [if_neg (not_not.mpr hshape)]
      exact bind_eq_ok.mpr ⟨indexed, hindexed, rfl⟩

theorem exists_decode_array (hfits : Fits raw) :
    (∃ value, decode (.value (.indexed element indexes) : TExternResult V I A B) raw =
      .ok value) ↔ Admissible (.value (.indexed element indexes) : TExternResult V I A B) raw := by
  have haxes : (indexes.map TResultAxis.axis).items.map len =
      indexes.items.map fun index => len index.axis := List.map_map
  simp only [decode_array_eq_ok]
  cases raw with
  | f64 => exact iff_of_false nofun id
  | record => exact iff_of_false nofun id
  | array returned =>
    have hdecoded := exists_decodeArray element (indexes.map TResultAxis.axis)
      (show returned.values.length ≤ usizeMax from hfits)
    constructor
    · rintro ⟨_, _, hreturned, hshape, values, hvalues, indexed, hindexed, -⟩
      cases hreturned
      obtain ⟨hslots, hlength⟩ := hdecoded.mp ⟨values, hvalues, indexed, hindexed⟩
      exact ⟨hshape.trans haxes, hlength.trans (congrArg List.prod hshape.symm), hslots⟩
    · rintro ⟨hshape, hlength, hslots⟩
      rw [← haxes] at hshape
      obtain ⟨values, hvalues, indexed, hindexed⟩ :=
        hdecoded.mpr ⟨hslots, hlength.trans (congrArg List.prod hshape)⟩
      exact ⟨_, returned, rfl, hshape, values, hvalues, indexed, hindexed, rfl⟩

/-- A record decodes when each slot is admissible for the field declared at its place. -/
theorem exists_decode_record {record : ExternStructResult B} :
    (∃ value, decode (.struct record : TExternResult V I A B) raw = .ok value) ↔
      Admissible (.struct record : TExternResult V I A B) raw := by
  cases raw with
  | f64 => exact iff_of_false nofun id
  | array => exact iff_of_false nofun id
  | record slots =>
    have hfields : Admissible (.struct record : TExternResult V I A B) (.record slots) ↔
        slots.length = record.shape.fields.length ∧
          ∃ fields, (record.shape.fields.zip slots).mapM
            (fun entry => decodeField entry.1 entry.2) = .ok fields := by
      simp only [mapM_eq_ok]
      rw [exists_forall₂, Admissible, List.forall₂_iff_zip]
      refine and_congr eq_comm ⟨fun h entry hentry => exists_decodeField.mpr (h hentry), ?_⟩
      exact fun h a b hentry => exists_decodeField.mp (h (a, b) hentry)
    rw [hfields]
    constructor
    · rintro ⟨_, h⟩
      obtain ⟨decoded, hdecoded, -⟩ := bind_eq_ok.mp h
      rw [mapError_eq_ok, decodeResult] at hdecoded
      split_ifs at hdecoded with hlength
      obtain ⟨fields, hfields, -⟩ := bind_eq_ok.mp hdecoded
      exact ⟨not_not.mp hlength, fields, hfields⟩
    · rintro ⟨hlength, fields, hfields⟩
      have hnames : fields.map ValidatedHostField.name = record.shape.fields.map Prod.fst := by
        have hall : List.Forall₂ Eq (fields.map ValidatedHostField.name)
            ((record.shape.fields.zip slots).map fun entry => entry.1.1) := by
          rw [List.forall₂_map_left_iff, List.forall₂_map_right_iff]
          exact (mapM_eq_ok.mp hfields).flip.imp fun _ _ h => decodeField_name h
        rw [List.forall₂_eq_eq_eq] at hall
        have hzip : (record.shape.fields.zip slots).map Prod.fst = record.shape.fields :=
          List.map_fst_zip hlength.ge
        rw [hall]
        conv_rhs => rw [← hzip]
        exact List.map_map.symm
      have hprovided : (fields.map fun field => (field.name,
          (field.value.toValue : RuntimeValue A))).map Prod.fst = record.applied.fields :=
        List.map_map.trans (hnames.trans record.fields_eq.symm)
      obtain ⟨value, hvalue⟩ :=
        exists_structTryNew (record.fields_eq ▸ record.shape.distinct) hprovided
      refine ⟨value, bind_eq_ok.mpr
        ⟨.struct record fields, mapError_eq_ok.mpr ?_, mapError_eq_ok.mpr hvalue⟩⟩
      have hlength' : ¬ slots.length ≠ (StructResult.shape record).fields.length :=
        not_not.mpr hlength
      rw [decodeResult, if_neg hlength']
      exact bind_eq_ok.mpr ⟨fields, hfields, rfl⟩

end ProvenGraphcal.Host
