import ProvenGraphcal.Host.Scalar

/-!
# Rectangular arrays in row-major order

A nested indexed value is flattened axis by axis, and rebuilt by splitting the elements into equal
parts. `Flat` says which elements a value has, and both directions are described by it.
-/

namespace ProvenGraphcal.Host

open RowMajor Rows
open Checked (bind_eq_error bind_eq_ok mapError_eq_ok)

variable {A T E : Type} [IndexAxes A]

/-- The number of elements over `axes`. -/
def size (axes : List A) : ℕ := (axes.map len).prod

/-- One element per combination of axis keys; the last axis varies fastest. -/
structure DenseArray (A T : Type) [IndexAxes A] where
  axes : NonEmpty A
  data : List T
  length_eq : data.length = size axes.items

inductive DenseArrayError (E : Type)
  | ragged
  | element (error : E)
  deriving DecidableEq

structure DenseShapeError where
  expected : ℕ
  actual : ℕ
  deriving DecidableEq

def usizeMax : ℕ := 2 ^ 64 - 1

/-- The product of the axis lengths, unless it overflows. -/
def checkedSize (axes : List A) : Option ℕ :=
  axes.foldlM (fun total axis =>
    if total * len axis ≤ usizeMax then some (total * len axis) else none) 1

variable {axes : List A}

theorem foldlM_checkedSize {total n : ℕ} (h : axes.foldlM (fun total axis =>
      if total * len axis ≤ usizeMax then some (total * len axis) else none) total = some n) :
    n = total * size axes := by
  induction axes generalizing total with
  | nil =>
    cases h
    exact (Nat.mul_one _).symm
  | cons axis rest ih =>
    obtain ⟨next, hnext, hrest⟩ := Option.bind_eq_some_iff.mp h
    dsimp only at hnext
    split_ifs at hnext
    cases hnext
    rw [ih hrest, size, size, List.map_cons, List.prod_cons, Nat.mul_assoc]

theorem checkedSize_eq_some {n : ℕ} (h : checkedSize axes = some n) :
    n = size axes := by
  rw [foldlM_checkedSize h, Nat.one_mul]

theorem size_cons (axis : A) (inner : List A) : size (axis :: inner) = len axis * size inner := by
  rw [size, List.map_cons, List.prod_cons, size]

theorem size_pos (axes : List A) : 0 < size axes := by
  induction axes with
  | nil => exact Nat.one_pos
  | cons axis rest ih =>
    rw [size_cons]
    exact Nat.mul_pos (len_pos axis) ih

/-- No product on the way is larger than the whole one. -/
theorem foldlM_checkedSize_of_le {total : ℕ} (h : total * size axes ≤ usizeMax) :
    axes.foldlM (fun total axis =>
      if total * len axis ≤ usizeMax then some (total * len axis) else none) total =
        some (total * size axes) := by
  induction axes generalizing total with
  | nil => exact congrArg some (Nat.mul_one _).symm
  | cons axis rest ih =>
    rw [size_cons, ← Nat.mul_assoc] at h
    have hle : total * len axis ≤ usizeMax :=
      (Nat.le_mul_of_pos_right _ (size_pos rest)).trans h
    rw [List.foldlM_cons, if_pos hle, size_cons, ← Nat.mul_assoc]
    exact ih h

variable {array : DenseArray A T} {data : List T}

namespace DenseArray

def tryNew (axes : NonEmpty A) (data : List T) : Except DenseShapeError (DenseArray A T) :=
  match h : checkedSize axes.items with
  | some expected =>
    if heq : expected = data.length then .ok ⟨axes, data, heq ▸ checkedSize_eq_some h⟩
    else .error ⟨expected, data.length⟩
  | none => .error ⟨usizeMax, data.length⟩

/-- A buffer that fits the machine is accepted exactly when it fills the axes. -/
theorem tryNew_eq_ok {axes : NonEmpty A} (hdata : data.length ≤ usizeMax) :
    tryNew axes data = .ok array ↔ array.axes = axes ∧ array.data = data := by
  constructor
  · intro h
    unfold tryNew at h
    split at h
    case h_1 =>
      split_ifs at h
      cases h
      exact ⟨rfl, rfl⟩
    case h_2 => cases h
  · rintro ⟨rfl, rfl⟩
    have hsize : checkedSize array.axes.items = some array.data.length := by
      rw [array.length_eq] at hdata ⊢
      have h := foldlM_checkedSize_of_le ((Nat.one_mul (size array.axes.items)).symm ▸ hdata)
      rwa [Nat.one_mul] at h
    unfold tryNew
    split
    case h_1 expected h =>
      rw [hsize] at h
      cases h
      rw [dif_pos rfl]
    case h_2 h =>
      rw [hsize] at h
      cases h

end DenseArray

/-! ## Flattening -/

/-- The axes of a value read along its first entries. -/
def innerAxes : RuntimeValue A → List A
  | .indexed axis entries => axis :: innerAxes (entries ⟨0, len_pos axis⟩)
  | .quantity _ => []
  | .complex _ _ => []
  | .bool _ => []
  | .int _ => []
  | .key _ _ => []
  | .struct _ _ => []
  | .datetime _ => []

def shapeOf (value : IndexedValue A) : NonEmpty A :=
  ⟨value.axis :: innerAxes (value.entries ⟨0, len_pos value.axis⟩), List.cons_ne_nil _ _⟩

/-- Append the leaves of a value, which must be indexed by exactly `axes`. -/
def fill (element : RuntimeValue A → Except E T) :
    RuntimeValue A → List A → List T → Except (DenseArrayError E) (List T)
  | .indexed axis entries, expected :: inner, data =>
    if axis = expected then
      (List.finRange (len axis)).foldlM (fun data i => fill element (entries i) inner data) data
    else .error .ragged
  | .indexed _ _, [], _ => .error .ragged
  | _, _ :: _, _ => .error .ragged
  | leaf, [], data => do return data ++ [← (element leaf).mapError .element]

/-- The elements of a value over `axes`, in row-major order. -/
inductive Flat (element : RuntimeValue A → Except E T) : RuntimeValue A → List A → List T → Prop
  | leaf {value : RuntimeValue A} {t : T} (hleaf : value.isIndexed = false)
      (h : element value = .ok t) : Flat element value [] [t]
  | indexed {axis : A} {entries : Fin (len axis) → RuntimeValue A} {inner : List A}
      (parts : Fin (len axis) → List T) (h : ∀ i, Flat element (entries i) inner (parts i)) :
    Flat element (.indexed axis entries) (axis :: inner) (List.ofFn parts).flatten

variable {element : RuntimeValue A → Except E T}
variable {value : RuntimeValue A}

theorem Flat.length_eq (h : Flat element value axes data) : data.length = size axes := by
  induction h with
  | leaf => rfl
  | indexed parts _ ih => exact length_flatten_ofFn ih

/-- A value is flattened over the axes along its first entries. -/
theorem Flat.axes_eq (h : Flat element value axes data) : axes = innerAxes value := by
  induction h with
  | @leaf value t hleaf _ =>
    cases value with
    | indexed => cases hleaf
    | quantity | complex | bool | int | key | struct | datetime => rfl
  | @indexed axis entries inner parts _ ih =>
    rw [innerAxes, ← ih ⟨0, len_pos axis⟩]

theorem fill_leaf (hleaf : value.isIndexed = false) (axes : List A) (data : List T) :
    fill element value axes data =
      match axes with
      | [] => do return data ++ [← (element value).mapError .element]
      | _ :: _ => .error .ragged := by
  cases value with
  | indexed => cases hleaf
  | quantity | complex | bool | int | key | struct | datetime => cases axes <;> rfl

theorem fill_leaf_eq_ok (hleaf : value.isIndexed = false) {result : List T} :
    fill element value axes data = .ok result ↔
      ∃ part, Flat element value axes part ∧ result = data ++ part := by
  rw [fill_leaf hleaf]
  constructor
  · intro h
    cases axes with
    | nil =>
      obtain ⟨t, ht, h⟩ := bind_eq_ok.mp h
      cases h
      exact ⟨[t], .leaf hleaf (mapError_eq_ok.mp ht), rfl⟩
    | cons => cases h
  · rintro ⟨part, hpart, rfl⟩
    cases hpart with
    | leaf _ h => exact bind_eq_ok.mpr ⟨_, mapError_eq_ok.mpr h, rfl⟩
    | indexed => cases hleaf

theorem fill_eq_ok {result : List T} :
    fill element value axes data = .ok result ↔
      ∃ part, Flat element value axes part ∧ result = data ++ part := by
  induction value generalizing axes data result with
  | quantity | complex | bool | int | key | struct | datetime => exact fill_leaf_eq_ok rfl
  | indexed axis entries ih =>
    cases axes with
    | nil => exact iff_of_false nofun fun ⟨part, hpart, _⟩ => nomatch hpart
    | cons expected inner =>
      rw [fill]
      split_ifs with haxis
      · subst haxis
        rw [foldlM_append_eq_ok fun data i result => @ih i inner data result]
        constructor
        · rintro ⟨parts, hparts, rfl⟩
          exact ⟨_, .indexed parts hparts, rfl⟩
        · rintro ⟨part, hpart, rfl⟩
          cases hpart with
          | indexed parts hparts => exact ⟨parts, hparts, rfl⟩
      · refine iff_of_false nofun fun ⟨part, hpart, _⟩ => ?_
        cases hpart
        exact haxis rfl

namespace IndexedValue

/-- The value itself, among all runtime values. -/
def toValue (value : IndexedValue A) : RuntimeValue A := .indexed value.axis value.entries

/-- The elements of all entries, over the axes along the first one. -/
def fillEntries (element : RuntimeValue A → Except E T) (value : IndexedValue A) :
    Except (DenseArrayError E) (List T) :=
  (List.finRange (len value.axis)).foldlM (fun data i =>
    fill element (value.entries i) (innerAxes (value.entries ⟨0, len_pos value.axis⟩)) data) []

theorem fillEntries_eq_ok {value : IndexedValue A} :
    value.fillEntries element = .ok data ↔
      Flat element value.toValue (shapeOf value).items data := by
  unfold fillEntries
  rw [foldlM_append_eq_ok fun data i result => fill_eq_ok]
  constructor
  · rintro ⟨parts, hparts, rfl⟩
    exact .indexed parts hparts
  · intro h
    cases h with
    | indexed parts hparts => exact ⟨parts, hparts, rfl⟩

end IndexedValue

namespace DenseArray

def tryFromIndexed (element : RuntimeValue A → Except E T) (value : IndexedValue A) :
    Except (DenseArrayError E) (DenseArray A T) :=
  match h : value.fillEntries element with
  | .ok data => .ok ⟨shapeOf value, data, (IndexedValue.fillEntries_eq_ok.mp h).length_eq⟩
  | .error e => .error e

/-- Flattening succeeds with the elements of the value over its axes, and only with them. -/
theorem tryFromIndexed_eq_ok {value : IndexedValue A} :
    tryFromIndexed element value = .ok array ↔
      Flat element value.toValue array.axes.items array.data := by
  have hshape : innerAxes value.toValue = (shapeOf value).items := rfl
  unfold tryFromIndexed
  constructor
  · intro h
    split at h
    case h_1 data hdata =>
      cases h
      exact IndexedValue.fillEntries_eq_ok.mp hdata
    case h_2 => cases h
  · intro h
    have haxes : array.axes.items = (shapeOf value).items := h.axes_eq.trans hshape
    rw [haxes] at h
    have hdata := IndexedValue.fillEntries_eq_ok.mpr h
    split
    case h_1 data hfill =>
      rw [hdata] at hfill
      cases hfill
      obtain ⟨axes, data, hlength⟩ := array
      have hsame : shapeOf value = axes := by
        obtain ⟨items, hitems⟩ := axes
        cases haxes
        rfl
      subst hsame
      rfl
    case h_2 e herror =>
      rw [hdata] at herror
      cases herror

end DenseArray

/-- A value over `axes` whose leaves are all scalar. -/
inductive Rectangular (scalar : RuntimeValue A → Prop) : RuntimeValue A → List A → Prop
  | leaf {value : RuntimeValue A} (hleaf : value.isIndexed = false) (h : scalar value) :
    Rectangular scalar value []
  | indexed {axis : A} {entries : Fin (len axis) → RuntimeValue A} {inner : List A}
      (h : ∀ i, Rectangular scalar (entries i) inner) :
    Rectangular scalar (.indexed axis entries) (axis :: inner)

/-- Somewhere in the value a leaf is not scalar, or two entries at one level have different axes:
one of them is a leaf, or both are indexed. -/
inductive Defective (scalar : RuntimeValue A → Prop) : RuntimeValue A → Prop
  | leaf {value : RuntimeValue A} (hleaf : value.isIndexed = false) (h : ¬ scalar value) :
    Defective scalar value
  | siblings {axis : A} {entries : Fin (len axis) → RuntimeValue A} {i j : Fin (len axis)}
      {axes axes' : List A} (hi : Rectangular scalar (entries i) axes)
      (hj : Rectangular scalar (entries j) axes') (hne : axes ≠ axes') :
    Defective scalar (.indexed axis entries)
  | entry {axis : A} {entries : Fin (len axis) → RuntimeValue A} {i : Fin (len axis)}
      (h : Defective scalar (entries i)) : Defective scalar (.indexed axis entries)

variable {scalar : RuntimeValue A → Prop}

theorem Rectangular.axes_eq (h : Rectangular scalar value axes) : axes = innerAxes value := by
  induction h with
  | @leaf value hleaf _ =>
    cases value with
    | indexed => cases hleaf
    | quantity | complex | bool | int | key | struct | datetime => rfl
  | @indexed axis entries inner _ ih => rw [innerAxes, ← ih ⟨0, len_pos axis⟩]

theorem rectangular_of_not_defective (h : ¬ Defective scalar value) :
    ∃ axes, Rectangular scalar value axes := by
  induction value with
  | quantity | complex | bool | int | key | struct | datetime =>
    exact ⟨[], .leaf rfl (not_not.mp fun hscalar => h (.leaf rfl hscalar))⟩
  | indexed axis entries ih =>
    choose axes haxes using fun i => ih i fun hi => h (.entry hi)
    refine ⟨axis :: axes ⟨0, len_pos axis⟩, .indexed fun i => ?_⟩
    have hsame : axes i = axes ⟨0, len_pos axis⟩ := by
      by_contra hne
      exact h (.siblings (haxes i) (haxes _) hne)
    exact hsame ▸ haxes i

theorem Defective.not_rectangular (h : Defective scalar value) (axes : List A) :
    ¬ Rectangular scalar value axes := by
  induction h generalizing axes with
  | leaf hleaf h =>
    intro hrect
    cases hrect with
    | leaf _ hscalar => exact h hscalar
    | indexed => cases hleaf
  | siblings hi hj hne =>
    intro hrect
    cases hrect with
    | leaf hleaf => cases hleaf
    | indexed hentries =>
      exact hne ((hi.axes_eq.trans (hentries _).axes_eq.symm).trans
        ((hentries _).axes_eq.trans hj.axes_eq.symm))
  | entry _ ih =>
    intro hrect
    cases hrect with
    | leaf hleaf => cases hleaf
    | indexed hentries => exact ih _ (hentries _)

/-- The leaves that the element conversion accepts. -/
def Accepts (element : RuntimeValue A → Except E T) (value : RuntimeValue A) : Prop :=
  ∃ t, element value = .ok t

theorem rectangular_iff_flat :
    Rectangular (Accepts element) value axes ↔ ∃ data, Flat element value axes data := by
  constructor
  · intro h
    induction h with
    | leaf hleaf h =>
      obtain ⟨t, ht⟩ := h
      exact ⟨[t], .leaf hleaf ht⟩
    | indexed _ ih =>
      choose parts hparts using ih
      exact ⟨_, .indexed parts hparts⟩
  · rintro ⟨data, h⟩
    induction h with
    | leaf hleaf h => exact .leaf hleaf ⟨_, h⟩
    | indexed _ _ ih => exact .indexed ih

/-- Flattening fails exactly on defective values. -/
theorem tryFromIndexed_fails_iff {value : IndexedValue A} :
    (∃ e, DenseArray.tryFromIndexed element value = .error e) ↔
      Defective (Accepts element) value.toValue := by
  constructor
  · rintro ⟨e, he⟩
    by_contra hdefective
    obtain ⟨axes, hrect⟩ := rectangular_of_not_defective hdefective
    obtain ⟨data, hflat⟩ := rectangular_iff_flat.mp hrect
    have haxes : axes ≠ [] := by
      rintro rfl
      cases hflat with
      | leaf hleaf => cases hleaf
    have hok := DenseArray.tryFromIndexed_eq_ok.mpr
      (show Flat element value.toValue
        (⟨⟨axes, haxes⟩, data, hflat.length_eq⟩ : DenseArray A T).axes.items _ from hflat)
    rw [he] at hok
    cases hok
  · intro h
    cases hresult : DenseArray.tryFromIndexed element value with
    | error e => exact ⟨e, rfl⟩
    | ok array =>
      have hflat := DenseArray.tryFromIndexed_eq_ok.mp hresult
      exact absurd (rectangular_iff_flat.mpr ⟨_, hflat⟩) (h.not_rectangular _)

/-- Why a value could not be rebuilt; an index outside the data would be a panic. -/
inductive BuildError (E : Type)
  | leaf (error : E)
  | outOfBounds

/-- The part of `data` at a position of the outermost axis. -/
def chunkAt (inner : List A) (data : List T) (position : ℕ) : Except (BuildError E) (List T) :=
  match (chunksExact (size inner) data)[position]? with
  | some chunk => .ok chunk
  | none => .error .outOfBounds

def firstElement (chunk : List T) : Except (BuildError E) T :=
  match chunk[0]? with
  | some t => .ok t
  | none => .error .outOfBounds

/-- Rebuild the indexed value over an axis and its inner axes from row-major data. -/
def buildIndexed (leaf : T → Except E (RuntimeValue A)) :
    A → List A → List T → Except (BuildError E) (IndexedValue A)
  | axis, [], data => IndexedValue.tryFromAxis axis fun position => do
    let chunk ← chunkAt ([] : List A) data position.val
    (leaf (← firstElement chunk)).mapError .leaf
  | axis, next :: rest, data => IndexedValue.tryFromAxis axis fun position => do
    let chunk ← chunkAt (next :: rest) data position.val
    return (← buildIndexed leaf next rest chunk).toValue

namespace DenseArray

def tryToIndexed (leaf : T → Except E (RuntimeValue A)) (array : DenseArray A T) :
    Except (BuildError E) (IndexedValue A) :=
  match h : array.axes.items with
  | axis :: inner => buildIndexed leaf axis inner array.data
  | [] => absurd h array.axes.nonempty

end DenseArray

variable {axis : A} {inner : List A}

theorem chunkAt_eq_ok (hlength : data.length = size (axis :: inner)) (position : Fin (len axis)) :
    chunkAt inner data position.val =
      (.ok (cut (position.val * size inner) (size inner) data) : Except (BuildError E) _) := by
  rw [chunkAt, getElem?_chunksExact (size_pos inner) (hlength.trans (size_cons axis inner))
    position.isLt]

theorem length_chunk (hlength : data.length = size (axis :: inner)) (position : Fin (len axis)) :
    (cut (position.val * size inner) (size inner) data).length = size inner :=
  length_cut_chunk (hlength.trans (size_cons axis inner)) position.isLt

theorem exists_of_tryFromAxis_eq_error {entry : Fin (len axis) → Except E (RuntimeValue A)} {e : E}
    (h : IndexedValue.tryFromAxis axis entry = .error e) : ∃ i, entry i = .error e := by
  rcases bind_eq_error.mp h with h | ⟨_, _, h⟩
  · exact exists_of_tryOfFn_eq_error h
  · cases h

theorem firstElement_eq_ok {chunk : List T} (h : chunk.length = 1) :
    ∃ t, chunk = [t] ∧ firstElement chunk = (.ok t : Except (BuildError E) T) := by
  obtain ⟨t, rfl⟩ := List.length_eq_one_iff.mp h
  exact ⟨t, rfl, rfl⟩

/-- Rebuilding never reads outside the data. -/
theorem buildIndexed_inBounds {leaf : T → Except E (RuntimeValue A)}
    (hlength : data.length = size (axis :: inner)) :
    buildIndexed leaf axis inner data ≠ .error .outOfBounds := by
  induction inner generalizing axis data with
  | nil =>
    intro h
    obtain ⟨i, hi⟩ := exists_of_tryFromAxis_eq_error h
    rw [chunkAt_eq_ok hlength i] at hi
    obtain ⟨t, -, ht⟩ := firstElement_eq_ok (E := E) (length_chunk hlength i)
    rcases bind_eq_error.mp hi with hchunk | ⟨chunk, hchunk, hi⟩
    · cases hchunk
    cases hchunk
    rw [ht] at hi
    rcases bind_eq_error.mp hi with hi | ⟨u, hu, hi⟩
    · cases hi
    obtain ⟨e, -, he⟩ := Checked.mapError_eq_error hi
    cases he
  | cons next rest ih =>
    intro h
    obtain ⟨i, hi⟩ := exists_of_tryFromAxis_eq_error h
    rw [chunkAt_eq_ok hlength i] at hi
    rcases bind_eq_error.mp hi with hchunk | ⟨chunk, hchunk, hi⟩
    · cases hchunk
    cases hchunk
    rcases bind_eq_error.mp hi with hi | ⟨_, _, hi⟩
    · exact ih (length_chunk hlength i) hi
    · cases hi

/-! ## Round trips -/

/-- A scalar kind: how its leaves are read, and how they are made again. -/
structure ScalarLeaf (A T E : Type) [IndexAxes A] where
  element : RuntimeValue A → Except E T
  leaf : T → RuntimeValue A
  element_leaf : ∀ t, element (leaf t) = .ok t
  leaf_element : ∀ value t, element value = .ok t → leaf t = value
  isIndexed_leaf : ∀ t, (leaf t).isIndexed = false

/-- The conversion of leaves that cannot fail. -/
def ScalarLeaf.total (kind : ScalarLeaf A T E) (t : T) : Except Empty (RuntimeValue A) :=
  .ok (kind.leaf t)

variable {kind : ScalarLeaf A T E}

theorem Flat.injective {value' : RuntimeValue A} (h : Flat kind.element value axes data)
    (h' : Flat kind.element value' axes data) :
    value = value' := by
  induction h generalizing value' with
  | leaf _ h =>
    cases h' with
    | leaf _ h' => rw [← kind.leaf_element _ _ h, kind.leaf_element _ _ h']
  | @indexed axis entries inner parts hparts ih =>
    generalize hdata : (List.ofFn parts).flatten = data at h'
    cases h' with
    | @indexed _ entries' _ parts' hparts' =>
      congr
      funext i
      apply ih i
      have hsame : parts i = parts' i := by
        rw [← cut_flatten_ofFn (fun i => (hparts i).length_eq) i, hdata,
          cut_flatten_ofFn fun i => (hparts' i).length_eq]
      rw [hsame]
      exact hparts' i

/-- Data of the right length is rebuilt to a value with these elements. -/
theorem exists_buildIndexed (kind : ScalarLeaf A T E)
    (hlength : data.length = size (axis :: inner)) :
    ∃ entries, buildIndexed kind.total axis inner data = .ok ⟨axis, entries⟩ ∧
      Flat kind.element (.indexed axis entries) (axis :: inner) data := by
  have hdata : (List.ofFn fun i : Fin (len axis) =>
      cut (i.val * size inner) (size inner) data).flatten = data :=
    flatten_ofFn_cuts (hlength.trans (size_cons axis inner))
  induction inner generalizing axis data with
  | nil =>
    choose t ht using fun i => firstElement_eq_ok (E := Empty) (length_chunk hlength i)
    refine ⟨fun i => kind.leaf (t i), ?_, ?_⟩
    · refine bind_eq_ok.mpr ⟨_, tryOfFn_eq_ok fun i => ?_, rfl⟩
      rw [chunkAt_eq_ok hlength i]
      exact bind_eq_ok.mpr ⟨_, rfl, bind_eq_ok.mpr ⟨t i, (ht i).2, rfl⟩⟩
    · rw [← hdata]
      refine .indexed _ fun i => ?_
      rw [(ht i).1]
      exact .leaf (kind.isIndexed_leaf _) (kind.element_leaf _)
  | cons next rest ih =>
    choose entries hbuild hflat using fun i => ih (length_chunk hlength i)
      (flatten_ofFn_cuts ((length_chunk hlength i).trans (size_cons next rest)))
    refine ⟨fun i => .indexed next (entries i), ?_, ?_⟩
    · refine bind_eq_ok.mpr ⟨_, tryOfFn_eq_ok fun i => ?_, rfl⟩
      rw [chunkAt_eq_ok hlength i]
      exact bind_eq_ok.mpr ⟨_, rfl, bind_eq_ok.mpr ⟨_, hbuild i, rfl⟩⟩
    · rw [← hdata]
      exact .indexed _ hflat

theorem exists_tryToIndexed (kind : ScalarLeaf A T E) (array : DenseArray A T) :
    ∃ value, array.tryToIndexed kind.total = .ok value ∧
      Flat kind.element value.toValue array.axes.items array.data := by
  unfold DenseArray.tryToIndexed
  split
  case h_1 axis inner haxes =>
    obtain ⟨entries, hbuild, hflat⟩ := exists_buildIndexed kind
      (array.length_eq.trans (congrArg size haxes))
    exact ⟨_, hbuild, haxes ▸ hflat⟩
  case h_2 haxes => exact absurd haxes array.axes.nonempty

theorem tryToIndexed_inBounds (array : DenseArray A T) (leaf : T → Except E (RuntimeValue A)) :
    array.tryToIndexed leaf ≠ .error .outOfBounds := by
  unfold DenseArray.tryToIndexed
  split
  case h_1 axis inner haxes =>
    exact buildIndexed_inBounds (array.length_eq.trans (congrArg size haxes))
  case h_2 haxes => exact absurd haxes array.axes.nonempty

/-- Rebuilding with leaves that are made without failure. -/
def DenseArray.toIndexed (leaf : T → RuntimeValue A) (array : DenseArray A T) : IndexedValue A :=
  match h : array.tryToIndexed fun t => (.ok (leaf t) : Except Empty (RuntimeValue A)) with
  | .ok value => value
  | .error (.leaf never) => never.elim
  | .error .outOfBounds => absurd h (tryToIndexed_inBounds array _)

theorem DenseArray.flat_toIndexed (kind : ScalarLeaf A T E) (array : DenseArray A T) :
    Flat kind.element (array.toIndexed kind.leaf).toValue array.axes.items array.data := by
  obtain ⟨value, hvalue, hflat⟩ := exists_tryToIndexed kind array
  unfold toIndexed
  split
  case h_1 found hfound =>
    have hsame : found = value := Except.ok.inj (hfound.symm.trans hvalue)
    exact hsame ▸ hflat
  case h_2 never _ => exact never.elim
  case h_3 h => exact absurd h (tryToIndexed_inBounds array _)

/-- Flattening and rebuilding are inverse to each other, flattening fails exactly on defective
values, and rebuilding stays inside the data, whatever it makes of the elements. -/
theorem dense_round_trip (A T E : Type) [IndexAxes A] (kind : ScalarLeaf A T E) :
    (∀ (value : IndexedValue A) array, DenseArray.tryFromIndexed kind.element value = .ok array →
      array.tryToIndexed kind.total = .ok value) ∧
    (∀ array : DenseArray A T, ∃ value, array.tryToIndexed kind.total = .ok value ∧
      DenseArray.tryFromIndexed kind.element value = .ok array) ∧
    (∀ value : IndexedValue A, (∃ e, DenseArray.tryFromIndexed kind.element value = .error e) ↔
      Defective (Accepts kind.element) value.toValue) ∧
    ∀ (array : DenseArray A T) (F : Type) (leaf : T → Except F (RuntimeValue A)),
      array.tryToIndexed leaf ≠ .error .outOfBounds ∧
        ∀ inner, inner <:+ array.axes.items → size inner ≤ array.data.length := by
  refine ⟨fun value array h => ?_, fun array => ?_, fun _ => tryFromIndexed_fails_iff,
    fun array F leaf => ⟨tryToIndexed_inBounds array leaf, fun inner hinner => ?_⟩⟩
  · obtain ⟨rebuilt, hrebuilt, hflat⟩ := exists_tryToIndexed kind array
    have hsame := hflat.injective (DenseArray.tryFromIndexed_eq_ok.mp h)
    obtain ⟨axis, entries⟩ := rebuilt
    obtain ⟨axis', entries'⟩ := value
    cases hsame
    exact hrebuilt
  · obtain ⟨value, hvalue, hflat⟩ := exists_tryToIndexed kind array
    exact ⟨value, hvalue, DenseArray.tryFromIndexed_eq_ok.mpr hflat⟩
  · obtain ⟨outer, houter⟩ := hinner
    rw [array.length_eq, ← houter, size, size, List.map_append, List.prod_append]
    exact Nat.le_mul_of_pos_left _ (size_pos outer)

end ProvenGraphcal.Host
