import ProvenGraphcal.MapLiteral.MapCoverage

/-!
# Counting decides coverage

As many distinct tuples as the product has are all of them.
-/

namespace ProvenGraphcal.MapLiteral

open Nominal (maxIndexCardinality)
open Checked (bind_eq_ok mapM_eq_ok)

variable {N : Type}

def MapEntryKey.index : MapEntryKey N → IndexTypeRef N
  | indexVariant index _ => .declared index
  | finitePosition size _ => .finite size

/-- A structural index has an admitted size. -/
def IndexTypeRef.Valid (index : IndexTypeRef N) : Prop :=
  ∀ size, index = .finite size → 0 < size ∧ size ≤ maxIndexCardinality

/-- The axis of a known index that is not a coordinate index. -/
def IsAxis (registry : N → Option IndexKind) (axis : MapLiteralAxis N) : Prop :=
  axis.index.Valid ∧ ∃ kind, indexDef registry axis.index = some kind ∧
    kind.isCoordinate = false ∧ axis.entryKeys = kind.entryKeys

variable {registry : N → Option IndexKind}

theorem IsAxis.nodup {axis : MapLiteralAxis N} (h : IsAxis registry axis) :
    axis.entryKeys.Nodup := by
  obtain ⟨-, kind, -, -, hkeys⟩ := h
  rw [hkeys]
  exact kind.nodup_entryKeys

variable {index : IndexTypeRef N}

theorem fromFiniteIndexForm_eq_ok {size : ℕ} :
    fromFiniteIndexForm size = .ok index ↔
      index = .finite size ∧ 0 < size ∧ size ≤ maxIndexCardinality := by
  unfold fromFiniteIndexForm
  split_ifs with hzero hle
  · exact iff_of_false nofun fun h => by omega
  · rw [Except.ok.injEq]
    exact ⟨fun h => ⟨h.symm, by omega, hle⟩, fun h => h.1.symm⟩
  · exact iff_of_false nofun fun h => by omega

variable {key : MapEntryKey N}

theorem inferredIndex_eq_ok :
    inferredIndexForHirMapKey key = .ok index ↔ index = key.index ∧ index.Valid := by
  cases key with
  | indexVariant name variant =>
    rw [inferredIndexForHirMapKey, Except.ok.injEq]
    constructor
    · rintro rfl
      exact ⟨rfl, fun size h => nomatch h⟩
    · exact fun h => h.1.symm
  | finitePosition size position =>
    rw [inferredIndexForHirMapKey, fromFiniteIndexForm_eq_ok]
    constructor
    · rintro ⟨rfl, hsize⟩
      refine ⟨rfl, fun size' h => ?_⟩
      cases h
      exact hsize
    · rintro ⟨rfl, hvalid⟩
      exact ⟨rfl, hvalid size rfl⟩

theorem axisOfIndex_eq_ok {axis : MapLiteralAxis N} : axisOfIndex registry index = .ok axis ↔
      axis.index = index ∧ ∃ kind, indexDef registry index = some kind ∧
        kind.isCoordinate = false ∧ axis.entryKeys = kind.entryKeys := by
  unfold axisOfIndex
  cases indexDef registry index with
  | none => exact iff_of_false nofun fun ⟨_, _, h, _⟩ => nomatch h
  | some kind =>
    dsimp only
    split_ifs with hcoordinate
    · refine iff_of_false nofun fun ⟨_, kind', hkind, hnot, _⟩ => ?_
      cases hkind
      exact Bool.false_ne_true (hnot.symm.trans hcoordinate)
    · constructor
      · intro h
        cases h
        exact ⟨rfl, kind, rfl, Bool.eq_false_iff.mpr hcoordinate, rfl⟩
      · rintro ⟨rfl, kind', hkind, -, hkeys⟩
        cases hkind
        rw [← hkeys]

theorem axisOf_eq_ok {axis : MapLiteralAxis N} :
    axisOf registry key = .ok axis ↔ axis.index = key.index ∧ IsAxis registry axis := by
  unfold axisOf
  rw [bind_eq_ok]
  constructor
  · rintro ⟨index, hindex, h⟩
    obtain ⟨rfl, hvalid⟩ := inferredIndex_eq_ok.mp hindex
    obtain ⟨haxis, hkind⟩ := axisOfIndex_eq_ok.mp h
    unfold IsAxis
    rw [haxis]
    exact ⟨rfl, hvalid, hkind⟩
  · rintro ⟨hindex, hvalid, hkind⟩
    exact ⟨axis.index, inferredIndex_eq_ok.mpr ⟨hindex, hvalid⟩,
      axisOfIndex_eq_ok.mpr ⟨rfl, hkind⟩⟩

variable {variants : List (MapLiteralVariantKey N)} {variant : MapLiteralVariantKey N} {arity : ℕ}

namespace MapLiteralAxis

variable {axis : MapLiteralAxis N}

theorem entryKey_of_variantKey {key : IndexEntryKey} (h : axis.variantKey key = .ok variant) :
    variant.entryKey = key := by
  unfold variantKey at h
  split at h
  all_goals cases h
  all_goals rfl

/-- A variant of the axis. -/
def Has (axis : MapLiteralAxis N) (variant : MapLiteralVariantKey N) : Prop :=
  variant.entryKey ∈ axis.entryKeys ∧ axis.variantKey variant.entryKey = .ok variant

theorem Has.ext {variant' : MapLiteralVariantKey N} (h : axis.Has variant) (h' : axis.Has variant')
    (heq : variant.entryKey = variant'.entryKey) : variant = variant' := by
  have hsame := h.2
  rw [heq, h'.2] at hsame
  exact (Except.ok.inj hsame).symm

theorem selected_eq_ok :
    axis.selected arity key = .ok variant ↔
      axis.Has variant ∧ variant.entryKey = hirMapEntryKey key := by
  unfold selected
  dsimp only
  split_ifs with hmem
  · constructor
    · intro h
      have hkey := entryKey_of_variantKey h
      unfold Has
      rw [hkey]
      exact ⟨⟨hmem, h⟩, rfl⟩
    · rintro ⟨⟨-, h⟩, hkey⟩
      rwa [hkey] at h
  · refine iff_of_false (fun h => ?_) fun h => hmem (h.2 ▸ h.1.1)
    split at h
    all_goals cases h

theorem mem_variantKeys (h : axis.variantKeys = .ok variants) :
    variant ∈ variants ↔ axis.Has variant := by
  have hforall := mapM_eq_ok.mp h
  constructor
  · intro hmem
    obtain ⟨key, hkey, hvariant⟩ := Checked.exists_of_forall₂_right hforall hmem
    unfold Has
    rw [entryKey_of_variantKey hvariant]
    exact ⟨hkey, hvariant⟩
  · rintro ⟨hkey, hvariant⟩
    obtain ⟨variant', hmem, hvariant'⟩ := Checked.exists_of_forall₂_left hforall hkey
    rw [hvariant, Except.ok.injEq] at hvariant'
    rwa [hvariant']

theorem map_entryKey_variantKeys (h : axis.variantKeys = .ok variants) :
    variants.map MapLiteralVariantKey.entryKey =
      axis.entryKeys := by
  have hforall := mapM_eq_ok.mp h
  clear h
  generalize axis.entryKeys = keys at hforall
  induction hforall with
  | nil => rfl
  | cons hkey _ ih => rw [List.map_cons, entryKey_of_variantKey hkey, ih]

end MapLiteralAxis

variable {tuple : List (MapLiteralVariantKey N)}

section OnAxes

variable {axes : List (MapLiteralAxis N)}

/-- One variant of each axis. -/
abbrev OnAxes (axes : List (MapLiteralAxis N)) (tuple : List (MapLiteralVariantKey N)) : Prop :=
  List.Forall₂ MapLiteralAxis.Has axes tuple

/-- The entry keys of a tuple. -/
abbrev entryKeys (tuple : List (MapLiteralVariantKey N)) : List IndexEntryKey :=
  tuple.map MapLiteralVariantKey.entryKey

theorem OnAxes.ext {tuple tuple' : List (MapLiteralVariantKey N)} (h : OnAxes axes tuple)
    (h' : OnAxes axes tuple') (heq : entryKeys tuple = entryKeys tuple') : tuple = tuple' := by
  induction h generalizing tuple' with
  | nil =>
    cases h'
    rfl
  | cons hhas _ ih =>
    cases h' with
    | cons hhas' h' =>
      obtain ⟨hkey, hkeys⟩ := List.cons.inj heq
      rw [hhas.ext hhas' hkey, ih h' hkeys]

theorem OnAxes.isTuple (h : OnAxes axes tuple) :
    IsTuple (axes.map MapLiteralAxis.entryKeys) (entryKeys tuple) := by
  induction h with
  | nil => exact .nil
  | cons hhas _ ih => exact .cons hhas.1 ih

variable {variantKeys : List (List (MapLiteralVariantKey N))}

/-- The variants of every axis. -/
abbrev VariantsOf (axes : List (MapLiteralAxis N))
    (variantKeys : List (List (MapLiteralVariantKey N))) : Prop :=
  List.Forall₂ (fun axis variants => axis.variantKeys = .ok variants) axes variantKeys

section

variable (h : VariantsOf axes variantKeys)

include h

theorem VariantsOf.isTuple_iff : IsTuple variantKeys tuple ↔ OnAxes axes tuple := by
  induction h generalizing tuple with
  | nil => rw [IsTuple, OnAxes, List.forall₂_nil_left_iff, List.forall₂_nil_left_iff]
  | cons hvariants _ ih =>
    rw [IsTuple, OnAxes, List.forall₂_cons_left_iff, List.forall₂_cons_left_iff]
    simp only [MapLiteralAxis.mem_variantKeys hvariants, ih]

theorem VariantsOf.exists_onAxes {keys : List IndexEntryKey}
    (htuple : IsTuple (axes.map MapLiteralAxis.entryKeys) keys) :
    ∃ tuple, OnAxes axes tuple ∧ entryKeys tuple = keys := by
  induction h generalizing keys with
  | nil =>
    cases htuple
    exact ⟨[], .nil, rfl⟩
  | @cons axis variants axes variantKeys hvariants _ ih =>
    cases htuple with
    | cons hkey htuple =>
      obtain ⟨tuple, honAxes, rfl⟩ := ih htuple
      rw [← MapLiteralAxis.map_entryKey_variantKeys hvariants] at hkey
      obtain ⟨variant, hvariant, rfl⟩ := List.mem_map.mp hkey
      exact ⟨variant :: tuple,
        .cons ((MapLiteralAxis.mem_variantKeys hvariants).mp hvariant) honAxes, rfl⟩

theorem VariantsOf.nodup (haxes : ∀ axis ∈ axes, axis.entryKeys.Nodup) :
    ∀ variants ∈ variantKeys, variants.Nodup := by
  intro variants hmem
  obtain ⟨axis, haxis, hvariants⟩ := Checked.exists_of_forall₂_right h hmem
  have hnodup := haxes axis haxis
  rw [← MapLiteralAxis.map_entryKey_variantKeys hvariants] at hnodup
  exact hnodup.of_map _

theorem VariantsOf.lengths_eq :
    lengths variantKeys = lengths (axes.map MapLiteralAxis.entryKeys) := by
  induction h with
  | nil => rfl
  | cons hvariants _ ih =>
    show _ :: lengths _ = _ :: lengths _
    rw [ih, ← MapLiteralAxis.map_entryKey_variantKeys hvariants, List.length_map]

end

end OnAxes

/-! ## The checks of the entries -/

variable {keys : NonEmpty (MapEntryKey N)}

section Checks

variable {axes : List (MapLiteralAxis N)}

theorem mapM_axisOf {keys : List (MapEntryKey N)} :
    keys.mapM (axisOf registry) = .ok axes ↔
      keys.map MapEntryKey.index = axes.map MapLiteralAxis.index ∧
        ∀ axis ∈ axes, IsAxis registry axis := by
  rw [mapM_eq_ok]
  induction keys generalizing axes with
  | nil =>
    rw [List.forall₂_nil_left_iff]
    constructor
    · rintro rfl
      exact ⟨rfl, fun _ h => nomatch h⟩
    · exact fun h => List.map_eq_nil_iff.mp h.1.symm
  | cons key keys ih =>
    cases axes with
    | nil => exact iff_of_false nofun fun h => nomatch h.1
    | cons axis axes =>
      rw [List.forall₂_cons, axisOf_eq_ok, ih, List.map_cons, List.map_cons, List.cons.injEq,
        List.forall_mem_cons]
      constructor
      · exact fun ⟨⟨hindex, haxis⟩, hindexes, haxes⟩ => ⟨⟨hindex.symm, hindexes⟩, haxis, haxes⟩
      · exact fun ⟨⟨hindex, hindexes⟩, haxis, haxes⟩ => ⟨⟨hindex.symm, haxis⟩, hindexes, haxes⟩

theorem entryTuple_eq_ok (hlength : axes.length = keys.items.length) :
    entryTuple arity axes keys = .ok tuple ↔
      OnAxes axes tuple ∧ entryKeys tuple = keys.items.map hirMapEntryKey := by
  unfold entryTuple
  rw [mapM_eq_ok]
  generalize keys.items = items at hlength
  induction axes generalizing items tuple with
  | nil =>
    cases List.length_eq_zero_iff.mp hlength.symm
    rw [List.zip_nil_left, List.forall₂_nil_left_iff, OnAxes, List.forall₂_nil_left_iff]
    constructor
    · rintro rfl
      exact ⟨rfl, rfl⟩
    · exact And.left
  | cons axis axes ih =>
    cases items with
    | nil => cases hlength
    | cons key items =>
      rw [List.zip_cons_cons, List.forall₂_cons_left_iff, OnAxes, List.forall₂_cons_left_iff]
      constructor
      · rintro ⟨variant, rest, hselected, hrest, rfl⟩
        obtain ⟨hhas, hkey⟩ := MapLiteralAxis.selected_eq_ok.mp hselected
        obtain ⟨honAxes, hkeys⟩ := (ih items (Nat.succ.inj hlength)).mp hrest
        exact ⟨⟨variant, rest, hhas, honAxes, rfl⟩, congrArg₂ List.cons hkey hkeys⟩
      · rintro ⟨⟨variant, rest, hhas, honAxes, rfl⟩, heq⟩
        obtain ⟨hkey, hkeys⟩ := List.cons.inj heq
        exact ⟨variant, rest, MapLiteralAxis.selected_eq_ok.mpr ⟨hhas, hkey⟩,
          (ih items (Nat.succ.inj hlength)).mpr ⟨honAxes, hkeys⟩, rfl⟩

variable {variantKeys : List (List (MapLiteralVariantKey N))}

theorem foldlM_checkedMul {init n : ℕ} (hinit : init < 2 ^ 64)
    (h : variantKeys.foldlM checkedMul init = .ok n) :
    n = init * (lengths variantKeys).prod ∧ n < 2 ^ 64 := by
  induction variantKeys generalizing init with
  | nil =>
    cases h
    exact ⟨(Nat.mul_one _).symm, hinit⟩
  | cons axis rest ih =>
    rw [List.foldlM_cons, bind_eq_ok] at h
    obtain ⟨next, hnext, hrest⟩ := h
    unfold checkedMul at hnext
    split_ifs at hnext with hfits
    cases hnext
    obtain ⟨hn, hlt⟩ := ih hfits hrest
    refine ⟨hn.trans ?_, hlt⟩
    show _ = init * (axis.length * (lengths rest).prod)
    rw [Nat.mul_assoc]

theorem checkedFromAxes_eq_ok {n : ℕ} (h : checkedFromAxes variantKeys = .ok n) :
    n = (lengths variantKeys).prod ∧ n < 2 ^ 64 := by
  have hfold := foldlM_checkedMul (by decide) h
  rwa [Nat.one_mul] at hfold

/-- A product of nonempty axes that fits has only partial products that fit. -/
theorem foldlM_checkedMul_of_fits {init : ℕ} (hpos : 0 < (lengths variantKeys).prod)
    (hfits : init * (lengths variantKeys).prod < 2 ^ 64) :
    variantKeys.foldlM checkedMul init =
      (.ok (init * (lengths variantKeys).prod) : Except (MapCoverageError N) ℕ) := by
  induction variantKeys generalizing init with
  | nil =>
    show Except.ok _ = Except.ok (_ * 1)
    rw [Nat.mul_one]
  | cons axis rest ih =>
    have hprod : (lengths (axis :: rest)).prod = axis.length * (lengths rest).prod := rfl
    rw [hprod] at hpos hfits ⊢
    have hrest : 0 < (lengths rest).prod := Nat.pos_of_mul_pos_left hpos
    rw [← Nat.mul_assoc] at hfits ⊢
    have hpartial : init * axis.length < 2 ^ 64 :=
      (Nat.le_mul_of_pos_right _ hrest).trans_lt hfits
    rw [List.foldlM_cons, checkedMul, if_pos hpartial]
    exact ih hrest hfits

theorem checkedFromAxes_of_fits (hpos : 0 < (lengths variantKeys).prod)
    (hfits : (lengths variantKeys).prod < 2 ^ 64) :
    checkedFromAxes variantKeys = .ok (lengths variantKeys).prod := by
  unfold checkedFromAxes
  rw [foldlM_checkedMul_of_fits hpos (by rwa [Nat.one_mul]), Nat.one_mul]

variable [DecidableEq N]

theorem checkIndex_eq_ok {item : MapLiteralAxis N × MapEntryKey N}
    (haxis : IsAxis registry item.1) :
    checkIndex item = .ok () ↔ item.2.index = item.1.index := by
  unfold checkIndex
  rw [bind_eq_ok]
  constructor
  · rintro ⟨index, hindex, h⟩
    obtain ⟨rfl, -⟩ := inferredIndex_eq_ok.mp hindex
    split_ifs at h with heq
    exact heq
  · intro heq
    refine ⟨item.1.index, inferredIndex_eq_ok.mpr ⟨heq.symm, haxis.1⟩, ?_⟩
    rw [if_pos rfl]
    rfl

theorem checkIndexes_eq_ok (haxes : ∀ axis ∈ axes, IsAxis registry axis)
    (hlength : axes.length = keys.items.length) :
    checkIndexes axes keys = .ok () ↔
      keys.items.map MapEntryKey.index = axes.map MapLiteralAxis.index := by
  have hall : checkIndexes axes keys = .ok () ↔
      ∀ item ∈ axes.zip keys.items, checkIndex item = .ok () :=
    Checked.forM_eq_ok
  rw [hall]
  clear hall
  generalize keys.items = items at hlength
  induction axes generalizing items with
  | nil =>
    cases List.length_eq_zero_iff.mp hlength.symm
    exact iff_of_true (fun _ h => nomatch h) rfl
  | cons axis axes ih =>
    cases items with
    | nil => cases hlength
    | cons key items =>
      have hrest := ih (fun a ha => haxes a (List.mem_cons_of_mem _ ha)) items
        (Nat.succ.inj hlength)
      rw [List.zip_cons_cons, List.forall_mem_cons,
        checkIndex_eq_ok (haxes axis List.mem_cons_self), List.map_cons, List.map_cons,
        List.cons.injEq]
      exact and_congr_right fun _ => hrest

theorem providedTuples_eq_ok {entries : List (NonEmpty (MapEntryKey N))}
    {provided result : List (List (MapLiteralVariantKey N))} (hprovided : provided.Nodup) :
    providedTuples arity axes provided entries = .ok result ↔
      ∃ new, List.Forall₂ (fun keys tuple => entryTuple arity axes keys = .ok tuple) entries new ∧
        result = provided ++ new ∧ (provided ++ new).Nodup := by
  induction entries generalizing provided with
  | nil =>
    rw [providedTuples, Except.ok.injEq]
    constructor
    · rintro rfl
      refine ⟨[], .nil, (List.append_nil _).symm, ?_⟩
      rwa [List.append_nil]
    · rintro ⟨new, hnew, hresult, -⟩
      cases hnew
      rw [hresult, List.append_nil]
  | cons keys rest ih =>
    rw [providedTuples, bind_eq_ok]
    constructor
    · rintro ⟨tuple, htuple, h⟩
      split_ifs at h with hmem
      have hnodup : (provided ++ [tuple]).Nodup := by
        rw [List.nodup_append]
        refine ⟨hprovided, List.nodup_singleton _, ?_⟩
        rintro a ha b hb rfl
        exact hmem (List.mem_singleton.mp hb ▸ ha)
      obtain ⟨new, hnew, hresult, hall⟩ := (ih hnodup).mp h
      rw [List.append_assoc] at hresult hall
      exact ⟨tuple :: new, .cons htuple hnew, hresult, hall⟩
    · rintro ⟨new, hnew, hresult, hall⟩
      cases hnew with
      | @cons _ tuple _ new htuple hnew =>
        refine ⟨tuple, htuple, ?_⟩
        have hmem : tuple ∉ provided := fun h =>
          (List.nodup_append.mp hall).2.2 tuple h tuple List.mem_cons_self rfl
        have hassoc : provided ++ tuple :: new = provided ++ [tuple] ++ new := by
          rw [List.append_assoc, List.singleton_append]
        rw [hassoc] at hresult hall
        rw [if_neg hmem]
        exact (ih (List.nodup_append.mp hall).1).mpr ⟨new, hnew, hresult, hall⟩

end Checks

end ProvenGraphcal.MapLiteral
