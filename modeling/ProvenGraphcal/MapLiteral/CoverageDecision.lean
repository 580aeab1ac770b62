import Mathlib.Data.Set.Card
import ProvenGraphcal.MapLiteral.CoverageCount

/-!
# What an accepted map literal covers

Accepted literals name every tuple of their axes once, refused ones are told what they miss, and an
accepted literal can always be laid out.
-/

namespace ProvenGraphcal.MapLiteral

open Checked (bind_eq_ok exists_of_forall₂_left forM_eq_ok mapM_eq_ok)
open List (forall_mem_cons getElem_mem length_map mem_filter mem_map mem_of_getElem?)

variable {N : Type}

/-- The keys of an entry name the tuple, axis by axis. -/
def NamesTuple (axes : List (MapLiteralAxis N)) (keys : NonEmpty (MapEntryKey N))
    (tuple : List IndexEntryKey) : Prop :=
  keys.items.map MapEntryKey.index = axes.map MapLiteralAxis.index ∧
    keys.items.map hirMapEntryKey = tuple ∧ IsTuple (axes.map MapLiteralAxis.entryKeys) tuple

/-- Entry `i` names the tuple. -/
def NamedBy (axes : List (MapLiteralAxis N)) (entries : List (NonEmpty (MapEntryKey N)))
    (tuple : List IndexEntryKey) (i : ℕ) : Prop :=
  ∃ keys, entries[i]? = some keys ∧ NamesTuple axes keys tuple

/-- The entries and the tuples of the product correspond one to one. -/
structure Covers (axes : List (MapLiteralAxis N)) (entries : List (NonEmpty (MapEntryKey N))) :
    Prop where
  named : ∀ keys ∈ entries, ∃ tuple, NamesTuple axes keys tuple
  once : ∀ tuple, IsTuple (axes.map MapLiteralAxis.entryKeys) tuple →
    ∃! i, NamedBy axes entries tuple i

/-! ## The examination -/

/-- What a successful examination has established. -/
structure Examines (registry : N → Option IndexKind) (entries : List (NonEmpty (MapEntryKey N)))
    (examined : Examined N) : Prop where
  axes : ∀ axis ∈ examined.axes, IsAxis registry axis
  indexes : ∀ keys ∈ entries,
    keys.items.map MapEntryKey.index = examined.axes.map MapLiteralAxis.index
  variants : VariantsOf examined.axes examined.variantKeys
  cardinality : checkedFromAxes examined.variantKeys = .ok examined.cardinality
  provided : List.Forall₂ (fun keys tuple => OnAxes examined.axes tuple ∧
    entryKeys tuple = keys.items.map hirMapEntryKey) entries examined.provided
  nodup : examined.provided.Nodup

variable {keys : NonEmpty (MapEntryKey N)}

theorem length_of_indexes {axes : List (MapLiteralAxis N)}
    (h : keys.items.map MapEntryKey.index = axes.map MapLiteralAxis.index) :
    axes.length = keys.items.length := by
  have hlength := congrArg List.length h
  rw [length_map, length_map] at hlength
  exact hlength.symm

theorem checkArity_eq_ok {arity : ℕ} :
    checkArity arity keys = .ok () ↔ keys.items.length = arity := by
  unfold checkArity
  split_ifs with h
  · exact iff_of_true rfl h
  · exact iff_of_false nofun h

section Examination

variable [DecidableEq N] {registry : N → Option IndexKind}
  {entries : List (NonEmpty (MapEntryKey N))} {examined : Examined N}

theorem examineEntries_cons {first : NonEmpty (MapEntryKey N)}
    {rest : List (NonEmpty (MapEntryKey N))} :
    examineEntries registry (first :: rest) = .ok examined ↔
      (∀ keys ∈ rest, keys.items.length = first.items.length) ∧
        first.items.mapM (axisOf registry) = .ok examined.axes ∧
        (∀ keys ∈ rest, checkIndexes examined.axes keys = .ok ()) ∧
        examined.axes.mapM MapLiteralAxis.variantKeys = .ok examined.variantKeys ∧
        checkedFromAxes examined.variantKeys = .ok examined.cardinality ∧
        providedTuples first.items.length examined.axes [] (first :: rest) =
          .ok examined.provided := by
  have harity : rest.forM (checkArity first.items.length) = .ok () ↔
      ∀ keys ∈ rest, keys.items.length = first.items.length :=
    forM_eq_ok.trans (forall₂_congr fun _ _ => checkArity_eq_ok)
  have hindexes (axes : List (MapLiteralAxis N)) : rest.forM (checkIndexes axes) = .ok () ↔
      ∀ keys ∈ rest, checkIndexes axes keys = .ok () :=
    forM_eq_ok
  unfold examineEntries
  dsimp only
  rw [← harity]
  constructor
  · intro h
    obtain ⟨⟨⟩, hlengths, h⟩ := bind_eq_ok.mp h
    obtain ⟨axes, haxes, h⟩ := bind_eq_ok.mp h
    obtain ⟨⟨⟩, hagree, h⟩ := bind_eq_ok.mp h
    obtain ⟨variantKeys, hvariants, h⟩ := bind_eq_ok.mp h
    obtain ⟨cardinality, hcardinality, h⟩ := bind_eq_ok.mp h
    obtain ⟨provided, hprovided, h⟩ := bind_eq_ok.mp h
    cases h
    exact ⟨hlengths, haxes, (hindexes axes).mp hagree, hvariants, hcardinality, hprovided⟩
  · rintro ⟨hlengths, haxes, hagree, hvariants, hcardinality, hprovided⟩
    rw [hlengths]
    show (first.items.mapM (axisOf registry) >>= _) = _
    rw [haxes]
    show (rest.forM (checkIndexes examined.axes) >>= _) = _
    rw [(hindexes examined.axes).mpr hagree]
    show (examined.axes.mapM MapLiteralAxis.variantKeys >>= _) = _
    rw [hvariants]
    show (checkedFromAxes examined.variantKeys >>= _) = _
    rw [hcardinality]
    show (providedTuples first.items.length examined.axes [] (first :: rest) >>= _) = _
    rw [hprovided]
    rfl

theorem examineEntries_eq_ok :
    examineEntries registry entries = .ok examined ↔
      entries ≠ [] ∧ Examines registry entries examined := by
  cases entries with
  | nil => exact iff_of_false nofun fun h => h.1 rfl
  | cons first rest =>
    rw [examineEntries_cons]
    have hprovided (hindexes : ∀ keys ∈ first :: rest, keys.items.map MapEntryKey.index =
        examined.axes.map MapLiteralAxis.index) :
        providedTuples first.items.length examined.axes [] (first :: rest) = .ok examined.provided ↔
          List.Forall₂ (fun keys tuple => OnAxes examined.axes tuple ∧
            entryKeys tuple = keys.items.map hirMapEntryKey) (first :: rest) examined.provided ∧
          examined.provided.Nodup := by
      rw [providedTuples_eq_ok List.nodup_nil]
      have htuples (new : List (List (MapLiteralVariantKey N))) :
          List.Forall₂ (fun keys tuple => entryTuple first.items.length examined.axes keys =
            .ok tuple) (first :: rest) new ↔
          List.Forall₂ (fun keys tuple => OnAxes examined.axes tuple ∧
            entryKeys tuple = keys.items.map hirMapEntryKey) (first :: rest) new := by
        constructor
        · exact fun h => ((List.forall₂_and_left _ _).mpr ⟨hindexes, h⟩).imp fun keys tuple hboth =>
            (entryTuple_eq_ok (length_of_indexes hboth.1)).mp hboth.2
        · exact fun h => ((List.forall₂_and_left _ _).mpr ⟨hindexes, h⟩).imp fun keys tuple hboth =>
            (entryTuple_eq_ok (length_of_indexes hboth.1)).mpr hboth.2
      constructor
      · rintro ⟨new, hnew, hresult, hnodup⟩
        rw [List.nil_append] at hresult hnodup
        rw [hresult]
        exact ⟨(htuples new).mp hnew, hnodup⟩
      · rintro ⟨hnew, hnodup⟩
        exact ⟨examined.provided, (htuples _).mpr hnew, rfl, hnodup⟩
    constructor
    · rintro ⟨hlengths, hfirst, hagree, hvariants, hcardinality, htuples⟩
      obtain ⟨hindex, haxes⟩ := mapM_axisOf.mp hfirst
      have hindexes : ∀ keys ∈ first :: rest, keys.items.map MapEntryKey.index =
          examined.axes.map MapLiteralAxis.index := by
        refine forall_mem_cons.mpr ⟨hindex, fun keys hkeys => ?_⟩
        have hlength := (length_of_indexes hindex).trans (hlengths keys hkeys).symm
        exact (checkIndexes_eq_ok haxes hlength).mp (hagree keys hkeys)
      obtain ⟨hforall, hnodup⟩ := (hprovided hindexes).mp htuples
      exact ⟨List.cons_ne_nil _ _, haxes, hindexes, mapM_eq_ok.mp hvariants, hcardinality,
        hforall, hnodup⟩
    · rintro ⟨-, h⟩
      have hindex := h.indexes first List.mem_cons_self
      have hlength := length_of_indexes hindex
      have hlengths (keys : NonEmpty (MapEntryKey N)) (hkeys : keys ∈ rest) :=
        length_of_indexes (h.indexes keys (List.mem_cons_of_mem _ hkeys))
      refine ⟨fun keys hkeys => (hlengths keys hkeys).symm.trans hlength,
        mapM_axisOf.mpr ⟨hindex, h.axes⟩, fun keys hkeys => ?_, mapM_eq_ok.mpr h.variants,
        h.cardinality, (hprovided h.indexes).mpr ⟨h.provided, h.nodup⟩⟩
      exact (checkIndexes_eq_ok h.axes (hlengths keys hkeys)).mpr
        (h.indexes keys (List.mem_cons_of_mem _ hkeys))

end Examination

namespace Examines

variable {registry : N → Option IndexKind} {entries : List (NonEmpty (MapEntryKey N))}
  {examined : Examined N}

section

variable (h : Examines registry entries examined)

include h

theorem cardinality_eq :
    examined.cardinality = (lengths examined.variantKeys).prod ∧ examined.cardinality < 2 ^ 64 :=
  checkedFromAxes_eq_ok h.cardinality

theorem nodup_variants : ∀ variants ∈ examined.variantKeys, variants.Nodup :=
  h.variants.nodup fun axis haxis => (h.axes axis haxis).nodup

theorem isTuple : ∀ tuple ∈ examined.provided, IsTuple examined.variantKeys tuple := by
  intro tuple htuple
  obtain ⟨keys, -, honAxes, -⟩ := Checked.exists_of_forall₂_right h.provided htuple
  exact h.variants.isTuple_iff.mpr honAxes

/-- An entry names a tuple when it provided it. -/
theorem namedBy_iff {tuple : List (MapLiteralVariantKey N)} (htuple : OnAxes examined.axes tuple)
    {i : ℕ} :
    NamedBy examined.axes entries (entryKeys tuple) i ↔ examined.provided[i]? = some tuple := by
  have hlength := h.provided.length_eq
  constructor
  · rintro ⟨keys, hkeys, -, hnames, -⟩
    obtain ⟨hlt, rfl⟩ := List.getElem?_eq_some_iff.mp hkeys
    have hlt' : i < examined.provided.length := hlength ▸ hlt
    have hentry := (List.forall₂_iff_get.mp h.provided).2 i hlt hlt'
    obtain ⟨honAxes, hentryKeys⟩ := hentry
    rw [List.getElem?_eq_getElem hlt']
    exact congrArg some (honAxes.ext htuple (hentryKeys.trans hnames))
  · intro hget
    obtain ⟨hlt', rfl⟩ := List.getElem?_eq_some_iff.mp hget
    have hlt : i < entries.length := hlength ▸ hlt'
    have hentry := (List.forall₂_iff_get.mp h.provided).2 i hlt hlt'
    refine ⟨entries[i], List.getElem?_eq_getElem hlt, h.indexes _ (getElem_mem hlt),
      hentry.2.symm, ?_⟩
    exact OnAxes.isTuple htuple

/-- No tuple is missing when the entries are as many as the tuples. -/
theorem covers_iff :
    examined.cardinality - examined.provided.length = 0 ↔ Covers examined.axes entries := by
  have hcount : examined.cardinality = (tuples examined.variantKeys).length := by
    rw [length_tuples]
    exact h.cardinality_eq.1
  have hsubperm : examined.provided.Subperm (tuples examined.variantKeys) :=
    List.subperm_of_subset h.nodup fun tuple htuple => mem_tuples.mpr (h.isTuple tuple htuple)
  rw [hcount, Nat.sub_eq_zero_iff_le]
  constructor
  · intro hle
    have hperm := hsubperm.perm_of_length_le hle
    refine ⟨fun keys hkeys => ?_, fun tuple htuple => ?_⟩
    · obtain ⟨tuple, -, honAxes, hnames⟩ := exists_of_forall₂_left h.provided hkeys
      exact ⟨entryKeys tuple, h.indexes keys hkeys, hnames.symm, OnAxes.isTuple honAxes⟩
    · obtain ⟨variants, honAxes, rfl⟩ := h.variants.exists_onAxes htuple
      have hmem := hperm.mem_iff.mpr (mem_tuples.mpr (h.variants.isTuple_iff.mpr honAxes))
      obtain ⟨i, hi⟩ := List.mem_iff_getElem?.mp hmem
      refine ⟨i, (h.namedBy_iff honAxes).mpr hi, fun j hj => ?_⟩
      have hj := (h.namedBy_iff honAxes).mp hj
      obtain ⟨hlt, -⟩ := List.getElem?_eq_some_iff.mp hj
      exact (List.getElem?_inj hlt h.nodup).mp (hj.trans hi.symm)
  · intro hcovers
    have hsubset : tuples examined.variantKeys ⊆ examined.provided := by
      intro tuple htuple
      have honAxes := h.variants.isTuple_iff.mp (mem_tuples.mp htuple)
      obtain ⟨i, hi, -⟩ := hcovers.once _ (OnAxes.isTuple honAxes)
      exact mem_of_getElem? ((h.namedBy_iff honAxes).mp hi)
    exact (List.subperm_of_subset (nodup_tuples h.nodup_variants) hsubset).length_le

end

end Examines

variable {key : MapEntryKey N} {axis : MapLiteralAxis N}

section Covering

variable {registry : N → Option IndexKind} {axes : List (MapLiteralAxis N)}
  {entries : List (NonEmpty (MapEntryKey N))}

/-- A key that names an entry of an axis has the category of all its entries. -/
theorem IsAxis.exists_variants (h : IsAxis registry axis) (hindex : key.index = axis.index)
    (hmem : hirMapEntryKey key ∈ axis.entryKeys) : ∃ variants, axis.variantKeys = .ok variants := by
  obtain ⟨-, kind, hkind, -, hkeys⟩ := h
  apply Checked.exists_mapM_eq_ok
  intro entry hentry
  rw [hkeys] at hmem hentry
  cases key with
  | indexVariant name variant =>
    unfold MapLiteralAxis.variantKey
    rw [← hindex]
    cases kind with
    | named variants nodup =>
      obtain ⟨label, -, rfl⟩ := mem_map.mp hentry
      exact ⟨_, rfl⟩
    | coordinate cardinality =>
      obtain ⟨position, -, hposition⟩ := mem_map.mp hmem
      cases hposition
    | finite size =>
      obtain ⟨position, -, hposition⟩ := mem_map.mp hmem
      cases hposition
    | requiredNamed => cases hmem
    | requiredCoordinate => cases hmem
  | finitePosition size position =>
    rw [← hindex] at hkind
    cases hkind
    obtain ⟨position, -, rfl⟩ := mem_map.mp hentry
    unfold MapLiteralAxis.variantKey
    rw [← hindex]
    exact ⟨_, rfl⟩

theorem exists_variantsOf (haxes : ∀ axis ∈ axes, IsAxis registry axis)
    {keys : List (MapEntryKey N)}
    (hindexes : keys.map MapEntryKey.index = axes.map MapLiteralAxis.index)
    (htuple : IsTuple (axes.map MapLiteralAxis.entryKeys) (keys.map hirMapEntryKey)) :
    ∃ variantKeys, VariantsOf axes variantKeys := by
  induction axes generalizing keys with
  | nil => exact ⟨[], .nil⟩
  | cons axis axes ih =>
    cases keys with
    | nil => cases hindexes
    | cons key keys =>
      obtain ⟨hindex, hindexes⟩ := List.cons.inj hindexes
      cases htuple with
      | cons hmem htuple =>
        obtain ⟨hhead, hrest⟩ := forall_mem_cons.mp haxes
        obtain ⟨variants, hvariants⟩ := hhead.exists_variants hindex hmem
        obtain ⟨variantKeys, hall⟩ := ih hrest hindexes htuple
        exact ⟨variants :: variantKeys, .cons hvariants hall⟩

/-- Entries without a repeated tuple provide distinct tuples. -/
theorem Covers.exists_provided {variantKeys : List (List (MapLiteralVariantKey N))}
    (h : Covers axes entries) (hvariants : VariantsOf axes variantKeys) :
    ∃ provided, List.Forall₂ (fun keys tuple => OnAxes axes tuple ∧
      entryKeys tuple = keys.items.map hirMapEntryKey) entries provided ∧ provided.Nodup := by
  have hexists : ∀ keys ∈ entries, ∃ tuple, OnAxes axes tuple ∧
      entryKeys tuple = keys.items.map hirMapEntryKey := by
    intro keys hkeys
    obtain ⟨tuple, -, rfl, htuple⟩ := h.named keys hkeys
    exact hvariants.exists_onAxes htuple
  choose! tupleOf honAxes hnames using hexists
  have hforall : List.Forall₂ (fun keys tuple => OnAxes axes tuple ∧
      entryKeys tuple = keys.items.map hirMapEntryKey) entries (entries.map tupleOf) := by
    rw [List.forall₂_map_right_iff, List.forall₂_same]
    exact fun keys hkeys => ⟨honAxes keys hkeys, hnames keys hkeys⟩
  refine ⟨entries.map tupleOf, hforall, ?_⟩
  rw [List.nodup_iff_getElem?_ne_getElem?]
  intro i j hij hj heq
  rw [length_map] at hj
  have hi : i < entries.length := hij.trans hj
  rw [List.getElem?_map, List.getElem?_map, List.getElem?_eq_getElem hi,
    List.getElem?_eq_getElem hj] at heq
  have hsame : tupleOf entries[i] = tupleOf entries[j] := Option.some.inj heq
  have hnamed (k : ℕ) (hk : k < entries.length) :
      NamedBy axes entries (entryKeys (tupleOf entries[k])) k := by
    have hmem := getElem_mem hk
    obtain ⟨tuple, hindexes, -, -⟩ := h.named _ hmem
    exact ⟨entries[k], List.getElem?_eq_getElem hk, hindexes, (hnames _ hmem).symm,
      OnAxes.isTuple (honAxes _ hmem)⟩
  obtain ⟨k, -, hunique⟩ := h.once _ (OnAxes.isTuple (honAxes _ (getElem_mem hj)))
  have hik := hunique i (hsame ▸ hnamed i hi)
  have hjk := hunique j (hnamed j hj)
  omega

/-- Entries that cover valid axes pass the examination. -/
theorem Covers.exists_examines (h : Covers axes entries)
    (haxes : ∀ axis ∈ axes, IsAxis registry axis) (hne : entries ≠ [])
    (hbound : entries.length < 2 ^ 63) :
    ∃ examined, Examines registry entries examined ∧ examined.axes = axes := by
  obtain ⟨first, hfirst⟩ := List.exists_mem_of_ne_nil _ hne
  obtain ⟨tuple, hindexes, rfl, htuple⟩ := h.named first hfirst
  obtain ⟨variantKeys, hvariants⟩ := exists_variantsOf haxes hindexes htuple
  obtain ⟨provided, hprovided, hnodup⟩ := h.exists_provided hvariants
  -- the tuples are provided, so there are no more of them than entries
  have hsubset : tuples variantKeys ⊆ provided := by
    intro tuple htuple
    have honAxes := hvariants.isTuple_iff.mp (mem_tuples.mp htuple)
    obtain ⟨i, ⟨keys, hkeys, -, hnames, -⟩, -⟩ := h.once _ (OnAxes.isTuple honAxes)
    obtain ⟨tuple', hmem', honAxes', hnames'⟩ :=
      exists_of_forall₂_left hprovided (mem_of_getElem? hkeys)
    rwa [honAxes.ext honAxes' (hnames.symm.trans hnames'.symm)]
  have hvariantsNodup := hvariants.nodup fun axis haxis => (haxes axis haxis).nodup
  have hle := (List.subperm_of_subset (nodup_tuples hvariantsNodup) hsubset).length_le
  rw [length_tuples, ← hprovided.length_eq] at hle
  have hpos : 0 < (lengths variantKeys).prod := by
    rw [hvariants.lengths_eq, ← length_tuples]
    exact List.length_pos_of_mem (mem_tuples.mpr htuple)
  have hcardinality := checkedFromAxes_of_fits hpos (show _ < 2 ^ 64 by omega)
  exact ⟨⟨axes, variantKeys, (lengths variantKeys).prod, provided⟩,
    ⟨haxes, fun keys hkeys => (h.named keys hkeys).choose_spec.1, hvariants, hcardinality,
      hprovided, hnodup⟩, rfl⟩

end Covering

section Decision

variable [DecidableEq N] {registry : N → Option IndexKind}
  {entries : Slice (NonEmpty (MapEntryKey N))} {axes : List (MapLiteralAxis N)}

theorem inferHirMapLiteral_eq_ok : inferHirMapLiteral registry entries = .ok axes ↔
    entries.val ≠ [] ∧ (∀ axis ∈ axes, IsAxis registry axis) ∧ Covers axes entries.val := by
  unfold inferHirMapLiteral
  constructor
  · intro h
    split at h
    next => cases h
    next examined hexamined =>
      obtain ⟨hne, hexamines⟩ := examineEntries_eq_ok.mp hexamined
      dsimp only at h
      split_ifs at h with hnone
      cases h
      exact ⟨hne, hexamines.axes, hexamines.covers_iff.mp hnone⟩
  · rintro ⟨hne, haxes, hcovers⟩
    obtain ⟨examined, hexamines, rfl⟩ := hcovers.exists_examines haxes hne entries.property
    rw [examineEntries_eq_ok.mpr ⟨hne, hexamines⟩]
    dsimp only
    rw [if_pos (hexamines.covers_iff.mpr hcovers)]

end Decision

/-! ## Missing tuples -/

section Missing

variable {registry : N → Option IndexKind} {entries : List (NonEmpty (MapEntryKey N))}
  {examined : Examined N}

/-- The tuples of the axes that no entry names. -/
def absentTuples (axes : List (MapLiteralAxis N)) (entries : List (NonEmpty (MapEntryKey N))) :
    Set (List IndexEntryKey) :=
  { tuple | IsTuple (axes.map MapLiteralAxis.entryKeys) tuple ∧
    ∀ i, ¬ NamedBy axes entries tuple i }

theorem Examines.mem_absentTuples (h : Examines registry entries examined)
    {tuple : List (MapLiteralVariantKey N)} (htuple : OnAxes examined.axes tuple) :
    entryKeys tuple ∈ absentTuples examined.axes entries ↔ tuple ∉ examined.provided := by
  constructor
  · intro habsent hmem
    obtain ⟨i, hi⟩ := List.mem_iff_getElem?.mp hmem
    exact habsent.2 i ((h.namedBy_iff htuple).mpr hi)
  · intro hnot
    refine ⟨OnAxes.isTuple htuple, fun i hi => ?_⟩
    exact hnot (mem_of_getElem? ((h.namedBy_iff htuple).mp hi))

variable [DecidableEq N]

/-- The missing count is the number of absent tuples. -/
theorem Examines.ncard_absentTuples (h : Examines registry entries examined) :
    (absentTuples examined.axes entries).ncard =
      examined.cardinality - examined.provided.length := by
  have hlength := length_absent h.nodup_variants h.nodup h.isTuple
  rw [← h.cardinality_eq.1] at hlength
  have honAxes : ∀ tuple ∈ (tuples examined.variantKeys).filter (· ∉ examined.provided),
      OnAxes examined.axes tuple := fun tuple htuple =>
    h.variants.isTuple_iff.mp (mem_tuples.mp (List.mem_of_mem_filter htuple))
  have hset : absentTuples examined.axes entries =
      ↑(((tuples examined.variantKeys).filter (· ∉ examined.provided)).map entryKeys).toFinset := by
    ext keys
    rw [List.coe_toFinset, Set.mem_ofPred_eq, mem_map]
    constructor
    · intro hkeys
      obtain ⟨tuple, htuple, rfl⟩ := h.variants.exists_onAxes hkeys.1
      refine ⟨tuple, ?_, rfl⟩
      rw [mem_filter, decide_eq_true_eq, mem_tuples]
      exact ⟨h.variants.isTuple_iff.mpr htuple, (h.mem_absentTuples htuple).mp hkeys⟩
    · rintro ⟨tuple, htuple, rfl⟩
      refine (h.mem_absentTuples (honAxes tuple htuple)).mpr ?_
      exact of_decide_eq_true (mem_filter.mp htuple).2
  have hnodup : (((tuples examined.variantKeys).filter
      (· ∉ examined.provided)).map entryKeys).Nodup := by
    refine ((nodup_tuples h.nodup_variants).filter _).map_on
      fun tuple htuple tuple' htuple' heq => ?_
    exact (honAxes tuple htuple).ext (honAxes tuple' htuple') heq
  rw [hset, Set.ncard_coe_finset, List.toFinset_card_of_nodup hnodup, length_map, hlength]

/-- The search finds an absent tuple whenever one is missing. -/
theorem Examines.firstMissing (h : Examines registry entries examined)
    (hmissing : examined.provided.length < examined.cardinality) :
    ∃ tuple, firstMissingMapTuple examined.variantKeys examined.provided = some (some tuple) ∧
      OnAxes examined.axes tuple ∧ entryKeys tuple ∈ absentTuples examined.axes entries := by
  obtain ⟨hprod, hfits⟩ := h.cardinality_eq
  rw [hprod] at hmissing hfits
  obtain ⟨tuple, hfound, htuple, hnot⟩ :=
    firstMissingMapTuple_spec h.nodup_variants hfits hmissing
  have honAxes := h.variants.isTuple_iff.mp htuple
  exact ⟨tuple, hfound, honAxes, (h.mem_absentTuples honAxes).mpr hnot⟩

/-- What a report says about the absent tuples. -/
def Reports (axes : List (MapLiteralAxis N)) (entries : List (NonEmpty (MapEntryKey N))) :
    Fault (MapCoverageError N) → Prop
  | .error (.missingVariants index missing) => ∃ axis, axes = [axis] ∧ index = axis.index ∧
      missing.Nodup ∧ missing.length = (absentTuples axes entries).ncard ∧
      ∀ key, key ∈ missing ↔ [key] ∈ absentTuples axes entries
  | .error (.nonExhaustiveMapLiteral missingCount witness) =>
      missingCount = (absentTuples axes entries).ncard ∧
        ∃ tuple, witness = tuple.map MapLiteralVariantKey.coordinate ∧ OnAxes axes tuple ∧
          entryKeys tuple ∈ absentTuples axes entries
  | _ => False

omit [DecidableEq N] in
theorem onAxes_singleton {variant : MapLiteralVariantKey N} :
    OnAxes [axis] [variant] ↔ axis.Has variant := by
  rw [OnAxes, List.forall₂_cons]
  exact and_iff_left .nil

theorem Examines.reports (h : Examines registry entries examined)
    (hmissing : examined.provided.length < examined.cardinality) :
    Reports examined.axes entries
      (reportMissing examined (examined.cardinality - examined.provided.length)) := by
  unfold reportMissing
  split
  next axis keys haxes hkeys =>
    have hvariants := h.variants
    rw [haxes, hkeys, VariantsOf, List.forall₂_cons] at hvariants
    obtain ⟨hvariants, -⟩ := hvariants
    have hhas (variant : MapLiteralVariantKey N) : variant ∈ keys ↔ axis.Has variant :=
      MapLiteralAxis.mem_variantKeys hvariants
    have habsent (variant : MapLiteralVariantKey N) (hvariant : axis.Has variant) :
        [variant.entryKey] ∈ absentTuples examined.axes entries ↔
          [variant] ∉ examined.provided := by
      have honAxes : OnAxes examined.axes [variant] := haxes ▸ onAxes_singleton.mpr hvariant
      exact h.mem_absentTuples honAxes
    have hmem (key : IndexEntryKey) :
        key ∈ (keys.filter fun variant => [variant] ∉ examined.provided).map
          MapLiteralVariantKey.entryKey ↔ [key] ∈ absentTuples examined.axes entries := by
      rw [mem_map]
      constructor
      · rintro ⟨variant, hvariant, rfl⟩
        rw [mem_filter, decide_eq_true_eq] at hvariant
        exact (habsent variant ((hhas variant).mp hvariant.1)).mpr hvariant.2
      · intro hkey
        have htuple := hkey.1
        rw [haxes] at htuple
        cases htuple with
        | cons hkeyMem _ =>
          rw [← MapLiteralAxis.map_entryKey_variantKeys hvariants] at hkeyMem
          obtain ⟨variant, hvariant, rfl⟩ := mem_map.mp hkeyMem
          refine ⟨variant, ?_, rfl⟩
          rw [mem_filter, decide_eq_true_eq]
          exact ⟨hvariant, (habsent variant ((hhas variant).mp hvariant)).mp hkey⟩
    have hnodup : ((keys.filter fun variant => [variant] ∉ examined.provided).map
        MapLiteralVariantKey.entryKey).Nodup := by
      refine List.Nodup.sublist (List.filter_sublist.map _) ?_
      rw [MapLiteralAxis.map_entryKey_variantKeys hvariants]
      exact (h.axes axis (haxes ▸ List.mem_singleton.mpr rfl)).nodup
    refine ⟨axis, haxes, rfl, hnodup, ?_, hmem⟩
    -- the absent tuples are the singletons of the missing keys
    have hset : absentTuples examined.axes entries =
        ↑(((keys.filter fun variant => [variant] ∉ examined.provided).map
          MapLiteralVariantKey.entryKey).map fun key => [key]).toFinset := by
      ext tuple
      rw [List.coe_toFinset, Set.mem_ofPred_eq, mem_map]
      constructor
      · intro htuple
        have hlength := htuple.1.length_eq
        rw [haxes] at hlength
        obtain ⟨key, rfl⟩ := List.length_eq_one_iff.mp hlength.symm
        exact ⟨key, (hmem key).mpr htuple, rfl⟩
      · rintro ⟨key, hkey, rfl⟩
        exact (hmem key).mp hkey
    have hsingle := hnodup.map fun key key' (heq : [key] = [key']) => (List.cons.inj heq).1
    rw [hset, Set.ncard_coe_finset, List.toFinset_card_of_nodup hsingle]
    exact (length_map _).symm
  next =>
    obtain ⟨tuple, hfound, honAxes, habsent⟩ := h.firstMissing hmissing
    rw [hfound]
    exact ⟨h.ncard_absentTuples.symm, tuple, rfl, honAxes, habsent⟩

end Missing

variable {tuple : List IndexEntryKey}

section Layout

variable {registry : N → Option IndexKind} {axes : List (MapLiteralAxis N)}
  {layoutAxes : List (IndexAxis N)}

/-- The concrete axes have the indexes and keys of the checked ones. -/
abbrev LaidOn (axes : List (MapLiteralAxis N)) (layoutAxes : List (IndexAxis N)) : Prop :=
  List.Forall₂ (fun axis layoutAxis => layoutAxis.index = axis.index ∧
    layoutAxis.keys.items = axis.entryKeys) axes layoutAxes

theorem exists_laidOn (haxes : ∀ axis ∈ axes, IsAxis registry axis)
    (hne : ∀ axis ∈ axes, axis.entryKeys ≠ []) :
    ∃ layoutAxes, axes.mapM (fun axis => concreteAxis registry axis.index) = some layoutAxes ∧
      LaidOn axes layoutAxes := by
  induction axes with
  | nil => exact ⟨[], rfl, .nil⟩
  | cons axis axes ih =>
    obtain ⟨⟨-, kind, hkind, hcoordinate, hkeys⟩, haxes⟩ := forall_mem_cons.mp haxes
    obtain ⟨hnonempty, hne⟩ := forall_mem_cons.mp hne
    obtain ⟨layoutAxes, hmap, hlaid⟩ := ih haxes hne
    rw [hkeys] at hnonempty
    have hconcrete : concreteAxis registry axis.index =
        some ⟨axis.index, ⟨kind.entryKeys, hnonempty⟩, kind.nodup_entryKeys⟩ := by
      rw [concreteAxis, hkind, Option.bind_some, IndexAxis.fromConcrete, dif_neg hnonempty,
        if_neg (Bool.eq_false_iff.mp hcoordinate)]
    refine ⟨⟨axis.index, ⟨kind.entryKeys, hnonempty⟩, kind.nodup_entryKeys⟩ :: layoutAxes, ?_,
      .cons ⟨rfl, hkeys.symm⟩ hlaid⟩
    rw [List.mapM_cons, hconcrete, Option.bind_eq_bind, Option.bind_some, hmap]
    rfl

theorem names_iff {layoutAxis : IndexAxis N} (hindex : key.index = layoutAxis.index)
    {named : IndexEntryKey} :
    key.Names layoutAxis named ↔ hirMapEntryKey key = named := by
  cases key with
  | indexVariant index variant =>
    constructor
    · rintro ⟨⟩
      rfl
    · rintro rfl
      exact .variant hindex.symm
  | finitePosition size position =>
    constructor
    · rintro ⟨⟩
      rfl
    · rintro rfl
      exact .position

theorem LaidOn.namesAll_iff (h : LaidOn axes layoutAxes) {keys : List (MapEntryKey N)}
    (hindexes : keys.map MapEntryKey.index = axes.map MapLiteralAxis.index) :
    NamesAll layoutAxes keys tuple ↔
      keys.map hirMapEntryKey = tuple ∧ IsTuple (axes.map MapLiteralAxis.entryKeys) tuple := by
  induction h generalizing keys tuple with
  | nil =>
    cases List.map_eq_nil_iff.mp hindexes
    constructor
    · rintro ⟨⟩
      exact ⟨rfl, .nil⟩
    · rintro ⟨rfl, -⟩
      exact .nil
  | @cons axis layoutAxis axes layoutAxes haxis _ ih =>
    cases keys with
    | nil => cases hindexes
    | cons key keys =>
      obtain ⟨hindex, hindexes⟩ := List.cons.inj hindexes
      have hnames (named : IndexEntryKey) :
          key.Names layoutAxis named ↔ hirMapEntryKey key = named :=
        names_iff (hindex.trans haxis.1.symm)
      constructor
      · intro hall
        cases hall with
        | cons names mem rest =>
          obtain ⟨hkeys, htuple⟩ := (ih hindexes).mp rest
          exact ⟨congrArg₂ List.cons ((hnames _).mp names) hkeys, .cons (haxis.2 ▸ mem) htuple⟩
      · rintro ⟨rfl, htuple⟩
        cases htuple with
        | cons mem htuple =>
          exact .cons ((hnames _).mpr rfl) (haxis.2 ▸ mem) ((ih hindexes).mpr ⟨rfl, htuple⟩)

theorem LaidOn.isCombination_iff (h : LaidOn axes layoutAxes) :
    IsCombination layoutAxes tuple ↔ IsTuple (axes.map MapLiteralAxis.entryKeys) tuple := by
  induction h generalizing tuple with
  | nil =>
    rw [List.map_nil, IsCombination, IsTuple, List.forall₂_nil_left_iff,
      List.forall₂_nil_left_iff]
  | cons haxis _ ih =>
    rw [List.map_cons, IsCombination, IsTuple, List.forall₂_cons_left_iff,
      List.forall₂_cons_left_iff]
    simp only [haxis.2, ih]

variable [DecidableEq N]

/-- Covering entries are laid out on their axes. -/
theorem Covers.exists_layout {entries : Slice (NonEmpty (MapEntryKey N))}
    (h : Covers axes entries.val) (hlaid : LaidOn axes layoutAxes) :
    ∃ layout, MapLayout.tryNew layoutAxes entries = .ok layout := by
  have hnames (keys : NonEmpty (MapEntryKey N)) (hkeys : keys ∈ entries.val)
      (tuple : List IndexEntryKey) :
      NamesAll layoutAxes keys.items tuple ↔ NamesTuple axes keys tuple := by
    obtain ⟨_, hindexes, -⟩ := h.named keys hkeys
    rw [hlaid.namesAll_iff hindexes]
    exact ⟨fun h => ⟨hindexes, h⟩, And.right⟩
  rw [tryNew_isOk_iff]
  constructor
  · intro keys hkeys
    obtain ⟨tuple, htuple⟩ := h.named keys hkeys
    exact ⟨tuple, (hnames keys hkeys tuple).mpr htuple⟩
  · intro tuple htuple
    have hentry (i : ℕ) : EntryNames layoutAxes entries.val i tuple ↔
        NamedBy axes entries.val tuple i := by
      refine exists_congr fun keys => and_congr_right fun hkeys => ?_
      exact hnames keys (mem_of_getElem? hkeys) tuple
    simp only [hentry]
    exact h.once tuple (hlaid.isCombination_iff.mp htuple)

omit [DecidableEq N] in
/-- Axes that a tuple names are not empty. -/
theorem ne_nil_of_isTuple (h : IsTuple (axes.map MapLiteralAxis.entryKeys) tuple) :
    ∀ axis ∈ axes, axis.entryKeys ≠ [] := by
  intro axis haxis
  rw [IsTuple, List.forall₂_map_left_iff] at h
  obtain ⟨key, -, hkey⟩ := exists_of_forall₂_left h haxis
  exact List.ne_nil_of_mem hkey

end Layout

/-- A literal is accepted when its entries and the tuples of its axes correspond one to one, and is
then laid out; otherwise the report is exact, and the search for its witness finds one. -/
theorem map_literal_coverage [DecidableEq N] (registry : N → Option IndexKind)
    (entries : Slice (NonEmpty (MapEntryKey N))) :
    (∀ axes, inferHirMapLiteral registry entries = .ok axes ↔
      entries.val ≠ [] ∧ (∀ axis ∈ axes, IsAxis registry axis) ∧ Covers axes entries.val) ∧
    (∀ examined, examineEntries registry entries.val = .ok examined →
      examined.provided.length < examined.cardinality →
      (∃ tuple, firstMissingMapTuple examined.variantKeys examined.provided = some (some tuple) ∧
        OnAxes examined.axes tuple ∧ entryKeys tuple ∈ absentTuples examined.axes entries.val) ∧
      ∃ fault, inferHirMapLiteral registry entries = .error fault ∧
        Reports examined.axes entries.val fault) ∧
    (∀ axes, inferHirMapLiteral registry entries = .ok axes →
      ∃ layoutAxes, axes.mapM (fun axis => concreteAxis registry axis.index) = some layoutAxes ∧
        ∃ layout, MapLayout.tryNew layoutAxes entries = .ok layout) := by
  refine ⟨fun axes => inferHirMapLiteral_eq_ok, fun examined hexamined hmissing => ?_,
    fun axes haccepted => ?_⟩
  · have hexamines := (examineEntries_eq_ok.mp hexamined).2
    refine ⟨hexamines.firstMissing hmissing, _, ?_, hexamines.reports hmissing⟩
    unfold inferHirMapLiteral
    rw [hexamined]
    dsimp only
    rw [if_neg (by omega)]
  · obtain ⟨hne, haxes, hcovers⟩ := inferHirMapLiteral_eq_ok.mp haccepted
    obtain ⟨first, hfirst⟩ := List.exists_mem_of_ne_nil _ hne
    obtain ⟨tuple, -, -, htuple⟩ := hcovers.named first hfirst
    obtain ⟨layoutAxes, hmap, hlaid⟩ := exists_laidOn haxes (ne_nil_of_isTuple htuple)
    exact ⟨layoutAxes, hmap, hcovers.exists_layout hlaid⟩

end ProvenGraphcal.MapLiteral
