import ProvenGraphcal.MapLiteral.MapLayout

/-!
# Layouts cover every combination of keys once
-/

namespace ProvenGraphcal.MapLiteral

open RowMajor

variable {N : Type}

/-! ## Keys and positions -/

variable {axis : IndexAxis N} {d : ℕ}

theorem IndexAxis.position_eq_some {key : IndexEntryKey} :
    axis.position key = some d ↔ axis.keys.items[d]? = some key := by
  rw [IndexAxis.position, List.idxOf?_eq_some_iff]
  constructor
  · rintro ⟨hd, hkey, -⟩
    rw [List.getElem?_eq_getElem hd, hkey]
  · intro h
    obtain ⟨hd, hkey⟩ := List.getElem?_eq_some_iff.mp h
    refine ⟨hd, hkey, fun j hj heq => ?_⟩
    rw [← hkey] at heq
    have hindex := (axis.nodup.getElem_inj_iff).mp heq
    omega

variable {key : MapEntryKey N}

theorem MapEntryKey.entry_eq_some [DecidableEq N] {named : IndexEntryKey} :
    key.entry axis = some named ↔ key.Names axis named := by
  constructor
  · intro h
    cases key with
    | finitePosition size p =>
      cases h
      exact .position
    | indexVariant index variant =>
      rw [MapEntryKey.entry] at h
      split_ifs at h with hindex
      cases h
      refine .variant ?_
      cases haxis : axis.index with
      | declared resolved =>
        rw [haxis] at hindex
        rw [Option.some.inj hindex]
      | finite size =>
        rw [haxis] at hindex
        cases hindex
  · intro h
    cases h with
    | position => rfl
    | variant declared =>
      rw [MapEntryKey.entry, declared]
      exact if_pos rfl

theorem position_eq_ok [DecidableEq N] :
    position axis key = .ok d ↔
      ∃ named, key.Names axis named ∧ axis.keys.items[d]? = some named := by
  have hbind : position axis key = .ok d ↔ (key.entry axis).bind axis.position = some d := by
    unfold position
    split
    next p hp => rw [hp, Except.ok.injEq, Option.some.injEq]
    next hp =>
      rw [hp]
      exact ⟨nofun, nofun⟩
  rw [hbind, Option.bind_eq_some_iff]
  simp only [MapEntryKey.entry_eq_some, IndexAxis.position_eq_some]

/-- The keys at given positions of the axes. -/
inductive KeysAt : List (IndexAxis N) → List ℕ → List IndexEntryKey → Prop
  | nil : KeysAt [] [] []
  | cons {axis : IndexAxis N} {axes : List (IndexAxis N)} {d : ℕ} {digits : List ℕ}
      {key : IndexEntryKey} {keys : List IndexEntryKey} (at_ : axis.keys.items[d]? = some key)
      (rest : KeysAt axes digits keys) : KeysAt (axis :: axes) (d :: digits) (key :: keys)

section KeysAt

variable {axes : List (IndexAxis N)} {digits digits' : List ℕ} {keys keys' : List IndexEntryKey}

section

variable (h : KeysAt axes digits keys)

include h

theorem KeysAt.within : Within (axes.map IndexAxis.len) digits := by
  induction h with
  | nil => exact .nil
  | cons hkey _ ih => exact .cons (List.getElem?_eq_some_iff.mp hkey).1 ih

theorem KeysAt.isCombination : IsCombination axes keys := by
  induction h with
  | nil => exact .nil
  | cons hkey _ ih => exact .cons (List.mem_of_getElem? hkey) ih

theorem KeysAt.keys_unique (h' : KeysAt axes digits keys') : keys = keys' := by
  induction h generalizing keys' with
  | nil =>
    cases h'
    rfl
  | cons hkey _ ih =>
    cases h' with
    | cons hkey' h' => rw [Option.some.inj (hkey.symm.trans hkey'), ih h']

end

theorem exists_keysAt (h : Within (axes.map IndexAxis.len) digits) :
    ∃ keys, KeysAt axes digits keys := by
  induction axes generalizing digits with
  | nil =>
    cases h
    exact ⟨[], .nil⟩
  | cons axis axes ih =>
    cases h with
    | cons hd h =>
      obtain ⟨keys, hkeys⟩ := ih h
      exact ⟨_, .cons (List.getElem?_eq_getElem hd) hkeys⟩

theorem exists_isCombination (axes : List (IndexAxis N)) :
    ∃ combination, IsCombination axes combination := by
  induction axes with
  | nil => exact ⟨[], .nil⟩
  | cons axis axes ih =>
    obtain ⟨keys, hkeys⟩ := ih
    obtain ⟨key, hkey⟩ := List.exists_mem_of_ne_nil _ axis.keys.nonempty
    exact ⟨key :: keys, .cons hkey hkeys⟩

theorem exists_digits (h : IsCombination axes keys) : ∃ digits, KeysAt axes digits keys := by
  induction h with
  | nil => exact ⟨[], .nil⟩
  | cons hkey _ ih =>
    obtain ⟨digits, hdigits⟩ := ih
    obtain ⟨d, hd⟩ := List.mem_iff_getElem?.mp hkey
    exact ⟨d :: digits, .cons hd hdigits⟩

end KeysAt

section NamesAll

variable {axes : List (IndexAxis N)} {keys : List (MapEntryKey N)}
  {combination combination' : List IndexEntryKey}

theorem NamesAll.isCombination (h : NamesAll axes keys combination) :
    IsCombination axes combination := by
  induction h with
  | nil => exact .nil
  | cons _ hmem _ ih => exact .cons hmem ih

theorem NamesAll.length_eq (h : NamesAll axes keys combination) : keys.length = axes.length := by
  induction h with
  | nil => rfl
  | cons _ _ _ ih => rw [List.length_cons, List.length_cons, ih]

/-- The positions of an entry's keys are those of the combination that it names. -/
theorem mapM_position_eq_ok [DecidableEq N] {digits : List ℕ} (hlength : keys.length = axes.length) :
    ((axes.zip keys).mapM fun item => position item.1 item.2) = .ok digits ↔
      ∃ combination, NamesAll axes keys combination ∧ KeysAt axes digits combination := by
  rw [Checked.mapM_eq_ok]
  induction axes generalizing keys digits with
  | nil =>
    rw [List.zip_nil_left, List.forall₂_nil_left_iff]
    cases List.length_eq_zero_iff.mp hlength
    constructor
    · rintro rfl
      exact ⟨[], .nil, .nil⟩
    · rintro ⟨_, _, h⟩
      cases h
      rfl
  | cons axis axes ih =>
    cases keys with
    | nil => cases hlength
    | cons key keys =>
      have hlength : keys.length = axes.length := Nat.succ.inj hlength
      rw [List.zip_cons_cons, List.forall₂_cons_left_iff]
      constructor
      · rintro ⟨d, rest, hd, hrest, rfl⟩
        obtain ⟨named, hnames, hat⟩ := position_eq_ok.mp hd
        obtain ⟨combination, hall, hkeys⟩ := (ih hlength).mp hrest
        exact ⟨named :: combination, .cons hnames (List.mem_of_getElem? hat) hall,
          .cons hat hkeys⟩
      · rintro ⟨combination, hall, hkeys⟩
        cases hall with
        | cons hnames _ hall =>
          cases hkeys with
          | cons hat hkeys =>
            exact ⟨_, _, position_eq_ok.mpr ⟨_, hnames, hat⟩,
              (ih hlength).mpr ⟨_, hall, hkeys⟩, rfl⟩

end NamesAll

variable {placement : Placement} {i : ℕ}

section Placements

variable [DecidableEq N] {axes : List (IndexAxis N)} {entries : List (NonEmpty (MapEntryKey N))}
  {keyed : List (List ℕ × Placement)}

/-- The entry at a written position names the combination. -/
def EntryNames (axes : List (IndexAxis N)) (entries : List (NonEmpty (MapEntryKey N))) (i : ℕ)
    (combination : List IndexEntryKey) : Prop :=
  ∃ keys, entries[i]? = some keys ∧ NamesAll axes keys.items combination

variable {digits : List ℕ}

theorem keyedEntry_eq_ok {keys : NonEmpty (MapEntryKey N)} :
    keyedEntry axes (keys, i) = .ok (digits, placement) ↔
      (∃ combination, NamesAll axes keys.items combination ∧ KeysAt axes digits combination) ∧
        placement = ⟨i, flatIndex (axes.map IndexAxis.len) digits⟩ := by
  unfold keyedEntry
  dsimp only
  split_ifs with hlength
  · constructor
    · intro h
      cases h
    · rintro ⟨⟨combination, hall, -⟩, -⟩
      exact absurd hall.length_eq hlength
  · rw [← mapM_position_eq_ok (not_not.mp hlength), Checked.bind_eq_ok]
    constructor
    · rintro ⟨digits', hdigits, h⟩
      cases h
      exact ⟨hdigits, rfl⟩
    · rintro ⟨hdigits, rfl⟩
      exact ⟨digits, hdigits, rfl⟩

section

variable (h : entries.zipIdx.mapM (keyedEntry axes) = .ok keyed)

include h

/-- What is at a position of the keyed entries. -/
theorem getElem?_keyed :
    keyed[i]? = some (digits, placement) ↔
      ∃ keys, entries[i]? = some keys ∧ keyedEntry axes (keys, i) = .ok (digits, placement) := by
  have hforall := Checked.mapM_eq_ok.mp h
  constructor
  · intro hi
    obtain ⟨hlt, hget⟩ := List.getElem?_eq_some_iff.mp hi
    have hlt' : i < entries.zipIdx.length := hforall.length_eq ▸ hlt
    have hentry := List.forall₂_iff_get.mp hforall |>.2 i hlt' hlt
    rw [List.length_zipIdx] at hlt'
    refine ⟨entries[i], List.getElem?_eq_getElem hlt', ?_⟩
    simpa [hget] using hentry
  · rintro ⟨keys, hkeys, hok⟩
    obtain ⟨hlt, rfl⟩ := List.getElem?_eq_some_iff.mp hkeys
    have hlt' : i < keyed.length := by
      rw [← hforall.length_eq, List.length_zipIdx]
      exact hlt
    have hentry := List.forall₂_iff_get.mp hforall |>.2 i (by rwa [List.length_zipIdx]) hlt'
    have hsame : Except.ok (digits, placement) = Except.ok (ε := MapLayoutError N) keyed[i] := by
      rw [← hok]
      simpa using hentry
    rw [List.getElem?_eq_getElem hlt', ← Except.ok.inj hsame]

/-- The cell of an entry is the position of the combination that it names. -/
theorem getElem?_cells {combination : List IndexEntryKey} (hkeys : KeysAt axes digits combination) :
    ((keyed.map Prod.snd).map Placement.cell)[i]? =
        some (flatIndex (axes.map IndexAxis.len) digits) ↔ EntryNames axes entries i combination := by
  rw [List.map_map, List.getElem?_map, Option.map_eq_some_iff]
  constructor
  · rintro ⟨⟨digits', placement⟩, hi, hcell⟩
    obtain ⟨keys, hentry, hok⟩ := (getElem?_keyed h).mp hi
    obtain ⟨⟨combination', hall, hkeys'⟩, rfl⟩ := keyedEntry_eq_ok.mp hok
    have hdigits : digits' = digits := flatIndex_injective hkeys'.within hkeys.within hcell
    rw [hdigits] at hkeys'
    rw [hkeys'.keys_unique hkeys] at hall
    exact ⟨keys, hentry, hall⟩
  · rintro ⟨keys, hentry, hall⟩
    exact ⟨_, (getElem?_keyed h).mpr ⟨keys, hentry, keyedEntry_eq_ok.mpr ⟨⟨_, hall, hkeys⟩, rfl⟩⟩,
      rfl⟩

theorem cells_lt :
    ∀ cell ∈ (keyed.map Prod.snd).map Placement.cell,
      cell < (axes.map IndexAxis.len).prod := by
  intro cell hcell
  rw [List.map_map] at hcell
  obtain ⟨⟨digits, placement⟩, hmem, rfl⟩ := List.mem_map.mp hcell
  obtain ⟨i, hi⟩ := List.mem_iff_getElem?.mp hmem
  obtain ⟨keys, -, hok⟩ := (getElem?_keyed h).mp hi
  obtain ⟨⟨combination, -, hkeys⟩, rfl⟩ := keyedEntry_eq_ok.mp hok
  exact flatIndex_lt hkeys.within

/-- No cell of an entry leaves the flat buffer. -/
theorem exists_markCells :
    ∃ count, markCells (List.replicate (axes.map IndexAxis.len).prod false)
      ((keyed.map Prod.snd).map Placement.cell) = some count := by
  apply markCells_isSome
  rw [List.length_replicate]
  exact cells_lt h

/-- All cells are filled once when every combination is named once. -/
theorem cells_perm_iff :
    ((keyed.map Prod.snd).map Placement.cell).Perm (List.range (axes.map IndexAxis.len).prod) ↔
      ∀ combination, IsCombination axes combination →
        ∃! i, EntryNames axes entries i combination := by
  rw [perm_range_iff (cells_lt h)]
  constructor
  · intro hunique combination hcombination
    obtain ⟨digits, hkeys⟩ := exists_digits hcombination
    have hcell := hunique _ (flatIndex_lt hkeys.within)
    simpa only [getElem?_cells h hkeys] using hcell
  · intro hunique cell hcell
    obtain ⟨digits, hwithin, rfl⟩ := exists_flatIndex hcell
    obtain ⟨combination, hkeys⟩ := exists_keysAt hwithin
    have hcombination := hunique combination hkeys.isCombination
    simpa only [getElem?_cells h hkeys] using hcombination

end

end Placements

section Acceptance

variable [DecidableEq N] {axes : List (IndexAxis N)} {entries : Slice (NonEmpty (MapEntryKey N))}
  {layout : MapLayout N}

/-- What an accepted layout was built from. -/
theorem tryNew_eq_ok (h : MapLayout.tryNew axes entries = .ok layout) :
    layout.axes.items = axes ∧ ∃ keyed, entries.val.zipIdx.mapM (keyedEntry axes) = .ok keyed ∧
      layout.placements = sortGroups (axes.length - 1) keyed := by
  unfold MapLayout.tryNew at h
  split at h
  next => cases h
  next axes' haxes =>
    rw [NonEmpty.tryFromVec_eq_some] at haxes
    subst haxes
    dsimp only at h
    split_ifs at h
    split at h
    next => cases h
    next keyed hkeyed =>
      split at h
      next => cases h
      next unique hunique =>
        split_ifs at h
        cases h
        exact ⟨rfl, keyed, hkeyed, rfl⟩

variable {keyed : List (List ℕ × Placement)}

/-- Cells that are filled once are accepted. -/
theorem exists_tryNew_eq_ok (haxes : axes ≠ [])
    (hkeyed : entries.val.zipIdx.mapM (keyedEntry axes) = .ok keyed)
    (hperm : ((keyed.map Prod.snd).map Placement.cell).Perm
      (List.range (axes.map IndexAxis.len).prod)) :
    ∃ layout, MapLayout.tryNew axes entries = .ok layout := by
  have hlength : ((keyed.map Prod.snd).map Placement.cell).length =
      (axes.map IndexAxis.len).prod := by
    rw [hperm.length_eq, List.length_range]
  have hentries : ((keyed.map Prod.snd).map Placement.cell).length = entries.val.length := by
    rw [List.length_map, List.length_map, ← (Checked.mapM_eq_ok.mp hkeyed).length_eq,
      List.length_zipIdx]
  obtain ⟨count, hcount⟩ := exists_markCells hkeyed
  have hall := (markCells_fresh hcount).mpr (hperm.nodup_iff.mpr List.nodup_range)
  unfold MapLayout.tryNew
  split
  next hnone => exact absurd (NonEmpty.tryFromVec_eq_none.mp hnone) haxes
  next axes' haxes' =>
    rw [NonEmpty.tryFromVec_eq_some] at haxes'
    subst haxes'
    have hfits := entries.property
    rw [if_neg (by omega)]
    split
    next error herror => exact nomatch herror.symm.trans hkeyed
    next keyed' hkeyed' =>
      cases hkeyed.symm.trans hkeyed'
      split
      next hnone => exact nomatch hnone.symm.trans hcount
      next unique hunique =>
        cases hcount.symm.trans hunique
        rw [dif_pos ⟨hall, hall.trans hlength⟩]
        exact ⟨_, rfl⟩

theorem exists_keyed (h : ∀ keys ∈ entries.val, ∃ combination, NamesAll axes keys.items combination) :
    ∃ keyed, entries.val.zipIdx.mapM (keyedEntry axes) = .ok keyed := by
  have hentry : ∀ item ∈ entries.val.zipIdx, ∃ b, keyedEntry axes item = .ok b := by
    rintro ⟨keys, i⟩ hitem
    obtain ⟨combination, hall⟩ := h keys (List.fst_mem_of_mem_zipIdx hitem)
    obtain ⟨digits, hkeys⟩ := exists_digits hall.isCombination
    exact ⟨_, keyedEntry_eq_ok.mpr ⟨⟨combination, hall, hkeys⟩, rfl⟩⟩
  exact Checked.exists_mapM_eq_ok hentry

theorem exists_combination (hkeyed : entries.val.zipIdx.mapM (keyedEntry axes) = .ok keyed) :
    ∀ keys ∈ entries.val, ∃ combination, NamesAll axes keys.items combination := by
  intro keys hkeys
  obtain ⟨i, hi⟩ := List.mem_iff_getElem?.mp hkeys
  obtain ⟨hlt, -⟩ := List.getElem?_eq_some_iff.mp hi
  have hlt' : i < keyed.length := by
    rw [← (Checked.mapM_eq_ok.mp hkeyed).length_eq, List.length_zipIdx]
    exact hlt
  obtain ⟨keys', hkeys', hok⟩ := (getElem?_keyed hkeyed).mp (List.getElem?_eq_getElem hlt')
  cases hi.symm.trans hkeys'
  obtain ⟨⟨combination, hall, -⟩, -⟩ := keyedEntry_eq_ok.mp hok
  exact ⟨combination, hall⟩

/-- The cells of an accepted layout are those of its entries. -/
theorem tryNew_cells (h : MapLayout.tryNew axes entries = .ok layout) :
    ∃ keyed, entries.val.zipIdx.mapM (keyedEntry axes) = .ok keyed ∧
      layout.placements.Perm (keyed.map Prod.snd) ∧
      ((keyed.map Prod.snd).map Placement.cell).Perm
        (List.range (axes.map IndexAxis.len).prod) := by
  obtain ⟨haxes, keyed, hkeyed, hplacements⟩ := tryNew_eq_ok h
  have hperm : layout.placements.Perm (keyed.map Prod.snd) := by
    rw [hplacements]
    exact sortGroups_perm _ _
  refine ⟨keyed, hkeyed, hperm, ?_⟩
  have hcells := layout.cells_perm
  rw [haxes] at hcells
  exact (hperm.map _).symm.trans hcells

theorem tryNew_isOk_iff : (∃ layout, MapLayout.tryNew axes entries = .ok layout) ↔
    (∀ keys ∈ entries.val, ∃ combination, NamesAll axes keys.items combination) ∧
      ∀ combination, IsCombination axes combination →
        ∃! i, EntryNames axes entries.val i combination := by
  constructor
  · rintro ⟨layout, h⟩
    obtain ⟨keyed, hkeyed, -, hcells⟩ := tryNew_cells h
    exact ⟨exists_combination hkeyed, (cells_perm_iff hkeyed).mp hcells⟩
  · rintro ⟨hnames, hunique⟩
    obtain ⟨keyed, hkeyed⟩ := exists_keyed hnames
    refine exists_tryNew_eq_ok ?_ hkeyed ((cells_perm_iff hkeyed).mpr hunique)
    rintro rfl
    -- the empty combination is named by an entry without keys
    obtain ⟨i, ⟨keys, -, hall⟩, -⟩ := hunique [] .nil
    generalize hitems : keys.items = items at hall
    cases hall
    exact keys.nonempty hitems

end Acceptance

end ProvenGraphcal.MapLiteral
