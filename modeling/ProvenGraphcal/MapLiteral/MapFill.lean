import Mathlib.Data.List.Induction
import ProvenGraphcal.MapLiteral.LayoutCoverage

/-!
# Filling a layout with values
-/

namespace ProvenGraphcal.MapLiteral

open RowMajor
open List (cons_append getElem_map length_map length_range map_cons map_map mem_map mem_pair)

variable {N T E : Type}

/-- The values of one axis level. -/
structure AxisCells (N T : Type) where
  axis : IndexAxis N
  cells : NonEmpty T

/-- The runs of `size` values, with what is left over as the last one. -/
def runs (size : ℕ) : List T → List (NonEmpty T)
  | [] => []
  | first :: rest =>
    ⟨first :: rest.take (size - 1), List.cons_ne_nil _ _⟩ :: runs size (rest.drop (size - 1))
termination_by values => values.length
decreasing_by
  rw [List.length_drop, List.length_cons]
  omega

/-- One pass of the nesting loop. -/
def nestLevel (nest : AxisCells N T → T) (level : List T) (axis : IndexAxis N) : List T :=
  (runs axis.len level).map fun cells => nest ⟨axis, cells⟩

/-- The nested value of the map literal; values are computed in the order of the placements, up to
the first error. -/
def MapLayout.fill (layout : MapLayout N) (entry : ℕ → Except E T) (nest : AxisCells N T → T) :
    Except (Fault E) T :=
  match layout.placements.mapM fun placement => do
      return (placement.cell, ← entry placement.entry) with
  | .error error => .error (.error error)
  | .ok placed =>
    let level := (placed.mergeSort fun lhs rhs => decide (lhs.1 ≤ rhs.1)).map Prod.snd
    match layout.axes.items.reverse.foldl (nestLevel nest) level with
    | [] => .error .panic
    | value :: _ => .ok value

/-- The value with one level for each axis, which has at each combination of keys what the
combination is mapped to. -/
def nested (nest : AxisCells N T → T) : List (IndexAxis N) → (List IndexEntryKey → T) → T
  | [], value => value []
  | axis :: axes, value =>
    nest ⟨axis, axis.keys.map fun key => nested nest axes fun keys => value (key :: keys)⟩

/-- All combinations of keys in row-major order. -/
def combinations : List (IndexAxis N) → List (List IndexEntryKey)
  | [] => [[]]
  | axis :: axes => axis.keys.items.flatMap fun key => (combinations axes).map (key :: ·)

variable {size : ℕ}

theorem runs_append {run rest : List T} (hlength : run.length = size) (hpos : run ≠ []) :
    runs size (run ++ rest) = ⟨run, hpos⟩ :: runs size rest := by
  cases run with
  | nil => exact absurd rfl hpos
  | cons first run =>
    have hsize : run.length = size - 1 := by
      rw [List.length_cons] at hlength
      omega
    rw [cons_append, runs]
    simp only [← hsize, List.take_left, List.drop_left]

theorem nestLevel_flatMap {α : Type} (nest : AxisCells N T → T) (axis : IndexAxis N)
    (items : List α) (value : α → IndexEntryKey → T) :
    nestLevel nest (items.flatMap fun item => axis.keys.items.map (value item)) axis =
      items.map fun item => nest ⟨axis, axis.keys.map (value item)⟩ := by
  induction items with
  | nil =>
    rw [List.flatMap_nil, nestLevel, runs]
    rfl
  | cons item items ih =>
    have hpos : axis.keys.items.map (value item) ≠ [] := fun h =>
      axis.keys.nonempty (List.map_eq_nil_iff.mp h)
    have hlength : (axis.keys.items.map (value item)).length = axis.len := length_map _
    rw [List.flatMap_cons, nestLevel, runs_append hlength hpos, map_cons, map_cons]
    exact congrArg _ ih

/-- The last axis is nested first. -/
theorem nested_append (nest : AxisCells N T → T) (axes : List (IndexAxis N)) (axis : IndexAxis N)
    (value : List IndexEntryKey → T) :
    nested nest (axes ++ [axis]) value =
      nested nest axes fun keys => nest ⟨axis, axis.keys.map fun key => value (keys ++ [key])⟩ := by
  induction axes generalizing value with
  | nil => rfl
  | cons first axes ih =>
    rw [cons_append, nested, nested]
    simp only [ih, cons_append]

theorem combinations_append (axes : List (IndexAxis N)) (axis : IndexAxis N) :
    combinations (axes ++ [axis]) = (combinations axes).flatMap fun keys =>
      axis.keys.items.map fun key => keys ++ [key] := by
  induction axes with
  | nil =>
    show axis.keys.items.flatMap (fun key => [[key]]) = _
    rw [combinations, List.flatMap_singleton, List.map_eq_flatMap]
    rfl
  | cons first axes ih =>
    rw [cons_append, combinations, combinations, ih, List.flatMap_assoc]
    apply List.flatMap_congr
    intro key _
    rw [List.map_flatMap, List.flatMap_map]
    simp only [map_map, cons_append]
    rfl

/-- The loop nests the values of all combinations into one. -/
theorem foldl_nestLevel (nest : AxisCells N T → T) (axes : List (IndexAxis N))
    (value : List IndexEntryKey → T) :
    axes.reverse.foldl (nestLevel nest) ((combinations axes).map value) =
      [nested nest axes value] := by
  induction axes using List.reverseRecOn generalizing value with
  | nil => rfl
  | append_singleton axes axis ih =>
    rw [List.reverse_append, List.reverse_singleton, List.singleton_append, List.foldl_cons,
      combinations_append, List.map_flatMap, nested_append, ← ih]
    have hlevel := nestLevel_flatMap nest axis (combinations axes)
      fun keys key => value (keys ++ [key])
    simp only [map_map]
    exact congrArg (fun level => axes.reverse.foldl (nestLevel nest) level) hlevel

theorem forall₂_combinations (axes : List (IndexAxis N)) :
    List.Forall₂ (KeysAt axes) (digitLists (axes.map IndexAxis.len)) (combinations axes) := by
  induction axes with
  | nil => exact .cons .nil .nil
  | cons axis axes ih =>
    have hkeys : List.Forall₂ (fun d key => axis.keys.items[d]? = some key)
        (List.range axis.len) axis.keys.items := by
      rw [List.forall₂_iff_get]
      refine ⟨length_range, fun i hi hi' => ?_⟩
      simp
    rw [map_cons, digitLists, combinations]
    apply List.rel_flatMap hkeys
    intro d key hkey
    rw [List.forall₂_map_left_iff, List.forall₂_map_right_iff]
    exact ih.imp fun _ _ => KeysAt.cons hkey

variable {i : ℕ}

/-- The flat positions of the combinations are their places in this order. -/
theorem getElem_combinations {axes : List (IndexAxis N)} (h : i < (combinations axes).length) :
    ∃ digits, KeysAt axes digits (combinations axes)[i] ∧
      flatIndex (axes.map IndexAxis.len) digits = i := by
  have hforall := forall₂_combinations axes
  have hdigits : i < (digitLists (axes.map IndexAxis.len)).length := hforall.length_eq ▸ h
  refine ⟨(digitLists (axes.map IndexAxis.len))[i], ?_, ?_⟩
  · exact (List.forall₂_iff_get.mp hforall).2 i hdigits h
  · have hrange := map_flatIndex_digitLists (axes.map IndexAxis.len)
    have hi := congrArg (·[i]?) hrange
    have hlength := congrArg List.length hrange
    rw [length_map, length_range] at hlength
    simp only [List.getElem?_map, List.getElem?_eq_getElem hdigits, Option.map_some] at hi
    rw [List.getElem?_range (hlength ▸ hdigits)] at hi
    exact Option.some.inj hi

theorem length_combinations (axes : List (IndexAxis N)) :
    (combinations axes).length = (axes.map IndexAxis.len).prod := by
  have hlength := congrArg List.length (map_flatIndex_digitLists (axes.map IndexAxis.len))
  rw [length_map, length_range] at hlength
  rw [← (forall₂_combinations axes).length_eq, hlength]

variable {placed : List (ℕ × T)}

/-- Sorting distinct cells puts them in increasing order. -/
theorem map_fst_mergeSort (h : (placed.map Prod.fst).Perm (List.range size)) :
    (placed.mergeSort fun lhs rhs => decide (lhs.1 ≤ rhs.1)).map Prod.fst = List.range size := by
  have hperm := ((List.mergeSort_perm placed fun lhs rhs => decide (lhs.1 ≤ rhs.1)).map
    Prod.fst).trans h
  have hsorted : (placed.mergeSort fun lhs rhs => decide (lhs.1 ≤ rhs.1)).Pairwise
      fun lhs rhs => decide (lhs.1 ≤ rhs.1) = true := by
    apply List.pairwise_mergeSort
    · intro a b c hab hbc
      simp only [decide_eq_true_eq] at hab hbc ⊢
      omega
    · intro a b
      simp only [Bool.or_eq_true, decide_eq_true_eq]
      omega
  have hincreasing : ((placed.mergeSort fun lhs rhs => decide (lhs.1 ≤ rhs.1)).map
      Prod.fst).Pairwise fun a b => a ≤ b := by
    rw [List.pairwise_map]
    exact hsorted.imp fun h => of_decide_eq_true h
  apply hperm.eq_of_pairwise _ hincreasing List.pairwise_le_range
  intro a b _ _ hab hba
  omega

variable {value : List IndexEntryKey → T}

/-- Values that are placed in the cells of their combinations are in row-major order once sorted. -/
theorem map_snd_mergeSort {axes : List (IndexAxis N)}
    (hperm : (placed.map Prod.fst).Perm (List.range (axes.map IndexAxis.len).prod))
    (hplaced : ∀ item ∈ placed, ∃ digits keys, KeysAt axes digits keys ∧
      item.1 = flatIndex (axes.map IndexAxis.len) digits ∧ item.2 = value keys) :
    (placed.mergeSort fun lhs rhs => decide (lhs.1 ≤ rhs.1)).map Prod.snd =
      (combinations axes).map value := by
  have hcells := map_fst_mergeSort hperm
  generalize hsorted : (placed.mergeSort fun lhs rhs => decide (lhs.1 ≤ rhs.1)) = sorted at hcells ⊢
  have hlength : sorted.length = (axes.map IndexAxis.len).prod := by
    rw [← length_map Prod.fst, hcells, length_range]
  apply List.ext_getElem
  · rw [length_map, length_map, hlength, length_combinations]
  · intro i hi hi'
    rw [length_map] at hi hi'
    rw [getElem_map, getElem_map]
    have hmem : sorted[i] ∈ placed := by
      have hsame := List.mergeSort_perm placed fun lhs rhs => decide (lhs.1 ≤ rhs.1)
      rw [hsorted] at hsame
      exact hsame.mem_iff.mp (List.getElem_mem hi)
    obtain ⟨digits, keys, hkeys, hcell, hvalue⟩ := hplaced _ hmem
    obtain ⟨digits', hkeys', hindex⟩ := getElem_combinations hi'
    have hfst : sorted[i].1 = i := by
      have h := congrArg (·[i]?) hcells
      simp only [List.getElem?_map, List.getElem?_eq_getElem hi, Option.map_some] at h
      rw [List.getElem?_range (hlength ▸ hi)] at h
      exact Option.some.inj h
    have hdigits : digits = digits' :=
      flatIndex_injective hkeys.within hkeys'.within (by rw [← hcell, hfst, hindex])
    rw [hdigits] at hkeys
    rw [hvalue, hkeys.keys_unique hkeys']

/-! ## Accepted layouts -/

variable {placements : List Placement}

section Accepted

variable [DecidableEq N] {axes : List (IndexAxis N)} {entries : Slice (NonEmpty (MapEntryKey N))}
  {layout : MapLayout N}

/-- Each placement puts an entry at the position of the combination that it names. -/
theorem tryNew_placement (h : MapLayout.tryNew axes entries = .ok layout) {placement : Placement}
    (hmem : placement ∈ layout.placements) :
    ∃ digits combination, EntryNames axes entries.val placement.entry combination ∧
      KeysAt axes digits combination ∧
      placement.cell = flatIndex (axes.map IndexAxis.len) digits := by
  obtain ⟨keyed, hkeyed, hperm, -⟩ := tryNew_cells h
  obtain ⟨⟨digits, placement⟩, hitem, rfl⟩ := mem_map.mp (hperm.mem_iff.mp hmem)
  obtain ⟨i, hi⟩ := List.mem_iff_getElem?.mp hitem
  obtain ⟨keys, hentry, hok⟩ := (getElem?_keyed hkeyed).mp hi
  obtain ⟨⟨combination, hall, hkeys⟩, rfl⟩ := keyedEntry_eq_ok.mp hok
  exact ⟨digits, combination, ⟨keys, hentry, hall⟩, hkeys, rfl⟩

/-- Every entry is placed once. -/
theorem tryNew_entries (h : MapLayout.tryNew axes entries = .ok layout) :
    (layout.placements.map Placement.entry).Perm (List.range entries.val.length) := by
  obtain ⟨keyed, hkeyed, hperm, -⟩ := tryNew_cells h
  have hlength : keyed.length = entries.val.length := by
    rw [← (Checked.mapM_eq_ok.mp hkeyed).length_eq, List.length_zipIdx]
  have hentries : (keyed.map Prod.snd).map Placement.entry = List.range entries.val.length := by
    apply List.ext_getElem
    · rw [length_map, length_map, length_range, hlength]
    · intro i hi _
      rw [length_map, length_map] at hi
      obtain ⟨keys, -, hok⟩ := (getElem?_keyed hkeyed).mp (List.getElem?_eq_getElem hi)
      have hplacement := (keyedEntry_eq_ok.mp hok).2
      rw [getElem_map, getElem_map, List.getElem_range]
      exact congrArg Placement.entry hplacement
  rw [← hentries]
  exact hperm.map _

section Fill

variable {entry : ℕ → Except E T} {nest : AxisCells N T → T}

/-- What an evaluated list of placements is. -/
theorem forall₂_of_placed (h : (placements.mapM fun placement => do
      return (placement.cell, ← entry placement.entry)) = .ok placed) :
    List.Forall₂ (fun placement item =>
      item.1 = placement.cell ∧ entry placement.entry = .ok item.2) placements placed := by
  refine (Checked.mapM_eq_ok.mp h).imp fun placement item hitem => ?_
  obtain ⟨value, hvalue, rfl⟩ := Checked.bind_pure_eq_ok.mp hitem
  exact ⟨rfl, hvalue⟩

theorem map_fst_placed (h : List.Forall₂ (fun placement item =>
      item.1 = placement.cell ∧ entry placement.entry = .ok item.2) placements placed) :
    placed.map Prod.fst = placements.map Placement.cell := by
  induction h with
  | nil => rfl
  | cons hitem _ ih => rw [map_cons, map_cons, hitem.1, ih]

/-- Values that agree on the combinations are nested by the combinations. -/
theorem fill_placed (nest : AxisCells N T → T) (h : MapLayout.tryNew axes entries = .ok layout)
    (hplaced : List.Forall₂ (fun placement item =>
      item.1 = placement.cell ∧ entry placement.entry = .ok item.2) layout.placements placed)
    (hvalue : ∀ i combination, EntryNames axes entries.val i combination →
      entry i = .ok (value combination)) :
    axes.reverse.foldl (nestLevel nest)
      ((placed.mergeSort fun lhs rhs => decide (lhs.1 ≤ rhs.1)).map Prod.snd) =
        [nested nest axes value] := by
  have haxes := (tryNew_eq_ok h).1
  have hperm : (placed.map Prod.fst).Perm (List.range (axes.map IndexAxis.len).prod) := by
    rw [map_fst_placed hplaced, ← haxes]
    exact layout.cells_perm
  rw [map_snd_mergeSort hperm ?_, foldl_nestLevel]
  intro item hitem
  obtain ⟨i, hi⟩ := List.mem_iff_getElem.mp hitem
  obtain ⟨hlt, rfl⟩ := hi
  have hlt' : i < layout.placements.length := hplaced.length_eq ▸ hlt
  obtain ⟨hcell, hentry⟩ := (List.forall₂_iff_get.mp hplaced).2 i hlt' hlt
  obtain ⟨digits, combination, hnames, hkeys, hposition⟩ :=
    tryNew_placement h (List.getElem_mem hlt')
  refine ⟨digits, combination, hkeys, hcell.trans hposition, ?_⟩
  exact Except.ok.inj (hentry.symm.trans (hvalue _ _ hnames))

section

variable (h : MapLayout.tryNew axes entries = .ok layout)

include h

/-- When all entries have values, each combination has the value of the entry that names it. -/
theorem exists_value (hplaced : List.Forall₂ (fun placement item =>
      item.1 = placement.cell ∧ entry placement.entry = .ok item.2) layout.placements placed) :
    ∃ value : List IndexEntryKey → T, ∀ i combination,
      EntryNames axes entries.val i combination → entry i = .ok (value combination) := by
  have hsome : ∀ i combination, EntryNames axes entries.val i combination →
      ∃ value, entry i = .ok value := by
    rintro i combination ⟨keys, hkeys, -⟩
    have hi : i ∈ layout.placements.map Placement.entry := by
      rw [(tryNew_entries h).mem_iff, List.mem_range]
      exact (List.getElem?_eq_some_iff.mp hkeys).1
    obtain ⟨placement, hmem, rfl⟩ := mem_map.mp hi
    obtain ⟨item, -, -, hvalue⟩ := Checked.exists_of_forall₂_left hplaced hmem
    exact ⟨item.2, hvalue⟩
  obtain ⟨-, hunique⟩ := tryNew_isOk_iff.mp ⟨layout, h⟩
  -- a combination is named, as no axis is empty
  obtain ⟨first, hfirst⟩ := exists_isCombination axes
  obtain ⟨i, hi, -⟩ := hunique first hfirst
  obtain ⟨default, -⟩ := hsome i first hi
  have hvalue : ∀ combination, ∃ value, ∀ i, EntryNames axes entries.val i combination →
      entry i = .ok value := by
    intro combination
    by_cases hcombination : IsCombination axes combination
    · obtain ⟨i, hi, honly⟩ := hunique combination hcombination
      obtain ⟨value, hvalue⟩ := hsome i combination hi
      refine ⟨value, fun j hj => ?_⟩
      rw [honly j hj, hvalue]
    · refine ⟨default, fun j hj => ?_⟩
      obtain ⟨keys, -, hall⟩ := hj
      exact absurd hall.isCombination hcombination
  choose value hvalue using hvalue
  exact ⟨value, fun i combination => hvalue combination i⟩

theorem fill_eq_ok (hvalue : ∀ i combination, EntryNames axes entries.val i combination →
      entry i = .ok (value combination)) :
    layout.fill entry nest = .ok (nested nest axes value) := by
  have hentry : ∀ placement ∈ layout.placements, ∃ item, (do
      return (placement.cell, ← entry placement.entry)) = Except.ok item := by
    intro placement hmem
    obtain ⟨digits, combination, hnames, -⟩ := tryNew_placement h hmem
    refine ⟨(placement.cell, value combination), ?_⟩
    rw [hvalue _ _ hnames]
    rfl
  obtain ⟨placed, hplaced⟩ := Checked.exists_mapM_eq_ok hentry
  have hlevel := fill_placed nest h (forall₂_of_placed hplaced) hvalue
  unfold MapLayout.fill
  rw [hplaced]
  dsimp only
  rw [(tryNew_eq_ok h).1, hlevel]

/-- The outermost axis always nests the cells into one value. -/
theorem fill_ne_panic : layout.fill entry nest ≠ .error .panic := by
  intro hpanic
  unfold MapLayout.fill at hpanic
  split at hpanic
  next => cases hpanic
  next placed hplaced =>
    have hplaced := forall₂_of_placed hplaced
    obtain ⟨value, hvalue⟩ := exists_value h hplaced
    have hlevel := fill_placed nest h hplaced hvalue
    dsimp only at hpanic
    rw [(tryNew_eq_ok h).1, hlevel] at hpanic
    cases hpanic

end

end Fill

/-- The entries of a map literal are accepted when they name every combination of keys once, and
their values are then nested by the keys. -/
theorem layout_covers_combinations (axes : List (IndexAxis N))
    (entries : Slice (NonEmpty (MapEntryKey N))) :
    ((∃ layout, MapLayout.tryNew axes entries = .ok layout) ↔
      (∀ keys ∈ entries.val, ∃ combination, NamesAll axes keys.items combination) ∧
        ∀ combination, IsCombination axes combination →
          ∃! i, EntryNames axes entries.val i combination) ∧
    (∀ keyed, entries.val.zipIdx.mapM (keyedEntry axes) = .ok keyed →
      ∀ cell ∈ (keyed.map Prod.snd).map Placement.cell, cell < (axes.map IndexAxis.len).prod) ∧
    ∀ layout, MapLayout.tryNew axes entries = .ok layout →
      (layout.placements.map Placement.cell).Perm (List.range (axes.map IndexAxis.len).prod) ∧
      (layout.placements.map Placement.entry).Perm (List.range entries.val.length) ∧
      ∀ (T E : Type) (entry : ℕ → Except E T) (nest : AxisCells N T → T),
        layout.fill entry nest ≠ .error .panic ∧
        ∀ value : List IndexEntryKey → T,
          (∀ i combination, EntryNames axes entries.val i combination →
            entry i = .ok (value combination)) →
          layout.fill entry nest = .ok (nested nest axes value) := by
  refine ⟨tryNew_isOk_iff, fun keyed hkeyed => cells_lt hkeyed, fun layout h => ?_⟩
  have hcells := layout.cells_perm
  rw [(tryNew_eq_ok h).1] at hcells
  refine ⟨hcells, tryNew_entries h, fun T E entry nest => ⟨fill_ne_panic h, ?_⟩⟩
  intro value hvalue
  exact fill_eq_ok h hvalue

end Accepted

def finPair : IndexAxis ℕ :=
  ⟨.finite 2, ⟨[.position 0, .position 1], List.cons_ne_nil _ _⟩, by decide⟩

def pairEntries (positions : List ℕ) (h : positions.length < 2 ^ 63) :
    Slice (NonEmpty (MapEntryKey ℕ)) :=
  ⟨positions.map fun position => .singleton (.finitePosition 2 position), by
    rwa [List.length_map]⟩

theorem entryNames_pair {positions : List ℕ} {h : positions.length < 2 ^ 63}
    {combination : List IndexEntryKey} :
    EntryNames [finPair] (pairEntries positions h).val i combination ↔
      ∃ p < 2, positions[i]? = some p ∧ combination = [.position p] := by
  rw [EntryNames, pairEntries]
  simp only [List.getElem?_map, Option.map_eq_some_iff]
  constructor
  · rintro ⟨-, ⟨p, hp, rfl⟩, hall⟩
    rcases hall with _ | ⟨hnames, hmem, hrest⟩
    cases hnames
    cases hrest
    refine ⟨p, ?_, hp, rfl⟩
    rcases mem_pair.mp hmem with h | h
    · cases h
      omega
    · cases h
      omega
  · rintro ⟨p, hlt, hp, rfl⟩
    refine ⟨_, ⟨p, hp, rfl⟩, .cons .position ?_ .nil⟩
    show IndexEntryKey.position p ∈ [IndexEntryKey.position 0, IndexEntryKey.position 1]
    obtain rfl | rfl : p = 0 ∨ p = 1 := by omega
    · exact List.mem_cons_self
    · exact List.mem_cons_of_mem _ List.mem_cons_self

/-- Values in the other order are placed in the order of the axis. -/
theorem layout_covers_combinations_finPair :
    ∃ layout, MapLayout.tryNew [finPair] (pairEntries [1, 0] (by decide)) = .ok layout ∧
      layout.fill (fun i => (.ok [i] : Except Unit (List ℕ)))
        (fun cells => cells.cells.items.flatten) = .ok [1, 0] := by
  obtain ⟨layout, hlayout⟩ : ∃ layout,
      MapLayout.tryNew [finPair] (pairEntries [1, 0] (by decide)) = .ok layout := ⟨_, rfl⟩
  have hfill := (((layout_covers_combinations [finPair] (pairEntries [1, 0] (by decide))).2.2
    layout hlayout).2.2 (List ℕ) Unit (fun i => .ok [i])
      fun cells => cells.cells.items.flatten).2
    fun keys => if keys = [.position 0] then [1] else [0]
  refine ⟨layout, hlayout, hfill ?_⟩
  intro i combination hnames
  obtain ⟨p, -, hp, rfl⟩ := entryNames_pair.mp hnames
  match i with
  | 0 =>
    cases hp
    rfl
  | 1 =>
    cases hp
    rfl

/-- An entry outside the axis is not accepted beside entries for all combinations. -/
theorem outside_entry_rejected :
    ¬ ((∃ layout, MapLayout.tryNew [finPair] (pairEntries [0, 1, 2] (by decide)) = .ok layout) ↔
      ∀ combination, IsCombination [finPair] combination →
        ∃! i, EntryNames [finPair] (pairEntries [0, 1, 2] (by decide)).val i combination) := by
  intro h
  obtain ⟨layout, hlayout⟩ := h.mpr fun combination hcombination => by
    rcases hcombination with _ | ⟨hmem, hrest⟩
    cases hrest
    rcases mem_pair.mp hmem with rfl | rfl
    · refine ⟨0, entryNames_pair.mpr ⟨0, by omega, rfl, rfl⟩, fun i hi => ?_⟩
      obtain ⟨p, -, hp, heq⟩ := entryNames_pair.mp hi
      cases heq
      match i with
      | 0 => rfl
      | 1 => cases hp
      | 2 => cases hp
    · refine ⟨1, entryNames_pair.mpr ⟨1, by omega, rfl, rfl⟩, fun i hi => ?_⟩
      obtain ⟨p, -, hp, heq⟩ := entryNames_pair.mp hi
      cases heq
      match i with
      | 0 => cases hp
      | 1 => rfl
      | 2 => cases hp
  have hrejected : MapLayout.tryNew [finPair] (pairEntries [0, 1, 2] (by decide)) =
      .error (.error (.keyOutsideAxis (.finite 2))) := rfl
  rw [hrejected] at hlayout
  cases hlayout

end ProvenGraphcal.MapLiteral
