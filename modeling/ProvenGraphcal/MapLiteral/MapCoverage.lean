import Mathlib.Combinatorics.Pigeonhole
import ProvenGraphcal.Library.DistinctKeys
import ProvenGraphcal.MapLiteral.LayoutCoverage
import ProvenGraphcal.Nominal.TypeDefs

/-!
# The search for an absent tuple

A mixed-radix counter runs over the tuples of the axes. It makes one step more than tuples were
provided, so that one of those it visits is absent.
-/

namespace ProvenGraphcal.MapLiteral

open RowMajor

variable {K : Type}

/-- One key of each axis. -/
abbrev IsTuple (axes : List (List K)) (tuple : List K) : Prop :=
  List.Forall₂ (fun axis key => key ∈ axis) axes tuple

/-- The numbers of keys on the axes. -/
abbrev lengths (axes : List (List K)) : List ℕ := axes.map List.length

/-- The tuple at the offsets; an offset past its axis panics. -/
def candidate (axes : List (List K)) (offsets : List ℕ) : Option (List K) :=
  (axes.zip offsets).mapM fun item => item.1[item.2]?

/-- Where the counter stands after a step. -/
inductive Advance
  | overflow
  | wrapped (offsets : List ℕ)
  | advanced (offsets : List ℕ)

/-- The last offset with a next key moves on, and those after it start again. -/
def advance : List (List K) → List ℕ → Advance
  | axis :: axes, offset :: offsets =>
    match advance axes offsets with
    | .overflow => .overflow
    | .advanced rest => .advanced (offset :: rest)
    | .wrapped rest =>
      if 2 ^ 64 ≤ offset + 1 then .overflow
      else if offset + 1 < axis.length then .advanced ((offset + 1) :: rest)
      else .wrapped (0 :: rest)
  | _, _ => .wrapped []

variable [DecidableEq K]

/-- The walk from the offsets over at most `remaining` tuples; `none` panics. -/
def firstMissingFrom (axes provided : List (List K)) : ℕ → List ℕ → Option (Option (List K))
  | 0, _ => some none
  | remaining + 1, offsets =>
    match candidate axes offsets with
    | none => none
    | some tuple =>
      if tuple ∉ provided then some (some tuple)
      else
        match advance axes offsets with
        | .advanced next => firstMissingFrom axes provided remaining next
        | .overflow | .wrapped _ => some none

def firstMissingMapTuple (axes provided : List (List K)) : Option (Option (List K)) :=
  firstMissingFrom axes provided (provided.length + 1) (List.replicate axes.length 0)

/-! ## What a step does -/

section Counter

omit [DecidableEq K]

variable {axes : List (List K)} {offsets offsets' : List ℕ} {tuple : List K}

theorem candidate_cons (axis : List K) (axes : List (List K)) (offset : ℕ) (offsets : List ℕ) :
    candidate (axis :: axes) (offset :: offsets) =
      (axis[offset]?).bind fun key => (candidate axes offsets).map (key :: ·) := by
  unfold candidate
  rw [List.zip_cons_cons, List.mapM_cons]
  cases axis[offset]? with
  | none => rfl
  | some key =>
    rw [Option.bind_some, Option.map_eq_bind]
    rfl

/-- No offset within the axes reads past one. -/
theorem exists_candidate (h : Within (lengths axes) offsets) :
    ∃ tuple, candidate axes offsets = some tuple ∧ IsTuple axes tuple := by
  induction axes generalizing offsets with
  | nil =>
    cases h
    exact ⟨[], rfl, .nil⟩
  | cons axis axes ih =>
    cases h with
    | @cons _ offset _ offsets hoffset hrest =>
      obtain ⟨tuple, htuple, hmem⟩ := ih hrest
      refine ⟨axis[offset] :: tuple, ?_, .cons (List.getElem_mem hoffset) hmem⟩
      rw [candidate_cons, List.getElem?_eq_getElem hoffset, htuple]
      rfl

/-- Other offsets select another tuple. -/
theorem candidate_injective (haxes : ∀ axis ∈ axes, axis.Nodup) (h : Within (lengths axes) offsets)
    (h' : Within (lengths axes) offsets') (htuple : candidate axes offsets = some tuple)
    (htuple' : candidate axes offsets' = some tuple) : offsets = offsets' := by
  induction axes generalizing offsets offsets' tuple with
  | nil =>
    cases h
    cases h'
    rfl
  | cons axis axes ih =>
    cases h with
    | @cons _ offset _ offsets hoffset hrest =>
      cases h' with
      | @cons _ offset' _ offsets' hoffset' hrest' =>
        rw [candidate_cons, Option.bind_eq_some_iff] at htuple htuple'
        obtain ⟨key, hkey, hrestTuple⟩ := htuple
        obtain ⟨key', hkey', hrestTuple'⟩ := htuple'
        obtain ⟨tail, htail, rfl⟩ := Option.map_eq_some_iff.mp hrestTuple
        obtain ⟨tail', htail', htuples⟩ := Option.map_eq_some_iff.mp hrestTuple'
        obtain ⟨rfl, rfl⟩ := List.cons.inj htuples
        have hnodup := haxes axis List.mem_cons_self
        have hsame : offset = offset' :=
          (List.getElem?_inj hoffset hnodup).mp (hkey.trans hkey'.symm)
        rw [hsame, ih (fun a ha => haxes a (List.mem_cons_of_mem _ ha)) hrest hrest' htail htail']

/-- A step reaches the next flat position, or returns from the last one to the first. -/
theorem advance_cases (haxes : ∀ axis ∈ axes, axis.length < 2 ^ 64)
    (h : Within (lengths axes) offsets) :
    (∃ next, advance axes offsets = .advanced next ∧ Within (lengths axes) next ∧
      flatIndex (lengths axes) next = flatIndex (lengths axes) offsets + 1) ∨
    (∃ next, advance axes offsets = .wrapped next ∧ Within (lengths axes) next ∧
      flatIndex (lengths axes) next = 0 ∧
      flatIndex (lengths axes) offsets + 1 = (lengths axes).prod) := by
  induction axes generalizing offsets with
  | nil =>
    cases h
    exact .inr ⟨[], rfl, .nil, rfl, rfl⟩
  | cons axis axes ih =>
    cases h with
    | @cons _ offset _ offsets hoffset hrest =>
      have hindex : flatIndex (lengths (axis :: axes)) (offset :: offsets) =
          offset * (lengths axes).prod + flatIndex (lengths axes) offsets :=
        flatIndex_cons hrest.length_eq
      rw [hindex]
      have hsize := haxes axis List.mem_cons_self
      rcases ih (fun a ha => haxes a (List.mem_cons_of_mem _ ha)) hrest with
        ⟨next, hadvance, hnext, hflat⟩ | ⟨next, hadvance, hnext, hflat, hlast⟩
      · refine .inl ⟨offset :: next, ?_, .cons hoffset hnext, ?_⟩
        · rw [advance, hadvance]
        · have hindex' : flatIndex (lengths (axis :: axes)) (offset :: next) =
              offset * (lengths axes).prod + flatIndex (lengths axes) next :=
            flatIndex_cons hnext.length_eq
          rw [hindex', hflat, Nat.add_assoc]
      · have hfits : ¬ 2 ^ 64 ≤ offset + 1 := by omega
        by_cases hmore : offset + 1 < axis.length
        · refine .inl ⟨(offset + 1) :: next, ?_, .cons hmore hnext, ?_⟩
          · rw [advance, hadvance]
            dsimp only
            rw [if_neg hfits, if_pos hmore]
          · have hindex' : flatIndex (lengths (axis :: axes)) ((offset + 1) :: next) =
                (offset + 1) * (lengths axes).prod + flatIndex (lengths axes) next :=
              flatIndex_cons hnext.length_eq
            rw [hindex', hflat, Nat.add_assoc, hlast]
            ring
        · have hpos : 0 < axis.length := by omega
          refine .inr ⟨0 :: next, ?_, .cons hpos hnext, ?_, ?_⟩
          · rw [advance, hadvance]
            dsimp only
            rw [if_neg hfits, if_neg hmore]
          · have hindex' : flatIndex (lengths (axis :: axes)) (0 :: next) =
                0 * (lengths axes).prod + flatIndex (lengths axes) next :=
              flatIndex_cons hnext.length_eq
            rw [hindex', hflat, Nat.zero_mul]
          · have hlength : axis.length = offset + 1 := by omega
            show _ = axis.length * (lengths axes).prod
            rw [Nat.add_assoc, hlast, hlength]
            ring

end Counter

/-! ## The walk -/

section Walk

variable {axes provided : List (List K)} {offsets : List ℕ}

/-- A walk that ends without a tuple has met only provided ones. -/
theorem firstMissingFrom_spec (haxes : ∀ axis ∈ axes, axis.length < 2 ^ 64) {remaining : ℕ}
    (h : Within (lengths axes) offsets) (hremaining : 0 < remaining)
    (hbound : flatIndex (lengths axes) offsets + remaining ≤ (lengths axes).prod) :
    (∃ tuple, firstMissingFrom axes provided remaining offsets = some (some tuple) ∧
      IsTuple axes tuple ∧ tuple ∉ provided) ∨
    ∀ digits, Within (lengths axes) digits →
      flatIndex (lengths axes) offsets ≤ flatIndex (lengths axes) digits →
      flatIndex (lengths axes) digits < flatIndex (lengths axes) offsets + remaining →
      ∃ tuple ∈ provided, candidate axes digits = some tuple := by
  induction remaining generalizing offsets with
  | zero => exact absurd hremaining (Nat.lt_irrefl 0)
  | succ remaining ih =>
    obtain ⟨tuple, htuple, hmem⟩ := exists_candidate h
    rw [firstMissingFrom, htuple]
    dsimp only
    by_cases hprovided : tuple ∉ provided
    · rw [if_pos hprovided]
      exact .inl ⟨tuple, rfl, hmem, hprovided⟩
    rw [if_neg hprovided]
    have hhere : ∀ digits, Within (lengths axes) digits →
        flatIndex (lengths axes) digits = flatIndex (lengths axes) offsets →
        ∃ tuple ∈ provided, candidate axes digits = some tuple := by
      intro digits hdigits hflat
      rw [flatIndex_injective hdigits h hflat]
      exact ⟨tuple, not_not.mp hprovided, htuple⟩
    by_cases hlast : remaining = 0
    · refine .inr fun digits hdigits hle hlt => hhere digits hdigits ?_
      omega
    rcases advance_cases haxes h with
      ⟨next, hadvance, hnext, hflat⟩ | ⟨next, -, -, -, hend⟩
    · rw [hadvance]
      rcases ih hnext (Nat.pos_of_ne_zero hlast) (by omega) with hfound | hall
      · exact .inl hfound
      · refine .inr fun digits hdigits hle hlt => ?_
        by_cases hsame : flatIndex (lengths axes) digits = flatIndex (lengths axes) offsets
        · exact hhere digits hdigits hsame
        · exact hall digits hdigits (by omega) (by omega)
    · omega

omit [DecidableEq K] in
theorem within_zero (h : 0 < (lengths axes).prod) :
    Within (lengths axes) (List.replicate axes.length 0) ∧
      flatIndex (lengths axes) (List.replicate axes.length 0) = 0 := by
  induction axes with
  | nil => exact ⟨.nil, rfl⟩
  | cons axis axes ih =>
    have hprod : (lengths (axis :: axes)).prod = axis.length * (lengths axes).prod := rfl
    obtain ⟨hwithin, hflat⟩ := ih (Nat.pos_of_mul_pos_left h)
    refine ⟨.cons (Nat.pos_of_mul_pos_right h) hwithin, ?_⟩
    have hindex : flatIndex (lengths (axis :: axes)) (0 :: List.replicate axes.length 0) =
        0 * (lengths axes).prod + flatIndex (lengths axes) (List.replicate axes.length 0) :=
      flatIndex_cons hwithin.length_eq
    rw [List.length_cons, List.replicate_succ, hindex, hflat, Nat.zero_mul]

omit [DecidableEq K] in
/-- An axis is no longer than a product of nonempty axes. -/
theorem length_le_prod {axis : List K} (hmem : axis ∈ axes) (h : 0 < (lengths axes).prod) :
    axis.length ≤ (lengths axes).prod :=
  Nat.le_of_dvd h (List.dvd_prod (List.mem_map_of_mem hmem))

/-- Fewer provided tuples than the product has leave one that the search finds. -/
theorem firstMissingMapTuple_spec (hnodup : ∀ axis ∈ axes, axis.Nodup)
    (hfits : (lengths axes).prod < 2 ^ 64) (hfewer : provided.length < (lengths axes).prod) :
    ∃ tuple, firstMissingMapTuple axes provided = some (some tuple) ∧
      IsTuple axes tuple ∧ tuple ∉ provided := by
  have hpos : 0 < (lengths axes).prod := by omega
  have hsizes : ∀ axis ∈ axes, axis.length < 2 ^ 64 := fun axis hmem =>
    (length_le_prod hmem hpos).trans_lt hfits
  obtain ⟨hzero, hflat⟩ := within_zero hpos
  have hspec : _ ∨ ∀ digits, _ → _ → _ → ∃ tuple ∈ provided, _ :=
    firstMissingFrom_spec hsizes hzero (Nat.succ_pos provided.length) (by omega)
  rcases hspec with hfound | hall
  · exact hfound
  exfalso
  have hvisited (cell : ℕ) (hcell : cell ∈ Finset.range (provided.length + 1)) :
      ∃ digits, Within (lengths axes) digits ∧ flatIndex (lengths axes) digits = cell ∧
        ∃ tuple ∈ provided, candidate axes digits = some tuple := by
    rw [Finset.mem_range] at hcell
    obtain ⟨digits, hdigits, hcells⟩ := exists_flatIndex (show cell < (lengths axes).prod by omega)
    exact ⟨digits, hdigits, hcells, hall digits hdigits (by omega) (by omega)⟩
  -- two of the visited positions would have one provided tuple
  choose! digits hdigits hcells tuple hprovided htuple using hvisited
  have hmaps : ∀ cell ∈ Finset.range (provided.length + 1), tuple cell ∈ provided.toFinset :=
    fun cell hcell => List.mem_toFinset.mpr (hprovided cell hcell)
  have hcard : provided.toFinset.card < (Finset.range (provided.length + 1)).card := by
    rw [Finset.card_range]
    exact (List.toFinset_card_le provided).trans_lt (Nat.lt_succ_self _)
  obtain ⟨cell, hcell, cell', hcell', hne, hsame⟩ :=
    Finset.exists_ne_map_eq_of_card_lt_of_maps_to hcard hmaps
  have hsameDigits : digits cell = digits cell' :=
    candidate_injective hnodup (hdigits cell hcell) (hdigits cell' hcell') (htuple cell hcell)
      (hsame ▸ htuple cell' hcell')
  exact hne ((hcells cell hcell).symm.trans
    ((congrArg (flatIndex (lengths axes)) hsameDigits).trans (hcells cell' hcell')))

end Walk

section Tuples

omit [DecidableEq K]

/-- The Cartesian product of the axes. -/
def tuples : List (List K) → List (List K)
  | [] => [[]]
  | axis :: axes => axis.flatMap fun key => (tuples axes).map (key :: ·)

variable {axes : List (List K)}

theorem mem_tuples {tuple : List K} : tuple ∈ tuples axes ↔ IsTuple axes tuple := by
  induction axes generalizing tuple with
  | nil => rw [tuples, List.mem_singleton, IsTuple, List.forall₂_nil_left_iff]
  | cons axis axes ih =>
    rw [tuples, List.mem_flatMap, IsTuple, List.forall₂_cons_left_iff]
    simp only [List.mem_map, ih]
    constructor
    · rintro ⟨key, hkey, rest, hrest, rfl⟩
      exact ⟨key, rest, hkey, hrest, rfl⟩
    · rintro ⟨key, rest, hkey, hrest, rfl⟩
      exact ⟨key, hkey, rest, hrest, rfl⟩

theorem length_tuples (axes : List (List K)) : (tuples axes).length = (lengths axes).prod := by
  induction axes with
  | nil => rfl
  | cons axis axes ih =>
    show (axis.flatMap _).length = axis.length * (lengths axes).prod
    rw [List.length_flatMap]
    simp only [List.length_map, ih]
    rw [List.map_const', List.sum_replicate, smul_eq_mul]

theorem nodup_tuples (h : ∀ axis ∈ axes, axis.Nodup) : (tuples axes).Nodup := by
  induction axes with
  | nil => exact List.nodup_singleton []
  | cons axis axes ih =>
    rw [tuples, List.nodup_flatMap]
    have hrest := ih fun a ha => h a (List.mem_cons_of_mem _ ha)
    refine ⟨fun key _ => hrest.map (List.cons_injective), ?_⟩
    refine (h axis List.mem_cons_self).imp fun {key key'} hne => ?_
    show List.Disjoint _ _
    intro tuple htuple htuple'
    obtain ⟨tail, -, rfl⟩ := List.mem_map.mp htuple
    obtain ⟨tail', -, heq⟩ := List.mem_map.mp htuple'
    exact hne (List.cons.inj heq).1.symm

end Tuples

/-- Distinct provided tuples of the product leave as many absent as there are fewer of them. -/
theorem length_absent {axes provided : List (List K)} (haxes : ∀ axis ∈ axes, axis.Nodup)
    (hnodup : provided.Nodup) (hmem : ∀ tuple ∈ provided, IsTuple axes tuple) :
    ((tuples axes).filter (· ∉ provided)).length = (lengths axes).prod - provided.length := by
  have hsplit := List.length_eq_length_filter_add (l := tuples axes) (· ∈ provided)
  have hpresent : ((tuples axes).filter (· ∈ provided)).Perm provided := by
    rw [List.perm_ext_iff_of_nodup ((nodup_tuples haxes).filter _) hnodup]
    intro tuple
    rw [List.mem_filter, decide_eq_true_eq, mem_tuples]
    exact ⟨And.right, fun h => ⟨hmem tuple h, h⟩⟩
  rw [length_tuples, hpresent.length_eq] at hsplit
  simp only [decide_not]
  omega

end ProvenGraphcal.MapLiteral

/-!
# The coverage of a map literal

The axes of a literal are those of its first entry's keys. Distinct tuples of known keys are counted
against the checked size of the key space. `N` are the names of declared indexes.
-/

namespace ProvenGraphcal.MapLiteral

open Nominal (IndexCardinalityError maxIndexCardinality)

variable {N : Type}

/-- The category of an index and its labels or size. -/
inductive IndexKind
  | named (variants : NonEmpty String) (nodup : variants.items.Nodup)
  | coordinate (cardinality : ℕ)
  | finite (size : ℕ)
  | requiredNamed
  | requiredCoordinate

namespace IndexKind

/-- Required indexes have no entries until they are bound. -/
def entryKeys : IndexKind → List IndexEntryKey
  | named variants _ => variants.items.map .named
  | coordinate cardinality => (List.range cardinality).map .position
  | finite size => (List.range size).map .position
  | requiredNamed | requiredCoordinate => []

def isCoordinate : IndexKind → Bool
  | coordinate _ | requiredCoordinate => true
  | named _ _ | finite _ | requiredNamed => false

theorem nodup_entryKeys (kind : IndexKind) : kind.entryKeys.Nodup := by
  have hpositions (n : ℕ) : ((List.range n).map IndexEntryKey.position).Nodup :=
    List.nodup_range.map fun _ _ h => IndexEntryKey.position.inj h
  cases kind with
  | named variants nodup => exact nodup.map fun _ _ h => IndexEntryKey.named.inj h
  | coordinate cardinality => exact hpositions cardinality
  | finite size => exact hpositions size
  | requiredNamed => exact List.nodup_nil
  | requiredCoordinate => exact List.nodup_nil

end IndexKind

/-- The definition of an index; `registry` has those of the declared indexes. -/
def indexDef (registry : N → Option IndexKind) : IndexTypeRef N → Option IndexKind
  | .declared name => registry name
  | .finite size => some (.finite size)

/-- The concrete axis of an index; coordinate axes, on which no map literal selects, are left
out. -/
def IndexAxis.fromConcrete (index : IndexTypeRef N) (kind : IndexKind) : Option (IndexAxis N) :=
  if h : kind.entryKeys = [] then none
  else if kind.isCoordinate then none
  else some ⟨index, ⟨kind.entryKeys, h⟩, kind.nodup_entryKeys⟩

def concreteAxis (registry : N → Option IndexKind) (index : IndexTypeRef N) :
    Option (IndexAxis N) :=
  (indexDef registry index).bind (IndexAxis.fromConcrete index)

inductive MapLiteralVariantKey (N : Type)
  | declared (index : N) (variant : String)
  | finite (form position : ℕ)
  deriving DecidableEq

inductive MapEntryCoordinate (N : Type)
  | declared (index : N) (variant : String)
  | position (axis position : ℕ)

def MapLiteralVariantKey.entryKey : MapLiteralVariantKey N → IndexEntryKey
  | declared _ variant => .named variant
  | finite _ position => .position position

def MapLiteralVariantKey.coordinate : MapLiteralVariantKey N → MapEntryCoordinate N
  | declared index variant => .declared index variant
  | finite form position => .position form position

structure MapLiteralAxis (N : Type) where
  index : IndexTypeRef N
  entryKeys : List IndexEntryKey

inductive MapCoverageError (N : Type)
  | invalidFiniteIndexCardinality (error : IndexCardinalityError)
  | emptyMapLiteral
  | inconsistentMapKeyArity (expected found : ℕ)
  | unknownIndex (name : IndexTypeRef N)
  | coordinateIndexMapKey (index : IndexTypeRef N)
  | indexMismatch (expected found : IndexTypeRef N)
  | mapKeyCategoryMismatch (key : IndexEntryKey)
  | mapKeySpaceTooLarge
  | extraVariants (index : IndexTypeRef N) (extra : List IndexEntryKey)
  | unknownVariant (index : IndexTypeRef N) (variant : String)
  | mapPositionOutsideIndex (position : ℕ) (index : IndexTypeRef N)
  | duplicateMapEntry
  | missingVariants (index : IndexTypeRef N) (missing : List IndexEntryKey)
  | nonExhaustiveMapLiteral (missingCount : ℕ) (witness : List (MapEntryCoordinate N))
  | internal

def fromFiniteIndexForm (size : ℕ) : Except (MapCoverageError N) (IndexTypeRef N) :=
  if size = 0 then .error (.invalidFiniteIndexCardinality .empty)
  else if size ≤ maxIndexCardinality then .ok (.finite size)
  else .error (.invalidFiniteIndexCardinality (.tooLarge size maxIndexCardinality))

def inferredIndexForHirMapKey :
    MapEntryKey N → Except (MapCoverageError N) (IndexTypeRef N)
  | .indexVariant index _ => .ok (.declared index)
  | .finitePosition size _ => fromFiniteIndexForm size

def hirMapEntryKey : MapEntryKey N → IndexEntryKey
  | .indexVariant _ variant => .named variant
  | .finitePosition _ position => .position position

def axisOfIndex (registry : N → Option IndexKind) (index : IndexTypeRef N) :
    Except (MapCoverageError N) (MapLiteralAxis N) :=
  match indexDef registry index with
  | none => .error (.unknownIndex index)
  | some kind =>
    if kind.isCoordinate then .error (.coordinateIndexMapKey index)
    else .ok ⟨index, kind.entryKeys⟩

/-- The axis that a key of the first entry selects on. -/
def axisOf (registry : N → Option IndexKind) (key : MapEntryKey N) :
    Except (MapCoverageError N) (MapLiteralAxis N) := do
  let index ← inferredIndexForHirMapKey key
  axisOfIndex registry index

namespace MapLiteralAxis

def variantKey (axis : MapLiteralAxis N) (key : IndexEntryKey) :
    Except (MapCoverageError N) (MapLiteralVariantKey N) :=
  match axis.index, key with
  | .declared index, .named variant => .ok (.declared index variant)
  | .finite form, .position position => .ok (.finite form position)
  | _, incompatible => .error (.mapKeyCategoryMismatch incompatible)

def variantKeys (axis : MapLiteralAxis N) :
    Except (MapCoverageError N) (List (MapLiteralVariantKey N)) :=
  axis.entryKeys.mapM axis.variantKey

/-- The variant that an entry's key selects on the axis. -/
def selected (arity : ℕ) (axis : MapLiteralAxis N) (key : MapEntryKey N) :
    Except (MapCoverageError N) (MapLiteralVariantKey N) :=
  let entryKey := hirMapEntryKey key
  if entryKey ∈ axis.entryKeys then axis.variantKey entryKey
  else
    match arity, entryKey with
    | 1, extra => .error (.extraVariants axis.index [extra])
    | _, .named variant => .error (.unknownVariant axis.index variant)
    | _, .position position => .error (.mapPositionOutsideIndex position axis.index)

end MapLiteralAxis

def checkArity (arity : ℕ) (keys : NonEmpty (MapEntryKey N)) :
    Except (MapCoverageError N) Unit :=
  if keys.items.length = arity then .ok ()
  else .error (.inconsistentMapKeyArity arity keys.items.length)

variable [DecidableEq N]

def checkIndex (item : MapLiteralAxis N × MapEntryKey N) : Except (MapCoverageError N) Unit := do
  let keyIndex ← inferredIndexForHirMapKey item.2
  if keyIndex = item.1.index then return ()
  else .error (.indexMismatch item.1.index keyIndex)

def checkIndexes (axes : List (MapLiteralAxis N)) (keys : NonEmpty (MapEntryKey N)) :
    Except (MapCoverageError N) Unit :=
  (axes.zip keys.items).forM checkIndex

omit [DecidableEq N] in
def checkedMul (product : ℕ) (axis : List (MapLiteralVariantKey N)) :
    Except (MapCoverageError N) ℕ :=
  if product * axis.length < 2 ^ 64 then .ok (product * axis.length)
  else .error .mapKeySpaceTooLarge

omit [DecidableEq N] in
/-- The number of tuples of the axes, when all products are `usize`. -/
def checkedFromAxes (axes : List (List (MapLiteralVariantKey N))) :
    Except (MapCoverageError N) ℕ :=
  axes.foldlM checkedMul 1

omit [DecidableEq N] in
def entryTuple (arity : ℕ) (axes : List (MapLiteralAxis N)) (keys : NonEmpty (MapEntryKey N)) :
    Except (MapCoverageError N) (List (MapLiteralVariantKey N)) :=
  (axes.zip keys.items).mapM fun item => item.1.selected arity item.2

/-- The tuples of the entries, in written order. -/
def providedTuples (arity : ℕ) (axes : List (MapLiteralAxis N)) :
    List (List (MapLiteralVariantKey N)) → List (NonEmpty (MapEntryKey N)) →
      Except (MapCoverageError N) (List (List (MapLiteralVariantKey N)))
  | provided, [] => .ok provided
  | provided, keys :: rest => do
    let tuple ← entryTuple arity axes keys
    if tuple ∈ provided then .error .duplicateMapEntry
    else providedTuples arity axes (provided ++ [tuple]) rest

/-- What the coverage is decided on. -/
structure Examined (N : Type) where
  axes : List (MapLiteralAxis N)
  variantKeys : List (List (MapLiteralVariantKey N))
  cardinality : ℕ
  provided : List (List (MapLiteralVariantKey N))

def examineEntries (registry : N → Option IndexKind) (entries : List (NonEmpty (MapEntryKey N))) :
    Except (MapCoverageError N) (Examined N) :=
  match entries with
  | [] => .error .emptyMapLiteral
  | first :: rest => do
    let arity := first.items.length
    rest.forM (checkArity arity)
    let axes ← first.items.mapM (axisOf registry)
    rest.forM (checkIndexes axes)
    let variantKeys ← axes.mapM MapLiteralAxis.variantKeys
    let cardinality ← checkedFromAxes variantKeys
    let provided ← providedTuples arity axes [] (first :: rest)
    return ⟨axes, variantKeys, cardinality, provided⟩

/-- The report on missing tuples; reading past an axis panics. -/
def reportMissing (examined : Examined N) (missingCount : ℕ) : Fault (MapCoverageError N) :=
  match examined.axes, examined.variantKeys with
  | [axis], [keys] =>
    .error (.missingVariants axis.index
      ((keys.filter fun key => [key] ∉ examined.provided).map MapLiteralVariantKey.entryKey))
  | _, _ =>
    match firstMissingMapTuple examined.variantKeys examined.provided with
    | none => .panic
    | some none => .error .internal
    | some (some missing) =>
      .error (.nonExhaustiveMapLiteral missingCount
        (missing.map MapLiteralVariantKey.coordinate))

/-- The coverage part of the inference of a map literal; it yields the axes of the literal's
type. -/
def inferHirMapLiteral (registry : N → Option IndexKind)
    (entries : Slice (NonEmpty (MapEntryKey N))) :
    Except (Fault (MapCoverageError N)) (List (MapLiteralAxis N)) :=
  match examineEntries registry entries.val with
  | .error error => .error (.error error)
  | .ok examined =>
    let missingCount := examined.cardinality - examined.provided.length
    if missingCount = 0 then .ok examined.axes
    else .error (reportMissing examined missingCount)

end ProvenGraphcal.MapLiteral
