import ProvenGraphcal.MapLiteral.MapLayout

/-!
# Assertions that are expected to fail at some keys

Verdicts of an indexed assertion are inverted at the keys of the attribute, and the failing paths
of what is left are reported.
-/

namespace ProvenGraphcal.Assertion

open List (filter_map map_flatMap map_map mem_filter mem_map)

/-- A reference by canonical name, shown by its leaf. -/
structure TypeNameRef (R : Type) where
  name : String
  resolved : R

abbrev IndexRef (R : Type) := MapLiteral.IndexTypeRef (TypeNameRef R)

abbrev Axis (R : Type) := MapLiteral.IndexAxis (TypeNameRef R)

variable {R : Type}

def IndexRef.text : IndexRef R → String
  | .declared reference => reference.name
  | .finite size => "Fin(" ++ toString size ++ ")"

def IndexRef.isFinite : IndexRef R → Bool
  | .declared _ => false
  | .finite _ => true

/-- One axis segment of a key. -/
inductive ExpectedFailKeyPart (R : Type)
  | named (index : IndexRef R) (variant : String)
  | finitePosition (position : ℕ)

abbrev ExpectedFailKey (R : Type) := NonEmpty (ExpectedFailKeyPart R)

inductive ExpectedFail (R : Type)
  | all
  | variants (keys : NonEmpty (ExpectedFailKey R))

inductive AssertResult
  | pass
  | fail (message : String)
  | error (message : String)

/-- An unindexed operand, or an operand for each key of an axis. -/
inductive Leaves (R T : Type)
  | single (leaf : T)
  | indexed (axis : Axis R) (entries : Fin axis.len → Leaves R T)

abbrev Verdicts (R : Type) := Leaves R Bool

abbrev PathPart (R : Type) := IndexRef R × IndexEntryKey

/-- The index and the key of an entry. -/
def pathPart (axis : Axis R) (i : Fin axis.len) : PathPart R :=
  (axis.index, axis.keys.items.get i)

section Inversion

variable [DecidableEq R]

def IndexRef.matchesRef : IndexRef R → IndexRef R → Bool
  | .declared lhs, .declared rhs => lhs.resolved = rhs.resolved
  | .finite lhs, .finite rhs => lhs = rhs
  | _, _ => false

def ExpectedFailKeyPart.matchesEntry : ExpectedFailKeyPart R → PathPart R → Bool
  | named expected variant, (index, .named actual) =>
    IndexRef.matchesRef expected index && actual = variant
  | finitePosition position, (index, .position actual) =>
    IndexRef.isFinite index && actual = position
  | named _ _, (_, .position _) => false
  | finitePosition _, (_, .named _) => false

def expectedFailKeyMatchesPath (path : List (PathPart R)) (key : ExpectedFailKey R) : Bool :=
  decide (path.length = key.items.length) &&
    (path.zip key.items).all fun item => item.2.matchesEntry item.1

/-- The keys that go on below an entry, without their first part. -/
def subKeys (entry : PathPart R) (keys : List (ExpectedFailKey R)) : List (ExpectedFailKey R) :=
  (keys.filter fun key => (key.items.head key.nonempty).matchesEntry entry).filterMap fun key =>
    NonEmpty.tryFromVec key.items.tail

def invertEntry (entry : PathPart R) : Verdicts R → List (ExpectedFailKey R) → Verdicts R
  | .single verdict, keys =>
    let shouldInvert := keys.any fun key =>
      decide (key.items.length = 1) && (key.items.head key.nonempty).matchesEntry entry
    .single (if shouldInvert then !verdict else verdict)
  | .indexed axis entries, keys =>
    let subKeys := subKeys entry keys
    if subKeys.isEmpty then .indexed axis entries
    else .indexed axis fun i => invertEntry (pathPart axis i) (entries i) subKeys

def invertIndexedVariants (axis : Axis R) (entries : Fin axis.len → Verdicts R)
    (keys : List (ExpectedFailKey R)) : Fin axis.len → Verdicts R :=
  fun i => invertEntry (pathPart axis i) (entries i) keys

end Inversion

def failingPathsOfEntry (entry : PathPart R) : Verdicts R → List (List (PathPart R))
  | .single true => []
  | .single false => [[entry]]
  | .indexed axis entries =>
    ((List.finRange axis.len).flatMap fun i =>
      failingPathsOfEntry (pathPart axis i) (entries i)).map (entry :: ·)

def collectFailingPaths (axis : Axis R) (entries : Fin axis.len → Verdicts R) :
    List (List (PathPart R)) :=
  (List.finRange axis.len).flatMap fun i => failingPathsOfEntry (pathPart axis i) (entries i)

def formatIndexedPathPart : PathPart R → String
  | (index, .named variant) => IndexRef.text index ++ "#" ++ variant
  | (_, .position position) => (IndexEntryKey.position position).text

/-- Without several indexes the first part is shown; a path without parts panics. -/
def formatIndexedPaths (paths : List (List (PathPart R))) (isMultiIndex : Bool) : Option String :=
  if isMultiIndex then
    some (", ".intercalate (paths.map fun path =>
      "(" ++ ", ".intercalate (path.map formatIndexedPathPart) ++ ")"))
  else (paths.mapM fun path => (List.head? path).map formatIndexedPathPart).map (", ".intercalate ·)

/-- The report's part about some paths, when there are any. -/
def reportPart (label : String) (paths : List (List (PathPart R))) (isMultiIndex : Bool) :
    Option (List String) :=
  if paths.isEmpty then some []
  else (formatIndexedPaths paths isMultiIndex).map fun text => [label ++ text]

def checkIndexedAssert (axis : Axis R) (entries : Fin axis.len → Verdicts R) :
    Option AssertResult :=
  let paths := collectFailingPaths axis entries
  if paths.isEmpty then some .pass
  else
    let isMultiIndex := paths.any fun path => 1 < path.length
    (formatIndexedPaths paths isMultiIndex).map fun text => .fail ("failed at " ++ text)

def checkIndexedAssertWithExpectedFail [DecidableEq R] (axis : Axis R)
    (entries : Fin axis.len → Verdicts R) (keys : List (ExpectedFailKey R)) :
    Option AssertResult := do
  let paths := collectFailingPaths axis entries
  if paths.isEmpty then some .pass
  else
    let isKey := fun path => keys.any fun key => expectedFailKeyMatchesPath path key
    let isMultiIndex := paths.any fun path => 1 < path.length
    let passes ← reportPart "unexpected pass at " (paths.filter isKey) isMultiIndex
    let fails ← reportPart "failed at " (paths.filter fun path => !isKey path) isMultiIndex
    some (.fail ("; ".intercalate (passes ++ fails)))

def evaluateAssertBody : Verdicts R → Option AssertResult
  | .single true => some .pass
  | .single false => some (.fail "assertion evaluated to false")
  | .indexed axis entries => checkIndexedAssert axis entries

/-- The result of an assertion whose condition has these verdicts. -/
def evaluateAssertWithExpectedFail [DecidableEq R] (verdicts : Verdicts R) :
    Option (ExpectedFail R) → Option AssertResult
  | none => evaluateAssertBody verdicts
  | some .all =>
    (evaluateAssertBody verdicts).map fun
      | .pass => .fail "assertion passed but was marked #[expected_fail]"
      | .fail _ => .pass
      | .error message => .error message
  | some (.variants keys) =>
    match verdicts with
    | .single _ =>
      some (.error "assertion condition checked as an indexed Bool evaluated to Bool")
    | .indexed axis entries =>
      checkIndexedAssertWithExpectedFail axis (invertIndexedVariants axis entries keys.items)
        keys.items

/-- All leaves with their full paths, in axis order. -/
def Leaves.leaves {T : Type} : Leaves R T → List (List (PathPart R) × T)
  | single leaf => [([], leaf)]
  | indexed axis entries =>
    (List.finRange axis.len).flatMap fun i =>
      (entries i).leaves.map fun leaf => (pathPart axis i :: leaf.1, leaf.2)

/-- Paths name leaves. -/
theorem Leaves.nodup_leaves {T : Type} (value : Leaves R T) :
    (value.leaves.map Prod.fst).Nodup := by
  induction value with
  | single leaf => exact List.nodup_singleton []
  | indexed axis entries ih =>
    rw [leaves, map_flatMap, List.nodup_flatMap]
    refine ⟨fun i _ => ?_, ?_⟩
    · have hmap : ((entries i).leaves.map fun leaf => (pathPart axis i :: leaf.1, leaf.2)).map
          Prod.fst = ((entries i).leaves.map Prod.fst).map (pathPart axis i :: ·) := by
        rw [map_map, map_map]
        rfl
      rw [hmap]
      exact (ih i).map List.cons_injective
    · apply (List.nodup_finRange axis.len).imp
      intro i j hij path hi hj
      obtain ⟨leaf, hleaf, rfl⟩ := mem_map.mp hi
      obtain ⟨leaf', hleaf', heq⟩ := mem_map.mp hj
      obtain ⟨inner, -, rfl⟩ := mem_map.mp hleaf
      obtain ⟨inner', -, rfl⟩ := mem_map.mp hleaf'
      have hkey : axis.keys.items.get j = axis.keys.items.get i :=
        congrArg Prod.snd (List.cons.inj heq).1
      exact hij (axis.nodup.injective_get hkey).symm

variable {keys : List (ExpectedFailKey R)} {path : List (PathPart R)}

section Keys

variable [DecidableEq R]

/-- The parts of the key are those of the path, one by one. -/
abbrev KeyNames (key : ExpectedFailKey R) (path : List (PathPart R)) : Prop :=
  List.Forall₂ (fun entry part => ExpectedFailKeyPart.matchesEntry part entry = true) path key.items

theorem expectedFailKeyMatchesPath_iff {key : ExpectedFailKey R} :
    expectedFailKeyMatchesPath path key = true ↔ KeyNames key path := by
  rw [expectedFailKeyMatchesPath, KeyNames, List.forall₂_iff_zip, Bool.and_eq_true,
    decide_eq_true_eq, List.all_eq_true]
  constructor
  · rintro ⟨hlength, hall⟩
    exact ⟨hlength, fun hmem => hall _ hmem⟩
  · rintro ⟨hlength, hall⟩
    exact ⟨hlength, fun item hmem => hall hmem⟩

instance (key : ExpectedFailKey R) (path : List (PathPart R)) : Decidable (KeyNames key path) :=
  decidable_of_iff _ expectedFailKeyMatchesPath_iff

/-- One of the keys names the path. -/
abbrev IsKey (keys : List (ExpectedFailKey R)) (path : List (PathPart R)) : Prop :=
  ∃ key ∈ keys, KeyNames key path

theorem any_expectedFailKeyMatchesPath :
    (keys.any fun key => expectedFailKeyMatchesPath path key) = decide (IsKey keys path) := by
  rw [Bool.eq_iff_iff, List.any_eq_true, decide_eq_true_eq]
  simp only [expectedFailKeyMatchesPath_iff]

theorem isKey_singleton {entry : PathPart R} :
    (keys.any fun key => decide (key.items.length = 1) &&
      (key.items.head key.nonempty).matchesEntry entry) = decide (IsKey keys [entry]) := by
  rw [Bool.eq_iff_iff, List.any_eq_true, decide_eq_true_eq]
  have hkey : ∀ key : ExpectedFailKey R, (decide (key.items.length = 1) &&
      (key.items.head key.nonempty).matchesEntry entry) = true ↔ KeyNames key [entry] := by
    rintro ⟨_ | ⟨part, parts⟩, hne⟩
    · exact absurd rfl hne
    · rw [Bool.and_eq_true, decide_eq_true_eq, List.length_cons, KeyNames, List.forall₂_cons,
        List.forall₂_nil_left_iff, Nat.add_eq_right, List.length_eq_zero_iff, and_comm]
      rfl
  simp only [hkey]

/-- Below an entry, the stripped keys name what the keys name from above. -/
theorem isKey_subKeys {entry next : PathPart R} :
    IsKey (subKeys entry keys) (next :: path) ↔ IsKey keys (entry :: next :: path) := by
  constructor
  · rintro ⟨sub, hsub, hnames⟩
    obtain ⟨key, hkey, htail⟩ := List.mem_filterMap.mp hsub
    obtain ⟨hmem, hhead⟩ := mem_filter.mp hkey
    rw [NonEmpty.tryFromVec_eq_some] at htail
    refine ⟨key, hmem, ?_⟩
    rw [KeyNames, htail] at hnames
    rw [KeyNames, ← List.cons_head_tail key.nonempty]
    exact .cons hhead hnames
  · rintro ⟨⟨_ | ⟨part, _ | ⟨part', parts⟩⟩, hne⟩, hmem, hnames⟩
    · exact absurd rfl hne
    · cases hnames with
      | cons _ hrest => cases hrest
    · cases hnames with
      | cons hhead hrest =>
        refine ⟨⟨part' :: parts, List.cons_ne_nil _ _⟩, ?_, hrest⟩
        refine List.mem_filterMap.mpr ⟨_, mem_filter.mpr ⟨hmem, hhead⟩, ?_⟩
        exact NonEmpty.tryFromVec_eq_some.mpr rfl

end Keys

/-!
# What an inverted assertion reports
-/

section Inversion

variable [DecidableEq R]

/-- The verdict of a leaf after inversion. -/
def inverted (keys : List (ExpectedFailKey R)) (leaf : List (PathPart R) × Bool) :
    List (PathPart R) × Bool :=
  (leaf.1, if IsKey keys leaf.1 then !leaf.2 else leaf.2)

theorem leaves_invertEntry (entry : PathPart R) (value : Verdicts R)
    (keys : List (ExpectedFailKey R)) :
    ((invertEntry entry value keys).leaves.map fun leaf => (entry :: leaf.1, leaf.2)) =
      (value.leaves.map fun leaf => (entry :: leaf.1, leaf.2)).map (inverted keys) := by
  induction value generalizing entry keys with
  | single verdict =>
    rw [invertEntry]
    rw [isKey_singleton]
    simp only [Leaves.leaves, List.map_singleton, inverted, decide_eq_true_eq]
  | indexed axis entries ih =>
    have hleaf : ∀ i, ((entries i).leaves.map fun leaf =>
        (pathPart axis i :: leaf.1, leaf.2)).map (inverted (subKeys entry keys)) =
        (entries i).leaves.map fun leaf => (pathPart axis i :: leaf.1,
          (inverted keys (entry :: pathPart axis i :: leaf.1, leaf.2)).2) := by
      intro i
      rw [map_map]
      apply List.map_congr_left
      intro leaf _
      simp only [Function.comp, inverted, isKey_subKeys]
    have hright : ((Leaves.indexed axis entries).leaves.map fun leaf =>
        (entry :: leaf.1, leaf.2)).map (inverted keys) =
        ((List.finRange axis.len).flatMap fun i => (entries i).leaves.map fun leaf =>
          (pathPart axis i :: leaf.1,
            (inverted keys (entry :: pathPart axis i :: leaf.1, leaf.2)).2)).map
          fun leaf => (entry :: leaf.1, leaf.2) := by
      rw [Leaves.leaves, map_flatMap, map_flatMap, map_flatMap]
      simp only [map_map]
      rfl
    rw [hright, invertEntry]
    split_ifs with hempty
    · -- no key goes on below the entry
      rw [Leaves.leaves]
      congr 2
      funext i
      rw [← hleaf, List.isEmpty_iff.mp hempty, map_map]
      apply List.map_congr_left
      intro leaf _
      simp [inverted]
    · rw [Leaves.leaves]
      congr 2
      funext i
      rw [ih, hleaf]

/-- Inversion flips the leaves that a key names. -/
theorem leaves_invertIndexedVariants (axis : Axis R) (entries : Fin axis.len → Verdicts R)
    (keys : List (ExpectedFailKey R)) :
    (Leaves.indexed axis (invertIndexedVariants axis entries keys)).leaves =
      (Leaves.indexed axis entries).leaves.map (inverted keys) := by
  rw [Leaves.leaves, Leaves.leaves, map_flatMap]
  congr 1
  funext i
  exact leaves_invertEntry _ _ _

theorem invertEntry_invertEntry (entry : PathPart R) (value : Verdicts R)
    (keys : List (ExpectedFailKey R)) :
    invertEntry entry (invertEntry entry value keys) keys = value := by
  induction value generalizing entry keys with
  | single verdict =>
    rw [invertEntry]
    rw [invertEntry]
    split_ifs
    · rw [Bool.not_not]
    · rfl
  | indexed axis entries ih =>
    rw [invertEntry]
    split_ifs with hempty
    · rw [invertEntry]
      exact if_pos hempty
    · rw [invertEntry, if_neg hempty]
      congr 1
      funext i
      exact ih _ _ _

theorem invertIndexedVariants_invertIndexedVariants (axis : Axis R)
    (entries : Fin axis.len → Verdicts R) (keys : List (ExpectedFailKey R)) :
    invertIndexedVariants axis (invertIndexedVariants axis entries keys) keys = entries := by
  funext i
  exact invertEntry_invertEntry _ _ _

end Inversion

theorem failingPathsOfEntry_eq (entry : PathPart R) (value : Verdicts R) :
    failingPathsOfEntry entry value =
      (value.leaves.filter fun leaf => !leaf.2).map fun leaf => entry :: leaf.1 := by
  induction value generalizing entry with
  | single verdict =>
    cases verdict with
    | true => rfl
    | false => rfl
  | indexed axis entries ih =>
    rw [failingPathsOfEntry, Leaves.leaves, List.filter_flatMap, map_flatMap,
      map_flatMap]
    congr 1
    funext i
    rw [ih, filter_map, map_map, map_map]
    rfl

theorem collectFailingPaths_eq (axis : Axis R) (entries : Fin axis.len → Verdicts R) :
    collectFailingPaths axis entries =
      ((Leaves.indexed axis entries).leaves.filter fun leaf => !leaf.2).map Prod.fst := by
  rw [collectFailingPaths, Leaves.leaves, List.filter_flatMap, map_flatMap]
  congr 1
  funext i
  rw [failingPathsOfEntry_eq, filter_map, map_map]
  rfl

theorem ne_nil_of_mem_leaves {T : Type} {axis : Axis R} {entries : Fin axis.len → Leaves R T}
    {leaf : List (PathPart R) × T} (h : leaf ∈ (Leaves.indexed axis entries).leaves) :
    leaf.1 ≠ [] := by
  obtain ⟨i, -, hleaf⟩ := List.mem_flatMap.mp h
  obtain ⟨inner, -, rfl⟩ := mem_map.mp hleaf
  exact List.cons_ne_nil _ _

/-! ## The report -/

/-- A path in full. -/
def pathText (isMultiIndex : Bool) (path : List (PathPart R)) : String :=
  let text := ", ".intercalate (path.map formatIndexedPathPart)
  if isMultiIndex then "(" ++ text ++ ")" else text

/-- All paths with a label in front, when there are any. -/
def listed (label : String) (paths : List (List (PathPart R))) (isMultiIndex : Bool) :
    List String :=
  if paths.isEmpty then []
  else [label ++ ", ".intercalate (paths.map (pathText isMultiIndex))]

variable {isMultiIndex : Bool} {paths : List (List (PathPart R))}

section

variable (h : isMultiIndex = false → ∀ path ∈ paths, path.length = 1)

include h

theorem formatIndexedPaths_eq :
    formatIndexedPaths paths isMultiIndex =
      some (", ".intercalate (paths.map (pathText isMultiIndex))) := by
  unfold formatIndexedPaths
  cases isMultiIndex with
  | true => rfl
  | false =>
    have hmap : (paths.mapM fun path => (List.head? path).map formatIndexedPathPart) =
        some (paths.map (pathText false)) := by
      have hone := h rfl
      clear h
      induction paths with
      | nil => rfl
      | cons path paths ih =>
        obtain ⟨part, rfl⟩ := List.length_eq_one_iff.mp (hone path List.mem_cons_self)
        rw [List.mapM_cons, ih fun path hpath => hone path (List.mem_cons_of_mem _ hpath)]
        rfl
    rw [if_neg (by decide), hmap]
    rfl

theorem reportPart_eq {label : String} :
    reportPart label paths isMultiIndex = some (listed label paths isMultiIndex) := by
  unfold reportPart listed
  split_ifs
  · rfl
  · rw [formatIndexedPaths_eq h]
    rfl

end

section Report

variable [DecidableEq R]

/-- The leaves whose verdict is not the expected one. -/
def offending (keys : List (ExpectedFailKey R)) (leaves : List (List (PathPart R) × Bool)) :
    List (List (PathPart R) × Bool) :=
  leaves.filter fun leaf => decide (IsKey keys leaf.1) == leaf.2

theorem collectFailingPaths_inverted (axis : Axis R) (entries : Fin axis.len → Verdicts R)
    (keys : List (ExpectedFailKey R)) :
    collectFailingPaths axis (invertIndexedVariants axis entries keys) =
      (offending keys (Leaves.indexed axis entries).leaves).map Prod.fst := by
  rw [collectFailingPaths_eq, leaves_invertIndexedVariants, filter_map, map_map]
  congr 1
  apply List.filter_congr
  intro leaf _
  simp only [Function.comp, inverted]
  by_cases hkey : IsKey keys leaf.1
  · simp [hkey]
  · simp [hkey]

/-- An assertion with keys passes when just the leaves at its keys fail, and reports every other
leaf once. -/
theorem expected_fail_variants (axis : Axis R) (entries : Fin axis.len → Verdicts R)
    (keys : NonEmpty (ExpectedFailKey R)) :
    let leaves := (Leaves.indexed axis entries).leaves
    let result := evaluateAssertWithExpectedFail (.indexed axis entries) (some (.variants keys))
    let paths := (offending keys.items leaves).map Prod.fst
    let isMultiIndex := paths.any fun path => 1 < path.length
    (leaves.map Prod.fst).Nodup ∧
    (result = some .pass ↔ ∀ leaf ∈ leaves, leaf.2 = false ↔ IsKey keys.items leaf.1) ∧
    (paths ≠ [] → result = some (.fail ("; ".intercalate
      (listed "unexpected pass at " (paths.filter fun path => IsKey keys.items path) isMultiIndex ++
        listed "failed at " (paths.filter fun path => ¬ IsKey keys.items path) isMultiIndex)))) ∧
    invertIndexedVariants axis (invertIndexedVariants axis entries keys.items) keys.items =
      entries := by
  intro leaves result paths isMultiIndex
  have hpaths : collectFailingPaths axis (invertIndexedVariants axis entries keys.items) = paths :=
    collectFailingPaths_inverted axis entries keys.items
  have hresult : result = checkIndexedAssertWithExpectedFail axis
      (invertIndexedVariants axis entries keys.items) keys.items := rfl
  rw [checkIndexedAssertWithExpectedFail, hpaths] at hresult
  have hfail : paths ≠ [] → result = some (.fail ("; ".intercalate
      (listed "unexpected pass at " (paths.filter fun path => IsKey keys.items path) isMultiIndex ++
        listed "failed at " (paths.filter fun path => ¬ IsKey keys.items path)
          isMultiIndex))) := by
    intro hne
    -- without several indexes all paths have one part
    have hone : isMultiIndex = false → ∀ path ∈ paths, path.length = 1 := by
      intro hmulti path hpath
      have hshort := List.any_eq_false.mp hmulti path hpath
      rw [decide_eq_true_eq] at hshort
      obtain ⟨leaf, hleaf, rfl⟩ := mem_map.mp hpath
      have hpos := List.length_pos_iff.mpr (ne_nil_of_mem_leaves (mem_filter.mp hleaf).1)
      omega
    rw [if_neg (by rwa [List.isEmpty_iff])] at hresult
    simp only [any_expectedFailKeyMatchesPath] at hresult
    have hpart : ∀ (label : String) (isListed : List (PathPart R) → Bool),
        reportPart label (paths.filter isListed) isMultiIndex =
          some (listed label (paths.filter isListed) isMultiIndex) := by
      intro label isListed
      apply reportPart_eq
      intro hmulti path hpath
      exact hone hmulti path (mem_filter.mp hpath).1
    rw [hresult, hpart, Option.bind_eq_bind, Option.bind_some, hpart, Option.bind_some]
    simp only [decide_not]
  refine ⟨Leaves.nodup_leaves _, ?_, hfail,
    invertIndexedVariants_invertIndexedVariants axis entries keys.items⟩
  have hempty : paths = [] ↔ ∀ leaf ∈ leaves, leaf.2 = false ↔ IsKey keys.items leaf.1 := by
    rw [List.map_eq_nil_iff, offending, List.filter_eq_nil_iff]
    apply forall₂_congr
    intro leaf _
    cases leaf.2 <;> simp
  rw [← hempty]
  constructor
  · intro hpass
    by_contra hne
    rw [hfail hne] at hpass
    cases hpass
  · intro hnil
    rw [hresult, hnil]
    rfl

end Report

end ProvenGraphcal.Assertion
