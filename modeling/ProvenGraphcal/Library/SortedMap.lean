import Mathlib.Data.Finsupp.Defs
import Mathlib.Data.List.Lex
import Mathlib.Data.Prod.Lex

/-!
# Maps kept sorted by key

A finite map as the list of its entries, strictly sorted by key. Two maps with the same lookups
are equal, so structural equality is extensional, and the lexicographic order of the entry lists
makes a map usable as a key itself.
-/

namespace ProvenGraphcal

/-- A finite map whose entries stand in strictly ascending key order. -/
structure SortedMap (K V : Type*) [LinearOrder K] where
  entries : List (K × V)
  sorted : entries.Pairwise fun a b => a.1 < b.1

namespace SortedMap

variable {K V W : Type*} [LinearOrder K]

instance [DecidableEq V] : DecidableEq (SortedMap K V) := fun m m' =>
  decidable_of_iff (m.entries = m'.entries) ⟨fun h => by cases m; cases m'; congr, congrArg entries⟩

/-- The value of `k` among `entries`. -/
def lookup (k : K) : List (K × V) → Option V
  | [] => none
  | e :: rest => if k = e.1 then some e.2 else lookup k rest

def get? (m : SortedMap K V) (k : K) : Option V := lookup k m.entries

def keys (m : SortedMap K V) : List K := m.entries.map Prod.fst

def isEmpty (m : SortedMap K V) : Bool := m.entries.isEmpty

variable {k : K} {l : List (K × V)}

theorem lookup_eq_none : lookup k l = none ↔ k ∉ l.map Prod.fst := by
  induction l with
  | nil => simp [lookup]
  | cons e rest ih => by_cases h : k = e.1 <;> simp [lookup, h, ih]

variable {v : V}

theorem lookup_of_mem (hl : l.Pairwise fun a b => a.1 < b.1) (h : (k, v) ∈ l) :
    lookup k l = some v := by
  induction l with
  | nil => simp at h
  | cons e rest ih =>
    rw [List.pairwise_cons] at hl
    rcases List.mem_cons.mp h with rfl | h
    · simp [lookup]
    · have hlt := hl.1 (k, v) h
      simp only [lookup, if_neg hlt.ne']
      exact ih hl.2 h

theorem mem_of_lookup (h : lookup k l = some v) :
    (k, v) ∈ l := by
  induction l with
  | nil => simp [lookup] at h
  | cons e rest ih =>
    simp only [lookup] at h
    split_ifs at h with hk
    · obtain ⟨j, w⟩ := e
      simp only [Option.some.injEq] at h hk
      simp [hk, h]
    · exact List.mem_cons_of_mem _ (ih h)

variable {m : SortedMap K V}

theorem get?_eq_some :
    m.get? k = some v ↔ (k, v) ∈ m.entries :=
  ⟨mem_of_lookup, lookup_of_mem m.sorted⟩

theorem get?_eq_none : m.get? k = none ↔ k ∉ m.keys := lookup_eq_none

theorem keys_nodup (m : SortedMap K V) : m.keys.Nodup := by
  exact List.pairwise_map.mpr (m.sorted.imp fun h => h.ne)

theorem entries_nodup (m : SortedMap K V) : m.entries.Nodup :=
  List.Nodup.of_map _ m.keys_nodup

theorem mem_keys : k ∈ m.keys ↔ ∃ v, m.get? k = some v := by
  rw [← not_iff_not, ← get?_eq_none]
  simp [Option.eq_none_iff_forall_ne_some]

/-- A map is determined by its entries, in whatever order. -/
theorem ext_perm {m' : SortedMap K V} (h : m.entries.Perm m'.entries) : m = m' := by
  have he : m.entries = m'.entries := by
    refine h.eq_of_pairwise (fun a b _ _ hab hba => ?_) m.sorted m'.sorted
    exact absurd (hab.trans hba) (lt_irrefl _)
  cases m
  cases m'
  congr

/-- A map is determined by its lookups. -/
theorem ext_get? {m' : SortedMap K V} (h : ∀ k, m.get? k = m'.get? k) : m = m' := by
  have hmem : ∀ e, e ∈ m.entries ↔ e ∈ m'.entries := by
    rintro ⟨k, v⟩
    rw [← get?_eq_some, ← get?_eq_some, h]
  exact ext_perm ((List.perm_ext_iff_of_nodup m.entries_nodup m'.entries_nodup).mpr hmem)

/-! ## The empty map and point updates -/

def empty : SortedMap K V := ⟨[], List.Pairwise.nil⟩

instance : Inhabited (SortedMap K V) := ⟨empty⟩

@[simp] theorem get?_empty (k : K) : (empty : SortedMap K V).get? k = none := rfl

@[simp] theorem entries_empty : (empty : SortedMap K V).entries = [] := rfl

/-- Replace the entry of `k` among sorted `entries`: insert, overwrite or remove. -/
def setList (k : K) (v : Option V) : List (K × V) → List (K × V)
  | [] => v.toList.map (k, ·)
  | e :: rest =>
    if k < e.1 then v.toList.map (k, ·) ++ e :: rest
    else if k = e.1 then v.toList.map (k, ·) ++ rest
    else e :: setList k v rest

theorem mem_setList {v : Option V} {e : K × V} (h : e ∈ setList k v l) : e.1 = k ∨ e ∈ l := by
  induction l with
  | nil => cases v <;> simp_all [setList]
  | cons d rest ih =>
    simp only [setList] at h
    split_ifs at h
    · cases v <;> simp_all
      rcases h with rfl | h <;> simp_all
    · cases v <;> simp_all
      rcases h with rfl | h <;> simp_all
    · rcases List.mem_cons.mp h with rfl | h
      · simp
      · rcases ih h with h | h <;> simp [h]

theorem sorted_append_of_lt {v : Option V} (hl : l.Pairwise fun a b => a.1 < b.1)
    (hk : ∀ e ∈ l, k < e.1) :
    (v.toList.map (k, ·) ++ l).Pairwise fun a b => a.1 < b.1 := by
  cases v with
  | none => simpa using hl
  | some v => simpa using ⟨fun a b h => hk (a, b) h, hl⟩

theorem setList_sorted (k : K) (v : Option V) (hl : l.Pairwise fun a b => a.1 < b.1) :
    (setList k v l).Pairwise fun a b => a.1 < b.1 := by
  induction l with
  | nil => cases v <;> simp [setList]
  | cons e rest ih =>
    have ⟨he, hrest⟩ := List.pairwise_cons.mp hl
    simp only [setList]
    split_ifs with hlt heq
    · refine sorted_append_of_lt hl fun d hd => ?_
      rcases List.mem_cons.mp hd with rfl | hd
      · exact hlt
      · exact hlt.trans (he d hd)
    · exact sorted_append_of_lt hrest fun d hd => heq ▸ he d hd
    · refine List.pairwise_cons.mpr ⟨fun d hd => ?_, ih hrest⟩
      rcases mem_setList hd with hdk | hd
      · rw [hdk]
        exact lt_of_le_of_ne (not_lt.mp hlt) (Ne.symm heq)
      · exact he d hd

/-- The map with the entry of `k` replaced by `v`. -/
def set (m : SortedMap K V) (k : K) (v : Option V) : SortedMap K V :=
  ⟨setList k v m.entries, setList_sorted k v m.sorted⟩

def insert (m : SortedMap K V) (k : K) (v : V) : SortedMap K V := m.set k (some v)

theorem lookup_append_single (j k : K) (v : Option V) (l : List (K × V)) :
    lookup j (v.toList.map (k, ·) ++ l) = if j = k ∧ v.isSome then v else lookup j l := by
  cases v <;> simp [lookup]

theorem lookup_setList (j k : K) (v : Option V) (hl : l.Pairwise fun a b => a.1 < b.1) :
    lookup j (setList k v l) = if j = k then v else lookup j l := by
  induction l with
  | nil => cases v <;> simp [setList, lookup]
  | cons e rest ih =>
    have ⟨he, hrest⟩ := List.pairwise_cons.mp hl
    have hnot : ∀ i : K, (∀ d ∈ rest, i < d.1) → lookup i rest = none := by
      intro i hi
      rw [lookup_eq_none, List.mem_map]
      rintro ⟨d, hd, rfl⟩
      exact lt_irrefl _ (hi d hd)
    by_cases hj : j = k
    · subst hj
      simp only [setList, if_true]
      split_ifs with hlt heq
      · have hn := hnot j fun d hd => hlt.trans (he d hd)
        cases v <;> simp [lookup, hn, hlt.ne]
      · have hn := hnot j (heq ▸ he)
        cases v <;> simp [lookup, hn]
      · simp [lookup, heq, ih hrest]
    · simp only [setList, if_neg hj]
      split_ifs with hlt heq
      · simp [lookup_append_single, hj]
      · simp [lookup_append_single, hj, lookup, heq ▸ hj]
      · simp [lookup, ih hrest, hj]

@[simp] theorem get?_set (m : SortedMap K V) (j k : K) (v : Option V) :
    (m.set k v).get? j = if j = k then v else m.get? j := lookup_setList j k v m.sorted

@[simp] theorem get?_insert (m : SortedMap K V) (j k : K) (v : V) :
    (m.insert k v).get? j = if j = k then some v else m.get? j := get?_set m j k (some v)

theorem insert_entries_perm (h : m.get? k = none) :
    (m.insert k v).entries.Perm ((k, v) :: m.entries) := by
  refine (List.perm_ext_iff_of_nodup (entries_nodup _) ?_).mpr fun ⟨j, w⟩ => ?_
  · refine List.nodup_cons.mpr ⟨fun hmem => ?_, m.entries_nodup⟩
    rw [get?_eq_some.mpr hmem] at h
    cases h
  · rw [← get?_eq_some, get?_insert, List.mem_cons, Prod.mk.injEq, ← get?_eq_some]
    split_ifs with hj
    · simp [hj, h, eq_comm]
    · simp [hj]

/-- The map of a list of entries, later entries replacing earlier ones. -/
def ofList (l : List (K × V)) : SortedMap K V := l.foldl (fun m e => m.insert e.1 e.2) empty

theorem foldl_insert_perm (h : ((l ++ m.entries).map Prod.fst).Nodup) :
    (l.foldl (fun m e => m.insert e.1 e.2) m).entries.Perm (l ++ m.entries) := by
  induction l generalizing m with
  | nil => exact List.Perm.refl _
  | cons e rest ih =>
    have hnone : m.get? e.1 = none := by
      rw [get?_eq_none]
      intro hmem
      rw [List.cons_append, List.map_cons, List.nodup_cons, List.map_append] at h
      exact h.1 (List.mem_append_right _ hmem)
    have hperm := insert_entries_perm (v := e.2) hnone
    have hmiddle : (rest ++ (m.insert e.1 e.2).entries).Perm (e :: rest ++ m.entries) :=
      (hperm.append_left rest).trans List.perm_middle
    exact (ih ((hmiddle.map _).nodup_iff.mpr h)).trans hmiddle

/-- A list with distinct keys is the entries of its map, in some order. -/
theorem ofList_perm (h : (l.map Prod.fst).Nodup) :
    (ofList l).entries.Perm l := by
  have hnil : ((l ++ (empty : SortedMap K V).entries).map Prod.fst).Nodup := by simpa using h
  have hperm := foldl_insert_perm hnil
  rwa [entries_empty, List.append_nil] at hperm

/-- After inserting a list of entries, a key has its last value in the list, or else its old one. -/
theorem get?_foldl_insert_eq_some :
    (l.foldl (fun m e => m.insert e.1 e.2) m).get? k = some v ↔
      (∃ before after, l = before ++ (k, v) :: after ∧ k ∉ after.map Prod.fst) ∨
        k ∉ l.map Prod.fst ∧ m.get? k = some v := by
  induction l using List.reverseRecOn with
  | nil => simp
  | append_singleton l e ih =>
    obtain ⟨j, w⟩ := e
    rw [List.foldl_append, List.foldl_cons, List.foldl_nil, get?_insert]
    split_ifs with hk
    · subst hk
      constructor
      · intro hv
        cases hv
        exact .inl ⟨l, [], rfl, List.not_mem_nil⟩
      · rintro (⟨before, after, heq, hafter⟩ | ⟨hnot, -⟩)
        · rcases List.eq_nil_or_concat after with rfl | ⟨rest, last, rfl⟩
          · cases (List.append_inj' heq rfl).2
            rfl
          · rw [List.concat_eq_append, ← List.cons_append, ← List.append_assoc] at heq
            cases (List.append_inj' heq rfl).2
            simp at hafter
        · simp at hnot
    · rw [ih]
      refine or_congr ⟨?_, ?_⟩ (and_congr_left' (by simp [hk]))
      · rintro ⟨before, after, rfl, hafter⟩
        exact ⟨before, after ++ [(j, w)], by simp, by simpa [hk] using hafter⟩
      · rintro ⟨before, after, heq, hafter⟩
        rcases List.eq_nil_or_concat after with rfl | ⟨rest, last, rfl⟩
        · cases (List.append_inj' heq rfl).2
          exact absurd rfl hk
        · rw [List.concat_eq_append, ← List.cons_append, ← List.append_assoc] at heq
          rw [List.concat_eq_append, List.map_append, List.mem_append, not_or] at hafter
          exact ⟨before, rest, (List.append_inj' heq rfl).1, hafter.1⟩

theorem mem_of_get?_ofList (h : (ofList l).get? k = some v) :
    (k, v) ∈ l := by
  rcases get?_foldl_insert_eq_some.mp h with ⟨before, after, rfl, -⟩ | ⟨-, hempty⟩
  · exact List.mem_append_right _ List.mem_cons_self
  · cases hempty

/-- Inserting a list of entries keeps every key. -/
theorem get?_foldl_insert_ne_none (h : k ∈ l.map Prod.fst ∨ m.get? k ≠ none) :
    (l.foldl (fun m e => m.insert e.1 e.2) m).get? k ≠ none := by
  induction l generalizing m with
  | nil => exact h.resolve_left nofun
  | cons e rest ih =>
    refine ih (or_iff_not_imp_left.mpr fun hrest => ?_)
    rw [get?_insert]
    split_ifs with hk
    · exact nofun
    · exact h.resolve_left fun hmem => (List.mem_cons.mp hmem).elim hk hrest

/-- The map of a list has every key of the list. -/
theorem get?_ofList_ne_none (h : k ∈ l.map Prod.fst) :
    (ofList l).get? k ≠ none := get?_foldl_insert_ne_none (.inl h)

/-- Every value replaced by `f`, entries without a new value dropped. -/
def filterMap (f : K → V → Option W) (m : SortedMap K V) : SortedMap K W where
  entries := m.entries.filterMap fun e => (f e.1 e.2).map (e.1, ·)
  sorted := by
    refine List.Pairwise.filterMap _ (fun a b hab c hc d hd => ?_) m.sorted
    simp only [Option.map_eq_some_iff] at hc hd
    obtain ⟨_, _, rfl⟩ := hc
    obtain ⟨_, _, rfl⟩ := hd
    exact hab

@[simp] theorem get?_filterMap (f : K → V → Option W) (m : SortedMap K V) (k : K) :
    (m.filterMap f).get? k = (m.get? k).bind (f k) := by
  have hmem : ∀ w, (m.filterMap f).get? k = some w ↔ (m.get? k).bind (f k) = some w := by
    intro w
    rw [get?_eq_some, Option.bind_eq_some_iff]
    simp only [filterMap, List.mem_filterMap, Option.map_eq_some_iff, Prod.mk.injEq, get?_eq_some]
    constructor
    · rintro ⟨⟨j, v⟩, hv, u, hu, rfl, rfl⟩
      exact ⟨v, hv, hu⟩
    · rintro ⟨v, hv, hu⟩
      exact ⟨(k, v), hv, w, hu, rfl, rfl⟩
  exact Option.ext hmem

def map (f : V → W) (m : SortedMap K V) : SortedMap K W := m.filterMap fun _ v => some (f v)

@[simp] theorem get?_map (f : V → W) (m : SortedMap K V) (k : K) :
    (m.map f).get? k = (m.get? k).map f := by
  rw [map, get?_filterMap]
  cases m.get? k <;> rfl

/-- `BTreeMap::retain`. -/
def filter (p : K → V → Bool) (m : SortedMap K V) : SortedMap K V :=
  m.filterMap fun k v => if p k v then some v else none

/-- Maps compared as their entry lists, entries by key and then by value. -/
instance [LinearOrder V] : LinearOrder (SortedMap K V) :=
  LinearOrder.lift' (fun m => m.entries.map toLex) fun m m' h => by
    have he : m.entries = m'.entries := by
      have hinj : Function.Injective (toLex : K × V → K ×ₗ V) := toLex.injective
      exact (List.map_injective_iff.mpr hinj) h
    cases m
    cases m'
    congr

end SortedMap

end ProvenGraphcal
