import Mathlib.Data.List.Nodup

/-!
# Maps in insertion order

Entries with distinct keys in the order of their first insertion; an update keeps the position.
-/

namespace ProvenGraphcal

open List (lookup_cons map_cons map_map mem_map)

structure InsertionMap (K V : Type*) where
  entries : List (K × V)
  distinct : (entries.map Prod.fst).Nodup

namespace InsertionMap

variable {K V W : Type*}

def keys (m : InsertionMap K V) : List K := m.entries.map Prod.fst

def empty : InsertionMap K V := ⟨[], List.nodup_nil⟩

theorem map_fst_map (f : V → W) (l : List (K × V)) :
    (l.map fun e => (e.1, f e.2)).map Prod.fst = l.map Prod.fst := by
  rw [map_map]
  rfl

/-- The map of `f` applied to every value. -/
def map (m : InsertionMap K V) (f : V → W) : InsertionMap K W where
  entries := m.entries.map fun e => (e.1, f e.2)
  distinct := by
    rw [map_fst_map]
    exact m.distinct

variable [DecidableEq K]

def get? (m : InsertionMap K V) (k : K) : Option V := m.entries.lookup k

def contains (m : InsertionMap K V) (k : K) : Bool := (m.get? k).isSome

theorem map_fst_update (k : K) (f : V → V) (l : List (K × V)) :
    (l.map fun e => if e.1 = k then (e.1, f e.2) else e).map Prod.fst = l.map Prod.fst := by
  rw [map_map]
  refine List.map_congr_left fun e _ => ?_
  simp only [Function.comp_apply]
  split_ifs <;> rfl

/-- The value of `k`, if there is one, replaced by `f`. -/
def modify (m : InsertionMap K V) (k : K) (f : V → V) : InsertionMap K V where
  entries := m.entries.map fun e => if e.1 = k then (e.1, f e.2) else e
  distinct := by
    rw [map_fst_update]
    exact m.distinct

variable {m : InsertionMap K V} {k : K}

theorem get?_eq_none : m.get? k = none ↔ k ∉ m.keys := by
  rw [get?, List.lookup_eq_none_iff, keys, mem_map]
  constructor
  · rintro h ⟨e, he, rfl⟩
    exact absurd (h e he) (by simp)
  · intro h e he
    exact bne_iff_ne.mpr fun heq => h ⟨e, he, heq.symm⟩

theorem nodup_append_key (m : InsertionMap K V) (v : V) (h : m.get? k = none) :
    ((m.entries ++ [(k, v)]).map Prod.fst).Nodup := by
  rw [List.map_append, List.map_singleton, ← List.concat_eq_append]
  exact m.distinct.concat (get?_eq_none.mp h)

def insert (m : InsertionMap K V) (k : K) (v : V) : InsertionMap K V :=
  match h : m.get? k with
  | some _ => m.modify k fun _ => v
  | none => ⟨m.entries ++ [(k, v)], m.nodup_append_key v h⟩

theorem lookup_map_value (f : K → V → W) (k : K) (l : List (K × V)) :
    (l.map fun e => (e.1, f e.1 e.2)).lookup k = (l.lookup k).map (f k) := by
  induction l with
  | nil => rfl
  | cons e rest ih =>
    obtain ⟨j, v⟩ := e
    rw [map_cons]
    by_cases hk : k = j
    · simp [hk]
    · simp [lookup_cons, ih, beq_eq_false_iff_ne.mpr hk]

theorem lookup_update (f : V → V) (k k' : K) (l : List (K × V)) :
    (l.map fun e => if e.1 = k then (e.1, f e.2) else e).lookup k' =
      if k' = k then (l.lookup k').map f else l.lookup k' := by
  induction l with
  | nil => simp
  | cons e rest ih =>
    obtain ⟨j, v⟩ := e
    rw [map_cons]
    by_cases hj : j = k
    · subst hj
      by_cases hk : k' = j
      · simp [hk]
      · simp [hk, lookup_cons, ih, beq_eq_false_iff_ne.mpr hk]
    · by_cases hk : k' = j
      · simp [hk, hj]
      · simp [hj, lookup_cons, ih, beq_eq_false_iff_ne.mpr hk]

@[simp] theorem get?_empty (k : K) : (empty : InsertionMap K V).get? k = none := rfl

@[simp] theorem get?_map (m : InsertionMap K V) (f : V → W) (k : K) :
    (m.map f).get? k = (m.get? k).map f := lookup_map_value (fun _ => f) k m.entries

theorem get?_modify (m : InsertionMap K V) (k k' : K) (f : V → V) :
    (m.modify k f).get? k' = if k' = k then (m.get? k').map f else m.get? k' :=
  lookup_update f k k' m.entries

theorem get?_insert (m : InsertionMap K V) (k k' : K) (v : V) :
    (m.insert k v).get? k' = if k' = k then some v else m.get? k' := by
  unfold insert
  split
  case h_1 v' hv =>
    rw [get?_modify]
    split_ifs with h
    · rw [h, hv]
      rfl
    · rfl
  case h_2 hnone =>
    unfold get? at hnone ⊢
    rw [List.lookup_append]
    split_ifs with h
    · simp [h, hnone]
    · simp [lookup_cons, beq_eq_false_iff_ne.mpr h]

/-- The entries other than that of `k`. -/
def erase (m : InsertionMap K V) (k : K) : InsertionMap K V where
  entries := m.entries.filter fun e => decide (e.1 ≠ k)
  distinct := (m.distinct.sublist (List.filter_sublist.map Prod.fst))

theorem lookup_filter_ne (k k' : K) (l : List (K × V)) :
    (l.filter fun e => decide (e.1 ≠ k)).lookup k' = if k' = k then none else l.lookup k' := by
  induction l with
  | nil => simp
  | cons e rest ih =>
    obtain ⟨j, v⟩ := e
    by_cases hj : j = k
    · subst hj
      rw [List.filter_cons_of_neg (by simp), ih]
      by_cases hk : k' = j
      · simp [hk]
      · simp [hk, lookup_cons, beq_eq_false_iff_ne.mpr hk]
    · rw [List.filter_cons_of_pos (by simp [hj]), lookup_cons, ih]
      by_cases hk : k' = k
      · subst hk
        simp [beq_eq_false_iff_ne.mpr (Ne.symm hj)]
      · simp [hk, lookup_cons]

theorem get?_erase (m : InsertionMap K V) (k k' : K) :
    (m.erase k).get? k' = if k' = k then none else m.get? k' := lookup_filter_ne k k' m.entries

theorem mem_keys : k ∈ m.keys ↔ ∃ v, m.get? k = some v := by
  rw [← not_iff_not, ← get?_eq_none]
  simp [Option.eq_none_iff_forall_ne_some]

theorem contains_eq_false :
    m.contains k = false ↔ m.get? k = none := by
  rw [contains, Option.isSome_eq_false_iff, Option.isNone_iff_eq_none]

theorem mem_entries_iff {v : V} :
    (k, v) ∈ m.entries ↔ m.get? k = some v := by
  obtain ⟨l, hl⟩ := m
  change (k, v) ∈ l ↔ l.lookup k = some v
  induction l with
  | nil => simp
  | cons e rest ih =>
    obtain ⟨j, w⟩ := e
    rw [map_cons, List.nodup_cons] at hl
    rw [List.mem_cons, ih hl.2, lookup_cons]
    by_cases hk : k = j
    · subst hk
      have hnone : rest.lookup k ≠ some v := fun h =>
        hl.1 (mem_map.mpr ⟨(k, v), (ih hl.2).mpr h, rfl⟩)
      simp [hnone, eq_comm]
    · simp [hk, beq_eq_false_iff_ne.mpr hk]

variable {l : List (K × V)}

/-- Entries with distinct keys that are inserted replace those that were there. -/
theorem get?_foldl_insert (hl : (l.map Prod.fst).Nodup) (m : InsertionMap K V) (k : K) :
    (l.foldl (fun m e => m.insert e.1 e.2) m).get? k = (l.lookup k).or (m.get? k) := by
  induction l generalizing m with
  | nil => rfl
  | cons e rest ih =>
    obtain ⟨j, v⟩ := e
    rw [map_cons, List.nodup_cons] at hl
    rw [List.foldl_cons, ih hl.2, get?_insert, lookup_cons]
    by_cases hk : k = j
    · subst hk
      have hnone : rest.lookup k = none := by
        rw [List.lookup_eq_none_iff]
        intro e he
        exact bne_iff_ne.mpr fun heq => hl.1 (mem_map.mpr ⟨e, he, heq.symm⟩)
      rw [hnone, if_pos rfl, beq_self_eq_true]
      rfl
    · rw [if_neg hk, beq_eq_false_iff_ne.mpr hk]

/-- The entries inserted one after the other. -/
def ofList (l : List (K × V)) : InsertionMap K V := l.foldl (fun m e => m.insert e.1 e.2) empty

theorem foldl_insert_entries (h : ((m.entries ++ l).map Prod.fst).Nodup) :
    (l.foldl (fun m e => m.insert e.1 e.2) m).entries = m.entries ++ l := by
  induction l generalizing m with
  | nil => rw [List.foldl_nil, List.append_nil]
  | cons e rest ih =>
    have hnone : m.get? e.1 = none := by
      rw [get?_eq_none]
      rw [List.map_append, map_cons, List.nodup_append] at h
      exact fun hmem => h.2.2 _ hmem _ List.mem_cons_self rfl
    have hinsert : (m.insert e.1 e.2).entries = m.entries ++ [e] := by
      unfold insert
      split
      case h_1 v hv => rw [hnone] at hv; cases hv
      case h_2 => rfl
    rw [List.foldl_cons, ih, hinsert, List.append_assoc, List.singleton_append]
    rw [hinsert, List.append_assoc, List.singleton_append]
    exact h

/-- Entries with distinct keys are kept as they are. -/
theorem entries_ofList (h : (l.map Prod.fst).Nodup) :
    (ofList l).entries = l := foldl_insert_entries (m := empty) h

end InsertionMap

end ProvenGraphcal
