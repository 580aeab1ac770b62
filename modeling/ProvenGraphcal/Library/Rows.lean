import Mathlib.Data.List.Nodup
import Mathlib.Data.Set.List
import ProvenGraphcal.Library.Checked

/-!
# Checked rows

Computations over the rows of a table that fail at a row, and what they give on a part of the rows.
-/

namespace ProvenGraphcal.Rows

open List (ext_getElem? length_map length_range length_zipIdx mapM_cons map_id')

variable {α β γ ε : Type}

/-- The `n` rows from `o` on. -/
def cut (o n : ℕ) (rows : List α) : List α := (rows.drop o).take n

theorem getElem?_cut (o n : ℕ) (rows : List α) (i : ℕ) :
    (cut o n rows)[i]? = if i < n then rows[o + i]? else none := by
  rw [cut, List.getElem?_take, List.getElem?_drop]

variable {i : ℕ}

theorem getElem?_cut_of_lt {o n : ℕ} {rows : List α} (h : i < n) :
    (cut o n rows)[i]? = rows[o + i]? := by
  rw [getElem?_cut, if_pos h]

theorem length_cut {o n : ℕ} {rows : List α} (h : o + n ≤ rows.length) :
    (cut o n rows).length = n := by
  rw [cut, List.length_take, List.length_drop]
  omega

theorem map_cut (f : α → β) (o n : ℕ) (rows : List α) :
    (cut o n rows).map f = cut o n (rows.map f) := by
  rw [cut, cut, List.map_take, List.map_drop]

theorem cut_eq {o n : ℕ} {rows part : List α} (hlen : part.length = n)
    (hrow : ∀ i < n, part[i]? = rows[o + i]?) : part = cut o n rows := by
  refine ext_getElem? fun i => ?_
  rw [getElem?_cut]
  split_ifs with hi
  · exact hrow i hi
  · exact List.getElem?_eq_none (by omega)

variable {l : List α} {r : List β} {f : α → Except ε β}

theorem mapM_eq_ok_iff :
    l.mapM f = .ok r ↔
      r.length = l.length ∧ ∀ (i : ℕ) a, l[i]? = some a → ∃ b, r[i]? = some b ∧ f a = .ok b := by
  rw [Checked.mapM_eq_ok, List.forall₂_iff_get]
  refine ⟨fun h => ⟨h.1.symm, fun i a ha => ?_⟩, fun h => ⟨h.1.symm, fun i hl hr => ?_⟩⟩
  · obtain ⟨hi, rfl⟩ := List.getElem?_eq_some_iff.mp ha
    exact ⟨_, List.getElem?_eq_getElem _, h.2 i hi (h.1 ▸ hi)⟩
  · obtain ⟨b, hb, hf⟩ := h.2 i _ (List.getElem?_eq_getElem hl)
    rw [List.getElem?_eq_getElem hr] at hb
    cases hb
    exact hf

variable {e : ε}

/-- A list of checks fails at the first element that fails. -/
theorem mapM_eq_error_iff :
    l.mapM f = .error e ↔ ∃ (i : ℕ) (a : α), l[i]? = some a ∧ f a = .error e ∧
      ∀ j < i, ∀ a', l[j]? = some a' → ∃ b, f a' = .ok b := by
  induction l with
  | nil =>
    refine ⟨fun h => ?_, fun ⟨i, a, ha, _⟩ => (nomatch ha)⟩
    cases h
  | cons a rest ih =>
    rw [mapM_cons, Checked.bind_eq_error]
    constructor
    · rintro (h | ⟨b, hb, h⟩)
      · exact ⟨0, a, rfl, h, fun j hj => absurd hj (Nat.not_lt_zero j)⟩
      · have hrest : rest.mapM f = .error e := by
          rcases Checked.bind_eq_error.mp h with h | ⟨_, _, h⟩
          · exact h
          · cases h
        obtain ⟨i, a', ha', hf, hbefore⟩ := ih.mp hrest
        refine ⟨i + 1, a', ha', hf, fun j hj a'' ha'' => ?_⟩
        cases j with
        | zero =>
          cases ha''
          exact ⟨b, hb⟩
        | succ j => exact hbefore j (Nat.lt_of_succ_lt_succ hj) a'' ha''
    · rintro ⟨i, a', ha', hf, hbefore⟩
      cases i with
      | zero =>
        cases ha'
        exact .inl hf
      | succ i =>
        obtain ⟨b, hb⟩ := hbefore 0 (Nat.succ_pos i) a rfl
        have hrest := ih.mpr ⟨i, a', ha', hf, fun j hj => hbefore (j + 1) (Nat.succ_lt_succ hj)⟩
        exact .inr ⟨b, hb, by rw [hrest]; rfl⟩

theorem mapM_ok_of_forall {g : α → β} (h : ∀ a ∈ l, f a = .ok (g a)) :
    l.mapM f = .ok (l.map g) := by
  induction l with
  | nil => rfl
  | cons a rest ih =>
    rw [List.forall_mem_cons] at h
    rw [mapM_cons, h.1, ih h.2]
    rfl

variable {make : α → β}

/-- Reading back what was written. -/
theorem mapM_inverse {f : β → Except ε α} (h : ∀ a ∈ l, f (make a) = .ok a) :
    (l.map make).mapM f = .ok l := by
  rw [List.mapM_map]
  exact (mapM_ok_of_forall h).trans (congrArg Except.ok (map_id' l))

/-- A step that succeeds at every position, with a property of the position. -/
theorem exists_mapM {P : ℕ → β → Prop}
    (h : ∀ (i : ℕ) a, l[i]? = some a → ∃ b, f a = .ok b ∧ P i b) :
    ∃ r, l.mapM f = .ok r ∧ r.length = l.length ∧ ∀ (i : ℕ) b, r[i]? = some b → P i b := by
  induction l generalizing P with
  | nil => exact ⟨[], rfl, rfl, fun i b hb => (nomatch hb)⟩
  | cons a rest ih =>
    obtain ⟨b, hb, hfirst⟩ := h 0 a rfl
    obtain ⟨r, hr, hlength, hrest⟩ := ih fun i a' ha' => h (i + 1) a' ha'
    refine ⟨b :: r, by rw [mapM_cons, hb, hr]; rfl, congrArg (· + 1) hlength, fun i b' hb' => ?_⟩
    cases i with
    | zero => exact Option.some.inj hb' ▸ hfirst
    | succ i => exact hrest i b' hb'

/-- `iter().enumerate().map(step).collect()`. -/
def collectRows (step : α → ℕ → Except ε β) (l : List α) : Except ε (List β) :=
  l.zipIdx.mapM fun entry => step entry.1 entry.2

variable {step : α → ℕ → Except ε β}

theorem collectRows_eq_ok :
    collectRows step l = .ok r ↔ r.length = l.length ∧
      ∀ (i : ℕ) a, l[i]? = some a → ∃ b, r[i]? = some b ∧ step a i = .ok b := by
  rw [collectRows, mapM_eq_ok_iff, length_zipIdx]
  refine and_congr_right fun _ => ⟨fun h i a ha => ?_, fun h i entry hentry => ?_⟩
  · exact h i (a, i) (by rw [List.getElem?_zipIdx, ha, Nat.zero_add]; rfl)
  · rw [List.getElem?_zipIdx] at hentry
    obtain ⟨a, ha, rfl⟩ := Option.map_eq_some_iff.mp hentry
    rw [Nat.zero_add]
    exact h i a ha

theorem collectRows_map {step : β → ℕ → Except ε γ} {result : α → γ}
    (h : ∀ a ∈ l, ∀ row, step (make a) row = .ok (result a)) :
    collectRows step (l.map make) = .ok (l.map result) := by
  refine collectRows_eq_ok.mpr ⟨by rw [length_map, length_map], fun i b hb => ?_⟩
  rw [List.getElem?_map] at hb
  obtain ⟨a, ha, rfl⟩ := Option.map_eq_some_iff.mp hb
  exact ⟨result a, by rw [List.getElem?_map, ha]; rfl, h a (List.mem_of_getElem? ha) i⟩

theorem forall₂_of_collectRows {P : α → β → Prop} (h : collectRows step l = .ok r)
    (hstep : ∀ a row b, step a row = .ok b → P a b) : List.Forall₂ P l r := by
  obtain ⟨hlen, hrows⟩ := collectRows_eq_ok.mp h
  refine List.forall₂_iff_get.mpr ⟨hlen.symm, fun i hl hr => ?_⟩
  obtain ⟨b, hb, hs⟩ := hrows i _ (List.getElem?_eq_getElem hl)
  rw [List.getElem?_eq_getElem hr] at hb
  cases hb
  exact hstep _ _ _ hs

/-- Reading back what was written in each of the rows. -/
theorem collectRows_inverse {step : β → ℕ → Except ε α}
    (h : ∀ a ∈ l, ∀ row, step (make a) row = .ok a) : collectRows step (l.map make) = .ok l :=
  (collectRows_map h).trans (congrArg Except.ok (map_id' l))

theorem range_mapM_eq_ok {step : ℕ → Except ε β} {n : ℕ} {rows : List β} :
    (List.range n).mapM step = .ok rows ↔
      rows.length = n ∧ ∀ i < n, ∃ b, rows[i]? = some b ∧ step i = .ok b := by
  rw [mapM_eq_ok_iff, length_range]
  refine and_congr_right fun _ => ⟨fun h i hi => h i i (List.getElem?_range hi), fun h i a ha => ?_⟩
  obtain ⟨hi, rfl⟩ := List.getElem?_eq_some_iff.mp ha
  rw [length_range] at hi
  rw [List.getElem_range]
  exact h i hi

theorem range_mapM_ok {step : ℕ → Except ε β} {n : ℕ} {rows : List β} (hlen : rows.length = n)
    (h : ∀ (i : ℕ) b, rows[i]? = some b → step i = .ok b) : (List.range n).mapM step = .ok rows :=
  range_mapM_eq_ok.mpr ⟨hlen, fun i hi =>
    have hrow := List.getElem?_eq_getElem (hlen.symm ▸ hi)
    ⟨_, hrow, h i _ hrow⟩⟩

/-- Values of one shape are made of their contents. -/
theorem exists_map_of_forall {values : List β} (h : ∀ value ∈ values, ∃ a, make a = value) :
    ∃ found : List α, found.map make = values := by
  have hmem : values ∈ Set.range (List.map make) := by
    rw [Set.range_list_map]
    exact h
  exact hmem

/-- The positions of the elements with a property. -/
def positions (p : α → Bool) (l : List α) : List ℕ :=
  (l.zipIdx.filter fun entry => p entry.1).map Prod.snd

variable {p : α → Bool}

theorem mem_positions :
    i ∈ positions p l ↔ ∃ a, l[i]? = some a ∧ p a = true := by
  rw [positions, List.mem_map]
  constructor
  · rintro ⟨⟨a, j⟩, hmem, rfl⟩
    obtain ⟨hentry, hp⟩ := List.mem_filter.mp hmem
    exact ⟨a, List.mem_zipIdx_iff_getElem?.mp hentry, hp⟩
  · rintro ⟨a, ha, hp⟩
    exact ⟨(a, i), List.mem_filter.mpr ⟨List.mem_zipIdx_iff_getElem?.mpr ha, hp⟩, rfl⟩

theorem nodup_positions (p : α → Bool) (l : List α) : (positions p l).Nodup := by
  have hall : (l.zipIdx.map Prod.snd).Nodup := by
    rw [List.zipIdx_map_snd]
    exact List.nodup_range'
  exact hall.sublist (List.filter_sublist.map Prod.snd)

theorem positions_eq_singleton :
    positions p l = [i] ↔ ∀ j, (∃ a, l[j]? = some a ∧ p a = true) ↔ j = i := by
  rw [← List.perm_singleton, List.perm_ext_iff_of_nodup (nodup_positions p l)
    (List.nodup_singleton i)]
  refine forall_congr' fun j => ?_
  rw [mem_positions, List.mem_singleton]

theorem positions_map {f : β → α} {q : β → Bool} {l : List β} (h : ∀ b ∈ l, p (f b) = q b) :
    positions p (l.map f) = positions q l := by
  rw [positions, positions, List.zipIdx_map, List.filter_map, List.map_map]
  have hfilter : l.zipIdx.filter ((fun entry => p entry.1) ∘ Prod.map f id) =
      l.zipIdx.filter fun entry => q entry.1 :=
    List.filter_congr fun entry hmem => h entry.1 (List.fst_mem_of_mem_zipIdx hmem)
  rw [hfilter]
  rfl

/-- `slice::chunks`. -/
def chunks (size : ℕ) (entries : List α) : List (List α) :=
  (List.range ((entries.length + size - 1) / size)).map fun chunk =>
    (entries.drop (chunk * size)).take size

variable {rows : List (List α)} {size : ℕ}

theorem take_drop_flatten (h : ∀ row ∈ rows, row.length = size) {row : List α}
    (hi : rows[i]? = some row) :
    (rows.flatten.drop (i * size)).take size = row := by
  induction rows generalizing i with
  | nil => cases hi
  | cons first rest ih =>
    rw [List.forall_mem_cons] at h
    rw [List.flatten_cons]
    cases i with
    | zero =>
      cases hi
      rw [Nat.zero_mul, List.drop_zero, List.take_left' h.1]
    | succ i =>
      rw [Nat.succ_mul, Nat.add_comm, List.drop_append, h.1, Nat.add_sub_cancel_left,
        List.drop_eq_nil_of_le (by omega), List.nil_append]
      exact ih h.2 hi

theorem length_flatten (h : ∀ row ∈ rows, row.length = size) :
    rows.flatten.length = size * rows.length := by
  induction rows with
  | nil => rfl
  | cons first rest ih =>
    rw [List.forall_mem_cons] at h
    rw [List.flatten_cons, List.length_append, h.1, ih h.2, List.length_cons, Nat.mul_succ,
      Nat.add_comm]

variable {entries : List α}

theorem length_chunks {n : ℕ} (hsize : 0 < size) (h : entries.length = size * n) :
    (chunks size entries).length = n := by
  rw [chunks, length_map, length_range, h, Nat.add_sub_assoc hsize,
    Nat.mul_add_div hsize, Nat.div_eq_of_lt (by omega), Nat.add_zero]

theorem getElem?_chunks {n : ℕ} (hsize : 0 < size) (h : entries.length = size * n) (hi : i < n) :
    (chunks size entries)[i]? = some ((entries.drop (i * size)).take size) := by
  have hlen := length_chunks hsize h
  rw [chunks, length_map, length_range] at hlen
  rw [chunks, hlen, List.getElem?_map, List.getElem?_range hi]
  rfl

theorem chunks_flatten (hsize : 0 < size) (h : ∀ row ∈ rows, row.length = size) :
    chunks size rows.flatten = rows := by
  have hlen := length_flatten h
  refine ext_getElem? fun i => ?_
  by_cases hi : i < rows.length
  · have hrow := List.getElem?_eq_getElem hi
    rw [getElem?_chunks hsize hlen hi, take_drop_flatten h hrow, hrow]
  · have hcount := length_chunks hsize hlen
    rw [List.getElem?_eq_none (by omega), List.getElem?_eq_none (by omega)]

theorem chunks_cut {len o n : ℕ} (hsize : 0 < size) (h : entries.length = size * len)
    (hfits : o + n ≤ len) :
    chunks size (cut (o * size) (n * size) entries) = cut o n (chunks size entries) := by
  have hbound : o * size + n * size ≤ entries.length := by
    rw [h, ← Nat.add_mul, Nat.mul_comm]
    exact Nat.mul_le_mul_left size hfits
  have hlen : (cut (o * size) (n * size) entries).length = size * n := by
    rw [length_cut hbound, Nat.mul_comm]
  refine cut_eq (length_chunks hsize hlen) fun i hi => ?_
  rw [getElem?_chunks hsize hlen hi, getElem?_chunks hsize h (by omega)]
  have hend : i * size + size ≤ n * size := by
    rw [← Nat.succ_mul]
    exact Nat.mul_le_mul_right size hi
  rw [cut, List.drop_take, List.take_take, List.drop_drop, Nat.add_mul, Nat.min_eq_left (by omega)]

theorem zipIdx_cut {g g' : α → ℕ → β} {o n : ℕ} (h : ∀ a, ∀ i < n, g' a i = g a (o + i)) :
    ((cut o n l).zipIdx.map fun entry => g' entry.1 entry.2) =
      cut o n (l.zipIdx.map fun entry => g entry.1 entry.2) := by
  refine ext_getElem? fun i => ?_
  rw [List.getElem?_map, List.getElem?_zipIdx, getElem?_cut, getElem?_cut, List.getElem?_map,
    List.getElem?_zipIdx, Nat.zero_add, Nat.zero_add]
  split_ifs with hi
  · cases l[o + i]? with
    | none => rfl
    | some a => exact congrArg some (h a i hi)
  · rfl

/-! ## Parts of the rows -/

/-- Errors that may name the row they are at. -/
class RowError (ε : Type) where
  row? : ε → Option ℕ
  mapRow : (ℕ → ℕ) → ε → ε
  row?_mapRow : ∀ f e, row? (mapRow f e) = (row? e).map f
  mapRow_mapRow : ∀ f g e, mapRow g (mapRow f e) = mapRow (g ∘ f) e
  mapRow_congr : ∀ f g e, (∀ row ∈ row? e, f row = g row) → mapRow f e = mapRow g e

open RowError

variable [RowError ε]

/-- What a computation over `len` rows gives, and the same computation over the `n` rows from `o`
on: its result there is the part `f` of the whole result, and an error at a row of the part is
met there too. -/
structure Cuts (len o n : ℕ) (f : α → β) (whole : Except ε α) (part : Except ε β) : Prop where
  ok : ∀ a, whole = .ok a → part = .ok (f a)
  lt : ∀ e row, whole = .error e → row? e = some row → row < len
  error : ∀ e row, whole = .error e → row? e = some row → o ≤ row → row < o + n →
    part = .error (mapRow (· - o) e)

variable {x : Except ε α} {y : Except ε β}

namespace Cuts

variable {δ : Type} {len o n : ℕ}

theorem pure {f : α → β} {a : α} {b : β} (h : b = f a) :
    Cuts (ε := ε) len o n f (.ok a) (.ok b) :=
  ⟨fun _ ha => Except.ok.inj ha ▸ congrArg _ h, fun _ _ ha => (nomatch ha),
    fun _ _ ha => (nomatch ha)⟩

/-- An error that names no row. -/
theorem fail {f : α → β} (h : row? e = none) (part : Except ε β) :
    Cuts len o n f (.error e) part := by
  refine ⟨fun _ ha => (nomatch ha), fun e' row he hrow => ?_, fun e' row he hrow => ?_⟩
  all_goals
    cases he
    rw [h] at hrow
    cases hrow

theorem bind {f : α → β} {g : γ → δ} {k : α → Except ε γ} {k' : β → Except ε δ}
    (h : Cuts len o n f x y) (hk : ∀ a, x = .ok a → Cuts len o n g (k a) (k' (f a))) :
    Cuts len o n g (x >>= k) (y >>= k') := by
  cases hx : x with
  | ok a =>
    rw [h.ok a hx]
    exact hk a hx
  | error e =>
    refine ⟨fun _ ha => (nomatch ha), fun e' row he hrow => ?_, fun e' row he hrow hle hlt => ?_⟩
    · cases he
      exact h.lt e row hx hrow
    · cases he
      rw [h.error e row hx hrow hle hlt]
      rfl

/-- A step for each of the rows, whose errors are at the row of the step. -/
theorem mapM {l : List α} {l' : List β} {step : α → Except ε γ} {step' : β → Except ε γ}
    (hlen : l.length = len) (hlen' : l'.length = n) (hfits : o + n ≤ len)
    (hrow : ∀ (i : ℕ) a e, l[i]? = some a → step a = .error e → row? e = some i)
    (hstep : ∀ (i : ℕ) a b, l[o + i]? = some a → l'[i]? = some b →
      step' b = (step a).mapError (mapRow (· - o))) :
    Cuts len o n (cut o n) (l.mapM step) (l'.mapM step') := by
  have hget : ∀ (i : ℕ) b, l'[i]? = some b → ∃ a, l[o + i]? = some a := fun i b hb => by
    have hi := (List.getElem?_eq_some_iff.mp hb).1
    exact ⟨_, List.getElem?_eq_getElem (by omega)⟩
  refine ⟨fun r hr => ?_, fun e row he hrow' => ?_, fun e row he hrow' hle hlt => ?_⟩
  · obtain ⟨hr, hrows⟩ := mapM_eq_ok_iff.mp hr
    refine mapM_eq_ok_iff.mpr ⟨?_, fun i b hb => ?_⟩
    · rw [length_cut (by omega), hlen']
    · obtain ⟨a, ha⟩ := hget i b hb
      obtain ⟨c, hc, hca⟩ := hrows _ a ha
      have hi := (List.getElem?_eq_some_iff.mp hb).1
      refine ⟨c, by rw [getElem?_cut_of_lt (by omega), hc], ?_⟩
      rw [hstep i a b ha hb, hca]
      rfl
  · obtain ⟨i, a, ha, hfail, -⟩ := mapM_eq_error_iff.mp he
    have hi := (List.getElem?_eq_some_iff.mp ha).1
    rw [hrow i a e ha hfail] at hrow'
    cases hrow'
    omega
  · obtain ⟨i, a, ha, hfail, hbefore⟩ := mapM_eq_error_iff.mp he
    rw [hrow i a e ha hfail] at hrow'
    cases hrow'
    obtain ⟨k, rfl⟩ := Nat.exists_eq_add_of_le hle
    obtain ⟨b, hb⟩ : ∃ b, l'[k]? = some b := ⟨_, List.getElem?_eq_getElem (by omega)⟩
    refine mapM_eq_error_iff.mpr ⟨k, _, hb, ?_, fun j hj b hb => ?_⟩
    · rw [hstep k a _ ha hb, hfail]
      rfl
    · obtain ⟨a', ha'⟩ := hget j b hb
      obtain ⟨c, hc⟩ := hbefore (o + j) (by omega) a' ha'
      exact ⟨c, by rw [hstep j a' b ha' hb, hc]; rfl⟩

/-- The same step at each row of the part as at that row of the whole. -/
theorem collectRows {step step' : α → ℕ → Except ε γ} {l : List α} (hlen : l.length = len)
    (hfits : o + n ≤ len) (hrow : ∀ a row e, step a row = .error e → row? e = some row)
    (hstep : ∀ a, ∀ row < n, step' a row = (step a (o + row)).mapError (mapRow (· - o))) :
    Cuts len o n (cut o n) (collectRows step l) (collectRows step' (cut o n l)) := by
  refine mapM (by rw [length_zipIdx, hlen])
    (by rw [length_zipIdx, length_cut (by omega)]) hfits (fun i entry e hentry he => ?_)
    fun i entry entry' hentry hentry' => ?_
  · rw [List.getElem?_zipIdx] at hentry
    obtain ⟨a, -, rfl⟩ := Option.map_eq_some_iff.mp hentry
    rw [← Nat.zero_add i]
    exact hrow _ _ _ he
  · rw [List.getElem?_zipIdx] at hentry hentry'
    obtain ⟨a, ha, rfl⟩ := Option.map_eq_some_iff.mp hentry
    obtain ⟨a', ha', rfl⟩ := Option.map_eq_some_iff.mp hentry'
    rw [getElem?_cut] at ha'
    split_ifs at ha' with hi
    rw [ha] at ha'
    cases ha'
    rw [Nat.zero_add, Nat.zero_add]
    exact hstep a i hi

theorem range {step step' : ℕ → Except ε γ} (hfits : o + n ≤ len)
    (hrow : ∀ row e, step row = .error e → row? e = some row)
    (hstep : ∀ row < n, step' row = (step (o + row)).mapError (mapRow (· - o))) :
    Cuts len o n (cut o n) ((List.range len).mapM step) ((List.range n).mapM step') := by
  have hget : ∀ {k i j : ℕ}, (List.range k)[i]? = some j → i < k ∧ j = i := fun h => by
    obtain ⟨hi, rfl⟩ := List.getElem?_eq_some_iff.mp h
    rw [length_range] at hi
    exact ⟨hi, List.getElem_range _⟩
  refine mapM length_range length_range hfits (fun i a e ha he => ?_)
    fun i a b ha hb => ?_
  · rw [(hget ha).2] at he
    exact hrow i e he
  · rw [(hget ha).2, (hget hb).2]
    exact hstep i (hget hb).1

/-- The same errors in other terms. -/
theorem mapError {η : Type} [RowError η] {translate : ε → η}
    (hrow : ∀ e, row? (translate e) = row? e)
    (hmap : ∀ f e, mapRow f (translate e) = translate (mapRow f e)) {f : α → β}
    {x : Except ε α} {y : Except ε β} (h : Cuts len o n f x y) :
    Cuts len o n f (x.mapError translate) (y.mapError translate) := by
  refine ⟨fun a ha => ?_, fun e row he hrow' => ?_, fun e row he hrow' hle hlt => ?_⟩
  · rw [h.ok a (Checked.mapError_eq_ok.mp ha)]
    rfl
  · obtain ⟨e₀, he₀, rfl⟩ := Checked.mapError_eq_error he
    exact h.lt e₀ row he₀ (hrow e₀ ▸ hrow')
  · obtain ⟨e₀, he₀, rfl⟩ := Checked.mapError_eq_error he
    rw [h.error e₀ row he₀ (hrow e₀ ▸ hrow') hle hlt, hmap]
    rfl

/-- Rows of `size` elements each. -/
theorem divide (hsize : 0 < size) {f : α → β} (h : Cuts (size * len) (o * size) (n * size) f x y) :
    Cuts len o n f (x.mapError (mapRow (· / size))) (y.mapError (mapRow (· / size))) := by
  have hnamed : ∀ e row, x.mapError (mapRow (· / size)) = .error e → row? e = some row →
      ∃ e₀ row₀, x = .error e₀ ∧ row? e₀ = some row₀ ∧ e = mapRow (· / size) e₀ ∧
        row = row₀ / size := by
    intro e row he hrow
    obtain ⟨e₀, he₀, rfl⟩ := Checked.mapError_eq_error he
    rw [row?_mapRow] at hrow
    obtain ⟨row₀, hrow₀, rfl⟩ := Option.map_eq_some_iff.mp hrow
    exact ⟨e₀, row₀, he₀, hrow₀, rfl, rfl⟩
  refine ⟨fun a ha => ?_, fun e row he hrow => ?_, fun e row he hrow hle hlt => ?_⟩
  · rw [h.ok a (Checked.mapError_eq_ok.mp ha)]
    rfl
  · obtain ⟨e₀, row₀, he₀, hrow₀, rfl, rfl⟩ := hnamed e row he hrow
    exact Nat.div_lt_of_lt_mul (h.lt e₀ row₀ he₀ hrow₀)
  · obtain ⟨e₀, row₀, he₀, hrow₀, rfl, rfl⟩ := hnamed e row he hrow
    have hle₀ : o * size ≤ row₀ := (Nat.le_div_iff_mul_le hsize).mp hle
    have hlt₀ : row₀ < o * size + n * size := by
      rw [← Nat.add_mul]
      exact (Nat.div_lt_iff_lt_mul hsize).mp hlt
    rw [h.error e₀ row₀ he₀ hrow₀ hle₀ hlt₀]
    show Except.error _ = Except.error _
    rw [mapRow_mapRow, mapRow_mapRow]
    refine congrArg _ (mapRow_congr _ _ _ fun row hmem => ?_)
    show (row - o * size) / size = row / size - o
    rw [Nat.mul_comm, Nat.sub_mul_div]

end Cuts

end ProvenGraphcal.Rows
