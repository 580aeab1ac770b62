import Mathlib.Data.List.OfFn
import Mathlib.Data.List.Perm.Subperm
import Mathlib.Tactic.Ring
import ProvenGraphcal.Library.Rows

/-!
# Lists cut into parts of one size

Consecutive parts of equal size laid out in one list, and the parts got back from it. Entries by
position are computed in order, up to the first failure. Positions in several sizes are the digits of
one flat position.
-/

namespace ProvenGraphcal.RowMajor

open Rows
open List (drop_nil flatten_cons flatten_nil foldl_cons length_ofFn map_map mem_map mem_ofFn
  mem_range prod_cons)

variable {α : Type}

/-- The parts of `size` items; what is left over at the end is dropped. -/
def chunksExact (size : ℕ) (l : List α) : List (List α) :=
  (List.range (l.length / size)).map fun i => cut (i * size) size l

variable {l : List α} {i n size : ℕ}

theorem getElem?_chunksExact (hsize : 0 < size) (hlength : l.length = n * size) (hi : i < n) :
    (chunksExact size l)[i]? = some (cut (i * size) size l) := by
  have hcount : l.length / size = n := by
    rw [hlength, Nat.mul_div_cancel n hsize]
  rw [chunksExact, List.getElem?_map, List.getElem?_range (hcount.symm ▸ hi)]
  rfl

theorem length_cut_chunk (hlength : l.length = n * size) (hi : i < n) :
    (cut (i * size) size l).length = size := by
  apply length_cut
  have hle : (i + 1) * size ≤ n * size := Nat.mul_le_mul_right size hi
  rw [hlength]
  calc i * size + size = (i + 1) * size := by ring
    _ ≤ n * size := hle

/-- The first `n` parts make up the first `n * size` items. -/
theorem flatten_cuts (size n : ℕ) (l : List α) :
    ((List.range n).map fun i => cut (i * size) size l).flatten = l.take (n * size) := by
  induction n with
  | zero => rw [Nat.zero_mul, List.take_zero, List.range_zero, List.map_nil, flatten_nil]
  | succ n ih =>
    rw [List.range_succ, List.map_append, List.flatten_append, ih, List.map_singleton,
      List.flatten_singleton, Nat.succ_mul, List.take_add]
    rfl

theorem flatten_ofFn_cuts (hlength : l.length = n * size) :
    (List.ofFn fun i : Fin n => cut (i.val * size) size l).flatten = l := by
  have hmap : (List.ofFn fun i : Fin n => cut (i.val * size) size l) =
      (List.range n).map fun i => cut (i * size) size l := by
    apply List.ext_getElem
    · rw [length_ofFn, List.length_map, List.length_range]
    · intro i _ _
      rw [List.getElem_ofFn, List.getElem_map, List.getElem_range]
  rw [hmap, flatten_cuts, ← hlength, List.take_length]

theorem drop_flatten {parts : List (List α)} (h : ∀ part ∈ parts, part.length = size) (i : ℕ) :
    parts.flatten.drop (i * size) = (parts.drop i).flatten := by
  induction parts generalizing i with
  | nil => rw [flatten_nil, drop_nil, drop_nil, flatten_nil]
  | cons part rest ih =>
    cases i with
    | zero => rw [Nat.zero_mul, List.drop_zero, List.drop_zero]
    | succ i =>
      have hpart := h part List.mem_cons_self
      have hdrop : (i + 1) * size = part.length + i * size := by
        rw [hpart]
        ring
      rw [List.drop_succ_cons, flatten_cons, hdrop, List.drop_length_add_append]
      exact ih (fun p hp => h p (List.mem_cons_of_mem _ hp)) i

/-- Cutting parts that were laid out gives them back. -/
theorem cut_flatten_ofFn {parts : Fin n → List α} (h : ∀ i, (parts i).length = size) (i : Fin n) :
    cut (i.val * size) size (List.ofFn parts).flatten = parts i := by
  have hparts : ∀ part ∈ List.ofFn parts, part.length = size := by
    intro part hpart
    obtain ⟨j, rfl⟩ := mem_ofFn.mp hpart
    exact h j
  have hlt : i.val < (List.ofFn parts).length := by
    rw [length_ofFn]
    exact i.isLt
  rw [cut, drop_flatten hparts, List.drop_eq_getElem_cons hlt, flatten_cons,
    List.getElem_ofFn, List.take_append_of_le_length (h i).ge, ← h i, List.take_length]

theorem length_flatten_ofFn {parts : Fin n → List α} (h : ∀ i, (parts i).length = size) :
    (List.ofFn parts).flatten.length = n * size := by
  have hmap : (List.ofFn parts).map List.length = List.replicate n size := by
    rw [List.eq_replicate_iff, List.length_map, length_ofFn]
    refine ⟨rfl, fun b hb => ?_⟩
    obtain ⟨part, hpart, rfl⟩ := mem_map.mp hb
    obtain ⟨j, rfl⟩ := mem_ofFn.mp hpart
    exact h j
  rw [List.length_flatten, hmap, List.sum_replicate_nat]

/-- A loop in which every position appends its part lays the parts out. -/
theorem foldlM_append_eq_ok {ε : Type} {step : List α → Fin n → Except ε (List α)}
    {Part : Fin n → List α → Prop}
    (hstep : ∀ l i result, step l i = .ok result ↔ ∃ part, Part i part ∧ result = l ++ part)
    {result : List α} :
    (List.finRange n).foldlM step l = .ok result ↔
      ∃ parts : Fin n → List α, (∀ i, Part i (parts i)) ∧
        result = l ++ (List.ofFn parts).flatten := by
  induction n generalizing l with
  | zero =>
    constructor
    · intro h
      cases h
      exact ⟨Fin.elim0, fun i => i.elim0, (List.append_nil _).symm⟩
    · rintro ⟨parts, -, rfl⟩
      rw [List.ofFn_zero, flatten_nil, List.append_nil]
      rfl
  | succ n ih =>
    rw [List.finRange_succ, List.foldlM_cons, Checked.bind_eq_ok]
    constructor
    · rintro ⟨next, hnext, h⟩
      obtain ⟨part, hpart, rfl⟩ := (hstep l 0 next).mp hnext
      rw [List.foldlM_map] at h
      obtain ⟨parts, hparts, rfl⟩ := (ih fun l i => hstep l i.succ).mp h
      refine ⟨Fin.cons part parts, Fin.cases hpart hparts, ?_⟩
      rw [List.ofFn_cons, flatten_cons, List.append_assoc]
    · rintro ⟨parts, hparts, rfl⟩
      refine ⟨l ++ parts 0, (hstep l 0 _).mpr ⟨parts 0, hparts 0, rfl⟩, ?_⟩
      rw [List.foldlM_map]
      refine (ih fun l i => hstep l i.succ).mpr ⟨fun i => parts i.succ, fun i => hparts i.succ, ?_⟩
      rw [List.ofFn_succ, flatten_cons, List.append_assoc]

variable {ε : Type}

/-- One entry for each position, in order. -/
def tryOfFn : {n : ℕ} → (Fin n → Except ε α) → Except ε (Fin n → α)
  | 0, _ => .ok Fin.elim0
  | _ + 1, entry => do
    let first ← entry 0
    let rest ← tryOfFn fun i => entry i.succ
    return Fin.cons first rest

theorem tryOfFn_eq_ok {entry : Fin n → Except ε α} {entries : Fin n → α}
    (h : ∀ i, entry i = .ok (entries i)) : tryOfFn entry = .ok entries := by
  induction n with
  | zero => exact congrArg Except.ok (funext fun i => i.elim0)
  | succ n ih =>
    refine Checked.bind_eq_ok.mpr ⟨entries 0, h 0, Checked.bind_eq_ok.mpr
      ⟨fun i => entries i.succ, ih fun i => h i.succ, ?_⟩⟩
    exact congrArg Except.ok (Fin.cons_self_tail entries)

/-- A failure is the failure of an entry. -/
theorem exists_of_tryOfFn_eq_error {entry : Fin n → Except ε α} {e : ε}
    (h : tryOfFn entry = .error e) : ∃ i, entry i = .error e := by
  induction n with
  | zero => cases h
  | succ n ih =>
    rw [tryOfFn, Checked.bind_eq_error] at h
    rcases h with hfirst | ⟨first, -, h⟩
    · exact ⟨0, hfirst⟩
    · rcases Checked.bind_eq_error.mp h with hrest | ⟨_, _, h⟩
      · obtain ⟨i, hi⟩ := ih hrest
        exact ⟨i.succ, hi⟩
      · cases h

/-- Items converted with their positions, when only the error depends on the position. -/
theorem mapM_zipIdx_eq_ok {ε α β : Type} {f : α × ℕ → Except ε β} {P : α → β → Prop}
    (hf : ∀ entry b, f entry = .ok b ↔ P entry.1 b) {l : List α} {r : List β} :
    l.zipIdx.mapM f = .ok r ↔ List.Forall₂ P l r := by
  have hmap : List.Forall₂ (fun (entry : α × ℕ) b => P entry.1 b) l.zipIdx r ↔
      List.Forall₂ P (l.zipIdx.map Prod.fst) r := List.forall₂_map_left_iff.symm
  rw [Checked.mapM_eq_ok]
  simp only [hf]
  rw [hmap, List.zipIdx_map_fst]

/-! ## Flat positions -/

/-- The flat position of digits; the last digit varies fastest. -/
def flatIndex (sizes digits : List ℕ) : ℕ :=
  (sizes.zip digits).foldl (fun cell digit => cell * digit.1 + digit.2) 0

/-- One digit for each size, below it. -/
abbrev Within (sizes digits : List ℕ) : Prop :=
  List.Forall₂ (fun size digit => digit < size) sizes digits

variable {digits sizes : List ℕ}

theorem foldl_flatIndex (h : sizes.length = digits.length) (cell : ℕ) :
    (sizes.zip digits).foldl (fun cell digit => cell * digit.1 + digit.2) cell =
      cell * sizes.prod + flatIndex sizes digits := by
  induction sizes generalizing digits cell with
  | nil =>
    show cell = cell * 1 + 0
    omega
  | cons size sizes ih =>
    cases digits with
    | nil => cases h
    | cons digit digits =>
      have hlength : sizes.length = digits.length := Nat.succ.inj h
      rw [flatIndex, List.zip_cons_cons, foldl_cons, foldl_cons, ih hlength,
        ih hlength (0 * size + digit), prod_cons]
      ring

theorem flatIndex_cons {digit : ℕ} (h : sizes.length = digits.length) :
    flatIndex (size :: sizes) (digit :: digits) = digit * sizes.prod + flatIndex sizes digits := by
  rw [flatIndex, List.zip_cons_cons, foldl_cons, foldl_flatIndex h]
  show (0 * size + digit) * sizes.prod + _ = _
  rw [Nat.zero_mul, Nat.zero_add]

theorem flatIndex_lt (h : Within sizes digits) :
    flatIndex sizes digits < sizes.prod := by
  induction h with
  | nil => exact Nat.one_pos
  | @cons size digit sizes digits hlt h ih =>
    rw [flatIndex_cons h.length_eq, prod_cons]
    calc digit * sizes.prod + flatIndex sizes digits < digit * sizes.prod + sizes.prod := by omega
      _ = (digit + 1) * sizes.prod := by ring
      _ ≤ size * sizes.prod := Nat.mul_le_mul_right _ hlt

/-- Every flat position is the position of some digits. -/
theorem exists_flatIndex {cell : ℕ} (h : cell < sizes.prod) :
    ∃ digits, Within sizes digits ∧ flatIndex sizes digits = cell := by
  induction sizes generalizing cell with
  | nil =>
    rw [List.prod_nil, Nat.lt_one_iff] at h
    exact ⟨[], .nil, h.symm⟩
  | cons size sizes ih =>
    rw [prod_cons] at h
    have hpos : 0 < sizes.prod := by
      apply Nat.pos_of_ne_zero
      intro hzero
      rw [hzero] at h
      omega
    obtain ⟨digits, hwithin, hcell⟩ := ih (Nat.mod_lt cell hpos)
    have hdigit : cell / sizes.prod < size := Nat.div_lt_of_lt_mul (by rwa [Nat.mul_comm])
    refine ⟨cell / sizes.prod :: digits, .cons hdigit hwithin, ?_⟩
    rw [flatIndex_cons hwithin.length_eq, hcell, Nat.mul_comm]
    exact Nat.div_add_mod cell sizes.prod

theorem flatIndex_injective {digits' : List ℕ} (h : Within sizes digits) (h' : Within sizes digits')
    (heq : flatIndex sizes digits = flatIndex sizes digits') :
    digits = digits' := by
  induction h generalizing digits' with
  | nil =>
    cases h'
    rfl
  | @cons size digit sizes digits _ h ih =>
    cases h' with
    | @cons _ digit' _ digits' _ h' =>
      rw [flatIndex_cons h.length_eq, flatIndex_cons h'.length_eq] at heq
      have hlt := flatIndex_lt h
      have hlt' := flatIndex_lt h'
      have hpos : 0 < sizes.prod := by omega
      have hdiv : ∀ d r, r < sizes.prod → (d * sizes.prod + r) / sizes.prod = d := by
        intro d r hr
        rw [Nat.mul_comm, Nat.mul_add_div hpos, Nat.div_eq_of_lt hr, Nat.add_zero]
      have hdigit : digit = digit' := by
        rw [← hdiv digit _ hlt, heq, hdiv digit' _ hlt']
      rw [hdigit] at heq ⊢
      rw [ih h' (by omega)]

/-- All lists of digits, the last digit varying fastest. -/
def digitLists : List ℕ → List (List ℕ)
  | [] => [[]]
  | size :: sizes => (List.range size).flatMap fun digit => (digitLists sizes).map (digit :: ·)

theorem within_of_mem_digitLists (h : digits ∈ digitLists sizes) : Within sizes digits := by
  induction sizes generalizing digits with
  | nil =>
    cases List.mem_singleton.mp h
    exact .nil
  | cons size sizes ih =>
    obtain ⟨digit, hdigit, h⟩ := List.mem_flatMap.mp h
    obtain ⟨rest, hrest, rfl⟩ := mem_map.mp h
    exact .cons (mem_range.mp hdigit) (ih hrest)

theorem flatMap_range_add (n size : ℕ) :
    ((List.range n).flatMap fun i => (List.range size).map (i * size + ·)) =
      List.range (n * size) := by
  induction n with
  | zero =>
    rw [Nat.zero_mul]
    rfl
  | succ n ih =>
    rw [List.range_succ, List.flatMap_append, ih, Nat.succ_mul, List.range_add,
      List.flatMap_singleton]

/-- In this order the digits have the flat positions in increasing order. -/
theorem map_flatIndex_digitLists (sizes : List ℕ) :
    (digitLists sizes).map (flatIndex sizes) = List.range sizes.prod := by
  induction sizes with
  | nil => rfl
  | cons size sizes ih =>
    have hrow : ∀ digit, ((digitLists sizes).map (digit :: ·)).map (flatIndex (size :: sizes)) =
        (List.range sizes.prod).map (digit * sizes.prod + ·) := by
      intro digit
      rw [← ih, map_map, map_map]
      apply List.map_congr_left
      intro digits hdigits
      exact flatIndex_cons (within_of_mem_digitLists hdigits).length_eq
    rw [digitLists, List.map_flatMap]
    simp only [hrow]
    rw [prod_cons, flatMap_range_add]

variable {cells : List ℕ}

/-- As many distinct numbers below a bound as the bound are all of them. -/
theorem perm_range (hnodup : cells.Nodup) (hbound : ∀ cell ∈ cells, cell < size)
    (hlength : cells.length = size) :
    cells.Perm (List.range size) := by
  have hsubset : cells ⊆ List.range size := fun cell hcell => mem_range.mpr (hbound cell hcell)
  apply (List.subperm_of_subset hnodup hsubset).perm_of_length_le
  rw [List.length_range, hlength]

/-- Numbers are all numbers below a bound once when each is at one place. -/
theorem perm_range_iff (hbound : ∀ cell ∈ cells, cell < size) :
    cells.Perm (List.range size) ↔ ∀ cell < size, ∃! i : ℕ, cells[i]? = some cell := by
  constructor
  · intro hperm cell hcell
    have hnodup := hperm.nodup_iff.mpr List.nodup_range
    obtain ⟨i, hi⟩ := List.mem_iff_getElem?.mp (hperm.mem_iff.mpr (mem_range.mpr hcell))
    refine ⟨i, hi, fun j hj => ?_⟩
    obtain ⟨hlt, -⟩ := List.getElem?_eq_some_iff.mp hj
    exact (List.getElem?_inj hlt hnodup).mp (hj.trans hi.symm)
  · intro hunique
    have hnodup : cells.Nodup := by
      rw [List.nodup_iff_getElem?_ne_getElem?]
      intro i j hij hj heq
      have hcell := List.getElem?_eq_getElem hj
      obtain ⟨k, -, hk⟩ := hunique cells[j] (hbound _ (List.getElem_mem hj))
      have hi := hk i (heq.trans hcell)
      have hj := hk j hcell
      omega
    rw [List.perm_ext_iff_of_nodup hnodup List.nodup_range]
    intro cell
    rw [mem_range]
    refine ⟨hbound cell, fun hcell => ?_⟩
    obtain ⟨i, hi, -⟩ := hunique cell hcell
    exact List.mem_of_getElem? hi

end ProvenGraphcal.RowMajor
