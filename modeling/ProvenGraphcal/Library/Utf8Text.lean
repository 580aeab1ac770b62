import Mathlib.Algebra.GroupWithZero.Nat
import Mathlib.Data.List.Basic

/-!
# Characters, bytes and UTF-16 units of a text

A text is a list of characters. Offsets count the bytes of its UTF-8 encoding; those that end a
prefix are boundaries.
-/

namespace ProvenGraphcal.Utf8Text

/-- The length of the encoding. -/
def size (text : List Char) : ℕ := (text.map Char.utf8Size).sum

def utf16Size (c : Char) : ℕ := if c.val ≤ 0xFFFF then 1 else 2

def utf16Units (text : List Char) : ℕ := (text.map utf16Size).sum

def bytes (text : List Char) : List UInt8 := text.flatMap String.utf8EncodeChar

@[simp] theorem size_nil : size [] = 0 := rfl

@[simp] theorem size_cons (c : Char) (text : List Char) :
    size (c :: text) = c.utf8Size + size text := List.sum_cons

@[simp] theorem size_append (a b : List Char) : size (a ++ b) = size a + size b := by
  rw [size, List.map_append, List.sum_append]
  rfl

@[simp] theorem utf16Units_cons (c : Char) (text : List Char) :
    utf16Units (c :: text) = utf16Size c + utf16Units text := List.sum_cons

@[simp] theorem utf16Units_append (a b : List Char) :
    utf16Units (a ++ b) = utf16Units a + utf16Units b := by
  rw [utf16Units, List.map_append, List.sum_append]
  rfl

theorem bytes_append (a b : List Char) : bytes (a ++ b) = bytes a ++ bytes b :=
  List.flatMap_append

@[simp] theorem length_bytes (text : List Char) : (bytes text).length = size text := by
  induction text with
  | nil => rfl
  | cons c text ih =>
    rw [← List.singleton_append, bytes_append, List.length_append, ih, List.singleton_append,
      size_cons, bytes, List.flatMap_singleton, String.length_utf8EncodeChar]

theorem utf16Size_pos (c : Char) : 0 < utf16Size c := by
  unfold utf16Size
  split <;> omega

theorem utf8Size_of_large {c : Char} (h : ¬ c.val ≤ 0xFFFF) : c.utf8Size = 4 := by
  have hval : 0xFFFF < c.val.toNat := Nat.not_le.mp h
  have hsmall : ∀ n : UInt32, n.toNat ≤ 0xFFFF → ¬ c.val ≤ n := fun n hn hle =>
    absurd (UInt32.le_iff_toNat_le.mp hle) (by omega)
  unfold Char.utf8Size
  rw [if_neg (hsmall _ (by decide)), if_neg (hsmall _ (by decide)), if_neg (hsmall _ (by decide))]

/-- A character takes no more units than bytes. -/
theorem utf16Units_le_size (text : List Char) : utf16Units text ≤ size text := by
  induction text with
  | nil => exact Nat.le_refl 0
  | cons c text ih =>
    have hpos := c.utf8Size_pos
    have hc : utf16Size c ≤ c.utf8Size := by
      unfold utf16Size
      split
      · exact hpos
      · rename_i hlarge
        rw [utf8Size_of_large hlarge]
        decide
    rw [utf16Units_cons, size_cons]
    exact Nat.add_le_add hc ih

/-- A byte below 128 is the code of its character. -/
theorem toNat_of_mem_utf8EncodeChar {c : Char} {b : UInt8} (h : b ∈ String.utf8EncodeChar c)
    (hb : b.toNat < 128) : b.toNat = c.val.toNat := by
  rw [String.utf8EncodeChar] at h
  split_ifs at h with h1 h2 h3
  · rw [List.mem_singleton.mp h, UInt8.toNat_ofNat']
    exact Nat.mod_eq_of_lt (by omega)
  · simp only [List.mem_cons, List.not_mem_nil, or_false] at h
    rcases h with rfl | rfl <;> rw [UInt8.toNat_ofNat'] at hb <;> omega
  · simp only [List.mem_cons, List.not_mem_nil, or_false] at h
    rcases h with rfl | rfl | rfl <;> rw [UInt8.toNat_ofNat'] at hb <;> omega
  · simp only [List.mem_cons, List.not_mem_nil, or_false] at h
    rcases h with rfl | rfl | rfl | rfl <;> rw [UInt8.toNat_ofNat'] at hb <;> omega

/-- The first bytes after a prefix are those of the character there. -/
theorem getElem?_bytes_append (a b : List Char) (i : ℕ) :
    (bytes (a ++ b))[size a + i]? = (bytes b)[i]? := by
  rw [bytes_append, List.getElem?_append_right (by rw [length_bytes]; omega), length_bytes,
    Nat.add_sub_cancel_left]

/-- The text before and after an offset, if it is a boundary. -/
def cut : List Char → ℕ → Option (List Char × List Char)
  | text, 0 => some ([], text)
  | [], _ + 1 => none
  | c :: text, offset + 1 =>
    if c.utf8Size ≤ offset + 1 then
      (cut text (offset + 1 - c.utf8Size)).map fun (before, after) => (c :: before, after)
    else none

def isBoundary (text : List Char) (offset : ℕ) : Bool := (cut text offset).isSome

/-- The characters between two offsets, if both are boundaries in order. -/
def slice (text : List Char) (start stop : ℕ) : Option (List Char) := do
  if stop < start then none
  else
    let (_, after) ← cut text start
    let (between, _) ← cut after (stop - start)
    return between

theorem size_eq_zero {text : List Char} : size text = 0 ↔ text = [] := by
  cases text with
  | nil => exact ⟨fun _ => rfl, fun _ => rfl⟩
  | cons c text =>
    have hpos := c.utf8Size_pos
    rw [size_cons]
    exact ⟨fun h => by omega, nofun⟩

theorem cut_eq_some {text before after : List Char} {offset : ℕ} :
    cut text offset = some (before, after) ↔ text = before ++ after ∧ size before = offset := by
  induction text generalizing before offset with
  | nil =>
    cases offset with
    | zero =>
      rw [cut, Option.some.injEq, Prod.mk.injEq, size_eq_zero]
      constructor
      · rintro ⟨rfl, rfl⟩
        exact ⟨rfl, rfl⟩
      · rintro ⟨happend, rfl⟩
        exact ⟨rfl, happend⟩
    | succ offset =>
      refine ⟨nofun, fun ⟨happend, hsize⟩ => ?_⟩
      rw [(List.append_eq_nil_iff.mp happend.symm).1] at hsize
      cases hsize
  | cons c text ih =>
    cases offset with
    | zero =>
      rw [cut, Option.some.injEq, Prod.mk.injEq, size_eq_zero]
      constructor
      · rintro ⟨rfl, rfl⟩
        exact ⟨rfl, rfl⟩
      · rintro ⟨happend, rfl⟩
        exact ⟨rfl, happend⟩
    | succ offset =>
      rw [cut, Option.ite_none_right_eq_some, Option.map_eq_some_iff]
      constructor
      · rintro ⟨hle, ⟨rest, after'⟩, hcut, heq⟩
        cases heq
        obtain ⟨rfl, hsize⟩ := ih.mp hcut
        refine ⟨rfl, ?_⟩
        rw [size_cons, hsize]
        omega
      · rintro ⟨happend, hsize⟩
        cases before with
        | nil => cases hsize
        | cons c' rest =>
          cases happend
          rw [size_cons] at hsize
          exact ⟨by omega, (rest, after), ih.mpr ⟨rfl, by omega⟩, rfl⟩

theorem isBoundary_iff {text : List Char} {offset : ℕ} :
    isBoundary text offset = true ↔
      ∃ before after, text = before ++ after ∧ size before = offset := by
  rw [isBoundary, Option.isSome_iff_exists]
  exact ⟨fun ⟨(before, after), h⟩ => ⟨before, after, cut_eq_some.mp h⟩,
    fun ⟨before, after, h⟩ => ⟨(before, after), cut_eq_some.mpr h⟩⟩

/-- The prefixes of a text are ordered by their sizes. -/
theorem prefix_of_size_le {text a b a' b' : List Char} (h : text = a ++ b) (h' : text = a' ++ b')
    (hsize : size a ≤ size a') : ∃ between, a' = a ++ between ∧ b = between ++ b' := by
  rcases List.append_eq_append_iff.mp (h.symm.trans h') with ⟨between, ha, hb⟩ | ⟨between, ha, hb⟩
  · exact ⟨between, ha, hb⟩
  · have hempty : between = [] := by
      rw [← size_eq_zero]
      rw [ha, size_append] at hsize
      omega
    rw [hempty, List.append_nil] at ha
    rw [hempty, List.nil_append] at hb
    exact ⟨[], by rw [List.append_nil, ha], by rw [List.nil_append, hb]⟩

theorem slice_append (before between after : List Char) :
    slice (before ++ between ++ after) (size before) (size before + size between) =
      some between := by
  have hcut : cut (before ++ between ++ after) (size before) = some (before, between ++ after) :=
    cut_eq_some.mpr ⟨List.append_assoc _ _ _, rfl⟩
  have hcut' : cut (between ++ after) (size before + size between - size before) =
      some (between, after) := cut_eq_some.mpr ⟨rfl, by omega⟩
  rw [slice, if_neg (by omega), hcut]
  dsimp only [bind, Option.bind]
  rw [hcut']
  rfl

end ProvenGraphcal.Utf8Text
