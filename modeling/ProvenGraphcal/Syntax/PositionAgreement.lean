import ProvenGraphcal.Syntax.TextPosition

/-!
# Offsets and positions agree

A boundary stands in one line of its text: either in the content, where its position leads back to
it, or between the two characters of a CRLF, which has the position of the content's end.
-/

namespace ProvenGraphcal.TextPosition

open Utf8Text
open List (append_assoc append_eq_nil_iff append_nil flatMap_append flatMap_cons)

/-! ## The line of a boundary -/

/-- A boundary stands in a line: after a part of its text, and before its end or in the last. -/
theorem exists_line {lines : List Line} (hne : lines ≠ []) {pre post : List Char}
    (h : lines.flatMap Line.text = pre ++ post) :
    ∃ before line after part rest, lines = before ++ line :: after ∧
      pre = before.flatMap Line.text ++ part ∧ line.text = part ++ rest ∧
      (rest ≠ [] ∨ after = []) := by
  induction lines generalizing pre with
  | nil => exact absurd rfl hne
  | cons line lines ih =>
    rw [flatMap_cons] at h
    by_cases hstop : lines = []
    · subst hstop
      rw [List.flatMap_nil, append_nil] at h
      exact ⟨[], line, [], pre, post, rfl, rfl, h, .inr rfl⟩
    · rcases List.append_eq_append_iff.mp h with ⟨part, hpre, hlines⟩ | ⟨rest, htext, hpost⟩
      · obtain ⟨before, line', after, part', rest, rfl, rfl, htext, hrest⟩ := ih hstop hlines
        refine ⟨line :: before, line', after, part', rest, rfl, ?_, htext, hrest⟩
        rw [hpre, flatMap_cons, append_assoc]
      · by_cases hrest : rest = []
        · subst hrest
          rw [append_nil] at htext
          obtain ⟨before, line', after, part', rest, hbefore, hpre', htext', hrest⟩ :=
            ih hstop (show lines.flatMap Line.text = [] ++ post from hpost.symm)
          obtain ⟨hbefore', hpart'⟩ := append_eq_nil_iff.mp hpre'.symm
          refine ⟨line :: before, line', after, part', rest, congrArg (line :: ·) hbefore, ?_,
            htext', hrest⟩
          rw [flatMap_cons, hbefore', hpart', append_nil, append_nil, htext]
        · exact ⟨[], line, lines, pre, rest, rfl, rfl, htext, .inl hrest⟩

/-- Only a CRLF has an inside. -/
theorem split_ending {ending a b : List Char}
    (hmem : ending ∈ [['\n'], ['\r', '\n'], ['\r']]) (h : ending = a ++ b) (ha : a ≠ [])
    (hb : b ≠ []) : a = ['\r'] ∧ ending = ['\r', '\n'] := by
  have hlength : 2 ≤ ending.length := by
    have := List.length_pos_iff.mpr ha
    have := List.length_pos_iff.mpr hb
    rw [h, List.length_append]
    omega
  simp only [List.mem_cons, List.not_mem_nil, or_false] at hmem
  rcases hmem with hlf | hcrLf | hcr
  · rw [hlf] at hlength
    exact absurd hlength (by decide)
  · refine ⟨?_, hcrLf⟩
    rw [hcrLf] at h
    cases a with
    | nil => exact absurd rfl ha
    | cons c a =>
      obtain ⟨hc, hrest⟩ := List.cons.inj h
      cases a with
      | nil => rw [← hc]
      | cons d a =>
        obtain ⟨_, hnil⟩ := List.cons.inj hrest
        exact absurd (append_eq_nil_iff.mp hnil.symm).2 hb
  · rw [hcr] at hlength
    exact absurd hlength (by decide)

/-- What stands before and after a boundary in the text of its line. -/
structure Stands (source : List Char) (before : List Line) (line : Line) (after : List Line)
    (part rest : List Char) : Prop where
  lines_eq : lines source = before ++ line :: after
  text_eq : line.text = part ++ rest
  ends : rest ≠ [] ∨ after = []

theorem lines_ne_nil (source : List Char) : lines source ≠ [] := fun h => by
  have hended := ended_lines source
  rw [h] at hended
  exact hended

theorem exists_stands {source pre post : List Char} (h : source = pre ++ post) :
    ∃ before line after part rest, Stands source before line after part rest ∧
      pre = before.flatMap Line.text ++ part := by
  obtain ⟨before, line, after, part, rest, hlines, hpre, htext, hends⟩ :=
    exists_line (lines_ne_nil source) ((flatMap_lines source).trans h)
  exact ⟨before, line, after, part, rest, ⟨hlines, htext, hends⟩, hpre⟩

namespace Stands

variable {source : List Char} {before after : List Line} {line : Line} {part rest : List Char}

section

variable (h : Stands source before line after part rest)

include h

theorem source_eq : source = before.flatMap Line.text ++ line.text ++ after.flatMap Line.text := by
  rw [← flatMap_lines source, h.lines_eq, flatMap_append, flatMap_cons,
    append_assoc]

theorem isBoundary : isBoundary source (size (before.flatMap Line.text ++ part)) = true := by
  refine isBoundary_iff.mpr ⟨before.flatMap Line.text ++ part,
    rest ++ after.flatMap Line.text, ?_, rfl⟩
  rw [h.source_eq, h.text_eq]
  simp only [append_assoc]

/-- A boundary is in the content of its line, or between the two characters that end it. -/
theorem cases :
    (∃ beyond, line.content = part ++ beyond) ∨
      part = line.content ++ ['\r'] ∧ line.ending = ['\r', '\n'] := by
  have hended := ended_lines source
  rw [h.lines_eq] at hended
  rcases List.append_eq_append_iff.mp (show line.content ++ line.ending = part ++ rest from
    h.text_eq) with ⟨within, hpart, hending⟩ | ⟨beyond, hcontent, _⟩
  · by_cases hwithin : within = []
    · exact .inl ⟨[], by rw [hpart, hwithin, append_nil, append_nil]⟩
    · right
      by_cases hafter : after = []
      · subst hafter
        rw [hended.ending_nil] at hending
        exact absurd (append_eq_nil_iff.mp hending.symm).1 hwithin
      · have hrest := h.ends.resolve_right hafter
        have hmem := hended.ending_mem hafter
        obtain ⟨hcr, hcrLf⟩ := split_ending hmem hending hwithin hrest
        exact ⟨by rw [hpart, hcr], hcrLf⟩
  · exact .inl ⟨beyond, hcontent⟩

/-- The content up to a boundary. -/
theorem exists_column :
    ∃ column beyond, line.content = column ++ beyond ∧
      min (size part) (size line.content) = size column := by
  rcases h.cases with ⟨beyond, hcontent⟩ | ⟨hpart, _⟩
  · refine ⟨part, beyond, hcontent, ?_⟩
    rw [hcontent, size_append]
    omega
  · refine ⟨line.content, [], (append_nil _).symm, ?_⟩
    rw [hpart, size_append]
    omega

/-- A boundary of an earlier line comes first. -/
theorem size_lt {before' after' : List Line} {line' : Line} {part' rest' : List Char}
    (h' : Stands source before' line' after' part' rest') (hlt : before.length < before'.length) :
    size (before.flatMap Line.text ++ part) < size (before'.flatMap Line.text ++ part') := by
  rcases List.append_eq_append_iff.mp (h.lines_eq.symm.trans h'.lines_eq) with
    ⟨between, hbefore, hline⟩ | ⟨between, hbefore, _⟩
  · cases between with
    | nil =>
      rw [hbefore, append_nil] at hlt
      exact absurd hlt (Nat.lt_irrefl _)
    | cons first between =>
      obtain ⟨rfl, hafter⟩ := List.cons.inj hline
      have hrest : rest ≠ [] := h.ends.resolve_right (by rw [hafter]; simp)
      have hpos := mt size_eq_zero.mp hrest
      rw [hbefore, flatMap_append, flatMap_cons, h.text_eq]
      simp only [size_append]
      omega
  · rw [hbefore, List.length_append] at hlt
    omega

end

end Stands

/-- A CRLF ends a line. -/
theorem exists_crLf_line (pre post : List Char) :
    ∃ before content after, lines (pre ++ '\r' :: '\n' :: post) =
        before ++ ⟨content, ['\r', '\n']⟩ :: after ∧
      pre = before.flatMap Line.text ++ content := by
  induction pre using lines.induct with
  | case1 => exact ⟨[], [], lines post, rfl, rfl⟩
  | case2 text ih =>
    obtain ⟨before, content, after, hlines, htext⟩ := ih
    exact ⟨⟨[], ['\n']⟩ :: before, content, after, congrArg (Line.mk [] ['\n'] :: ·) hlines,
      congrArg ('\n' :: ·) htext⟩
  | case3 text ih =>
    obtain ⟨before, content, after, hlines, htext⟩ := ih
    exact ⟨⟨[], ['\r', '\n']⟩ :: before, content, after,
      congrArg (Line.mk [] ['\r', '\n'] :: ·) hlines, congrArg ('\r' :: '\n' :: ·) htext⟩
  | case4 text hn ih =>
    obtain ⟨before, content, after, hlines, htext⟩ := ih
    have hhead : (text ++ '\r' :: '\n' :: post).head? ≠ some '\n' := by
      cases text with
      | nil => exact fun h => absurd (Option.some.inj h) (by decide)
      | cons c text =>
        intro h
        cases h
        exact hn text rfl
    exact ⟨⟨[], ['\r']⟩ :: before, content, after,
      (lines_cr hhead).trans (congrArg (Line.mk [] ['\r'] :: ·) hlines), congrArg ('\r' :: ·) htext⟩
  | case5 c text hn hr hcr ih =>
    obtain ⟨before, content, after, hlines, htext⟩ := ih
    have hcons := lines_other hn hcr (text ++ '\r' :: '\n' :: post)
    rw [hlines] at hcons
    cases before with
    | nil => exact ⟨[], c :: content, after, hcons, congrArg (c :: ·) htext⟩
    | cons line before =>
      exact ⟨{ line with content := c :: line.content } :: before, content, after, hcons,
        congrArg (c :: ·) htext⟩

theorem snapDown_of_isBoundary {source : List Char} {offset : ℕ}
    (h : isBoundary source offset = true) : snapDown source offset = offset := by
  cases offset with
  | zero => rfl
  | succ offset => rw [snapDown, if_pos h]

theorem isBoundary_snapDown (source : List Char) (offset : ℕ) :
    isBoundary source (snapDown source offset) = true := by
  induction offset with
  | zero =>
    rw [snapDown, isBoundary_iff]
    exact ⟨[], source, rfl, rfl⟩
  | succ offset ih =>
    rw [snapDown]
    split
    · assumption
    · exact ih

/-- No boundary is passed over. -/
theorem le_snapDown {source : List Char} {boundary offset : ℕ}
    (h : isBoundary source boundary = true) (hle : boundary ≤ offset) :
    boundary ≤ snapDown source offset := by
  induction offset with
  | zero => exact hle
  | succ offset ih =>
    rw [snapDown]
    split
    · exact hle
    · rename_i hno
      apply ih
      have hne : boundary ≠ offset + 1 := by
        intro heq
        exact hno (heq ▸ h)
      omega

theorem snapDown_le (source : List Char) (offset : ℕ) : snapDown source offset ≤ offset := by
  induction offset with
  | zero => exact Nat.le_refl 0
  | succ offset ih =>
    rw [snapDown]
    split
    · exact Nat.le_refl _
    · exact Nat.le_succ_of_le ih

theorem snapDown_mono (source : List Char) {a b : ℕ} (h : a ≤ b) :
    snapDown source a ≤ snapDown source b :=
  le_snapDown (isBoundary_snapDown source a) (Nat.le_trans (snapDown_le source a) h)

/-- A column is at a boundary of the content. -/
theorem columnOffset_isSome (target : ℕ) {text : List Char} {column : ℕ}
    (h : column + utf16Units text < 2 ^ 32) :
    ∃ q r, text = q ++ r ∧ columnOffset target text column = some (size q) := by
  induction text generalizing column with
  | nil => exact ⟨[], [], rfl, rfl⟩
  | cons c text ih =>
    rw [utf16Units_cons] at h
    have hfits : ¬ 2 ^ 32 ≤ column + utf16Size c := by omega
    rw [columnOffset, if_neg hfits]
    split
    · exact ⟨[], c :: text, rfl, rfl⟩
    · split
      · exact ⟨[], c :: text, rfl, rfl⟩
      · have hrest : column + utf16Size c + utf16Units text < 2 ^ 32 := by omega
        obtain ⟨q, r, rfl, hq⟩ := ih hrest
        exact ⟨c :: q, r, rfl, by rw [hq, Option.map_some, size_cons]⟩

/-- The column of a boundary is at the boundary. -/
theorem columnOffset_append {q r : List Char} {column : ℕ}
    (h : column + utf16Units (q ++ r) < 2 ^ 32) :
    columnOffset (column + utf16Units q) (q ++ r) column = some (size q) := by
  induction q generalizing column with
  | nil =>
    cases r with
    | nil => rfl
    | cons c r =>
      rw [List.nil_append, columnOffset,
        if_pos (show column + utf16Units [] ≤ column from Nat.le_refl column)]
      rfl
  | cons c q ih =>
    rw [List.cons_append, utf16Units_cons] at h
    have hpos := utf16Size_pos c
    have hrest := ih (show column + utf16Size c + utf16Units (q ++ r) < 2 ^ 32 by omega)
    rw [List.cons_append, utf16Units_cons, columnOffset, if_neg (by omega), if_neg (by omega),
      if_neg (by omega), ← Nat.add_assoc, hrest, Option.map_some, size_cons]

/-! ## Conversion -/

theorem getElem?_lineStarts_new {source : List Char} {before after : List Line} {line : Line}
    (h : lines source = before ++ line :: after) :
    (Utf16LineIndex.new source).lineStarts[before.length]? =
      some (size (before.flatMap Line.text)) := by
  rw [lineStarts_new, h, List.getElem?_map, getElem?_lineTable, Nat.zero_add]
  rfl

theorem getElem?_lineContentEnds_new {source : List Char} {before after : List Line}
    {line : Line} (h : lines source = before ++ line :: after) :
    (Utf16LineIndex.new source).lineContentEnds[before.length]? =
      some (size (before.flatMap Line.text) + size line.content) := by
  rw [lineContentEnds_new, h, List.getElem?_map, getElem?_lineTable, Nat.zero_add]
  rfl

theorem size_source {source : List Char} {before after : List Line} {line : Line}
    (h : lines source = before ++ line :: after) :
    size source = size (before.flatMap Line.text) + size line.content + size line.ending +
      size (after.flatMap Line.text) := by
  rw [← flatMap_lines source, h, flatMap_append, flatMap_cons, size_append,
    size_append, Line.text, size_append]
  omega

/-- A slice from the start of a line within its content. -/
theorem slice_line {source : List Char} {before after : List Line} {line : Line}
    {column beyond : List Char} (h : lines source = before ++ line :: after)
    (hcontent : line.content = column ++ beyond) :
    slice source (size (before.flatMap Line.text))
      (size (before.flatMap Line.text) + size column) = some column := by
  have hsource : source = before.flatMap Line.text ++ column ++
      (beyond ++ line.ending ++ after.flatMap Line.text) := by
    rw [← flatMap_lines source, h, flatMap_append, flatMap_cons, Line.text, hcontent]
    simp only [append_assoc]
  rw [hsource]
  exact slice_append _ _ _

/-- An offset has the position of the boundary it is clamped to. -/
theorem position_snapDown (source : List Char) (offset : ℕ) :
    (Utf16LineIndex.new source).position offset =
      (Utf16LineIndex.new source).position (snapDown source (min offset (size source))) := by
  have hle := Nat.le_trans (snapDown_le source (min offset (size source)))
    (Nat.min_le_right offset (size source))
  have hoffset : snapDown source (min (snapDown source (min offset (size source)))
      (size source)) = snapDown source (min offset (size source)) := by
    rw [Nat.min_eq_left hle, snapDown_of_isBoundary (isBoundary_snapDown _ _)]
  unfold Utf16LineIndex.position
  dsimp only [Utf16LineIndex.new]
  rw [hoffset]

/-- The position of a boundary: its line, and the units of the content before it. -/
theorem Stands.position {source : List Char} {before after : List Line} {line : Line}
    {part rest column beyond : List Char} (h : Stands source before line after part rest)
    (hcontent : line.content = column ++ beyond)
    (hcolumn : min (size part) (size line.content) = size column) :
    (Utf16LineIndex.new source).position (size (before.flatMap Line.text ++ part)) =
      some ⟨saturateU32 before.length, saturateU32 (utf16Units column)⟩ := by
  have hsource := size_source h.lines_eq
  have htext := congrArg size h.text_eq
  rw [Line.text, size_append, size_append] at htext
  have hsize := size_append (before.flatMap Line.text) part
  have hclamp : min (size (before.flatMap Line.text ++ part)) (size source) =
      size (before.flatMap Line.text ++ part) := by omega
  have hlt : size (before.flatMap Line.text ++ part) <
      0 + size (before.flatMap Line.text) + size line.text ∨ after = [] := by
    refine h.ends.imp_left fun hrest => ?_
    have hpos := mt size_eq_zero.mp hrest
    rw [h.text_eq, size_append, size_append]
    omega
  have hle : 0 + size (before.flatMap Line.text) ≤ size (before.flatMap Line.text ++ part) := by
    omega
  have hline := length_takeWhile_lineTable 0 hle hlt
  have hmin : min (size (before.flatMap Line.text ++ part))
      (size (before.flatMap Line.text) + size line.content) =
      size (before.flatMap Line.text) + size column := by omega
  have hindex : max (before.length + 1) 1 - 1 = before.length := by omega
  rw [← h.lines_eq, ← lineStarts_new] at hline
  have hsnap := snapDown_of_isBoundary h.isBoundary
  rw [Utf16LineIndex.position]
  rw [show (Utf16LineIndex.new source).source = source from rfl, hclamp, hsnap, hline,
    hindex, getElem?_lineStarts_new h.lines_eq, getElem?_lineContentEnds_new h.lines_eq]
  dsimp only [bind, Option.bind]
  rw [hmin, slice_line h.lines_eq hcontent]
  rfl

/-- The offset of a column is in its line. -/
theorem byteOffset_line {source : List Char} {before after : List Line} {line : Line}
    (h : lines source = before ++ line :: after) (character : ℕ) :
    (Utf16LineIndex.new source).byteOffset ⟨before.length, character⟩ =
      (columnOffset character line.content 0).map (size (before.flatMap Line.text) + ·) := by
  rw [Utf16LineIndex.byteOffset]
  rw [getElem?_lineStarts_new h, getElem?_lineContentEnds_new h]
  dsimp only [bind, Option.bind]
  rw [show (Utf16LineIndex.new source).source = source from rfl,
    slice_line h (append_nil line.content).symm]
  dsimp only
  cases columnOffset character line.content 0 with
  | none => rfl
  | some offset => rfl

theorem byteOffset_past {source : List Char} {line : ℕ} (h : (lines source).length ≤ line)
    (character : ℕ) :
    (Utf16LineIndex.new source).byteOffset ⟨line, character⟩ = some (size source) := by
  have hnone : (Utf16LineIndex.new source).lineStarts[line]? = none := by
    rw [lineStarts_new, List.getElem?_eq_none_iff, List.length_map, length_lineTable]
    exact h
  rw [Utf16LineIndex.byteOffset]
  rw [hnone]
  rfl

/-- A position names a boundary of its line. -/
def Names (source : List Char) (position : Utf16Position) (offset : ℕ) : Prop :=
  ∃ before line after q r, lines source = before ++ line :: after ∧
    before.length = position.line ∧ line.content = q ++ r ∧
    utf16Units q = position.character ∧ size (before.flatMap Line.text ++ q) = offset

theorem saturateU32_of_lt {n : ℕ} (h : n < 2 ^ 32) : saturateU32 n = n := if_pos h

theorem saturateU32_mono {m n : ℕ} (h : m ≤ n) : saturateU32 m ≤ saturateU32 n := by
  unfold saturateU32
  split <;> split <;> omega

section Short

variable {source : List Char} {before after : List Line} {line : Line}

section

variable (hsource : size source < 2 ^ 32)

include hsource

section

variable (h : lines source = before ++ line :: after)

include h

theorem length_before_lt : before.length < 2 ^ 32 := by
  have hended := ended_lines source
  rw [h] at hended
  have hle := hended.length_le (List.cons_ne_nil _ _)
  have hsize := size_source h
  omega

theorem utf16Units_content_lt : utf16Units line.content < 2 ^ 32 := by
  have hle := utf16Units_le_size line.content
  have hsize := size_source h
  omega

/-- A boundary within the content has a position that names it. -/
theorem position_content {q r : List Char} (hcontent : line.content = q ++ r) :
    (Utf16LineIndex.new source).position (size (before.flatMap Line.text ++ q)) =
      some ⟨before.length, utf16Units q⟩ := by
  have hended := ended_lines source
  rw [h] at hended
  have hends : r ++ line.ending ≠ [] ∨ after = [] := by
    by_cases hafter : after = []
    · exact .inr hafter
    · left
      intro hnil
      have hmem := hended.ending_mem hafter
      rw [(append_eq_nil_iff.mp hnil).2] at hmem
      exact absurd hmem (by decide)
  have hstands : Stands source before line after q (r ++ line.ending) :=
    ⟨h, by rw [Line.text, hcontent, append_assoc], hends⟩
  have hunits := utf16Units_content_lt hsource h
  have hsize := size_append q r
  rw [hcontent, utf16Units_append] at hunits
  rw [hstands.position hcontent (by rw [hcontent]; omega),
    saturateU32_of_lt (length_before_lt hsource h), saturateU32_of_lt (by omega)]

/-- The position of a boundary of the content leads back to it. -/
theorem byteOffset_content {q r : List Char} (hcontent : line.content = q ++ r) :
    (Utf16LineIndex.new source).byteOffset ⟨before.length, utf16Units q⟩ =
      some (size (before.flatMap Line.text ++ q)) := by
  have hunits := utf16Units_content_lt hsource h
  rw [hcontent, ← Nat.zero_add (utf16Units (q ++ r))] at hunits
  have hcolumn := columnOffset_append hunits
  rw [Nat.zero_add] at hcolumn
  rw [byteOffset_line h, hcontent, hcolumn, Option.map_some, size_append]

end

/-- A boundary leads back to itself, and the inside of a CRLF to its start. -/
theorem byteOffset_position {pre post : List Char} (h : source = pre ++ post) :
    ((Utf16LineIndex.new source).position (size pre)).bind (Utf16LineIndex.new source).byteOffset =
      some (if pre.getLast? = some '\r' ∧ post.head? = some '\n' then size pre - 1
        else size pre) := by
  split
  · rename_i hinside
    obtain ⟨hlast, hhead⟩ := hinside
    obtain ⟨pre, rfl⟩ := List.getLast?_eq_some_iff.mp hlast
    obtain ⟨post, rfl⟩ := List.head?_eq_some_iff.mp hhead
    obtain ⟨before, content, after, hlines, hpre⟩ := exists_crLf_line pre post
    rw [append_assoc] at h
    change source = pre ++ '\r' :: '\n' :: post at h
    rw [← h] at hlines
    have hstands : Stands source before ⟨content, ['\r', '\n']⟩ after (content ++ ['\r']) ['\n'] :=
      ⟨hlines, by simp [Line.text], .inl (List.cons_ne_nil _ _)⟩
    have hposition := hstands.position (show content = content ++ [] from (append_nil _).symm)
      (show min (size (content ++ ['\r'])) (size content) = _ by
        rw [size_append]
        omega)
    have hunits : utf16Units content < 2 ^ 32 := utf16Units_content_lt hsource hlines
    rw [saturateU32_of_lt (length_before_lt hsource hlines), saturateU32_of_lt hunits,
      ← append_assoc, ← hpre] at hposition
    have hcontent := byteOffset_content hsource hlines (append_nil content).symm
    rw [hposition, Option.bind_some, hcontent, ← hpre, size_append]
    rfl
  · rename_i hinside
    obtain ⟨before, line, after, part, rest, hstands, hpre⟩ := exists_stands h
    rcases hstands.cases with ⟨beyond, hcontent⟩ | ⟨hpart, hending⟩
    · rw [hpre, position_content hsource hstands.lines_eq hcontent, Option.bind_some,
        byteOffset_content hsource hstands.lines_eq hcontent]
    · -- a boundary between the two characters of an ending is inside a CRLF
      apply absurd _ hinside
      have htext := hstands.text_eq
      rw [Line.text, hending, hpart, append_assoc] at htext
      have hrest : rest = ['\n'] := List.cons.inj (List.append_cancel_left htext) |>.2.symm
      have hpost := hstands.source_eq.symm.trans h
      rw [hpre, hstands.text_eq, hrest, append_assoc, append_assoc, append_assoc]
        at hpost
      have hpost' := List.append_cancel_left (List.append_cancel_left hpost)
      rw [hpre, hpart, ← hpost', ← append_assoc, List.getLast?_concat]
      exact ⟨rfl, rfl⟩

/-- A later offset has no earlier position. -/
theorem position_mono {a b : ℕ} (h : a ≤ b) :
    ∃ p q, (Utf16LineIndex.new source).position a = some p ∧
      (Utf16LineIndex.new source).position b = some q ∧
      (p.line < q.line ∨ p.line = q.line ∧ p.character ≤ q.character) := by
  have hclamp : min a (size source) ≤ min b (size source) := by omega
  have hle := snapDown_mono source hclamp
  obtain ⟨pre, post, hpre, hpresize⟩ :=
    isBoundary_iff.mp (isBoundary_snapDown source (min a (size source)))
  obtain ⟨pre', post', hpre', hpresize'⟩ :=
    isBoundary_iff.mp (isBoundary_snapDown source (min b (size source)))
  rw [position_snapDown source a, position_snapDown source b]
  rw [← hpresize, ← hpresize'] at hle ⊢
  obtain ⟨before, line, after, part, rest, hstands, rfl⟩ := exists_stands hpre
  obtain ⟨before', line', after', part', rest', hstands', rfl⟩ := exists_stands hpre'
  obtain ⟨column, beyond, hcontent, hcolumn⟩ := hstands.exists_column
  obtain ⟨column', beyond', hcontent', hcolumn'⟩ := hstands'.exists_column
  refine ⟨_, _, hstands.position hcontent hcolumn, hstands'.position hcontent' hcolumn', ?_⟩
  rw [saturateU32_of_lt (length_before_lt hsource hstands.lines_eq),
    saturateU32_of_lt (length_before_lt hsource hstands'.lines_eq)]
  rcases Nat.lt_trichotomy before.length before'.length with hlt | heq | hgt
  · exact .inl hlt
  · obtain ⟨hbefore, hrest⟩ := List.append_inj (hstands.lines_eq.symm.trans hstands'.lines_eq) heq
    obtain ⟨rfl, _⟩ := List.cons.inj hrest
    subst hbefore
    have hsizes : size column ≤ size column' := by
      rw [size_append, size_append] at hle
      omega
    obtain ⟨between, hbetween, _⟩ := prefix_of_size_le hcontent hcontent' hsizes
    refine .inr ⟨rfl, saturateU32_mono ?_⟩
    rw [hbetween, utf16Units_append]
    exact Nat.le_add_right _ _
  · exact absurd (hstands'.size_lt hstands hgt) (Nat.not_lt.mpr hle)

end

theorem Names.isBoundary {position : Utf16Position} {offset : ℕ}
    (h : Names source position offset) : isBoundary source offset = true := by
  obtain ⟨before, line, after, q, r, hlines, _, hcontent, _, rfl⟩ := h
  refine isBoundary_iff.mpr ⟨before.flatMap Line.text ++ q,
    r ++ line.ending ++ after.flatMap Line.text, ?_, rfl⟩
  rw [← flatMap_lines source, hlines, flatMap_append, flatMap_cons, Line.text, hcontent]
  simp only [append_assoc]

/-- A column is clamped to a boundary of its line. -/
theorem byteOffset_names (hsource : size source < 2 ^ 32) (position : Utf16Position)
    (h : position.line < (lines source).length) :
    ∃ offset character, (Utf16LineIndex.new source).byteOffset position = some offset ∧
      Names source ⟨position.line, character⟩ offset := by
  have hlines : lines source = (lines source).take position.line ++
      (lines source)[position.line] :: (lines source).drop (position.line + 1) := by
    rw [List.getElem_cons_drop, List.take_append_drop]
  have hlength : ((lines source).take position.line).length = position.line :=
    List.length_take_of_le (Nat.le_of_lt h)
  have hunits := utf16Units_content_lt hsource hlines
  rw [← Nat.zero_add (utf16Units _)] at hunits
  obtain ⟨q, r, hcontent, hcolumn⟩ := columnOffset_isSome position.character hunits
  have hoffset := byteOffset_line hlines position.character
  rw [hlength, hcolumn, Option.map_some, ← size_append] at hoffset
  exact ⟨_, utf16Units q, hoffset, _, _, _, q, r, hlines, hlength, hcontent, rfl, rfl⟩

end Short

/-- What offsets and positions promise each other. -/
structure Agree (source : List Char) : Prop where
  /-- No slice is off a boundary on the way there and back. -/
  roundTrip : ∀ pre post, source = pre ++ post →
    ((Utf16LineIndex.new source).position (size pre)).bind (Utf16LineIndex.new source).byteOffset =
      some (if pre.getLast? = some '\r' ∧ post.head? = some '\n' then size pre - 1
        else size pre)
  monotone : ∀ a b, a ≤ b → ∃ p q, (Utf16LineIndex.new source).position a = some p ∧
    (Utf16LineIndex.new source).position b = some q ∧
    (p.line < q.line ∨ p.line = q.line ∧ p.character ≤ q.character)
  onLine : ∀ position : Utf16Position, position.line < (lines source).length →
    ∃ offset character, (Utf16LineIndex.new source).byteOffset position = some offset ∧
      Names source ⟨position.line, character⟩ offset ∧ isBoundary source offset = true
  pastEnd : ∀ position : Utf16Position, (lines source).length ≤ position.line →
    (Utf16LineIndex.new source).byteOffset position = some (size source)
  named : ∀ position offset, Names source position offset →
    (Utf16LineIndex.new source).byteOffset position = some offset ∧
      (Utf16LineIndex.new source).position offset = some position

/-- Positions and offsets agree in every source that a `u32` can address. -/
theorem agree_of_size_lt {source : List Char} (h : size source < 2 ^ 32) : Agree source where
  roundTrip _ _ hsource := byteOffset_position h hsource
  monotone _ _ hle := position_mono h hle
  onLine position hline := by
    obtain ⟨offset, character, hoffset, hnames⟩ := byteOffset_names h position hline
    exact ⟨offset, character, hoffset, hnames, hnames.isBoundary⟩
  pastEnd position hline := byteOffset_past hline position.character
  named position offset hnames := by
    obtain ⟨line, character⟩ := position
    obtain ⟨before, text, after, q, r, hlines, hline, hcontent, hcharacter, rfl⟩ := hnames
    cases hline
    cases hcharacter
    exact ⟨byteOffset_content h hlines hcontent, position_content h hlines hcontent⟩

theorem mixed_endings_agree : Agree ['a', '😀', '\r', '\n', '\r', 'é', '\n', '\n'] :=
  agree_of_size_lt (by decide)

end ProvenGraphcal.TextPosition
