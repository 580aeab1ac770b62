import Mathlib.Order.Basic
import ProvenGraphcal.Library.Utf8Text

/-!
# Source offsets and editor positions

An offset counts bytes, a position a line and UTF-16 units. An index or a slice off its range is a
panic of the program, which is `none`.
-/

namespace ProvenGraphcal.TextPosition

open Utf8Text

inductive LineEnding
  | lf
  | crLf
  | cr
  deriving DecidableEq

def LineEnding.len : LineEnding → ℕ
  | lf | cr => 1
  | crLf => 2

def newline : UInt8 := 10

def carriageReturn : UInt8 := 13

def lineEndingAt (bytes : List UInt8) (offset : ℕ) : Option LineEnding :=
  if bytes[offset]? = some newline then some .lf
  else if bytes[offset]? = some carriageReturn then
    if bytes[offset + 1]? = some newline then some .crLf else some .cr
  else none

/-- The line endings from an offset on; each round of the loop moves on. -/
def lineEndingsFrom (bytes : List UInt8) : ℕ → ℕ → List (ℕ × LineEnding)
  | 0, _ => []
  | fuel + 1, offset =>
    if offset < bytes.length then
      match lineEndingAt bytes offset with
      | some ending => (offset, ending) :: lineEndingsFrom bytes fuel (offset + ending.len)
      | none => lineEndingsFrom bytes fuel (offset + 1)
    else []

def lineEndings (source : List Char) : List (ℕ × LineEnding) :=
  lineEndingsFrom (bytes source) (bytes source).length 0

structure Utf16Position where
  line : ℕ
  character : ℕ
  deriving DecidableEq

structure Utf16LineIndex where
  source : List Char
  lineStarts : List ℕ
  lineContentEnds : List ℕ

def Utf16LineIndex.new (source : List Char) : Utf16LineIndex where
  source := source
  lineStarts := 0 :: (lineEndings source).map fun ending => ending.1 + ending.2.len
  lineContentEnds := (lineEndings source).map Prod.fst ++ [size source]

/-- A `u32`, or the greatest one. -/
def saturateU32 (n : ℕ) : ℕ := if n < 2 ^ 32 then n else 2 ^ 32 - 1

/-- The last boundary up to an offset. -/
def snapDown (source : List Char) : ℕ → ℕ
  | 0 => 0
  | offset + 1 => if isBoundary source (offset + 1) then offset + 1 else snapDown source offset

/-- The bytes up to the character at a column; `none` if the column overflows. -/
def columnOffset (target : ℕ) : List Char → ℕ → Option ℕ
  | [], _ => some 0
  | c :: text, column =>
    if target ≤ column then some 0
    else if 2 ^ 32 ≤ column + utf16Size c then none
    else if target < column + utf16Size c then some 0
    else (columnOffset target text (column + utf16Size c)).map (c.utf8Size + ·)

namespace Utf16LineIndex

variable (index : Utf16LineIndex)

/-- The starts ascend, so that those up to an offset come first. -/
def position (offset : ℕ) : Option Utf16Position := do
  let offset := snapDown index.source (min offset (size index.source))
  let line := max (index.lineStarts.takeWhile (· ≤ offset)).length 1 - 1
  let lineStart ← index.lineStarts[line]?
  let lineContentEnd ← index.lineContentEnds[line]?
  let content ← slice index.source lineStart (min offset lineContentEnd)
  return ⟨saturateU32 line, saturateU32 (utf16Units content)⟩

def byteOffset (position : Utf16Position) : Option ℕ :=
  match index.lineStarts[position.line]? with
  | none => some (size index.source)
  | some lineStart => do
    let lineEnd ← index.lineContentEnds[position.line]?
    let content ← slice index.source lineStart lineEnd
    let offset ← columnOffset position.character content 0
    return lineStart + offset

end Utf16LineIndex

structure Line where
  content : List Char
  ending : List Char

def Line.text (line : Line) : List Char := line.content ++ line.ending

/-- Put a character before the first line. -/
def consLine (c : Char) : List Line → List Line
  | [] => [⟨[c], []⟩]
  | line :: lines => { line with content := c :: line.content } :: lines

/-- The lines of a text; the last one has no ending. -/
def lines : List Char → List Line
  | [] => [⟨[], []⟩]
  | '\n' :: text => ⟨[], ['\n']⟩ :: lines text
  | '\r' :: '\n' :: text => ⟨[], ['\r', '\n']⟩ :: lines text
  | '\r' :: text => ⟨[], ['\r']⟩ :: lines text
  | c :: text => consLine c (lines text)

theorem lineEndingAt_lf (before after : List Char) :
    lineEndingAt (bytes (before ++ '\n' :: after)) (size before) = some .lf := by
  have hbyte : (bytes (before ++ '\n' :: after))[size before]? = some newline :=
    getElem?_bytes_append before ('\n' :: after) 0
  rw [lineEndingAt, if_pos hbyte]

variable {text : List Char}

theorem head?_bytes_eq_newline (h : (bytes text)[0]? = some newline) :
    text.head? = some '\n' := by
  cases text with
  | nil => cases h
  | cons c text =>
    have hpos : 0 < (String.utf8EncodeChar c).length := by
      rw [String.length_utf8EncodeChar]
      exact c.utf8Size_pos
    rw [← List.singleton_append, bytes_append, bytes, List.flatMap_singleton,
      List.getElem?_append_left hpos] at h
    have hval := toNat_of_mem_utf8EncodeChar (List.mem_of_getElem? h) (by decide)
    rw [List.head?_cons, Option.some.injEq]
    exact Char.ext (UInt32.toNat_inj.mp hval.symm)

theorem lineEndingAt_crLf (before after : List Char) :
    lineEndingAt (bytes (before ++ '\r' :: '\n' :: after)) (size before) = some .crLf := by
  have hbyte : (bytes (before ++ '\r' :: '\n' :: after))[size before]? = some carriageReturn :=
    getElem?_bytes_append before ('\r' :: '\n' :: after) 0
  have hnext : (bytes (before ++ '\r' :: '\n' :: after))[size before + 1]? = some newline :=
    getElem?_bytes_append before ('\r' :: '\n' :: after) 1
  rw [lineEndingAt, if_neg (by rw [hbyte]; decide), if_pos hbyte, if_pos hnext]

theorem lineEndingAt_cr {before after : List Char} (h : after.head? ≠ some '\n') :
    lineEndingAt (bytes (before ++ '\r' :: after)) (size before) = some .cr := by
  have hbyte : (bytes (before ++ '\r' :: after))[size before]? = some carriageReturn :=
    getElem?_bytes_append before ('\r' :: after) 0
  have hnext : (bytes (before ++ '\r' :: after))[size before + 1]? = (bytes after)[0]? :=
    getElem?_bytes_append before ('\r' :: after) 1
  rw [lineEndingAt, if_neg (by rw [hbyte]; decide), if_pos hbyte, if_neg]
  rw [hnext]
  exact fun hnewline => h (head?_bytes_eq_newline hnewline)

variable {c : Char}

/-- No line ending begins within another character. -/
theorem lineEndingAt_other (hn : c ≠ '\n') (hr : c ≠ '\r') (before after : List Char) {i : ℕ}
    (hi : i < c.utf8Size) :
    lineEndingAt (bytes (before ++ c :: after)) (size before + i) = none := by
  have hi' : i < (String.utf8EncodeChar c).length := by rwa [String.length_utf8EncodeChar]
  have hbyte : (bytes (before ++ c :: after))[size before + i]? =
      some (String.utf8EncodeChar c)[i] := by
    rw [getElem?_bytes_append, ← List.singleton_append, bytes_append, bytes,
      List.flatMap_singleton, List.getElem?_append_left hi', List.getElem?_eq_getElem hi']
  have hne : ∀ d : Char, c ≠ d → ∀ b : UInt8, b.toNat < 128 → b.toNat = d.val.toNat →
      (String.utf8EncodeChar c)[i] ≠ b := by
    rintro d hcd b hsmall hval rfl
    have hc := toNat_of_mem_utf8EncodeChar (List.getElem_mem hi') hsmall
    exact hcd (Char.ext (UInt32.toNat_inj.mp (hc.symm.trans hval)))
  rw [lineEndingAt, hbyte, if_neg, if_neg]
  · rw [Option.some.injEq]
    exact hne '\r' hr carriageReturn (by decide) rfl
  · rw [Option.some.injEq]
    exact hne '\n' hn newline (by decide) rfl

variable {offset : ℕ}

theorem lineEndingsFrom_skip {bytes : List UInt8} {n : ℕ} (fuel : ℕ)
    (h : ∀ i < n, offset + i < bytes.length ∧ lineEndingAt bytes (offset + i) = none) :
    lineEndingsFrom bytes (fuel + n) offset = lineEndingsFrom bytes fuel (offset + n) := by
  induction n generalizing offset with
  | zero => rfl
  | succ n ih =>
    obtain ⟨hlt, hnone⟩ := h 0 (Nat.succ_pos n)
    rw [Nat.add_zero] at hlt hnone
    rw [← Nat.add_assoc, lineEndingsFrom, if_pos hlt, hnone]
    rw [ih fun i hi => by
      rw [Nat.add_assoc, Nat.add_comm 1 i]
      exact h (i + 1) (Nat.succ_lt_succ hi), Nat.add_assoc, Nat.add_comm 1 n]

variable {ending : LineEnding}

theorem lineEndingsFrom_some {bytes : List UInt8} (fuel : ℕ) (hlt : offset < bytes.length)
    (h : lineEndingAt bytes offset = some ending) :
    lineEndingsFrom bytes (fuel + 1) offset =
      (offset, ending) :: lineEndingsFrom bytes fuel (offset + ending.len) := by
  rw [lineEndingsFrom, if_pos hlt, h]

/-! ## The tables of the index -/

/-- The start of each line and the end of its content. -/
def lineTable : ℕ → List Line → List (ℕ × ℕ)
  | _, [] => []
  | start, line :: lines =>
    (start, start + size line.content) :: lineTable (start + size line.text) lines

theorem foldr_consLine (content : List Char) (line : Line) (rest : List Line) :
    content.foldr consLine (line :: rest) = ⟨content ++ line.content, line.ending⟩ :: rest := by
  induction content with
  | nil => rfl
  | cons c content ih =>
    rw [List.foldr_cons, ih]
    rfl

theorem lineTable_foldr (start : ℕ) (content : List Char) (line : Line) (rest : List Line) :
    lineTable start (content.foldr consLine (line :: rest)) =
      (start, start + size content + size line.content) ::
        lineTable (start + size content + size line.text) rest := by
  simp only [foldr_consLine, lineTable, Line.text, size_append, Nat.add_assoc]

/-- The tables from a place within a line on, as a scan from there completes them. -/
def ScansTo (before content text : List Char) (start fuel : ℕ) : Prop :=
  (start :: (lineEndingsFrom (bytes (before ++ text)) fuel (size before)).map
      fun ending => ending.1 + ending.2.len) =
    (lineTable start (content.foldr consLine (lines text))).map Prod.fst ∧
  (lineEndingsFrom (bytes (before ++ text)) fuel (size before)).map Prod.fst ++
      [size (before ++ text)] =
    (lineTable start (content.foldr consLine (lines text))).map Prod.snd

theorem lines_cr (h : text.head? ≠ some '\n') :
    lines ('\r' :: text) = ⟨[], ['\r']⟩ :: lines text := by
  rw [lines]
  rintro rest rfl
  exact h rfl

theorem lines_other (hn : c ≠ '\n') (hr : c ≠ '\r') (text : List Char) :
    lines (c :: text) = consLine c (lines text) := by
  rw [lines]
  · exact hn
  · intro _ h
    exact absurd h hr
  · exact hr

theorem size_lt_length_bytes (before : List Char) (h : text ≠ []) :
    size before < (bytes (before ++ text)).length := by
  have hpos := Nat.pos_of_ne_zero (mt size_eq_zero.mp h)
  rw [length_bytes, size_append]
  omega

/-- A line ending ends the line and begins the next. -/
theorem scansTo_ending {before content chars : List Char} {start fuel : ℕ}
    (hstart : start + size content = size before) (hchars : size chars = ending.len)
    (hlines : lines (chars ++ text) = ⟨[], chars⟩ :: lines text)
    (hending : lineEndingAt (bytes (before ++ (chars ++ text))) (size before) = some ending)
    (hne : chars ≠ []) (hrest : ScansTo (before ++ chars) [] text (size before + ending.len) fuel) :
    ScansTo before content (chars ++ text) start (fuel + 1) := by
  have hlt := size_lt_length_bytes before (show chars ++ text ≠ [] by simp [hne])
  rw [ScansTo, List.append_assoc, size_append, hchars] at hrest
  rw [ScansTo, lineEndingsFrom_some fuel hlt hending, hlines, lineTable_foldr, hstart]
  have htext : size (⟨[], chars⟩ : Line).text = ending.len := hchars
  rw [htext]
  exact ⟨congrArg (start :: ·) hrest.1, congrArg (size before :: ·) hrest.2⟩

/-- The scan finds the lines. -/
theorem scansTo (before content text : List Char) {start fuel : ℕ}
    (hstart : start + size content = size before) (hfuel : size text ≤ fuel) :
    ScansTo before content text start fuel := by
  induction text using lines.induct generalizing before content start fuel with
  | case1 =>
    have hend : lineEndingsFrom (bytes (before ++ [])) fuel (size before) = [] := by
      cases fuel with
      | zero => rfl
      | succ fuel =>
        rw [lineEndingsFrom, if_neg]
        rw [length_bytes, List.append_nil]
        exact Nat.lt_irrefl _
    rw [ScansTo, hend, lines, lineTable_foldr, hstart]
    simp [lineTable]
  | case2 text ih =>
    have hsize : ('\n' : Char).utf8Size = 1 := rfl
    obtain ⟨fuel, rfl⟩ : ∃ n, fuel = n + 1 := ⟨fuel - 1, by rw [size_cons] at hfuel; omega⟩
    refine scansTo_ending hstart (show size ['\n'] = _ from rfl) rfl (lineEndingAt_lf before text)
      (List.cons_ne_nil _ _) (ih _ _ ?_ ?_)
    · rw [size_append]
      rfl
    · rw [size_cons] at hfuel
      omega
  | case3 text ih =>
    have hcr : ('\r' : Char).utf8Size = 1 := rfl
    obtain ⟨fuel, rfl⟩ : ∃ n, fuel = n + 1 := ⟨fuel - 1, by rw [size_cons] at hfuel; omega⟩
    refine scansTo_ending hstart (show size ['\r', '\n'] = _ from rfl) rfl
      (lineEndingAt_crLf before text) (List.cons_ne_nil _ _) (ih _ _ ?_ ?_)
    · rw [size_append]
      rfl
    · rw [size_cons, size_cons] at hfuel
      omega
  | case4 text hn ih =>
    have hcr : ('\r' : Char).utf8Size = 1 := rfl
    have hhead : text.head? ≠ some '\n' := by
      intro hhead
      cases text with
      | nil => cases hhead
      | cons c text =>
        cases hhead
        exact hn text rfl
    obtain ⟨fuel, rfl⟩ : ∃ n, fuel = n + 1 := ⟨fuel - 1, by rw [size_cons] at hfuel; omega⟩
    refine scansTo_ending hstart (show size ['\r'] = _ from rfl) (lines_cr hhead)
      (lineEndingAt_cr hhead) (List.cons_ne_nil _ _) (ih _ _ ?_ ?_)
    · rw [size_append]
      rfl
    · rw [size_cons] at hfuel
      omega
  | case5 c text hn hr hcr ih =>
    rw [size_cons] at hfuel
    obtain ⟨fuel, rfl⟩ : ∃ n, fuel = n + c.utf8Size := ⟨fuel - c.utf8Size, by omega⟩
    have hstart' : start + size (content ++ [c]) = size (before ++ [c]) := by
      rw [size_append, size_append]
      omega
    have h := ih (before ++ [c]) (content ++ [c]) hstart' (by omega : size text ≤ fuel)
    have hsize : size (before ++ [c]) = size before + c.utf8Size := by
      rw [size_append]
      rfl
    have hother : ∀ i < c.utf8Size, size before + i < (bytes (before ++ c :: text)).length ∧
        lineEndingAt (bytes (before ++ c :: text)) (size before + i) = none := fun i hi =>
      ⟨by rw [length_bytes, size_append, size_cons]; omega,
        lineEndingAt_other hn hcr before text hi⟩
    have hskip := lineEndingsFrom_skip fuel hother
    rw [ScansTo, List.append_assoc, List.singleton_append, hsize, List.foldr_append] at h
    rw [ScansTo, hskip, lines_other hn hcr]
    exact h

theorem lineStarts_new (source : List Char) :
    (Utf16LineIndex.new source).lineStarts = (lineTable 0 (lines source)).map Prod.fst :=
  (scansTo [] [] source rfl (Nat.le_of_eq (length_bytes source).symm)).1

theorem lineContentEnds_new (source : List Char) :
    (Utf16LineIndex.new source).lineContentEnds = (lineTable 0 (lines source)).map Prod.snd :=
  (scansTo [] [] source rfl (Nat.le_of_eq (length_bytes source).symm)).2

/-- The lines before a line, and the line. -/
theorem lineTable_append (start : ℕ) (before after : List Line) :
    lineTable start (before ++ after) =
      lineTable start before ++ lineTable (start + size (before.flatMap Line.text)) after := by
  induction before generalizing start with
  | nil => rfl
  | cons line before ih =>
    rw [List.cons_append, lineTable, lineTable, ih, List.cons_append, List.flatMap_cons,
      size_append, Nat.add_assoc]

@[simp] theorem length_lineTable (start : ℕ) (lines : List Line) :
    (lineTable start lines).length = lines.length := by
  induction lines generalizing start with
  | nil => rfl
  | cons line lines ih => rw [lineTable, List.length_cons, ih, List.length_cons]

theorem getElem?_lineTable (start : ℕ) (before : List Line) (line : Line) (after : List Line) :
    (lineTable start (before ++ line :: after))[before.length]? =
      some (start + size (before.flatMap Line.text),
        start + size (before.flatMap Line.text) + size line.content) := by
  rw [lineTable_append,
    List.getElem?_append_right (Nat.le_of_eq (length_lineTable _ _)), length_lineTable,
    Nat.sub_self, lineTable, List.getElem?_cons_zero]

variable {line : Line} {before : List Line}

/-- The lines that start by an offset are those up to its own. -/
theorem length_takeWhile_lineTable (start : ℕ) {after : List Line}
    (hle : start + size (before.flatMap Line.text) ≤ offset)
    (hlt : offset < start + size (before.flatMap Line.text) + size line.text ∨ after = []) :
    (((lineTable start (before ++ line :: after)).map Prod.fst).takeWhile (· ≤ offset)).length =
      before.length + 1 := by
  induction before generalizing start with
  | nil =>
    have hstart : decide (start ≤ offset) = true := decide_eq_true hle
    rw [List.nil_append, lineTable, List.map_cons, List.takeWhile_cons, if_pos hstart]
    cases after with
    | nil => rfl
    | cons next after =>
      have hnext : ¬ decide (start + size line.text ≤ offset) = true := by
        simpa using hlt
      rw [lineTable, List.map_cons, List.takeWhile_cons, if_neg hnext]
      rfl
  | cons first before ih =>
    rw [List.flatMap_cons, size_append, ← Nat.add_assoc] at hle hlt
    have hstart : decide (start ≤ offset) = true := decide_eq_true (by omega)
    rw [List.cons_append, lineTable, List.map_cons, List.takeWhile_cons, if_pos hstart,
      List.length_cons, ih _ hle hlt]
    rfl

theorem flatMap_consLine (c : Char) (lines : List Line) :
    (consLine c lines).flatMap Line.text = c :: lines.flatMap Line.text := by
  cases lines with
  | nil => rfl
  | cons line lines => rfl

theorem flatMap_lines (source : List Char) : (lines source).flatMap Line.text = source := by
  induction source using lines.induct with
  | case1 => rfl
  | case2 text ih => exact congrArg ('\n' :: ·) ih
  | case3 text ih => exact congrArg ('\r' :: '\n' :: ·) ih
  | case4 text hn ih =>
    rw [lines]
    · exact congrArg ('\r' :: ·) ih
    · exact hn
  | case5 c text hn hr hcr ih => rw [lines_other hn hcr, flatMap_consLine, ih]

/-- Every line but the last has an ending. -/
def Ended : List Line → Prop
  | [] => False
  | [line] => line.ending = []
  | line :: lines => line.ending ∈ [['\n'], ['\r', '\n'], ['\r']] ∧ Ended lines

theorem ended_cons {lines : List Line} (hline : line.ending ∈ [['\n'], ['\r', '\n'], ['\r']])
    (h : Ended lines) :
    Ended (line :: lines) := by
  cases lines with
  | nil => exact False.elim h
  | cons next lines => exact ⟨hline, h⟩

theorem ended_consLine (c : Char) {lines : List Line} (h : Ended lines) :
    Ended (consLine c lines) := by
  match lines, h with
  | [line], h => exact h
  | line :: next :: lines, h => exact h

theorem ended_lines (source : List Char) : Ended (lines source) := by
  induction source using lines.induct with
  | case1 => exact rfl
  | case2 text ih => exact ended_cons (by decide) ih
  | case3 text ih => exact ended_cons (by decide) ih
  | case4 text hn ih =>
    rw [lines]
    · exact ended_cons (by decide) ih
    · exact hn
  | case5 c text hn hr hcr ih =>
    rw [lines_other hn hcr]
    exact ended_consLine c ih

theorem Ended.tail {rest : List Line} (h : Ended (before ++ rest)) (hne : rest ≠ []) :
    Ended rest := by
  induction before with
  | nil => exact h
  | cons line before ih =>
    apply ih
    match hrest : before ++ rest, h with
    | [], _ => exact absurd (List.append_eq_nil_iff.mp hrest).2 hne
    | next :: lines, h =>
      rw [List.cons_append, hrest] at h
      exact h.2

theorem Ended.ending_nil (h : Ended (before ++ [line])) :
    line.ending = [] :=
  h.tail (List.cons_ne_nil _ _)

theorem Ended.ending_mem {after : List Line} (h : Ended (before ++ line :: after))
    (hne : after ≠ []) :
    line.ending ∈ [['\n'], ['\r', '\n'], ['\r']] := by
  match after, h.tail (List.cons_ne_nil _ _) with
  | [], _ => exact absurd rfl hne
  | next :: after, h => exact h.1

/-- Each line but the last takes at least a byte. -/
theorem Ended.length_le {rest : List Line} (h : Ended (before ++ rest)) (hne : rest ≠ []) :
    before.length ≤ size (before.flatMap Line.text) := by
  induction before with
  | nil => exact Nat.le_refl 0
  | cons line before ih =>
    have hrest : before ++ rest ≠ [] := fun hnil => hne (List.append_eq_nil_iff.mp hnil).2
    have hending := Ended.ending_mem (show Ended ([] ++ line :: (before ++ rest)) from h) hrest
    have hpos : size line.ending ≠ 0 := by
      rw [Ne, size_eq_zero]
      intro hnil
      rw [hnil] at hending
      exact absurd hending (by decide)
    have := ih (Ended.tail (show Ended ([line] ++ (before ++ rest)) from h) hrest)
    rw [List.length_cons, List.flatMap_cons, size_append, Line.text, size_append]
    omega

end ProvenGraphcal.TextPosition
