import Mathlib.Data.Char
import ProvenGraphcal.Library.Checked
import ProvenGraphcal.Library.SortedMap

/-!
# A fragment of TOML 1.0

Documents of lines: a bare key and a value, the header of an element of an array of tables, and
the header of a table inside the last element. Values are basic strings with all their escapes,
unsigned decimal integers and inline tables of strings. The reader takes a text apart as TOML 1.0
does, and refuses a text outside the fragment.
-/

namespace ProvenGraphcal.Toml

open Option (bind_eq_bind bind_some)

/-- Where the reader of a basic string stands: between characters, after a backslash, or before
some more digits of a scalar value. -/
inductive Mode
  | plain
  | escape
  | digits (missing value : ℕ)

/-- The characters that stand for themselves in a basic string. -/
def isUnescaped (c : Char) : Bool :=
  c == '\t' || (0x20 ≤ c.toNat && c.toNat ≠ 0x7f && c ≠ '"' && c ≠ '\\')

/-- The character of an escape sequence of one letter. -/
def escapedChar (c : Char) : Option Char :=
  match c with
  | 'b' => some (.ofNat 0x08)
  | 't' => some '\t'
  | 'n' => some '\n'
  | 'f' => some (.ofNat 0x0c)
  | 'r' => some '\r'
  | '"' => some '"'
  | '\\' => some '\\'
  | _ => none

def hexDigits : List Char := "0123456789ABCDEF".toList

def hexValue (c : Char) : Option ℕ :=
  if c.toUpper ∈ hexDigits then some (hexDigits.idxOf c.toUpper) else none

/-- The Unicode scalar value of a number. -/
def scalar (value : ℕ) : Option Char :=
  if value.isValidChar then some (.ofNat value) else none

def addChar (c : Char) : List Char × List Char → List Char × List Char
  | (value, rest) => (c :: value, rest)

/-- Read up to the closing quote; the text after it is left. -/
def readBasic : Mode → List Char → Option (List Char × List Char)
  | _, [] => none
  | .plain, c :: rest =>
    if c = '"' then some ([], rest)
    else if c = '\\' then readBasic .escape rest
    else if isUnescaped c then (readBasic .plain rest).map (addChar c)
    else none
  | .escape, c :: rest =>
    if c = 'u' then readBasic (.digits 4 0) rest
    else if c = 'U' then readBasic (.digits 8 0) rest
    else (escapedChar c).bind fun d => (readBasic .plain rest).map (addChar d)
  | .digits missing value, c :: rest =>
    (hexValue c).bind fun digit =>
      if missing ≤ 1 then
        (scalar (value * 16 + digit)).bind fun d => (readBasic .plain rest).map (addChar d)
      else readBasic (.digits (missing - 1) (value * 16 + digit)) rest

/-- A text spells a character inside a basic string. -/
def Spells (text : List Char) (c : Char) : Prop :=
  ∀ rest, readBasic .plain (text ++ rest) = (readBasic .plain rest).map (addChar c)

attribute [local simp] readBasic

variable {c : Char}

theorem spells_unescaped (h : isUnescaped c = true) : Spells [c] c := by
  have hquote : c ≠ '"' := by
    rintro rfl
    exact absurd h (by decide)
  have hbackslash : c ≠ '\\' := by
    rintro rfl
    exact absurd h (by decide)
  intro rest
  rw [List.singleton_append, readBasic, if_neg hquote, if_neg hbackslash, if_pos h]

theorem spells_escaped {d : Char} (h : escapedChar c = some d) : Spells ['\\', c] d := by
  have hlower : c ≠ 'u' := by
    rintro rfl
    cases h
  have hupper : c ≠ 'U' := by
    rintro rfl
    cases h
  intro rest
  rw [List.cons_append, List.singleton_append, readBasic, if_neg (by decide), if_pos rfl,
    readBasic, if_neg hlower, if_neg hupper, h, Option.bind_some]

/-- The digit of a number below sixteen. -/
def hexDigit (n : ℕ) : Char := hexDigits.getD n '0'

theorem hexValue_hexDigit : ∀ n < 16, hexValue (hexDigit n) = some n := by decide

/-- Four digits of a number below 65536. -/
def fourDigits (n : ℕ) : List Char :=
  [hexDigit (n / 4096), hexDigit (n / 256 % 16), hexDigit (n / 16 % 16), hexDigit (n % 16)]

theorem readBasic_digit {missing value n : ℕ} (hn : n < 16) (rest : List Char) :
    readBasic (.digits (missing + 2) value) (hexDigit n :: rest) =
      readBasic (.digits (missing + 1) (value * 16 + n)) rest := by
  rw [readBasic, hexValue_hexDigit n hn, Option.bind_some, if_neg (by omega)]
  rfl

theorem readBasic_last_digit {value n : ℕ} (hn : n < 16) (hvalue : value * 16 + n = c.toNat)
    (rest : List Char) :
    readBasic (.digits 1 value) (hexDigit n :: rest) = (readBasic .plain rest).map (addChar c) := by
  have hscalar : scalar (value * 16 + n) = some c := by
    rw [scalar, hvalue, if_pos (show c.toNat.isValidChar from c.valid), Char.ofNat_toNat]
  rw [readBasic, hexValue_hexDigit n hn, Option.bind_some, if_pos le_rfl, hscalar,
    Option.bind_some]

theorem spells_fourDigits (h : c.toNat < 65536) :
    Spells ('\\' :: 'u' :: fourDigits c.toNat) c := by
  intro rest
  rw [List.cons_append, List.cons_append, readBasic, if_neg (by decide), if_pos rfl, readBasic,
    if_pos rfl, fourDigits, List.cons_append, List.cons_append, List.cons_append,
    List.singleton_append, readBasic_digit (by omega), readBasic_digit (by omega),
    readBasic_digit (by omega), readBasic_last_digit (c := c) (by omega) (by omega)]

/-- A spelling without line breaks for every character. -/
structure Spelling where
  spell : Char → List Char
  spells : ∀ c, Spells (spell c) c
  no_newline : ∀ c, '\n' ∉ spell c

/-- A basic string is read back, whatever its characters. -/
theorem readBasic_spell (spelling : Spelling) (value rest : List Char) :
    readBasic .plain (value.flatMap spelling.spell ++ '"' :: rest) = some (value, rest) := by
  induction value with
  | nil => rw [List.flatMap_nil, List.nil_append, readBasic, if_pos rfl]
  | cons c value ih =>
    rw [List.flatMap_cons, List.append_assoc, spelling.spells, ih]
    rfl

/-- A value as a line writes it. -/
inductive Leaf
  | string (value : List Char)
  | integer (value : ℕ)
  | inline (pairs : List (List Char × List Char))

/-- A line: `element k` is `[[k]]`, and `member k m` is `[k.m]`. -/
inductive Line
  | blank
  | element (array : List Char)
  | member (array table : List Char)
  | entry (key : List Char) (leaf : Leaf)

def isBareKeyChar (c : Char) : Bool := c.isAlphanum || c == '-' || c == '_'

def isBareKey (key : List Char) : Bool := !key.isEmpty && key.all isBareKeyChar

/-- Read a bare key and the given text after it. -/
def readKey (after text : List Char) : Option (List Char × List Char) :=
  let key := text.takeWhile isBareKeyChar
  let rest := text.dropWhile isBareKeyChar
  if isBareKey key && after.isPrefixOf rest then some (key, rest.drop after.length) else none

/-- Read the pairs of an inline table up to its brace. -/
def readPairs : ℕ → List Char → Option (List (List Char × List Char))
  | 0, _ => none
  | fuel + 1, text => do
    let (key, rest) ← readKey " = \"".toList text
    let (value, rest) ← readBasic .plain rest
    if rest = " \x7d".toList then return [(key, value)]
    else if ", ".toList.isPrefixOf rest then do
      let pairs ← readPairs fuel (rest.drop 2)
      return (key, value) :: pairs
    else none

/-- Read an unsigned decimal integer without leading zeros. -/
def readInteger (text : List Char) : Option ℕ :=
  let value := Nat.ofDigitChars 10 text 0
  if Nat.toDigits 10 value = text then some value else none

def readLeaf (text : List Char) : Option Leaf :=
  match text with
  | '"' :: rest => do
    let (value, rest) ← readBasic .plain rest
    if rest.isEmpty then return .string value else none
  | '{' :: ' ' :: rest => do
    let pairs ← readPairs rest.length rest
    return .inline pairs
  | _ => (readInteger text).map .integer

def readLine (text : List Char) : Option Line :=
  match text with
  | [] => some .blank
  | '[' :: '[' :: rest => do
    let (key, rest) ← readKey "]]".toList rest
    if rest.isEmpty then return .element key else none
  | '[' :: rest => do
    let (array, rest) ← readKey ".".toList rest
    let (key, rest) ← readKey "]".toList rest
    if rest.isEmpty then return .member array key else none
  | _ => do
    let (key, rest) ← readKey " = ".toList text
    let leaf ← readLeaf rest
    return .entry key leaf

/-! ## Writing lines -/

section Render

variable (spelling : Spelling)

def renderString (value : List Char) : List Char :=
  '"' :: value.flatMap spelling.spell ++ ['"']

def renderPair (pair : List Char × List Char) : List Char :=
  pair.1 ++ " = ".toList ++ renderString spelling pair.2

def renderLeaf : Leaf → List Char
  | .string value => renderString spelling value
  | .integer value => Nat.toDigits 10 value
  | .inline pairs =>
    "\x7b ".toList ++ ", ".toList.intercalate (pairs.map (renderPair spelling)) ++ " \x7d".toList

def renderLine : Line → List Char
  | .blank => []
  | .element array => "[[".toList ++ array ++ "]]".toList
  | .member array table => '[' :: array ++ ".".toList ++ table ++ "]".toList
  | .entry key leaf => key ++ " = ".toList ++ renderLeaf spelling leaf

def renderLines (lines : List Line) : List Char :=
  lines.flatMap fun line => renderLine spelling line ++ ['\n']

end Render

def readLines (text : List Char) : Option (List Line) := (text.splitOn '\n').mapM readLine

/-- The keys are bare keys, and an inline table has a pair. -/
def Leaf.WellFormed : Leaf → Prop
  | string _ => True
  | integer _ => True
  | inline pairs => pairs ≠ [] ∧ ∀ pair ∈ pairs, isBareKey pair.1 = true

def Line.WellFormed : Line → Prop
  | blank => True
  | element array => isBareKey array = true
  | member array table => isBareKey array = true ∧ isBareKey table = true
  | entry key leaf => isBareKey key = true ∧ leaf.WellFormed

variable {key : List Char}

theorem isBareKeyChar_of_mem (h : isBareKey key = true) (hc : c ∈ key) :
    isBareKeyChar c = true := by
  rw [isBareKey, Bool.and_eq_true, List.all_eq_true] at h
  exact h.2 c hc

theorem isBareKey_ne_nil (h : isBareKey key = true) : key ≠ [] := by
  rintro rfl
  cases h

theorem readKey_append (after : List Char) (hkey : isBareKey key = true)
    (hafter : after.head? = some c) (hc : isBareKeyChar c = false) (rest : List Char) :
    readKey after (key ++ (after ++ rest)) = some (key, rest) := by
  obtain ⟨tail, rfl⟩ : ∃ tail, after = c :: tail := ⟨_, List.eq_cons_of_mem_head? hafter⟩
  have htake : (key ++ (c :: tail ++ rest)).takeWhile isBareKeyChar = key := by
    rw [List.takeWhile_append_of_pos fun d hd => isBareKeyChar_of_mem hkey hd, List.cons_append,
      List.takeWhile_cons_of_neg (by rw [hc]; exact Bool.false_ne_true), List.append_nil]
  have hdrop : (key ++ (c :: tail ++ rest)).dropWhile isBareKeyChar = c :: tail ++ rest := by
    rw [List.dropWhile_append_of_pos fun d hd => isBareKeyChar_of_mem hkey hd, List.cons_append,
      List.dropWhile_cons_of_neg (by rw [hc]; exact Bool.false_ne_true)]
  have hprefix : (c :: tail).isPrefixOf (c :: tail ++ rest) = true :=
    List.isPrefixOf_iff_prefix.mpr (List.prefix_append _ _)
  rw [readKey]
  simp only [htake, hdrop, hkey, hprefix, Bool.and_self, if_true, List.drop_left]

variable {l : List (List Char)}

theorem length_le_length_intercalate (separator : List Char) (h : ∀ text ∈ l, text ≠ []) :
    l.length ≤ (separator.intercalate l).length := by
  induction l with
  | nil => exact Nat.zero_le _
  | cons text l ih =>
    have hpos : 0 < text.length := List.length_pos_of_ne_nil (h text List.mem_cons_self)
    have hrest := ih fun t ht => h t (List.mem_cons_of_mem _ ht)
    cases l with
    | nil =>
      rw [List.intercalate_singleton]
      exact hpos
    | cons next l =>
      rw [List.intercalate_cons_cons, List.length_append, List.length_append, List.length_cons]
      omega

theorem readPairs_render (spelling : Spelling) {pairs : List (List Char × List Char)}
    (hne : pairs ≠ []) (hkeys : ∀ pair ∈ pairs, isBareKey pair.1 = true) {fuel : ℕ}
    (hfuel : pairs.length ≤ fuel) :
    readPairs fuel (", ".toList.intercalate (pairs.map (renderPair spelling)) ++ " \x7d".toList) =
      some pairs := by
  induction pairs generalizing fuel with
  | nil => exact absurd rfl hne
  | cons pair pairs ih =>
    obtain ⟨key, value⟩ := pair
    obtain ⟨fuel, rfl⟩ : ∃ n, fuel = n + 1 := ⟨fuel - 1, by simp at hfuel; omega⟩
    have hkey : isBareKey key = true := hkeys (key, value) List.mem_cons_self
    have hread : ∀ rest, readKey " = \"".toList (renderPair spelling (key, value) ++ rest) =
        some (key, value.flatMap spelling.spell ++ '"' :: rest) := by
      intro rest
      have h := readKey_append " = \"".toList hkey (c := ' ') rfl (by decide)
        (value.flatMap spelling.spell ++ '"' :: rest)
      simpa [renderPair, renderString] using h
    cases pairs with
    | nil =>
      rw [List.map_singleton, List.intercalate_singleton, readPairs, hread]
      simp [readBasic_spell]
    | cons next pairs =>
      have hrest := ih (List.cons_ne_nil next pairs)
        (fun p hp => hkeys p (List.mem_cons_of_mem _ hp))
        (by simpa using hfuel : (next :: pairs).length ≤ fuel)
      rw [List.map_cons, List.map_cons, List.intercalate_cons_cons, List.append_assoc,
        List.append_assoc, readPairs, hread]
      simp at hrest
      simp [readBasic_spell, hrest]

theorem readInteger_toDigits (n : ℕ) : readInteger (Nat.toDigits 10 n) = some n := by
  rw [readInteger]
  simp [Nat.ofDigitChars_ten_toDigits]

variable {leaf : Leaf}

theorem readLeaf_render (spelling : Spelling) (h : leaf.WellFormed) :
    readLeaf (renderLeaf spelling leaf) = some leaf := by
  cases leaf with
  | string value =>
    rw [renderLeaf, renderString, List.cons_append, readLeaf]
    simp [readBasic_spell]
  | integer n =>
    obtain ⟨c, digits, hdigits⟩ := List.exists_cons_of_ne_nil (Nat.toDigits_ne_nil (n := n) (b := 10))
    have hdigit : c.isDigit = true := by
      refine Nat.isDigit_of_mem_toDigits (b := 10) (n := n) (by decide) le_rfl ?_
      rw [hdigits]
      exact List.mem_cons_self
    have hread := readInteger_toDigits n
    rw [renderLeaf]
    rw [hdigits] at hread ⊢
    rw [readLeaf]
    · rw [hread]
      rfl
    · rintro rest ⟨⟩
      exact absurd hdigit (by decide)
    · rintro rest ⟨⟩
      exact absurd hdigit (by decide)
  | inline pairs =>
    obtain ⟨hne, hkeys⟩ := h
    have hlength : pairs.length ≤
        (", ".toList.intercalate (pairs.map (renderPair spelling)) ++ " \x7d".toList).length := by
      have h := length_le_length_intercalate ", ".toList (l := pairs.map (renderPair spelling))
        fun text htext => ?_
      · rw [List.length_map] at h
        rw [List.length_append]
        omega
      · obtain ⟨pair, -, rfl⟩ := List.mem_map.mp htext
        simp [renderPair]
    have hread := readPairs_render spelling hne hkeys hlength
    change readLeaf ('{' :: ' ' :: (", ".toList.intercalate
      (pairs.map (renderPair spelling)) ++ " \x7d".toList)) = _
    rw [readLeaf, hread]
    rfl

variable {line : Line}

theorem readLine_render (spelling : Spelling) (h : line.WellFormed) :
    readLine (renderLine spelling line) = some line := by
  cases line with
  | blank => rfl
  | element array =>
    have hread := readKey_append "]]".toList h (c := ']') rfl (by decide) []
    rw [List.append_nil] at hread
    change readLine ('[' :: '[' :: (array ++ "]]".toList)) = _
    rw [readLine, hread]
    rfl
  | member array table =>
    have hread := readKey_append ".".toList h.1 (c := '.') rfl (by decide)
      (table ++ "]".toList)
    have hread' := readKey_append "]".toList h.2 (c := ']') rfl (by decide) []
    rw [List.append_nil] at hread'
    have htext : renderLine spelling (.member array table) =
        '[' :: (array ++ (".".toList ++ (table ++ "]".toList))) := by
      simp [renderLine]
    rw [htext, readLine, hread]
    · simp only [Option.bind_eq_bind, Option.bind_some, hread']
      rfl
    · rintro rest hrest
      obtain ⟨c, tail, htail⟩ := List.exists_cons_of_ne_nil (isBareKey_ne_nil h.1)
      have hc : isBareKeyChar c = true :=
        isBareKeyChar_of_mem h.1 (htail ▸ List.mem_cons_self)
      rw [htail] at hrest
      cases hrest
      exact absurd hc (by decide)
  | entry key leaf =>
    have hbracket : (key ++ (" = ".toList ++ renderLeaf spelling leaf)).head? ≠ some '[' := by
      obtain ⟨c, tail, htail⟩ := List.exists_cons_of_ne_nil (isBareKey_ne_nil h.1)
      have hc : isBareKeyChar c = true := isBareKeyChar_of_mem h.1 (htail ▸ List.mem_cons_self)
      rintro hhead
      rw [htail, List.cons_append, List.head?_cons, Option.some.injEq] at hhead
      rw [hhead] at hc
      exact absurd hc (by decide)
    have hread := readKey_append " = ".toList h.1 (c := ' ') rfl (by decide)
      (renderLeaf spelling leaf)
    rw [renderLine, List.append_assoc, readLine, hread]
    · simp only [Option.bind_eq_bind, Option.bind_some, readLeaf_render spelling h.2]
      rfl
    · intro htext
      exact isBareKey_ne_nil h.1 (List.append_eq_nil_iff.mp htext).1
    · exact fun rest htext => hbracket (congrArg List.head? htext)
    · exact fun rest htext => hbracket (congrArg List.head? htext)

theorem newline_not_mem_key (h : isBareKey key = true) : '\n' ∉ key :=
  fun hmem => absurd (isBareKeyChar_of_mem h hmem) (by decide)

theorem newline_not_mem_renderString (spelling : Spelling) (value : List Char) :
    '\n' ∉ renderString spelling value := by
  rw [renderString, List.cons_append, List.mem_cons, List.mem_append, List.mem_singleton,
    List.mem_flatMap]
  rintro (h | ⟨c, -, hc⟩ | h)
  · exact absurd h (by decide)
  · exact spelling.no_newline c hc
  · exact absurd h (by decide)

theorem not_mem_intercalate {separator : List Char} (hseparator : c ∉ separator)
    (h : ∀ text ∈ l, c ∉ text) : c ∉ separator.intercalate l := by
  induction l with
  | nil => exact List.not_mem_nil
  | cons text l ih =>
    have htext := h text List.mem_cons_self
    have hrest := ih fun t ht => h t (List.mem_cons_of_mem _ ht)
    cases l with
    | nil => rwa [List.intercalate_singleton]
    | cons next l =>
      rw [List.intercalate_cons_cons, List.mem_append, List.mem_append]
      exact not_or.mpr ⟨not_or.mpr ⟨htext, hseparator⟩, hrest⟩

theorem newline_not_mem_renderLeaf (spelling : Spelling) (h : leaf.WellFormed) :
    '\n' ∉ renderLeaf spelling leaf := by
  cases leaf with
  | string value => exact newline_not_mem_renderString spelling value
  | integer n =>
    intro hmem
    exact absurd (Nat.isDigit_of_mem_toDigits (by decide) le_rfl hmem) (by decide)
  | inline pairs =>
    have hpairs : '\n' ∉ ", ".toList.intercalate (pairs.map (renderPair spelling)) := by
      refine not_mem_intercalate (by decide) fun text htext => ?_
      obtain ⟨pair, hpair, rfl⟩ := List.mem_map.mp htext
      rw [renderPair, List.mem_append, List.mem_append]
      exact not_or.mpr ⟨not_or.mpr ⟨newline_not_mem_key (h.2 pair hpair), by decide⟩,
        newline_not_mem_renderString spelling pair.2⟩
    rw [renderLeaf, List.mem_append, List.mem_append]
    exact not_or.mpr ⟨not_or.mpr ⟨by decide, hpairs⟩, by decide⟩

theorem newline_not_mem_renderLine (spelling : Spelling) (h : line.WellFormed) :
    '\n' ∉ renderLine spelling line := by
  cases line with
  | blank => exact List.not_mem_nil
  | element array => simp [renderLine, newline_not_mem_key h]
  | member array table =>
    simp [renderLine, newline_not_mem_key h.1, newline_not_mem_key h.2]
  | entry key leaf =>
    simp [renderLine, newline_not_mem_key h.1, newline_not_mem_renderLeaf spelling h.2]

/-- The lines of a text are read back, with a blank one after the last line break. -/
theorem readLines_render (spelling : Spelling) {lines : List Line}
    (h : ∀ line ∈ lines, line.WellFormed) :
    readLines (renderLines spelling lines) = some (lines ++ [.blank]) := by
  induction lines with
  | nil => rfl
  | cons line lines ih =>
    have hline := h line List.mem_cons_self
    have hrest := ih fun l hl => h l (List.mem_cons_of_mem _ hl)
    rw [readLines] at hrest ⊢
    rw [renderLines, List.flatMap_cons, List.append_assoc, List.singleton_append,
      List.splitOn_append_cons_self_of_not_mem (newline_not_mem_renderLine spelling hline),
      List.mapM_cons, readLine_render spelling hline]
    rw [renderLines] at hrest
    rw [hrest]
    rfl

/-! ## Documents -/

/-- An element of an array of tables: its own entries, and the tables inside it. -/
structure Element where
  array : List Char
  entries : List (List Char × Leaf)
  members : List (List Char × List (List Char × Leaf))

structure Document where
  entries : List (List Char × Leaf)
  elements : List Element

def entryLines (entries : List (List Char × Leaf)) : List Line :=
  entries.map fun entry => .entry entry.1 entry.2

def Element.lines (element : Element) : List Line :=
  [.blank, .element element.array] ++ entryLines element.entries ++
    element.members.flatMap fun member =>
      [.blank, .member element.array member.1] ++ entryLines member.2

def Document.lines (document : Document) : List Line :=
  entryLines document.entries ++ document.elements.flatMap Element.lines

/-- The lines grouped so far, from the last one on: entries and tables whose header is missing. -/
structure Grouping where
  entries : List (List Char × Leaf)
  members : List (List Char × List Char × List (List Char × Leaf))
  elements : List Element

/-- Put a line before those grouped; a table inside another array than its element's is refused. -/
def Grouping.add (line : Line) (s : Grouping) : Option Grouping :=
  match line with
  | .blank => some s
  | .entry key leaf => some { s with entries := (key, leaf) :: s.entries }
  | .member array table =>
    some { s with entries := [], members := (array, table, s.entries) :: s.members }
  | .element array =>
    if s.members.all fun member => member.1 == array then
      some ⟨[], [], ⟨array, s.entries, s.members.map Prod.snd⟩ :: s.elements⟩
    else none

/-- The document of the lines, where no table stands before the first element. -/
def Document.ofLines (lines : List Line) : Option Document := do
  let s ← lines.foldrM Grouping.add ⟨[], [], []⟩
  if s.members.isEmpty then return ⟨s.entries, s.elements⟩ else none

def Document.parse (text : List Char) : Option Document := (readLines text).bind ofLines

def Document.render (spelling : Spelling) (document : Document) : List Char :=
  renderLines spelling document.lines

theorem foldrM_entryLines (entries : List (List Char × Leaf)) (s : Grouping) :
    (entryLines entries).foldrM Grouping.add s =
      some { s with entries := entries ++ s.entries } := by
  induction entries with
  | nil => rfl
  | cons entry entries ih =>
    rw [entryLines] at ih ⊢
    rw [List.map_cons, List.foldrM_cons, ih]
    rfl

theorem foldrM_members (array : List Char)
    (members : List (List Char × List (List Char × Leaf))) (s : Grouping)
    (hs : s.entries = []) :
    (members.flatMap fun member => [Line.blank, .member array member.1] ++
      entryLines member.2).foldrM Grouping.add s =
      some { s with members := members.map (array, ·) ++ s.members } := by
  induction members with
  | nil => rfl
  | cons member members ih =>
    rw [List.flatMap_cons, List.foldrM_append, ih]
    simp only [bind_eq_bind, bind_some]
    rw [List.foldrM_append, foldrM_entryLines]
    simp [Grouping.add, hs]

theorem foldrM_element (element : Element) (elements : List Element) :
    element.lines.foldrM Grouping.add ⟨[], [], elements⟩ = some ⟨[], [], element :: elements⟩ := by
  rw [Element.lines, List.foldrM_append, foldrM_members _ _ _ rfl]
  simp only [bind_eq_bind, bind_some]
  rw [List.foldrM_append, foldrM_entryLines]
  simp [Grouping.add, Function.comp_def]

theorem foldrM_elements (elements : List Element) :
    (elements.flatMap Element.lines).foldrM Grouping.add ⟨[], [], []⟩ = some ⟨[], [], elements⟩ := by
  induction elements with
  | nil => rfl
  | cons element elements ih =>
    rw [List.flatMap_cons, List.foldrM_append, ih]
    exact foldrM_element element elements

theorem Document.ofLines_lines (document : Document) :
    ofLines (document.lines ++ [.blank]) = some document := by
  have hlast : [Line.blank].foldrM Grouping.add ⟨[], [], []⟩ = some ⟨[], [], []⟩ := rfl
  rw [ofLines, List.foldrM_append, hlast]
  simp only [bind_eq_bind, bind_some]
  rw [Document.lines, List.foldrM_append, foldrM_elements]
  simp only [bind_eq_bind, bind_some]
  rw [foldrM_entryLines]
  simp

/-- A document is read back from its text. -/
theorem Document.parse_render (spelling : Spelling) {document : Document}
    (h : ∀ line ∈ document.lines, line.WellFormed) :
    parse (document.render spelling) = some document := by
  rw [parse, render, readLines_render spelling h, bind_some, ofLines_lines]

/-!
# The table of a TOML document

A table lists its entries by ascending key. A key is defined once; a header of an array appends an
element, and a header of a table inside it defines a key of the last element.
-/

open Checked

/-- A value; `other` stands for floats, booleans, dates and times. -/
inductive Value
  | string (value : List Char)
  | integer (value : ℤ)
  | array (items : List Value)
  | table (entries : List (List Char × Value))
  | other

abbrev Table := SortedMap (List Char) Value

namespace Value

def asString : Value → Option (List Char)
  | string value => some value
  | _ => none

def asInteger : Value → Option ℤ
  | integer value => some value
  | _ => none

def asArray : Value → Option (List Value)
  | array items => some items
  | _ => none

def asTable : Value → Option (List (List Char × Value))
  | table entries => some entries
  | _ => none

end Value

/-- Define a key of a table, unless the table has it. -/
def define (table : Table) (entry : List Char × Value) : Option Table :=
  if (table.get? entry.1).isSome then none else some (table.insert entry.1 entry.2)

def tableOf (entries : List (List Char × Value)) : Option Table := entries.foldlM define .empty

/-- Integers have 64 bits. -/
def Leaf.value : Leaf → Option Value
  | string value => some (.string value)
  | integer value => if value < 2 ^ 63 then some (.integer value) else none
  | inline pairs =>
    (tableOf (pairs.map fun pair => (pair.1, .string pair.2))).map fun table =>
      .table table.entries

def entryValues (entries : List (List Char × Leaf)) : Option (List (List Char × Value)) :=
  entries.mapM fun entry => entry.2.value.map (entry.1, ·)

def entryTable (entries : List (List Char × Leaf)) : Option Table :=
  (entryValues entries).bind tableOf

/-- The key and the value of a table inside an element. -/
def memberValue (member : List Char × List (List Char × Leaf)) : Option (List Char × Value) :=
  (entryTable member.2).map fun table => (member.1, .table table.entries)

def Element.table (element : Element) : Option Table := do
  let own ← entryValues element.entries
  let members ← element.members.mapM memberValue
  tableOf (own ++ members)

/-- The elements of an array of tables, where the key is free or has one. -/
def arrayItems (table : Table) (array : List Char) : Option (List Value) :=
  match table.get? array with
  | none => some []
  | some value => value.asArray

def addElement (table : Table) (element : Element) : Option Table := do
  let item ← element.table
  let items ← arrayItems table element.array
  return table.insert element.array (.array (items ++ [.table item.entries]))

def Document.table (document : Document) : Option Table :=
  (entryTable document.entries).bind (document.elements.foldlM addElement)

/-- The table that a text of the fragment denotes. -/
def read (text : List Char) : Option Table := (Document.parse text).bind Document.table

variable {entries : List (List Char × Value)} {table : Table}

theorem foldlM_define (h : (entries.map Prod.fst ++ table.keys).Nodup) :
    entries.foldlM define table = some (entries.foldl (fun m e => m.insert e.1 e.2) table) := by
  induction entries generalizing table with
  | nil => rfl
  | cons entry entries ih =>
    rw [List.map_cons, List.cons_append, List.nodup_cons] at h
    obtain ⟨hfresh, hrest⟩ := h
    have hnone : table.get? entry.1 = none :=
      SortedMap.get?_eq_none.mpr fun hmem => hfresh (List.mem_append_right _ hmem)
    have hkeys : (table.insert entry.1 entry.2).keys.Perm (entry.1 :: table.keys) :=
      (SortedMap.insert_entries_perm hnone).map Prod.fst
    have hdefine : define table entry = some (table.insert entry.1 entry.2) := by
      rw [define, hnone]
      rfl
    rw [List.foldlM_cons, hdefine, List.foldl_cons]
    refine ih (((hkeys.append_left _).trans List.perm_middle).nodup_iff.mpr ?_)
    exact List.nodup_cons.mpr ⟨hfresh, hrest⟩

/-- Entries with distinct keys define the table of them. -/
theorem tableOf_eq (h : (entries.map Prod.fst).Nodup) :
    tableOf entries = some (.ofList entries) := by
  have hnil : (entries.map Prod.fst ++ (SortedMap.empty : Table).keys).Nodup := by
    simpa [SortedMap.keys] using h
  exact foldlM_define hnil

/-- The table of some entries with distinct keys, as a value. -/
def tableValue (entries : List (List Char × Value)) : Value :=
  .table (SortedMap.ofList entries).entries

theorem memberValue_eq {key : List Char} {entries : List (List Char × Leaf)}
    {values : List (List Char × Value)} (h : entryValues entries = some values)
    (hnodup : (values.map Prod.fst).Nodup) :
    memberValue (key, entries) = some (key, tableValue values) := by
  rw [memberValue, entryTable, h, bind_some, tableOf_eq hnodup]
  rfl

/-- Two inserts of a key leave the second. -/
theorem insert_insert (table : Table) (key : List Char) (v w : Value) :
    (table.insert key v).insert key w = table.insert key w := by
  refine SortedMap.ext_get? fun k => ?_
  rw [SortedMap.get?_insert, SortedMap.get?_insert, SortedMap.get?_insert]
  split_ifs <;> rfl

/-- Elements of one array, with their tables, make the array of the tables. -/
theorem foldlM_addElement {array : List Char} {elements : List Element} {tables : List Table}
    (htables : List.Forall₂ (fun element table => element.array = array ∧
      element.table = some table) elements tables) (hne : elements ≠ []) {items : List Value}
    (hitems : arrayItems table array = some items) :
    elements.foldlM addElement table =
      some (table.insert array (.array (items ++ tables.map fun t => .table t.entries))) := by
  induction htables generalizing table items with
  | nil => exact absurd rfl hne
  | @cons element item elements tables h hrest ih =>
    obtain ⟨rfl, hitem⟩ := h
    have hstep : addElement table element =
        some (table.insert element.array (.array (items ++ [.table item.entries]))) := by
      rw [addElement, hitem, bind_eq_bind, bind_some, hitems]
      rfl
    rw [List.foldlM_cons, hstep, bind_eq_bind, bind_some]
    cases hrest with
    | nil => rfl
    | cons hhead htail =>
      have hnext : arrayItems (table.insert element.array
          (.array (items ++ [.table item.entries]))) element.array =
          some (items ++ [.table item.entries]) := by
        simp [arrayItems, Value.asArray]
      rw [ih (List.cons_ne_nil _ _) hnext, insert_insert, List.append_assoc]
      rfl

end ProvenGraphcal.Toml
