import Mathlib.Data.List.TakeWhile
import ProvenGraphcal.Algebra.NatPolyDenotation
import ProvenGraphcal.Include.ModuleResolver
import ProvenGraphcal.Library.Joined

/-!
# Wire keys of the view model

A key is a join of tagged parts, in which every byte of a part's text outside `[A-Za-z0-9_.-]` is
percent-encoded. Text is a list of characters and is escaped by its UTF-8 bytes.
-/

namespace ProvenGraphcal.ViewModel

open Utf8Text (bytes)

abbrev Text := List Char

/-- An ASCII letter or digit, `_`, `.` or `-`. -/
def isPlain (byte : UInt8) : Bool :=
  let c := Char.ofNat byte.toNat
  c.isAlphanum || c == '_' || c == '.' || c == '-'

def hexDigit (n : ℕ) : Char := "0123456789ABCDEF".toList.getD n '0'

def escape (byte : UInt8) : Text :=
  if isPlain byte then [Char.ofNat byte.toNat]
  else ['%', hexDigit (byte.toNat / 16), hexDigit (byte.toNat % 16)]

structure KeyWriter where
  text : Text

namespace KeyWriter

def default : KeyWriter := ⟨[]⟩

def part (key : KeyWriter) (tag : Char) (text : Text) : KeyWriter :=
  let separated := if key.text.isEmpty then [] else key.text ++ ['/']
  ⟨separated ++ tag :: ':' :: (bytes text).flatMap escape⟩

/-- The decimal spelling of a number. -/
def decimal (n : ℕ) : Text := Nat.toDigits 10 n

def segmentPart : DagSegment Text (ScopeSegment Text) → Char × Text
  | .file name => ('f', name)
  | .inlineDag name => ('d', name)
  | .instance (.named scope) => ('s', scope)
  | .instance (.includeInstance offset) => ('i', "<include@".toList ++ decimal offset ++ ['>'])

/-- The package, then every segment tagged with its kind. -/
def dag (key : KeyWriter) (dag : SourceDagId Text) : KeyWriter :=
  dag.segments.items.foldl (fun key segment =>
    key.part (segmentPart segment).1 (segmentPart segment).2) (key.part 'p' dag.package)

end KeyWriter

/-- The spelling of a generic parameter: the lexer admits `[a-zA-Z][a-zA-Z0-9_]*`. -/
structure Identifier where
  text : Text
  lexed : ∃ first rest, text = first :: rest ∧ first.isAlpha ∧ ∀ c ∈ rest, c.isAlphanum ∨ c = '_'

variable {P : Type} [LinearOrder P] (name : P → Identifier)

def formatFactor (factor : P × U64) : Text :=
  if factor.2.val = 1 then (name factor.1).text
  else (name factor.1).text ++ '^' :: KeyWriter.decimal factor.2.val

def formatMonomial (monomial : Monomial P) : Text :=
  " * ".toList.intercalate (monomial.factors.entries.map (formatFactor name))

def formatTerm (term : Monomial P × U64) : Text :=
  if term.2.val = 1 then formatMonomial name term.1
  else KeyWriter.decimal term.2.val ++ " * ".toList ++ formatMonomial name term.1

/-- Non-constant terms first, then the constant. -/
def format (form : NatPolyForm P) : Text :=
  let nonConstant := (form.terms.entries.filter fun term => !term.1.isEmpty).map (formatTerm name)
  let parts := match form.terms.get? .one with
    | some c => if 0 < c.val ∨ nonConstant = [] then nonConstant ++ [KeyWriter.decimal c.val]
      else nonConstant
    | none => nonConstant
  if parts = [] then ['0'] else " + ".toList.intercalate parts

abbrev ResolvedDeclName := ResolvedName Text (ScopeSegment Text)

structure ViewNodeId where
  text : Text

/-- The key of a declaration. -/
def ViewNodeId.of (declaration : ResolvedDeclName) : ViewNodeId :=
  ⟨((KeyWriter.default.dag declaration.owner).part 'n' declaration.leaf).text⟩

/-- The key of an output as the `ordinal`-th inline DAG call of `caller` computes it. -/
def ViewNodeId.ofCallOutput (caller : ResolvedDeclName) (ordinal : ℕ) (output : ResolvedDeclName) :
    ViewNodeId :=
  let key := (KeyWriter.default.dag caller.owner).part 'n' caller.leaf
  let key := key.part 'c' (KeyWriter.decimal ordinal)
  ⟨((key.dag output.owner).part 'n' output.leaf).text⟩

structure ViewInstanceId where
  text : Text

def ViewInstanceId.of (instance_ : SourceDagId Text) : ViewInstanceId :=
  ⟨(KeyWriter.default.dag instance_).text⟩

inductive ResolvedIndex (P : Type) [LinearOrder P]
  | concrete (name : ResolvedDeclName)
  | finite (form : NatPolyForm P)
  | genericParam (param : P)

structure ViewIndexId where
  text : Text

def ViewIndexId.of : ResolvedIndex P → ViewIndexId
  | .concrete name => ⟨((KeyWriter.default.dag name.owner).part 'n' name.leaf).text⟩
  | .finite form => ⟨(KeyWriter.default.part 'F' (format name form)).text⟩
  | .genericParam param => ⟨(KeyWriter.default.part 'G' (name param).text).text⟩

/-- What an axis is: a declaration, a cardinality in parameter names, or a parameter name. -/
inductive AxisIdentity
  | declared (index : ResolvedDeclName)
  | cardinality (size : MvPolynomial Text ℕ)
  | parameter (name : Text)

noncomputable def ResolvedIndex.identity : ResolvedIndex P → AxisIdentity
  | .concrete index => .declared index
  | .finite form =>
    .cardinality (MvPolynomial.rename (fun param => (name param).text) form.toMvPoly)
  | .genericParam param => .parameter (name param).text

def partText (part : Char × Text) : Text := part.1 :: ':' :: (bytes part.2).flatMap escape

namespace KeyWriter

def written (parts : List (Char × Text)) : KeyWriter :=
  parts.foldl (fun key part => key.part part.1 part.2) default

def dagParts (dag : SourceDagId Text) : List (Char × Text) :=
  ('p', dag.package) :: dag.segments.items.map segmentPart

theorem intercalate_cons (first : Text) (rest : List Text) :
    ['/'].intercalate (first :: rest) = first ++ rest.flatMap ('/' :: ·) := by
  induction rest generalizing first with
  | nil => simp
  | cons next rest ih => rw [List.intercalate_cons_cons, ih, List.flatMap_cons]; simp

theorem text_foldl_part {key : KeyWriter} (hkey : key.text ≠ []) (parts : List (Char × Text)) :
    (parts.foldl (fun key part => key.part part.1 part.2) key).text =
      key.text ++ (parts.map partText).flatMap ('/' :: ·) := by
  induction parts generalizing key with
  | nil => simp
  | cons part rest ih =>
    have hpart : (key.part part.1 part.2).text = key.text ++ '/' :: partText part := by
      simp [KeyWriter.part, partText, hkey]
    rw [List.foldl_cons, ih (by simp [hpart]), hpart]
    simp

theorem text_written (parts : List (Char × Text)) :
    (written parts).text = ['/'].intercalate (parts.map partText) := by
  cases parts with
  | nil => rfl
  | cons part rest =>
    rw [List.map_cons, intercalate_cons, written, List.foldl_cons]
    exact text_foldl_part (List.cons_ne_nil _ _) rest

theorem dag_written (parts : List (Char × Text)) (dag : SourceDagId Text) :
    (written parts).dag dag = written (parts ++ dagParts dag) := by
  rw [KeyWriter.dag, written, written, List.foldl_append, dagParts, List.foldl_cons, List.foldl_map]

theorem part_written (parts : List (Char × Text)) (tag : Char) (text : Text) :
    (written parts).part tag text = written (parts ++ [(tag, text)]) := by
  rw [written, written, List.foldl_append]
  rfl

end KeyWriter

/-!
# Keys are injective

A key is taken apart again: into its parts, a part into tag and text, and a cardinality's spelling
into the factors of its terms.
-/

open KeyWriter (dagParts dag_written decimal intercalate_cons part_written segmentPart text_written
  written)
open List (cons_eq_cons map_cons map_map mem_append mem_cons mem_cons_self mem_map mem_singleton
  sum_cons)

theorem bytes_injective : Function.Injective bytes := by
  intro text text' h
  apply String.ofList_injective
  rw [← String.toByteArray_inj]
  exact congrArg List.toByteArray h

theorem hexDigit_injective : ∀ m < 16, ∀ n < 16, hexDigit m = hexDigit n → m = n := by decide

theorem toNat_ofNat_byte : ∀ n < 256, (Char.ofNat n).toNat = n := by decide +kernel

theorem isPlain_percent {byte : UInt8} (h : Char.ofNat byte.toNat = '%') :
    isPlain byte = false := by
  rw [isPlain, h]
  decide

theorem prefixFree_escape : Joined.PrefixFree escape := by
  intro byte byte' rest rest' h
  have hlt := byte.toNat_lt
  have hlt' := byte'.toNat_lt
  unfold escape at h
  split_ifs at h with hplain hplain' hplain'
  · have hchar := congrArg Char.toNat (cons_eq_cons.mp h).1
    rw [toNat_ofNat_byte _ hlt, toNat_ofNat_byte _ hlt'] at hchar
    exact UInt8.toNat_inj.mp hchar
  · rw [isPlain_percent (cons_eq_cons.mp h).1] at hplain
    cases hplain
  · rw [isPlain_percent (cons_eq_cons.mp h).1.symm] at hplain'
    cases hplain'
  · obtain ⟨-, h⟩ := cons_eq_cons.mp h
    obtain ⟨hhigh, h⟩ := cons_eq_cons.mp h
    obtain ⟨hlow, -⟩ := cons_eq_cons.mp h
    have hhigh := hexDigit_injective _ (by omega) _ (by omega) hhigh
    have hlow := hexDigit_injective _ (by omega) _ (by omega) hlow
    exact UInt8.toNat_inj.mp (by omega)

theorem slash_notMem_escape (byte : UInt8) : '/' ∉ escape byte := by
  have hdigit : ∀ n < 16, '/' ≠ hexDigit n := by decide
  have hlt := byte.toNat_lt
  unfold escape
  split_ifs with hplain
  · intro hmem
    rw [isPlain, ← mem_singleton.mp hmem] at hplain
    exact absurd hplain (by decide)
  · simp [hdigit (byte.toNat / 16) (by omega), hdigit (byte.toNat % 16) (by omega)]

theorem partText_injective : Function.Injective partText := by
  intro ⟨tag, text⟩ ⟨tag', text'⟩ h
  obtain ⟨rfl, h⟩ := cons_eq_cons.mp h
  have hbytes := prefixFree_escape.flatMap_injective
    (fun byte => by unfold escape; split_ifs <;> simp) (cons_eq_cons.mp h).2
  exact congrArg (Prod.mk tag) (bytes_injective hbytes)

theorem slash_notMem_partText {part : Char × Text} (htag : part.1 ≠ '/') : '/' ∉ partText part := by
  intro hmem
  rcases mem_cons.mp hmem with heq | hmem
  · exact htag heq.symm
  · rcases mem_cons.mp hmem with heq | hmem
    · cases heq
    · obtain ⟨byte, -, hbyte⟩ := List.mem_flatMap.mp hmem
      exact slash_notMem_escape byte hbyte

/-- A written key is the key of no other list of parts. -/
theorem written_injective {parts parts' : List (Char × Text)}
    (htags : ∀ part ∈ parts ++ parts', part.1 ≠ '/')
    (h : (written parts).text = (written parts').text) : parts = parts' := by
  have hslash : ∀ {list : List (Char × Text)}, (∀ part ∈ list, part.1 ≠ '/') →
      ∀ text ∈ list.map partText, '/' ∉ text := by
    intro list hlist text hmem
    obtain ⟨part, hpart, rfl⟩ := mem_map.mp hmem
    exact slash_notMem_partText (hlist part hpart)
  rw [text_written, text_written] at h
  cases parts with
  | nil =>
    cases parts' with
    | nil => rfl
    | cons part' rest' =>
      rw [map_cons, intercalate_cons] at h
      cases h
  | cons part rest =>
    cases parts' with
    | nil =>
      rw [map_cons, intercalate_cons] at h
      cases h
    | cons part' rest' =>
      refine List.map_injective_iff.mpr partText_injective (Joined.intercalate_injective
        [] [] List.not_mem_nil (hslash ?_) (hslash ?_) (by simp) (by simp) h)
      · exact fun part hpart => htags part (List.mem_append_left _ hpart)
      · exact fun part hpart => htags part (List.mem_append_right _ hpart)

theorem decimal_injective : Function.Injective decimal := by
  intro n n' h
  rw [← Nat.ofDigitChars_ten_toDigits (n := n), ← Nat.ofDigitChars_ten_toDigits (n := n')]
  exact congrArg (Nat.ofDigitChars 10 · 0) h

theorem segmentPart_injective : Function.Injective segmentPart := by
  intro segment segment' h
  cases segment with
  | file name | inlineDag name =>
    cases segment' with
    | file name' | inlineDag name' => cases h <;> rfl
    | «instance» scope' => cases scope' <;> cases h
  | «instance» scope =>
    cases segment' with
    | file name' | inlineDag name' => cases scope <;> cases h
    | «instance» scope' =>
      cases scope with
      | named name =>
        cases scope' with
        | named name' => cases h; rfl
        | includeInstance offset' => cases h
      | includeInstance offset =>
        cases scope' with
        | named name' => cases h
        | includeInstance offset' =>
          have htext := List.append_cancel_left (List.append_cancel_right (Prod.mk.inj h).2)
          rw [decimal_injective htext]

theorem segmentPart_tag (segment : DagSegment Text (ScopeSegment Text)) :
    (segmentPart segment).1 ∈ ['f', 'd', 's', 'i'] := by
  cases segment with
  | file name | inlineDag name => simp [segmentPart]
  | «instance» scope => cases scope <;> simp [segmentPart]

/-- A DAG's parts end where the parts of a name, or nothing, follow. -/
def Follows (rest : List (Char × Text)) : Prop := ∀ part ∈ rest.head?, part.1 = 'n'

theorem segments_followed {segments segments' : List (DagSegment Text (ScopeSegment Text))}
    {rest rest' : List (Char × Text)} (hrest : Follows rest) (hrest' : Follows rest')
    (h : segments.map segmentPart ++ rest = segments'.map segmentPart ++ rest') :
    segments = segments' ∧ rest = rest' := by
  have hstop : ∀ {segment segments rest rest'}, Follows rest' →
      (segment :: segments).map segmentPart ++ rest ≠ rest' := by
    rintro segment segments rest _ hrest' rfl
    have htag := segmentPart_tag segment
    rw [hrest' (segmentPart segment) rfl] at htag
    exact absurd htag (by decide)
  induction segments generalizing segments' with
  | nil =>
    cases segments' with
    | nil => exact ⟨rfl, h⟩
    | cons segment' segments' => exact absurd h.symm (hstop hrest)
  | cons segment segments ih =>
    cases segments' with
    | nil => exact absurd h (hstop hrest')
    | cons segment' segments' =>
      obtain ⟨hfirst, h⟩ := cons_eq_cons.mp h
      obtain ⟨rfl, hsame⟩ := ih h
      exact ⟨by rw [segmentPart_injective hfirst], hsame⟩

theorem dagParts_followed {dag dag' : SourceDagId Text} {rest rest' : List (Char × Text)}
    (hrest : Follows rest) (hrest' : Follows rest')
    (h : dagParts dag ++ rest = dagParts dag' ++ rest') : dag = dag' ∧ rest = rest' := by
  obtain ⟨package, ⟨segments, hsegments⟩⟩ := dag
  obtain ⟨package', ⟨segments', hsegments'⟩⟩ := dag'
  obtain ⟨hpackage, h⟩ := cons_eq_cons.mp h
  obtain ⟨rfl, hsame⟩ := segments_followed hrest hrest' h
  obtain rfl : package = package' := (Prod.mk.inj hpackage).2
  exact ⟨rfl, hsame⟩

def declarationParts (declaration : ResolvedDeclName) : List (Char × Text) :=
  dagParts declaration.owner ++ [('n', declaration.leaf)]

def callOutputParts (caller : ResolvedDeclName) (ordinal : ℕ) (output : ResolvedDeclName) :
    List (Char × Text) :=
  declarationParts caller ++ ('c', decimal ordinal) :: declarationParts output

theorem declarationParts_followed {declaration declaration' : ResolvedDeclName}
    {rest rest' : List (Char × Text)}
    (h : declarationParts declaration ++ rest = declarationParts declaration' ++ rest') :
    declaration = declaration' ∧ rest = rest' := by
  rw [declarationParts, declarationParts, List.append_assoc, List.append_assoc] at h
  obtain ⟨howner, h⟩ := dagParts_followed (by simp [Follows]) (by simp [Follows]) h
  obtain ⟨hleaf, hrest⟩ := cons_eq_cons.mp h
  exact ⟨ResolvedName.ext_parts howner (Prod.mk.inj hleaf).2, hrest⟩

theorem callOutputParts_injective {caller caller' output output' : ResolvedDeclName}
    {ordinal ordinal' : ℕ}
    (h : callOutputParts caller ordinal output = callOutputParts caller' ordinal' output') :
    caller = caller' ∧ ordinal = ordinal' ∧ output = output' := by
  obtain ⟨hcaller, h⟩ := declarationParts_followed h
  obtain ⟨hordinal, houtput⟩ := cons_eq_cons.mp h
  exact ⟨hcaller, decimal_injective (Prod.mk.inj hordinal).2,
    (declarationParts_followed (congrArg (· ++ []) houtput)).1⟩

theorem dagParts_tags {dag : SourceDagId Text} : ∀ part ∈ dagParts dag, part.1 ≠ '/' := by
  intro part hpart
  rcases mem_cons.mp hpart with rfl | hpart
  · simp
  · obtain ⟨segment, -, rfl⟩ := mem_map.mp hpart
    intro htag
    exact absurd (htag ▸ segmentPart_tag segment) (by decide)

theorem declarationParts_tags {declaration : ResolvedDeclName} :
    ∀ part ∈ declarationParts declaration, part.1 ≠ '/' := by
  intro part hpart
  rcases mem_append.mp hpart with hpart | hpart
  · exact dagParts_tags part hpart
  · simp [mem_singleton.mp hpart]

theorem callOutputParts_tags {caller output : ResolvedDeclName} {ordinal : ℕ} :
    ∀ part ∈ callOutputParts caller ordinal output, part.1 ≠ '/' := by
  intro part hpart
  rcases mem_append.mp hpart with hpart | hpart
  · exact declarationParts_tags part hpart
  · rcases mem_cons.mp hpart with rfl | hpart
    · simp
    · exact declarationParts_tags part hpart

theorem of_written (declaration : ResolvedDeclName) :
    ViewNodeId.of declaration = ⟨(written (declarationParts declaration)).text⟩ := by
  rw [ViewNodeId.of, declarationParts, ← part_written, ← List.nil_append (dagParts _),
    ← dag_written]
  rfl

theorem ofCallOutput_written (caller : ResolvedDeclName) (ordinal : ℕ)
    (output : ResolvedDeclName) : ViewNodeId.ofCallOutput caller ordinal output =
      ⟨(written (callOutputParts caller ordinal output)).text⟩ := by
  have hparts : callOutputParts caller ordinal output =
      ((([] ++ dagParts caller.owner) ++ [('n', caller.leaf)]) ++ [('c', decimal ordinal)]) ++
        dagParts output.owner ++ [('n', output.leaf)] := by
    simp [callOutputParts, declarationParts]
  rw [ViewNodeId.ofCallOutput, hparts, ← part_written, ← dag_written,
    ← part_written, ← part_written, ← dag_written]
  rfl

/-! ## Cardinalities -/

variable {P : Type} [LinearOrder P] (name : P → Identifier)

/-- The factors of a term as they are spelled, a coefficient other than `1` first. -/
def termTokens (term : Monomial P × U64) : List Text :=
  (if term.2.val = 1 then [] else [decimal term.2.val]) ++
    term.1.factors.entries.map (formatFactor name)

def tokens (form : NatPolyForm P) : List (List Text) :=
  let nonConstant := (form.terms.entries.filter fun term => !term.1.isEmpty).map (termTokens name)
  let terms := match form.terms.get? .one with
    | some c => nonConstant ++ [[decimal c.val]]
    | none => nonConstant
  if terms = [] then [[decimal 0]] else terms

/-- What a spelled factor stands for. -/
noncomputable def readToken (token : Text) : MvPolynomial Text ℕ :=
  if token.head?.any Char.isDigit then .C (Nat.ofDigitChars 10 token 0)
  else .X (token.takeWhile (· ≠ '^')) ^
    match token.dropWhile (· ≠ '^') with
    | [] => 1
    | _ :: digits => Nat.ofDigitChars 10 digits 0

noncomputable def readTokens (terms : List (List Text)) : MvPolynomial Text ℕ :=
  (terms.map fun term => (term.map readToken).prod).sum

theorem readToken_decimal (n : ℕ) : readToken (decimal n) = .C n := by
  obtain ⟨digit, rest, hdigits⟩ :=
    List.exists_cons_of_ne_nil (Nat.toDigits_ne_nil (n := n) (b := 10))
  have hdigit : digit.isDigit := Nat.isDigit_of_mem_toDigits (b := 10) (n := n) (by decide) le_rfl
    (hdigits ▸ mem_cons_self)
  rw [readToken, if_pos (by simp [decimal, hdigits, hdigit]), decimal,
    Nat.ofDigitChars_ten_toDigits]

omit [LinearOrder P] in
theorem readToken_formatFactor (factor : P × U64) :
    readToken (formatFactor name factor) = .X (name factor.1).text ^ factor.2.val := by
  obtain ⟨first, rest, htext, hfirst, hrest⟩ := (name factor.1).lexed
  have hhat : ∀ c ∈ (name factor.1).text, c ≠ '^' := by
    rintro c hc rfl
    rcases mem_cons.mp (htext ▸ hc) with rfl | hc
    · exact absurd hfirst (by decide)
    · exact absurd (hrest _ hc) (by decide)
  have hletter : first.isDigit = false := by
    unfold Char.isAlpha Char.isUpper Char.isLower at hfirst
    simp only [Char.isDigit, Bool.or_eq_true, Bool.and_eq_true, decide_eq_true_eq, ge_iff_le,
      UInt32.le_iff_toNat_le, Bool.and_eq_false_iff, decide_eq_false_iff_not] at hfirst ⊢
    have hupper : '9'.val.toNat < 'A'.val.toNat := by decide
    have hlower : '9'.val.toNat < 'a'.val.toNat := by decide
    omega
  have hplain : ∀ c ∈ (name factor.1).text, decide (c ≠ '^') = true := fun c hc =>
    decide_eq_true (hhat c hc)
  unfold formatFactor
  split_ifs with hone
  · rw [readToken, if_neg (by simp [htext, hletter]), List.takeWhile_eq_self_iff.mpr hplain,
      List.dropWhile_eq_nil_iff.mpr hplain, hone]
  · rw [readToken, if_neg (by simp [htext, hletter]), List.takeWhile_append_of_pos hplain,
      List.dropWhile_append_of_pos hplain]
    simp [decimal, Nat.ofDigitChars_ten_toDigits]

theorem prod_termTokens (term : Monomial P × U64) :
    ((termTokens name term).map readToken).prod =
      MvPolynomial.rename (fun param => (name param).text)
        (MvPolynomial.monomial term.1.toFinsupp term.2.val) := by
  have hfactors : (term.1.factors.entries.map fun factor =>
        readToken (formatFactor name factor)).prod =
      MvPolynomial.rename (fun param => (name param).text)
        (term.1.toFinsupp.prod fun param exponent => MvPolynomial.X (R := ℕ) param ^ exponent) := by
    rw [map_finsuppProd]
    simp only [map_pow, MvPolynomial.rename_X]
    rw [NatPolyForm.prod_toFinsupp]
    exact congrArg List.prod
      (List.map_congr_left fun factor _ => readToken_formatFactor name factor)
  rw [MvPolynomial.monomial_eq, map_mul, MvPolynomial.rename_C, ← hfactors, termTokens,
    List.map_append, List.prod_append, map_map]
  congr 1
  split_ifs with hone
  · simp [hone]
  · simp [readToken_decimal]

/-- A sum over a map, the entry of one key apart. -/
theorem sum_entries {V M : Type} [AddCommMonoid M] {k : P} {l : List (P × V)} (f : P × V → M)
    {other : P × V → Bool} (hother : ∀ e, other e = true ↔ e.1 ≠ k)
    (hl : l.Pairwise fun a b => a.1 < b.1) : (l.map f).sum =
      ((l.filter other).map f).sum + ((SortedMap.lookup k l).elim 0 fun v => f (k, v)) := by
  induction l with
  | nil => simp [SortedMap.lookup]
  | cons e rest ih =>
    obtain ⟨hlt, hrest⟩ := List.pairwise_cons.mp hl
    by_cases hkey : e.1 = k
    · have hself : rest.filter other = rest := List.filter_eq_self.mpr fun e' he' =>
        (hother e').mpr (hkey ▸ (hlt e' he').ne')
      rw [List.filter_cons_of_neg (by simp [hother, hkey]), hself, SortedMap.lookup,
        if_pos hkey.symm, map_cons, sum_cons, add_comm, ← hkey]
      rfl
    · rw [List.filter_cons_of_pos ((hother e).mpr hkey), SortedMap.lookup, if_neg (Ne.symm hkey),
        map_cons, sum_cons, map_cons, sum_cons, ih hrest, add_assoc]

theorem isEmpty_iff (term : Monomial P × U64) : (!term.1.isEmpty) = true ↔ term.1 ≠ .one := by
  have hempty : term.1.isEmpty = true ↔ term.1 = .one := by
    rw [SparseMonomial.isEmpty, SortedMap.isEmpty, List.isEmpty_iff]
    refine ⟨fun h => SparseMonomial.ext_factors (SortedMap.ext_perm (.of_eq h)), fun h => ?_⟩
    rw [h]
    rfl
  rw [Bool.not_eq_true', ← Bool.not_eq_true, hempty]

theorem readTokens_tokens (form : NatPolyForm P) : readTokens (tokens name form) =
    MvPolynomial.rename (fun param => (name param).text) form.toMvPoly := by
  have hterms : ∀ terms : List (Monomial P × U64), readTokens (terms.map (termTokens name)) =
      MvPolynomial.rename (fun param => (name param).text)
        (terms.map fun term => MvPolynomial.monomial term.1.toFinsupp term.2.val).sum := by
    intro terms
    rw [readTokens, map_map, map_list_sum, map_map]
    exact congrArg List.sum (List.map_congr_left fun term _ => prod_termTokens name term)
  have hzero : readTokens [[decimal 0]] = 0 := by simp [readTokens, readToken_decimal]
  rw [NatPolyForm.toMvPoly, NatPolyForm.polyHom_exponents,
    sum_entries _ isEmpty_iff form.terms.sorted, map_add, ← hterms]
  unfold tokens SortedMap.get?
  cases SortedMap.lookup SparseMonomial.one form.terms.entries with
  | none =>
    rw [Option.elim_none, map_zero, add_zero]
    dsimp only
    split_ifs with hnone
    · rw [hzero, hnone]
      rfl
    · rfl
  | some c =>
    rw [if_neg (by simp)]
    simp [readTokens, readToken_decimal]

theorem format_eq (form : NatPolyForm P) : format name form =
    " + ".toList.intercalate ((tokens name form).map (" * ".toList.intercalate ·)) := by
  have hterm : ∀ term ∈ form.terms.entries.filter fun term => !term.1.isEmpty,
      formatTerm name term = " * ".toList.intercalate (termTokens name term) := by
    intro term hmem
    obtain ⟨factor, rest, hfactors⟩ := List.exists_cons_of_ne_nil (l := term.1.factors.entries)
      (by simpa [SparseMonomial.isEmpty, SortedMap.isEmpty] using (List.mem_filter.mp hmem).2)
    unfold formatTerm formatMonomial termTokens
    rw [hfactors]
    split_ifs
    · rfl
    · rw [map_cons, List.singleton_append, List.intercalate_cons_cons]
  have hterms : (form.terms.entries.filter fun term => !term.1.isEmpty).map (formatTerm name) =
      ((form.terms.entries.filter fun term => !term.1.isEmpty).map (termTokens name)).map
        (" * ".toList.intercalate ·) := by
    rw [map_map]
    exact List.map_congr_left hterm
  unfold format tokens
  rw [hterms]
  generalize (form.terms.entries.filter fun term => !term.1.isEmpty).map (termTokens name) =
    nonConstant
  cases hone : form.terms.get? .one with
  | none => by_cases hnone : nonConstant = [] <;> simp [hnone, decimal]
  | some c =>
    have hpositive : 0 < c.val := Nat.pos_of_ne_zero fun hzero => by
      simpa [MonomialExponent.isZero, hzero] using form.zeroFree _ c hone
    simp [hpositive]

theorem decimal_marks (n : ℕ) : '+' ∉ decimal n ∧ '*' ∉ decimal n := by
  have hdigit : ∀ {c}, c ∈ decimal n → c.isDigit := fun hc =>
    Nat.isDigit_of_mem_toDigits (by decide) le_rfl hc
  exact ⟨fun hc => absurd (hdigit hc) (by decide), fun hc => absurd (hdigit hc) (by decide)⟩

omit [LinearOrder P] in
theorem formatFactor_marks (factor : P × U64) :
    '+' ∉ formatFactor name factor ∧ '*' ∉ formatFactor name factor := by
  obtain ⟨first, rest, htext, hfirst, hrest⟩ := (name factor.1).lexed
  have hname : ∀ c ∈ (name factor.1).text, c.isAlpha ∨ c.isAlphanum ∨ c = '_' := by
    intro c hc
    rcases mem_cons.mp (htext ▸ hc) with rfl | hc
    · exact .inl hfirst
    · exact .inr (hrest c hc)
  have hplus : '+' ∉ (name factor.1).text := fun hc => absurd (hname _ hc) (by decide)
  have htimes : '*' ∉ (name factor.1).text := fun hc => absurd (hname _ hc) (by decide)
  unfold formatFactor
  split_ifs
  · exact ⟨hplus, htimes⟩
  · simp [hplus, htimes, decimal_marks factor.2.val]

def Unmarked (term : List Text) : Prop :=
  term ≠ [] ∧ ∀ token ∈ term, '+' ∉ token ∧ '*' ∉ token

theorem termTokens_unmarked {form : NatPolyForm P} {term : Monomial P × U64}
    (hterm : term ∈ form.terms.entries.filter fun term => !term.1.isEmpty) :
    Unmarked (termTokens name term) := by
  refine ⟨fun hnil => ?_, fun token htoken => ?_⟩
  · have hfactors := List.map_eq_nil_iff.mp (List.append_eq_nil_iff.mp hnil).2
    simpa [SparseMonomial.isEmpty, SortedMap.isEmpty, hfactors] using (List.mem_filter.mp hterm).2
  · rcases mem_append.mp htoken with hcoefficient | hfactor
    · split_ifs at hcoefficient
      · cases hcoefficient
      · exact mem_singleton.mp hcoefficient ▸ decimal_marks _
    · obtain ⟨factor, -, rfl⟩ := mem_map.mp hfactor
      exact formatFactor_marks name factor

theorem tokens_unmarked {form : NatPolyForm P} {term : List Text}
    (hterm : term ∈ tokens name form) : Unmarked term := by
  have hdecimal : ∀ n, Unmarked [decimal n] := fun n =>
    ⟨List.cons_ne_nil _ _, fun token htoken => mem_singleton.mp htoken ▸ decimal_marks n⟩
  have hnonConstant : ∀ term ∈ (form.terms.entries.filter fun term => !term.1.isEmpty).map
      (termTokens name), Unmarked term := by
    intro term hmem
    obtain ⟨entry, hentry, rfl⟩ := mem_map.mp hmem
    exact termTokens_unmarked name hentry
  unfold tokens at hterm
  generalize (form.terms.entries.filter fun term => !term.1.isEmpty).map (termTokens name) =
    nonConstant at hterm hnonConstant
  dsimp only at hterm
  split_ifs at hterm with hnone
  · exact mem_singleton.mp hterm ▸ hdecimal 0
  · cases hone : form.terms.get? .one with
    | none => exact hnonConstant term (by simpa only [hone] using hterm)
    | some c =>
      rw [hone] at hterm
      rcases mem_append.mp hterm with hmem | hmem
      · exact hnonConstant term hmem
      · exact mem_singleton.mp hmem ▸ hdecimal c.val

theorem tokens_ne_nil (form : NatPolyForm P) : tokens name form ≠ [] := by
  unfold tokens
  dsimp only
  split_ifs with hnone
  · exact List.cons_ne_nil _ _
  · exact hnone

theorem map_intercalate_injective {terms terms' : List (List Text)}
    (hterms : ∀ term ∈ terms, Unmarked term) (hterms' : ∀ term ∈ terms', Unmarked term)
    (h : terms.map (" * ".toList.intercalate ·) = terms'.map (" * ".toList.intercalate ·)) :
    terms = terms' := by
  induction terms generalizing terms' with
  | nil => exact (List.map_eq_nil_iff.mp h.symm).symm
  | cons term rest ih =>
    cases terms' with
    | nil => cases h
    | cons term' rest' =>
      obtain ⟨hne, hmarks⟩ := hterms term mem_cons_self
      obtain ⟨hne', hmarks'⟩ := hterms' term' mem_cons_self
      obtain ⟨hfirst, hrest⟩ := cons_eq_cons.mp h
      rw [Joined.intercalate_injective [' '] [' '] (by decide)
        (fun token htoken => (hmarks token htoken).2) (fun token htoken => (hmarks' token htoken).2)
        hne hne' hfirst, ih (fun term hmem => hterms term (List.mem_cons_of_mem _ hmem))
        (fun term hmem => hterms' term (List.mem_cons_of_mem _ hmem)) hrest]

/-- A cardinality's spelling is the spelling of no other polynomial in parameter names. -/
theorem format_faithful {form form' : NatPolyForm P} (h : format name form = format name form') :
    MvPolynomial.rename (fun param => (name param).text) form.toMvPoly =
      MvPolynomial.rename (fun param => (name param).text) form'.toMvPoly := by
  have hplus : ∀ form : NatPolyForm P, ∀ text ∈ (tokens name form).map (" * ".toList.intercalate ·),
      '+' ∉ text := by
    intro form text hmem
    obtain ⟨term, hterm, rfl⟩ := mem_map.mp hmem
    exact Joined.notMem_intercalate (by decide) fun token htoken =>
      ((tokens_unmarked name hterm).2 token htoken).1
  rw [format_eq, format_eq] at h
  have hterms := Joined.intercalate_injective [' '] [' '] (by decide)
    (hplus form) (hplus form') (by simp [tokens_ne_nil]) (by simp [tokens_ne_nil]) h
  rw [← readTokens_tokens, ← readTokens_tokens, map_intercalate_injective
    (fun _ => tokens_unmarked name) (fun _ => tokens_unmarked name) hterms]

def indexParts : ResolvedIndex P → List (Char × Text)
  | .concrete index => declarationParts index
  | .finite form => [('F', format name form)]
  | .genericParam param => [('G', (name param).text)]

theorem viewIndexId_of_written (index : ResolvedIndex P) :
    ViewIndexId.of name index = ⟨(written (indexParts name index)).text⟩ := by
  cases index with
  | concrete index => exact congrArg (fun key => ViewIndexId.mk key.text) (of_written index)
  | finite form => rfl
  | genericParam param => rfl

theorem indexParts_tags {index : ResolvedIndex P} :
    ∀ part ∈ indexParts name index, part.1 ≠ '/' := by
  cases index with
  | concrete index => exact declarationParts_tags
  | finite form => simp [indexParts]
  | genericParam param => simp [indexParts]

theorem identity_of_indexParts {index index' : ResolvedIndex P}
    (h : indexParts name index = indexParts name index') :
    index.identity name = index'.identity name := by
  cases index with
  | concrete index =>
    cases index' with
    | concrete index' => rw [(declarationParts_followed (congrArg (· ++ []) h)).1]
    | finite form' => cases h
    | genericParam param' => cases h
  | finite form =>
    cases index' with
    | concrete index' => cases h
    | finite form' =>
      have htext := (Prod.mk.inj (cons_eq_cons.mp h).1).2
      exact congrArg AxisIdentity.cardinality (format_faithful name htext)
    | genericParam param' => cases h
  | genericParam param =>
    cases index' with
    | concrete index' => cases h
    | finite form' => cases h
    | genericParam param' =>
      exact congrArg AxisIdentity.parameter (Prod.mk.inj (cons_eq_cons.mp h).1).2

/-- Keys are equal for equal identities only, and no other list of parts has the key of one. -/
theorem view_keys_injective (P : Type) [LinearOrder P] (name : P → Identifier) :
    (∀ declaration declaration', ViewNodeId.of declaration = ViewNodeId.of declaration' →
      declaration = declaration') ∧
    (∀ caller ordinal output caller' ordinal' output',
      ViewNodeId.ofCallOutput caller ordinal output =
        ViewNodeId.ofCallOutput caller' ordinal' output' →
      caller = caller' ∧ ordinal = ordinal' ∧ output = output') ∧
    (∀ declaration caller ordinal output,
      ViewNodeId.of declaration ≠ ViewNodeId.ofCallOutput caller ordinal output) ∧
    (∀ dag dag', ViewInstanceId.of dag = ViewInstanceId.of dag' → dag = dag') ∧
    (∀ index index' : ResolvedIndex P, ViewIndexId.of name index = ViewIndexId.of name index' →
      index.identity name = index'.identity name) ∧
    ∀ parts parts' : List (Char × Text), (∀ part ∈ parts ++ parts', part.1 ≠ '/') →
      written parts = written parts' → parts = parts' := by
  have hwritten : ∀ {parts parts' : List (Char × Text)}, (∀ part ∈ parts, part.1 ≠ '/') →
      (∀ part ∈ parts', part.1 ≠ '/') → (written parts).text = (written parts').text →
      parts = parts' := by
    intro parts parts' hparts hparts'
    exact written_injective fun part hpart =>
      (mem_append.mp hpart).elim (hparts part) (hparts' part)
  refine ⟨?_, ?_, ?_, ?_, ?_, ?_⟩
  · intro declaration declaration' h
    rw [of_written, of_written] at h
    have hparts := hwritten declarationParts_tags declarationParts_tags (ViewNodeId.mk.inj h)
    exact (declarationParts_followed (congrArg (· ++ []) hparts)).1
  · intro caller ordinal output caller' ordinal' output' h
    rw [ofCallOutput_written, ofCallOutput_written] at h
    exact callOutputParts_injective
      (hwritten callOutputParts_tags callOutputParts_tags (ViewNodeId.mk.inj h))
  · intro declaration caller ordinal output h
    rw [of_written, ofCallOutput_written] at h
    have hparts := hwritten declarationParts_tags callOutputParts_tags (ViewNodeId.mk.inj h)
    rw [← List.append_nil (declarationParts declaration)] at hparts
    cases (declarationParts_followed hparts).2
  · intro dag dag' h
    have hdag : ∀ dag, ViewInstanceId.of dag = ⟨(written (dagParts dag)).text⟩ := fun dag =>
      congrArg (fun key => ViewInstanceId.mk key.text) (dag_written [] dag)
    rw [hdag, hdag] at h
    have hparts := hwritten dagParts_tags dagParts_tags (ViewInstanceId.mk.inj h)
    exact (dagParts_followed (by simp [Follows]) (by simp [Follows])
      (congrArg (· ++ []) hparts)).1
  · intro index index' h
    rw [viewIndexId_of_written, viewIndexId_of_written] at h
    exact identity_of_indexParts name
      (hwritten (indexParts_tags name) (indexParts_tags name) (ViewIndexId.mk.inj h))
  · intro parts parts' htags h
    exact written_injective htags (congrArg KeyWriter.text h)

end ProvenGraphcal.ViewModel
