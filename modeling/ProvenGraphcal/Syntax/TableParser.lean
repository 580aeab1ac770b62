import ProvenGraphcal.Eval.RuntimeValue
import ProvenGraphcal.Library.TokenParser
import ProvenGraphcal.Syntax.DecimalLiteral
import ProvenGraphcal.Syntax.FormatEquivalent

/-!
# Tokens, and the parser's readings of names

`M` are the expressions of natural numbers and `E` the value expressions, whose parsers are given.
Tokens and keywords that no production below names are `other`.
-/

namespace ProvenGraphcal.Parser

open Resolve Ast

inductive ContextualKeyword
  | range
  | fin
  | bind
  | other (spelling : String)
  deriving DecidableEq

inductive Token
  | param
  | node
  | const
  | table
  | pub
  | contextualKeyword (keyword : ContextualKeyword)
  | ident
  | number
  | minus
  | star
  | slash
  | caret
  | eq
  | hash
  | lParen
  | rParen
  | lBrace
  | rBrace
  | lBracket
  | rBracket
  | semicolon
  | comma
  | doubleColon
  | colon
  | dot
  | underscore
  | other (spelling : String)
  deriving DecidableEq

def Token.isIdentifier : Token → Bool
  | ident | contextualKeyword _ => true
  | _ => false

/-- A token with the text that it spans. -/
structure Lexeme where
  token : Token
  text : String
  span : Span
  deriving DecidableEq

inductive Expected
  | token (token : Token)
  | anyToken
  | identifier
  | integer
  | paramWithoutVisibility
  | nodeVisibility
  | multiDeclSlotKind
  | tableAxis
  | slotTupleEntry
  | headerCell
  | tableDataRow

inductive Found
  | token (token : Token)
  | pub
  | pubBind

inductive InvalidNumberReason
  | tableFinCardinality
  | tableColumnPosition
  | sliceLabel
  | sliceIndexOutOfRange (value cardinality : ℕ)
  | dimensionExponentOverflow
  | unitExponentOverflow
  | exponentOutOfRange
  | exponentZeroDenominator
  | unitNumeratorNotOne
  | expectedInteger

inductive UnsupportedMultiDeclShape
  | multipleExtraAxisSlots
  | missingSliceSection
  | sliceLabelAxis (labelAxis sharedAxis : NamePath String)
  | underscoreHeaderRequired (slot : String)
  | missingVariantCells (slot : String)

inductive ParseErrorKind (M : Type)
  | unexpectedToken (expected : Expected) (found : Found)
  | sliceAxisMismatch (expected found : NamePath String)
  | unexpectedEof (expected : Expected)
  | invalidNumber (reason : InvalidNumberReason)
  | tableRowLengthMismatch (expected got : ℕ)
  | multiDeclTupleArity (slotCount tupleCount : ℕ)
  | multiDeclHeaderArity (slotCount headerCount : ℕ)
  | multiDeclRowArity (expectedCount got : ℕ) (rowLabel : IndexEntryKey)
  | multiDeclNoSharedAxis
  | multiDeclUnsupportedShape (shape : UnsupportedMultiDeclShape)
  | tooDeeplyNested
  | zeroExponent
  | expectedIndexFoundNat (expression : String)
  | obsoleteStructuralRange (cardinality : M)

structure ParseError (M : Type) where
  kind : ParseErrorKind M
  span : Span

abbrev Parse (M : Type) := TokenParser Lexeme (ParseError M)

/-- The parsers of expressions, and the end of the source. -/
structure Grammar (M E : Type) where
  endOfSource : Span
  parseNatExpr : Parse M M
  parseExpr : Parse M E
  exprSpan : E → Span
  parseExpr_consumes : TokenParser.Consumes parseExpr

structure IdentPath where
  owner : List (Spanned String)
  leaf : Spanned String

def IdentPath.span (path : IdentPath) : Span :=
  path.owner.head?.elim path.leaf.span fun first => first.span.merge path.leaf.span

def IdentPath.toNamePath (path : IdentPath) : NamePath String :=
  ⟨path.owner.map Spanned.value, path.leaf.value⟩

def IdentPath.intoSpannedNamePath (path : IdentPath) : Spanned (NamePath String) :=
  ⟨path.toNamePath, path.span⟩

def headIs (t : Token) (tokens : List Lexeme) : Bool :=
  tokens.head?.any fun found => found.token = t

/-- What follows pairs of a dot and an identifier. -/
def afterDots : List Lexeme → List Lexeme
  | dot :: name :: rest =>
    if dot.token = .dot ∧ name.token.isIdentifier then afterDots rest else dot :: name :: rest
  | tokens => tokens

/-- A `u64`, from text that starts with a digit and may hold separators. -/
def parseU64 (text : String) : Option ℕ :=
  (DecimalLiteral.parseDigits (text.toList.filter (· ≠ '_'))).filter (· < 2 ^ 64)

def invalidNumber {M : Type} (reason : InvalidNumberReason) (span : Span) : ParseError M :=
  ⟨.invalidNumber reason, span⟩

def isComma (found : Lexeme) : Bool := found.token = .comma

namespace Grammar

open TokenParser

variable {M E : Type} (g : Grammar M E)

def unexpected (expected : Expected) : Option Lexeme → ParseError M
  | some found => ⟨.unexpectedToken expected (.token found.token), found.span⟩
  | none => ⟨.unexpectedEof expected, g.endOfSource⟩

/-- Loops read tokens, so that none is stuck. -/
def stuck : ParseError M := g.unexpected .anyToken none

def advance : Parse M Lexeme := token some (g.unexpected .anyToken)

def expect (t : Token) : Parse M Lexeme :=
  token (fun found => if found.token = t then some found else none) (g.unexpected (.token t))

def parseAnyIdent : Parse M (Spanned String) :=
  token (fun found => if found.token.isIdentifier then some ⟨found.text, found.span⟩ else none)
    (g.unexpected .identifier)

/-- A name, or one that `::` selects after a dotted path; the dots are read only if `::` follows. -/
def parseIdentPath : Parse M IdentPath := do
  let first ← g.parseAnyIdent
  if headIs .doubleColon (afterDots (← remaining)) then
    let ownerRest ← manyUntil g.stuck (fun tokens => !headIs .dot tokens)
      (do let _ ← g.expect .dot; g.parseAnyIdent) []
    let _ ← g.expect .doubleColon
    return ⟨first :: ownerRest, ← g.parseAnyIdent⟩
  else return ⟨[], first⟩

def parseIndexVariantPath : Parse M (Spanned (NamePath String) × Spanned String × Span) := do
  let index ← g.parseIdentPath
  let _ ← g.expect .hash
  let variant ← g.parseAnyIdent
  return (index.intoSpannedNamePath, variant, index.span.merge variant.span)

/-- The span of the next token. -/
def peekSpan (default : Span) : Parse M Span := do
  return (← peek).elim default Lexeme.span

theorem consumes_advance : Consumes g.advance := consumes_token _ _

theorem consumes_expect (t : Token) : Consumes (g.expect t) := consumes_token _ _

theorem consumes_parseAnyIdent : Consumes g.parseAnyIdent := consumes_token _ _

theorem advances_peekSpan (default : Span) : Advances (peekSpan default : Parse M Span) :=
  advances_peek.bind fun _ => advances_pure _

theorem consumes_parseIdentPath : Consumes g.parseIdentPath := by
  refine g.consumes_parseAnyIdent.bind fun first => advances_remaining.bind fun tokens => ?_
  split
  · refine Advances.bind (advances_manyUntil ?_ []) fun ownerRest => ?_
    · exact (g.consumes_expect .dot).bind fun _ => g.consumes_parseAnyIdent.advances
    · exact (g.consumes_expect .doubleColon).advances.bind fun _ =>
        g.consumes_parseAnyIdent.advances.bind fun _ => advances_pure _
  · exact advances_pure _

theorem consumes_parseIndexVariantPath : Consumes g.parseIndexVariantPath :=
  g.consumes_parseIdentPath.bind fun _ => (g.consumes_expect .hash).advances.bind fun _ =>
    g.consumes_parseAnyIdent.advances.bind fun _ => advances_pure _

end Grammar

/-!
# Table literals

A table has one axis, a row axis and a column axis, or slice axes before these two. A column axis of
names is headed by its labels; the rows and columns of other axes are numbered as they stand.
-/

open Resolve Ast TokenParser

inductive TableColumnKeys
  | named (axis : Spanned (NamePath String)) (labels : List (Spanned String))
  | finite (cardinality : ℕ) (span : Span)

def namedKey (axis : Spanned (NamePath String)) (label : Spanned String) : MapEntryKey :=
  .named axis [] label

def TableColumnKeys.keyAt : TableColumnKeys → ℕ → Option MapEntryKey
  | named axis labels, position => labels[position]?.map (namedKey axis)
  | finite cardinality span, position =>
    (FinPosition.tryNew cardinality position).map fun position => .finite span ⟨position, span⟩

def TableColumnKeys.count : TableColumnKeys → ℕ
  | named _ labels => labels.length
  | finite cardinality _ => cardinality

def tableEntryKeys (slice : List MapEntryKey) (row column : MapEntryKey) : NonEmpty MapEntryKey :=
  match slice with
  | [] => ⟨[row, column], List.cons_ne_nil _ _⟩
  | first :: rest => ⟨first :: (rest ++ [row, column]), List.cons_ne_nil _ _⟩

/-- A data row with its label, if its axis has names. -/
structure ParsedRow (E : Type) where
  label? : Option (Spanned String)
  labelSpan : Span
  values : List E
  span : Span

structure TableLiteral (E : Type) where
  indexes : List TableIndexSpec
  entries : List (MapEntry E)
  span : Span

def isNamed : TableIndexSpec → Bool
  | .named _ => true
  | .finite _ _ => false

/-- The key of a row; there is none beyond the positions of its axis. -/
def tableRowKey (axis : TableIndexSpec) (label? : Option (Spanned String)) (position : ℕ) :
    Option MapEntryKey :=
  match axis with
  | .named axis => label?.map (namedKey axis)
  | .finite cardinality span =>
    (FinPosition.tryNew cardinality position).map fun position => .finite span ⟨position, span⟩

def endsRows (tokens : List Lexeme) : Bool := headIs .rBrace tokens || headIs .lBracket tokens

namespace Grammar

variable {M E : Type} (g : Grammar M E)

/-- The structural index `range(n)` is read only to be rejected. -/
def rejectObsoleteStructuralRange : Parse M Unit := do
  let tokens ← remaining
  if headIs (.contextualKeyword .range) tokens && headIs .lParen tokens.tail then
    let start ← g.advance
    let _ ← g.expect .lParen
    let cardinality ← g.parseNatExpr
    let close ← g.expect .rParen
    fail ⟨.obsoleteStructuralRange cardinality, start.span.merge close.span⟩
  else return ()

def parseTableIndexSpec : Parse M TableIndexSpec := do
  g.rejectObsoleteStructuralRange
  let tokens ← remaining
  if headIs (.contextualKeyword .fin) tokens && headIs .lParen tokens.tail then
    let start ← g.advance
    let _ ← g.expect .lParen
    let number ← g.expect .number
    let cardinality ← ofOption (parseU64 number.text)
      (invalidNumber .tableFinCardinality number.span)
    let close ← g.expect .rParen
    return .finite cardinality (start.span.merge close.span)
  else if headIs .number tokens then
    let number ← g.advance
    fail ⟨.expectedIndexFoundNat number.text, number.span⟩
  else if tokens.head?.any fun found => found.token.isIdentifier then
    return .named (← g.parseIdentPath).intoSpannedNamePath
  else
    let found ← g.advance
    fail (g.unexpected .tableAxis (some found))

def parseTable1dNamed (index : Spanned (NamePath String)) : Parse M (List (MapEntry E)) :=
  foldUntil g.stuck (headIs .rBrace) (fun entries => do
    let label ← g.parseAnyIdent
    let _ ← g.expect .colon
    let value ← g.parseExpr
    let _ ← g.expect .semicolon
    return entries ++ [⟨.singleton (namedKey index label), value⟩]) []

/-- A row past the last position has no key; the number of rows is checked after all are read. -/
def finiteEntry (n : ℕ) (span : Span) (position : ℕ) (value : E) : List (MapEntry E) :=
  match FinPosition.tryNew n position with
  | some position => [⟨.singleton (.finite span ⟨position, g.exprSpan value⟩), value⟩]
  | none => []

/-- Read a row onto the entries, and count it. -/
def finiteRow (n : ℕ) (span : Span) (state : List (MapEntry E) × ℕ) :
    Parse M (List (MapEntry E) × ℕ) := do
  let value ← g.parseExpr
  let _ ← g.expect .semicolon
  return (state.1 ++ g.finiteEntry n span state.2 value, state.2 + 1)

def parseTable1dFinite (n : ℕ) (span : Span) : Parse M (List (MapEntry E)) := do
  let (entries, rowCount) ← foldUntil g.stuck (headIs .rBrace) (g.finiteRow n span) ([], 0)
  let endSpan ← peekSpan span
  if rowCount = n then return entries
  else fail ⟨.tableRowLengthMismatch n rowCount,
    ⟨span.offset, endSpan.offset + endSpan.length - span.offset⟩⟩

def parseTable1d : TableIndexSpec → Parse M (List (MapEntry E))
  | .named name => g.parseTable1dNamed name
  | .finite cardinality span => g.parseTable1dFinite cardinality span

/-- The label of a row, if its axis has names; `default` stands in for the span of a missing
token. -/
def parseRowLabel (default : Span) : TableIndexSpec → Parse M (Option (Spanned String) × Span)
  | .named _ => do
    let label ← g.parseAnyIdent
    let _ ← g.expect .colon
    return (some label, label.span)
  | .finite _ _ => return (none, ← peekSpan default)

/-- A row up to its semicolon. -/
def parseRow (axis : TableIndexSpec) (default : Span) : Parse M (ParsedRow E) := do
  let (label?, labelSpan) ← g.parseRowLabel default axis
  let values ← separated g.stuck isComma (fun _ => false) g.parseExpr
  let rowEnd ← peekSpan labelSpan
  let _ ← g.expect .semicolon
  return ⟨label?, labelSpan, values, labelSpan.merge rowEnd⟩

def parseTableColumns : TableIndexSpec → Parse M TableColumnKeys
  | .named axis => do
    let _ ← g.expect .colon
    let labels ← separated g.stuck isComma (fun _ => false) g.parseAnyIdent
    let _ ← g.expect .semicolon
    return .named axis labels
  | .finite cardinality span => return .finite cardinality span

def tableEntry (columns : TableColumnKeys) (slice : List MapEntryKey) (rowKey : MapEntryKey)
    (cell : E × ℕ) : Except (ParseError M) (MapEntry E) :=
  match columns.keyAt cell.2 with
  | some columnKey => .ok ⟨tableEntryKeys slice rowKey columnKey, cell.1⟩
  | none => .error (invalidNumber .tableColumnPosition (g.exprSpan cell.1))

/-- Add a row to the entries, and count it. -/
def addTableRow (axis : TableIndexSpec) (columns : TableColumnKeys) (slice : List MapEntryKey)
    (state : List (MapEntry E) × ℕ) (row : ParsedRow E) :
    Except (ParseError M) (List (MapEntry E) × ℕ) :=
  if row.values.length ≠ columns.count then
    .error ⟨.tableRowLengthMismatch columns.count row.values.length, row.span⟩
  else
    match tableRowKey axis row.label? state.2 with
    | some rowKey => do
      let entries ← row.values.zipIdx.mapM (g.tableEntry columns slice rowKey)
      return (state.1 ++ entries, state.2 + 1)
    | none => .ok (state.1, state.2 + 1)

def axisSpan : TableIndexSpec → Span
  | .named axis => axis.span
  | .finite _ span => span

def tableRow (axis : TableIndexSpec) (columns : TableColumnKeys) (slice : List MapEntryKey)
    (state : List (MapEntry E) × ℕ) : Parse M (List (MapEntry E) × ℕ) := do
  let row ← g.parseRow axis (axisSpan axis)
  lift (g.addTableRow axis columns slice state row)

def parseTableSingle (rowAxis columnAxis : TableIndexSpec) (slice : List MapEntryKey) :
    Parse M (List (MapEntry E)) := do
  let columns ← g.parseTableColumns columnAxis
  let (entries, rowCount) ← foldUntil g.stuck endsRows (g.tableRow rowAxis columns slice) ([], 0)
  match rowAxis with
  | .named _ => return entries
  | .finite cardinality span =>
    if rowCount = cardinality then return entries
    else fail ⟨.tableRowLengthMismatch cardinality rowCount, span⟩

/-- A slice label; `mismatch` is the error of a label of another axis. -/
def parseSliceLabel (mismatch : NamePath String → NamePath String → ParseErrorKind M) :
    TableIndexSpec → Parse M MapEntryKey
  | .named axis => do
    let (index, variant, _) ← g.parseIndexVariantPath
    if index.value = axis.value then return .named index [axis.span] variant
    else fail ⟨mismatch axis.value index.value, index.span⟩
  | .finite cardinality span => do
    let hash ← g.expect .hash
    let number ← g.expect .number
    let value ← ofOption (parseU64 number.text) (invalidNumber .sliceLabel number.span)
    let position ← ofOption (FinPosition.tryNew cardinality value)
      (invalidNumber (.sliceIndexOutOfRange value cardinality) number.span)
    return .finite span ⟨position, hash.span.merge number.span⟩

/-- The labels with commas between them, one for each axis. -/
def listLabels {K : Type} (label : TableIndexSpec → Parse M K) :
    List TableIndexSpec → Parse M (List K)
  | [] => return []
  | [axis] => return [← label axis]
  | axis :: next :: axes => do
    let key ← label axis
    let _ ← g.expect .comma
    return key :: (← listLabels label (next :: axes))

def missingTableDataRow {α : Type} : Parse M α := do
  fail (g.unexpected .tableDataRow (← peek))

/-- Read a section onto the entries; its labels are kept by entries only, so that it has some. -/
def tableSlice (sliceAxes : List TableIndexSpec) (rowAxis columnAxis : TableIndexSpec)
    (entries : List (MapEntry E)) : Parse M (List (MapEntry E)) := do
  let _ ← g.advance
  let slice ← g.listLabels (g.parseSliceLabel .sliceAxisMismatch) sliceAxes
  let _ ← g.expect .rBracket
  let sliceEntries ← g.parseTableSingle rowAxis columnAxis slice
  if sliceEntries.isEmpty then g.missingTableDataRow
  else return entries ++ sliceEntries

def parseTableSliced (sliceAxes : List TableIndexSpec) (rowAxis columnAxis : TableIndexSpec) :
    Parse M (List (MapEntry E)) :=
  foldUntil g.stuck (fun tokens => !headIs .lBracket tokens)
    (g.tableSlice sliceAxes rowAxis columnAxis) []

/-- The entries by the number of axes, of which there is at least one. -/
def parseTableEntries (indexes : List TableIndexSpec) : Parse M (List (MapEntry E)) :=
  match indexes.reverse with
  | [] => fail g.stuck
  | [axis] => g.parseTable1d axis
  | [columnAxis, rowAxis] => g.parseTableSingle rowAxis columnAxis []
  | columnAxis :: rowAxis :: slices => g.parseTableSliced slices.reverse rowAxis columnAxis

def parseTableIndexes : Parse M (List TableIndexSpec) := do
  let _ ← g.expect .lBracket
  let indexes ← separated g.stuck isComma (headIs .rBracket) g.parseTableIndexSpec
  let _ ← g.expect .rBracket
  return indexes

def parseTableExpr : Parse M (TableLiteral E) := do
  let start ← g.expect .table
  let indexes ← g.parseTableIndexes
  let _ ← g.expect .lBrace
  let entries ← g.parseTableEntries indexes
  if entries.isEmpty && indexes.any isNamed then g.missingTableDataRow
  else
    let close ← g.expect .rBrace
    return ⟨indexes, entries, start.span.merge close.span⟩

end Grammar

/-!
# Tables as they are written

A table is read as sections of rows without any check, and its cells are listed with their places.
Which tables fit is said apart; the parser accepts the tables that fit, and each entry of a table
is one of its cells.
-/

/-- The axes by their parts in a table. -/
structure TableShape where
  slices : List TableIndexSpec
  row : TableIndexSpec
  column? : Option TableIndexSpec

def TableShape.of (indexes : List TableIndexSpec) : Option TableShape :=
  match indexes.reverse with
  | [] => none
  | [axis] => some ⟨[], axis, none⟩
  | column :: row :: slices => some ⟨slices.reverse, row, some column⟩

inductive WrittenLabel
  | variant (index : Spanned (NamePath String)) (variant : Spanned String)
  | position (value : ℕ) (span : Span)

/-- A section with its slice labels and the labels of its columns, if it has any. -/
structure WrittenSection (E : Type) where
  labels : List WrittenLabel
  header : List (Spanned String)
  rows : List (ParsedRow E)

structure WrittenTable (E : Type) where
  indexes : List TableIndexSpec
  sections : List (WrittenSection E)
  span : Span

/-! ## Keys of places -/

def labelKey : TableIndexSpec → WrittenLabel → Option MapEntryKey
  | .named axis, .variant index variant =>
    if index.value = axis.value then some (.named index [axis.span] variant) else none
  | .finite cardinality span, .position value labelSpan =>
    (FinPosition.tryNew cardinality value).map fun position => .finite span ⟨position, labelSpan⟩
  | .named _, .position _ _ => none
  | .finite _ _, .variant _ _ => none

def sliceKeys : List TableIndexSpec → List WrittenLabel → Option (List MapEntryKey)
  | [], [] => some []
  | axis :: axes, label :: labels => do return (← labelKey axis label) :: (← sliceKeys axes labels)
  | [], _ :: _ => none
  | _ :: _, [] => none

/-- The key on an axis at a label or a position. -/
def axisKey (axis : TableIndexSpec) (label? : Option String) (position : ℕ) :
    Option SpanFreeMapEntryKey :=
  match axis with
  | .named path => label?.map (.named path.value)
  | .finite cardinality _ => (FinPosition.tryNew cardinality position).map .finite

/-- The positions of an axis in order. -/
def positionKeys (cardinality : ℕ) : List (Option SpanFreeMapEntryKey) :=
  (List.finRange cardinality).map fun position : Fin cardinality =>
    some (.finite ⟨cardinality, position.val, position.isLt⟩)

namespace TableShape

variable (shape : TableShape)

/-- How many cells a row has under these column labels. -/
def width (header : List (Spanned String)) : ℕ :=
  match shape.column? with
  | none => 1
  | some (.named _) => header.length
  | some (.finite cardinality _) => cardinality

/-- The keys at a column, of which there are none without a column axis. -/
def columnKey (header : List (Spanned String)) (column : ℕ) : Option (List SpanFreeMapEntryKey) :=
  match shape.column? with
  | none => some []
  | some axis => (axisKey axis (header[column]?.map Spanned.value) column).map ([·])

end TableShape

variable {E : Type}

namespace WrittenSection

variable (shape : TableShape) (s : WrittenSection E)

/-- The labels of the slice, the label of the row and the label of the column. -/
def keyAt (row : ParsedRow E × ℕ) (column : ℕ) : Option (List SpanFreeMapEntryKey) := do
  let slice ← sliceKeys shape.slices s.labels
  let rowKey ← axisKey shape.row (row.1.label?.map Spanned.value) row.2
  let columnKey ← shape.columnKey s.header column
  return slice.map MapEntryKey.spanFree ++ rowKey :: columnKey

/-- The cells with their keys, row by row. -/
def cells : List (Option (List SpanFreeMapEntryKey) × E) :=
  s.rows.zipIdx.flatMap fun row => row.1.values.zipIdx.map fun cell =>
    (s.keyAt shape row cell.2, cell.1)

structure Fits : Prop where
  labels : (sliceKeys shape.slices s.labels).isSome
  width : ∀ row ∈ s.rows, row.values.length = shape.width s.header
  height : ∀ cardinality span, shape.row = .finite cardinality span → s.rows.length = cardinality
  nonempty : shape.slices ≠ [] → s.rows ≠ []

/-- The rows of a numbered axis have its positions in order, and so do the cells of each row on a
numbered column axis. -/
structure Numbered : Prop where
  rows : ∀ cardinality span, shape.row = .finite cardinality span →
    (s.rows.zipIdx.map fun row => axisKey shape.row none row.2) = positionKeys cardinality
  columns : ∀ cardinality span, shape.column? = some (.finite cardinality span) → ∀ row ∈ s.rows,
    (row.values.zipIdx.map fun cell => axisKey (.finite cardinality span) none cell.2) =
      positionKeys cardinality

end WrittenSection

namespace WrittenTable

/-- A table fits if its sections do; without a row it has no axis of names. -/
structure Fits (t : WrittenTable E) (shape : TableShape) : Prop where
  shaped : TableShape.of t.indexes = some shape
  sections : ∀ s ∈ t.sections, s.Fits shape
  nonempty : t.indexes.any isNamed = true → ∃ s ∈ t.sections, s.rows ≠ []

def cells (t : WrittenTable E) (shape : TableShape) :
    List (Option (List SpanFreeMapEntryKey) × E) :=
  t.sections.flatMap (WrittenSection.cells shape)

end WrittenTable

namespace Grammar

variable {M : Type} (g : Grammar M E)

def readSliceLabel : TableIndexSpec → Parse M WrittenLabel
  | .named _ => do
    let (index, variant, _) ← g.parseIndexVariantPath
    return .variant index variant
  | .finite _ _ => do
    let hash ← g.expect .hash
    let number ← g.expect .number
    let value ← ofOption (parseU64 number.text) (invalidNumber .sliceLabel number.span)
    return .position value (hash.span.merge number.span)

def readHeader : Option TableIndexSpec → Parse M (List (Spanned String))
  | some (.named _) => do
    let _ ← g.expect .colon
    let labels ← separated g.stuck isComma (fun _ => false) g.parseAnyIdent
    let _ ← g.expect .semicolon
    return labels
  | some (.finite _ _) => return []
  | none => return []

/-- Rows end at the closing brace; those of a section with columns also before the next section. -/
def endsSection (shape : TableShape) : List Lexeme → Bool :=
  if shape.column?.isSome then endsRows else headIs .rBrace

def readRows (shape : TableShape) : Parse M (List (ParsedRow E)) :=
  manyUntil g.stuck (endsSection shape) (g.parseRow shape.row (axisSpan shape.row)) []

def readSection (shape : TableShape) (labels : List WrittenLabel) :
    Parse M (WrittenSection E) := do
  let header ← g.readHeader shape.column?
  let rows ← g.readRows shape
  return ⟨labels, header, rows⟩

def readSlice (shape : TableShape) : Parse M (WrittenSection E) := do
  let _ ← g.advance
  let labels ← g.listLabels g.readSliceLabel shape.slices
  let _ ← g.expect .rBracket
  g.readSection shape labels

def readSections (shape : TableShape) : Parse M (List (WrittenSection E)) :=
  if shape.slices.isEmpty then do return [← g.readSection shape []]
  else manyUntil g.stuck (fun tokens => !headIs .lBracket tokens) (g.readSlice shape) []

def readTable : Parse M (WrittenTable E) := do
  let start ← g.expect .table
  let indexes ← g.parseTableIndexes
  let _ ← g.expect .lBrace
  let shape ← ofOption (TableShape.of indexes) g.stuck
  let sections ← g.readSections shape
  let close ← g.expect .rBrace
  return ⟨indexes, sections, start.span.merge close.span⟩

end Grammar

end ProvenGraphcal.Parser
