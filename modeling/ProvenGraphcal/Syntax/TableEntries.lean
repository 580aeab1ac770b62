import ProvenGraphcal.Syntax.TableParser

/-!
# The entries of accepted tables

Each reading of the parser is the reading without checks, followed by a check.
-/

namespace ProvenGraphcal.Parser

open Resolve Ast TokenParser
open Option (isSome_iff_exists isSome_map map_map toList_some)

variable {M E : Type} {g : Grammar M E}
variable {value : E} {entries : List (MapEntry E)} {values : List E} {rest tokens : List Lexeme}
variable {slice : List MapEntryKey} {rowKey : MapEntryKey} {label : Option (Spanned String) × Span}
variable {row : ParsedRow E} {default : Span} {columns : TableColumnKeys}
variable {axis column : TableIndexSpec} {shape : TableShape} {s : WrittenSection E} {position : ℕ}

namespace Grammar

theorem expect_eq_ok {t : Token} {found : Lexeme} :
    g.expect t tokens = .ok (found, rest) ↔ tokens = found :: rest ∧ found.token = t := by
  rw [expect, token_eq_ok]
  simp only [Option.ite_none_right_eq_some, Option.some.injEq]
  constructor
  · rintro ⟨_, rfl, ht, rfl⟩
    exact ⟨rfl, ht⟩
  · rintro ⟨rfl, ht⟩
    exact ⟨found, rfl, ht, rfl⟩

theorem advances_parseRowLabel (default : Span) (axis : TableIndexSpec) :
    Advances (g.parseRowLabel default axis) := by
  cases axis with
  | named axis =>
    exact g.consumes_parseAnyIdent.advances.bind fun _ =>
      (g.consumes_expect .colon).advances.bind fun _ => advances_pure _
  | finite cardinality span => exact (advances_peekSpan default).bind fun _ => advances_pure _

theorem consumes_parseRow (axis : TableIndexSpec) (default : Span) :
    Consumes (g.parseRow axis default) :=
  (advances_parseRowLabel default axis).bind_consumes fun _ =>
    (consumes_separated g.parseExpr_consumes).bind fun _ =>
      (advances_peekSpan _).bind fun _ =>
        (g.consumes_expect .semicolon).advances.bind fun _ => advances_pure _

/-- A row is a label, cells and a semicolon. -/
theorem parseRow_eq_ok :
    g.parseRow axis default tokens = .ok (row, rest) ↔
      ∃ label mid close, g.parseRowLabel default axis tokens = .ok (label, mid) ∧
        separated g.stuck isComma (fun _ => false) g.parseExpr mid =
          .ok (row.values, close :: rest) ∧ close.token = .semicolon ∧
        row = ⟨label.1, label.2, row.values, label.2.merge close.span⟩ := by
  rw [parseRow, bind_eq_ok]
  simp only [bind_eq_ok, peekSpan, pure_eq_ok, peek_eq_ok, expect_eq_ok, Prod.mk.injEq]
  constructor
  · rintro ⟨label, mid, hlabel, values, last, hvalues, _, _, ⟨_, _, ⟨rfl, rfl⟩, rfl, rfl⟩,
      close, _, ⟨rfl, hclose⟩, rfl, rfl⟩
    exact ⟨label, mid, close, hlabel, hvalues, hclose, rfl⟩
  · rintro ⟨label, mid, close, hlabel, hvalues, hclose, hrow⟩
    exact ⟨label, mid, hlabel, row.values, close :: rest, hvalues, _, close :: rest,
      ⟨_, _, ⟨rfl, rfl⟩, rfl, rfl⟩, close, rest, ⟨rfl, hclose⟩, hrow, rfl⟩

theorem values_ne_nil (h : g.parseRow axis default tokens = .ok (row, rest)) :
    row.values ≠ [] := by
  obtain ⟨_, _, _, _, hvalues, -⟩ := parseRow_eq_ok.mp h
  exact separated_ne_nil g.parseExpr_consumes hvalues

/-- A row of one cell. -/
theorem parseRow_single {label? : Option (Spanned String)} {span : Span} {mid : List Lexeme}
    {close : Lexeme} (hlabel : g.parseRowLabel default axis tokens = .ok ((label?, span), mid))
    (hvalue : g.parseExpr mid = .ok (value, close :: rest)) (hclose : close.token = .semicolon) :
    ∃ row, g.parseRow axis default tokens = .ok (row, rest) ∧ row.label? = label? ∧
      row.values = [value] := by
  have hcomma : isComma close = false := by simp [isComma, hclose]
  refine ⟨⟨label?, span, [value], span.merge close.span⟩, ?_, rfl, rfl⟩
  exact parseRow_eq_ok.mpr ⟨(label?, span), mid, close, hlabel,
    separated_singleton g.parseExpr_consumes hcomma hvalue, hclose, rfl⟩

theorem readRows_eq_ok {rows : List (ParsedRow E)} :
    g.readRows shape tokens = .ok (rows, rest) ↔
      ReadsUntil (endsSection shape) (g.parseRow shape.row (axisSpan shape.row)) rows tokens
        rest := by
  rw [readRows, manyUntil_eq_ok (consumes_parseRow _ _)]
  simp

/-- The entry of a row under its label or its number. -/
def lineEntry (axis : TableIndexSpec) (position : ℕ) (row : ParsedRow E) : List (MapEntry E) :=
  match axis with
  | .named name => row.values.flatMap fun value => row.label?.toList.map fun label =>
    ⟨.singleton (namedKey name label), value⟩
  | .finite n span => row.values.flatMap (g.finiteEntry n span position)

theorem parseRowLabel_named_eq_ok {axis : Spanned (NamePath String)} {mid : List Lexeme} :
    g.parseRowLabel default (.named axis) tokens = .ok (label, mid) ↔
      ∃ name colon, g.parseAnyIdent tokens = .ok (name, colon :: mid) ∧ colon.token = .colon ∧
        label = (some name, name.span) := by
  rw [parseRowLabel, bind_eq_ok]
  simp only [bind_eq_ok, pure_eq_ok, expect_eq_ok, Prod.mk.injEq]
  constructor
  · rintro ⟨name, _, hname, colon, _, ⟨rfl, hcolon⟩, rfl, rfl⟩
    exact ⟨name, colon, hname, hcolon, rfl⟩
  · rintro ⟨name, colon, hname, hcolon, rfl⟩
    exact ⟨name, _, hname, colon, _, ⟨rfl, hcolon⟩, rfl, rfl⟩

theorem parseTable1dNamed_eq_ok {axis : Spanned (NamePath String)} (default : Span)
    (h : g.parseTable1dNamed axis tokens = .ok (entries, rest)) :
    ∃ rows, ReadsUntil (headIs .rBrace) (g.parseRow (.named axis) default) rows tokens rest ∧
      (∀ row ∈ rows, row.values.length = 1) ∧
      entries = rows.zipIdx.flatMap fun row => g.lineEntry (.named axis) row.2 row.1 := by
  obtain ⟨rows, hrows, hwidth, rfl⟩ := foldUntil_append (f := g.lineEntry (.named axis) 0)
    (P := fun row => row.values.length = 1)
    (fun entries tokens entries' rest h => by
      simp only [bind_eq_ok, pure_eq_ok, expect_eq_ok, Prod.mk.injEq] at h
      obtain ⟨label, _, hlabel, colon, mid, ⟨rfl, hcolon⟩, value, _, hvalue, close, _,
        ⟨rfl, hclose⟩, rfl, rfl⟩ := h
      have hread : g.parseRowLabel default (.named axis) tokens = .ok ((label, label.span), mid) :=
        parseRowLabel_named_eq_ok.mpr ⟨label, colon, hlabel, hcolon, rfl⟩
      obtain ⟨row, hrow, hlabel?, hvalues⟩ := parseRow_single hread hvalue hclose
      refine ⟨row, hrow, congrArg List.length hvalues, ?_⟩
      rw [lineEntry, hvalues, hlabel?]
      rfl) h
  have hnumber : (fun row : ParsedRow E × ℕ => g.lineEntry (.named axis) row.2 row.1) =
      g.lineEntry (.named axis) 0 ∘ Prod.fst := rfl
  refine ⟨rows, hrows, hwidth, ?_⟩
  rw [hnumber, List.flatMap_def, List.flatMap_def, ← List.map_map, List.zipIdx_map_fst]

theorem finiteRow_eq_ok (n : ℕ) (span default : Span) {state next : List (MapEntry E) × ℕ}
    (h : g.finiteRow n span state tokens = .ok (next, rest)) :
    ∃ row, g.parseRow (.finite n span) default tokens = .ok (row, rest) ∧ row.values.length = 1 ∧
      (state.1 ++ g.lineEntry (.finite n span) state.2 row, state.2 + 1) = next := by
  rw [finiteRow] at h
  simp only [bind_eq_ok, pure_eq_ok, expect_eq_ok, Prod.mk.injEq] at h
  obtain ⟨value, _, hvalue, close, _, ⟨rfl, hclose⟩, rfl, rfl⟩ := h
  have hlabel : g.parseRowLabel default (.finite n span) tokens = .ok ((none, _), tokens) := rfl
  obtain ⟨row, hrow, -, hvalues⟩ := parseRow_single hlabel hvalue hclose
  refine ⟨row, hrow, congrArg List.length hvalues, ?_⟩
  rw [lineEntry, hvalues, List.flatMap_singleton]

theorem parseTable1dFinite_eq_ok {n : ℕ} {span : Span} (default : Span)
    (h : g.parseTable1dFinite n span tokens = .ok (entries, rest)) :
    ∃ rows, ReadsUntil (headIs .rBrace) (g.parseRow (.finite n span) default) rows tokens rest ∧
      (∀ row ∈ rows, row.values.length = 1) ∧ rows.length = n ∧
      entries = rows.zipIdx.flatMap fun row => g.lineEntry (.finite n span) row.2 row.1 := by
  obtain ⟨_, mid, hloop, hcheck⟩ := bind_eq_ok.mp h
  obtain ⟨rows, hrows, hwidth, rfl⟩ :=
    foldUntil_numbered (fun _ _ _ _ => finiteRow_eq_ok n span default) hloop
  obtain ⟨_, _, hpeek, hcheck⟩ := bind_eq_ok.mp hcheck
  obtain ⟨_, _, hhead, hspan⟩ := bind_eq_ok.mp hpeek
  cases peek_eq_ok.mp hhead
  cases pure_eq_ok.mp hspan
  split at hcheck
  · rename_i hcount
    cases hcheck
    exact ⟨rows, hrows, hwidth, hcount, rfl⟩
  · cases hcheck

/-! ## Rows and columns -/

def columnKeys (axis : TableIndexSpec) (header : List (Spanned String)) : TableColumnKeys :=
  match axis with
  | .named axis => .named axis header
  | .finite cardinality span => .finite cardinality span

theorem parseTableColumns_eq_ok (h : g.parseTableColumns axis tokens = .ok (columns, rest)) :
    ∃ header, g.readHeader (some axis) tokens = .ok (header, rest) ∧
      columns = columnKeys axis header := by
  cases axis with
  | named axis =>
    rw [parseTableColumns] at h
    rw [readHeader]
    simp only [bind_eq_ok, pure_eq_ok, expect_eq_ok, Prod.mk.injEq] at h ⊢
    obtain ⟨colon, mid, hcolon, labels, last, hlabels, close, _, hclose, rfl, rfl⟩ := h
    exact ⟨labels, ⟨colon, mid, hcolon, labels, last, hlabels, close, _, hclose, rfl, rfl⟩, rfl⟩
  | finite cardinality span =>
    cases h
    exact ⟨[], rfl, rfl⟩

/-- The entries of a row; there are none beyond the positions of the row axis. -/
def gridRow (axis : TableIndexSpec) (columns : TableColumnKeys) (slice : List MapEntryKey)
    (position : ℕ) (row : ParsedRow E) : List (MapEntry E) :=
  (tableRowKey axis row.label? position).toList.flatMap fun rowKey =>
    row.values.zipIdx.filterMap fun cell => (columns.keyAt cell.2).map fun columnKey =>
      ⟨tableEntryKeys slice rowKey columnKey, cell.1⟩

theorem keyAt_isSome (h : position < columns.count) :
    (columns.keyAt position).isSome := by
  cases columns with
  | named axis labels =>
    have hlabel : position < labels.length := h
    rw [TableColumnKeys.keyAt, isSome_map, List.getElem?_eq_getElem hlabel]
    rfl
  | finite cardinality span =>
    have hposition : position < cardinality := h
    rw [TableColumnKeys.keyAt, isSome_map, FinPosition.tryNew, dif_pos hposition]
    rfl

theorem mapM_tableEntry {cells : List (E × ℕ)} (h : ∀ cell ∈ cells, cell.2 < columns.count) :
    cells.mapM (g.tableEntry columns slice rowKey) =
      .ok (cells.filterMap fun cell => (columns.keyAt cell.2).map fun columnKey =>
        ⟨tableEntryKeys slice rowKey columnKey, cell.1⟩) := by
  induction cells with
  | nil => rfl
  | cons cell cells ih =>
    obtain ⟨columnKey, hkey⟩ :=
      isSome_iff_exists.mp (keyAt_isSome (h cell List.mem_cons_self))
    rw [List.mapM_cons, ih fun cell hcell => h cell (List.mem_cons_of_mem _ hcell),
      List.filterMap_cons, hkey, tableEntry, hkey]
    rfl

theorem lt_of_mem_zipIdx {cell : E × ℕ} (h : cell ∈ values.zipIdx) :
    cell.2 < values.length := by
  rw [List.mem_zipIdx_iff_getElem?] at h
  exact (List.getElem?_eq_some_iff.mp h).1

theorem addTableRow_eq_ok {state next : List (MapEntry E) × ℕ}
    (h : g.addTableRow axis columns slice state row = .ok next) :
    row.values.length = columns.count ∧
      (state.1 ++ gridRow axis columns slice state.2 row, state.2 + 1) = next := by
  rw [addTableRow] at h
  split at h
  · cases h
  · rename_i hwidth
    have hwidth := not_not.mp hwidth
    rw [gridRow]
    cases hkey : tableRowKey axis row.label? state.2 with
    | none =>
      rw [hkey] at h
      cases h
      rw [Option.toList_none, List.flatMap_nil, List.append_nil]
      exact ⟨hwidth, rfl⟩
    | some rowKey =>
      rw [hkey] at h
      dsimp only at h
      rw [mapM_tableEntry fun cell hcell => hwidth ▸ lt_of_mem_zipIdx hcell] at h
      cases h
      rw [toList_some, List.flatMap_singleton]
      exact ⟨hwidth, rfl⟩

theorem tableRow_eq_ok {state next : List (MapEntry E) × ℕ}
    (h : g.tableRow axis columns slice state tokens = .ok (next, rest)) :
    ∃ row, g.parseRow axis (axisSpan axis) tokens = .ok (row, rest) ∧
      row.values.length = columns.count ∧
      (state.1 ++ gridRow axis columns slice state.2 row, state.2 + 1) = next := by
  obtain ⟨row, mid, hrow, hlift⟩ := bind_eq_ok.mp h
  obtain ⟨hadd, hrest⟩ := lift_eq_ok.mp hlift
  cases hrest
  exact ⟨row, hrow, addTableRow_eq_ok hadd⟩

theorem parseTableSingle_eq_ok {rowAxis columnAxis : TableIndexSpec}
    (h : g.parseTableSingle rowAxis columnAxis slice tokens = .ok (entries, rest)) :
    ∃ header mid rows, g.readHeader (some columnAxis) tokens = .ok (header, mid) ∧
      ReadsUntil endsRows (g.parseRow rowAxis (axisSpan rowAxis)) rows mid rest ∧
      (∀ row ∈ rows, row.values.length = (columnKeys columnAxis header).count) ∧
      (∀ cardinality span, rowAxis = .finite cardinality span → rows.length = cardinality) ∧
      entries = rows.zipIdx.flatMap fun row =>
        gridRow rowAxis (columnKeys columnAxis header) slice row.2 row.1 := by
  obtain ⟨columns, mid, hcolumns, h⟩ := bind_eq_ok.mp h
  obtain ⟨header, hheader, rfl⟩ := parseTableColumns_eq_ok hcolumns
  obtain ⟨_, last, hloop, hcheck⟩ := bind_eq_ok.mp h
  obtain ⟨rows, hrows, hwidth, rfl⟩ := foldUntil_numbered (fun _ _ _ _ => tableRow_eq_ok) hloop
  refine ⟨header, mid, rows, hheader, ?_⟩
  cases rowAxis with
  | named axis =>
    cases hcheck
    exact ⟨hrows, hwidth, nofun, rfl⟩
  | finite cardinality span =>
    dsimp only at hcheck
    split at hcheck
    · rename_i hcount
      cases hcheck
      refine ⟨hrows, hwidth, fun n span' haxis => ?_, rfl⟩
      cases haxis
      exact hcount
    · cases hcheck

theorem parseSliceLabel_eq_ok {mismatch : NamePath String → NamePath String → ParseErrorKind M}
    {key : MapEntryKey} (h : g.parseSliceLabel mismatch axis tokens = .ok (key, rest)) :
    ∃ label, g.readSliceLabel axis tokens = .ok (label, rest) ∧ labelKey axis label = some key := by
  cases axis with
  | named axis =>
    obtain ⟨⟨index, variant, span⟩, mid, hpath, hcheck⟩ := bind_eq_ok.mp h
    dsimp only at hcheck
    split at hcheck
    · rename_i haxis
      cases hcheck
      refine ⟨.variant index variant, bind_eq_ok.mpr ⟨_, _, hpath, rfl⟩, ?_⟩
      rw [labelKey, if_pos haxis]
    · cases hcheck
  | finite cardinality span =>
    rw [parseSliceLabel] at h
    rw [readSliceLabel]
    simp only [bind_eq_ok, pure_eq_ok, ofOption_eq_ok, Prod.mk.injEq] at h ⊢
    obtain ⟨hash, _, hhash, number, mid, hnumber, value, _, ⟨hvalue, rfl⟩, position, _,
      ⟨hposition, rfl⟩, rfl, rfl⟩ := h
    refine ⟨.position value (hash.span.merge number.span),
      ⟨hash, _, hhash, number, _, hnumber, value, _, ⟨hvalue, rfl⟩, rfl, rfl⟩, ?_⟩
    rw [labelKey, hposition]
    rfl

theorem listLabels_eq_ok {parse : TableIndexSpec → Parse M MapEntryKey}
    {read : TableIndexSpec → Parse M WrittenLabel}
    (hparse : ∀ axis tokens key rest, parse axis tokens = .ok (key, rest) →
      ∃ label, read axis tokens = .ok (label, rest) ∧ labelKey axis label = some key)
    {axes : List TableIndexSpec} {keys : List MapEntryKey}
    (h : g.listLabels parse axes tokens = .ok (keys, rest)) :
    ∃ labels, g.listLabels read axes tokens = .ok (labels, rest) ∧
      sliceKeys axes labels = some keys := by
  induction axes generalizing tokens rest keys with
  | nil =>
    cases h
    exact ⟨[], rfl, rfl⟩
  | cons axis axes ih =>
    cases axes with
    | nil =>
      obtain ⟨key, mid, hkey, h⟩ := bind_eq_ok.mp h
      cases h
      obtain ⟨label, hlabel, hkey⟩ := hparse _ _ _ _ hkey
      refine ⟨[label], bind_eq_ok.mpr ⟨label, _, hlabel, rfl⟩, ?_⟩
      rw [sliceKeys, hkey]
      rfl
    | cons next axes =>
      rw [listLabels] at h ⊢
      simp only [bind_eq_ok, pure_eq_ok, Prod.mk.injEq] at h ⊢
      obtain ⟨key, _, hkey, comma, _, hcomma, keys', _, hkeys, rfl, rfl⟩ := h
      obtain ⟨label, hlabel, hkey⟩ := hparse _ _ _ _ hkey
      obtain ⟨labels, hlabels, hkeys⟩ := ih hkeys
      refine ⟨label :: labels, ⟨label, _, hlabel, comma, _, hcomma, labels, _, hlabels, rfl, rfl⟩,
        ?_⟩
      rw [sliceKeys, hkey, hkeys]
      rfl

/-! ## Cells -/

theorem label_isSome (h : g.parseRow axis default tokens = .ok (row, rest))
    (haxis : isNamed axis = true) : row.label?.isSome := by
  obtain ⟨label, mid, close, hlabel, -, -, hrow⟩ := parseRow_eq_ok.mp h
  cases axis with
  | finite cardinality span => cases haxis
  | named axis =>
    obtain ⟨name, colon, -, -, rfl⟩ := parseRowLabel_named_eq_ok.mp hlabel
    rw [hrow]
    rfl

theorem items_tableEntryKeys (slice : List MapEntryKey) (row column : MapEntryKey) :
    (tableEntryKeys slice row column).items = slice ++ [row, column] := by
  cases slice with
  | nil => rfl
  | cons first rest => rfl

theorem tableRowKey_spanFree (axis : TableIndexSpec) (label? : Option (Spanned String))
    (position : ℕ) :
    (tableRowKey axis label? position).map MapEntryKey.spanFree =
      axisKey axis (label?.map Spanned.value) position := by
  cases axis with
  | named axis =>
    rw [tableRowKey, axisKey, map_map, map_map]
    rfl
  | finite cardinality span =>
    rw [tableRowKey, axisKey, map_map]
    rfl

theorem keyAt_spanFree (axis : TableIndexSpec) (header : List (Spanned String)) (position : ℕ) :
    ((columnKeys axis header).keyAt position).map MapEntryKey.spanFree =
      axisKey axis (header[position]?.map Spanned.value) position := by
  cases axis with
  | named axis =>
    rw [columnKeys, TableColumnKeys.keyAt, axisKey, map_map, map_map]
    rfl
  | finite cardinality span =>
    rw [columnKeys, TableColumnKeys.keyAt, axisKey, map_map]
    rfl

theorem tableRowKey_isSome {label? : Option (Spanned String)} {count : ℕ}
    (hlabel : isNamed axis = true → label?.isSome)
    (hcount : ∀ cardinality span, axis = .finite cardinality span → count = cardinality)
    (hposition : position < count) : (tableRowKey axis label? position).isSome := by
  cases axis with
  | named axis =>
    rw [tableRowKey, isSome_map]
    exact hlabel rfl
  | finite cardinality span =>
    rw [tableRowKey, isSome_map, FinPosition.tryNew,
      dif_pos (hcount cardinality span rfl ▸ hposition)]
    rfl

/-- An entry as a cell with its key. -/
def entryCell (entry : MapEntry E) : Option (List SpanFreeMapEntryKey) × E :=
  (some (spanFreeKey entry.keys), entry.value)

/-- The entries of a section. -/
def sectionEntries (g : Grammar M E) (shape : TableShape) (s : WrittenSection E) :
    List (MapEntry E) :=
  match shape.column? with
  | none => s.rows.zipIdx.flatMap fun row => g.lineEntry shape.row row.2 row.1
  | some column => (sliceKeys shape.slices s.labels).toList.flatMap fun slice =>
    s.rows.zipIdx.flatMap fun row =>
      gridRow shape.row (columnKeys column s.header) slice row.2 row.1

/-- What reading tells about a row. -/
structure RowRead (axis : TableIndexSpec) (row : ParsedRow E) : Prop where
  label : isNamed axis = true → row.label?.isSome
  values : row.values ≠ []

theorem rowRead_of_parseRow (h : g.parseRow axis default tokens = .ok (row, rest)) :
    RowRead axis row :=
  ⟨label_isSome h, values_ne_nil h⟩

theorem gridRow_cells {row : ParsedRow E × ℕ} (hcolumn : shape.column? = some column)
    (hslice : sliceKeys shape.slices s.labels = some slice)
    (hkey : tableRowKey shape.row row.1.label? row.2 = some rowKey)
    (hwidth : row.1.values.length = (columnKeys column s.header).count) :
    (gridRow shape.row (columnKeys column s.header) slice row.2 row.1).map entryCell =
      row.1.values.zipIdx.map fun cell => (s.keyAt shape row cell.2, cell.1) := by
  rw [gridRow, hkey, toList_some, List.flatMap_singleton, List.map_filterMap,
    ← List.filterMap_eq_map']
  refine List.filterMap_congr fun cell hcell => ?_
  have hposition : cell.2 < (columnKeys column s.header).count :=
    hwidth ▸ lt_of_mem_zipIdx hcell
  obtain ⟨columnKey, hcolumnKey⟩ := isSome_iff_exists.mp (keyAt_isSome hposition)
  have hrowFree := tableRowKey_spanFree shape.row row.1.label? row.2
  have hcolumnFree := keyAt_spanFree column s.header cell.2
  rw [hkey] at hrowFree
  rw [hcolumnKey] at hcolumnFree
  rw [hcolumnKey, WrittenSection.keyAt, hslice, ← hrowFree, TableShape.columnKey, hcolumn]
  dsimp only
  rw [← hcolumnFree]
  show some (some (spanFreeKey (tableEntryKeys slice rowKey columnKey)), cell.1) = _
  rw [spanFreeKey, items_tableEntryKeys, List.map_append]
  rfl

theorem lineEntry_cells {row : ParsedRow E × ℕ} (hcolumn : shape.column? = none)
    (hslice : sliceKeys shape.slices s.labels = some [])
    (hkey : tableRowKey shape.row row.1.label? row.2 = some rowKey)
    (hwidth : row.1.values.length = 1) :
    (g.lineEntry shape.row row.2 row.1).map entryCell =
      row.1.values.zipIdx.map fun cell => (s.keyAt shape row cell.2, cell.1) := by
  obtain ⟨value, hvalue⟩ := List.length_eq_one_iff.mp hwidth
  have hrowFree := tableRowKey_spanFree shape.row row.1.label? row.2
  rw [hkey] at hrowFree
  have hplace : s.keyAt shape row 0 = some [rowKey.spanFree] := by
    rw [WrittenSection.keyAt, hslice, ← hrowFree, TableShape.columnKey, hcolumn]
    rfl
  rw [hvalue, List.zipIdx_singleton, List.map_singleton, hplace]
  cases haxis : shape.row with
  | named axis =>
    rw [haxis, tableRowKey] at hkey
    obtain ⟨label, hlabel, rfl⟩ := Option.map_eq_some_iff.mp hkey
    rw [lineEntry, hvalue, hlabel]
    rfl
  | finite cardinality span =>
    rw [haxis, tableRowKey] at hkey
    obtain ⟨position, hposition, rfl⟩ := Option.map_eq_some_iff.mp hkey
    rw [lineEntry, hvalue, List.flatMap_singleton, finiteEntry, hposition]
    rfl

/-- A shape without columns has no slices. -/
def WellShaped (shape : TableShape) : Prop := shape.column? = none → shape.slices = []

theorem width_eq_count (h : shape.column? = some column) (header : List (Spanned String)) :
    shape.width header = (columnKeys column header).count := by
  rw [TableShape.width, h]
  cases column with
  | named axis => rfl
  | finite cardinality span => rfl

theorem sectionEntries_cells (hshape : WellShaped shape) (hfits : s.Fits shape)
    (hread : ∀ row ∈ s.rows, RowRead shape.row row) :
    (sectionEntries g shape s).map entryCell = s.cells shape := by
  obtain ⟨slice, hslice⟩ := isSome_iff_exists.mp hfits.labels
  have hplace : ∀ row ∈ s.rows.zipIdx, row.1 ∈ s.rows ∧
      ∃ rowKey, tableRowKey shape.row row.1.label? row.2 = some rowKey := by
    intro row hrow
    have hmem : row.1 ∈ s.rows := by
      rw [List.mem_zipIdx_iff_getElem?] at hrow
      exact List.mem_of_getElem? hrow
    have hposition : row.2 < s.rows.length := by
      rw [List.mem_zipIdx_iff_getElem?] at hrow
      exact (List.getElem?_eq_some_iff.mp hrow).1
    exact ⟨hmem, isSome_iff_exists.mp
      (tableRowKey_isSome (hread row.1 hmem).label hfits.height hposition)⟩
  rw [sectionEntries, WrittenSection.cells]
  cases hcolumn : shape.column? with
  | none =>
    have hempty : slice = [] := by
      rw [hshape hcolumn] at hslice
      cases hlabels : s.labels with
      | nil =>
        rw [hlabels] at hslice
        cases hslice
        rfl
      | cons label labels =>
        rw [hlabels] at hslice
        cases hslice
    rw [hempty] at hslice
    rw [List.map_flatMap]
    refine List.flatMap_congr fun row hrow => ?_
    obtain ⟨hmem, rowKey, hkey⟩ := hplace row hrow
    refine lineEntry_cells hcolumn hslice hkey ?_
    rw [hfits.width row.1 hmem, TableShape.width, hcolumn]
  | some column =>
    dsimp only
    rw [hslice, toList_some, List.flatMap_singleton, List.map_flatMap]
    refine List.flatMap_congr fun row hrow => ?_
    obtain ⟨hmem, rowKey, hkey⟩ := hplace row hrow
    refine gridRow_cells hcolumn hslice hkey ?_
    rw [hfits.width row.1 hmem, width_eq_count hcolumn]

/-- A section without rows has no entries. -/
theorem sectionEntries_eq_nil (h : s.rows = []) : sectionEntries g shape s = [] := by
  rw [sectionEntries, h]
  split
  · rfl
  · simp

end Grammar

end ProvenGraphcal.Parser
