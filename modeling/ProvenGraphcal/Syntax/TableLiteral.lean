import ProvenGraphcal.Syntax.TableEntries

/-!
# Which table literals are accepted, and with which entries
-/

namespace ProvenGraphcal.Parser

open Resolve Ast TokenParser

variable {M E : Type} {g : Grammar M E}
variable {entries : List (MapEntry E)} {rest : List Lexeme} {indexes : List TableIndexSpec}
variable {labels : List WrittenLabel} {column : TableIndexSpec} {shape : TableShape}
variable {s : WrittenSection E} {t : WrittenTable E}

namespace Grammar

variable {tokens : List Lexeme}

theorem readSection_eq_ok :
    g.readSection shape labels tokens = .ok (s, rest) ↔
      ∃ mid, g.readHeader shape.column? tokens = .ok (s.header, mid) ∧
        ReadsUntil (endsSection shape) (g.parseRow shape.row (axisSpan shape.row)) s.rows mid
          rest ∧ s.labels = labels := by
  rw [readSection]
  simp only [bind_eq_ok, pure_eq_ok, readRows_eq_ok, Prod.mk.injEq]
  constructor
  · rintro ⟨header, mid, hheader, rows, _, hrows, rfl, rfl⟩
    exact ⟨mid, hheader, hrows, rfl⟩
  · rintro ⟨mid, hheader, hrows, rfl⟩
    exact ⟨s.header, mid, hheader, s.rows, rest, hrows, rfl, rfl⟩

theorem rowRead_of_readSection (h : g.readSection shape labels tokens = .ok (s, rest)) :
    ∀ row ∈ s.rows, RowRead shape.row row := by
  obtain ⟨mid, -, hrows, -⟩ := readSection_eq_ok.mp h
  exact hrows.forall_mem fun _ _ _ => rowRead_of_parseRow

/-- A table with a row axis and a column axis is accepted only if its section fits. -/
theorem section_of_parseTableSingle (shape : TableShape) (labels : List WrittenLabel)
    {slice : List MapEntryKey} (hcolumn : shape.column? = some column)
    (hslice : sliceKeys shape.slices labels = some slice)
    (h : g.parseTableSingle shape.row column slice tokens = .ok (entries, rest)) :
    ∃ s, g.readSection shape labels tokens = .ok (s, rest) ∧
      (∀ row ∈ s.rows, row.values.length = shape.width s.header) ∧
      (∀ cardinality span, shape.row = .finite cardinality span → s.rows.length = cardinality) ∧
      entries = sectionEntries g shape s := by
  have hends : endsSection shape = endsRows := by
    rw [endsSection, hcolumn]
    rfl
  obtain ⟨header, mid, rows, hheader, hrows, hwidth, hheight, rfl⟩ := parseTableSingle_eq_ok h
  refine ⟨⟨labels, header, rows⟩, ?_, fun row hrow => ?_, hheight, ?_⟩
  · rw [readSection_eq_ok, hends, hcolumn]
    exact ⟨mid, hheader, hrows, rfl⟩
  · rw [hwidth row hrow, width_eq_count hcolumn]
  · rw [sectionEntries, hcolumn]
    dsimp only
    rw [hslice, Option.toList_some, List.flatMap_singleton]

theorem section_of_parseTable1d {axis : TableIndexSpec}
    (h : g.parseTable1d axis tokens = .ok (entries, rest)) :
    ∃ s, g.readSection ⟨[], axis, none⟩ [] tokens = .ok (s, rest) ∧
      (∀ row ∈ s.rows, row.values.length = 1) ∧
      (∀ cardinality span, axis = .finite cardinality span → s.rows.length = cardinality) ∧
      entries = sectionEntries g ⟨[], axis, none⟩ s := by
  cases axis with
  | named axis =>
    obtain ⟨rows, hrows, hwidth, rfl⟩ := parseTable1dNamed_eq_ok axis.span h
    exact ⟨⟨[], [], rows⟩, readSection_eq_ok.mpr ⟨tokens, rfl, hrows, rfl⟩, hwidth, nofun, rfl⟩
  | finite n span =>
    obtain ⟨rows, hrows, hwidth, hheight, rfl⟩ := parseTable1dFinite_eq_ok span h
    refine ⟨⟨[], [], rows⟩, readSection_eq_ok.mpr ⟨tokens, rfl, hrows, rfl⟩, hwidth,
      fun _ _ haxis => ?_, rfl⟩
    cases haxis
    exact hheight

theorem consumes_listLabels_read {axes : List TableIndexSpec} (h : axes ≠ []) :
    Consumes (g.listLabels g.readSliceLabel axes) := by
  have hlabel : ∀ axis, Consumes (g.readSliceLabel axis) := by
    intro axis
    cases axis with
    | named axis => exact g.consumes_parseIndexVariantPath.bind fun _ => advances_pure _
    | finite cardinality span =>
      exact (g.consumes_expect .hash).bind fun _ => (g.consumes_expect .number).advances.bind
        fun _ => (advances_ofOption _ _).bind fun _ => advances_pure _
  induction axes with
  | nil => exact absurd rfl h
  | cons axis axes ih =>
    cases axes with
    | nil => exact (hlabel axis).bind fun _ => advances_pure _
    | cons next axes =>
      exact (hlabel axis).bind fun _ => (g.consumes_expect .comma).advances.bind fun _ =>
        (ih (List.cons_ne_nil _ _)).advances.bind fun _ => advances_pure _

theorem advances_readHeader (column? : Option TableIndexSpec) :
    Advances (g.readHeader column?) := by
  cases column? with
  | none => exact advances_pure _
  | some column =>
    cases column with
    | named axis =>
      exact (g.consumes_expect .colon).advances.bind fun _ =>
        (consumes_separated g.consumes_parseAnyIdent).advances.bind fun _ =>
          (g.consumes_expect .semicolon).advances.bind fun _ => advances_pure _
    | finite cardinality span => exact advances_pure _

theorem consumes_readSlice (h : shape.slices ≠ []) :
    Consumes (g.readSlice shape) := by
  refine g.consumes_advance.bind fun _ => (consumes_listLabels_read h).advances.bind fun labels =>
    (g.consumes_expect .rBracket).advances.bind fun _ => ?_
  exact (advances_readHeader _).bind fun _ =>
    (advances_manyUntil (consumes_parseRow _ _) []).bind fun _ => advances_pure _

theorem rowRead_of_readSlice (h : g.readSlice shape tokens = .ok (s, rest)) :
    ∀ row ∈ s.rows, RowRead shape.row row := by
  rw [readSlice] at h
  simp only [bind_eq_ok] at h
  obtain ⟨_, _, -, labels, _, -, _, _, -, hsection⟩ := h
  exact rowRead_of_readSection hsection

theorem tableSlice_eq_ok {next : List (MapEntry E)} (hcolumn : shape.column? = some column)
    (h : g.tableSlice shape.slices shape.row column entries tokens = .ok (next, rest)) :
    ∃ s, g.readSlice shape tokens = .ok (s, rest) ∧ s.Fits shape ∧
      entries ++ sectionEntries g shape s = next := by
  rw [tableSlice] at h
  rw [readSlice]
  simp only [bind_eq_ok] at h ⊢
  obtain ⟨bracket, _, hbracket, slice, _, hkeys, close, _, hclose, sliceEntries, mid, hsingle,
    hcheck⟩ := h
  obtain ⟨labels, hlabels, hslice⟩ :=
    listLabels_eq_ok (fun axis tokens key rest => parseSliceLabel_eq_ok) hkeys
  obtain ⟨s, hread, hwidth, hheight, rfl⟩ :=
    section_of_parseTableSingle shape labels hcolumn hslice hsingle
  cases hentries : sectionEntries g shape s with
  | nil =>
    rw [hentries, List.isEmpty_nil, if_pos rfl, missingTableDataRow, bind_eq_ok] at hcheck
    obtain ⟨_, _, _, hfail⟩ := hcheck
    cases hfail
  | cons entry more =>
    rw [hentries, List.isEmpty_cons, if_neg Bool.false_ne_true] at hcheck
    cases hcheck
    have hlabels' := (readSection_eq_ok.mp hread).choose_spec.2.2
    refine ⟨s, ⟨bracket, _, hbracket, labels, _, hlabels, close, _, hclose, hread⟩, ⟨?_, hwidth,
      hheight, fun _ hrows => ?_⟩, by rw [hentries]⟩
    · rw [hlabels', hslice]
      rfl
    · rw [sectionEntries, hcolumn] at hentries
      rw [hlabels', hslice, hrows] at hentries
      cases hentries

theorem parseTableSliced_eq_ok (shape : TableShape) (hslices : shape.slices ≠ [])
    (hcolumn : shape.column? = some column)
    (h : g.parseTableSliced shape.slices shape.row column tokens = .ok (entries, rest)) :
    ∃ sections, g.readSections shape tokens = .ok (sections, rest) ∧
      (∀ s ∈ sections, s.Fits shape) ∧ entries = sections.flatMap (sectionEntries g shape) := by
  obtain ⟨sections, hread, hfits, rfl⟩ :=
    foldUntil_append (fun _ _ _ _ => tableSlice_eq_ok hcolumn) h
  refine ⟨sections, ?_, hfits, rfl⟩
  rw [readSections, if_neg (by rwa [List.isEmpty_iff])]
  exact hread.manyUntil (consumes_readSlice hslices)

theorem rowRead_of_readSections {sections : List (WrittenSection E)}
    (h : g.readSections shape tokens = .ok (sections, rest)) :
    ∀ s ∈ sections, ∀ row ∈ s.rows, RowRead shape.row row := by
  rw [readSections] at h
  split at h
  · simp only [bind_eq_ok, pure_eq_ok, Prod.mk.injEq] at h
    obtain ⟨s, _, hsection, rfl, -⟩ := h
    exact List.forall_mem_singleton.mpr (rowRead_of_readSection hsection)
  · rename_i hslices
    rw [List.isEmpty_iff] at hslices
    obtain ⟨more, hread, hsections⟩ := (manyUntil_eq_ok (consumes_readSlice hslices)).mp h
    rw [hsections, List.nil_append]
    exact hread.forall_mem fun _ _ _ => rowRead_of_readSlice

/-! ## Tables -/

theorem wellShaped_of (h : TableShape.of indexes = some shape) : WellShaped shape := by
  rw [TableShape.of] at h
  split at h
  · cases h
  · cases h
    exact fun _ => rfl
  · cases h
    exact nofun

/-- One section without labels fits if its rows do. -/
theorem fits_unsliced (hslices : shape.slices = []) (hlabels : s.labels = [])
    (hwidth : ∀ row ∈ s.rows, row.values.length = shape.width s.header)
    (hheight : ∀ cardinality span, shape.row = .finite cardinality span →
      s.rows.length = cardinality) : s.Fits shape := by
  refine ⟨?_, hwidth, hheight, fun hne => absurd hslices hne⟩
  rw [hslices, hlabels]
  rfl

theorem parseTableEntries_eq_ok (hshape : TableShape.of indexes = some shape)
    (h : g.parseTableEntries indexes tokens = .ok (entries, rest)) :
    ∃ sections, g.readSections shape tokens = .ok (sections, rest) ∧
      (∀ s ∈ sections, s.Fits shape) ∧ entries = sections.flatMap (sectionEntries g shape) := by
  have hunsliced : ∀ {shape : TableShape} {s : WrittenSection E}, shape.slices = [] →
      g.readSection shape [] tokens = .ok (s, rest) →
      (∀ row ∈ s.rows, row.values.length = shape.width s.header) →
      (∀ cardinality span, shape.row = .finite cardinality span → s.rows.length = cardinality) →
      ∃ sections, g.readSections shape tokens = .ok (sections, rest) ∧
        (∀ s ∈ sections, s.Fits shape) ∧
        sectionEntries g shape s = sections.flatMap (sectionEntries g shape) := by
    intro shape s hslices hread hwidth hheight
    have hlabels := (readSection_eq_ok.mp hread).choose_spec.2.2
    refine ⟨[s], ?_, List.forall_mem_singleton.mpr (fits_unsliced hslices hlabels hwidth hheight),
      (List.flatMap_singleton _ _).symm⟩
    rw [readSections, hslices, List.isEmpty_nil, if_pos rfl]
    exact bind_eq_ok.mpr ⟨s, rest, hread, rfl⟩
  rw [TableShape.of] at hshape
  rw [parseTableEntries] at h
  split at hshape
  · cases hshape
  · rename_i axis hreverse
    cases hshape
    rw [hreverse] at h
    obtain ⟨s, hread, hwidth, hheight, rfl⟩ := section_of_parseTable1d h
    exact hunsliced rfl hread hwidth hheight
  · rename_i column row slices hreverse
    cases hshape
    rw [hreverse] at h
    cases slices with
    | nil =>
      obtain ⟨s, hread, hwidth, hheight, rfl⟩ :=
        section_of_parseTableSingle ⟨[], row, some column⟩ [] rfl rfl h
      exact hunsliced rfl hread hwidth hheight
    | cons slice slices =>
      have hne : (slice :: slices).reverse ≠ [] :=
        List.reverse_ne_nil_iff.mpr (List.cons_ne_nil _ _)
      exact parseTableSliced_eq_ok ⟨(slice :: slices).reverse, row, some column⟩ hne rfl h

/-- The entries of a table. -/
def tableEntries (g : Grammar M E) (shape : TableShape) (t : WrittenTable E) : List (MapEntry E) :=
  t.sections.flatMap (sectionEntries g shape)

theorem tableEntries_cells (hfits : t.Fits shape)
    (hread : ∀ s ∈ t.sections, ∀ row ∈ s.rows, RowRead shape.row row) :
    (tableEntries g shape t).map entryCell = t.cells shape := by
  rw [tableEntries, WrittenTable.cells, List.map_flatMap]
  exact List.flatMap_congr fun s hs =>
    sectionEntries_cells (wellShaped_of hfits.shaped) (hfits.sections s hs) (hread s hs)

theorem parseTableEntries_of_none {r : List (MapEntry E) × List Lexeme}
    (h : TableShape.of indexes = none) :
    g.parseTableEntries indexes tokens ≠ .ok r := by
  rw [TableShape.of] at h
  rw [parseTableEntries]
  split at h
  · rename_i hreverse
    rw [hreverse]
    exact nofun
  · cases h
  · cases h

theorem parseTableExpr_eq_ok {literal : TableLiteral E}
    (h : g.parseTableExpr tokens = .ok (literal, rest)) :
    ∃ t shape, g.readTable tokens = .ok (t, rest) ∧ t.Fits shape ∧
      literal = ⟨t.indexes, tableEntries g shape t, t.span⟩ := by
  rw [parseTableExpr] at h
  rw [readTable]
  simp only [bind_eq_ok, pure_eq_ok, ofOption_eq_ok, Prod.mk.injEq] at h ⊢
  obtain ⟨start, _, hstart, indexes, _, hindexes, brace, body, hbrace, entries, last, hentries,
    hcheck⟩ := h
  cases hshape : TableShape.of indexes with
  | none => exact absurd hentries (parseTableEntries_of_none hshape)
  | some shape =>
    obtain ⟨sections, hsections, hfits, rfl⟩ := parseTableEntries_eq_ok hshape hentries
    split at hcheck
    · rw [missingTableDataRow, bind_eq_ok] at hcheck
      obtain ⟨_, _, _, hfail⟩ := hcheck
      cases hfail
    · rename_i hempty
      simp only [bind_eq_ok, pure_eq_ok, Prod.mk.injEq] at hcheck
      obtain ⟨close, _, hclose, rfl, rfl⟩ := hcheck
      refine ⟨⟨indexes, sections, start.span.merge close.span⟩, shape,
        ⟨start, _, hstart, indexes, _, hindexes, brace, _, hbrace, shape, _, ⟨hshape, rfl⟩,
          sections, _, hsections, close, _, hclose, rfl, rfl⟩, ⟨hshape, hfits, ?_⟩, rfl⟩
      intro hnamed
      rw [hnamed, Bool.and_true, List.isEmpty_iff, List.flatMap_eq_nil_iff] at hempty
      by_contra hnone
      exact hempty fun s hs => sectionEntries_eq_nil (not_not.mp fun hrows => hnone ⟨s, hs, hrows⟩)

theorem axisKey_positions {α : Type} {items : List α} {cardinality : ℕ} (span : Span)
    (h : items.length = cardinality) :
    (items.zipIdx.map fun item => axisKey (.finite cardinality span) none item.2) =
      positionKeys cardinality := by
  apply List.ext_getElem
  · simp [positionKeys, h]
  · intro i hi _
    have hposition : i < cardinality := by simpa [h] using hi
    simp [positionKeys, axisKey, FinPosition.tryNew, hposition]

theorem numbered_of_fits (h : s.Fits shape) :
    s.Numbered shape where
  rows := fun cardinality span hrow => by
    rw [hrow]
    exact axisKey_positions span (h.height cardinality span hrow)
  columns := fun cardinality span hcolumn row hmem => by
    refine axisKey_positions span ?_
    rw [h.width row hmem, TableShape.width, hcolumn]

theorem rowRead_of_readTable (h : g.readTable tokens = .ok (t, rest)) (hfits : t.Fits shape) :
    ∀ s ∈ t.sections, ∀ row ∈ s.rows, RowRead shape.row row := by
  rw [readTable] at h
  simp only [bind_eq_ok, pure_eq_ok, ofOption_eq_ok, Prod.mk.injEq] at h
  obtain ⟨start, _, -, indexes, _, -, brace, _, -, shape', _, ⟨hshape, rfl⟩, sections, _, hsections,
    close, _, -, rfl, rfl⟩ := h
  cases hshape.symm.trans hfits.shaped
  exact rowRead_of_readSections hsections

/-- The entries of an accepted table are its cells as they are written, under the labels and the
positions of their places; a table with a row of another width is rejected. -/
theorem table_literal_cells (g : Grammar M E) (tokens rest : List Lexeme) :
    (∀ literal, g.parseTableExpr tokens = .ok (literal, rest) →
      ∃ t shape, g.readTable tokens = .ok (t, rest) ∧ t.Fits shape ∧
        literal.indexes = t.indexes ∧ literal.entries.map entryCell = t.cells shape ∧
        ∀ s ∈ t.sections, s.Numbered shape) ∧
    ∀ t shape, g.readTable tokens = .ok (t, rest) → TableShape.of t.indexes = some shape →
      (∃ s ∈ t.sections, ∃ row ∈ s.rows, row.values.length ≠ shape.width s.header) →
      ∃ e, g.parseTableExpr tokens = .error e := by
  constructor
  · intro literal hliteral
    obtain ⟨t, shape, hread, hfits, rfl⟩ := parseTableExpr_eq_ok hliteral
    exact ⟨t, shape, hread, hfits, rfl, tableEntries_cells hfits (rowRead_of_readTable hread hfits),
      fun s hs => numbered_of_fits (hfits.sections s hs)⟩
  · rintro t shape hread hshape ⟨s, hs, row, hrow, hwidth⟩
    cases hparse : g.parseTableExpr tokens with
    | error e => exact ⟨e, rfl⟩
    | ok r =>
      obtain ⟨t', shape', hread', hfits, -⟩ := parseTableExpr_eq_ok hparse
      cases hread.symm.trans hread'
      cases hshape.symm.trans hfits.shaped
      exact absurd ((hfits.sections s hs).width row hrow) hwidth

end Grammar

namespace SecondSlice

/-- Expressions that are one number. -/
def numbers : Grammar Lexeme Lexeme where
  endOfSource := ⟨0, 0⟩
  parseNatExpr := token (fun found => if found.token = .number then some found else none)
    fun _ => ⟨.unexpectedEof .integer, ⟨0, 0⟩⟩
  parseExpr := token (fun found => if found.token = .number then some found else none)
    fun _ => ⟨.unexpectedEof .integer, ⟨0, 0⟩⟩
  exprSpan := Lexeme.span
  parseExpr_consumes := consumes_token _ _

def lexeme (token : Token) (text : String) : Lexeme := ⟨token, text, ⟨0, 0⟩⟩

def fin (cardinality : String) : List Lexeme :=
  [lexeme (.contextualKeyword .fin) "Fin", lexeme .lParen "(", lexeme .number cardinality,
    lexeme .rParen ")"]

/-- `table[Fin(2), Fin(1), Fin(1)] { [#1] 1.0; }` -/
def tokens : List Lexeme :=
  [lexeme .table "table", lexeme .lBracket "["] ++ fin "2" ++ [lexeme .comma ","] ++ fin "1" ++
    [lexeme .comma ","] ++ fin "1" ++ [lexeme .rBracket "]", lexeme .lBrace "\x7b",
    lexeme .lBracket "[", lexeme .hash "#", lexeme .number "1", lexeme .rBracket "]",
    lexeme .number "1.0", lexeme .semicolon ";", lexeme .rBrace "\x7d"]

def at0 (cardinality : ℕ) : TableIndexSpec := .finite cardinality ⟨0, 0⟩

def key (cardinality position : ℕ) (h : position < cardinality) : MapEntryKey :=
  .finite ⟨0, 0⟩ ⟨⟨cardinality, position, h⟩, ⟨0, 0⟩⟩

def literal : TableLiteral Lexeme :=
  ⟨[at0 2, at0 1, at0 1],
    [⟨⟨[key 2 1 (by decide), key 1 0 Nat.one_pos, key 1 0 Nat.one_pos], List.cons_ne_nil _ _⟩,
      lexeme .number "1.0"⟩], ⟨0, 0⟩⟩

theorem accepted : numbers.parseTableExpr tokens = .ok (literal, []) := rfl

end SecondSlice

theorem second_slice_cells :
    ∃ t shape, SecondSlice.numbers.readTable SecondSlice.tokens = .ok (t, []) ∧ t.Fits shape ∧
      SecondSlice.literal.indexes = t.indexes ∧
      SecondSlice.literal.entries.map Grammar.entryCell = t.cells shape ∧
      ∀ s ∈ t.sections, s.Numbered shape :=
  (Grammar.table_literal_cells SecondSlice.numbers SecondSlice.tokens []).1 SecondSlice.literal
    SecondSlice.accepted

/-- The keys of the entries on an axis, each once. -/
def usedKeys (literal : TableLiteral E) (axis : ℕ) : List (Option SpanFreeMapEntryKey) :=
  (literal.entries.map fun entry => (spanFreeKey entry.keys)[axis]?).dedup

/-- A table with only the second of two slices is accepted. -/
theorem second_slice_alone :
    ¬ ∀ literal rest, SecondSlice.numbers.parseTableExpr SecondSlice.tokens = .ok (literal, rest) →
      ∀ axis cardinality span, literal.indexes[axis]? = some (.finite cardinality span) →
        usedKeys literal axis = positionKeys cardinality := by
  intro h
  have hused := h SecondSlice.literal [] SecondSlice.accepted 0 2 ⟨0, 0⟩ rfl
  have hlength := congrArg List.length hused
  exact absurd hlength (by decide)

end ProvenGraphcal.Parser
