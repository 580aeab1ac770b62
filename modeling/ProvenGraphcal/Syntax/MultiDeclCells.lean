import ProvenGraphcal.Syntax.MultiDecl
import ProvenGraphcal.Syntax.TableLiteral

/-!
# The cells of declarations that share a table

The columns of each header are parted among the slots. Each slot's declaration has the cells of its
columns as entries, under the keys of their places.
-/

namespace ProvenGraphcal.Parser

open Resolve Ast TokenParser

variable {M E T U D : Type}

/-- A header with its slice labels and rows. -/
structure WrittenBody (E : Type) where
  labels : List WrittenLabel
  header : List MultiHeaderCell
  rows : List (ParsedRow E)

structure WrittenMulti (T E : Type) where
  headers : AtLeastTwo (SlotHeader T)
  axes : List TableIndexSpec
  slotAxes : List MultiSlotAxis
  bodies : List (WrittenBody E)

/-- The keys under a header cell, of which there are none for a slot without an axis. -/
def slotColumnKey : MultiSlotAxis → Option MultiHeaderCell → Option (List SpanFreeMapEntryKey)
  | .underscore, some (.underscore _) => some []
  | .axis path, some (.variant variant _) => some [.named path.value variant.value]
  | _, _ => none

namespace WrittenBody

variable (axes : MultiDeclSharedAxes) (axis : MultiSlotAxis) (body : WrittenBody E)

/-- The labels of the slice, the label of the row and the label of the column. -/
def keyAt (row : ParsedRow E × ℕ) (column : ℕ) : Option (List SpanFreeMapEntryKey) := do
  let slice ← sliceKeys axes.sliceAxes body.labels
  let rowKey ← axisKey axes.rowAxis (row.1.label?.map Spanned.value) row.2
  let columnKey ← slotColumnKey axis body.header[column]?
  return slice.map MapEntryKey.spanFree ++ rowKey :: columnKey

/-- The cells at some columns with their keys, row by row. -/
def cells (lowerExpr : E → D) (columns : List ℕ) :
    List (Option (List SpanFreeMapEntryKey) × Option D) :=
  body.rows.zipIdx.flatMap fun row => columns.map fun column =>
    (body.keyAt axes axis row column, row.1.values[column]?.map lowerExpr)

structure Fits (slots : List (MultiDeclSlot T)) : Prop where
  labels : (sliceKeys axes.sliceAxes body.labels).isSome
  layout : ∃ layout, layoutColumns slots body.header = .ok layout
  width : ∀ row ∈ body.rows, row.values.length = body.header.length
  height : ∀ cardinality span, axes.rowAxis = .finite cardinality span →
    body.rows.length = cardinality

end WrittenBody

/-- An entry as a cell with its key. -/
def valueCell (entry : MapEntry D) : Option (List SpanFreeMapEntryKey) × Option D :=
  (some (spanFreeKey entry.keys), some entry.value)

theorem items_entryKeys (prefixKeys : List MapEntryKey) (row : MapEntryKey)
    (extra : Option MapEntryKey) :
    (entryKeys prefixKeys row extra).items = prefixKeys ++ row :: extra.toList := by
  cases prefixKeys with
  | nil => rfl
  | cons first rest => rfl

/-- The cell of a stored row at a column. -/
def storedCell (lowerExpr : E → D) (slice : MultiDeclSlice E) (axis : MultiSlotAxis)
    (row : MultiDataRow E) (column : ℕ) : Option (List SpanFreeMapEntryKey) × Option D :=
  ((slotColumnKey axis slice.headerCells[column]?).map fun key =>
    slice.prefixKeys.map MapEntryKey.spanFree ++ row.rowKey.spanFree :: key,
    row.values[column]?.map lowerExpr)

variable {lowerExpr : E → D} {row : MultiDataRow E} {slice : MultiDeclSlice E}

theorem columnEntry_cell {path : Spanned (NamePath String)} {column : ℕ} {variant : Spanned String}
    {span : Span} (hcell : slice.headerCells[column]? = some (.variant variant span))
    (hwidth : row.values.length = slice.headerCells.length) :
    ∃ entry, columnEntry lowerExpr slice path row column = some entry ∧
      entry.map valueCell = some (storedCell lowerExpr slice (.axis path) row column) := by
  have hcolumn : column < row.values.length := by
    rw [hwidth]
    exact (List.getElem?_eq_some_iff.mp hcell).1
  have hvalue := List.getElem?_eq_getElem hcolumn
  refine ⟨_, by rw [columnEntry, hcell]; dsimp only [bind, Option.bind]; rw [hvalue]; rfl, ?_⟩
  rw [storedCell, hcell, hvalue, Option.map_some, valueCell, spanFreeKey, items_entryKeys,
    List.map_append]
  rfl

variable {span : MultiSlotColumnSpan}

/-- A row has its cells at the columns of a slot as entries. -/
theorem rowEntries_cells {axis : MultiSlotAxis} (hlaid : LaidOut slice.headerCells axis span)
    (hwidth : row.values.length = slice.headerCells.length) :
    ∃ entries, rowEntries lowerExpr slice row span = some entries ∧
      entries.map valueCell = span.columns.map (storedCell lowerExpr slice axis row) := by
  cases axis with
  | underscore =>
    obtain ⟨column, rfl, cellSpan, hcell⟩ := hlaid
    have hcolumn : column < row.values.length := by
      rw [hwidth]
      exact (List.getElem?_eq_some_iff.mp hcell).1
    have hvalue := List.getElem?_eq_getElem hcolumn
    refine ⟨_, by rw [rowEntries, hvalue]; rfl, ?_⟩
    rw [MultiSlotColumnSpan.columns, List.map_singleton, List.map_singleton, storedCell, hcell,
      hvalue, valueCell, spanFreeKey, items_entryKeys, List.map_append]
    rfl
  | axis path =>
    obtain ⟨start, stop, rfl, hlt, hvariants⟩ := hlaid
    obtain ⟨entries, hentries, hmap⟩ := Checked.exists_mapM_some_map
      (f := columnEntry lowerExpr slice path row) (u := Option.map valueCell)
      (v := fun column => some (storedCell lowerExpr slice (.axis path) row column))
      (l := List.range' start (stop - start)) fun column hmem => by
        rw [List.mem_range'_1] at hmem
        obtain ⟨variant, cellSpan, hcell⟩ := hvariants column hmem.1 (by omega)
        exact columnEntry_cell hcell hwidth
    refine ⟨entries.reduceOption, by rw [rowEntries, hentries]; rfl, ?_⟩
    rw [← List.reduceOption_map, hmap, MultiSlotColumnSpan.columns]
    simp [List.reduceOption, List.filterMap_map]

variable {i : ℕ}

theorem slotEntries_cells (lowerExpr : E → D) (slice : MultiDeclSlice E) {axis : MultiSlotAxis}
    (hspan : slice.columnLayout[i]? = some span) (hlaid : LaidOut slice.headerCells axis span)
    (hwidth : ∀ row ∈ slice.rows, row.values.length = slice.headerCells.length) :
    ∃ entries, slotEntries lowerExpr slice i = some entries ∧
      entries.map valueCell = slice.rows.flatMap fun row =>
        (layoutColumnsAt slice.columnLayout i).map (storedCell lowerExpr slice axis row) := by
  obtain ⟨entries, hentries, hmap⟩ := Checked.exists_mapM_some_map
    (f := fun row => rowEntries lowerExpr slice row span) (u := List.map valueCell)
    (v := fun row => span.columns.map (storedCell lowerExpr slice axis row))
    (l := slice.rows) fun row hrow => rowEntries_cells hlaid (hwidth row hrow)
  have hslot : slotEntries lowerExpr slice i = some entries.flatten := by
    rw [slotEntries, hspan]
    dsimp only [bind, Option.bind]
    rw [hentries]
    rfl
  refine ⟨entries.flatten, hslot, ?_⟩
  rw [List.map_flatten, hmap, ← List.flatMap_def, layoutColumnsAt, hspan]
  rfl

variable {bodies : List (WrittenBody E)} {rest : List Lexeme} {labels : List WrittenLabel}
variable {headerSpan : Span} {rowAxis : TableIndexSpec}

namespace DeclGrammar

variable (g : DeclGrammar M E T)

def readBody (rowAxis : TableIndexSpec) (labels : List WrittenLabel) :
    Parse M (WrittenBody E) := do
  let (header, headerSpan) ← g.parseMultiHeaderRow
  let rows ← manyUntil g.stuck endsRows (g.parseRow rowAxis headerSpan) []
  return ⟨labels, header, rows⟩

def readLabelledBody (axes : MultiDeclSharedAxes) : Parse M (WrittenBody E) := do
  let _ ← g.advance
  let labels ← g.listLabels g.readSliceLabel axes.sliceAxes
  let _ ← g.expect .rBracket
  g.readBody axes.rowAxis labels

def readBodies (axes : MultiDeclSharedAxes) : Parse M (List (WrittenBody E)) :=
  if axes.sliceAxes.isEmpty then do return [← g.readBody axes.rowAxis []]
  else manyUntil g.stuck (fun tokens => !headIs .lBracket tokens) (g.readLabelledBody axes) []

def readMulti (firstSlot : SlotHeader T) : Parse M (WrittenMulti T E) := do
  let headers ← g.parseSlotHeaders firstSlot
  let _ ← g.expect .eq
  let _ ← g.expect .table
  let _ ← g.expect .lBracket
  let axes ← g.parseSharedAxes
  let (slotAxes, _) ← g.parseSlotTuple
  let _ ← g.expect .rBracket
  let sharedAxes ← ofOption (MultiDeclSharedAxes.tryFromVec axes) g.stuck
  let _ ← g.expect .lBrace
  let bodies ← g.readBodies sharedAxes
  let _ ← g.expect .rBrace
  let _ ← g.expect .semicolon
  return ⟨headers, axes, slotAxes, bodies⟩

/-! ## Accepted bodies -/

variable {g} {slots : List (MultiDeclSlot T)} {axes : MultiDeclSharedAxes}

/-- A row as it is stored, if it has a key. -/
def storedRow (axis : TableIndexSpec) (position : ℕ) (row : ParsedRow E) : List (MultiDataRow E) :=
  (multiRowKey axis position row).toList.map fun rowKey => ⟨rowKey, row.values⟩

/-- The slice of a body that fits. -/
def bodySlice (slots : List (MultiDeclSlot T)) (axes : MultiDeclSharedAxes)
    (body : WrittenBody E) : MultiDeclSlice E where
  prefixKeys := (sliceKeys axes.sliceAxes body.labels).getD []
  headerCells := body.header
  columnLayout := (layoutColumns slots body.header).toOption.getD []
  rows := body.rows.zipIdx.flatMap fun row => storedRow axes.rowAxis row.2 row.1

variable {axis : TableIndexSpec}

theorem addMultiRow_eq_ok {state next : List (MultiDataRow E) × ℕ} {row : ParsedRow E}
    (h : addMultiRow (M := M) axis slice state row = .ok next) :
    row.values.length = slice.headerCells.length ∧
      (state.1 ++ storedRow axis state.2 row, state.2 + 1) = next := by
  rw [addMultiRow] at h
  rw [storedRow]
  cases hkey : multiRowKey axis state.2 row with
  | none =>
    rw [hkey] at h
    dsimp only at h
    split at h
    · cases h
    · rename_i hwidth
      cases h
      rw [Option.toList_none, List.map_nil, List.append_nil]
      exact ⟨not_not.mp hwidth, rfl⟩
  | some rowKey =>
    rw [hkey] at h
    dsimp only at h
    rw [MultiDeclSlice.pushRow] at h
    split at h
    · rename_i hpush
      cases h
      split at hpush
      · cases hpush
      · rename_i hwidth
        cases hpush
        exact ⟨not_not.mp hwidth, rfl⟩
    · cases h

variable {tokens : List Lexeme}

theorem multiRow_eq_ok {state next : List (MultiDataRow E) × ℕ}
    (h : g.multiRow axis headerSpan slice state tokens = .ok (next, rest)) :
    ∃ row, g.parseRow axis headerSpan tokens = .ok (row, rest) ∧
      row.values.length = slice.headerCells.length ∧
      (state.1 ++ storedRow axis state.2 row, state.2 + 1) = next := by
  obtain ⟨row, mid, hrow, hlift⟩ := bind_eq_ok.mp h
  obtain ⟨hadd, hrest⟩ := lift_eq_ok.mp hlift
  cases hrest
  exact ⟨row, hrow, addMultiRow_eq_ok hadd⟩

variable {body : WrittenBody E}

theorem readBody_eq_ok :
    g.readBody rowAxis labels tokens = .ok (body, rest) ↔
      ∃ headerSpan mid, g.parseMultiHeaderRow tokens = .ok ((body.header, headerSpan), mid) ∧
        ReadsUntil endsRows (g.parseRow rowAxis headerSpan) body.rows mid rest ∧
        body.labels = labels := by
  rw [readBody]
  simp only [bind_eq_ok, pure_eq_ok, manyUntil_eq_ok (Grammar.consumes_parseRow _ _),
    List.nil_append, Prod.mk.injEq]
  constructor
  · rintro ⟨⟨header, headerSpan⟩, mid, hheader, _, _, ⟨rows, hrows, rfl⟩, rfl, rfl⟩
    exact ⟨headerSpan, mid, hheader, hrows, rfl⟩
  · rintro ⟨headerSpan, mid, hheader, hrows, rfl⟩
    exact ⟨(body.header, headerSpan), mid, hheader, body.rows, rest, ⟨body.rows, hrows, rfl⟩, rfl,
      rfl⟩

/-- A body is accepted only if it fits, as its slice. -/
theorem parseMultiSliceBody_eq_ok {keys : List MapEntryKey}
    (hkeys : sliceKeys axes.sliceAxes labels = some keys)
    (h : g.parseMultiSliceBody slots keys axes.rowAxis tokens = .ok (slice, rest)) :
    ∃ body, g.readBody axes.rowAxis labels tokens = .ok (body, rest) ∧ body.Fits axes slots ∧
      slice = bodySlice slots axes body := by
  rw [parseMultiSliceBody] at h
  simp only [bind_eq_ok, lift_eq_ok] at h
  obtain ⟨⟨header, headerSpan⟩, _, hheader, begun, mid, ⟨hbegin, rfl⟩, _, last, hloop, hcheck⟩ := h
  obtain ⟨rows, hrows, hwidth, rfl⟩ := foldUntil_numbered (fun _ _ _ _ => multiRow_eq_ok) hloop
  rw [Checked.mapError_eq_ok, beginSlice, Checked.bind_eq_ok] at hbegin
  obtain ⟨layout, hlayout, hbegun⟩ := hbegin
  cases hbegun
  have hslice : bodySlice slots axes ⟨labels, header, rows⟩ = ⟨keys, header, layout,
      rows.zipIdx.flatMap fun row => storedRow axes.rowAxis row.2 row.1⟩ := by
    rw [bodySlice, hkeys, hlayout]
    rfl
  have hlabels : (sliceKeys axes.sliceAxes labels).isSome := by
    rw [hkeys]
    rfl
  refine ⟨⟨labels, header, rows⟩, ?_⟩
  rw [hslice, readBody_eq_ok]
  cases haxis : axes.rowAxis with
  | named axis =>
    rw [haxis] at hrows hcheck
    cases hcheck
    refine ⟨⟨headerSpan, mid, hheader, hrows, rfl⟩, ⟨hlabels, ⟨layout, hlayout⟩, hwidth, ?_⟩, rfl⟩
    rw [haxis]
    intro n span heq
    cases heq
  | finite cardinality span =>
    rw [haxis] at hrows hcheck
    dsimp only at hcheck
    split at hcheck
    · rename_i hcount
      cases hcheck
      refine ⟨⟨headerSpan, mid, hheader, hrows, rfl⟩,
        ⟨hlabels, ⟨layout, hlayout⟩, hwidth, fun n span' heq => ?_⟩, rfl⟩
      rw [haxis] at heq
      cases heq
      exact hcount
    · cases hcheck

theorem consumes_parseHeaderCell : Consumes g.parseHeaderCell := by
  refine advances_remaining.bind_consumes fun tokens => ?_
  split
  · exact g.consumes_advance.bind fun _ => advances_pure _
  · split
    · exact g.consumes_parseAnyIdent.bind fun _ => advances_pure _
    · exact g.consumes_advance.bind fun _ => advances_fail _

theorem consumes_readBody (rowAxis : TableIndexSpec) (labels : List WrittenLabel) :
    Consumes (g.readBody rowAxis labels) := by
  have hheader : Consumes g.parseMultiHeaderRow :=
    (g.consumes_expect .colon).bind fun _ =>
      (consumes_separated consumes_parseHeaderCell).advances.bind fun _ =>
        (g.consumes_expect .semicolon).advances.bind fun _ => advances_pure _
  exact hheader.bind fun _ =>
    (advances_manyUntil (Grammar.consumes_parseRow _ _) []).bind fun _ => advances_pure _

theorem consumes_readLabelledBody (hslices : axes.sliceAxes ≠ []) :
    Consumes (g.readLabelledBody axes) :=
  g.consumes_advance.bind fun _ => (Grammar.consumes_listLabels_read hslices).advances.bind
    fun _ => (g.consumes_expect .rBracket).advances.bind fun _ => (consumes_readBody _ _).advances

theorem multiSlice_eq_ok {slices next : List (MultiDeclSlice E)}
    (h : g.multiSlice slots axes slices tokens = .ok (next, rest)) :
    ∃ body, g.readLabelledBody axes tokens = .ok (body, rest) ∧ body.Fits axes slots ∧
      slices ++ [bodySlice slots axes body] = next := by
  rw [multiSlice] at h
  rw [readLabelledBody]
  simp only [bind_eq_ok, pure_eq_ok, Prod.mk.injEq] at h ⊢
  obtain ⟨bracket, _, hbracket, keys, _, hlist, close, _, hclose, slice, _, hslice, rfl, rfl⟩ := h
  obtain ⟨labels, hlabels, hkeys⟩ :=
    Grammar.listLabels_eq_ok (fun axis tokens key rest => Grammar.parseSliceLabel_eq_ok) hlist
  obtain ⟨body, hbody, hfits, rfl⟩ := parseMultiSliceBody_eq_ok hkeys hslice
  exact ⟨body, ⟨bracket, _, hbracket, labels, _, hlabels, close, _, hclose, hbody⟩, hfits, rfl⟩

/-- The slices of an accepted declaration are those of its bodies, which fit. -/
theorem bodies_of_parseSlices {tableSpan : Span} {slices : List (MultiDeclSlice E)}
    (h : g.parseSlices slots axes tableSpan tokens = .ok (slices, rest)) :
    ∃ bodies, g.readBodies axes tokens = .ok (bodies, rest) ∧
      (∀ body ∈ bodies, body.Fits axes slots) ∧ slices = bodies.map (bodySlice slots axes) := by
  rw [parseSlices] at h
  rw [readBodies]
  by_cases hslices : axes.sliceAxes = []
  · have hkeys : sliceKeys axes.sliceAxes [] = some [] := by
      rw [hslices]
      rfl
    rw [if_pos (List.isEmpty_iff.mpr hslices)] at h ⊢
    simp only [bind_eq_ok, pure_eq_ok, Prod.mk.injEq] at h ⊢
    obtain ⟨slice, _, hslice, rfl, rfl⟩ := h
    obtain ⟨body, hbody, hfits, rfl⟩ := parseMultiSliceBody_eq_ok hkeys hslice
    exact ⟨[body], ⟨body, _, hbody, rfl, rfl⟩, List.forall_mem_singleton.mpr hfits, rfl⟩
  · rw [if_neg (by rwa [List.isEmpty_iff])] at h ⊢
    obtain ⟨read, mid, hloop, hcheck⟩ := bind_eq_ok.mp h
    obtain ⟨bodies, hbodies, hfits, rfl⟩ :=
      foldUntil_append (fun _ _ _ _ => multiSlice_eq_ok) hloop
    split at hcheck
    · obtain ⟨_, _, _, hfail⟩ := bind_eq_ok.mp hcheck
      cases hfail
    · cases hcheck
      refine ⟨bodies, hbodies.manyUntil (consumes_readLabelledBody hslices), hfits, ?_⟩
      rw [← List.map_eq_flatMap]

theorem multiRowKey_spanFree (axis : TableIndexSpec) (position : ℕ) (row : ParsedRow E) :
    (multiRowKey axis position row).map MapEntryKey.spanFree =
      axisKey axis (row.label?.map Spanned.value) position := by
  cases axis with
  | named axis =>
    rw [multiRowKey, axisKey, Option.map_map, Option.map_map]
    rfl
  | finite cardinality span =>
    rw [multiRowKey, axisKey, Option.map_map]
    rfl

/-- Each row of a body that fits has a key. -/
theorem exists_multiRowKey (hfits : body.Fits axes slots)
    (hread : ∀ row ∈ body.rows, Grammar.RowRead axes.rowAxis row) {row : ParsedRow E × ℕ}
    (hrow : row ∈ body.rows.zipIdx) :
    ∃ rowKey, multiRowKey axes.rowAxis row.2 row.1 = some rowKey := by
  rw [List.mem_zipIdx_iff_getElem?] at hrow
  have hlabel := (hread row.1 (List.mem_of_getElem? hrow)).label
  have hposition := (List.getElem?_eq_some_iff.mp hrow).1
  cases haxis : axes.rowAxis with
  | named axis =>
    rw [haxis] at hlabel
    obtain ⟨label, hlabel⟩ := Option.isSome_iff_exists.mp (hlabel rfl)
    exact ⟨_, by rw [multiRowKey, hlabel]; rfl⟩
  | finite cardinality span =>
    rw [hfits.height cardinality span haxis] at hposition
    exact ⟨_, by rw [multiRowKey, FinPosition.tryNew, dif_pos hposition]; rfl⟩

/-- The stored rows hold the cells of the body. -/
theorem bodySlice_cells (lowerExpr : E → D) (hfits : body.Fits axes slots)
    (hread : ∀ row ∈ body.rows, Grammar.RowRead axes.rowAxis row) (axis : MultiSlotAxis)
    (columns : List ℕ) :
    ((bodySlice slots axes body).rows.flatMap fun row =>
        columns.map (storedCell lowerExpr (bodySlice slots axes body) axis row)) =
      body.cells axes axis lowerExpr columns := by
  obtain ⟨keys, hkeys⟩ := Option.isSome_iff_exists.mp hfits.labels
  have hprefix : (bodySlice slots axes body).prefixKeys = keys := by
    rw [bodySlice, hkeys]
    rfl
  have hrows : (bodySlice slots axes body).rows =
      body.rows.zipIdx.flatMap fun row => storedRow axes.rowAxis row.2 row.1 := rfl
  rw [hrows, WrittenBody.cells, List.flatMap_assoc]
  refine List.flatMap_congr fun row hrow => ?_
  obtain ⟨rowKey, hkey⟩ := exists_multiRowKey hfits hread hrow
  have hfree := multiRowKey_spanFree axes.rowAxis row.2 row.1
  rw [hkey, Option.map_some] at hfree
  rw [storedRow, hkey, Option.toList_some, List.map_singleton, List.flatMap_singleton]
  refine List.map_congr_left fun column _ => ?_
  rw [storedCell, hprefix, WrittenBody.keyAt, hkeys, ← hfree]
  cases hcolumn : slotColumnKey axis body.header[column]? with
  | none =>
    have hcell : slotColumnKey axis (bodySlice slots axes body).headerCells[column]? = none :=
      hcolumn
    rw [hcell]
    rfl
  | some key =>
    have hcell : slotColumnKey axis (bodySlice slots axes body).headerCells[column]? = some key :=
      hcolumn
    rw [hcell]
    rfl

/-- The columns of a slot in a body. -/
def bodyColumns (slots : List (MultiDeclSlot T)) (body : WrittenBody E) : ℕ → List ℕ :=
  layoutColumnsAt ((layoutColumns slots body.header).toOption.getD [])

theorem slotColumns_bodyColumns (hfits : body.Fits axes slots) :
    SlotColumns slots body.header (bodyColumns slots body) := by
  obtain ⟨layout, hlayout⟩ := hfits.layout
  rw [bodyColumns, hlayout]
  exact slotColumns_of_layout hlayout

theorem slotEntries_bodySlice (lowerExpr : E → D) (hfits : body.Fits axes slots)
    (hread : ∀ row ∈ body.rows, Grammar.RowRead axes.rowAxis row) {slot : MultiDeclSlot T}
    (hslot : slots[i]? = some slot) :
    ∃ entries, slotEntries lowerExpr (bodySlice slots axes body) i = some entries ∧
      entries.map valueCell = body.cells axes slot.axis lowerExpr (bodyColumns slots body i) := by
  obtain ⟨layout, hlayout⟩ := hfits.layout
  obtain ⟨span, hspan, hlaid⟩ := laidOut_getElem? (layoutColumns_eq_ok hlayout).1 hslot
  have hcolumns : (bodySlice slots axes body).columnLayout = layout := by
    rw [bodySlice, hlayout]
    rfl
  have hwidth : ∀ row ∈ (bodySlice slots axes body).rows,
      row.values.length = (bodySlice slots axes body).headerCells.length := by
    intro row hrow
    obtain ⟨written, hwritten, hstored⟩ := List.mem_flatMap.mp hrow
    obtain ⟨rowKey, _, rfl⟩ := List.mem_map.mp hstored
    rw [List.mem_zipIdx_iff_getElem?] at hwritten
    exact hfits.width written.1 (List.mem_of_getElem? hwritten)
  obtain ⟨entries, hentries, hcells⟩ := slotEntries_cells lowerExpr
    (bodySlice slots axes body) (hcolumns ▸ hspan) hlaid hwidth
  exact ⟨entries, hentries, hcells.trans (bodySlice_cells lowerExpr hfits hread slot.axis _)⟩

/-! ## Declarations -/

theorem rowRead_of_readBody (h : g.readBody rowAxis labels tokens = .ok (body, rest)) :
    ∀ row ∈ body.rows, Grammar.RowRead rowAxis row := by
  obtain ⟨_, _, _, hrows, _⟩ := readBody_eq_ok.mp h
  exact hrows.forall_mem fun _ _ _ => Grammar.rowRead_of_parseRow

theorem rowRead_of_readBodies (h : g.readBodies axes tokens = .ok (bodies, rest)) :
    ∀ body ∈ bodies, ∀ row ∈ body.rows, Grammar.RowRead axes.rowAxis row := by
  rw [readBodies] at h
  split at h
  · simp only [bind_eq_ok, pure_eq_ok, Prod.mk.injEq] at h
    obtain ⟨body, _, hbody, rfl, -⟩ := h
    exact List.forall_mem_singleton.mpr (rowRead_of_readBody hbody)
  · rename_i hslices
    rw [List.isEmpty_iff] at hslices
    obtain ⟨more, hread, hbodies⟩ := (manyUntil_eq_ok (consumes_readLabelledBody hslices)).mp h
    rw [hbodies, List.nil_append]
    refine hread.forall_mem fun _ body _ hbody => ?_
    simp only [readLabelledBody, bind_eq_ok] at hbody
    obtain ⟨_, _, _, _, _, _, _, _, _, hbody⟩ := hbody
    exact rowRead_of_readBody hbody

/-- The declaration of a slot, whose entries are the cells of its columns. -/
structure DeclaresCells (lowerType : T → U) (lowerExpr : E → D) (multi : MultiDecl T E)
    (bodies : List (WrittenBody E)) (columns : WrittenBody E → ℕ → List ℕ)
    (slot : MultiDeclSlot T × ℕ) (decl : ValueDeclaration U D) : Prop where
  kind : decl.kind = .of slot.1.kind slot.1.name (lowerType slot.1.typeAnn) decl.kind.value
    multi.tableExprSpan
  entries : decl.kind.value.entries.map valueCell = bodies.flatMap fun body =>
    body.cells multi.sharedAxes slot.1.axis lowerExpr (columns body slot.2)

theorem value_of (kind : SlotKind) (name : Spanned String) (typeAnn : U) (value : MapLiteral D)
    (span : Span) : (ValueDecl.of kind name typeAnn value span).value = value := by
  cases kind <;> rfl

variable {multi : MultiDecl T E}

theorem expandSlot_cells (lowerType : T → U) (lowerExpr : E → D)
    (hslices : multi.slices = bodies.map (bodySlice multi.slots.items multi.sharedAxes))
    (hfits : ∀ body ∈ bodies, body.Fits multi.sharedAxes multi.slots.items)
    (hread : ∀ body ∈ bodies, ∀ row ∈ body.rows, Grammar.RowRead multi.sharedAxes.rowAxis row)
    {slot : MultiDeclSlot T × ℕ} (hslot : multi.slots.items[slot.2]? = some slot.1) :
    ∃ decl, expandSlot lowerType lowerExpr multi slot = some decl ∧
      DeclaresCells lowerType lowerExpr multi bodies (bodyColumns multi.slots.items) slot decl := by
  obtain ⟨entries, hentries, hcells⟩ := Checked.exists_mapM_some_map
    (f := fun body =>
      slotEntries lowerExpr (bodySlice multi.slots.items multi.sharedAxes body) slot.2)
    (u := List.map valueCell) (l := bodies) fun body hbody =>
      slotEntries_bodySlice lowerExpr (hfits body hbody) (hread body hbody) hslot
  have hexpand : expandSlot lowerType lowerExpr multi slot =
      some ⟨.of slot.1.kind slot.1.name (lowerType slot.1.typeAnn)
        ⟨entries.flatten, multi.tableExprSpan⟩ multi.tableExprSpan,
        slot.1.headerSpan.merge multi.span, slot.1.doc⟩ := by
    rw [expandSlot, hslices, List.mapM_map]
    dsimp only [Function.comp_def]
    rw [hentries]
    rfl
  refine ⟨_, hexpand, ?_, ?_⟩
  · rw [value_of]
  · rw [value_of, List.map_flatten, hcells, List.flatMap_def]

theorem expandMultiDecl_cells (lowerType : T → U) (lowerExpr : E → D)
    (hslices : multi.slices = bodies.map (bodySlice multi.slots.items multi.sharedAxes))
    (hfits : ∀ body ∈ bodies, body.Fits multi.sharedAxes multi.slots.items)
    (hread : ∀ body ∈ bodies, ∀ row ∈ body.rows, Grammar.RowRead multi.sharedAxes.rowAxis row) :
    ∃ decls, expandMultiDecl lowerType lowerExpr multi = some decls ∧
      List.Forall₂ (DeclaresCells lowerType lowerExpr multi bodies (bodyColumns multi.slots.items))
        multi.slots.items.zipIdx decls :=
  Checked.mapM_some_forall₂ fun _ hslot =>
    expandSlot_cells lowerType lowerExpr hslices hfits hread (List.mem_zipIdx_iff_getElem?.mp hslot)

/-- An accepted declaration is the written one, whose bodies fit. -/
theorem written_of_parseMultiDeclRest {first : SlotHeader T}
    (h : g.parseMultiDeclRest first tokens = .ok (multi, rest)) :
    ∃ w, g.readMulti first tokens = .ok (w, rest) ∧
      zipExact w.headers w.slotAxes = some multi.slots ∧
      MultiDeclSharedAxes.tryFromVec w.axes = some multi.sharedAxes ∧
      (∀ body ∈ w.bodies, body.Fits multi.sharedAxes multi.slots.items) ∧
      (∀ body ∈ w.bodies, ∀ row ∈ body.rows, Grammar.RowRead multi.sharedAxes.rowAxis row) ∧
      multi.slices = w.bodies.map (bodySlice multi.slots.items multi.sharedAxes) := by
  rw [parseMultiDeclRest] at h
  simp only [bind_eq_ok, ofOption_eq_ok] at h
  obtain ⟨headers, _, hheaders, eq, _, heq, table, _, htable, bracket, _, hbracket, axes, _, haxes,
    ⟨slotAxes, tupleSpan⟩, _, htuple, slots, _, ⟨hslots, rfl⟩, close, _, hclose, sharedAxes, _,
    ⟨hshared, rfl⟩, h⟩ := h
  cases hextra : (slots.items.filterMap extraAxisSpan)[1]? with
  | some span =>
    rw [hextra] at h
    cases h
  | none =>
    rw [hextra] at h
    simp only [bind_eq_ok, pure_eq_ok, Prod.mk.injEq] at h
    obtain ⟨brace, _, hbrace, slices, _, hslices, closing, _, hclosing, semicolon, _, hsemicolon,
      rfl, rfl⟩ := h
    obtain ⟨bodies, hbodies, hfits, rfl⟩ := bodies_of_parseSlices hslices
    refine ⟨⟨headers, axes, slotAxes, bodies⟩, ?_, hslots, hshared, hfits,
      rowRead_of_readBodies hbodies, rfl⟩
    rw [readMulti]
    simp only [bind_eq_ok, ofOption_eq_ok, pure_eq_ok, Prod.mk.injEq]
    exact ⟨headers, _, hheaders, eq, _, heq, table, _, htable, bracket, _, hbracket, axes, _, haxes,
      (slotAxes, tupleSpan), _, htuple, close, _, hclose, sharedAxes, _, ⟨hshared, rfl⟩, brace, _,
      hbrace, bodies, _, hbodies, closing, _, hclosing, semicolon, _, hsemicolon, rfl, rfl⟩

/-- The columns of each header of an accepted declaration are parted among the slots, and each slot
becomes a declaration whose entries are the cells of its columns; indices stay in range. -/
theorem multi_declaration_cells (g : DeclGrammar M E T) (lowerType : T → U) (lowerExpr : E → D)
    {first : SlotHeader T} {multi : MultiDecl T E} {tokens rest : List Lexeme}
    (h : g.parseMultiDeclRest first tokens = .ok (multi, rest)) :
    ∃ w columns decls, g.readMulti first tokens = .ok (w, rest) ∧
      zipExact w.headers w.slotAxes = some multi.slots ∧
      MultiDeclSharedAxes.tryFromVec w.axes = some multi.sharedAxes ∧
      (∀ body ∈ w.bodies, SlotColumns multi.slots.items body.header (columns body) ∧
        (∀ row ∈ body.rows, row.values.length = body.header.length) ∧
        ∀ column < body.header.length,
          ∃! i, i < multi.slots.items.length ∧ column ∈ columns body i) ∧
      expandMultiDecl lowerType lowerExpr multi = some decls ∧
      List.Forall₂ (DeclaresCells lowerType lowerExpr multi w.bodies columns)
        multi.slots.items.zipIdx decls ∧
      ∀ header, layoutColumns multi.slots.items header ≠ .error .indexOutOfRange := by
  obtain ⟨w, hread, hslots, haxes, hfits, hrows, hslices⟩ := written_of_parseMultiDeclRest h
  obtain ⟨decls, hexpand, hcells⟩ := expandMultiDecl_cells lowerType lowerExpr hslices hfits hrows
  refine ⟨w, bodyColumns multi.slots.items, decls, hread, hslots, haxes, fun body hbody => ?_,
    hexpand, hcells, layoutColumns_ne_indexOutOfRange multi.slots.items⟩
  have hcolumns := slotColumns_bodyColumns (hfits body hbody)
  exact ⟨hcolumns, (hfits body hbody).width, fun column => hcolumns.existsUnique⟩

end DeclGrammar

namespace SharedTable

/-- Types that are one name. -/
def names : DeclGrammar Lexeme Lexeme Lexeme where
  toGrammar := SecondSlice.numbers
  parseTypeExpr := token (fun found => if found.token = .ident then some found else none)
    fun _ => ⟨.unexpectedEof .identifier, ⟨0, 0⟩⟩
  typeSpan := Lexeme.span
  parseTypeExpr_advances := (consumes_token _ _).advances

def spanned (name : String) : Spanned String := ⟨name, ⟨0, 0⟩⟩

def path (name : String) : Spanned (NamePath String) := ⟨⟨[], name⟩, ⟨0, 0⟩⟩

def ident (name : String) : Lexeme := SecondSlice.lexeme .ident name

def first : SlotHeader Lexeme := ⟨.param, ⟨0, 0⟩, spanned "a", ident "T", ⟨0, 0⟩⟩

/-- `, node b: U = table[I, (_, J)] { : _, X; R: 1, 2; };` -/
def tokens : List Lexeme :=
  [SecondSlice.lexeme .comma ",", SecondSlice.lexeme .node "node", ident "b",
    SecondSlice.lexeme .colon ":", ident "U", SecondSlice.lexeme .eq "=",
    SecondSlice.lexeme .table "table", SecondSlice.lexeme .lBracket "[", ident "I",
    SecondSlice.lexeme .comma ",", SecondSlice.lexeme .lParen "(",
    SecondSlice.lexeme .underscore "_", SecondSlice.lexeme .comma ",", ident "J",
    SecondSlice.lexeme .rParen ")", SecondSlice.lexeme .rBracket "]",
    SecondSlice.lexeme .lBrace "\x7b", SecondSlice.lexeme .colon ":",
    SecondSlice.lexeme .underscore "_", SecondSlice.lexeme .comma ",", ident "X",
    SecondSlice.lexeme .semicolon ";", ident "R", SecondSlice.lexeme .colon ":",
    SecondSlice.lexeme .number "1", SecondSlice.lexeme .comma ",", SecondSlice.lexeme .number "2",
    SecondSlice.lexeme .semicolon ";", SecondSlice.lexeme .rBrace "\x7d",
    SecondSlice.lexeme .semicolon ";"]

def multi : MultiDecl Lexeme Lexeme where
  slots := ⟨[⟨.param, spanned "a", ident "T", .underscore, none, ⟨0, 0⟩⟩,
    ⟨.node .priv, spanned "b", ident "U", .axis (path "J"), none, ⟨0, 0⟩⟩], by decide⟩
  sharedAxes := ⟨[], .named (path "I")⟩
  slices := [⟨[], [.underscore ⟨0, 0⟩, .variant (spanned "X") ⟨0, 0⟩],
    [.single 0, .range 1 2 (path "J")],
    [⟨namedKey (path "I") (spanned "R"),
      [SecondSlice.lexeme .number "1", SecondSlice.lexeme .number "2"]⟩]⟩]
  span := ⟨0, 0⟩
  tableExprSpan := ⟨0, 0⟩

theorem accepted : names.parseMultiDeclRest first tokens = .ok (multi, []) := rfl

end SharedTable

theorem shared_table_cells :
    ∃ w columns decls, SharedTable.names.readMulti SharedTable.first SharedTable.tokens =
        .ok (w, []) ∧
      zipExact w.headers w.slotAxes = some SharedTable.multi.slots ∧
      MultiDeclSharedAxes.tryFromVec w.axes = some SharedTable.multi.sharedAxes ∧
      (∀ body ∈ w.bodies,
        SlotColumns SharedTable.multi.slots.items body.header (columns body) ∧
        (∀ row ∈ body.rows, row.values.length = body.header.length) ∧
        ∀ column < body.header.length,
          ∃! i, i < SharedTable.multi.slots.items.length ∧ column ∈ columns body i) ∧
      expandMultiDecl id id SharedTable.multi = some decls ∧
      List.Forall₂ (DeclGrammar.DeclaresCells id id SharedTable.multi w.bodies columns)
        SharedTable.multi.slots.items.zipIdx decls ∧
      ∀ header, layoutColumns SharedTable.multi.slots.items header ≠ .error .indexOutOfRange :=
  DeclGrammar.multi_declaration_cells SharedTable.names id id SharedTable.accepted

end ProvenGraphcal.Parser
