import Mathlib.Data.List.ReduceOption
import ProvenGraphcal.Syntax.FormatEquivalent
import ProvenGraphcal.Syntax.TableParser

/-!
# Declarations that share a table

The columns of a table belong to slots; each slot becomes one declaration with the entries of its
columns. `T` and `E` are the types and the expressions as they are written, `U` and `D` those of the
declarations. An index past the end of a list is a panic of the program.
-/

namespace ProvenGraphcal.Ast

open Resolve

structure AtLeastTwo (α : Type) where
  items : List α
  two_le : 2 ≤ items.length

inductive SlotKind
  | param
  | node (visibility : Visibility)
  | constNode (visibility : Visibility)

inductive MultiSlotAxis
  | underscore
  | axis (path : Spanned (NamePath String))

structure MultiDeclSlot (T : Type) where
  kind : SlotKind
  name : Spanned String
  typeAnn : T
  axis : MultiSlotAxis
  doc : Option String
  headerSpan : Span

inductive MultiSlotColumnSpan
  | single (column : ℕ)
  | range (start stop : ℕ) (extraAxis : Spanned (NamePath String))

inductive MultiHeaderCell
  | underscore (span : Span)
  | variant (variant : Spanned String) (span : Span)

structure MultiDataRow (E : Type) where
  rowKey : MapEntryKey
  values : List E

structure MultiDeclSlice (E : Type) where
  prefixKeys : List MapEntryKey
  headerCells : List MultiHeaderCell
  columnLayout : List MultiSlotColumnSpan
  rows : List (MultiDataRow E)

/-- The last shared axis is the row axis. -/
structure MultiDeclSharedAxes where
  sliceAxes : List TableIndexSpec
  rowAxis : TableIndexSpec

def MultiDeclSharedAxes.tryFromVec (axes : List TableIndexSpec) : Option MultiDeclSharedAxes :=
  match axes.reverse with
  | [] => none
  | rowAxis :: sliceAxes => some ⟨sliceAxes.reverse, rowAxis⟩

structure MultiDecl (T E : Type) where
  slots : AtLeastTwo (MultiDeclSlot T)
  sharedAxes : MultiDeclSharedAxes
  slices : List (MultiDeclSlice E)
  span : Span
  tableExprSpan : Span

inductive MultiDeclLayoutError
  | variantCellForScalarSlot (span : Span) (slotName : String)
  | headerArity (slotCount headerCount : ℕ)
  | notEnoughCells (slotName : String) (span : Span)
  | indexOutOfRange

structure MultiDeclRowWidthError where
  headerCount : ℕ
  valueCount : ℕ

def MultiHeaderCell.isVariant : MultiHeaderCell → Bool
  | variant _ _ => true
  | underscore _ => false

variable {T E U D : Type}

/-- Lay out the next slot: one `_` cell, or all variant cells up to the next `_`. -/
def layoutSlot (slotCount : ℕ) (headerCells : List MultiHeaderCell)
    (state : List MultiSlotColumnSpan × ℕ) (slot : MultiDeclSlot T) :
    Except MultiDeclLayoutError (List MultiSlotColumnSpan × ℕ) :=
  let (layout, cursor) := state
  match slot.axis with
  | .underscore =>
    match headerCells[cursor]? with
    | none => .error (.headerArity slotCount headerCells.length)
    | some (.underscore _) => .ok (layout ++ [.single cursor], cursor + 1)
    | some (.variant _ span) => .error (.variantCellForScalarSlot span slot.name.value)
  | .axis extraAxis =>
    if headerCells.length < cursor then .error .indexOutOfRange
    else
      let stop := cursor + ((headerCells.drop cursor).takeWhile MultiHeaderCell.isVariant).length
      if stop = cursor then .error (.notEnoughCells slot.name.value extraAxis.span)
      else .ok (layout ++ [.range cursor stop extraAxis], stop)

def layoutColumns (slots : List (MultiDeclSlot T)) (headerCells : List MultiHeaderCell) :
    Except MultiDeclLayoutError (List MultiSlotColumnSpan) := do
  let (layout, cursor) ← slots.foldlM (layoutSlot slots.length headerCells) ([], 0)
  if cursor = headerCells.length then return layout
  else .error (.headerArity slots.length headerCells.length)

/-- A slice without rows. -/
def beginSlice (slots : List (MultiDeclSlot T)) (prefixKeys : List MapEntryKey)
    (headerCells : List MultiHeaderCell) : Except MultiDeclLayoutError (MultiDeclSlice E) := do
  return ⟨prefixKeys, headerCells, ← layoutColumns slots headerCells, []⟩

def MultiDeclSlice.headerCount (slice : MultiDeclSlice E) : ℕ := slice.headerCells.length

def MultiDeclSlice.pushRow (slice : MultiDeclSlice E) (rowKey : MapEntryKey) (values : List E) :
    Except MultiDeclRowWidthError (MultiDeclSlice E) :=
  if values.length ≠ slice.headerCount then .error ⟨slice.headerCount, values.length⟩
  else .ok { slice with rows := slice.rows ++ [⟨rowKey, values⟩] }

/-- Slice labels, then the row key, then the key of the extra axis. -/
def entryKeys (prefixKeys : List MapEntryKey) (row : MapEntryKey) (extra : Option MapEntryKey) :
    NonEmpty MapEntryKey :=
  match prefixKeys with
  | [] => ⟨row :: extra.toList, List.cons_ne_nil _ _⟩
  | first :: rest => ⟨first :: (rest ++ row :: extra.toList), List.cons_ne_nil _ _⟩

def extraAxisKey (extraAxis : Spanned (NamePath String)) (variant : Spanned String) : MapEntryKey :=
  .named extraAxis [extraAxis.span] variant

/-- The entry of a row at a column; columns headed by `_` have none. -/
def columnEntry (lowerExpr : E → D) (slice : MultiDeclSlice E)
    (extraAxis : Spanned (NamePath String)) (row : MultiDataRow E) (column : ℕ) :
    Option (Option (MapEntry D)) := do
  match ← slice.headerCells[column]? with
  | .underscore _ => return none
  | .variant variant _ =>
    let value ← row.values[column]?
    return some ⟨entryKeys slice.prefixKeys row.rowKey (some (extraAxisKey extraAxis variant)),
      lowerExpr value⟩

def rowEntries (lowerExpr : E → D) (slice : MultiDeclSlice E) (row : MultiDataRow E) :
    MultiSlotColumnSpan → Option (List (MapEntry D))
  | .single column => do
    let value ← row.values[column]?
    return [⟨entryKeys slice.prefixKeys row.rowKey none, lowerExpr value⟩]
  | .range start stop extraAxis => do
    let entries ← (List.range' start (stop - start)).mapM
      (columnEntry lowerExpr slice extraAxis row)
    return entries.reduceOption

/-- The entries that one slice contributes to a slot. -/
def slotEntries (lowerExpr : E → D) (slice : MultiDeclSlice E) (slotIndex : ℕ) :
    Option (List (MapEntry D)) := do
  let columns ← slice.columnLayout[slotIndex]?
  let entries ← slice.rows.mapM fun row => rowEntries lowerExpr slice row columns
  return entries.flatten

structure MapLiteral (D : Type) where
  entries : List (MapEntry D)
  span : Span

inductive ValueDecl (U D : Type)
  | param (name : Spanned String) (typeAnn : U) (value : MapLiteral D) (valueRange : Span)
  | node (visibility : Visibility) (name : Spanned String) (typeAnn : U) (value : MapLiteral D)
    (valueRange : Span)
  | constNode (visibility : Visibility) (name : Spanned String) (typeAnn : U)
    (value : MapLiteral D) (valueRange : Span)

structure ValueDeclaration (U D : Type) where
  kind : ValueDecl U D
  span : Span
  doc : Option String

def ValueDecl.of (kind : SlotKind) (name : Spanned String) (typeAnn : U) (value : MapLiteral D)
    (valueRange : Span) : ValueDecl U D :=
  match kind with
  | .param => .param name typeAnn value valueRange
  | .node visibility => .node visibility name typeAnn value valueRange
  | .constNode visibility => .constNode visibility name typeAnn value valueRange

def ValueDecl.value : ValueDecl U D → MapLiteral D
  | param _ _ value _ => value
  | node _ _ _ value _ => value
  | constNode _ _ _ value _ => value

def expandSlot (lowerType : T → U) (lowerExpr : E → D) (multi : MultiDecl T E)
    (slot : MultiDeclSlot T × ℕ) : Option (ValueDeclaration U D) := do
  let entries ← multi.slices.mapM fun slice => slotEntries lowerExpr slice slot.2
  return ⟨.of slot.1.kind slot.1.name (lowerType slot.1.typeAnn)
    ⟨entries.flatten, multi.tableExprSpan⟩ multi.tableExprSpan,
    slot.1.headerSpan.merge multi.span, slot.1.doc⟩

/-- One declaration for each slot. -/
def expandMultiDecl (lowerType : T → U) (lowerExpr : E → D) (multi : MultiDecl T E) :
    Option (List (ValueDeclaration U D)) :=
  multi.slots.items.zipIdx.mapM (expandSlot lowerType lowerExpr multi)

/-! ## The columns of slots -/

variable {header : List MultiHeaderCell}

def MultiSlotColumnSpan.columns : MultiSlotColumnSpan → List ℕ
  | single column => [column]
  | range start stop _ => List.range' start (stop - start)

/-- The columns that a slot admits: one `_`, or some variants. -/
def LaidOut (header : List MultiHeaderCell) (axis : MultiSlotAxis) (span : MultiSlotColumnSpan) :
    Prop :=
  match axis with
  | .underscore => ∃ column, span = .single column ∧
    ∃ cellSpan, header[column]? = some (.underscore cellSpan)
  | .axis path => ∃ start stop, span = .range start stop path ∧ start < stop ∧
    ∀ column, start ≤ column → column < stop →
      ∃ variant cellSpan, header[column]? = some (.variant variant cellSpan)

variable {i : ℕ}

theorem isVariant_of_takeWhile (cells : List MultiHeaderCell)
    (h : i < (cells.takeWhile MultiHeaderCell.isVariant).length) :
    ∃ variant span, cells[i]? = some (.variant variant span) := by
  have hprefix := List.takeWhile_prefix (l := cells) MultiHeaderCell.isVariant
  have hget := hprefix.getElem h
  have hvariant := List.all_eq_true.mp (List.all_takeWhile (l := cells)) _ (List.getElem_mem h)
  rw [hget] at hvariant
  have hlength : i < cells.length := Nat.lt_of_lt_of_le h hprefix.length_le
  rw [List.getElem?_eq_getElem hlength]
  cases hcell : cells[i] with
  | underscore span => rw [hcell] at hvariant; cases hvariant
  | variant variant span => exact ⟨variant, span, rfl⟩

variable {cursor : ℕ}

/-- Laying out a slot moves the cursor over its columns; indices stay in range. -/
theorem layoutSlot_step (slotCount : ℕ) (layout : List MultiSlotColumnSpan) (slot : MultiDeclSlot T)
    (hcursor : cursor ≤ header.length) :
    (∃ e, layoutSlot slotCount header (layout, cursor) slot = .error e ∧ e ≠ .indexOutOfRange) ∨
      ∃ span stop, layoutSlot slotCount header (layout, cursor) slot =
        .ok (layout ++ [span], stop) ∧ LaidOut header slot.axis span ∧
        span.columns = List.range' cursor (stop - cursor) ∧ cursor ≤ stop ∧
        stop ≤ header.length := by
  rw [layoutSlot]
  cases hslot : slot.axis with
  | underscore =>
    cases hcell : header[cursor]? with
    | none => exact .inl ⟨_, rfl, nofun⟩
    | some cell =>
      cases cell with
      | variant variant span => exact .inl ⟨_, rfl, nofun⟩
      | underscore span =>
        refine .inr ⟨.single cursor, cursor + 1, rfl, ⟨cursor, rfl, span, hcell⟩, ?_,
          Nat.le_succ cursor, (List.getElem?_eq_some_iff.mp hcell).1⟩
        rw [Nat.add_sub_cancel_left]
        rfl
  | axis path =>
    dsimp only
    rw [if_neg (Nat.not_lt.mpr hcursor)]
    split
    · exact .inl ⟨_, rfl, nofun⟩
    · rename_i hstop
      have hlength : ((header.drop cursor).takeWhile MultiHeaderCell.isVariant).length ≤
          header.length - cursor := by
        have hle := (List.takeWhile_prefix (l := header.drop cursor)
          MultiHeaderCell.isVariant).length_le
        rwa [List.length_drop] at hle
      refine .inr ⟨_, _, rfl, ⟨cursor, _, rfl, by omega, ?_⟩, rfl, by omega, by omega⟩
      intro column hstart hstop
      obtain ⟨variant, span, hcell⟩ := isVariant_of_takeWhile (header.drop cursor)
        (i := column - cursor) (by omega)
      rw [List.getElem?_drop, Nat.add_sub_cancel' hstart] at hcell
      exact ⟨variant, span, hcell⟩

theorem range'_split {start mid stop : ℕ} (h : start ≤ mid) (h' : mid ≤ stop) :
    List.range' start (mid - start) ++ List.range' mid (stop - mid) =
      List.range' start (stop - start) := by
  have hmid : mid = start + (mid - start) := by omega
  conv_lhs => rw [show stop - mid = (stop - start) - (mid - start) by omega, hmid]
  rw [Nat.add_sub_cancel_left, List.range'_append_1]
  congr 1
  omega

theorem layoutSlots_run (slotCount : ℕ) (slots : List (MultiDeclSlot T))
    (layout : List MultiSlotColumnSpan) (hcursor : cursor ≤ header.length) :
    (∃ e, slots.foldlM (layoutSlot slotCount header) (layout, cursor) = .error e ∧
        e ≠ .indexOutOfRange) ∨
      ∃ spans stop, slots.foldlM (layoutSlot slotCount header) (layout, cursor) =
        .ok (layout ++ spans, stop) ∧
        List.Forall₂ (fun slot span => LaidOut header slot.axis span) slots spans ∧
        spans.flatMap MultiSlotColumnSpan.columns = List.range' cursor (stop - cursor) ∧
        cursor ≤ stop ∧ stop ≤ header.length := by
  induction slots generalizing layout cursor with
  | nil =>
    refine .inr ⟨[], cursor, ?_, .nil, ?_, Nat.le_refl _, hcursor⟩
    · rw [List.append_nil]
      rfl
    · rw [Nat.sub_self]
      rfl
  | cons slot slots ih =>
    rw [List.foldlM_cons]
    obtain ⟨e, hstep, he⟩ | ⟨span, mid, hstep, hlaid, hcolumns, hle, hmid⟩ :=
      layoutSlot_step slotCount layout slot hcursor
    · exact .inl ⟨e, by rw [hstep]; rfl, he⟩
    · rw [hstep]
      dsimp only [bind, Except.bind]
      obtain ⟨e, hrun, he⟩ | ⟨spans, stop, hrun, hspans, hrest, hle', hstop⟩ :=
        ih (layout ++ [span]) hmid
      · exact .inl ⟨e, hrun, he⟩
      · refine .inr ⟨span :: spans, stop, ?_, .cons hlaid hspans, ?_, Nat.le_trans hle hle', hstop⟩
        · rw [hrun, List.append_assoc]
          rfl
        · rw [List.flatMap_cons, hcolumns, hrest, range'_split hle hle']

theorem layoutColumns_ne_indexOutOfRange (slots : List (MultiDeclSlot T))
    (header : List MultiHeaderCell) : layoutColumns slots header ≠ .error .indexOutOfRange := by
  rw [layoutColumns]
  obtain ⟨e, hrun, he⟩ | ⟨spans, stop, hrun, -⟩ :=
    layoutSlots_run slots.length slots [] (Nat.zero_le header.length)
  · rw [hrun]
    exact fun h => he (Except.error.inj h)
  · rw [hrun]
    dsimp only [bind, Except.bind]
    split
    · exact nofun
    · exact nofun

variable {slots : List (MultiDeclSlot T)} {layout : List MultiSlotColumnSpan}

theorem layoutColumns_eq_ok (h : layoutColumns slots header = .ok layout) :
    List.Forall₂ (fun slot span => LaidOut header slot.axis span) slots layout ∧
      layout.flatMap MultiSlotColumnSpan.columns = List.range header.length := by
  rw [layoutColumns] at h
  obtain ⟨e, hrun, -⟩ | ⟨spans, stop, hrun, hlaid, hcolumns, -, -⟩ :=
    layoutSlots_run slots.length slots [] (Nat.zero_le header.length)
  · rw [hrun] at h
    cases h
  · rw [hrun] at h
    dsimp only [bind, Except.bind] at h
    split at h
    · rename_i hstop
      cases h
      refine ⟨hlaid, ?_⟩
      rw [List.nil_append, hcolumns, Nat.sub_zero, hstop, List.range_eq_range']
    · cases h

/-- The columns of a header are parted among the slots in order. -/
structure SlotColumns (slots : List (MultiDeclSlot T)) (header : List MultiHeaderCell)
    (columns : ℕ → List ℕ) : Prop where
  partition : (List.range slots.length).flatMap columns = List.range header.length
  underscore : ∀ i slot, slots[i]? = some slot → slot.axis = .underscore →
    ∃ column span, columns i = [column] ∧ header[column]? = some (.underscore span)
  axis : ∀ i slot path, slots[i]? = some slot → slot.axis = .axis path →
    columns i ≠ [] ∧ ∀ column ∈ columns i, ∃ variant span,
      header[column]? = some (.variant variant span)

/-- Each column belongs to one slot, once. -/
theorem SlotColumns.existsUnique {columns : ℕ → List ℕ} (h : SlotColumns slots header columns)
    {column : ℕ} (hcolumn : column < header.length) :
    ∃! i, i < slots.length ∧ column ∈ columns i := by
  have hmem : column ∈ (List.range slots.length).flatMap columns := by
    rw [h.partition]
    exact List.mem_range.mpr hcolumn
  have hnodup : ((List.range slots.length).flatMap columns).Nodup := by
    rw [h.partition]
    exact List.nodup_range
  obtain ⟨i, hi, hmem⟩ := List.mem_flatMap.mp hmem
  refine ⟨i, ⟨List.mem_range.mp hi, hmem⟩, fun j ⟨hj, hmem'⟩ => ?_⟩
  have hdisjoint := List.pairwise_iff_getElem.mp (List.nodup_flatMap.mp hnodup).2
  have happart : ∀ a b, a < slots.length → b < slots.length → a < b →
      (columns a).Disjoint (columns b) := by
    intro a b ha hb hab
    have h := hdisjoint a b (by rwa [List.length_range]) (by rwa [List.length_range]) hab
    rwa [Function.onFun, List.getElem_range, List.getElem_range] at h
  rcases Nat.lt_trichotomy j i with hlt | heq | hlt
  · exact absurd hmem (happart j i hj (List.mem_range.mp hi) hlt hmem')
  · exact heq
  · exact absurd hmem' (happart i j (List.mem_range.mp hi) hj hlt hmem)

def layoutColumnsAt (layout : List MultiSlotColumnSpan) (i : ℕ) : List ℕ :=
  layout[i]?.elim [] MultiSlotColumnSpan.columns

theorem laidOut_getElem?
    (h : List.Forall₂ (fun slot span => LaidOut header slot.axis span) slots layout)
    {slot : MultiDeclSlot T} (hslot : slots[i]? = some slot) :
    ∃ span, layout[i]? = some span ∧ LaidOut header slot.axis span := by
  obtain ⟨hlength, hget⟩ := List.forall₂_iff_get.mp h
  obtain ⟨hi, rfl⟩ := List.getElem?_eq_some_iff.mp hslot
  have hi' : i < layout.length := hlength ▸ hi
  exact ⟨layout[i], List.getElem?_eq_getElem hi', hget i hi hi'⟩

theorem slotColumns_of_layout (h : layoutColumns slots header = .ok layout) :
    SlotColumns slots header (layoutColumnsAt layout) := by
  obtain ⟨hlaid, hcolumns⟩ := layoutColumns_eq_ok h
  have hget := fun i slot (hslot : slots[i]? = some slot) => laidOut_getElem? hlaid hslot
  refine ⟨?_, ?_, ?_⟩
  · rw [← hcolumns, hlaid.length_eq, List.flatMap_def, List.flatMap_def]
    congr 1
    apply List.ext_getElem
    · rw [List.length_map, List.length_map, List.length_range]
    · intro i _ hi
      rw [List.length_map] at hi
      rw [List.getElem_map, List.getElem_map, List.getElem_range, layoutColumnsAt,
        List.getElem?_eq_getElem hi]
      rfl
  · intro i slot hslot haxis
    obtain ⟨span, hspan, hlaid⟩ := hget i slot hslot
    rw [haxis] at hlaid
    obtain ⟨column, rfl, cellSpan, hcell⟩ := hlaid
    exact ⟨column, cellSpan, by rw [layoutColumnsAt, hspan]; rfl, hcell⟩
  · intro i slot path hslot haxis
    obtain ⟨span, hspan, hlaid⟩ := hget i slot hslot
    rw [haxis] at hlaid
    obtain ⟨start, stop, rfl, hlt, hvariants⟩ := hlaid
    have hcolumns : layoutColumnsAt layout i = List.range' start (stop - start) := by
      rw [layoutColumnsAt, hspan]
      rfl
    rw [hcolumns]
    refine ⟨?_, fun column hmem => ?_⟩
    · rw [Ne, List.range'_eq_nil_iff]
      omega
    · rw [List.mem_range'_1] at hmem
      exact hvariants column hmem.1 (by omega)

end ProvenGraphcal.Ast

/-!
# Parsing declarations that share a table

`T` are the type expressions, whose parser is given.
-/

namespace ProvenGraphcal.Parser

open Resolve Ast TokenParser

inductive VisibilityKeyword
  | pub
  | pubBind

def VisibilityKeyword.found : VisibilityKeyword → Found
  | pub => .pub
  | pubBind => .pubBind

/-- A leading visibility keyword that no declaration has accepted yet. -/
structure VisibilityPrefix where
  keyword : Option (VisibilityKeyword × Span)

def VisibilityPrefix.span (visibility : VisibilityPrefix) : Option Span :=
  visibility.keyword.map Prod.snd

def VisibilityPrefix.acceptNone {M : Type} (visibility : VisibilityPrefix) (expected : Expected) :
    Except (ParseError M) Unit :=
  match visibility.keyword with
  | none => .ok ()
  | some (keyword, span) => .error ⟨.unexpectedToken expected keyword.found, span⟩

def VisibilityPrefix.acceptPublic {M : Type} (visibility : VisibilityPrefix) (expected : Expected) :
    Except (ParseError M) Visibility :=
  match visibility.keyword with
  | none => .ok .priv
  | some (.pub, _) => .ok .pub
  | some (.pubBind, span) => .error ⟨.unexpectedToken expected .pubBind, span⟩

structure SlotHeader (T : Type) where
  kind : SlotKind
  kindSpan : Span
  name : Spanned String
  typeAnn : T
  headerSpan : Span

variable {M E T : Type}

def SlotHeader.intoSlot (header : SlotHeader T) (axis : MultiSlotAxis) : MultiDeclSlot T :=
  ⟨header.kind, header.name, header.typeAnn, axis, none, header.headerSpan⟩

def unsupportedShape (shape : UnsupportedMultiDeclShape) (span : Span) : ParseError M :=
  ⟨.multiDeclUnsupportedShape shape, span⟩

/-- The error of a layout; one of an index out of range never occurs. -/
def multiDeclLayoutError (headerSpan : Span) : MultiDeclLayoutError → ParseError M
  | .variantCellForScalarSlot span slotName =>
    unsupportedShape (.underscoreHeaderRequired slotName) span
  | .headerArity slotCount headerCount => ⟨.multiDeclHeaderArity slotCount headerCount, headerSpan⟩
  | .notEnoughCells slotName span => unsupportedShape (.missingVariantCells slotName) span
  | .indexOutOfRange => ⟨.unexpectedEof .anyToken, headerSpan⟩

def extraAxisSpan (slot : MultiDeclSlot T) : Option Span :=
  match slot.axis with
  | .axis path => some path.span
  | .underscore => none

/-- The slots with their axes, if there are as many. -/
def zipExact (headers : AtLeastTwo (SlotHeader T)) (slotAxes : List MultiSlotAxis) :
    Option (AtLeastTwo (MultiDeclSlot T)) :=
  if h : slotAxes.length = headers.items.length then
    some ⟨(headers.items.zip slotAxes).map fun slot => slot.1.intoSlot slot.2, by
      rw [List.length_map, List.length_zip, h, Nat.min_self]
      exact headers.two_le⟩
  else none

/-- The key of a row; there is none beyond the positions of its axis. -/
def multiRowKey (axis : TableIndexSpec) (position : ℕ) (row : ParsedRow E) : Option MapEntryKey :=
  match axis with
  | .named axis => row.label?.map (namedKey axis)
  | .finite cardinality span => (FinPosition.tryNew cardinality position).map fun position =>
    .finite span ⟨position, row.labelSpan⟩

def multiRowLabel (position : ℕ) (row : ParsedRow E) : IndexEntryKey :=
  row.label?.elim (.position position) fun label => .named label.value

def rowWidthError (position : ℕ) (row : ParsedRow E) (error : MultiDeclRowWidthError) :
    ParseError M :=
  ⟨.multiDeclRowArity error.headerCount error.valueCount (multiRowLabel position row), row.span⟩

/-- Store a row of the slice after these rows, if it has a key, and count it. -/
def addMultiRow (axis : TableIndexSpec) (slice : MultiDeclSlice E)
    (state : List (MultiDataRow E) × ℕ) (row : ParsedRow E) :
    Except (ParseError M) (List (MultiDataRow E) × ℕ) :=
  match multiRowKey axis state.2 row with
  | some rowKey =>
    match { slice with rows := state.1 }.pushRow rowKey row.values with
    | .ok slice => .ok (slice.rows, state.2 + 1)
    | .error error => .error (rowWidthError state.2 row error)
  | none =>
    if row.values.length ≠ slice.headerCount then
      .error (rowWidthError state.2 row ⟨slice.headerCount, row.values.length⟩)
    else .ok (state.1, state.2 + 1)

/-- The parsers of expressions and of types. -/
structure DeclGrammar (M E T : Type) extends Grammar M E where
  parseTypeExpr : Parse M T
  typeSpan : T → Span
  parseTypeExpr_advances : TokenParser.Advances parseTypeExpr

namespace DeclGrammar

variable (g : DeclGrammar M E T)

def parseVisibilityPrefix : Parse M VisibilityPrefix := do
  if !headIs .pub (← remaining) then return ⟨none⟩
  else
    let pubToken ← g.advance
    if !headIs .lParen (← remaining) then return ⟨some (.pub, pubToken.span)⟩
    else
      let _ ← g.expect .lParen
      let bind ← g.advance
      if bind.token = .contextualKeyword .bind then
        let close ← g.expect .rParen
        return ⟨some (.pubBind, pubToken.span.merge close.span)⟩
      else fail (g.unexpected (.token (.contextualKeyword .bind)) (some bind))

def parseSlotKind (visibility : VisibilityPrefix) : Parse M (SlotKind × Span) := do
  let tokens ← remaining
  if headIs .param tokens then
    let keyword ← g.advance
    let _ ← lift (visibility.acceptNone .paramWithoutVisibility)
    return (.param, keyword.span)
  else if headIs .node tokens then
    let keyword ← g.advance
    let accepted ← lift (visibility.acceptPublic .nodeVisibility)
    return (.node accepted, keyword.span)
  else if headIs .const tokens then
    let constToken ← g.advance
    let nodeToken ← g.expect .node
    let accepted ← lift (visibility.acceptPublic .nodeVisibility)
    return (.constNode accepted, constToken.span.merge nodeToken.span)
  else fail (g.unexpected .multiDeclSlotKind tokens.head?)

def parseSlotHeaderTail (kind : SlotKind) (kindSpan : Span) (prefixSpan : Option Span) :
    Parse M (SlotHeader T) := do
  let name ← g.parseAnyIdent
  let _ ← g.expect .colon
  let typeAnn ← g.parseTypeExpr
  return ⟨kind, kindSpan, name, typeAnn,
    (prefixSpan.getD kindSpan).merge (g.typeSpan typeAnn)⟩

def parseNextSlotHeader : Parse M (SlotHeader T) := do
  let _ ← g.expect .comma
  let visibility ← g.parseVisibilityPrefix
  let (kind, kindSpan) ← g.parseSlotKind visibility
  g.parseSlotHeaderTail kind kindSpan visibility.span

def parseSlotHeaders (firstSlot : SlotHeader T) : Parse M (AtLeastTwo (SlotHeader T)) := do
  let secondSlot ← g.parseNextSlotHeader
  let more ← manyUntil g.stuck (fun tokens => !headIs .comma tokens) g.parseNextSlotHeader []
  return ⟨firstSlot :: secondSlot :: more, by rw [List.length_cons, List.length_cons]; omega⟩

def parseSharedAxis : Parse M TableIndexSpec := do
  let axis ← g.parseTableIndexSpec
  let _ ← g.expect .comma
  return axis

/-- The axes up to the tuple of slot axes. -/
def parseSharedAxes : Parse M (List TableIndexSpec) := do
  if headIs .lParen (← remaining) then return []
  else manyUntil g.stuck (headIs .lParen) g.parseSharedAxis [← g.parseSharedAxis]

def parseSlotAxisEntry : Parse M MultiSlotAxis := do
  let tokens ← remaining
  if headIs .underscore tokens then
    let _ ← g.advance
    return .underscore
  else if tokens.head?.any fun found => found.token.isIdentifier then
    return .axis (← g.parseIdentPath).intoSpannedNamePath
  else
    let found ← g.advance
    fail (g.unexpected .slotTupleEntry (some found))

def parseSlotAxes : Parse M (List MultiSlotAxis) := do
  if headIs .rParen (← remaining) then return []
  else separated g.stuck isComma (headIs .rParen) g.parseSlotAxisEntry

def parseSlotTuple : Parse M (List MultiSlotAxis × Span) := do
  let opening ← g.expect .lParen
  let entries ← g.parseSlotAxes
  let close ← g.expect .rParen
  return (entries, opening.span.merge close.span)

def parseHeaderCell : Parse M MultiHeaderCell := do
  let tokens ← remaining
  if headIs .underscore tokens then
    return .underscore (← g.advance).span
  else if tokens.head?.any fun found => found.token.isIdentifier then
    let variant ← g.parseAnyIdent
    return .variant variant variant.span
  else
    let found ← g.advance
    fail (g.unexpected .headerCell (some found))

def parseMultiHeaderRow : Parse M (List MultiHeaderCell × Span) := do
  let colon ← g.expect .colon
  let cells ← separated g.stuck isComma (fun _ => false) g.parseHeaderCell
  let close ← g.expect .semicolon
  return (cells, colon.span.merge close.span)

/-- Read a row onto the rows of the slice, and count it. -/
def multiRow (axis : TableIndexSpec) (headerSpan : Span) (slice : MultiDeclSlice E)
    (state : List (MultiDataRow E) × ℕ) : Parse M (List (MultiDataRow E) × ℕ) := do
  let row ← g.parseRow axis headerSpan
  lift (addMultiRow axis slice state row)

def parseMultiSliceBody (slots : List (MultiDeclSlot T)) (prefixKeys : List MapEntryKey)
    (rowAxis : TableIndexSpec) : Parse M (MultiDeclSlice E) := do
  let (headerCells, headerSpan) ← g.parseMultiHeaderRow
  let slice ← lift ((beginSlice slots prefixKeys headerCells).mapError
    (multiDeclLayoutError headerSpan))
  let (rows, rowsSeen) ← foldUntil g.stuck endsRows (g.multiRow rowAxis headerSpan slice) ([], 0)
  match rowAxis with
  | .named _ => return { slice with rows := rows }
  | .finite cardinality _ =>
    if rowsSeen = cardinality then return { slice with rows := rows }
    else fail ⟨.tableRowLengthMismatch cardinality rowsSeen, headerSpan⟩

/-- Read a labelled section onto the slices. -/
def multiSlice (slots : List (MultiDeclSlot T)) (sharedAxes : MultiDeclSharedAxes)
    (slices : List (MultiDeclSlice E)) : Parse M (List (MultiDeclSlice E)) := do
  let _ ← g.advance
  let prefixKeys ← g.listLabels (g.parseSliceLabel fun sharedAxis labelAxis =>
    .multiDeclUnsupportedShape (.sliceLabelAxis labelAxis sharedAxis)) sharedAxes.sliceAxes
  let _ ← g.expect .rBracket
  return slices ++ [← g.parseMultiSliceBody slots prefixKeys sharedAxes.rowAxis]

def parseSlices (slots : List (MultiDeclSlot T)) (sharedAxes : MultiDeclSharedAxes)
    (tableSpan : Span) : Parse M (List (MultiDeclSlice E)) := do
  if sharedAxes.sliceAxes.isEmpty then
    return [← g.parseMultiSliceBody slots [] sharedAxes.rowAxis]
  else
    let slices ← foldUntil g.stuck (fun tokens => !headIs .lBracket tokens)
      (g.multiSlice slots sharedAxes) []
    if slices.isEmpty then
      fail (unsupportedShape .missingSliceSection (← Grammar.peekSpan tableSpan))
    else return slices

def parseMultiDeclRest (firstSlot : SlotHeader T) : Parse M (MultiDecl T E) := do
  let headers ← g.parseSlotHeaders firstSlot
  let _ ← g.expect .eq
  let table ← g.expect .table
  let _ ← g.expect .lBracket
  let axes ← g.parseSharedAxes
  let (slotAxes, tupleSpan) ← g.parseSlotTuple
  let slots ← ofOption (zipExact headers slotAxes)
    ⟨.multiDeclTupleArity headers.items.length slotAxes.length, tupleSpan⟩
  let bracket ← g.expect .rBracket
  let sharedAxes ← ofOption (MultiDeclSharedAxes.tryFromVec axes)
    ⟨.multiDeclNoSharedAxis, table.span.merge bracket.span⟩
  -- columns are laid out by contiguous variants, which only one slot with an axis can own
  match (slots.items.filterMap extraAxisSpan)[1]? with
  | some secondExtraSpan => fail (unsupportedShape .multipleExtraAxisSlots secondExtraSpan)
  | none =>
    let _ ← g.expect .lBrace
    let slices ← g.parseSlices slots.items sharedAxes table.span
    let brace ← g.expect .rBrace
    let semicolon ← g.expect .semicolon
    return ⟨slots, sharedAxes, slices, firstSlot.headerSpan.merge semicolon.span,
      table.span.merge brace.span⟩

end DeclGrammar

end ProvenGraphcal.Parser
