import ProvenGraphcal.Library.Reordering
import ProvenGraphcal.Resolve.Symbols

/-!
# Keys of table entries
-/

namespace ProvenGraphcal.Ast

open Resolve

/-- A position on an axis `Fin(cardinality)`. -/
structure FinPosition where
  cardinality : ℕ
  position : ℕ
  inside : position < cardinality
  deriving DecidableEq

def FinPosition.tryNew (cardinality position : ℕ) : Option FinPosition :=
  if h : position < cardinality then some ⟨cardinality, position, h⟩ else none

/-- A key without its source spans. -/
inductive SpanFreeMapEntryKey
  | named (index : NamePath String) (variant : String)
  | finite (position : FinPosition)
  deriving DecidableEq

structure Spanned (T : Type) where
  value : T
  span : Span

/-!
# Equivalence of syntax trees up to formatting

Spans are ignored. A table literal compares its entries in any order; every other node compares its
constructor and leaf fields, which are its label, and its sub-expressions in order.
-/

open Reordering

inductive TableIndexSpec
  | named (path : Spanned (NamePath String))
  | finite (cardinality : ℕ) (span : Span)

inductive MapEntryKey
  | named (index : Spanned (NamePath String)) (additionalIndexSpans : List Span)
    (variant : Spanned String)
  | finite (axisSpan : Span) (position : Spanned FinPosition)

structure MapEntry (E : Type) where
  keys : NonEmpty MapEntryKey
  value : E

inductive Expr (L : Type)
  | node (label : L) (fields : List (Expr L)) (span : Span)
  | tableLiteral (indexes : List TableIndexSpec) (entries : List (MapEntry (Expr L))) (span : Span)

variable {L : Type}

def TableIndexSpec.formatEquivalent : TableIndexSpec → TableIndexSpec → Bool
  | named path, named path' => path.value = path'.value
  | finite cardinality _, finite cardinality' _ => cardinality = cardinality'
  | _, _ => false

def MapEntryKey.formatEquivalent : MapEntryKey → MapEntryKey → Bool
  | named index _ variant, named index' _ variant' =>
    index.value = index'.value && variant.value = variant'.value
  | finite _ position, finite _ position' => position.value = position'.value
  | _, _ => false

/-- Slices are compared item by item. -/
def sliceEquivalent {T : Type} (equivalent : T → T → Bool) (lhs rhs : List T) : Bool :=
  lhs.length = rhs.length && (lhs.zip rhs).all fun pair => equivalent pair.1 pair.2

def MapEntryKey.spanFree : MapEntryKey → SpanFreeMapEntryKey
  | named index _ variant => .named index.value variant.value
  | finite _ position => .finite position.value

def spanFreeKey (keys : NonEmpty MapEntryKey) : List SpanFreeMapEntryKey :=
  keys.items.map MapEntryKey.spanFree

/-- The right entries under each key, in order. -/
def entriesByKey {E : Type} (entries : List (MapEntry E)) :
    List SpanFreeMapEntryKey → List (MapEntry E) :=
  fun key => entries.filter fun entry => spanFreeKey entry.keys = key

/-- Entries are compared in order first, then each with the right entries under its key. -/
def tableEntriesFormatEquivalentBy {A E : Type} (key : A → List SpanFreeMapEntryKey)
    (entriesEquivalent : A → MapEntry E → Bool) (lhs : List A) (rhs : List (MapEntry E)) : Bool :=
  if lhs.length ≠ rhs.length then false
  else if (lhs.zip rhs).all fun pair => entriesEquivalent pair.1 pair.2 then true
  else matchAll key entriesEquivalent lhs (entriesByKey rhs)

section Equivalence

variable [DecidableEq L]

mutual

def Expr.formatEquivalent : Expr L → Expr L → Bool
  | .node label fields _, .node label' fields' _ =>
    label = label' && fieldsEquivalent fields fields'
  | .tableLiteral indexes entries _, .tableLiteral indexes' entries' _ =>
    sliceEquivalent TableIndexSpec.formatEquivalent indexes indexes' &&
      tableEntriesFormatEquivalentBy Prod.fst Prod.snd (entryTests entries) entries'
  | .node .., .tableLiteral .. => false
  | .tableLiteral .., .node .. => false

def fieldsEquivalent : List (Expr L) → List (Expr L) → Bool
  | [], [] => true
  | field :: fields, field' :: fields' =>
    field.formatEquivalent field' && fieldsEquivalent fields fields'
  | [], _ :: _ => false
  | _ :: _, [] => false

/-- Each entry with its key and the comparison of other entries with it. -/
def entryTests :
    List (MapEntry (Expr L)) → List (List SpanFreeMapEntryKey × (MapEntry (Expr L) → Bool))
  | [] => []
  | ⟨keys, value⟩ :: entries =>
    (spanFreeKey keys, fun candidate =>
      sliceEquivalent MapEntryKey.formatEquivalent keys.items candidate.keys.items &&
        value.formatEquivalent candidate.value) :: entryTests entries

end

def MapEntry.formatEquivalent (entry entry' : MapEntry (Expr L)) : Bool :=
  sliceEquivalent MapEntryKey.formatEquivalent entry.keys.items entry'.keys.items &&
    entry.value.formatEquivalent entry'.value

def tableEntriesFormatEquivalent (lhs rhs : List (MapEntry (Expr L))) : Bool :=
  tableEntriesFormatEquivalentBy (fun entry => spanFreeKey entry.keys) MapEntry.formatEquivalent
    lhs rhs

end Equivalence

/-!
# Table entries are compared as multisets
-/

theorem forall₂_of_zip_all {A B : Type} {test : A → B → Bool} {lhs : List A} {rhs : List B}
    (hlength : lhs.length = rhs.length) :
    ((lhs.zip rhs).all fun pair => test pair.1 pair.2) = true ↔
      List.Forall₂ (fun a b => test a b = true) lhs rhs := by
  rw [List.forall₂_iff_zip, List.all_eq_true]
  constructor
  · intro hall
    exact ⟨hlength, fun hmem => hall _ hmem⟩
  · rintro ⟨-, hall⟩ pair hmem
    exact hall hmem

theorem sliceEquivalent_iff {T U : Type} {test : T → T → Bool} {spanFree : T → U}
    (htest : ∀ a b, test a b = true ↔ spanFree a = spanFree b) {lhs rhs : List T} :
    sliceEquivalent test lhs rhs = true ↔ lhs.map spanFree = rhs.map spanFree := by
  rw [sliceEquivalent, Bool.and_eq_true, decide_eq_true_eq, ← List.forall₂_eq_eq_eq,
    List.forall₂_map_left_iff, List.forall₂_map_right_iff]
  constructor
  · rintro ⟨hlength, hall⟩
    exact ((forall₂_of_zip_all hlength).mp hall).imp fun a b => (htest a b).mp
  · intro hall
    exact ⟨hall.length_eq,
      (forall₂_of_zip_all hall.length_eq).mpr (hall.imp fun a b => (htest a b).mpr)⟩

/-- An index of a table without its span. -/
def TableIndexSpec.spanFree : TableIndexSpec → Resolve.NamePath String ⊕ ℕ
  | named path => .inl path.value
  | finite cardinality _ => .inr cardinality

theorem TableIndexSpec.formatEquivalent_iff (a b : TableIndexSpec) :
    a.formatEquivalent b = true ↔ a.spanFree = b.spanFree := by
  cases a <;> cases b <;> simp [formatEquivalent, spanFree]

theorem MapEntryKey.formatEquivalent_iff (a b : MapEntryKey) :
    a.formatEquivalent b = true ↔ a.spanFree = b.spanFree := by
  cases a <;> cases b <;> simp [formatEquivalent, spanFree]

theorem keysEquivalent_iff {keys keys' : NonEmpty MapEntryKey} :
    sliceEquivalent MapEntryKey.formatEquivalent keys.items keys'.items = true ↔
      spanFreeKey keys = spanFreeKey keys' :=
  sliceEquivalent_iff MapEntryKey.formatEquivalent_iff

/-- Both ways of comparing entries find a reordering whenever there is one. -/
theorem tableEntriesFormatEquivalentBy_iff {A E : Type} {key : A → List SpanFreeMapEntryKey}
    {entriesEquivalent : A → MapEntry E → Bool} {R : A → MapEntry E → Prop}
    (hzigzag : ∀ x a b c, R x b → R a b → R a c → R x c)
    (hkey : ∀ a b, R a b → key a = spanFreeKey b.keys) {lhs : List A} {rhs : List (MapEntry E)}
    (hequiv : ∀ a ∈ lhs, ∀ b, entriesEquivalent a b = true ↔ R a b) :
    tableEntriesFormatEquivalentBy key entriesEquivalent lhs rhs = true ↔ Reordered R lhs rhs := by
  unfold tableEntriesFormatEquivalentBy
  split_ifs with hlength hall
  · constructor
    · intro h
      cases h
    · intro h
      exact absurd h.length_eq hlength
  · rw [not_not] at hlength
    constructor
    · intro _
      rw [forall₂_of_zip_all hlength] at hall
      exact (Reordered.of_forall₂ hall).imp_mem fun a ha b => (hequiv a ha b).mp
    · intro _
      rfl
  · rw [not_not] at hlength
    have hbuckets : ∀ k, (entriesByKey rhs k).Perm
        (rhs.filter fun entry => spanFreeKey entry.keys = k) := fun k => .refl _
    rw [matchAll_iff hzigzag hkey hequiv hbuckets]
    constructor
    · intro h
      exact .of_embeds h hlength
    · rintro ⟨mid, hmid, hperm⟩
      exact ⟨mid, [], hmid, by rwa [List.append_nil]⟩

mutual

/-- The same tree but for spans and the order of table entries. -/
inductive Expr.Same : Expr L → Expr L → Prop
  | node {label : L} {fields fields' : List (Expr L)} {span span' : Span}
    (same : List.Forall₂ Expr.Same fields fields') :
    Expr.Same (.node label fields span) (.node label fields' span')
  | tableLiteral {indexes indexes' : List TableIndexSpec}
    {entries reordered entries' : List (MapEntry (Expr L))} {span span' : Span}
    (sameIndexes : indexes.map TableIndexSpec.spanFree = indexes'.map TableIndexSpec.spanFree)
    (same : List.Forall₂ MapEntry.Same entries reordered) (perm : reordered.Perm entries') :
    Expr.Same (.tableLiteral indexes entries span) (.tableLiteral indexes' entries' span')

inductive MapEntry.Same : MapEntry (Expr L) → MapEntry (Expr L) → Prop
  | intro {entry entry' : MapEntry (Expr L)}
    (sameKeys : spanFreeKey entry.keys = spanFreeKey entry'.keys)
    (sameValue : Expr.Same entry.value entry'.value) : MapEntry.Same entry entry'

end

@[elab_as_elim]
theorem Expr.induct {motive : Expr L → Prop}
    (node : ∀ label fields span, (∀ field ∈ fields, motive field) →
      motive (.node label fields span))
    (tableLiteral : ∀ indexes entries span,
      (∀ entry : MapEntry (Expr L), entry ∈ entries → motive entry.value) →
        motive (.tableLiteral indexes entries span)) (expr : Expr L) : motive expr :=
  match expr with
  | .node label fields span =>
    node label fields span fun field _ => induct node tableLiteral field
  | .tableLiteral indexes entries span =>
    tableLiteral indexes entries span fun entry _ => induct node tableLiteral entry.value
termination_by sizeOf expr
decreasing_by
  · have hfield := List.sizeOf_lt_of_mem (by assumption : field ∈ fields)
    rw [Expr.node.sizeOf_spec]
    omega
  · have hentry := List.sizeOf_lt_of_mem (by assumption : entry ∈ entries)
    rw [Expr.tableLiteral.sizeOf_spec]
    cases entry
    rw [MapEntry.mk.sizeOf_spec] at hentry
    dsimp only
    omega

theorem same_tableLiteral {indexes indexes' : List TableIndexSpec}
    {entries entries' : List (MapEntry (Expr L))} {span span' : Span} :
    Expr.Same (.tableLiteral indexes entries span) (.tableLiteral indexes' entries' span') ↔
      indexes.map TableIndexSpec.spanFree = indexes'.map TableIndexSpec.spanFree ∧
        Reordered MapEntry.Same entries entries' := by
  constructor
  · rintro (_ | ⟨hindexes, hentries, hperm⟩)
    exact ⟨hindexes, _, hentries, hperm⟩
  · rintro ⟨hindexes, mid, hentries, hperm⟩
    exact .tableLiteral hindexes hentries hperm

theorem same_refl (expr : Expr L) : Expr.Same expr expr := by
  induction expr using Expr.induct with
  | node label fields span ih => exact .node (List.forall₂_same.mpr ih)
  | tableLiteral indexes entries span ih =>
    refine same_tableLiteral.mpr ⟨rfl, .of_forall₂ (List.forall₂_same.mpr fun entry hentry => ?_)⟩
    exact .intro rfl (ih entry hentry)

theorem same_symm {expr expr' : Expr L} (h : Expr.Same expr expr') : Expr.Same expr' expr := by
  induction expr using Expr.induct generalizing expr' with
  | node label fields span ih =>
    rcases h with ⟨hfields⟩ | _
    refine .node (List.Forall₂.flip ?_)
    rw [List.forall₂_iff_get] at hfields ⊢
    refine ⟨hfields.1, fun i hi hi' => ?_⟩
    exact ih _ (List.get_mem fields ⟨i, hi⟩) (hfields.2 i hi hi')
  | tableLiteral indexes entries span ih =>
    rcases h with _ | ⟨hindexes, hentries, hperm⟩
    refine same_tableLiteral.mpr ⟨hindexes.symm, ?_⟩
    have hflip : Reordered (fun entry entry' => MapEntry.Same entry' entry) entries _ :=
      Reordered.imp_mem ⟨_, hentries, hperm⟩ fun entry hentry entry' hsame => by
        rcases hsame with ⟨hkeys, hvalue⟩
        exact .intro hkeys.symm (ih entry hentry hvalue)
    exact hflip.flip

theorem same_trans {expr expr' expr'' : Expr L} (h : Expr.Same expr expr')
    (h' : Expr.Same expr' expr'') : Expr.Same expr expr'' := by
  induction expr using Expr.induct generalizing expr' expr'' with
  | node label fields span ih =>
    rcases h with ⟨hfields⟩ | _
    rcases h' with ⟨hfields'⟩ | _
    refine .node ?_
    rw [List.forall₂_iff_get] at hfields hfields' ⊢
    refine ⟨hfields.1.trans hfields'.1, fun i hi hi' => ?_⟩
    have hmid := hfields.1 ▸ hi
    exact ih _ (List.get_mem fields ⟨i, hi⟩) (hfields.2 i hi hmid) (hfields'.2 i hmid hi')
  | tableLiteral indexes entries span ih =>
    rcases h with _ | ⟨hindexes, hentries, hperm⟩
    rcases h' with _ | ⟨hindexes', hentries', hperm'⟩
    refine same_tableLiteral.mpr ⟨hindexes.trans hindexes', ?_⟩
    have hcomp := Reordered.comp ⟨_, hentries, hperm⟩ ⟨_, hentries', hperm'⟩
    refine hcomp.imp_mem fun entry hentry entry'' hsame => ?_
    obtain ⟨entry', ⟨hkeys, hvalue⟩, ⟨hkeys', hvalue'⟩⟩ := hsame
    exact .intro (hkeys.trans hkeys') (ih entry hentry hvalue hvalue')

theorem entrySame_equivalence : Equivalence (MapEntry.Same (L := L)) where
  refl entry := .intro rfl (same_refl entry.value)
  symm h := by
    rcases h with ⟨hkeys, hvalue⟩
    exact .intro hkeys.symm (same_symm hvalue)
  trans h h' := by
    rcases h with ⟨hkeys, hvalue⟩
    rcases h' with ⟨hkeys', hvalue'⟩
    exact .intro (hkeys.trans hkeys') (same_trans hvalue hvalue')

/-! ## The comparison decides the relation -/

section Decision

variable [DecidableEq L]

theorem fieldsEquivalent_eq (fields fields' : List (Expr L)) :
    fieldsEquivalent fields fields' = true ↔
      List.Forall₂ (fun field field' => Expr.formatEquivalent field field' = true) fields fields' := by
  induction fields generalizing fields' with
  | nil =>
    cases fields' with
    | nil => exact ⟨fun _ => .nil, fun _ => rfl⟩
    | cons => exact ⟨nofun, nofun⟩
  | cons field fields ih =>
    cases fields' with
    | nil => exact ⟨nofun, nofun⟩
    | cons field' fields' => rw [fieldsEquivalent, Bool.and_eq_true, ih, List.forall₂_cons]

theorem entryTests_eq (entries : List (MapEntry (Expr L))) :
    entryTests entries =
      entries.map fun entry => (spanFreeKey entry.keys, entry.formatEquivalent) := by
  induction entries with
  | nil => rfl
  | cons entry entries ih =>
    rw [entryTests, ih]
    rfl

/-- Nested tables are compared as tables are. -/
theorem formatEquivalent_tableLiteral {indexes indexes' : List TableIndexSpec}
    {entries entries' : List (MapEntry (Expr L))} {span span' : Span} :
    Expr.formatEquivalent (.tableLiteral indexes entries span)
        (.tableLiteral indexes' entries' span') =
      (sliceEquivalent TableIndexSpec.formatEquivalent indexes indexes' &&
        tableEntriesFormatEquivalent entries entries') := by
  rw [Expr.formatEquivalent, entryTests_eq, tableEntriesFormatEquivalent,
    tableEntriesFormatEquivalentBy, tableEntriesFormatEquivalentBy, List.length_map, matchAll_map,
    List.zip_map_left, List.all_map]
  rfl

theorem tableEntries_iff_of_value {entries entries' : List (MapEntry (Expr L))}
    (hvalue : ∀ entry ∈ entries, ∀ expr',
      entry.value.formatEquivalent expr' = true ↔ Expr.Same entry.value expr') :
    tableEntriesFormatEquivalent entries entries' = true ↔
      Reordered MapEntry.Same entries entries' := by
  apply tableEntriesFormatEquivalentBy_iff
  · intro x a b c hxb hab hac
    exact entrySame_equivalence.trans hxb
      (entrySame_equivalence.trans (entrySame_equivalence.symm hab) hac)
  · rintro a b ⟨hkeys, -⟩
    exact hkeys
  · intro entry hentry candidate
    rw [MapEntry.formatEquivalent, Bool.and_eq_true, keysEquivalent_iff, hvalue entry hentry]
    constructor
    · rintro ⟨hkeys, hsame⟩
      exact .intro hkeys hsame
    · rintro ⟨hkeys, hsame⟩
      exact ⟨hkeys, hsame⟩

theorem formatEquivalent_iff_same (expr expr' : Expr L) :
    expr.formatEquivalent expr' = true ↔ Expr.Same expr expr' := by
  induction expr using Expr.induct generalizing expr' with
  | node label fields span ih =>
    cases expr' with
    | tableLiteral indexes' entries' span' => exact ⟨nofun, nofun⟩
    | node label' fields' span' =>
      rw [Expr.formatEquivalent, Bool.and_eq_true, decide_eq_true_eq, fieldsEquivalent_eq]
      have hfields : List.Forall₂ (fun field field' => Expr.formatEquivalent field field' = true)
          fields fields' ↔ List.Forall₂ Expr.Same fields fields' := by
        rw [List.forall₂_iff_get, List.forall₂_iff_get]
        refine and_congr_right fun _ => forall₃_congr fun i hi hi' => ?_
        exact ih _ (List.get_mem fields ⟨i, hi⟩) _
      rw [hfields]
      constructor
      · rintro ⟨rfl, hsame⟩
        exact .node hsame
      · rintro ⟨hsame⟩
        exact ⟨rfl, hsame⟩
  | tableLiteral indexes entries span ih =>
    cases expr' with
    | node label' fields' span' => exact ⟨nofun, nofun⟩
    | tableLiteral indexes' entries' span' =>
      rw [formatEquivalent_tableLiteral, Bool.and_eq_true,
        sliceEquivalent_iff TableIndexSpec.formatEquivalent_iff, tableEntries_iff_of_value ih,
        same_tableLiteral]

theorem MapEntry.formatEquivalent_iff (entry entry' : MapEntry (Expr L)) :
    entry.formatEquivalent entry' = true ↔ MapEntry.Same entry entry' := by
  rw [MapEntry.formatEquivalent, Bool.and_eq_true, keysEquivalent_iff, formatEquivalent_iff_same]
  constructor
  · rintro ⟨hkeys, hsame⟩
    exact .intro hkeys hsame
  · rintro ⟨hkeys, hsame⟩
    exact ⟨hkeys, hsame⟩

theorem tableEntriesFormatEquivalent_iff {lhs rhs : List (MapEntry (Expr L))} :
    tableEntriesFormatEquivalent lhs rhs = true ↔ Reordered MapEntry.Same lhs rhs :=
  tableEntries_iff_of_value fun entry _ => formatEquivalent_iff_same entry.value

omit [DecidableEq L] in
theorem reordered_equivalence :
    Equivalence (Reordered (MapEntry.Same (L := L))) where
  refl entries := .of_forall₂ (List.forall₂_same.mpr fun entry _ => entrySame_equivalence.refl entry)
  symm h := h.flip.imp_mem fun _ _ _ => entrySame_equivalence.symm
  trans h h' := (h.comp h').imp_mem fun _ _ _ hsame => by
    obtain ⟨_, hleft, hright⟩ := hsame
    exact entrySame_equivalence.trans hleft hright

/-- Table entries are equivalent when they are the same multiset without spans. -/
theorem table_entries_equivalent_iff (lhs rhs : List (MapEntry (Expr L))) :
    (tableEntriesFormatEquivalent lhs rhs = true ↔
      ∃ reordered, List.Forall₂ MapEntry.Same lhs reordered ∧ reordered.Perm rhs) ∧
    Equivalence (fun l r : List (MapEntry (Expr L)) => tableEntriesFormatEquivalent l r = true) ∧
    (List.Forall₂ MapEntry.Same lhs rhs → tableEntriesFormatEquivalent lhs rhs = true) ∧
    (((lhs.map fun entry => spanFreeKey entry.keys) = rhs.map fun entry => spanFreeKey entry.keys) →
      (lhs.map fun entry => spanFreeKey entry.keys).Nodup →
        (tableEntriesFormatEquivalent lhs rhs = true ↔ List.Forall₂ MapEntry.Same lhs rhs)) ∧
    (tableEntriesFormatEquivalent lhs rhs = true → ∀ entry : MapEntry (Expr L),
      lhs.countP entry.formatEquivalent = rhs.countP entry.formatEquivalent) := by
  refine ⟨tableEntriesFormatEquivalent_iff, ?_, ?_, ?_, ?_⟩
  · simp only [tableEntriesFormatEquivalent_iff]
    exact reordered_equivalence
  · intro h
    exact tableEntriesFormatEquivalent_iff.mpr (.of_forall₂ h)
  · intro hkeys hnodup
    rw [tableEntriesFormatEquivalent_iff]
    refine ⟨fun h => forall₂_of_reordered h ?_ hkeys hnodup, .of_forall₂⟩
    rintro entry entry' ⟨hsame, -⟩
    exact hsame
  · intro h entry
    refine (tableEntriesFormatEquivalent_iff.mp h).countP_eq fun a b hab => ?_
    rw [Bool.eq_iff_iff, MapEntry.formatEquivalent_iff, MapEntry.formatEquivalent_iff]
    constructor
    · intro ha
      exact entrySame_equivalence.trans ha hab
    · intro hb
      exact entrySame_equivalence.trans hb (entrySame_equivalence.symm hab)

end Decision

end ProvenGraphcal.Ast
