import Mathlib.Data.List.Lex
import ProvenGraphcal.Eval.RuntimeValue
import ProvenGraphcal.Library.RowMajor

/-!
# The placement of a map literal's entries

A layout records the cell that each entry fills. The flat buffer has one byte for each cell, so a
product of axis lengths beyond the address space panics.
-/

namespace ProvenGraphcal.MapLiteral

open RowMajor

/-- The identity of an index: a declared index, or `Fin(N)`. -/
inductive IndexTypeRef (N : Type)
  | declared (resolved : N)
  | finite (size : ℕ)
  deriving DecidableEq

variable {N : Type}

def IndexTypeRef.declaredResolved : IndexTypeRef N → Option N
  | declared resolved => some resolved
  | finite _ => none

/-- A concrete index with its distinct entry keys in axis order. -/
structure IndexAxis (N : Type) where
  index : IndexTypeRef N
  keys : NonEmpty IndexEntryKey
  nodup : keys.items.Nodup

def IndexAxis.len (axis : IndexAxis N) : ℕ := axis.keys.items.length

def IndexAxis.position (axis : IndexAxis N) (key : IndexEntryKey) : Option ℕ :=
  axis.keys.items.idxOf? key

inductive MapEntryKey (N : Type)
  | indexVariant (index : N) (variant : String)
  | finitePosition (size position : ℕ)

inductive MapLayoutError (N : Type)
  | noAxis
  | arity (keys axes : ℕ)
  | keyOutsideAxis (axis : IndexTypeRef N)
  | coverage (filled cells : ℕ)

/-- What ends a computation without a value. -/
inductive Fault (E : Type)
  | panic
  | error (error : E)

structure Placement where
  entry : ℕ
  cell : ℕ
  deriving DecidableEq

/-- A slice, which the address space bounds. -/
abbrev Slice (α : Type) := { items : List α // items.length < 2 ^ 63 }

/-- The placements fill every cell once. -/
structure MapLayout (N : Type) where
  axes : NonEmpty (IndexAxis N)
  placements : List Placement
  cells_perm : (placements.map Placement.cell).Perm
    (List.range (axes.items.map IndexAxis.len).prod)

/-- Mark the cells one by one and count those that were unmarked; an index outside panics. -/
def markCells (filled : List Bool) : List ℕ → Option ℕ
  | [] => some 0
  | cell :: cells =>
    match filled[cell]? with
    | none => none
    | some marked =>
      (markCells (filled.set cell true) cells).map fun count => if marked then count else count + 1

variable {filled : List Bool} {cells : List ℕ} {count : ℕ}

theorem markCells_eq_some (h : markCells filled cells = some count) :
    (∀ cell ∈ cells, cell < filled.length) ∧ count ≤ cells.length ∧
      (count = cells.length ↔ cells.Nodup ∧ ∀ cell ∈ cells, filled[cell]? = some false) := by
  induction cells generalizing filled count with
  | nil =>
    cases h
    simp
  | cons cell cells ih =>
    rw [markCells] at h
    cases hmarked : filled[cell]? with
    | none =>
      rw [hmarked] at h
      cases h
    | some marked =>
      rw [hmarked] at h
      obtain ⟨rest, hrest, rfl⟩ := Option.map_eq_some_iff.mp h
      obtain ⟨hbound, hle, hall⟩ := ih hrest
      have hcell : cell < filled.length := (List.getElem?_eq_some_iff.mp hmarked).1
      rw [List.length_set] at hbound
      refine ⟨List.forall_mem_cons.mpr ⟨hcell, hbound⟩, ?_, ?_⟩
      · rw [List.length_cons]
        split_ifs <;> omega
      · have hset : (∀ c ∈ cells, (filled.set cell true)[c]? = some false) ↔
            cell ∉ cells ∧ ∀ c ∈ cells, filled[c]? = some false := by
          constructor
          · intro hfree
            have hnot : cell ∉ cells := by
              intro hmem
              have hfalse := hfree cell hmem
              rw [List.getElem?_set_self hcell] at hfalse
              cases hfalse
            refine ⟨hnot, fun c hc => ?_⟩
            rw [← hfree c hc, List.getElem?_set_ne]
            rintro rfl
            exact hnot hc
          · rintro ⟨hnot, hfree⟩ c hc
            rw [List.getElem?_set_ne, hfree c hc]
            rintro rfl
            exact hnot hc
        rw [List.length_cons, List.nodup_cons, List.forall_mem_cons, hmarked]
        cases marked with
        | true =>
          constructor
          · intro hcount
            simp only [if_true] at hcount
            omega
          · rintro ⟨-, hfalse, -⟩
            cases hfalse
        | false =>
          simp only [Bool.false_eq_true, if_false, Nat.add_right_cancel_iff, true_and, hall]
          tauto

theorem markCells_isSome (h : ∀ cell ∈ cells, cell < filled.length) :
    ∃ count, markCells filled cells = some count := by
  induction cells generalizing filled with
  | nil => exact ⟨0, rfl⟩
  | cons cell cells ih =>
    obtain ⟨hcell, hrest⟩ := List.forall_mem_cons.mp h
    obtain ⟨count, hcount⟩ := @ih (filled.set cell true) (by simpa using hrest)
    refine ⟨if filled[cell] then count else count + 1, ?_⟩
    rw [markCells, List.getElem?_eq_getElem hcell]
    rw [hcount]
    rfl

/-- Marking fresh cells counts all of them when they are distinct. -/
theorem markCells_fresh {size : ℕ} (h : markCells (List.replicate size false) cells = some count) :
    count = cells.length ↔ cells.Nodup := by
  obtain ⟨hbound, -, hall⟩ := markCells_eq_some h
  rw [List.length_replicate] at hbound
  rw [hall]
  constructor
  · exact And.left
  · intro hnodup
    refine ⟨hnodup, fun cell hcell => ?_⟩
    rw [List.getElem?_replicate, if_pos (hbound cell hcell)]

theorem perm_of_markCells {size : ℕ} (h : markCells (List.replicate size false) cells = some count)
    (hcount : count = cells.length ∧ count = size) : cells.Perm (List.range size) := by
  obtain ⟨hbound, -, -⟩ := markCells_eq_some h
  rw [List.length_replicate] at hbound
  exact perm_range ((markCells_fresh h).mp hcount.1) hbound (hcount.1.symm.trans hcount.2)

variable [DecidableEq N]

/-- The entry that `key` names if it is an entry of `axis`. -/
def MapEntryKey.entry (axis : IndexAxis N) : MapEntryKey N → Option IndexEntryKey
  | indexVariant index variant =>
    if axis.index.declaredResolved = some index then some (.named variant) else none
  | finitePosition _ position => some (.position position)

/-- The position on `axis` of the entry `key` names. -/
def position (axis : IndexAxis N) (key : MapEntryKey N) : Except (MapLayoutError N) ℕ :=
  match (key.entry axis).bind axis.position with
  | some position => .ok position
  | none => .error (.keyOutsideAxis axis.index)

/-- The positions of an entry's keys on the axes, and its placement. -/
def keyedEntry (axes : List (IndexAxis N)) (entry : NonEmpty (MapEntryKey N) × ℕ) :
    Except (MapLayoutError N) (List ℕ × Placement) := do
  let keys := entry.1.items
  if keys.length ≠ axes.length then .error (.arity keys.length axes.length)
  else
    let positions ← (axes.zip keys).mapM fun item => position item.1 item.2
    return (positions, ⟨entry.2, flatIndex (axes.map IndexAxis.len) positions⟩)

/-- Entries are evaluated grouped by their positions on every axis but the last; the sort is stable.
-/
def sortGroups (groups : ℕ) (keyed : List (List ℕ × Placement)) : List Placement :=
  (keyed.mergeSort fun lhs rhs => decide (lhs.1.take groups ≤ rhs.1.take groups)).map Prod.snd

theorem sortGroups_perm (groups : ℕ) (keyed : List (List ℕ × Placement)) :
    (sortGroups groups keyed).Perm (keyed.map Prod.snd) :=
  (List.mergeSort_perm _ _).map _

/-- Place entries, in written order, on the axes. -/
def MapLayout.tryNew (axes : List (IndexAxis N)) (entries : Slice (NonEmpty (MapEntryKey N))) :
    Except (Fault (MapLayoutError N)) (MapLayout N) :=
  match NonEmpty.tryFromVec axes with
  | none => .error (.error .noAxis)
  | some axes =>
    let cells := (axes.items.map IndexAxis.len).prod
    if 2 ^ 63 ≤ cells then .error .panic
    else
      match entries.val.zipIdx.mapM (keyedEntry axes.items) with
      | .error error => .error (.error error)
      | .ok keyed =>
        match h : markCells (List.replicate cells false)
            ((keyed.map Prod.snd).map Placement.cell) with
        | none => .error .panic
        | some unique =>
          if hunique : unique = ((keyed.map Prod.snd).map Placement.cell).length ∧ unique = cells then
            .ok {
              axes := axes
              placements := sortGroups (axes.items.length - 1) keyed
              cells_perm :=
                ((sortGroups_perm _ keyed).map _).trans (perm_of_markCells h hunique) }
          else .error (.error (.coverage unique cells))

/-- The entry of an axis that a key names. -/
inductive MapEntryKey.Names (axis : IndexAxis N) : MapEntryKey N → IndexEntryKey → Prop
  | variant {index : N} {name : String} (declared : axis.index = .declared index) :
    Names axis (.indexVariant index name) (.named name)
  | position {size position : ℕ} : Names axis (.finitePosition size position) (.position position)

/-- One key of each axis. -/
abbrev IsCombination (axes : List (IndexAxis N)) (keys : List IndexEntryKey) : Prop :=
  List.Forall₂ (fun axis key => key ∈ axis.keys.items) axes keys

/-- The keys of an entry name a combination, axis by axis. -/
inductive NamesAll : List (IndexAxis N) → List (MapEntryKey N) → List IndexEntryKey → Prop
  | nil : NamesAll [] [] []
  | cons {axis : IndexAxis N} {axes : List (IndexAxis N)} {key : MapEntryKey N}
      {keys : List (MapEntryKey N)} {named : IndexEntryKey} {combination : List IndexEntryKey}
      (names : key.Names axis named) (mem : named ∈ axis.keys.items)
      (rest : NamesAll axes keys combination) :
    NamesAll (axis :: axes) (key :: keys) (named :: combination)

end ProvenGraphcal.MapLiteral
