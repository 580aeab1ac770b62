import Mathlib.Data.Finset.Insert
import ProvenGraphcal.Library.DependencyOrder

/-!
# Dependency graphs

Keys in insertion order, the dependencies and dependents of each node in edge insertion order, and
the set of edges. The tables stay consistent with one another under every insertion.
-/

namespace ProvenGraphcal

open DependencyOrder

variable {K E : Type}

/-- The tables of a graph. A node is the position of its key. -/
structure GraphTables (K E : Type) where
  keys : List K
  dependencies : List (List (ℕ × E))
  dependents : List (List ℕ)
  edges : Finset (ℕ × ℕ)

variable {label : E} {t : GraphTables K E} {α : Type}

namespace GraphTables

/-- The dependencies of a node and their labels. -/
def row (t : GraphTables K E) (node : ℕ) : List (ℕ × E) := (t.dependencies[node]?).getD []

def dependentRow (t : GraphTables K E) (node : ℕ) : List ℕ := (t.dependents[node]?).getD []

/-- "`v` depends on `w`", on nodes. -/
def Dep (t : GraphTables K E) (v w : ℕ) : Prop := (v, w) ∈ t.edges

/-- The tables describe one graph. -/
structure Consistent (t : GraphTables K E) : Prop where
  keys_nodup : t.keys.Nodup
  dependencies_length : t.dependencies.length = t.keys.length
  dependents_length : t.dependents.length = t.keys.length
  mem_row : ∀ v w, (v, w) ∈ t.edges ↔ w ∈ (t.row v).map Prod.fst
  row_nodup : ∀ v, ((t.row v).map Prod.fst).Nodup
  mem_dependentRow : ∀ v w, (v, w) ∈ t.edges ↔ v ∈ t.dependentRow w
  dependentRow_nodup : ∀ w, (t.dependentRow w).Nodup
  edge_lt : ∀ v w, (v, w) ∈ t.edges → v < t.keys.length ∧ w < t.keys.length

theorem dep_of_getElem? (ht : t.Consistent) {v cursor w : ℕ}
    (h : (t.row v)[cursor]? = some (w, label)) : t.Dep v w :=
  (ht.mem_row v w).mpr (List.mem_map_of_mem (List.mem_of_getElem? h))

def empty : GraphTables K E := ⟨[], [], [], ∅⟩

theorem consistent_empty : (empty : GraphTables K E).Consistent where
  keys_nodup := List.nodup_nil
  dependencies_length := rfl
  dependents_length := rfl
  mem_row v w := by simp [empty, row]
  row_nodup v := by simp [empty, row]
  mem_dependentRow v w := by simp [empty, dependentRow]
  dependentRow_nodup w := by simp [empty, dependentRow]
  edge_lt v w h := by simp [empty] at h

/-- A new edge with its label; an edge that is there keeps its first label. -/
def insertEdge (t : GraphTables K E) (dependent dependency : ℕ) (label : E) : GraphTables K E :=
  if (dependent, dependency) ∈ t.edges then t
  else { t with
    edges := insert (dependent, dependency) t.edges
    dependencies := t.dependencies.modify dependent (· ++ [(dependency, label)])
    dependents := t.dependents.modify dependency (· ++ [dependent]) }

theorem getD_modify (rows : List (List α)) (i v : ℕ) (x : α) (hi : i < rows.length) :
    ((rows.modify i (· ++ [x]))[v]?).getD [] =
      if v = i then (rows[v]?).getD [] ++ [x] else (rows[v]?).getD [] := by
  rw [List.getElem?_modify]
  by_cases hv : v = i
  · simp [hv, hi]
  · simp [hv, Ne.symm hv]

theorem getD_concat_nil (rows : List (List α)) (v : ℕ) :
    ((rows ++ [[]])[v]?).getD [] = (rows[v]?).getD [] := by
  rcases Nat.lt_trichotomy v rows.length with hv | rfl | hv
  · rw [List.getElem?_append_left hv]
  · simp
  · rw [List.getElem?_eq_none (by simpa using Nat.succ_le_of_lt hv), List.getElem?_eq_none hv.le]

theorem row_insertEdge (ht : t.Consistent) {dependent dependency : ℕ}
    (hlt : dependent < t.keys.length) (hnew : (dependent, dependency) ∉ t.edges) (v : ℕ) :
    (t.insertEdge dependent dependency label).row v =
      if v = dependent then t.row v ++ [(dependency, label)] else t.row v := by
  unfold insertEdge
  rw [if_neg hnew]
  exact getD_modify t.dependencies dependent v _ (ht.dependencies_length ▸ hlt)

theorem dependentRow_insertEdge (ht : t.Consistent) {dependent dependency : ℕ}
    (hlt : dependency < t.keys.length) (hnew : (dependent, dependency) ∉ t.edges) (w : ℕ) :
    (t.insertEdge dependent dependency label).dependentRow w =
      if w = dependency then t.dependentRow w ++ [dependent] else t.dependentRow w := by
  unfold insertEdge
  rw [if_neg hnew]
  exact getD_modify t.dependents dependency w _ (ht.dependents_length ▸ hlt)

theorem Consistent.insertEdge {t : GraphTables K E} (ht : t.Consistent)
    {dependent dependency : ℕ} (hdependent : dependent < t.keys.length)
    (hdependency : dependency < t.keys.length) (label : E) :
    (t.insertEdge dependent dependency label).Consistent := by
  by_cases hnew : (dependent, dependency) ∈ t.edges
  · rw [GraphTables.insertEdge, if_pos hnew]
    exact ht
  have hrow : ∀ v, (t.insertEdge dependent dependency label).row v =
      if v = dependent then t.row v ++ [(dependency, label)] else t.row v :=
    row_insertEdge ht hdependent hnew
  have hdependents : ∀ w, (t.insertEdge dependent dependency label).dependentRow w =
      if w = dependency then t.dependentRow w ++ [dependent] else t.dependentRow w :=
    dependentRow_insertEdge ht hdependency hnew
  have hedges : (t.insertEdge dependent dependency label).edges =
      insert (dependent, dependency) t.edges := by
    rw [GraphTables.insertEdge, if_neg hnew]
  have hkeys : (t.insertEdge dependent dependency label).keys = t.keys := by
    rw [GraphTables.insertEdge, if_neg hnew]
  refine ⟨hkeys ▸ ht.keys_nodup, ?_, ?_, ?_, ?_, ?_, ?_, ?_⟩
  · rw [hkeys, GraphTables.insertEdge, if_neg hnew, List.length_modify, ht.dependencies_length]
  · rw [hkeys, GraphTables.insertEdge, if_neg hnew, List.length_modify, ht.dependents_length]
  · intro v w
    rw [hedges, hrow, Finset.mem_insert, ht.mem_row]
    split_ifs with hv
    · simp [hv, or_comm]
    · simp [hv]
  · intro v
    rw [hrow]
    split_ifs with hv
    · rw [List.map_append, List.map_singleton]
      have hnotin : dependency ∉ (t.row v).map Prod.fst := by rwa [← ht.mem_row, hv]
      exact nodup_concat hnotin (ht.row_nodup v)
    · exact ht.row_nodup v
  · intro v w
    rw [hedges, hdependents, Finset.mem_insert, ht.mem_dependentRow]
    split_ifs with hw
    · simp [hw, or_comm]
    · simp [hw]
  · intro w
    rw [hdependents]
    split_ifs with hw
    · have hnotin : dependent ∉ t.dependentRow w := by rwa [← ht.mem_dependentRow, hw]
      exact nodup_concat hnotin (ht.dependentRow_nodup w)
    · exact ht.dependentRow_nodup w
  · intro v w hvw
    rw [hedges, Finset.mem_insert] at hvw
    rw [hkeys]
    rcases hvw with hvw | hvw
    · cases hvw
      exact ⟨hdependent, hdependency⟩
    · exact ht.edge_lt v w hvw

section Keys

variable [DecidableEq K]

/-- The node of a key, which is added if it is new. -/
def positionOf (t : GraphTables K E) (key : K) : ℕ × GraphTables K E :=
  if key ∈ t.keys then (t.keys.idxOf key, t)
  else (t.keys.length, { t with
    keys := t.keys ++ [key]
    dependencies := t.dependencies ++ [[]]
    dependents := t.dependents ++ [[]] })

theorem row_positionOf (t : GraphTables K E) (key : K) (v : ℕ) :
    (t.positionOf key).2.row v = t.row v := by
  unfold positionOf
  split_ifs with hmem
  · rfl
  · exact getD_concat_nil t.dependencies v

theorem dependentRow_positionOf (t : GraphTables K E) (key : K) (w : ℕ) :
    (t.positionOf key).2.dependentRow w = t.dependentRow w := by
  unfold positionOf
  split_ifs with hmem
  · rfl
  · exact getD_concat_nil t.dependents w

theorem edges_positionOf (t : GraphTables K E) (key : K) :
    (t.positionOf key).2.edges = t.edges := by
  unfold positionOf
  split_ifs <;> rfl

/-- The keys after a key is looked up: it is there, at its node, and the others keep theirs. -/
theorem keys_positionOf (t : GraphTables K E) (key : K) :
    (t.positionOf key).2.keys = if key ∈ t.keys then t.keys else t.keys ++ [key] := by
  unfold positionOf
  split_ifs <;> rfl

theorem getElem_positionOf (t : GraphTables K E) (key : K) :
    (t.positionOf key).2.keys[(t.positionOf key).1]? = some key := by
  unfold positionOf
  split_ifs with hmem
  · rw [List.getElem?_eq_getElem (List.idxOf_lt_length_iff.mpr hmem), List.getElem_idxOf]
  · simp

theorem keys_subset_positionOf (t : GraphTables K E) (key : K) :
    t.keys <+: (t.positionOf key).2.keys := by
  rw [keys_positionOf]
  split_ifs
  · exact List.prefix_refl _
  · exact List.prefix_append _ _

theorem getElem?_positionOf (key : K) {v : ℕ} (hv : v < t.keys.length) :
    (t.positionOf key).2.keys[v]? = t.keys[v]? := by
  rw [keys_positionOf]
  split_ifs
  · rfl
  · rw [List.getElem?_append_left hv]

theorem Consistent.positionOf {t : GraphTables K E} (ht : t.Consistent) (key : K) :
    (t.positionOf key).2.Consistent := by
  refine ⟨?_, ?_, ?_, ?_, ?_, ?_, ?_, ?_⟩
  · rw [keys_positionOf]
    split_ifs with hmem
    · exact ht.keys_nodup
    · exact nodup_concat hmem ht.keys_nodup
  · unfold GraphTables.positionOf
    split_ifs
    · exact ht.dependencies_length
    · simp [ht.dependencies_length]
  · unfold GraphTables.positionOf
    split_ifs
    · exact ht.dependents_length
    · simp [ht.dependents_length]
  · intro v w
    rw [edges_positionOf, row_positionOf]
    exact ht.mem_row v w
  · intro v
    rw [row_positionOf]
    exact ht.row_nodup v
  · intro v w
    rw [edges_positionOf, dependentRow_positionOf]
    exact ht.mem_dependentRow v w
  · intro w
    rw [dependentRow_positionOf]
    exact ht.dependentRow_nodup w
  · intro v w hvw
    rw [edges_positionOf] at hvw
    have hle := (t.keys_subset_positionOf key).length_le
    exact ⟨(ht.edge_lt v w hvw).1.trans_le hle, (ht.edge_lt v w hvw).2.trans_le hle⟩

end Keys

end GraphTables

/-- A directed graph of "depends on" edges, each with a label. -/
structure DependencyGraph (K E : Type) extends GraphTables K E where
  consistent : toGraphTables.Consistent

namespace DependencyGraph

variable [DecidableEq K]

def new : DependencyGraph K E := ⟨.empty, GraphTables.consistent_empty⟩

/-- Add a node; an existing key keeps its position. -/
def addNode (g : DependencyGraph K E) (key : K) : DependencyGraph K E :=
  ⟨(g.positionOf key).2, g.consistent.positionOf key⟩

theorem positionOf_lt (t : GraphTables K E) (key : K) :
    (t.positionOf key).1 < (t.positionOf key).2.keys.length := by
  by_contra hle
  have hkey := t.getElem_positionOf key
  rw [List.getElem?_eq_none (Nat.le_of_not_lt hle)] at hkey
  cases hkey

def addLabelledDependency (g : DependencyGraph K E) (dependent dependency : K) (label : E) :
    DependencyGraph K E :=
  let first := g.positionOf dependent
  let second := first.2.positionOf dependency
  ⟨second.2.insertEdge first.1 second.1 label,
    ((g.consistent.positionOf dependent).positionOf dependency).insertEdge
      ((positionOf_lt _ _).trans_le (first.2.keys_subset_positionOf dependency).length_le)
      (positionOf_lt _ _) label⟩

/-- Add an edge when both keys are nodes; also whether they are. -/
def addLabelledDependencyBetween (g : DependencyGraph K E) (dependent dependency : K)
    (label : E) : Bool × DependencyGraph K E :=
  if h : dependent ∈ g.keys ∧ dependency ∈ g.keys then
    (true, ⟨g.insertEdge (g.keys.idxOf dependent) (g.keys.idxOf dependency) label,
      g.consistent.insertEdge (List.idxOf_lt_length_iff.mpr h.1)
        (List.idxOf_lt_length_iff.mpr h.2) label⟩)
  else (false, g)

end DependencyGraph

end ProvenGraphcal
