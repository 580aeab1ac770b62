import ProvenGraphcal.Graph.DependencyGraph
import ProvenGraphcal.Library.DistinctKeys

/-!
# What a sequence of insertions records

The nodes and edges of a graph are those that its insertions name: duplicates change nothing, and
an edge has a label that was inserted with it.
-/

namespace ProvenGraphcal

variable {K E : Type}

inductive Insertion (K E : Type)
  | node (key : K)
  | dependency (dependent dependency : K) (label : E)
  | dependencyBetween (dependent dependency : K) (label : E)

variable {label : E}

namespace Insertion

def apply [DecidableEq K] (g : DependencyGraph K E) : Insertion K E → DependencyGraph K E
  | node key => g.addNode key
  | dependency a b label => g.addLabelledDependency a b label
  | dependencyBetween a b label => (g.addLabelledDependencyBetween a b label).2

/-- The keys an insertion makes nodes. -/
def keys : Insertion K E → List K
  | node key => [key]
  | dependency a b _ => [a, b]
  | dependencyBetween _ _ _ => []

/-- The edge an insertion adds to a graph with these nodes. -/
def Adds (nodes : Set K) (a b : K) (label : E) : Insertion K E → Prop
  | node _ => False
  | dependency a' b' label' => a = a' ∧ b = b' ∧ label = label'
  | dependencyBetween a' b' label' =>
    (a' ∈ nodes ∧ b' ∈ nodes) ∧ a = a' ∧ b = b' ∧ label = label'

def nodesOf (insertions : List (Insertion K E)) : Set K := {k | ∃ i ∈ insertions, k ∈ i.keys}

/-- The sequence inserts an edge with this label between these keys. -/
def Inserted (insertions : List (Insertion K E)) (a b : K) (label : E) : Prop :=
  ∃ before i after, insertions = before ++ i :: after ∧ i.Adds (nodesOf before) a b label

theorem nodesOf_concat (insertions : List (Insertion K E)) (i : Insertion K E) :
    nodesOf (insertions ++ [i]) = nodesOf insertions ∪ {k | k ∈ i.keys} := by
  ext k
  simp [nodesOf, or_and_right, exists_or]

theorem inserted_concat {insertions : List (Insertion K E)} {i : Insertion K E} {a b : K} :
    Inserted (insertions ++ [i]) a b label ↔
      Inserted insertions a b label ∨ i.Adds (nodesOf insertions) a b label := by
  constructor
  · rintro ⟨before, j, after, heq, hadds⟩
    rcases List.eq_nil_or_concat after with rfl | ⟨after', z, rfl⟩
    · obtain ⟨rfl, hj⟩ := List.append_inj' heq rfl
      obtain rfl : i = j := by simpa using hj
      exact .inr hadds
    · have heq' : insertions ++ [i] = (before ++ j :: after') ++ [z] := by simpa using heq
      obtain ⟨rfl, -⟩ := List.append_inj' heq' rfl
      exact .inl ⟨before, j, after', rfl, hadds⟩
  · rintro (⟨before, j, after, rfl, hadds⟩ | hadds)
    · exact ⟨before, j, after ++ [i], by simp, hadds⟩
    · exact ⟨insertions, i, [], rfl, hadds⟩

end Insertion

variable {t : GraphTables K E}

namespace GraphTables

/-- The edge between two keys has this label. -/
def HasEdge (t : GraphTables K E) (a b : K) (label : E) : Prop :=
  ∃ v w, t.keys[v]? = some a ∧ t.keys[w]? = some b ∧ (w, label) ∈ t.row v

theorem hasEdge_insertEdge (ht : t.Consistent) {a b : K} {v w : ℕ} (ha : t.keys[v]? = some a)
    (hb : t.keys[w]? = some b) {x y : K} {l : E} :
    (t.insertEdge v w label).HasEdge x y l ↔
      t.HasEdge x y l ∨ (v, w) ∉ t.edges ∧ x = a ∧ y = b ∧ l = label := by
  by_cases hnew : (v, w) ∈ t.edges
  · rw [insertEdge, if_pos hnew]
    simp [hnew]
  · have hlt : v < t.keys.length := (List.getElem?_eq_some_iff.mp ha).1
    have hrow : ∀ i, (t.insertEdge v w label).row i =
        if i = v then t.row i ++ [(w, label)] else t.row i := row_insertEdge ht hlt hnew
    have hkeys : (t.insertEdge v w label).keys = t.keys := by
      rw [insertEdge, if_neg hnew]
    unfold HasEdge
    rw [hkeys]
    constructor
    · rintro ⟨v', w', hx, hy, hmem⟩
      rw [hrow] at hmem
      split_ifs at hmem with hv
      · rcases List.mem_append.mp hmem with hmem | hmem
        · exact .inl ⟨v', w', hx, hy, hmem⟩
        · obtain ⟨rfl, rfl⟩ := Prod.mk.inj (List.mem_singleton.mp hmem)
          subst hv
          exact .inr ⟨hnew, Option.some.inj (hx.symm.trans ha), Option.some.inj (hy.symm.trans hb),
            rfl⟩
      · exact .inl ⟨v', w', hx, hy, hmem⟩
    · rintro (⟨v', w', hx, hy, hmem⟩ | ⟨-, rfl, rfl, rfl⟩)
      · refine ⟨v', w', hx, hy, ?_⟩
        rw [hrow]
        split_ifs
        · exact List.mem_append_left _ hmem
        · exact hmem
      · refine ⟨v, w, ha, hb, ?_⟩
        rw [hrow, if_pos rfl]
        simp

theorem hasEdge_of_mem_edges (ht : t.Consistent) {a b : K} {v w : ℕ} (ha : t.keys[v]? = some a)
    (hb : t.keys[w]? = some b) (h : (v, w) ∈ t.edges) :
    ∃ label, t.HasEdge a b label := by
  obtain ⟨⟨w', label⟩, hmem, rfl⟩ := List.mem_map.mp ((ht.mem_row v w).mp h)
  exact ⟨label, v, w', ha, hb, hmem⟩

theorem hasEdge_positionOf [DecidableEq K] (ht : t.Consistent) (key : K) {a b : K} :
    (t.positionOf key).2.HasEdge a b label ↔ t.HasEdge a b label := by
  constructor
  · rintro ⟨v, w, ha, hb, hmem⟩
    rw [row_positionOf] at hmem
    obtain ⟨hv, hw⟩ := ht.edge_lt v w ((ht.mem_row v w).mpr (List.mem_map_of_mem hmem))
    rw [getElem?_positionOf key hv] at ha
    rw [getElem?_positionOf key hw] at hb
    exact ⟨v, w, ha, hb, hmem⟩
  · rintro ⟨v, w, ha, hb, hmem⟩
    have hv := (List.getElem?_eq_some_iff.mp ha).1
    have hw := (List.getElem?_eq_some_iff.mp hb).1
    refine ⟨v, w, ?_, ?_, by rwa [row_positionOf]⟩
    · rwa [getElem?_positionOf key hv]
    · rwa [getElem?_positionOf key hw]

end GraphTables

/-- The graph has the nodes and edges that the sequence inserts, each edge with a label of its. -/
structure Records (g : DependencyGraph K E) (insertions : List (Insertion K E)) : Prop where
  mem_keys : ∀ k, k ∈ g.keys ↔ k ∈ Insertion.nodesOf insertions
  label : ∀ a b label, g.HasEdge a b label → Insertion.Inserted insertions a b label
  edge : ∀ a b label, Insertion.Inserted insertions a b label → ∃ l, g.HasEdge a b l

theorem keys_insertEdge (t : GraphTables K E) (v w : ℕ) (label : E) :
    (t.insertEdge v w label).keys = t.keys := by
  unfold GraphTables.insertEdge
  split_ifs <;> rfl

/-- Recording an edge between two keys that are nodes. -/
theorem hasEdge_record (ht : t.Consistent) {a b : K} {v w : ℕ} (ha : t.keys[v]? = some a)
    (hb : t.keys[w]? = some b) (label : E) :
    (∀ x y l, (t.insertEdge v w label).HasEdge x y l →
      t.HasEdge x y l ∨ x = a ∧ y = b ∧ l = label) ∧
    (∀ x y l, t.HasEdge x y l → (t.insertEdge v w label).HasEdge x y l) ∧
    ∃ l, (t.insertEdge v w label).HasEdge a b l := by
  refine ⟨fun x y l h => ?_, fun x y l h => ?_, ?_⟩
  · exact ((GraphTables.hasEdge_insertEdge ht ha hb).mp h).imp_right And.right
  · exact (GraphTables.hasEdge_insertEdge ht ha hb).mpr (.inl h)
  · by_cases hnew : (v, w) ∈ t.edges
    · obtain ⟨l, hl⟩ := GraphTables.hasEdge_of_mem_edges ht ha hb hnew
      exact ⟨l, (GraphTables.hasEdge_insertEdge ht ha hb).mpr (.inl hl)⟩
    · exact ⟨label, (GraphTables.hasEdge_insertEdge ht ha hb).mpr (.inr ⟨hnew, rfl, rfl, rfl⟩)⟩

variable [DecidableEq K]

theorem mem_keys_positionOf (t : GraphTables K E) (key k : K) :
    k ∈ (t.positionOf key).2.keys ↔ k ∈ t.keys ∨ k = key := by
  rw [GraphTables.keys_positionOf]
  split_ifs with hmem
  · exact ⟨.inl, fun h => h.elim id fun h => h ▸ hmem⟩
  · simp

theorem Records.apply {g : DependencyGraph K E} {insertions : List (Insertion K E)}
    (h : Records g insertions) (i : Insertion K E) : Records (i.apply g) (insertions ++ [i]) := by
  cases i with
  | node key =>
    have hedge : ∀ a b label, ((Insertion.node key).apply g).HasEdge a b label ↔
        g.HasEdge a b label := fun a b label => GraphTables.hasEdge_positionOf g.consistent key
    refine ⟨fun k => ?_, fun a b label hl => ?_, fun a b label hl => ?_⟩
    · rw [Insertion.nodesOf_concat, Set.mem_union, ← h.mem_keys k]
      change k ∈ (g.positionOf key).2.keys ↔ _
      simp [mem_keys_positionOf, Insertion.keys]
    · exact Insertion.inserted_concat.mpr (.inl (h.label a b label ((hedge a b label).mp hl)))
    · rcases Insertion.inserted_concat.mp hl with hl | hl
      · obtain ⟨l, hl⟩ := h.edge a b label hl
        exact ⟨l, (hedge a b l).mpr hl⟩
      · exact hl.elim
  | dependency a b label =>
    have hfirst := g.consistent.positionOf a
    have hsecond := hfirst.positionOf b
    have ha : ((g.positionOf a).2.positionOf b).2.keys[(g.positionOf a).1]? = some a := by
      rw [GraphTables.getElem?_positionOf b (DependencyGraph.positionOf_lt _ _)]
      exact g.getElem_positionOf a
    have hb := (g.positionOf a).2.getElem_positionOf b
    obtain ⟨hnew, hold, hadded⟩ := hasEdge_record hsecond ha hb label
    have hkept : ∀ x y l, ((g.positionOf a).2.positionOf b).2.HasEdge x y l ↔ g.HasEdge x y l :=
      fun x y l => (GraphTables.hasEdge_positionOf hfirst b).trans
        (GraphTables.hasEdge_positionOf g.consistent a)
    refine ⟨fun k => ?_, fun x y l hl => ?_, fun x y l hl => ?_⟩
    · rw [Insertion.nodesOf_concat, Set.mem_union, ← h.mem_keys k]
      change k ∈ (((g.positionOf a).2.positionOf b).2.insertEdge _ _ _).keys ↔ _
      simp [keys_insertEdge, mem_keys_positionOf, Insertion.keys, or_assoc]
    · rw [Insertion.inserted_concat]
      rcases hnew x y l hl with hl | hl
      · exact .inl (h.label x y l ((hkept x y l).mp hl))
      · exact .inr hl
    · rcases Insertion.inserted_concat.mp hl with hl | ⟨rfl, rfl, rfl⟩
      · obtain ⟨l', hl⟩ := h.edge x y l hl
        exact ⟨l', hold x y l' ((hkept x y l').mpr hl)⟩
      · exact hadded
  | dependencyBetween a b label =>
    by_cases hnodes : a ∈ g.keys ∧ b ∈ g.keys
    · have happly : ((Insertion.dependencyBetween a b label).apply g).toGraphTables =
          g.insertEdge (g.keys.idxOf a) (g.keys.idxOf b) label := by
        change (g.addLabelledDependencyBetween a b label).2.toGraphTables = _
        rw [DependencyGraph.addLabelledDependencyBetween, dif_pos hnodes]
      have hkey : ∀ {k}, k ∈ g.keys → g.keys[g.keys.idxOf k]? = some k := fun hk => by
        rw [List.getElem?_eq_getElem (List.idxOf_lt_length_iff.mpr hk), List.getElem_idxOf]
      obtain ⟨hnew, hold, hadded⟩ := hasEdge_record g.consistent (hkey hnodes.1) (hkey hnodes.2) label
      refine ⟨fun k => ?_, fun x y l hl => ?_, fun x y l hl => ?_⟩
      · rw [Insertion.nodesOf_concat, Set.mem_union, ← h.mem_keys k, happly]
        simp [keys_insertEdge, Insertion.keys]
      · rw [happly] at hl
        rw [Insertion.inserted_concat]
        rcases hnew x y l hl with hl | hl
        · exact .inl (h.label x y l hl)
        · exact .inr ⟨⟨(h.mem_keys a).mp hnodes.1, (h.mem_keys b).mp hnodes.2⟩, hl⟩
      · rw [happly]
        rcases Insertion.inserted_concat.mp hl with hl | ⟨-, rfl, rfl, rfl⟩
        · obtain ⟨l', hl⟩ := h.edge x y l hl
          exact ⟨l', hold x y l' hl⟩
        · exact hadded
    · have happly : (Insertion.dependencyBetween a b label).apply g = g := by
        change (g.addLabelledDependencyBetween a b label).2 = g
        rw [DependencyGraph.addLabelledDependencyBetween, dif_neg hnodes]
      rw [happly]
      refine ⟨fun k => ?_, fun x y l hl => ?_, fun x y l hl => ?_⟩
      · rw [Insertion.nodesOf_concat, Set.mem_union, ← h.mem_keys k]
        simp [Insertion.keys]
      · exact Insertion.inserted_concat.mpr (.inl (h.label x y l hl))
      · rcases Insertion.inserted_concat.mp hl with hl | ⟨hmem, -⟩
        · exact h.edge x y l hl
        · rw [← h.mem_keys, ← h.mem_keys] at hmem
          exact absurd hmem hnodes

/-- The graph that a sequence of insertions builds. -/
def DependencyGraph.build (insertions : List (Insertion K E)) : DependencyGraph K E :=
  insertions.foldl (fun g i => i.apply g) .new

theorem records_build (insertions : List (Insertion K E)) :
    Records (DependencyGraph.build insertions) insertions := by
  induction insertions using List.reverseRecOn with
  | nil =>
    refine ⟨fun k => ?_, fun a b label h => ?_, fun a b label h => ?_⟩
    · simp [DependencyGraph.build, DependencyGraph.new, GraphTables.empty, Insertion.nodesOf]
    · obtain ⟨v, w, ha, -⟩ := h
      simp [DependencyGraph.build, DependencyGraph.new, GraphTables.empty] at ha
    · obtain ⟨before, i, after, heq, -⟩ := h
      simp at heq
  | append_singleton insertions i ih =>
    unfold DependencyGraph.build
    rw [List.foldl_concat]
    exact ih.apply i

/-! ## Nodes first, then edges between them -/

/-- Every key as a node, then the edges whose ends are both nodes. -/
def nodesThenEdges (keys : List K) (edges : List (K × K)) : List (Insertion K Unit) :=
  keys.map .node ++ edges.map fun edge => .dependencyBetween edge.1 edge.2 ()

omit [DecidableEq K] in
theorem nodesOf_nodesThenEdges (keys : List K) (edges : List (K × K)) :
    Insertion.nodesOf (nodesThenEdges keys edges) = {k | k ∈ keys} := by
  ext k
  simp [Insertion.nodesOf, nodesThenEdges, or_and_right, exists_or, Insertion.keys]

omit [DecidableEq K] in
theorem inserted_nodesThenEdges {keys : List K} {edges : List (K × K)} {a b : K} :
    Insertion.Inserted (nodesThenEdges keys edges) a b () ↔
      a ∈ keys ∧ b ∈ keys ∧ (a, b) ∈ edges := by
  induction edges using List.reverseRecOn with
  | nil =>
    refine iff_of_false ?_ fun h => by simp at h
    rintro ⟨before, i, after, heq, hadds⟩
    have hi : i ∈ nodesThenEdges keys [] := heq ▸ by simp
    obtain ⟨k, -, rfl⟩ : ∃ k ∈ keys, Insertion.node k = i := by simpa [nodesThenEdges] using hi
    exact hadds
  | append_singleton edges edge ih =>
    have hconcat : nodesThenEdges keys (edges ++ [edge]) =
        nodesThenEdges keys edges ++ [.dependencyBetween edge.1 edge.2 ()] := by
      simp [nodesThenEdges]
    rw [hconcat, Insertion.inserted_concat, ih, nodesOf_nodesThenEdges, List.mem_append,
      List.mem_singleton]
    constructor
    · rintro (⟨ha, hb, hmem⟩ | ⟨⟨ha, hb⟩, rfl, rfl, -⟩)
      · exact ⟨ha, hb, .inl hmem⟩
      · exact ⟨ha, hb, .inr rfl⟩
    · rintro ⟨ha, hb, hmem | rfl⟩
      · exact .inl ⟨ha, hb, hmem⟩
      · exact .inr ⟨⟨ha, hb⟩, rfl, rfl, rfl⟩

/-- The keys stand in the order of their first occurrence. -/
theorem keys_nodesThenEdges (keys : List K) (edges : List (K × K)) :
    (DependencyGraph.build (nodesThenEdges keys edges)).keys = FirstSeen.firstSeen keys := by
  unfold DependencyGraph.build nodesThenEdges
  rw [List.foldl_append]
  have hnodes : ∀ (g : DependencyGraph K Unit) (keys : List K),
      ((keys.map Insertion.node).foldl (fun g i => i.apply g) g).keys =
        keys.foldl FirstSeen.see g.keys := by
    intro g keys
    induction keys generalizing g with
    | nil => rfl
    | cons key keys ih =>
      have hkey : ((Insertion.node key).apply g).keys = FirstSeen.see g.keys key :=
        GraphTables.keys_positionOf g.toGraphTables key
      rw [List.map_cons, List.foldl_cons, List.foldl_cons, ih, hkey]
  have hedges : ∀ (g : DependencyGraph K Unit) (edges : List (K × K)),
      ((edges.map fun edge => Insertion.dependencyBetween edge.1 edge.2 ()).foldl
        (fun g i => i.apply g) g).keys = g.keys := by
    intro g edges
    induction edges generalizing g with
    | nil => rfl
    | cons edge edges ih =>
      rw [List.map_cons, List.foldl_cons, ih]
      change (g.addLabelledDependencyBetween edge.1 edge.2 ()).2.keys = g.keys
      unfold DependencyGraph.addLabelledDependencyBetween
      split_ifs
      · exact keys_insertEdge _ _ _ _
      · rfl
  rw [hedges, hnodes]
  rfl

end ProvenGraphcal
