import Mathlib.Data.List.Sort
import ProvenGraphcal.Graph.DependencyGraph
import ProvenGraphcal.Graph.DepthFirst
import ProvenGraphcal.Graph.Insertion
import ProvenGraphcal.Library.Loop

/-!
# Kahn's algorithm

Emission ranks under a FIFO queue. A node is ready when it has no dependency left that is not
emitted; on a graph with an ordered list of its nodes every node becomes ready.
-/

namespace ProvenGraphcal

open DependencyOrder
open Function (update update_of_ne)

variable {K E : Type}

structure Emission where
  pending : ℕ → ℕ
  ready : List ℕ
  rank : ℕ → ℕ
  emitted : ℕ

/-- One dependent of the emitted node: ready when nothing is pending. -/
def release (acc : (ℕ → ℕ) × List ℕ) (dependent : ℕ) : (ℕ → ℕ) × List ℕ :=
  let pending := Function.update acc.1 dependent (acc.1 dependent - 1)
  if pending dependent = 0 then (pending, acc.2 ++ [dependent]) else (pending, acc.2)

namespace GraphTables

variable (t : GraphTables K E)

def kahnStep (e : Emission) : Option Emission :=
  match e.ready with
  | [] => none
  | node :: ready =>
    let released := (t.dependentRow node).foldl release (e.pending, ready)
    some {
      pending := released.1
      ready := released.2
      rank := Function.update e.rank node e.emitted
      emitted := e.emitted + 1 }

def kahnStart : Emission where
  pending v := (t.row v).length
  ready := (List.range t.keys.length).filter fun v => (t.row v).length = 0
  rank _ := 0
  emitted := 0

def kahnEmission : Emission := Loop.runWhile t.kahnStep t.keys.length t.kahnStart

/-- Emission rank of every node under FIFO Kahn. -/
def kahnRanks : List ℕ := (List.range t.keys.length).map t.kahnEmission.rank

end GraphTables

theorem foldl_release {dependents : List ℕ} (hnodup : dependents.Nodup) (pending : ℕ → ℕ)
    (ready : List ℕ) :
    dependents.foldl release (pending, ready) =
      (fun v => if v ∈ dependents then pending v - 1 else pending v,
        ready ++ dependents.filter fun v => pending v - 1 = 0) := by
  induction dependents generalizing pending ready with
  | nil => simp
  | cons v rest ih =>
    obtain ⟨hv, hrest⟩ := List.nodup_cons.mp hnodup
    have hother : ∀ w, w ≠ v → update pending v (pending v - 1) w = pending w :=
      fun w hw => update_of_ne hw _ _
    have hpending : (fun w => if w ∈ rest then update pending v (pending v - 1) w - 1
        else update pending v (pending v - 1) w) =
        fun w => if w ∈ v :: rest then pending w - 1 else pending w := by
      funext w
      rcases eq_or_ne w v with rfl | hw
      · simp [hv]
      · simp [hw]
    have hfilter : (rest.filter fun w => update pending v (pending v - 1) w - 1 = 0) =
        rest.filter fun w => pending w - 1 = 0 := by
      refine List.filter_congr fun w hw => ?_
      rw [hother w fun h => hv (h ▸ hw)]
    have hrelease : release (pending, ready) v = (update pending v (pending v - 1),
        ready ++ if pending v - 1 = 0 then [v] else []) := by
      unfold release
      simp only [Function.update_self]
      split_ifs <;> simp
    rw [List.foldl_cons, hrelease, ih hrest, hpending, hfilter, List.filter_cons]
    simp only [decide_eq_true_eq]
    split_ifs <;> simp

/-- Emitting one element of a list takes one from the number of elements not emitted. -/
theorem countP_notMem_concat {l order : List ℕ} (hl : l.Nodup) {v : ℕ} (hv : v ∉ order) :
    l.countP (fun w => decide (w ∉ order ++ [v])) =
      if v ∈ l then l.countP (fun w => decide (w ∉ order)) - 1
      else l.countP (fun w => decide (w ∉ order)) := by
  induction l with
  | nil => simp
  | cons u rest ih =>
    obtain ⟨hu, hrest⟩ := List.nodup_cons.mp hl
    have hih := ih hrest
    rcases eq_or_ne u v with rfl | huv
    · rw [if_neg hu] at hih
      rw [List.countP_cons, List.countP_cons, hih, if_pos List.mem_cons_self]
      simp [hv]
    · have hmem : (u ∈ order ++ [v]) = (u ∈ order) := by simp [huv]
      have hpos : v ∈ rest → 0 < rest.countP fun w => decide (w ∉ order) := fun hmem =>
        List.countP_pos_iff.mpr ⟨v, hmem, by simpa using hv⟩
      have hcons : v ∈ u :: rest ↔ v ∈ rest := by simp [Ne.symm huv]
      simp only [List.countP_cons, hih, hmem, hcons]
      split_ifs with hrest'
      · have hlt := hpos hrest'
        omega
      all_goals rfl

namespace GraphTables

variable {t : GraphTables K E}

/-- The emitted nodes `order` account for what is pending, ready and ranked. -/
structure KahnInv (t : GraphTables K E) (order : List ℕ) (e : Emission) : Prop where
  emitted : e.emitted = order.length
  nodup : (order ++ e.ready).Nodup
  lt : ∀ v ∈ order ++ e.ready, v < t.keys.length
  pending : ∀ v, e.pending v = ((t.row v).map Prod.fst).countP fun w => decide (w ∉ order)
  ready : ∀ v < t.keys.length, v ∈ order ++ e.ready ↔ e.pending v = 0
  inOrder : InOrder t.Dep order
  rank : ∀ v ∈ order, e.rank v = order.idxOf v

theorem KahnInv.pending_eq_zero {order : List ℕ} {e : Emission} (h : KahnInv t order e)
    (ht : t.Consistent) {v : ℕ} : e.pending v = 0 ↔ ∀ w, t.Dep v w → w ∈ order := by
  rw [h.pending, List.countP_eq_zero]
  refine forall_congr' fun w => ?_
  rw [← ht.mem_row v w]
  simp [Dep]

theorem KahnInv.length_le {order : List ℕ} {e : Emission} (h : KahnInv t order e) :
    order.length ≤ t.keys.length := by
  have hnodup : order.Nodup := h.nodup.sublist (List.sublist_append_left _ _)
  have hsub : order.Subperm (List.range t.keys.length) :=
    List.subperm_of_subset hnodup fun v hv =>
      List.mem_range.mpr (h.lt v (List.mem_append_left _ hv))
  simpa using hsub.length_le

theorem kahnInv_start : KahnInv t [] t.kahnStart := by
  refine ⟨rfl, ?_, fun v hv => ?_, fun v => ?_, fun v hv => ?_, inOrder_nil, nofun⟩
  · exact List.nodup_range.filter _
  · exact List.mem_range.mp (List.mem_filter.mp hv).1
  · simp [kahnStart]
  · simp [kahnStart, hv]

theorem KahnInv.step {order : List ℕ} {e next : Emission} (h : KahnInv t order e)
    (ht : t.Consistent) (hstep : t.kahnStep e = some next) :
    ∃ node, KahnInv t (order ++ [node]) next := by
  unfold kahnStep at hstep
  split at hstep
  case h_1 => cases hstep
  case h_2 node ready hready =>
    rw [foldl_release (ht.dependentRow_nodup node)] at hstep
    cases hstep
    refine ⟨node, ?_⟩
    have hnodup := h.nodup
    rw [hready] at hnodup
    have hnode : node ∉ order := fun hmem =>
      (List.nodup_append.mp hnodup).2.2 node hmem node List.mem_cons_self rfl
    have hassoc : ∀ rest, (order ++ [node]) ++ (ready ++ rest) =
        (order ++ node :: ready) ++ rest := fun rest => by simp
    have hdependents : ∀ v, v ∈ t.dependentRow node ↔ node ∈ (t.row v).map Prod.fst := fun v =>
      (ht.mem_dependentRow v node).symm.trans (ht.mem_row v node)
    -- A dependent of the node counts the node, so it was not ready.
    have hwaiting : ∀ v ∈ t.dependentRow node, 0 < e.pending v := fun v hv => by
      rw [h.pending, List.countP_pos_iff]
      exact ⟨node, (hdependents v).mp hv, by simpa using hnode⟩
    have hfresh : ∀ v ∈ t.dependentRow node, v ∉ order ++ node :: ready := fun v hv hmem => by
      rw [← hready] at hmem
      have hzero := (h.ready v (h.lt v hmem)).mp hmem
      have hpos := hwaiting v hv
      omega
    have hlt : ∀ v ∈ t.dependentRow node, v < t.keys.length := fun v hv =>
      (ht.edge_lt v node ((ht.mem_dependentRow v node).mpr hv)).1
    have hdeps : ∀ w, t.Dep node w → w ∈ order := by
      have hmem : node ∈ order ++ e.ready := by simp [hready]
      exact (h.pending_eq_zero ht).mp ((h.ready node (h.lt node hmem)).mp hmem)
    refine ⟨?_, ?_, fun v hv => ?_, fun v => ?_, fun v hv => ?_, h.inOrder.concat hdeps,
      fun v hv => ?_⟩
    · simp [h.emitted]
    · rw [hassoc, List.nodup_append]
      refine ⟨hnodup, (ht.dependentRow_nodup node).filter _, fun v hv w hw heq => ?_⟩
      exact hfresh w (List.mem_filter.mp hw).1 (heq ▸ hv)
    · rw [hassoc, ← hready] at hv
      rcases List.mem_append.mp hv with hv | hv
      · exact h.lt v hv
      · exact hlt v (List.mem_filter.mp hv).1
    · dsimp only
      rw [countP_notMem_concat (ht.row_nodup v) hnode, h.pending]
      simp only [hdependents]
    · rw [hassoc, List.mem_append]
      by_cases hmem : v ∈ t.dependentRow node
      · simp [hfresh v hmem, hmem]
      · rw [← hready, h.ready v hv]
        simp [hmem]
    · rw [List.idxOf_append]
      rcases eq_or_ne v node with rfl | hne
      · simp [hnode, h.emitted]
      · have hv' := (List.mem_append.mp hv).resolve_right fun hv => hne (List.mem_singleton.mp hv)
        rw [if_pos hv', ← h.rank v hv']
        exact update_of_ne hne _ _

/-- With an ordered list of the nodes, Kahn's algorithm emits every node, ranked by position. -/
theorem kahn_order (ht : t.Consistent) {ordered : List ℕ}
    (hperm : ordered.Perm (List.range t.keys.length)) (hordered : InOrder t.Dep ordered) :
    ∃ order : List ℕ, order.Perm (List.range t.keys.length) ∧ InOrder t.Dep order ∧
      ∀ v ∈ order, t.kahnEmission.rank v = order.idxOf v := by
  have hinv := Loop.runWhile_invariant (fun e => ∃ order, KahnInv t order e)
    (fun e next ⟨order, h⟩ hstep => (h.step ht hstep).imp' (order ++ [·]) fun _ => id)
    t.keys.length ⟨[], kahnInv_start⟩
  have hstop := Loop.runWhile_stops (fun e => ∃ order, KahnInv t order e)
    (fun e => t.keys.length - e.emitted)
    (fun e next ⟨order, h⟩ hstep => (h.step ht hstep).imp' (order ++ [·]) fun _ => id)
    (fun e next ⟨order, h⟩ hstep => by
      obtain ⟨node, h'⟩ := h.step ht hstep
      have hle := h'.length_le
      have hlength := h'.emitted
      have hemitted := h.emitted
      rw [List.length_append, List.length_singleton] at hle hlength
      omega)
    ⟨[], kahnInv_start⟩ (Nat.sub_le t.keys.length t.kahnStart.emitted)
  obtain ⟨order, h⟩ := hinv
  have hready : t.kahnEmission.ready = [] := by
    unfold kahnStep at hstop
    split at hstop
    case h_1 hready => exact hready
    case h_2 => cases hstop
  have hall : ∀ v ∈ ordered, v ∈ order := by
    refine hordered.induction fun v hv hdeps => ?_
    have hmem := (h.ready v (List.mem_range.mp (hperm.mem_iff.mp hv))).mpr
      ((h.pending_eq_zero ht).mpr hdeps)
    have hnil : (Loop.runWhile t.kahnStep t.keys.length t.kahnStart).ready = [] := hready
    rwa [hnil, List.append_nil] at hmem
  refine ⟨order, ?_, h.inOrder, h.rank⟩
  have hnodup : order.Nodup := h.nodup.sublist (List.sublist_append_left _ _)
  refine (List.perm_ext_iff_of_nodup hnodup List.nodup_range).mpr fun v => ?_
  exact ⟨fun hv => List.mem_range.mpr (h.lt v (List.mem_append_left _ hv)),
    fun hv => hall v (hperm.mem_iff.mpr hv)⟩

end GraphTables

/-!
# Orders and cycles of a dependency graph

Both orders are found by the depth-first search or refuted by its cycle; node indices are read
back as keys.
-/

open DependencyOrder
open List (idxOf_inj map_map mem_cons_of_mem mem_cons_self mem_map mem_of_getElem? mem_range
  nodup_range)

variable {K E : Type}

/-- Every node of an acyclic graph, each after all of its dependencies. -/
structure TopoOrder (K : Type) where
  order : List K

structure Cycle (K E : Type) where
  entry : K
  rest : List K
  closing : E

def Cycle.path (c : Cycle K E) : List K := c.entry :: c.rest

variable {a : K} {nodes : List ℕ}

namespace GraphTables

variable (t : GraphTables K E)

/-- `none` where an index is not a node. -/
def cycleFromIndices (cycle : IndexCycle E) : Option (Cycle K E) := do
  let entry ← t.keys[cycle.entry]?
  let rest ← cycle.rest.mapM fun node => t.keys[node]?
  return ⟨entry, rest, cycle.closing⟩

/-- `post_order.into_iter().filter_map(|node| keys[node].take())`. -/
def takeKeys (slots : List (Option K)) : List ℕ → Option (List K)
  | [] => some []
  | node :: rest => do
    let slot ← slots[node]?
    let taken ← takeKeys (slots.set node none) rest
    return slot.toList ++ taken

def intoTopoOrder : Option (Except (Cycle K E) (TopoOrder K)) :=
  match t.depthFirst with
  | .error cycle => (t.cycleFromIndices cycle).map .error
  | .ok _ =>
    let ranked := (t.kahnRanks.zip t.keys).insertionSort fun a b => a.1 ≤ b.1
    some (.ok ⟨ranked.map Prod.snd⟩)

def intoDepthFirstOrder : Option (Except (Cycle K E) (TopoOrder K)) :=
  match t.depthFirst with
  | .error cycle => (t.cycleFromIndices cycle).map .error
  | .ok postOrder => (takeKeys (t.keys.map some) postOrder).map fun order => .ok ⟨order⟩

/-! ## Keys of nodes -/

def keysAt (nodes : List ℕ) : List K := nodes.filterMap fun node => t.keys[node]?

variable {t}

theorem keysAt_cons {v : ℕ} (h : t.keys[v]? = some a) (rest : List ℕ) :
    t.keysAt (v :: rest) = a :: t.keysAt rest := by
  unfold keysAt
  rw [List.filterMap_cons, h]

theorem mapM_keys (h : ∀ v ∈ nodes, v < t.keys.length) :
    (nodes.mapM fun node => t.keys[node]?) = some (t.keysAt nodes) := by
  induction nodes with
  | nil => rfl
  | cons v rest ih =>
    have hv := List.getElem?_eq_getElem (h v mem_cons_self)
    rw [List.mapM_cons, hv, ih fun w hw => h w (mem_cons_of_mem _ hw), keysAt_cons hv]
    rfl

theorem takeKeys_eq (hnodup : nodes.Nodup) (slots : List (Option K))
    (h : ∀ v ∈ nodes, slots[v]? = (t.keys[v]?).map some) (hlt : ∀ v ∈ nodes, v < t.keys.length) :
    takeKeys slots nodes = some (t.keysAt nodes) := by
  induction nodes generalizing slots with
  | nil => rfl
  | cons v rest ih =>
    obtain ⟨hv, hrest⟩ := List.nodup_cons.mp hnodup
    have hkey := List.getElem?_eq_getElem (hlt v mem_cons_self)
    have hslot := h v mem_cons_self
    rw [hkey] at hslot
    have htail := ih hrest (slots.set v none) (fun w hw => ?_)
      fun w hw => hlt w (mem_cons_of_mem _ hw)
    · rw [takeKeys, hslot, htail, keysAt_cons hkey]
      rfl
    · have hne : v ≠ w := fun heq => hv (heq ▸ hw)
      rw [List.getElem?_set_ne hne]
      exact h w (mem_cons_of_mem _ hw)

theorem keysAt_range (t : GraphTables K E) : t.keysAt (List.range t.keys.length) = t.keys := by
  have hgen : ∀ n, n ≤ t.keys.length → t.keysAt (List.range n) = t.keys.take n := by
    intro n
    induction n with
    | zero => exact fun _ => rfl
    | succ n ih =>
      intro hle
      have hkey := List.getElem?_eq_getElem (Nat.lt_of_succ_le hle)
      have hprefix := ih (Nat.le_of_succ_le hle)
      unfold keysAt at hprefix ⊢
      rw [List.range_succ, List.filterMap_append, hprefix, List.take_add_one, hkey]
      simp [hkey]
  rw [hgen _ le_rfl, List.take_length]

section Positions

variable [DecidableEq K]

theorem Consistent.idxOf_getElem (ht : t.Consistent) {v : ℕ} {a : K} (h : t.keys[v]? = some a) :
    t.keys.idxOf a = v := by
  obtain ⟨hlt, rfl⟩ := List.getElem?_eq_some_iff.mp h
  exact ht.keys_nodup.idxOf_getElem v hlt

theorem getElem_idxOf {a : K} (h : a ∈ t.keys) : t.keys[t.keys.idxOf a]? = some a := by
  rw [List.getElem?_eq_getElem (List.idxOf_lt_length_iff.mpr h), List.getElem_idxOf]

section

variable (ht : t.Consistent)

include ht

theorem map_idxOf_keysAt (h : ∀ v ∈ nodes, v < t.keys.length) :
    (t.keysAt nodes).map t.keys.idxOf = nodes := by
  induction nodes with
  | nil => rfl
  | cons v rest ih =>
    have hv := List.getElem?_eq_getElem (h v mem_cons_self)
    have hrest := ih fun w hw => h w (mem_cons_of_mem _ hw)
    rw [keysAt_cons hv, List.map_cons, hrest, ht.idxOf_getElem hv]

theorem mem_keysAt : a ∈ t.keysAt nodes ↔ a ∈ t.keys ∧ t.keys.idxOf a ∈ nodes := by
  unfold keysAt
  rw [List.mem_filterMap]
  constructor
  · rintro ⟨v, hv, ha⟩
    exact ⟨mem_of_getElem? ha, ht.idxOf_getElem ha ▸ hv⟩
  · rintro ⟨ha, hmem⟩
    exact ⟨_, hmem, getElem_idxOf ha⟩

theorem nodup_keysAt (hlt : ∀ v ∈ nodes, v < t.keys.length) (h : nodes.Nodup) :
    (t.keysAt nodes).Nodup := by
  rw [← map_idxOf_keysAt ht hlt] at h
  exact h.of_map _

theorem hasEdge_iff {b : K} {label : E} :
    t.HasEdge a b label ↔
      a ∈ t.keys ∧ b ∈ t.keys ∧ (t.keys.idxOf b, label) ∈ t.row (t.keys.idxOf a) := by
  constructor
  · rintro ⟨v, w, ha, hb, hmem⟩
    rw [ht.idxOf_getElem ha, ht.idxOf_getElem hb]
    exact ⟨mem_of_getElem? ha, mem_of_getElem? hb, hmem⟩
  · rintro ⟨ha, hb, hmem⟩
    exact ⟨_, _, getElem_idxOf ha, getElem_idxOf hb, hmem⟩

end

/-- "`a` depends on `b`", on keys. -/
def DepKeys (t : GraphTables K E) (a b : K) : Prop := ∃ label, t.HasEdge a b label

section

variable (ht : t.Consistent)

include ht

theorem depKeys_iff {b : K} :
    t.DepKeys a b ↔ a ∈ t.keys ∧ b ∈ t.keys ∧ t.Dep (t.keys.idxOf a) (t.keys.idxOf b) := by
  unfold DepKeys Dep
  simp only [hasEdge_iff ht, ht.mem_row, mem_map]
  constructor
  · rintro ⟨label, ha, hb, hmem⟩
    exact ⟨ha, hb, _, hmem, rfl⟩
  · rintro ⟨ha, hb, ⟨w, label⟩, hmem, rfl⟩
    exact ⟨label, ha, hb, hmem⟩

theorem keysAt_perm (hperm : nodes.Perm (List.range t.keys.length)) :
    (t.keysAt nodes).Perm t.keys := by
  have hlt : ∀ v ∈ nodes, v < t.keys.length := fun v hv =>
    mem_range.mp (hperm.mem_iff.mp hv)
  have hnodup := nodup_keysAt ht hlt (hperm.nodup_iff.mpr nodup_range)
  refine (List.perm_ext_iff_of_nodup hnodup ht.keys_nodup).mpr fun a => ?_
  rw [mem_keysAt ht, hperm.mem_iff, mem_range, List.idxOf_lt_length_iff]
  exact and_self_iff

theorem inOrder_keysAt (hlt : ∀ v ∈ nodes, v < t.keys.length) (h : InOrder t.Dep nodes) :
    InOrder t.DepKeys (t.keysAt nodes) := by
  refine InOrder.of_map t.keys.idxOf (by rwa [map_idxOf_keysAt ht hlt]) fun a _ b hab => ?_
  obtain ⟨ha, hb, hdep⟩ := (depKeys_iff ht).mp hab
  refine ⟨hdep, fun c hc heq => ?_⟩
  exact (idxOf_inj ((mem_keysAt ht).mp hc).1).mp heq

theorem isCycle_keysAt (h : IsCycle t.Dep nodes) (hlt : ∀ v ∈ nodes, v < t.keys.length) :
    IsCycle t.DepKeys (t.keysAt nodes) := by
  refine IsCycle.of_map t.keys.idxOf (by rwa [map_idxOf_keysAt ht hlt]) fun a ha b hb hab => ?_
  exact (depKeys_iff ht).mpr ⟨((mem_keysAt ht).mp ha).1, ((mem_keysAt ht).mp hb).1, hab⟩

/-- Sorted by rank, the keys stand in the order in which their nodes were emitted. -/
theorem ranked_eq {order : List ℕ} (hperm : order.Perm (List.range t.keys.length))
    (hrank : ∀ v ∈ order, t.kahnEmission.rank v = order.idxOf v) :
    ((t.kahnRanks.zip t.keys).insertionSort fun a b => a.1 ≤ b.1).map Prod.snd =
      t.keysAt order := by
  have hlt : ∀ v ∈ order, v < t.keys.length := fun v hv =>
    mem_range.mp (hperm.mem_iff.mp hv)
  have hnodup : order.Nodup := hperm.nodup_iff.mpr nodup_range
  have hkeys := keysAt_perm ht hperm
  let ranked : K → ℕ × K := fun a => (t.kahnEmission.rank (t.keys.idxOf a), a)
  have hzip : t.kahnRanks.zip t.keys = t.keys.map ranked := by
    refine List.ext_getElem (by simp [kahnRanks]) fun i hi hi' => ?_
    have hkey : i < t.keys.length := by simpa using hi'
    simp [kahnRanks, ranked, ht.keys_nodup.idxOf_getElem i hkey]
  have hranks : (t.keysAt order).map (fun a => t.kahnEmission.rank (t.keys.idxOf a)) =
      List.range order.length := by
    rw [← Function.comp_def t.kahnEmission.rank t.keys.idxOf, ← map_map,
      map_idxOf_keysAt ht hlt]
    refine List.ext_getElem (by simp) fun i hi hi' => ?_
    have horder : i < order.length := by simpa using hi
    simp [hrank _ (List.getElem_mem horder), hnodup.idxOf_getElem i horder]
  have hsorted : ((t.keysAt order).map ranked).Pairwise fun a b => a.1 ≤ b.1 := by
    have hle : (List.range order.length).Pairwise (· ≤ ·) :=
      List.pairwise_lt_range.imp Nat.le_of_lt
    rw [← hranks, List.pairwise_map] at hle
    rwa [List.pairwise_map]
  have heq : (t.kahnRanks.zip t.keys).insertionSort (fun a b => a.1 ≤ b.1) =
      (t.keysAt order).map ranked := by
    have hsort := List.perm_insertionSort (fun a b : ℕ × K => a.1 ≤ b.1) (t.keys.map ranked)
    rw [hzip]
    refine (hsort.trans (hkeys.map ranked).symm).eq_of_pairwise (fun x y hx hy hxy hyx => ?_)
      (List.pairwise_insertionSort _ _) hsorted
    -- Two keys of one rank are one key.
    obtain ⟨a, ha, rfl⟩ := mem_map.mp ((List.mem_insertionSort _).mp hx)
    obtain ⟨b, hb, rfl⟩ := mem_map.mp hy
    have hb' := hkeys.mem_iff.mp hb
    have hnodes : ∀ {c}, c ∈ t.keys → t.keys.idxOf c ∈ order := fun hc =>
      hperm.mem_iff.mpr (mem_range.mpr (List.idxOf_lt_length_iff.mpr hc))
    have hranks : t.kahnEmission.rank (t.keys.idxOf a) = t.kahnEmission.rank (t.keys.idxOf b) :=
      Nat.le_antisymm hxy hyx
    rw [hrank _ (hnodes ha), hrank _ (hnodes hb'), idxOf_inj (hnodes ha),
      idxOf_inj ha] at hranks
    rw [hranks]
  rw [heq, map_map]
  exact List.map_id _

end

end Positions

section Orders

variable [DecidableEq K]

/-- What both ordering functions promise about a graph. -/
structure Ordered (t : GraphTables K E) (result : Except (Cycle K E) (TopoOrder K)) : Prop where
  order : ∀ o, result = .ok o → o.order.Perm t.keys ∧ InOrder t.DepKeys o.order
  cycle : ∀ c, result = .error c → IsCycle t.DepKeys c.path ∧
    ∀ last ∈ c.path.getLast?, t.HasEdge last c.entry c.closing

omit [DecidableEq K] in
theorem lt_of_isCycle (ht : t.Consistent) (h : IsCycle t.Dep nodes) :
    ∀ v ∈ nodes, v < t.keys.length := by
  intro v hv
  obtain ⟨w, hw⟩ := h.depends hv
  exact (ht.edge_lt v w hw).1

theorem ordered_cycle (ht : t.Consistent) {cycle : IndexCycle E}
    (h : t.depthFirst = .error cycle) :
    ∃ r, (t.cycleFromIndices cycle).map Except.error = some r ∧ Ordered t r := by
  obtain ⟨hcycle, hclosing⟩ := depthFirst_error ht h
  have hlt := lt_of_isCycle ht hcycle
  obtain ⟨entry, hentry⟩ : ∃ a, t.keys[cycle.entry]? = some a :=
    ⟨_, List.getElem?_eq_getElem (hlt cycle.entry mem_cons_self)⟩
  have hrest := mapM_keys fun v hv => hlt v (mem_cons_of_mem _ hv)
  have hpath := keysAt_cons hentry cycle.rest
  refine ⟨.error ⟨entry, t.keysAt cycle.rest, cycle.closing⟩, ?_, nofun, fun c hc => ?_⟩
  · unfold cycleFromIndices
    rw [hentry, hrest]
    rfl
  · cases hc
    unfold Cycle.path
    rw [← hpath]
    refine ⟨isCycle_keysAt ht hcycle hlt, fun last hlast => ?_⟩
    have hmap := congrArg List.getLast? (map_idxOf_keysAt ht hlt)
    rw [List.getLast?_map, hlast] at hmap
    have hmem := (mem_keysAt ht).mp (List.mem_of_getLast? hlast)
    refine (hasEdge_iff ht).mpr ⟨hmem.1, mem_of_getElem? hentry, ?_⟩
    rw [ht.idxOf_getElem hentry]
    exact hclosing _ hmap.symm

theorem ordered_intoTopoOrder (ht : t.Consistent) :
    ∃ r, t.intoTopoOrder = some r ∧ Ordered t r := by
  unfold intoTopoOrder
  cases h : t.depthFirst with
  | error cycle => exact ordered_cycle ht h
  | ok postOrder =>
    obtain ⟨hperm, hordered⟩ := depthFirst_ok ht h
    obtain ⟨order, hperm, hordered, hrank⟩ := kahn_order ht hperm hordered
    refine ⟨_, rfl, fun o ho => ?_, nofun⟩
    cases ho
    rw [ranked_eq ht hperm hrank]
    exact ⟨keysAt_perm ht hperm,
      inOrder_keysAt ht (fun v hv => mem_range.mp (hperm.mem_iff.mp hv)) hordered⟩

theorem ordered_intoDepthFirstOrder (ht : t.Consistent) :
    ∃ r, t.intoDepthFirstOrder = some r ∧ Ordered t r := by
  unfold intoDepthFirstOrder
  cases h : t.depthFirst with
  | error cycle => exact ordered_cycle ht h
  | ok postOrder =>
    obtain ⟨hperm, hordered⟩ := depthFirst_ok ht h
    have hlt : ∀ v ∈ postOrder, v < t.keys.length := fun v hv =>
      mem_range.mp (hperm.mem_iff.mp hv)
    have hkeys := takeKeys_eq (hperm.nodup_iff.mpr nodup_range) (t.keys.map some)
      (fun v _ => List.getElem?_map) hlt
    refine ⟨.ok ⟨t.keysAt postOrder⟩, ?_, fun o ho => ?_, nofun⟩
    · dsimp only
      rw [hkeys]
      rfl
    · cases ho
      exact ⟨keysAt_perm ht hperm, inOrder_keysAt ht hlt hordered⟩

end Orders

end GraphTables

variable {g : DependencyGraph K E} {insertions : List (Insertion K E)}

section Insertions

/-- "`a` depends on `b`" by an edge of the sequence. -/
def DependsBy (insertions : List (Insertion K E)) (a b : K) : Prop :=
  ∃ label, Insertion.Inserted insertions a b label

/-- An order of all nodes exactly when there is no cycle; otherwise a cycle, closed by an edge
whose label was inserted. -/
structure OrderOutcome (insertions : List (Insertion K E))
    (result : Except (Cycle K E) (TopoOrder K)) : Prop where
  ok_iff : (∃ o, result = .ok o) ↔ ¬ ∃ path, IsCycle (DependsBy insertions) path
  order : ∀ o, result = .ok o → o.order.Nodup ∧
    (∀ k, k ∈ o.order ↔ k ∈ Insertion.nodesOf insertions) ∧
    InOrder (DependsBy insertions) o.order
  cycle : ∀ c, result = .error c → IsCycle (DependsBy insertions) c.path ∧
    ∀ last ∈ c.path.getLast?, Insertion.Inserted insertions last c.entry c.closing

theorem depKeys_eq (h : Records g insertions) : g.DepKeys = DependsBy insertions := by
  funext a b
  refine propext ⟨fun ⟨label, hl⟩ => ⟨label, h.label a b label hl⟩, fun ⟨label, hl⟩ => ?_⟩
  exact h.edge a b label hl

theorem outcome_of_ordered [DecidableEq K] (h : Records g insertions)
    {result : Except (Cycle K E) (TopoOrder K)} (hordered : g.Ordered result) :
    OrderOutcome insertions result := by
  obtain ⟨horder, hcycle⟩ := hordered
  rw [depKeys_eq h] at horder hcycle
  refine ⟨?_, fun o ho => ?_, fun c hc => ?_⟩
  · cases result with
    | error c => exact iff_of_false nofun (not_not.mpr ⟨_, (hcycle c rfl).1⟩)
    | ok o =>
      refine iff_of_true ⟨o, rfl⟩ ?_
      rintro ⟨path, hpath⟩
      obtain ⟨v, hv, hloop⟩ := hpath.transGen
      obtain ⟨hperm, hinOrder⟩ := horder o rfl
      -- A node on a cycle has an edge, so it is in the order.
      obtain ⟨w, hw⟩ := hpath.depends hv
      rw [← depKeys_eq h, GraphTables.depKeys_iff g.consistent] at hw
      exact hinOrder.not_transGen v (hperm.mem_iff.mpr hw.1) hloop
  · obtain ⟨hperm, hinOrder⟩ := horder o ho
    exact ⟨hperm.nodup_iff.mpr g.consistent.keys_nodup,
      fun k => hperm.mem_iff.trans (h.mem_keys k), hinOrder⟩
  · obtain ⟨hpath, hclosing⟩ := hcycle c hc
    exact ⟨hpath, fun last hlast => h.label _ _ _ (hclosing last hlast)⟩

theorem topoOrder_outcome [DecidableEq K] (insertions : List (Insertion K E)) :
    ∃ r, (DependencyGraph.build insertions).intoTopoOrder = some r ∧
      OrderOutcome insertions r := by
  obtain ⟨r, hr, hordered⟩ :=
    GraphTables.ordered_intoTopoOrder (DependencyGraph.build insertions).consistent
  exact ⟨r, hr, outcome_of_ordered (records_build insertions) hordered⟩

/-- Both ordering functions decide whether the inserted edges have a cycle, and show it. -/
theorem dependencyGraph_ordering [DecidableEq K] (insertions : List (Insertion K E)) :
    (∃ r, (DependencyGraph.build insertions).intoTopoOrder = some r ∧
      OrderOutcome insertions r) ∧
    ∃ r, (DependencyGraph.build insertions).intoDepthFirstOrder = some r ∧
      OrderOutcome insertions r := by
  obtain ⟨r, hr, hordered⟩ :=
    GraphTables.ordered_intoDepthFirstOrder (DependencyGraph.build insertions).consistent
  exact ⟨topoOrder_outcome insertions,
    r, hr, outcome_of_ordered (records_build insertions) hordered⟩

end Insertions

end ProvenGraphcal
