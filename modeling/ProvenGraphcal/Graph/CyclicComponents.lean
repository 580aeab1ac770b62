import ProvenGraphcal.Graph.Ordering
import ProvenGraphcal.Graph.TarjanInvariant

/-!
# Cyclic components

The strongly connected components that contain a cycle, as sorted lists of keys.
-/

namespace ProvenGraphcal

open Relation DependencyOrder

variable {K E : Type}

/-- A class of mutually dependent elements that lie on cycles. -/
structure IsCyclicComponent (dep : K → K → Prop) (c : List K) : Prop where
  nonempty : c ≠ []
  nodup : c.Nodup
  cyclic : ∀ a ∈ c, TransGen dep a a
  component : ∀ a ∈ c, ∀ b, b ∈ c ↔ Mutual dep a b

/-- A strongly connected component that contains a cycle: two or more elements that reach each
other, or one that depends on itself. -/
structure IsCyclicScc (dep : K → K → Prop) (s : Set K) : Prop where
  nonempty : s.Nonempty
  component : ∀ a ∈ s, ∀ b, b ∈ s ↔ Mutual dep a b
  cycle : (∃ a ∈ s, ∃ b ∈ s, a ≠ b) ∨ ∃ a ∈ s, dep a a

variable {a : K} {dep : K → K → Prop}

/-- An element reaches itself by a self-loop or by way of another one. -/
theorem transGen_self_iff :
    TransGen dep a a ↔ (∃ b, a ≠ b ∧ Mutual dep a b) ∨ dep a a := by
  constructor
  · intro h
    obtain ⟨b, hstep, hback⟩ := TransGen.head'_iff.mp h
    by_cases hab : a = b
    · exact .inr (hab ▸ hstep)
    · exact .inl ⟨b, hab, .single hstep, hback⟩
  · rintro (⟨b, hab, hto, hback⟩ | hloop)
    · obtain rfl | hpath := reflTransGen_iff_eq_or_transGen.mp hto
      · exact absurd rfl hab
      · exact hpath.trans_left hback
    · exact .single hloop

theorem IsCyclicScc.transGen_self {s : Set K} (h : IsCyclicScc dep s) (ha : a ∈ s) :
    TransGen dep a a := by
  rcases h.cycle with ⟨b, hb, c, hc, hbc⟩ | ⟨b, hb, hloop⟩
  · have hmutual := (h.component a ha b).mp hb
    have hcycle := transGen_self_iff.mpr (.inl ⟨c, hbc, (h.component b hb c).mp hc⟩)
    exact (TransGen.trans_right hmutual.1 hcycle).trans_left hmutual.2
  · have hmutual := (h.component a ha b).mp hb
    exact (TransGen.trans_right hmutual.1 (.single hloop)).trans_left hmutual.2

theorem IsCyclicComponent.isCyclicScc {c : List K} (h : IsCyclicComponent dep c) :
    IsCyclicScc dep {a | a ∈ c} where
  nonempty := List.exists_mem_of_ne_nil c h.nonempty
  component := h.component
  cycle := by
    obtain ⟨a, ha⟩ := List.exists_mem_of_ne_nil c h.nonempty
    rcases transGen_self_iff.mp (h.cyclic a ha) with ⟨b, hab, hmutual⟩ | hloop
    · exact .inl ⟨a, ha, b, (h.component a ha b).mpr hmutual, hab⟩
    · exact .inr ⟨a, ha, hloop⟩

/-- `component.first()` compared: `None` first. -/
def firstLe (c d : List ℕ) : Prop :=
  match c.head?, d.head? with
  | none, _ => True
  | some _, none => False
  | some a, some b => a ≤ b

instance : DecidableRel firstLe := fun c d => by
  unfold firstLe
  split <;> infer_instance

variable {c : List ℕ}

namespace GraphTables

/-- Two or more nodes, or one that depends on itself. -/
def containsCycle (t : GraphTables K E) : List ℕ → Bool
  | [node] => (node, node) ∈ t.edges
  | _ => true

def cyclicIndices (t : GraphTables K E) : List (List ℕ) :=
  (((t.componentIndices.filter t.containsCycle).map fun c =>
    c.insertionSort (· ≤ ·))).insertionSort firstLe

/-- The components that contain a cycle; `none` where an index is not a node. -/
def cyclicComponents (t : GraphTables K E) : Option (List (List K)) :=
  t.cyclicIndices.mapM fun c => c.mapM fun node => t.keys[node]?

variable {t : GraphTables K E}

theorem containsCycle_iff {components : List (List ℕ)} (h : IsPartition t components)
    (hc : c ∈ components) :
    t.containsCycle c = true ↔ ∀ v ∈ c, TransGen t.Dep v v := by
  have hcomponent := h.component c hc
  have hnodup : c.Nodup := by
    have hflatten := h.perm.nodup_iff.mpr List.nodup_range
    exact (List.nodup_flatten.mp hflatten).1 c hc
  have hother : ∀ v ∈ c, ∀ w ∈ c, v ≠ w → TransGen t.Dep v v := by
    intro v hv w hw hne
    obtain ⟨hvw, hwv⟩ := (hcomponent v hv w).mp hw
    rcases reflTransGen_iff_eq_or_transGen.mp hvw with heq | hvw
    · exact absurd heq.symm hne
    · exact hvw.trans_left hwv
  cases c with
  | nil => exact absurd rfl (h.nonempty [] hc)
  | cons v rest =>
    cases rest with
    | nil =>
      unfold containsCycle
      rw [decide_eq_true_iff]
      constructor
      · intro hedge w hw
        rw [List.mem_singleton.mp hw]
        exact .single hedge
      · intro hloop
        -- The next node on the loop is in the component, so it is the node itself.
        obtain ⟨w, hvw, hwv⟩ := TransGen.head'_iff.mp (hloop v List.mem_cons_self)
        have hw := (hcomponent v List.mem_cons_self w).mpr ⟨.single hvw, hwv⟩
        rwa [List.mem_singleton.mp hw] at hvw
    | cons w rest =>
      have hne : v ≠ w := fun heq => (List.nodup_cons.mp hnodup).1 (heq ▸ List.mem_cons_self)
      refine iff_of_true rfl fun u hu => ?_
      rcases eq_or_ne u v with rfl | huv
      · exact hother u hu w (by simp) hne
      · exact hother u hu v (by simp) huv

section

variable (ht : t.Consistent)

include ht

/-- The cyclic components, each sorted and all of them sorted, are cyclic components. -/
theorem mem_cyclicIndices :
    c ∈ t.cyclicIndices ↔ ∃ d ∈ t.componentIndices, (∀ v ∈ d, TransGen t.Dep v v) ∧
      d.insertionSort (· ≤ ·) = c := by
  unfold cyclicIndices
  rw [List.mem_insertionSort, List.mem_map]
  refine exists_congr fun d => ?_
  rw [List.mem_filter, and_assoc]
  refine and_congr_right fun hd => and_congr_left fun _ => ?_
  exact containsCycle_iff (isPartition_componentIndices ht) hd

theorem flatten_cyclicIndices_nodup : t.cyclicIndices.flatten.Nodup := by
  have hnodup : t.componentIndices.flatten.Nodup :=
    (isPartition_componentIndices ht).perm.nodup_iff.mpr List.nodup_range
  have hfilter : (t.componentIndices.filter t.containsCycle).flatten.Nodup :=
    hnodup.sublist (List.Sublist.flatten List.filter_sublist)
  have hsorted : ∀ cs : List (List ℕ),
      (cs.map fun c => c.insertionSort (· ≤ ·)).flatten.Perm cs.flatten := by
    intro cs
    induction cs with
    | nil => exact .refl _
    | cons c cs ih => exact (List.perm_insertionSort _ c).append ih
  unfold cyclicIndices
  rw [(List.Perm.flatten (List.perm_insertionSort firstLe _)).nodup_iff,
    (hsorted _).nodup_iff]
  exact hfilter

theorem cyclicIndices_lt (hc : c ∈ t.cyclicIndices) : ∀ v ∈ c, v < t.keys.length := by
  obtain ⟨d, hd, -, rfl⟩ := (mem_cyclicIndices ht).mp hc
  intro v hv
  rw [List.mem_insertionSort] at hv
  exact List.mem_range.mp ((isPartition_componentIndices ht).perm.mem_iff.mp
    (List.mem_flatten_of_mem hd hv))

/-- Every component lists its nodes in increasing order. -/
theorem cyclicIndices_sublist (hc : c ∈ t.cyclicIndices) :
    c.Sublist (List.range t.keys.length) := by
  have hlt := cyclicIndices_lt ht hc
  have hnodup : c.Nodup := (List.nodup_flatten.mp (flatten_cyclicIndices_nodup ht)).1 c hc
  obtain ⟨d, -, -, rfl⟩ := (mem_cyclicIndices ht).mp hc
  refine List.sublist_of_subperm_of_pairwise (r := (· ≤ ·)) ?_ ?_ ?_
  · exact List.subperm_of_subset hnodup fun v hv => List.mem_range.mpr (hlt v hv)
  · exact List.pairwise_insertionSort _ _
  · exact List.pairwise_lt_range.imp Nat.le_of_lt

end

/-! ## Components of keys -/

section Keys

variable [DecidableEq K]

section

variable (ht : t.Consistent)

include ht

theorem reaches_keys {v w : ℕ} (h : ReflTransGen t.Dep v w) (ha : t.keys[v]? = some a) :
    ∃ b, t.keys[w]? = some b ∧ ReflTransGen t.DepKeys a b := by
  induction h with
  | refl => exact ⟨a, ha, .refl⟩
  | @tail u w _ hstep ih =>
    obtain ⟨b, hb, hreach⟩ := ih
    obtain ⟨c, hc⟩ : ∃ c, t.keys[w]? = some c :=
      ⟨_, List.getElem?_eq_getElem (ht.edge_lt u w hstep).2⟩
    refine ⟨c, hc, hreach.tail ((depKeys_iff ht).mpr ?_)⟩
    rw [ht.idxOf_getElem hb, ht.idxOf_getElem hc]
    exact ⟨List.mem_of_getElem? hb, List.mem_of_getElem? hc, hstep⟩

theorem reaches_iff {b : K} (ha : a ∈ t.keys) (hb : b ∈ t.keys) :
    ReflTransGen t.DepKeys a b ↔ ReflTransGen t.Dep (t.keys.idxOf a) (t.keys.idxOf b) := by
  constructor
  · exact fun h => h.lift t.keys.idxOf fun x y hxy => ((depKeys_iff ht).mp hxy).2.2
  · intro h
    obtain ⟨c, hc, hreach⟩ := reaches_keys ht h (getElem_idxOf ha)
    rw [getElem_idxOf hb] at hc
    exact Option.some.inj hc ▸ hreach

theorem mem_keys_of_reaches {b : K} (h : ReflTransGen t.DepKeys a b) (ha : a ∈ t.keys) :
    b ∈ t.keys :=
  mem_of_reaches (fun _ _ w (hdep : t.DepKeys _ w) => ((depKeys_iff ht).mp hdep).2.1) h ha

theorem mutual_iff {b : K} (ha : a ∈ t.keys) :
    Mutual t.DepKeys a b ↔ b ∈ t.keys ∧ Mutual t.Dep (t.keys.idxOf a) (t.keys.idxOf b) := by
  constructor
  · intro h
    have hb := mem_keys_of_reaches ht h.1 ha
    exact ⟨hb, (reaches_iff ht ha hb).mp h.1, (reaches_iff ht hb ha).mp h.2⟩
  · rintro ⟨hb, h⟩
    exact ⟨(reaches_iff ht ha hb).mpr h.1, (reaches_iff ht hb ha).mpr h.2⟩

theorem loop_iff (ha : a ∈ t.keys) :
    TransGen t.DepKeys a a ↔ TransGen t.Dep (t.keys.idxOf a) (t.keys.idxOf a) := by
  constructor
  · exact fun h => h.lift t.keys.idxOf fun x y hxy => ((depKeys_iff ht).mp hxy).2.2
  · intro h
    obtain ⟨w, hstep, hback⟩ := TransGen.head'_iff.mp h
    obtain ⟨b, hb⟩ : ∃ b, t.keys[w]? = some b :=
      ⟨_, List.getElem?_eq_getElem (ht.edge_lt _ w hstep).2⟩
    obtain ⟨c, hc, hreach⟩ := reaches_keys ht hback hb
    rw [getElem_idxOf ha] at hc
    refine TransGen.head'_iff.mpr ⟨b, (depKeys_iff ht).mpr ⟨ha, List.mem_of_getElem? hb, ?_⟩,
      Option.some.inj hc ▸ hreach⟩
    rwa [ht.idxOf_getElem hb]

/-- `cyclic_components` lists every cyclic component exactly once. -/
theorem cyclicComponents_spec :
    ∃ cs, t.cyclicComponents = some cs ∧ cs.flatten.Nodup ∧
      (∀ c ∈ cs, IsCyclicComponent t.DepKeys c ∧ c.Sublist t.keys) ∧
      ∀ a, TransGen t.DepKeys a a → ∃ c ∈ cs, a ∈ c := by
  have hpartition := isPartition_componentIndices ht
  have hlt : ∀ c ∈ t.cyclicIndices, ∀ v ∈ c, v < t.keys.length := fun c hc =>
    cyclicIndices_lt ht hc
  have hmapM : ∀ cs : List (List ℕ), (∀ c ∈ cs, ∀ v ∈ c, v < t.keys.length) →
      (cs.mapM fun c => c.mapM fun node => t.keys[node]?) = some (cs.map t.keysAt) := by
    intro cs
    induction cs with
    | nil => exact fun _ => rfl
    | cons c cs ih =>
      intro hcs
      rw [List.mapM_cons, mapM_keys (hcs c List.mem_cons_self),
        ih fun d hd => hcs d (List.mem_cons_of_mem _ hd)]
      rfl
  have hflatten : ∀ cs : List (List ℕ), (cs.map t.keysAt).flatten = t.keysAt cs.flatten := by
    intro cs
    induction cs with
    | nil => rfl
    | cons c cs ih =>
      unfold keysAt at ih ⊢
      rw [List.map_cons, List.flatten_cons, List.flatten_cons, List.filterMap_append, ih]
  refine ⟨t.cyclicIndices.map t.keysAt, hmapM _ hlt, ?_, fun c hc => ?_, fun a ha => ?_⟩
  · rw [hflatten]
    refine nodup_keysAt ht (fun v hv => ?_) (flatten_cyclicIndices_nodup ht)
    obtain ⟨c, hc, hvc⟩ := List.mem_flatten.mp hv
    exact hlt c hc v hvc
  · obtain ⟨nodes, hnodes, rfl⟩ := List.mem_map.mp hc
    have hnodup : nodes.Nodup :=
      (List.nodup_flatten.mp (flatten_cyclicIndices_nodup ht)).1 nodes hnodes
    obtain ⟨d, hd, hcyclic, rfl⟩ := (mem_cyclicIndices ht).mp hnodes
    have hmem : ∀ a, a ∈ t.keysAt (d.insertionSort (· ≤ ·)) ↔
        a ∈ t.keys ∧ t.keys.idxOf a ∈ d := fun a => by
      rw [mem_keysAt ht, List.mem_insertionSort]
    refine ⟨⟨fun hnil => ?_, nodup_keysAt ht (hlt _ hnodes) hnodup, fun a ha => ?_,
      fun a ha b => ?_⟩, ?_⟩
    · obtain ⟨v, hv⟩ := List.exists_mem_of_ne_nil d (hpartition.nonempty d hd)
      have hlength := congrArg List.length (map_idxOf_keysAt ht (hlt _ hnodes))
      rw [hnil] at hlength
      have hsorted := List.length_eq_zero_iff.mp hlength.symm
      rw [← List.mem_insertionSort (· ≤ ·), hsorted] at hv
      cases hv
    · obtain ⟨hkey, hnode⟩ := (hmem a).mp ha
      exact (loop_iff ht hkey).mpr (hcyclic _ hnode)
    · obtain ⟨hkey, hnode⟩ := (hmem a).mp ha
      rw [hmem, mutual_iff ht hkey, hpartition.component d hd _ hnode]
    · rw [← keysAt_range t]
      exact (cyclicIndices_sublist ht hnodes).filterMap _
  · obtain ⟨b, hab, -⟩ := TransGen.head'_iff.mp ha
    have hkey := ((depKeys_iff ht).mp hab).1
    have hrange := List.mem_range.mpr (List.idxOf_lt_length_iff.mpr hkey)
    obtain ⟨d, hd, hnode⟩ := List.mem_flatten.mp (hpartition.perm.mem_iff.mpr hrange)
    have hloop := (loop_iff ht hkey).mp ha
    -- One node of a component on a cycle puts all of them on cycles.
    have hcyclic : ∀ v ∈ d, TransGen t.Dep v v := by
      intro v hv
      obtain ⟨hto, hfrom⟩ := (hpartition.component d hd _ hnode v).mp hv
      exact (TransGen.trans_right hfrom hloop).trans_left hto
    refine ⟨t.keysAt (d.insertionSort (· ≤ ·)), List.mem_map_of_mem ?_, ?_⟩
    · exact (mem_cyclicIndices ht).mpr ⟨d, hd, hcyclic, rfl⟩
    · rw [mem_keysAt ht, List.mem_insertionSort]
      exact ⟨hkey, hnode⟩

end

end Keys

end GraphTables

/-- The components returned are the strongly connected components that contain a cycle, each once
and each with every member once. A node is in none of them exactly when it does not reach itself. -/
theorem cyclicComponents_exact [DecidableEq K] (g : DependencyGraph K E) :
    ∃ components, g.cyclicComponents = some components ∧
      (∀ s : Set K, IsCyclicScc g.DepKeys s ↔ ∃ c ∈ components, s = {a | a ∈ c}) ∧
      (components.map fun c => {a | a ∈ c}).Nodup ∧ (∀ c ∈ components, c.Nodup) ∧
      ∀ a, (∀ c ∈ components, a ∉ c) ↔ ¬ TransGen g.DepKeys a a := by
  obtain ⟨components, hcomponents, hnodup, hcyclic, hcomplete⟩ :=
    GraphTables.cyclicComponents_spec g.consistent
  refine ⟨components, hcomponents, fun s => ⟨fun hs => ?_, ?_⟩, ?_,
    fun c hc => (hcyclic c hc).1.nodup,
    fun a => ⟨fun hnone hcycle => ?_, fun hcycle c hc ha => ?_⟩⟩
  · obtain ⟨a, ha⟩ := hs.nonempty
    obtain ⟨c, hc, hac⟩ := hcomplete a (hs.transGen_self ha)
    refine ⟨c, hc, Set.ext fun b => ?_⟩
    exact (hs.component a ha b).trans ((hcyclic c hc).1.component a hac b).symm
  · rintro ⟨c, hc, rfl⟩
    exact (hcyclic c hc).1.isCyclicScc
  · -- disjoint components that are not empty differ as sets
    rw [List.Nodup, List.pairwise_map]
    refine (List.nodup_flatten.mp hnodup).2.imp_of_mem fun {c d} hc _ hdisjoint heq => ?_
    obtain ⟨a, ha⟩ := List.exists_mem_of_ne_nil c (hcyclic c hc).1.nonempty
    have had : a ∈ {b | b ∈ d} := heq ▸ ha
    exact hdisjoint ha had
  · obtain ⟨c, hc, ha⟩ := hcomplete a hcycle
    exact hnone c hc ha
  · exact hcycle ((hcyclic c hc).1.cyclic a ha)

end ProvenGraphcal
