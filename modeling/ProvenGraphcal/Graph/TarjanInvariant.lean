import ProvenGraphcal.Graph.Tarjan

/-!
# The invariant of Tarjan's algorithm

Nodes on the path are the roots of the components being built. An edge that was tried from a node
on the stack back to the stack is accounted for by the low link of a path node between the two.
-/

namespace ProvenGraphcal

open Relation DependencyOrder
open Function (update update_of_ne update_self)
open List (mem_append mem_cons mem_cons_of_mem mem_cons_self mem_singleton pairwise_cons)

variable {K E : Type}

/-- The index of a visited node. -/
def TarjanState.idx (s : TarjanState) (v : ℕ) : ℕ := (s.index v).getD 0

/-- The nodes on the path. -/
def TarjanState.grays (s : TarjanState) : List ℕ := s.path.map Prod.fst

variable {label : E} {next : TarjanState} {g v : ℕ}

namespace GraphTables

/-- The edges of a node that frames have tried: all of them once the node has left the path. -/
def Tried (t : GraphTables K E) (frames : List (ℕ × ℕ)) (x w : ℕ) : Prop :=
  t.Dep x w ∧ ∀ cursor, (x, cursor) ∈ frames → w ∈ ((t.row x).take cursor).map Prod.fst

/-- The nodes that are visited, on the stack, on the path and in components. -/
structure TarjanShape (t : GraphTables K E) (s : TarjanState) : Prop where
  visited_lt : ∀ v, s.index v ≠ none → v < t.keys.length ∧ s.idx v < s.nextIndex
  visited : ∀ v, s.index v ≠ none ↔ v ∈ s.components.flatten ++ s.stack
  nodup : (s.components.flatten ++ s.stack).Nodup
  onStack : ∀ v, s.onStack v = true ↔ v ∈ s.stack
  sorted : s.stack.Pairwise fun a b => s.idx b < s.idx a
  graysSorted : s.grays.Pairwise fun a b => s.idx b < s.idx a
  grays : ∀ v ∈ s.grays, v ∈ s.stack
  nonempty : ∀ c ∈ s.components, c ≠ []
  closed : ∀ v ∈ s.components.flatten, ∀ w, t.Dep v w → w ∈ s.components.flatten
  component : ∀ c ∈ s.components, ∀ v ∈ c, ∀ w, w ∈ c ↔ Mutual t.Dep v w

/-- What the low links account for. -/
structure TarjanLinks (t : GraphTables K E) (s : TarjanState) : Prop where
  fromGray : ∀ g ∈ s.grays, ∀ x ∈ s.stack, s.idx g ≤ s.idx x → ReflTransGen t.Dep g x
  toGray : ∀ x ∈ s.stack, ∃ g ∈ s.grays, s.idx g ≤ s.idx x ∧ ReflTransGen t.Dep x g
  low_le : ∀ g ∈ s.grays, s.lowLink g ≤ s.idx g
  low_reached : ∀ g ∈ s.grays, ∃ x ∈ s.stack, s.idx x = s.lowLink g ∧ ReflTransGen t.Dep g x
  tried_visited : ∀ x ∈ s.stack, ∀ w, t.Tried s.path x w → s.index w ≠ none
  tried_low : ∀ g ∈ s.grays, ∀ x ∈ s.stack, s.idx g ≤ s.idx x → ∀ w ∈ s.stack,
    t.Tried s.path x w →
    ∃ g' ∈ s.grays, s.idx g ≤ s.idx g' ∧ s.idx g' ≤ s.idx x ∧ s.lowLink g' ≤ s.idx w

variable {t : GraphTables K E} {s : TarjanState}

/-- The edge that a frame tries next is the only new one. -/
theorem Tried.of_advance {node cursor w : ℕ} {below : List (ℕ × ℕ)}
    (hrow : (t.row node)[cursor]? = some (w, label)) {x u : ℕ}
    (h : t.Tried ((node, cursor + 1) :: below) x u) :
    t.Tried ((node, cursor) :: below) x u ∨ x = node ∧ u = w := by
  by_cases hnew : x = node ∧ u = w
  · exact .inr hnew
  · refine .inl ⟨h.1, fun c hc => ?_⟩
    rcases mem_cons.mp hc with hc | hc
    · cases hc
      have hmem := h.2 (cursor + 1) mem_cons_self
      rw [List.take_add_one, hrow, Option.toList_some, List.map_append, mem_append] at hmem
      rcases hmem with hmem | hmem
      · exact hmem
      · exact absurd ⟨rfl, by simpa using hmem⟩ hnew
    · exact h.2 c (mem_cons_of_mem _ hc)

/-- A node that leaves the path has tried all of its edges. -/
theorem Tried.of_leave {node cursor : ℕ} {below : List (ℕ × ℕ)} (ht : t.Consistent)
    (hrow : (t.row node).length ≤ cursor) {x u : ℕ} (h : t.Tried below x u) :
    t.Tried ((node, cursor) :: below) x u := by
  refine ⟨h.1, fun c hc => ?_⟩
  rcases mem_cons.mp hc with hc | hc
  · cases hc
    rw [List.take_of_length_le hrow]
    exact (ht.mem_row node u).mp h.1
  · exact h.2 c hc

/-! ## Entering a node -/

section Enter

variable {w : ℕ} {frames : List (ℕ × ℕ)}

theorem idx_enter (hw : s.index w = none) (hv : s.index v ≠ none) :
    (TarjanState.enter { s with path := frames } w).idx v = s.idx v := by
  have hne : v ≠ w := fun h => hv (h ▸ hw)
  unfold TarjanState.idx TarjanState.enter
  dsimp only
  rw [update_of_ne hne]

theorem idx_enter_self : (TarjanState.enter { s with path := frames } w).idx w = s.nextIndex := by
  unfold TarjanState.idx TarjanState.enter
  dsimp only
  rw [update_self]
  rfl

theorem TarjanShape.stack_visited (h : TarjanShape t s) (hv : v ∈ s.stack) :
    s.index v ≠ none := (h.visited v).mpr (List.mem_append_right _ hv)

theorem TarjanShape.enter (h : TarjanShape t s) (hw : s.index w = none) (hlt : w < t.keys.length)
    (hframes : frames.map Prod.fst = s.grays) :
    TarjanShape t (TarjanState.enter { s with path := frames } w) := by
  have hnew : w ∉ s.components.flatten ++ s.stack := by
    rw [← h.visited, hw]
    exact fun hne => hne rfl
  have hidx : ∀ v ∈ s.stack, (TarjanState.enter { s with path := frames } w).idx v = s.idx v :=
    fun v hv => idx_enter hw (h.stack_visited hv)
  have hindex : ∀ v, v ≠ w → (TarjanState.enter { s with path := frames } w).index v =
      s.index v := fun v hv => update_of_ne hv _ _
  have hbelow : ∀ v ∈ s.stack, (TarjanState.enter { s with path := frames } w).idx v <
      (TarjanState.enter { s with path := frames } w).idx w := by
    intro v hv
    rw [hidx v hv, idx_enter_self]
    exact (h.visited_lt v (h.stack_visited hv)).2
  have hgrays : (TarjanState.enter { s with path := frames } w).grays = w :: s.grays := by
    rw [← hframes]
    rfl
  refine ⟨fun v hv => ?_, fun v => ?_, ?_, fun v => ?_, ?_, ?_, fun v hv => ?_, h.nonempty,
    h.closed, h.component⟩
  · change v < t.keys.length ∧ _ < s.nextIndex + 1
    rcases eq_or_ne v w with rfl | hne
    · rw [idx_enter_self]
      exact ⟨hlt, Nat.lt_succ_self _⟩
    · rw [hindex v hne] at hv
      rw [idx_enter hw hv]
      exact ⟨(h.visited_lt v hv).1, Nat.lt_succ_of_lt (h.visited_lt v hv).2⟩
  · change _ ↔ v ∈ s.components.flatten ++ w :: s.stack
    rcases eq_or_ne v w with rfl | hne
    · refine iff_of_true ?_ (by simp)
      unfold TarjanState.enter
      dsimp only
      rw [update_self]
      exact nofun
    · rw [hindex v hne, h.visited]
      simp [hne]
  · change (s.components.flatten ++ w :: s.stack).Nodup
    rw [List.nodup_middle, List.nodup_cons]
    exact ⟨hnew, h.nodup⟩
  · change update s.onStack w true v = true ↔ v ∈ w :: s.stack
    rcases eq_or_ne v w with rfl | hne
    · simp
    · rw [update_of_ne hne, h.onStack]
      simp [hne]
  · refine pairwise_cons.mpr ⟨hbelow, h.sorted.imp_of_mem fun {a b} ha hb hlt => ?_⟩
    rwa [hidx a ha, hidx b hb]
  · rw [hgrays]
    refine pairwise_cons.mpr ⟨fun v hv => hbelow v (h.grays v hv),
      h.graysSorted.imp_of_mem fun {a b} ha hb hlt => ?_⟩
    rwa [hidx a (h.grays a ha), hidx b (h.grays b hb)]
  · rw [hgrays] at hv
    exact (mem_cons.mp hv).elim (fun hv => hv ▸ mem_cons_self)
      fun hv => mem_cons_of_mem _ (h.grays v hv)

theorem TarjanLinks.enter (h : TarjanLinks t s) (hshape : TarjanShape t s)
    (hw : s.index w = none) (hframes : frames.map Prod.fst = s.grays)
    (htried : ∀ x u, t.Tried frames x u → t.Tried s.path x u ∨ u = w)
    (hreach : ∀ g ∈ s.grays, ReflTransGen t.Dep g w) :
    TarjanLinks t (TarjanState.enter { s with path := frames } w) := by
  have hidx : ∀ v ∈ s.stack, (TarjanState.enter { s with path := frames } w).idx v = s.idx v :=
    fun v hv => idx_enter hw (hshape.stack_visited hv)
  have hgrays : (TarjanState.enter { s with path := frames } w).grays = w :: s.grays := by
    rw [← hframes]
    rfl
  have hnew : ∀ v ∈ s.stack, v ≠ w := fun v hv heq => hshape.stack_visited hv (heq ▸ hw)
  have hlow : ∀ v ∈ s.stack, (TarjanState.enter { s with path := frames } w).lowLink v =
      s.lowLink v := fun v hv => update_of_ne (hnew v hv) _ _
  have hlowSelf : (TarjanState.enter { s with path := frames } w).lowLink w = s.nextIndex :=
    update_self _ _ _
  have hlt : ∀ v ∈ s.stack, s.idx v < s.nextIndex := fun v hv =>
    (hshape.visited_lt v (hshape.stack_visited hv)).2
  -- The new node has tried no edge.
  have hnone : ∀ u, ¬ t.Tried ((w, 0) :: frames) w u := fun u hu => by
    simpa using hu.2 0 mem_cons_self
  have hold : ∀ x u, t.Tried ((w, 0) :: frames) x u → t.Tried s.path x u ∨ u = w :=
    fun x u hu => htried x u ⟨hu.1, fun c hc => hu.2 c (mem_cons_of_mem _ hc)⟩
  refine ⟨fun g hg x hx hle => ?_, fun x hx => ?_, fun g hg => ?_, fun g hg => ?_,
    fun x hx u hu => ?_, fun g hg x hx hle u hu htr => ?_⟩
  all_goals rw [hgrays] at *
  · rcases mem_cons.mp hg with rfl | hg' <;> rcases mem_cons.mp hx with rfl | hx'
    · exact .refl
    · rw [idx_enter_self, hidx x hx'] at hle
      exact absurd hle (Nat.not_le_of_lt (hlt x hx'))
    · exact hreach g hg'
    · rw [hidx g (hshape.grays g hg'), hidx x hx'] at hle
      exact h.fromGray g hg' x hx' hle
  · rcases mem_cons.mp hx with rfl | hx'
    · exact ⟨x, mem_cons_self, le_rfl, .refl⟩
    · obtain ⟨g, hg, hle, hpath⟩ := h.toGray x hx'
      refine ⟨g, mem_cons_of_mem _ hg, ?_, hpath⟩
      rwa [hidx g (hshape.grays g hg), hidx x hx']
  · rcases mem_cons.mp hg with rfl | hg'
    · rw [hlowSelf, idx_enter_self]
    · rw [hlow g (hshape.grays g hg'), hidx g (hshape.grays g hg')]
      exact h.low_le g hg'
  · rcases mem_cons.mp hg with rfl | hg'
    · exact ⟨g, mem_cons_self, by rw [hlowSelf, idx_enter_self], .refl⟩
    · obtain ⟨x, hx, heq, hpath⟩ := h.low_reached g hg'
      refine ⟨x, mem_cons_of_mem _ hx, ?_, hpath⟩
      rwa [hlow g (hshape.grays g hg'), hidx x hx]
  · rcases eq_or_ne u w with rfl | hne
    · unfold TarjanState.enter
      dsimp only
      rw [update_self]
      exact nofun
    · have hx' : x ∈ s.stack := (mem_cons.mp hx).resolve_left fun heq => hnone u (heq ▸ hu)
      have hvisited := h.tried_visited x hx' u ((hold x u hu).resolve_right hne)
      unfold TarjanState.enter
      dsimp only
      rwa [update_of_ne hne]
  · have hx' : x ∈ s.stack := (mem_cons.mp hx).resolve_left fun heq => hnone u (heq ▸ htr)
    rcases mem_cons.mp hg with heq | hg'
    · rw [heq, idx_enter_self, hidx x hx'] at hle
      exact absurd hle (Nat.not_le_of_lt (hlt x hx'))
    have hgs := hshape.grays g hg'
    rcases mem_cons.mp hu with heq | hu'
    · -- The new node has the highest index, so any gray below `x` accounts for the edge to it.
      refine ⟨g, mem_cons_of_mem _ hg', le_rfl, hle, ?_⟩
      rw [heq, hlow g hgs, idx_enter_self]
      exact (h.low_le g hg').trans (hlt g hgs).le
    · rw [hidx g hgs, hidx x hx'] at hle
      obtain ⟨g', hg', hle₁, hle₂, hle₃⟩ :=
        h.tried_low g hg' x hx' hle u hu' ((hold x u htr).resolve_right (hnew u hu'))
      have hgs' := hshape.grays g' hg'
      refine ⟨g', mem_cons_of_mem _ hg', ?_, ?_, ?_⟩
      · rwa [hidx g hgs, hidx g' hgs']
      · rwa [hidx g' hgs', hidx x hx']
      · rwa [hlow g' hgs', hidx u hu']

end Enter

/-- The frames advance over an edge to a visited node, and low links fall to what it accounts for. -/
theorem TarjanLinks.advance (h : TarjanLinks t s) {node cursor w : ℕ} {below : List (ℕ × ℕ)}
    (hpath : s.path = (node, cursor) :: below) (hrow : (t.row node)[cursor]? = some (w, label))
    (hw : s.index w ≠ none) {low : ℕ → ℕ} (hnode : node ∈ s.grays)
    (hmax : ∀ g ∈ s.grays, s.idx g ≤ s.idx node) (hle : ∀ g, low g ≤ s.lowLink g)
    (hreached : ∀ g ∈ s.grays, ∃ x ∈ s.stack, s.idx x = low g ∧ ReflTransGen t.Dep g x)
    (hlow : w ∈ s.stack → low node ≤ s.idx w) :
    TarjanLinks t { s with path := (node, cursor + 1) :: below, lowLink := low } := by
  have hgrays : TarjanState.grays { s with path := (node, cursor + 1) :: below, lowLink := low } =
      s.grays := by
    unfold TarjanState.grays
    rw [hpath]
    rfl
  have hidx : ∀ v, TarjanState.idx
      { s with path := (node, cursor + 1) :: below, lowLink := low } v = s.idx v := fun v => rfl
  have htried : ∀ x u, t.Tried ((node, cursor + 1) :: below) x u →
      t.Tried s.path x u ∨ x = node ∧ u = w := fun x u hu => by
    rw [hpath]
    exact hu.of_advance hrow
  refine ⟨fun g hg => ?_, fun x hx => ?_, fun g hg => ?_, fun g hg => ?_, fun x hx u hu => ?_,
    fun g hg x hx hgx u hu htr => ?_⟩
  all_goals rw [hgrays] at *
  · exact h.fromGray g hg
  · exact h.toGray x hx
  · exact (hle g).trans (h.low_le g hg)
  · exact hreached g hg
  · rcases htried x u hu with hu | ⟨rfl, rfl⟩
    · exact h.tried_visited x hx u hu
    · exact hw
  · rcases htried x u htr with htr | ⟨rfl, rfl⟩
    · obtain ⟨g', hg', hle₁, hle₂, hle₃⟩ := h.tried_low g hg x hx hgx u hu htr
      exact ⟨g', hg', hle₁, hle₂, (hle g').trans hle₃⟩
    · exact ⟨x, hnode, hmax g hg, le_rfl, hlow hu⟩

section Leave

variable {node cursor : ℕ} {below : List (ℕ × ℕ)}

/-- The path with its top frame: the nodes below have lower indices. -/
theorem TarjanShape.top (h : TarjanShape t s) (hpath : s.path = (node, cursor) :: below) :
    s.grays = node :: below.map Prod.fst ∧ node ∈ s.stack ∧
      ∀ g ∈ below.map Prod.fst, s.idx g < s.idx node := by
  have hgrays : s.grays = node :: below.map Prod.fst := by
    unfold TarjanState.grays
    rw [hpath]
    rfl
  have hsorted := h.graysSorted
  rw [hgrays] at hsorted
  exact ⟨hgrays, h.grays node (hgrays ▸ mem_cons_self), (pairwise_cons.mp hsorted).1⟩

theorem TarjanShape.max (h : TarjanShape t s) (hpath : s.path = (node, cursor) :: below) :
    ∀ g ∈ s.grays, s.idx g ≤ s.idx node := by
  obtain ⟨hgrays, -, hlt⟩ := h.top hpath
  intro g hg
  rw [hgrays] at hg
  exact (mem_cons.mp hg).elim (fun heq => heq ▸ le_rfl) fun hg => (hlt g hg).le

/-- The low links after the parent took over that of the node that leaves. -/
def lowered (s : TarjanState) (node : ℕ) (below : List (ℕ × ℕ)) : ℕ → ℕ :=
  (TarjanState.lowerParent { s with path := below } node).lowLink

theorem lowerParent_eq : TarjanState.lowerParent { s with path := below } node =
    { s with path := below, lowLink := lowered s node below } := by
  cases below with
  | nil => rfl
  | cons frame below => rfl

theorem lowered_le (g : ℕ) : lowered s node below g ≤ s.lowLink g := by
  cases below with
  | nil => exact le_rfl
  | cons frame below =>
    change update s.lowLink frame.1 _ g ≤ _
    rcases eq_or_ne g frame.1 with rfl | hne
    · rw [update_self]
      exact min_le_left _ _
    · rw [update_of_ne hne]

theorem lowered_of_notMem (hg : g ∉ below.map Prod.fst) :
    lowered s node below g = s.lowLink g := by
  cases below with
  | nil => rfl
  | cons frame below =>
    refine update_of_ne (fun heq => hg ?_) _ _
    rw [heq]
    exact mem_cons_self

/-- The parent accounts for what the node accounted for. -/
theorem exists_parent (h : TarjanShape t s) (hpath : s.path = (node, cursor) :: below)
    (hg : g ∈ below.map Prod.fst) :
    ∃ p ∈ below.map Prod.fst, s.idx g ≤ s.idx p ∧ lowered s node below p ≤ s.lowLink node := by
  have hsorted := h.graysSorted
  rw [(h.top hpath).1] at hsorted
  cases below with
  | nil => cases hg
  | cons frame below =>
    have htail := pairwise_cons.mp (pairwise_cons.mp hsorted).2
    refine ⟨frame.1, mem_cons_self, ?_, ?_⟩
    · exact (mem_cons.mp hg).elim (fun heq => heq ▸ le_rfl) fun hg => (htail.1 g hg).le
    · change update s.lowLink frame.1 _ frame.1 ≤ _
      rw [update_self]
      exact min_le_right _ _

theorem lowered_reached (h : TarjanShape t s) (hlinks : TarjanLinks t s)
    (hpath : s.path = (node, cursor) :: below) (hg : g ∈ below.map Prod.fst) :
    ∃ x ∈ s.stack, s.idx x = lowered s node below g ∧ ReflTransGen t.Dep g x := by
  obtain ⟨hgrays, hnode, hlt⟩ := h.top hpath
  have hgray : g ∈ s.grays := hgrays ▸ mem_cons_of_mem _ hg
  have hnodeGray : node ∈ s.grays := hgrays ▸ mem_cons_self
  cases below with
  | nil => cases hg
  | cons frame below =>
    change ∃ x ∈ s.stack, s.idx x = update s.lowLink frame.1 _ g ∧ _
    rcases eq_or_ne g frame.1 with rfl | hne
    · rw [update_self]
      rcases min_choice (s.lowLink frame.1) (s.lowLink node) with hmin | hmin
      · rw [hmin]
        exact hlinks.low_reached _ hgray
      · obtain ⟨x, hx, heq, hreach⟩ := hlinks.low_reached node hnodeGray
        have hdown := hlinks.fromGray frame.1 hgray node hnode (hlt frame.1 hg).le
        exact ⟨x, hx, heq.trans hmin.symm, hdown.trans hreach⟩
    · rw [update_of_ne hne]
      exact hlinks.low_reached g hgray

/-- A node that leaves the path and stays on the stack reaches a node lower on the path. -/
theorem TarjanLinks.leave (hlinks : TarjanLinks t s) (h : TarjanShape t s) (ht : t.Consistent)
    (hpath : s.path = (node, cursor) :: below) (hrow : (t.row node).length ≤ cursor)
    (hlow : s.lowLink node < s.idx node) :
    TarjanLinks t { s with path := below, lowLink := lowered s node below } := by
  obtain ⟨hgrays, hnode, hlt⟩ := h.top hpath
  have hmem : ∀ g, g ∈ s.grays → g = node ∨ g ∈ below.map Prod.fst := fun g hg => by
    rw [hgrays] at hg
    exact mem_cons.mp hg
  have hsub : ∀ g ∈ below.map Prod.fst, g ∈ s.grays := fun g hg =>
    hgrays ▸ mem_cons_of_mem _ hg
  have htried : ∀ x u, t.Tried below x u → t.Tried s.path x u := fun x u hu => by
    rw [hpath]
    exact hu.of_leave ht hrow
  refine ⟨fun g hg => hlinks.fromGray g (hsub g hg), fun x hx => ?_,
    fun g hg => (lowered_le g).trans (hlinks.low_le g (hsub g hg)),
    fun g hg => lowered_reached h hlinks hpath hg,
    fun x hx u hu => hlinks.tried_visited x hx u (htried x u hu),
    fun g hg x hx hgx u hu htr => ?_⟩
  · obtain ⟨g, hg, hle, hreach⟩ := hlinks.toGray x hx
    rcases hmem g hg with rfl | hg
    · obtain ⟨y, hy, hidx, hdown⟩ := hlinks.low_reached g hg
      obtain ⟨g', hg', hle', hreach'⟩ := hlinks.toGray y hy
      rw [hidx] at hle'
      have hg'lt : s.idx g' < s.idx g := hle'.trans_lt hlow
      refine ⟨g', (hmem g' hg').resolve_left fun heq => ?_, hg'lt.le.trans hle,
        hreach.trans (hdown.trans hreach')⟩
      rw [heq] at hg'lt
      exact lt_irrefl _ hg'lt
    · exact ⟨g, hg, hle, hreach⟩
  · obtain ⟨g', hg', hle₁, hle₂, hle₃⟩ :=
      hlinks.tried_low g (hsub g hg) x hx hgx u hu (htried x u htr)
    rcases hmem g' hg' with rfl | hg'
    · obtain ⟨p, hp, hgp, hlowp⟩ := exists_parent h hpath hg
      exact ⟨p, hp, hgp, (hlt p hp).le.trans hle₂, hlowp.trans hle₃⟩
    · exact ⟨g', hg', hle₁, hle₂, (lowered_le g').trans hle₃⟩

theorem TarjanShape.leave (h : TarjanShape t s) (hpath : s.path = (node, cursor) :: below)
    (low : ℕ → ℕ) : TarjanShape t { s with path := below, lowLink := low } := by
  obtain ⟨hgrays, -, -⟩ := h.top hpath
  have hsorted := h.graysSorted
  have hstack := h.grays
  rw [hgrays] at hsorted hstack
  exact ⟨h.visited_lt, h.visited, h.nodup, h.onStack, h.sorted, (pairwise_cons.mp hsorted).2,
    fun v hv => hstack v (mem_cons_of_mem _ hv), h.nonempty, h.closed, h.component⟩

/-- The nodes from the place of `node` on the stack upwards are the component of `node`. -/
theorem popped_component (h : TarjanShape t s) (hlinks : TarjanLinks t s) (ht : t.Consistent)
    (hpath : s.path = (node, cursor) :: below) (hrow : (t.row node).length ≤ cursor)
    (hlow : s.lowLink node = s.idx node) :
    (∀ v ∈ s.stack, s.idx node ≤ s.idx v → ∀ w, t.Dep v w →
      w ∈ s.components.flatten ∨ w ∈ s.stack ∧ s.idx node ≤ s.idx w) ∧
    ∀ v ∈ s.stack, s.idx node ≤ s.idx v → Mutual t.Dep node v := by
  obtain ⟨hgrays, hnode, hlt⟩ := h.top hpath
  have hnodeGray : node ∈ s.grays := hgrays ▸ mem_cons_self
  constructor
  · intro v hv hle w hvw
    -- Every edge of `v` was tried: `v` is `node` or has left the path.
    have htried : t.Tried s.path v w := by
      rw [hpath]
      refine Tried.of_leave ht hrow ⟨hvw, fun c hc => ?_⟩
      have hbelow := hlt v (List.mem_map_of_mem hc)
      exact absurd hle (Nat.not_le_of_lt hbelow)
    have hvisited := (h.visited w).mp (hlinks.tried_visited v hv w htried)
    refine (mem_append.mp hvisited).imp_right fun hw => ⟨hw, ?_⟩
    obtain ⟨g, hg, hle₁, -, hle₃⟩ := hlinks.tried_low node hnodeGray v hv hle w hw htried
    rw [hgrays] at hg
    rcases mem_cons.mp hg with rfl | hg
    · exact hlow ▸ hle₃
    · exact absurd hle₁ (Nat.not_le_of_lt (hlt g hg))
  · intro v hv hle
    obtain ⟨g, hg, -, hreach⟩ := hlinks.toGray v hv
    have hdown := hlinks.fromGray g hg node hnode (h.max hpath g hg)
    exact ⟨hlinks.fromGray node hnodeGray v hv hle, hreach.trans hdown⟩

theorem TarjanShape.pop (h : TarjanShape t s) (hlinks : TarjanLinks t s) (ht : t.Consistent)
    (hpath : s.path = (node, cursor) :: below) (hrow : (t.row node).length ≤ cursor)
    (hlow : s.lowLink node = s.idx node) (low : ℕ → ℕ) :
    TarjanShape t
      (TarjanState.popComponent { s with path := below, lowLink := low } node) := by
  obtain ⟨hgrays, hnode, hlt⟩ := h.top hpath
  obtain ⟨hclosed, hmutual⟩ := popped_component h hlinks ht hpath hrow hlow
  have hpopped : ∀ v, v ∈ (popUntil node s.stack).1 ↔ v ∈ s.stack ∧ s.idx node ≤ s.idx v :=
    fun v => (mem_popUntil h.sorted hnode).1
  have hrest : ∀ v, v ∈ (popUntil node s.stack).2 ↔ v ∈ s.stack ∧ s.idx v < s.idx node :=
    fun v => (mem_popUntil h.sorted hnode).2
  have hstack : (s.components ++ [(popUntil node s.stack).1]).flatten ++
      (popUntil node s.stack).2 = s.components.flatten ++ s.stack := by
    rw [List.flatten_append, List.flatten_singleton, List.append_assoc, popUntil_append]
  have hsplit : ∀ v, v ∈ (s.components ++ [(popUntil node s.stack).1]).flatten ↔
      v ∈ s.components.flatten ∨ v ∈ (popUntil node s.stack).1 := fun v => by
    rw [List.flatten_append, List.flatten_singleton, mem_append]
  have hsuffix : (popUntil node s.stack).2.Sublist s.stack := by
    have happend := List.sublist_append_right (popUntil node s.stack).1 (popUntil node s.stack).2
    rwa [popUntil_append] at happend
  have hgraysBelow := h.graysSorted
  rw [hgrays] at hgraysBelow
  have hclosedAll : ∀ v ∈ (s.components ++ [(popUntil node s.stack).1]).flatten, ∀ w, t.Dep v w →
      w ∈ (s.components ++ [(popUntil node s.stack).1]).flatten := by
    intro v hv w hvw
    rw [hsplit] at hv ⊢
    rcases hv with hv | hv
    · exact .inl (h.closed v hv w hvw)
    · obtain ⟨hv, hle⟩ := (hpopped v).mp hv
      exact (hclosed v hv hle w hvw).imp_right (hpopped w).mpr
  refine ⟨h.visited_lt, fun v => ?_, ?_, fun v => ?_, h.sorted.sublist hsuffix,
    (pairwise_cons.mp hgraysBelow).2, fun v hv => ?_, fun c hc => ?_, hclosedAll,
    fun c hc v hv w => ?_⟩
  · change _ ↔ v ∈ (s.components ++ [(popUntil node s.stack).1]).flatten ++
      (popUntil node s.stack).2
    rw [hstack]
    exact h.visited v
  · change ((s.components ++ [(popUntil node s.stack).1]).flatten ++
      (popUntil node s.stack).2).Nodup
    rw [hstack]
    exact h.nodup
  · change (s.onStack v && decide (v ∉ (popUntil node s.stack).1)) = true ↔
      v ∈ (popUntil node s.stack).2
    rw [Bool.and_eq_true, decide_eq_true_iff, h.onStack, hpopped, hrest]
    constructor
    · rintro ⟨hv, hnot⟩
      exact ⟨hv, Nat.lt_of_not_le fun hle => hnot ⟨hv, hle⟩⟩
    · rintro ⟨hv, hlt⟩
      exact ⟨hv, fun hle => Nat.not_le_of_lt hlt hle.2⟩
  · exact (hrest v).mpr ⟨h.grays v (hgrays ▸ mem_cons_of_mem _ hv), hlt v hv⟩
  · rcases mem_append.mp hc with hc | hc
    · exact h.nonempty c hc
    · rw [mem_singleton.mp hc]
      exact List.ne_nil_of_mem ((hpopped node).mpr ⟨hnode, le_rfl⟩)
  · rcases mem_append.mp hc with hc | hc
    · exact h.component c hc v hv w
    · rw [mem_singleton.mp hc] at hv ⊢
      obtain ⟨hvs, hle⟩ := (hpopped v).mp hv
      constructor
      · intro hw
        obtain ⟨hws, hle'⟩ := (hpopped w).mp hw
        exact (hmutual v hvs hle).symm.trans (hmutual w hws hle')
      · intro hvw
        -- What `v` reaches is finished or popped, and nothing finished reaches `v`.
        have hw := mem_of_reaches hclosedAll hvw.1 ((hsplit v).mpr (.inr hv))
        refine ((hsplit w).mp hw).resolve_left fun hw => ?_
        have hv' := mem_of_reaches h.closed hvw.2 hw
        exact (List.nodup_append.mp h.nodup).2.2 v hv' v hvs rfl

theorem TarjanLinks.pop (hlinks : TarjanLinks t s) (h : TarjanShape t s) (ht : t.Consistent)
    (hpath : s.path = (node, cursor) :: below) (hrow : (t.row node).length ≤ cursor) :
    TarjanLinks t (TarjanState.popComponent
      { s with path := below, lowLink := lowered s node below } node) := by
  obtain ⟨hgrays, hnode, hlt⟩ := h.top hpath
  have hrest : ∀ v, v ∈ (popUntil node s.stack).2 ↔ v ∈ s.stack ∧ s.idx v < s.idx node :=
    fun v => (mem_popUntil h.sorted hnode).2
  have hsub : ∀ g ∈ below.map Prod.fst, g ∈ s.grays := fun g hg =>
    hgrays ▸ mem_cons_of_mem _ hg
  have hbelow : ∀ g ∈ s.grays, s.idx g < s.idx node → g ∈ below.map Prod.fst := by
    intro g hg hlt
    rw [hgrays] at hg
    refine (mem_cons.mp hg).resolve_left fun heq => ?_
    rw [heq] at hlt
    exact lt_irrefl _ hlt
  have htried : ∀ x u, t.Tried below x u → t.Tried s.path x u := fun x u hu => by
    rw [hpath]
    exact hu.of_leave ht hrow
  refine ⟨fun g hg x hx => ?_, fun x hx => ?_,
    fun g hg => (lowered_le g).trans (hlinks.low_le g (hsub g hg)), fun g hg => ?_,
    fun x hx u hu => ?_, fun g hg x hx hgx u hu htr => ?_⟩
  · exact hlinks.fromGray g (hsub g hg) x ((hrest x).mp hx).1
  · obtain ⟨hxs, hxlt⟩ := (hrest x).mp hx
    obtain ⟨g, hg, hle, hreach⟩ := hlinks.toGray x hxs
    exact ⟨g, hbelow g hg (hle.trans_lt hxlt), hle, hreach⟩
  · obtain ⟨x, hx, heq, hreach⟩ := lowered_reached h hlinks hpath hg
    refine ⟨x, (hrest x).mpr ⟨hx, ?_⟩, heq, hreach⟩
    rw [heq]
    exact ((lowered_le g).trans (hlinks.low_le g (hsub g hg))).trans_lt (hlt g hg)
  · exact hlinks.tried_visited x ((hrest x).mp hx).1 u (htried x u hu)
  · obtain ⟨hxs, hxlt⟩ := (hrest x).mp hx
    obtain ⟨g', hg', hle₁, hle₂, hle₃⟩ :=
      hlinks.tried_low g (hsub g hg) x hxs hgx u ((hrest u).mp hu).1 (htried x u htr)
    exact ⟨g', hbelow g' hg' (hle₂.trans_lt hxlt), hle₁, hle₂, (lowered_le g').trans hle₃⟩

end Leave

/-! ## The whole search -/

/-- What holds before every iteration. -/
structure TarjanInv (t : GraphTables K E) (s : TarjanState) : Prop where
  shape : TarjanShape t s
  links : TarjanLinks t s

theorem TarjanInv.leave (h : TarjanInv t s) (ht : t.Consistent) {node cursor : ℕ}
    {below : List (ℕ × ℕ)} (hpath : s.path = (node, cursor) :: below)
    (hrow : (t.row node).length ≤ cursor) :
    TarjanInv t (TarjanState.leave { s with path := below } node) := by
  obtain ⟨hgrays, hnode, hlt⟩ := h.shape.top hpath
  have hindex : s.index node = some (s.idx node) := by
    obtain ⟨i, hi⟩ := Option.ne_none_iff_exists'.mp (h.shape.stack_visited hnode)
    rw [TarjanState.idx, hi, Option.getD_some]
  have hlowNode : lowered s node below node = s.lowLink node :=
    lowered_of_notMem fun hmem => lt_irrefl _ (hlt node hmem)
  have hle := h.links.low_le node (hgrays ▸ mem_cons_self)
  unfold TarjanState.leave
  rw [lowerParent_eq]
  dsimp only
  split_ifs with hroot
  · rw [hlowNode, hindex, Option.some.injEq] at hroot
    exact ⟨h.shape.pop h.links ht hpath hrow hroot.symm _, h.links.pop h.shape ht hpath hrow⟩
  · rw [hlowNode, hindex, Option.some.injEq] at hroot
    exact ⟨h.shape.leave hpath _,
      h.links.leave h.shape ht hpath hrow (lt_of_le_of_ne hle (Ne.symm hroot))⟩

theorem TarjanShape.advance (h : TarjanShape t s) {node cursor : ℕ} {below : List (ℕ × ℕ)}
    (hpath : s.path = (node, cursor) :: below) (low : ℕ → ℕ) :
    TarjanShape t { s with path := (node, cursor + 1) :: below, lowLink := low } := by
  have hsorted := h.graysSorted
  have hstack := h.grays
  rw [(h.top hpath).1] at hsorted hstack
  exact ⟨h.visited_lt, h.visited, h.nodup, h.onStack, h.sorted, hsorted, hstack, h.nonempty,
    h.closed, h.component⟩

theorem TarjanInv.step (h : TarjanInv t s) (ht : t.Consistent)
    (hstep : t.tarjanStep s = some next) : TarjanInv t next := by
  obtain ⟨node, cursor, below, hpath, hcases⟩ := tarjanStep_cases hstep
  obtain ⟨hgrays, hnode, -⟩ := h.shape.top hpath
  have hnodeGray : node ∈ s.grays := hgrays ▸ mem_cons_self
  have hmax := h.shape.max hpath
  cases hcases with
  | enter w label hrow hindex =>
    have hdep := dep_of_getElem? ht hrow
    refine ⟨h.shape.enter hindex (ht.edge_lt node w hdep).2 hgrays.symm,
      h.links.enter h.shape hindex hgrays.symm (fun x u hu => ?_) fun g hg => ?_⟩
    · rw [hpath]
      exact (hu.of_advance hrow).imp_right And.right
    · exact (h.links.fromGray g hg node hnode (hmax g hg)).tail hdep
  | back w label visited hrow hindex hstack =>
    have hdep := dep_of_getElem? ht hrow
    have hw := (h.shape.onStack w).mp hstack
    have hidx : s.idx w = visited := by rw [TarjanState.idx, hindex, Option.getD_some]
    refine ⟨h.shape.advance hpath _, h.links.advance hpath hrow (by rw [hindex]; exact nofun)
      hnodeGray hmax (fun g => ?_) (fun g hg => ?_) fun _ => ?_⟩
    · rcases eq_or_ne g node with rfl | hne
      · rw [update_self]
        exact min_le_left _ _
      · rw [update_of_ne hne]
    · rcases eq_or_ne g node with rfl | hne
      · rw [update_self]
        rcases min_choice (s.lowLink g) visited with hmin | hmin
        · rw [hmin]
          exact h.links.low_reached g hg
        · exact ⟨w, hw, hidx.trans hmin.symm, .single hdep⟩
      · rw [update_of_ne hne]
        exact h.links.low_reached g hg
    · rw [update_self, hidx]
      exact min_le_right _ _
  | skip w label visited hrow hindex hstack =>
    refine ⟨h.shape.advance hpath _, h.links.advance hpath hrow (by rw [hindex]; exact nofun)
      hnodeGray hmax (fun g => le_rfl) h.links.low_reached fun hw => ?_⟩
    rw [← h.shape.onStack, hstack] at hw
    cases hw
  | leave hrow => exact h.leave ht hpath hrow

theorem tarjanWork_lt (ht : t.Consistent) (hstep : t.tarjanStep s = some next) :
    t.tarjanWork next < t.tarjanWork s := by
  obtain ⟨node, cursor, below, hpath, hcases⟩ := tarjanStep_cases hstep
  have hadvance : ∀ {w label}, (t.row node)[cursor]? = some (w, label) →
      t.tarjanWork { s with path := (node, cursor + 1) :: below } < t.tarjanWork s := by
    intro w label hrow
    unfold tarjanWork
    rw [hpath]
    exact Traversal.work_advance (List.getElem?_eq_some_iff.mp hrow).1
  cases hcases with
  | enter w label hrow hindex =>
    refine lt_trans ?_ (hadvance hrow)
    refine Traversal.work_enter (ht.edge_lt node w (dep_of_getElem? ht hrow)).2 (by simp [hindex])
      (by simp [TarjanState.enter]) fun u hu => by simp [TarjanState.enter, update_of_ne hu]
  | back w label visited hrow hindex hstack => exact hadvance hrow
  | skip w label visited hrow hindex hstack => exact hadvance hrow
  | leave hrow =>
    have hsame : t.tarjanWork (TarjanState.leave { s with path := below } node) =
        t.tarjanWork { s with path := below } := by
      unfold TarjanState.leave
      rw [lowerParent_eq]
      dsimp only
      split_ifs <;> rfl
    rw [hsame]
    unfold tarjanWork
    rw [hpath]
    exact Traversal.work_leave (node, cursor)

theorem tarjanStep_visited (hstep : t.tarjanStep s = some next) (hv : s.index v ≠ none) :
    next.index v ≠ none := by
  obtain ⟨node, cursor, below, hpath, hcases⟩ := tarjanStep_cases hstep
  cases hcases with
  | enter w label hrow hindex =>
    unfold TarjanState.enter
    dsimp only
    rcases eq_or_ne v w with rfl | hne
    · rw [update_self]
      exact nofun
    · rwa [update_of_ne hne]
  | back => exact hv
  | skip => exact hv
  | leave hrow =>
    unfold TarjanState.leave
    rw [lowerParent_eq]
    dsimp only
    split_ifs <;> exact hv

/-- Between roots the path is empty, and the roots tried so far are visited. -/
structure TarjanRoots (t : GraphTables K E) (roots : List ℕ) (s : TarjanState) : Prop where
  inv : TarjanInv t s
  path : s.path = []
  visited : ∀ root ∈ roots, s.index root ≠ none

theorem TarjanRoots.root {roots : List ℕ} (h : TarjanRoots t roots s) (ht : t.Consistent)
    {root : ℕ} (hlt : root < t.keys.length) :
    TarjanRoots t (roots ++ [root]) (t.tarjanRoot s root) := by
  unfold tarjanRoot
  split_ifs with hskip
  · refine ⟨h.inv, h.path, fun r hr => ?_⟩
    rcases mem_append.mp hr with hr | hr
    · exact h.visited r hr
    · rw [mem_singleton.mp hr]
      exact Option.isSome_iff_ne_none.mp hskip
  · have hindex : s.index root = none := by simpa using hskip
    have hgrays : s.grays = [] := by
      unfold TarjanState.grays
      rw [h.path, List.map_nil]
    have hentered : TarjanInv t (s.enter root) := by
      refine ⟨h.inv.shape.enter hindex hlt rfl, h.inv.links.enter h.inv.shape hindex rfl
        (fun x u hu => .inl hu) fun g hg => ?_⟩
      rw [hgrays] at hg
      cases hg
    have hrun := Loop.runWhile_invariant
      (fun s' => TarjanInv t s' ∧ ∀ r ∈ roots ++ [root], s'.index r ≠ none)
      (fun s' next hinv hstep => ⟨hinv.1.step ht hstep,
        fun r hr => tarjanStep_visited hstep (hinv.2 r hr)⟩)
      (t.tarjanWork (s.enter root)) ⟨hentered, fun r hr => ?_⟩
    · have hstop := Loop.runWhile_stops (fun _ => True) t.tarjanWork (fun _ _ _ _ => trivial)
        (fun _ _ _ hstep => tarjanWork_lt ht hstep) trivial (le_refl (t.tarjanWork (s.enter root)))
      exact ⟨hrun.1, tarjanStep_eq_none hstop, hrun.2⟩
    · unfold TarjanState.enter
      dsimp only
      rcases eq_or_ne r root with rfl | hne
      · rw [update_self]
        exact nofun
      · rw [update_of_ne hne]
        exact h.visited r ((mem_append.mp hr).resolve_right fun hr =>
          hne (mem_singleton.mp hr))

theorem tarjanInv_new : TarjanInv t .new := by
  refine ⟨⟨fun v hv => absurd rfl hv, fun v => ?_, List.nodup_nil, fun v => ?_, .nil, .nil,
    nofun, nofun, nofun, nofun⟩, ⟨nofun, nofun, nofun, nofun, nofun, nofun⟩⟩
  · exact iff_of_false (fun hne => hne rfl) (by simp [TarjanState.new])
  · exact iff_of_false nofun (by simp [TarjanState.new])

theorem tarjanRoots_search (ht : t.Consistent) :
    TarjanRoots t (List.range t.keys.length)
      ((List.range t.keys.length).foldl t.tarjanRoot .new) := by
  have hgen : ∀ roots : List ℕ, (∀ r ∈ roots, r < t.keys.length) →
      TarjanRoots t roots (roots.foldl t.tarjanRoot .new) := by
    intro roots
    induction roots using List.reverseRecOn with
    | nil => exact fun _ => ⟨tarjanInv_new, rfl, nofun⟩
    | append_singleton roots root ih =>
      intro hroots
      rw [List.foldl_concat]
      exact (ih fun r hr => hroots r (List.mem_append_left _ hr)).root ht
        (hroots root (by simp))
  exact hgen _ fun r hr => List.mem_range.mp hr

/-- The components partition the nodes, and each is a class of mutually reachable nodes. -/
structure IsPartition (t : GraphTables K E) (components : List (List ℕ)) : Prop where
  perm : components.flatten.Perm (List.range t.keys.length)
  nonempty : ∀ c ∈ components, c ≠ []
  component : ∀ c ∈ components, ∀ v ∈ c, ∀ w, w ∈ c ↔ Mutual t.Dep v w

theorem isPartition_componentIndices (ht : t.Consistent) : IsPartition t t.componentIndices := by
  obtain ⟨⟨hshape, hlinks⟩, hpath, hvisited⟩ := tarjanRoots_search ht
  have hstack : ((List.range t.keys.length).foldl t.tarjanRoot .new).stack = [] := by
    refine List.eq_nil_iff_forall_not_mem.mpr fun x hx => ?_
    -- A node on the stack reaches a node on the path, which is empty.
    obtain ⟨g, hg, -⟩ := hlinks.toGray x hx
    unfold TarjanState.grays at hg
    rw [hpath] at hg
    cases hg
  have hnodup := hshape.nodup
  have hmem := hshape.visited
  rw [hstack, List.append_nil] at hnodup
  refine ⟨(List.perm_ext_iff_of_nodup hnodup List.nodup_range).mpr fun v => ?_, hshape.nonempty,
    hshape.component⟩
  have hv := hmem v
  rw [hstack, List.append_nil] at hv
  constructor
  · intro hin
    exact List.mem_range.mpr (hshape.visited_lt v (hv.mpr hin)).1
  · exact fun hin => hv.mp (hvisited v hin)

end GraphTables

end ProvenGraphcal
