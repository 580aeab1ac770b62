import ProvenGraphcal.Graph.DependencyGraph
import ProvenGraphcal.Library.CycleSearch

/-!
# The depth-first search

An explicit path of frames instead of recursion. The search emits a node when all of its
dependencies are emitted, and stops at the first dependency that is on the path.
-/

namespace ProvenGraphcal

open DependencyOrder
open Function (update update_apply update_of_ne update_self)

variable {K E : Type}

inductive Visit
  | unvisited
  /-- On the current search path, at this depth. -/
  | onPath (position : ℕ)
  | done
  deriving DecidableEq

def Visit.position? : Visit → Option ℕ
  | .onPath position => some position
  | _ => none

theorem Visit.position?_eq_some {visit : Visit} {position : ℕ} :
    visit.position? = some position ↔ visit = .onPath position := by
  cases visit <;> simp [Visit.position?]

/-- A cycle the depth-first search found, by node index. -/
structure IndexCycle (E : Type) where
  entry : ℕ
  rest : List ℕ
  closing : E

/-- The search: the frames of the path, a node and its next edge to try, stand top first. The
cycle is set where the source returns it. -/
structure Search (E : Type) where
  state : ℕ → Visit
  postOrder : List ℕ
  path : List (ℕ × ℕ)
  cycle : Option (IndexCycle E)

/-- The nodes on the path, from the root. -/
def Search.nodes (s : Search E) : List ℕ := (s.path.map Prod.fst).reverse

variable {label : E} {below path : List (ℕ × ℕ)} {above : Option ℕ} {s : Search E} {cursor v : ℕ}
variable {emitted : ℕ → Prop}

namespace GraphTables

variable (t : GraphTables K E)

/-- One iteration of the search from a root. -/
def searchStep (s : Search E) : Option (Search E) :=
  match s.cycle, s.path with
  | some _, _ => none
  | none, [] => none
  | none, (node, cursor) :: below =>
    match (t.row node)[cursor]? with
    | none => some { s with
        state := Function.update s.state node .done
        postOrder := s.postOrder ++ [node]
        path := below }
    | some (dependency, label) =>
      let advanced := (node, cursor + 1) :: below
      match s.state dependency with
      | .unvisited => some { s with
          state := Function.update s.state dependency (.onPath s.path.length)
          path := (dependency, 0) :: advanced }
      | .onPath position => some { s with
          path := advanced
          cycle := some ⟨dependency, (s.nodes.drop position).tail, label⟩ }
      | .done => some { s with path := advanced }

def searchWork (s : Search E) : ℕ :=
  Traversal.work (fun v => (t.row v).length) t.keys.length
    (fun v => s.state v = .unvisited) s.path

/-- Search from a root that no search before has visited. -/
def visitRoot (s : Search E) (root : ℕ) : Search E :=
  if s.cycle.isSome ∨ s.state root ≠ .unvisited then s
  else
    let entered : Search E := { s with
      state := Function.update s.state root (.onPath 0)
      path := (root, 0) :: s.path }
    Loop.runWhile t.searchStep (t.searchWork entered) entered

def search : Search E :=
  (List.range t.keys.length).foldl t.visitRoot ⟨fun _ => .unvisited, [], [], none⟩

/-- Node indices in depth-first post-order, or the first cycle found. -/
def depthFirst : Except (IndexCycle E) (List ℕ) :=
  match t.search.cycle with
  | some cycle => .error cycle
  | none => .ok t.search.postOrder

variable {t}

inductive SearchStep (t : GraphTables K E) (s : Search E) (v cursor : ℕ)
    (below : List (ℕ × ℕ)) : Search E → Prop
  | leave (hrow : (t.row v).length ≤ cursor) :
    SearchStep t s v cursor below { s with
      state := Function.update s.state v .done
      postOrder := s.postOrder ++ [v]
      path := below }
  | enter (w : ℕ) (label : E) (hrow : (t.row v)[cursor]? = some (w, label))
      (hstate : s.state w = .unvisited) :
    SearchStep t s v cursor below { s with
      state := Function.update s.state w (.onPath s.path.length)
      path := (w, 0) :: (v, cursor + 1) :: below }
  | close (w : ℕ) (label : E) (position : ℕ) (hrow : (t.row v)[cursor]? = some (w, label))
      (hstate : s.state w = .onPath position) :
    SearchStep t s v cursor below { s with
      path := (v, cursor + 1) :: below
      cycle := some ⟨w, (s.nodes.drop position).tail, label⟩ }
  | skip (w : ℕ) (label : E) (hrow : (t.row v)[cursor]? = some (w, label))
      (hstate : s.state w = .done) :
    SearchStep t s v cursor below { s with path := (v, cursor + 1) :: below }

theorem searchStep_cases {next : Search E} (h : t.searchStep s = some next) :
    s.cycle = none ∧ ∃ v cursor below, s.path = (v, cursor) :: below ∧
      SearchStep t s v cursor below next := by
  unfold searchStep at h
  split at h
  case h_1 => cases h
  case h_2 => cases h
  case h_3 node cursor below hcycle hpath =>
    refine ⟨hcycle, node, cursor, below, hpath, ?_⟩
    split at h
    case h_1 hrow =>
      cases h
      exact .leave (List.getElem?_eq_none_iff.mp hrow)
    case h_2 w label hrow =>
      split at h
      case h_1 hstate =>
        cases h
        exact .enter w label hrow hstate
      case h_2 position hstate =>
        cases h
        exact .close w label position hrow hstate
      case h_3 hstate =>
        cases h
        exact .skip w label hrow hstate

theorem searchStep_eq_none (h : t.searchStep s = none) :
    s.cycle ≠ none ∨ s.path = [] := by
  unfold searchStep at h
  split at h
  case h_1 hcycle => exact .inl (by simp [hcycle])
  case h_2 hpath => exact .inr hpath
  case h_3 node cursor below hcycle hpath =>
    split at h
    · cases h
    · dsimp only at h
      split at h <;> cases h

/-- Every iteration leaves less work. -/
theorem searchWork_lt (ht : t.Consistent) {next : Search E} (h : t.searchStep s = some next) :
    t.searchWork next < t.searchWork s := by
  obtain ⟨-, v, cursor, below, hpath, hstep⟩ := searchStep_cases h
  have hadvance : ∀ {w label}, (t.row v)[cursor]? = some (w, label) →
      t.searchWork { s with path := (v, cursor + 1) :: below } < t.searchWork s := by
    intro w label hrow
    unfold searchWork
    rw [hpath]
    exact Traversal.work_advance (List.getElem?_eq_some_iff.mp hrow).1
  cases hstep with
  | leave hrow =>
    unfold searchWork
    rw [hpath]
    refine (Traversal.work_mono fun u hu => ?_).trans_lt (Traversal.work_leave (v, cursor))
    by_cases huv : u = v
    · simp [huv] at hu
    · simpa [update_of_ne huv] using hu
  | enter w label hrow hstate =>
    refine lt_trans ?_ (hadvance hrow)
    refine Traversal.work_enter (ht.edge_lt v w (dep_of_getElem? ht hrow)).2 (by simpa using hstate)
      (by simp) fun u hu => by simp [update_of_ne hu]
  | close w label position hrow hstate => exact hadvance hrow
  | skip w label hrow hstate => exact hadvance hrow

/-! ## The invariant of the search -/

/-- Every frame has emitted the dependencies it tried, except the one whose node stands above. -/
def FramesOk (t : GraphTables K E) (emitted : ℕ → Prop) : Option ℕ → List (ℕ × ℕ) → Prop
  | _, [] => True
  | above, (v, cursor) :: below =>
    (∀ w ∈ ((t.row v).take cursor).map Prod.fst, emitted w ∨ above = some w) ∧
      (∀ w, above = some w → t.Dep v w) ∧ FramesOk t emitted (some v) below

theorem FramesOk.mono {emitted' : ℕ → Prop} (hsub : ∀ w, emitted w → emitted' w)
    (h : FramesOk t emitted above path) :
    FramesOk t emitted' above path := by
  induction path generalizing above with
  | nil => trivial
  | cons frame below ih => exact ⟨fun w hw => (h.1 w hw).imp_left (hsub w), h.2.1, ih h.2.2⟩

/-- The node above a frame is emitted, so the frame is on top. -/
theorem FramesOk.emit (h : FramesOk t emitted (some v) path) (hv : emitted v) :
    FramesOk t emitted none path := by
  cases path with
  | nil => trivial
  | cons frame below =>
    refine ⟨fun w hw => .inl ?_, nofun, h.2.2⟩
    rcases h.1 w hw with hw | hw
    · exact hw
    · exact Option.some.inj hw ▸ hv

/-- The path is a chain of dependencies. -/
theorem FramesOk.isChain (h : FramesOk t emitted above path) :
    ((path.map Prod.fst).reverse).IsChain t.Dep := by
  induction path generalizing above with
  | nil => exact .nil
  | cons frame below ih =>
    rw [List.map_cons, List.reverse_cons, List.isChain_append]
    refine ⟨ih h.2.2, .singleton _, fun x hx y hy => ?_⟩
    obtain rfl : frame.1 = y := by simpa using hy
    rw [List.getLast?_reverse] at hx
    cases below with
    | nil => cases hx
    | cons frame' below =>
      cases hx
      exact h.2.2.2.1 frame.1 rfl

structure GenuineCycle (t : GraphTables K E) (c : IndexCycle E) : Prop where
  isCycle : IsCycle t.Dep (c.entry :: c.rest)
  closing : ∀ last ∈ (c.entry :: c.rest).getLast?, (c.entry, c.closing) ∈ t.row last

/-- What holds before every iteration. -/
structure SearchInv (t : GraphTables K E) (s : Search E) : Prop where
  onPath : ∀ v position, s.state v = .onPath position ↔ s.nodes[position]? = some v
  done : ∀ v, s.state v = .done ↔ v ∈ s.postOrder
  nodup : s.postOrder.Nodup
  inOrder : InOrder t.Dep s.postOrder
  visited_lt : ∀ v, s.state v ≠ .unvisited → v < t.keys.length
  frames : s.cycle = none → FramesOk t (· ∈ s.postOrder) none s.path
  cycle : ∀ c ∈ s.cycle, GenuineCycle t c

theorem SearchInv.positions (h : SearchInv t s) :
    PathPositions (fun v => (s.state v).position?) s.nodes :=
  fun v position => Visit.position?_eq_some.trans (h.onPath v position)

theorem SearchInv.top (h : SearchInv t s) (hpath : s.path = (v, cursor) :: below) :
    s.state v = .onPath below.length := by
  rw [h.onPath]
  unfold Search.nodes
  rw [hpath]
  simp

/-- Trying the edge to `w` leaves the frames in order when `w` is emitted or comes to stand above. -/
theorem FramesOk.advance {w : ℕ} (h : FramesOk t emitted none ((v, cursor) :: below))
    (hrow : (t.row v)[cursor]? = some (w, label)) (hw : emitted w ∨ above = some w)
    (habove : ∀ u, above = some u → t.Dep v u) :
    FramesOk t emitted above ((v, cursor + 1) :: below) := by
  refine ⟨fun u hu => ?_, habove, h.2.2⟩
  rw [List.take_add_one, hrow, Option.toList_some, List.map_append, List.mem_append] at hu
  rcases hu with hu | hu
  · exact .inl ((h.1 u hu).resolve_right nofun)
  · obtain rfl : u = w := by simpa using hu
    exact hw

theorem SearchInv.advance {s : Search E} (h : SearchInv t s) (hcycle : s.cycle = none) {v cursor w : ℕ} {label : E}
    {below : List (ℕ × ℕ)} (hpath : s.path = (v, cursor) :: below)
    (hrow : (t.row v)[cursor]? = some (w, label)) (hw : w ∈ s.postOrder) :
    SearchInv t { s with path := (v, cursor + 1) :: below } := by
  have hnodes : Search.nodes { s with path := (v, cursor + 1) :: below } = s.nodes := by
    unfold Search.nodes
    rw [hpath]
    rfl
  refine ⟨fun u position => ?_, h.done, h.nodup, h.inOrder, h.visited_lt, ?_, h.cycle⟩
  · rw [hnodes]
    exact h.onPath u position
  · have hframes := h.frames hcycle
    rw [hpath] at hframes
    exact fun _ => hframes.advance hrow (.inl hw) nofun

section

variable (h : SearchInv t s)

include h

/-- The path from a node on it to the top, closed by the edge that re-enters the node. -/
theorem SearchInv.close (ht : t.Consistent) (hcycle : s.cycle = none) {w position : ℕ}
    (hpath : s.path = (v, cursor) :: below) (hrow : (t.row v)[cursor]? = some (w, label))
    (hstate : s.state w = .onPath position) :
    GenuineCycle t ⟨w, (s.nodes.drop position).tail, label⟩ := by
  have hentry := (h.onPath w position).mp hstate
  obtain ⟨hlt, hget⟩ := List.getElem?_eq_some_iff.mp hentry
  have hdrop : w :: (s.nodes.drop position).tail = s.nodes.drop position := by
    rw [List.drop_eq_getElem_cons hlt, hget, List.tail_cons]
  have hlast : ∀ last ∈ (s.nodes.drop position).getLast?, last = v := by
    intro last hmem
    have hne : ¬ s.nodes.length ≤ position := Nat.not_le_of_lt hlt
    rw [List.getLast?_drop, if_neg hne] at hmem
    unfold Search.nodes at hmem
    rw [hpath, List.getLast?_reverse] at hmem
    exact (Option.some.inj hmem).symm
  refine ⟨⟨List.cons_ne_nil _ _, ?_, ?_, ?_⟩, ?_⟩ <;> dsimp only <;> rw [hdrop]
  · exact h.positions.nodup.sublist (List.drop_sublist _ _)
  · exact (h.frames hcycle).isChain.drop position
  · intro first hfirst last hmem
    rw [hlast last hmem]
    rw [← hdrop] at hfirst
    obtain rfl := Option.some.inj hfirst
    exact dep_of_getElem? ht hrow
  · intro last hmem
    rw [hlast last hmem]
    exact List.mem_of_getElem? hrow

theorem SearchInv.enter {w : ℕ} {frames : List (ℕ × ℕ)} (hstate : s.state w = .unvisited)
    (hlt : w < t.keys.length) (hnodes : (frames.map Prod.fst).reverse = s.nodes)
    (hframes : FramesOk t (· ∈ s.postOrder) (some w) frames) :
    SearchInv t { s with
      state := update s.state w (.onPath frames.length)
      path := (w, 0) :: frames } := by
  have hlength : frames.length = s.nodes.length := by
    rw [← hnodes, List.length_reverse, List.length_map]
  have hnotDone : w ∉ s.postOrder := by
    rw [← h.done, hstate]
    exact nofun
  refine ⟨fun u position => ?_, fun u => ?_, h.nodup, h.inOrder, fun u hu => ?_, ?_, h.cycle⟩
  · have hpath : Search.nodes { s with path := (w, 0) :: frames } = s.nodes ++ [w] := by
      unfold Search.nodes
      rw [List.map_cons, List.reverse_cons, hnodes]
      rfl
    change update s.state w (.onPath frames.length) u = _ ↔
      (Search.nodes { s with path := (w, 0) :: frames })[position]? = some u
    rw [hpath, ← Visit.position?_eq_some]
    have hpush : PathPositions (fun u => (update s.state w (.onPath frames.length) u).position?)
        (s.nodes ++ [w]) := by
      refine h.positions.push (h.positions.eq_none.mp (by rw [hstate]; rfl)) fun u => ?_
      rw [update_apply, ← hlength]
      split_ifs <;> rfl
    exact hpush u position
  · dsimp only
    by_cases hu : u = w
    · subst hu
      rw [update_self]
      exact iff_of_false nofun hnotDone
    · rw [update_of_ne hu]
      exact h.done u
  · by_cases huw : u = w
    · exact huw ▸ hlt
    · dsimp only at hu
      rw [update_of_ne huw] at hu
      exact h.visited_lt u hu
  · exact fun _ => ⟨fun u hu => by simp at hu, nofun, hframes⟩

theorem SearchInv.leave (ht : t.Consistent) (hcycle : s.cycle = none)
    (hpath : s.path = (v, cursor) :: below) (hrow : (t.row v).length ≤ cursor) :
    SearchInv t { s with
      state := update s.state v .done
      postOrder := s.postOrder ++ [v]
      path := below } := by
  have hframes := h.frames hcycle
  rw [hpath] at hframes
  have hnotDone : v ∉ s.postOrder := by
    rw [← h.done, h.top hpath]
    exact nofun
  have hdeps : ∀ w, t.Dep v w → w ∈ s.postOrder := by
    intro w hw
    have hmem := (ht.mem_row v w).mp hw
    rw [← List.take_of_length_le hrow] at hmem
    exact (hframes.1 w hmem).resolve_right nofun
  have hnodes : s.nodes = (below.map Prod.fst).reverse ++ [v] := by
    unfold Search.nodes
    rw [hpath, List.map_cons, List.reverse_cons]
  refine ⟨fun u position => ?_, fun u => ?_, nodup_concat hnotDone h.nodup,
    h.inOrder.concat hdeps, fun u hu => ?_, ?_, h.cycle⟩
  · change update s.state v .done u = .onPath position ↔
      (below.map Prod.fst).reverse[position]? = some u
    rw [← Visit.position?_eq_some]
    have hpop : PathPositions (fun u => (update s.state v .done u).position?)
        (below.map Prod.fst).reverse := by
      refine (hnodes ▸ h.positions).pop fun u => ?_
      rw [update_apply]
      split_ifs <;> rfl
    exact hpop u position
  · dsimp only
    by_cases hu : u = v
    · subst hu
      rw [update_self]
      exact iff_of_true rfl (by simp)
    · rw [update_of_ne hu, h.done, List.mem_append]
      exact ⟨.inl, fun hmem => hmem.resolve_right fun hmem => hu (List.mem_singleton.mp hmem)⟩
  · by_cases huv : u = v
    · exact huv ▸ h.visited_lt v (by rw [h.top hpath]; exact nofun)
    · dsimp only at hu
      rw [update_of_ne huv] at hu
      exact h.visited_lt u hu
  · have hbelow := hframes.2.2.mono fun w hw => List.mem_append_left [v] hw
    exact fun _ => hbelow.emit (by simp)

theorem SearchInv.step {next : Search E} (ht : t.Consistent) (hstep : t.searchStep s = some next) :
    SearchInv t next := by
  obtain ⟨hcycle, v, cursor, below, hpath, hcases⟩ := searchStep_cases hstep
  have hframes := h.frames hcycle
  rw [hpath] at hframes
  cases hcases with
  | leave hrow => exact h.leave ht hcycle hpath hrow
  | enter w label hrow hstate =>
    have hdep := dep_of_getElem? ht hrow
    have hlength : s.path.length = ((v, cursor + 1) :: below).length := by rw [hpath]; rfl
    rw [hlength]
    refine h.enter hstate (ht.edge_lt v w hdep).2 ?_ ?_
    · unfold Search.nodes
      rw [hpath]
      rfl
    · exact hframes.advance hrow (.inr rfl) fun u hu => Option.some.inj hu ▸ hdep
  | close w label position hrow hstate =>
    have hnodes : Search.nodes { s with
        path := (v, cursor + 1) :: below
        cycle := some ⟨w, (s.nodes.drop position).tail, label⟩ } = s.nodes := by
      unfold Search.nodes
      rw [hpath]
      rfl
    refine ⟨fun u p => ?_, h.done, h.nodup, h.inOrder, h.visited_lt, nofun, fun c hc => ?_⟩
    · rw [hnodes]
      exact h.onPath u p
    · obtain rfl := Option.some.inj hc
      exact h.close ht hcycle hpath hrow hstate
  | skip w label hrow hstate => exact h.advance hcycle hpath hrow ((h.done w).mp hstate)

end

theorem SearchStep.visited {next : Search E} (h : SearchStep t s v cursor below next) {u : ℕ}
    (hu : s.state u ≠ .unvisited) :
    next.state u ≠ .unvisited := by
  cases h with
  | leave hrow =>
    rcases eq_or_ne u v with rfl | huv
    · simp
    · simpa [update_of_ne huv] using hu
  | enter w label hrow hstate =>
    rcases eq_or_ne u w with rfl | huw
    · simp
    · simpa [update_of_ne huw] using hu
  | close => exact hu
  | skip => exact hu

/-- Between roots the path is empty, and the roots tried so far are visited. -/
structure RootsInv (t : GraphTables K E) (roots : List ℕ) (s : Search E) : Prop where
  inv : SearchInv t s
  path : s.cycle = none → s.path = []
  visited : s.cycle = none → ∀ root ∈ roots, s.state root ≠ .unvisited

/-- The search from a root keeps the invariant and what is visited, and runs to its end. -/
theorem rootsInv_run (ht : t.Consistent) {roots : List ℕ} (h : SearchInv t s)
    (hvisited : ∀ root ∈ roots, s.state root ≠ .unvisited) :
    RootsInv t roots (Loop.runWhile t.searchStep (t.searchWork s) s) := by
  have hrun := Loop.runWhile_invariant
    (fun s' => SearchInv t s' ∧ ∀ root ∈ roots, s'.state root ≠ .unvisited)
    (fun s' next hinv hstep => by
      obtain ⟨-, v, cursor, below, -, hcases⟩ := searchStep_cases hstep
      exact ⟨hinv.1.step ht hstep, fun root hroot => hcases.visited (hinv.2 root hroot)⟩)
    (t.searchWork s) ⟨h, hvisited⟩
  have hstop := Loop.runWhile_stops (fun _ => True) t.searchWork (fun _ _ _ _ => trivial)
    (fun _ _ _ hstep => searchWork_lt ht hstep) trivial (le_refl (t.searchWork s))
  exact ⟨hrun.1, fun hcycle => (searchStep_eq_none hstop).resolve_left (not_not.mpr hcycle),
    fun _ => hrun.2⟩

theorem RootsInv.visitRoot {s : Search E} {roots : List ℕ} (h : RootsInv t roots s)
    (ht : t.Consistent) {root : ℕ} (hlt : root < t.keys.length) :
    RootsInv t (roots ++ [root]) (t.visitRoot s root) := by
  unfold GraphTables.visitRoot
  split_ifs with hskip
  · refine ⟨h.inv, h.path, fun hcycle r hr => ?_⟩
    rcases List.mem_append.mp hr with hr | hr
    · exact h.visited hcycle r hr
    · obtain rfl := List.mem_singleton.mp hr
      exact hskip.resolve_left (by simp [hcycle])
  · rw [not_or, not_not, Bool.not_eq_true, Option.isSome_eq_false_iff, Option.isNone_iff_eq_none]
      at hskip
    obtain ⟨hcycle, hstate⟩ := hskip
    have hpath := h.path hcycle
    refine rootsInv_run ht ?_ fun r hr => ?_
    · have hframes : FramesOk t (· ∈ s.postOrder) (some root) s.path := by
        rw [hpath]
        trivial
      have hentered := h.inv.enter hstate hlt rfl hframes
      rwa [hpath] at hentered ⊢
    · rcases eq_or_ne r root with rfl | hne
      · simp
      · have hr' := (List.mem_append.mp hr).resolve_right fun hr => hne (List.mem_singleton.mp hr)
        simpa [update_of_ne hne] using h.visited hcycle r hr'

theorem rootsInv_search (ht : t.Consistent) :
    RootsInv t (List.range t.keys.length) t.search := by
  have hgen : ∀ roots : List ℕ, (∀ r ∈ roots, r < t.keys.length) → RootsInv t roots
      (roots.foldl t.visitRoot ⟨fun _ => .unvisited, [], [], none⟩) := by
    intro roots
    induction roots using List.reverseRecOn with
    | nil =>
      intro _
      refine ⟨⟨fun v p => ?_, fun v => ?_, List.nodup_nil, inOrder_nil, fun v hv => ?_,
        fun _ => trivial, nofun⟩, fun _ => rfl, nofun⟩
      · exact iff_of_false nofun (by simp [Search.nodes])
      · exact iff_of_false nofun (by simp)
      · exact absurd rfl hv
    | append_singleton roots root ih =>
      intro hroots
      rw [List.foldl_concat]
      exact (ih fun r hr => hroots r (List.mem_append_left _ hr)).visitRoot ht
        (hroots root (by simp))
  exact hgen _ fun r hr => List.mem_range.mp hr

theorem depthFirst_ok (ht : t.Consistent) {order : List ℕ} (h : t.depthFirst = .ok order) :
    order.Perm (List.range t.keys.length) ∧ InOrder t.Dep order := by
  unfold depthFirst at h
  split at h
  case h_1 => cases h
  case h_2 hcycle =>
    cases h
    obtain ⟨hinv, hpath, hvisited⟩ := rootsInv_search ht
    refine ⟨(List.perm_ext_iff_of_nodup hinv.nodup List.nodup_range).mpr fun v => ?_, hinv.inOrder⟩
    rw [List.mem_range, ← hinv.done]
    constructor
    · intro hdone
      exact hinv.visited_lt v (by rw [hdone]; exact nofun)
    · intro hlt
      have hnot := hvisited hcycle v (List.mem_range.mpr hlt)
      cases hstate : t.search.state v with
      | unvisited => exact absurd hstate hnot
      | onPath position =>
        have hmem := (hinv.onPath v position).mp hstate
        unfold Search.nodes at hmem
        rw [hpath hcycle] at hmem
        simp at hmem
      | done => rfl

theorem depthFirst_error (ht : t.Consistent) {cycle : IndexCycle E}
    (h : t.depthFirst = .error cycle) : GenuineCycle t cycle := by
  unfold depthFirst at h
  split at h
  case h_1 c hcycle =>
    cases h
    exact (rootsInv_search ht).inv.cycle _ hcycle
  case h_2 => cases h

end GraphTables

end ProvenGraphcal
