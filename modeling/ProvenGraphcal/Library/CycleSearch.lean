import ProvenGraphcal.Library.Worklist

/-!
# The positions of a path

A search that keeps its path as a stack records where each item of the path stands. The path then
has no item twice, and the part of it from a recorded item on is found by its position.
-/

open Function (update update_of_ne update_self)

open List (forall_mem_cons map_cons mem_append mem_cons mem_cons_self mem_map mem_of_getElem?
  nodup_cons sum_cons)

namespace ProvenGraphcal

variable {α : Type} [DecidableEq α] {position position' : α → Option ℕ} {path : List α} {a : α}

/-- Every item of the path is recorded with its position, and nothing else is recorded. -/
def PathPositions (position : α → Option ℕ) (path : List α) : Prop :=
  ∀ a i, position a = some i ↔ path[i]? = some a

namespace PathPositions

omit [DecidableEq α] in
theorem nodup (h : PathPositions position path) : path.Nodup := by
  rw [List.nodup_iff_getElem?_ne_getElem?]
  intro i j hij hj heq
  rw [List.getElem?_eq_getElem hj] at heq
  have hi := (h _ i).mpr heq
  have hj := (h _ j).mpr (List.getElem?_eq_getElem hj)
  rw [hi] at hj
  exact Nat.ne_of_lt hij (Option.some.inj hj)

omit [DecidableEq α] in
theorem eq_none (h : PathPositions position path) : position a = none ↔ a ∉ path := by
  rw [Option.eq_none_iff_forall_ne_some, List.mem_iff_getElem?, not_exists]
  exact forall_congr' fun i => not_congr (h a i)

theorem push (h : PathPositions position path) (ha : a ∉ path)
    (hposition : ∀ b, position' b = if b = a then some path.length else position b) :
    PathPositions position' (path ++ [a]) := by
  intro b i
  rw [hposition, List.getElem?_append]
  by_cases hb : b = a
  · subst hb
    rw [if_pos rfl, Option.some.injEq]
    split_ifs with hi
    · exact iff_of_false (by omega) fun hget => ha (mem_of_getElem? hget)
    · rw [List.getElem?_singleton]
      split_ifs with hsub
      · exact iff_of_true (by omega) rfl
      · exact iff_of_false (by omega) nofun
  · rw [if_neg hb, h]
    split_ifs with hi
    · rfl
    · rw [List.getElem?_eq_none (Nat.le_of_not_lt hi), List.getElem?_singleton]
      refine iff_of_false nofun fun heq => hb ?_
      split_ifs at heq
      exact (Option.some.inj heq).symm

theorem pop (h : PathPositions position (path ++ [a]))
    (hposition : ∀ b, position' b = if b = a then none else position b) :
    PathPositions position' path := by
  have hnodup := List.nodup_append.mp h.nodup
  intro b i
  rw [hposition]
  by_cases hb : b = a
  · subst hb
    rw [if_pos rfl]
    refine iff_of_false nofun fun hget => ?_
    exact hnodup.2.2 b (mem_of_getElem? hget) b (List.mem_singleton_self b) rfl
  · rw [if_neg hb, h, List.getElem?_append]
    split_ifs with hi
    · rfl
    · rw [List.getElem?_eq_none (Nat.le_of_not_lt hi), List.getElem?_singleton]
      refine iff_of_false (fun heq => hb ?_) nofun
      split_ifs at heq
      exact (Option.some.inj heq).symm

omit [DecidableEq α] in
/-- The path from a recorded item on starts with the item. -/
theorem drop_eq (h : PathPositions position path) {i : ℕ} (hi : position a = some i) :
    path.drop i = a :: path.drop (i + 1) := by
  obtain ⟨hlt, hget⟩ := List.getElem?_eq_some_iff.mp ((h a i).mp hi)
  rw [List.drop_eq_getElem_cons hlt, hget]

end PathPositions

/-!
# Searching a labelled graph for a cycle

A depth-first search along labelled edges. Nodes are told apart by their keys; an edge whose target
is not known leads nowhere. The search ends with a closed chain of edges, or with every node it
visited accessible: no chain of edges from it goes on for ever.
-/

open Relation

/-- An accessible element is on no loop. -/
theorem not_transGen_of_acc {α : Type} {r : α → α → Prop} {a : α}
    (h : Acc (fun b a => r a b) a) : ¬ TransGen r a a := by
  induction h with
  | intro a _ ih =>
    intro hloop
    -- the first step of the loop leads to an element with a loop of its own
    obtain ⟨b, hab, hba⟩ := TransGen.head'_iff.mp hloop
    exact ih b hab (TransGen.tail'_iff.mpr ⟨a, hba, hab⟩)

/-- For each node its key and its edges in order; an edge leads to its target, if that is known. -/
structure EdgeGraph (V K L : Type) where
  key : V → K
  edges : V → List L
  target : L → Option V

variable {next : ℕ}

namespace EdgeGraph

inductive Mark
  | active | done
  deriving DecidableEq

/-- The frames of the path, a node and its next edge to try, and the edges taken between them, both
with the top first. The cycle is set where the search returns it. -/
structure Search (V K L : Type) where
  state : K → Option Mark
  path : List (V × ℕ)
  taken : List L
  found : Option (List L)

variable {V K L : Type} [DecidableEq K] (g : EdgeGraph V K L)

/-- One iteration of the search. -/
def step (s : Search V K L) : Option (Search V K L) :=
  match s.found, s.path with
  | some _, _ => none
  | none, [] => none
  | none, (node, next) :: below =>
    match (g.edges node)[next]? with
    | none => some { s with
        state := Function.update s.state (g.key node) (some .done)
        path := below
        taken := s.taken.tail }
    | some edge =>
      let advanced := (node, next + 1) :: below
      match g.target edge with
      | none => some { s with path := advanced }
      | some target =>
        match s.state (g.key target) with
        | some .done => some { s with path := advanced }
        | some .active =>
          match s.path.reverse.findIdx? fun frame => g.key frame.1 = g.key target with
          -- left without a cycle; an active node is always on the path
          | none => some { s with path := [] }
          | some start => some { s with
              path := advanced
              found := some (s.taken.reverse.drop start ++ [edge]) }
        | none => some { s with
            state := Function.update s.state (g.key target) (some .active)
            path := (target, 0) :: advanced
            taken := edge :: s.taken }

/-- Two steps and the edges of every node of `all` not visited, and one step and the edges left of
every frame. -/
def work (all : List V) (s : Search V K L) : ℕ :=
  openWeight (fun v => (g.edges v).length + 2) all (fun v => s.state (g.key v) = none) +
    (s.path.map fun frame => (g.edges frame.1).length - frame.2 + 1).sum

/-- Search from a root that was not visited before. -/
def cycleFrom (all : List V) (s : Search V K L) (root : V) : Search V K L :=
  if s.found.isSome ∨ (s.state (g.key root)).isSome then s
  else
    let entered : Search V K L := { s with
      state := Function.update s.state (g.key root) (some .active)
      path := [(root, 0)]
      taken := [] }
    Loop.runWhile g.step (g.work all entered) entered

def search (all roots : List V) : Search V K L :=
  roots.foldl (g.cycleFrom all) ⟨fun _ => none, [], [], none⟩

/-- The edges of the first cycle found from the roots, in a graph of the nodes `all`. -/
def findCycle (all roots : List V) : Option (List L) := (g.search all roots).found

variable {edge : L} {v w : V}

section Chains

omit [DecidableEq K]

def Dep (v w : V) : Prop := ∃ edge ∈ g.edges v, g.target edge = some w

/-- The edges lead from `v` to `w`. -/
inductive Chain : V → List L → V → Prop
  | nil (v : V) : Chain v [] v
  | cons {v u w : V} {edge : L} {rest : List L} (hedge : edge ∈ g.edges v)
      (htarget : g.target edge = some u) (hrest : Chain u rest w) : Chain v (edge :: rest) w

variable {g}

theorem Chain.concat {u : V} {chain : List L} (h : g.Chain v chain u) (hedge : edge ∈ g.edges u)
    (htarget : g.target edge = some w) :
    g.Chain v (chain ++ [edge]) w := by
  induction h with
  | nil v => exact .cons hedge htarget (.nil w)
  | cons hfirst hto _ ih => exact .cons hfirst hto (ih hedge)

theorem Chain.transGen {chain : List L} (h : g.Chain v chain w) (hne : chain ≠ []) :
    TransGen g.Dep v w := by
  induction h with
  | nil v => exact absurd rfl hne
  | cons hedge htarget hrest ih =>
    have hdep : g.Dep _ _ := ⟨_, hedge, htarget⟩
    cases hrest with
    | nil => exact .single hdep
    | cons => exact .head hdep (ih (List.cons_ne_nil _ _))

theorem acc_of_reaches (h : Acc (fun w v => g.Dep v w) v) (hreach : ReflTransGen g.Dep v w) :
    Acc (fun w v => g.Dep v w) w := by
  induction hreach with
  | refl => exact h
  | tail _ hdep ih => exact ih.inv hdep

end Chains

inductive StepCase (s : Search V K L) (v : V) (next : ℕ) (below : List (V × ℕ)) :
    Search V K L → Prop
  | leave (hedge : (g.edges v).length ≤ next) :
    StepCase s v next below { s with
      state := Function.update s.state (g.key v) (some .done)
      path := below
      taken := s.taken.tail }
  | skip (edge : L) (hedge : (g.edges v)[next]? = some edge)
      (hdone : ∀ w, g.target edge = some w → s.state (g.key w) = some .done) :
    StepCase s v next below { s with path := (v, next + 1) :: below }
  | lose (edge : L) (w : V) (hedge : (g.edges v)[next]? = some edge)
      (htarget : g.target edge = some w) (hstate : s.state (g.key w) = some .active)
      (hstart : (s.path.reverse.findIdx? fun frame => g.key frame.1 = g.key w) = none) :
    StepCase s v next below { s with path := [] }
  | close (edge : L) (w : V) (start : ℕ) (hedge : (g.edges v)[next]? = some edge)
      (htarget : g.target edge = some w)
      (hstart : (s.path.reverse.findIdx? fun frame => g.key frame.1 = g.key w) = some start) :
    StepCase s v next below { s with
      path := (v, next + 1) :: below
      found := some (s.taken.reverse.drop start ++ [edge]) }
  | enter (edge : L) (w : V) (hedge : (g.edges v)[next]? = some edge)
      (htarget : g.target edge = some w) (hstate : s.state (g.key w) = none) :
    StepCase s v next below { s with
      state := Function.update s.state (g.key w) (some .active)
      path := (w, 0) :: (v, next + 1) :: below
      taken := edge :: s.taken }

variable {g}
variable {s : Search V K L}

theorem step_cases {s' : Search V K L} (h : g.step s = some s') :
    s.found = none ∧
      ∃ v next below, s.path = (v, next) :: below ∧ g.StepCase s v next below s' := by
  unfold step at h
  split at h
  case h_1 => cases h
  case h_2 => cases h
  case h_3 v next below hfound hpath =>
    refine ⟨hfound, v, next, below, hpath, ?_⟩
    split at h
    case h_1 hedge =>
      cases h
      exact .leave (List.getElem?_eq_none_iff.mp hedge)
    case h_2 edge hedge =>
      split at h
      case h_1 htarget =>
        cases h
        refine .skip edge hedge fun w hw => ?_
        rw [htarget] at hw
        cases hw
      case h_2 w htarget =>
        split at h
        case h_1 hstate =>
          cases h
          refine .skip edge hedge fun w' hw' => ?_
          rw [htarget] at hw'
          cases hw'
          exact hstate
        case h_2 hstate =>
          split at h
          case h_1 hstart =>
            cases h
            exact .lose edge w hedge htarget hstate hstart
          case h_2 start hstart =>
            cases h
            exact .close edge w start hedge htarget hstart
        case h_3 hstate =>
          cases h
          exact .enter edge w hedge htarget hstate

theorem step_eq_none (h : g.step s = none) : s.found ≠ none ∨ s.path = [] := by
  cases hfound : s.found with
  | some cycle => exact .inl nofun
  | none =>
    cases hpath : s.path with
    | nil => exact .inr rfl
    | cons frame below =>
      exfalso
      unfold step at h
      rw [hfound, hpath] at h
      dsimp only at h
      repeat' split at h
      all_goals cases h

/-- Every frame has tried edges to done nodes only, except the one taken to the node above. -/
def FramesOk (g : EdgeGraph V K L) (done : V → Prop) : Option V → List (V × ℕ) → Prop
  | _, [] => True
  | above, (v, next) :: below =>
    (∀ edge ∈ (g.edges v).take next, ∀ w, g.target edge = some w → done w ∨ above = some w) ∧
      FramesOk g done (some v) below

/-- The edges taken lead from each frame of the path to the one above. -/
def Linked (g : EdgeGraph V K L) : List (V × ℕ) → List L → Prop
  | [], taken => taken = []
  | [_], taken => taken = []
  | (v, _) :: (u, next) :: below, taken => ∃ edge rest, taken = edge :: rest ∧
      edge ∈ g.edges u ∧ g.target edge = some v ∧ Linked g ((u, next) :: below) rest

/-- A closed chain of edges at a node that a root reaches. -/
structure GenuineCycle (g : EdgeGraph V K L) (roots : List V) (cycle : List L) : Prop where
  nonempty : cycle ≠ []
  closed : ∃ v, (∃ root ∈ roots, ReflTransGen g.Dep root v) ∧ g.Chain v cycle v

/-- The nodes, with the targets of their edges among them, told apart by their keys. -/
structure Closed (g : EdgeGraph V K L) (all : List V) : Prop where
  target_mem : ∀ v ∈ all, ∀ w, g.Dep v w → w ∈ all
  key_inj : ∀ v ∈ all, ∀ w ∈ all, g.key v = g.key w → v = w

/-- What holds before every iteration. -/
structure SearchInv (g : EdgeGraph V K L) (all roots : List V) (s : Search V K L) : Prop where
  mem : ∀ frame ∈ s.path, frame.1 ∈ all
  reached : ∀ frame ∈ s.path, ∃ root ∈ roots, ReflTransGen g.Dep root frame.1
  nodup : (s.path.map fun frame => g.key frame.1).Nodup
  active : ∀ k, s.state k = some .active ↔ k ∈ s.path.map fun frame => g.key frame.1
  done : ∀ v ∈ all, s.state (g.key v) = some .done → Acc (fun w v => g.Dep v w) v
  linked : Linked g s.path s.taken
  frames : s.found = none → FramesOk g (fun v => s.state (g.key v) = some .done) none s.path
  found : ∀ cycle ∈ s.found, GenuineCycle g roots cycle

variable {below path : List (V × ℕ)} {taken : List L} {above : Option V} {done : V → Prop}

section Frames

omit [DecidableEq K]

theorem FramesOk.mono {done' : V → Prop} (hsub : ∀ v, done v → done' v)
    (h : FramesOk g done above path) : FramesOk g done' above path := by
  induction path generalizing above with
  | nil => trivial
  | cons frame below ih =>
    exact ⟨fun edge hedge w hw => (h.1 edge hedge w hw).imp_left (hsub w), ih h.2⟩

/-- The node above a frame is done, so the frame is on top. -/
theorem FramesOk.close (h : FramesOk g done (some v) path) (hv : done v) :
    FramesOk g done none path := by
  cases path with
  | nil => trivial
  | cons frame below =>
    refine ⟨fun edge hedge w hw => .inl ?_, h.2⟩
    rcases h.1 edge hedge w hw with hw | hw
    · exact hw
    · exact Option.some.inj hw ▸ hv

/-- Trying an edge leaves the frames in order when its target is done or comes to stand above. -/
theorem FramesOk.advance (h : FramesOk g done none ((v, next) :: below))
    (hedge : (g.edges v)[next]? = some edge)
    (htarget : ∀ w, g.target edge = some w → done w ∨ above = some w) :
    FramesOk g done above ((v, next + 1) :: below) := by
  refine ⟨fun tried htried w hw => ?_, h.2⟩
  rw [List.take_add_one, hedge, mem_append] at htried
  rcases htried with htried | htried
  · exact .inl ((h.1 tried htried w hw).resolve_right nofun)
  · obtain rfl : tried = edge := by simpa using htried
    exact htarget w hw

theorem Linked.advance {next' : ℕ} (h : Linked g ((v, next) :: below) taken) :
    Linked g ((v, next') :: below) taken := by
  cases below with
  | nil => exact h
  | cons frame below => exact h

theorem Linked.tail {frame : V × ℕ} {below : List (V × ℕ)} {taken : List L}
    (h : Linked g (frame :: below) taken) : Linked g below taken.tail := by
  cases below with
  | nil =>
    have htaken : taken = [] := h
    rw [htaken]
    rfl
  | cons frame' below =>
    obtain ⟨edge, rest, rfl, -, -, hrest⟩ := h
    exact hrest

theorem Linked.length_eq {frame : V × ℕ} (h : Linked g (frame :: below) taken) :
    taken.length = below.length := by
  induction below generalizing frame taken with
  | nil => exact congrArg List.length h
  | cons frame' below ih =>
    obtain ⟨edge, rest, rfl, -, -, hrest⟩ := h
    exact congrArg (· + 1) (ih hrest)

/-- The edges taken from a node on the path on lead from it to the top. -/
theorem Linked.chain {v : V} {next : ℕ} {below : List (V × ℕ)} {taken : List L}
    (h : Linked g ((v, next) :: below) taken) {start : ℕ} {frame : V × ℕ}
    (hstart : ((v, next) :: below).reverse[start]? = some frame) :
    g.Chain frame.1 (taken.reverse.drop start) v := by
  have hlength := h.length_eq
  rw [List.reverse_cons, List.getElem?_append, List.length_reverse] at hstart
  split_ifs at hstart with hlt
  · cases below with
    | nil => cases hstart
    | cons frame' below =>
      obtain ⟨edge, rest, rfl, hedge, htarget, hrest⟩ := h
      have hbelow := hrest.chain hstart
      have hrestLength := hrest.length_eq
      rw [List.length_cons] at hlt
      rw [List.reverse_cons, List.drop_append_of_le_length (by rw [List.length_reverse]; omega)]
      exact hbelow.concat hedge htarget
  · have hframe : start = below.length ∧ (v, next) = frame := by
      rw [List.getElem?_singleton] at hstart
      split_ifs at hstart with hzero
      exact ⟨by omega, Option.some.inj hstart⟩
    obtain ⟨rfl, rfl⟩ := hframe
    rw [List.drop_eq_nil_of_le (by rw [List.length_reverse]; omega)]
    exact .nil v

variable {all roots : List V}

/-- The top of the path is active, and no node below it has its key. -/
theorem SearchInv.top (h : g.SearchInv all roots s) (hpath : s.path = (v, next) :: below) :
    s.state (g.key v) = some .active ∧ g.key v ∉ below.map fun frame => g.key frame.1 := by
  refine ⟨(h.active _).mpr ?_, ?_⟩
  · rw [hpath]
    exact mem_cons_self
  · have hnodup := h.nodup
    rw [hpath] at hnodup
    exact (nodup_cons.mp hnodup).1

theorem SearchInv.advance {s : Search V K L} (h : g.SearchInv all roots s) {v : V} {next : ℕ}
    {below : List (V × ℕ)} (hpath : s.path = (v, next) :: below) (found : Option (List L))
    (hfound : ∀ cycle ∈ found, GenuineCycle g roots cycle)
    (hframes : found = none →
      FramesOk g (fun v => s.state (g.key v) = some .done) none ((v, next + 1) :: below)) :
    g.SearchInv all roots { s with path := (v, next + 1) :: below, found := found } := by
  obtain ⟨hmem, hreached, hnodup, hactive, hdone, hlinked, -, -⟩ := h
  rw [hpath] at hmem hreached hnodup hactive hlinked
  rw [forall_mem_cons] at hmem hreached
  exact ⟨forall_mem_cons.mpr hmem, forall_mem_cons.mpr hreached, hnodup, hactive, hdone,
    hlinked.advance, hframes, hfound⟩

end Frames

/-! ## Every step keeps the invariant -/

variable {all roots : List V}

theorem SearchInv.leave (hall : g.Closed all) (h : g.SearchInv all roots s)
    (hfound : s.found = none) (hpath : s.path = (v, next) :: below)
    (hedge : (g.edges v).length ≤ next) :
    g.SearchInv all roots { s with
      state := update s.state (g.key v) (some .done)
      path := below
      taken := s.taken.tail } := by
  obtain ⟨htop, hbelow⟩ := h.top hpath
  obtain ⟨hmem, hreached, hnodup, hactive, hdone, hlinked, hframes, hcycle⟩ := h
  have hframes := hframes hfound
  rw [hpath] at hmem hreached hnodup hactive hlinked hframes
  rw [forall_mem_cons] at hmem hreached
  -- every edge of `v` was tried, so all it depends on is done
  have hacc : Acc (fun w v => g.Dep v w) v := by
    refine Acc.intro v fun w ⟨edge, hmemEdge, htarget⟩ => ?_
    rw [← List.take_of_length_le hedge] at hmemEdge
    have hw := (hframes.1 edge hmemEdge w htarget).resolve_right nofun
    rw [List.take_of_length_le hedge] at hmemEdge
    exact hdone w (hall.target_mem v hmem.1 w ⟨edge, hmemEdge, htarget⟩) hw
  refine ⟨hmem.2, hreached.2, (nodup_cons.mp hnodup).2, fun k => ?_, fun w hw hstate => ?_,
    hlinked.tail, fun _ => ?_, hcycle⟩
  · show update s.state (g.key v) (some .done) k = some .active ↔ _
    by_cases hk : k = g.key v
    · subst hk
      rw [update_self]
      exact iff_of_false nofun hbelow
    · rw [update_of_ne hk, hactive, map_cons, mem_cons]
      exact or_iff_right hk
  · by_cases hk : g.key w = g.key v
    · exact hall.key_inj v hmem.1 w hw hk.symm ▸ hacc
    · have hstate : update s.state (g.key v) (some .done) (g.key w) = some .done := hstate
      rw [update_of_ne hk] at hstate
      exact hdone w hw hstate
  · refine FramesOk.close (hframes.2.mono fun w hw => ?_) (update_self _ _ _)
    show update s.state (g.key v) (some .done) (g.key w) = some .done
    by_cases hk : g.key w = g.key v
    · rw [hk, update_self]
    · rwa [update_of_ne hk]

theorem SearchInv.enter (h : g.SearchInv all roots s) (hw : w ∈ all)
    (hreach : ∃ root ∈ roots, ReflTransGen g.Dep root w) (hstate : s.state (g.key w) = none)
    {frames : List (V × ℕ)} (hsame : frames.map Prod.fst = s.path.map Prod.fst)
    (hlinked : Linked g ((w, 0) :: frames) taken) (hframes : s.found = none →
      FramesOk g (fun v => s.state (g.key v) = some .done) (some w) frames) :
    g.SearchInv all roots { s with
      state := update s.state (g.key w) (some .active)
      path := (w, 0) :: frames
      taken := taken } := by
  have hmap : ∀ {β : Type} (f : V → β), frames.map (fun frame => f frame.1) =
      s.path.map fun frame => f frame.1 := by
    intro β f
    have hfst := congrArg (List.map f) hsame
    rwa [List.map_map, List.map_map] at hfst
  have hframe : ∀ frame ∈ frames, ∃ other ∈ s.path, other.1 = frame.1 := by
    intro frame hframe
    have hmem := List.mem_map_of_mem (f := Prod.fst) hframe
    rw [hsame] at hmem
    exact mem_map.mp hmem
  have hnew : g.key w ∉ frames.map fun frame => g.key frame.1 := by
    rw [hmap g.key, ← h.active, hstate]
    exact nofun
  refine ⟨forall_mem_cons.mpr ⟨hw, fun frame hmem => ?_⟩,
    forall_mem_cons.mpr ⟨hreach, fun frame hmem => ?_⟩,
    nodup_cons.mpr ⟨hnew, hmap g.key ▸ h.nodup⟩, fun k => ?_, fun v hv hdone => ?_, hlinked,
    fun hfound => ?_, h.found⟩
  · obtain ⟨other, hother, heq⟩ := hframe frame hmem
    exact heq ▸ h.mem other hother
  · obtain ⟨other, hother, heq⟩ := hframe frame hmem
    exact heq ▸ h.reached other hother
  · show update s.state (g.key w) (some .active) k = some .active ↔ _
    rw [map_cons, mem_cons, hmap g.key, ← h.active]
    by_cases hk : k = g.key w
    · subst hk
      rw [update_self]
      exact iff_of_true rfl (.inl rfl)
    · rw [update_of_ne hk]
      exact (or_iff_right hk).symm
  · have hdone : update s.state (g.key w) (some .active) (g.key v) = some .done := hdone
    by_cases hk : g.key v = g.key w
    · rw [hk, update_self] at hdone
      cases hdone
    · rw [update_of_ne hk] at hdone
      exact h.done v hv hdone
  · refine ⟨fun edge hedge => ?_, (hframes hfound).mono fun v hv => ?_⟩
    · rw [List.take_zero] at hedge
      cases hedge
    · show update s.state (g.key w) (some .active) (g.key v) = some .done
      rw [update_of_ne]
      · exact hv
      · intro hk
        rw [hk, hstate] at hv
        cases hv

/-- The edges from a node on the path to the top, closed by an edge back to the node. -/
theorem SearchInv.genuine (hall : g.Closed all) (h : g.SearchInv all roots s)
    (hpath : s.path = (v, next) :: below) (hedge : edge ∈ g.edges v)
    (htarget : g.target edge = some w) {start : ℕ}
    (hstart : (s.path.reverse.findIdx? fun frame => g.key frame.1 = g.key w) = some start) :
    GenuineCycle g roots (s.taken.reverse.drop start ++ [edge]) := by
  obtain ⟨frame, hframe, hkey⟩ : ∃ frame, s.path.reverse[start]? = some frame ∧
      g.key frame.1 = g.key w := by
    obtain ⟨hlt, hkey, -⟩ := List.findIdx?_eq_some_iff_getElem.mp hstart
    exact ⟨_, List.getElem?_eq_getElem hlt, of_decide_eq_true hkey⟩
  have hmem : frame ∈ s.path := List.mem_reverse.mp (mem_of_getElem? hframe)
  have hv : v ∈ all := h.mem (v, next) (hpath ▸ mem_cons_self)
  have hw : frame.1 = w :=
    hall.key_inj _ (h.mem frame hmem) w (hall.target_mem v hv w ⟨edge, hedge, htarget⟩) hkey
  have hlinked := h.linked
  rw [hpath] at hlinked hframe
  refine ⟨List.append_ne_nil_of_right_ne_nil _ (List.cons_ne_nil _ _), w, ?_, ?_⟩
  · exact hw ▸ h.reached frame hmem
  · exact (hw ▸ hlinked.chain hframe).concat hedge htarget

theorem SearchInv.step (hall : g.Closed all) {s s' : Search V K L} (h : g.SearchInv all roots s)
    (hstep : g.step s = some s') : g.SearchInv all roots s' := by
  obtain ⟨hfound, v, next, below, hpath, hcases⟩ := step_cases hstep
  have hframes := h.frames hfound
  rw [hpath] at hframes
  have hv : v ∈ all := h.mem (v, next) (hpath ▸ mem_cons_self)
  cases hcases with
  | leave hedge => exact h.leave hall hfound hpath hedge
  | skip edge hedge hdone =>
    have hadvanced := h.advance hpath s.found h.found fun _ =>
      hframes.advance hedge fun w hw => .inl (hdone w hw)
    exact hadvanced
  | lose edge w hedge htarget hstate hstart =>
    obtain ⟨frame, hmem, hkey⟩ := mem_map.mp ((h.active _).mp hstate)
    have hno := List.findIdx?_eq_none_iff.mp hstart frame (List.mem_reverse.mpr hmem)
    rw [hkey, decide_eq_true rfl] at hno
    cases hno
  | close edge w start hedge htarget hstart =>
    refine h.advance hpath _ (fun cycle hcycle => ?_) nofun
    cases Option.some.inj hcycle
    exact h.genuine hall hpath (mem_of_getElem? hedge) htarget hstart
  | enter edge w hedge htarget hstate =>
    have hdep : g.Dep v w := ⟨edge, mem_of_getElem? hedge, htarget⟩
    obtain ⟨root, hroot, hreach⟩ := h.reached (v, next) (hpath ▸ mem_cons_self)
    have hlinked := h.linked
    rw [hpath] at hlinked
    refine h.enter (hall.target_mem v hv w hdep) ⟨root, hroot, hreach.tail hdep⟩ hstate ?_
      ⟨edge, s.taken, rfl, hdep.elim fun _ _ => mem_of_getElem? hedge, htarget,
        hlinked.advance⟩ fun _ => ?_
    · rw [hpath]
      rfl
    · exact hframes.advance hedge fun u hu => .inr (htarget.symm.trans hu)

/-! ## The whole search -/

/-- Every iteration leaves less work. -/
theorem work_lt (hall : g.Closed all) {s' : Search V K L} (h : g.SearchInv all roots s)
    (hstep : g.step s = some s') : g.work all s' < g.work all s := by
  obtain ⟨hfound, v, next, below, hpath, hcases⟩ := step_cases hstep
  have hv : v ∈ all := h.mem (v, next) (hpath ▸ mem_cons_self)
  unfold work
  rw [hpath, map_cons, sum_cons]
  cases hcases with
  | leave hedge =>
    have hmono : openWeight (fun v => (g.edges v).length + 2) all (fun w =>
        update s.state (g.key v) (some .done) (g.key w) = none) ≤
        openWeight (fun v => (g.edges v).length + 2) all fun w => s.state (g.key w) = none := by
      refine openWeight_mono fun w hw => ?_
      have hw := of_decide_eq_true hw
      by_cases hk : g.key w = g.key v
      · rw [hk, update_self] at hw
        cases hw
      · rw [update_of_ne hk] at hw
        exact decide_eq_true hw
    dsimp only
    omega
  | skip edge hedge hdone =>
    have hlt := (List.getElem?_eq_some_iff.mp hedge).1
    rw [map_cons, sum_cons]
    dsimp only
    omega
  | lose edge w hedge htarget hstate hstart =>
    dsimp only
    rw [List.map_nil, List.sum_nil]
    omega
  | close edge w start hedge htarget hstart =>
    have hlt := (List.getElem?_eq_some_iff.mp hedge).1
    rw [map_cons, sum_cons]
    dsimp only
    omega
  | enter edge w hedge htarget hstate =>
    have hlt := (List.getElem?_eq_some_iff.mp hedge).1
    have hw := hall.target_mem v hv w ⟨edge, mem_of_getElem? hedge, htarget⟩
    have hclose : openWeight (fun v => (g.edges v).length + 2) all (fun u =>
        update s.state (g.key w) (some .active) (g.key u) = none) +
          ((g.edges w).length + 2) ≤
        openWeight (fun v => (g.edges v).length + 2) all fun u => s.state (g.key u) = none := by
      refine openWeight_close hw (decide_eq_true hstate)
        (decide_eq_false (by rw [update_self]; exact nofun)) fun u hu => ?_
      have hu := of_decide_eq_true hu
      by_cases hk : g.key u = g.key w
      · rw [hk, update_self] at hu
        cases hu
      · rw [update_of_ne hk] at hu
        exact decide_eq_true hu
    rw [map_cons, sum_cons, map_cons, sum_cons]
    dsimp only
    omega

theorem step_visited {s' : Search V K L} (hstep : g.step s = some s') {k : K}
    (hk : s.state k ≠ none) : s'.state k ≠ none := by
  have hupdate : ∀ (key : K) (mark : Mark), update s.state key (some mark) k ≠ none := by
    intro key mark
    by_cases heq : k = key
    · rw [heq, update_self]
      exact nofun
    · rwa [update_of_ne heq]
  obtain ⟨-, v, next, below, -, hcases⟩ := step_cases hstep
  cases hcases with
  | leave => exact hupdate _ _
  | skip => exact hk
  | lose => exact hk
  | close => exact hk
  | enter => exact hupdate _ _

/-- Between roots the path is empty, and the roots tried so far are visited. -/
structure RootsInv (g : EdgeGraph V K L) (all roots tried : List V) (s : Search V K L) : Prop where
  inv : g.SearchInv all roots s
  path : s.found = none → s.path = []
  visited : s.found = none → ∀ root ∈ tried, s.state (g.key root) ≠ none

section

variable (hall : g.Closed all)

include hall

theorem RootsInv.cycleFrom {tried : List V} {s : Search V K L} (h : g.RootsInv all roots tried s)
    {root : V} (hroot : root ∈ roots) (hmem : root ∈ all) :
    g.RootsInv all roots (tried ++ [root]) (g.cycleFrom all s root) := by
  unfold EdgeGraph.cycleFrom
  split_ifs with hskip
  · refine ⟨h.inv, h.path, fun hfound v hv => ?_⟩
    rcases mem_append.mp hv with hv | hv
    · exact h.visited hfound v hv
    · obtain rfl := List.mem_singleton.mp hv
      rw [hfound] at hskip
      exact Option.isSome_iff_ne_none.mp (hskip.resolve_left Bool.false_ne_true)
  · rw [not_or, Bool.not_eq_true, Option.isSome_eq_false_iff, Option.isNone_iff_eq_none,
      Bool.not_eq_true, Option.isSome_eq_false_iff, Option.isNone_iff_eq_none] at hskip
    obtain ⟨hfound, hstate⟩ := hskip
    have hpath := h.path hfound
    let entered : Search V K L := { s with
      state := update s.state (g.key root) (some .active)
      path := [(root, 0)]
      taken := [] }
    have hentered : g.SearchInv all roots entered :=
      h.inv.enter hmem ⟨root, hroot, .refl⟩ hstate (by rw [hpath]) rfl fun _ => trivial
    have hvisited : ∀ v ∈ tried ++ [root],
        update s.state (g.key root) (some .active) (g.key v) ≠ none := by
      intro v hv
      by_cases hk : g.key v = g.key root
      · rw [hk, update_self]
        exact nofun
      · rw [update_of_ne hk]
        rcases mem_append.mp hv with hv | hv
        · exact h.visited hfound v hv
        · exact absurd (congrArg g.key (List.mem_singleton.mp hv)) hk
    have hrun := Loop.runWhile_invariant
      (fun s' => g.SearchInv all roots s' ∧ ∀ v ∈ tried ++ [root], s'.state (g.key v) ≠ none)
      (fun s' next hinv hstep =>
        ⟨hinv.1.step hall hstep, fun v hv => step_visited hstep (hinv.2 v hv)⟩)
      (g.work all entered) ⟨hentered, hvisited⟩
    have hstop := Loop.runWhile_stops (g.SearchInv all roots) (g.work all)
      (fun s' next hinv hstep => hinv.step hall hstep)
      (fun s' next hinv hstep => work_lt hall hinv hstep) hentered (le_refl _)
    exact ⟨hrun.1, fun hnone => (step_eq_none hstop).resolve_left (not_not.mpr hnone),
      fun _ => hrun.2⟩

theorem rootsInv_search (hroots : ∀ root ∈ roots, root ∈ all) :
    g.RootsInv all roots roots (g.search all roots) := by
  have hgen : ∀ tried : List V, (∀ root ∈ tried, root ∈ roots) → g.RootsInv all roots tried
      (tried.foldl (g.cycleFrom all) ⟨fun _ => none, [], [], none⟩) := by
    intro tried
    induction tried using List.reverseRecOn with
    | nil =>
      intro _
      refine ⟨⟨nofun, nofun, List.nodup_nil, fun k => iff_of_false nofun List.not_mem_nil,
        nofun, rfl, fun _ => trivial, nofun⟩, fun _ => rfl, nofun⟩
    | append_singleton tried root ih =>
      intro hsub
      rw [List.foldl_concat]
      have hroot := hsub root (List.mem_append_right _ (List.mem_singleton_self root))
      exact (ih fun v hv => hsub v (List.mem_append_left _ hv)).cycleFrom hall hroot
        (hroots root hroot)
  exact hgen roots fun root hroot => hroot

/-- A cycle that is found is a closed chain of edges that a root reaches. -/
theorem findCycle_genuine (hroots : ∀ root ∈ roots, root ∈ all) {cycle : List L}
    (h : g.findCycle all roots = some cycle) : GenuineCycle g roots cycle :=
  (rootsInv_search hall hroots).inv.found cycle h

/-- When no cycle is found, every root is accessible. -/
theorem acc_of_findCycle (hroots : ∀ root ∈ roots, root ∈ all) (h : g.findCycle all roots = none)
    {root : V} (hroot : root ∈ roots) : Acc (fun w v => g.Dep v w) root := by
  obtain ⟨hinv, hpath, hvisited⟩ := rootsInv_search hall hroots
  have hfound : (g.search all roots).found = none := h
  refine hinv.done root (hroots root hroot) ?_
  cases hstate : (g.search all roots).state (g.key root) with
  | none => exact absurd hstate (hvisited hfound root hroot)
  | some mark =>
    cases mark with
    | done => rfl
    | active =>
      have hmem := (hinv.active _).mp hstate
      rw [hpath hfound] at hmem
      cases hmem

end

end EdgeGraph

end ProvenGraphcal
