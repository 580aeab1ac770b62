import ProvenGraphcal.Graph.DependencyGraph
import ProvenGraphcal.Library.Loop

/-!
# Strongly connected components

Tarjan's algorithm with an explicit path. Every node on the stack reaches a node on the path and is
reached from one, so a node whose low link is its own index ends a component at its place on the
stack.
-/

namespace ProvenGraphcal

open Relation DependencyOrder

variable {K E : Type}

/-- The state of the search: the frames of the path and the stack stand top first. -/
structure TarjanState where
  index : ℕ → Option ℕ
  lowLink : ℕ → ℕ
  onStack : ℕ → Bool
  stack : List ℕ
  components : List (List ℕ)
  nextIndex : ℕ
  path : List (ℕ × ℕ)

namespace TarjanState

def new : TarjanState := ⟨fun _ => none, fun _ => 0, fun _ => false, [], [], 0, []⟩

/-- Number a node and put it on the stack and the path. -/
def enter (s : TarjanState) (node : ℕ) : TarjanState where
  index := Function.update s.index node (some s.nextIndex)
  lowLink := Function.update s.lowLink node s.nextIndex
  onStack := Function.update s.onStack node true
  stack := node :: s.stack
  components := s.components
  nextIndex := s.nextIndex + 1
  path := (node, 0) :: s.path

/-- `low_link[node] = low_link[node].min(value)`. -/
def lower (s : TarjanState) (node value : ℕ) : TarjanState :=
  { s with lowLink := Function.update s.lowLink node (min (s.lowLink node) value) }

end TarjanState

/-- Pop the stack down to `node`: the popped members, and what is left. -/
def popUntil (node : ℕ) : List ℕ → List ℕ × List ℕ
  | [] => ([], [])
  | member :: rest =>
    if member = node then ([member], rest)
    else (member :: (popUntil node rest).1, (popUntil node rest).2)

namespace TarjanState

def popComponent (s : TarjanState) (node : ℕ) : TarjanState :=
  let popped := popUntil node s.stack
  { s with
    onStack := fun v => s.onStack v && v ∉ popped.1
    stack := popped.2
    components := s.components ++ [popped.1] }

/-- Pass the low link of a node that leaves the path to its parent. -/
def lowerParent (s : TarjanState) (node : ℕ) : TarjanState :=
  match s.path with
  | [] => s
  | (parent, _) :: _ => s.lower parent (s.lowLink node)

def leave (s : TarjanState) (node : ℕ) : TarjanState :=
  let lowered := s.lowerParent node
  if lowered.index node = some (lowered.lowLink node) then lowered.popComponent node else lowered

end TarjanState

namespace GraphTables

variable (t : GraphTables K E)

def tarjanStep (s : TarjanState) : Option TarjanState :=
  match s.path with
  | [] => none
  | (node, cursor) :: below =>
    match (t.row node)[cursor]? with
    | some (dependency, _) =>
      let advanced := { s with path := (node, cursor + 1) :: below }
      match s.index dependency with
      | none => some (advanced.enter dependency)
      | some visited =>
        if s.onStack dependency then some (advanced.lower node visited) else some advanced
    | none => some (TarjanState.leave { s with path := below } node)

def tarjanWork (s : TarjanState) : ℕ :=
  Traversal.work (fun v => (t.row v).length) t.keys.length (fun v => (s.index v).isNone) s.path

def tarjanRoot (s : TarjanState) (root : ℕ) : TarjanState :=
  if (s.index root).isSome then s
  else Loop.runWhile t.tarjanStep (t.tarjanWork (s.enter root)) (s.enter root)

/-- Every strongly connected component, by node index. -/
def componentIndices : List (List ℕ) :=
  ((List.range t.keys.length).foldl t.tarjanRoot .new).components

variable {t}

inductive TarjanStep (t : GraphTables K E) (s : TarjanState) (node cursor : ℕ)
    (below : List (ℕ × ℕ)) : TarjanState → Prop
  | enter (w : ℕ) (label : E) (hrow : (t.row node)[cursor]? = some (w, label))
      (hindex : s.index w = none) :
    TarjanStep t s node cursor below
      (TarjanState.enter { s with path := (node, cursor + 1) :: below } w)
  | back (w : ℕ) (label : E) (visited : ℕ) (hrow : (t.row node)[cursor]? = some (w, label))
      (hindex : s.index w = some visited) (hstack : s.onStack w = true) :
    TarjanStep t s node cursor below
      (TarjanState.lower { s with path := (node, cursor + 1) :: below } node visited)
  | skip (w : ℕ) (label : E) (visited : ℕ) (hrow : (t.row node)[cursor]? = some (w, label))
      (hindex : s.index w = some visited) (hstack : s.onStack w = false) :
    TarjanStep t s node cursor below { s with path := (node, cursor + 1) :: below }
  | leave (hrow : (t.row node).length ≤ cursor) :
    TarjanStep t s node cursor below (TarjanState.leave { s with path := below } node)

theorem tarjanStep_cases {s next : TarjanState} (h : t.tarjanStep s = some next) :
    ∃ node cursor below, s.path = (node, cursor) :: below ∧
      TarjanStep t s node cursor below next := by
  unfold tarjanStep at h
  split at h
  case h_1 => cases h
  case h_2 node cursor below hpath =>
    refine ⟨node, cursor, below, hpath, ?_⟩
    split at h
    case h_1 w label hrow =>
      split at h
      case h_1 hindex =>
        cases h
        exact .enter w label hrow hindex
      case h_2 visited hindex =>
        split_ifs at h with hstack
        · cases h
          exact .back w label visited hrow hindex hstack
        · cases h
          exact .skip w label visited hrow hindex (by simpa using hstack)
    case h_2 hrow =>
      cases h
      exact .leave (List.getElem?_eq_none_iff.mp hrow)

theorem tarjanStep_eq_none {s : TarjanState} (h : t.tarjanStep s = none) : s.path = [] := by
  unfold tarjanStep at h
  split at h
  case h_1 hpath => exact hpath
  case h_2 =>
    split at h
    · dsimp only at h
      split at h
      · cases h
      · split_ifs at h
    · cases h

theorem popUntil_append {node : ℕ} {stack : List ℕ} :
    (popUntil node stack).1 ++ (popUntil node stack).2 = stack := by
  induction stack with
  | nil => rfl
  | cons member rest ih =>
    unfold popUntil
    split_ifs with h
    · rfl
    · rw [List.cons_append, ih]

/-- On a stack that descends in index, the popped members are those from the node's index on. -/
theorem mem_popUntil {index : ℕ → ℕ} {node : ℕ} {stack : List ℕ}
    (hsorted : stack.Pairwise fun a b => index b < index a) (hnode : node ∈ stack) {v : ℕ} :
    (v ∈ (popUntil node stack).1 ↔ v ∈ stack ∧ index node ≤ index v) ∧
      (v ∈ (popUntil node stack).2 ↔ v ∈ stack ∧ index v < index node) := by
  induction stack with
  | nil => cases hnode
  | cons member rest ih =>
    obtain ⟨hmember, hrest⟩ := List.pairwise_cons.mp hsorted
    unfold popUntil
    split_ifs with heq
    · subst heq
      constructor
      · rw [List.mem_singleton, List.mem_cons]
        constructor
        · rintro rfl
          exact ⟨.inl rfl, le_rfl⟩
        · rintro ⟨rfl | hv, hle⟩
          · rfl
          · exact absurd (hmember v hv) (Nat.not_lt_of_le hle)
      · rw [List.mem_cons]
        constructor
        · exact fun hv => ⟨.inr hv, hmember v hv⟩
        · rintro ⟨rfl | hv, hlt⟩
          · exact absurd hlt (lt_irrefl _)
          · exact hv
    · have hnode' : node ∈ rest := (List.mem_cons.mp hnode).resolve_left (Ne.symm heq)
      have hlt := hmember node hnode'
      obtain ⟨hfirst, hsecond⟩ := ih hrest hnode'
      constructor
      · rw [List.mem_cons, hfirst, List.mem_cons]
        constructor
        · rintro (rfl | ⟨hv, hle⟩)
          · exact ⟨.inl rfl, hlt.le⟩
          · exact ⟨.inr hv, hle⟩
        · rintro ⟨rfl | hv, hle⟩
          · exact .inl rfl
          · exact .inr ⟨hv, hle⟩
      · rw [hsecond, List.mem_cons]
        constructor
        · exact fun ⟨hv, hle⟩ => ⟨.inr hv, hle⟩
        · rintro ⟨rfl | hv, hle⟩
          · exact absurd hle (Nat.not_lt_of_lt hlt)
          · exact ⟨hv, hle⟩

end GraphTables

end ProvenGraphcal
