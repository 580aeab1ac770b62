import ProvenGraphcal.Library.Loop

/-!
# Worklists

A worklist visits what its start reaches: it pops a pending item, passes over one that was visited
before, and pushes the successors of a new one. On a finite set closed under successors it stops,
and the visited items are exactly those reached.
-/

namespace ProvenGraphcal

open Relation
open List (length_cons map_cons map_nil mem_cons mem_cons_of_mem mem_cons_self sum_cons)

variable {α : Type}

/-- What the items of a list that are still open weigh together. -/
def openWeight (weight : α → ℕ) (items : List α) (isOpen : α → Bool) : ℕ :=
  (items.map fun a => if isOpen a then weight a else 0).sum

theorem openWeight_mono {w : α → ℕ} {items : List α} {isOpen isOpen' : α → Bool}
    (h : ∀ a, isOpen' a = true → isOpen a = true) :
    openWeight w items isOpen' ≤ openWeight w items isOpen := by
  unfold openWeight
  induction items with
  | nil => exact le_rfl
  | cons a rest ih =>
    rw [map_cons, map_cons, sum_cons, sum_cons]
    refine Nat.add_le_add ?_ ih
    by_cases ha : isOpen' a = true
    · rw [if_pos ha, if_pos (h a ha)]
    · rw [if_neg ha]
      exact Nat.zero_le _

/-- Closing an open item takes its weight off. -/
theorem openWeight_close {w : α → ℕ} {items : List α} {isOpen isOpen' : α → Bool} {a : α}
    (ha : a ∈ items) (hopen : isOpen a = true) (hclosed : isOpen' a = false)
    (h : ∀ b, isOpen' b = true → isOpen b = true) :
    openWeight w items isOpen' + w a ≤ openWeight w items isOpen := by
  obtain ⟨l, r, rfl⟩ := List.append_of_mem ha
  have hl : openWeight w l isOpen' ≤ openWeight w l isOpen := openWeight_mono h
  have hr : openWeight w r isOpen' ≤ openWeight w r isOpen := openWeight_mono h
  unfold openWeight at hl hr ⊢
  simp only [List.map_append, map_cons, List.sum_append, sum_cons, hopen, hclosed,
    if_true, Bool.false_eq_true, if_false]
  omega

/-- The pending items, the next one first, and the visited ones, the latest first. -/
structure Worklist (α : Type) where
  pending : List α
  visited : List α

namespace Worklist

variable [DecidableEq α] (pushed : α → List α)

/-- One iteration; `pushed a` are the successors of `a`, the last pushed first. -/
def visit (s : Worklist α) : Option (Worklist α) :=
  match s.pending with
  | [] => none
  | a :: rest =>
    if a ∈ s.visited then some { s with pending := rest }
    else some ⟨pushed a ++ rest, a :: s.visited⟩

/-- The worklist run from its start on the items of `all`. -/
def fuel (all start : List α) : ℕ :=
  openWeight (fun a => (pushed a).length + 1) all (fun _ => true) + start.length

def run (all start : List α) : Worklist α :=
  Loop.runWhile (visit pushed) (fuel pushed all start) ⟨start, []⟩

/-- Reached from the start through successors. -/
def Reached (start : List α) (a : α) : Prop :=
  ∃ s ∈ start, ReflTransGen (fun a b => b ∈ pushed a) s a

/-- What every iteration keeps: the visited items are reached, and the start and the successors of
the visited ones are visited or pending. -/
structure Sound (all start : List α) (s : Worklist α) : Prop where
  pending_reached : ∀ a ∈ s.pending, Reached pushed start a
  visited_reached : ∀ a ∈ s.visited, Reached pushed start a
  pending_mem : ∀ a ∈ s.pending, a ∈ all
  start_kept : ∀ a ∈ start, a ∈ s.visited ∨ a ∈ s.pending
  successors_kept : ∀ a ∈ s.visited, ∀ b ∈ pushed a, b ∈ s.visited ∨ b ∈ s.pending
  visited_nodup : s.visited.Nodup

/-- What is left to do: the open items with their successors, and the pending
ones. -/
def work (all : List α) (s : Worklist α) : ℕ :=
  openWeight (fun a => (pushed a).length + 1) all (fun a => a ∉ s.visited) + s.pending.length

variable {pushed} {all start : List α}

theorem visit_cases {s next : Worklist α} (h : visit pushed s = some next) :
    ∃ a rest, s.pending = a :: rest ∧
      (a ∈ s.visited ∧ next = ⟨rest, s.visited⟩ ∨
        a ∉ s.visited ∧ next = ⟨pushed a ++ rest, a :: s.visited⟩) := by
  unfold visit at h
  split at h
  case h_1 => cases h
  case h_2 a rest hpending =>
    split_ifs at h with hvisited
    · cases h
      exact ⟨a, rest, hpending, .inl ⟨hvisited, rfl⟩⟩
    · cases h
      exact ⟨a, rest, hpending, .inr ⟨hvisited, rfl⟩⟩

theorem visit_eq_none {s : Worklist α} (h : visit pushed s = none) : s.pending = [] := by
  unfold visit at h
  split at h
  case h_1 hpending => exact hpending
  case h_2 => split_ifs at h

omit [DecidableEq α] in
theorem sound_start (hstart : ∀ a ∈ start, a ∈ all) :
    Sound pushed all start ⟨start, []⟩ where
  pending_reached a ha := ⟨a, ha, .refl⟩
  visited_reached _ ha := nomatch ha
  pending_mem := hstart
  start_kept _ ha := .inr ha
  successors_kept _ ha := nomatch ha
  visited_nodup := List.nodup_nil

theorem Sound.visit (hclosed : ∀ a ∈ all, ∀ b ∈ pushed a, b ∈ all)
    {s next : Worklist α} (h : Sound pushed all start s)
    (hs : Worklist.visit pushed s = some next) : Sound pushed all start next := by
  obtain ⟨a, rest, hpending, ⟨hvisited, rfl⟩ | ⟨hvisited, rfl⟩⟩ := visit_cases hs
  · have hkept : ∀ b, b ∈ s.visited ∨ b ∈ s.pending → b ∈ s.visited ∨ b ∈ rest := by
      rintro b (hb | hb)
      · exact .inl hb
      · rw [hpending, mem_cons] at hb
        exact hb.imp (fun hab : b = a => hab ▸ hvisited) id
    have hrest : ∀ b ∈ rest, b ∈ s.pending := fun b hb =>
      hpending ▸ mem_cons_of_mem a hb
    exact ⟨fun b hb => h.pending_reached b (hrest b hb), h.visited_reached,
      fun b hb => h.pending_mem b (hrest b hb), fun b hb => hkept b (h.start_kept b hb),
      fun b hb c hc => hkept c (h.successors_kept b hb c hc), h.visited_nodup⟩
  · have ha : a ∈ s.pending := hpending ▸ mem_cons_self
    have hrest : ∀ b ∈ rest, b ∈ s.pending := fun b hb =>
      hpending ▸ mem_cons_of_mem a hb
    have hreached := h.pending_reached a ha
    have hkept : ∀ b, b ∈ s.visited ∨ b ∈ s.pending →
        b ∈ a :: s.visited ∨ b ∈ pushed a ++ rest := by
      rintro b (hb | hb)
      · exact .inl (mem_cons_of_mem a hb)
      · rw [hpending, mem_cons] at hb
        rcases hb with rfl | hb
        · exact .inl mem_cons_self
        · exact .inr (List.mem_append_right _ hb)
    refine ⟨fun b hb => ?_, fun b hb => ?_, fun b hb => ?_, fun b hb => hkept b (h.start_kept b hb),
      fun b hb c hc => ?_, List.nodup_cons.mpr ⟨hvisited, h.visited_nodup⟩⟩
    · rcases List.mem_append.mp hb with hb | hb
      · obtain ⟨r, hr, hpath⟩ := hreached
        exact ⟨r, hr, hpath.tail hb⟩
      · exact h.pending_reached b (hrest b hb)
    · rcases mem_cons.mp hb with rfl | hb
      · exact hreached
      · exact h.visited_reached b hb
    · rcases List.mem_append.mp hb with hb | hb
      · exact hclosed a (h.pending_mem a ha) b hb
      · exact h.pending_mem b (hrest b hb)
    · rcases mem_cons.mp hb with rfl | hb
      · exact .inr (List.mem_append_left _ hc)
      · exact hkept c (h.successors_kept b hb c hc)

theorem work_lt {s next : Worklist α} (h : Sound pushed all start s)
    (hs : visit pushed s = some next) : work pushed all next < work pushed all s := by
  obtain ⟨a, rest, hpending, ⟨hvisited, rfl⟩ | ⟨hvisited, rfl⟩⟩ := visit_cases hs
  · simp only [work, hpending, length_cons]
    omega
  · have hmem := h.pending_mem a (hpending ▸ mem_cons_self)
    have hopen : decide (a ∉ s.visited) = true := decide_eq_true hvisited
    have hclosed : decide (a ∉ a :: s.visited) = false := by simp
    have hsub : ∀ b, decide (b ∉ a :: s.visited) = true → decide (b ∉ s.visited) = true := by
      intro b hb
      simp only [decide_eq_true_eq, mem_cons, not_or] at hb ⊢
      exact hb.2
    have hclose := openWeight_close (w := fun a => (pushed a).length + 1) hmem hopen hclosed hsub
    simp only [work, hpending, length_cons, List.length_append]
    omega

/-- On a set closed under successors the loop ends with nothing pending. -/
theorem run_pending (hstart : ∀ a ∈ start, a ∈ all)
    (hclosed : ∀ a ∈ all, ∀ b ∈ pushed a, b ∈ all) :
    (run pushed all start).pending = [] := by
  refine visit_eq_none (Loop.runWhile_stops (Sound pushed all start) (work pushed all)
    (fun _ _ h hs => h.visit hclosed hs) (fun _ _ h hs => work_lt h hs)
    (sound_start hstart) ?_)
  exact Nat.add_le_add_right (openWeight_mono fun _ _ => rfl) _

theorem sound_run (hstart : ∀ a ∈ start, a ∈ all)
    (hclosed : ∀ a ∈ all, ∀ b ∈ pushed a, b ∈ all) :
    Sound pushed all start (run pushed all start) :=
  Loop.runWhile_invariant _ (fun _ _ h hs => h.visit hclosed hs) _ (sound_start hstart)

/-- The visited items are those reached from the start. -/
theorem mem_run_visited (hstart : ∀ a ∈ start, a ∈ all)
    (hclosed : ∀ a ∈ all, ∀ b ∈ pushed a, b ∈ all) {a : α} :
    a ∈ (run pushed all start).visited ↔ Reached pushed start a := by
  have hsound := sound_run hstart hclosed
  have hpending := run_pending hstart hclosed
  have hkept : ∀ b, b ∈ (run pushed all start).visited ∨
      b ∈ (run pushed all start).pending → b ∈ (run pushed all start).visited := by
    rintro b (hb | hb)
    · exact hb
    · rw [hpending] at hb
      cases hb
  refine ⟨hsound.visited_reached a, ?_⟩
  rintro ⟨s, hs, hpath⟩
  induction hpath with
  | refl => exact hkept _ (hsound.start_kept s hs)
  | tail _ hb ih => exact hkept _ (hsound.successors_kept _ ih _ hb)

end Worklist

/-!
# Depth-first walks that complete a node after its successors

The walk starts at each root that is not started yet; it enters the known successors of a node
that are not started, and completes the node when none is left.
-/

/-- The open nodes, the innermost first, each with its successors left to try. -/
structure PostOrderWalk (α : Type) where
  roots : List α
  started : List α
  frames : List (α × List α)
  completed : List α

namespace PostOrderWalk

variable [DecidableEq α] (known : α → Bool) (successors : α → List α)

def step (s : PostOrderWalk α) : Option (PostOrderWalk α) :=
  match s.frames with
  | (v, w :: rest) :: below =>
    if known w ∧ w ∉ s.started then
      some { s with started := w :: s.started, frames := (w, successors w) :: (v, rest) :: below }
    else some { s with frames := (v, rest) :: below }
  | (v, []) :: below => some { s with frames := below, completed := s.completed ++ [v] }
  | [] =>
    match s.roots with
    | [] => none
    | root :: rest =>
      if root ∈ s.started then some { s with roots := rest }
      else some { s with
        roots := rest, started := root :: s.started, frames := [(root, successors root)] }

def weight (a : α) : ℕ := (successors a).length + 2

/-- What is left to do: the nodes not started, the open ones and the roots. -/
def work (all : List α) (s : PostOrderWalk α) : ℕ :=
  openWeight (weight successors) all (fun a => a ∉ s.started) +
    (s.frames.map fun frame => frame.2.length + 1).sum + s.roots.length

def start (roots : List α) : PostOrderWalk α := ⟨roots, [], [], []⟩

def run (roots : List α) : PostOrderWalk α :=
  Loop.runWhile (step known successors) (work successors roots (start roots)) (start roots)

/-- The order in which the walk from `roots` completes the nodes. -/
def completionOrder (roots : List α) : List α := (run known successors roots).completed

/-- What every step keeps: the started nodes are those open and those completed, and every node of
`all` is started or still a root. -/
structure Sound (all : List α) (s : PostOrderWalk α) : Prop where
  started_mem : ∀ a ∈ s.started, a ∈ all
  started_nodup : s.started.Nodup
  started_perm : s.started.Perm (s.frames.map Prod.fst ++ s.completed)
  roots_mem : ∀ a ∈ s.roots, a ∈ all
  covered : ∀ a ∈ all, a ∈ s.started ∨ a ∈ s.roots

variable {known successors} {all : List α}

omit [DecidableEq α] in
theorem sound_start (roots : List α) : Sound roots (start roots) where
  started_mem _ h := nomatch h
  started_nodup := List.nodup_nil
  started_perm := List.Perm.refl _
  roots_mem _ h := h
  covered _ h := .inr h

omit [DecidableEq α] in
theorem Sound.enter {s : PostOrderWalk α} (h : Sound all s) {a : α} (ha : a ∈ all)
    (hnew : a ∉ s.started) {roots : List α} (hroots : ∀ b ∈ s.roots, b ∈ roots ∨ b = a)
    (hsub : ∀ b ∈ roots, b ∈ s.roots) {frames : List (α × List α)}
    (hframes : frames.map Prod.fst = a :: s.frames.map Prod.fst) :
    Sound all ⟨roots, a :: s.started, frames, s.completed⟩ where
  started_mem := List.forall_mem_cons.mpr ⟨ha, h.started_mem⟩
  started_nodup := List.nodup_cons.mpr ⟨hnew, h.started_nodup⟩
  started_perm := by
    rw [hframes]
    exact h.started_perm.cons a
  roots_mem b hb := h.roots_mem b (hsub b hb)
  covered b hb := by
    rcases h.covered b hb with hstarted | hroot
    · exact .inl (mem_cons_of_mem a hstarted)
    · rcases hroots b hroot with hkept | rfl
      · exact .inr hkept
      · exact .inl mem_cons_self

theorem Sound.step (hknown : ∀ a, known a = true ↔ a ∈ all) {s next : PostOrderWalk α}
    (h : Sound all s) (hs : step known successors s = some next) : Sound all next := by
  obtain ⟨roots, started, frames, completed⟩ := s
  unfold PostOrderWalk.step at hs
  match frames with
  | (v, w :: rest) :: below =>
    dsimp only at hs
    split_ifs at hs with hw
    · cases hs
      exact h.enter ((hknown w).mp hw.1) hw.2 (fun b hb => .inl hb) (fun b hb => hb) rfl
    · cases hs
      exact ⟨h.started_mem, h.started_nodup, h.started_perm, h.roots_mem, h.covered⟩
  | (v, []) :: below =>
    cases hs
    refine ⟨h.started_mem, h.started_nodup, h.started_perm.trans ?_, h.roots_mem, h.covered⟩
    rw [map_cons, List.cons_append, ← List.append_assoc]
    exact List.perm_append_singleton v _ |>.symm
  | [] =>
    match roots with
    | [] => cases hs
    | root :: rest =>
      dsimp only at hs
      split_ifs at hs with hroot
      · cases hs
        refine ⟨h.started_mem, h.started_nodup, h.started_perm,
          fun b hb => h.roots_mem b (mem_cons_of_mem _ hb), fun b hb => ?_⟩
        rcases h.covered b hb with hstarted | hb
        · exact .inl hstarted
        · rcases mem_cons.mp hb with rfl | hb
          · exact .inl hroot
          · exact .inr hb
      · cases hs
        exact h.enter (h.roots_mem root mem_cons_self) hroot
          (fun b hb => (mem_cons.mp hb).symm) (fun b hb => mem_cons_of_mem _ hb) rfl

theorem openWeight_start (successors : α → List α) {started : List α} {a : α} (ha : a ∈ all) (hnew : a ∉ started) :
    openWeight (weight successors) all (fun b => b ∉ a :: started) + weight successors a ≤
      openWeight (weight successors) all (fun b => b ∉ started) := by
  refine openWeight_close ha (decide_eq_true hnew) (by simp) fun b hb => ?_
  simp only [decide_eq_true_eq, mem_cons, not_or] at hb ⊢
  exact hb.2

section

variable (hknown : ∀ a, known a = true ↔ a ∈ all)

include hknown

theorem work_lt {s next : PostOrderWalk α} (h : Sound all s)
    (hs : step known successors s = some next) :
    work successors all next < work successors all s := by
  obtain ⟨roots, started, frames, completed⟩ := s
  unfold PostOrderWalk.step at hs
  match frames with
  | (v, w :: rest) :: below =>
    dsimp only at hs
    split_ifs at hs with hw
    · cases hs
      have hstart := openWeight_start successors ((hknown w).mp hw.1) hw.2
      simp only [work, weight, map_cons, sum_cons, length_cons] at hstart ⊢
      omega
    · cases hs
      simp only [work, map_cons, sum_cons, length_cons]
      omega
  | (v, []) :: below =>
    cases hs
    simp only [work, map_cons, sum_cons]
    omega
  | [] =>
    match roots with
    | [] => cases hs
    | root :: rest =>
      dsimp only at hs
      split_ifs at hs with hroot
      · cases hs
        simp only [work, length_cons]
        omega
      · cases hs
        have hstart := openWeight_start successors
          (h.roots_mem root mem_cons_self) hroot
        simp only [work, weight, map_cons, map_nil, sum_cons, List.sum_nil,
          length_cons] at hstart ⊢
        omega

theorem sound_run : Sound all (run known successors all) :=
  Loop.runWhile_invariant _ (fun _ _ h hs => h.step hknown hs) _ (sound_start all)

/-- The walk ends with nothing open. -/
theorem run_done :
    (run known successors all).frames = [] ∧ (run known successors all).roots = [] := by
  have hnone : step known successors (run known successors all) = none :=
    Loop.runWhile_stops (Sound all) (work successors all) (fun _ _ h hs => h.step hknown hs)
      (fun _ _ h hs => work_lt hknown h hs) (sound_start all) le_rfl
  revert hnone
  generalize run known successors all = s
  obtain ⟨roots, started, frames, completed⟩ := s
  intro hnone
  unfold PostOrderWalk.step at hnone
  match frames with
  | (v, w :: rest) :: below =>
    dsimp only at hnone
    split_ifs at hnone
  | (v, []) :: below => cases hnone
  | [] =>
    match roots with
    | [] => exact ⟨rfl, rfl⟩
    | root :: rest =>
      dsimp only at hnone
      split_ifs at hnone

/-- Every node is completed exactly once. -/
theorem completionOrder_perm (hall : all.Nodup) :
    (completionOrder known successors all).Perm all := by
  have hsound : Sound all (run known successors all) := sound_run hknown
  obtain ⟨hframes, hroots⟩ : (run known successors all).frames = [] ∧ _ := run_done hknown
  have hstarted := hsound.started_perm
  rw [hframes, map_nil, List.nil_append] at hstarted
  refine hstarted.symm.trans ((List.perm_ext_iff_of_nodup hsound.started_nodup hall).mpr ?_)
  refine fun a => ⟨hsound.started_mem a, fun ha => ?_⟩
  refine (hsound.covered a ha).resolve_right fun hroot => ?_
  rw [hroots] at hroot
  cases hroot

end

end PostOrderWalk

end ProvenGraphcal
