import ProvenGraphcal.Library.InsertionMap
import ProvenGraphcal.Library.Loop

/-!
# The invalidation graph of the editor

The graph keeps the dependencies of every analysed root. The importers of a document are searched
against the direction in which the edges are stored.
-/

namespace ProvenGraphcal.Lsp

open Relation

variable {D : Type} [DecidableEq D]

structure DependencyGraph (D : Type) where
  dependenciesByRoot : InsertionMap D (Finset D)

variable {dependency r : D} {entry : D × Finset D} {entries : List (D × Finset D)} {roots : List D}

namespace DependencyGraph

def empty : DependencyGraph D := ⟨.empty⟩

def update (graph : DependencyGraph D) (root : D) (dependencies : Finset D) : DependencyGraph D :=
  ⟨graph.dependenciesByRoot.insert root dependencies⟩

def remove (graph : DependencyGraph D) (root : D) : DependencyGraph D :=
  ⟨graph.dependenciesByRoot.erase root⟩

/-- The state of the search; the frontier's last element comes first. -/
structure Search (D : Type) where
  affected : Finset D
  frontier : List D

/-- One root of the inner loop. -/
def visitRoot (dependency : D) (s : Search D) (entry : D × Finset D) : Search D :=
  if dependency ∈ entry.2 ∧ entry.1 ∉ s.affected then
    ⟨insert entry.1 s.affected, entry.1 :: s.frontier⟩
  else s

/-- One iteration of the search. -/
def visit (graph : DependencyGraph D) (s : Search D) : Option (Search D) :=
  match s.frontier with
  | [] => none
  | dependency :: rest =>
    some (graph.dependenciesByRoot.entries.foldl (visitRoot dependency) ⟨s.affected, rest⟩)

/-- A root joins the frontier once, so the search takes at most one iteration for each of them and
one for the changed document. -/
def search (graph : DependencyGraph D) (changed : D) : Search D :=
  Loop.runWhile graph.visit (graph.dependenciesByRoot.keys.length + 1) ⟨∅, [changed]⟩

def transitiveImporters (graph : DependencyGraph D) (changed : D) : Finset D :=
  (graph.search changed).affected

/-- A recorded dependency of a root. -/
def Consumes (graph : DependencyGraph D) (root dependency : D) : Prop :=
  ∃ dependencies, graph.dependenciesByRoot.get? root = some dependencies ∧
    dependency ∈ dependencies

theorem mem_visitRoot {s : Search D} :
    r ∈ (visitRoot dependency s entry).affected ↔
      r ∈ s.affected ∨ (r = entry.1 ∧ dependency ∈ entry.2) := by
  unfold visitRoot
  split_ifs with h
  · rw [Finset.mem_insert]
    tauto
  · refine ⟨.inl, ?_⟩
    rintro (hr | ⟨rfl, hd⟩)
    · exact hr
    · by_contra hr
      exact h ⟨hd, hr⟩

theorem mem_foldl_visitRoot {s : Search D} :
    r ∈ (entries.foldl (visitRoot dependency) s).affected ↔
      r ∈ s.affected ∨ ∃ entry ∈ entries, r = entry.1 ∧ dependency ∈ entry.2 := by
  induction entries generalizing s with
  | nil => simp
  | cons entry rest ih =>
    rw [List.foldl_cons, ih, mem_visitRoot]
    simp only [List.mem_cons, exists_eq_or_imp]
    tauto

/-- The new roots are the ones that joined the frontier. -/
theorem mem_frontier_foldl {s : Search D} :
    r ∈ (entries.foldl (visitRoot dependency) s).frontier ↔
      r ∈ s.frontier ∨
        (r ∉ s.affected ∧ r ∈ (entries.foldl (visitRoot dependency) s).affected) := by
  induction entries generalizing s with
  | nil => simp
  | cons entry rest ih =>
    rw [List.foldl_cons, ih]
    have hmono : r ∈ (visitRoot dependency s entry).affected →
        r ∈ (rest.foldl (visitRoot dependency) (visitRoot dependency s entry)).affected :=
      fun h => mem_foldl_visitRoot.mpr (.inl h)
    unfold visitRoot at hmono ⊢
    split_ifs at hmono ⊢ with h
    · simp only [List.mem_cons, Finset.mem_insert, not_or] at hmono ⊢
      by_cases hr : r = entry.1
      · subst hr
        simp [h.2, hmono]
      · simp [hr]
    · rfl

/-- The roots that are not affected yet. -/
def unaffected (roots : List D) (s : Search D) : ℕ := (roots.toFinset \ s.affected).card

/-- A root that joins the frontier leaves the roots that are not affected. -/
theorem length_frontier_visitRoot {s : Search D} (hroot : entry.1 ∈ roots) :
    (visitRoot dependency s entry).frontier.length + unaffected roots (visitRoot dependency s entry)
      = s.frontier.length + unaffected roots s := by
  unfold visitRoot
  split_ifs with h
  · have hmem : entry.1 ∈ roots.toFinset \ s.affected := by simp [hroot, h.2]
    have hcard := Finset.card_erase_add_one hmem
    rw [← Finset.sdiff_insert] at hcard
    simp only [unaffected, List.length_cons]
    omega
  · rfl

theorem length_frontier_foldl {s : Search D} (hroots : ∀ entry ∈ entries, entry.1 ∈ roots) :
    (entries.foldl (visitRoot dependency) s).frontier.length +
        unaffected roots (entries.foldl (visitRoot dependency) s) =
      s.frontier.length + unaffected roots s := by
  induction entries generalizing s with
  | nil => rfl
  | cons entry rest ih =>
    rw [List.foldl_cons, ih fun e he => hroots e (List.mem_cons_of_mem entry he),
      length_frontier_visitRoot (hroots entry List.mem_cons_self)]

variable {graph : DependencyGraph D} {changed : D}

theorem exists_entry_iff :
    (∃ entry ∈ graph.dependenciesByRoot.entries, r = entry.1 ∧ dependency ∈ entry.2) ↔
      graph.Consumes r dependency := by
  refine ⟨?_, ?_⟩
  · rintro ⟨⟨root, dependencies⟩, hentry, rfl, hd⟩
    exact ⟨dependencies, InsertionMap.mem_entries_iff.mp hentry, hd⟩
  · rintro ⟨dependencies, hget, hd⟩
    exact ⟨(r, dependencies), InsertionMap.mem_entries_iff.mpr hget, rfl, hd⟩

theorem visit_cases {s next : Search D} (h : graph.visit s = some next) :
    ∃ dependency rest, s.frontier = dependency :: rest ∧
      next.frontier.length + unaffected graph.dependenciesByRoot.keys next + 1 =
        s.frontier.length + unaffected graph.dependenciesByRoot.keys s ∧
      (∀ r, r ∈ next.affected ↔ r ∈ s.affected ∨ graph.Consumes r dependency) ∧
      (∀ r, r ∈ next.frontier ↔ r ∈ rest ∨ (r ∉ s.affected ∧ r ∈ next.affected)) := by
  unfold visit at h
  split at h
  case h_1 => cases h
  case h_2 dependency rest hfrontier =>
    cases h
    refine ⟨dependency, rest, hfrontier, ?_, fun r => ?_, fun r => mem_frontier_foldl⟩
    · have hroots : ∀ entry ∈ graph.dependenciesByRoot.entries,
          entry.1 ∈ graph.dependenciesByRoot.keys := fun entry he => List.mem_map_of_mem he
      rw [length_frontier_foldl hroots, hfrontier]
      simp only [unaffected, List.length_cons]
      omega
    · rw [mem_foldl_visitRoot, exists_entry_iff]

/-- What every iteration keeps: the affected roots import the changed document, and the importers of
every document that left the frontier are affected. -/
structure Sound (graph : DependencyGraph D) (changed : D) (s : Search D) : Prop where
  affected : ∀ r ∈ s.affected, TransGen graph.Consumes r changed
  frontier : ∀ d ∈ s.frontier, d = changed ∨ d ∈ s.affected
  closed : ∀ d, d = changed ∨ d ∈ s.affected → d ∉ s.frontier →
    ∀ r, graph.Consumes r d → r ∈ s.affected

theorem sound_start : Sound graph changed ⟨∅, [changed]⟩ where
  affected r hr := absurd hr (Finset.notMem_empty r)
  frontier d hd := .inl (List.mem_singleton.mp hd)
  closed d hd hfrontier := by
    rcases hd with rfl | hd
    · exact absurd (List.mem_singleton_self d) hfrontier
    · exact absurd hd (Finset.notMem_empty d)

theorem Sound.visit {s next : Search D} (h : Sound graph changed s)
    (hs : graph.visit s = some next) : Sound graph changed next := by
  obtain ⟨dependency, rest, hfrontier, -, haffected, hnext⟩ := visit_cases hs
  have hdependency : dependency = changed ∨ dependency ∈ s.affected :=
    h.frontier dependency (hfrontier ▸ List.mem_cons_self)
  refine ⟨fun r hr => ?_, fun d hd => ?_, fun d hd hnot r hr => ?_⟩
  · rcases (haffected r).mp hr with hr | hr
    · exact h.affected r hr
    · rcases hdependency with rfl | hd
      · exact .single hr
      · exact .head hr (h.affected dependency hd)
  · rcases (hnext d).mp hd with hd | ⟨-, hd⟩
    · exact (h.frontier d (hfrontier ▸ List.mem_cons_of_mem _ hd)).imp id
        fun hd => (haffected d).mpr (.inl hd)
    · exact .inr hd
  · have hrest : d ∉ rest := fun hd => hnot ((hnext d).mpr (.inl hd))
    have hold : d = changed ∨ d ∈ s.affected := by
      refine hd.imp id fun hd => ?_
      by_contra hnew
      exact hnot ((hnext d).mpr (.inr ⟨hnew, hd⟩))
    by_cases hpopped : d = dependency
    · subst hpopped
      exact (haffected r).mpr (.inr hr)
    · refine (haffected r).mpr (.inl (h.closed d hold ?_ r hr))
      rw [hfrontier, List.mem_cons, not_or]
      exact ⟨hpopped, hrest⟩

/-- The search ends because its frontier is empty. -/
theorem search_frontier (graph : DependencyGraph D) (changed : D) :
    (graph.search changed).frontier = [] := by
  have hstop : graph.visit (graph.search changed) = none := by
    refine Loop.runWhile_stops (fun _ => True)
      (fun s => s.frontier.length + unaffected graph.dependenciesByRoot.keys s)
      (fun _ _ _ _ => trivial) (fun s next _ hs => ?_) trivial ?_
    · obtain ⟨_, _, _, hlength, -⟩ := visit_cases hs
      omega
    · have hcard : unaffected graph.dependenciesByRoot.keys ⟨∅, [changed]⟩ ≤
          graph.dependenciesByRoot.keys.length := by
        rw [unaffected, Finset.sdiff_empty]
        exact List.toFinset_card_le _
      simp only [List.length_singleton]
      omega
  unfold visit at hstop
  split at hstop
  case h_1 hempty => exact hempty
  case h_2 => cases hstop

theorem mem_transitiveImporters :
    r ∈ graph.transitiveImporters changed ↔ TransGen graph.Consumes r changed := by
  have hsound : Sound graph changed (graph.search changed) :=
    Loop.runWhile_invariant _ (fun _ _ h hs => h.visit hs) _ sound_start
  refine ⟨hsound.affected r, fun h => ?_⟩
  have hclosed : ∀ d, d = changed ∨ d ∈ (graph.search changed).affected →
      ∀ r, graph.Consumes r d → r ∈ (graph.search changed).affected := by
    intro d hd
    refine hsound.closed d hd ?_
    rw [search_frontier]
    exact List.not_mem_nil
  induction h using TransGen.head_induction_on with
  | single h => exact hclosed changed (.inl rfl) _ h
  | head h _ ih => exact hclosed _ (.inr ih) _ h

inductive Change (D : Type)
  | update (root : D) (dependencies : Finset D)
  | remove (root : D)

def apply (graph : DependencyGraph D) : Change D → DependencyGraph D
  | .update root dependencies => graph.update root dependencies
  | .remove root => graph.remove root

def after (changes : List (Change D)) : DependencyGraph D := changes.foldl apply empty

/-- What a change leaves recorded for a root, when it is about this root. -/
def Change.recorded (root : D) : Change D → Option (Option (Finset D))
  | .update r dependencies => if r = root then some (some dependencies) else none
  | .remove r => if r = root then some none else none

/-- The dependencies that the latest change about a root left recorded. -/
def recorded (changes : List (Change D)) (root : D) : Option (Finset D) :=
  (changes.reverse.findSome? (Change.recorded root)).join

theorem get?_apply (graph : DependencyGraph D) (change : Change D) (root : D) :
    (graph.apply change).dependenciesByRoot.get? root =
      (change.recorded root).getD (graph.dependenciesByRoot.get? root) := by
  cases change with
  | update r dependencies =>
    rw [apply, update, InsertionMap.get?_insert, Change.recorded]
    by_cases h : r = root
    · rw [if_pos h.symm, if_pos h, Option.getD_some]
    · rw [if_neg (Ne.symm h), if_neg h, Option.getD_none]
  | remove r =>
    rw [apply, remove, InsertionMap.get?_erase, Change.recorded]
    by_cases h : r = root
    · rw [if_pos h.symm, if_pos h, Option.getD_some]
    · rw [if_neg (Ne.symm h), if_neg h, Option.getD_none]

theorem get?_after (changes : List (Change D)) (root : D) :
    (after changes).dependenciesByRoot.get? root = recorded changes root := by
  induction changes using List.reverseRecOn with
  | nil => rfl
  | append_singleton changes change ih =>
    rw [after, List.foldl_concat]
    rw [after] at ih
    rw [get?_apply, ih, recorded, recorded, List.reverse_append, List.reverse_singleton,
      List.singleton_append, List.findSome?_cons]
    cases change.recorded root <;> rfl

end DependencyGraph

end ProvenGraphcal.Lsp
