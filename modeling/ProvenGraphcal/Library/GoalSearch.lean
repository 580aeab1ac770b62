import ProvenGraphcal.Library.Worklist

/-!
# A search for a goal that is left when it is found

The search tries the successors of a node in order, passes over the nodes it has seen, and ends
with success at the first goal. On finitely many nodes it ends, and it finds a goal if one is
reached.
-/

namespace ProvenGraphcal.GoalSearch

open Relation

variable {α : Type}

/-- The first success, with what was seen up to it. -/
def anyVisit (visit : α → List α → Option (Bool × List α)) :
    List α → List α → Option (Bool × List α)
  | [], seen => some (false, seen)
  | a :: rest, seen =>
    match visit a seen with
    | none => none
    | some (true, seen) => some (true, seen)
    | some (false, seen) => anyVisit visit rest seen

variable [DecidableEq α] (known goal : α → Bool) (next : α → List α)

/-- Visit a node; there is no result without fuel. -/
def visit : ℕ → α → List α → Option (Bool × List α)
  | 0, _, _ => none
  | fuel + 1, a, seen =>
    if !known a then some (false, seen)
    else if a ∈ seen then some (false, seen)
    else if goal a then some (true, a :: seen)
    else anyVisit (visit fuel) (next a) (a :: seen)

/-- The known nodes among `all` are visited at most once each. -/
def search (all : List α) (a : α) : Option Bool :=
  (visit known goal next (all.length + 1) a []).map Prod.fst

/-- A goal is reached through known nodes. -/
inductive Reaches : α → Prop
  | here {a : α} : known a = true → goal a = true → Reaches a
  | step {a b : α} : known a = true → b ∈ next a → Reaches b → Reaches a

variable {known goal next} {all : List α}
variable {a : α}

omit [DecidableEq α] in
theorem Reaches.known_eq (h : Reaches known goal next a) : known a = true := by
  cases h with
  | here hknown _ => exact hknown
  | step hknown _ _ => exact hknown

/-- What a search without success leaves: it saw more, and the new nodes are no goals and have only
seen or unknown successors. -/
structure Closed (known goal : α → Bool) (next : α → List α) (seen seen' : List α) : Prop where
  subset : seen ⊆ seen'
  not_goal : ∀ a ∈ seen', a ∉ seen → goal a = false
  successors : ∀ a ∈ seen', a ∉ seen → ∀ b ∈ next a, known b = true → b ∈ seen'

omit [DecidableEq α] in
theorem Closed.refl (seen : List α) : Closed known goal next seen seen where
  subset := List.Subset.refl seen
  not_goal _ ha hnew := absurd ha hnew
  successors _ ha hnew := absurd ha hnew

theorem Closed.trans {seen seen' seen'' : List α} (h : Closed known goal next seen seen')
    (h' : Closed known goal next seen' seen'') : Closed known goal next seen seen'' where
  subset := List.Subset.trans h.subset h'.subset
  not_goal a ha hnew := by
    by_cases ha' : a ∈ seen'
    · exact h.not_goal a ha' hnew
    · exact h'.not_goal a ha ha'
  successors a ha hnew b hb hknown := by
    by_cases ha' : a ∈ seen'
    · exact h'.subset (h.successors a ha' hnew b hb hknown)
    · exact h'.successors a ha ha' b hb hknown

variable {seen : List α}

omit [DecidableEq α] in
/-- What was seen without success is closed under successors and has no goal. -/
theorem Closed.not_reaches (h : Closed known goal next [] seen) (ha : a ∈ seen) :
    ¬ Reaches known goal next a := by
  intro hreaches
  induction hreaches with
  | here hknown hgoal =>
    rw [h.not_goal _ ha List.not_mem_nil] at hgoal
    cases hgoal
  | step hknown hnext hb ih =>
    exact ih (h.successors _ ha List.not_mem_nil _ hnext hb.known_eq)

/-- What the result of a visit says. -/
structure VisitSpec (known goal : α → Bool) (next : α → List α) (a : α) (seen : List α)
    (result : Bool × List α) : Prop where
  found : result.1 = true → Reaches known goal next a
  closed : result.1 = false → Closed known goal next seen result.2
  visited : result.1 = false → known a = true → a ∈ result.2

variable {result : Bool × List α}

theorem anyVisit_spec {visit : α → List α → Option (Bool × List α)}
    (hvisit : ∀ a seen result, visit a seen = some result → VisitSpec known goal next a seen result)
    {items : List α} (h : anyVisit visit items seen = some result) :
    (result.1 = true → ∃ a ∈ items, Reaches known goal next a) ∧
    (result.1 = false → Closed known goal next seen result.2 ∧
      ∀ a ∈ items, known a = true → a ∈ result.2) := by
  induction items generalizing seen with
  | nil =>
    cases h
    exact ⟨nofun, fun _ => ⟨.refl seen, fun a ha => (nomatch ha)⟩⟩
  | cons a rest ih =>
    rw [anyVisit] at h
    cases hfirst : visit a seen with
    | none =>
      rw [hfirst] at h
      cases h
    | some first =>
      obtain ⟨found, seen'⟩ := first
      have hspec := hvisit a seen _ hfirst
      rw [hfirst] at h
      cases found with
      | true =>
        cases h
        exact ⟨fun _ => ⟨a, List.mem_cons_self, hspec.found rfl⟩, nofun⟩
      | false =>
        obtain ⟨hfound, hclosed⟩ := ih h
        refine ⟨fun htrue => ?_, fun hfalse => ?_⟩
        · obtain ⟨b, hb, hreaches⟩ := hfound htrue
          exact ⟨b, List.mem_cons_of_mem _ hb, hreaches⟩
        · obtain ⟨hrest, hvisited⟩ := hclosed hfalse
          refine ⟨(hspec.closed rfl).trans hrest, fun b hb hknown => ?_⟩
          rcases List.mem_cons.mp hb with rfl | hb
          · exact hrest.subset (hspec.visited rfl hknown)
          · exact hvisited b hb hknown

variable {fuel : ℕ}

theorem visit_spec (h : visit known goal next fuel a seen = some result) :
    VisitSpec known goal next a seen result := by
  induction fuel generalizing a seen result with
  | zero => cases h
  | succ fuel ih =>
    rw [visit] at h
    split_ifs at h with hunknown hseen hgoal
    · cases h
      refine ⟨nofun, fun _ => .refl seen, fun _ hknown => ?_⟩
      rw [hknown] at hunknown
      cases hunknown
    · cases h
      exact ⟨nofun, fun _ => .refl seen, fun _ _ => hseen⟩
    · cases h
      have hknown : known a = true := by simpa using hunknown
      exact ⟨fun _ => .here hknown hgoal, nofun, nofun⟩
    · have hknown : known a = true := by simpa using hunknown
      obtain ⟨hfound, hclosed⟩ := anyVisit_spec (fun a seen result => ih) h
      refine ⟨fun htrue => ?_, fun hfalse => ?_, fun hfalse _ => ?_⟩
      · obtain ⟨b, hb, hreaches⟩ := hfound htrue
        exact .step hknown hb hreaches
      · obtain ⟨hrest, hvisited⟩ := hclosed hfalse
        -- the node itself is the only new one besides those of its successors
        refine ⟨List.Subset.trans (List.subset_cons_self a seen) hrest.subset, fun b hb hnew => ?_,
          fun b hb hnew => ?_⟩
        · by_cases hba : b = a
          · rw [hba]
            simpa using hgoal
          · exact hrest.not_goal b hb (by simp [hba, hnew])
        · by_cases hba : b = a
          · rw [hba]
            exact hvisited
          · exact hrest.successors b hb (by simp [hba, hnew])
      · exact (hclosed hfalse).1.subset List.mem_cons_self

/-- How many items of a list are not seen. -/
def unseen (all seen : List α) : ℕ := openWeight (fun _ => 1) all fun a => a ∉ seen

theorem unseen_mono {seen' : List α} (h : seen ⊆ seen') :
    unseen all seen' ≤ unseen all seen := by
  apply openWeight_mono
  intro a ha
  rw [decide_eq_true_eq] at ha ⊢
  exact fun hmem => ha (h hmem)

theorem unseen_cons (ha : a ∈ all) (hnew : a ∉ seen) :
    unseen all (a :: seen) + 1 ≤ unseen all seen := by
  apply openWeight_close (w := fun _ => 1) ha
  · simpa using hnew
  · simp
  · intro b hb
    rw [decide_eq_true_eq] at hb ⊢
    exact fun hmem => hb (List.mem_cons_of_mem _ hmem)

theorem visit_subset (h : visit known goal next fuel a seen = some result)
    (hfalse : result.1 = false) :
    seen ⊆ result.2 :=
  ((visit_spec h).closed hfalse).subset

theorem anyVisit_isSome {visit : α → List α → Option (Bool × List α)} {items : List α} {bound : ℕ}
    (hsubset : ∀ a seen result, visit a seen = some result → result.1 = false → seen ⊆ result.2)
    (hvisit : ∀ a ∈ items, ∀ seen, unseen all seen ≤ bound → (visit a seen).isSome)
    (hbound : unseen all seen ≤ bound) : (anyVisit visit items seen).isSome := by
  induction items generalizing seen with
  | nil => rfl
  | cons a rest ih =>
    rw [anyVisit]
    have hfirst := hvisit a List.mem_cons_self seen hbound
    obtain ⟨⟨found, seen'⟩, hresult⟩ := Option.isSome_iff_exists.mp hfirst
    rw [hresult]
    cases found with
    | true => rfl
    | false =>
      apply ih
      · exact fun b hb => hvisit b (List.mem_cons_of_mem _ hb)
      · exact (unseen_mono (hsubset a seen _ hresult rfl)).trans hbound

theorem visit_isSome (hall : ∀ a ∈ all, ∀ b ∈ next a, known b = true → b ∈ all)
    (ha : known a = true → a ∈ all) (hfuel : unseen all seen < fuel) :
    (visit known goal next fuel a seen).isSome := by
  induction fuel generalizing a seen with
  | zero => omega
  | succ fuel ih =>
    rw [visit]
    split_ifs with hunknown hseen hgoal
    · rfl
    · rfl
    · rfl
    · have hknown : known a = true := by simpa using hunknown
      have hcons := unseen_cons (ha hknown) hseen
      refine anyVisit_isSome (fun b seen result => visit_subset) (fun b hb seen' hbound => ?_)
        (Nat.le_refl (unseen all (a :: seen)))
      exact ih (hall a (ha hknown) b hb) (by omega)

/-- The search ends, with success when a goal is reached. -/
theorem search_eq_some (goal : α → Bool) (hall : ∀ a ∈ all, ∀ b ∈ next a, known b = true → b ∈ all)
    (ha : known a = true → a ∈ all) :
    ∃ found, search known goal next all a = some found ∧
      (found = true ↔ Reaches known goal next a) := by
  have hweight : unseen all [] ≤ all.length := by
    rw [unseen, openWeight]
    simp
  have hsome : (visit known goal next (all.length + 1) a []).isSome :=
    visit_isSome hall ha (by omega)
  obtain ⟨⟨found, seen⟩, hresult⟩ := Option.isSome_iff_exists.mp hsome
  have hspec := visit_spec hresult
  refine ⟨found, by rw [search, hresult]; rfl, fun htrue => hspec.found htrue, fun hreaches => ?_⟩
  cases found with
  | true => rfl
  | false =>
    exact absurd hreaches ((hspec.closed rfl).not_reaches (hspec.visited rfl hreaches.known_eq))

/-- A search with success has seen a goal last, which is reached. -/
def FindsLast (known goal : α → Bool) (next : α → List α) (a : α) (seen : List α) : Prop :=
  ∃ g rest, seen = g :: rest ∧ goal g = true ∧ Reaches known (fun b => decide (b = g)) next a

theorem anyVisit_findsLast {visit : α → List α → Option (Bool × List α)}
    (hvisit : ∀ a seen seen', visit a seen = some (true, seen') → FindsLast known goal next a seen')
    {items seen' : List α} (h : anyVisit visit items seen = some (true, seen')) :
    ∃ a ∈ items, FindsLast known goal next a seen' := by
  induction items generalizing seen with
  | nil => cases h
  | cons a rest ih =>
    rw [anyVisit] at h
    match hfirst : visit a seen, h with
    | some (true, seen''), h =>
      cases h
      exact ⟨a, List.mem_cons_self, hvisit a seen _ hfirst⟩
    | some (false, seen''), h =>
      obtain ⟨b, hb, hfinds⟩ := ih h
      exact ⟨b, List.mem_cons_of_mem _ hb, hfinds⟩

theorem visit_findsLast {seen' : List α}
    (h : visit known goal next fuel a seen = some (true, seen')) :
    FindsLast known goal next a seen' := by
  induction fuel generalizing a seen seen' with
  | zero => cases h
  | succ fuel ih =>
    rw [visit] at h
    split_ifs at h with hunknown hseen hgoal
    · cases h
    · cases h
    · cases h
      have hknown : known a = true := by simpa using hunknown
      exact ⟨a, seen, rfl, hgoal, .here hknown (decide_eq_true rfl)⟩
    · have hknown : known a = true := by simpa using hunknown
      obtain ⟨b, hb, g, rest, hseen', hg, hreaches⟩ :=
        anyVisit_findsLast (fun a seen seen' => ih) h
      exact ⟨g, rest, hseen', hg, .step hknown hb hreaches⟩

end ProvenGraphcal.GoalSearch
