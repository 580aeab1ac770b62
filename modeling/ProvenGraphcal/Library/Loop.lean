import Mathlib.Algebra.GroupWithZero.Nat
import Mathlib.Algebra.Order.BigOperators.Group.Finset

namespace ProvenGraphcal.Loop

variable {σ : Type*}

/-- `while let Some(next) = step(state)`, cut off after `fuel` iterations. -/
def runWhile (step : σ → Option σ) : ℕ → σ → σ
  | 0, s => s
  | fuel + 1, s =>
    match step s with
    | none => s
    | some next => runWhile step fuel next

@[simp] theorem runWhile_zero (step : σ → Option σ) (s : σ) : runWhile step 0 s = s := rfl

variable {s : σ} {step : σ → Option σ}

theorem runWhile_none (h : step s = none) (fuel : ℕ) :
    runWhile step fuel s = s := by
  cases fuel with
  | zero => rfl
  | succ fuel => simp [runWhile, h]

theorem runWhile_some {next : σ} (h : step s = some next) (fuel : ℕ) :
    runWhile step (fuel + 1) s = runWhile step fuel next := by
  simp [runWhile, h]

/-- What every step preserves holds when the loop is left. -/
theorem runWhile_invariant (Inv : σ → Prop)
    (hstep : ∀ s next, Inv s → step s = some next → Inv next) (fuel : ℕ) (h : Inv s) :
    Inv (runWhile step fuel s) := by
  induction fuel generalizing s with
  | zero => exact h
  | succ fuel ih =>
    cases hs : step s with
    | none => simpa [runWhile, hs] using h
    | some next =>
      rw [runWhile_some hs]
      exact ih (hstep s next h hs)

/-- A measure that every step decreases bounds the iterations: the loop is left because its
condition fails, not because the fuel ran out. -/
theorem runWhile_stops (Inv : σ → Prop) (measure : σ → ℕ)
    (hstep : ∀ s next, Inv s → step s = some next → Inv next)
    (hmeasure : ∀ s next, Inv s → step s = some next → measure next < measure s) {fuel : ℕ}
    (h : Inv s) (hfuel : measure s ≤ fuel) :
    step (runWhile step fuel s) = none := by
  induction fuel generalizing s with
  | zero =>
    cases hs : step s with
    | none => simpa using hs
    | some next =>
      have hlt := hmeasure s next h hs
      omega
  | succ fuel ih =>
    cases hs : step s with
    | none => rw [runWhile_none hs]; exact hs
    | some next =>
      rw [runWhile_some hs]
      have hlt := hmeasure s next h hs
      exact ih (hstep s next h hs) (by omega)

/-- A relation between the states before and after every step, closed under composition,
relates the states before and after the loop. -/
theorem runWhile_relates (R : σ → σ → Prop) (hrefl : ∀ s, R s s)
    (htrans : ∀ s t u, R s t → R t u → R s u) (hstep : ∀ s next, step s = some next → R s next)
    (fuel : ℕ) (s : σ) :
    R s (runWhile step fuel s) := by
  induction fuel generalizing s with
  | zero => exact hrefl s
  | succ fuel ih =>
    cases hs : step s with
    | none => rw [runWhile_none hs]; exact hrefl s
    | some next =>
      rw [runWhile_some hs]
      exact htrans _ _ _ (hstep s next hs) (ih next)

/-- Two loops whose steps keep a relation end in related states. -/
theorem runWhile_simulates {τ : Type*} {step' : τ → Option τ} (R : σ → τ → Prop)
    (hstep : ∀ s t, R s t → Option.Rel R (step s) (step' t)) (fuel : ℕ) {t : τ} (h : R s t) :
    R (runWhile step fuel s) (runWhile step' fuel t) := by
  induction fuel generalizing s t with
  | zero => exact h
  | succ fuel ih =>
    have hrel := hstep s t h
    cases hs : step s with
    | none =>
      cases ht : step' t with
      | none => rwa [runWhile_none hs, runWhile_none ht]
      | some next => rw [hs, ht] at hrel; cases hrel
    | some next =>
      cases ht : step' t with
      | none => rw [hs, ht] at hrel; cases hrel
      | some next' =>
        rw [hs, ht] at hrel
        cases hrel with
        | some hnext =>
          rw [runWhile_some hs, runWhile_some ht]
          exact ih hnext

end ProvenGraphcal.Loop

/-!
# The work left in a depth-first traversal

A traversal of the nodes below `n` keeps the set of unvisited nodes and a path of frames, each a
node and the next of its edges to try. Entering a node, trying an edge and leaving a node each
leave less work, so the initial work bounds the number of steps.
-/

namespace ProvenGraphcal.Traversal

/-- Two steps and the edges of every unvisited node, and one step and the edges left of every
frame. -/
def work (degree : ℕ → ℕ) (n : ℕ) (unvisited : ℕ → Bool) (path : List (ℕ × ℕ)) : ℕ :=
  (∑ v ∈ Finset.range n, if unvisited v then degree v + 2 else 0) +
    (path.map fun frame => degree frame.1 - frame.2 + 1).sum

variable {degree : ℕ → ℕ} {n : ℕ} {unvisited unvisited' : ℕ → Bool} {path : List (ℕ × ℕ)}

theorem work_leave (frame : ℕ × ℕ) :
    work degree n unvisited path < work degree n unvisited (frame :: path) := by
  unfold work
  rw [List.map_cons, List.sum_cons]
  omega

theorem work_advance {v cursor : ℕ} (h : cursor < degree v) :
    work degree n unvisited ((v, cursor + 1) :: path) <
      work degree n unvisited ((v, cursor) :: path) := by
  unfold work
  simp only [List.map_cons, List.sum_cons]
  omega

theorem work_mono (h : ∀ v, unvisited' v = true → unvisited v = true) :
    work degree n unvisited' path ≤ work degree n unvisited path := by
  refine Nat.add_le_add_right (Finset.sum_le_sum fun v _ => ?_) _
  by_cases hv : unvisited' v = true
  · rw [if_pos hv, if_pos (h v hv)]
  · rw [if_neg hv]
    exact Nat.zero_le _

theorem work_enter {v : ℕ} (hlt : v < n) (hv : unvisited v = true) (hv' : unvisited' v = false)
    (hrest : ∀ w, w ≠ v → unvisited' w = unvisited w) :
    work degree n unvisited' ((v, 0) :: path) < work degree n unvisited path := by
  have hmem := Finset.mem_range.mpr hlt
  unfold work
  rw [← Finset.add_sum_erase _ _ hmem, ← Finset.add_sum_erase (Finset.range n)
    (fun w => if unvisited w then degree w + 2 else 0) hmem]
  have hsum : (∑ w ∈ (Finset.range n).erase v, if unvisited' w then degree w + 2 else 0) =
      ∑ w ∈ (Finset.range n).erase v, if unvisited w then degree w + 2 else 0 := by
    refine Finset.sum_congr rfl fun w hw => ?_
    rw [hrest w (Finset.ne_of_mem_erase hw)]
  simp only [hsum, hv, hv', List.map_cons, List.sum_cons]
  simp only [if_true, Bool.false_eq_true, if_false]
  omega

end ProvenGraphcal.Traversal
