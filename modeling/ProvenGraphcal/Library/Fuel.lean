import Mathlib.Order.MinMax
import ProvenGraphcal.Library.Checked

/-!
# Functions with fuel

A recursion that need not end takes fuel, and reports when it has none left. It settles when some
fuel is enough for a result, and all larger fuel gives the same one.
-/

namespace ProvenGraphcal

/-- Why a run with fuel gives no value. -/
inductive Halt (ε : Type)
  | outOfFuel
  | failed (error : ε)

namespace Halt

variable {ε α β : Type}

/-- A computation that needs no fuel. -/
def lift (x : Except ε α) : Except (Halt ε) α := x.mapError failed

theorem lift_eq_ok {x : Except ε α} {a : α} : lift x = .ok a ↔ x = .ok a := Checked.mapError_eq_ok

/-- With enough fuel the run ends, in a value or a failure that more fuel does not change. -/
def Settles (run : ℕ → Except (Halt ε) α) : Prop :=
  ∃ result, result ≠ .error outOfFuel ∧ ∃ enough, ∀ fuel, enough ≤ fuel → run fuel = result

theorem settles_const {result : Except (Halt ε) α} (h : result ≠ .error outOfFuel) :
    Settles fun _ => result :=
  ⟨result, h, 0, fun _ _ => rfl⟩

theorem settles_ok (a : α) : Settles fun _ => (.ok a : Except (Halt ε) α) := settles_const nofun

theorem settles_lift (x : Except ε α) : Settles fun _ => lift x := by
  apply settles_const
  cases x with
  | error e => exact nofun
  | ok a => exact nofun

/-- A function that spends one unit of fuel on each call settles when the rest of the call does. -/
theorem Settles.of_succ {run : ℕ → Except (Halt ε) α} (h : Settles fun fuel => run (fuel + 1)) :
    Settles run := by
  obtain ⟨result, hresult, enough, henough⟩ := h
  refine ⟨result, hresult, enough + 1, fun fuel hfuel => ?_⟩
  have hrun : run (fuel - 1 + 1) = result := henough (fuel - 1) (by omega)
  rwa [Nat.sub_add_cancel (by omega)] at hrun

theorem Settles.bind {run : ℕ → Except (Halt ε) α} {next : ℕ → α → Except (Halt ε) β}
    (hrun : Settles run)
    (hnext : ∀ a, (∃ fuel, run fuel = .ok a) → Settles fun fuel => next fuel a) :
    Settles fun fuel => run fuel >>= next fuel := by
  obtain ⟨result, hresult, enough, henough⟩ := hrun
  cases result with
  | error halt =>
    refine ⟨.error halt, fun h => ?_, enough, fun fuel hfuel => ?_⟩
    · cases h
      exact hresult rfl
    · show run fuel >>= next fuel = .error halt
      rw [henough fuel hfuel]
      rfl
  | ok a =>
    obtain ⟨result', hresult', enough', henough'⟩ := hnext a ⟨enough, henough enough le_rfl⟩
    refine ⟨result', hresult', max enough enough', fun fuel hfuel => ?_⟩
    show run fuel >>= next fuel = result'
    rw [henough fuel (le_of_max_le_left hfuel)]
    exact henough' fuel (le_of_max_le_right hfuel)

theorem settles_foldlM {f : ℕ → β → α → Except (Halt ε) β} {items : List α}
    (h : ∀ a ∈ items, ∀ b, Settles fun fuel => f fuel b a) (init : β) :
    Settles fun fuel => items.foldlM (f fuel) init := by
  induction items generalizing init with
  | nil => exact settles_ok init
  | cons a rest ih =>
    have hfirst := (h a List.mem_cons_self init).bind fun b _ =>
      ih (fun a' ha' => h a' (List.mem_cons_of_mem _ ha')) b
    exact hfirst

theorem settles_forM {f : ℕ → α → Except (Halt ε) Unit} {items : List α}
    (h : ∀ a ∈ items, Settles fun fuel => f fuel a) :
    Settles fun fuel => items.forM (f fuel) := by
  induction items with
  | nil => exact settles_ok ()
  | cons a rest ih =>
    have hfirst := (h a List.mem_cons_self).bind fun _ _ =>
      ih fun a' ha' => h a' (List.mem_cons_of_mem _ ha')
    exact hfirst

end Halt

end ProvenGraphcal
