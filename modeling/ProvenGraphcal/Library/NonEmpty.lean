import Mathlib.Data.List.Dedup
import Mathlib.Data.List.Sort
import ProvenGraphcal.Library.Checked

/-!
# Sequences with at least one item, and sorted distinct items
-/

namespace ProvenGraphcal

structure NonEmpty (α : Type) where
  items : List α
  nonempty : items ≠ []

namespace NonEmpty

variable {α : Type}

instance [DecidableEq α] : DecidableEq (NonEmpty α) := fun a b =>
  decidable_of_iff (a.items = b.items) ⟨fun h => by cases a; cases b; congr, congrArg items⟩

def singleton (a : α) : NonEmpty α := ⟨[a], List.cons_ne_nil a []⟩

def map {β : Type} (n : NonEmpty α) (f : α → β) : NonEmpty β :=
  ⟨n.items.map f, fun h => n.nonempty (List.map_eq_nil_iff.mp h)⟩

def tryFromVec (items : List α) : Option (NonEmpty α) :=
  if h : items = [] then none else some ⟨items, h⟩

theorem tryFromVec_eq_none {items : List α} : tryFromVec items = none ↔ items = [] := by
  unfold tryFromVec
  split_ifs with h
  · simp [h]
  · simp [h]

theorem tryFromVec_eq_some {items : List α} {n : NonEmpty α} :
    tryFromVec items = some n ↔ n.items = items := by
  unfold tryFromVec
  split_ifs with h
  · simp only [false_iff]
    exact fun hn => n.nonempty (hn.trans h)
  · rw [Option.some.injEq]
    refine ⟨fun hn => hn ▸ rfl, fun hn => ?_⟩
    cases n
    congr
    exact hn.symm

theorem mapM_nonempty {β ε : Type} {f : α → Except ε β} {xs : NonEmpty α} {items : List β}
    (h : xs.items.mapM f = .ok items) : items ≠ [] := by
  rintro rfl
  exact xs.nonempty (List.forall₂_nil_right_iff.mp (Checked.mapM_eq_ok.mp h))

def tryMapRef {β ε : Type} (xs : NonEmpty α) (f : α → Except ε β) :
    Except ε (NonEmpty β) :=
  match h : xs.items.mapM f with
  | .ok items => .ok ⟨items, mapM_nonempty h⟩
  | .error e => .error e

theorem tryMapRef_eq_ok {β ε : Type} {xs : NonEmpty α} {f : α → Except ε β}
    {ys : NonEmpty β} (h : xs.tryMapRef f = .ok ys) :
    List.Forall₂ (fun a b => f a = .ok b) xs.items ys.items := by
  unfold tryMapRef at h
  split at h
  case h_1 items hitems =>
    cases h
    exact Checked.mapM_eq_ok.mp hitems
  case h_2 => cases h

end NonEmpty

end ProvenGraphcal
