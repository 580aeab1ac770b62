import Mathlib.Data.List.Basic
import ProvenGraphcal.Library.Utf8Text

/-!
# Texts that are joined or escaped without loss

Parts that avoid a mark are recovered from their join, and items from codes of which none begins
another one.
-/

namespace ProvenGraphcal.Joined

variable {α β : Type} {mark : α}

theorem split_at_mark {a b c d : List α} (ha : mark ∉ a) (hb : mark ∉ b)
    (h : a ++ mark :: c = b ++ mark :: d) : a = b ∧ c = d := by
  induction a generalizing b with
  | nil =>
    cases b with
    | nil => simpa using h
    | cons y b =>
      obtain ⟨rfl, -⟩ := List.cons_eq_cons.mp h
      exact absurd List.mem_cons_self hb
  | cons x a ih =>
    cases b with
    | nil =>
      obtain ⟨rfl, -⟩ := List.cons_eq_cons.mp h
      exact absurd List.mem_cons_self ha
    | cons y b =>
      obtain ⟨rfl, hrest⟩ := List.cons_eq_cons.mp h
      obtain ⟨rfl, hcd⟩ :=
        ih (List.not_mem_of_not_mem_cons ha) (List.not_mem_of_not_mem_cons hb) hrest
      exact ⟨rfl, hcd⟩

/-- A join is split at the first mark, which belongs to no part. -/
theorem intercalate_injective (before after : List α) (hmark : mark ∉ before)
    {xs ys : List (List α)} (hxs : ∀ x ∈ xs, mark ∉ x) (hys : ∀ y ∈ ys, mark ∉ y)
    (hxne : xs ≠ []) (hyne : ys ≠ [])
    (h : (before ++ mark :: after).intercalate xs = (before ++ mark :: after).intercalate ys) :
    xs = ys := by
  induction xs generalizing ys with
  | nil => exact absurd rfl hxne
  | cons x xs ih =>
    obtain ⟨y, ys, rfl⟩ := List.exists_cons_of_ne_nil hyne
    have hx := hxs x List.mem_cons_self
    have hy := hys y List.mem_cons_self
    cases xs with
    | nil =>
      cases ys with
      | nil => simpa using h
      | cons y' ys =>
        rw [List.intercalate_singleton, List.intercalate_cons_cons] at h
        exact absurd (by simp [h]) hx
    | cons x' xs =>
      cases ys with
      | nil =>
        rw [List.intercalate_singleton, List.intercalate_cons_cons] at h
        exact absurd (by simp [← h]) hy
      | cons y' ys =>
        rw [List.intercalate_cons_cons, List.intercalate_cons_cons] at h
        have hbefore : ∀ {z}, mark ∉ z → mark ∉ z ++ before := fun hz hmem =>
          (List.mem_append.mp hmem).elim hz hmark
        obtain ⟨hfirst, hrest⟩ := split_at_mark (hbefore hx) (hbefore hy) (by simpa using h)
        rw [List.append_cancel_right hfirst, ih (fun z hz => hxs z (List.mem_cons_of_mem _ hz))
          (fun z hz => hys z (List.mem_cons_of_mem _ hz)) (List.cons_ne_nil _ _)
          (List.cons_ne_nil _ _) (by simpa using hrest)]

theorem notMem_intercalate {separator : List α} {parts : List (List α)} (hmark : mark ∉ separator)
    (hparts : ∀ part ∈ parts, mark ∉ part) : mark ∉ separator.intercalate parts := by
  induction parts with
  | nil => exact List.not_mem_nil
  | cons part rest ih =>
    have hrest := ih fun part hpart => hparts part (List.mem_cons_of_mem _ hpart)
    cases rest with
    | nil => simpa using hparts
    | cons next rest =>
      rw [List.intercalate_cons_cons, List.mem_append, List.mem_append]
      simp [hparts part List.mem_cons_self, hmark, hrest]

/-- Codes of which none begins another one. -/
def PrefixFree (code : β → List α) : Prop :=
  ∀ b b' rest rest', code b ++ rest = code b' ++ rest' → b = b'

theorem PrefixFree.flatMap_injective {code : β → List α} (hcode : PrefixFree code)
    (hne : ∀ b, code b ≠ []) : Function.Injective (List.flatMap code) := by
  intro items items' h
  induction items generalizing items' with
  | nil =>
    cases items' with
    | nil => rfl
    | cons b' rest' => exact absurd (List.append_eq_nil_iff.mp h.symm).1 (hne b')
  | cons b rest ih =>
    cases items' with
    | nil => exact absurd (List.append_eq_nil_iff.mp h).1 (hne b)
    | cons b' rest' =>
      obtain rfl := hcode b b' _ _ h
      rw [ih (List.append_cancel_left h)]

end ProvenGraphcal.Joined
