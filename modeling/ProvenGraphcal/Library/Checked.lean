import Mathlib.Algebra.BigOperators.Group.List.Basic
import Mathlib.Algebra.Group.TypeTags.Basic
import Mathlib.Data.List.Forall2

namespace ProvenGraphcal.Checked

open List (foldlM_cons map_cons mem_cons mem_cons_of_mem mem_cons_self)

universe u

variable {ε : Type*} {α β : Type u}
variable {x : Except ε α} {f : α → Except ε β} {b : β}

theorem bind_eq_ok :
    x >>= f = .ok b ↔ ∃ a, x = .ok a ∧ f a = .ok b := by
  cases x with
  | error e =>
    refine ⟨fun h => ?_, fun ⟨a, h, _⟩ => nomatch h⟩
    cases h
  | ok a =>
    refine ⟨fun h => ⟨a, rfl, h⟩, fun ⟨a', h, hf⟩ => ?_⟩
    cases h
    exact hf

theorem bind_eq_error {e : ε} :
    x >>= f = .error e ↔ x = .error e ∨ ∃ a, x = .ok a ∧ f a = .error e := by
  cases x with
  | error e' =>
    refine ⟨fun h => .inl ?_, fun h => ?_⟩
    · cases h
      rfl
    · rcases h with h | ⟨a, h, _⟩
      · cases h
        rfl
      · cases h
  | ok a =>
    refine ⟨fun h => .inr ⟨a, rfl, h⟩, fun h => ?_⟩
    rcases h with h | ⟨a', h, hf⟩
    · cases h
    · cases h
      exact hf

theorem bind_pure_eq_ok {f : α → β} :
    (x >>= fun a => pure (f a)) = .ok b ↔ ∃ a, x = .ok a ∧ f a = b :=
  bind_eq_ok.trans (exists_congr fun _ => and_congr_right' ⟨Except.ok.inj, congrArg _⟩)

theorem map_eq_ok {f : α → β} :
    f <$> x = .ok b ↔ ∃ a, x = .ok a ∧ f a = b := by
  cases x with
  | error e =>
    exact ⟨nofun, fun ⟨a, h, _⟩ => (nomatch h)⟩
  | ok a =>
    refine ⟨fun h => ⟨a, rfl, Except.ok.inj h⟩, fun ⟨a', h, hf⟩ => ?_⟩
    cases h
    exact congrArg Except.ok hf

variable {l : List α}

/-- What every successful step of a checked fold preserves holds of its result. -/
theorem foldlM_invariant {f : β → α → Except ε β} (Inv : β → Prop)
    (hstep : ∀ a ∈ l, ∀ s s', Inv s → f s a = .ok s' → Inv s') {init result : β} (hinit : Inv init)
    (h : l.foldlM f init = .ok result) : Inv result := by
  induction l generalizing init with
  | nil =>
    cases h
    exact hinit
  | cons a rest ih =>
    rw [foldlM_cons, bind_eq_ok] at h
    obtain ⟨s, hs, hrest⟩ := h
    refine ih (fun b hb => hstep b (mem_cons_of_mem _ hb)) ?_ hrest
    exact hstep a mem_cons_self _ _ hinit hs

/-- Every step of a fold that succeeds has succeeded. -/
theorem exists_step_of_foldlM {f : β → α → Except ε β} {init result : β} {a : α}
    (h : l.foldlM f init = .ok result) (ha : a ∈ l) : ∃ s s', f s a = .ok s' := by
  induction l generalizing init with
  | nil => cases ha
  | cons b rest ih =>
    rw [foldlM_cons, bind_eq_ok] at h
    obtain ⟨next, hnext, hrest⟩ := h
    rcases mem_cons.mp ha with rfl | ha
    · exact ⟨init, next, hnext⟩
    · exact ih hrest ha

section Measure

variable {M : Type*} {f : β → α → Except ε β} (measure : β → M) {part : α → M} {init result : β}

/-- A checked fold adds to a measure what its steps add. -/
theorem foldlM_sum [AddMonoid M] (h : l.foldlM f init = .ok result)
    (hstep : ∀ a s s', f s a = .ok s' → measure s' = measure s + part a) :
    measure result = measure init + (l.map part).sum := by
  induction l generalizing init with
  | nil =>
    cases h
    exact (add_zero _).symm
  | cons a rest ih =>
    rw [foldlM_cons, bind_eq_ok] at h
    obtain ⟨s, hs, hrest⟩ := h
    rw [ih hrest, hstep a init s hs, map_cons, List.sum_cons, add_assoc]

theorem foldlM_prod [Monoid M] (h : l.foldlM f init = .ok result)
    (hstep : ∀ a s s', f s a = .ok s' → measure s' = measure s * part a) :
    measure result = measure init * (l.map part).prod :=
  foldlM_sum (M := Additive M) measure h hstep

end Measure

/-- A fold that refuses some elements succeeds as the fold without the refusals does, if it meets
none of them. -/
theorem foldlM_refusing {f g : β → α → Except ε β} {refused : α → Prop}
    (hrefused : ∀ a ∈ l, refused a → ∀ s s', f s a ≠ .ok s')
    (hsame : ∀ a ∈ l, ¬ refused a → ∀ s, f s a = g s a) {init result : β} :
    l.foldlM f init = .ok result ↔ (∀ a ∈ l, ¬ refused a) ∧ l.foldlM g init = .ok result := by
  induction l generalizing init with
  | nil => simp
  | cons a rest ih =>
    have hrest : ∀ s, rest.foldlM f s = .ok result ↔
        (∀ b ∈ rest, ¬ refused b) ∧ rest.foldlM g s = .ok result := fun s =>
      ih (fun b hb => hrefused b (mem_cons_of_mem _ hb))
        fun b hb => hsame b (mem_cons_of_mem _ hb)
    by_cases ha : refused a
    · refine ⟨fun h => ?_, fun h => absurd ha (h.1 a mem_cons_self)⟩
      rw [foldlM_cons, bind_eq_ok] at h
      obtain ⟨s, hs, -⟩ := h
      exact absurd hs (hrefused a mem_cons_self ha init s)
    · rw [foldlM_cons, foldlM_cons, hsame a mem_cons_self ha, bind_eq_ok,
        bind_eq_ok, List.forall_mem_cons]
      simp only [hrest]
      exact ⟨fun ⟨s, hs, hno, h⟩ => ⟨⟨ha, hno⟩, s, hs, h⟩,
        fun ⟨⟨_, hno⟩, s, hs, h⟩ => ⟨s, hs, hno, h⟩⟩

variable {r : List β}

theorem mapM_eq_ok :
    l.mapM f = .ok r ↔ List.Forall₂ (fun a b => f a = .ok b) l r := by
  induction l generalizing r with
  | nil =>
    rw [List.mapM_nil, List.forall₂_nil_left_iff]
    exact ⟨fun h => (Except.ok.inj h).symm, fun h => congrArg Except.ok h.symm⟩
  | cons a rest ih =>
    rw [List.mapM_cons, List.forall₂_cons_left_iff, bind_eq_ok]
    constructor
    · rintro ⟨b, hb, h⟩
      obtain ⟨bs, hbs, h⟩ := bind_eq_ok.mp h
      cases h
      exact ⟨b, bs, hb, ih.mp hbs, rfl⟩
    · rintro ⟨b, bs, hb, hbs, rfl⟩
      exact ⟨b, hb, bind_eq_ok.mpr ⟨bs, ih.mpr hbs, rfl⟩⟩

variable {R : α → β → Prop}

theorem exists_of_forall₂_right (h : List.Forall₂ R l r) (hb : b ∈ r) : ∃ a ∈ l, R a b := by
  induction h with
  | nil => cases hb
  | cons hab _ ih =>
    rcases mem_cons.mp hb with rfl | hb
    · exact ⟨_, mem_cons_self, hab⟩
    · obtain ⟨a, ha, hr⟩ := ih hb
      exact ⟨a, mem_cons_of_mem _ ha, hr⟩

variable {a : α}

theorem exists_of_forall₂_left (h : List.Forall₂ R l r) (ha : a ∈ l) : ∃ b ∈ r, R a b :=
  exists_of_forall₂_right h.flip ha

theorem exists_mapM_eq_ok (h : ∀ a ∈ l, ∃ b, f a = .ok b) :
    ∃ r, l.mapM f = .ok r := by
  induction l with
  | nil => exact ⟨[], rfl⟩
  | cons a rest ih =>
    obtain ⟨b, hb⟩ := h a mem_cons_self
    obtain ⟨bs, hbs⟩ := ih fun a' ha' => h a' (mem_cons_of_mem _ ha')
    exact ⟨b :: bs, mapM_eq_ok.mpr (.cons hb (mapM_eq_ok.mp hbs))⟩

variable {ε' : Type*}

theorem mapError_eq_ok {f : ε → ε'} :
    x.mapError f = .ok a ↔ x = .ok a := by
  cases x with
  | error e => exact ⟨nofun, nofun⟩
  | ok b => simp [Except.mapError]

theorem mapError_eq_error {f : ε → ε'} {e : ε'} (h : x.mapError f = .error e) :
    ∃ e₀, x = .error e₀ ∧ e = f e₀ := by
  cases x with
  | error e₀ =>
    cases h
    exact ⟨e₀, rfl, rfl⟩
  | ok b => cases h

/-- A map that succeeds on every element succeeds on the list. -/
theorem mapM_some_forall₂ {f : α → Option β} {P : α → β → Prop}
    (h : ∀ a ∈ l, ∃ b, f a = some b ∧ P a b) :
    ∃ bs, l.mapM f = some bs ∧ List.Forall₂ P l bs := by
  induction l with
  | nil => exact ⟨[], rfl, .nil⟩
  | cons a l ih =>
    obtain ⟨b, hb, hP⟩ := h a mem_cons_self
    obtain ⟨bs, hbs, hrest⟩ := ih fun a' ha' => h a' (mem_cons_of_mem _ ha')
    exact ⟨b :: bs, by rw [List.mapM_cons, hb, hbs]; rfl, .cons hP hrest⟩

/-- Results that are known under a map. -/
theorem exists_mapM_some_map {f : α → Option β} {u : β → γ} {v : α → γ}
    (h : ∀ a ∈ l, ∃ b, f a = some b ∧ u b = v a) :
    ∃ bs, l.mapM f = some bs ∧ bs.map u = l.map v := by
  obtain ⟨bs, hbs, hrelated⟩ := mapM_some_forall₂ h
  refine ⟨bs, hbs, ?_⟩
  clear hbs h
  induction hrelated with
  | nil => rfl
  | cons hhead _ ih => rw [map_cons, map_cons, hhead, ih]

theorem exists_ok_of_any {p : α → Bool} (h : x.toOption.any p = true) :
    ∃ a, x = .ok a ∧ p a = true := by
  cases x with
  | error e => cases h
  | ok a => exact ⟨a, rfl, h⟩

end ProvenGraphcal.Checked
