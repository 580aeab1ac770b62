import ProvenGraphcal.Library.Checked

/-!
# Computations that yield the same values

Two fallible computations agree when they succeed together, with one value; their errors may
differ. A computation fails when it yields no value.
-/

namespace ProvenGraphcal.Agreement

universe u

variable {ε ε' δ : Type*} {α β : Type u}

/-- Both computations yield the same values. -/
def Agree (a : Except ε α) (b : Except ε' α) : Prop := ∀ v, a = .ok v ↔ b = .ok v

/-- The computation yields no value. -/
def Fails (a : Except ε α) : Prop := ∀ v, a ≠ .ok v

theorem agree_ok (v : α) : Agree (.ok v : Except ε α) (.ok v : Except ε' α) := by
  intro w
  exact ⟨fun h => congrArg _ (Except.ok.inj h), fun h => congrArg _ (Except.ok.inj h)⟩

theorem Agree.symm {a : Except ε α} {b : Except ε' α} (h : Agree a b) : Agree b a :=
  fun v => (h v).symm

theorem Agree.trans {a : Except ε α} {b : Except ε' α} {c : Except δ α} (hab : Agree a b)
    (hbc : Agree b c) : Agree a c :=
  fun v => (hab v).trans (hbc v)

variable {a : Except ε α} {b : Except ε' α}

theorem agree_of_fails (ha : Fails a) (hb : Fails b) :
    Agree a b :=
  fun v => ⟨fun h => absurd h (ha v), fun h => absurd h (hb v)⟩

theorem fails_error (e : ε) : Fails (.error e : Except ε α) := fun _ h => nomatch h

theorem Agree.fails (h : Agree a b) (ha : Fails a) : Fails b :=
  fun v hv => ha v ((h v).mpr hv)

theorem agree_mapError (f : ε → ε') (a : Except ε α) : Agree (a.mapError f) a :=
  fun _ => Checked.mapError_eq_ok

variable {f : α → Except ε β}

theorem Agree.bind (h : Agree a b) {g : α → Except ε' β}
    (hfg : ∀ v, a = .ok v → Agree (f v) (g v)) :
    Agree (a >>= f) (b >>= g) := by
  intro w
  rw [Checked.bind_eq_ok, Checked.bind_eq_ok]
  constructor
  · rintro ⟨v, hv, hw⟩
    exact ⟨v, (h v).mp hv, (hfg v hv w).mp hw⟩
  · rintro ⟨v, hv, hw⟩
    exact ⟨v, (h v).mpr hv, (hfg v ((h v).mpr hv) w).mpr hw⟩

theorem Agree.map (h : Agree a b) (f : α → β) :
    Agree (f <$> a) (f <$> b) := by
  intro w
  rw [Checked.map_eq_ok, Checked.map_eq_ok]
  exact exists_congr fun v => and_congr_left' (h v)

/-- The errors of one computation may be changed in two ways. -/
theorem agree_mapErrors (f : ε → ε') (g : ε → δ) (a : Except ε α) :
    Agree (a.mapError f) (a.mapError g) :=
  (agree_mapError f a).trans (agree_mapError g a).symm

theorem fails_map (f : α → β) (h : Fails a) : Fails (f <$> a) := by
  intro w hw
  obtain ⟨v, hv, -⟩ := Checked.map_eq_ok.mp hw
  exact h v hv

theorem fails_bind (f : α → Except ε β) (h : Fails a) : Fails (a >>= f) := by
  intro w hw
  obtain ⟨v, hv, -⟩ := Checked.bind_eq_ok.mp hw
  exact h v hv

theorem fails_bind_of (h : ∀ v, a = .ok v → Fails (f v)) :
    Fails (a >>= f) := by
  intro w hw
  obtain ⟨v, hv, hf⟩ := Checked.bind_eq_ok.mp hw
  exact h v hv w hf

theorem toOption_mapError (f : ε → ε') (a : Except ε α) : (a.mapError f).toOption = a.toOption := by
  cases a <;> rfl

theorem toOption_bind (a : Except ε α) (f : α → Except ε β) :
    (a >>= f).toOption = a.toOption.bind fun v => (f v).toOption := by
  cases a <;> rfl

end ProvenGraphcal.Agreement
