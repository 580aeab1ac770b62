import ProvenGraphcal.Registry.SlotInvariant

/-!
# Registries that grow by local bodies

Adding local bodies keeps every earlier position, and visiting the positions meets each one once.
-/

namespace ProvenGraphcal

namespace DagSlots

open SlotBody

variable {L S I : Type} [LinearOrder I] [SlotBody L S I]

/-- `r'` is `r` with local bodies added behind. -/
structure Grows (r r' : DagSlots L S I) : Prop where
  len_le : r.slots.length ≤ r'.slots.length
  slots : ∀ p < r.slots.length, r'.slots[p]? = r.slots[p]?
  locals : ∀ i < r.locals.length, r'.locals[i]? = r.locals[i]?
  shared : r'.shared = r.shared
  added : ∀ p < r'.slots.length, r.slots.length ≤ p →
    r'.slots[p]? = some (.localBody (r.locals.length + (p - r.slots.length)))
  locals_length : r'.locals.length = r.locals.length + (r'.slots.length - r.slots.length)

omit [SlotBody L S I] in
theorem Grows.refl (r : DagSlots L S I) : r.Grows r where
  len_le := le_rfl
  slots _ _ := rfl
  locals _ _ := rfl
  shared := rfl
  added p hp hp' := absurd hp (Nat.not_lt.mpr hp')
  locals_length := by rw [Nat.sub_self, Nat.add_zero]

omit [SlotBody L S I] in
theorem Grows.trans {r r' r'' : DagSlots L S I} (h : r.Grows r') (h' : r'.Grows r'') :
    r.Grows r'' where
  len_le := h.len_le.trans h'.len_le
  slots p hp := (h'.slots p (hp.trans_le h.len_le)).trans (h.slots p hp)
  locals i hi := by
    have hi' : i < r'.locals.length := by rw [h.locals_length]; omega
    exact (h'.locals i hi').trans (h.locals i hi)
  shared := h'.shared.trans h.shared
  added p hp hp' := by
    have hlen := h.len_le
    by_cases hr' : p < r'.slots.length
    · rw [h'.slots p hr']
      exact h.added p hr' hp'
    · rw [h'.added p hp (Nat.not_lt.mp hr'), h.locals_length]
      congr 2
      omega
  locals_length := by
    have hlen := h.len_le
    have hlen' := h'.len_le
    rw [h'.locals_length, h.locals_length]
    omega

/-- What adding a local body does. -/
theorem pushLocal_eq_ok {r r' : DagSlots L S I} {dag : L} {n : ℕ}
    (h : r.pushLocal dag = .ok (r', n)) : n = r.slots.length ∧
      r.positions (slotId dag) = none ∧ r'.locals = r.locals ++ [dag] ∧ r'.shared = r.shared ∧
      r'.slots = r.slots ++ [.localBody r.locals.length] := by
  obtain ⟨q, hq, he⟩ := Checked.bind_eq_ok.mp h
  obtain ⟨hnone, rfl⟩ := nextPosition_eq_ok.mp hq
  cases he
  exact ⟨rfl, hnone, rfl, rfl, rfl⟩

theorem pushLocal_eq_error {r : DagSlots L S I} {dag : L} {e : DuplicateDag I}
    (h : r.pushLocal dag = .error e) : (r.positions (slotId dag)).isSome = true := by
  unfold pushLocal nextPosition at h
  by_contra hnone
  rw [if_neg hnone] at h
  cases h

theorem Grows.pushLocal {r r' : DagSlots L S I} {dag : L} {n : ℕ}
    (h : r.pushLocal dag = .ok (r', n)) : r.Grows r' := by
  obtain ⟨-, -, hlocals, hshared, hslots⟩ := pushLocal_eq_ok h
  have hlength : r'.slots.length = r.slots.length + 1 := by
    rw [hslots, List.length_append, List.length_singleton]
  refine ⟨by omega, fun p hp => ?_, fun i hi => ?_, hshared, fun p hp hp' => ?_, ?_⟩
  · rw [hslots, List.getElem?_append_left hp]
  · rw [hlocals, List.getElem?_append_left hi]
  · obtain rfl : p = r.slots.length := by omega
    rw [hslots, List.getElem?_concat_length, Nat.sub_self, Nat.add_zero]
  · rw [hlocals, hlength, List.length_append, List.length_singleton]
    omega

theorem Grows.bodyAt {r r' : DagSlots L S I} (h : r.Grows r') (hr : r.Aligned) {p : ℕ}
    (hp : p < r.slots.length) : r'.bodyAt p = r.bodyAt p := by
  cases hs : r.slots[p]? with
  | none => rw [bodyAt_none hs, bodyAt_none ((h.slots p hp).trans hs)]
  | some slot =>
    cases slot with
    | localBody i =>
      rw [bodyAt_local hs, bodyAt_local ((h.slots p hp).trans hs), h.locals i (hr.local_lt hs)]
    | shared j => rw [bodyAt_shared hs, bodyAt_shared ((h.slots p hp).trans hs), h.shared]

/-- A body stays at its position. -/
theorem Grows.bodyAt_some {r r' : DagSlots L S I} (h : r.Grows r') (hr : r.Aligned) {p : ℕ}
    {dag : L} (hp : r.bodyAt p = some dag) : r'.bodyAt p = some dag :=
  (h.bodyAt hr (Aligned.bodyAt_lt hp)).trans hp

/-- An identity keeps its position. -/
theorem Grows.positions {r r' : DagSlots L S I} (h : r.Grows r') (hr : r.Aligned)
    (hr' : r'.Aligned) {id : I} {p : ℕ} (hp : r.positions id = some p) :
    r'.positions id = some p := by
  obtain ⟨dag, hdag, hid⟩ := (hr.positions_eq id p).mp hp
  exact (hr'.positions_eq id p).mpr ⟨dag, h.bodyAt_some hr hdag, hid⟩

/-- A list related entry by entry to one without repetitions has none either. -/
theorem nodup_of_forall₂ {α β : Type} {R : α → β → Prop} {l : List α} {r : List β}
    (h : List.Forall₂ R l r) (hinj : ∀ a a' b, R a b → R a' b → a = a') (hl : l.Nodup) :
    r.Nodup := by
  induction h with
  | nil => exact List.nodup_nil
  | @cons a b l r hab hrest ih =>
    obtain ⟨ha, hl⟩ := List.nodup_cons.mp hl
    refine List.nodup_cons.mpr ⟨fun hb => ?_, ih hl⟩
    obtain ⟨a', ha', hab'⟩ := Checked.exists_of_forall₂_right hrest hb
    exact ha (hinj a a' b hab hab' ▸ ha')

theorem exists_of_forall₂_left {α β : Type} {R : α → β → Prop} {l : List α} {r : List β}
    (h : List.Forall₂ R l r) {a : α} (ha : a ∈ l) : ∃ b ∈ r, R a b :=
  Checked.exists_of_forall₂_right h.flip ha

namespace Aligned

variable {r : DagSlots L S I}

theorem localOrder_values_nodup (h : r.Aligned) :
    (0 :: r.localOrder.entries.map Prod.snd).Nodup := by
  have hentry : ∀ e ∈ r.localOrder.entries, e.2 ≠ 0 ∧
      ∃ dag, r.locals[e.2]? = some dag ∧ slotId dag = e.1 := fun e he =>
    (h.local_order e.1 e.2).mp (SortedMap.get?_eq_some.mpr he)
  refine List.nodup_cons.mpr ⟨fun h0 => ?_, ?_⟩
  · obtain ⟨e, he, he0⟩ := List.mem_map.mp h0
    exact (hentry e he).1 he0
  · refine List.Nodup.map_on (fun e he e' he' heq => ?_) r.localOrder.keys_nodup.of_map
    obtain ⟨-, dag, hdag, hid⟩ := hentry e he
    obtain ⟨-, dag', hdag', hid'⟩ := hentry e' he'
    rw [heq, hdag'] at hdag
    cases hdag
    exact Prod.ext (hid.symm.trans hid') heq

/-- Every position is visited once. -/
theorem mem_iterPositions (h : r.Aligned) : ∃ positions, r.iterPositions = some positions ∧
    positions.Nodup ∧ ∀ p, p ∈ positions ↔ p < r.slots.length := by
  have hindex : ∀ i ∈ 0 :: r.localOrder.entries.map Prod.snd, ∃ p, r.localPositions[i]? = some p ∧
      r.slots[p]? = some (.localBody i) := fun i hi => by
    have hlt : i < r.localPositions.length := by
      rw [h.positions_length]
      rcases List.mem_cons.mp hi with rfl | hi
      · exact h.locals_pos
      · obtain ⟨e, he, rfl⟩ := List.mem_map.mp hi
        obtain ⟨-, dag, hdag, -⟩ := (h.local_order e.1 e.2).mp (SortedMap.get?_eq_some.mpr he)
        exact (List.getElem?_eq_some_iff.mp hdag).1
    exact ⟨_, List.getElem?_eq_getElem hlt,
      (h.local_slot i _).mp (List.getElem?_eq_getElem hlt)⟩
  have hkey : ∀ id ∈ r.sharedOrder.keys, ∃ p, r.positions id = some p ∧
      (r.positions id = some p ∧ ∃ j, r.slots[p]? = some (.shared j)) := fun id hid => by
    obtain ⟨j, hj⟩ := SortedMap.mem_keys.mp hid
    obtain ⟨⟨p, hp⟩, dag, hdag, hdagId⟩ := (h.shared_order id j).mp hj
    have hbody : r.bodyAt p = some (ofShared dag) := by rw [bodyAt_shared hp, hdag]; rfl
    have hposition : r.positions id = some p :=
      (h.positions_eq id p).mpr ⟨_, hbody, by rw [slotId_ofShared]; exact hdagId⟩
    exact ⟨p, hposition, hposition, j, hp⟩
  obtain ⟨locals, hlocals, hlocalSlots⟩ := Checked.mapM_some_forall₂ hindex
  obtain ⟨shared, hshared, hsharedSlots⟩ := Checked.mapM_some_forall₂ hkey
  refine ⟨locals ++ shared, by rw [iterPositions, hlocals, hshared]; rfl,
    List.nodup_append.mpr ⟨?_, ?_, ?_⟩, fun p => ⟨fun hp => ?_, fun hp => ?_⟩⟩
  · refine nodup_of_forall₂ hlocalSlots (fun i i' p hi hi' => ?_) h.localOrder_values_nodup
    rw [hi] at hi'
    cases hi'
    rfl
  · refine nodup_of_forall₂ hsharedSlots (fun id id' p hid hid' => ?_) r.sharedOrder.keys_nodup
    obtain ⟨dag, hdag, rfl⟩ := (h.positions_eq id p).mp hid.1
    obtain ⟨dag', hdag', rfl⟩ := (h.positions_eq id' p).mp hid'.1
    rw [hdag] at hdag'
    cases hdag'
    rfl
  · rintro p hp q hq rfl
    obtain ⟨i, -, hi⟩ := Checked.exists_of_forall₂_right hlocalSlots hp
    obtain ⟨id, -, -, j, hj⟩ := Checked.exists_of_forall₂_right hsharedSlots hq
    rw [hi] at hj
    cases hj
  · rcases List.mem_append.mp hp with hp | hp
    · obtain ⟨i, -, hi⟩ := Checked.exists_of_forall₂_right hlocalSlots hp
      exact (List.getElem?_eq_some_iff.mp hi).1
    · obtain ⟨id, -, -, j, hj⟩ := Checked.exists_of_forall₂_right hsharedSlots hp
      exact (List.getElem?_eq_some_iff.mp hj).1
  · obtain ⟨dag, hdag⟩ := h.bodyAt_isSome hp
    rw [List.mem_append]
    have hs := List.getElem?_eq_getElem hp
    cases hslot : r.slots[p] with
    | localBody i =>
      rw [hslot] at hs
      rw [bodyAt_local hs] at hdag
      have hi : i ∈ 0 :: r.localOrder.entries.map Prod.snd := by
        by_cases hi0 : i = 0
        · exact List.mem_cons.mpr (.inl hi0)
        · have hget := (h.local_order (slotId dag) i).mpr ⟨hi0, dag, hdag, rfl⟩
          exact List.mem_cons_of_mem _ (List.mem_map.mpr
            ⟨(slotId dag, i), SortedMap.get?_eq_some.mp hget, rfl⟩)
      obtain ⟨q, hq, hqi⟩ := exists_of_forall₂_left hlocalSlots hi
      have hp' := (h.local_slot i p).mpr hs
      rw [(h.local_slot i q).mpr hqi] at hp'
      cases hp'
      exact .inl hq
    | shared j =>
      rw [hslot] at hs
      obtain ⟨handle, hj⟩ : ∃ handle, r.shared[j]? = some handle :=
        ⟨_, List.getElem?_eq_getElem (h.shared_slot p j hs)⟩
      have hget := (h.shared_order (dagId L handle) j).mpr ⟨⟨p, hs⟩, _, hj, rfl⟩
      obtain ⟨q, hq, hposition, -⟩ := exists_of_forall₂_left hsharedSlots
        (SortedMap.mem_keys.mpr ⟨j, hget⟩)
      have hbody : r.bodyAt p = some (ofShared handle) := by rw [bodyAt_shared hs, hj]; rfl
      have hp' := (h.positions_eq (dagId L handle) p).mpr ⟨_, hbody, slotId_ofShared _⟩
      rw [hposition] at hp'
      cases hp'
      exact .inr hq

end Aligned

end DagSlots

end ProvenGraphcal
