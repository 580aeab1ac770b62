import ProvenGraphcal.Library.Checked
import ProvenGraphcal.Registry.DagSlots

/-!
# What the registry's containers agree on

The slots decide where a DAG lives; the other containers are views of them. Every operation keeps
the views aligned.
-/

namespace ProvenGraphcal

variable {i n p : ℕ}

namespace DagSlots

open SlotBody

variable {L S I : Type} [LinearOrder I] [SlotBody L S I]

/-- The containers are views of the slots and of the bodies these point to. -/
structure Aligned (r : DagSlots L S I) : Prop where
  positions_length : r.localPositions.length = r.locals.length
  root_slot : r.slots[0]? = some (Slot.localBody 0)
  local_slot : ∀ i p : ℕ, r.localPositions[i]? = some p ↔ r.slots[p]? = some (Slot.localBody i)
  shared_slot : ∀ p j : ℕ, r.slots[p]? = some (Slot.shared j) → j < r.shared.length
  shared_inj : ∀ p q j : ℕ, r.slots[p]? = some (Slot.shared j) →
    r.slots[q]? = some (Slot.shared j) → p = q
  positions_eq : ∀ (id : I) (p : ℕ), r.positions id = some p ↔
    ∃ dag, r.bodyAt p = some dag ∧ slotId dag = id
  local_order : ∀ (id : I) (i : ℕ), r.localOrder.get? id = some i ↔
    i ≠ 0 ∧ ∃ dag, r.locals[i]? = some dag ∧ slotId dag = id
  shared_order : ∀ (id : I) (j : ℕ), r.sharedOrder.get? id = some j ↔
    (∃ p : ℕ, r.slots[p]? = some (Slot.shared j)) ∧
      ∃ dag, r.shared[j]? = some dag ∧ dagId L dag = id

theorem bodyAt_local {r : DagSlots L S I} (h : r.slots[p]? = some (.localBody i)) :
    r.bodyAt p = r.locals[i]? := by
  rw [bodyAt, h]
  rfl

theorem bodyAt_shared {r : DagSlots L S I} {j : ℕ} (h : r.slots[p]? = some (.shared j)) :
    r.bodyAt p = (r.shared[j]?).map ofShared := by
  rw [bodyAt, h]
  rfl

theorem bodyAt_none {r : DagSlots L S I} (h : r.slots[p]? = none) :
    r.bodyAt p = none := by
  rw [bodyAt, h]
  rfl

variable {dag : L}

namespace Aligned

variable {r : DagSlots L S I}

theorem local_lt (h : r.Aligned) (hp : r.slots[p]? = some (.localBody i)) :
    i < r.locals.length := by
  rw [← h.positions_length]
  exact (List.getElem?_eq_some_iff.mp ((h.local_slot i p).mpr hp)).1

theorem locals_pos (h : r.Aligned) : 0 < r.locals.length := h.local_lt h.root_slot

/-- Every position below the number of slots names a DAG. -/
theorem bodyAt_isSome (h : r.Aligned) (hp : p < r.slots.length) :
    ∃ dag, r.bodyAt p = some dag := by
  have hslot : r.slots[p]? = some r.slots[p] := List.getElem?_eq_getElem hp
  cases hs : r.slots[p] with
  | localBody i =>
    rw [hs] at hslot
    rw [bodyAt_local hslot]
    exact ⟨_, List.getElem?_eq_getElem (h.local_lt hslot)⟩
  | shared j =>
    rw [hs] at hslot
    rw [bodyAt_shared hslot, List.getElem?_eq_getElem (h.shared_slot p j hslot)]
    exact ⟨_, rfl⟩

theorem bodyAt_lt (hp : r.bodyAt p = some dag) : p < r.slots.length := by
  by_contra hlt
  rw [bodyAt_none (List.getElem?_eq_none (not_lt.mp hlt))] at hp
  cases hp

/-- The bodies at two positions have distinct identities. -/
theorem position_inj (h : r.Aligned) {q : ℕ} {dag' : L} (hp : r.bodyAt p = some dag)
    (hq : r.bodyAt q = some dag') (hid : slotId dag = slotId dag') : p = q := by
  have hpos := (h.positions_eq (slotId dag) p).mpr ⟨dag, hp, rfl⟩
  have hpos' := (h.positions_eq (slotId dag) q).mpr ⟨dag', hq, hid.symm⟩
  exact Option.some.inj (hpos.symm.trans hpos')

theorem local_position (h : r.Aligned) (hi : r.locals[i]? = some dag) :
    ∃ p, r.slots[p]? = some (.localBody i) ∧ r.bodyAt p = some dag := by
  have hlt := (List.getElem?_eq_some_iff.mp hi).1
  have hlt' : i < r.localPositions.length := h.positions_length ▸ hlt
  have hpos : r.localPositions[i]? = some r.localPositions[i] := List.getElem?_eq_getElem _
  have hslot := (h.local_slot i _).mp hpos
  exact ⟨_, hslot, (bodyAt_local hslot).trans hi⟩

/-- A local body stands at one index. -/
theorem local_inj (h : r.Aligned) {j : ℕ} {dag' : L} (hi : r.locals[i]? = some dag)
    (hj : r.locals[j]? = some dag') (hid : slotId dag = slotId dag') : i = j := by
  obtain ⟨p, hp, hbody⟩ := h.local_position hi
  obtain ⟨q, hq, hbody'⟩ := h.local_position hj
  have hpq := h.position_inj hbody hbody' hid
  rw [hpq, hq] at hp
  cases hp
  rfl

end Aligned

/-! ## Adding a DAG -/

variable {id : I}

omit [SlotBody L S I] in
theorem nextPosition_eq_ok {r : DagSlots L S I} :
    r.nextPosition id = .ok p ↔ r.positions id = none ∧ p = r.slots.length := by
  unfold nextPosition
  cases h : r.positions id <;> simp [eq_comm]

theorem getElem?_concat {α : Type} (l : List α) (a : α) (i : ℕ) :
    (l ++ [a])[i]? = if i = l.length then some a else l[i]? := by
  rcases Nat.lt_trichotomy i l.length with h | rfl | h
  · rw [if_neg h.ne, List.getElem?_append_left h]
  · simp
  · rw [if_neg h.ne', List.getElem?_eq_none h.le, List.getElem?_eq_none]
    simpa using Nat.succ_le_of_lt h

theorem aligned_new (root : L) : (new root : DagSlots L S I).Aligned := by
  have hslot : ∀ p s, (new root : DagSlots L S I).slots[p]? = some s ↔
      p = 0 ∧ s = .localBody 0 := fun p s => by
    cases p with
    | zero => simp [new, eq_comm]
    | succ p => simp [new]
  have hlocal : ∀ i dag, (new root : DagSlots L S I).locals[i]? = some dag ↔
      i = 0 ∧ dag = root := fun i dag => by
    cases i with
    | zero => simp [new, eq_comm]
    | succ i => simp [new]
  refine ⟨rfl, rfl, fun i p => ?_, fun p j hp => ?_, fun p q j hp _ => ?_, fun id p => ?_,
    fun id i => ?_, fun id j => ?_⟩
  · rw [hslot, Slot.localBody.injEq]
    cases i with
    | zero => simp [new, eq_comm]
    | succ i => simp [new]
  · cases ((hslot p _).mp hp).2
  · cases ((hslot p _).mp hp).2
  · by_cases hp : p = 0
    · subst hp
      rw [bodyAt_local ((hslot 0 _).mpr ⟨rfl, rfl⟩)]
      by_cases hid : id = slotId root
      · simp [new, hid]
      · simp [new, hid, Ne.symm hid]
    · have hnone : (new root : DagSlots L S I).slots[p]? = none := by
        cases hs : (new root : DagSlots L S I).slots[p]? with
        | none => rfl
        | some s => exact absurd ((hslot p s).mp hs).1 hp
      rw [bodyAt_none hnone]
      by_cases hid : id = slotId root
      · simp [new, hid, Ne.symm hp]
      · simp [new, hid]
  · rw [show (new root : DagSlots L S I).localOrder = SortedMap.empty from rfl,
      SortedMap.get?_empty]
    simp only [reduceCtorEq, false_iff, not_and, not_exists]
    exact fun hi dag hdag => absurd ((hlocal i dag).mp hdag).1 hi
  · rw [show (new root : DagSlots L S I).sharedOrder = SortedMap.empty from rfl,
      SortedMap.get?_empty]
    simp only [reduceCtorEq, false_iff, not_and]
    rintro ⟨p, hp⟩
    cases ((hslot p _).mp hp).2

/-- A position whose slot and body stay names the same DAG. -/
theorem bodyAt_congr {r r' : DagSlots L S I} (hslot : r'.slots[p]? = r.slots[p]?)
    (hlocal : ∀ i : ℕ, r.slots[p]? = some (.localBody i) → r'.locals[i]? = r.locals[i]?)
    (hshared : ∀ j : ℕ, r.slots[p]? = some (.shared j) → r'.shared[j]? = r.shared[j]?) :
    r'.bodyAt p = r.bodyAt p := by
  cases hs : r.slots[p]? with
  | none => rw [bodyAt_none hs, bodyAt_none (hslot.trans hs)]
  | some s =>
    cases s with
    | localBody i => rw [bodyAt_local hs, bodyAt_local (hslot.trans hs), hlocal i hs]
    | shared j => rw [bodyAt_shared hs, bodyAt_shared (hslot.trans hs), hshared j hs]

/-- Adding a slot keeps every position and names the new one. -/
theorem bodyAt_pushLocal {r r' : DagSlots L S I} (h : r.Aligned)
    (hpush : r.pushLocal dag = .ok (r', n)) (p : ℕ) :
    r'.bodyAt p = if p = r.slots.length then some dag else r.bodyAt p := by
  obtain ⟨q, hq, he⟩ := Checked.bind_eq_ok.mp hpush
  cases he
  have hslots : (r.slots ++ [Slot.localBody r.locals.length])[p]? =
      if p = r.slots.length then some (.localBody r.locals.length) else r.slots[p]? :=
    getElem?_concat _ _ p
  by_cases hp : p = r.slots.length
  · rw [if_pos hp] at hslots ⊢
    rw [bodyAt_local hslots, getElem?_concat, if_pos rfl]
  · rw [if_neg hp] at hslots ⊢
    refine bodyAt_congr hslots (fun i hs => ?_) fun _ _ => rfl
    rw [getElem?_concat, if_neg (h.local_lt hs).ne]

theorem bodyAt_pushShared {r r' : DagSlots L S I} (h : r.Aligned) {dag : S}
    (hpush : r.pushShared dag = .ok (r', n)) (p : ℕ) :
    r'.bodyAt p = if p = r.slots.length then some (ofShared dag) else r.bodyAt p := by
  obtain ⟨q, hq, he⟩ := Checked.bind_eq_ok.mp hpush
  cases he
  have hslots : (r.slots ++ [Slot.shared r.shared.length])[p]? =
      if p = r.slots.length then some (.shared r.shared.length) else r.slots[p]? :=
    getElem?_concat _ _ p
  by_cases hp : p = r.slots.length
  · rw [if_pos hp] at hslots ⊢
    rw [bodyAt_shared hslots, getElem?_concat, if_pos rfl]
    rfl
  · rw [if_neg hp] at hslots ⊢
    refine bodyAt_congr hslots (fun _ _ => rfl) fun j hs => ?_
    rw [getElem?_concat, if_neg (h.shared_slot p j hs).ne]

/-- The position table after a DAG with a new identity joined at the next position. -/
theorem positions_update {r r' : DagSlots L S I} (h : r.Aligned) (hnew : r.positions id = none)
    (hpositions : r'.positions = Function.update r.positions id (some r.slots.length))
    (hid : slotId dag = id)
    (hbody : ∀ p, r'.bodyAt p = if p = r.slots.length then some dag else r.bodyAt p) (id' : I)
    (p : ℕ) : r'.positions id' = some p ↔ ∃ d, r'.bodyAt p = some d ∧ slotId d = id' := by
  rw [hpositions, hbody]
  by_cases hp : p = r.slots.length
  · rw [if_pos hp]
    by_cases he : id' = id
    · subst he
      simp [hp, hid]
    · rw [Function.update_of_ne he, h.positions_eq]
      constructor
      · rintro ⟨d, hd, -⟩
        exact absurd (Aligned.bodyAt_lt hd) (by omega)
      · rintro ⟨d, hd, hd'⟩
        cases hd
        exact absurd (hd'.symm.trans hid) he
  · rw [if_neg hp]
    by_cases he : id' = id
    · subst he
      rw [Function.update_self, ← h.positions_eq, hnew]
      simp [Ne.symm hp]
    · rw [Function.update_of_ne he, h.positions_eq]

/-- A local body that joins the bodies, at a position that held none. -/
theorem Aligned.addLocal {r r' : DagSlots L S I} (h : r.Aligned)
    (hslot : ∀ q, r'.slots[q]? = if q = p then some (.localBody r.locals.length) else r.slots[q]?)
    (hroot : 0 ≠ p) (hfree : ∀ i : ℕ, r.slots[p]? ≠ some (.localBody i))
    (hlocals : r'.locals = r.locals ++ [dag]) (hpos : r'.localPositions = r.localPositions ++ [p])
    (horder : r'.localOrder = r.localOrder.insert (slotId dag) r.locals.length)
    (hnew : ∀ (i : ℕ) d, r.locals[i]? = some d → slotId d ≠ slotId dag)
    (hshared : r'.shared = r.shared)
    (hpositions : ∀ id q, r'.positions id = some q ↔ ∃ d, r'.bodyAt q = some d ∧ slotId d = id)
    (hsharedOrder : ∀ (id : I) (j : ℕ), r'.sharedOrder.get? id = some j ↔
      (∃ q : ℕ, r'.slots[q]? = some (Slot.shared j)) ∧
        ∃ d, r'.shared[j]? = some d ∧ dagId L d = id) : r'.Aligned := by
  refine ⟨?_, ?_, fun i q => ?_, fun q j hq => ?_, fun q q' j hq hq' => ?_, hpositions,
    fun id i => ?_, hsharedOrder⟩
  · simp [hpos, hlocals, h.positions_length]
  · rw [hslot, if_neg hroot]
    exact h.root_slot
  · rw [hpos, getElem?_concat, hslot, h.positions_length]
    by_cases hi : i = r.locals.length
    · rw [if_pos hi]
      by_cases hq : q = p
      · simp [hi, hq]
      · rw [if_neg hq, Option.some.injEq]
        refine ⟨fun he => absurd he.symm hq, fun hs => ?_⟩
        exact absurd (h.local_lt hs) (by omega)
    · rw [if_neg hi, h.local_slot]
      by_cases hq : q = p
      · rw [if_pos hq, hq]
        simp [hfree, Ne.symm hi]
      · rw [if_neg hq]
  · rw [hslot] at hq
    split_ifs at hq
    · cases hq
    · exact hshared ▸ h.shared_slot q j hq
  · rw [hslot] at hq hq'
    split_ifs at hq hq' <;> first | cases hq | cases hq' | exact h.shared_inj q q' j hq hq'
  · rw [horder, SortedMap.get?_insert, hlocals, getElem?_concat]
    by_cases hid : id = slotId dag
    · subst hid
      rw [if_pos rfl, Option.some.injEq]
      constructor
      · rintro rfl
        exact ⟨h.locals_pos.ne', dag, if_pos rfl, rfl⟩
      · rintro ⟨-, d, hd, hd'⟩
        by_contra hi
        rw [if_neg (Ne.symm hi)] at hd
        exact hnew i d hd hd'
    · rw [if_neg hid, h.local_order]
      by_cases hi : i = r.locals.length
      · rw [if_pos hi, hi, List.getElem?_eq_none le_rfl]
        constructor
        · rintro ⟨-, d, hd, -⟩
          cases hd
        · rintro ⟨-, d, hd, hd'⟩
          cases hd
          exact absurd hd'.symm hid
      · rw [if_neg hi]

theorem Aligned.pushLocal {r r' : DagSlots L S I} (h : r.Aligned) {dag : L} {n : ℕ}
    (hpush : r.pushLocal dag = .ok (r', n)) : r'.Aligned := by
  have hbody := bodyAt_pushLocal h hpush
  obtain ⟨q, hq, he⟩ := Checked.bind_eq_ok.mp hpush
  obtain ⟨hnew, rfl⟩ := nextPosition_eq_ok.mp hq
  cases he
  refine h.addLocal (getElem?_concat _ _) (List.getElem?_eq_some_iff.mp h.root_slot).1.ne
    (fun i => ?_) rfl rfl rfl (fun i d hd hd' => ?_) rfl
    (positions_update h hnew rfl rfl hbody) fun id j => ?_
  · rw [List.getElem?_eq_none le_rfl]
    exact nofun
  · obtain ⟨p, -, hp⟩ := h.local_position hd
    rw [(h.positions_eq _ _).mpr ⟨d, hp, hd'⟩] at hnew
    cases hnew
  · rw [h.shared_order]
    refine and_congr_left fun _ => exists_congr fun p => ?_
    rw [getElem?_concat]
    by_cases hp : p = r.slots.length
    · rw [if_pos hp, hp, List.getElem?_eq_none le_rfl]
      simp
    · rw [if_neg hp]

theorem Aligned.pushShared {r r' : DagSlots L S I} (h : r.Aligned) {dag : S} {n : ℕ}
    (hpush : r.pushShared dag = .ok (r', n)) : r'.Aligned := by
  have hbody := bodyAt_pushShared h hpush
  obtain ⟨q, hq, he⟩ := Checked.bind_eq_ok.mp hpush
  obtain ⟨hnew, rfl⟩ := nextPosition_eq_ok.mp hq
  cases he
  have hslot := getElem?_concat r.slots (Slot.shared r.shared.length)
  have hold : ∀ p j : ℕ, r.slots[p]? = some (Slot.shared j) → j ≠ r.shared.length :=
    fun p j hp => (h.shared_slot p j hp).ne
  refine ⟨h.positions_length, ?_, fun i p => ?_, fun p j hp => ?_, fun p q j hp hq => ?_,
    positions_update h hnew rfl (slotId_ofShared dag) hbody, h.local_order, fun id j => ?_⟩
  · rw [hslot, if_neg]
    · exact h.root_slot
    · exact (List.getElem?_eq_some_iff.mp h.root_slot).1.ne
  · rw [hslot, h.local_slot]
    by_cases hp : p = r.slots.length
    · rw [if_pos hp, hp, List.getElem?_eq_none le_rfl]
      simp
    · rw [if_neg hp]
  · rw [hslot] at hp
    rw [List.length_append, List.length_singleton]
    split_ifs at hp
    · cases hp
      exact Nat.lt_succ_self _
    · exact (h.shared_slot p j hp).trans (Nat.lt_succ_self _)
  · rw [hslot] at hp hq
    split_ifs at hp hq with hpe hqe hqe
    · exact hpe.trans hqe.symm
    · cases hp
      exact absurd rfl (hold q _ hq)
    · cases hq
      exact absurd rfl (hold p _ hp)
    · exact h.shared_inj p q j hp hq
  · rw [SortedMap.get?_insert, getElem?_concat]
    have hexists : (∃ p : ℕ, (r.slots ++ [Slot.shared r.shared.length])[p]? = some (Slot.shared j)) ↔
        j = r.shared.length ∨ ∃ p : ℕ, r.slots[p]? = some (Slot.shared j) := by
      constructor
      · rintro ⟨p, hp⟩
        rw [hslot] at hp
        split_ifs at hp
        · cases hp
          exact .inl rfl
        · exact .inr ⟨p, hp⟩
      · rintro (rfl | ⟨p, hp⟩)
        · exact ⟨r.slots.length, by rw [hslot, if_pos rfl]⟩
        · refine ⟨p, ?_⟩
          rw [hslot, if_neg (List.getElem?_eq_some_iff.mp hp).1.ne]
          exact hp
    rw [hexists]
    by_cases hj : j = r.shared.length
    · rw [if_pos hj]
      by_cases hid : id = dagId L dag
      · simp [hj, hid]
      · rw [if_neg hid, h.shared_order]
        constructor
        · rintro ⟨⟨p, hp⟩, -⟩
          exact absurd hj (hold p j hp)
        · rintro ⟨-, d, hd, hd'⟩
          cases hd
          exact absurd hd'.symm hid
    · rw [if_neg hj]
      by_cases hid : id = dagId L dag
      · subst hid
        rw [if_pos rfl, Option.some.injEq]
        refine ⟨fun he => absurd he.symm hj, ?_⟩
        rintro ⟨hp, d, hd, hd'⟩
        obtain ⟨p, hp⟩ := hp.resolve_left hj
        have hbody' : r.bodyAt p = some (ofShared d) := by rw [bodyAt_shared hp, hd]; rfl
        rw [(h.positions_eq _ _).mpr ⟨_, hbody', (slotId_ofShared d).trans hd'⟩] at hnew
        cases hnew
      · rw [if_neg hid, h.shared_order]
        simp [hj]

omit [SlotBody L S I] in
theorem getElem?_set_slot {r : DagSlots L S I} (hp : p < r.slots.length) (s : Slot) (q : ℕ) :
    (r.slots.set p s)[q]? = if q = p then some s else r.slots[q]? := by
  by_cases hq : q = p
  · rw [if_pos hq, hq, List.getElem?_set_self hp]
  · rw [if_neg hq, List.getElem?_set_ne (Ne.symm hq)]

/-- Localizing a handle changes no body at any position. -/
theorem bodyAt_localize {r : DagSlots L S I} (h : r.Aligned) {j : ℕ} {dag : S}
    (hp : r.slots[p]? = some (.shared j)) (hj : r.shared[j]? = some dag) (q : ℕ) :
    (r.localize p dag).bodyAt q = r.bodyAt q := by
  have hlt := (List.getElem?_eq_some_iff.mp hp).1
  have hslots : (r.localize p dag).slots[q]? =
      if q = p then some (.localBody r.locals.length) else r.slots[q]? :=
    getElem?_set_slot hlt _ q
  by_cases hq : q = p
  · subst hq
    rw [if_pos rfl] at hslots
    rw [bodyAt_local hslots, bodyAt_shared hp, hj, localize, getElem?_concat, if_pos rfl]
    rfl
  · rw [if_neg hq] at hslots
    refine bodyAt_congr hslots (fun i hs => ?_) fun _ _ => rfl
    rw [localize, getElem?_concat, if_neg (h.local_lt hs).ne]

theorem Aligned.localize {r : DagSlots L S I} (h : r.Aligned) {p j : ℕ} {dag : S}
    (hp : r.slots[p]? = some (.shared j)) (hj : r.shared[j]? = some dag) :
    (r.localize p dag).Aligned := by
  have hbody := bodyAt_localize h hp hj
  have hlt := (List.getElem?_eq_some_iff.mp hp).1
  have hid : slotId (ofShared dag : L) = dagId L dag := slotId_ofShared dag
  have hatp : r.bodyAt p = some (ofShared dag) := by rw [bodyAt_shared hp, hj]; rfl
  refine h.addLocal (getElem?_set_slot hlt _) ?_ (fun i => ?_) rfl rfl
    rfl (fun i d hd hd' => ?_) rfl (fun id q => ?_)
    fun id i => ?_
  · rintro rfl
    rw [h.root_slot] at hp
    cases hp
  · rw [hp]
    exact nofun
  · obtain ⟨q, hq, hbodyq⟩ := h.local_position hd
    rw [h.position_inj hbodyq hatp hd', hp] at hq
    cases hq
  · rw [hbody]
    exact h.positions_eq id q
  · rw [DagSlots.localize, SortedMap.get?_set, hid]
    have hexists : (∃ q : ℕ, (r.slots.set p (.localBody r.locals.length))[q]? =
        some (Slot.shared i)) ↔ i ≠ j ∧ ∃ q : ℕ, r.slots[q]? = some (Slot.shared i) := by
      constructor
      · rintro ⟨q, hq⟩
        rw [getElem?_set_slot hlt] at hq
        split_ifs at hq with hqp
        · cases hq
        refine ⟨?_, q, hq⟩
        rintro rfl
        exact hqp (h.shared_inj q p i hq hp)
      · rintro ⟨hij, q, hq⟩
        refine ⟨q, ?_⟩
        rw [getElem?_set_slot hlt, if_neg, hq]
        rintro rfl
        rw [hp] at hq
        cases hq
        exact hij rfl
    rw [hexists]
    by_cases he : id = dagId L dag
    · subst he
      rw [if_pos rfl]
      simp only [reduceCtorEq, false_iff]
      rintro ⟨⟨hij, q, hq⟩, d, hd, hd'⟩
      have hbodyq : r.bodyAt q = some (ofShared d) := by rw [bodyAt_shared hq, hd]; rfl
      have hqp := h.position_inj hbodyq hatp (by rw [slotId_ofShared, slotId_ofShared, hd'])
      rw [hqp, hp] at hq
      cases hq
      exact hij rfl
    · rw [if_neg he, h.shared_order]
      refine ⟨fun ⟨hq, d, hd, hd'⟩ => ⟨⟨?_, hq⟩, d, hd, hd'⟩,
        fun ⟨⟨_, hq⟩, hd⟩ => ⟨hq, hd⟩⟩
      rintro rfl
      rw [hj] at hd
      cases hd
      exact he hd'.symm

/-- Replacing a local body by one with its identity. -/
theorem bodyAt_modify {r : DagSlots L S I} (h : r.Aligned) (hp : r.slots[p]? = some (.localBody i))
    (update : L → L) (q : ℕ) :
    ({ r with locals := r.locals.modify i update } : DagSlots L S I).bodyAt q =
      if q = p then (r.bodyAt q).map update else r.bodyAt q := by
  cases hs : r.slots[q]? with
  | none =>
    rw [bodyAt_none hs, bodyAt_none (r := { r with locals := r.locals.modify i update }) hs]
    simp
  | some s =>
    cases s with
    | localBody k =>
      rw [bodyAt_local hs, bodyAt_local (r := { r with locals := r.locals.modify i update }) hs,
        List.getElem?_modify]
      by_cases hq : q = p
      · subst hq
        rw [hp] at hs
        cases hs
        simp
      · have hik : i ≠ k := by
          rintro rfl
          have hpos := (h.local_slot i p).mpr hp
          have hpos' := (h.local_slot i q).mpr hs
          exact hq (Option.some.inj (hpos'.symm.trans hpos))
        simp [hik, hq]
    | shared k =>
      rw [bodyAt_shared hs, bodyAt_shared (r := { r with locals := r.locals.modify i update }) hs,
        if_neg]
      rintro rfl
      rw [hp] at hs
      cases hs

theorem Aligned.modify {r : DagSlots L S I} (h : r.Aligned) {p i : ℕ}
    (hp : r.slots[p]? = some (.localBody i)) {update : L → L}
    (hkeeps : ∀ dag, slotId (update dag) = slotId dag) :
    ({ r with locals := r.locals.modify i update } : DagSlots L S I).Aligned := by
  have hmodify : ∀ (k : ℕ) (id : I),
      (∃ dag, (r.locals.modify i update)[k]? = some dag ∧ slotId dag = id) ↔
        ∃ dag, r.locals[k]? = some dag ∧ slotId dag = id := fun k id => by
    rw [List.getElem?_modify]
    cases r.locals[k]? with
    | none => simp
    | some dag => by_cases hik : i = k <;> simp [hik, hkeeps]
  refine ⟨?_, h.root_slot, h.local_slot, h.shared_slot, h.shared_inj, fun id q => ?_,
    fun id k => ?_, h.shared_order⟩
  · simp [h.positions_length]
  · rw [bodyAt_modify h hp, h.positions_eq]
    by_cases hq : q = p
    · rw [if_pos hq]
      cases r.bodyAt q <;> simp [hkeeps]
    · rw [if_neg hq]
  · exact (h.local_order id k).trans (and_congr_right fun _ => (hmodify k id).symm)

end DagSlots

end ProvenGraphcal
