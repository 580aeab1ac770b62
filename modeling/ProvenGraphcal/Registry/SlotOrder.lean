import ProvenGraphcal.Registry.SlotInvariant

/-!
# Registries over runs

What every registry keeps whatever it is asked, and the order of the local bodies that only
registries without localized handles keep.
-/

namespace ProvenGraphcal

open List (map_cons mem_append mem_cons mem_iff_getElem? mem_map mem_of_getElem?)
open Option (bind_eq_bind bind_eq_some_iff bind_some)

namespace DagSlots

open SlotBody

variable {L S I : Type} [LinearOrder I] [SlotBody L S I]

theorem localizedMut_local {r : DagSlots L S I} {p i : ℕ} (hp : r.slots[p]? = some (.localBody i))
    (update : L → L) :
    r.localizedMut p update = some { r with locals := r.locals.modify i update } := by
  rw [localizedMut, hp]
  rfl

theorem localizedMut_shared {r : DagSlots L S I} {p j : ℕ} {dag : S}
    (hp : r.slots[p]? = some (.shared j)) (hj : r.shared[j]? = some dag) (update : L → L) :
    r.localizedMut p update = some { r.localize p dag with
      locals := (r.localize p dag).locals.modify r.locals.length update } := by
  unfold localizedMut
  rw [hp]
  simp only [bind_eq_bind, bind_some, hj]
  rfl

theorem slots_localize {r : DagSlots L S I} {p j : ℕ} {dag : S}
    (hp : r.slots[p]? = some (.shared j)) :
    (r.localize p dag).slots[p]? = some (.localBody r.locals.length) := by
  have hlt := (List.getElem?_eq_some_iff.mp hp).1
  rw [localize, getElem?_set_slot hlt, if_pos rfl]

/-- A registry later in a run: it has the earlier one's positions, naming the same DAGs. -/
def Extends (r r' : DagSlots L S I) : Prop :=
  r.len ≤ r'.len ∧ ∀ p < r.len, (r'.bodyAt p).map slotId = (r.bodyAt p).map slotId

theorem Extends.refl (r : DagSlots L S I) : r.Extends r := ⟨le_rfl, fun _ _ => rfl⟩

theorem Extends.trans {r r' r'' : DagSlots L S I} (h : r.Extends r') (h' : r'.Extends r'') :
    r.Extends r'' :=
  ⟨h.1.trans h'.1, fun p hp => (h'.2 p (hp.trans_le h.1)).trans (h.2 p hp)⟩

theorem extends_push {r r' : DagSlots L S I} {dag : L} (hlen : r.len ≤ r'.len)
    (hbody : ∀ p, r'.bodyAt p = if p = r.slots.length then some dag else r.bodyAt p) :
    r.Extends r' := by
  refine ⟨hlen, fun p hp => ?_⟩
  rw [hbody, if_neg (Nat.ne_of_lt hp : p ≠ r.slots.length)]

/-- One operation keeps the containers aligned and every position's DAG. -/
theorem Aligned.apply {r r' : DagSlots L S I} (h : r.Aligned) {operation : Operation L S I}
    (happly : r.apply operation = some r') : r'.Aligned ∧ r.Extends r' := by
  cases operation with
  | pushLocal dag =>
    rw [DagSlots.apply] at happly
    cases hpush : r.pushLocal dag with
    | error e =>
      rw [hpush] at happly
      cases happly
      exact ⟨h, .refl r⟩
    | ok result =>
      obtain ⟨r'', n⟩ := result
      rw [hpush] at happly
      cases happly
      refine ⟨h.pushLocal hpush, extends_push ?_ (bodyAt_pushLocal h hpush)⟩
      obtain ⟨q, -, he⟩ := Checked.bind_eq_ok.mp hpush
      cases he
      simp [len]
  | pushShared dag =>
    rw [DagSlots.apply] at happly
    cases hpush : r.pushShared dag with
    | error e =>
      rw [hpush] at happly
      cases happly
      exact ⟨h, .refl r⟩
    | ok result =>
      obtain ⟨r'', n⟩ := result
      rw [hpush] at happly
      cases happly
      refine ⟨h.pushShared hpush, extends_push ?_ (bodyAt_pushShared h hpush)⟩
      obtain ⟨q, -, he⟩ := Checked.bind_eq_ok.mp hpush
      cases he
      simp [len]
  | localizedMut p update keeps =>
    rw [DagSlots.apply] at happly
    cases hs : r.slots[p]? with
    | none =>
      rw [localizedMut, hs] at happly
      cases happly
    | some s =>
      have hmap : ∀ (o : Option L) (q : ℕ),
          (if q = p then o.map update else o).map slotId = o.map slotId := fun o q => by
        split_ifs
        · rw [Option.map_map]
          exact congrArg (fun f => o.map f) (funext keeps)
        · rfl
      cases s with
      | localBody i =>
        rw [localizedMut_local hs] at happly
        cases happly
        refine ⟨h.modify hs keeps, le_rfl, fun q _ => ?_⟩
        rw [bodyAt_modify h hs, hmap]
      | shared j =>
        obtain ⟨dag, hj⟩ : ∃ dag, r.shared[j]? = some dag :=
          ⟨_, List.getElem?_eq_getElem (h.shared_slot p j hs)⟩
        rw [localizedMut_shared hs hj] at happly
        cases happly
        have hlocalized := h.localize hs hj
        have hslot : (r.localize p dag).slots[p]? = some (.localBody r.locals.length) :=
          slots_localize hs
        refine ⟨hlocalized.modify hslot keeps, ?_, fun q _ => ?_⟩
        · exact (List.length_set ..).ge
        · rw [bodyAt_modify hlocalized hslot, hmap, bodyAt_localize h hs hj]

theorem Aligned.run {r r' : DagSlots L S I} (h : r.Aligned)
    {operations : List (Operation L S I)} (hrun : DagSlots.run r operations = some r') :
    r'.Aligned ∧ r.Extends r' := by
  induction operations generalizing r with
  | nil =>
    cases hrun
    exact ⟨h, .refl _⟩
  | cons operation rest ih =>
    rw [DagSlots.run, List.foldlM_cons] at hrun
    obtain ⟨r₁, happly, hrest⟩ := bind_eq_some_iff.mp hrun
    obtain ⟨h₁, hextends⟩ := h.apply happly
    obtain ⟨h', hextends'⟩ := ih h₁ hrest
    exact ⟨h', hextends.trans hextends'⟩

/-! ## What every registry keeps -/

/-- Positions and identities correspond, every DAG lives in one place, and visiting meets the root,
the other local bodies by identity and the imported handles by identity. -/
structure Placed (r : DagSlots L S I) : Prop where
  position_iff : ∀ (id : I) (p : ℕ), r.position id = some p ↔
    ∃ dag, r.bodyAt p = some dag ∧ slotId dag = id
  position_total : ∀ p < r.len, ∃ dag, r.bodyAt p = some dag
  one_place : ∀ id, r.contains id = true →
    Xor (∃ dag ∈ r.localsMut, slotId dag = id) (∃ dag, r.sharedHandle id = some dag)
  locals_nodup : (r.localsMut.map slotId).Nodup
  visits : ∃ (root : I × L) (locals shared : List (I × L)),
    r.iter = some (root :: locals ++ shared) ∧ r.root = some root.2 ∧
      (locals.map Prod.fst).Pairwise (· < ·) ∧ (shared.map Prod.fst).Pairwise (· < ·) ∧
      (∀ id, id ∈ locals.map Prod.fst ↔ id ≠ root.1 ∧ ∃ dag ∈ r.localsMut, slotId dag = id) ∧
      (∀ id, id ∈ shared.map Prod.fst ↔ ∃ dag, r.sharedHandle id = some dag) ∧
      (∀ e ∈ root :: locals ++ shared, (r.position e.1).bind r.bodyAt = some e.2) ∧
      ((root :: locals ++ shared).map Prod.fst).Nodup

/-- The local bodies stand in position order, and the handles left after them are the imported
ones. -/
structure InPositionOrder (r : DagSlots L S I) : Prop where
  locals_order : r.localsMut.Pairwise fun a b => ∀ p q : ℕ, r.position (slotId a) = some p →
    r.position (slotId b) = some q → p < q
  into_locals : r.intoLocals.1 = r.localsMut
  handles_nodup : (r.intoLocals.2.map (dagId L)).Nodup
  handles : ∀ id, id ∈ r.intoLocals.2.map (dagId L) ↔ ∃ dag, r.sharedHandle id = some dag

namespace Aligned

variable {r : DagSlots L S I}

section

variable (h : r.Aligned)

include h

theorem sharedHandle_eq {id : I} {dag : S} : r.sharedHandle id = some dag ↔
    dagId L dag = id ∧ ∃ p j : ℕ, r.slots[p]? = some (Slot.shared j) ∧ r.shared[j]? = some dag := by
  unfold sharedHandle
  rw [bind_eq_some_iff]
  constructor
  · rintro ⟨j, hj, hdag⟩
    obtain ⟨⟨p, hp⟩, d, hd, hid⟩ := (h.shared_order id j).mp hj
    rw [hdag] at hd
    cases hd
    exact ⟨hid, p, j, hp, hdag⟩
  · rintro ⟨hid, p, j, hp, hdag⟩
    exact ⟨j, (h.shared_order id j).mpr ⟨⟨p, hp⟩, dag, hdag, hid⟩, hdag⟩

theorem mem_locals {id : I} : (∃ dag ∈ r.localsMut, slotId dag = id) ↔
    ∃ p i : ℕ, r.slots[p]? = some (Slot.localBody i) ∧ r.positions id = some p := by
  constructor
  · rintro ⟨dag, hmem, rfl⟩
    obtain ⟨i, hi⟩ := mem_iff_getElem?.mp hmem
    obtain ⟨p, hp, hbody⟩ := h.local_position hi
    exact ⟨p, i, hp, (h.positions_eq _ p).mpr ⟨dag, hbody, rfl⟩⟩
  · rintro ⟨p, i, hp, hpos⟩
    obtain ⟨dag, hbody, hid⟩ := (h.positions_eq id p).mp hpos
    rw [bodyAt_local hp] at hbody
    exact ⟨dag, mem_of_getElem? hbody, hid⟩

theorem mem_handles {id : I} : (∃ dag, r.sharedHandle id = some dag) ↔
    ∃ p j : ℕ, r.slots[p]? = some (Slot.shared j) ∧ r.positions id = some p := by
  constructor
  · rintro ⟨dag, hdag⟩
    obtain ⟨hid, p, j, hp, hj⟩ := h.sharedHandle_eq.mp hdag
    refine ⟨p, j, hp, (h.positions_eq id p).mpr ⟨ofShared dag, ?_, ?_⟩⟩
    · rw [bodyAt_shared hp, hj]
      rfl
    · rw [slotId_ofShared, hid]
  · rintro ⟨p, j, hp, hpos⟩
    obtain ⟨dag, hbody, hid⟩ := (h.positions_eq id p).mp hpos
    rw [bodyAt_shared hp] at hbody
    obtain ⟨s, hs, rfl⟩ := Option.map_eq_some_iff.mp hbody
    rw [slotId_ofShared] at hid
    exact ⟨s, h.sharedHandle_eq.mpr ⟨hid, p, j, hp, hs⟩⟩

theorem one_place {id : I} (hid : r.contains id = true) :
    Xor (∃ dag ∈ r.localsMut, slotId dag = id) (∃ dag, r.sharedHandle id = some dag) := by
  obtain ⟨p, hp⟩ := Option.isSome_iff_exists.mp hid
  obtain ⟨dag, hbody, -⟩ := (h.positions_eq id p).mp hp
  have hlt := bodyAt_lt hbody
  have hslot : r.slots[p]? = some r.slots[p] := List.getElem?_eq_getElem hlt
  rw [h.mem_locals, h.mem_handles]
  cases hs : r.slots[p] with
  | localBody i =>
    rw [hs] at hslot
    refine .inl ⟨⟨p, i, hslot, hp⟩, ?_⟩
    rintro ⟨q, j, hq, hpos⟩
    rw [hp] at hpos
    cases hpos
    rw [hslot] at hq
    cases hq
  | shared j =>
    rw [hs] at hslot
    refine .inr ⟨⟨p, j, hslot, hp⟩, ?_⟩
    rintro ⟨q, i, hq, hpos⟩
    rw [hp] at hpos
    cases hpos
    rw [hslot] at hq
    cases hq

theorem locals_nodup : (r.localsMut.map slotId).Nodup := by
  refine List.nodup_iff_injective_get.mpr fun i j hij => ?_
  obtain ⟨i, hi⟩ := i
  obtain ⟨j, hj⟩ := j
  have hi' : i < r.locals.length := by simpa [localsMut] using hi
  have hj' : j < r.locals.length := by simpa [localsMut] using hj
  have hid : slotId r.locals[i] = slotId r.locals[j] := by simpa [localsMut] using hij
  exact Fin.ext (h.local_inj (List.getElem?_eq_getElem hi') (List.getElem?_eq_getElem hj') hid)

end

/-- The entries an identity order visits, when every index it holds is in range. -/
theorem visit_entries {V : Type} (order : SortedMap I ℕ) (find : ℕ → Option V)
    (hfind : ∀ id i, order.get? id = some i → ∃ v, find i = some v) :
    ∃ visited : List (I × V), (order.entries.mapM fun e => (find e.2).map (e.1, ·)) =
        some visited ∧ visited.map Prod.fst = order.keys ∧
      ∀ e ∈ visited, ∃ i, order.get? e.1 = some i ∧ find i = some e.2 := by
  have hstep : ∀ e ∈ order.entries, ∃ v : I × V, (find e.2).map (e.1, ·) = some v ∧
      (v.1 = e.1 ∧ order.get? e.1 = some e.2 ∧ find e.2 = some v.2) := fun e he => by
    have hget := SortedMap.get?_eq_some.mpr he
    obtain ⟨v, hv⟩ := hfind e.1 e.2 hget
    exact ⟨(e.1, v), by rw [hv]; rfl, rfl, hget, hv⟩
  obtain ⟨visited, hvisited, hall⟩ := Checked.mapM_some_forall₂ hstep
  refine ⟨visited, hvisited, ?_, fun v hv => ?_⟩
  · refine List.ext_getElem? fun i => ?_
    rw [SortedMap.keys, List.getElem?_map, List.getElem?_map]
    rcases Nat.lt_or_ge i visited.length with hi | hi
    · have hi' : i < order.entries.length := hall.length_eq ▸ hi
      rw [List.getElem?_eq_getElem hi, List.getElem?_eq_getElem hi']
      exact congrArg some (hall.get hi' hi).1
    · rw [List.getElem?_eq_none hi, List.getElem?_eq_none (hall.length_eq ▸ hi)]
      rfl
  · obtain ⟨e, -, he, hget, hfind⟩ := Checked.exists_of_forall₂_right hall hv
    exact ⟨e.2, he ▸ hget, hfind⟩

/-- Visiting the local bodies meets each of them under its identity. -/
theorem mem_localIter (h : r.Aligned) : ∃ visited, r.localIter = some visited ∧
    ∀ e : I × L, e ∈ visited ↔ e.2 ∈ r.locals ∧ slotId e.2 = e.1 := by
  obtain ⟨root, hroot⟩ : ∃ root, r.locals[0]? = some root :=
    ⟨_, List.getElem?_eq_getElem h.locals_pos⟩
  obtain ⟨locals, hlocals, hkeys, hbodies⟩ := visit_entries r.localOrder
    (fun i => r.locals[i]?) fun id i hi => by
      obtain ⟨-, dag, hdag, -⟩ := (h.local_order id i).mp hi
      exact ⟨dag, hdag⟩
  have hvisited : r.localIter = some ((slotId root, root) :: locals) := by
    unfold localIter DagSlots.root
    rw [hroot]
    simp only [bind_eq_bind, bind_some]
    rw [hlocals]
    rfl
  refine ⟨_, hvisited, fun e => ⟨fun he => ?_, ?_⟩⟩
  · rcases mem_cons.mp he with rfl | he
    · exact ⟨mem_of_getElem? hroot, rfl⟩
    · obtain ⟨i, hi, hbody⟩ := hbodies e he
      obtain ⟨-, dag, hdag, hid⟩ := (h.local_order _ i).mp hi
      rw [hbody] at hdag
      cases hdag
      exact ⟨mem_of_getElem? hbody, hid⟩
  · rintro ⟨hmem, hid⟩
    obtain ⟨i, hi⟩ := mem_iff_getElem?.mp hmem
    by_cases hi0 : i = 0
    · subst hi0
      have he : root = e.2 := Option.some.inj (hroot.symm.trans hi)
      exact mem_cons.mpr (.inl (Prod.ext (by rw [← hid, ← he]) he.symm))
    · have hget : r.localOrder.get? e.1 = some i := (h.local_order e.1 i).mpr ⟨hi0, e.2, hi, hid⟩
      have hkey : e.1 ∈ locals.map Prod.fst := hkeys ▸ SortedMap.mem_keys.mpr ⟨i, hget⟩
      obtain ⟨e', he', hfst⟩ := mem_map.mp hkey
      obtain ⟨j, hj, hbody⟩ := hbodies e' he'
      rw [hfst, hget] at hj
      cases hj
      have he : e' = e := Prod.ext hfst (Option.some.inj (hbody.symm.trans hi))
      exact List.mem_cons_of_mem _ (he ▸ he')

theorem visits (h : r.Aligned) : ∃ (root : I × L) (locals shared : List (I × L)),
    r.iter = some (root :: locals ++ shared) ∧ r.root = some root.2 ∧
      (locals.map Prod.fst).Pairwise (· < ·) ∧ (shared.map Prod.fst).Pairwise (· < ·) ∧
      (∀ id, id ∈ locals.map Prod.fst ↔ id ≠ root.1 ∧ ∃ dag ∈ r.localsMut, slotId dag = id) ∧
      (∀ id, id ∈ shared.map Prod.fst ↔ ∃ dag, r.sharedHandle id = some dag) ∧
      (∀ e ∈ root :: locals ++ shared, (r.position e.1).bind r.bodyAt = some e.2) ∧
      ((root :: locals ++ shared).map Prod.fst).Nodup := by
  obtain ⟨root, hroot⟩ : ∃ root, r.locals[0]? = some root :=
    ⟨_, List.getElem?_eq_getElem h.locals_pos⟩
  obtain ⟨locals, hlocals, hlocalKeys, hlocalBodies⟩ := visit_entries r.localOrder
    (fun i => r.locals[i]?) fun id i hi => by
      obtain ⟨-, dag, hdag, -⟩ := (h.local_order id i).mp hi
      exact ⟨dag, hdag⟩
  obtain ⟨shared, hshared, hsharedKeys, hsharedBodies⟩ := visit_entries r.sharedOrder
    (fun j => r.shared[j]?) fun id j hj => by
      obtain ⟨-, dag, hdag, -⟩ := (h.shared_order id j).mp hj
      exact ⟨dag, hdag⟩
  have hkeys : (shared.map fun e => (e.1, (ofShared e.2 : L))).map Prod.fst =
      r.sharedOrder.keys := by
    rw [List.map_map, ← hsharedKeys]
    rfl
  have hmemLocal : ∀ id, id ∈ r.localOrder.keys ↔
      id ≠ slotId root ∧ ∃ dag ∈ r.localsMut, slotId dag = id := fun id => by
    rw [SortedMap.mem_keys]
    constructor
    · rintro ⟨i, hi⟩
      obtain ⟨hi0, dag, hdag, rfl⟩ := (h.local_order id i).mp hi
      exact ⟨fun he => hi0 (h.local_inj hdag hroot he), dag, mem_of_getElem? hdag, rfl⟩
    · rintro ⟨hne, dag, hmem, rfl⟩
      obtain ⟨i, hi⟩ := mem_iff_getElem?.mp hmem
      refine ⟨i, (h.local_order _ i).mpr ⟨?_, dag, hi, rfl⟩⟩
      rintro rfl
      exact hne (by rw [Option.some.inj (hi.symm.trans hroot)])
  have hmemShared : ∀ id, id ∈ r.sharedOrder.keys ↔ ∃ dag, r.sharedHandle id = some dag :=
    fun id => by
      rw [SortedMap.mem_keys]
      constructor
      · rintro ⟨j, hj⟩
        obtain ⟨-, dag, hdag, -⟩ := (h.shared_order id j).mp hj
        exact ⟨dag, by rw [sharedHandle, hj]; exact hdag⟩
      · rintro ⟨dag, hdag⟩
        obtain ⟨j, hj, -⟩ := bind_eq_some_iff.mp hdag
        exact ⟨j, hj⟩
  have hsortedKeys : ∀ order : SortedMap I ℕ, order.keys.Pairwise (· < ·) := fun order =>
    List.pairwise_map.mpr order.sorted
  have hrootMem : ∃ dag ∈ r.localsMut, slotId dag = slotId root :=
    ⟨root, mem_of_getElem? hroot, rfl⟩
  have hdisjoint : ∀ id, (∃ dag ∈ r.localsMut, slotId dag = id) →
      ¬ ∃ dag, r.sharedHandle id = some dag := fun id hlocal hhandle => by
    obtain ⟨p, i, hp, hpos⟩ := h.mem_locals.mp hlocal
    obtain ⟨q, j, hq, hpos'⟩ := h.mem_handles.mp hhandle
    rw [hpos] at hpos'
    cases hpos'
    rw [hp] at hq
    cases hq
  refine ⟨(slotId root, root), locals, shared.map fun e => (e.1, ofShared e.2), ?_, hroot, ?_, ?_,
    fun id => ?_, fun id => ?_, fun e he => ?_, ?_⟩
  · have hlocalIter : r.localIter = some ((slotId root, root) :: locals) := by
      unfold localIter DagSlots.root
      rw [hroot]
      simp only [bind_eq_bind, bind_some]
      rw [hlocals]
      rfl
    have hsharedIter : r.sharedIter = some shared := hshared
    unfold iter
    rw [hlocalIter, hsharedIter]
    rfl
  · rw [hlocalKeys]
    exact hsortedKeys _
  · rw [hkeys]
    exact hsortedKeys _
  · rw [hlocalKeys]
    exact hmemLocal id
  · rw [hkeys]
    exact hmemShared id
  · have hlookup : ∀ (p : ℕ) (dag : L), r.bodyAt p = some dag →
        (r.position (slotId dag)).bind r.bodyAt = some dag := fun p dag hp => by
      rw [position, (h.positions_eq _ p).mpr ⟨dag, hp, rfl⟩]
      exact hp
    rcases mem_append.mp he with he | he
    · rcases mem_cons.mp he with rfl | he
      · obtain ⟨p, -, hp⟩ := h.local_position hroot
        exact hlookup p root hp
      · obtain ⟨i, hi, hbody⟩ := hlocalBodies e he
        obtain ⟨-, dag, hdag, hid⟩ := (h.local_order _ i).mp hi
        rw [hbody] at hdag
        cases hdag
        obtain ⟨p, -, hp⟩ := h.local_position hbody
        rw [← hid]
        exact hlookup p e.2 hp
    · obtain ⟨s, hs, rfl⟩ := mem_map.mp he
      obtain ⟨j, hj, hbody⟩ := hsharedBodies s hs
      obtain ⟨⟨p, hp⟩, dag, hdag, hid⟩ := (h.shared_order _ j).mp hj
      rw [hbody] at hdag
      cases hdag
      have hat : r.bodyAt p = some (ofShared s.2) := by rw [bodyAt_shared hp, hbody]; rfl
      rw [← hid, ← slotId_ofShared (L := L)]
      exact hlookup p _ hat
  · rw [List.cons_append, map_cons, List.map_append, hlocalKeys, hkeys]
    refine List.nodup_cons.mpr ⟨fun hmem => ?_, ?_⟩
    · rcases mem_append.mp hmem with hmem | hmem
      · exact ((hmemLocal _).mp hmem).1 rfl
      · exact hdisjoint _ hrootMem ((hmemShared _).mp hmem)
    · refine List.nodup_append.mpr ⟨r.localOrder.keys_nodup, r.sharedOrder.keys_nodup, ?_⟩
      rintro id hid id' hid' rfl
      exact hdisjoint id ((hmemLocal id).mp hid).2 ((hmemShared id).mp hid')

/-- Visiting meets every DAG once, under its identity. -/
theorem mem_iter (h : r.Aligned) : ∃ visited, r.iter = some visited ∧
    (visited.map Prod.fst).Nodup ∧
      ∀ e : I × L, e ∈ visited ↔ (∃ p, r.bodyAt p = some e.2) ∧ slotId e.2 = e.1 := by
  obtain ⟨root, locals, shared, hiter, hroot, -, -, hlocals, hshared, hbodies, hnodup⟩ := h.visits
  refine ⟨_, hiter, hnodup, fun e => ⟨fun he => ?_, ?_⟩⟩
  · obtain ⟨p, hp, hbody⟩ := bind_eq_some_iff.mp (hbodies e he)
    obtain ⟨dag, hdag, hid⟩ := (h.positions_eq _ p).mp hp
    rw [hbody] at hdag
    cases hdag
    exact ⟨⟨p, hbody⟩, hid⟩
  · rintro ⟨⟨p, hbody⟩, hid⟩
    have hp : r.position e.1 = some p := (h.positions_eq _ p).mpr ⟨_, hbody, hid⟩
    have hkey : e.1 ∈ (root :: locals ++ shared).map Prod.fst := by
      rw [List.cons_append, map_cons, List.map_append, mem_cons, mem_append]
      rcases (h.one_place (show r.contains e.1 = true by
        rw [contains, show r.positions e.1 = some p from hp]; rfl)).or with hlocal | hhandle
      · by_cases heq : e.1 = root.1
        · exact .inl heq
        · exact .inr (.inl ((hlocals _).mpr ⟨heq, hlocal⟩))
      · exact .inr (.inr ((hshared _).mpr hhandle))
    obtain ⟨e', he', hfst⟩ := mem_map.mp hkey
    have hbody' := hbodies e' he'
    rw [hfst, hp, bind_some, hbody] at hbody'
    have heq : e = e' := Prod.ext hfst.symm (Option.some.inj hbody')
    exact heq ▸ he'

theorem placed (h : r.Aligned) : r.Placed where
  position_iff := h.positions_eq
  position_total _ hp := h.bodyAt_isSome hp
  one_place _ hid := h.one_place hid
  locals_nodup := h.locals_nodup
  visits := h.visits

end Aligned

/-! ## Registries without localized handles -/

/-- Local bodies joined in position order, and every handle still has its slot. -/
structure Unlocalized (r : DagSlots L S I) : Prop where
  positions_sorted : r.localPositions.Pairwise (· < ·)
  handles : ∀ j < r.shared.length, ∃ p : ℕ, r.slots[p]? = some (Slot.shared j)

theorem unlocalized_new (root : L) : (new root : DagSlots L S I).Unlocalized :=
  ⟨List.pairwise_singleton _ _, fun j hj => absurd hj (Nat.not_lt_zero j)⟩

theorem Unlocalized.apply {r r' : DagSlots L S I} (hu : r.Unlocalized) (h : r.Aligned)
    {operation : Operation L S I} (hop : ¬ r.Localizes operation)
    (happly : r.apply operation = some r') : r'.Unlocalized := by
  cases operation with
  | pushLocal dag =>
    rw [DagSlots.apply] at happly
    cases hpush : r.pushLocal dag with
    | error e =>
      rw [hpush] at happly
      cases happly
      exact hu
    | ok result =>
      obtain ⟨r'', n⟩ := result
      rw [hpush] at happly
      cases happly
      obtain ⟨q, hq, he⟩ := Checked.bind_eq_ok.mp hpush
      obtain ⟨-, rfl⟩ := nextPosition_eq_ok.mp hq
      cases he
      refine ⟨List.pairwise_append.mpr ⟨hu.positions_sorted, List.pairwise_singleton _ _, ?_⟩,
        fun j hj => ?_⟩
      · rintro p hp q hq
        obtain rfl := List.mem_singleton.mp hq
        obtain ⟨i, hi⟩ := mem_iff_getElem?.mp hp
        exact (List.getElem?_eq_some_iff.mp ((h.local_slot i p).mp hi)).1
      · obtain ⟨p, hp⟩ := hu.handles j hj
        exact ⟨p, List.getElem?_append_left (List.getElem?_eq_some_iff.mp hp).1 ▸ hp⟩
  | pushShared dag =>
    rw [DagSlots.apply] at happly
    cases hpush : r.pushShared dag with
    | error e =>
      rw [hpush] at happly
      cases happly
      exact hu
    | ok result =>
      obtain ⟨r'', n⟩ := result
      rw [hpush] at happly
      cases happly
      obtain ⟨q, hq, he⟩ := Checked.bind_eq_ok.mp hpush
      cases he
      refine ⟨hu.positions_sorted, fun j hj => ?_⟩
      rw [List.length_append, List.length_singleton, Nat.lt_succ_iff_lt_or_eq] at hj
      rcases hj with hj | rfl
      · obtain ⟨p, hp⟩ := hu.handles j hj
        exact ⟨p, List.getElem?_append_left (List.getElem?_eq_some_iff.mp hp).1 ▸ hp⟩
      · exact ⟨r.slots.length, by rw [getElem?_concat, if_pos rfl]⟩
  | localizedMut p update keeps =>
    rw [DagSlots.apply] at happly
    cases hs : r.slots[p]? with
    | none =>
      rw [localizedMut, hs] at happly
      cases happly
    | some s =>
      cases s with
      | localBody i =>
        rw [localizedMut_local hs] at happly
        cases happly
        exact ⟨hu.positions_sorted, hu.handles⟩
      | shared j => exact absurd ⟨j, hs⟩ hop

theorem Unlocalized.inPositionOrder {r : DagSlots L S I} (hu : r.Unlocalized) (h : r.Aligned) :
    r.InPositionOrder where
  locals_order := by
    rw [localsMut, List.pairwise_iff_getElem]
    intro i j hi hj hij p q hp hq
    have hat : ∀ (k : ℕ) (hk : k < r.locals.length) (n : ℕ),
        r.position (slotId r.locals[k]) = some n → r.localPositions[k]? = some n :=
      fun k hk n hn => by
        obtain ⟨m, hm, hbody⟩ := h.local_position (List.getElem?_eq_getElem hk)
        rw [position, (h.positions_eq _ m).mpr ⟨_, hbody, rfl⟩] at hn
        cases hn
        exact (h.local_slot k n).mpr hm
    obtain ⟨hip, hpi⟩ := List.getElem?_eq_some_iff.mp (hat i hi p hp)
    obtain ⟨hjq, hqj⟩ := List.getElem?_eq_some_iff.mp (hat j hj q hq)
    rw [← hpi, ← hqj]
    exact List.pairwise_iff_getElem.mp hu.positions_sorted i j hip hjq hij
  into_locals := rfl
  handles_nodup := by
    refine List.nodup_iff_injective_get.mpr fun i j hij => ?_
    obtain ⟨i, hi⟩ := i
    obtain ⟨j, hj⟩ := j
    have hi' : i < r.shared.length := by simpa [intoLocals] using hi
    have hj' : j < r.shared.length := by simpa [intoLocals] using hj
    have hid : dagId L r.shared[i] = dagId L r.shared[j] := by simpa [intoLocals] using hij
    obtain ⟨p, hp⟩ := hu.handles i hi'
    obtain ⟨q, hq⟩ := hu.handles j hj'
    have hbody := (bodyAt_shared hp).trans (congrArg _ (List.getElem?_eq_getElem hi'))
    have hbody' := (bodyAt_shared hq).trans (congrArg _ (List.getElem?_eq_getElem hj'))
    have hpq := h.position_inj hbody hbody' (by rw [slotId_ofShared, slotId_ofShared, hid])
    rw [hpq, hq] at hp
    cases hp
    rfl
  handles id := by
    constructor
    · intro hmem
      obtain ⟨dag, hdag, rfl⟩ := mem_map.mp hmem
      obtain ⟨j, hj⟩ := mem_iff_getElem?.mp hdag
      obtain ⟨p, hp⟩ := hu.handles j (List.getElem?_eq_some_iff.mp hj).1
      exact ⟨dag, h.sharedHandle_eq.mpr ⟨rfl, p, j, hp, hj⟩⟩
    · rintro ⟨dag, hdag⟩
      obtain ⟨hid, -, j, -, hj⟩ := h.sharedHandle_eq.mp hdag
      exact mem_map.mpr ⟨dag, mem_of_getElem? hj, hid⟩

/-- A localized handle stays among the handles that are left. -/
theorem not_inPositionOrder_of_localizes {r : DagSlots L S I} (h : r.Aligned)
    {operation : Operation L S I} (hop : r.Localizes operation) :
    ∃ r', r.apply operation = some r' ∧ ¬ r'.InPositionOrder := by
  cases operation with
  | pushLocal dag => exact hop.elim
  | pushShared dag => exact hop.elim
  | localizedMut p update keeps =>
    obtain ⟨j, hs⟩ := hop
    obtain ⟨dag, hj⟩ : ∃ dag, r.shared[j]? = some dag :=
      ⟨_, List.getElem?_eq_getElem (h.shared_slot p j hs)⟩
    refine ⟨_, localizedMut_shared hs hj update, fun horder => ?_⟩
    have hmem : dagId L dag ∈ r.shared.map (dagId L) :=
      List.mem_map_of_mem (mem_of_getElem? hj)
    obtain ⟨dag', hdag'⟩ := (horder.handles _).mp hmem
    rw [sharedHandle, localize, SortedMap.get?_set, slotId_ofShared, if_pos rfl] at hdag'
    cases hdag'

/-- What the registry's documentation promises of one registry. -/
def Documented (r : DagSlots L S I) : Prop := r.Placed ∧ r.InPositionOrder

theorem run_take_succ {r r' : DagSlots L S I} {operations : List (Operation L S I)} {n : ℕ}
    {operation : Operation L S I} (hn : operations[n]? = some operation)
    (hrun : r.run (operations.take n) = some r') :
    r.run (operations.take (n + 1)) = r'.apply operation := by
  obtain ⟨hlt, rfl⟩ := List.getElem?_eq_some_iff.mp hn
  rw [← List.take_concat_get' operations n hlt, run_append, hrun, bind_some, run,
    List.foldlM_cons]
  cases r'.apply operations[n] <;> rfl

/-- Over any run from a root, identities keep the positions handed out for them and every registry
is placed; all registries are as documented exactly when no imported handle is localized. -/
theorem dagSlots_run (root : L) (operations : List (Operation L S I)) :
    (∀ (m n : ℕ) (r r' : DagSlots L S I), m ≤ n → (new root).run (operations.take m) = some r →
      (new root).run (operations.take n) = some r' → r'.Placed ∧ r.Extends r') ∧
    ((∀ (n : ℕ) (r : DagSlots L S I), (new root).run (operations.take n) = some r →
        r.Documented) ↔
      ∀ (n : ℕ) (operation : Operation L S I) (r : DagSlots L S I),
        operations[n]? = some operation → (new root).run (operations.take n) = some r →
          ¬ r.Localizes operation) := by
  have haligned : ∀ (n : ℕ) (r : DagSlots L S I),
      (new root).run (operations.take n) = some r → r.Aligned := fun n r hr =>
    ((aligned_new root).run hr).1
  refine ⟨fun m n r r' hmn hr hr' => ?_, fun hdoc n operation r hn hr hop => ?_,
    fun hnone => ?_⟩
  · refine ⟨(haligned n r' hr').placed, ?_⟩
    obtain ⟨k, rfl⟩ := Nat.exists_eq_add_of_le hmn
    rw [List.take_add, run_append, hr, bind_some] at hr'
    exact ((haligned m r hr).run hr').2
  · obtain ⟨r', happly, hnot⟩ := not_inPositionOrder_of_localizes (haligned n r hr) hop
    exact hnot (hdoc (n + 1) r' ((run_take_succ hn hr).trans happly)).2
  · have hunlocalized : ∀ (n : ℕ) (r : DagSlots L S I),
        (new root).run (operations.take n) = some r → r.Unlocalized := fun n => by
      induction n with
      | zero =>
        intro r hr
        cases hr
        exact unlocalized_new root
      | succ n ih =>
        intro r hr
        cases hn : operations[n]? with
        | none =>
          have hlength := List.getElem?_eq_none_iff.mp hn
          rw [List.take_of_length_le (hlength.trans (Nat.le_succ n))] at hr
          exact ih r (by rwa [List.take_of_length_le hlength])
        | some operation =>
          cases hprev : (new root : DagSlots L S I).run (operations.take n) with
          | none =>
            obtain ⟨hlt, rfl⟩ := List.getElem?_eq_some_iff.mp hn
            rw [← List.take_concat_get' operations n hlt, run_append, hprev] at hr
            cases hr
          | some r₀ =>
            rw [run_take_succ hn hprev] at hr
            exact (ih r₀ hprev).apply (haligned n r₀ hprev) (hnone n operation r₀ hn hprev) hr
    intro n r hr
    exact ⟨(haligned n r hr).placed, (hunlocalized n r hr).inPositionOrder (haligned n r hr)⟩

/-- A body that is only its identity. -/
structure BareDag where
  id : ℕ

instance : SlotBody BareDag BareDag ℕ := ⟨id, BareDag.id, BareDag.id, fun _ => rfl⟩

/-- Localizing an import before a later local body leaves the local bodies out of position order
and the localized handle among the imported ones. -/
theorem localized_not_documented : ∃ r : DagSlots BareDag BareDag ℕ,
    (new ⟨0⟩).run [.pushShared ⟨1⟩, .pushLocal ⟨2⟩, .localizedMut 1 id fun _ => rfl] = some r ∧
      r.localsMut = [⟨0⟩, ⟨2⟩, ⟨1⟩] ∧ r.position 2 = some 2 ∧ r.position 1 = some 1 ∧
      r.intoLocals.2 = [⟨1⟩] ∧ ¬ (∃ dag, r.sharedHandle 1 = some dag) ∧ ¬ r.Documented := by
  refine ⟨_, rfl, rfl, rfl, rfl, rfl, fun ⟨dag, hdag⟩ => ?_, fun h => ?_⟩
  · cases hdag
  · obtain ⟨dag, hdag⟩ := (h.2.handles 1).mp (List.mem_singleton.mpr rfl)
    cases hdag

end DagSlots

end ProvenGraphcal
