import ProvenGraphcal.Schedule.RuntimeSchedule

/-!
# Units in order

Contracting the accepted cyclic components leaves an acyclic graph exactly when every cyclic
component is accepted, and an order of the units of that graph orders the declarations.
-/

set_option linter.unusedSectionVars false

namespace ProvenGraphcal

open Relation DependencyOrder FirstSeen
open List (mem_append mem_filter mem_map mem_map_of_mem mem_of_getElem? mem_singleton)

variable {K D R : Type} [DecidableEq K]

/-- "`a` reads `b`", both scheduled. -/
def Reads (nodes : List K) (dependencies : K → List K) (a b : K) : Prop :=
  a ∈ nodes ∧ b ∈ nodes ∧ b ∈ dependencies a

/-- The check accepts the component with this plan. -/
def Accepted (owners : K → Option D)
    (check : List (K × D) → Except (ComponentRejection R) (RecurrenceGroupPlan K)) (c : List K)
    (plan : RecurrenceGroupPlan K) : Prop :=
  ∃ members, (c.mapM fun d => (owners d).map (d, ·)) = some members ∧ check members = .ok plan

section Statement

variable (nodes : List K) (dependencies : K → List K) (owners : K → Option D)
  (check : List (K × D) → Except (ComponentRejection R) (RecurrenceGroupPlan K))

/-- The declarations a unit is made of: one that is on no cycle, or a cyclic component in
insertion order. -/
def StandsFor (c : List K) : ScheduleUnit K → Prop
  | .declaration d => c = [d] ∧ ¬ TransGen (Reads nodes dependencies) d d
  | .recurrence plan => IsCyclicComponent (Reads nodes dependencies) c ∧
      c.Sublist (firstSeen nodes) ∧ Accepted owners check c plan

/-- The units stand for `placed`: every declaration once, every cyclic component as a unit, and
every unit after what its members read outside it. -/
structure UnitsInOrder (units : List (ScheduleUnit K)) (placed : List (List K)) : Prop where
  stands : List.Forall₂ (fun unit c => StandsFor nodes dependencies owners check c unit) units
    placed
  once : placed.flatten.Perm (firstSeen nodes)
  groups : ∀ c, IsCyclicComponent (Reads nodes dependencies) c → c.Sublist (firstSeen nodes) →
    c ∈ placed
  inOrder : ∀ l c r, placed = l ++ c :: r → ∀ a ∈ c, ∀ b, Reads nodes dependencies a b →
    b ∈ c ∨ b ∈ l.flatten

structure ScheduleOutcome
    (result : Except (ScheduleRejection K R) (TopoOrder (ScheduleUnit K))) : Prop where
  ok_iff : (∃ units, result = .ok units) ↔
    ∀ c, IsCyclicComponent (Reads nodes dependencies) c → c.Sublist (firstSeen nodes) →
      ∃ plan, Accepted owners check c plan
  units : ∀ units, result = .ok units →
    ∃ placed, UnitsInOrder nodes dependencies owners check units.order placed

end Statement

variable {a : K}

theorem dependsBy_nodesThenEdges {keys : List K} {edges : List (K × K)} {b : K} :
    DependsBy (nodesThenEdges keys edges) a b ↔ a ∈ keys ∧ b ∈ keys ∧ (a, b) ∈ edges :=
  ⟨fun ⟨_, h⟩ => inserted_nodesThenEdges.mp h, fun h => ⟨(), inserted_nodesThenEdges.mpr h⟩⟩

theorem mem_edges {L : Type} {nodes : List K} {f : K → L} {targets : K → List L} {x y : L} :
    (x, y) ∈ (nodes.flatMap fun node => (targets node).map (f node, ·)) ↔
      ∃ a ∈ nodes, f a = x ∧ y ∈ targets a := by
  simp only [List.mem_flatMap, mem_map, Prod.mk.injEq]
  refine exists_congr fun a => and_congr_right fun _ => ?_
  exact ⟨fun ⟨y', hy, hx, he⟩ => ⟨hx, he ▸ hy⟩, fun ⟨hx, hy⟩ => ⟨y, hy, hx, rfl⟩⟩

variable {nodes : List K} {dependencies : K → List K} {owners : K → Option D}
  {check : List (K × D) → Except (ComponentRejection R) (RecurrenceGroupPlan K)}

theorem dependsBy_schedule :
    DependsBy (scheduleInsertions nodes dependencies) = Reads nodes dependencies := by
  funext a b
  refine propext (dependsBy_nodesThenEdges.trans ?_)
  refine and_congr_right fun ha => and_congr_right fun _ => ?_
  exact (mem_edges (f := id)).trans ⟨fun ⟨_, _, he, hb⟩ => he ▸ hb, fun hb => ⟨a, ha, rfl, hb⟩⟩

variable {groupOf : K → Option ℕ}

/-- The reads left once accepted groups are contracted. -/
theorem dependsBy_contracted {b : K} :
    DependsBy (contractedInsertions nodes dependencies groupOf) a b ↔
      Reads nodes dependencies a b ∧ ¬ insideGroup groupOf a b = true := by
  refine dependsBy_nodesThenEdges.trans ?_
  rw [Reads, and_assoc, and_assoc]
  refine and_congr_right fun ha => and_congr_right fun _ => (mem_edges (f := id)).trans ?_
  constructor
  · rintro ⟨a, -, rfl, hb⟩
    simpa using mem_filter.mp hb
  · rintro ⟨hb, hinside⟩
    exact ⟨a, ha, rfl, mem_filter.mpr ⟨hb, by simpa using hinside⟩⟩

theorem insideGroup_iff {b : K} :
    insideGroup groupOf a b = true ↔ ∃ g, groupOf a = some g ∧ groupOf b = some g := by
  unfold insideGroup
  cases groupOf a with
  | none => simp
  | some g => simp

variable {c : List K}

/-- Lists drawn in order from one list without duplicates are determined by their elements. -/
theorem eq_of_sublists {keys d : List K} (hkeys : keys.Nodup) (hc : c.Sublist keys)
    (hd : d.Sublist keys) (hmem : ∀ a, a ∈ c ↔ a ∈ d) : c = d := by
  have hfilter : ∀ {c keys : List K}, c.Sublist keys → keys.Nodup →
      keys.filter (fun a => decide (a ∈ c)) = c := by
    intro c keys hsub
    induction hsub with
    | slnil => exact fun _ => rfl
    | @cons c keys a hsub ih =>
      intro hnodup
      obtain ⟨ha, hnodup⟩ := List.nodup_cons.mp hnodup
      have hnot : a ∉ c := fun hmem => ha (hsub.subset hmem)
      rw [List.filter_cons, if_neg (by simpa using hnot)]
      exact ih hnodup
    | @cons_cons c keys a hsub ih =>
      intro hnodup
      obtain ⟨ha, hnodup⟩ := List.nodup_cons.mp hnodup
      have hrest : (keys.filter fun x => decide (x ∈ a :: c)) =
          keys.filter fun x => decide (x ∈ c) := by
        refine List.filter_congr fun x hx => ?_
        have hne : x ≠ a := fun heq => ha (heq ▸ hx)
        simp [hne]
      rw [List.filter_cons, if_pos (by simp), hrest, ih hnodup]
  rw [← hfilter hc hkeys, ← hfilter hd hkeys]
  exact List.filter_congr fun a _ => decide_eq_decide.mpr (hmem a)

/-- The components checked so far, of which `accepted` were accepted with their plans. -/
structure ChecksOf (owners : K → Option D)
    (check : List (K × D) → Except (ComponentRejection R) (RecurrenceGroupPlan K))
    (components : List (List K)) (accepted : List (List K × RecurrenceGroupPlan K))
    (checked : CheckedComponents K R) : Prop where
  plans : checked.plans = accepted.map Prod.snd
  accepts : ∀ e ∈ accepted, e.1 ∈ components ∧ Accepted owners check e.1 e.2
  refuses : ∀ c ∈ components, c ∉ accepted.map Prod.fst → ¬ ∃ plan, Accepted owners check c plan
  groupOf : ∀ d g, checked.groupOf d = some g ↔ ∃ e, accepted[g]? = some e ∧ d ∈ e.1

theorem ChecksOf.step {components : List (List K)}
    {accepted : List (List K × RecurrenceGroupPlan K)} {checked : CheckedComponents K R}
    (h : ChecksOf owners check components accepted checked)
    (hdisjoint : ∀ d ∈ components, ∀ a ∈ d, a ∉ c) (howners : ∀ a ∈ c, owners a ≠ none) :
    ∃ accepted' checked', checkComponent owners check checked c = some checked' ∧
      ChecksOf owners check (components ++ [c]) accepted' checked' := by
  have hmapM : ∀ d ∈ c, ∃ member, (owners d).map (d, ·) = some member ∧ True := by
    intro d hd
    obtain ⟨owner, howner⟩ := Option.ne_none_iff_exists'.mp (howners d hd)
    exact ⟨(d, owner), by rw [howner]; rfl, trivial⟩
  obtain ⟨members, hmembers, -⟩ := Checked.mapM_some_forall₂ hmapM
  unfold checkComponent
  rw [hmembers, Option.bind_eq_bind, Option.bind_some]
  cases hcheck : check members with
  | ok plan =>
    refine ⟨accepted ++ [(c, plan)], _, rfl, ?_, fun e he => ?_, fun d hd hnot => ?_,
      fun d g => ?_⟩
    · simp [CheckedComponents.accept, h.plans]
    · rcases mem_append.mp he with he | he
      · exact ⟨List.mem_append_left _ (h.accepts e he).1, (h.accepts e he).2⟩
      · rw [mem_singleton.mp he]
        exact ⟨by simp, members, hmembers, hcheck⟩
    · rw [List.map_append, mem_append, not_or] at hnot
      rcases mem_append.mp hd with hd | hd
      · exact h.refuses d hd hnot.1
      · exact absurd (by simpa using hd) hnot.2
    · have hlength : checked.plans.length = accepted.length := by rw [h.plans, List.length_map]
      change (if d ∈ c then some checked.plans.length else checked.groupOf d) = some g ↔ _
      rw [List.getElem?_append, hlength]
      constructor
      · intro hg
        split_ifs at hg with hd
        · obtain rfl := Option.some.inj hg
          exact ⟨(c, plan), by simp, hd⟩
        · obtain ⟨e, he, hmem⟩ := (h.groupOf d g).mp hg
          rw [if_pos (List.getElem?_eq_some_iff.mp he).1]
          exact ⟨e, he, hmem⟩
      · rintro ⟨e, he, hmem⟩
        split_ifs at he with hlt
        · have hnot := hdisjoint e.1 (h.accepts e (mem_of_getElem? he)).1 d hmem
          rw [if_neg hnot]
          exact (h.groupOf d g).mpr ⟨e, he, hmem⟩
        · rw [List.getElem?_singleton] at he
          split_ifs at he with hzero
          obtain rfl := Option.some.inj he
          rw [if_pos hmem, Option.some.injEq]
          omega
  | error rejection =>
    refine ⟨accepted, _, rfl, h.plans, fun e he => ?_, fun d hd hnot => ?_, h.groupOf⟩
    · exact ⟨List.mem_append_left _ (h.accepts e he).1, (h.accepts e he).2⟩
    · rcases mem_append.mp hd with hd | hd
      · exact h.refuses d hd hnot
      · rw [mem_singleton.mp hd]
        rintro ⟨plan, members', hmembers', hok⟩
        rw [hmembers] at hmembers'
        rw [← Option.some.inj hmembers', hcheck] at hok
        cases hok

theorem checksOf_foldlM (howners : ∀ a ∈ nodes, owners a ≠ none) {components rest : List (List K)}
    {accepted : List (List K × RecurrenceGroupPlan K)} {checked : CheckedComponents K R}
    (h : ChecksOf owners check components accepted checked)
    (hnodup : (components ++ rest).flatten.Nodup) (hnodes : ∀ c ∈ rest, ∀ a ∈ c, a ∈ nodes) :
    ∃ accepted' checked', rest.foldlM (checkComponent owners check) checked = some checked' ∧
      ChecksOf owners check (components ++ rest) accepted' checked' := by
  induction rest generalizing components accepted checked with
  | nil => exact ⟨accepted, checked, rfl, by rwa [List.append_nil]⟩
  | cons c rest ih =>
    have hdisjoint : ∀ d ∈ components, ∀ a ∈ d, a ∉ c := by
      intro d hd a ha hac
      rw [List.flatten_append, List.nodup_append] at hnodup
      exact hnodup.2.2 a (List.mem_flatten_of_mem hd ha) a
        (List.mem_flatten_of_mem List.mem_cons_self hac) rfl
    obtain ⟨accepted', checked', hstep, h'⟩ := h.step hdisjoint fun a ha =>
      howners a (hnodes c List.mem_cons_self a ha)
    have hassoc : components ++ c :: rest = (components ++ [c]) ++ rest := by simp
    rw [hassoc] at hnodup ⊢
    obtain ⟨accepted'', checked'', hrest, h''⟩ := ih h' hnodup fun d hd =>
      hnodes d (List.mem_cons_of_mem _ hd)
    exact ⟨accepted'', checked'', by rw [List.foldlM_cons, hstep]; exact hrest, h''⟩

/-! ## Contracting the accepted components -/

/-- The cyclic components of the declarations, in insertion order. -/
structure CyclicPartition (nodes : List K) (dependencies : K → List K)
    (components : List (List K)) : Prop where
  nodup : components.flatten.Nodup
  cyclic : ∀ c ∈ components, IsCyclicComponent (Reads nodes dependencies) c
  sublist : ∀ c ∈ components, c.Sublist (firstSeen nodes)
  cover : ∀ a, TransGen (Reads nodes dependencies) a a → ∃ c ∈ components, a ∈ c

variable {g : ℕ}

section Contract

variable {components : List (List K)} {accepted : List (List K × RecurrenceGroupPlan K)}
  {checked : CheckedComponents K R}

theorem CyclicPartition.mem_nodes (hp : CyclicPartition nodes dependencies components)
    (hc : c ∈ components) (ha : a ∈ c) : a ∈ nodes :=
  mem_firstSeen.mp ((hp.sublist c hc).subset ha)

/-- A cyclic component in insertion order is the component of any of its elements. -/
theorem CyclicPartition.eq_of_mem (hp : CyclicPartition nodes dependencies components) {d : List K}
    (hc : c ∈ components) (hd : IsCyclicComponent (Reads nodes dependencies) d)
    (hsub : d.Sublist (firstSeen nodes)) (hac : a ∈ c) (had : a ∈ d) : c = d :=
  eq_of_sublists (nodup_firstSeen nodes) (hp.sublist c hc) hsub fun b =>
    ((hp.cyclic c hc).component a hac b).trans (hd.component a had b).symm

section

variable (h : ChecksOf owners check components accepted checked)

include h

theorem ChecksOf.same_group (hp : CyclicPartition nodes dependencies components) {b : K}
    (ha : checked.groupOf a = some g) :
    checked.groupOf b = some g ↔ Mutual (Reads nodes dependencies) a b := by
  obtain ⟨e, he, hae⟩ := (h.groupOf a g).mp ha
  have hcomponent := (hp.cyclic e.1 (h.accepts e (mem_of_getElem? he)).1).component a hae b
  rw [h.groupOf, ← hcomponent]
  constructor
  · rintro ⟨e', he', hbe⟩
    rw [he] at he'
    rwa [Option.some.inj he']
  · exact fun hbe => ⟨e, he, hbe⟩

theorem ChecksOf.groupOf_of_accepted (hc : c ∈ accepted.map Prod.fst) (ha : a ∈ c) :
    ∃ g, checked.groupOf a = some g := by
  obtain ⟨e, he, rfl⟩ := mem_map.mp hc
  obtain ⟨g, hg⟩ := List.getElem?_of_mem he
  exact ⟨g, (h.groupOf a g).mpr ⟨e, hg, ha⟩⟩

/-- A cycle that is left lies in a component that was refused. -/
theorem refused_of_loop (hp : CyclicPartition nodes dependencies components)
    (hloop : TransGen (DependsBy (contractedInsertions nodes dependencies checked.groupOf)) a a) :
    ∃ c ∈ components, a ∈ c ∧ c ∉ accepted.map Prod.fst := by
  have hreads : ∀ x y, DependsBy (contractedInsertions nodes dependencies checked.groupOf) x y →
      Reads nodes dependencies x y := fun x y hxy => (dependsBy_contracted.mp hxy).1
  obtain ⟨c, hc, hac⟩ := hp.cover a (TransGen.mono hreads _ _ hloop)
  refine ⟨c, hc, hac, fun haccepted => ?_⟩
  obtain ⟨g, hg⟩ := h.groupOf_of_accepted haccepted hac
  -- The first edge of the cycle stays in the group of `a`, so it was contracted.
  obtain ⟨w, haw, hwa⟩ := TransGen.head'_iff.mp hloop
  have hmutual : Mutual (Reads nodes dependencies) a w :=
    ⟨.single (hreads a w haw), ReflTransGen.mono hreads _ _ hwa⟩
  have hw := (h.same_group hp hg).mpr hmutual
  exact (dependsBy_contracted.mp haw).2 (insideGroup_iff.mpr ⟨g, hg, hw⟩)

/-- The cycles of a refused component are left. -/
theorem loop_of_refused (hp : CyclicPartition nodes dependencies components) (hc : c ∈ components)
    (hrefused : c ∉ accepted.map Prod.fst) (ha : a ∈ c) :
    TransGen (DependsBy (contractedInsertions nodes dependencies checked.groupOf)) a a := by
  have hnone : ∀ x ∈ c, checked.groupOf x = none := by
    intro x hx
    by_contra hne
    obtain ⟨g, hg⟩ := Option.ne_none_iff_exists'.mp hne
    obtain ⟨e, he, hxe⟩ := (h.groupOf x g).mp hg
    have hmem := mem_of_getElem? he
    have heq := hp.eq_of_mem (h.accepts e hmem).1 (hp.cyclic c hc) (hp.sublist c hc) hxe hx
    exact hrefused (heq ▸ mem_map_of_mem hmem)
  have hedge : ∀ x ∈ c, ∀ y, Reads nodes dependencies x y →
      DependsBy (contractedInsertions nodes dependencies checked.groupOf) x y := by
    intro x hx y hxy
    refine dependsBy_contracted.mpr ⟨hxy, fun hinside => ?_⟩
    obtain ⟨g, hg, -⟩ := insideGroup_iff.mp hinside
    rw [hnone x hx] at hg
    cases hg
  have hcomponent := (hp.cyclic c hc).component a ha
  -- Induction from the end of the path: its nodes are all on cycles through `a`.
  have hwalk : ∀ x, TransGen (Reads nodes dependencies) x a →
      ReflTransGen (Reads nodes dependencies) a x →
      TransGen (DependsBy (contractedInsertions nodes dependencies checked.groupOf)) x a := by
    intro x hxa
    induction hxa using TransGen.head_induction_on with
    | single hxa =>
      intro hax
      exact .single (hedge _ ((hcomponent _).mpr ⟨hax, .single hxa⟩) a hxa)
    | head hxy hya ih =>
      intro hax
      have hx := (hcomponent _).mpr ⟨hax, (TransGen.head hxy hya).to_reflTransGen⟩
      exact .head (hedge _ hx _ hxy) (ih (hax.tail hxy))
  exact hwalk a ((hp.cyclic c hc).cyclic a ha) .refl

end

theorem unitOf_eq_group :
    unitOf groupOf a = .group g ↔ groupOf a = some g := by
  unfold unitOf
  cases groupOf a <;> simp

theorem unitOf_eq_declaration {d : K} :
    unitOf groupOf a = .declaration d ↔ groupOf a = none ∧ a = d := by
  unfold unitOf
  cases groupOf a <;> simp

section

variable (h : ChecksOf owners check components accepted checked)

include h

theorem dependsBy_units (hp : CyclicPartition nodes dependencies components) {x y : UnitKey K} :
    DependsBy (unitInsertions nodes dependencies checked.groupOf) x y ↔
      Contracted (Reads nodes dependencies) (unitOf checked.groupOf) x y := by
  refine dependsBy_nodesThenEdges.trans ?_
  rw [mem_edges]
  constructor
  · rintro ⟨-, hy, a, ha, rfl, hmem⟩
    obtain ⟨hmem, hne⟩ := mem_filter.mp hmem
    obtain ⟨d, hd, rfl⟩ := mem_map.mp hmem
    obtain ⟨n, hn, heq⟩ := mem_map.mp hy
    -- The unit of the dependency is scheduled, so the dependency is.
    have hdnode : d ∈ nodes := by
      cases hgroup : checked.groupOf d with
      | some g =>
        obtain ⟨e, he, hde⟩ := (h.groupOf d g).mp hgroup
        exact hp.mem_nodes (h.accepts e (mem_of_getElem? he)).1 hde
      | none =>
        rw [(unitOf_eq_declaration (d := d)).mpr ⟨hgroup, rfl⟩] at heq
        exact (unitOf_eq_declaration.mp heq).2 ▸ hn
    exact ⟨Ne.symm (by simpa using hne), a, d, rfl, rfl, ha, hdnode, hd⟩
  · rintro ⟨hne, a, b, rfl, rfl, ha, hb, hab⟩
    refine ⟨mem_map_of_mem ha, mem_map_of_mem hb, a, ha, rfl, ?_⟩
    exact mem_filter.mpr ⟨mem_map_of_mem hab, by simpa using Ne.symm hne⟩

/-- With every cyclic component accepted, the units have no cycle. -/
theorem units_acyclic (hp : CyclicPartition nodes dependencies components)
    (hall : ∀ c ∈ components, c ∈ accepted.map Prod.fst) :
    ¬ ∃ path, IsCycle (DependsBy (unitInsertions nodes dependencies checked.groupOf)) path := by
  rintro ⟨path, hpath⟩
  obtain ⟨x, -, hloop⟩ := hpath.transGen
  have hcontracted := TransGen.mono (fun x y => (dependsBy_units h hp).mp) _ _ hloop
  refine not_transGen_contracted (fun a b heq => ?_) (fun a b hmutual => ?_) x hcontracted
  · cases ha : checked.groupOf a with
    | some g =>
      rw [unitOf_eq_group.mpr ha, eq_comm, unitOf_eq_group] at heq
      exact ((h.same_group hp ha).mp heq).1
    | none =>
      rw [(unitOf_eq_declaration (d := a)).mpr ⟨ha, rfl⟩, eq_comm, unitOf_eq_declaration] at heq
      rw [heq.2]
  · rcases reflTransGen_iff_eq_or_transGen.mp hmutual.1 with heq | hab
    · rw [heq]
    · obtain ⟨c, hc, hac⟩ := hp.cover a (hab.trans_left hmutual.2)
      obtain ⟨g, hg⟩ := h.groupOf_of_accepted (hall c hc) hac
      rw [unitOf_eq_group.mpr hg, eq_comm, unitOf_eq_group]
      exact (h.same_group hp hg).mpr hmutual

end

/-- The declarations of a unit. -/
def unitMembers (accepted : List (List K × RecurrenceGroupPlan K)) : UnitKey K → List K
  | .declaration d => [d]
  | .group g => ((accepted[g]?).map Prod.fst).getD []

theorem unitMembers_group {e : List K × RecurrenceGroupPlan K} (he : accepted[g]? = some e) :
    unitMembers accepted (.group g) = e.1 := by
  unfold unitMembers
  simp [he]

theorem mem_unitMembers (h : ChecksOf owners check components accepted checked) {n : K} :
    a ∈ unitMembers accepted (unitOf checked.groupOf n) ↔
      unitOf checked.groupOf a = unitOf checked.groupOf n := by
  cases hn : checked.groupOf n with
  | some g =>
    rw [unitOf_eq_group.mpr hn, unitOf_eq_group, h.groupOf]
    obtain ⟨e, he, -⟩ := (h.groupOf n g).mp hn
    rw [unitMembers_group he]
    simp [he]
  | none =>
    rw [(unitOf_eq_declaration (d := n)).mpr ⟨hn, rfl⟩, unitOf_eq_declaration]
    unfold unitMembers
    rw [mem_singleton]
    exact ⟨fun heq => ⟨heq ▸ hn, heq⟩, And.right⟩

end Contract

end ProvenGraphcal

/-!
# When a schedule is built

A callable is scheduled exactly when the check accepts each of its cyclic components, and then its
units stand in the order of their reads.
-/

set_option linter.unusedSectionVars false

namespace ProvenGraphcal

open Relation DependencyOrder FirstSeen

variable {K D R : Type} [DecidableEq K]
variable {nodes : List K} {dependencies : K → List K} {owners : K → Option D}
  {check : List (K × D) → Except (ComponentRejection R) (RecurrenceGroupPlan K)}

section Ordered

variable {components : List (List K)} {accepted : List (List K × RecurrenceGroupPlan K)}
  {checked : CheckedComponents K R}

theorem mem_unitInsertions {groupOf : K → Option ℕ} {x : UnitKey K} :
    x ∈ Insertion.nodesOf (unitInsertions nodes dependencies groupOf) ↔
      ∃ n ∈ nodes, unitOf groupOf n = x := by
  unfold unitInsertions
  rw [nodesOf_nodesThenEdges]
  exact List.mem_map

theorem orderContracted_of_cycle {cycle : Cycle K Unit}
    (hcontracted : (DependencyGraph.build
      (contractedInsertions nodes dependencies checked.groupOf)).intoTopoOrder =
        some (.error cycle)) :
    orderContracted nodes dependencies checked =
      some (.error (rejectionAt checked.rejections cycle)) := by
  unfold orderContracted
  dsimp only
  rw [hcontracted]
  rfl

theorem orderContracted_of_order {contracted : TopoOrder K} {order : TopoOrder (UnitKey K)}
    {units : List (ScheduleUnit K)}
    (hcontracted : (DependencyGraph.build
      (contractedInsertions nodes dependencies checked.groupOf)).intoTopoOrder =
        some (.ok contracted))
    (hunits : (DependencyGraph.build
      (unitInsertions nodes dependencies checked.groupOf)).intoTopoOrder = some (.ok order))
    (hmapM : order.order.mapM (scheduleUnit checked.plans) = some units) :
    orderContracted nodes dependencies checked = some (.ok ⟨units⟩) := by
  unfold orderContracted
  dsimp only
  rw [hcontracted, Option.bind_eq_bind, Option.bind_some]
  dsimp only
  rw [hunits, Option.bind_eq_bind, Option.bind_some]
  dsimp only
  rw [hmapM]
  rfl

section

variable (h : ChecksOf owners check components accepted checked)

include h

section

variable (hp : CyclicPartition nodes dependencies components)

include hp

/-- A scheduled unit stands for its members. -/
theorem standsFor_unit (hall : ∀ c ∈ components, c ∈ accepted.map Prod.fst) (n : K) :
    ∃ unit, scheduleUnit checked.plans (unitOf checked.groupOf n) = some unit ∧
      StandsFor nodes dependencies owners check
        (unitMembers accepted (unitOf checked.groupOf n)) unit := by
  cases hn : checked.groupOf n with
  | some g =>
    obtain ⟨e, he, -⟩ := (h.groupOf n g).mp hn
    obtain ⟨hmem, haccepts⟩ := h.accepts e (List.mem_of_getElem? he)
    rw [unitOf_eq_group.mpr hn]
    have hplan : checked.plans[g]? = some e.2 := by
      rw [h.plans, List.getElem?_map, he, Option.map_some]
    refine ⟨.recurrence e.2, congrArg (Option.map ScheduleUnit.recurrence) hplan, ?_⟩
    rw [unitMembers_group he]
    exact ⟨hp.cyclic e.1 hmem, hp.sublist e.1 hmem, haccepts⟩
  | none =>
    rw [(unitOf_eq_declaration (d := n)).mpr ⟨hn, rfl⟩]
    refine ⟨.declaration n, rfl, rfl, fun hloop => ?_⟩
    obtain ⟨c, hc, hnc⟩ := hp.cover n hloop
    obtain ⟨g, hg⟩ := h.groupOf_of_accepted (hall c hc) hnc
    rw [hn] at hg
    cases hg

/-- An order of the units orders the declarations they stand for. -/
theorem unitsInOrder_of_order (hall : ∀ c ∈ components, c ∈ accepted.map Prod.fst)
    {order : List (UnitKey K)} (hnodup : order.Nodup)
    (hmem : ∀ x, x ∈ order ↔ ∃ n ∈ nodes, unitOf checked.groupOf n = x)
    (horder : InOrder (DependsBy (unitInsertions nodes dependencies checked.groupOf)) order) :
    ∃ units, order.mapM (scheduleUnit checked.plans) = some units ∧
      UnitsInOrder nodes dependencies owners check units (order.map (unitMembers accepted)) := by
  have hunit : ∀ x ∈ order, ∃ unit, scheduleUnit checked.plans x = some unit ∧
      StandsFor nodes dependencies owners check (unitMembers accepted x) unit := by
    intro x hx
    obtain ⟨n, -, rfl⟩ := (hmem x).mp hx
    exact standsFor_unit h hp hall n
  obtain ⟨units, hunits, hstands⟩ := Checked.mapM_some_forall₂ hunit
  have hmembers : ∀ x ∈ order, ∀ a, a ∈ unitMembers accepted x ↔ unitOf checked.groupOf a = x := by
    intro x hx a
    obtain ⟨n, -, rfl⟩ := (hmem x).mp hx
    exact mem_unitMembers h
  have hnode : ∀ x ∈ order, ∀ a ∈ unitMembers accepted x, a ∈ nodes := by
    intro x hx a ha
    obtain ⟨n, hn, rfl⟩ := (hmem x).mp hx
    have heq := (mem_unitMembers h).mp ha
    cases hgroup : checked.groupOf a with
    | some g =>
      obtain ⟨e, he, hae⟩ := (h.groupOf a g).mp hgroup
      exact hp.mem_nodes (h.accepts e (List.mem_of_getElem? he)).1 hae
    | none =>
      rw [(unitOf_eq_declaration (d := a)).mpr ⟨hgroup, rfl⟩, eq_comm,
        unitOf_eq_declaration] at heq
      exact heq.2 ▸ hn
  refine ⟨units, hunits, ?_, ?_, fun c hc hsub => ?_, fun l c r heq a ha b hab => ?_⟩
  · rw [List.forall₂_map_right_iff]
    exact hstands.flip
  · have hunion : (order.map (unitMembers accepted)).flatten.Nodup := by
      rw [List.nodup_flatten]
      constructor
      · intro c hc
        obtain ⟨x, hx, rfl⟩ := List.mem_map.mp hc
        obtain ⟨unit, -, hstand⟩ := hunit x hx
        cases unit with
        | declaration d =>
          rw [hstand.1]
          exact List.nodup_singleton d
        | recurrence plan => exact hstand.1.nodup
      · rw [List.pairwise_map]
        refine hnodup.imp_of_mem fun {x y} hx hy hne a hax hay => hne ?_
        exact ((hmembers x hx a).mp hax).symm.trans ((hmembers y hy a).mp hay)
    refine (List.perm_ext_iff_of_nodup hunion (nodup_firstSeen nodes)).mpr fun a => ?_
    rw [mem_firstSeen, List.mem_flatten]
    constructor
    · rintro ⟨c, hc, hac⟩
      obtain ⟨x, hx, rfl⟩ := List.mem_map.mp hc
      exact hnode x hx a hac
    · intro ha
      have hx : unitOf checked.groupOf a ∈ order := (hmem _).mpr ⟨a, ha, rfl⟩
      exact ⟨_, List.mem_map_of_mem hx, (hmembers _ hx a).mpr rfl⟩
  · obtain ⟨a, ha⟩ := List.exists_mem_of_ne_nil c hc.nonempty
    obtain ⟨d, hd, had⟩ := hp.cover a (hc.cyclic a ha)
    obtain rfl := hp.eq_of_mem hd hc hsub had ha
    obtain ⟨e, he, rfl⟩ := List.mem_map.mp (hall d hd)
    obtain ⟨g, hg⟩ := List.getElem?_of_mem he
    have hx : UnitKey.group g ∈ order := by
      refine (hmem _).mpr ⟨a, hp.mem_nodes hd had, ?_⟩
      rw [unitOf_eq_group, h.groupOf]
      exact ⟨e, hg, had⟩
    rw [← unitMembers_group hg]
    exact List.mem_map_of_mem hx
  · obtain ⟨l', r', rfl, rfl, htail⟩ := List.map_eq_append_iff.mp heq
    obtain ⟨x, r'', rfl, rfl, rfl⟩ := List.map_eq_cons_iff.mp htail
    have hx : x ∈ l' ++ x :: r'' := by simp
    have hax := (hmembers x hx a).mp ha
    by_cases hbx : unitOf checked.groupOf b = x
    · exact .inl ((hmembers x hx b).mpr hbx)
    · have hdep := (dependsBy_units h hp).mpr ⟨Ne.symm hbx, a, b, hax, rfl, hab⟩
      have hbefore := horder l' x r'' rfl _ hdep
      have hmem' := (hmembers _ (List.mem_append_left _ hbefore) b).mpr rfl
      exact .inr (List.mem_flatten_of_mem (List.mem_map_of_mem hbefore) hmem')

theorem orderContracted_outcome :
    ∃ r, orderContracted nodes dependencies checked = some r ∧
      ScheduleOutcome nodes dependencies owners check r := by
  have hiff : (∀ c ∈ components, c ∈ accepted.map Prod.fst) ↔
      ∀ c, IsCyclicComponent (Reads nodes dependencies) c → c.Sublist (firstSeen nodes) →
        ∃ plan, Accepted owners check c plan := by
    constructor
    · intro hall c hc hsub
      obtain ⟨a, ha⟩ := List.exists_mem_of_ne_nil c hc.nonempty
      obtain ⟨d, hd, had⟩ := hp.cover a (hc.cyclic a ha)
      obtain rfl := hp.eq_of_mem hd hc hsub had ha
      obtain ⟨e, he, rfl⟩ := List.mem_map.mp (hall d hd)
      exact ⟨e.2, (h.accepts e he).2⟩
    · intro haccepts c hc
      by_contra hnot
      exact h.refuses c hc hnot (haccepts c (hp.cyclic c hc) (hp.sublist c hc))
  obtain ⟨contracted, hcontracted, houtcome⟩ := topoOrder_outcome
    (contractedInsertions nodes dependencies checked.groupOf)
  obtain ⟨unitOrder, hunitOrder, hunits⟩ := topoOrder_outcome
    (unitInsertions nodes dependencies checked.groupOf)
  cases hcase : contracted with
  | error cycle =>
    -- A cycle is left, so some component was refused.
    refine ⟨_, orderContracted_of_cycle (hcontracted.trans (congrArg some hcase)),
      iff_of_false nofun fun haccepts => ?_, nofun⟩
    obtain ⟨hcycle, -⟩ := houtcome.cycle cycle hcase
    obtain ⟨a, -, hloop⟩ := hcycle.transGen
    obtain ⟨c, hc, -, hrefused⟩ := refused_of_loop h hp hloop
    exact hrefused (hiff.mpr haccepts c hc)
  | ok order =>
    have hall : ∀ c ∈ components, c ∈ accepted.map Prod.fst := by
      intro c hc
      by_contra hrefused
      obtain ⟨a, ha⟩ := List.exists_mem_of_ne_nil c (hp.cyclic c hc).nonempty
      obtain ⟨-, hmem, hinOrder⟩ := houtcome.order order hcase
      have hloop := loop_of_refused h hp hc hrefused ha
      refine hinOrder.not_transGen a ((hmem a).mpr ?_) hloop
      unfold contractedInsertions
      rw [nodesOf_nodesThenEdges]
      exact hp.mem_nodes hc ha
    obtain ⟨o, ho⟩ := hunits.ok_iff.mpr (units_acyclic h hp hall)
    obtain ⟨hnodup, hmem, hinOrder⟩ := hunits.order o ho
    obtain ⟨units, hmapM, hplaced⟩ := unitsInOrder_of_order h hp hall hnodup
      (fun x => (hmem x).trans mem_unitInsertions) hinOrder
    have hresult := orderContracted_of_order (hcontracted.trans (congrArg some hcase))
      (hunitOrder.trans (congrArg some ho)) hmapM
    refine ⟨_, hresult, iff_of_true ⟨_, rfl⟩ (hiff.mp hall), fun result hr => ?_⟩
    cases hr
    exact ⟨_, hplaced⟩

end

end

end Ordered

/-! ## Ordering the units -/

theorem depKeys_schedule : (DependencyGraph.build
    (scheduleInsertions nodes dependencies)).DepKeys = Reads nodes dependencies :=
  (depKeys_eq (records_build _)).trans dependsBy_schedule

theorem cyclicPartition_schedule :
    ∃ components, (DependencyGraph.build
      (scheduleInsertions nodes dependencies)).cyclicComponents = some components ∧
      CyclicPartition nodes dependencies components := by
  obtain ⟨components, hcomponents, hnodup, hcyclic, hcover⟩ := GraphTables.cyclicComponents_spec
    (DependencyGraph.build (scheduleInsertions nodes dependencies)).consistent
  rw [depKeys_schedule] at hcyclic hcover
  have hkeys : (DependencyGraph.build (scheduleInsertions nodes dependencies)).keys =
      firstSeen nodes := keys_nodesThenEdges _ _
  rw [hkeys] at hcyclic
  exact ⟨components, hcomponents, hnodup, fun c hc => (hcyclic c hc).1,
    fun c hc => (hcyclic c hc).2, hcover⟩

/-- Without cyclic components, every declaration is a unit. -/
theorem unitsInOrder_of_acyclic (hp : CyclicPartition nodes dependencies []) {order : List K}
    (hnodup : order.Nodup) (hmem : ∀ a, a ∈ order ↔ a ∈ nodes)
    (horder : InOrder (Reads nodes dependencies) order) :
    UnitsInOrder nodes dependencies owners check (order.map ScheduleUnit.declaration)
      (order.map ([·])) := by
  have hloop : ∀ a, ¬ TransGen (Reads nodes dependencies) a a := fun a ha => by
    obtain ⟨c, hc, -⟩ := hp.cover a ha
    cases hc
  have hflatten : ∀ l : List K, (l.map ([·])).flatten = l := fun l => by
    induction l with
    | nil => rfl
    | cons a l ih => rw [List.map_cons, List.flatten_cons, ih, List.singleton_append]
  refine ⟨?_, ?_, fun c hc _ => ?_, fun l c r heq a ha b hab => ?_⟩
  · rw [List.forall₂_map_left_iff, List.forall₂_map_right_iff, List.forall₂_same]
    exact fun a _ => ⟨rfl, hloop a⟩
  · rw [hflatten]
    refine (List.perm_ext_iff_of_nodup hnodup (nodup_firstSeen nodes)).mpr fun a => ?_
    rw [hmem, mem_firstSeen]
  · obtain ⟨a, ha⟩ := List.exists_mem_of_ne_nil c hc.nonempty
    exact absurd (hc.cyclic a ha) (hloop a)
  · obtain ⟨l', r', rfl, rfl, htail⟩ := List.map_eq_append_iff.mp heq
    obtain ⟨x, r'', rfl, rfl, rfl⟩ := List.map_eq_cons_iff.mp htail
    obtain rfl := List.mem_singleton.mp ha
    right
    rw [hflatten]
    exact horder l' a r'' rfl b hab

theorem orderUnits_outcome (howners : ∀ a ∈ nodes, owners a ≠ none) :
    ∃ r, orderUnits nodes owners dependencies check = some r ∧
      ScheduleOutcome nodes dependencies owners check r := by
  obtain ⟨components, hcomponents, hp⟩ : ∃ components, (DependencyGraph.build
      (scheduleInsertions nodes dependencies)).cyclicComponents = some components ∧
      CyclicPartition nodes dependencies components := cyclicPartition_schedule
  unfold orderUnits
  dsimp only
  rw [hcomponents]
  cases components with
  | nil =>
    obtain ⟨r, hr, houtcome⟩ := topoOrder_outcome (scheduleInsertions nodes dependencies)
    obtain ⟨order, rfl⟩ : ∃ order, r = .ok order := by
      refine houtcome.ok_iff.mpr ?_
      rintro ⟨path, hpath⟩
      obtain ⟨a, -, hloop⟩ := hpath.transGen
      rw [dependsBy_schedule] at hloop
      obtain ⟨c, hc, -⟩ := hp.cover a hloop
      cases hc
    obtain ⟨hnodup, hmem, hinOrder⟩ := houtcome.order order rfl
    rw [dependsBy_schedule] at hinOrder
    have hmem' : ∀ a, a ∈ order.order ↔ a ∈ nodes := fun a => by
      rw [hmem, scheduleInsertions, nodesOf_nodesThenEdges, Set.mem_ofPred_eq]
    refine ⟨.ok ⟨order.order.map .declaration⟩, ?_, iff_of_true ⟨_, rfl⟩ fun c hc _ => ?_,
      fun units hunits => ?_⟩
    · change (DependencyGraph.build (scheduleInsertions nodes dependencies)).intoTopoOrder >>=
        _ = _
      rw [hr]
      rfl
    · obtain ⟨a, ha⟩ := List.exists_mem_of_ne_nil c hc.nonempty
      obtain ⟨d, hd, -⟩ := hp.cover a (hc.cyclic a ha)
      cases hd
    · cases hunits
      exact ⟨_, unitsInOrder_of_acyclic hp hnodup hmem' hinOrder⟩
  | cons c components =>
    have hstart : ChecksOf owners check [] [] (.new : CheckedComponents K R) :=
      ⟨rfl, nofun, nofun, fun d g => iff_of_false nofun (by simp)⟩
    obtain ⟨accepted, checked, hfold, hchecks⟩ := checksOf_foldlM howners hstart
      (by rw [List.nil_append]; exact hp.nodup) fun d hd a ha => hp.mem_nodes hd ha
    obtain ⟨r, hr, houtcome⟩ := orderContracted_outcome hchecks hp
    refine ⟨r, ?_, houtcome⟩
    change (c :: components).foldlM (checkComponent owners check) .new >>= _ = _
    rw [hfold]
    exact hr

section Build

variable {DagId : Type} [LinearOrder DagId] {count : ℕ}

omit [DecidableEq K] in
theorem lastInserted_ne_none {V : Type} [DecidableEq K] {entries : List (K × V)} {a : K}
    (h : a ∈ entries.map Prod.fst) : lastInserted entries a ≠ none := by
  obtain ⟨e, he, rfl⟩ := List.mem_map.mp h
  unfold lastInserted
  rw [Ne, Option.map_eq_none_iff, List.find?_eq_none]
  intro hnone
  exact hnone e (List.mem_reverse.mpr he) (by simp)

/-- A schedule is built exactly when the check accepts every cyclic component of the scheduled
declarations, and then every declaration is in one unit and every unit after what it reads. -/
theorem runtimeSchedule_build (callable : Fin count) (dagAt : Fin count → DagTIR DagId K)
    (instancesOf : Fin count → List (Fin count))
    (check : List (K × DagTIR DagId K) →
      Except (ComponentRejection R) (RecurrenceGroupPlan K)) :
    ∃ r, RuntimeSchedule.build callable dagAt instancesOf check = some r ∧
      ScheduleOutcome (scheduledNodes (instanceClosure callable dagAt instancesOf))
        (fun decl =>
          (scheduledReads (instanceClosure callable dagAt instancesOf) decl).getD [])
        (scheduledOwners (instanceClosure callable dagAt instancesOf)) check
        (r.map RuntimeSchedule.units) := by
  have howners : ∀ a ∈ scheduledNodes (instanceClosure callable dagAt instancesOf),
      scheduledOwners (instanceClosure callable dagAt instancesOf) a ≠ none :=
    fun a ha => lastInserted_ne_none ha
  obtain ⟨r, hr, houtcome⟩ := orderUnits_outcome (R := R) howners
  have hunits : ∀ (dagIds : List DagId) reads, (r.map fun units =>
      RuntimeSchedule.mk dagIds units reads).map RuntimeSchedule.units = r := by
    intro dagIds reads
    cases r <;> rfl
  unfold RuntimeSchedule.build
  dsimp only
  rw [hr, Option.map_some]
  refine ⟨_, rfl, ?_⟩
  rw [hunits]
  exact houtcome

variable {callable : Fin count} {instancesOf : Fin count → List (Fin count)}

end Build

end ProvenGraphcal
