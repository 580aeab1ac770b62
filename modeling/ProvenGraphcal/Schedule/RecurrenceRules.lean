import ProvenGraphcal.Library.Rows
import ProvenGraphcal.Schedule.RuntimeSchedule

/-!
# Which groups are accepted

The rules of a recurrence group as one statement, and the check against it: what each pass accepts,
the plan of an accepted group, and the cycle that a rejected one reports.
-/

namespace ProvenGraphcal

open Relation

variable {N A G : Type} [LinearOrder G]

variable {callable : DagId N A} {form : ReadForm} {result : RecurrenceGroupPlan (ResolvedName N A)}

namespace GroupFacts

/-- A member reads another at the same step. -/
def SameStep (facts : GroupFacts N A G) (source target : facts.Position) : Prop :=
  ∃ read ∈ facts.reads, read.source = source ∧ read.target = target ∧
    read.form = .element .stepBinder

/-- What makes a candidate a recurrence group. -/
structure Recurrent (facts : GroupFacts N A G) : Prop where
  unfolds : ∃ position, facts.shape position = some .unfoldOver
  owner : ∀ position other, (facts.member position).owner = (facts.member other).owner
  axis : ∃ axis, ∀ position, (facts.member position).definition = .forOver axis ∨
    (facts.member position).definition = .unfoldOver axis
  noSelf : ∀ read ∈ facts.reads, read.source ≠ read.target
  keyed : ∀ read ∈ facts.reads, read.form = .element .stepBinder ∨
    facts.shape read.source = some .unfoldOver ∧ read.form = .element .previousBinder
  acyclic : ∀ position, ¬ TransGen facts.SameStep position position

variable {facts : GroupFacts N A G}

theorem mem_positions (position : facts.Position) : position ∈ facts.positions :=
  List.mem_finRange position

theorem shape_isSome_iff {definition : Definition N A G} :
    definition.shape.isSome ↔
      ∃ axis, definition = .forOver axis ∨ definition = .unfoldOver axis := by
  cases definition with
  | forOver axis => exact iff_of_true rfl ⟨axis, .inl rfl⟩
  | unfoldOver axis => exact iff_of_true rfl ⟨axis, .inr rfl⟩
  | otherFormula => exact iff_of_false nofun fun ⟨_, h⟩ => h.elim nofun nofun

/-- The first pass accepts members of one owner that all have a shape over one axis. -/
theorem checkMembers_eq_ok [DecidableEq (DagId N A)] [DecidableEq (GroupAxis N A G)] :
    facts.checkMembers callable = .ok () ↔
      (∀ position other, (facts.member position).owner = (facts.member other).owner) ∧
      (∀ position, (facts.shape position).isSome) ∧
      ∀ position other, (facts.member position).definition.axis =
        (facts.member other).definition.axis := by
  unfold checkMembers
  cases hfirst : facts.positions.head? with
  | none =>
    have hempty : facts.positions = [] := List.head?_eq_none_iff.mp hfirst
    have hnone : ∀ position : facts.Position, False := fun position =>
      List.ne_nil_of_mem (mem_positions position) hempty
    exact iff_of_true rfl ⟨fun position => (hnone position).elim,
      fun position => (hnone position).elim, fun position => (hnone position).elim⟩
  | some first =>
    dsimp only
    split_ifs with howner
    · obtain ⟨position, -, hne⟩ := List.any_eq_true.mp howner
      refine iff_of_false (fun h => ?_) fun h => of_decide_eq_true hne (h.1 position first)
      split at h <;> cases h
    · have howners : ∀ position, (facts.member position).owner = (facts.member first).owner := by
        intro position
        by_contra hne
        exact howner (List.any_eq_true.mpr ⟨position, mem_positions position, decide_eq_true hne⟩)
      have hsame : ∀ position other,
          (facts.member position).owner = (facts.member other).owner :=
        fun position other => (howners position).trans (howners other).symm
      split
      case h_1 position hshape =>
        have hshape := List.find?_some hshape
        refine iff_of_false nofun fun h => ?_
        rw [Option.isNone_iff_eq_none] at hshape
        have hsome := h.2.1 position
        rw [hshape] at hsome
        cases hsome
      case h_2 hshape =>
        have hshapes : ∀ position, (facts.shape position).isSome := by
          intro position
          have hnot := List.find?_eq_none.mp hshape position (mem_positions position)
          rwa [Bool.not_eq_true, Option.isNone_eq_false_iff] at hnot
        split
        case h_1 position haxis =>
          have haxis := List.find?_some haxis
          exact iff_of_false nofun fun h => of_decide_eq_true haxis (h.2.2 position first)
        case h_2 haxis =>
          have haxes : ∀ position, (facts.member position).definition.axis =
              (facts.member first).definition.axis := by
            intro position
            have hnot := List.find?_eq_none.mp haxis position (mem_positions position)
            simpa using hnot
          exact iff_of_true rfl ⟨hsame, hshapes, fun position other =>
            (haxes position).trans (haxes other).symm⟩

/-- The second pass accepts reads of other members that are all classified. -/
theorem classifyReads_eq_ok {accesses : List StepAccess} :
    facts.classifyReads = .ok accesses ↔
      (∀ read ∈ facts.reads, read.source ≠ read.target) ∧
      List.Forall₂ (fun read access => facts.readAccess read = some access) facts.reads
        accesses := by
  unfold classifyReads
  split
  case h_1 read hself =>
    have hmem := List.mem_of_find?_eq_some hself
    have hself := List.find?_some hself
    exact iff_of_false nofun fun h => h.1 read hmem (of_decide_eq_true hself)
  case h_2 hself =>
    have hother : ∀ read ∈ facts.reads, read.source ≠ read.target := fun read hread heq =>
      List.find?_eq_none.mp hself read hread (decide_eq_true heq)
    rw [Checked.mapM_eq_ok, and_iff_right hother]
    constructor
    · refine fun h => h.imp fun read access hread => ?_
      split at hread
      · rename_i found hfound
        cases hread
        exact hfound
      · cases hread
    · refine fun h => h.imp fun read access hread => ?_
      rw [hread]

theorem access_eq_same {shape : RecurrenceShape} :
    access shape form = some .same ↔ form = .element .stepBinder := by
  unfold access
  split
  · exact iff_of_true rfl rfl
  · exact iff_of_false nofun nofun
  · rename_i hstep _
    exact iff_of_false nofun hstep

theorem access_eq_previous {shape : RecurrenceShape} :
    access shape form = some .previous ↔
      shape = .unfoldOver ∧ form = .element .previousBinder := by
  unfold access
  split
  · exact iff_of_false nofun nofun
  · exact iff_of_true rfl ⟨rfl, rfl⟩
  · rename_i hprevious
    exact iff_of_false nofun fun h => hprevious h.1 h.2

variable {read : ReadFact facts.members.length}

theorem readAccess_eq_same (hshapes : ∀ position, (facts.shape position).isSome) :
    facts.readAccess read = some .same ↔ read.form = .element .stepBinder := by
  obtain ⟨shape, hshape⟩ := Option.isSome_iff_exists.mp (hshapes read.source)
  rw [readAccess, hshape, Option.bind_some, access_eq_same]

/-- A read is classified when it is keyed by a binder of its reader. -/
theorem readAccess_isSome (hshapes : ∀ position, (facts.shape position).isSome) :
    (∃ access, facts.readAccess read = some access) ↔ read.form = .element .stepBinder ∨
      facts.shape read.source = some .unfoldOver ∧ read.form = .element .previousBinder := by
  obtain ⟨shape, hshape⟩ := Option.isSome_iff_exists.mp (hshapes read.source)
  simp only [readAccess, hshape, Option.bind_some, Option.some.injEq]
  constructor
  · rintro ⟨access, haccess⟩
    cases access with
    | same => exact .inl (access_eq_same.mp haccess)
    | previous => exact .inr (access_eq_previous.mp haccess)
  · rintro (hsame | hprevious)
    · exact ⟨.same, access_eq_same.mpr hsame⟩
    · exact ⟨.previous, access_eq_previous.mpr hprevious⟩

/-- The pairs of a list with the values of its items. -/
theorem mem_zip_values {α β : Type} {f : α → Option β} {l : List α} {r : List β}
    (h : List.Forall₂ (fun a b => f a = some b) l r) {a : α} {b : β} :
    (a, b) ∈ l.zip r ↔ a ∈ l ∧ f a = some b := by
  induction h with
  | nil => exact iff_of_false List.not_mem_nil fun h => List.not_mem_nil h.1
  | @cons first found l r hfirst _ ih =>
    rw [List.zip_cons_cons, List.mem_cons, ih, List.mem_cons, Prod.mk.injEq]
    constructor
    · rintro (⟨rfl, rfl⟩ | ⟨hmem, hvalue⟩)
      · exact ⟨.inl rfl, hfirst⟩
      · exact ⟨.inr hmem, hvalue⟩
    · rintro ⟨rfl | hmem, hvalue⟩
      · exact .inl ⟨rfl, Option.some.inj (hvalue.symm.trans hfirst)⟩
      · exact .inr ⟨hmem, hvalue⟩

theorem exists_values {α β : Type} {f : α → Option β} {l : List α}
    (h : ∀ a ∈ l, ∃ b, f a = some b) :
    ∃ r, List.Forall₂ (fun a b => f a = some b) l r := by
  obtain ⟨r, -, hr⟩ := Checked.mapM_some_forall₂ fun a ha => (h a ha).imp fun b hb => ⟨hb, hb⟩
  exact ⟨r, hr⟩

section Classified

variable {accesses : List StepAccess}
  (haccesses : List.Forall₂ (fun read access => facts.readAccess read = some access) facts.reads
    accesses)

include haccesses

theorem mem_sameTargets (hshapes : ∀ position, (facts.shape position).isSome)
    {position target : facts.Position} :
    target ∈ facts.sameTargets accesses position ↔ facts.SameStep position target := by
  unfold sameTargets SameStep
  simp only [List.mem_map, List.mem_filter, Prod.exists, mem_zip_values haccesses,
    decide_eq_true_eq]
  constructor
  · rintro ⟨read, access, ⟨⟨hread, haccess⟩, rfl, rfl⟩, rfl⟩
    exact ⟨read, hread, rfl, rfl, (readAccess_eq_same hshapes).mp haccess⟩
  · rintro ⟨read, hread, rfl, rfl, hform⟩
    exact ⟨read, .same, ⟨⟨hread, (readAccess_eq_same hshapes).mpr hform⟩, rfl, rfl⟩, rfl⟩

end Classified

/-! ## Acceptance -/

theorem orderMembers_eq_ok {accesses : List StepAccess} {order : List facts.Position} :
    facts.orderMembers accesses = .ok order ↔
      greedyOrder (facts.sameTargets accesses) = .ok order := by
  unfold orderMembers
  split
  case h_1 found hfound => rw [hfound, Except.ok.injEq, Except.ok.injEq]
  case h_2 hstuck => exact absurd rfl (stuck_of_greedyOrder hstuck).ne_nil
  case h_3 stuck others hstuck =>
    rw [hstuck]
    refine iff_of_false (fun h => ?_) nofun
    split at h
    · rename_i hcycle
      exact extractCycle_ne_nil _ _ hcycle
    · cases h

theorem exists_orderMembers {accesses : List StepAccess}
    (haccesses : List.Forall₂ (fun read access => facts.readAccess read = some access) facts.reads
      accesses) (hshapes : ∀ position, (facts.shape position).isSome) :
    (∃ order, facts.orderMembers accesses = .ok order) ↔
      ∀ position, ¬ TransGen facts.SameStep position position := by
  have hsame : (fun a b => b ∈ facts.sameTargets accesses a) = facts.SameStep := by
    funext a b
    exact propext (mem_sameTargets haccesses hshapes)
  simp only [orderMembers_eq_ok]
  rw [exists_greedyOrder_iff, hsame]

/-- All members have a shape over one axis. -/
theorem exists_axis_iff (hsome : ∃ position, facts.shape position = some .unfoldOver) :
    (∃ axis, ∀ position, (facts.member position).definition = .forOver axis ∨
      (facts.member position).definition = .unfoldOver axis) ↔
      (∀ position, (facts.shape position).isSome) ∧
      ∀ position other, (facts.member position).definition.axis =
        (facts.member other).definition.axis := by
  have haxis : ∀ {definition : Definition N A G} {axis : GroupAxis N A G},
      definition.axis = some axis ↔ definition = .forOver axis ∨ definition = .unfoldOver axis := by
    intro definition axis
    cases definition with
    | forOver found => simp [Definition.axis]
    | unfoldOver found => simp [Definition.axis]
    | otherFormula => simp [Definition.axis]
  constructor
  · rintro ⟨axis, hall⟩
    exact ⟨fun position => shape_isSome_iff.mpr ⟨axis, hall position⟩,
      fun position other => (haxis.mpr (hall position)).trans (haxis.mpr (hall other)).symm⟩
  · rintro ⟨hshapes, haxes⟩
    obtain ⟨first, -⟩ := hsome
    obtain ⟨axis, hfirst⟩ := shape_isSome_iff.mp (hshapes first)
    exact ⟨axis, fun position => haxis.mp ((haxes position first).trans (haxis.mpr hfirst))⟩

variable [DecidableEq (DagId N A)] [DecidableEq (GroupAxis N A G)]

/-- What the passes of an accepted group return. -/
theorem checkGroup_eq_ok :
    checkGroup facts callable = .ok result ↔
      (∃ position, facts.shape position = some .unfoldOver) ∧
      facts.checkMembers callable = .ok () ∧
      ∃ accesses, facts.classifyReads = .ok accesses ∧
        ∃ order, facts.orderMembers accesses = .ok order ∧ result = facts.plan accesses order := by
  have hunfolds : (facts.positions.any fun position =>
      decide (facts.shape position = some .unfoldOver)) = true ↔
        ∃ position, facts.shape position = some .unfoldOver := by
    rw [List.any_eq_true]
    exact ⟨fun ⟨position, _, h⟩ => ⟨position, of_decide_eq_true h⟩,
      fun ⟨position, h⟩ => ⟨position, mem_positions position, decide_eq_true h⟩⟩
  unfold checkGroup
  split_ifs with h
  · rw [and_iff_right (hunfolds.mp h), Checked.bind_eq_ok]
    simp only [Checked.mapError_eq_ok, Checked.bind_eq_ok]
    constructor
    · rintro ⟨⟨⟩, hmembers, accesses, haccesses, order, horder, hresult⟩
      cases hresult
      exact ⟨hmembers, accesses, haccesses, order, horder, rfl⟩
    · rintro ⟨hmembers, accesses, haccesses, order, horder, rfl⟩
      exact ⟨(), hmembers, accesses, haccesses, order, horder, rfl⟩
  · exact iff_of_false nofun fun hrest => h (hunfolds.mpr hrest.1)

/-- A group is accepted exactly when it is recurrent. -/
theorem exists_checkGroup :
    (∃ result, checkGroup facts callable = .ok result) ↔ facts.Recurrent := by
  simp only [checkGroup_eq_ok]
  constructor
  · rintro ⟨-, hunfolds, hmembers, accesses, haccesses, order, horder, -⟩
    obtain ⟨howner, hshapes, haxes⟩ := checkMembers_eq_ok.mp hmembers
    obtain ⟨hself, hclassified⟩ := classifyReads_eq_ok.mp haccesses
    refine ⟨hunfolds, howner, (exists_axis_iff hunfolds).mpr ⟨hshapes, haxes⟩, hself, ?_,
      (exists_orderMembers hclassified hshapes).mp ⟨order, horder⟩⟩
    intro read hread
    obtain ⟨access, -, haccess⟩ := Checked.exists_of_forall₂_right hclassified.flip hread
    exact (readAccess_isSome hshapes).mp ⟨access, haccess⟩
  · intro h
    obtain ⟨hshapes, haxes⟩ := (exists_axis_iff h.unfolds).mp h.axis
    obtain ⟨accesses, hclassified⟩ : ∃ accesses, List.Forall₂
        (fun read access => facts.readAccess read = some access) facts.reads accesses := by
      have hall : ∀ read ∈ facts.reads, ∃ access, facts.readAccess read = some access :=
        fun read hread => (readAccess_isSome hshapes).mpr (h.keyed read hread)
      exact exists_values hall
    obtain ⟨order, horder⟩ := (exists_orderMembers hclassified hshapes).mpr h.acyclic
    exact ⟨_, h.unfolds, checkMembers_eq_ok.mpr ⟨h.owner, hshapes, haxes⟩, accesses,
      classifyReads_eq_ok.mpr ⟨h.noSelf, hclassified⟩, order, horder, rfl⟩

omit [DecidableEq (DagId N A)] [DecidableEq (GroupAxis N A G)] in
/-- Items collected once each. -/
theorem foldl_collect {α β : Type} [DecidableEq β] {f : α → β} {l : List α} {init : List β}
    (hinit : init.Nodup) :
    (l.foldl (fun found a => if f a ∈ found then found else found ++ [f a]) init).Nodup ∧
      ∀ b, b ∈ l.foldl (fun found a => if f a ∈ found then found else found ++ [f a]) init ↔
        b ∈ init ∨ ∃ a ∈ l, f a = b := by
  induction l generalizing init with
  | nil => exact ⟨hinit, fun b => by simp⟩
  | cons a l ih =>
    rw [List.foldl_cons]
    split_ifs with hfound
    · refine ⟨(ih hinit).1, fun b => ?_⟩
      rw [(ih hinit).2, List.exists_mem_cons_iff]
      exact ⟨fun h => h.imp_right .inr,
        fun h => h.elim .inl fun h => h.elim (fun heq => .inl (heq ▸ hfound)) .inr⟩
    · have hnodup : (init ++ [f a]).Nodup :=
        List.nodup_append_comm.mp (List.nodup_cons.mpr ⟨hfound, hinit⟩)
      refine ⟨(ih hnodup).1, fun b => ?_⟩
      rw [(ih hnodup).2, List.exists_mem_cons_iff, List.mem_append, List.mem_singleton, or_assoc,
        eq_comm]

/-- The reads of a member in the plan: its classified reads, by plan position. -/
structure PlansMember (facts : GroupFacts N A G) (order : List facts.Position)
    (position : facts.Position) (member : RecurrenceMember (ResolvedName N A)) : Prop where
  declaration : member.declaration = (facts.member position).identity
  shape : facts.shape position = some member.shape
  distinct : member.reads.Nodup
  reads : ∀ planned : GroupRead, planned ∈ member.reads ↔
    ∃ read ∈ facts.reads, read.source = position ∧ order.idxOf read.target = planned.target ∧
      access member.shape read.form = some planned.access

omit [DecidableEq (DagId N A)] [DecidableEq (GroupAxis N A G)] in
theorem plansMember_plan {accesses : List StepAccess}
    (haccesses : List.Forall₂ (fun read access => facts.readAccess read = some access) facts.reads
      accesses) (hshapes : ∀ position, (facts.shape position).isSome)
    (order : List facts.Position) (position : facts.Position) :
    PlansMember facts order position {
      declaration := (facts.member position).identity
      shape := (facts.shape position).getD .forOver
      reads := facts.planReads accesses order position } := by
  obtain ⟨shape, hshape⟩ := Option.isSome_iff_exists.mp (hshapes position)
  have hcollect := foldl_collect (β := GroupRead) (α := ReadFact facts.members.length × StepAccess)
    (f := fun entry => ⟨order.idxOf entry.1.target, entry.2⟩)
    (l := (facts.reads.zip accesses).filter fun entry => decide (entry.1.source = position))
    List.nodup_nil
  refine ⟨rfl, ?_, hcollect.1, fun planned => (hcollect.2 planned).trans ?_⟩
  · rw [hshape, Option.getD_some]
  · simp only [List.not_mem_nil, false_or, List.mem_filter, decide_eq_true_eq, Prod.exists,
      mem_zip_values haccesses]
    obtain ⟨target, step⟩ := planned
    constructor
    · rintro ⟨read, access, ⟨⟨hread, haccess⟩, rfl⟩, heq⟩
      cases heq
      rw [readAccess, hshape, Option.bind_some] at haccess
      exact ⟨read, hread, rfl, rfl, hshape ▸ haccess⟩
    · rintro ⟨read, hread, rfl, rfl, haccess⟩
      rw [hshape, Option.getD_some] at haccess
      refine ⟨read, step, ⟨⟨hread, ?_⟩, rfl⟩, rfl⟩
      rw [readAccess, hshape, Option.bind_some]
      exact haccess

/-- The plan of an accepted group. -/
theorem plan_of_checkGroup (h : checkGroup facts callable = .ok result) :
    ∃ order, order.Perm facts.positions ∧
      List.Forall₂ (PlansMember facts order) order result.members ∧
      ∀ source target, facts.SameStep source target →
        order.idxOf target < order.idxOf source := by
  obtain ⟨-, hmembers, accesses, haccesses, order, horder, rfl⟩ := checkGroup_eq_ok.mp h
  obtain ⟨-, hshapes, -⟩ := checkMembers_eq_ok.mp hmembers
  obtain ⟨-, hclassified⟩ := classifyReads_eq_ok.mp haccesses
  obtain ⟨hplaced, hall⟩ := greedyOrder_eq_ok (orderMembers_eq_ok.mp horder)
  refine ⟨order, ?_, ?_, fun source target hsame => ?_⟩
  · refine (List.perm_ext_iff_of_nodup hplaced.nodup (List.nodup_finRange _)).mpr fun position => ?_
    exact iff_of_true (hall position) (mem_positions position)
  · show List.Forall₂ _ order (order.map _)
    rw [List.forall₂_map_right_iff, List.forall₂_same]
    exact fun position _ => plansMember_plan hclassified hshapes order position
  · exact (hplaced.idxOf_lt (hall source) ((mem_sameTargets hclassified hshapes).mpr hsame)).2

variable {violation : Violation facts.members.length N}

theorem checkMembers_error (h : facts.checkMembers callable = .error violation) (cycle : List N) :
    violation.reason ≠ .sameStepCycle cycle := by
  unfold checkMembers at h
  dsimp only at h
  split at h
  · cases h
  · split_ifs at h
    · split at h <;> cases h <;> exact nofun
    · split at h
      · cases h
        exact nofun
      · split at h <;> cases h
        exact nofun

omit [DecidableEq (DagId N A)] [DecidableEq (GroupAxis N A G)] in
theorem classifyReads_error (h : facts.classifyReads = .error violation) (cycle : List N) :
    violation.reason ≠ .sameStepCycle cycle := by
  unfold classifyReads at h
  split at h
  · cases h
    exact nofun
  · obtain ⟨i, read, -, hread, -⟩ := Rows.mapM_eq_error_iff.mp h
    split at hread
    · cases hread
    · cases hread
      split <;> exact nofun

omit [DecidableEq (DagId N A)] [DecidableEq (GroupAxis N A G)] in
theorem orderMembers_error {accesses : List StepAccess}
    (haccesses : List.Forall₂ (fun read access => facts.readAccess read = some access) facts.reads
      accesses) (hshapes : ∀ position, (facts.shape position).isSome)
    (h : facts.orderMembers accesses = .error violation) :
    ∃ chain, ClosedChain facts.SameStep chain ∧
      violation.reason =
        .sameStepCycle (chain.map fun position => (facts.member position).name) := by
  have hsame : (fun a b => b ∈ facts.sameTargets accesses a) = facts.SameStep := by
    funext a b
    exact propext (mem_sameTargets haccesses hshapes)
  unfold orderMembers at h
  split at h
  case h_1 => cases h
  case h_2 hstuck => exact absurd rfl (stuck_of_greedyOrder hstuck).ne_nil
  case h_3 stuck others hstuck =>
    split at h
    case h_1 hcycle => exact absurd hcycle (extractCycle_ne_nil _ _)
    case h_2 start rest hcycle =>
      have hchain := closedChain_extractCycle (stuck_of_greedyOrder hstuck)
        (List.mem_cons_self (a := stuck))
      rw [hcycle, hsame] at hchain
      cases h
      exact ⟨start :: rest, hchain, rfl⟩

/-- A reported cycle is real. -/
theorem chain_of_checkGroup {report : ViolationReport N}
    (h : checkGroup facts callable = .error (.recurrence report)) {cycle : List N}
    (hcycle : report.reason = .sameStepCycle cycle) :
    ∃ chain, ClosedChain facts.SameStep chain ∧
      cycle = chain.map fun position => (facts.member position).name := by
  have hreport : ∀ violation, facts.report callable violation = .recurrence report →
      violation.reason = .sameStepCycle cycle := by
    intro violation hviolation
    unfold GroupFacts.report at hviolation
    split_ifs at hviolation
    cases hviolation
    exact hcycle
  unfold checkGroup at h
  split_ifs at h with hunfolds
  swap
  · cases h
  rcases Checked.bind_eq_error.mp h with h | ⟨⟨⟩, hmembers, h⟩
  · obtain ⟨violation, hviolation, heq⟩ := Checked.mapError_eq_error h
    exact absurd (hreport violation heq.symm) (checkMembers_error hviolation cycle)
  rcases Checked.bind_eq_error.mp h with h | ⟨accesses, haccesses, h⟩
  · obtain ⟨violation, hviolation, heq⟩ := Checked.mapError_eq_error h
    exact absurd (hreport violation heq.symm) (classifyReads_error hviolation cycle)
  rcases Checked.bind_eq_error.mp h with h | ⟨order, -, h⟩
  · obtain ⟨violation, hviolation, heq⟩ := Checked.mapError_eq_error h
    obtain ⟨-, hshapes, -⟩ := checkMembers_eq_ok.mp (Checked.mapError_eq_ok.mp hmembers)
    obtain ⟨-, hclassified⟩ := classifyReads_eq_ok.mp (Checked.mapError_eq_ok.mp haccesses)
    obtain ⟨chain, hchain, hreason⟩ := orderMembers_error hclassified hshapes hviolation
    refine ⟨chain, hchain, ?_⟩
    exact RecurrenceRejection.sameStepCycle.inj ((hreport violation heq.symm).symm.trans hreason)
  · cases h

/-- The same members and reads, listed in another order. -/
structure Relisted (facts other : GroupFacts N A G) (rename : facts.Position ≃ other.Position) :
    Prop where
  member : ∀ position, other.member (rename position) = facts.member position
  reads : ∀ read, read ∈ other.reads ↔ ∃ original ∈ facts.reads,
    read = ⟨rename original.source, rename original.target, original.form, original.span⟩

section Relisted

omit [DecidableEq (DagId N A)] [DecidableEq (GroupAxis N A G)]

variable {other : GroupFacts N A G} {rename : facts.Position ≃ other.Position}

section

variable (h : Relisted facts other rename)

include h

theorem Relisted.symm : Relisted other facts rename.symm := by
  refine ⟨fun position => ?_, fun read => ?_⟩
  · rw [← h.member, Equiv.apply_symm_apply]
  · constructor
    · intro hread
      refine ⟨_, (h.reads _).mpr ⟨read, hread, rfl⟩, ?_⟩
      simp only [Equiv.symm_apply_apply]
    · rintro ⟨original, horiginal, rfl⟩
      obtain ⟨found, hfound, rfl⟩ := (h.reads original).mp horiginal
      simp only [Equiv.symm_apply_apply]
      exact hfound

theorem Relisted.shape (position : facts.Position) :
    other.shape (rename position) = facts.shape position := by
  rw [GroupFacts.shape, h.member, GroupFacts.shape]

theorem Relisted.sameStep {source target : other.Position} (hsame : other.SameStep source target) :
    facts.SameStep (rename.symm source) (rename.symm target) := by
  obtain ⟨read, hread, rfl, rfl, hform⟩ := hsame
  obtain ⟨original, horiginal, rfl⟩ := (h.reads read).mp hread
  simp only [Equiv.symm_apply_apply]
  exact ⟨original, horiginal, rfl, rfl, hform⟩

end

/-- The rules do not depend on the order of members and reads. -/
theorem Recurrent.relisted (hrules : facts.Recurrent) (h : Relisted facts other rename) :
    other.Recurrent := by
  have hall : ∀ {p : other.Position → Prop}, (∀ position, p (rename position)) →
      ∀ position, p position := fun hp position => rename.apply_symm_apply position ▸ hp _
  refine ⟨?_, ?_, ?_, ?_, ?_, ?_⟩
  · obtain ⟨position, hposition⟩ := hrules.unfolds
    exact ⟨rename position, (h.shape position).trans hposition⟩
  · refine hall fun position => hall fun position' => ?_
    rw [h.member, h.member]
    exact hrules.owner position position'
  · obtain ⟨axis, haxis⟩ := hrules.axis
    refine ⟨axis, hall fun position => ?_⟩
    rw [h.member]
    exact haxis position
  · intro read hread
    obtain ⟨original, horiginal, rfl⟩ := (h.reads read).mp hread
    exact fun heq => hrules.noSelf original horiginal (rename.injective heq)
  · intro read hread
    obtain ⟨original, horiginal, rfl⟩ := (h.reads read).mp hread
    show _ ∨ other.shape (rename original.source) = _ ∧ _
    rw [h.shape]
    exact hrules.keyed original horiginal
  · intro position hloop
    exact hrules.acyclic (rename.symm position)
      (hloop.lift rename.symm fun _ _ hsame => h.sameStep hsame)

end Relisted

end GroupFacts

/-- The check accepts exactly the recurrent groups, in whatever order they are listed. An accepted
group is planned with every member after those it reads at the same step, and a reported same-step
cycle is a closed chain of distinct members. -/
theorem checkGroup_exact (N A G : Type) [LinearOrder G] [DecidableEq (DagId N A)]
    [DecidableEq (GroupAxis N A G)] (facts : GroupFacts N A G) (callable : DagId N A) :
    ((∃ plan, checkGroup facts callable = .ok plan) ↔ facts.Recurrent) ∧
    (∀ other rename, GroupFacts.Relisted facts other rename →
      ((∃ plan, checkGroup facts callable = .ok plan) ↔
        ∃ plan, checkGroup other callable = .ok plan)) ∧
    (∀ plan, checkGroup facts callable = .ok plan →
      ∃ order, order.Perm facts.positions ∧
        List.Forall₂ (GroupFacts.PlansMember facts order) order plan.members ∧
        ∀ source target, facts.SameStep source target →
          order.idxOf target < order.idxOf source) ∧
    ∀ report cycle, checkGroup facts callable = .error (.recurrence report) →
      report.reason = .sameStepCycle cycle →
      ∃ chain, ClosedChain facts.SameStep chain ∧
        cycle = chain.map fun position => (facts.member position).name := by
  refine ⟨GroupFacts.exists_checkGroup, fun other rename h => ?_,
    fun plan h => GroupFacts.plan_of_checkGroup h,
    fun report cycle h hcycle => GroupFacts.chain_of_checkGroup h hcycle⟩
  rw [GroupFacts.exists_checkGroup, GroupFacts.exists_checkGroup]
  exact ⟨fun hrules => hrules.relisted h, fun hrules => hrules.relisted h.symm⟩

end ProvenGraphcal
