import ProvenGraphcal.Instance.Instantiation

/-!
# Instantiation of acyclic programs

A holder of round `n` ends a chain of `n` templates, each included by the one before. When includes
are acyclic the templates of a chain are distinct, so no round is later than the number of DAGs.
-/

namespace ProvenGraphcal

open Relation DagSlots

variable {N A K B Y E : Type} [LinearOrder (DagId N A)] [DecidableEq N]

/-- What instantiation leaves behind. -/
structure Instantiated (tir done : UncheckedTir N A K B Y) (graph : InstanceGraph N A K B) :
    Prop where
  /-- The program's own DAGs keep their positions, and instances stand behind them. -/
  grows : tir.dags.Grows done.dags
  /-- No identity, so no template with an identity, is instantiated twice. -/
  unique : ∀ p q dag dag', done.dags.bodyAt p = some dag → done.dags.bodyAt q = some dag' →
    dag.dagId = dag'.dagId → p = q
  /-- Each edge of each DAG and instance is followed once, in order, and its instance recorded. -/
  followed : ∀ p dag, done.dags.bodyAt p = some dag → ∃ recorded, graph.edges[p]? = some recorded ∧
    List.Forall₂ (fun edge q => done.dags.position edge.id.owner = some q)
      dag.semanticInstances recorded
  origins : graph.origins.length = done.dags.len - tir.dags.len
  /-- Every instance is created by an edge. -/
  created : ∀ q < done.dags.len, tir.dags.len ≤ q → ∃ p dag edge, done.dags.bodyAt p = some dag ∧
    edge ∈ dag.semanticInstances ∧ CreatedBy tir done graph dag edge q
  /-- The new instance that an edge leads to is created by that edge and has it as origin. -/
  origin : ∀ p dag edge q, done.dags.bodyAt p = some dag → edge ∈ dag.semanticInstances →
    done.dags.position edge.id.owner = some q → tir.dags.len ≤ q →
      CreatedBy tir done graph dag edge q

variable {graph : InstanceGraph N A K B} {s : Rounds N A K B Y}

section Run

variable {specialize : UncheckedTir N A K B Y → SemanticDagTIR N A K B → HirInstanceRecord N A K →
  InstanceFrame N A → Except E (B × Y)} {tir : UncheckedTir N A K B Y}

/-- Every holder ends a chain of `n` templates of the program, each included by the next. -/
def Deep (tir : UncheckedTir N A K B Y) (s : Rounds N A K B Y) (n : ℕ) : Prop :=
  ∀ p ∈ s.holders, ∃ chain : List (DagId N A), chain.length = n ∧
    chain.IsChain (fun newer older => IncludesTemplate tir older newer) ∧
      (∀ id ∈ chain, ∃ q dag, tir.dags.bodyAt q = some dag ∧ dag.dagId = id) ∧
        ∃ id, chain.head? = some id ∧
          ∀ edge ∈ edgesAt s.tir.dags p, IncludesTemplate tir id edge.id.template

theorem deep_start (h : tir.dags.Aligned) {holders : List ℕ}
    (hpositions : tir.dags.iterPositions = some holders) :
    Deep tir ⟨tir, .new tir.dags, holders⟩ 1 := by
  intro p hp
  obtain ⟨positions, hsome, -, hmem⟩ := h.mem_iterPositions
  rw [hpositions] at hsome
  cases hsome
  obtain ⟨dag, hdag⟩ := h.bodyAt_isSome ((hmem p).mp hp)
  refine ⟨[dag.dagId], rfl, List.isChain_singleton _, fun id hid => ?_, dag.dagId, rfl,
    fun edge hedge => ?_⟩
  · obtain rfl := List.mem_singleton.mp hid
    exact ⟨p, dag, hdag, rfl⟩
  · rw [edgesAt, hdag] at hedge
    exact ⟨p, dag, hdag, rfl, edge, hedge, rfl⟩

/-- The edges of an instance name the templates that its own template includes. -/
theorem CreatedBy.includes {now : UncheckedTir N A K B Y} {includer : SemanticDagTIR N A K B}
    {edge : HirInstanceRecord N A K} {q : ℕ} (h : CreatedBy tir now graph includer edge q) :
    (∃ p dag, tir.dags.bodyAt p = some dag ∧ dag.dagId = edge.id.template) ∧
      ∀ nested ∈ edgesAt now.dags q, IncludesTemplate tir edge.id.template nested.id.template := by
  obtain ⟨position, -, template, dag, -, hbody, hid, -, hdag, -, -, hedges⟩ := h
  refine ⟨⟨position, template, hbody, hid⟩, fun nested hnested => ?_⟩
  rw [edgesAt, hdag, Option.elim_some, hedges] at hnested
  obtain ⟨original, horiginal, rfl⟩ := List.mem_map.mp hnested
  exact ⟨position, template, hbody, hid, original, horiginal, rfl⟩

theorem Deep.round {s next : Rounds N A K B Y} {n : ℕ} (hdeep : Deep tir s n)
    (h : BetweenRounds tir s) (hnext : followRound specialize s = .ok next) :
    Deep tir next (n + 1) := by
  intro p hp
  obtain ⟨-, -, hcreated⟩ := (h.round specialize).1 next hnext
  obtain ⟨holder, hholder, includer, edge, hbody, hedge, hcreated⟩ := hcreated p hp
  obtain ⟨chain, hlength, hchain, hmem, id, hhead, hincludes⟩ := hdeep holder hholder
  obtain ⟨htemplate, hnested⟩ := hcreated.includes
  rw [edgesAt, hbody] at hincludes
  have hstep := hincludes edge hedge
  refine ⟨edge.id.template :: chain, by rw [List.length_cons, hlength], ?_, fun id' hid' => ?_,
    _, rfl, hnested⟩
  · refine List.isChain_cons.mpr ⟨fun id' hid' => ?_, hchain⟩
    rw [hhead] at hid'
    cases hid'
    exact hstep
  · rcases List.mem_cons.mp hid' with rfl | hid'
    · exact htemplate
    · exact hmem id' hid'

section

variable (hacyclic : ∀ id, ¬ TransGen (IncludesTemplate tir) id id)

include hacyclic

/-- A chain of an acyclic program is no longer than the program. -/
theorem chain_length_le {chain : List (DagId N A)}
    (hchain : chain.IsChain (fun newer older => IncludesTemplate tir older newer))
    (hmem : ∀ id ∈ chain, ∃ q dag, tir.dags.bodyAt q = some dag ∧ dag.dagId = id) :
    chain.length ≤ tir.dags.slots.length := by
  have htrans : IsTrans (DagId N A) fun newer older => TransGen (IncludesTemplate tir) older newer :=
    ⟨fun a b c hab hbc => hbc.trans hab⟩
  have hpairwise := List.isChain_iff_pairwise.mp
    (hchain.imp fun newer older h => TransGen.single (r := IncludesTemplate tir) h)
  have hnodup : chain.Nodup := by
    refine hpairwise.imp ?_
    rintro a b hab rfl
    exact hacyclic a hab
  have hsub : chain ⊆ (List.range tir.dags.slots.length).filterMap fun q =>
      (tir.dags.bodyAt q).map SemanticDagTIR.dagId := fun id hid => by
    obtain ⟨q, dag, hdag, rfl⟩ := hmem id hid
    exact List.mem_filterMap.mpr ⟨q, List.mem_range.mpr (Aligned.bodyAt_lt hdag), by rw [hdag]; rfl⟩
  calc chain.length ≤ _ := (hnodup.subperm hsub).length_le
    _ ≤ (List.range tir.dags.slots.length).length := List.length_filterMap_le _ _
    _ = tir.dags.slots.length := List.length_range

/-- The rounds end before the fuel does. -/
theorem rounds_end {fuel n : ℕ} (h : BetweenRounds tir s) (hdeep : Deep tir s n)
    (hfuel : tir.dags.slots.length < n + fuel) :
    nextRound specialize (Loop.runWhile (nextRound specialize) fuel (.ok s)) = none := by
  induction fuel generalizing s n with
  | zero =>
    have hnone : s.holders = [] := by
      by_contra hne
      obtain ⟨p, hp⟩ := List.exists_mem_of_ne_nil _ hne
      obtain ⟨chain, rfl, hchain, hmem, -⟩ := hdeep p hp
      exact absurd (chain_length_le hacyclic hchain hmem) (by omega)
    exact if_pos hnone
  | succ fuel ih =>
    by_cases hnone : s.holders = []
    · have hstop : nextRound specialize (.ok s) = none := if_pos hnone
      rw [Loop.runWhile_none hstop]
      exact hstop
    · have hstep : nextRound specialize (.ok s) = some (followRound specialize s) := if_neg hnone
      rw [Loop.runWhile_some hstep]
      cases hround : followRound specialize s with
      | error e =>
        rw [Loop.runWhile_none rfl]
        rfl
      | ok next =>
        exact ih ((h.round specialize).1 next hround).1 (hdeep.round h hround) (by omega)

end

variable (specialize) in
/-- Between rounds the state is sound, and an error is the program's own. -/
theorem rounds_sound (h : BetweenRounds tir s) (fuel : ℕ) :
    (∀ done, Loop.runWhile (nextRound specialize) fuel (.ok s) = .ok done →
        BetweenRounds tir done) ∧
      ∀ e, Loop.runWhile (nextRound specialize) fuel (.ok s) = .error e → Refused e := by
  refine Loop.runWhile_invariant
    (fun s : Except (InstantiationError N A E) (Rounds N A K B Y) =>
      (∀ done, s = .ok done → BetweenRounds tir done) ∧ ∀ e, s = .error e → Refused e)
    (fun s next hs hnext => ?_) fuel
    ⟨fun done hdone => Except.ok.inj hdone ▸ h, fun e he => (nomatch he)⟩
  cases s with
  | error e => cases hnext
  | ok s =>
    unfold nextRound at hnext
    dsimp only at hnext
    split_ifs at hnext
    cases hnext
    have hround := (hs.1 s rfl).round specialize
    exact ⟨fun done hdone => (hround.1 done hdone).1, hround.2⟩

/-! ## What is left -/

/-- An edge that leads to a new instance is the one that created it. -/
theorem Tracked.origin {done : UncheckedTir N A K B Y} {f : ℕ → List (HirInstanceRecord N A K)}
    (h : Tracked tir done graph f) {p q : ℕ} {dag : SemanticDagTIR N A K B}
    {edge : HirInstanceRecord N A K} (hdag : done.dags.bodyAt p = some dag)
    (hedge : edge ∈ dag.semanticInstances) (hq : done.dags.position edge.id.owner = some q)
    (hnew : tir.dags.slots.length ≤ q) : CreatedBy tir done graph dag edge q := by
  obtain ⟨inst, hinst, hid⟩ := (h.aligned.positions_eq edge.id.owner q).mp hq
  obtain ⟨p', dag', edge', hdag', hedge', hcreated⟩ :=
    h.created q (Aligned.bodyAt_lt hinst) hnew
  have howner : edge.id.owner = edge'.id.owner := by
    obtain ⟨-, -, -, inst', -, -, -, -, hinst', hid', -⟩ := hcreated
    rw [hinst] at hinst'
    cases hinst'
    exact hid.symm.trans hid'
  have hparent : edge.id.parent = edge'.id.parent := (DagId.instanceChild_inj howner).1
  rw [dag.parented edge hedge, dag'.parented edge' hedge'] at hparent
  obtain rfl := h.aligned.position_inj hdag hdag' hparent
  rw [hdag] at hdag'
  cases hdag'
  obtain rfl := List.inj_on_of_nodup_map dag.distinct hedge hedge' howner
  exact hcreated

theorem BetweenRounds.instantiated (h : BetweenRounds tir s) (hdone : s.holders = []) :
    Instantiated tir s.tir s.graph where
  grows := h.tracked.grows
  unique _ _ _ _ hp hq hid := h.tracked.aligned.position_inj hp hq hid
  followed p dag hdag := by
    obtain ⟨recorded, hrecorded, hall⟩ :=
      h.followed (Aligned.bodyAt_lt hdag) (by rw [hdone]; exact List.not_mem_nil)
    rw [edgesAt, hdag] at hall
    exact ⟨recorded, hrecorded, hall⟩
  origins := h.tracked.origins_length
  created := h.tracked.created
  origin _ _ _ _ hdag hedge hq hnew := h.tracked.origin hdag hedge hq hnew

end Run

/-- Instantiating a program whose includes are acyclic ends. It fails only on a missing template
or a body that cannot be specialized; otherwise every edge is followed once and recorded, every
identity is instantiated once and has the origin of its edge. Re-parenting a nested edge composes
its substitution with the enclosing one. -/
theorem instantiateSemanticEdges_spec
    (specialize : UncheckedTir N A K B Y → SemanticDagTIR N A K B → HirInstanceRecord N A K →
      InstanceFrame N A → Except E (B × Y)) (tir : UncheckedTir N A K B Y)
    (haligned : tir.dags.Aligned) (hacyclic : ∀ id, ¬ TransGen (IncludesTemplate tir) id id) :
    nextRound specialize (allRounds specialize tir) = none ∧
      (∀ e, instantiateSemanticEdges specialize tir = .error e → Refused e) ∧
      (∀ done graph, instantiateSemanticEdges specialize tir = .ok (done, graph) →
        Instantiated tir done graph) ∧
      ∀ (nested : HirInstanceRecord N A K) (owner : DagId N A) (outer : StaticSubstitution N A),
        let edge := rebaseNestedInstance nested owner outer
        edge.id.parent = owner ∧ edge.id.scope = nested.id.scope ∧
          edge.id.template = nested.id.template ∧
            Composes outer nested.instanceRecord.substitution edge.instanceRecord.substitution := by
  obtain ⟨holders, hholders, -⟩ := haligned.mem_iterPositions
  have hstart := betweenRounds_start haligned hholders
  have hall : allRounds specialize tir = Loop.runWhile (nextRound specialize) tir.dags.len
      (.ok ⟨tir, .new tir.dags, holders⟩) := by
    rw [allRounds, hholders]
  have hend : nextRound specialize (allRounds specialize tir) = none := by
    rw [hall]
    refine rounds_end hacyclic hstart (deep_start haligned hholders) ?_
    change tir.dags.slots.length < 1 + tir.dags.slots.length
    omega
  obtain ⟨hok, herror⟩ := rounds_sound specialize hstart tir.dags.len
  rw [← hall] at hok herror
  refine ⟨hend, fun e he => ?_, fun done graph hdone => ?_, fun nested owner outer => ?_⟩
  · rcases Checked.bind_eq_error.mp he with he | ⟨_, -, he⟩
    · exact herror e he
    · cases he
  · obtain ⟨rounds, hrounds, hdone⟩ := Checked.bind_eq_ok.mp hdone
    cases hdone
    have hnone : rounds.holders = [] := by
      rw [hrounds] at hend
      by_contra hne
      rw [nextRound, if_neg hne] at hend
      cases hend
    exact (hok rounds hrounds).instantiated hnone
  · exact ⟨rfl, rfl, rfl, composes_composeTargets _ _⟩

namespace NestedInclude

def segmentKey : DagSegment ℕ ℕ → ℕ ×ₗ ℕ
  | .file name => toLex (0, name)
  | .inlineDag name => toLex (1, name)
  | .instance scope => toLex (2, scope)

theorem segmentKey_injective : Function.Injective segmentKey := by
  intro a b h
  cases a <;> cases b <;> simp_all [segmentKey]

instance : LinearOrder (DagId ℕ ℕ) :=
  LinearOrder.lift' (fun id => toLex (id.package, id.segments.items.map segmentKey))
    fun a b h => by
      obtain ⟨hpackage, hsegments⟩ := Prod.ext_iff.mp (toLex.injective h)
      exact DagId.ext_segments hpackage (segmentKey_injective.list_map hsegments)

def file (n : ℕ) : DagId ℕ ℕ := ⟨0, .singleton (.file n)⟩

/-- File `n` includes file `n + 1` in scope 0. -/
def edge (n : ℕ) : HirInstanceRecord ℕ ℕ Unit where
  instanceRecord := ⟨⟨file n, 0, file (n + 1), rfl⟩, ⟨file (n + 1), ⟨[], [], []⟩⟩, rfl⟩
  valueBindings := []
  runtimeUnitNames := []
  outputProjections := []
  assertionProjections := []
  plotProjections := []

def dag (n : ℕ) : SemanticDagTIR ℕ ℕ Unit Unit where
  dagId := file n
  frame := .canonical
  semanticInstances := if n < 2 then [edge n] else []
  body := ()
  parented e he := by
    split_ifs at he
    · rw [List.mem_singleton.mp he]
      rfl
    · cases he
  distinct := by split_ifs <;> simp

def dags : DagSlots (SemanticDagTIR ℕ ℕ Unit Unit) (SemanticDagTIR ℕ ℕ Unit Unit) (DagId ℕ ℕ) where
  locals := [dag 0, dag 1, dag 2]
  localPositions := [0, 1, 2]
  shared := []
  slots := [.localBody 0, .localBody 1, .localBody 2]
  positions := Function.update (Function.update (Function.update (fun _ => none)
    (file 0) (some 0)) (file 1) (some 1)) (file 2) (some 2)
  localOrder := (SortedMap.empty.insert (file 1) 1).insert (file 2) 2
  sharedOrder := SortedMap.empty

def program : UncheckedTir ℕ ℕ Unit Unit Unit := ⟨(), dags⟩

def copy (_ : UncheckedTir ℕ ℕ Unit Unit Unit) (_ : SemanticDagTIR ℕ ℕ Unit Unit)
    (_ : HirInstanceRecord ℕ ℕ Unit) (_ : InstanceFrame ℕ ℕ) : Except Unit (Unit × Unit) :=
  .ok ((), ())

theorem aligned_dags : dags.Aligned := by
  obtain ⟨one, hone⟩ : ∃ one, (DagSlots.new (dag 0)).pushLocal (dag 1) = .ok (one, 1) := ⟨_, rfl⟩
  have htwo : one.pushLocal (dag 2) = .ok (dags, 2) := by
    cases hone
    rfl
  exact ((aligned_new (dag 0)).pushLocal hone).pushLocal htwo

/-- The number of a file. -/
def number (id : DagId ℕ ℕ) : ℕ :=
  match id.leaf with
  | .file n => n
  | _ => 0

theorem number_lt {holder template : DagId ℕ ℕ} (h : IncludesTemplate program holder template) :
    number holder < number template := by
  obtain ⟨p, body, hbody, rfl, e, he, rfl⟩ := h
  have hsome : ∃ n, body = dag n := by
    match p with
    | 0 => exact ⟨0, (Option.some.inj hbody).symm⟩
    | 1 => exact ⟨1, (Option.some.inj hbody).symm⟩
    | 2 => exact ⟨2, (Option.some.inj hbody).symm⟩
    | n + 3 => cases hbody
  obtain ⟨n, rfl⟩ := hsome
  have he : e ∈ if n < 2 then [edge n] else [] := he
  split_ifs at he
  · rw [List.mem_singleton.mp he]
    exact Nat.lt_succ_self n
  · cases he

theorem acyclic (id : DagId ℕ ℕ) : ¬ TransGen (IncludesTemplate program) id id := by
  have hlt : ∀ {a b}, TransGen (IncludesTemplate program) a b → number a < number b := by
    intro a b h
    induction h with
    | single h => exact number_lt h
    | tail _ h ih => exact ih.trans (number_lt h)
  exact fun h => Nat.lt_irrefl _ (hlt h)

/-- The include of a file that has an include of its own: the nested instance is materialized for
the file and again for its instance. -/
theorem instantiated_program :
    (instantiateSemanticEdges copy program).toOption.map (fun r => r.2.edges) =
        some [[3], [4], [], [5], [], []] ∧
      ∀ done graph, instantiateSemanticEdges copy program = .ok (done, graph) →
        Instantiated program done graph :=
  ⟨by decide +kernel, (instantiateSemanticEdges_spec copy program aligned_dags acyclic).2.2.1⟩

end NestedInclude

end ProvenGraphcal
