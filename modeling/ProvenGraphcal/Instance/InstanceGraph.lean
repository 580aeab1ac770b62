import ProvenGraphcal.Instance.Record
import ProvenGraphcal.Library.Loop
import ProvenGraphcal.Registry.DagSlots

/-!
# Instantiating the include edges of a program

Every DAG's edges are followed once: first those of every DAG of the program in visiting order,
then, round by round, those of the instances the previous round materialized. `B` is the rest of a
body and `Y` the rest of the program; `specialize` is how the rest of a template's body is copied
for an instance, which may fail with an `E`.
-/

namespace ProvenGraphcal

variable {N A K B Y E : Type} [LinearOrder (DagId N A)] [DecidableEq N]

/-- A body: each of its include edges is parented by it and allocates an instance of its own. -/
structure SemanticDagTIR (N A K B : Type) [LinearOrder (DagId N A)] where
  dagId : DagId N A
  frame : InstanceFrame N A
  semanticInstances : List (HirInstanceRecord N A K)
  body : B
  parented : ∀ edge ∈ semanticInstances, edge.id.parent = dagId
  distinct : (semanticInstances.map fun edge => edge.id.owner).Nodup

instance : SlotBody (SemanticDagTIR N A K B) (SemanticDagTIR N A K B) (DagId N A) where
  ofShared dag := dag
  slotId := SemanticDagTIR.dagId
  dagId := SemanticDagTIR.dagId
  slotId_ofShared _ := rfl

/-- The edges of the template, re-parented under the instance that `edge` allocates. -/
def nestedInstances (template : SemanticDagTIR N A K B) (edge : HirInstanceRecord N A K) :
    List (HirInstanceRecord N A K) :=
  template.semanticInstances.map fun nested =>
    rebaseNestedInstance nested edge.id.owner edge.instanceRecord.substitution

theorem nestedInstances_distinct (template : SemanticDagTIR N A K B) (edge : HirInstanceRecord N A K) :
    ((nestedInstances template edge).map fun nested => nested.id.owner).Nodup := by
  unfold nestedInstances
  rw [List.map_map]
  refine List.Nodup.map_on (fun nested hnested nested' hnested' howner => ?_)
    template.distinct.of_map
  have hscope : nested.id.scope = nested'.id.scope := (DagId.instanceChild_inj howner).2
  refine List.inj_on_of_nodup_map template.distinct hnested hnested' ?_
  change nested.id.parent.instanceChild nested.id.scope =
    nested'.id.parent.instanceChild nested'.id.scope
  rw [template.parented nested hnested, template.parented nested' hnested', hscope]

/-- The instance that `edge` allocates in a DAG with frame `parent`, a copy of `template`. -/
def instantiated (template : SemanticDagTIR N A K B) (edge : HirInstanceRecord N A K)
    (parent : InstanceFrame N A) (body : B) : SemanticDagTIR N A K B where
  dagId := edge.id.owner
  frame := .ofRecord parent edge.instanceRecord
    (template.semanticInstances.map HirInstanceRecord.id)
  semanticInstances := nestedInstances template edge
  body := body
  parented nested hnested := by
    obtain ⟨original, -, rfl⟩ := List.mem_map.mp hnested
    rfl
  distinct := nestedInstances_distinct template edge

structure UncheckedTir (N A K B Y : Type) [LinearOrder (DagId N A)] [DecidableEq N] where
  core : Y
  dags : DagSlots (SemanticDagTIR N A K B) (SemanticDagTIR N A K B) (DagId N A)

/-- The canonical body a semantic instance is specialized from. -/
inductive TemplateBody (N A K B : Type) [LinearOrder (DagId N A)]
  | localBody (index : ℕ)
  | shared (dag : SemanticDagTIR N A K B)

/-- Where one materialized instance comes from. -/
structure InstanceOrigin (N A K B : Type) [LinearOrder (DagId N A)] where
  templatePosition : ℕ
  template : TemplateBody N A K B
  specialization : StaticSpecializationId N A

/-- The positions of the instances each DAG's edges materialize, and each materialized instance's
origin. Local bodies below `canonicalLocals` are canonical. -/
structure InstanceGraph (N A K B : Type) [LinearOrder (DagId N A)] where
  canonicalLocals : ℕ
  edges : List (List ℕ)
  origins : List (InstanceOrigin N A K B)

/-- Why instantiation stops; `outOfRange` stands for an index that panics. -/
inductive InstantiationError (N A E : Type)
  | unavailableTemplate (template owner : DagId N A)
  | specialization (error : E)
  | duplicateDag (dagId : DagId N A)
  | outOfRange

namespace InstanceGraph

def new (dags : DagSlots (SemanticDagTIR N A K B) (SemanticDagTIR N A K B) (DagId N A)) :
    InstanceGraph N A K B where
  canonicalLocals := dags.localCount
  edges := List.replicate dags.len []
  origins := []

/-- The canonical body named `id`, with its position. -/
def template (graph : InstanceGraph N A K B)
    (dags : DagSlots (SemanticDagTIR N A K B) (SemanticDagTIR N A K B) (DagId N A)) (id : DagId N A) :
    Option (ℕ × TemplateBody N A K B) := do
  let position ← dags.position id
  match ← dags.slots[position]? with
  | .localBody index =>
    if index < graph.canonicalLocals then some (position, .localBody index) else none
  | .shared index => (dags.shared[index]?).map fun shared => (position, .shared shared)

/-- Add the materialized instance `dag` with its origin. -/
def pushInstance (graph : InstanceGraph N A K B)
    (dags : DagSlots (SemanticDagTIR N A K B) (SemanticDagTIR N A K B) (DagId N A)) (dag : SemanticDagTIR N A K B)
    (origin : InstanceOrigin N A K B) :
    Except (DuplicateDag (DagId N A))
      (DagSlots (SemanticDagTIR N A K B) (SemanticDagTIR N A K B) (DagId N A) × InstanceGraph N A K B × ℕ) := do
  let (dags, position) ← dags.pushLocal dag
  return (dags, { graph with
    edges := graph.edges ++ [[]]
    origins := graph.origins ++ [origin] }, position)

/-- Record that the next edge of the DAG at `holder` materializes the instance at `position`. -/
def recordEdge (graph : InstanceGraph N A K B) (holder position : ℕ) :
    Except (InstantiationError N A E) (InstanceGraph N A K B) :=
  if holder < graph.edges.length then
    .ok { graph with edges := graph.edges.modify holder (· ++ [position]) }
  else .error .outOfRange

end InstanceGraph

section Instantiate

/-- The DAG at `position`. -/
def dagAt (dags : DagSlots (SemanticDagTIR N A K B) (SemanticDagTIR N A K B) (DagId N A)) (position : ℕ) :
    Except (InstantiationError N A E) (SemanticDagTIR N A K B) :=
  match dags.bodyAt position with
  | some dag => .ok dag
  | none => .error .outOfRange

variable (specialize : UncheckedTir N A K B Y → SemanticDagTIR N A K B → HirInstanceRecord N A K →
  InstanceFrame N A → Except E (B × Y))

/-- Materialize the instance `edge` allocates in the DAG at `parent`. -/
def instantiateSemanticEdge (tir : UncheckedTir N A K B Y) (graph : InstanceGraph N A K B)
    (parent : ℕ) (edge : HirInstanceRecord N A K) :
    Except (InstantiationError N A E)
      (UncheckedTir N A K B Y × InstanceGraph N A K B × ℕ) :=
  match graph.template tir.dags edge.id.template with
  | none => .error (.unavailableTemplate edge.id.template edge.id.owner)
  | some (templatePosition, templateBody) => do
    let template ← dagAt tir.dags templatePosition
    let includer ← dagAt tir.dags parent
    let (body, core) ← (specialize tir template edge includer.frame).mapError .specialization
    let (dags, graph, position) ← (graph.pushInstance tir.dags
      (instantiated template edge includer.frame body)
      ⟨templatePosition, templateBody, edge.instanceRecord.specialization⟩).mapError
        fun e => .duplicateDag e.dagId
    return (⟨core, dags⟩, graph, position)

/-- What one round has done so far. -/
structure Progress (N A K B Y : Type) [LinearOrder (DagId N A)] [DecidableEq N] where
  tir : UncheckedTir N A K B Y
  graph : InstanceGraph N A K B
  materialized : List ℕ

/-- Follow one edge; an instance that is already there is reused. -/
def followEdge (s : Progress N A K B Y) (e : ℕ × HirInstanceRecord N A K) :
    Except (InstantiationError N A E) (Progress N A K B Y) :=
  match s.tir.dags.position e.2.id.owner with
  | some position => do
    let graph ← s.graph.recordEdge e.1 position
    return { s with graph := graph }
  | none => do
    let (tir, graph, position) ← instantiateSemanticEdge specialize s.tir s.graph e.1 e.2
    let graph ← graph.recordEdge e.1 position
    return ⟨tir, graph, s.materialized ++ [position]⟩

/-- Between rounds: `holders` are the DAGs whose edges are followed next. -/
structure Rounds (N A K B Y : Type) [LinearOrder (DagId N A)] [DecidableEq N] where
  tir : UncheckedTir N A K B Y
  graph : InstanceGraph N A K B
  holders : List ℕ

/-- The identities at two positions are in order. -/
def IdentityOrder (dags : DagSlots (SemanticDagTIR N A K B) (SemanticDagTIR N A K B) (DagId N A))
    (left right : ℕ) : Prop :=
  ∀ a ∈ (dags.bodyAt left).map SemanticDagTIR.dagId, ∀ b ∈ (dags.bodyAt right).map SemanticDagTIR.dagId, a ≤ b

instance (dags : DagSlots (SemanticDagTIR N A K B) (SemanticDagTIR N A K B) (DagId N A)) :
    DecidableRel (IdentityOrder dags) := fun left right =>
  match h : (dags.bodyAt left).map SemanticDagTIR.dagId, h' : (dags.bodyAt right).map SemanticDagTIR.dagId with
  | some a, some b => decidable_of_iff (a ≤ b) (by simp [IdentityOrder, h, h'])
  | none, _ => isTrue (by simp [IdentityOrder, h])
  | some _, none => isTrue (by simp [IdentityOrder, h'])

/-- The edges of the holders, each with its holder. -/
def heldEdges (dags : DagSlots (SemanticDagTIR N A K B) (SemanticDagTIR N A K B) (DagId N A))
    (holders : List ℕ) : Except (InstantiationError N A E) (List (ℕ × HirInstanceRecord N A K)) :=
  do
    let edges ← holders.mapM fun holder => do
      let dag ← dagAt dags holder
      return dag.semanticInstances.map (holder, ·)
    return edges.flatten

/-- One round. -/
def followRound (s : Rounds N A K B Y) :
    Except (InstantiationError N A E) (Rounds N A K B Y) := do
  let edges ← heldEdges s.tir.dags s.holders
  let done ← edges.foldlM (followEdge specialize) ⟨s.tir, s.graph, []⟩
  return ⟨done.tir, done.graph, done.materialized.insertionSort (IdentityOrder done.tir.dags)⟩

/-- The loop's step: `None` when it is left. -/
def nextRound (s : Except (InstantiationError N A E) (Rounds N A K B Y)) :
    Option (Except (InstantiationError N A E) (Rounds N A K B Y)) :=
  match s with
  | .error _ => none
  | .ok s => if s.holders = [] then none else some (followRound specialize s)

/-- The state in which the loop is left. -/
def allRounds (tir : UncheckedTir N A K B Y) :
    Except (InstantiationError N A E) (Rounds N A K B Y) :=
  match tir.dags.iterPositions with
  | none => .error .outOfRange
  | some holders => Loop.runWhile (nextRound specialize) tir.dags.len
      (.ok ⟨tir, .new tir.dags, holders⟩)

/-- Materialize the include edges as instances; also the graph of every DAG's edges. -/
def instantiateSemanticEdges (tir : UncheckedTir N A K B Y) :
    Except (InstantiationError N A E) (UncheckedTir N A K B Y × InstanceGraph N A K B) := do
  let done ← allRounds specialize tir
  return (done.tir, done.graph)

end Instantiate

end ProvenGraphcal
