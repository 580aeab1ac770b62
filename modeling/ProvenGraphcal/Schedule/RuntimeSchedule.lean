import ProvenGraphcal.Algebra.NatPolyForm
import ProvenGraphcal.Graph.CyclicComponents
import ProvenGraphcal.Instance.Record
import ProvenGraphcal.Library.GreedyOrder
import ProvenGraphcal.Syntax.Span

/-!
# The plan of an accepted recurrence group

Members in plan order, each with its classified reads, and the elements that evaluating an element
reads.
-/

namespace ProvenGraphcal

variable {K : Type}

/-- `for t: A { body }` runs its body at every step, `unfold(A, init, ..)` from the second on. -/
inductive RecurrenceShape
  | forOver
  | unfoldOver
  deriving DecidableEq

/-- The step offset of a classified read between members. -/
inductive StepAccess
  | same
  | previous
  deriving DecidableEq

/-- A read of the member at plan position `target`. -/
structure GroupRead where
  target : ℕ
  access : StepAccess
  deriving DecidableEq

structure RecurrenceMember (K : Type) where
  declaration : K
  shape : RecurrenceShape
  reads : List GroupRead

structure RecurrenceGroupPlan (K : Type) where
  members : List (RecurrenceMember K)

/-!
# Runtime schedules

The params and nodes of a callable and its instances, ordered as units: declarations, and the
recurrence groups that the component check accepts. `none` stands for a lookup that panics.
-/

/-- Why one cyclic component is not an accepted recurrence group. -/
inductive ComponentRejection (R : Type)
  | plainCycle
  | recurrence (reason : R)

inductive ScheduleRejection (K R : Type)
  | cycle (cycle : Cycle K Unit)
  | recurrence (reason : R)

/-- One unit of a callable's runtime schedule. -/
inductive ScheduleUnit (K : Type)
  | declaration (declaration : K)
  | recurrence (plan : RecurrenceGroupPlan K)

/-- A schedule unit while ordering: a declaration, or an accepted group by position. -/
inductive UnitKey (K : Type)
  | declaration (declaration : K)
  | group (group : ℕ)
  deriving DecidableEq

section OrderUnits

variable {K D R : Type} [DecidableEq K]

/-- The scheduling graph: every declaration, and every read of one by another. -/
def scheduleInsertions (nodes : List K) (dependencies : K → List K) : List (Insertion K Unit) :=
  nodesThenEdges nodes (nodes.flatMap fun node => (dependencies node).map (node, ·))

/-- The components checked so far. -/
structure CheckedComponents (K R : Type) where
  plans : List (RecurrenceGroupPlan K)
  rejections : List (List K × ComponentRejection R)
  groupOf : K → Option ℕ

namespace CheckedComponents

def new : CheckedComponents K R := ⟨[], [], fun _ => none⟩

def accept (checked : CheckedComponents K R) (component : List K) (plan : RecurrenceGroupPlan K) :
    CheckedComponents K R where
  plans := checked.plans ++ [plan]
  rejections := checked.rejections
  groupOf declaration :=
    if declaration ∈ component then some checked.plans.length else checked.groupOf declaration

def reject (checked : CheckedComponents K R) (component : List K)
    (rejection : ComponentRejection R) : CheckedComponents K R :=
  { checked with rejections := checked.rejections ++ [(component, rejection)] }

end CheckedComponents

def checkComponent (owners : K → Option D)
    (check : List (K × D) → Except (ComponentRejection R) (RecurrenceGroupPlan K))
    (checked : CheckedComponents K R) (component : List K) : Option (CheckedComponents K R) := do
  let members ← component.mapM fun declaration => (owners declaration).map (declaration, ·)
  return match check members with
    | .ok plan => checked.accept component plan
    | .error rejection => checked.reject component rejection

def insideGroup (groupOf : K → Option ℕ) (node dependency : K) : Bool :=
  match groupOf node with
  | some group => groupOf dependency = some group
  | none => false

/-- The edges left once accepted groups are contracted. -/
def contractedInsertions (nodes : List K) (dependencies : K → List K) (groupOf : K → Option ℕ) :
    List (Insertion K Unit) :=
  nodesThenEdges nodes (nodes.flatMap fun node =>
    ((dependencies node).filter fun dependency => !insideGroup groupOf node dependency).map
      (node, ·))

def unitOf (groupOf : K → Option ℕ) (declaration : K) : UnitKey K :=
  match groupOf declaration with
  | some group => .group group
  | none => .declaration declaration

def unitInsertions (nodes : List K) (dependencies : K → List K) (groupOf : K → Option ℕ) :
    List (Insertion (UnitKey K) Unit) :=
  nodesThenEdges (nodes.map (unitOf groupOf)) (nodes.flatMap fun node =>
    (((dependencies node).map (unitOf groupOf)).filter fun dependency =>
      dependency ≠ unitOf groupOf node).map (unitOf groupOf node, ·))

/-- The rejection of the component that a cycle lies in. -/
def rejectionAt (rejections : List (List K × ComponentRejection R)) (cycle : Cycle K Unit) :
    ScheduleRejection K R :=
  match (rejections.find? fun r => cycle.entry ∈ r.1).map Prod.snd with
  | some (.recurrence reason) => .recurrence reason
  | some .plainCycle => .cycle cycle
  | none => .cycle cycle

/-- The declaration that a unit on a cycle is reported at. -/
def declarationOf (nodes : List K) (plans : List (RecurrenceGroupPlan K)) : UnitKey K → Option K
  | .declaration declaration => nodes.find? (· = declaration)
  | .group group => do
    let plan ← plans[group]?
    let member ← plan.members.head?
    nodes.find? (· = member.declaration)

def scheduleUnit (plans : List (RecurrenceGroupPlan K)) : UnitKey K → Option (ScheduleUnit K)
  | .declaration declaration => some (.declaration declaration)
  | .group group => (plans[group]?).map .recurrence

/-- The units in order, once every cyclic component is accepted or refused. -/
def orderContracted (nodes : List K) (dependencies : K → List K)
    (checked : CheckedComponents K R) :
    Option (Except (ScheduleRejection K R) (TopoOrder (ScheduleUnit K))) := do
  let contracted := DependencyGraph.build
    (contractedInsertions nodes dependencies checked.groupOf)
  match ← contracted.intoTopoOrder with
  | .error cycle => return .error (rejectionAt checked.rejections cycle)
  | .ok _ =>
    let units := DependencyGraph.build (unitInsertions nodes dependencies checked.groupOf)
    match ← units.intoTopoOrder with
    | .error cycle =>
      let fallback ← nodes.head?
      let declarationAt := fun unit => (declarationOf nodes checked.plans unit).getD fallback
      return .error (.cycle ⟨declarationAt cycle.entry, cycle.rest.map declarationAt, ()⟩)
    | .ok order => return .ok ⟨← order.order.mapM (scheduleUnit checked.plans)⟩

/-- Order the scheduled declarations as schedule units. -/
def orderUnits (nodes : List K) (owners : K → Option D) (dependencies : K → List K)
    (check : List (K × D) → Except (ComponentRejection R) (RecurrenceGroupPlan K)) :
    Option (Except (ScheduleRejection K R) (TopoOrder (ScheduleUnit K))) := do
  let graph := DependencyGraph.build (scheduleInsertions nodes dependencies)
  let components ← graph.cyclicComponents
  if components.isEmpty then
    match ← graph.intoTopoOrder with
    | .error cycle => return .error (.cycle cycle)
    | .ok order => return .ok ⟨order.order.map .declaration⟩
  else
    let checked ← components.foldlM (checkComponent owners check) .new
    orderContracted nodes dependencies checked

end OrderUnits

inductive DeclKind
  | const
  | param
  | node
  | assert
  | plot
  | figure
  | layer
  deriving DecidableEq

structure Decl (K : Type) where
  kind : DeclKind
  identity : K

/-- A checked DAG: its declarations in source order, and what each reads at run time. -/
structure DagTIR (DagId K : Type) where
  dagId : DagId
  decls : List (Decl K)
  runtimeDeps : K → Option (List K)

structure RuntimeSchedule (DagId K : Type) where
  executionDags : List DagId
  units : TopoOrder (ScheduleUnit K)
  dependencies : K → Option (List K)

section Build

variable {DagId K R : Type} [LinearOrder DagId] [DecidableEq K] {count : ℕ}

/-- The walk over instance edges: the positions to expand, last in first out, the positions seen,
and the instances in the order they were seen. -/
structure ClosureState (count : ℕ) where
  pending : List (Fin count)
  visited : Finset (Fin count)
  instances : List (Fin count)

/-- `if visited.insert(instance) { pending.push(instance); instances.push(instance) }`. -/
def ClosureState.see (s : ClosureState count) (position : Fin count) : ClosureState count :=
  if position ∈ s.visited then s
  else ⟨position :: s.pending, insert position s.visited, s.instances ++ [position]⟩

def closureStep (instancesOf : Fin count → List (Fin count)) (s : ClosureState count) :
    Option (ClosureState count) :=
  match s.pending with
  | [] => none
  | position :: pending =>
    some ((instancesOf position).foldl ClosureState.see { s with pending })

/-- `callable` followed by every DAG its semantic instance edges reach, in id order. -/
def instanceClosure (callable : Fin count) (dagAt : Fin count → DagTIR DagId K)
    (instancesOf : Fin count → List (Fin count)) : List (DagTIR DagId K) :=
  let final := Loop.runWhile (closureStep instancesOf) count ⟨[callable], {callable}, []⟩
  dagAt callable ::
    (final.instances.map dagAt).insertionSort fun left right => left.dagId ≤ right.dagId

/-- The params and nodes of the DAGs, in order, each with its DAG. -/
def scheduledDecls (dags : List (DagTIR DagId K)) : List (K × DagTIR DagId K) :=
  dags.flatMap fun dag =>
    (dag.decls.filter fun decl => decl.kind = .param ∨ decl.kind = .node).map
      fun decl => (decl.identity, dag)

/-- The value that the last insertion of a key put into a map. -/
def lastInserted {V : Type} (entries : List (K × V)) (key : K) : Option V :=
  (entries.reverse.find? fun entry => entry.1 = key).map Prod.snd

def scheduledNodes (dags : List (DagTIR DagId K)) : List K := (scheduledDecls dags).map Prod.fst

def scheduledOwners (dags : List (DagTIR DagId K)) : K → Option (DagTIR DagId K) :=
  lastInserted (scheduledDecls dags)

/-- What each scheduled declaration reads. -/
def scheduledReads (dags : List (DagTIR DagId K)) : K → Option (List K) :=
  lastInserted ((scheduledDecls dags).map fun (decl, dag) =>
    (decl, (dag.runtimeDeps decl).getD []))

/-- Schedule the params and nodes of `callable` and its instance closure. -/
def RuntimeSchedule.build (callable : Fin count) (dagAt : Fin count → DagTIR DagId K)
    (instancesOf : Fin count → List (Fin count))
    (check : List (K × DagTIR DagId K) → Except (ComponentRejection R) (RecurrenceGroupPlan K)) :
    Option (Except (ScheduleRejection K R) (RuntimeSchedule DagId K)) :=
  let dags := instanceClosure callable dagAt instancesOf
  let reads := scheduledReads dags
  (orderUnits (scheduledNodes dags) (scheduledOwners dags) (fun decl => (reads decl).getD [])
    check).map fun units => units.map fun units => ⟨dags.map DagTIR.dagId, units, reads⟩

end Build

/-!
# Checking a recurrence group

The members of a cyclic component and their reads of one another, and the rules by which they form a
recurrence group. The rules are checked in passes; the first violated one is reported.
-/

variable {N A G : Type} [LinearOrder G]

/-- The axis that a recurrence steps along. -/
inductive GroupAxis (N A G : Type) [LinearOrder G]
  | named (index : ResolvedName N A)
  | finite (cardinality : NatPolyForm G)

/-- The definition of a member, without a top-level display conversion. -/
inductive Definition (N A G : Type) [LinearOrder G]
  | forOver (axis : GroupAxis N A G)
  | unfoldOver (axis : GroupAxis N A G)
  | otherFormula

namespace Definition

def shape : Definition N A G → Option RecurrenceShape
  | forOver _ => some .forOver
  | unfoldOver _ => some .unfoldOver
  | otherFormula => none

def axis : Definition N A G → Option (GroupAxis N A G)
  | forOver axis => some axis
  | unfoldOver axis => some axis
  | otherFormula => none

end Definition

/-- How the leading key of an element access is written. -/
inductive LeadingKey
  | stepBinder
  | previousBinder
  | otherLocal
  | computed
  deriving DecidableEq

/-- How a member observes the value of another. -/
inductive ReadForm
  | element (key : LeadingKey)
  | whole
  | implicit
  deriving DecidableEq

/-- One read between members, given by position. -/
structure ReadFact (n : ℕ) where
  source : Fin n
  target : Fin n
  form : ReadForm
  span : Span

structure MemberFact (N A G : Type) [LinearOrder G] where
  identity : ResolvedName N A
  name : N
  span : Span
  definition : Definition N A G

def MemberFact.owner (member : MemberFact N A G) : DagId N A := member.identity.owner

/-- One candidate group: its members and their reads, both in source order. -/
structure GroupFacts (N A G : Type) [LinearOrder G] where
  members : List (MemberFact N A G)
  reads : List (ReadFact members.length)

namespace GroupFacts

/-- The position of a member. -/
abbrev Position (facts : GroupFacts N A G) := Fin facts.members.length

def member (facts : GroupFacts N A G) (position : facts.Position) : MemberFact N A G :=
  facts.members.get position

def positions (facts : GroupFacts N A G) : List facts.Position := List.finRange _

def shape (facts : GroupFacts N A G) (position : facts.Position) : Option RecurrenceShape :=
  (facts.member position).definition.shape

end GroupFacts

/-! ## Rules -/

inductive RecurrenceRejection (N : Type)
  | mixedOwners (other : N)
  | notRecurrenceShape
  | axisMismatch (first : N)
  | selfRead
  | wholeValueRead (target : N)
  | implicitRead (target : N)
  | notStepKeyed (target : N)
  | sameStepCycle (cycle : List N)

/-- One violated rule, at a member and a span in its source. -/
structure Violation (n : ℕ) (N : Type) where
  member : Fin n
  span : Span
  reason : RecurrenceRejection N

/-- A violation as it is reported. -/
structure ViolationReport (N : Type) where
  name : N
  span : Span
  reason : RecurrenceRejection N

/-- The step that a read inside a member of the given shape selects. -/
def access : RecurrenceShape → ReadForm → Option StepAccess
  | _, .element .stepBinder => some .same
  | .unfoldOver, .element .previousBinder => some .previous
  | _, _ => none

namespace GroupFacts

variable (facts : GroupFacts N A G)

/-- One owner, a top-level `for` or `unfold`, one axis. -/
def checkMembers [DecidableEq (DagId N A)] [DecidableEq (GroupAxis N A G)] (callable : DagId N A) :
    Except (Violation facts.members.length N) Unit :=
  let owner position := (facts.member position).owner
  let atMember position reason := ⟨position, (facts.member position).span, reason⟩
  match facts.positions.head? with
  | none => .ok ()
  | some first =>
    if facts.positions.any fun position => decide (owner position ≠ owner first) then
      -- reported at the first read that leaves the callable's own members
      match facts.reads.find? fun read =>
        decide (owner read.source = callable ∧ owner read.target ≠ callable) with
      | none => .error (atMember first (.mixedOwners (facts.member first).name))
      | some read => .error (atMember read.source (.mixedOwners (facts.member read.target).name))
    else
      match facts.positions.find? fun position => (facts.shape position).isNone with
      | some position => .error (atMember position .notRecurrenceShape)
      | none =>
        let axis position := (facts.member position).definition.axis
        match facts.positions.find? fun position => decide (axis position ≠ axis first) with
        | some position =>
          .error (atMember position (.axisMismatch (facts.member first).name))
        | none => .ok ()

/-- The step that a read selects in its reader. -/
def readAccess (read : ReadFact facts.members.length) : Option StepAccess :=
  (facts.shape read.source).bind fun shape => access shape read.form

/-- No self-read, and every read classified. -/
def classifyReads : Except (Violation facts.members.length N) (List StepAccess) :=
  match facts.reads.find? fun read => decide (read.source = read.target) with
  | some read => .error ⟨read.source, read.span, .selfRead⟩
  | none => facts.reads.mapM fun read =>
    match facts.readAccess read with
    | some access => .ok access
    | none =>
      let target := (facts.member read.target).name
      .error ⟨read.source, read.span,
        match read.form with
        | .whole => .wholeValueRead target
        | .implicit => .implicitRead target
        | .element _ => .notStepKeyed target⟩

/-- The members that a member reads at the same step. -/
def sameTargets (accesses : List StepAccess) (position : facts.Position) : List facts.Position :=
  ((facts.reads.zip accesses).filter fun entry =>
    decide (entry.1.source = position ∧ entry.2 = .same)).map fun entry => entry.1.target

/-- The plan order of the members, unless they read each other in a cycle at the same step. -/
def orderMembers (accesses : List StepAccess) :
    Except (Violation facts.members.length N) (List facts.Position) :=
  match h : greedyOrder (facts.sameTargets accesses) with
  | .ok order => .ok order
  | .error [] => absurd rfl (stuck_of_greedyOrder h).ne_nil
  | .error (stuck :: others) =>
    match hcycle : extractCycle (facts.sameTargets accesses) stuck (stuck :: others) with
    | [] => absurd hcycle (extractCycle_ne_nil stuck (stuck :: others))
    | start :: rest =>
      let read := (facts.reads.zip accesses).find? fun entry =>
        decide (entry.1.source = start ∧ rest.head? = some entry.1.target ∧ entry.2 = .same)
      .error ⟨start,
        match read with
        | some entry => entry.1.span
        | none => (facts.member start).span,
        .sameStepCycle ((start :: rest).map fun position => (facts.member position).name)⟩

/-- The reads of a member by plan position, each once. -/
def planReads (accesses : List StepAccess) (order : List facts.Position)
    (position : facts.Position) : List GroupRead :=
  ((facts.reads.zip accesses).filter fun entry => decide (entry.1.source = position)).foldl
    (fun reads entry =>
      let read := ⟨order.idxOf entry.1.target, entry.2⟩
      if read ∈ reads then reads else reads ++ [read]) []

def plan (accesses : List StepAccess) (order : List facts.Position) :
    RecurrenceGroupPlan (ResolvedName N A) :=
  ⟨order.map fun position => {
    declaration := (facts.member position).identity
    shape := (facts.shape position).getD .forOver
    reads := facts.planReads accesses order position }⟩

/-- A violation outside the callable's own source is reported as the plain cycle. -/
def report [DecidableEq (DagId N A)] (callable : DagId N A)
    (violation : Violation facts.members.length N) : ComponentRejection (ViolationReport N) :=
  if (facts.member violation.member).owner = callable then
    .recurrence ⟨(facts.member violation.member).name, violation.span, violation.reason⟩
  else .plainCycle

end GroupFacts

/-- Apply the rules to a candidate group of a callable. -/
def checkGroup [DecidableEq (DagId N A)] [DecidableEq (GroupAxis N A G)] (facts : GroupFacts N A G)
    (callable : DagId N A) :
    Except (ComponentRejection (ViolationReport N)) (RecurrenceGroupPlan (ResolvedName N A)) :=
  if facts.positions.any fun position => decide (facts.shape position = some .unfoldOver) then do
    (facts.checkMembers callable).mapError (facts.report callable)
    let accesses ← facts.classifyReads.mapError (facts.report callable)
    let order ← (facts.orderMembers accesses).mapError (facts.report callable)
    return facts.plan accesses order
  else .error .plainCycle

end ProvenGraphcal
