import ProvenGraphcal.Instance.Record
import ProvenGraphcal.Library.InsertionMap
import ProvenGraphcal.Library.Worklist
import ProvenGraphcal.Registry.SlotOrder

/-!
# Runtime units and the declarations their scales read

The scale of a runtime unit is evaluated in the DAG that owns the unit, so it is read in the frame
of that DAG. Constants and the Static tables of a DAG are left out.
-/

namespace ProvenGraphcal.DynamicUnits

variable {N A : Type}

/-! ## Expressions -/

/-- A reference to a unit as the template that writes it names it. -/
structure LocalUnit (N A : Type) where
  definition : ResolvedName N A

inductive ConstRef (N A : Type)
  | decl (target : LocalDecl N A)
  | builtin

mutual

/-- An expression; `leaf` is any literal, local or name without a declaration or unit. -/
inductive Expr (N A : Type)
  | leaf
  | graphRef (target : LocalDecl N A)
  | constRef (target : ConstRef N A)
  | quantityLiteral (unit : List (LocalUnit N A))
  | todoHole (interface : List (Expr N A))
  | binOp (lhs rhs : Expr N A)
  | unaryOp (operand : Expr N A)
  | convert (expr : Expr N A) (target : List (LocalUnit N A))
  | displayTimezone (expr : Expr N A)
  | fieldAccess (expr : Expr N A)
  | fnCall (args : List (Expr N A))
  | ifElse (condition thenBranch elseBranch : Expr N A)
  | constructorCall (fields : List (Expr N A))
  | mapLiteral (entries : List (Expr N A))
  | forComp (body : Expr N A)
  | indexAccess (expr : Expr N A) (args : List (IndexArg N A))
  | scan (source init body : Expr N A)
  | unfold (init body : Expr N A)
  | keyForm (arg : Expr N A)
  | matchArms (scrutinee : Expr N A) (arms : List (Expr N A))
  | dagCall (args : List (Expr N A))

inductive IndexArg (N A : Type)
  | expr (expr : Expr N A)
  | variant
  | var

end

def IndexArg.expr? : IndexArg N A → Option (Expr N A)
  | .expr value => some value
  | .variant | .var => none

namespace Expr

/-- `visit_expr_children`: the immediate children; the target of a conversion is none. -/
def children : Expr N A → List (Expr N A)
  | leaf | graphRef _ | constRef _ | quantityLiteral _ => []
  | todoHole interface => interface
  | binOp lhs rhs => [lhs, rhs]
  | unaryOp operand | convert operand _ | displayTimezone operand | fieldAccess operand => [operand]
  | fnCall args => args
  | ifElse condition thenBranch elseBranch => [condition, thenBranch, elseBranch]
  | constructorCall fields => fields
  | mapLiteral entries => entries
  | forComp body => [body]
  | indexAccess expr args => expr :: args.filterMap IndexArg.expr?
  | scan source init body => [source, init, body]
  | unfold init body => [init, body]
  | keyForm arg => [arg]
  | matchArms scrutinee arms => scrutinee :: arms
  | dagCall args => args

theorem sizeOf_lt_of_mem_args {args : List (IndexArg N A)} {child : Expr N A}
    (h : child ∈ args.filterMap IndexArg.expr?) : sizeOf child < sizeOf args := by
  obtain ⟨arg, harg, hchild⟩ := List.mem_filterMap.mp h
  have hlt := List.sizeOf_lt_of_mem harg
  cases arg with
  | variant | var => cases hchild
  | expr expr =>
    cases hchild
    rw [IndexArg.expr.sizeOf_spec] at hlt
    omega

theorem sizeOf_lt_of_mem_children {expr child : Expr N A} (h : child ∈ expr.children) :
    sizeOf child < sizeOf expr := by
  cases expr with
  | leaf | graphRef | constRef | quantityLiteral => cases h
  | todoHole items | fnCall items | constructorCall items | mapLiteral items | dagCall items =>
    have := List.sizeOf_lt_of_mem (show child ∈ items from h)
    simp only [todoHole.sizeOf_spec, fnCall.sizeOf_spec, constructorCall.sizeOf_spec,
      mapLiteral.sizeOf_spec, dagCall.sizeOf_spec]
    omega
  | indexAccess expr args =>
    rw [indexAccess.sizeOf_spec]
    rcases List.mem_cons.mp h with rfl | h
    · omega
    · have := sizeOf_lt_of_mem_args h
      omega
  | matchArms scrutinee arms =>
    rw [matchArms.sizeOf_spec]
    rcases List.mem_cons.mp h with rfl | h
    · omega
    · have := List.sizeOf_lt_of_mem h
      omega
  | _ =>
    simp only [children, List.mem_cons, List.not_mem_nil, or_false] at h
    rcases h with rfl | rfl | rfl <;> simp <;> omega

mutual

/-- Every occurrence of a subexpression, in pre-order. -/
def visitExpr : Expr N A → List (Expr N A)
  | leaf => [leaf]
  | graphRef target => [graphRef target]
  | constRef target => [constRef target]
  | quantityLiteral unit => [quantityLiteral unit]
  | todoHole interface => todoHole interface :: visitChildren interface
  | binOp lhs rhs => binOp lhs rhs :: (visitExpr lhs ++ visitExpr rhs)
  | unaryOp operand => unaryOp operand :: visitExpr operand
  | convert operand target => convert operand target :: visitExpr operand
  | displayTimezone operand => displayTimezone operand :: visitExpr operand
  | fieldAccess operand => fieldAccess operand :: visitExpr operand
  | fnCall args => fnCall args :: visitChildren args
  | ifElse condition thenBranch elseBranch =>
    ifElse condition thenBranch elseBranch ::
      (visitExpr condition ++ (visitExpr thenBranch ++ visitExpr elseBranch))
  | constructorCall fields => constructorCall fields :: visitChildren fields
  | mapLiteral entries => mapLiteral entries :: visitChildren entries
  | forComp body => forComp body :: visitExpr body
  | indexAccess expr args => indexAccess expr args :: (visitExpr expr ++ visitArgs args)
  | scan source init body =>
    scan source init body :: (visitExpr source ++ (visitExpr init ++ visitExpr body))
  | unfold init body => unfold init body :: (visitExpr init ++ visitExpr body)
  | keyForm arg => keyForm arg :: visitExpr arg
  | matchArms scrutinee arms =>
    matchArms scrutinee arms :: (visitExpr scrutinee ++ visitChildren arms)
  | dagCall args => dagCall args :: visitChildren args

def visitChildren : List (Expr N A) → List (Expr N A)
  | [] => []
  | child :: rest => visitExpr child ++ visitChildren rest

def visitArgs : List (IndexArg N A) → List (Expr N A)
  | [] => []
  | .expr expr :: rest => visitExpr expr ++ visitArgs rest
  | .variant :: rest => visitArgs rest
  | .var :: rest => visitArgs rest

end

theorem visitChildren_eq (items : List (Expr N A)) :
    visitChildren items = items.flatMap visitExpr := by
  induction items with
  | nil => rfl
  | cons child rest ih => rw [visitChildren, ih, List.flatMap_cons]

theorem visitArgs_eq (args : List (IndexArg N A)) :
    visitArgs args = (args.filterMap IndexArg.expr?).flatMap visitExpr := by
  induction args with
  | nil => rfl
  | cons arg rest ih =>
    cases arg with
    | expr expr => rw [visitArgs, ih, List.filterMap_cons, IndexArg.expr?, List.flatMap_cons]
    | variant | var => rw [visitArgs, ih, List.filterMap_cons, IndexArg.expr?]

/-- The visit of an expression goes on with the visits of its children. -/
theorem visitExpr_eq (expr : Expr N A) :
    expr.visitExpr = expr :: expr.children.flatMap visitExpr := by
  cases expr <;> simp [visitExpr, children, visitChildren_eq, visitArgs_eq]

/-- `part` occurs in `expr`. -/
def Occurs (part expr : Expr N A) : Prop :=
  Relation.ReflTransGen (fun parent child => child ∈ parent.children) expr part

theorem mem_visitExpr {part expr : Expr N A} : part ∈ expr.visitExpr ↔ part.Occurs expr := by
  induction hn : sizeOf expr using Nat.strong_induction_on generalizing expr with
  | h n ih =>
    subst hn
    rw [visitExpr_eq, List.mem_cons, List.mem_flatMap, Occurs, Relation.ReflTransGen.cases_head_iff]
    refine or_congr eq_comm ⟨?_, ?_⟩
    · rintro ⟨child, hchild, hpart⟩
      exact ⟨child, hchild, (ih _ (sizeOf_lt_of_mem_children hchild) rfl).mp hpart⟩
    · rintro ⟨child, hchild, hpart⟩
      exact ⟨child, hchild, (ih _ (sizeOf_lt_of_mem_children hchild) rfl).mpr hpart⟩

end Expr

/-- A frame with the runtime units materialized under its owners. -/
structure BodyFrame (N A : Type) [LinearOrder (DagId N A)] where
  names : InstanceFrame N A
  units : List (ResolvedName N A)

section Dags

variable [LinearOrder (DagId N A)] [DecidableEq N]

namespace BodyFrame

def resolve (frame : BodyFrame N A) (handle : LocalDecl N A) : ResolvedName N A :=
  frame.names.rebase handle.definition

/-- The instance's own copy of a runtime unit it materializes, otherwise the definition. -/
def resolveUnit (frame : BodyFrame N A) (unit : LocalUnit N A) : ResolvedName N A :=
  match frame.names with
  | .canonical => unit.definition
  | .instance _ _ =>
    let rebased := frame.names.rebase unit.definition
    if rebased ∈ frame.units then rebased else unit.definition

end BodyFrame

inductive AssertBody (N A : Type)
  | expr (expr : Expr N A)
  | tolerance (actual expected tolerance : Expr N A)

def AssertBody.expressions : AssertBody N A → List (Expr N A)
  | .expr value => [value]
  | .tolerance actual expected limit => [actual, expected, limit]

structure PlotBody (N A : Type) where
  encodings : List (Expr N A)
  markProperties : List (Expr N A)
  properties : List (Expr N A)

structure ParamEntry (N A : Type) where
  identity : ResolvedName N A
  default : Option (Expr N A)

structure NodeEntry (N A : Type) where
  identity : ResolvedName N A
  definition : Expr N A

structure AssertEntry (N A : Type) where
  identity : ResolvedName N A
  body : AssertBody N A

structure PlotEntry (N A : Type) where
  identity : ResolvedName N A
  body : PlotBody N A

/-- A figure or a layer. -/
structure CompositionEntry (N A : Type) where
  identity : ResolvedName N A
  fields : List (Expr N A)

structure DeclTable (N A : Type) where
  params : List (ParamEntry N A)
  nodes : List (NodeEntry N A)
  asserts : List (AssertEntry N A)
  plots : List (PlotEntry N A)
  figures : List (CompositionEntry N A)
  layers : List (CompositionEntry N A)

/-- What declarations read, by what reads it. -/
abbrev ReadMap (N A : Type) [LinearOrder (DagId N A)] [DecidableEq N] :=
  InsertionMap (ResolvedName N A) (Finset (ResolvedName N A))

structure ResolvedDagDependencies (N A : Type) [LinearOrder (DagId N A)] [DecidableEq N] where
  runtimeDeps : ReadMap N A
  assertDeps : ReadMap N A
  presentationDeps : ReadMap N A

/-- The scales of the runtime units of the DAG `owner`. -/
structure ScaleTable (owner : DagId N A) where
  scales : InsertionMap (ResolvedName N A) (Expr N A)
  owned : ∀ unit ∈ scales.keys, unit.owner = owner

/-- One DAG with the instances it includes. -/
structure DagTIR (N A : Type) [LinearOrder (DagId N A)] [DecidableEq N] where
  dagId : DagId N A
  frame : BodyFrame N A
  decls : DeclTable N A
  dynamicUnitScales : ScaleTable dagId
  includes : List (InstanceId N A)
  dependencies : ResolvedDagDependencies N A

instance : SlotBody (DagTIR N A) (DagTIR N A) (DagId N A) where
  ofShared dag := dag
  slotId := DagTIR.dagId
  dagId := DagTIR.dagId
  slotId_ofShared _ := rfl

/-- The DAGs of one file and of what it imports. -/
structure UncheckedTir (N A : Type) [LinearOrder (DagId N A)] [DecidableEq N] where
  dags : DagSlots (DagTIR N A) (DagTIR N A) (DagId N A)
  aligned : dags.Aligned

/-- `collect_unit_names`: the units of the quantity literals, in the order they are found. -/
def collectUnitNames (frame : BodyFrame N A) (expr : Expr N A) : List (ResolvedName N A) :=
  (expr.visitExpr.flatMap fun node =>
    match node with
    | .quantityLiteral unit => unit.map frame.resolveUnit
    | _ => []).dedup

structure ExprDependencies (N A : Type) where
  graphRefs : List (LocalDecl N A)
  constRefs : List (LocalDecl N A)

def collectExprDependencies (expr : Expr N A) : ExprDependencies N A where
  graphRefs := expr.visitExpr.filterMap fun node =>
    match node with
    | .graphRef target => some target
    | _ => none
  constRefs := expr.visitExpr.filterMap fun node =>
    match node with
    | .constRef (.decl target) => some target
    | _ => none

def resolveAll (frame : BodyFrame N A) (references : List (LocalDecl N A)) :
    Finset (ResolvedName N A) :=
  (references.map frame.resolve).toFinset

def runtimeReads (frame : BodyFrame N A) (expr : Expr N A) : Finset (ResolvedName N A) :=
  let dependencies := collectExprDependencies expr
  resolveAll frame (dependencies.graphRefs ++ dependencies.constRefs)

/-- What the scale of each runtime unit reads, and the units it uses. -/
abbrev DirectReads (N A : Type) [LinearOrder (DagId N A)] [DecidableEq N] :=
  InsertionMap (ResolvedName N A) (Finset (ResolvedName N A) × List (ResolvedName N A))

/-- The pending units, the next one first, the visited ones and what they read. -/
structure ScaleWalk (N A : Type) [LinearOrder (DagId N A)] [DecidableEq N] where
  pending : List (ResolvedName N A)
  visited : List (ResolvedName N A)
  reads : Finset (ResolvedName N A)

/-- The runtime units that the scale of `unit` uses, the last one first. -/
def usedUnits (direct : DirectReads N A) (unit : ResolvedName N A) : List (ResolvedName N A) :=
  match direct.get? unit with
  | some (_, used) => (used.filter fun used => direct.contains used).reverse
  | none => []

/-- One iteration over the pending units. -/
def ScaleWalk.step (direct : DirectReads N A) (s : ScaleWalk N A) : Option (ScaleWalk N A) :=
  match s.pending with
  | [] => none
  | unit :: rest =>
    if unit ∈ s.visited then some { s with pending := rest }
    else
      match direct.get? unit with
      | some (own, used) =>
        some ⟨(used.filter fun used => direct.contains used).reverse ++ rest, unit :: s.visited,
          s.reads ∪ own⟩
      | none => some ⟨rest, unit :: s.visited, s.reads⟩

def closureReads (direct : DirectReads N A) (unit : ResolvedName N A) :
    Finset (ResolvedName N A) :=
  (Loop.runWhile (ScaleWalk.step direct) (Worklist.fuel (usedUnits direct) direct.keys [unit])
    ⟨[unit], [], ∅⟩).reads

/-- The direct reads of every runtime unit of the program. -/
def UncheckedTir.direct (tir : UncheckedTir N A) : Option (DirectReads N A) := do
  let dags ← tir.dags.iter
  return .ofList (dags.flatMap fun e => e.2.dynamicUnitScales.scales.entries.map fun scale =>
    (scale.1, (runtimeReads e.2.frame scale.2, collectUnitNames e.2.frame scale.2)))

def UncheckedTir.dynamicUnitScaleReads (tir : UncheckedTir N A) : Option (ReadMap N A) := do
  let direct ← tir.direct
  return .ofList (direct.keys.map fun unit => (unit, closureReads direct unit))

def unitsOf (frame : BodyFrame N A) (expressions : List (Expr N A)) : List (ResolvedName N A) :=
  (expressions.flatMap (collectUnitNames frame)).dedup

/-- What the scales of the units read together. -/
def readsOf (scaleDeps : ReadMap N A) (units : List (ResolvedName N A)) :
    Finset (ResolvedName N A) :=
  (units.filterMap scaleDeps.get?).foldl (· ∪ ·) ∅

/-- `presentation_expressions`. -/
def presentationExpressions (decls : DeclTable N A) :
    List (ResolvedName N A × List (Expr N A)) :=
  (decls.plots.map fun entry => (entry.identity,
    entry.body.encodings ++ entry.body.markProperties ++ entry.body.properties)) ++
  (decls.figures ++ decls.layers).map fun entry => (entry.identity, entry.fields)

/-- Extend the reads of one reader. -/
def extendReads (map : ReadMap N A) (extra : ResolvedName N A × Finset (ResolvedName N A)) :
    ReadMap N A :=
  if extra.2 = ∅ then map
  else map.insert extra.1 ((map.get? extra.1).getD ∅ ∪ extra.2)

/-- `add_dynamic_unit_reads`. -/
def DagTIR.addDynamicUnitReads (dag : DagTIR N A) (scaleDeps : ReadMap N A) : DagTIR N A :=
  let reads := fun expressions => readsOf scaleDeps (unitsOf dag.frame expressions)
  let runtime := (dag.decls.params.filterMap fun entry =>
      entry.default.map fun default => (entry.identity, reads [default])) ++
    dag.decls.nodes.map fun entry => (entry.identity, reads [entry.definition])
  let asserts := dag.decls.asserts.map fun entry => (entry.identity, reads entry.body.expressions)
  let presentations := (presentationExpressions dag.decls).map fun e => (e.1, reads e.2)
  { dag with dependencies := ⟨runtime.foldl extendReads dag.dependencies.runtimeDeps,
      asserts.foldl extendReads dag.dependencies.assertDeps,
      presentations.foldl extendReads dag.dependencies.presentationDeps⟩ }

/-- `augment_runtime_deps_for_dynamic_units`: the local DAGs after it. -/
def UncheckedTir.augmentRuntimeDeps (tir : UncheckedTir N A) : Option (List (DagTIR N A)) := do
  let scaleDeps ← tir.dynamicUnitScaleReads
  if scaleDeps.entries.isEmpty then return tir.dags.localsMut
  else return tir.dags.localsMut.map fun dag => dag.addDynamicUnitReads scaleDeps

end Dags

end ProvenGraphcal.DynamicUnits
