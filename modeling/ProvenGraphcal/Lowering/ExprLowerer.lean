import Mathlib.Algebra.Group.Nat.Defs
import Mathlib.Data.List.Basic

/-!
# Lowering of expressions

The lowerer keeps a stack of lexical scopes and the next local id. Lowering a node takes its parts
in the source's order, and a node that fails is replaced by its error and its children, lowered
again outside its binders. What is resolved without looking at a local is a fragment.
-/

namespace ProvenGraphcal.Lowering

/-- A spelled local. -/
structure Spelled (N S : Type) where
  name : N
  span : S

structure LocalDef (N S : Type) where
  id : ℕ
  name : N
  span : S

inductive ExprLowerError (N S E : Type)
  | tooManyLocals (span : S)
  | duplicateLocalBinding (name : N) (first duplicate : S)
  | localBindingShadowsTerm (name : N) (original : Option S) (duplicate : S)
  | unknownLocalRef (name : N) (span : S)
  | unitNameIsLocal (local_ : S) (name : N) (span : S)
  | resolve (error : E)

/-- A term of a unit, which may be a bare name. -/
structure UnitTerm (N S F : Type) where
  bare : Option (Spelled N S)
  reference : F

inductive IndexArg (N S F T : Type)
  | variant (reference : F)
  | var (ident : Spelled N S)
  | expr (expr : T)

/-- An arm; a wildcard of its pattern binds no variable. -/
structure MatchArm (N S F T : Type) where
  pattern : F
  bindings : List (Option (Spelled N S))
  body : T

inductive ParamBinding (F T : Type)
  | unmarked (name : F) (value : T)
  | static (binding : F) (value : T)

def ParamBinding.value {F T : Type} : ParamBinding F T → T
  | .unmarked _ value | .static _ value => value

inductive TodoDependency (N S F : Type)
  | read (target : F)
  | element (target : F) (keys : List (Spelled N S))
  | local (local_ : Spelled N S)

/-- The kinds of expressions, over the type `T` of their sub-expressions. -/
inductive ExprKind (N S F T : Type)
  | literal (value : F)
  | stringLiteral (source : F)
  | path (path : F) (bare : Option (Spelled N S))
  | indexLabel (reference : F)
  | graphRef (reference : F)
  | binOp (op : F) (exactExponent : Option F) (lhs rhs : T)
  | unaryOp (op : F) (operand : T)
  | fnCall (callee : F) (args : List T)
  | «if» (condition thenBranch elseBranch : T)
  | quantityLiteral (value : F) (unit : List (UnitTerm N S F))
  | convert (expr : T) (target : List (UnitTerm N S F))
  | displayTimezone (expr : T) (timezone : F)
  | fieldAccess (expr : T) (field : F)
  | constructorCall (callee : F) (fields : List (F × T))
  | mapLiteral (entries : List (F × T))
  | forComp (bindings : List (Spelled N S × F)) (body : T)
  | indexAccess (expr : T) (args : List (IndexArg N S F T))
  | scan (source init : T) (accName valName : Spelled N S) (body : T)
  | unfold (axis : F) (init : T) (prevStateName prevIndexName indexName : Spelled N S) (body : T)
  | keyForm (axis : F) (arg : T)
  | «match» (scrutinee : T) (arms : List (MatchArm N S F T))
  | inlineDagRef (path : F) (args : List (ParamBinding F T)) (output : F)
  | todoHole (hole : F) (interface : List (TodoDependency N S F))

inductive Expr (N S F : Type)
  | node (kind : ExprKind N S F (Expr N S F))

variable {N S F R E T : Type}

def Expr.stringSource : Expr N S F → Option F
  | .node (.stringLiteral source) => some source
  | .node _ => none

/-- The expressions that the children of a failed node are lowered from. -/
def ExprKind.errorChildren : ExprKind N S F T → List T
  | .literal _ | .stringLiteral _ | .path _ _ | .indexLabel _ | .graphRef _
  | .quantityLiteral _ _ | .todoHole _ _ => []
  | .binOp _ _ lhs rhs => [lhs, rhs]
  | .unaryOp _ operand => [operand]
  | .fnCall _ args => args
  | .if condition thenBranch elseBranch => [condition, thenBranch, elseBranch]
  | .convert expr _ | .displayTimezone expr _ | .fieldAccess expr _ => [expr]
  | .constructorCall _ fields => fields.map (·.2)
  | .mapLiteral entries => entries.map (·.2)
  | .forComp _ body => [body]
  | .indexAccess expr args => expr :: args.filterMap fun
    | .expr expr => some expr
    | _ => none
  | .scan source init _ _ body => [source, init, body]
  | .unfold _ init _ _ _ body => [init, body]
  | .keyForm _ arg => [arg]
  | .match scrutinee arms => scrutinee :: arms.map (·.body)
  | .inlineDagRef _ args _ => args.map (·.value)

/-- What a lowered node is. -/
inductive Form
  | error | literal | stringLiteral | path | indexLabel | graphRef | binOp | unaryOp | fnCall | if_
  | quantityLiteral | convert | displayTimezone | fieldAccess | constructorCall | mapLiteral
  | forComp | indexAccess | scan | unfold | keyForm | match_ | dagCall | todoHole
  deriving DecidableEq

/-- A part of a lowered node; a child lies in the scope of the locals that it binds. -/
inductive Item (N S F R T : Type)
  | keep (data : F)
  | resolved (reference : R)
  | read (name : N) (id : ℕ)
  | child (locals : List (LocalDef N S)) (body : T)

/-- A lowered expression. The children of an error bind nothing. -/
inductive Hir (N S F R E : Type)
  | node (failure : Option (ExprLowerError N S E)) (form : Form)
      (items : List (Item N S F R (Hir N S F R E)))

inductive Site
  | bareName | constRef | indexVariant | graphRef | callable | unit | timeZone | constructorHead
  | mapEntryKeys | index | keyFormAxis | pattern | modulePath | todoType

/-- What lowering asks of the resolver, the overlay and the time zones. -/
structure ExprLoweringContext (N S F R E : Type) where
  reserved : N → Bool
  visibleSpan : N → Except E (Option S)
  resolve : Site → F → Except E R
  /-- A name in the namespace of a call's target. -/
  resolveParam : R → F → Except E R
  resolveStatic : R → F → Except E R
  resolveOutput : R → F → Except E R
  /-- The literal that a string argument of a function becomes. -/
  literalArgument : R → List (Option F) → ℕ → Option (Except E R)

/-- The scopes, the innermost first. -/
structure ExprLowerer (N S : Type) where
  localScopes : List (List (LocalDef N S))
  nextLocal : ℕ

namespace ExprLowerer

def new : ExprLowerer N S := ⟨[], 0⟩

/-- The ids are `u32`. -/
def allocateLocal (lowerer : ExprLowerer N S) (spelled : Spelled N S) :
    Except (ExprLowerError N S E) (LocalDef N S × ExprLowerer N S) :=
  if lowerer.nextLocal + 1 < 2 ^ 32 then
    .ok (⟨lowerer.nextLocal, spelled.name, spelled.span⟩,
      { lowerer with nextLocal := lowerer.nextLocal + 1 })
  else .error (.tooManyLocals spelled.span)

variable [DecidableEq N]

def visibleLocal (lowerer : ExprLowerer N S) (name : N) : Option (LocalDef N S) :=
  lowerer.localScopes.findSome? fun scope => scope.find? (·.name = name)

/-- One more binding of the scope to be pushed. -/
def addBinding (ctx : ExprLoweringContext N S F R E) (lowerer : ExprLowerer N S)
    (scope : List (LocalDef N S)) (binding : LocalDef N S) :
    Except (ExprLowerError N S E) (List (LocalDef N S)) :=
  match (scope.find? (·.name = binding.name)).or (lowerer.visibleLocal binding.name) with
  | some first => .error (.duplicateLocalBinding binding.name first.span binding.span)
  | none =>
    match ctx.visibleSpan binding.name with
    | .error source => .error (.resolve source)
    | .ok visible =>
      if ctx.reserved binding.name ∨ visible.isSome then
        .error (.localBindingShadowsTerm binding.name visible binding.span)
      else .ok (scope ++ [binding])

def pushScope (ctx : ExprLoweringContext N S F R E) (lowerer : ExprLowerer N S)
    (bindings : List (LocalDef N S)) : Except (ExprLowerError N S E) (ExprLowerer N S) := do
  let scope ← bindings.foldlM (lowerer.addBinding ctx) []
  return { lowerer with localScopes := scope :: lowerer.localScopes }

def popScope (lowerer : ExprLowerer N S) : ExprLowerer N S :=
  { lowerer with localScopes := lowerer.localScopes.tail }

end ExprLowerer

/-! ## The parts of a node, in the source's order -/

inductive Action (N S F R E T : Type)
  | keep (data : F)
  | resolve (result : Except E R)
  /-- A unit name that no visible local may have. -/
  | unitName (spelled : Spelled N S)
  /-- A bare name: a visible local, or what it resolves to. -/
  | bareName (spelled : Spelled N S) (otherwise : Except E R)
  | lookupLocal (spelled : Spelled N S)
  | allocate (spelled : Spelled N S)
  | lower (expr : T)
  /-- A body in the scope of the locals allocated since the last one. -/
  | lowerScoped (body : T)

def Action.children : Action N S F R E T → List T
  | .lower child | .lowerScoped child => [child]
  | _ => []

def Action.map {U : Type} (action : Action N S F R E T) (f : ∀ child ∈ action.children, U) :
    Action N S F R E U :=
  match action with
  | .keep data => .keep data
  | .resolve result => .resolve result
  | .unitName spelled => .unitName spelled
  | .bareName spelled otherwise => .bareName spelled otherwise
  | .lookupLocal spelled => .lookupLocal spelled
  | .allocate spelled => .allocate spelled
  | .lower expr => .lower (f expr (List.mem_singleton_self expr))
  | .lowerScoped body => .lowerScoped (f body (List.mem_singleton_self body))

def unitActions (ctx : ExprLoweringContext N S F R E) (terms : List (UnitTerm N S F)) :
    List (Action N S F R E T) :=
  terms.flatMap fun term =>
    match term.bare with
    | some spelled => [.unitName spelled, .resolve (ctx.resolve .unit term.reference)]
    | none => [.resolve (ctx.resolve .unit term.reference)]

def dependencyActions (ctx : ExprLoweringContext N S F R E) :
    TodoDependency N S F → List (Action N S F R E T)
  | .read target => [.resolve (ctx.resolve .graphRef target)]
  | .element target keys => .resolve (ctx.resolve .graphRef target) :: keys.map .lookupLocal
  | .local local_ => [.lookupLocal local_]

/-- The arguments of a function: some string literals become literals of their own. -/
def argumentActions (ctx : ExprLoweringContext N S F R E) (source : T → Option F) (function : R)
    (args : List T) : List (Action N S F R E T) :=
  args.mapIdx fun i arg =>
    match ctx.literalArgument function (args.map source) i with
    | some literal => .resolve literal
    | none => .lower arg

def paramActions (ctx : ExprLoweringContext N S F R E) (target : R) :
    ParamBinding F T → List (Action N S F R E T)
  | .unmarked name value => [.resolve (ctx.resolveParam target name), .lower value]
  | .static binding _ => [.resolve (ctx.resolveStatic target binding)]

/-- What `lower_expr_inner` does with a node, part by part. -/
def ExprKind.actions (ctx : ExprLoweringContext N S F R E) (source : T → Option F) :
    ExprKind N S F T → Form × List (Action N S F R E T)
  | .literal value => (.literal, [.keep value])
  | .stringLiteral value => (.stringLiteral, [.keep value])
  | .path name (some ident) => (.path, [.bareName ident (ctx.resolve .bareName name)])
  | .path name none => (.path, [.resolve (ctx.resolve .constRef name)])
  | .indexLabel reference => (.indexLabel, [.resolve (ctx.resolve .indexVariant reference)])
  | .graphRef reference => (.graphRef, [.resolve (ctx.resolve .graphRef reference)])
  | .binOp op none lhs rhs => (.binOp, [.keep op, .lower lhs, .lower rhs])
  | .binOp op (some exponent) lhs _ => (.binOp, [.keep op, .lower lhs, .keep exponent])
  | .unaryOp op operand => (.unaryOp, [.keep op, .lower operand])
  | .fnCall callee args =>
    (.fnCall, match ctx.resolve .callable callee with
      | .error error => [.resolve (.error error)]
      | .ok function => .resolve (.ok function) :: argumentActions ctx source function args)
  | .if condition thenBranch elseBranch =>
    (.if_, [.lower condition, .lower thenBranch, .lower elseBranch])
  | .quantityLiteral value unit => (.quantityLiteral, .keep value :: unitActions ctx unit)
  | .convert expr target => (.convert, .lower expr :: unitActions ctx target)
  | .displayTimezone expr timezone =>
    (.displayTimezone, [.lower expr, .resolve (ctx.resolve .timeZone timezone)])
  | .fieldAccess expr field => (.fieldAccess, [.lower expr, .keep field])
  | .constructorCall callee fields =>
    (.constructorCall, .resolve (ctx.resolve .constructorHead callee) ::
      fields.flatMap fun field => [.keep field.1, .lower field.2])
  | .mapLiteral entries =>
    (.mapLiteral, entries.flatMap fun entry =>
      [.resolve (ctx.resolve .mapEntryKeys entry.1), .lower entry.2])
  | .forComp bindings body =>
    (.forComp, (bindings.flatMap fun binding =>
      [.allocate binding.1, .resolve (ctx.resolve .index binding.2)]) ++ [.lowerScoped body])
  | .indexAccess expr args =>
    (.indexAccess, .lower expr :: args.map fun
      | .variant reference => .resolve (ctx.resolve .indexVariant reference)
      | .var ident => .lookupLocal ident
      | .expr expr => .lower expr)
  | .scan source init accName valName body =>
    (.scan, [.lower source, .lower init, .allocate accName, .allocate valName, .lowerScoped body])
  | .unfold axis init prevStateName prevIndexName indexName body =>
    (.unfold, [.resolve (ctx.resolve .index axis), .lower init, .allocate prevStateName,
      .allocate prevIndexName, .allocate indexName, .lowerScoped body])
  | .keyForm axis arg => (.keyForm, [.resolve (ctx.resolve .keyFormAxis axis), .lower arg])
  | .match scrutinee arms =>
    (.match_, .lower scrutinee :: arms.flatMap fun arm =>
      .resolve (ctx.resolve .pattern arm.pattern) ::
        (arm.bindings.filterMap id).map .allocate ++ [.lowerScoped arm.body])
  | .inlineDagRef module args output =>
    (.dagCall, match ctx.resolve .modulePath module with
      | .error error => [.resolve (.error error)]
      | .ok target => .resolve (.ok target) :: args.flatMap (paramActions ctx target) ++
          [.resolve (ctx.resolveOutput target output)])
  | .todoHole hole interface =>
    (.todoHole, .resolve (ctx.resolve .todoType hole) :: interface.flatMap (dependencyActions ctx))

section Lowering

variable [DecidableEq N] (ctx : ExprLoweringContext N S F R E)

abbrev Lower (N S F R E : Type) := ExprLowerer N S → Hir N S F R E × ExprLowerer N S

abbrev HirItem (N S F R E : Type) := Item N S F R (Hir N S F R E)

/-- One part: its item, if it leaves one, and the locals that still wait for their scope. -/
def perform (pending : List (LocalDef N S)) (lowerer : ExprLowerer N S) :
    Action N S F R E (Lower N S F R E) →
      Except (ExprLowerError N S E) (List (HirItem N S F R E) × List (LocalDef N S)) ×
        ExprLowerer N S
  | .keep data => (.ok ([.keep data], pending), lowerer)
  | .resolve (.ok reference) => (.ok ([.resolved reference], pending), lowerer)
  | .resolve (.error error) => (.error (.resolve error), lowerer)
  | .unitName spelled =>
    match lowerer.visibleLocal spelled.name with
    | some def_ => (.error (.unitNameIsLocal def_.span spelled.name spelled.span), lowerer)
    | none => (.ok ([], pending), lowerer)
  | .bareName spelled otherwise =>
    match lowerer.visibleLocal spelled.name, otherwise with
    | some def_, _ => (.ok ([.read spelled.name def_.id], pending), lowerer)
    | none, .ok reference => (.ok ([.resolved reference], pending), lowerer)
    | none, .error error => (.error (.resolve error), lowerer)
  | .lookupLocal spelled =>
    match lowerer.visibleLocal spelled.name with
    | some def_ => (.ok ([.read spelled.name def_.id], pending), lowerer)
    | none => (.error (.unknownLocalRef spelled.name spelled.span), lowerer)
  | .allocate spelled =>
    match lowerer.allocateLocal spelled with
    | .ok (def_, lowerer) => (.ok ([], pending ++ [def_]), lowerer)
    | .error error => (.error error, lowerer)
  | .lower lower =>
    let (expr, lowerer) := lower lowerer
    (.ok ([.child [] expr], pending), lowerer)
  | .lowerScoped lower =>
    match lowerer.pushScope ctx pending with
    | .error error => (.error error, lowerer)
    | .ok lowerer =>
      let (body, lowerer) := lower lowerer
      (.ok ([.child pending body], []), lowerer.popScope)

/-- The parts in order, up to the first that fails. -/
def performAll (pending : List (LocalDef N S)) (lowerer : ExprLowerer N S) :
    List (Action N S F R E (Lower N S F R E)) →
      Except (ExprLowerError N S E) (List (HirItem N S F R E)) × ExprLowerer N S
  | [] => (.ok [], lowerer)
  | action :: rest =>
    match perform ctx pending lowerer action with
    | (.error error, lowerer) => (.error error, lowerer)
    | (.ok (items, pending), lowerer) =>
      match performAll pending lowerer rest with
      | (.error error, lowerer) => (.error error, lowerer)
      | (.ok more, lowerer) => (.ok (items ++ more), lowerer)

def lowerChildren (lowerer : ExprLowerer N S) :
    List (Lower N S F R E) → List (HirItem N S F R E) × ExprLowerer N S
  | [] => ([], lowerer)
  | lower :: rest =>
    let (expr, lowerer) := lower lowerer
    let (items, lowerer) := lowerChildren lowerer rest
    (.child [] expr :: items, lowerer)

/-- A node from its parts; on failure, the checkpoint is restored before its children. -/
def lowerNode (form : Form) (actions : List (Action N S F R E (Lower N S F R E)))
    (children : List (Lower N S F R E)) : Lower N S F R E := fun checkpoint =>
  match performAll ctx [] checkpoint actions with
  | (.ok items, lowerer) => (.node none form items, lowerer)
  | (.error error, lowerer) =>
    let depth := lowerer.localScopes.length - checkpoint.localScopes.length
    let (items, lowerer) := lowerChildren ⟨lowerer.localScopes.drop depth, checkpoint.nextLocal⟩
      children
    (.node (some error) .error items, lowerer)

end Lowering

theorem sizeOf_errorChild {kind : ExprKind N S F (Expr N S F)} {child : Expr N S F}
    (h : child ∈ kind.errorChildren) : sizeOf child < sizeOf (Expr.node kind) := by
  have hmem : ∀ {A : Type} [SizeOf A] {a : A} {as : List A}, a ∈ as → sizeOf a < sizeOf as :=
    fun h => List.sizeOf_lt_of_mem h
  rw [Expr.node.sizeOf_spec]
  cases kind with
  | fnCall callee args =>
    have hlt : sizeOf child < sizeOf args := hmem h
    simp
    omega
  | constructorCall callee pairs | mapLiteral pairs =>
    obtain ⟨⟨key, expr⟩, hpair, rfl⟩ := List.mem_map.mp h
    have hlt := hmem hpair
    simp only [Prod.mk.sizeOf_spec] at hlt
    simp
    omega
  | indexAccess expr args =>
    rcases List.mem_cons.mp h with rfl | h
    · simp
      omega
    · obtain ⟨arg, harg, heq⟩ := List.mem_filterMap.mp h
      have hlt := hmem harg
      cases arg with
      | expr inner =>
        cases heq
        simp only [IndexArg.expr.sizeOf_spec] at hlt
        simp
        omega
      | variant reference => cases heq
      | var ident => cases heq
  | «match» scrutinee arms =>
    rcases List.mem_cons.mp h with rfl | h
    · simp
      omega
    · obtain ⟨⟨pattern, bindings, body⟩, harm, rfl⟩ := List.mem_map.mp h
      have hlt := hmem harm
      simp only [MatchArm.mk.sizeOf_spec] at hlt
      simp
      omega
  | inlineDagRef path args output =>
    obtain ⟨arg, harg, rfl⟩ := List.mem_map.mp h
    have hlt := hmem harg
    cases arg <;> simp [ParamBinding.value] at hlt ⊢ <;> omega
  | _ =>
    simp only [ExprKind.errorChildren, List.mem_cons, List.not_mem_nil, or_false] at h <;>
      rcases h with rfl | rfl | rfl <;> simp <;> omega

theorem actions_children {ctx : ExprLoweringContext N S F R E} {source : T → Option F}
    {kind : ExprKind N S F T} : ∀ action ∈ (kind.actions ctx source).2,
      ∀ child ∈ action.children, child ∈ kind.errorChildren := by
  cases kind with
  | path name bare => cases bare <;> simp [ExprKind.actions, Action.children]
  | binOp op exponent =>
    cases exponent <;> simp [ExprKind.actions, Action.children, ExprKind.errorChildren]
  | fnCall callee args =>
    have hargument : ∀ {function : R}, ∀ action ∈ argumentActions ctx source function args,
        ∀ child ∈ action.children, child ∈ args := by
      intro function action haction child hchild
      obtain ⟨i, hi, rfl⟩ := List.mem_mapIdx.mp haction
      split at hchild
      · cases hchild
      · exact List.mem_singleton.mp hchild ▸ List.getElem_mem hi
    simp only [ExprKind.actions]
    grind [Action.children, ExprKind.errorChildren]
  | inlineDagRef path args output =>
    have hparam : ∀ {target : R} {binding : ParamBinding F T}, ∀ action ∈ paramActions ctx target
        binding, ∀ child ∈ action.children, child = binding.value := by
      intro target binding
      cases binding <;> simp [paramActions, Action.children, ParamBinding.value]
    simp only [ExprKind.actions]
    grind [Action.children, ExprKind.errorChildren]
  | todoHole hole interface =>
    have hdependency : ∀ {dependency : TodoDependency N S F},
        ∀ action ∈ dependencyActions (T := T) ctx dependency, action.children = [] := by
      intro dependency
      cases dependency <;> simp [dependencyActions, Action.children]
    simp only [ExprKind.actions]
    grind [Action.children]
  | quantityLiteral | convert | constructorCall | mapLiteral | forComp | indexAccess | «match» =>
    simp only [ExprKind.actions, ExprKind.errorChildren, unitActions]
    grind [Action.children]
  | _ => simp [ExprKind.actions, Action.children, ExprKind.errorChildren]

def lowerExpr [DecidableEq N] (ctx : ExprLoweringContext N S F R E) :
    Expr N S F → Lower N S F R E
  | .node kind =>
    let parts := kind.actions ctx Expr.stringSource
    lowerNode ctx parts.1
      (parts.2.attach.map fun action => action.1.map fun child _ => lowerExpr ctx child)
      (kind.errorChildren.attach.map fun child => lowerExpr ctx child.1)
termination_by expr => sizeOf expr
decreasing_by
  · exact sizeOf_errorChild (actions_children action.1 action.2 child ‹_›)
  · exact sizeOf_errorChild child.2

theorem lowerExpr_node [DecidableEq N] (ctx : ExprLoweringContext N S F R E)
    (kind : ExprKind N S F (Expr N S F)) : lowerExpr ctx (.node kind) =
      lowerNode ctx (kind.actions ctx Expr.stringSource).1
        ((kind.actions ctx Expr.stringSource).2.map (·.map fun child _ => lowerExpr ctx child))
        (kind.errorChildren.map (lowerExpr ctx)) := by
  rw [lowerExpr]
  congr 1
  · exact List.attach_map_val (f := fun action : Action N S F R E (Expr N S F) =>
      action.map fun child _ => lowerExpr ctx child)
  · exact List.attach_map_val (f := lowerExpr ctx)

end ProvenGraphcal.Lowering
