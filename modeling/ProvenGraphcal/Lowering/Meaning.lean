import ProvenGraphcal.Lowering.ExprLowerer

/-!
# Meanings of expressions

A lowered tree is evaluated under a `LocalEnv` of local ids, the source under the names in scope.
What a node means is any function of its parts.
-/

namespace ProvenGraphcal.Lowering

variable {N S F R E V D T : Type}

/-- The innermost frame, and the frames around it. -/
structure LocalEnv (V : Type) where
  bindings : List (ℕ × V)
  parents : List (List (ℕ × V))

namespace LocalEnv

def root : LocalEnv V := ⟨[], []⟩

def child (env : LocalEnv V) : LocalEnv V := ⟨[], env.bindings :: env.parents⟩

def getIn (id : ℕ) (frame : List (ℕ × V)) : Option V :=
  (frame.reverse.find? (·.1 = id)).map (·.2)

def get (env : LocalEnv V) (id : ℕ) : Option V :=
  (env.bindings :: env.parents).findSome? (getIn id)

def bindIn (id : ℕ) (value : V) : List (ℕ × V) → List (ℕ × V)
  | [] => [(id, value)]
  | entry :: rest => if entry.1 = id then (id, value) :: rest else entry :: bindIn id value rest

def bind (env : LocalEnv V) (id : ℕ) (value : V) : LocalEnv V :=
  { env with bindings := bindIn id value env.bindings }

/-- One iteration of a binder: every local is bound to the value of its name. -/
def bindAll (env : LocalEnv V) (locals : List (LocalDef N S)) (values : N → V) : LocalEnv V :=
  locals.foldl (fun env local_ => env.bind local_.id (values local_.name)) env

/-- A frame for each layer of locals, bound anew in every iteration. -/
def enter (env : LocalEnv V) (layers : List (List (LocalDef N S))) (earlier : List (N → V))
    (values : N → V) : LocalEnv V :=
  layers.foldl (fun env locals => LocalEnv.bindAll (earlier.foldl
    (fun env values => env.bindAll locals values) env.child) locals values) env

end LocalEnv

/-- What a node's meaning is computed from; a body is run for the names that it binds. -/
inductive Part (N F R E V D : Type)
  | keep (data : F)
  | resolved (result : Except E R)
  | value (read : Option V)
  | body (names : List N) (run : List (N → V) → (N → V) → D)

/-- A comprehension has a frame for every binding, another binder one for all of its locals. -/
def Form.layers (form : Form) : List (LocalDef N S) → List (List (LocalDef N S))
  | [] => []
  | locals => if form = .forComp then locals.map ([·]) else [locals]

def Item.bodies : Item N S F R T → List T
  | .child _ body => [body]
  | _ => []

theorem sizeOf_body {items : List (HirItem N S F R E)} {item : HirItem N S F R E}
    {body : Hir N S F R E} {failure : Option (ExprLowerError N S E)} {form : Form}
    (hitem : item ∈ items) (hbody : body ∈ item.bodies) :
    sizeOf body < sizeOf (Hir.node failure form items) := by
  have hlt := List.sizeOf_lt_of_mem hitem
  cases item with
  | child locals body' =>
    obtain rfl := List.mem_singleton.mp hbody
    simp only [Item.child.sizeOf_spec] at hlt
    simp
    omega
  | _ => cases hbody

def Item.part (item : Item N S F R T) (env : LocalEnv V) (form : Form)
    (run : ∀ body ∈ item.bodies, LocalEnv V → D) : Part N F R E V D :=
  match item with
  | .keep data => .keep data
  | .resolved reference => .resolved (.ok reference)
  | .read _ id => .value (env.get id)
  | .child locals body => .body (locals.map (·.name)) fun earlier values =>
    run body (List.mem_singleton_self body) (env.enter (form.layers locals) earlier values)

/-- The meaning of a lowered expression. -/
def evalHir (meaning : Form → List (Part N F R E V D) → D) (env : LocalEnv V) :
    Hir N S F R E → D
  | .node _ form items => meaning form (items.attach.map fun item =>
    item.1.part env form fun body _ env => evalHir meaning env body)
termination_by tree => sizeOf tree
decreasing_by exact sizeOf_body item.2 ‹_›

def Item.introduced (item : Item N S F R T) (ids : ∀ body ∈ item.bodies, List ℕ) : List ℕ :=
  match item with
  | .child locals body => locals.map (·.id) ++ ids body (List.mem_singleton_self body)
  | _ => []

/-- The ids that the binders of a tree introduce. -/
def Hir.introduced : Hir N S F R E → List ℕ
  | .node _ _ items =>
    items.attach.flatMap fun item => item.1.introduced fun body _ => body.introduced
termination_by tree => sizeOf tree
decreasing_by exact sizeOf_body item.2 ‹_›

theorem evalHir_node (meaning : Form → List (Part N F R E V D) → D) (env : LocalEnv V)
    (failure : Option (ExprLowerError N S E)) (form : Form) (items : List (HirItem N S F R E)) :
    evalHir meaning env (.node failure form items) = meaning form
      (items.map (·.part env form fun body _ env => evalHir meaning env body)) := by
  rw [evalHir]
  exact congrArg (meaning form) (List.attach_map_val (f := fun item : HirItem N S F R E =>
    item.part env form fun body _ env => evalHir meaning env body))

def introducedBy (items : List (HirItem N S F R E)) : List ℕ :=
  items.flatMap (·.introduced fun body _ => body.introduced)

theorem introduced_node (failure : Option (ExprLowerError N S E)) (form : Form)
    (items : List (HirItem N S F R E)) :
    (Hir.node failure form items).introduced = introducedBy items := by
  rw [Hir.introduced, introducedBy, List.flatMap_def, List.flatMap_def]
  exact congrArg List.flatten (List.attach_map_val (f := fun item : HirItem N S F R E =>
    item.introduced fun body _ => body.introduced))

section Source

variable [DecidableEq N]

/-- The names of a binder in front of those in scope. -/
def bindNames (names : List N) (values : N → V) (scope : N → Option V) (name : N) : Option V :=
  if name ∈ names then some (values name) else scope name

def evalAction (scope : N → Option V) (names : List N) :
    Action N S F R E ((N → Option V) → D) → List (Part N F R E V D) × List N
  | .keep data => ([.keep data], names)
  | .resolve result => ([.resolved result], names)
  | .unitName _ => ([], names)
  | .bareName spelled otherwise =>
    match scope spelled.name with
    | some value => ([.value (some value)], names)
    | none => ([.resolved otherwise], names)
  | .lookupLocal spelled => ([.value (scope spelled.name)], names)
  | .allocate spelled => ([], names ++ [spelled.name])
  | .lower run => ([.body [] fun _ _ => run scope], names)
  | .lowerScoped run => ([.body names fun _ values => run (bindNames names values scope)], [])

def evalActions (scope : N → Option V) (names : List N) :
    List (Action N S F R E ((N → Option V) → D)) → List (Part N F R E V D)
  | [] => []
  | action :: rest =>
    let (parts, names) := evalAction scope names action
    parts ++ evalActions scope names rest

/-- The meaning of a source expression where `scope` gives the values of the names. -/
def evalSource (ctx : ExprLoweringContext N S F R E)
    (meaning : Form → List (Part N F R E V D) → D) : Expr N S F → (N → Option V) → D
  | .node kind, scope =>
    let parts := kind.actions ctx Expr.stringSource
    meaning parts.1 (evalActions scope [] (parts.2.attach.map fun action =>
      action.1.map fun child _ => evalSource ctx meaning child))
termination_by expr => sizeOf expr
decreasing_by exact sizeOf_errorChild (actions_children action.1 action.2 child ‹_›)

theorem evalSource_node (ctx : ExprLoweringContext N S F R E)
    (meaning : Form → List (Part N F R E V D) → D) (kind : ExprKind N S F (Expr N S F))
    (scope : N → Option V) : evalSource ctx meaning (.node kind) scope =
      meaning (kind.actions ctx Expr.stringSource).1 (evalActions scope []
        ((kind.actions ctx Expr.stringSource).2.map
          (·.map fun child _ => evalSource ctx meaning child))) := by
  rw [evalSource]
  exact congrArg (fun actions => meaning _ (evalActions scope [] actions)) (List.attach_map_val
    (f := fun action : Action N S F R E (Expr N S F) =>
      action.map fun child _ => evalSource ctx meaning child))

end Source

/-- Locals that may be bound inside `scope`. -/
structure Binds (ctx : ExprLoweringContext N S F R E) (scope locals : List (LocalDef N S)) :
    Prop where
  distinct : locals.Pairwise fun a b => a.name ≠ b.name
  new : ∀ local_ ∈ locals, ∀ outer ∈ scope, outer.name ≠ local_.name
  unreserved : ∀ local_ ∈ locals, ctx.reserved local_.name = false
  noTerm : ∀ local_ ∈ locals, ctx.visibleSpan local_.name = .ok none

/-- Every read is of an enclosing local of its name, and every binder may bind its locals. -/
inductive WellScoped (ctx : ExprLoweringContext N S F R E) :
    List (LocalDef N S) → Hir N S F R E → Prop
  | node {scope : List (LocalDef N S)} {failure : Option (ExprLowerError N S E)} {form : Form}
      {items : List (HirItem N S F R E)}
      (reads : ∀ name id, .read name id ∈ items → ∃ local_ ∈ scope, local_.id = id ∧
        local_.name = name)
      (binders : ∀ locals body, .child locals body ∈ items → Binds ctx scope locals)
      (bodies : ∀ locals body, .child locals body ∈ items → WellScoped ctx (locals ++ scope) body) :
      WellScoped ctx scope (.node failure form items)

/-- A tree without an error. -/
inductive Complete : Hir N S F R E → Prop
  | node {form : Form} {items : List (HirItem N S F R E)}
      (bodies : ∀ locals body, .child locals body ∈ items → Complete body) :
      Complete (.node none form items)

end ProvenGraphcal.Lowering
