import ProvenGraphcal.Algebra.Dimension
import ProvenGraphcal.Algebra.NatPolyForm
import ProvenGraphcal.Eval.RuntimeValue
import ProvenGraphcal.Syntax.Span

/-!
# Resolved type annotations

Named dimensions are folded, generic parameters stay symbolic. `P` are the generic parameters, `B`
the base dimensions and `N` the names of declared indexes and types.
-/

namespace ProvenGraphcal

inductive MulDivOp
  | mul
  | div
  deriving DecidableEq

/-- One term of a dimension product, with its power and the operator before it. -/
inductive ResolvedDimTerm (P B : Type) [LinearOrder B]
  | concrete (dim : Dimension B) (power : Rational) (op : MulDivOp)
  | genericParam (name : P) (power : Rational) (op : MulDivOp) (span : Span)

inductive ResolvedDim (P B : Type) [LinearOrder B]
  | concrete (dim : Dimension B)
  | symbolic (terms : List (ResolvedDimTerm P B)) (span : Span)

inductive ResolvedIndex (P N : Type) [LinearOrder P]
  | concrete (name : N) (span : Span)
  | genericParam (name : P) (span : Span)
  | finite (form : NatPolyForm P) (span : Span)

mutual

/-- The type of one scalar value. -/
inductive ResolvedValueType (P B N : Type) [LinearOrder P] [LinearOrder B]
  | bool
  | int
  | datetime (scale : TimeScale)
  | quantity (dimension : ResolvedDim P B)
  | complex (dimension : ResolvedDim P B) (span : Span)
  | key (index : ResolvedIndex P N) (span : Span)
  | struct (name : N) (genericArgs : List (ResolvedGenericArg P B N)) (span : Span)
  | genericTypeParam (name : P) (span : Span)

inductive ResolvedGenericArg (P B N : Type) [LinearOrder P] [LinearOrder B]
  | dim (dimension : ResolvedDim P B)
  | index (index : ResolvedIndex P N)
  | nat (form : NatPolyForm P) (span : Span)
  | type (valueType : ResolvedValueType P B N)

end

/-- A value type, or one indexed by axes, the outermost first. -/
inductive ResolvedDeclType (P B N : Type) [LinearOrder P] [LinearOrder B]
  | value (valueType : ResolvedValueType P B N)
  | indexed (element : ResolvedValueType P B N) (indexes : NonEmpty (ResolvedIndex P N))

variable {P B N : Type} [LinearOrder P] [LinearOrder B]

/-- The parameter, when the dimension is exactly one generic parameter. -/
def ResolvedDim.loneGenericParam : ResolvedDim P B → Option P
  | .symbolic [.genericParam name power .mul _] _ => if power = .one then some name else none
  | _ => none

omit [LinearOrder P] in
theorem ResolvedDim.loneGenericParam_eq_some {dim : ResolvedDim P B} {name : P}
    (h : dim.loneGenericParam = some name) :
    ∃ inner outer, dim = .symbolic [.genericParam name .one .mul inner] outer := by
  unfold loneGenericParam at h
  split at h
  · rename_i name' power inner outer
    split_ifs at h with hone
    cases h
    rw [hone]
    exact ⟨inner, outer, rfl⟩
  · cases h

/-- A generic parameter with the sort it is used at. -/
inductive SortedParam (P : Type)
  | dim (name : P)
  | index (name : P)
  | nat (name : P)
  | type (name : P)

def ResolvedDimTerm.params : ResolvedDimTerm P B → List (SortedParam P)
  | .concrete _ _ _ => []
  | .genericParam name _ _ _ => [.dim name]

def ResolvedDim.params : ResolvedDim P B → List (SortedParam P)
  | .concrete _ => []
  | .symbolic terms _ => terms.flatMap ResolvedDimTerm.params

def NatPolyForm.variables (form : NatPolyForm P) : List P :=
  form.terms.keys.flatMap fun mono => mono.factors.keys

def NatPolyForm.params (form : NatPolyForm P) : List (SortedParam P) := form.variables.map .nat

def ResolvedIndex.params : ResolvedIndex P N → List (SortedParam P)
  | .concrete _ _ => []
  | .genericParam name _ => [.index name]
  | .finite form _ => form.params

mutual

def ResolvedValueType.params : ResolvedValueType P B N → List (SortedParam P)
  | .bool => []
  | .int => []
  | .datetime _ => []
  | .quantity dimension => dimension.params
  | .complex dimension _ => dimension.params
  | .key index _ => index.params
  | .struct _ genericArgs _ => argParams genericArgs
  | .genericTypeParam name _ => [.type name]

def ResolvedGenericArg.params : ResolvedGenericArg P B N → List (SortedParam P)
  | .dim dimension => dimension.params
  | .index index => index.params
  | .nat form _ => form.params
  | .type valueType => valueType.params

def argParams : List (ResolvedGenericArg P B N) → List (SortedParam P)
  | [] => []
  | arg :: rest => arg.params ++ argParams rest

end

def ResolvedDeclType.params : ResolvedDeclType P B N → List (SortedParam P)
  | .value valueType => valueType.params
  | .indexed element indexes => element.params ++ indexes.items.flatMap ResolvedIndex.params

/-!
# Instantiation of generic parameters

A substitution binds parameters per sort; a binding may itself be symbolic, and an unbound
parameter stays.
-/

inductive SubstitutionError
  | natOverflow (span : Span)
  | dimensionOverflow (span : Span)
  deriving DecidableEq

structure Substitution (P B N : Type) [LinearOrder P] [LinearOrder B] where
  dims : P → Option (ResolvedDim P B)
  indexes : P → Option (ResolvedIndex P N)
  nats : P → Option (NatPolyForm P)
  types : P → Option (ResolvedValueType P B N)

def combineDimOps : MulDivOp → MulDivOp → MulDivOp
  | .mul, .mul => .mul
  | .div, .div => .mul
  | _, _ => .div

def expandDimTerm (outerPower : Rational) (outerOp : MulDivOp) :
    ResolvedDimTerm P B → Except RatioError (ResolvedDimTerm P B)
  | .concrete dim power op => do
    return .concrete dim (← power.mul outerPower) (combineDimOps outerOp op)
  | .genericParam name power op span => do
    return .genericParam name (← power.mul outerPower) (combineDimOps outerOp op) span

/-- One dimension argument, with its outer power and operator, as terms of a product. -/
def expandDimArg (arg : ResolvedDim P B) (outerPower : Rational) (outerOp : MulDivOp) :
    Except RatioError (List (ResolvedDimTerm P B)) :=
  match arg with
  | .concrete dim =>
    if dim.isDimensionless then .ok [] else .ok [.concrete dim outerPower outerOp]
  | .symbolic terms _ => terms.mapM (expandDimTerm outerPower outerOp)

def asConcreteTerm : ResolvedDimTerm P B → Option (Dimension B × Rational × MulDivOp)
  | .concrete dim power op => some (dim, power, op)
  | .genericParam _ _ _ _ => none

def foldConcreteTerm (dimension : Dimension B) (term : Dimension B × Rational × MulDivOp) :
    Except RatioError (Dimension B) := do
  let powered ← term.1.pow term.2.1
  match term.2.2 with
  | .mul => dimension.checkedMul powered
  | .div => dimension.checkedDiv powered

/-- Fold a product of only concrete terms; a product with a generic term stays symbolic. -/
def collapseDimTerms (terms : List (ResolvedDimTerm P B)) (span : Span) :
    Except RatioError (ResolvedDim P B) :=
  match terms.mapM asConcreteTerm with
  | none => .ok (.symbolic terms span)
  | some concrete => do
    return .concrete (← concrete.foldlM foldConcreteTerm .dimensionless)

namespace Substitution

def empty : Substitution P B N := ⟨fun _ => none, fun _ => none, fun _ => none, fun _ => none⟩

/-- The argument's sort selects the map. -/
def bind (s : Substitution P B N) (param : P) : ResolvedGenericArg P B N → Substitution P B N
  | .dim dim => { s with dims := Function.update s.dims param (some dim) }
  | .index index => { s with indexes := Function.update s.indexes param (some index) }
  | .nat form _ => { s with nats := Function.update s.nats param (some form) }
  | .type valueType => { s with types := Function.update s.types param (some valueType) }

/-- Bind the leading parameters to the arguments, pairwise. -/
def forParams (params : List P) (args : List (ResolvedGenericArg P B N)) : Substitution P B N :=
  (params.zip args).foldl (fun s pair => s.bind pair.1 pair.2) empty

variable (s : Substitution P B N)

def substituteDimTerm (term : ResolvedDimTerm P B) :
    Except RatioError (List (ResolvedDimTerm P B)) :=
  match term with
  | .genericParam name power op _ =>
    match s.dims name with
    | some replacement => expandDimArg replacement power op
    | none => .ok [term]
  | .concrete _ _ _ => .ok [term]

def applyDimTerms (terms : List (ResolvedDimTerm P B)) (span : Span) :
    Except SubstitutionError (ResolvedDim P B) :=
  ((terms.foldlM (fun substituted term => do
      return substituted ++ (← s.substituteDimTerm term)) []) >>= fun substituted =>
    collapseDimTerms substituted span).mapError fun _ => .dimensionOverflow span

def applyDimArg (arg : ResolvedDim P B) : Except SubstitutionError (ResolvedDim P B) :=
  -- a lone parameter is replaced verbatim, keeping the replacement's spelling
  match arg.loneGenericParam with
  | some param => .ok ((s.dims param).getD arg)
  | none =>
    match arg with
    | .symbolic terms span => s.applyDimTerms terms span
    | .concrete _ => .ok arg

def applyNat (form : NatPolyForm P) (span : Span) : Except SubstitutionError (NatPolyForm P) :=
  (form.substituteForms s.nats).mapError fun _ => .natOverflow span

def applyIndex (index : ResolvedIndex P N) : Except SubstitutionError (ResolvedIndex P N) :=
  match index with
  | .genericParam param _ => .ok ((s.indexes param).getD index)
  | .finite form span => do return .finite (← s.applyNat form span) span
  | .concrete _ _ => .ok index

mutual

def applyValue : ResolvedValueType P B N → Except SubstitutionError (ResolvedValueType P B N)
  | .key index span => do return .key (← s.applyIndex index) span
  | .genericTypeParam param span => .ok ((s.types param).getD (.genericTypeParam param span))
  | .quantity dimension => do return .quantity (← s.applyDimArg dimension)
  | .complex dimension span => do return .complex (← s.applyDimArg dimension) span
  | .struct name genericArgs span => do return .struct name (← applyGenericArgs genericArgs) span
  | .bool => .ok .bool
  | .int => .ok .int
  | .datetime scale => .ok (.datetime scale)

def applyGenericArg : ResolvedGenericArg P B N → Except SubstitutionError (ResolvedGenericArg P B N)
  | .dim dim => do return .dim (← s.applyDimArg dim)
  | .index index => do return .index (← s.applyIndex index)
  | .nat form span => do return .nat (← s.applyNat form span) span
  | .type valueType => do return .type (← applyValue valueType)

def applyGenericArgs :
    List (ResolvedGenericArg P B N) → Except SubstitutionError (List (ResolvedGenericArg P B N))
  | [] => .ok []
  | arg :: rest => do
    let arg ← applyGenericArg arg
    let rest ← applyGenericArgs rest
    return arg :: rest

end

/-- Replace every bound parameter in a declaration or field type. -/
def apply : ResolvedDeclType P B N → Except SubstitutionError (ResolvedDeclType P B N)
  | .value valueType => do return .value (← s.applyValue valueType)
  | .indexed element indexes => do
    return .indexed (← s.applyValue element) (← indexes.tryMapRef s.applyIndex)

end Substitution

end ProvenGraphcal
