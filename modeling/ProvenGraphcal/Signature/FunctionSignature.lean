import ProvenGraphcal.Algebra.Dimension
import ProvenGraphcal.Library.NonEmpty

/-!
# Function signatures

A validated signature: binders resolved to positions, every dimension variable bound by a bare
parameter before its first compound use, every result variable bound. `tryFromParts` is the only
way to a signature, and the structure carries what it checked.
-/

namespace ProvenGraphcal

/-- A dimension variable, identified by its position; the name is for display only. -/
structure DimBinder (Name : Type) where
  index : ℕ
  name : Name
  deriving DecidableEq

instance {Name : Type} [LinearOrder Name] : LinearOrder (DimBinder Name) :=
  LinearOrder.lift' (fun b => toLex (b.index, b.name)) fun a b h => by
    have hpair : (a.index, a.name) = (b.index, b.name) := toLex.injective h
    cases a
    cases b
    simpa using hpair

structure IndexBinder (Name : Type) where
  index : ℕ
  name : Name
  deriving DecidableEq

/-- A product of dimension-variable powers and a fixed dimension. -/
structure DimMonomial (V B : Type) [LinearOrder V] [LinearOrder B] where
  vars : SparseMonomial V Rational
  fixed : Dimension B

namespace DimMonomial

variable {V B : Type} [LinearOrder V] [LinearOrder B]

/-- The variable when this monomial is exactly one bare variable. -/
def asBareVar (m : DimMonomial V B) : Option V :=
  match m.vars.asSingle with
  | some (var, power) => if power = .one ∧ m.fixed.isDimensionless then some var else none
  | none => none

def tryNew (vars : List (V × Rational)) (fixed : Dimension B) :
    Except (MonomialFactorError V) (DimMonomial V B) := do
  return ⟨← SparseMonomial.tryFromFactors vars, fixed⟩

theorem asBareVar_eq_some {m : DimMonomial V B} {v : V} (h : m.asBareVar = some v) :
    m.vars.factors.entries = [(v, Ratio.one)] ∧ m.fixed = .dimensionless := by
  unfold asBareVar SparseMonomial.asSingle at h
  split at h
  case h_1 var power hsingle =>
    split at hsingle
    case h_1 factor hfactors =>
      cases hsingle
      split_ifs at h with hbare
      cases h
      refine ⟨by rw [hfactors, hbare.1], ?_⟩
      have hempty : m.fixed.exponents.factors.entries = [] := List.isEmpty_iff.mp hbare.2
      apply Dimension.eq_iff_getExponent.mpr
      intro id
      unfold Dimension.getExponent SparseMonomial.get SortedMap.get?
      rw [hempty]
      rfl
    case h_2 => cases hsingle
  case h_2 => cases h

theorem keys_of_asBareVar {m : DimMonomial V B} {v : V} (h : m.asBareVar = some v) :
    m.vars.factors.keys = [v] := by
  rw [SortedMap.keys, (asBareVar_eq_some h).1]
  rfl

end DimMonomial

/-- One scalar value kind supported by a function signature. -/
inductive ScalarValueKind (V B : Type) [LinearOrder V] [LinearOrder B]
  | quantity (monomial : DimMonomial V B)
  | bool
  | int

inductive ParamKind (V I B : Type) [LinearOrder V] [LinearOrder B]
  | scalar (element : ScalarValueKind V B)
  | indexed (element : ScalarValueKind V B) (indexes : NonEmpty I)

structure FunctionParam (Name V I B : Type) [LinearOrder V] [LinearOrder B] where
  name : Name
  kind : ParamKind V I B

inductive StructFieldKind (B : Type) [LinearOrder B]
  | quantity (dimension : Dimension B)
  | bool
  | int

/-- The flattened field layout of a record return. -/
structure StructShape (Name B : Type) [LinearOrder B] where
  fields : List (Name × StructFieldKind B)
  nonempty : fields ≠ []
  distinct : (fields.map Prod.fst).Nodup

inductive ResultKind (S V I B : Type) [LinearOrder V] [LinearOrder B]
  | value (kind : ParamKind V I B)
  | struct (payload : S)

inductive SignatureError (Name : Type)
  | duplicateParamName (name : Name) (first duplicate : ℕ)
  | duplicateDimVar (var : Name)
  | undeclaredDimVar (var : Name)
  | useBeforeBinding (var param : Name)
  | unboundResultVar (var : Name)
  | dimVarNeverBound (var : Name)
  | zeroExponent (var : Name)
  | duplicateMonomialVar (var : Name)
  | duplicateIndexVar (var : Name)
  | undeclaredIndexVar (var : Name)
  | unboundResultIndexVar (var : Name)
  | indexVarNeverUsed (var : Name)
  | emptyStructShape
  | duplicateStructField (field : Name)

namespace ParamKind

variable {V I B : Type} [LinearOrder V] [LinearOrder B]

/-- The scalar kind of the value or of its elements. -/
def element : ParamKind V I B → ScalarValueKind V B
  | scalar element => element
  | indexed element _ => element

def indexes : ParamKind V I B → List I
  | scalar _ => []
  | indexed _ indexes => indexes.items

end ParamKind

namespace ScalarValueKind

variable {V B : Type} [LinearOrder V] [LinearOrder B]

/-- The dimension variables of a scalar kind. -/
def binders : ScalarValueKind V B → List V
  | quantity monomial => monomial.vars.factors.keys
  | bool => []
  | int => []

/-- The variable that a parameter of this kind binds at a call. -/
def bareVar : ScalarValueKind V B → Option V
  | quantity monomial => monomial.asBareVar
  | bool => none
  | int => none

theorem binders_of_bareVar {kind : ScalarValueKind V B} {v : V} (h : kind.bareVar = some v) :
    kind.binders = [v] := by
  cases kind with
  | quantity m => exact DimMonomial.keys_of_asBareVar h
  | bool => cases h
  | int => cases h

end ScalarValueKind

section WellScoped

variable {S Name B : Type} [LinearOrder Name] [LinearOrder B]

/-- A validated parameter: binders are positions. -/
abbrev BoundParam (Name B : Type) [LinearOrder Name] [LinearOrder B] :=
  FunctionParam Name (DimBinder Name) (IndexBinder Name) B

abbrev BoundKind (Name B : Type) [LinearOrder Name] [LinearOrder B] :=
  ParamKind (DimBinder Name) (IndexBinder Name) B

/-- The variables bound by bare parameters, in parameter order. -/
def boundBinders (params : List (BoundParam Name B)) : List (DimBinder Name) :=
  params.filterMap fun p => p.kind.element.bareVar

/-- The axis variables of the indexed parameters, in order. -/
def axisBinders (params : List (BoundParam Name B)) : List (IndexBinder Name) :=
  params.flatMap fun p => p.kind.indexes

/-- Every binder of the kind is a declared variable at its position. -/
structure Resolved (dimVars indexVars : List Name) (kind : BoundKind Name B) : Prop where
  dims : ∀ v ∈ kind.element.binders, dimVars[v.index]? = some v.name
  indexes : ∀ i ∈ kind.indexes, indexVars[i.index]? = some i.name

/-- Every parameter uses only variables that it or a parameter before it binds. -/
def BoundBeforeUse (bound : List (DimBinder Name)) : List (BoundParam Name B) → Prop
  | [] => True
  | p :: rest =>
    (∀ v ∈ p.kind.element.binders, v ∈ bound ++ p.kind.element.bareVar.toList) ∧
      BoundBeforeUse (bound ++ p.kind.element.bareVar.toList) rest

/-- What the validator establishes. -/
structure WellScoped (dimVars indexVars : List Name) (params : List (BoundParam Name B))
    (result : ResultKind S (DimBinder Name) (IndexBinder Name) B) : Prop where
  dimVars_nodup : dimVars.Nodup
  indexVars_nodup : indexVars.Nodup
  paramNames_nodup : (params.map FunctionParam.name).Nodup
  params_resolved : ∀ p ∈ params, Resolved dimVars indexVars p.kind
  result_resolved : ∀ kind, result = .value kind → Resolved dimVars indexVars kind
  boundBeforeUse : BoundBeforeUse [] params
  result_dims_bound : ∀ kind, result = .value kind →
    ∀ v ∈ kind.element.binders, v ∈ boundBinders params
  result_indexes_bound : ∀ kind, result = .value kind →
    ∀ i ∈ kind.indexes, i ∈ axisBinders params
  dims_bound : ∀ i < dimVars.length, ∃ v ∈ boundBinders params, v.index = i
  indexes_used : ∀ i < indexVars.length, ∃ v ∈ axisBinders params, v.index = i

end WellScoped

structure FunctionSignature (S Name B : Type) [LinearOrder Name] [LinearOrder B] where
  dimVars : List Name
  indexVars : List Name
  params : List (BoundParam Name B)
  result : ResultKind S (DimBinder Name) (IndexBinder Name) B
  wellScoped : WellScoped dimVars indexVars params result

end ProvenGraphcal
