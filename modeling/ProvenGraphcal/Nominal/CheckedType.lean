import ProvenGraphcal.Library.Fuel
import ProvenGraphcal.Nominal.TypeDefs

/-!
# Checked types

The type of a declaration or an expression. Its finite axes `F` and Nat arguments `M` are fully
bound in a concrete type; in a symbolic one they may mention Nat parameters.
-/

namespace ProvenGraphcal.Nominal

/-- A finite axis is validated as soon as its form is constant. -/
inductive FiniteIndexRef (P : Type) [LinearOrder P]
  | concrete (index : FiniteIndex)
  | symbolic (form : NatPolyForm P) (hform : form.constantValue = none)

inductive IndexTypeRef (N F : Type)
  | declared (name : N)
  | finite (axis : F)

mutual

inductive CheckedType (B N F M : Type) [LinearOrder B]
  | quantity (dimension : Dimension B)
  | complex (dimension : Dimension B)
  | bool
  | int
  | datetime (scale : TimeScale)
  | key (index : IndexTypeRef N F)
  | struct (identity : N) (args : List (CheckedGenericArg B N F M))
  | indexed (element : CheckedType B N F M) (index : IndexTypeRef N F)

inductive CheckedGenericArg (B N F M : Type) [LinearOrder B]
  | dim (dimension : Dimension B)
  | index (index : IndexTypeRef N F)
  | nat (form : M)
  | type (type : CheckedType B N F M)

end

abbrev ConcreteType (B N : Type) [LinearOrder B] := CheckedType B N FiniteIndex U64

abbrev ConcreteArg (B N : Type) [LinearOrder B] := CheckedGenericArg B N FiniteIndex U64

abbrev SymbolicType (P B N : Type) [LinearOrder P] [LinearOrder B] :=
  CheckedType B N (FiniteIndexRef P) (NatPolyForm P)

abbrev SymbolicArg (P B N : Type) [LinearOrder P] [LinearOrder B] :=
  CheckedGenericArg B N (FiniteIndexRef P) (NatPolyForm P)

inductive UnboundGeneric (P : Type) [LinearOrder P]
  | quantityDimension (name : Option P)
  | complexDimension (name : Option P)
  | dimensionArgument (name : Option P)
  | typeParameter (name : P)
  | indexParameter (name : P)
  | indexParameterAsType (name : P)
  | natArgument (form : NatPolyForm P)
  | natAxis (form : NatPolyForm P)

inductive SymbolicGenericArgument (P B N : Type) [LinearOrder P] [LinearOrder B]
  | index (index : IndexTypeRef N (FiniteIndexRef P))
  | nat (form : NatPolyForm P)
  | type (type : SymbolicType P B N)

/-- Where a nominal application goes wrong; `E` are the errors of a domain bound. -/
inductive NominalError (P B N E : Type) [LinearOrder P] [LinearOrder B]
  | unknownDimension (name : N)
  | dimensionOverflow
  | unavailableDimensionTarget (port target : N)
  | unknownIndex (name : N)
  | unknownStructType (name : N)
  | genericArgCount (typeName : N) (required max got : ℕ)
  | registeredSort (parameter : String)
  | substitution (error : SubstitutionError)
  | unboundGeneric (generic : UnboundGeneric P)
  | invalidFiniteIndexCardinality (error : IndexCardinalityError)
  | tooManyGenericArgs (typeName : N) (maximum got : ℕ)
  | concreteGenericArgCount (typeName : N) (expected got : ℕ)
  | nonConcreteGenericArgument (parameter : String) (argument : SymbolicGenericArgument P B N)
  | missingMetadata (identity : N)
  | unavailableIndex (index : IndexTypeRef N (FiniteIndexRef P))
  | materializedShapeTooLarge (maximum : ℕ)
  | unresolvedFiniteIndexObligation (index : IndexTypeRef N (FiniteIndexRef P))
  | domainBound (error : E)
  | unknownType (identity : N)
  | requiredType (identity : N)
  | genericArityMismatch (identity : N) (expected actual : ℕ)
  | genericSortMismatch (identity : N) (parameter : String) (expected actual : GenericConstraint)
  | indexedTypeArgument (identity : N) (parameter : String)

variable {P B N E : Type} [LinearOrder P] [LinearOrder B]

def toFiniteIndex (form : NatPolyForm P) : Except (NominalError P B N E) FiniteIndex :=
  match form.constantValue with
  | none => .error (.unboundGeneric (.natAxis form))
  | some size => (IndexCardinality.tryFromU64 size).mapError .invalidFiniteIndexCardinality

def indexTypeRef : ResolvedIndex P N → Except (NominalError P B N E) (IndexTypeRef N FiniteIndex)
  | .concrete name _ => .ok (.declared name)
  | .finite form _ => do return .finite (← toFiniteIndex form)
  | .genericParam name _ => .error (.unboundGeneric (.indexParameter name))

mutual

def toCheckedType : ResolvedValueType P B N → Except (NominalError P B N E) (ConcreteType B N)
  | .bool => .ok .bool
  | .int => .ok .int
  | .datetime scale => .ok (.datetime scale)
  | .quantity (.concrete dim) => .ok (.quantity dim)
  | .quantity (.symbolic terms span) =>
    .error (.unboundGeneric (.quantityDimension (ResolvedDim.symbolic terms span).loneGenericParam))
  | .complex (.concrete dim) _ => .ok (.complex dim)
  | .complex (.symbolic terms span) _ =>
    .error (.unboundGeneric (.complexDimension (ResolvedDim.symbolic terms span).loneGenericParam))
  | .key index _ => do return .key (← indexTypeRef index)
  | .struct name genericArgs _ => do return .struct name (← argsToDeclared genericArgs)
  | .genericTypeParam name _ => .error (.unboundGeneric (.typeParameter name))

def resolvedGenericArgToDeclared :
    ResolvedGenericArg P B N → Except (NominalError P B N E) (ConcreteArg B N)
  | .dim (.concrete dim) => .ok (.dim dim)
  | .dim (.symbolic terms span) =>
    .error (.unboundGeneric (.dimensionArgument (ResolvedDim.symbolic terms span).loneGenericParam))
  | .index index => do return .index (← indexTypeRef index)
  | .nat form _ =>
    match form.constantValue with
    | some value => .ok (.nat value)
    | none => .error (.unboundGeneric (.natArgument form))
  | .type valueType => do return .type (← toCheckedType valueType)

def argsToDeclared :
    List (ResolvedGenericArg P B N) → Except (NominalError P B N E) (List (ConcreteArg B N))
  | [] => .ok []
  | arg :: rest => do
    let arg ← resolvedGenericArgToDeclared arg
    let rest ← argsToDeclared rest
    return arg :: rest

end

def wrapIndexed (element : ConcreteType B N) :
    ResolvedIndex P N → Except (NominalError P B N E) (ConcreteType B N)
  | .concrete name _ => .ok (.indexed element (.declared name))
  | .finite form _ => do return .indexed element (.finite (← toFiniteIndex form))
  | .genericParam name _ => .error (.unboundGeneric (.indexParameterAsType name))

/-- The axes are listed outermost first, so the last one wraps the element first. -/
def declToCheckedType : ResolvedDeclType P B N → Except (NominalError P B N E) (ConcreteType B N)
  | .value valueType => toCheckedType valueType
  | .indexed element indexes => do
    indexes.items.reverse.foldlM wrapIndexed (← toCheckedType element)

def indexRefToResolved (span : Span) : IndexTypeRef N FiniteIndex → ResolvedIndex P N
  | .declared name => .concrete name span
  | .finite axis => .finite (.fromConstant axis.sizeU64) span

mutual

/-- An indexed type is no value type. -/
def declaredToResolvedType (span : Span) : ConcreteType B N → Option (ResolvedValueType P B N)
  | .quantity dim => some (.quantity (.concrete dim))
  | .complex dim => some (.complex (.concrete dim) span)
  | .bool => some .bool
  | .int => some .int
  | .datetime scale => some (.datetime scale)
  | .key index => some (.key (indexRefToResolved span index) span)
  | .struct name args => do return .struct name (← declaredToResolvedArgs span args) span
  | .indexed _ _ => none

def declaredToResolvedGenericArg (span : Span) :
    ConcreteArg B N → Option (ResolvedGenericArg P B N)
  | .dim dim => some (.dim (.concrete dim))
  | .index index => some (.index (indexRefToResolved span index))
  | .nat value => some (.nat (.fromConstant value) span)
  | .type type => do return .type (← declaredToResolvedType span type)

def declaredToResolvedArgs (span : Span) :
    List (ConcreteArg B N) → Option (List (ResolvedGenericArg P B N))
  | [] => some []
  | arg :: rest => do
    let arg ← declaredToResolvedGenericArg span arg
    let rest ← declaredToResolvedArgs span rest
    return arg :: rest

end

def IndexTypeRef.toSymbolic : IndexTypeRef N FiniteIndex → IndexTypeRef N (FiniteIndexRef P)
  | .declared name => .declared name
  | .finite axis => .finite (.concrete axis)

/-- No Nat parameter is bound, so only constant forms close. -/
def IndexTypeRef.toConcrete :
    IndexTypeRef N (FiniteIndexRef P) → Option (IndexTypeRef N FiniteIndex)
  | .declared name => some (.declared name)
  | .finite (.concrete axis) => some (.finite axis)
  | .finite (.symbolic _ _) => none

mutual

def CheckedType.toSymbolic : ConcreteType B N → SymbolicType P B N
  | .quantity dim => .quantity dim
  | .complex dim => .complex dim
  | .bool => .bool
  | .int => .int
  | .datetime scale => .datetime scale
  | .key index => .key index.toSymbolic
  | .struct identity args => .struct identity (argsToSymbolic args)
  | .indexed element index => .indexed element.toSymbolic index.toSymbolic

def CheckedGenericArg.toSymbolic : ConcreteArg B N → SymbolicArg P B N
  | .dim dim => .dim dim
  | .index index => .index index.toSymbolic
  | .nat value => .nat (.fromConstant value)
  | .type type => .type type.toSymbolic

def argsToSymbolic : List (ConcreteArg B N) → List (SymbolicArg P B N)
  | [] => []
  | arg :: rest => arg.toSymbolic :: argsToSymbolic rest

end

mutual

def CheckedType.toConcrete : SymbolicType P B N → Option (ConcreteType B N)
  | .quantity dim => some (.quantity dim)
  | .complex dim => some (.complex dim)
  | .bool => some .bool
  | .int => some .int
  | .datetime scale => some (.datetime scale)
  | .key index => do return .key (← index.toConcrete)
  | .struct identity args => do return .struct identity (← argsToConcrete args)
  | .indexed element index => do
    let element ← element.toConcrete
    let index ← index.toConcrete
    return .indexed element index

def CheckedGenericArg.toConcrete : SymbolicArg P B N → Option (ConcreteArg B N)
  | .dim dim => some (.dim dim)
  | .index index => do return .index (← index.toConcrete)
  | .nat form => do return .nat (← form.constantValue)
  | .type type => do return .type (← type.toConcrete)

def argsToConcrete : List (SymbolicArg P B N) → Option (List (ConcreteArg B N))
  | [] => some []
  | arg :: rest => do
    let arg ← arg.toConcrete
    let rest ← argsToConcrete rest
    return arg :: rest

end

/-! ## Round trips -/

omit [LinearOrder B] in
theorem constantValue_fromConstant (c : U64) :
    (NatPolyForm.fromConstant c : NatPolyForm P).constantValue = some c := by
  unfold NatPolyForm.fromConstant
  split_ifs with hzero
  · have hc : c = 0 := Fin.ext ((LawfulExponent.isZero_iff c).mp hzero)
    rw [hc]
    rfl
  · have hconstant : (SortedMap.empty.insert .one c : Terms P).get? .one = some c := by
      rw [SortedMap.get?_insert, if_pos rfl]
    unfold NatPolyForm.constantValue NatPolyForm.isConstant NatPolyForm.constant
    rw [if_pos, hconstant]
    · rfl
    · rfl

theorem indexTypeRef_indexRefToResolved (span : Span) (index : IndexTypeRef N FiniteIndex) :
    indexTypeRef (indexRefToResolved span index : ResolvedIndex P N) =
      (.ok index : Except (NominalError P B N E) _) := by
  cases index with
  | declared name => rfl
  | finite axis =>
    have haxis : toFiniteIndex (.fromConstant axis.sizeU64 : NatPolyForm P) =
        (.ok axis : Except (NominalError P B N E) _) := by
      rw [toFiniteIndex, constantValue_fromConstant]
      dsimp only
      rw [IndexCardinality.tryFromU64_sizeU64]
      rfl
    rw [indexRefToResolved, indexTypeRef, haxis]
    rfl

mutual

/-- An embedded type is checked as itself. -/
theorem toCheckedType_of_declared {span : Span} {type : ConcreteType B N}
    {resolved : ResolvedValueType P B N} (h : declaredToResolvedType span type = some resolved) :
    toCheckedType resolved = (.ok type : Except (NominalError P B N E) _) := by
  cases type with
  | quantity | complex | bool | int | datetime =>
    cases h
    rfl
  | key index =>
    cases h
    unfold toCheckedType
    rw [indexTypeRef_indexRefToResolved]
    rfl
  | struct name args =>
    obtain ⟨resolvedArgs, hargs, hresolved⟩ := Option.bind_eq_some_iff.mp h
    cases hresolved
    unfold toCheckedType
    rw [argsToDeclared_of_declared hargs]
    rfl
  | indexed => cases h

theorem resolvedGenericArgToDeclared_of_declared {span : Span} {arg : ConcreteArg B N}
    {resolved : ResolvedGenericArg P B N}
    (h : declaredToResolvedGenericArg span arg = some resolved) :
    resolvedGenericArgToDeclared resolved = (.ok arg : Except (NominalError P B N E) _) := by
  cases arg with
  | dim =>
    cases h
    rfl
  | index index =>
    cases h
    unfold resolvedGenericArgToDeclared
    rw [indexTypeRef_indexRefToResolved]
    rfl
  | nat value =>
    cases h
    unfold resolvedGenericArgToDeclared
    rw [constantValue_fromConstant]
  | type type =>
    obtain ⟨resolvedType, htype, hresolved⟩ := Option.bind_eq_some_iff.mp h
    cases hresolved
    unfold resolvedGenericArgToDeclared
    rw [toCheckedType_of_declared htype]
    rfl

theorem argsToDeclared_of_declared {span : Span} {args : List (ConcreteArg B N)}
    {resolved : List (ResolvedGenericArg P B N)}
    (h : declaredToResolvedArgs span args = some resolved) :
    argsToDeclared resolved = (.ok args : Except (NominalError P B N E) _) := by
  cases args with
  | nil =>
    cases h
    rfl
  | cons arg rest =>
    obtain ⟨resolvedArg, harg, h⟩ := Option.bind_eq_some_iff.mp h
    obtain ⟨resolvedRest, hrest, hresolved⟩ := Option.bind_eq_some_iff.mp h
    cases hresolved
    unfold argsToDeclared
    rw [resolvedGenericArgToDeclared_of_declared harg, argsToDeclared_of_declared hrest]
    rfl

end

end ProvenGraphcal.Nominal
