import ProvenGraphcal.Types.Substitution

/-!
# Definitions of nominal types

Type annotations with canonical names, before named dimensions are folded. `P` are the generic
parameters and `N` the names of declared dimensions, indexes and types.
-/

namespace ProvenGraphcal.Nominal

def maxIndexCardinality : ℕ := 1000000

inductive IndexCardinalityError
  | empty
  | tooLarge (value maximum : ℕ)
  deriving DecidableEq

/-- The validated, non-empty cardinality of an index. -/
@[ext] structure IndexCardinality where
  get : ℕ
  pos : 0 < get
  le_max : get ≤ maxIndexCardinality

instance : DecidableEq IndexCardinality := fun _ _ =>
  decidable_of_iff _ IndexCardinality.ext_iff.symm

/-- A structural axis `Fin(N)`. -/
abbrev FiniteIndex := IndexCardinality

namespace IndexCardinality

-- every `u64` fits the `usize` of the target
def tryFromU64 (value : U64) : Except IndexCardinalityError IndexCardinality :=
  if hzero : value.val = 0 then .error .empty
  else if hle : value.val ≤ maxIndexCardinality then .ok ⟨value.val, Nat.pos_of_ne_zero hzero, hle⟩
  else .error (.tooLarge value.val maxIndexCardinality)

def sizeU64 (index : FiniteIndex) : U64 :=
  ⟨index.get, lt_of_le_of_lt index.le_max (by decide)⟩

theorem tryFromU64_sizeU64 (index : FiniteIndex) : tryFromU64 index.sizeU64 = .ok index := by
  have hzero : index.sizeU64.val ≠ 0 := Nat.pos_iff_ne_zero.mp index.pos
  have hle : index.sizeU64.val ≤ maxIndexCardinality := index.le_max
  rw [tryFromU64, dif_neg hzero, dif_pos hle]
  rfl

end IndexCardinality

inductive BuiltinType
  | dimensionless
  | bool
  | int
  | datetime (scale : TimeScale)

inductive DimTermTarget (P N : Type)
  | dimension (name : N) (span : Span)
  | genericParam (name : P) (span : Span)
  | dimensionless

/-- One term of a dimension expression with the operator before it. -/
structure DimExprItem (P N : Type) where
  op : MulDivOp
  target : DimTermTarget P N
  power : Rational
  span : Span

structure DimExpr (P N : Type) where
  terms : List (DimExprItem P N)
  span : Span

inductive DimArg (P N : Type)
  | dimensionless (span : Span)
  | expr (expr : DimExpr P N)

inductive IndexRef (P N : Type) [LinearOrder P]
  | concrete (name : N) (span : Span)
  | genericParam (name : P) (span : Span)
  | finite (form : NatPolyForm P) (span : Span)

mutual

inductive ValueType (P N : Type) [LinearOrder P]
  | builtin (builtin : BuiltinType) (span : Span)
  | dimExpr (expr : DimExpr P N) (span : Span)
  | struct (name : N) (nameSpan : Span) (span : Span)
  | genericTypeParam (param : P) (paramSpan : Span) (span : Span)
  | complex (dimension : DimArg P N) (span : Span)
  | key (index : IndexRef P N) (span : Span)
  | typeApplication (name : N) (nameSpan : Span) (genericArgs : List (GenericArg P N))
      (span : Span)

inductive GenericArg (P N : Type) [LinearOrder P]
  | dim (dimension : DimArg P N)
  | index (index : IndexRef P N)
  | nat (form : NatPolyForm P) (span : Span)
  | type (valueType : ValueType P N)

end

inductive DeclType (P N : Type) [LinearOrder P]
  | value (valueType : ValueType P N)
  | indexed (element : ValueType P N) (indexes : NonEmpty (IndexRef P N)) (span : Span)

inductive IndexBindingTarget (N : Type)
  | declared (name : N)
  | finite (index : FiniteIndex)

/-- What an include puts in place of its template's ports and of the types that it selects. -/
structure StaticSubstitution (N : Type) where
  indexes : List (N × IndexBindingTarget N)
  types : List (N × N)
  dimensions : List (N × N)

structure NominalField (P N : Type) [LinearOrder P] where
  name : String
  declType : DeclType P N

structure NominalConstructor (P N : Type) [LinearOrder P] where
  name : String
  fields : List (NominalField P N)

inductive NominalTypeKind (P N : Type) [LinearOrder P]
  | required
  | union (members : List (NominalConstructor P N))

inductive GenericConstraint
  | dim
  | index
  | nat
  | type
  deriving DecidableEq

structure NominalGenericParam (P N : Type) [LinearOrder P] where
  id : P
  name : String
  constraint : GenericConstraint
  default : Option (GenericArg P N)

/-- A definition; one that an include projects records the include's substitution. -/
structure NominalTypeDef (P N : Type) [LinearOrder P] where
  identity : N
  genericParams : List (NominalGenericParam P N)
  kind : NominalTypeKind P N
  instanceSubstitution : Option (StaticSubstitution N)

variable {P N : Type} [LinearOrder P]

/-- The constructors of a union; a required type has no body. -/
def NominalTypeDef.unionMembers (definition : NominalTypeDef P N) :
    List (NominalConstructor P N) :=
  match definition.kind with
  | .required => []
  | .union members => members

def DeclType.element : DeclType P N → ValueType P N
  | .value valueType => valueType
  | .indexed element _ _ => element

/-- Where a definition names another type. -/
inductive TypeReferenceSite
  | field (constructor : String) (field : String)
  | genericDefault (param : String)
  deriving DecidableEq

/-- One edge of the definition graph: `source` names `target` at `site`. -/
structure TypeCycleStep (P N : Type) [LinearOrder P] where
  source : NominalTypeDef P N
  site : TypeReferenceSite
  target : N
  span : Span

mutual

def valueTypeReferences : ValueType P N → List (N × Span)
  | .struct name nameSpan _ => [(name, nameSpan)]
  | .typeApplication name nameSpan genericArgs _ => (name, nameSpan) :: argReferences genericArgs
  | .builtin _ _ => []
  | .dimExpr _ _ => []
  | .genericTypeParam _ _ _ => []
  | .complex _ _ => []
  | .key _ _ => []

def genericArgReferences : GenericArg P N → List (N × Span)
  | .type argument => valueTypeReferences argument
  | .dim _ => []
  | .index _ => []
  | .nat _ _ => []

def argReferences : List (GenericArg P N) → List (N × Span)
  | [] => []
  | arg :: rest => genericArgReferences arg ++ argReferences rest

end

def declTypeReferences (declType : DeclType P N) : List (N × Span) :=
  valueTypeReferences declType.element

def defaultReferences (param : NominalGenericParam P N) : List (N × Span) :=
  match param.default with
  | some (.type valueType) => valueTypeReferences valueType
  | _ => []

/-- Every type reference of a definition, in declaration order. -/
def outgoingEdges (definition : NominalTypeDef P N) : List (TypeCycleStep P N) :=
  let defaults := definition.genericParams.flatMap fun param =>
    (defaultReferences param).map fun target =>
      ⟨definition, .genericDefault param.name, target.1, target.2⟩
  let fields := definition.unionMembers.flatMap fun constructor =>
    constructor.fields.flatMap fun field =>
      (declTypeReferences field.declType).map fun target =>
        ⟨definition, .field constructor.name field.name, target.1, target.2⟩
  defaults ++ fields

/-! ## What a definition names -/

/-- A value type names a type at its head or in a type argument. -/
inductive Mentions : ValueType P N → N → Prop
  | struct (name : N) (nameSpan span : Span) : Mentions (.struct name nameSpan span) name
  | head (name : N) (nameSpan : Span) (genericArgs : List (GenericArg P N)) (span : Span) :
    Mentions (.typeApplication name nameSpan genericArgs span) name
  | argument {argument : ValueType P N} {target : N} (name : N) (nameSpan : Span)
      {genericArgs : List (GenericArg P N)} (span : Span) (hmem : .type argument ∈ genericArgs)
      (hto : Mentions argument target) :
    Mentions (.typeApplication name nameSpan genericArgs span) target

/-- A definition names a type in a field or in the default of a `Type` parameter. -/
inductive Names (definition : NominalTypeDef P N) (target : N) : Prop
  | field (constructor : NominalConstructor P N) (field : NominalField P N)
      (hconstructor : constructor ∈ definition.unionMembers) (hfield : field ∈ constructor.fields)
      (hto : Mentions field.declType.element target) : Names definition target
  | genericDefault (param : NominalGenericParam P N) (valueType : ValueType P N)
      (hparam : param ∈ definition.genericParams)
      (hdefault : param.default = some (.type valueType)) (hto : Mentions valueType target) :
    Names definition target

theorem mem_argReferences {args : List (GenericArg P N)} {argument : ValueType P N}
    {target : N × Span} (hmem : .type argument ∈ args)
    (htarget : target ∈ valueTypeReferences argument) : target ∈ argReferences args := by
  induction args with
  | nil => exact absurd hmem List.not_mem_nil
  | cons arg rest ih =>
    rw [argReferences, List.mem_append]
    rcases List.mem_cons.mp hmem with rfl | hmem
    · exact .inl htarget
    · exact .inr (ih hmem)

mutual

theorem mentions_of_mem {valueType : ValueType P N} {target : N × Span}
    (h : target ∈ valueTypeReferences valueType) : Mentions valueType target.1 := by
  cases valueType with
  | builtin | dimExpr | genericTypeParam | complex | key => cases h
  | struct name nameSpan span =>
    rw [valueTypeReferences, List.mem_singleton] at h
    rw [h]
    exact .struct name nameSpan span
  | typeApplication name nameSpan genericArgs span =>
    rw [valueTypeReferences, List.mem_cons] at h
    rcases h with h | h
    · rw [h]
      exact .head name nameSpan genericArgs span
    · obtain ⟨argument, hmem, hto⟩ := mentions_args_of_mem h
      exact .argument name nameSpan span hmem hto

theorem mentions_args_of_mem {args : List (GenericArg P N)} {target : N × Span}
    (h : target ∈ argReferences args) :
    ∃ argument, .type argument ∈ args ∧ Mentions argument target.1 := by
  cases args with
  | nil => cases h
  | cons arg rest =>
    rw [argReferences, List.mem_append] at h
    rcases h with h | h
    · cases arg with
      | type valueType => exact ⟨valueType, List.mem_cons_self, mentions_of_mem h⟩
      | dim | index | nat => cases h
    · obtain ⟨argument, hmem, hto⟩ := mentions_args_of_mem h
      exact ⟨argument, List.mem_cons_of_mem _ hmem, hto⟩

end

theorem exists_mem_of_mentions {valueType : ValueType P N} {target : N}
    (h : Mentions valueType target) : ∃ span, (target, span) ∈ valueTypeReferences valueType := by
  induction h with
  | struct name nameSpan span => exact ⟨nameSpan, List.mem_singleton_self _⟩
  | head name nameSpan genericArgs span => exact ⟨nameSpan, List.mem_cons_self⟩
  | argument name nameSpan span hmem _ ih =>
    obtain ⟨toSpan, hto⟩ := ih
    exact ⟨toSpan, List.mem_cons_of_mem _ (mem_argReferences hmem hto)⟩

theorem mem_defaultReferences {param : NominalGenericParam P N} {target : N × Span} :
    target ∈ defaultReferences param ↔
      ∃ valueType, param.default = some (.type valueType) ∧
        target ∈ valueTypeReferences valueType := by
  unfold defaultReferences
  split
  case h_1 valueType hdefault => simp [hdefault]
  case h_2 hother =>
    exact iff_of_false List.not_mem_nil fun ⟨valueType, hdefault, _⟩ => hother valueType hdefault

theorem mem_outgoingEdges {definition : NominalTypeDef P N} {edge : TypeCycleStep P N} :
    edge ∈ outgoingEdges definition ↔
      (∃ param ∈ definition.genericParams, ∃ target ∈ defaultReferences param,
        edge = ⟨definition, .genericDefault param.name, target.1, target.2⟩) ∨
      ∃ constructor ∈ definition.unionMembers, ∃ field ∈ constructor.fields,
        ∃ target ∈ declTypeReferences field.declType,
          edge = ⟨definition, .field constructor.name field.name, target.1, target.2⟩ := by
  unfold outgoingEdges
  rw [List.mem_append]
  simp only [List.mem_flatMap, List.mem_map]
  grind

/-- The edges of a definition start at it and lead to the types it names. -/
theorem exists_edge_iff {definition : NominalTypeDef P N} {target : N} :
    (∃ edge ∈ outgoingEdges definition, edge.target = target) ↔ Names definition target := by
  constructor
  · intro ⟨edge, hedge, hto⟩
    rcases mem_outgoingEdges.mp hedge with ⟨param, hparam, named, hnamed, rfl⟩ |
      ⟨constructor, hconstructor, field, hfield, named, hnamed, rfl⟩
    · obtain ⟨valueType, hdefault, hmem⟩ := mem_defaultReferences.mp hnamed
      exact hto ▸ .genericDefault param valueType hparam hdefault (mentions_of_mem hmem)
    · exact hto ▸ .field constructor field hconstructor hfield (mentions_of_mem hnamed)
  · intro h
    cases h with
    | field constructor field hconstructor hfield hto =>
      obtain ⟨span, hmem⟩ := exists_mem_of_mentions hto
      exact ⟨_, mem_outgoingEdges.mpr
        (.inr ⟨constructor, hconstructor, field, hfield, (target, span), hmem, rfl⟩), rfl⟩
    | genericDefault param valueType hparam hdefault hto =>
      obtain ⟨span, hmem⟩ := exists_mem_of_mentions hto
      have hnamed := mem_defaultReferences.mpr ⟨valueType, hdefault, hmem⟩
      exact ⟨_, mem_outgoingEdges.mpr (.inl ⟨param, hparam, (target, span), hnamed, rfl⟩), rfl⟩

end ProvenGraphcal.Nominal
