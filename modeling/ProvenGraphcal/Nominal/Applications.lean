import ProvenGraphcal.Nominal.Specialization

/-!
# Applications of nominal types

Instantiating the fields of an application, checking what it owes, and collecting every application
that a type reaches.
-/

namespace ProvenGraphcal.Nominal

variable {P B N D E : Type} [LinearOrder P] [LinearOrder B] [DecidableEq N]

/-- A field type resolved in its definition's scope, with the bounds `D` of the field. -/
structure FieldSemantics (P B N D : Type) [LinearOrder P] [LinearOrder B] where
  resolvedType : ResolvedDeclType P B N
  domainBounds : List D

/-- A definition with the semantics of its fields, constructor by constructor. -/
structure ResolvedNominal (P B N D : Type) [LinearOrder P] [LinearOrder B] where
  definition : NominalTypeDef P N
  fields : List (List (FieldSemantics P B N D))

/-- The fields of every constructor, with their semantics. -/
def ResolvedNominal.members (nominal : ResolvedNominal P B N D) :
    List (NominalConstructor P N × List (NominalField P N × FieldSemantics P B N D)) :=
  (nominal.definition.unionMembers.zip nominal.fields).map fun member =>
    (member.1, member.1.fields.zip member.2)

/-- Every field of the definition has the semantics that resolving it gives. -/
def Recorded (E : Type) (project : ProjectTypes P B N) (nominal : ResolvedNominal P B N D) : Prop :=
  List.Forall₂ (fun member semantics =>
    List.Forall₂ (fun field facts => ∃ fuel,
      resolveFieldType project nominal.definition fuel field.declType =
        (.ok facts.resolvedType : Except (Halt (NominalError P B N E)) _))
      member.fields semantics)
    nominal.definition.unionMembers nominal.fields

/-- What a DAG records of the nominal types it uses. -/
structure TypeMetadata (D E : Type) (project : ProjectTypes P B N) where
  nominal : N → Option (ResolvedNominal P B N D)
  lookup_eq : ∀ name entry, nominal name = some entry →
    project.types.lookup name = some entry.definition
  recorded : ∀ name entry, nominal name = some entry → Recorded E project entry

/-- A checked program. Whether a bound fits its field is checked with the bodies of the program,
which are not part of this model. -/
structure CheckedTir (P B N D E : Type) [LinearOrder P] [LinearOrder B] [DecidableEq N] where
  project : ProjectTypes P B N
  root : TypeMetadata D E project
  dags : List (TypeMetadata D E project)
  checkBound : NominalTypeDef P N → String → String → D → ConcreteType B N → List (P × U64) →
    Except E Unit

/-- The concrete argument of a parameter, which must be of the parameter's sort. -/
def concreteGenericArg (param : NominalGenericParam P N) (arg : SymbolicArg P B N) :
    Except (NominalError P B N E) (ConcreteArg B N) :=
  match param.constraint, arg with
  | .dim, .dim dim => .ok (.dim dim)
  | .index, .index index =>
    match index.toConcrete with
    | some concrete => .ok (.index concrete)
    | none => .error (.nonConcreteGenericArgument param.name (.index index))
  | .nat, .nat form =>
    match form.constantValue with
    | some value => .ok (.nat value)
    | none => .error (.nonConcreteGenericArgument param.name (.nat form))
  | .type, .type type =>
    match type.toConcrete with
    | some concrete => .ok (.type concrete)
    | none => .error (.nonConcreteGenericArgument param.name (.type type))
  | _, _ => .error (.registeredSort param.name)

/-- Bind one more parameter to its concrete argument. -/
def bindConcrete (span : Span) (substitution : Substitution P B N)
    (pair : NominalGenericParam P N × SymbolicArg P B N) :
    Except (NominalError P B N E) (Substitution P B N) := do
  let concrete ← concreteGenericArg pair.1 pair.2
  match declaredToResolvedGenericArg span concrete with
  | some bound => return substitution.bind pair.1.id bound
  | none => .error (.registeredSort pair.1.name)

def genericSubstitutionPrefix (definition : NominalTypeDef P N) (args : List (SymbolicArg P B N))
    (span : Span) : Except (NominalError P B N E) (Substitution P B N) :=
  if definition.genericParams.length < args.length then
    .error (.tooManyGenericArgs definition.identity definition.genericParams.length args.length)
  else (definition.genericParams.zip args).foldlM (bindConcrete span) .empty

/-- The Nat parameters with the constants they are bound to. -/
def natBindings (definition : NominalTypeDef P N) (args : List (SymbolicArg P B N)) :
    List (P × U64) :=
  (definition.genericParams.zip args).filterMap fun pair =>
    match pair.2 with
    | .nat form => form.constantValue.map (pair.1.id, ·)
    | .dim _ => none
    | .index _ => none
    | .type _ => none

structure ConcreteGenericSubstitutions (P B N : Type) [LinearOrder P] [LinearOrder B] where
  substitution : Substitution P B N
  nats : List (P × U64)

def concreteGenericSubstitutions (definition : NominalTypeDef P N)
    (args : List (SymbolicArg P B N)) (span : Span) :
    Except (NominalError P B N E) (ConcreteGenericSubstitutions P B N) := do
  if args.length ≠ definition.genericParams.length then
    .error (.concreteGenericArgCount definition.identity definition.genericParams.length
      args.length)
  else return ⟨← genericSubstitutionPrefix definition args span, natBindings definition args⟩

def ConcreteGenericSubstitutions.fieldType (bindings : ConcreteGenericSubstitutions P B N)
    (resolved : ResolvedDeclType P B N) : Except (NominalError P B N E) (ConcreteType B N) := do
  declToCheckedType (← (bindings.substitution.apply resolved).mapError .substitution)

/-- The type of a field in an application. -/
def appliedFieldType (definition : NominalTypeDef P N) (args : List (SymbolicArg P B N))
    (span : Span) (resolved : ResolvedDeclType P B N) :
    Except (NominalError P B N E) (ConcreteType B N) := do
  (← concreteGenericSubstitutions definition args span).fieldType resolved

namespace CheckedTir

variable (tir : CheckedTir P B N D E)

/-- The axes of a type, the outermost first. -/
def axes : SymbolicType P B N → List (IndexTypeRef N (FiniteIndexRef P))
  | .indexed element index => index :: axes element
  | _ => []

/-- Symbolic and required axes have no cardinality yet. -/
def checkedIndexCardinality (index : IndexTypeRef N (FiniteIndexRef P)) :
    Except (NominalError P B N E) (Option IndexCardinality) :=
  match index with
  | .declared name =>
    match tir.project.index name with
    | some cardinality => .ok cardinality
    | none => .error (.unavailableIndex index)
  | .finite (.concrete axis) => .ok (some axis)
  | .finite (.symbolic _ _) => .ok none

def maxEagerCardinality : ℕ := maxIndexCardinality

def multiplyAxis (total : ℕ) (axis : IndexCardinality) : Except (NominalError P B N E) ℕ :=
  if total * axis.get ≤ maxEagerCardinality then .ok (total * axis.get)
  else .error (.materializedShapeTooLarge maxEagerCardinality)

def checkMaterializable (type : SymbolicType P B N) : Except (NominalError P B N E) Unit := do
  let sizes ← (axes type).mapM tir.checkedIndexCardinality
  match sizes.mapM id with
  | none => return ()
  | some sizes => do
    let _ ← sizes.foldlM multiplyAxis 1
    return ()

def recordedNominal (metadata : TypeMetadata D E tir.project) (identity : N) :
    Except (NominalError P B N E) (ResolvedNominal P B N D) :=
  match metadata.nominal identity with
  | some nominal => .ok nominal
  | none => .error (.missingMetadata identity)

def validateIndex (index : IndexTypeRef N (FiniteIndexRef P)) :
    Except (NominalError P B N E) Unit :=
  if index.toConcrete.isSome then .ok () else .error (.unresolvedFiniteIndexObligation index)

def structDefinition (identity : N) : Except (NominalError P B N E) (NominalTypeDef P N) :=
  match tir.project.types.lookup identity with
  | some definition => .ok definition
  | none => .error (.unknownStructType identity)

/-- The type of one field, with its bounds checked. -/
def checkedFieldType (definition : NominalTypeDef P N)
    (bindings : ConcreteGenericSubstitutions P B N) (constructor : NominalConstructor P N)
    (field : NominalField P N × FieldSemantics P B N D) :
    Except (NominalError P B N E) (ConcreteType B N) := do
  let type ← bindings.fieldType field.2.resolvedType
  field.2.domainBounds.forM fun bound =>
    (tir.checkBound definition constructor.name field.1.name bound type bindings.nats).mapError
      .domainBound
  return type

def hasFields (definition : NominalTypeDef P N) : Bool :=
  definition.unionMembers.any fun member => !member.fields.isEmpty

def typeArguments {F M : Type} (args : List (CheckedGenericArg B N F M)) :
    List (CheckedType B N F M) :=
  args.filterMap fun arg =>
    match arg with
    | .type type => some type
    | .dim _ => none
    | .index _ => none
    | .nat _ => none

/-- Validate a type and every field type it reaches. -/
def validate (metadata : TypeMetadata D E tir.project) (span : Span) :
    ℕ → SymbolicType P B N → Except (Halt (NominalError P B N E)) Unit
  | 0, _ => .error .outOfFuel
  | fuel + 1, type => do
    Halt.lift (tir.checkMaterializable type)
    match type with
    | .struct identity args =>
      (typeArguments args).forM (validate metadata span fuel)
      let definition ← Halt.lift (tir.structDefinition identity)
      let bindings ← Halt.lift (concreteGenericSubstitutions definition args span)
      if hasFields definition then
        let nominal ← Halt.lift (tir.recordedNominal metadata identity)
        nominal.members.forM fun member => member.2.forM fun field => do
          let fieldType ← Halt.lift (tir.checkedFieldType definition bindings member.1 field)
          validate metadata span fuel fieldType.toSymbolic
      else return ()
    | .indexed element index =>
      Halt.lift (validateIndex index)
      validate metadata span fuel element
    | .key index => Halt.lift (validateIndex index)
    | .quantity _ => return ()
    | .complex _ => return ()
    | .bool => return ()
    | .int => return ()
    | .datetime _ => return ()

/-! ## Concrete applications -/

def genericArgumentSort : ConcreteArg B N → GenericConstraint
  | .dim _ => .dim
  | .index _ => .index
  | .nat _ => .nat
  | .type _ => .type

/-- A declared index must be defined. -/
def validateIndexReference (index : IndexTypeRef N FiniteIndex) :
    Except (NominalError P B N E) Unit :=
  match index with
  | .finite _ => .ok ()
  | .declared name =>
    if (tir.project.index name).isSome then .ok () else .error (.unknownIndex name)

/-- The definition of an application with the right number of arguments. -/
def signatureDefinition (identity : N) (args : List (ConcreteArg B N)) :
    Except (NominalError P B N E) (NominalTypeDef P N) :=
  match tir.project.types.lookup identity with
  | none => .error (.unknownType identity)
  | some definition =>
    if args.length ≠ definition.genericParams.length then
      .error (.genericArityMismatch identity definition.genericParams.length args.length)
    else .ok definition

mutual

/-- The sort and shape of every argument. -/
def validateArguments (identity : N) : List (NominalGenericParam P N) → List (ConcreteArg B N) →
    Except (NominalError P B N E) Unit
  | param :: params, arg :: args => do
    if param.constraint ≠ genericArgumentSort arg then
      .error (.genericSortMismatch identity param.name param.constraint (genericArgumentSort arg))
    else
      validateArgumentShape identity param.name arg
      validateArguments identity params args
  | _, _ => .ok ()

def validateArgumentShape (identity : N) (param : String) :
    ConcreteArg B N → Except (NominalError P B N E) Unit
  | .dim _ => .ok ()
  | .nat _ => .ok ()
  | .index index => tir.validateIndexReference index
  | .type type => validateTypeArgumentShape identity param type

def validateTypeArgumentShape (identity : N) (param : String) :
    ConcreteType B N → Except (NominalError P B N E) Unit
  | .struct nested args => do
    let definition ← tir.signatureDefinition nested args
    validateArguments nested definition.genericParams args
  | .key index => tir.validateIndexReference index
  | .indexed _ _ => .error (.indexedTypeArgument identity param)
  | .quantity _ => .ok ()
  | .complex _ => .ok ()
  | .bool => .ok ()
  | .int => .ok ()
  | .datetime _ => .ok ()

end

/-- A required type has no constructors to expand. -/
def validateModelTypeDefinition (identity : N) (args : List (ConcreteArg B N)) :
    Except (NominalError P B N E) (NominalTypeDef P N) := do
  let definition ← tir.signatureDefinition identity args
  tir.validateArguments identity definition.genericParams args
  match definition.kind with
  | .required => .error (.requiredType identity)
  | .union _ => return definition

/-- The first DAG that records the type, or the root. -/
def dagWithTypeMetadata (identity : N) : TypeMetadata D E tir.project :=
  (tir.dags.find? fun metadata => (metadata.nominal identity).isSome).getD tir.root

/-- The field types of every constructor. -/
def constructors (definition : NominalTypeDef P N) (identity : N) (args : List (ConcreteArg B N))
    (span : Span) : Except (NominalError P B N E) (List (String × List (ConcreteType B N))) :=
  if definition.unionMembers.all fun member => member.fields.isEmpty then
    .ok (definition.unionMembers.map fun member => (member.name, []))
  else do
    let nominal ← tir.recordedNominal (tir.dagWithTypeMetadata identity) identity
    nominal.members.mapM fun member => do
      let fields ← member.2.mapM fun field =>
        appliedFieldType nominal.definition (argsToSymbolic args) span field.2.resolvedType
      return (member.1.name, fields)

/-- Validate an application and expand it. -/
def modelConstructors (fuel : ℕ) (identity : N) (args : List (ConcreteArg B N)) (span : Span) :
    Except (Halt (NominalError P B N E)) (List (String × List (ConcreteType B N))) := do
  let definition ← Halt.lift (tir.validateModelTypeDefinition identity args)
  tir.validate (tir.dagWithTypeMetadata identity) span fuel (.struct identity (argsToSymbolic args))
  Halt.lift (tir.constructors definition identity args span)

variable [DecidableEq (ConcreteArg B N)]

def collectConcreteNominalApplications (span : Span) :
    ℕ → ConcreteType B N → List (N × List (ConcreteArg B N)) →
      Except (Halt (NominalError P B N E)) (List (N × List (ConcreteArg B N)))
  | 0, _, _ => .error .outOfFuel
  | fuel + 1, type, applications =>
    match type with
    | .struct identity args => do
      let applications ← (typeArguments args).foldlM (fun applications arg =>
        collectConcreteNominalApplications span fuel arg applications) applications
      if (identity, args) ∈ applications then return applications
      else
        let applications := (identity, args) :: applications
        let constructors ← tir.modelConstructors fuel identity args span
        constructors.foldlM (fun applications constructor =>
          constructor.2.foldlM (fun applications field =>
            collectConcreteNominalApplications span fuel field applications) applications)
          applications
    | .indexed element _ => collectConcreteNominalApplications span fuel element applications
    | .quantity _ => .ok applications
    | .complex _ => .ok applications
    | .bool => .ok applications
    | .int => .ok applications
    | .datetime _ => .ok applications
    | .key _ => .ok applications

end CheckedTir

end ProvenGraphcal.Nominal
