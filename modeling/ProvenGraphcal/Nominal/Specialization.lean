import ProvenGraphcal.Nominal.Resolution

/-!
# Definitions that an include projects

The include's substitution is applied to a template's definition when it is projected, and again to
its field types when they are resolved.
-/

namespace ProvenGraphcal.Nominal

open Checked (bind_eq_ok bind_pure_eq_ok)

variable {P B N E : Type} [LinearOrder P] [LinearOrder B]

section Projection

variable [DecidableEq N] (template identity : N) (substitution : StaticSubstitution N)
  (genericParam : P → P)

def specializeStructType (name : N) : N :=
  if name = template then identity else (substitution.types.lookup name).getD name

def specializeDimTerm (item : DimExprItem P N) : DimExprItem P N :=
  { item with target := match item.target with
    | .dimension name span => .dimension ((substitution.dimensions.lookup name).getD name) span
    | .genericParam param span => .genericParam (genericParam param) span
    | .dimensionless => .dimensionless }

def specializeDimExpr (expr : DimExpr P N) : DimExpr P N :=
  { expr with terms := expr.terms.map (specializeDimTerm substitution genericParam) }

def specializeHirDimArg : DimArg P N → DimArg P N
  | .dimensionless span => .dimensionless span
  | .expr expr => .expr (specializeDimExpr substitution genericParam expr)

/-- The template's Nat parameters become those of the projected definition. -/
def specializeNat (form : NatPolyForm P) : Except NatOverflowError (NatPolyForm P) :=
  form.substituteForms fun param => some (.fromVar (genericParam param))

def specializeIndexRef : IndexRef P N → Except NatOverflowError (IndexRef P N)
  | .concrete name span =>
    match substitution.indexes.lookup name with
    | some (.declared target) => .ok (.concrete target span)
    | some (.finite index) => .ok (.finite (.fromConstant index.sizeU64) span)
    | none => .ok (.concrete name span)
  | .genericParam param span => .ok (.genericParam (genericParam param) span)
  | .finite form span => do return .finite (← specializeNat genericParam form) span

mutual

def specializeHirValueType : ValueType P N → Except NatOverflowError (ValueType P N)
  | .builtin builtin span => .ok (.builtin builtin span)
  | .dimExpr expr span => .ok (.dimExpr (specializeDimExpr substitution genericParam expr) span)
  | .struct name nameSpan span =>
    .ok (.struct (specializeStructType template identity substitution name) nameSpan span)
  | .genericTypeParam param paramSpan span =>
    .ok (.genericTypeParam (genericParam param) paramSpan span)
  | .complex dimension span =>
    .ok (.complex (specializeHirDimArg substitution genericParam dimension) span)
  | .key index span => do return .key (← specializeIndexRef substitution genericParam index) span
  | .typeApplication name nameSpan genericArgs span => do
    return .typeApplication (specializeStructType template identity substitution name) nameSpan
      (← specializeHirArgs genericArgs) span

def specializeHirGenericArg : GenericArg P N → Except NatOverflowError (GenericArg P N)
  | .dim dimension => .ok (.dim (specializeHirDimArg substitution genericParam dimension))
  | .index index => do return .index (← specializeIndexRef substitution genericParam index)
  | .nat form span => do return .nat (← specializeNat genericParam form) span
  | .type valueType => do return .type (← specializeHirValueType valueType)

def specializeHirArgs : List (GenericArg P N) → Except NatOverflowError (List (GenericArg P N))
  | [] => .ok []
  | arg :: rest => do
    let arg ← specializeHirGenericArg arg
    let rest ← specializeHirArgs rest
    return arg :: rest

end

def specializeHirDeclType : DeclType P N → Except NatOverflowError (DeclType P N)
  | .value valueType => do
    return .value (← specializeHirValueType template identity substitution genericParam valueType)
  | .indexed element indexes span => do
    let element ← specializeHirValueType template identity substitution genericParam element
    let indexes ← indexes.tryMapRef (specializeIndexRef substitution genericParam)
    return .indexed element indexes span

def specializeParam (param : NominalGenericParam P N) :
    Except NatOverflowError (NominalGenericParam P N) := do
  let default ← match param.default with
    | some arg =>
      some <$> specializeHirGenericArg template identity substitution genericParam arg
    | none => pure none
  return { param with id := genericParam param.id, default := default }

def specializeMember (member : NominalConstructor P N) :
    Except NatOverflowError (NominalConstructor P N) := do
  let fields ← member.fields.mapM fun field => do
    return { field with
      declType := ← specializeHirDeclType template identity substitution genericParam
        field.declType }
  return { member with fields := fields }

/-- A template's definition, as the include that projects it under `identity` sees it. -/
def specializeNominalType (definition : NominalTypeDef P N) :
    Except NatOverflowError (NominalTypeDef P N) := do
  let genericParams ← definition.genericParams.mapM
    (specializeParam definition.identity identity substitution genericParam)
  let kind ← match definition.kind with
    | .required => pure .required
    | .union members => .union <$> (members.mapM
        (specializeMember definition.identity identity substitution genericParam))
  return ⟨identity, genericParams, kind, some substitution⟩

end Projection

/-- A substitution whose every dimension target has a definition. -/
structure CompleteSubstitution (B N : Type) [LinearOrder B] where
  substitution : StaticSubstitution N
  dimensions : List (N × Dimension B)

variable [DecidableEq N]

def CompleteSubstitution.tryNew (substitution : StaticSubstitution N)
    (getDimension : N → Option (Dimension B)) :
    Except (NominalError P B N E) (CompleteSubstitution B N) := do
  let dimensions ← substitution.dimensions.mapM fun binding =>
    match getDimension binding.2 with
    | some dimension => .ok (binding.1, dimension)
    | none => .error (.unavailableDimensionTarget binding.1 binding.2)
  return ⟨substitution, dimensions⟩

variable (userDefined : B → Option N) (complete : CompleteSubstitution B N)

def specializeFactor (acc : Dimension B) (factor : B × Rational) :
    Except RatioError (Dimension B) := do
  let bound := (userDefined factor.1).bind fun name => complete.dimensions.lookup name
  let base := bound.getD (.base factor.1)
  acc.checkedMul (← base.pow factor.2)

def specializeDimension (dimension : Dimension B) : Except (NominalError P B N E) (Dimension B) :=
  (dimension.exponents.factors.entries.foldlM (specializeFactor userDefined complete)
    .dimensionless).mapError fun _ => .dimensionOverflow

def specializeIndex : ResolvedIndex P N → ResolvedIndex P N
  | .concrete name span =>
    match complete.substitution.indexes.lookup name with
    | some (.declared target) => .concrete target span
    | some (.finite index) => .finite (.fromConstant index.sizeU64) span
    | none => .concrete name span
  | .genericParam param span => .genericParam param span
  | .finite form span => .finite form span

def specializeResolvedTerm : ResolvedDimTerm P B →
    Except (NominalError P B N E) (ResolvedDimTerm P B)
  | .concrete dim power op => do
    return .concrete (← specializeDimension userDefined complete dim) power op
  | .genericParam name power op span => .ok (.genericParam name power op span)

def specializeDimArg : ResolvedDim P B → Except (NominalError P B N E) (ResolvedDim P B)
  | .concrete dim => do return .concrete (← specializeDimension userDefined complete dim)
  | .symbolic terms span => do
    return .symbolic (← terms.mapM (specializeResolvedTerm userDefined complete)) span

mutual

def specializeValueType :
    ResolvedValueType P B N → Except (NominalError P B N E) (ResolvedValueType P B N)
  | .quantity dimension => do return .quantity (← specializeDimArg userDefined complete dimension)
  | .complex dimension span => do
    return .complex (← specializeDimArg userDefined complete dimension) span
  | .key index span => .ok (.key (specializeIndex complete index) span)
  | .struct name genericArgs span => do
    return .struct ((complete.substitution.types.lookup name).getD name)
      (← specializeArgs genericArgs) span
  | .bool => .ok .bool
  | .int => .ok .int
  | .datetime scale => .ok (.datetime scale)
  | .genericTypeParam param span => .ok (.genericTypeParam param span)

def specializeGenericArg :
    ResolvedGenericArg P B N → Except (NominalError P B N E) (ResolvedGenericArg P B N)
  | .dim dimension => do return .dim (← specializeDimArg userDefined complete dimension)
  | .index index => .ok (.index (specializeIndex complete index))
  | .nat form span => .ok (.nat form span)
  | .type valueType => do return .type (← specializeValueType valueType)

def specializeArgs : List (ResolvedGenericArg P B N) →
    Except (NominalError P B N E) (List (ResolvedGenericArg P B N))
  | [] => .ok []
  | arg :: rest => do
    let arg ← specializeGenericArg arg
    let rest ← specializeArgs rest
    return arg :: rest

end

def specializeType :
    ResolvedDeclType P B N → Except (NominalError P B N E) (ResolvedDeclType P B N)
  | .value valueType => do return .value (← specializeValueType userDefined complete valueType)
  | .indexed element indexes => do
    return .indexed (← specializeValueType userDefined complete element)
      (indexes.map (specializeIndex complete))

variable (project : ProjectTypes P B N)

/-- A field of a projected definition is resolved in the view of its include, and specialized by
the include's substitution. -/
def resolveFieldType (definition : NominalTypeDef P N) (fuel : ℕ) (declType : DeclType P N) :
    Except (Halt (NominalError P B N E)) (ResolvedDeclType P B N) :=
  match definition.instanceSubstitution with
  | none => resolveDeclType project fuel declType
  | some substitution => do
    let complete ← Halt.lift (CompleteSubstitution.tryNew substitution project.dimension)
    let dimension ← Halt.lift (match project.instanceView substitution with
      | some dimension => .ok dimension
      | none => .error .dimensionOverflow)
    let templateType ← resolveDeclType { project with dimension := dimension } fuel declType
    Halt.lift (specializeType project.userDefined complete templateType)

/-! ## The types a field names -/

variable {userDefined complete project}

mutual

/-- Specializing maps the names once. -/
theorem structNames_specializeValueType {valueType result : ResolvedValueType P B N}
    (h : specializeValueType userDefined complete valueType =
      (.ok result : Except (NominalError P B N E) _)) {name : N}
    (hname : name ∈ result.structNames) : ∃ source ∈ valueType.structNames,
      name = (complete.substitution.types.lookup source).getD source := by
  cases valueType with
  | bool | int | datetime | genericTypeParam =>
    cases h
    cases hname
  | key index span =>
    cases h
    cases hname
  | quantity dimension | complex dimension span =>
    obtain ⟨next, -, hresult⟩ := bind_eq_ok.mp h
    cases hresult
    cases hname
  | struct head genericArgs span =>
    obtain ⟨args, hargs, rfl⟩ := bind_pure_eq_ok.mp h
    rw [ResolvedValueType.structNames, List.mem_cons] at hname
    rcases hname with hname | hname
    · exact ⟨head, List.mem_cons_self, hname⟩
    · obtain ⟨source, hsource, heq⟩ := structNames_specializeArgs hargs hname
      exact ⟨source, List.mem_cons_of_mem _ hsource, heq⟩

theorem structNames_specializeGenericArg {arg result : ResolvedGenericArg P B N}
    (h : specializeGenericArg userDefined complete arg =
      (.ok result : Except (NominalError P B N E) _)) {name : N}
    (hname : name ∈ result.structNames) : ∃ source ∈ arg.structNames,
      name = (complete.substitution.types.lookup source).getD source := by
  cases arg with
  | index | nat =>
    cases h
    cases hname
  | dim dimension =>
    obtain ⟨next, -, hresult⟩ := bind_eq_ok.mp h
    cases hresult
    cases hname
  | type valueType =>
    obtain ⟨next, hnext, rfl⟩ := bind_pure_eq_ok.mp h
    exact structNames_specializeValueType hnext hname

theorem structNames_specializeArgs {args results : List (ResolvedGenericArg P B N)}
    (h : specializeArgs userDefined complete args =
      (.ok results : Except (NominalError P B N E) _)) {name : N}
    (hname : name ∈ argStructNames results) : ∃ source ∈ argStructNames args,
      name = (complete.substitution.types.lookup source).getD source := by
  cases args with
  | nil =>
    cases h
    cases hname
  | cons arg rest =>
    obtain ⟨arg', harg, h⟩ := bind_eq_ok.mp h
    obtain ⟨rest', hrest, rfl⟩ := bind_pure_eq_ok.mp h
    rw [argStructNames, List.mem_append] at hname
    rcases hname with hname | hname
    · obtain ⟨source, hsource, heq⟩ := structNames_specializeGenericArg harg hname
      exact ⟨source, List.mem_append_left _ hsource, heq⟩
    · obtain ⟨source, hsource, heq⟩ := structNames_specializeArgs hrest hname
      exact ⟨source, List.mem_append_right _ hsource, heq⟩

end

omit [DecidableEq N] in
theorem tryNew_substitution {substitution : StaticSubstitution N}
    {getDimension : N → Option (Dimension B)}
    (h : CompleteSubstitution.tryNew substitution getDimension =
      (.ok complete : Except (NominalError P B N E) _)) :
    complete.substitution = substitution := by
  obtain ⟨dimensions, -, hcomplete⟩ := bind_eq_ok.mp h
  cases hcomplete
  rfl

/-- What a name becomes in the resolved fields of a definition. -/
def fieldName (definition : NominalTypeDef P N) (name : N) : N :=
  match definition.instanceSubstitution with
  | none => name
  | some substitution => (substitution.types.lookup name).getD name

/-- A resolved field names what its annotation leads to, after the include's substitution. -/
theorem resolveFieldType_names {definition : NominalTypeDef P N} {fuel : ℕ}
    {declType : DeclType P N} {resolved : ResolvedDeclType P B N}
    (h : resolveFieldType project definition fuel declType =
      (.ok resolved : Except (Halt (NominalError P B N E)) _)) {name : N}
    (hname : name ∈ resolved.element.structNames) :
    ∃ source, Leads project declType.element source ∧ name = fieldName definition source := by
  unfold resolveFieldType at h
  unfold fieldName
  split at h
  case h_1 =>
    exact ⟨name, resolveDeclType_names h hname, rfl⟩
  case h_2 substitution =>
    obtain ⟨complete, hcomplete, h⟩ := bind_eq_ok.mp h
    obtain ⟨dimension, -, h⟩ := bind_eq_ok.mp h
    obtain ⟨templateType, htemplate, h⟩ := bind_eq_ok.mp h
    have hspecialized := Halt.lift_eq_ok.mp h
    have hsubstitution := tryNew_substitution (Halt.lift_eq_ok.mp hcomplete)
    have hsource : ∃ source ∈ templateType.element.structNames,
        name = (complete.substitution.types.lookup source).getD source := by
      cases templateType with
      | value valueType =>
        obtain ⟨next, hnext, rfl⟩ := bind_pure_eq_ok.mp hspecialized
        exact structNames_specializeValueType hnext hname
      | indexed element indexes =>
        obtain ⟨next, hnext, rfl⟩ := bind_pure_eq_ok.mp hspecialized
        exact structNames_specializeValueType hnext hname
    obtain ⟨source, hmem, heq⟩ := hsource
    rw [hsubstitution] at heq
    exact ⟨source, resolveDeclType_names htemplate hmem, heq⟩

end ProvenGraphcal.Nominal
