import ProvenGraphcal.Library.CycleSearch
import ProvenGraphcal.Nominal.CheckedType

/-!
# Nominal types that refer to themselves
-/

open ProvenGraphcal.Checked (bind_eq_ok bind_pure_eq_ok mapError_eq_ok mapM_eq_ok)

namespace ProvenGraphcal.Nominal

open Relation

/-- A set of definitions, looked up by identity. -/
structure TypeStore (P N : Type) [LinearOrder P] where
  definitions : List (NominalTypeDef P N)
  distinct : (definitions.map NominalTypeDef.identity).Nodup

namespace TypeStore

variable {P N : Type} [LinearOrder P] [DecidableEq N] (store : TypeStore P N)

def lookup (identity : N) : Option (NominalTypeDef P N) :=
  store.definitions.find? fun definition => definition.identity = identity

def typeGraph : EdgeGraph (NominalTypeDef P N) N (TypeCycleStep P N) where
  key := NominalTypeDef.identity
  edges := outgoingEdges
  target step := store.lookup step.target

/-- The first type cycle reached from the roots. -/
def findTypeCycle (roots : List (NominalTypeDef P N)) : Option (List (TypeCycleStep P N)) :=
  store.typeGraph.findCycle store.definitions roots

/-- A definition names another one of the set. -/
def Refers (definition other : NominalTypeDef P N) : Prop :=
  Names definition other.identity ∧ other ∈ store.definitions

variable {store}
variable {definition : NominalTypeDef P N}

omit [DecidableEq N] in
theorem eq_of_identity {other : NominalTypeDef P N} (h : definition ∈ store.definitions)
    (h' : other ∈ store.definitions) (heq : definition.identity = other.identity) :
    definition = other :=
  List.inj_on_of_nodup_map store.distinct h h' heq

theorem lookup_eq_some {identity : N} :
    store.lookup identity = some definition ↔
      definition ∈ store.definitions ∧ definition.identity = identity := by
  unfold lookup
  constructor
  · intro h
    exact ⟨List.mem_of_find?_eq_some h, by simpa using List.find?_some h⟩
  · intro ⟨hmem, hidentity⟩
    cases hfound : store.definitions.find? fun definition => definition.identity = identity with
    | none =>
      have hno := List.find?_eq_none.mp hfound definition hmem
      exact absurd (decide_eq_true hidentity) hno
    | some found =>
      have hkey : found.identity = identity := by simpa using List.find?_some hfound
      rw [eq_of_identity (List.mem_of_find?_eq_some hfound) hmem (hkey.trans hidentity.symm)]

theorem dep_iff {other : NominalTypeDef P N} :
    store.typeGraph.Dep definition other ↔ store.Refers definition other := by
  constructor
  · intro ⟨edge, hedge, htarget⟩
    obtain ⟨hmem, hidentity⟩ := lookup_eq_some.mp htarget
    exact ⟨exists_edge_iff.mp ⟨edge, hedge, hidentity.symm⟩, hmem⟩
  · intro ⟨hnames, hmem⟩
    obtain ⟨edge, hedge, htarget⟩ := exists_edge_iff.mpr hnames
    exact ⟨edge, hedge, lookup_eq_some.mpr ⟨hmem, htarget.symm⟩⟩

theorem dep_eq_refers : store.typeGraph.Dep = store.Refers :=
  funext fun _ => funext fun _ => propext dep_iff

theorem closed_typeGraph : store.typeGraph.Closed store.definitions where
  target_mem _ _ _ hdep := (dep_iff.mp hdep).2
  key_inj _ h _ h' heq := eq_of_identity h h' heq

/-- A cycle is found when the definitions reached from the roots have one. -/
theorem isSome_findTypeCycle {roots : List (NominalTypeDef P N)}
    (hroots : ∀ root ∈ roots, root ∈ store.definitions) :
    (store.findTypeCycle roots).isSome ↔ ∃ root ∈ roots, ∃ definition,
      ReflTransGen store.Refers root definition ∧ TransGen store.Refers definition definition := by
  rw [← dep_eq_refers]
  constructor
  · intro h
    obtain ⟨cycle, hcycle⟩ := Option.isSome_iff_exists.mp h
    obtain ⟨hne, definition, ⟨root, hroot, hreach⟩, hchain⟩ :=
      EdgeGraph.findCycle_genuine closed_typeGraph hroots hcycle
    exact ⟨root, hroot, definition, hreach, hchain.transGen hne⟩
  · intro ⟨root, hroot, definition, hreach, hloop⟩
    rw [Option.isSome_iff_ne_none]
    intro hnone
    have hacc := EdgeGraph.acc_of_findCycle closed_typeGraph hroots hnone hroot
    exact not_transGen_of_acc (EdgeGraph.acc_of_reaches hacc hreach) hloop

/-- When no definition is on a cycle, no chain of definitions goes on for ever. -/
theorem acc_of_findTypeCycle (h : store.findTypeCycle store.definitions = none)
    (hmem : definition ∈ store.definitions) :
    Acc (fun other definition => store.Refers definition other) definition := by
  have hacc := EdgeGraph.acc_of_findCycle closed_typeGraph (fun _ hroot => hroot) h hmem
  rwa [dep_eq_refers] at hacc

end TypeStore

/-!
# Resolving type annotations

Named dimensions are folded, and an application is completed with the defaults of its last
parameters, each instantiated with the arguments before it.
-/

/-- What annotations are resolved against. The cardinality of a required index is not known. In the
view of an include, the defaulted dimension ports that it binds stay rigid, which may overflow. -/
structure ProjectTypes (P B N : Type) [LinearOrder P] [LinearOrder B] where
  dimension : N → Option (Dimension B)
  index : N → Option (Option IndexCardinality)
  types : TypeStore P N
  userDefined : B → Option N
  instanceView : StaticSubstitution N → Option (N → Option (Dimension B))

/-- Every parameter up to the last one without a default is required. -/
structure GenericArgArity where
  required : ℕ
  max : ℕ
  deriving DecidableEq

def GenericArgArity.ofDefaults (hasDefault : List Bool) : GenericArgArity :=
  let counted := hasDefault.zipIdx.foldl (fun counted item =>
    (if item.1 then counted.1 else item.2 + 1, item.2 + 1)) (0, 0)
  ⟨counted.1, counted.2⟩

variable {P B N E : Type} [LinearOrder P] [LinearOrder B] [DecidableEq N]

/-- The parameters that an application leaves to their defaults. -/
def defaultedTail (params : List (NominalGenericParam P N)) (got : ℕ) :
    Except GenericArgArity (List (NominalGenericParam P N × GenericArg P N)) :=
  let arity := GenericArgArity.ofDefaults (params.map fun param => param.default.isSome)
  if params.length < got then .error arity
  else (params.drop got).mapM fun param =>
    match param.default with
    | some default => .ok (param, default)
    | none => .error arity

variable (project : ProjectTypes P B N)

def resolveDimExprItem (item : DimExprItem P N) :
    Except (NominalError P B N E) (ResolvedDimTerm P B) :=
  match item.target with
  | .dimension name _ =>
    match project.dimension name with
    | some dim => .ok (.concrete dim item.power item.op)
    | none => .error (.unknownDimension name)
  | .dimensionless => .ok (.concrete .dimensionless item.power item.op)
  | .genericParam param _ => .ok (.genericParam param item.power item.op item.span)

def resolveDimExpr (dimExpr : DimExpr P N) : Except (NominalError P B N E) (ResolvedDim P B) := do
  let terms ← dimExpr.terms.mapM (resolveDimExprItem project)
  (collapseDimTerms terms dimExpr.span).mapError fun _ => .dimensionOverflow

def resolveDimArg : DimArg P N → Except (NominalError P B N E) (ResolvedDim P B)
  | .dimensionless _ => .ok (.concrete .dimensionless)
  | .expr dimExpr => resolveDimExpr project dimExpr

def resolveIndexRef : IndexRef P N → Except (NominalError P B N E) (ResolvedIndex P N)
  | .concrete name span =>
    if (project.index name).isSome then .ok (.concrete name span) else .error (.unknownIndex name)
  | .genericParam param span => .ok (.genericParam param span)
  | .finite form span => .ok (.finite form span)

def resolveBuiltinType : BuiltinType → ResolvedValueType P B N
  | .dimensionless => .quantity (.concrete .dimensionless)
  | .bool => .bool
  | .int => .int
  | .datetime scale => .datetime scale

/-! ## Value types -/

def structTypeDef (name : N) : Except (NominalError P B N E) (NominalTypeDef P N) :=
  match project.types.lookup name with
  | some definition => .ok definition
  | none => .error (.unknownStructType name)

/-- The sort of an argument is the one its parameter declares. -/
def resolveGenericArgForParam
    (resolve : ValueType P N → Except (Halt (NominalError P B N E)) (ResolvedValueType P B N))
    (param : NominalGenericParam P N) (arg : GenericArg P N) :
    Except (Halt (NominalError P B N E)) (ResolvedGenericArg P B N) :=
  match param.constraint, arg with
  | .dim, .dim dim => do return .dim (← Halt.lift (resolveDimArg project dim))
  | .index, .index index => do return .index (← Halt.lift (resolveIndexRef project index))
  | .nat, .nat form span => .ok (.nat form span)
  | .type, .type valueType => do return .type (← resolve valueType)
  | _, _ => .error (.failed (.registeredSort param.name))

/-- One more argument from a default, which may name the parameters before it. -/
def appendDefault
    (resolve : ValueType P N → Except (Halt (NominalError P B N E)) (ResolvedValueType P B N))
    (params : List P) (resolvedArgs : List (ResolvedGenericArg P B N))
    (defaulted : NominalGenericParam P N × GenericArg P N) :
    Except (Halt (NominalError P B N E)) (List (ResolvedGenericArg P B N)) := do
  let resolved ← resolveGenericArgForParam project resolve defaulted.1 defaulted.2
  let instantiated ← Halt.lift
    (((Substitution.forParams params resolvedArgs).applyGenericArg resolved).mapError .substitution)
  return resolvedArgs ++ [instantiated]

def resolveTypeApplication
    (resolve : ValueType P N → Except (Halt (NominalError P B N E)) (ResolvedValueType P B N))
    (name : N) (genericArgs : List (GenericArg P N)) :
    Except (Halt (NominalError P B N E)) (List (ResolvedGenericArg P B N)) := do
  let definition ← Halt.lift (structTypeDef project name)
  let params := definition.genericParams
  let defaulted ← Halt.lift ((defaultedTail params genericArgs.length).mapError fun arity =>
    .genericArgCount name arity.required arity.max genericArgs.length)
  let resolvedArgs ← (params.zip genericArgs).mapM fun pair =>
    resolveGenericArgForParam project resolve pair.1 pair.2
  defaulted.foldlM (appendDefault project resolve (params.map NominalGenericParam.id)) resolvedArgs

def resolveValueType :
    ℕ → ValueType P N → Except (Halt (NominalError P B N E)) (ResolvedValueType P B N)
  | 0, _ => .error .outOfFuel
  | _ + 1, .builtin builtin _ => .ok (resolveBuiltinType builtin)
  | _ + 1, .dimExpr expr _ => do return .quantity (← Halt.lift (resolveDimExpr project expr))
  | _ + 1, .complex dimension span => do
    return .complex (← Halt.lift (resolveDimArg project dimension)) span
  | _ + 1, .key index span => do return .key (← Halt.lift (resolveIndexRef project index)) span
  | _ + 1, .struct name nameSpan _ => do
    let _ ← Halt.lift (structTypeDef project name)
    return .struct name [] nameSpan
  | _ + 1, .genericTypeParam param paramSpan _ => .ok (.genericTypeParam param paramSpan)
  | fuel + 1, .typeApplication name _ genericArgs span => do
    return .struct name
      (← resolveTypeApplication project (resolveValueType fuel) name genericArgs) span

def resolveDeclType (fuel : ℕ) :
    DeclType P N → Except (Halt (NominalError P B N E)) (ResolvedDeclType P B N)
  | .value valueType => do return .value (← resolveValueType project fuel valueType)
  | .indexed element indexes _ => do
    return .indexed (← resolveValueType project fuel element)
      (← Halt.lift (indexes.tryMapRef (resolveIndexRef project)))

end ProvenGraphcal.Nominal

/-!
# The types a resolved annotation names

Every type named in a resolved annotation is named in the annotation, or reached from a type named
there through defaults; substitution adds only what the bindings name.
-/

namespace ProvenGraphcal

variable {P B N : Type} [LinearOrder P] [LinearOrder B]

mutual

def ResolvedValueType.structNames : ResolvedValueType P B N → List N
  | .struct name genericArgs _ => name :: argStructNames genericArgs
  | .bool => []
  | .int => []
  | .datetime _ => []
  | .quantity _ => []
  | .complex _ _ => []
  | .key _ _ => []
  | .genericTypeParam _ _ => []

def ResolvedGenericArg.structNames : ResolvedGenericArg P B N → List N
  | .type valueType => valueType.structNames
  | .dim _ => []
  | .index _ => []
  | .nat _ _ => []

def argStructNames : List (ResolvedGenericArg P B N) → List N
  | [] => []
  | arg :: rest => arg.structNames ++ argStructNames rest

end

def ResolvedDeclType.element : ResolvedDeclType P B N → ResolvedValueType P B N
  | .value valueType => valueType
  | .indexed element _ => element

variable {args : List (ResolvedGenericArg P B N)}

theorem mem_argStructNames {name : N} :
    name ∈ argStructNames args ↔ ∃ arg ∈ args, name ∈ arg.structNames := by
  induction args with
  | nil =>
    exact iff_of_false List.not_mem_nil fun ⟨_, hmem, _⟩ => List.not_mem_nil hmem
  | cons arg rest ih =>
    rw [argStructNames, List.mem_append, ih, List.exists_mem_cons_iff]

namespace Substitution

variable {s : Substitution P B N}

/-- A binding names the type. -/
def BindsName (s : Substitution P B N) (name : N) : Prop :=
  ∃ param valueType, s.types param = some valueType ∧ name ∈ valueType.structNames

mutual

theorem structNames_applyValue {valueType result : ResolvedValueType P B N}
    (h : s.applyValue valueType = .ok result) {name : N} (hname : name ∈ result.structNames) :
    name ∈ valueType.structNames ∨ s.BindsName name := by
  cases valueType with
  | bool | int | datetime =>
    cases h
    cases hname
  | quantity dimension | complex dimension span | key index span =>
    obtain ⟨next, -, hresult⟩ := bind_eq_ok.mp h
    cases hresult
    cases hname
  | genericTypeParam param span =>
    cases hparam : s.types param with
    | none =>
      simp only [applyValue, hparam, Option.getD_none] at h
      cases h
      cases hname
    | some bound =>
      simp only [applyValue, hparam, Option.getD_some] at h
      cases h
      exact .inr ⟨param, _, hparam, hname⟩
  | struct head genericArgs span =>
    obtain ⟨args, hargs, rfl⟩ := bind_pure_eq_ok.mp h
    rw [ResolvedValueType.structNames, List.mem_cons] at hname ⊢
    rcases hname with hname | hname
    · exact .inl (.inl hname)
    · exact (structNames_applyGenericArgs hargs hname).imp_left .inr

theorem structNames_applyGenericArg {arg result : ResolvedGenericArg P B N}
    (h : s.applyGenericArg arg = .ok result) {name : N} (hname : name ∈ result.structNames) :
    name ∈ arg.structNames ∨ s.BindsName name := by
  cases arg with
  | dim dimension | index index | nat form span =>
    obtain ⟨next, -, hresult⟩ := bind_eq_ok.mp h
    cases hresult
    cases hname
  | type valueType =>
    obtain ⟨next, hnext, rfl⟩ := bind_pure_eq_ok.mp h
    exact structNames_applyValue hnext hname

theorem structNames_applyGenericArgs {args results : List (ResolvedGenericArg P B N)}
    (h : s.applyGenericArgs args = .ok results) {name : N} (hname : name ∈ argStructNames results) :
    name ∈ argStructNames args ∨ s.BindsName name := by
  cases args with
  | nil =>
    cases h
    cases hname
  | cons arg rest =>
    obtain ⟨arg', harg, h⟩ := bind_eq_ok.mp h
    obtain ⟨rest', hrest, rfl⟩ := bind_pure_eq_ok.mp h
    rw [argStructNames, List.mem_append] at hname ⊢
    rcases hname with hname | hname
    · exact (structNames_applyGenericArg harg hname).imp_left .inl
    · exact (structNames_applyGenericArgs hrest hname).imp_left .inr

end

theorem types_bind {param : P} {arg : ResolvedGenericArg P B N} {key : P}
    {valueType : ResolvedValueType P B N} (h : (s.bind param arg).types key = some valueType) :
    arg = .type valueType ∨ s.types key = some valueType := by
  cases arg with
  | dim | index | nat => exact .inr h
  | type bound =>
    by_cases hkey : key = param
    · subst hkey
      have hbound : Function.update s.types key (some bound) key = some valueType := h
      rw [Function.update_self] at hbound
      cases hbound
      exact .inl rfl
    · have hother : Function.update s.types param (some bound) key = some valueType := h
      rw [Function.update_of_ne hkey] at hother
      exact .inr hother

/-- The bindings of parameters to arguments name what the arguments name. -/
theorem bindsName_forParams {params : List P} {name : N}
    (h : (forParams params args).BindsName name) : name ∈ argStructNames args := by
  obtain ⟨param, valueType, htypes, hname⟩ := h
  have hgen : ∀ (pairs : List (P × ResolvedGenericArg P B N)) (s : Substitution P B N),
      (pairs.foldl (fun s pair => s.bind pair.1 pair.2) s).types param = some valueType →
      s.types param = some valueType ∨ .type valueType ∈ pairs.map Prod.snd := by
    intro pairs
    induction pairs with
    | nil => exact fun s hs => .inl hs
    | cons pair rest ih =>
      intro s hs
      rw [List.foldl_cons] at hs
      rcases ih _ hs with hbound | hmem
      · rcases types_bind hbound with harg | hold
        · exact .inr (List.mem_cons.mpr (.inl harg.symm))
        · exact .inl hold
      · exact .inr (List.mem_cons_of_mem _ hmem)
  have hmem : .type valueType ∈ (params.zip args).map Prod.snd :=
    (hgen _ _ htypes).resolve_left nofun
  obtain ⟨pair, hpair, harg⟩ := List.mem_map.mp hmem
  have hargs : pair.2 ∈ args := (List.of_mem_zip hpair).2
  exact mem_argStructNames.mpr ⟨pair.2, hargs, harg ▸ hname⟩

end Substitution

variable {fuel : ℕ}

namespace Nominal

open Relation

variable {E : Type} [DecidableEq N] {project : ProjectTypes P B N}

/-- A definition of the project names the other type. -/
def NameStep (project : ProjectTypes P B N) (name other : N) : Prop :=
  ∃ definition, project.types.lookup name = some definition ∧ Names definition other

/-- A type named in the annotation leads to the name. -/
def Leads (project : ProjectTypes P B N) (valueType : ValueType P N) (name : N) : Prop :=
  ∃ head, Mentions valueType head ∧ ReflTransGen (NameStep project) head name

variable {resolve : ValueType P N → Except (Halt (NominalError P B N E)) (ResolvedValueType P B N)}

omit [DecidableEq N] in
/-- The only argument with names is a type argument for a `Type` parameter. -/
theorem resolveGenericArgForParam_names {param : NominalGenericParam P N} {arg : GenericArg P N}
    {resolved : ResolvedGenericArg P B N}
    (h : resolveGenericArgForParam project resolve param arg = .ok resolved) {name : N}
    (hname : name ∈ resolved.structNames) :
    ∃ valueType result, arg = .type valueType ∧ resolve valueType = .ok result ∧
      name ∈ result.structNames := by
  unfold resolveGenericArgForParam at h
  split at h
  case h_1 | h_2 =>
    obtain ⟨next, -, hresolved⟩ := bind_eq_ok.mp h
    cases hresolved
    cases hname
  case h_3 =>
    cases h
    cases hname
  case h_4 valueType _ =>
    obtain ⟨result, hresult, rfl⟩ := bind_pure_eq_ok.mp h
    exact ⟨valueType, result, rfl, hresult, hname⟩
  case h_5 => cases h

omit [DecidableEq N] in
theorem mem_defaultedTail {params : List (NominalGenericParam P N)} {got : ℕ}
    {defaulted : List (NominalGenericParam P N × GenericArg P N)}
    (h : defaultedTail params got = .ok defaulted)
    {pair : NominalGenericParam P N × GenericArg P N} (hpair : pair ∈ defaulted) :
    pair.1 ∈ params ∧ pair.1.default = some pair.2 := by
  unfold defaultedTail at h
  split_ifs at h
  obtain ⟨param, hparam, hdefault⟩ :=
    Checked.exists_of_forall₂_right (mapM_eq_ok.mp h) hpair
  split at hdefault
  case h_1 default heq =>
    cases hdefault
    exact ⟨List.mem_of_mem_drop hparam, heq⟩
  case h_2 => cases hdefault

theorem structTypeDef_eq_ok {name : N} {definition : NominalTypeDef P N}
    (h : structTypeDef project name = (.ok definition : Except (NominalError P B N E) _)) :
    project.types.lookup name = some definition := by
  unfold structTypeDef at h
  split at h
  case h_1 found hfound =>
    cases h
    exact hfound
  case h_2 => cases h

/-- An application names what its arguments lead to, and what the defaults in the definition of its
head do. -/
theorem resolveTypeApplication_names {head : N} {nameSpan span : Span}
    {genericArgs : List (GenericArg P N)} {resolvedArgs : List (ResolvedGenericArg P B N)}
    (hresolve : ∀ valueType resolved, resolve valueType = .ok resolved →
      ∀ name ∈ resolved.structNames, Leads project valueType name)
    (h : resolveTypeApplication project resolve head genericArgs = .ok resolvedArgs) {name : N}
    (hname : name ∈ argStructNames resolvedArgs) :
    Leads project (.typeApplication head nameSpan genericArgs span) name := by
  obtain ⟨definition, hdefinition, h⟩ := bind_eq_ok.mp h
  obtain ⟨defaulted, hdefaulted, h⟩ := bind_eq_ok.mp h
  obtain ⟨given, hgiven, hdefaults⟩ := bind_eq_ok.mp h
  have hlookup := structTypeDef_eq_ok (Halt.lift_eq_ok.mp hdefinition)
  revert name hname
  refine Checked.foldlM_invariant (fun args => ∀ {name}, name ∈ argStructNames args →
    Leads project (.typeApplication head nameSpan genericArgs span) name) ?_ ?_ hdefaults
  · intro pair hpair before after hbefore hstep name hname
    obtain ⟨resolved, hresolved, hstep⟩ := bind_eq_ok.mp hstep
    obtain ⟨instantiated, hinstantiated, rfl⟩ := bind_pure_eq_ok.mp hstep
    obtain ⟨arg, harg, hname⟩ := mem_argStructNames.mp hname
    rcases List.mem_append.mp harg with harg | harg
    · exact hbefore (mem_argStructNames.mpr ⟨arg, harg, hname⟩)
    · rw [List.mem_singleton.mp harg] at hname
      have happly := mapError_eq_ok.mp (Halt.lift_eq_ok.mp hinstantiated)
      rcases Substitution.structNames_applyGenericArg happly hname with hname | hbound
      · obtain ⟨default, target, hdefault, htarget, hname⟩ :=
          resolveGenericArgForParam_names hresolved hname
        obtain ⟨hparam, hsome⟩ := mem_defaultedTail
          (mapError_eq_ok.mp (Halt.lift_eq_ok.mp hdefaulted)) hpair
        obtain ⟨mentioned, hmentioned, hreach⟩ := hresolve default target htarget name hname
        rw [hdefault] at hsome
        have hstep : NameStep project head mentioned :=
          ⟨definition, hlookup, .genericDefault pair.1 default hparam hsome hmentioned⟩
        exact ⟨head, .head head nameSpan genericArgs span, .head hstep hreach⟩
      · exact hbefore (Substitution.bindsName_forParams hbound)
  · intro name hname
    obtain ⟨arg, harg, hname⟩ := mem_argStructNames.mp hname
    obtain ⟨pair, hpair, hpairArg⟩ :=
      Checked.exists_of_forall₂_right (mapM_eq_ok.mp hgiven) harg
    obtain ⟨argument, target, hargument, htarget, hname⟩ :=
      resolveGenericArgForParam_names hpairArg hname
    obtain ⟨mentioned, hmentioned, hreach⟩ := hresolve argument target htarget name hname
    have hmem : .type argument ∈ genericArgs := hargument ▸ (List.of_mem_zip hpair).2
    exact ⟨mentioned, .argument head nameSpan span hmem hmentioned, hreach⟩

/-- Resolving an annotation names nothing but what the annotation leads to. -/
theorem resolveValueType_names {valueType : ValueType P N} {resolved : ResolvedValueType P B N}
    (h : (resolveValueType project fuel valueType :
      Except (Halt (NominalError P B N E)) _) = .ok resolved) {name : N}
    (hname : name ∈ resolved.structNames) : Leads project valueType name := by
  induction fuel generalizing valueType resolved name with
  | zero => cases h
  | succ fuel ih =>
    cases valueType with
    | builtin builtin span =>
      cases h
      cases builtin <;> cases hname
    | genericTypeParam =>
      cases h
      cases hname
    | dimExpr | complex | key =>
      obtain ⟨next, -, hresolved⟩ := bind_eq_ok.mp h
      cases hresolved
      cases hname
    | struct head nameSpan span =>
      obtain ⟨definition, -, hresolved⟩ := bind_eq_ok.mp h
      cases hresolved
      rw [ResolvedValueType.structNames, argStructNames, List.mem_singleton] at hname
      exact ⟨head, .struct head nameSpan span, hname ▸ .refl⟩
    | typeApplication head nameSpan genericArgs span =>
      obtain ⟨resolvedArgs, happlication, rfl⟩ := bind_pure_eq_ok.mp h
      rw [ResolvedValueType.structNames, List.mem_cons] at hname
      rcases hname with rfl | hname
      · exact ⟨name, .head name nameSpan genericArgs span, .refl⟩
      · exact resolveTypeApplication_names
          (fun _ _ hresolved _ hname => ih hresolved hname) happlication hname

theorem resolveDeclType_names {declType : DeclType P N} {resolved : ResolvedDeclType P B N}
    (h : (resolveDeclType project fuel declType :
      Except (Halt (NominalError P B N E)) _) = .ok resolved) {name : N}
    (hname : name ∈ resolved.element.structNames) : Leads project declType.element name := by
  cases declType with
  | value valueType =>
    obtain ⟨next, hnext, rfl⟩ := bind_pure_eq_ok.mp h
    exact resolveValueType_names hnext hname
  | indexed element indexes span =>
    obtain ⟨next, hnext, h⟩ := bind_eq_ok.mp h
    obtain ⟨axes, -, hresolved⟩ := bind_eq_ok.mp h
    cases hresolved
    exact resolveValueType_names hnext hname

end Nominal

end ProvenGraphcal
