import ProvenGraphcal.Signature.FunctionSignature

/-!
# The signature validator

`checkParts` follows the source step by step; `checkParts_wellScoped` is what it establishes.
-/

set_option linter.unusedSectionVars false

namespace ProvenGraphcal

open Checked (bind_eq_ok bind_pure_eq_ok)

variable {S Name B : Type} [LinearOrder Name] [LinearOrder B]

/-- A parameter as written: binders are names. -/
abbrev NamedParam (Name B : Type) [LinearOrder Name] [LinearOrder B] :=
  FunctionParam Name Name Name B

/-- Name-to-position resolution for one signature's declared binders. -/
structure BinderScope (Name : Type) where
  dims : List Name
  indexes : List Name

namespace BinderScope

local instance lawfulName : LawfulBEq Name := inferInstance

def dim (scope : BinderScope Name) (name : Name) :
    Except (SignatureError Name) (DimBinder Name) :=
  if name ∈ scope.dims then .ok ⟨scope.dims.idxOf name, name⟩ else .error (.undeclaredDimVar name)

def index (scope : BinderScope Name) (name : Name) :
    Except (SignatureError Name) (IndexBinder Name) :=
  if name ∈ scope.indexes then .ok ⟨scope.indexes.idxOf name, name⟩
  else .error (.undeclaredIndexVar name)

/-- `SignatureError::from`, after the offending binder is mapped back to its name. -/
def factorError : MonomialFactorError (DimBinder Name) → SignatureError Name
  | .zeroExponent var => .zeroExponent var.name
  | .duplicateKey var => .duplicateMonomialVar var.name

def monomial (scope : BinderScope Name) (m : DimMonomial Name B) :
    Except (SignatureError Name) (DimMonomial (DimBinder Name) B) := do
  let vars ← m.vars.factors.entries.mapM fun factor => do return (← scope.dim factor.1, factor.2)
  (DimMonomial.tryNew vars m.fixed).mapError factorError

def scalar (scope : BinderScope Name) :
    ScalarValueKind Name B → Except (SignatureError Name) (ScalarValueKind (DimBinder Name) B)
  | .quantity m => do return .quantity (← scope.monomial m)
  | .bool => .ok .bool
  | .int => .ok .int

def indexList (scope : BinderScope Name) (indexes : NonEmpty Name) :
    Except (SignatureError Name) (NonEmpty (IndexBinder Name)) :=
  indexes.tryMapRef scope.index

def kind (scope : BinderScope Name) :
    ParamKind Name Name B → Except (SignatureError Name) (BoundKind Name B)
  | .scalar element => do return .scalar (← scope.scalar element)
  | .indexed element indexes => do
    let indexes ← scope.indexList indexes
    return .indexed (← scope.scalar element) indexes

end BinderScope

/-- Which declared binders have a binding occurrence so far. -/
structure BindingState where
  bound : List Bool
  usedIndexes : List Bool

namespace BindingState

def isBound (state : BindingState) (var : DimBinder Name) : Bool :=
  (state.bound[var.index]?).getD false

def isUsed (state : BindingState) (index : IndexBinder Name) : Bool :=
  (state.usedIndexes[index.index]?).getD false

def markIndexes (state : BindingState) (indexes : List (IndexBinder Name)) : BindingState :=
  { state with
    usedIndexes := indexes.foldl (fun used index => used.set index.index true) state.usedIndexes }

def markBound (state : BindingState) (var : DimBinder Name) : BindingState :=
  { state with bound := state.bound.set var.index true }

/-- Record the binding occurrence of a parameter's element kind, or check its compound use. -/
def bindElement (state : BindingState) (param : Name) :
    ScalarValueKind (DimBinder Name) B → Except (SignatureError Name) BindingState
  | .quantity m =>
    match m.asBareVar with
    | some var => .ok (state.markBound var)
    | none =>
      match m.vars.factors.keys.find? fun var => !state.isBound var with
      | some var => .error (.useBeforeBinding var.name param)
      | none => .ok state
  | .bool => .ok state
  | .int => .ok state

def param (state : BindingState) (scope : BinderScope Name) (p : NamedParam Name B) :
    Except (SignatureError Name) (BindingState × BoundParam Name B) := do
  let kind ← scope.kind p.kind
  let state ← (state.markIndexes kind.indexes).bindElement p.name kind.element
  return (state, ⟨p.name, kind⟩)

/-- The parameters left to right, each in the state its predecessors leave. -/
def bindParams (scope : BinderScope Name) : BindingState → List (NamedParam Name B) →
    Except (SignatureError Name) (BindingState × List (BoundParam Name B))
  | state, [] => .ok (state, [])
  | state, p :: rest => do
    let (state, p) ← state.param scope p
    let (state, rest) ← bindParams scope state rest
    return (state, p :: rest)

def result (state : BindingState) (scope : BinderScope Name) :
    ResultKind S Name Name B →
      Except (SignatureError Name) (ResultKind S (DimBinder Name) (IndexBinder Name) B)
  | .struct payload => .ok (.struct payload)
  | .value kind => do
    let kind ← scope.kind kind
    match kind.indexes.find? fun index => !state.isUsed index with
    | some index => .error (.unboundResultIndexVar index.name)
    | none =>
      match kind.element.binders.find? fun var => !state.isBound var with
      | some var => .error (.unboundResultVar var.name)
      | none => .ok (.value kind)

end BindingState

/-- The first name that stands in `declared` or before itself. -/
def firstDuplicate (declared : List Name) : List Name → Option Name
  | [] => none
  | name :: rest =>
    if name ∈ declared then some name else firstDuplicate (declared ++ [name]) rest

def validateUniqueParamNames (declared : List Name) :
    List Name → Except (SignatureError Name) Unit
  | [] => .ok ()
  | name :: rest =>
    if name ∈ declared then
      .error (.duplicateParamName name (declared.idxOf name) declared.length)
    else validateUniqueParamNames (declared ++ [name]) rest

def checkDeclared (dimVars indexVars : List Name) : Except (SignatureError Name) Unit :=
  match firstDuplicate [] dimVars with
  | some var => .error (.duplicateDimVar var)
  | none =>
    match firstDuplicate [] indexVars with
    | some var => .error (.duplicateIndexVar var)
    | none => .ok ()

def checkAllBound (dimVars indexVars : List Name) (state : BindingState) :
    Except (SignatureError Name) Unit :=
  match (dimVars.zip state.bound).find? fun e => !e.2 with
  | some (var, _) => .error (.dimVarNeverBound var)
  | none =>
    match (indexVars.zip state.usedIndexes).find? fun e => !e.2 with
    | some (var, _) => .error (.indexVarNeverUsed var)
    | none => .ok ()

def checkParts (dimVars indexVars : List Name) (params : List (NamedParam Name B))
    (result : ResultKind S Name Name B) :
    Except (SignatureError Name)
      (List (BoundParam Name B) × ResultKind S (DimBinder Name) (IndexBinder Name) B) := do
  checkDeclared dimVars indexVars
  validateUniqueParamNames [] (params.map FunctionParam.name)
  let scope := ⟨dimVars, indexVars⟩
  let (state, params) ← BindingState.bindParams scope
    ⟨List.replicate dimVars.length false, List.replicate indexVars.length false⟩ params
  let result ← state.result scope result
  checkAllBound dimVars indexVars state
  return (params, result)

variable {v : DimBinder Name} {i : IndexBinder Name} {name : Name}

namespace BinderScope

variable {scope : BinderScope Name}

theorem dim_eq_ok (h : scope.dim name = .ok v) :
    scope.dims[v.index]? = some v.name := by
  unfold dim at h
  split_ifs at h with hmem
  cases h
  have hlt := List.idxOf_lt_length_iff.mpr hmem
  rw [List.getElem?_eq_getElem hlt, List.getElem_idxOf hlt]

theorem index_eq_ok (h : scope.index name = .ok i) :
    scope.indexes[i.index]? = some i.name := by
  unfold index at h
  split_ifs at h with hmem
  cases h
  have hlt := List.idxOf_lt_length_iff.mpr hmem
  rw [List.getElem?_eq_getElem hlt, List.getElem_idxOf hlt]

theorem monomial_resolved {m : DimMonomial Name B} {m' : DimMonomial (DimBinder Name) B}
    (h : scope.monomial m = .ok m') (hv : v ∈ m'.vars.factors.keys) :
    scope.dims[v.index]? = some v.name := by
  obtain ⟨vars, hvars, h⟩ := bind_eq_ok.mp h
  obtain ⟨vars', hnew, rfl⟩ := bind_pure_eq_ok.mp (Checked.mapError_eq_ok.mp h)
  obtain ⟨factor, hfactor, rfl⟩ := List.mem_map.mp hv
  have hmem := (SparseMonomial.tryFromFactors_eq_ok.mp hnew).mem_iff.mp hfactor
  have hforall := Checked.mapM_eq_ok.mp hvars
  obtain ⟨written, -, hwritten⟩ := Checked.exists_of_forall₂_right hforall hmem
  obtain ⟨binder, hbinder, hfactor⟩ := bind_eq_ok.mp hwritten
  have hname : binder = factor.1 := congrArg Prod.fst (Except.ok.inj hfactor)
  exact dim_eq_ok (hname ▸ hbinder)

theorem scalar_resolved {k : ScalarValueKind Name B} {k' : ScalarValueKind (DimBinder Name) B}
    (h : scope.scalar k = .ok k') (hv : v ∈ k'.binders) :
    scope.dims[v.index]? = some v.name := by
  cases k with
  | quantity m =>
    obtain ⟨m', hm', rfl⟩ := bind_pure_eq_ok.mp h
    exact monomial_resolved hm' hv
  | bool =>
    cases h
    cases hv
  | int =>
    cases h
    cases hv

theorem indexList_resolved {indexes : NonEmpty Name} {indexes' : NonEmpty (IndexBinder Name)}
    (h : scope.indexList indexes = .ok indexes') (hi : i ∈ indexes'.items) :
    scope.indexes[i.index]? = some i.name := by
  have hforall := NonEmpty.tryMapRef_eq_ok h
  obtain ⟨name, -, hname⟩ := Checked.exists_of_forall₂_right hforall hi
  exact index_eq_ok hname

theorem kind_resolved {k : ParamKind Name Name B} {k' : BoundKind Name B}
    (h : scope.kind k = .ok k') : Resolved scope.dims scope.indexes k' := by
  cases k with
  | scalar element =>
    obtain ⟨element', helement, rfl⟩ := bind_pure_eq_ok.mp h
    exact ⟨fun v hv => scalar_resolved helement hv, fun i hi => (nomatch hi)⟩
  | indexed element indexes =>
    obtain ⟨indexes', hindexes, h⟩ := bind_eq_ok.mp h
    obtain ⟨element', helement, rfl⟩ := bind_pure_eq_ok.mp h
    exact ⟨fun v hv => scalar_resolved helement hv, fun i hi => indexList_resolved hindexes hi⟩

end BinderScope

/-! ## The state records the binding occurrences -/

/-- The flags of a state are the binding occurrences seen so far. -/
structure Tracks (scope : BinderScope Name) (state : BindingState) (bound : List (DimBinder Name))
    (used : List (IndexBinder Name)) : Prop where
  bound_length : state.bound.length = scope.dims.length
  used_length : state.usedIndexes.length = scope.indexes.length
  isBound_iff : ∀ v : DimBinder Name, scope.dims[v.index]? = some v.name →
    (state.isBound v = true ↔ v ∈ bound)
  isUsed_iff : ∀ i : IndexBinder Name, scope.indexes[i.index]? = some i.name →
    (state.isUsed i = true ↔ i ∈ used)

variable {flags : List Bool}

theorem getD_set_true {i : ℕ} (hi : i < flags.length) (j : ℕ) :
    ((flags.set i true)[j]?).getD false = true ↔ j = i ∨ (flags[j]?).getD false = true := by
  rw [List.getElem?_set]
  by_cases hj : i = j
  · subst hj
    simp [hi]
  · simp [hj, Ne.symm hj]

variable {names : List Name}

theorem lt_of_resolved {i : ℕ} (h : names[i]? = some name) :
    i < names.length :=
  (List.getElem?_eq_some_iff.mp h).1

theorem DimBinder.eq_of_index {dims : List Name} {w : DimBinder Name}
    (hv : dims[v.index]? = some v.name) (hw : dims[w.index]? = some w.name)
    (h : v.index = w.index) : v = w := by
  have hname : v.name = w.name := Option.some.inj (by rw [← hv, ← hw, h])
  cases v
  cases w
  simp_all

theorem IndexBinder.eq_of_index {indexes : List Name} {v w : IndexBinder Name}
    (hv : indexes[v.index]? = some v.name) (hw : indexes[w.index]? = some w.name)
    (h : v.index = w.index) : v = w := by
  have hname : v.name = w.name := Option.some.inj (by rw [← hv, ← hw, h])
  cases v
  cases w
  simp_all

namespace Tracks

variable {scope : BinderScope Name} {state : BindingState} {bound : List (DimBinder Name)}
  {used : List (IndexBinder Name)}

theorem initial (scope : BinderScope Name) :
    Tracks scope ⟨List.replicate scope.dims.length false,
      List.replicate scope.indexes.length false⟩ [] [] where
  bound_length := List.length_replicate
  used_length := List.length_replicate
  isBound_iff v hv := by
    simp [BindingState.isBound, lt_of_resolved hv]
  isUsed_iff i hi := by
    simp [BindingState.isUsed, lt_of_resolved hi]

section

variable (h : Tracks scope state bound used)

include h

theorem markBound {var : DimBinder Name} (hvar : scope.dims[var.index]? = some var.name) :
    Tracks scope (state.markBound var) (bound ++ [var]) used where
  bound_length := by simpa [BindingState.markBound] using h.bound_length
  used_length := h.used_length
  isBound_iff v hv := by
    have hlt : var.index < state.bound.length := h.bound_length ▸ lt_of_resolved hvar
    have hflag := getD_set_true hlt v.index
    rw [List.mem_append, List.mem_singleton, ← h.isBound_iff v hv]
    refine hflag.trans ?_
    rw [or_comm]
    refine or_congr Iff.rfl ⟨DimBinder.eq_of_index hv hvar, congrArg _⟩
  isUsed_iff := h.isUsed_iff

theorem markIndex {index : IndexBinder Name}
    (hindex : scope.indexes[index.index]? = some index.name) :
    Tracks scope { state with usedIndexes := state.usedIndexes.set index.index true } bound
      (used ++ [index]) where
  bound_length := h.bound_length
  used_length := by simpa using h.used_length
  isBound_iff := h.isBound_iff
  isUsed_iff i hi := by
    have hlt : index.index < state.usedIndexes.length := h.used_length ▸ lt_of_resolved hindex
    have hflag := getD_set_true hlt i.index
    rw [List.mem_append, List.mem_singleton, ← h.isUsed_iff i hi]
    refine hflag.trans ?_
    rw [or_comm]
    refine or_congr Iff.rfl ⟨IndexBinder.eq_of_index hi hindex, congrArg _⟩

theorem markIndexes {indexes : List (IndexBinder Name)}
    (hindexes : ∀ i ∈ indexes, scope.indexes[i.index]? = some i.name) :
    Tracks scope (state.markIndexes indexes) bound (used ++ indexes) := by
  induction indexes generalizing state used with
  | nil => simpa [BindingState.markIndexes] using h
  | cons i rest ih =>
    have hnext := ih (h.markIndex (hindexes i List.mem_cons_self))
      fun j hj => hindexes j (List.mem_cons_of_mem _ hj)
    rw [List.append_assoc] at hnext
    exact hnext

/-- One step of the binding pass: the element kind uses only bound variables, its own bare
variable included. -/
theorem bindElement {param : Name} {kind : ScalarValueKind (DimBinder Name) B} {next : BindingState}
    (hkind : ∀ v ∈ kind.binders, scope.dims[v.index]? = some v.name)
    (hstep : state.bindElement param kind = .ok next) :
    Tracks scope next (bound ++ kind.bareVar.toList) used ∧
      ∀ v ∈ kind.binders, v ∈ bound ++ kind.bareVar.toList := by
  cases kind with
  | quantity m =>
    unfold BindingState.bindElement at hstep
    change Tracks scope next (bound ++ m.asBareVar.toList) used ∧
      ∀ v ∈ m.vars.factors.keys, v ∈ bound ++ m.asBareVar.toList
    cases hbare : m.asBareVar with
    | some var =>
      simp only [hbare] at hstep
      cases hstep
      have hkeys := DimMonomial.keys_of_asBareVar hbare
      have hvar : var ∈ m.vars.factors.keys := by simp [hkeys]
      refine ⟨h.markBound (hkind var hvar), fun v hv => ?_⟩
      rw [hkeys] at hv
      exact List.mem_append_right _ hv
    | none =>
      simp only [hbare] at hstep
      split at hstep
      · cases hstep
      · cases hstep
        rename_i hfind
        rw [Option.toList_none, List.append_nil]
        refine ⟨h, fun v hv => (h.isBound_iff v (hkind v hv)).mp ?_⟩
        simpa using List.find?_eq_none.mp hfind v hv
  | bool =>
    cases hstep
    exact ⟨by simpa [ScalarValueKind.bareVar] using h, fun v hv => (nomatch hv)⟩
  | int =>
    cases hstep
    exact ⟨by simpa [ScalarValueKind.bareVar] using h, fun v hv => (nomatch hv)⟩

end

theorem bindParams {state : BindingState} {bound : List (DimBinder Name)}
    {used : List (IndexBinder Name)} (h : Tracks scope state bound used)
    {params : List (NamedParam Name B)} {final : BindingState} {params' : List (BoundParam Name B)}
    (hrun : BindingState.bindParams scope state params = .ok (final, params')) :
    Tracks scope final (bound ++ boundBinders params') (used ++ axisBinders params') ∧
      BoundBeforeUse bound params' ∧
      (∀ p ∈ params', Resolved scope.dims scope.indexes p.kind) ∧
      params'.map FunctionParam.name = params.map FunctionParam.name := by
  induction params generalizing state bound used params' with
  | nil =>
    cases hrun
    simpa [boundBinders, axisBinders, BoundBeforeUse] using h
  | cons p rest ih =>
    obtain ⟨⟨state', p'⟩, hparam, hrun⟩ := bind_eq_ok.mp hrun
    obtain ⟨⟨final', rest'⟩, hrest, hrun⟩ := bind_eq_ok.mp hrun
    cases hrun
    obtain ⟨kind, hkind, hparam⟩ := bind_eq_ok.mp hparam
    obtain ⟨next, hnext, hparam⟩ := bind_eq_ok.mp hparam
    cases hparam
    have hresolved := BinderScope.kind_resolved hkind
    obtain ⟨htracks, huse⟩ := (h.markIndexes hresolved.indexes).bindElement hresolved.dims hnext
    obtain ⟨hfinal, hbefore, hall, hnames⟩ := ih htracks hrest
    refine ⟨?_, ⟨huse, hbefore⟩, ?_, by simp [hnames]⟩
    · have hbound : boundBinders (⟨p.name, kind⟩ :: rest') =
          kind.element.bareVar.toList ++ boundBinders rest' := by
        unfold boundBinders
        rw [List.filterMap_cons]
        cases kind.element.bareVar <;> rfl
      rw [hbound, ← List.append_assoc]
      simpa only [axisBinders, List.flatMap_cons, List.append_assoc] using hfinal
    · intro q hq
      rcases List.mem_cons.mp hq with rfl | hq
      · exact hresolved
      · exact hall q hq

end Tracks

theorem nodup_of_firstDuplicate {declared l : List Name} (h : firstDuplicate declared l = none) :
    l.Nodup ∧ ∀ name ∈ l, name ∉ declared := by
  induction l generalizing declared with
  | nil => simp
  | cons name rest ih =>
    unfold firstDuplicate at h
    split_ifs at h with hmem
    obtain ⟨hnodup, hnot⟩ := ih h
    refine ⟨List.nodup_cons.mpr ⟨fun hin => hnot name hin (by simp), hnodup⟩, fun n hn => ?_⟩
    rcases List.mem_cons.mp hn with rfl | hn
    · exact hmem
    · exact fun hd => hnot n hn (List.mem_append_left _ hd)

theorem nodup_of_validateUniqueParamNames {l : List Name}
    (h : validateUniqueParamNames [] l = .ok ()) : l.Nodup := by
  suffices hnone : ∀ declared : List Name, validateUniqueParamNames declared l = .ok () →
      firstDuplicate declared l = none from (nodup_of_firstDuplicate (hnone [] h)).1
  clear h
  induction l with
  | nil => exact fun _ _ => rfl
  | cons name rest ih =>
    intro declared h
    unfold validateUniqueParamNames at h
    split_ifs at h with hmem
    rw [firstDuplicate, if_neg hmem]
    exact ih _ h

/-- A flag list with no unset flag beside a name has every flag set. -/
theorem flag_of_find?_eq_none (hlen : flags.length = names.length)
    (h : ((names.zip flags).find? fun e => !e.2) = none) {i : ℕ} (hi : i < names.length) :
    (flags[i]?).getD false = true := by
  have hi' : i < flags.length := hlen ▸ hi
  have hmem : (names[i], flags[i]) ∈ names.zip flags := by
    rw [List.mem_iff_getElem]
    exact ⟨i, by simp [hi, hi'], List.getElem_zip⟩
  have hflag := List.find?_eq_none.mp h _ hmem
  rw [List.getElem?_eq_getElem hi']
  simpa using hflag

variable {written : ResultKind S Name Name B}

theorem result_scoped {scope : BinderScope Name} {state : BindingState}
    {bound : List (DimBinder Name)} {used : List (IndexBinder Name)}
    (h : Tracks scope state bound used)
    {result : ResultKind S (DimBinder Name) (IndexBinder Name) B}
    (hresult : state.result scope written = .ok result) :
    ∀ kind, result = .value kind → Resolved scope.dims scope.indexes kind ∧
      (∀ v ∈ kind.element.binders, v ∈ bound) ∧ ∀ i ∈ kind.indexes, i ∈ used := by
  rintro kind rfl
  cases written with
  | struct payload => cases hresult
  | value writtenKind =>
    obtain ⟨kind', hkind, hresult⟩ := bind_eq_ok.mp hresult
    split at hresult
    · cases hresult
    · rename_i hindexes
      split at hresult
      · cases hresult
      · rename_i hdims
        cases hresult
        have hresolved := BinderScope.kind_resolved hkind
        refine ⟨hresolved, fun v hv => ?_, fun i hi => ?_⟩
        · refine (h.isBound_iff v (hresolved.dims v hv)).mp ?_
          simpa using List.find?_eq_none.mp hdims v hv
        · refine (h.isUsed_iff i (hresolved.indexes i hi)).mp ?_
          simpa using List.find?_eq_none.mp hindexes i hi

theorem checkParts_wellScoped {dimVars indexVars : List Name} {params : List (NamedParam Name B)}
    {parts : List (BoundParam Name B) × ResultKind S (DimBinder Name) (IndexBinder Name) B}
    (h : checkParts dimVars indexVars params written = .ok parts) :
    WellScoped dimVars indexVars parts.1 parts.2 := by
  obtain ⟨⟨⟩, hdeclared, h⟩ := bind_eq_ok.mp h
  obtain ⟨⟨⟩, hnames, h⟩ := bind_eq_ok.mp h
  obtain ⟨⟨state, params'⟩, hparams, h⟩ := bind_eq_ok.mp h
  obtain ⟨result, hresult, h⟩ := bind_eq_ok.mp h
  obtain ⟨⟨⟩, hall, h⟩ := bind_eq_ok.mp h
  cases h
  let scope : BinderScope Name := ⟨dimVars, indexVars⟩
  obtain ⟨htracks, hbefore, hresolved, hkept⟩ := (Tracks.initial scope).bindParams hparams
  rw [List.nil_append, List.nil_append] at htracks
  have hscoped := result_scoped htracks hresult
  have hdups : firstDuplicate [] dimVars = none ∧ firstDuplicate [] indexVars = none := by
    unfold checkDeclared at hdeclared
    split at hdeclared
    · cases hdeclared
    · split at hdeclared
      · cases hdeclared
      · exact ⟨‹_›, ‹_›⟩
  have hflags : ((dimVars.zip state.bound).find? fun e => !e.2) = none ∧
      ((indexVars.zip state.usedIndexes).find? fun e => !e.2) = none := by
    unfold checkAllBound at hall
    split at hall
    · cases hall
    · split at hall
      · cases hall
      · exact ⟨‹_›, ‹_›⟩
  exact {
    dimVars_nodup := (nodup_of_firstDuplicate hdups.1).1
    indexVars_nodup := (nodup_of_firstDuplicate hdups.2).1
    paramNames_nodup := hkept ▸ nodup_of_validateUniqueParamNames hnames
    params_resolved := hresolved
    result_resolved := fun kind hk => (hscoped kind hk).1
    boundBeforeUse := hbefore
    result_dims_bound := fun kind hk => (hscoped kind hk).2.1
    result_indexes_bound := fun kind hk => (hscoped kind hk).2.2
    dims_bound := fun i hi => by
      have hres : scope.dims[i]? = some dimVars[i] := List.getElem?_eq_getElem hi
      refine ⟨⟨i, dimVars[i]⟩, (htracks.isBound_iff ⟨i, dimVars[i]⟩ hres).mp ?_, rfl⟩
      exact flag_of_find?_eq_none htracks.bound_length hflags.1 hi
    indexes_used := fun i hi => by
      have hres : scope.indexes[i]? = some indexVars[i] := List.getElem?_eq_getElem hi
      refine ⟨⟨i, indexVars[i]⟩, (htracks.isUsed_iff ⟨i, indexVars[i]⟩ hres).mp ?_, rfl⟩
      exact flag_of_find?_eq_none htracks.used_length hflags.2 hi }

namespace FunctionSignature

variable (sig : FunctionSignature S Name B)

/-- The declared dimension variables, as binders. -/
def dimBinders : Set (DimBinder Name) := {v | sig.dimVars[v.index]? = some v.name}

def indexBinders : Set (IndexBinder Name) := {i | sig.indexVars[i.index]? = some i.name}

variable {sig}

theorem mem_boundBinders_of_declared (hv : v ∈ sig.dimBinders) : v ∈ boundBinders sig.params := by
  obtain ⟨w, hw, hindex⟩ := sig.wellScoped.dims_bound v.index (lt_of_resolved hv)
  obtain ⟨p, hp, hbare⟩ := List.mem_filterMap.mp hw
  have hmem : w ∈ p.kind.element.binders := by
    rw [ScalarValueKind.binders_of_bareVar hbare]
    exact List.mem_singleton_self w
  have hres := (sig.wellScoped.params_resolved p hp).dims w hmem
  rwa [DimBinder.eq_of_index hv hres hindex.symm]

theorem mem_axisBinders_of_declared (hi : i ∈ sig.indexBinders) : i ∈ axisBinders sig.params := by
  obtain ⟨w, hw, hindex⟩ := sig.wellScoped.indexes_used i.index (lt_of_resolved hi)
  obtain ⟨p, hp, hmem⟩ := List.mem_flatMap.mp hw
  have hres := (sig.wellScoped.params_resolved p hp).indexes w hmem
  rwa [IndexBinder.eq_of_index hi hres hindex.symm]

theorem declared_of_mem_boundBinders (hv : v ∈ boundBinders sig.params) :
    v ∈ sig.dimBinders := by
  obtain ⟨p, hp, hbare⟩ := List.mem_filterMap.mp hv
  have hmem : v ∈ p.kind.element.binders := by
    rw [ScalarValueKind.binders_of_bareVar hbare]
    exact List.mem_singleton_self v
  exact (sig.wellScoped.params_resolved p hp).dims v hmem

theorem declared_of_mem_axisBinders (hi : i ∈ axisBinders sig.params) :
    i ∈ sig.indexBinders := by
  obtain ⟨p, hp, hmem⟩ := List.mem_flatMap.mp hi
  exact (sig.wellScoped.params_resolved p hp).indexes i hmem

end FunctionSignature

/-- Build a validated signature. -/
def FunctionSignature.tryFromParts (dimVars indexVars : List Name)
    (params : List (NamedParam Name B)) (result : ResultKind S Name Name B) :
    Except (SignatureError Name) (FunctionSignature S Name B) :=
  match h : checkParts dimVars indexVars params result with
  | .ok parts => .ok ⟨dimVars, indexVars, parts.1, parts.2, checkParts_wellScoped h⟩
  | .error e => .error e

def StructShape.tryNew (fields : List (Name × StructFieldKind B)) :
    Except (SignatureError Name) (StructShape Name B) :=
  if hempty : fields = [] then .error .emptyStructShape
  else
    match hduplicate : firstDuplicate [] (fields.map Prod.fst) with
    | some field => .error (.duplicateStructField field)
    | none => .ok ⟨fields, hempty, (nodup_of_firstDuplicate hduplicate).1⟩

end ProvenGraphcal
