import ProvenGraphcal.Plugin.PluginManifest

/-!
# The signature that a manifest converts to

Every part of a converted signature denotes the part of the manifest at its place, and the ABI slots
that validation counts are those that the signature needs.
-/

namespace ProvenGraphcal.Plugin

open Static (PreludeBaseDimension)
open Checked (bind_eq_ok bind_pure_eq_ok mapError_eq_ok mapM_eq_ok)

variable {B : Type} [LinearOrder B] {prelude : PreludeBaseDimension ↪ B}

variable {a : NameAtom} {s : String}

theorem NameAtom.parse_eq_ok :
    NameAtom.parse s = .ok a ↔ a.text = s := by
  unfold NameAtom.parse
  split_ifs with hempty hdot
  · exact iff_of_false nofun fun h => a.nonempty (h.trans hempty)
  · exact iff_of_false nofun fun h => a.noDot (h ▸ hdot)
  · constructor
    · intro h
      cases h
      rfl
    · intro h
      exact congrArg Except.ok (NameAtom.text_injective h.symm)

variable {invalid : String → NameAtomError → ConvertErrorKind}

theorem convertName_eq_ok : convertName invalid s = .ok a ↔ a.text = s :=
  mapError_eq_ok.trans NameAtom.parse_eq_ok

/-- A list of names converts to the names with its texts. -/
theorem map_text_of_convertName {l : List String} {names : List NameAtom}
    (h : l.mapM (convertName invalid) = .ok names) : names.map NameAtom.text = l := by
  have hnames := mapM_eq_ok.mp h
  refine List.ext_getElem (by rw [List.length_map, hnames.length_eq]) fun i hi hi' => ?_
  rw [List.getElem_map]
  exact convertName_eq_ok.mp (hnames.get hi' _)

def ManifestRational.value (pow : ManifestRational) : ℚ := pow.num.toInt / pow.den.toInt

variable {pow : ManifestRational} {r : Rational}

theorem convertRational_eq_ok (hden : pow.den.toInt ≠ 0) :
    convertRational pow = .ok r ↔ r.value = pow.value :=
  mapError_eq_ok.trans (Ratio.tryFromWide_eq_ok hden)

/-- A converted exponent is the quotient, reduced or not. -/
theorem value_of_convertRational (h : convertRational pow = .ok r) : r.value = pow.value := by
  by_cases hden : pow.den.toInt = 0
  · rw [convertRational, Ratio.tryNew, Ratio.tryFromWide, dif_pos hden] at h
    cases h
  · exact (convertRational_eq_ok hden).mp h

theorem preludeBaseDimension_injective {t : String} {base : PreludeBaseDimension}
    (hs : preludeBaseDimension s = some base) (ht : preludeBaseDimension t = some base) :
    s = t := by
  unfold preludeBaseDimension at hs ht
  split at hs <;> cases hs <;> split at ht <;> cases ht <;> rfl

namespace ManifestMonomial

/-- The variables of a monomial with their exponents. -/
noncomputable def varPowers (monomial : ManifestMonomial) : String →₀ ℚ :=
  (monomial.vars.map fun factor => Finsupp.single factor.var factor.pow.value).sum

noncomputable def basePower (prelude : PreludeBaseDimension ↪ B) (factor : ManifestDimPower) :
    B →₀ ℚ :=
  match preludeBaseDimension factor.dim with
  | some base => Finsupp.single (prelude base) factor.pow.value
  | none => 0

/-- The base dimensions of a monomial with their exponents. -/
noncomputable def basePowers (prelude : PreludeBaseDimension ↪ B) (monomial : ManifestMonomial) :
    B →₀ ℚ :=
  (monomial.fixed.map (basePower prelude)).sum

end ManifestMonomial

open ManifestMonomial

/-- The dimension is the product of the base dimensions of the monomial, which are all known. -/
structure FixedDenotes (prelude : PreludeBaseDimension ↪ B) (written : ManifestMonomial)
    (fixed : Dimension B) : Prop where
  product : fixed.toFinsupp = written.basePowers prelude
  known : ∀ factor ∈ written.fixed, (preludeBaseDimension factor.dim).isSome

/-- The converted monomial is the product of the written factors. -/
structure MonomialDenotes {V : Type} [LinearOrder V] (prelude : PreludeBaseDimension ↪ B)
    (text : V → String) (written : ManifestMonomial) (monomial : DimMonomial V B) : Prop where
  vars : monomial.vars.toFinsupp.mapDomain text = written.varPowers
  fixed : FixedDenotes prelude written monomial.fixed

theorem convertFixed_eq_ok {fixed result : Dimension B} {factor : ManifestDimPower}
    (h : convertFixed prelude fixed factor = .ok result) :
    (preludeBaseDimension factor.dim).isSome ∧
      result.toFinsupp = fixed.toFinsupp + basePower prelude factor := by
  unfold convertFixed at h
  cases hbase : preludeBaseDimension factor.dim with
  | none =>
    rw [hbase] at h
    cases h
  | some base =>
    rw [hbase] at h
    obtain ⟨pow, hpow, h⟩ := bind_eq_ok.mp h
    obtain ⟨powered, hpowered, hmul⟩ := bind_eq_ok.mp h
    rw [mapError_eq_ok, Dimension.pow_eq_ok] at hpowered
    rw [mapError_eq_ok, Dimension.checkedMul_eq_ok] at hmul
    refine ⟨rfl, ?_⟩
    rw [hmul, hpowered, Dimension.toFinsupp_base, Finsupp.smul_single, smul_eq_mul, mul_one,
      value_of_convertRational hpow, basePower, hbase]

theorem foldlM_convertFixed {factors : List ManifestDimPower} {fixed result : Dimension B}
    (h : factors.foldlM (convertFixed prelude) fixed = .ok result) :
    (∀ factor ∈ factors, (preludeBaseDimension factor.dim).isSome) ∧
      result.toFinsupp = fixed.toFinsupp + (factors.map (basePower prelude)).sum := by
  refine ⟨fun factor hfactor => ?_, Checked.foldlM_sum Dimension.toFinsupp h fun factor _ _ hnext =>
    (convertFixed_eq_ok hnext).2⟩
  obtain ⟨_, _, hnext⟩ := Checked.exists_step_of_foldlM h hfactor
  exact (convertFixed_eq_ok hnext).1

/-- The exponents of a monomial under new keys are the sum of its factors. -/
theorem mapDomain_toFinsupp {K L : Type} [LinearOrder K] (f : K → L)
    (m : SparseMonomial K Rational) :
    m.toFinsupp.mapDomain f =
      (m.factors.entries.map fun e => Finsupp.single (f e.1) e.2.value).sum := by
  have hsum : m.toFinsupp =
      (m.factors.entries.map fun e => Finsupp.single e.1 e.2.value).sum :=
    exponents_eq_factors_sum m.factors
  rw [hsum, ← Finsupp.mapDomain.addMonoidHom_apply, map_list_sum, List.map_map]
  congr 1
  apply List.map_congr_left
  intro e _
  exact Finsupp.mapDomain_single

theorem convertVar_eq_ok {factor : ManifestVarPower} {converted : NameAtom × Rational}
    (h : convertVar factor = .ok converted) :
    converted.1.text = factor.var ∧ converted.2.value = factor.pow.value := by
  obtain ⟨name, hname, h⟩ := bind_eq_ok.mp h
  obtain ⟨pow, hpow, rfl⟩ := bind_pure_eq_ok.mp h
  exact ⟨convertName_eq_ok.mp hname, value_of_convertRational hpow⟩

/-- The written factors, as names and values. -/
theorem map_convertVar {factors : List ManifestVarPower} {converted : List (NameAtom × Rational)}
    (h : factors.mapM convertVar = .ok converted) :
    converted.map (fun e => (e.1.text, e.2.value)) =
      factors.map fun factor => (factor.var, factor.pow.value) := by
  rw [mapM_eq_ok] at h
  induction h with
  | nil => rfl
  | cons hfactor _ ih =>
    obtain ⟨hname, hvalue⟩ := convertVar_eq_ok hfactor
    rw [List.map_cons, List.map_cons, ih, hname, hvalue]

/-- No factor is dropped, and no exponent changed. -/
theorem convertMonomial_denotes {written : ManifestMonomial} {monomial : DimMonomial NameAtom B}
    (h : convertMonomial prelude written = .ok monomial) :
    MonomialDenotes prelude NameAtom.text written monomial := by
  obtain ⟨vars, hvars, h⟩ := bind_eq_ok.mp h
  obtain ⟨fixed, hfixed, h⟩ := bind_eq_ok.mp h
  obtain ⟨sparse, hsparse, rfl⟩ := bind_pure_eq_ok.mp (mapError_eq_ok.mp h)
  obtain ⟨hknown, hproduct⟩ := foldlM_convertFixed hfixed
  rw [Dimension.toFinsupp_dimensionless, zero_add] at hproduct
  refine ⟨?_, hproduct, hknown⟩
  have hperm := SparseMonomial.tryFromFactors_eq_ok.mp hsparse
  have hpairs := congrArg (fun l => (l.map fun e : String × ℚ => Finsupp.single e.1 e.2).sum)
    (map_convertVar hvars)
  rw [List.map_map, List.map_map] at hpairs
  rw [mapDomain_toFinsupp, varPowers, (hperm.map _).sum_eq]
  exact hpairs

def binderText (v : DimBinder NameAtom) : String := v.name.text

def axisText (i : IndexBinder NameAtom) : String := i.name.text

variable (prelude) in
def ElementDenotes {V : Type} [LinearOrder V] (text : V → String) :
    ManifestArrayElementKind → ScalarValueKind V B → Prop
  | .quantity written, .quantity monomial => MonomialDenotes prelude text written monomial
  | .bool, .bool => True
  | .int, .int => True
  | _, _ => False

variable (prelude) in
/-- The kind is the written one; an array has its axes in the written order. -/
def KindDenotes {V I : Type} [LinearOrder V] (text : V → String) (axis : I → String) :
    ManifestParamKind → ParamKind V I B → Prop
  | .quantity written, .scalar (.quantity monomial) => MonomialDenotes prelude text written monomial
  | .bool, .scalar .bool => True
  | .int, .scalar .int => True
  | .array element indexes, .indexed element' indexes' =>
    ElementDenotes prelude text element element' ∧ indexes'.items.map axis = indexes
  | _, _ => False

variable (prelude) in
/-- The field has the written name; its dimension is the whole of the written monomial. -/
def FieldDenotes (written : ManifestField) (field : NameAtom × StructFieldKind B) : Prop :=
  field.1.text = written.name ∧
    match written.kind, field.2 with
    | .quantity monomial, .quantity dimension =>
      monomial.vars = [] ∧ FixedDenotes prelude monomial dimension
    | .bool, .bool => True
    | .int, .int => True
    | _, _ => False

variable (prelude) in
def ResultDenotes {V I : Type} [LinearOrder V] (text : V → String) (axis : I → String) :
    ManifestResultKind → ResultKind (StructShape NameAtom B) V I B → Prop
  | .quantity written, .value kind => KindDenotes prelude text axis (.quantity written) kind
  | .bool, .value kind => KindDenotes prelude text axis .bool kind
  | .int, .value kind => KindDenotes prelude text axis .int kind
  | .array element indexes, .value kind =>
    KindDenotes prelude text axis (.array element indexes) kind
  | .struct fields, .struct shape => List.Forall₂ (FieldDenotes prelude) fields shape.fields
  | _, _ => False

variable {element : ScalarValueKind NameAtom B}

theorem convertArrayElement_denotes {written : ManifestArrayElementKind}
    (h : convertArrayElement prelude written = .ok element) :
    ElementDenotes prelude NameAtom.text written element := by
  cases written with
  | quantity written =>
    obtain ⟨monomial, hmonomial, rfl⟩ := bind_pure_eq_ok.mp h
    exact convertMonomial_denotes hmonomial
  | bool =>
    cases h
    trivial
  | int =>
    cases h
    trivial

variable {indexes : List String} {kind : ParamKind NameAtom NameAtom B}

theorem convertArray_denotes {element : ManifestArrayElementKind}
    (h : convertArray prelude element indexes = .ok kind) :
    KindDenotes prelude NameAtom.text NameAtom.text (.array element indexes) kind := by
  obtain ⟨names, hnames, h⟩ := bind_eq_ok.mp h
  cases hsome : NonEmpty.tryFromVec names with
  | none =>
    rw [hsome] at h
    cases h
  | some axes =>
    rw [hsome] at h
    obtain ⟨element', helement, rfl⟩ := bind_pure_eq_ok.mp h
    refine ⟨convertArrayElement_denotes helement, ?_⟩
    rw [NonEmpty.tryFromVec_eq_some.mp hsome]
    exact map_text_of_convertName hnames

theorem convertParamKind_denotes {written : ManifestParamKind}
    (h : convertParamKind prelude written = .ok kind) :
    KindDenotes prelude NameAtom.text NameAtom.text written kind := by
  cases written with
  | quantity written =>
    obtain ⟨monomial, hmonomial, rfl⟩ := bind_pure_eq_ok.mp h
    exact convertMonomial_denotes hmonomial
  | bool =>
    cases h
    trivial
  | int =>
    cases h
    trivial
  | array element indexes => exact convertArray_denotes h

/-- Without variables, a field's dimension is the whole monomial. -/
theorem convertStructField_denotes {written : ManifestField} {field : NameAtom × StructFieldKind B}
    (hvars : ∀ monomial, written.kind = .quantity monomial → monomial.vars = [])
    (h : convertStructField prelude written = .ok field) : FieldDenotes prelude written field := by
  obtain ⟨name, hname, h⟩ := bind_eq_ok.mp h
  obtain ⟨kind, hkind, rfl⟩ := bind_pure_eq_ok.mp h
  refine ⟨convertName_eq_ok.mp hname, ?_⟩
  cases hwritten : written.kind with
  | quantity written =>
    rw [hwritten] at hkind
    obtain ⟨monomial, hmonomial, rfl⟩ := bind_pure_eq_ok.mp hkind
    exact ⟨hvars written hwritten, (convertMonomial_denotes hmonomial).fixed⟩
  | bool =>
    rw [hwritten] at hkind
    cases hkind
    trivial
  | int =>
    rw [hwritten] at hkind
    cases hkind
    trivial

theorem fields_of_tryNew {fields : List (NameAtom × StructFieldKind B)}
    {shape : StructShape NameAtom B} (h : StructShape.tryNew fields = .ok shape) :
    shape.fields = fields := by
  unfold StructShape.tryNew at h
  split at h
  · cases h
  · split at h
    · cases h
    · cases h
      rfl

variable {written : ManifestResultKind}
variable {result : ResultKind (StructShape NameAtom B) NameAtom NameAtom B}

theorem convertResultKind_denotes
    (hvars : ∀ fields, written = .struct fields → ∀ field ∈ fields, ∀ monomial,
      field.kind = .quantity monomial → monomial.vars = [])
    (h : convertResultKind prelude written = .ok result) :
    ResultDenotes prelude NameAtom.text NameAtom.text written result := by
  cases written with
  | quantity written =>
    obtain ⟨monomial, hmonomial, rfl⟩ := bind_pure_eq_ok.mp h
    exact convertMonomial_denotes hmonomial
  | bool =>
    cases h
    trivial
  | int =>
    cases h
    trivial
  | array element indexes =>
    obtain ⟨kind, hkind, rfl⟩ := bind_pure_eq_ok.mp h
    exact convertArray_denotes hkind
  | struct fields =>
    obtain ⟨converted, hconverted, h⟩ := bind_eq_ok.mp h
    obtain ⟨shape, hshape, rfl⟩ := bind_pure_eq_ok.mp h
    show List.Forall₂ (FieldDenotes prelude) fields shape.fields
    rw [fields_of_tryNew (mapError_eq_ok.mp hshape)]
    rw [mapM_eq_ok, List.forall₂_iff_get] at hconverted
    rw [List.forall₂_iff_get]
    refine ⟨hconverted.1, fun i hi hi' => ?_⟩
    exact convertStructField_denotes (hvars fields rfl _ (List.get_mem fields ⟨i, hi⟩))
      (hconverted.2 i hi hi')

variable {name : NameAtom}

section Binding

variable {scope : BinderScope NameAtom}

theorem dim_name {v : DimBinder NameAtom} (h : scope.dim name = .ok v) :
    v.name = name := by
  unfold BinderScope.dim at h
  split_ifs at h
  cases h
  rfl

theorem index_name {i : IndexBinder NameAtom} (h : scope.index name = .ok i) :
    i.name = name := by
  unfold BinderScope.index at h
  split_ifs at h
  cases h
  rfl

theorem monomial_denotes {written : ManifestMonomial} {m : DimMonomial NameAtom B}
    {m' : DimMonomial (DimBinder NameAtom) B} (hm : MonomialDenotes prelude NameAtom.text written m)
    (h : scope.monomial m = .ok m') : MonomialDenotes prelude binderText written m' := by
  obtain ⟨vars, hvars, h⟩ := bind_eq_ok.mp h
  obtain ⟨sparse, hsparse, rfl⟩ := bind_pure_eq_ok.mp (mapError_eq_ok.mp h)
  refine ⟨?_, hm.fixed⟩
  have hbound : vars.map (fun e => Finsupp.single (binderText e.1) e.2.value) =
      m.vars.factors.entries.map fun e => Finsupp.single e.1.text e.2.value := by
    rw [mapM_eq_ok] at hvars
    generalize m.vars.factors.entries = entries at hvars ⊢
    clear hsparse h
    induction hvars with
    | nil => rfl
    | cons hfactor _ ih =>
      obtain ⟨v, hv, rfl⟩ := bind_pure_eq_ok.mp hfactor
      rw [List.map_cons, List.map_cons, ih, binderText, dim_name hv]
  have hperm := SparseMonomial.tryFromFactors_eq_ok.mp hsparse
  rw [mapDomain_toFinsupp, (hperm.map _).sum_eq, hbound, ← hm.vars, mapDomain_toFinsupp]

theorem scalar_denotes {written : ManifestArrayElementKind}
    {element' : ScalarValueKind (DimBinder NameAtom) B}
    (he : ElementDenotes prelude NameAtom.text written element)
    (h : scope.scalar element = .ok element') :
    ElementDenotes prelude binderText written element' := by
  cases element with
  | quantity m =>
    obtain ⟨m', hm', rfl⟩ := bind_pure_eq_ok.mp h
    cases written with
    | quantity written => exact monomial_denotes he hm'
    | bool | int => cases he
  | bool | int =>
    cases h
    cases written with
    | quantity => cases he
    | bool | int => exact he

theorem kind_denotes {written : ManifestParamKind} {kind' : BoundKind NameAtom B}
    (hk : KindDenotes prelude NameAtom.text NameAtom.text written kind)
    (h : scope.kind kind = .ok kind') : KindDenotes prelude binderText axisText written kind' := by
  cases kind with
  | scalar element =>
    obtain ⟨element', helement, rfl⟩ := bind_pure_eq_ok.mp h
    cases element with
    | quantity m =>
      obtain ⟨m', hm', rfl⟩ := bind_pure_eq_ok.mp helement
      cases written with
      | quantity written => exact monomial_denotes hk hm'
      | bool | int | array => cases hk
    | bool | int =>
      cases helement
      cases written with
      | quantity | array => cases hk
      | bool | int => exact hk
  | indexed element indexes =>
    obtain ⟨indexes', hindexes, h⟩ := bind_eq_ok.mp h
    obtain ⟨element', helement, rfl⟩ := bind_pure_eq_ok.mp h
    cases written with
    | array written axes =>
      refine ⟨scalar_denotes hk.1 helement, ?_⟩
      have hforall := NonEmpty.tryMapRef_eq_ok hindexes
      rw [← hk.2]
      generalize indexes.items = items at hforall
      generalize indexes'.items = items' at hforall
      induction hforall with
      | nil => rfl
      | cons hindex _ ih => rw [List.map_cons, List.map_cons, ih, axisText, index_name hindex]
    | quantity | bool | int => cases hk

/-- The parameters keep their names and their order. -/
theorem bindParams_forall₂ {state final : BindingState} {params : List (NamedParam NameAtom B)}
    {params' : List (BoundParam NameAtom B)}
    (h : BindingState.bindParams scope state params = .ok (final, params')) :
    List.Forall₂ (fun p p' => p'.name = p.name ∧ scope.kind p.kind = .ok p'.kind)
      params params' := by
  induction params generalizing state params' with
  | nil =>
    cases h
    exact List.Forall₂.nil
  | cons p rest ih =>
    obtain ⟨⟨next, p'⟩, hparam, h⟩ := bind_eq_ok.mp h
    obtain ⟨⟨last, rest'⟩, hrest, h⟩ := bind_eq_ok.mp h
    cases h
    obtain ⟨kind, hkind, hparam⟩ := bind_eq_ok.mp hparam
    obtain ⟨marked, -, hparam⟩ := bind_eq_ok.mp hparam
    cases hparam
    exact List.Forall₂.cons ⟨rfl, hkind⟩ (ih hrest)

theorem result_denotes {state : BindingState}
    {result' : ResultKind (StructShape NameAtom B) (DimBinder NameAtom) (IndexBinder NameAtom) B}
    (hr : ResultDenotes prelude NameAtom.text NameAtom.text written result)
    (h : state.result scope result = .ok result') :
    ResultDenotes prelude binderText axisText written result' := by
  cases result with
  | struct shape =>
    cases h
    cases written with
    | struct fields => exact hr
    | quantity | bool | int | array => cases hr
  | value kind =>
    obtain ⟨kind', hkind, h⟩ := bind_eq_ok.mp h
    have hresult : result' = .value kind' := by
      split at h
      · cases h
      · split at h
        · cases h
        · cases h
          rfl
    rw [hresult]
    cases written with
    | struct fields => cases hr
    | quantity | bool | int | array => exact kind_denotes hr hkind

end Binding

/-! ## What validation establishes -/

theorem validateNamed_spec {α : Type} {key : α → String} {role : NameRole}
    {function : Option String} {duplicate : α → ManifestValidationError} {check : α → Validated}
    {seen : List String} {items : List α}
    (h : validateNamed key role function duplicate check seen items = .ok ()) :
    (∀ item ∈ items, check item = .ok () ∧ key item ∉ seen) ∧ (items.map key).Nodup := by
  induction items generalizing seen with
  | nil => exact ⟨nofun, List.nodup_nil⟩
  | cons item rest ih =>
    obtain ⟨⟨⟩, -, h⟩ := bind_eq_ok.mp h
    split at h
    · cases h
    · rename_i hnew
      obtain ⟨⟨⟩, hcheck, hrest⟩ := bind_eq_ok.mp h
      obtain ⟨hall, hnodup⟩ := ih hrest
      refine ⟨fun other hother => ?_, List.nodup_cons.mpr ⟨fun hmem => ?_, hnodup⟩⟩
      · rcases List.mem_cons.mp hother with rfl | hother
        · exact ⟨hcheck, hnew⟩
        · exact ⟨(hall other hother).1, fun hseen =>
            (hall other hother).2 (List.mem_cons_of_mem _ hseen)⟩
      · obtain ⟨other, hother, hkey⟩ := List.mem_map.mp hmem
        exact (hall other hother).2 (hkey ▸ List.mem_cons_self)

/-- The factors of a valid monomial are distinct, and their powers are not zero. -/
structure ValidMonomial (monomial : ManifestMonomial) : Prop where
  vars : (monomial.vars.map ManifestVarPower.var).Nodup
  fixed : (monomial.fixed.map ManifestDimPower.dim).Nodup
  varPow : ∀ factor ∈ monomial.vars, 0 < factor.pow.den.toInt ∧ factor.pow.num.toInt ≠ 0
  fixedPow : ∀ factor ∈ monomial.fixed, 0 < factor.pow.den.toInt ∧ factor.pow.num.toInt ≠ 0

variable {function : ManifestFunction}

theorem validatePower_spec (h : validatePower function pow = .ok ()) :
    0 < pow.den.toInt ∧ pow.num.toInt ≠ 0 := by
  unfold validatePower at h
  split_ifs at h with hden hnum
  exact ⟨by omega, hnum⟩

theorem validateMonomial_spec {monomial : ManifestMonomial}
    (h : validateMonomial function monomial = .ok ()) : ValidMonomial monomial := by
  obtain ⟨⟨⟩, -, h⟩ := bind_eq_ok.mp h
  obtain ⟨⟨⟩, hvars, hfixed⟩ := bind_eq_ok.mp h
  have hvars := validateNamed_spec hvars
  have hfixed := validateNamed_spec hfixed
  exact ⟨hvars.2, hfixed.2, fun factor hfactor => validatePower_spec (hvars.1 factor hfactor).1,
    fun factor hfactor => validatePower_spec (hfixed.1 factor hfactor).1⟩

def ValidElement : ManifestArrayElementKind → Prop
  | .quantity monomial => ValidMonomial monomial
  | .bool => True
  | .int => True

def ValidKind : ManifestParamKind → Prop
  | .quantity monomial => ValidMonomial monomial
  | .array element _ => ValidElement element
  | .bool => True
  | .int => True

def ValidField (field : ManifestField) : Prop :=
  ∀ monomial, field.kind = .quantity monomial → monomial.vars = [] ∧ ValidMonomial monomial

def ValidResult : ManifestResultKind → Prop
  | .quantity monomial => ValidMonomial monomial
  | .array element _ => ValidElement element
  | .struct fields => ∀ field ∈ fields, ValidField field
  | .bool => True
  | .int => True

structure ValidFunction (function : ManifestFunction) : Prop where
  params : ∀ param ∈ function.params, ValidKind param.kind
  result : ValidResult function.result
  slots : ∃ slots ≤ maxAbiFunctionParams, function.abiParameterSlots = some slots

theorem validateArray_spec {element : ManifestArrayElementKind}
    (h : validateArray function element indexes = .ok ()) :
    ValidElement element := by
  obtain ⟨⟨⟩, -, h⟩ := bind_eq_ok.mp h
  split at h
  · cases h
  · obtain ⟨⟨⟩, -, h⟩ := bind_eq_ok.mp h
    cases element with
    | quantity monomial => exact validateMonomial_spec h
    | bool | int => trivial

theorem validateParamKind_spec {kind : ManifestParamKind}
    (h : validateParamKind function kind = .ok ()) : ValidKind kind := by
  cases kind with
  | quantity monomial => exact validateMonomial_spec h
  | array element indexes => exact validateArray_spec h
  | bool | int => trivial

theorem validateFieldKind_spec {field : ManifestField}
    (h : validateFieldKind function field = .ok ()) : ValidField field := by
  intro monomial hkind
  unfold validateFieldKind at h
  rw [hkind] at h
  dsimp only at h
  split_ifs at h with hvars
  rw [Bool.not_eq_true', Bool.not_eq_false, List.isEmpty_iff] at hvars
  exact ⟨hvars, validateMonomial_spec h⟩

theorem validateResultKind_spec {kind : ManifestResultKind}
    (h : validateResultKind function kind = .ok ()) : ValidResult kind := by
  cases kind with
  | quantity monomial => exact validateMonomial_spec h
  | array element indexes => exact validateArray_spec h
  | bool | int => trivial
  | struct fields =>
    obtain ⟨⟨⟩, -, h⟩ := bind_eq_ok.mp h
    split at h
    · cases h
    · exact fun field hfield => validateFieldKind_spec ((validateNamed_spec h).1 field hfield).1

theorem validateFunction_spec (h : validateFunction function = .ok ()) :
    ValidFunction function := by
  obtain ⟨⟨⟩, -, h⟩ := bind_eq_ok.mp h
  obtain ⟨⟨⟩, -, h⟩ := bind_eq_ok.mp h
  obtain ⟨⟨⟩, -, h⟩ := bind_eq_ok.mp h
  obtain ⟨⟨⟩, -, h⟩ := bind_eq_ok.mp h
  obtain ⟨⟨⟩, -, h⟩ := bind_eq_ok.mp h
  obtain ⟨⟨⟩, hparams, h⟩ := bind_eq_ok.mp h
  obtain ⟨⟨⟩, hresult, h⟩ := bind_eq_ok.mp h
  have hkinds := (validateNamed_spec hparams).1
  refine ⟨fun param hparam => validateParamKind_spec (hkinds param hparam).1,
    validateResultKind_spec hresult, ?_⟩
  dsimp only at h
  split at h
  · cases h
  · rename_i hslots
    cases hcount : function.abiParameterSlots with
    | none =>
      rw [hcount] at hslots
      exact absurd (by decide) hslots
    | some slots =>
      rw [hcount] at hslots
      exact ⟨slots, not_lt.mp hslots, rfl⟩

theorem validate_spec {manifest : PluginManifest} (h : manifest.validate = .ok ())
    (hfunction : function ∈ manifest.functions) :
    ValidFunction function := by
  obtain ⟨⟨⟩, -, h⟩ := bind_eq_ok.mp h
  split at h
  · cases h
  · exact validateFunction_spec ((validateNamed_spec h).1 function hfunction).1

/-! ## The converted function -/

theorem checkedAddUsize_eq_some {a b n : ℕ} (h : checkedAddUsize a b = some n) : n = a + b := by
  unfold checkedAddUsize at h
  split_ifs at h
  exact (Option.some.inj h).symm

theorem kindSlots {written : ManifestParamKind} {kind : BoundKind NameAtom B}
    (h : KindDenotes prelude binderText axisText written kind) {slots : ℕ}
    (hslots : paramKindAbiParameterSlots written = some slots) :
    slots = (paramWasmTypes kind).length := by
  cases written with
  | quantity | bool | int =>
    cases kind with
    | scalar element => exact (Option.some.inj hslots).symm
    | indexed element indexes => cases h
  | array element indexes =>
    cases kind with
    | scalar element => cases h
    | indexed element' indexes' =>
      rw [checkedAddUsize_eq_some hslots, ← h.2, List.length_map, paramWasmTypes,
        List.length_cons, List.length_replicate]

/-- The parameter at a place of the signature is the one of the manifest. -/
def ParamDenotes (prelude : PreludeBaseDimension ↪ B) (written : ManifestParam)
    (param : BoundParam NameAtom B) : Prop :=
  param.name.text = written.name ∧ KindDenotes prelude binderText axisText written.kind param.kind

theorem paramSlots {written : List ManifestParam} {params : List (BoundParam NameAtom B)}
    (h : List.Forall₂ (ParamDenotes prelude) written params) {start slots : ℕ}
    (hslots : written.foldlM (fun slots param => do
      checkedAddUsize slots (← paramKindAbiParameterSlots param.kind)) start = some slots) :
    slots = start + (params.flatMap fun param => paramWasmTypes param.kind).length := by
  induction h generalizing start with
  | nil =>
    cases hslots
    rfl
  | cons hparam _ ih =>
    rw [List.foldlM_cons, Option.bind_eq_bind, Option.bind_eq_some_iff] at hslots
    obtain ⟨next, hnext, hrest⟩ := hslots
    rw [Option.bind_eq_some_iff] at hnext
    obtain ⟨own, hown, hadd⟩ := hnext
    rw [ih hrest, checkedAddUsize_eq_some hadd, kindSlots hparam.2 hown, List.flatMap_cons,
      List.length_append, Nat.add_assoc]

/-- The converted signature has the parts of the written function, in order, and needs the slots
that validation has counted. -/
structure SignatureDenotes (prelude : PreludeBaseDimension ↪ B) (function : ManifestFunction)
    (name : NameAtom) (signature : PluginSignature B) : Prop where
  name : name.text = function.name
  dimVars : signature.dimVars.map NameAtom.text = function.dimVars
  indexVars : signature.indexVars.map NameAtom.text = function.indexVars
  params : List.Forall₂ (ParamDenotes prelude) function.params signature.params
  result : ResultDenotes prelude binderText axisText function.result signature.result
  wellScoped : WellScoped signature.dimVars signature.indexVars signature.params signature.result
  slots : function.abiParameterSlots = some (expectedWasmType signature).params.length

theorem resultSlots
    {result : ResultKind (StructShape NameAtom B) (DimBinder NameAtom) (IndexBinder NameAtom) B}
    (h : ResultDenotes prelude binderText axisText written result) :
    resultAbiParameterSlots written = (resultWasmType result).params.length := by
  cases result with
  | struct shape =>
    cases written with
    | struct fields => rfl
    | quantity | bool | int | array => cases h
  | value kind =>
    cases written with
    | struct fields => cases h
    | quantity | bool | int =>
      cases kind with
      | scalar element => rfl
      | indexed element indexes => cases h
    | array element indexes =>
      cases kind with
      | scalar element => cases h
      | indexed element indexes => rfl

theorem tryFromParts_eq_ok {S Name : Type} [LinearOrder Name] {dimVars indexVars : List Name}
    {params : List (NamedParam Name B)} {result : ResultKind S Name Name B}
    {signature : FunctionSignature S Name B}
    (h : FunctionSignature.tryFromParts dimVars indexVars params result = .ok signature) :
    checkParts dimVars indexVars params result = .ok (signature.params, signature.result) ∧
      signature.dimVars = dimVars ∧ signature.indexVars = indexVars := by
  unfold FunctionSignature.tryFromParts at h
  split at h
  · rename_i parts hparts
    cases h
    exact ⟨hparts, rfl, rfl⟩
  · cases h

theorem convertParam_denotes {written : ManifestParam} {param : NamedParam NameAtom B}
    (h : convertParam prelude written = .ok param) : param.name.text = written.name ∧
      KindDenotes prelude NameAtom.text NameAtom.text written.kind param.kind := by
  obtain ⟨name, hname, h⟩ := bind_eq_ok.mp h
  obtain ⟨kind, hkind, rfl⟩ := bind_pure_eq_ok.mp h
  exact ⟨convertName_eq_ok.mp hname, convertParamKind_denotes hkind⟩

theorem convertFunction_denotes (hvalid : ValidFunction function) {signature : PluginSignature B}
    (h : convertFunction prelude function = .ok (name, signature)) :
    SignatureDenotes prelude function name signature := by
  have h := mapError_eq_ok.mp h
  obtain ⟨converted, hname, h⟩ := bind_eq_ok.mp h
  obtain ⟨dimVars, hdimVars, h⟩ := bind_eq_ok.mp h
  obtain ⟨indexVars, hindexVars, h⟩ := bind_eq_ok.mp h
  obtain ⟨params, hparams, h⟩ := bind_eq_ok.mp h
  obtain ⟨result, hresult, h⟩ := bind_eq_ok.mp h
  obtain ⟨built, hbuilt, h⟩ := bind_eq_ok.mp h
  cases h
  obtain ⟨hparts, hdims, hindexes⟩ := tryFromParts_eq_ok (mapError_eq_ok.mp hbuilt)
  obtain ⟨⟨⟩, -, hparts⟩ := bind_eq_ok.mp hparts
  obtain ⟨⟨⟩, -, hparts⟩ := bind_eq_ok.mp hparts
  obtain ⟨⟨state, bound⟩, hbind, hparts⟩ := bind_eq_ok.mp hparts
  obtain ⟨boundResult, hboundResult, hparts⟩ := bind_eq_ok.mp hparts
  obtain ⟨⟨⟩, -, hparts⟩ := bind_eq_ok.mp hparts
  have hpair := Prod.mk.inj (Except.ok.inj hparts)
  -- each parameter is converted and then bound at its place
  have hparamsDenote : List.Forall₂ (ParamDenotes prelude) function.params signature.params := by
    have hforall := bindParams_forall₂ hbind
    rw [mapM_eq_ok, List.forall₂_iff_get] at hparams
    rw [hpair.1, List.forall₂_iff_get] at hforall
    rw [List.forall₂_iff_get]
    refine ⟨hparams.1.trans hforall.1, fun i hi hi' => ?_⟩
    have hconvert := convertParam_denotes (hparams.2 i hi (hparams.1 ▸ hi))
    obtain ⟨hsame, hkind⟩ := hforall.2 i (hparams.1 ▸ hi) hi'
    exact ⟨(congrArg NameAtom.text hsame).trans hconvert.1, kind_denotes hconvert.2 hkind⟩
  have hresultDenotes : ResultDenotes prelude binderText axisText function.result
      signature.result := by
    rw [← hpair.2]
    refine result_denotes (convertResultKind_denotes ?_ hresult) hboundResult
    intro fields hfields field hfield monomial hkind
    have hstruct := hvalid.result
    rw [hfields] at hstruct
    exact (hstruct field hfield monomial hkind).1
  have hslots : function.abiParameterSlots = some (expectedWasmType signature).params.length := by
    obtain ⟨slots, -, hcount⟩ := hvalid.slots
    rw [hcount]
    obtain ⟨params, hparamSlots, hadd⟩ := Option.bind_eq_some_iff.mp hcount
    rw [checkedAddUsize_eq_some hadd, paramSlots hparamsDenote hparamSlots,
      resultSlots hresultDenotes, Nat.zero_add, expectedWasmType, List.length_append]
  exact ⟨convertName_eq_ok.mp hname, hdims ▸ map_text_of_convertName hdimVars,
    hindexes ▸ map_text_of_convertName hindexVars, hparamsDenote, hresultDenotes,
    signature.wellScoped, hslots⟩

end ProvenGraphcal.Plugin
