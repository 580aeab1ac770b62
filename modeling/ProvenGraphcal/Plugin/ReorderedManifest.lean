import ProvenGraphcal.Plugin.ConvertedSignature

/-!
# Manifests with their factors in another order

A manifest with the factors of its monomials in another order, or with unreduced exponents, converts
to the same signatures.
-/

namespace ProvenGraphcal.Plugin

open Static (PreludeBaseDimension)
open ManifestMonomial
open Checked (bind_eq_ok mapError_eq_ok mapM_eq_ok)

variable {B : Type} [LinearOrder B] {prelude : PreludeBaseDimension ↪ B}

/-! ## Monomials -/

/-- The same factors in some order, with exponents of the same values. -/
structure ReorderedMonomial (written other : ManifestMonomial) : Prop where
  vars : (written.vars.map fun factor => (factor.var, factor.pow.value)).Perm
    (other.vars.map fun factor => (factor.var, factor.pow.value))
  fixed : (written.fixed.map fun factor => (factor.dim, factor.pow.value)).Perm
    (other.fixed.map fun factor => (factor.dim, factor.pow.value))

theorem convertible_of_value {pow other : ManifestRational} {r : Rational}
    (h : convertRational pow = .ok r) (hvalue : other.value = pow.value)
    (hden : 0 < other.den.toInt) : convertRational other = .ok r :=
  (convertRational_eq_ok hden.ne').mpr ((value_of_convertRational h).trans hvalue.symm)

example : convertRational ⟨2, 4⟩ = convertRational ⟨1, 2⟩ := rfl

theorem exists_factor {α β : Type} {f : α → β} {l l' : List α} (h : (l.map f).Perm (l'.map f))
    {a : α} (ha : a ∈ l') : ∃ b ∈ l, f b = f a :=
  List.mem_map.mp (h.mem_iff.mpr (List.mem_map_of_mem ha))

/-- The variables convert in any order. -/
theorem mapM_convertVar_perm {written other : ManifestMonomial}
    (h : ReorderedMonomial written other) (hvalid : ValidMonomial other)
    {vars : List (NameAtom × Rational)} (hvars : written.vars.mapM convertVar = .ok vars) :
    ∃ vars', other.vars.mapM convertVar = .ok vars' ∧ vars.Perm vars' := by
  obtain ⟨vars', hvars'⟩ := Checked.exists_mapM_eq_ok (f := convertVar) (l := other.vars) (by
    intro factor hfactor
    obtain ⟨source, hsource, hsame⟩ := exists_factor h.vars hfactor
    obtain ⟨converted, -, hconverted⟩ :=
      Checked.exists_of_forall₂_left (mapM_eq_ok.mp hvars) hsource
    obtain ⟨name, hname, hconverted⟩ := bind_eq_ok.mp hconverted
    obtain ⟨pow, hpow, -⟩ := bind_eq_ok.mp hconverted
    obtain ⟨hvar, hvalue⟩ := Prod.mk.inj hsame
    have hpow' := convertible_of_value hpow hvalue.symm (hvalid.varPow factor hfactor).1
    refine ⟨(name, pow), bind_eq_ok.mpr ⟨name, hvar ▸ hname, ?_⟩⟩
    exact bind_eq_ok.mpr ⟨pow, hpow', rfl⟩)
  refine ⟨vars', hvars',
    FunctionSignature.perm_of_map_perm (h := fun e => (e.1.text, e.2.value)) ?_ ?_⟩
  · intro a _ b _ hsame
    obtain ⟨htext, hvalue⟩ := Prod.mk.inj hsame
    exact Prod.ext (NameAtom.text_injective htext) (Ratio.value_injective hvalue)
  · rw [map_convertVar hvars, map_convertVar hvars']
    exact h.vars

theorem exists_tryFromFactors {K : Type} [LinearOrder K] {l : List (K × Rational)}
    (hzero : ∀ factor ∈ l, factor.2.isZero = false) (hkeys : (l.map Prod.fst).Nodup) :
    ∃ m : SparseMonomial K Rational, m.factors.entries.Perm l := by
  obtain ⟨factors, hfactors⟩ := SparseMonomial.exists_pushFactors .empty hzero
    (by rw [SortedMap.entries_empty, List.append_nil]; exact hkeys)
  have hperm := SparseMonomial.pushFactors_perm hfactors
  rw [SortedMap.entries_empty, List.append_nil] at hperm
  exact ⟨⟨factors, SparseMonomial.pushFactors_zeroFree hfactors⟩, hperm⟩

/-- A dimension with the given distinct factors. -/
theorem exists_dimension {l : List (B × Rational)} (hzero : ∀ factor ∈ l, factor.2.isZero = false)
    (hkeys : (l.map Prod.fst).Nodup) : ∃ d : Dimension B,
      d.toFinsupp = (l.map fun factor => Finsupp.single factor.1 factor.2.value).sum := by
  obtain ⟨m, hm⟩ := exists_tryFromFactors hzero hkeys
  refine ⟨⟨m⟩, ?_⟩
  rw [Dimension.toFinsupp_eq_sum]
  exact (hm.map _).sum_eq

/-- The base and the exponent that a factor converts to. -/
def BaseFactor (prelude : PreludeBaseDimension ↪ B) (factor : ManifestDimPower)
    (entry : B × Rational) : Prop :=
  (∃ base, preludeBaseDimension factor.dim = some base ∧ entry.1 = prelude base) ∧
    convertRational factor.pow = .ok entry.2

variable {entries : List (B × Rational)} {factors : List ManifestDimPower}

/-- Distinct base dimensions multiply together without overflow. -/
theorem exists_foldlM_convertFixed (done : List (B × Rational)) (fixed : Dimension B)
    (h : List.Forall₂ (BaseFactor prelude) factors entries)
    (hzero : ∀ entry ∈ done ++ entries, entry.2.isZero = false)
    (hkeys : ((done ++ entries).map Prod.fst).Nodup)
    (hfixed : fixed.toFinsupp = (done.map fun e => Finsupp.single e.1 e.2.value).sum) :
    ∃ result, factors.foldlM (convertFixed prelude) fixed = .ok result := by
  induction h generalizing done fixed with
  | nil => exact ⟨fixed, rfl⟩
  | @cons factor entry factors entries hfactor _ ih =>
    rw [List.append_cons] at hzero hkeys
    have hdone := List.sublist_append_left (done ++ [entry]) entries
    obtain ⟨next, hnext⟩ := exists_dimension
      (fun e he => hzero e (hdone.mem he)) ((hdone.map Prod.fst).nodup hkeys)
    obtain ⟨result, hresult⟩ := ih _ next hzero hkeys hnext
    refine ⟨result, ?_⟩
    obtain ⟨⟨base, hbase, hentry⟩, hpow⟩ := hfactor
    -- the factor's power and the product exist, since their exponents do
    have hpowered : (Dimension.base (prelude base)).pow entry.2 =
        .ok ⟨.single (prelude base) entry.2⟩ := by
      rw [Dimension.pow_eq_ok, Dimension.toFinsupp_base, Finsupp.smul_single, smul_eq_mul, mul_one]
      exact SparseMonomial.toFinsupp_single (prelude base) entry.2
    have hmul : fixed.checkedMul ⟨.single (prelude base) entry.2⟩ = .ok next := by
      rw [Dimension.checkedMul_eq_ok, hnext, hfixed, List.map_append, List.sum_append,
        List.map_singleton, List.sum_singleton, hentry]
      congr 1
      exact (SparseMonomial.toFinsupp_single (prelude base) entry.2).symm
    have hstep : convertFixed prelude fixed factor = .ok next := by
      unfold convertFixed
      rw [hbase]
      rw [hpow]
      refine bind_eq_ok.mpr ⟨entry.2, rfl, ?_⟩
      exact bind_eq_ok.mpr ⟨_, mapError_eq_ok.mpr hpowered,
        mapError_eq_ok.mpr hmul⟩
    rw [List.foldlM_cons, hstep]
    exact hresult

theorem baseFactor_of_foldlM {fixed result : Dimension B}
    (h : factors.foldlM (convertFixed prelude) fixed = .ok result) {factor : ManifestDimPower}
    (hfactor : factor ∈ factors) : ∃ entry, BaseFactor prelude factor entry := by
  obtain ⟨_, _, hnext⟩ := Checked.exists_step_of_foldlM h hfactor
  unfold convertFixed at hnext
  cases hbase : preludeBaseDimension factor.dim with
  | none =>
    rw [hbase] at hnext
    cases hnext
  | some base =>
    rw [hbase] at hnext
    obtain ⟨pow, hpow, -⟩ := bind_eq_ok.mp hnext
    exact ⟨(prelude base, pow), ⟨base, hbase, rfl⟩, hpow⟩

omit [LinearOrder B] in
theorem baseFactors_nodup (h : List.Forall₂ (BaseFactor prelude) factors entries)
    (hdims : (factors.map ManifestDimPower.dim).Nodup) : (entries.map Prod.fst).Nodup := by
  induction h with
  | nil => exact List.nodup_nil
  | cons hfactor hrest ih =>
    obtain ⟨hnew, hdims⟩ := List.nodup_cons.mp hdims
    refine List.nodup_cons.mpr ⟨fun hmem => hnew ?_, ih hdims⟩
    obtain ⟨entry, hentry, hsame⟩ := List.mem_map.mp hmem
    obtain ⟨other, hother, hotherEntry⟩ := Checked.exists_of_forall₂_right hrest hentry
    obtain ⟨⟨base, hbase, heq⟩, -⟩ := hfactor
    obtain ⟨⟨base', hbase', heq'⟩, -⟩ := hotherEntry
    have hbases : base' = base := prelude.injective (heq'.symm.trans (hsame.trans heq))
    have hdim := preludeBaseDimension_injective hbase (hbases ▸ hbase')
    exact List.mem_map.mpr ⟨other, hother, hdim.symm⟩

omit [LinearOrder B] in
theorem BaseFactor.isZero {factor : ManifestDimPower} {entry : B × Rational}
    (h : BaseFactor prelude factor entry)
    (hpow : 0 < factor.pow.den.toInt ∧ factor.pow.num.toInt ≠ 0) : entry.2.isZero = false := by
  have hvalue := value_of_convertRational h.2
  by_contra hzero
  rw [Bool.not_eq_false, Ratio.isZero_iff, hvalue, ManifestRational.value, div_eq_zero_iff] at hzero
  rcases hzero with hnum | hden
  · exact hpow.2 (by exact_mod_cast hnum)
  · exact hpow.1.ne' (by exact_mod_cast hden)

omit [LinearOrder B] in
theorem ReorderedMonomial.basePowers {written other : ManifestMonomial}
    (h : ReorderedMonomial written other) :
    other.basePowers prelude = written.basePowers prelude := by
  have hpairs := (h.fixed.map fun e : String × ℚ => (preludeBaseDimension e.1).elim 0 fun base =>
    Finsupp.single (prelude base) e.2).sum_eq
  rw [List.map_map, List.map_map] at hpairs
  have hpower : ManifestMonomial.basePower prelude = fun factor =>
      (preludeBaseDimension factor.dim).elim 0 fun base =>
        Finsupp.single (prelude base) factor.pow.value := by
    funext factor
    unfold ManifestMonomial.basePower
    cases preludeBaseDimension factor.dim <;> rfl
  unfold ManifestMonomial.basePowers
  rw [hpower]
  exact hpairs.symm

/-- The monomial is the same, whatever the order of its factors. -/
theorem convertMonomial_reordered {written other : ManifestMonomial}
    (h : ReorderedMonomial written other) (hvalid : ValidMonomial other)
    {monomial : DimMonomial NameAtom B} (hok : convertMonomial prelude written = .ok monomial) :
    convertMonomial prelude other = .ok monomial := by
  obtain ⟨vars, hvars, hok⟩ := bind_eq_ok.mp hok
  obtain ⟨fixed, hfixed, hok⟩ := bind_eq_ok.mp hok
  obtain ⟨sparse, hsparse, hok⟩ := bind_eq_ok.mp (mapError_eq_ok.mp hok)
  cases hok
  obtain ⟨vars', hvars', hperm⟩ := mapM_convertVar_perm h hvalid hvars
  have hentries : ∃ entries, List.Forall₂ (BaseFactor prelude) other.fixed entries := by
    have hall : ∀ factor ∈ other.fixed, ∃ entry, BaseFactor prelude factor entry := by
      intro factor hfactor
      obtain ⟨source, hsource, hsame⟩ := exists_factor h.fixed hfactor
      obtain ⟨entry, hbase, hpow⟩ := baseFactor_of_foldlM hfixed hsource
      obtain ⟨hdim, hvalue⟩ := Prod.mk.inj hsame
      exact ⟨entry, hdim ▸ hbase,
        convertible_of_value hpow hvalue.symm (hvalid.fixedPow factor hfactor).1⟩
    generalize other.fixed = factors at hall
    induction factors with
    | nil => exact ⟨[], List.Forall₂.nil⟩
    | cons factor rest ih =>
      obtain ⟨entry, hentry⟩ := hall factor List.mem_cons_self
      obtain ⟨entries, hentries⟩ :=
        ih fun other hother => hall other (List.mem_cons_of_mem _ hother)
      exact ⟨entry :: entries, List.Forall₂.cons hentry hentries⟩
  obtain ⟨entries, hentries⟩ := hentries
  obtain ⟨fixed', hfixed'⟩ := exists_foldlM_convertFixed [] .dimensionless hentries
    (fun entry hentry => by
      obtain ⟨factor, hfactor, hbase⟩ := Checked.exists_of_forall₂_right hentries hentry
      exact hbase.isZero (hvalid.fixedPow factor hfactor))
    (baseFactors_nodup hentries hvalid.fixed) Dimension.toFinsupp_dimensionless
  have hsame : fixed' = fixed := by
    apply Dimension.eq_of_toFinsupp
    rw [(foldlM_convertFixed hfixed').2, (foldlM_convertFixed hfixed).2]
    exact congrArg _ h.basePowers
  have hsparse' : SparseMonomial.tryFromFactors vars' = .ok sparse :=
    SparseMonomial.tryFromFactors_eq_ok.mpr
      ((SparseMonomial.tryFromFactors_eq_ok.mp hsparse).trans hperm)
  refine bind_eq_ok.mpr ⟨vars', hvars', bind_eq_ok.mpr ⟨fixed', hfixed', ?_⟩⟩
  rw [hsame]
  exact mapError_eq_ok.mpr (bind_eq_ok.mpr ⟨sparse, hsparse', rfl⟩)

def ReorderedElement : ManifestArrayElementKind → ManifestArrayElementKind → Prop
  | .quantity written, .quantity other => ReorderedMonomial written other
  | .bool, .bool => True
  | .int, .int => True
  | _, _ => False

def ReorderedKind : ManifestParamKind → ManifestParamKind → Prop
  | .quantity written, .quantity other => ReorderedMonomial written other
  | .array element indexes, .array element' indexes' =>
    ReorderedElement element element' ∧ indexes' = indexes
  | .bool, .bool => True
  | .int, .int => True
  | _, _ => False

def ReorderedField (written other : ManifestField) : Prop :=
  other.name = written.name ∧
    match written.kind, other.kind with
    | .quantity monomial, .quantity monomial' => ReorderedMonomial monomial monomial'
    | .bool, .bool => True
    | .int, .int => True
    | _, _ => False

def ReorderedResult : ManifestResultKind → ManifestResultKind → Prop
  | .quantity written, .quantity other => ReorderedMonomial written other
  | .array element indexes, .array element' indexes' =>
    ReorderedElement element element' ∧ indexes' = indexes
  | .struct fields, .struct fields' => List.Forall₂ ReorderedField fields fields'
  | .bool, .bool => True
  | .int, .int => True
  | _, _ => False

/-- The functions differ in the order of monomial factors and in unreduced exponents only. -/
structure ReorderedFunction (written other : ManifestFunction) : Prop where
  name : other.name = written.name
  dimVars : other.dimVars = written.dimVars
  indexVars : other.indexVars = written.indexVars
  params : List.Forall₂ (fun param param' : ManifestParam => param'.name = param.name ∧
    ReorderedKind param.kind param'.kind) written.params other.params
  result : ReorderedResult written.result other.result

theorem convertArrayElement_reordered {written other : ManifestArrayElementKind}
    (h : ReorderedElement written other) (hvalid : ValidElement other)
    {element : ScalarValueKind NameAtom B}
    (hok : convertArrayElement prelude written = .ok element) :
    convertArrayElement prelude other = .ok element := by
  cases written with
  | quantity written =>
    cases other with
    | quantity other =>
      obtain ⟨monomial, hmonomial, hok⟩ := bind_eq_ok.mp hok
      exact bind_eq_ok.mpr ⟨monomial, convertMonomial_reordered h hvalid hmonomial, hok⟩
    | bool | int => cases h
  | bool | int =>
    cases other with
    | quantity => cases h
    | bool | int => first | exact hok | cases h

variable {kind : ParamKind NameAtom NameAtom B}

theorem convertArray_reordered {element element' : ManifestArrayElementKind} {indexes : List String}
    (h : ReorderedElement element element') (hvalid : ValidElement element')
    (hok : convertArray prelude element indexes = .ok kind) :
    convertArray prelude element' indexes = .ok kind := by
  obtain ⟨names, hnames, hok⟩ := bind_eq_ok.mp hok
  refine bind_eq_ok.mpr ⟨names, hnames, ?_⟩
  cases hsome : NonEmpty.tryFromVec names with
  | none =>
    rw [hsome] at hok
    cases hok
  | some axes =>
    rw [hsome] at hok
    obtain ⟨converted, hconverted, hok⟩ := bind_eq_ok.mp hok
    exact bind_eq_ok.mpr
      ⟨converted, convertArrayElement_reordered h hvalid hconverted, hok⟩

theorem convertParamKind_reordered {written other : ManifestParamKind}
    (h : ReorderedKind written other) (hvalid : ValidKind other)
    (hok : convertParamKind prelude written = .ok kind) :
    convertParamKind prelude other = .ok kind := by
  cases written with
  | quantity written =>
    cases other with
    | quantity other =>
      obtain ⟨monomial, hmonomial, hok⟩ := bind_eq_ok.mp hok
      exact bind_eq_ok.mpr ⟨monomial, convertMonomial_reordered h hvalid hmonomial, hok⟩
    | bool | int | array => cases h
  | array element indexes =>
    cases other with
    | array element' indexes' =>
      obtain ⟨helement, rfl⟩ := h
      exact convertArray_reordered helement hvalid hok
    | quantity | bool | int => cases h
  | bool | int =>
    cases other with
    | quantity | array => cases h
    | bool | int => first | exact hok | cases h

theorem convertStructField_reordered {written other : ManifestField}
    (h : ReorderedField written other) (hvalid : ValidField other) {field : NameAtom × StructFieldKind B}
    (hok : convertStructField prelude written = .ok field) :
    convertStructField prelude other = .ok field := by
  obtain ⟨name, kind⟩ := written
  obtain ⟨name', kind'⟩ := other
  obtain ⟨hname, hkind⟩ := h
  obtain rfl : name' = name := hname
  obtain ⟨converted, hconverted, hok⟩ := bind_eq_ok.mp hok
  refine bind_eq_ok.mpr ⟨converted, hconverted, ?_⟩
  cases kind with
  | quantity written =>
    cases kind' with
    | quantity other =>
      obtain ⟨own, hown, hok⟩ := bind_eq_ok.mp hok
      obtain ⟨monomial, hmonomial, hown⟩ := bind_eq_ok.mp hown
      have hother := convertMonomial_reordered hkind (hvalid other rfl).2 hmonomial
      exact bind_eq_ok.mpr ⟨own, bind_eq_ok.mpr ⟨monomial, hother, hown⟩, hok⟩
    | bool | int => cases hkind
  | bool | int =>
    cases kind' with
    | quantity => cases hkind
    | bool | int => first | exact hok | cases hkind

/-- Items that convert alike convert to the same list. -/
theorem mapM_reordered {α β ε : Type} {R : α → α → Prop} {V : α → Prop} {f : α → Except ε β}
    (hstep : ∀ a a', R a a' → V a' → ∀ b, f a = .ok b → f a' = .ok b) {l l' : List α}
    (h : List.Forall₂ R l l') (hvalid : ∀ a ∈ l', V a) {r : List β} (hok : l.mapM f = .ok r) :
    l'.mapM f = .ok r := by
  rw [mapM_eq_ok] at hok ⊢
  induction h generalizing r with
  | nil => exact hok
  | cons hrel hrest ih =>
    cases hok with
    | cons hfirst hothers =>
      exact List.Forall₂.cons (hstep _ _ hrel (hvalid _ List.mem_cons_self) _ hfirst)
        (ih (fun a ha => hvalid a (List.mem_cons_of_mem _ ha)) hothers)

theorem convertResultKind_reordered {written other : ManifestResultKind}
    (h : ReorderedResult written other) (hvalid : ValidResult other)
    {result : ResultKind (StructShape NameAtom B) NameAtom NameAtom B}
    (hok : convertResultKind prelude written = .ok result) :
    convertResultKind prelude other = .ok result := by
  cases written with
  | quantity written =>
    cases other with
    | quantity other =>
      obtain ⟨monomial, hmonomial, hok⟩ := bind_eq_ok.mp hok
      exact bind_eq_ok.mpr ⟨monomial, convertMonomial_reordered h hvalid hmonomial, hok⟩
    | bool | int | array | struct => cases h
  | array element indexes =>
    cases other with
    | array element' indexes' =>
      obtain ⟨helement, rfl⟩ := h
      obtain ⟨kind, hkind, hok⟩ := bind_eq_ok.mp hok
      exact bind_eq_ok.mpr ⟨kind, convertArray_reordered helement hvalid hkind, hok⟩
    | quantity | bool | int | struct => cases h
  | struct fields =>
    cases other with
    | struct fields' =>
      obtain ⟨converted, hconverted, hok⟩ := bind_eq_ok.mp hok
      have hother := mapM_reordered (R := ReorderedField) (V := ValidField)
        (fun _ _ hfield hfieldValid _ => convertStructField_reordered hfield hfieldValid) h hvalid
        hconverted
      exact bind_eq_ok.mpr ⟨converted, hother, hok⟩
    | quantity | bool | int | array => cases h
  | bool | int =>
    cases other with
    | quantity | array | struct => cases h
    | bool | int => first | exact hok | cases h

theorem convertFunction_reordered {written other : ManifestFunction}
    (h : ReorderedFunction written other) (hvalid : ValidFunction other)
    {converted : NameAtom × PluginSignature B}
    (hok : convertFunction prelude written = .ok converted) :
    convertFunction prelude other = .ok converted := by
  have hok := mapError_eq_ok.mp hok
  obtain ⟨name, hname, hok⟩ := bind_eq_ok.mp hok
  obtain ⟨dimVars, hdimVars, hok⟩ := bind_eq_ok.mp hok
  obtain ⟨indexVars, hindexVars, hok⟩ := bind_eq_ok.mp hok
  obtain ⟨params, hparams, hok⟩ := bind_eq_ok.mp hok
  obtain ⟨result, hresult, hok⟩ := bind_eq_ok.mp hok
  have hparams' : other.params.mapM (convertParam prelude) = .ok params := by
    refine mapM_reordered (V := fun param => ValidKind param.kind) ?_ h.params hvalid.params
      hparams
    intro param param' hparam hkindValid converted hconverted
    obtain ⟨name, hname, hconverted⟩ := bind_eq_ok.mp hconverted
    obtain ⟨kind, hkind, hconverted⟩ := bind_eq_ok.mp hconverted
    have hkind' := convertParamKind_reordered hparam.2 hkindValid hkind
    refine bind_eq_ok.mpr ⟨name, hparam.1.symm ▸ hname, ?_⟩
    exact bind_eq_ok.mpr ⟨kind, hkind', hconverted⟩
  have hresult' := convertResultKind_reordered h.result hvalid.result hresult
  refine mapError_eq_ok.mpr ?_
  unfold convertParts
  rw [h.name, h.dimVars, h.indexVars, hname, hparams', hresult']
  refine bind_eq_ok.mpr ⟨name, rfl, bind_eq_ok.mpr ⟨dimVars, hdimVars, ?_⟩⟩
  exact bind_eq_ok.mpr ⟨indexVars, hindexVars, hok⟩

/-- A function of a valid manifest converts to a signature that denotes it, with the slots that
validation counts; the order of factors and the form of exponents do not matter. -/
theorem manifest_conversion (prelude : PreludeBaseDimension ↪ B) :
    (∀ manifest : PluginManifest, manifest.validate = .ok () →
      ∀ function ∈ manifest.functions, ∀ name signature,
        convertFunction prelude function = .ok (name, signature) →
        SignatureDenotes prelude function name signature) ∧
    (∀ manifest : PluginManifest, manifest.validate = .ok () →
      ∀ converted, convertManifest prelude manifest = .ok converted →
        List.Forall₂ (fun function entry => SignatureDenotes prelude function entry.1 entry.2)
          manifest.functions converted) ∧
    (∀ manifest other : PluginManifest, manifest.validate = .ok () → other.validate = .ok () →
      List.Forall₂ ReorderedFunction manifest.functions other.functions →
      ∀ converted, convertManifest prelude manifest = .ok converted →
        ∃ converted', convertManifest prelude other = .ok converted' ∧
          List.Forall₂ (fun entry entry' => entry.1 = entry'.1 ∧
            entry.2.structurallyEquivalent entry'.2 = true) converted converted') := by
  refine ⟨?_, ?_, ?_⟩
  · intro manifest hvalid function hfunction name signature h
    exact convertFunction_denotes (validate_spec hvalid hfunction) h
  · intro manifest hvalid converted h
    rw [convertManifest, mapM_eq_ok, List.forall₂_iff_get] at h
    rw [List.forall₂_iff_get]
    refine ⟨h.1, fun i hi hi' => ?_⟩
    exact convertFunction_denotes (validate_spec hvalid (List.get_mem _ _)) (h.2 i hi hi')
  · intro manifest other _ hvalid hreordered converted h
    have hother : convertManifest prelude other = .ok converted :=
      mapM_reordered (R := ReorderedFunction) (V := ValidFunction) (f := convertFunction prelude)
        (fun _ _ hrel hfunction _ hok => convertFunction_reordered hrel hfunction hok) hreordered
        (fun function hfunction => validate_spec hvalid hfunction) h
    refine ⟨converted, hother, ?_⟩
    rw [List.forall₂_same]
    exact fun entry _ => ⟨rfl, FunctionSignature.structurallyEquivalent_refl entry.2⟩

end ProvenGraphcal.Plugin
