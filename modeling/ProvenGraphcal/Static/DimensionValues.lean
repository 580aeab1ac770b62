import ProvenGraphcal.Static.DimensionDefinitions

/-!
# Runs of the dimension evaluator

Each function of the evaluator is a linear combination of what its calls give. All runs that give
a dimension give the same one, and only the view of a module leaves its ports in a dimension.
-/

namespace ProvenGraphcal.Static

open Resolve
open Checked (bind_eq_ok bind_pure_eq_ok)

variable {N : Type} [LinearOrder N] [LinearOrder (BaseDimId N)]
variable {item : DimExprItem N} {acc : Dimension (BaseDimId N)}
variable {factors : List (Dimension (BaseDimId N) × Rational)} {site : Option N}
variable {identity : ResolvedDimName N} {bound : SortedMap N (Dimension (BaseDimId N))}

namespace StaticDefinitionEvaluator

variable {E : StaticDefinitionEvaluator N} {calls : Evaluation N}
  {visiting : List (ResolvedDimName N)} {owner : SourceDagId N} {view : PortView N}
  {d : Dimension (BaseDimId N)}

omit [LinearOrder N] [LinearOrder (BaseDimId N)] in
theorem overflow_eq_ok {α : Type} {x : Except RatioError α} {a : α} :
    (overflow x : Except (DimensionError N) α) = .ok a ↔ x = .ok a :=
  Checked.mapError_eq_ok

theorem multiplyFactor_eq_ok {value : Dimension (BaseDimId N)}
    (h : multiplyFactor acc (value, item.effectivePower, item.op) = .ok d) :
    d.toFinsupp = acc.toFinsupp + item.exponent • value.toFinsupp := by
  obtain ⟨powered, hpowered, h⟩ := bind_eq_ok.mp h
  rw [Dimension.pow_eq_ok] at hpowered
  unfold DimExprItem.exponent
  dsimp only at h
  split at h
  case h_1 hop =>
    rw [Dimension.checkedMul_eq_ok] at h
    rw [h, hpowered, hop]
  case h_2 hop =>
    rw [Dimension.checkedDiv_eq_ok] at h
    rw [h, hpowered, hop, neg_smul, sub_eq_add_neg]

theorem evaluateTerm_eq_ok {factor : Option (Dimension (BaseDimId N) × Rational × MulDivOp)}
    (h : E.evaluateTerm calls visiting owner noOverrides view site item = .ok factor) :
    (E.termOf owner item = some none ∧ factor = none) ∨
      ∃ identity value, E.termOf owner item = some (some (identity, item.exponent)) ∧
        calls.dimensionIn visiting identity view site = .ok value ∧
        factor = some (value, item.effectivePower, item.op) := by
  unfold evaluateTerm at h
  unfold termOf
  cases hname : item.name with
  | dimensionless =>
    rw [hname] at h
    exact .inl ⟨rfl, (Except.ok.inj h).symm⟩
  | path reference =>
    rw [hname] at h
    dsimp only at h
    cases hidentity : E.resolveDimension owner reference with
    | none =>
      rw [hidentity] at h
      cases h
    | some identity =>
      rw [hidentity] at h
      obtain ⟨value, hvalue, h⟩ := bind_eq_ok.mp h
      refine .inr ⟨identity, value, ?_, hvalue, (Except.ok.inj h).symm⟩
      dsimp only
      rw [hidentity, Option.map_some]

/-- The sum of the values that calls give for the terms of an expression. -/
noncomputable def termsSum (calls : Evaluation N) (visiting : List (ResolvedDimName N))
    (view : PortView N) (site : Option N) (terms : List (ResolvedDimName N × ℚ)) :
    BaseDimId N →₀ ℚ :=
  (terms.map fun term => term.2 • exponentsOf (calls.dimensionIn visiting term.1 view site)).sum

theorem evaluateTerms_eq_ok {items : List (DimExprItem N)}
    {factors : List (Option (Dimension (BaseDimId N) × Rational × MulDivOp))}
    (h : items.mapM (E.evaluateTerm calls visiting owner noOverrides view site) = .ok factors) :
    ∃ terms, items.mapM (E.termOf owner) = some terms ∧
      (∀ term ∈ terms.filterMap id, ∃ v, calls.dimensionIn visiting term.1 view site = .ok v) ∧
      ∀ acc d, (factors.filterMap id).foldlM multiplyFactor acc = .ok d →
        d.toFinsupp = acc.toFinsupp + termsSum calls visiting view site (terms.filterMap id) := by
  induction items generalizing factors with
  | nil =>
    rw [List.mapM_nil] at h
    cases h
    refine ⟨[], rfl, nofun, fun acc d hfold => ?_⟩
    cases hfold
    rw [List.filterMap_nil, termsSum, List.map_nil, List.sum_nil, add_zero]
  | cons item rest ih =>
    rw [List.mapM_cons, bind_eq_ok] at h
    obtain ⟨factor, hfactor, h⟩ := h
    obtain ⟨others, hothers, rfl⟩ := bind_pure_eq_ok.mp h
    obtain ⟨terms, hterms, hvalues, hsum⟩ := ih hothers
    rcases evaluateTerm_eq_ok hfactor with ⟨hterm, rfl⟩ | ⟨identity, value, hterm, hvalue, rfl⟩
    · refine ⟨none :: terms, ?_, hvalues, hsum⟩
      rw [List.mapM_cons, hterm, hterms]
      rfl
    · refine ⟨some (identity, item.exponent) :: terms, ?_, ?_, fun acc d hfold => ?_⟩
      · rw [List.mapM_cons, hterm, hterms]
        rfl
      · exact List.forall_mem_cons.mpr ⟨⟨value, hvalue⟩, hvalues⟩
      · obtain ⟨next, hnext, hfold⟩ := bind_eq_ok.mp
          ((List.foldlM_cons (m := Except RatioError)).symm.trans hfold)
        rw [hsum next d hfold, multiplyFactor_eq_ok hnext, add_assoc]
        congr 1
        change _ = ((identity, item.exponent).2 • exponentsOf (calls.dimensionIn visiting
          (identity, item.exponent).1 view site)) + termsSum calls visiting view site _
        rw [hvalue]
        rfl

theorem evaluateDimExpr_eq_ok {expr : DimExpr N}
    (h : E.evaluateDimExpr calls visiting owner expr noOverrides view site = .ok d) :
    ∃ terms, E.terms owner expr = some terms ∧
      (∀ term ∈ terms, ∃ v, calls.dimensionIn visiting term.1 view site = .ok v) ∧
      d.toFinsupp = termsSum calls visiting view site terms := by
  obtain ⟨factors, hfactors, h⟩ := bind_eq_ok.mp h
  rw [overflow_eq_ok] at h
  obtain ⟨terms, hterms, hvalues, hsum⟩ := evaluateTerms_eq_ok hfactors
  refine ⟨terms.filterMap id, ?_, hvalues, ?_⟩
  · rw [StaticDefinitionEvaluator.terms, hterms, Option.map_some]
  · rw [hsum .dimensionless d h, Dimension.toFinsupp_dimensionless, zero_add]

/-! ## Projections -/

/-- The value of the dimension that a binding names, if one does. -/
def BoundAs (calls : Evaluation N) (visiting : List (ResolvedDimName N)) (view : PortView N)
    (target : Option (ResolvedDimName N)) (value : Option (Dimension (BaseDimId N))) : Prop :=
  match target with
  | none => value = none
  | some target => ∃ v, calls.dimensionIn visiting target view none = .ok v ∧ value = some v

theorem BoundAs.of_some {target : Option (ResolvedDimName N)} {v : Dimension (BaseDimId N)}
    (h : BoundAs calls visiting view target (some v)) :
    ∃ identity, target = some identity ∧ calls.dimensionIn visiting identity view none = .ok v := by
  cases target with
  | none => cases h
  | some identity =>
    obtain ⟨v', hv, heq⟩ := h
    cases heq
    exact ⟨identity, rfl, hv⟩

theorem boundPorts_eq_ok {ports : List (DimensionPortBinding N)}
    (h : E.boundPorts calls visiting owner view ports = .ok bound) (port : N) :
    BoundAs calls visiting view (E.boundTarget owner ports port) (bound.get? port) := by
  unfold boundPorts at h
  unfold boundTarget
  have hstart : BoundAs calls visiting view none
      ((SortedMap.empty : SortedMap N (Dimension (BaseDimId N))).get? port) := rfl
  generalize (SortedMap.empty : SortedMap N (Dimension (BaseDimId N))) = start at h hstart
  generalize (none : Option (ResolvedDimName N)) = found at hstart
  induction ports generalizing start found with
  | nil =>
    cases h
    exact hstart
  | cons binding rest ih =>
    rw [List.foldlM_cons, bind_eq_ok] at h
    obtain ⟨next, hnext, h⟩ := h
    rw [List.foldl_cons]
    refine ih next h _ ?_
    cases htarget : E.resolveDimension owner binding.target with
    | none =>
      rw [htarget] at hnext
      cases hnext
      exact hstart
    | some target =>
      rw [htarget] at hnext
      obtain ⟨value, hvalue, rfl⟩ := bind_pure_eq_ok.mp hnext
      rw [SortedMap.get?_insert]
      split_ifs
      · exact ⟨value, hvalue, rfl⟩
      · exact hstart

theorem multiplyPowers_eq_ok (h : factors.foldlM multiplyPower acc = .ok d) :
    d.toFinsupp =
      acc.toFinsupp + (factors.map fun factor => factor.2.value • factor.1.toFinsupp).sum :=
  Dimension.toFinsupp_foldlM_mul_pow h

omit [LinearOrder N] in
theorem mem_entries_of_ne_zero {B : Type} [LinearOrder B] {d : Dimension B} {b : B}
    (h : d.toFinsupp b ≠ 0) : ∃ e, (b, e) ∈ d.exponents.factors.entries := by
  rw [Dimension.toFinsupp_apply, Dimension.getExponent, SparseMonomial.get] at h
  cases hget : d.exponents.factors.get? b with
  | none =>
    rw [hget, Option.getD_none, Ratio.value_zero] at h
    exact absurd rfl h
  | some e => exact ⟨e, SortedMap.get?_eq_some.mp hget⟩

/-- What stands for a base of a template's port-generic dimension. -/
inductive Replaced (E : StaticDefinitionEvaluator N) (calls : Evaluation N)
    (visiting : List (ResolvedDimName N)) (templateOwner : SourceDagId N)
    (bound : SortedMap N (Dimension (BaseDimId N))) : BaseDimId N → Dimension (BaseDimId N) → Prop
  | bound {port : ResolvedDimName N} {value : Dimension (BaseDimId N)}
      (howner : port.owner = templateOwner) (hbound : bound.get? port.leaf = some value) :
      Replaced E calls visiting templateOwner bound (.userDefined port) value
  | default {port : ResolvedDimName N} {value : Dimension (BaseDimId N)}
      (howner : port.owner = templateOwner) (hbound : bound.get? port.leaf = none)
      (hport : E.isDefaultedDimensionPort port = true)
      (h : calls.dimensionFrom visiting port none = .ok value) :
      Replaced E calls visiting templateOwner bound (.userDefined port) value
  | kept {base : BaseDimId N} (h : ∀ port, base = .userDefined port → port.owner = templateOwner →
      bound.get? port.leaf = none ∧ E.isDefaultedDimensionPort port = false) :
      Replaced E calls visiting templateOwner bound base (.base base)

theorem replacement_eq_ok {templateOwner : SourceDagId N} {base : BaseDimId N}
    (h : E.replacement calls visiting templateOwner bound base = .ok d) :
    Replaced E calls visiting templateOwner bound base d := by
  unfold replacement at h
  cases base with
  | prelude dimension =>
    cases h
    exact .kept nofun
  | userDefined port =>
    dsimp only at h
    by_cases howner : port.owner = templateOwner
    · rw [if_pos howner] at h
      cases hbound : bound.get? port.leaf with
      | some value =>
        rw [hbound] at h
        cases h
        exact .bound howner hbound
      | none =>
        rw [hbound] at h
        split_ifs at h with hport
        · exact .default howner hbound hport h
        · cases h
          refine .kept fun port' heq _ => ?_
          cases heq
          exact ⟨hbound, Bool.eq_false_iff.mpr hport⟩
    · rw [if_neg howner] at h
      cases h
      refine .kept fun port' heq howner' => ?_
      cases heq
      exact absurd howner' howner

/-- What a projection computes from the port-generic dimension of its template. -/
structure Projected (E : StaticDefinitionEvaluator N) (calls : Evaluation N)
    (visiting : List (ResolvedDimName N)) (owner : SourceDagId N)
    (projection : DimensionProjection N) (view : PortView N)
    (d template : Dimension (BaseDimId N)) (bound : SortedMap N (Dimension (BaseDimId N))) :
    Prop where
  generic : calls.dimensionIn visiting projection.projection.template
    (.generic projection.projection.template.owner) none = .ok template
  ports : ∀ port, BoundAs calls visiting view (E.boundTarget owner projection.ports port)
    (bound.get? port)
  replaced : ∀ b, template.toFinsupp b ≠ 0 →
    ∃ r, E.replacement calls visiting projection.projection.template.owner bound b = .ok r
  value : d.toFinsupp = Finsupp.linearCombination ℚ (fun b =>
    exponentsOf (E.replacement calls visiting projection.projection.template.owner bound b))
    template.toFinsupp

theorem replacedFactors_eq_ok
    {f : BaseDimId N → Except (DimensionError N) (Dimension (BaseDimId N))}
    {entries : List (BaseDimId N × Rational)}
    (h : entries.mapM (fun factor => do return (← f factor.1, factor.2)) = .ok factors) :
    (∀ factor ∈ entries, ∃ r, f factor.1 = .ok r) ∧
      (factors.map fun factor => factor.2.value • factor.1.toFinsupp) =
        entries.map fun factor => factor.2.value • exponentsOf (f factor.1) := by
  induction entries generalizing factors with
  | nil =>
    cases h
    exact ⟨nofun, rfl⟩
  | cons factor rest ih =>
    rw [List.mapM_cons, bind_eq_ok] at h
    obtain ⟨replaced, hreplaced, h⟩ := h
    obtain ⟨others, hothers, rfl⟩ := bind_pure_eq_ok.mp h
    obtain ⟨r, hr, rfl⟩ := bind_pure_eq_ok.mp hreplaced
    obtain ⟨hall, hmap⟩ := ih hothers
    refine ⟨List.forall_mem_cons.mpr ⟨⟨r, hr⟩, hall⟩, ?_⟩
    rw [List.map_cons, List.map_cons, hmap, hr]
    rfl

theorem projectedDimension_eq_ok {projection : DimensionProjection N}
    (h : E.projectedDimension calls visiting owner projection view = .ok d) :
    ∃ template bound, Projected E calls visiting owner projection view d template bound := by
  obtain ⟨template, htemplate, h⟩ := bind_eq_ok.mp h
  obtain ⟨bound, hbound, h⟩ := bind_eq_ok.mp h
  obtain ⟨factors, hfactors, h⟩ := bind_eq_ok.mp h
  rw [overflow_eq_ok] at h
  obtain ⟨hreplaced, hmap⟩ := replacedFactors_eq_ok hfactors
  refine ⟨template, bound, htemplate, boundPorts_eq_ok hbound, fun b hb => ?_, ?_⟩
  · obtain ⟨e, he⟩ := mem_entries_of_ne_zero hb
    exact hreplaced (b, e) he
  · rw [multiplyPowers_eq_ok h, hmap, Dimension.toFinsupp_dimensionless, zero_add,
      Dimension.toFinsupp_eq_sum, map_list_sum, List.map_map]
    congr 1
    refine List.map_congr_left fun factor _ => ?_
    rw [Function.comp_apply, Finsupp.linearCombination_single]

/-- How a run takes a dimension in its default view. -/
inductive TakenFrom (E : StaticDefinitionEvaluator N) (calls : Evaluation N)
    (visiting : List (ResolvedDimName N)) (identity : ResolvedDimName N)
    (d : Dimension (BaseDimId N)) : Prop
  | prelude (h : E.prelude.dimension identity = some d)
  | projected {projection : DimensionProjection N} (hforeign : E.prelude.dimension identity = none)
      (hprojection : E.projection identity = some projection)
      (h : E.projectedDimension calls (identity :: visiting) identity.owner projection .default =
        .ok d)
  | opaqueBase (hforeign : E.prelude.dimension identity = none)
      (hprojection : E.projection identity = none)
      (hsource : E.source identity = some .base ∨ E.source identity = some .required)
      (h : d = .base (.userDefined identity))
  | derived {visibility : BindableVisibility} {definition : DimExpr N}
      (hforeign : E.prelude.dimension identity = none) (hprojection : E.projection identity = none)
      (hsource : E.source identity = some (.derived visibility definition))
      (h : E.evaluateDimExpr calls (identity :: visiting) identity.owner definition noOverrides
        .default (some identity.leaf) = .ok d)

theorem step_dimensionFrom_eq_ok (h : (E.step calls).dimensionFrom visiting identity site = .ok d) :
    TakenFrom E calls visiting identity d := by
  unfold step at h
  dsimp only at h
  cases hprelude : E.prelude.dimension identity with
  | some d' =>
    rw [hprelude] at h
    exact .prelude (hprelude.trans (congrArg some (Except.ok.inj h)))
  | none =>
    rw [hprelude] at h
    split_ifs at h with hvisiting
    cases hprojection : E.projection identity with
    | some projection =>
      rw [hprojection] at h
      exact .projected hprelude hprojection h
    | none =>
      rw [hprojection] at h
      unfold declaredDimension at h
      cases hsource : E.source identity with
      | none =>
        rw [hsource] at h
        cases h
      | some source =>
        rw [hsource] at h
        cases source with
        | base => exact .opaqueBase hprelude hprojection (.inl hsource) (Except.ok.inj h).symm
        | required => exact .opaqueBase hprelude hprojection (.inr hsource) (Except.ok.inj h).symm
        | derived visibility definition => exact .derived hprelude hprojection hsource h

/-- How a view changes the default value of a dimension. -/
inductive SeenIn (E : StaticDefinitionEvaluator N) (calls : Evaluation N)
    (visiting : List (ResolvedDimName N)) (identity : ResolvedDimName N) (site : Option N)
    (default : Dimension (BaseDimId N)) : PortView N → Dimension (BaseDimId N) → Prop
  | default : SeenIn E calls visiting identity site default .default default
  | other {module : SourceDagId N}
      (h : identity.owner = module → E.definition identity = .plain) :
      SeenIn E calls visiting identity site default (.generic module) default
  | port {expr : DimExpr N} (h : E.definition identity = .port expr) :
      SeenIn E calls visiting identity site default (.generic identity.owner)
        (.base (.userDefined identity))
  | projected {projection : DimensionProjection N} {d : Dimension (BaseDimId N)}
      (hdefinition : E.definition identity = .projected projection)
      (h : E.projectedDimension calls visiting identity.owner projection
        (.generic identity.owner) = .ok d) :
      SeenIn E calls visiting identity site default (.generic identity.owner) d
  | derived {expr : DimExpr N} {d : Dimension (BaseDimId N)}
      (hdefinition : E.definition identity = .derived expr)
      (h : E.evaluateDimExpr calls visiting identity.owner expr noOverrides
        (.generic identity.owner) site = .ok d) :
      SeenIn E calls visiting identity site default (.generic identity.owner) d

theorem step_dimensionIn_eq_ok
    (h : (E.step calls).dimensionIn visiting identity view site = .ok d) :
    ∃ default, calls.dimensionFrom visiting identity site = .ok default ∧
      SeenIn E calls visiting identity site default view d := by
  obtain ⟨default, hdefault, h⟩ := bind_eq_ok.mp h
  refine ⟨default, hdefault, ?_⟩
  cases view with
  | default =>
    cases h
    exact .default
  | generic module =>
    dsimp only at h
    by_cases howner : identity.owner = module
    · subst howner
      rw [if_neg (not_not.mpr rfl)] at h
      cases hprojection : E.projection identity with
      | some projection =>
        rw [hprojection] at h
        refine .projected ?_ h
        rw [definition, hprojection]
      | none =>
        rw [hprojection] at h
        cases hsource : E.source identity with
        | none =>
          rw [hsource] at h
          cases h
          exact .other fun _ => by rw [definition, hprojection, hsource]
        | some source =>
          rw [hsource] at h
          cases source with
          | base =>
            cases h
            exact .other fun _ => by rw [definition, hprojection, hsource]
          | required =>
            cases h
            exact .other fun _ => by rw [definition, hprojection, hsource]
          | derived visibility expr =>
            dsimp only at h
            split_ifs at h with hbind
            · cases h
              have hport : E.definition identity = .port expr := by
                rw [definition, hprojection, hsource]
                exact if_pos hbind
              exact .port hport
            · refine .derived ?_ h
              rw [definition, hprojection, hsource]
              exact if_neg hbind
    · rw [if_pos howner] at h
      cases h
      exact .other fun heq => absurd heq howner

end StaticDefinitionEvaluator

/-!
# The values that runs give

All runs that give a dimension give the same one, and only the view of a module leaves its
defaulted ports in a dimension.
-/

open Resolve

variable {N : Type} [LinearOrder N] [LinearOrder (BaseDimId N)]

namespace StaticDefinitionEvaluator

variable {E : StaticDefinitionEvaluator N} {calls calls' : Evaluation N}
  {visiting visiting' : List (ResolvedDimName N)} {owner : SourceDagId N} {view : PortView N}
  {site site' : Option N} {d d' : Dimension (BaseDimId N)}

/-! ## Runs agree -/

/-- Whatever two evaluations both give is the same. -/
structure Agree (calls calls' : Evaluation N) : Prop where
  default : ∀ {visiting visiting' identity site site' d d'},
    calls.dimensionFrom visiting identity site = .ok d →
    calls'.dimensionFrom visiting' identity site' = .ok d' → d' = d
  view : ∀ {visiting visiting' identity view site site' d d'},
    calls.dimensionIn visiting identity view site = .ok d →
    calls'.dimensionIn visiting' identity view site' = .ok d' → d' = d

section

variable (h : Agree calls calls')

include h

theorem Agree.termsSum {terms : List (ResolvedDimName N × ℚ)}
    (hterms : ∀ term ∈ terms, ∃ v, calls.dimensionIn visiting term.1 view site = .ok v)
    (hterms' : ∀ term ∈ terms, ∃ v, calls'.dimensionIn visiting' term.1 view site' = .ok v) :
    termsSum calls' visiting' view site' terms = termsSum calls visiting view site terms := by
  unfold StaticDefinitionEvaluator.termsSum
  congr 1
  refine List.map_congr_left fun term hterm => ?_
  obtain ⟨v, hv⟩ := hterms term hterm
  obtain ⟨v', hv'⟩ := hterms' term hterm
  rw [hv, hv', h.view hv hv']

theorem Agree.evaluateDimExpr {expr : DimExpr N}
    (hd : E.evaluateDimExpr calls visiting owner expr noOverrides view site = .ok d)
    (hd' : E.evaluateDimExpr calls' visiting' owner expr noOverrides view site' = .ok d') :
    d' = d := by
  obtain ⟨terms, hterms, hvalues, hsum⟩ := evaluateDimExpr_eq_ok hd
  obtain ⟨terms', hterms', hvalues', hsum'⟩ := evaluateDimExpr_eq_ok hd'
  cases hterms.symm.trans hterms'
  refine Dimension.eq_of_toFinsupp ?_
  rw [hsum, hsum', h.termsSum hvalues hvalues']

theorem Agree.boundAs {target : Option (ResolvedDimName N)}
    {value value' : Option (Dimension (BaseDimId N))}
    (hvalue : BoundAs calls visiting view target value)
    (hvalue' : BoundAs calls' visiting' view target value') : value' = value := by
  cases target with
  | none => exact Eq.trans hvalue' (Eq.symm hvalue)
  | some target =>
    obtain ⟨v, hv, rfl⟩ := hvalue
    obtain ⟨v', hv', rfl⟩ := hvalue'
    rw [h.view hv hv']

theorem Agree.replacement {bound : SortedMap N (Dimension (BaseDimId N))} {base : BaseDimId N}
    (hd : E.replacement calls visiting owner bound base = .ok d)
    (hd' : E.replacement calls' visiting' owner bound base = .ok d') : d' = d := by
  cases replacement_eq_ok hd with
  | bound howner hbound =>
    cases replacement_eq_ok hd' with
    | bound _ hbound' => exact Option.some.inj (hbound'.symm.trans hbound)
    | default _ hbound' => cases hbound.symm.trans hbound'
    | kept hkept => cases hbound.symm.trans (hkept _ rfl howner).1
  | default howner hbound hport hvalue =>
    cases replacement_eq_ok hd' with
    | bound _ hbound' => cases hbound.symm.trans hbound'
    | default _ _ _ hvalue' => exact h.default hvalue hvalue'
    | kept hkept => cases hport.symm.trans (hkept _ rfl howner).2
  | kept hkept =>
    cases replacement_eq_ok hd' with
    | bound howner hbound' => cases hbound'.symm.trans (hkept _ rfl howner).1
    | default howner _ hport => cases hport.symm.trans (hkept _ rfl howner).2
    | kept => rfl

end

omit [LinearOrder (BaseDimId N)] in
theorem linearCombination_congr {f g : BaseDimId N → BaseDimId N →₀ ℚ} {v : BaseDimId N →₀ ℚ}
    (h : ∀ b, v b ≠ 0 → f b = g b) :
    Finsupp.linearCombination ℚ f v = Finsupp.linearCombination ℚ g v := by
  rw [Finsupp.linearCombination_apply, Finsupp.linearCombination_apply]
  exact Finsupp.sum_congr fun b hb => by rw [h b (Finsupp.mem_support_iff.mp hb)]

theorem Agree.projectedDimension (h : Agree calls calls') {projection : DimensionProjection N}
    (hd : E.projectedDimension calls visiting owner projection view = .ok d)
    (hd' : E.projectedDimension calls' visiting' owner projection view = .ok d') : d' = d := by
  obtain ⟨template, bound, hprojected⟩ := projectedDimension_eq_ok hd
  obtain ⟨template', bound', hprojected'⟩ := projectedDimension_eq_ok hd'
  obtain rfl := h.view hprojected.generic hprojected'.generic
  obtain rfl : bound' = bound :=
    SortedMap.ext_get? fun port => h.boundAs (hprojected.ports port) (hprojected'.ports port)
  refine Dimension.eq_of_toFinsupp ?_
  rw [hprojected.value, hprojected'.value]
  refine linearCombination_congr fun b hb => ?_
  obtain ⟨r, hr⟩ := hprojected.replaced b hb
  obtain ⟨r', hr'⟩ := hprojected'.replaced b hb
  rw [hr, hr', h.replacement hr hr']

theorem agree_step (h : Agree calls calls') : Agree (E.step calls) (E.step calls') := by
  constructor
  · intro visiting visiting' identity site site' d d' hd hd'
    cases step_dimensionFrom_eq_ok hd with
    | prelude hprelude =>
      cases step_dimensionFrom_eq_ok hd' with
      | prelude hprelude' => exact Option.some.inj (hprelude'.symm.trans hprelude)
      | projected hforeign => cases hprelude.symm.trans hforeign
      | opaqueBase hforeign => cases hprelude.symm.trans hforeign
      | derived hforeign => cases hprelude.symm.trans hforeign
    | projected hforeign hprojection hvalue =>
      cases step_dimensionFrom_eq_ok hd' with
      | prelude hprelude => cases hprelude.symm.trans hforeign
      | projected _ hprojection' hvalue' =>
        cases hprojection.symm.trans hprojection'
        exact h.projectedDimension hvalue hvalue'
      | opaqueBase _ hprojection' => cases hprojection.symm.trans hprojection'
      | derived _ hprojection' => cases hprojection.symm.trans hprojection'
    | opaqueBase hforeign hprojection hsource hvalue =>
      cases step_dimensionFrom_eq_ok hd' with
      | prelude hprelude => cases hprelude.symm.trans hforeign
      | projected _ hprojection' => cases hprojection.symm.trans hprojection'
      | opaqueBase _ _ _ hvalue' => exact hvalue'.trans hvalue.symm
      | derived _ _ hsource' =>
        rcases hsource with hsource | hsource <;> cases hsource.symm.trans hsource'
    | derived hforeign hprojection hsource hvalue =>
      cases step_dimensionFrom_eq_ok hd' with
      | prelude hprelude => cases hprelude.symm.trans hforeign
      | projected _ hprojection' => cases hprojection.symm.trans hprojection'
      | opaqueBase _ _ hsource' =>
        rcases hsource' with hsource' | hsource' <;> cases hsource.symm.trans hsource'
      | derived _ _ hsource' hvalue' =>
        cases hsource.symm.trans hsource'
        exact h.evaluateDimExpr hvalue hvalue'
  · intro visiting visiting' identity view site site' d d' hd hd'
    obtain ⟨default, hdefault, hseen⟩ := step_dimensionIn_eq_ok hd
    obtain ⟨default', hdefault', hseen'⟩ := step_dimensionIn_eq_ok hd'
    obtain rfl := h.default hdefault hdefault'
    cases hseen with
    | default =>
      cases hseen'
      rfl
    | other hother =>
      cases hseen' with
      | other => rfl
      | port hport => cases (hother rfl).symm.trans hport
      | projected hprojected => cases (hother rfl).symm.trans hprojected
      | derived hderived => cases (hother rfl).symm.trans hderived
    | port hport =>
      cases hseen' with
      | other hother => cases (hother rfl).symm.trans hport
      | port => rfl
      | projected hprojected => cases hport.symm.trans hprojected
      | derived hderived => cases hport.symm.trans hderived
    | projected hprojected hvalue =>
      cases hseen' with
      | other hother => cases (hother rfl).symm.trans hprojected
      | port hport => cases hport.symm.trans hprojected
      | projected hprojected' hvalue' =>
        cases hprojected.symm.trans hprojected'
        exact h.projectedDimension hvalue hvalue'
      | derived hderived => cases hprojected.symm.trans hderived
    | derived hderived hvalue =>
      cases hseen' with
      | other hother => cases (hother rfl).symm.trans hderived
      | port hport => cases hport.symm.trans hderived
      | projected hprojected => cases hprojected.symm.trans hderived
      | derived hderived' hvalue' =>
        cases hderived.symm.trans hderived'
        exact h.evaluateDimExpr hvalue hvalue'

theorem agree_run (fuel fuel' : ℕ) : Agree (E.run fuel) (E.run fuel') := by
  induction fuel generalizing fuel' with
  | zero => exact ⟨nofun, nofun⟩
  | succ fuel ih =>
    cases fuel' with
    | zero => exact ⟨nofun, nofun⟩
    | succ fuel' => exact agree_step (ih fuel')

theorem Yields.unique {identity : ResolvedDimName N} (h : E.Yields identity d)
    (h' : E.Yields identity d') : d' = d := by
  obtain ⟨fuel, visiting, site, hd⟩ := h
  obtain ⟨fuel', visiting', site', hd'⟩ := h'
  exact (agree_run fuel fuel').default hd hd'

/-- The bases that a view leaves: a defaulted port stays only in the view of its module. -/
def viewBases (E : StaticDefinitionEvaluator N) : PortView N → Set (BaseDimId N)
  | .default => {b | ∀ port, b = .userDefined port → E.isDefaultedDimensionPort port = false}
  | .generic module => {b | ∀ port, b = .userDefined port →
      E.isDefaultedDimensionPort port = true → port.owner = module}

theorem viewBases_default_subset (view : PortView N) : E.viewBases .default ⊆ E.viewBases view := by
  cases view with
  | default => exact subset_rfl
  | generic module =>
    intro b hb port heq hport
    cases hport.symm.trans (hb port heq)

/-- The dimensions over the bases that a view leaves. -/
def within (E : StaticDefinitionEvaluator N) (view : PortView N) : Submodule ℚ (BaseDimId N →₀ ℚ) :=
  Finsupp.supported ℚ ℚ (E.viewBases view)

structure Confined (E : StaticDefinitionEvaluator N) (calls : Evaluation N) : Prop where
  default : ∀ {visiting identity site d}, calls.dimensionFrom visiting identity site = .ok d →
    d.toFinsupp ∈ E.within .default
  view : ∀ {visiting identity view site d}, calls.dimensionIn visiting identity view site = .ok d →
    d.toFinsupp ∈ E.within view

theorem base_mem_within {b : BaseDimId N} (h : b ∈ E.viewBases view) :
    (Dimension.base b).toFinsupp ∈ E.within view := by
  rw [Dimension.toFinsupp_base]
  exact Finsupp.single_mem_supported ℚ 1 h

theorem Confined.evaluateDimExpr (h : Confined E calls) {expr : DimExpr N}
    (hd : E.evaluateDimExpr calls visiting owner expr noOverrides view site = .ok d) :
    d.toFinsupp ∈ E.within view := by
  obtain ⟨terms, -, hvalues, hsum⟩ := evaluateDimExpr_eq_ok hd
  rw [hsum]
  refine list_sum_mem fun w hw => ?_
  obtain ⟨term, hterm, rfl⟩ := List.mem_map.mp hw
  obtain ⟨v, hv⟩ := hvalues term hterm
  rw [hv]
  exact Submodule.smul_mem _ _ (h.view hv)

theorem Confined.projectedDimension (h : Confined E calls) {projection : DimensionProjection N}
    (hd : E.projectedDimension calls visiting owner projection view = .ok d) :
    d.toFinsupp ∈ E.within view := by
  obtain ⟨template, bound, hprojected⟩ := projectedDimension_eq_ok hd
  rw [hprojected.value, Finsupp.linearCombination_apply]
  refine AddSubmonoidClass.finsuppSum_mem (E.within view) _ _ fun b hb =>
    Submodule.smul_mem _ _ ?_
  obtain ⟨r, hr⟩ := hprojected.replaced b hb
  rw [hr]
  cases replacement_eq_ok hr with
  | @bound port _ howner hbound =>
    have hvalue := hprojected.ports port.leaf
    rw [hbound] at hvalue
    obtain ⟨target, -, htarget⟩ := hvalue.of_some
    exact h.view htarget
  | default howner _ _ hvalue =>
    exact Finsupp.supported_mono (viewBases_default_subset view) (h.default hvalue)
  | kept hkept =>
    refine base_mem_within (viewBases_default_subset view fun port heq => ?_)
    by_contra hport
    have howner : port.owner = projection.projection.template.owner := by
      have hmem := h.view hprojected.generic
      exact (Finsupp.mem_supported ℚ _).mp hmem (Finsupp.mem_support_iff.mpr hb) port heq
        (Bool.not_eq_false _ ▸ hport)
    exact hport (hkept port heq howner).2

theorem confined_step (h : Confined E calls) : Confined E (E.step calls) := by
  have hdefault : ∀ {visiting identity site d},
      (E.step calls).dimensionFrom visiting identity site = .ok d →
      d.toFinsupp ∈ E.within .default := by
    intro visiting identity site d hd
    cases step_dimensionFrom_eq_ok hd with
    | prelude hprelude =>
      refine (Finsupp.mem_supported ℚ _).mpr fun b hb port heq => ?_
      rw [Finset.mem_coe, Finsupp.mem_support_iff, Dimension.toFinsupp_apply, heq,
        Dimension.getExponent, E.prelude.overPrelude identity d hprelude port, Option.getD_none,
        Ratio.value_zero] at hb
      exact absurd rfl hb
    | projected _ _ hvalue => exact h.projectedDimension hvalue
    | opaqueBase _ _ hsource heq =>
      rw [heq]
      refine base_mem_within fun port hport => ?_
      cases hport
      rcases hsource with hsource | hsource <;> rw [isDefaultedDimensionPort, hsource]
    | derived _ _ _ hvalue => exact h.evaluateDimExpr hvalue
  refine ⟨hdefault, ?_⟩
  intro visiting identity view site d hd
  obtain ⟨default, hdefault, hseen⟩ := step_dimensionIn_eq_ok hd
  have hwithin := h.default hdefault
  cases hseen with
  | default => exact hwithin
  | other => exact Finsupp.supported_mono (viewBases_default_subset _) hwithin
  | port =>
    refine base_mem_within fun port heq _ => ?_
    cases heq
    rfl
  | projected _ hvalue => exact h.projectedDimension hvalue
  | derived _ hvalue => exact h.evaluateDimExpr hvalue

theorem confined_run (fuel : ℕ) : Confined E (E.run fuel) := by
  induction fuel with
  | zero => exact ⟨nofun, nofun⟩
  | succ fuel ih => exact confined_step ih

end StaticDefinitionEvaluator

end ProvenGraphcal.Static
