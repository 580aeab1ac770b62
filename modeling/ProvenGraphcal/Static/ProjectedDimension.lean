import Mathlib.LinearAlgebra.Prod
import ProvenGraphcal.Resolve.OneBinding
import ProvenGraphcal.Static.DimensionValues

/-!
# Projected dimensions and substitution

A projection replaces the ports of its template's port-generic dimension. A port that the include
leaves unbound contributes its default as the template evaluates it, so the result is the
substitution of the bindings if and only if those contributions are not moved by them.
-/

namespace ProvenGraphcal.Static

open Resolve StaticDefinitionEvaluator
open Option (getD_some map_none map_some)

variable {N : Type} [LinearOrder N] [LinearOrder (BaseDimId N)]
variable {site : Option N} {view : PortView N} {identity : ResolvedDimName N}

namespace StaticDefinitionEvaluator

variable {E : StaticDefinitionEvaluator N}

/-- A dimension's exponents in its default view. -/
noncomputable def own (E : StaticDefinitionEvaluator N) (identity : ResolvedDimName N) :
    BaseDimId N →₀ ℚ := by
  classical exact if h : ∃ d, E.Yields identity d then h.choose.toFinsupp else 0

variable {d : Dimension (BaseDimId N)}

theorem Yields.own_eq (h : E.Yields identity d) : E.own identity = d.toFinsupp := by
  have hex : ∃ d, E.Yields identity d := ⟨d, h⟩
  rw [own, dif_pos hex, hex.choose_spec.unique h]

variable {visiting : List (ResolvedDimName N)} {fuel : ℕ}

theorem yields_of_view (h : (E.run fuel).dimensionIn visiting identity view site = .ok d) :
    ∃ below, fuel = below + 1 ∧ ∃ default,
      (E.run below).dimensionFrom visiting identity site = .ok default ∧
        SeenIn E (E.run below) visiting identity site default view d := by
  cases fuel with
  | zero => cases h
  | succ below => exact ⟨below, rfl, step_dimensionIn_eq_ok h⟩

theorem yields_of_default (h : (E.run fuel).dimensionIn visiting identity .default site = .ok d) :
    E.Yields identity d := by
  obtain ⟨below, -, default, hdefault, hseen⟩ := yields_of_view h
  cases hseen
  exact ⟨below, visiting, site, hdefault⟩

end StaticDefinitionEvaluator

variable {expr : DimExpr N}

section Meaning

variable {W : Type} [AddCommGroup W] [Module ℚ W] {E : StaticDefinitionEvaluator N}
  {onDefault : Replacement N W → ResolvedDimName N → W → W}

theorem defaulted_of_port (h : E.definition identity = .port expr) :
    E.isDefaultedDimensionPort identity = true := by
  unfold StaticDefinitionEvaluator.definition at h
  unfold isDefaultedDimensionPort
  split at h <;> try cases h
  case h_2 visibility definition hprojection hsource =>
    split_ifs at h with hbind
    rw [hsource, hbind]
    rfl

/-- Values for all dimensions, right where there is one. -/
theorem exists_values (R : Replacement N W) : ∃ values : ResolvedDimName N → W,
    ∀ identity, (∃ w, Evaluates E onDefault R identity w) →
      Evaluates E onDefault R identity (values identity) := by
  classical
  refine ⟨fun identity => if h : ∃ w, Evaluates E onDefault R identity w then h.choose else 0,
    fun identity h => ?_⟩
  dsimp only
  rw [dif_pos h]
  exact h.choose_spec

variable {d : Dimension (BaseDimId N)}

theorem definition_of_prelude (h : E.prelude.dimension identity = some d) :
    E.definition identity = .plain := by
  obtain ⟨hmodules, hresolver⟩ := E.preludeApart identity d h
  rw [StaticDefinitionEvaluator.definition, projection, source, hmodules, hresolver]
  rfl

theorem definition_of_projection {projection : DimensionProjection N}
    (h : E.projection identity = some projection) :
    E.definition identity = .projected projection := by
  rw [StaticDefinitionEvaluator.definition, h]

theorem definition_of_base (h : E.projection identity = none)
    (hsource : E.source identity = some .base ∨ E.source identity = some .required) :
    E.definition identity = .plain := by
  rcases hsource with hsource | hsource <;>
    rw [StaticDefinitionEvaluator.definition, h, hsource]

theorem definition_of_derived (visibility : BindableVisibility) (h : E.projection identity = none)
    (hsource : E.source identity = some (.derived visibility expr)) :
    E.definition identity =
      if visibility = .publicBind then .port expr else .derived expr := by
  rw [StaticDefinitionEvaluator.definition, h, hsource]

/-- A dimension that a run gives can be evaluated under every replacement. -/
theorem exists_evaluates {fuel : ℕ} {visiting : List (ResolvedDimName N)}
    (h : (E.run fuel).dimensionFrom visiting identity site = .ok d) (R : Replacement N W) :
    ∃ w, Evaluates E onDefault R identity w := by
  induction fuel using Nat.strong_induction_on generalizing visiting identity site d R with
  | _ fuel ih =>
    have hyields : E.Yields identity d := ⟨fuel, visiting, site, h⟩
    by_cases hother : identity.owner = R.module → E.definition identity = .plain
    · exact ⟨_, .other hother hyields⟩
    obtain ⟨howner, hnotplain⟩ := Classical.not_imp.mp hother
    cases fuel with
    | zero => cases h
    | succ fuel =>
    -- what the call one level below views is taken from two levels below
    have hbelow : ∀ {visiting identity view site d} (R : Replacement N W),
        (E.run fuel).dimensionIn visiting identity view site = .ok d →
        ∃ w, Evaluates E onDefault R identity w := by
      intro visiting identity view site d R hview
      obtain ⟨below, rfl, default, hdefault, -⟩ := yields_of_view hview
      exact ih below (by omega) hdefault R
    cases step_dimensionFrom_eq_ok h with
    | prelude hprelude => exact absurd (definition_of_prelude hprelude) hnotplain
    | opaqueBase _ hprojection hsource =>
      exact absurd (definition_of_base hprojection hsource) hnotplain
    | @projected projection _ hprojection hvalue =>
      obtain ⟨template, bound, hprojected⟩ := projectedDimension_eq_ok hvalue
      obtain ⟨values, hvalues⟩ := exists_values R
      obtain ⟨w, hw⟩ := hbelow (R.inner projection.projection.template.owner fun port =>
        (E.boundTarget identity.owner projection.ports port).map values) hprojected.generic
      refine ⟨w, .projected values howner (definition_of_projection hprojection)
        (fun port target htarget => hvalues target ?_) hw⟩
      have hport := hprojected.ports port
      rw [htarget] at hport
      obtain ⟨v, hv, -⟩ := hport
      exact hbelow R hv
    | @derived visibility expr _ hprojection hsource hvalue =>
      obtain ⟨terms, hterms, hviewed, -⟩ := evaluateDimExpr_eq_ok hvalue
      obtain ⟨values, hvalues⟩ := exists_values R
      have hvalues : ∀ term ∈ terms, Evaluates E onDefault R term.1 (values term.1) := by
        intro term hterm
        obtain ⟨v, hv⟩ := hviewed term hterm
        exact hvalues term.1 (hbelow R hv)
      have hdefinition := definition_of_derived _ hprojection hsource
      by_cases hbind : visibility = .publicBind
      · rw [if_pos hbind] at hdefinition
        cases hbound : R.bound identity.leaf with
        | some w => exact ⟨w, .bound howner hdefinition hbound⟩
        | none => exact ⟨_, .default values howner hdefinition hbound hterms hvalues⟩
      · rw [if_neg hbind] at hdefinition
        exact ⟨_, .derived values howner hdefinition hterms hvalues⟩

/-- A replacement determines the value of a dimension. -/
theorem Evaluates.unique {R : Replacement N W} {identity : ResolvedDimName N} {w w' : W}
    (h : Evaluates E onDefault R identity w) (h' : Evaluates E onDefault R identity w') :
    w' = w := by
  have hsum : ∀ {terms : List (ResolvedDimName N × ℚ)} {values values' : ResolvedDimName N → W},
      (∀ term ∈ terms, values' term.1 = values term.1) →
      (terms.map fun term => term.2 • values' term.1).sum =
        (terms.map fun term => term.2 • values term.1).sum := by
    intro terms values values' hvalues
    rw [List.map_congr_left fun term hterm => by rw [hvalues term hterm]]
  induction h generalizing w' with
  | other howner hyields =>
    cases h' with
    | other _ hyields' => rw [hyields.unique hyields']
    | projected _ howner' hdefinition => cases (howner howner').symm.trans hdefinition
    | bound howner' hdefinition => cases (howner howner').symm.trans hdefinition
    | default _ howner' hdefinition => cases (howner howner').symm.trans hdefinition
    | derived _ howner' hdefinition => cases (howner howner').symm.trans hdefinition
  | @projected R identity w projection values howner hdefinition _ _ ihtargets ihtemplate =>
    cases h' with
    | other howner' => cases (howner' howner).symm.trans hdefinition
    | @projected _ _ _ _ values' _ hdefinition' htargets' htemplate' =>
      cases hdefinition.symm.trans hdefinition'
      refine ihtemplate ?_
      have hbound : ∀ port, (E.boundTarget identity.owner projection.ports port).map values' =
          (E.boundTarget identity.owner projection.ports port).map values := by
        intro port
        cases htarget : E.boundTarget identity.owner projection.ports port with
        | none => rfl
        | some target => exact congrArg some (ihtargets port target htarget (htargets' port target htarget))
      rwa [funext hbound] at htemplate'
    | bound _ hdefinition' => cases hdefinition.symm.trans hdefinition'
    | default _ _ hdefinition' => cases hdefinition.symm.trans hdefinition'
    | derived _ _ hdefinition' => cases hdefinition.symm.trans hdefinition'
  | bound howner hdefinition hbound =>
    cases h' with
    | other howner' => cases (howner' howner).symm.trans hdefinition
    | projected _ _ hdefinition' => cases hdefinition.symm.trans hdefinition'
    | bound _ _ hbound' => exact Option.some.inj (hbound'.symm.trans hbound)
    | default _ _ _ hunbound => cases hbound.symm.trans hunbound
    | derived _ _ hdefinition' => cases hdefinition.symm.trans hdefinition'
  | default values howner hdefinition hunbound hterms _ ih =>
    cases h' with
    | other howner' => cases (howner' howner).symm.trans hdefinition
    | projected _ _ hdefinition' => cases hdefinition.symm.trans hdefinition'
    | bound _ _ hbound => cases hbound.symm.trans hunbound
    | default values' _ hdefinition' _ hterms' hvalues' =>
      cases hdefinition.symm.trans hdefinition'
      cases hterms.symm.trans hterms'
      rw [hsum fun term hterm => ih term hterm (hvalues' term hterm)]
    | derived _ _ hdefinition' => cases hdefinition.symm.trans hdefinition'
  | derived values howner hdefinition hterms _ ih =>
    cases h' with
    | other howner' => cases (howner' howner).symm.trans hdefinition
    | projected _ _ hdefinition' => cases hdefinition.symm.trans hdefinition'
    | bound _ hdefinition' => cases hdefinition.symm.trans hdefinition'
    | default _ _ hdefinition' => cases hdefinition.symm.trans hdefinition'
    | derived values' _ hdefinition' hterms' hvalues' =>
      cases hdefinition.symm.trans hdefinition'
      cases hterms.symm.trans hterms'
      exact hsum fun term hterm => ih term hterm (hvalues' term hterm)

end Meaning

/-! ## What the evaluator computes -/

variable {b : BaseDimId N} {bound : SortedMap N (Dimension (BaseDimId N))}

section Computed

variable {E : StaticDefinitionEvaluator N} {R : Replacement N (BaseDimId N →₀ ℚ)}

omit [LinearOrder (BaseDimId N)] in
theorem map_eq_linearCombination (f : (BaseDimId N →₀ ℚ) →ₗ[ℚ] BaseDimId N →₀ ℚ)
    (v : BaseDimId N →₀ ℚ) :
    f v = Finsupp.linearCombination ℚ (fun b => f (Finsupp.single b 1)) v := by
  have h : f = Finsupp.linearCombination ℚ fun b => f (Finsupp.single b 1) := by
    refine Finsupp.lhom_ext fun b e => ?_
    rw [Finsupp.linearCombination_single, ← map_smul, Finsupp.smul_single, smul_eq_mul, mul_one]
  exact DFunLike.congr_fun h v

/-- An unbound port keeps its default as the template evaluates it. -/
noncomputable def keepDefault (E : StaticDefinitionEvaluator N)
    (R : Replacement N (BaseDimId N →₀ ℚ)) (port : ResolvedDimName N) (_ : BaseDimId N →₀ ℚ) :
    BaseDimId N →₀ ℚ :=
  R.applyOuter (E.own port)

/-- What stands for a base of a port-generic dimension. -/
noncomputable def Replacement.genericBase (E : StaticDefinitionEvaluator N)
    (R : Replacement N (BaseDimId N →₀ ℚ)) : BaseDimId N → BaseDimId N →₀ ℚ
  | .userDefined port =>
    if port.owner = R.module ∧ R.bound port.leaf = none ∧ E.isDefaultedDimensionPort port = true then
      R.applyOuter (E.own port)
    else R.base (.userDefined port)
  | .prelude dimension => R.base (.prelude dimension)

noncomputable def Replacement.generic (E : StaticDefinitionEvaluator N)
    (R : Replacement N (BaseDimId N →₀ ℚ)) : (BaseDimId N →₀ ℚ) →ₗ[ℚ] BaseDimId N →₀ ℚ :=
  Finsupp.linearCombination ℚ (R.genericBase E)

theorem Replacement.genericBase_of_not_port
    (h : ∀ port, b = .userDefined port → port.owner = R.module →
      E.isDefaultedDimensionPort port = false) : R.genericBase E b = R.base b := by
  cases b with
  | prelude dimension => rfl
  | userDefined port =>
    refine if_neg fun ⟨howner, _, hport⟩ => ?_
    cases hport.symm.trans (h port rfl howner)

/-- In a default value there are no ports to leave open. -/
theorem Replacement.generic_eq_apply {v : BaseDimId N →₀ ℚ} (h : v ∈ E.within .default) :
    R.generic E v = R.apply v := by
  refine linearCombination_congr fun b hb => R.genericBase_of_not_port fun port heq _ => ?_
  exact (Finsupp.mem_supported ℚ v).mp h (Finsupp.mem_support_iff.mpr hb) port heq

variable {projection : DimensionProjection N} {visiting : List (ResolvedDimName N)}
variable {owner : SourceDagId N} {fuel : ℕ}

/-- The bases of a template's generic dimension that are no bound or defaulted ports of it. -/
theorem StaticDefinitionEvaluator.Projected.not_port {d template : Dimension (BaseDimId N)}
    (h : Projected E (E.run fuel) visiting owner projection view d template bound)
    (hb : template.toFinsupp b ≠ 0)
    (hkept : ∀ port, b = .userDefined port → port.owner = projection.projection.template.owner →
      bound.get? port.leaf = none ∧ E.isDefaultedDimensionPort port = false) :
    b ∈ E.viewBases .default := by
  intro port heq
  by_contra hport
  have hmem := (confined_run fuel).view h.generic
  have howner := (Finsupp.mem_supported ℚ _).mp hmem (Finsupp.mem_support_iff.mpr hb) port heq
    (Bool.not_eq_false _ ▸ hport)
  exact hport (hkept port heq howner).2

/-- A projection gives what the inner replacement makes of the template's generic dimension. -/
theorem StaticDefinitionEvaluator.Projected.value_eq {d template : Dimension (BaseDimId N)}
    (h : Projected E (E.run fuel) visiting owner projection view d template bound)
    (f : (BaseDimId N →₀ ℚ) →ₗ[ℚ] BaseDimId N →₀ ℚ)
    (hmodule : R.module = projection.projection.template.owner)
    (houter : ∀ b ∈ E.viewBases .default, f (Finsupp.single b 1) = R.outer b)
    (hbound : ∀ port, R.bound port = (bound.get? port).map fun v => f v.toFinsupp) :
    f d.toFinsupp = R.generic E template.toFinsupp := by
  rw [h.value, Finsupp.apply_linearCombination]
  refine linearCombination_congr fun b hb => ?_
  obtain ⟨r, hr⟩ := h.replaced b hb
  rw [Function.comp_apply, hr, exponentsOf]
  cases replacement_eq_ok hr with
  | @bound port _ howner hvalue =>
    have hport : R.bound port.leaf = some (f r.toFinsupp) := by
      rw [hbound, hvalue, map_some]
    rw [Replacement.genericBase, if_neg fun hnot => by simp [hport] at hnot, Replacement.base,
      if_pos (howner.trans hmodule.symm), hport, getD_some]
  | @default port _ howner hvalue hport hdefault =>
    have hnone : R.bound port.leaf = none := by rw [hbound, hvalue, map_none]
    have hyields : E.Yields port r := ⟨fuel, visiting, none, hdefault⟩
    rw [Replacement.genericBase, if_pos ⟨howner.trans hmodule.symm, hnone, hport⟩, hyields.own_eq,
      Replacement.applyOuter]
    have hwithin := (confined_run fuel).default hdefault
    rw [map_eq_linearCombination]
    refine linearCombination_congr fun b hb => houter b ?_
    exact (Finsupp.mem_supported ℚ _).mp hwithin (Finsupp.mem_support_iff.mpr hb)
  | kept hkept =>
    have hdefault := h.not_port hb hkept
    rw [Dimension.toFinsupp_base, houter b hdefault,
      R.genericBase_of_not_port fun port heq _ => hdefault port heq]
    cases b with
    | prelude dimension => rfl
    | userDefined port =>
      unfold Replacement.base
      dsimp only
      split_ifs with howner
      · have hnone := (hkept port rfl (howner.trans hmodule)).1
        rw [hbound, hnone, map_none, Option.getD_none]
      · rfl

/-- The port-generic value of a dimension holds what its definitions mean. -/
theorem evaluates_generic {d : Dimension (BaseDimId N)}
    (h : (E.run fuel).dimensionIn visiting identity (.generic R.module) site = .ok d) :
    Evaluates E (keepDefault E) R identity (R.generic E d.toFinsupp) := by
  induction fuel using Nat.strong_induction_on generalizing visiting identity site d R with
  | _ fuel ih =>
    obtain ⟨below, rfl, default, hdefault, hseen⟩ := yields_of_view h
    have hyields : E.Yields identity default := ⟨below, visiting, site, hdefault⟩
    have hbelow := Nat.lt_succ_self below
    generalize hmodule : PortView.generic R.module = view at hseen
    cases hseen with
    | default => cases hmodule
    | other hother =>
      cases hmodule
      rw [R.generic_eq_apply ((confined_run below).default hdefault)]
      exact .other hother hyields
    | @port expr hport =>
      have howner : identity.owner = R.module := (PortView.generic.inj hmodule).symm
      rw [Dimension.toFinsupp_base, Replacement.generic, Finsupp.linearCombination_single,
      one_smul]
      cases hbound : R.bound identity.leaf with
      | some w =>
        rw [Replacement.genericBase, if_neg fun hnot => by simp [hbound] at hnot, Replacement.base,
          if_pos howner, hbound, getD_some]
        exact .bound howner hport hbound
      | none =>
        have hdefaulted : E.isDefaultedDimensionPort identity = true := defaulted_of_port hport
        rw [Replacement.genericBase, if_pos ⟨howner, hbound, hdefaulted⟩]
        have hmeaning : ∃ w, Evaluates E (keepDefault E) R identity w :=
          exists_evaluates hdefault R
        obtain ⟨w, hw⟩ := hmeaning
        cases hw with
        | other hother => cases (hother howner).symm.trans hport
        | projected _ _ hdefinition => cases hport.symm.trans hdefinition
        | bound _ _ hsome => cases hbound.symm.trans hsome
        | default values _ hdefinition _ hterms hvalues =>
          exact .default values howner hdefinition hbound hterms hvalues
        | derived _ _ hdefinition => cases hport.symm.trans hdefinition
    | @projected projection _ hdefinition hvalue =>
      have howner : identity.owner = R.module := (PortView.generic.inj hmodule).symm
      obtain ⟨template, bound, hprojected⟩ := projectedDimension_eq_ok hvalue
      let values : ResolvedDimName N → BaseDimId N →₀ ℚ := fun name => R.generic E (exponentsOf
        ((E.run below).dimensionIn visiting name (.generic identity.owner) none))
      let inner := R.inner projection.projection.template.owner fun port =>
        (E.boundTarget identity.owner projection.ports port).map values
      have hinner : R.generic E d.toFinsupp = inner.generic E template.toFinsupp := by
        refine hprojected.value_eq (R.generic E) rfl (fun b hb => ?_) fun port => ?_
        · rw [Replacement.generic, Finsupp.linearCombination_single, one_smul]
          exact R.genericBase_of_not_port fun port heq _ => hb port heq
        · have hport := hprojected.ports port
          change (E.boundTarget identity.owner projection.ports port).map values = _
          cases htarget : E.boundTarget identity.owner projection.ports port with
          | none =>
            rw [htarget] at hport
            rw [show bound.get? port = none from hport]
            rfl
          | some target =>
            rw [htarget] at hport
            obtain ⟨v, hv, hget⟩ := hport
            rw [hget, map_some, map_some]
            change some (R.generic E (exponentsOf _)) = _
            rw [hv, exponentsOf]
      rw [hinner]
      refine .projected values howner hdefinition (fun port target htarget => ?_) ?_
      · have hport := hprojected.ports port
        rw [htarget] at hport
        obtain ⟨v, hv, -⟩ := hport
        change Evaluates E (keepDefault E) R target (R.generic E (exponentsOf _))
        rw [hv, exponentsOf]
        rw [howner] at hv
        exact ih below hbelow hv
      · exact ih below hbelow (R := inner) hprojected.generic
    | @derived expr _ hdefinition hvalue =>
      have howner : identity.owner = R.module := (PortView.generic.inj hmodule).symm
      obtain ⟨terms, hterms, hviewed, hsum⟩ := evaluateDimExpr_eq_ok hvalue
      have hgeneric : R.generic E d.toFinsupp = (terms.map fun term => term.2 •
          R.generic E (exponentsOf ((E.run below).dimensionIn visiting term.1
            (.generic identity.owner) site))).sum := by
        rw [hsum, termsSum, map_list_sum, List.map_map]
        congr 1
        exact List.map_congr_left fun term _ => map_smul _ _ _
      rw [hgeneric]
      refine .derived (fun name => R.generic E (exponentsOf ((E.run below).dimensionIn visiting name
        (.generic identity.owner) site))) howner hdefinition hterms fun term hterm => ?_
      obtain ⟨v, hv⟩ := hviewed term hterm
      rw [hv, exponentsOf]
      rw [howner] at hv
      exact ih below hbelow hv

end Computed

section Substitution

variable {E : StaticDefinitionEvaluator N}

/-- The bindings of an include of `owner`, each with the value of the dimension it names. -/
noncomputable def includeReplacement (E : StaticDefinitionEvaluator N) (owner : SourceDagId N)
    (projection : DimensionProjection N) : Replacement N (BaseDimId N →₀ ℚ) where
  module := projection.projection.template.owner
  bound port := (E.boundTarget owner projection.ports port).map E.own
  outer base := Finsupp.single base 1

/-- The defaults of unbound ports follow the bindings of the other ports. -/
def followBindings (_ : Replacement N (BaseDimId N →₀ ℚ)) (_ : ResolvedDimName N)
    (w : BaseDimId N →₀ ℚ) : BaseDimId N →₀ ℚ :=
  w

/-- The value of the template's definitions with the include's bindings in place of its ports. -/
def Substituted (E : StaticDefinitionEvaluator N) (owner : SourceDagId N)
    (projection : DimensionProjection N) (value : BaseDimId N →₀ ℚ) : Prop :=
  Evaluates E followBindings (includeReplacement E owner projection)
    projection.projection.template value

/-- A value in three parts: what no unbound port contributes to, and what the unbound ports
contribute with their defaults as they are and with their defaults under the bindings. -/
abbrev Parts (N : Type) [LinearOrder N] :=
  (BaseDimId N →₀ ℚ) × (BaseDimId N →₀ ℚ) × (BaseDimId N →₀ ℚ)

/-- The value of the parts with the defaults as they are. -/
noncomputable def Parts.kept : Parts N →ₗ[ℚ] BaseDimId N →₀ ℚ :=
  LinearMap.fst ℚ _ _ + (LinearMap.fst ℚ _ _).comp (LinearMap.snd ℚ _ _)

/-- The value of the parts with the defaults under the bindings. -/
noncomputable def Parts.followed : Parts N →ₗ[ℚ] BaseDimId N →₀ ℚ :=
  LinearMap.fst ℚ _ _ + (LinearMap.snd ℚ _ _).comp (LinearMap.snd ℚ _ _)

noncomputable def splitDefault (E : StaticDefinitionEvaluator N) (R : Replacement N (Parts N))
    (port : ResolvedDimName N) (w : Parts N) : Parts N :=
  (0, Parts.kept (R.applyOuter (E.own port)), Parts.followed w)

/-- The unbound ports contribute the same whether or not their defaults follow the bindings. -/
def DefaultsUnmoved (E : StaticDefinitionEvaluator N) (owner : SourceDagId N)
    (projection : DimensionProjection N) : Prop :=
  ∃ rest part, Evaluates E (splitDefault E)
    ((includeReplacement E owner projection).map (LinearMap.inl ℚ _ _))
    projection.projection.template (rest, part, part)

omit [LinearOrder (BaseDimId N)] in
theorem map_inl {W W' : Type} [AddCommGroup W] [Module ℚ W] [AddCommGroup W'] [Module ℚ W']
    (f : W × W' →ₗ[ℚ] W) (hf : ∀ w, f (w, 0) = w) (R : Replacement N W) :
    (R.map (LinearMap.inl ℚ W W')).map f = R := by
  obtain ⟨module, bound, outer⟩ := R
  simp only [Replacement.map, Option.map_map, Replacement.mk.injEq, true_and]
  refine ⟨funext fun port => ?_, funext fun base => hf _⟩
  rw [show f ∘ LinearMap.inl ℚ W W' = id from funext hf, Option.map_id]
  rfl

theorem Evaluates.kept {R : Replacement N (Parts N)} {identity : ResolvedDimName N} {w : Parts N}
    (h : Evaluates E (splitDefault E) R identity w) :
    Evaluates E (keepDefault E) (R.map Parts.kept) identity (Parts.kept w) := by
  refine h.map Parts.kept fun R port w => ?_
  rw [keepDefault, R.applyOuter_map]
  exact (zero_add _).symm

theorem Evaluates.followed {R : Replacement N (Parts N)} {identity : ResolvedDimName N}
    {w : Parts N} (h : Evaluates E (splitDefault E) R identity w) :
    Evaluates E followBindings (R.map Parts.followed) identity (Parts.followed w) := by
  refine h.map Parts.followed fun R port w => ?_
  exact (zero_add _).symm

variable {fuel : ℕ} {visiting : List (ResolvedDimName N)} {owner : SourceDagId N}
  {projection : DimensionProjection N} {d : Dimension (BaseDimId N)}

/-- A projection has the template's meaning with the defaults as they are. -/
theorem evaluates_projected
    (h : E.projectedDimension (E.run fuel) visiting owner projection .default = .ok d) :
    Evaluates E (keepDefault E) (includeReplacement E owner projection)
      projection.projection.template d.toFinsupp := by
  obtain ⟨template, bound, hprojected⟩ := projectedDimension_eq_ok h
  have hvalue : d.toFinsupp =
      (includeReplacement E owner projection).generic E template.toFinsupp := by
    refine hprojected.value_eq LinearMap.id rfl (fun _ _ => rfl) fun port => ?_
    have hport := hprojected.ports port
    change (E.boundTarget owner projection.ports port).map E.own = _
    cases htarget : E.boundTarget owner projection.ports port with
    | none =>
      rw [htarget] at hport
      rw [show bound.get? port = none from hport]
      rfl
    | some target =>
      rw [htarget] at hport
      obtain ⟨v, hv, hget⟩ := hport
      rw [hget, map_some, map_some, (yields_of_default hv).own_eq]
      rfl
  rw [hvalue]
  exact evaluates_generic (R := includeReplacement E owner projection) hprojected.generic

/-- A projection is the substitution exactly when its bindings do not move the defaults it uses. -/
theorem projectedDimension_substituted_iff (E : StaticDefinitionEvaluator N) (fuel : ℕ)
    (visiting : List (ResolvedDimName N)) (owner : SourceDagId N)
    (projection : DimensionProjection N) (d : Dimension (BaseDimId N))
    (h : E.projectedDimension (E.run fuel) visiting owner projection .default = .ok d) :
    Substituted E owner projection d.toFinsupp ↔ DefaultsUnmoved E owner projection := by
  obtain ⟨template, bound, hprojected⟩ := projectedDimension_eq_ok h
  obtain ⟨below, -, default, hdefault, -⟩ := yields_of_view hprojected.generic
  have hmeaning : ∃ w, Evaluates E (splitDefault E)
      ((includeReplacement E owner projection).map (LinearMap.inl ℚ _ _))
      projection.projection.template w := exists_evaluates hdefault _
  obtain ⟨⟨rest, kept, followed⟩, hparts⟩ := hmeaning
  have hkept := hparts.kept
  have hfollowed := hparts.followed
  rw [map_inl _ fun w => add_zero w] at hkept hfollowed
  have hd : d.toFinsupp = rest + kept := hkept.unique (evaluates_projected h)
  constructor
  · intro hsubstituted
    have heq : d.toFinsupp = rest + followed := hfollowed.unique hsubstituted
    have hsame : kept = followed := add_left_cancel (hd.symm.trans heq)
    subst hsame
    exact ⟨rest, kept, hparts⟩
  · rintro ⟨rest', part, hunmoved⟩
    cases hparts.unique hunmoved
    rw [hd]
    exact hfollowed

end Substitution

/-! ## A default over a bound port -/

variable {dimension : PreludeBaseDimension}

namespace BoundQuantity

inductive Name
  | pkg
  | std
  | main
  | lib
  | quantity
  | rate
  | flow
  | mass
  | time
  | length
  deriving DecidableEq

instance : LinearOrder Name :=
  LinearOrder.lift' Name.ctorIdx fun a b h => by
    cases a <;> cases b <;> first | rfl | exact absurd h (by decide)

def baseKey : BaseDimId Name → ℕ ×ₗ List (Name ×ₗ Name ×ₗ List (ℕ ×ₗ List Name ×ₗ ℕ))
  | .prelude dimension => toLex (dimension.ctorIdx, [])
  | .userDefined name => toLex (0, [nameKey name])

theorem baseKey_injective : Function.Injective baseKey := by
  intro a b h
  have hindex : (ofLex (baseKey a)).1 = (ofLex (baseKey b)).1 := congrArg _ h
  have hname : (ofLex (baseKey a)).2 = (ofLex (baseKey b)).2 := congrArg _ h
  cases a with
  | prelude a =>
    cases b with
    | prelude b => cases a <;> cases b <;> first | rfl | exact absurd hindex (by decide)
    | userDefined b => cases hname
  | userDefined a =>
    cases b with
    | prelude b => cases hname
    | userDefined b => rw [nameKey_injective (List.cons.inj hname).1]

instance : LinearOrder (BaseDimId Name) := LinearOrder.lift' baseKey baseKey_injective

def preludeDimension : Name → Option PreludeBaseDimension
  | .mass => some .mass
  | .time => some .time
  | .length => some .length
  | _ => none

def preludeRoot : SourceDagId Name := fileRoot .pkg .std

def prelude : PreludeDimensions Name where
  resolve path :=
    if path.qualifier = [] ∧ (preludeDimension path.leaf).isSome then
      some ⟨preludeRoot, path.leaf⟩
    else none
  dimension identity :=
    if identity.owner = preludeRoot then
      (preludeDimension identity.leaf).map fun dimension => .base (.prelude dimension)
    else none
  overPrelude identity d h name := by
    split_ifs at h
    obtain ⟨dimension, -, rfl⟩ := Option.map_eq_some_iff.mp h
    exact if_neg nofun

def factor (op : MulDivOp) (name : Name) : DimExprItem Name := ⟨op, .path ⟨[], name⟩, none⟩

def rateDefault : DimExpr Name := ⟨[factor .mul .quantity, factor .div .time]⟩

def flowDefinition : DimExpr Name := ⟨[factor .mul .rate]⟩

def libRoot : SourceDagId Name := fileRoot .pkg .lib

def mainRoot : SourceDagId Name := fileRoot .pkg .main

def portBinding (port target : Name) : ParamBinding Name := ⟨.dimension, port, .path ⟨[], target⟩⟩

/-- `pub(bind) dim quantity; pub(bind) dim rate = quantity / Time; pub dim flow = rate;` in `lib`,
and `include lib(..)::{dim flow};` in `main`. -/
def sources (bindings : List (ParamBinding Name)) : List (SourceDagId Name × List (Resolve.Decl Name)) :=
  [(libRoot, [.otherDecl (.dimension .publicBind .quantity),
      .otherDecl (.dimension .publicBind .rate), .otherDecl (.dimension .pub .flow)]),
    (mainRoot, [.includeDecl ⟨rootPath .lib, bindings,
      .selective [⟨.priv, ⟨.flow, ⟨0, 0⟩⟩, ⟨.dimension, none⟩⟩]⟩])]

def spellings : Spellings Name := ⟨fun _ _ => false, fun _ => true⟩

def targets : ModuleTargets Name where
  importTarget _ _ := none
  includeTarget _ path := if path.key = [.lib] then some libRoot else none

def definitions (owner : SourceDagId Name) : Option (SortedMap Name (DimensionSource Name)) :=
  if owner = libRoot then
    some (moduleDimensions [.dimension .publicBind .quantity none,
      .dimension .publicBind .rate (some rateDefault), .dimension .pub .flow (some flowDefinition)])
  else if owner = mainRoot then some (moduleDimensions [])
  else none

def evaluator (resolver : ModuleResolver Name)
    (h : resolver.modules.get? preludeRoot = none) : StaticDefinitionEvaluator Name where
  resolver := resolver
  prelude := prelude
  modules := definitions
  preludeApart identity d hdimension := by
    have howner : identity.owner = preludeRoot := by
      by_contra hother
      cases (if_neg hother : prelude.dimension identity = none).symm.trans hdimension
    rw [howner]
    exact ⟨rfl, h⟩

/-- The projection of `flow` into `main`. -/
def flowProjection (ports : List (DimensionPortBinding Name)) : DimensionProjection Name :=
  ⟨⟨⟨libRoot, .flow⟩, .includeInstance 0⟩, ports⟩

/-- The names that `lib` declares denote themselves, and the prelude is seen by both modules. -/
abbrev Resolves (E : StaticDefinitionEvaluator Name) : Prop :=
  (∀ name ∈ [Name.quantity, .rate, .flow], E.projection ⟨libRoot, name⟩ = none ∧
    E.resolveDimension libRoot ⟨[], name⟩ = some ⟨libRoot, name⟩) ∧
  E.resolveDimension libRoot ⟨[], .time⟩ = some ⟨preludeRoot, .time⟩ ∧
  ∀ name ∈ [Name.mass, .length],
    E.resolveDimension mainRoot ⟨[], name⟩ = some ⟨preludeRoot, name⟩

/-- What evaluating the projected `flow` gives. -/
def evaluatesFlow (ports : List (DimensionPortBinding Name))
    (p : Dimension (BaseDimId Name) → Bool) (resolver : ModuleResolver Name) : Bool :=
  if h : resolver.modules.get? preludeRoot = none then
    decide (Resolves (evaluator resolver h)) &&
      decide ((evaluator resolver h).projection ⟨mainRoot, .flow⟩ = some (flowProjection ports)) &&
      ((evaluator resolver h).projectedDimension ((evaluator resolver h).run 8) [] mainRoot
        (flowProjection ports) .default).toOption.any p
  else false

theorem exists_flow (bindings : List (ParamBinding Name))
    (ports : List (DimensionPortBinding Name)) (p : Dimension (BaseDimId Name) → Bool)
    (h : (ModuleResolver.build spellings targets (sources bindings)).toOption.any
      (evaluatesFlow ports p) = true) :
    ∃ resolver hprelude d,
      ModuleResolver.build spellings targets (sources bindings) = .ok resolver ∧
      (evaluator resolver hprelude).projection ⟨mainRoot, .flow⟩ = some (flowProjection ports) ∧
      (evaluator resolver hprelude).projectedDimension ((evaluator resolver hprelude).run 8) []
        mainRoot (flowProjection ports) .default = .ok d ∧
      Resolves (evaluator resolver hprelude) ∧ p d = true := by
  obtain ⟨resolver, hbuild, hflow⟩ := Checked.exists_ok_of_any h
  unfold evaluatesFlow at hflow
  split_ifs at hflow with hprelude
  rw [Bool.and_eq_true, Bool.and_eq_true, decide_eq_true_iff, decide_eq_true_iff] at hflow
  obtain ⟨d, hd, hp⟩ := Checked.exists_ok_of_any hflow.2
  exact ⟨resolver, hprelude, d, hbuild, hflow.1.2, hd, hflow.1.1, hp⟩

variable {name : Name}

section

variable {resolver : ModuleResolver Name} {hprelude : resolver.modules.get? preludeRoot = none}

section

variable (h : Resolves (evaluator resolver hprelude))

include h

theorem quantity_plain : (evaluator resolver hprelude).definition ⟨libRoot, .quantity⟩ = .plain :=
  definition_of_base (h.1 .quantity (by decide)).1 (Or.inr rfl)

theorem rate_port : (evaluator resolver hprelude).definition ⟨libRoot, .rate⟩ = .port rateDefault :=
  definition_of_derived .publicBind (h.1 .rate (by decide)).1 rfl

theorem flow_derived :
    (evaluator resolver hprelude).definition ⟨libRoot, .flow⟩ = .derived flowDefinition :=
  definition_of_derived .pub (h.1 .flow (by decide)).1 rfl

end

theorem yields_prelude (h : preludeDimension name = some dimension) :
    (evaluator resolver hprelude).Yields ⟨preludeRoot, name⟩ (.base (.prelude dimension)) := by
  have hdimension : prelude.dimension ⟨preludeRoot, name⟩ = some (.base (.prelude dimension)) := by
    rw [prelude]
    dsimp only
    rw [if_pos rfl, h, map_some]
  refine ⟨1, [], none, ?_⟩
  rw [run, step]
  dsimp only [evaluator]
  rw [hdimension]

section

variable (h : Resolves (evaluator resolver hprelude))

include h

theorem yields_quantity :
    (evaluator resolver hprelude).Yields ⟨libRoot, .quantity⟩
      (.base (.userDefined ⟨libRoot, .quantity⟩)) := by
  refine ⟨1, [], none, ?_⟩
  have hprojection := (h.1 .quantity (by decide)).1
  rw [run, step]
  dsimp only
  rw [hprojection]
  rfl

theorem flow_terms :
    (evaluator resolver hprelude).terms libRoot flowDefinition =
      some [(⟨libRoot, .rate⟩, 1)] := by
  have hrate := (h.1 .rate (by decide)).2
  simp [StaticDefinitionEvaluator.terms, flowDefinition, termOf, factor, hrate,
    DimExprItem.exponent, DimExprItem.effectivePower]

theorem rate_terms :
    (evaluator resolver hprelude).terms libRoot rateDefault =
      some [(⟨libRoot, .quantity⟩, 1), (⟨preludeRoot, .time⟩, -1)] := by
  have hquantity := (h.1 .quantity (by decide)).2
  have htime := h.2.1
  simp [StaticDefinitionEvaluator.terms, rateDefault, termOf, factor, hquantity, htime,
    DimExprItem.exponent, DimExprItem.effectivePower]

end

variable {R : Replacement Name (BaseDimId Name →₀ ℚ)}

/-- `flow` has the value that stands for `rate`. -/
theorem evaluates_flow {W : Type} [AddCommGroup W] [Module ℚ W]
    {onDefault : Replacement Name W → ResolvedDimName Name → W → W} {R : Replacement Name W} {w : W}
    (h : Resolves (evaluator resolver hprelude)) (hmodule : R.module = libRoot)
    (hrate : Evaluates (evaluator resolver hprelude) onDefault R ⟨libRoot, .rate⟩ w) :
    Evaluates (evaluator resolver hprelude) onDefault R ⟨libRoot, .flow⟩ w := by
  have hvalues : ∀ term ∈ [((⟨libRoot, .rate⟩ : ResolvedDimName Name), (1 : ℚ))],
      Evaluates (evaluator resolver hprelude) onDefault R term.1 w := by
    intro term hterm
    cases List.mem_singleton.mp hterm
    exact hrate
  have hflow := Evaluates.derived (fun _ => w) hmodule.symm (flow_derived h) (flow_terms h) hvalues
  rwa [List.map_singleton, List.sum_singleton, one_smul] at hflow

/-- An unbound `rate` follows what `quantity` is bound to. -/
theorem evaluates_rate {v : BaseDimId Name →₀ ℚ} (h : Resolves (evaluator resolver hprelude))
    (hmodule : R.module = libRoot) (houter : R.outer = fun base => Finsupp.single base 1)
    (hquantity : R.bound .quantity = some v) (hrate : R.bound .rate = none) :
    Evaluates (evaluator resolver hprelude) followBindings R ⟨libRoot, .rate⟩
      (v - Finsupp.single (.prelude .time) 1) := by
  have hports : Evaluates (evaluator resolver hprelude) followBindings R ⟨libRoot, .quantity⟩ v := by
    have hvalue : Evaluates (evaluator resolver hprelude) followBindings R
        ⟨libRoot, .quantity⟩ _ := .other (fun _ => quantity_plain h) (yields_quantity h)
    rwa [Dimension.toFinsupp_base, Replacement.apply, Finsupp.linearCombination_single, one_smul,
      Replacement.base, if_pos hmodule.symm, hquantity, getD_some] at hvalue
  have htime : Evaluates (evaluator resolver hprelude) followBindings R ⟨preludeRoot, .time⟩
      (Finsupp.single (.prelude .time) 1) := by
    have htime : preludeDimension .time = some .time := rfl
    have hvalue : Evaluates (evaluator resolver hprelude) followBindings R
        ⟨preludeRoot, .time⟩ _ :=
      .other (fun howner => absurd (howner.trans hmodule) (by decide)) (yields_prelude htime)
    rwa [Dimension.toFinsupp_base, Replacement.apply, Finsupp.linearCombination_single, one_smul,
      Replacement.base, houter] at hvalue
  let values (name : ResolvedDimName Name) : BaseDimId Name →₀ ℚ :=
    if name.leaf = .quantity then v else Finsupp.single (.prelude .time) 1
  have hvalues : ∀ term ∈ [((⟨libRoot, .quantity⟩ : ResolvedDimName Name), (1 : ℚ)),
      (⟨preludeRoot, .time⟩, -1)],
      Evaluates (evaluator resolver hprelude) followBindings R term.1 (values term.1) := by
    intro term hterm
    rcases List.mem_cons.mp hterm with rfl | hterm
    · exact hports
    · cases List.mem_singleton.mp hterm
      exact htime
  have hvalue := Evaluates.default values hmodule.symm (rate_port h) hrate (rate_terms h) hvalues
  rwa [followBindings, List.map_cons, List.map_singleton, List.sum_cons, List.sum_singleton,
    one_smul, neg_smul, one_smul, ← sub_eq_add_neg] at hvalue

theorem own_prelude (h : preludeDimension name = some dimension) :
    (evaluator resolver hprelude).own ⟨preludeRoot, name⟩ = Finsupp.single (.prelude dimension) 1 := by
  rw [(yields_prelude h).own_eq, Dimension.toFinsupp_base]

end

/-- With `quantity` bound to `Mass`, `flow` is not `Mass / Time` but keeps `lib`'s `quantity`. -/
theorem unbound_rate_keeps_quantity : ∃ resolver hprelude d,
    ModuleResolver.build spellings targets (sources [portBinding .quantity .mass]) = .ok resolver ∧
      (evaluator resolver hprelude).projection ⟨mainRoot, .flow⟩ =
        some (flowProjection [⟨.quantity, ⟨[], .mass⟩⟩]) ∧
      (evaluator resolver hprelude).projectedDimension ((evaluator resolver hprelude).run 8) []
        mainRoot (flowProjection [⟨.quantity, ⟨[], .mass⟩⟩]) .default = .ok d ∧
      ¬ Substituted (evaluator resolver hprelude) mainRoot
        (flowProjection [⟨.quantity, ⟨[], .mass⟩⟩]) d.toFinsupp := by
  obtain ⟨resolver, hprelude, d, hbuild, hprojection, hd, hresolves, hmass⟩ :=
    exists_flow [portBinding .quantity .mass] [⟨.quantity, ⟨[], .mass⟩⟩]
      (fun d => d.getExponent (.prelude .mass) = .zero) (by decide +kernel)
  refine ⟨resolver, hprelude, d, hbuild, hprojection, hd, fun hsubstituted => ?_⟩
  have htarget := hresolves.2.2 .mass (by decide)
  have hvalue : Substituted (evaluator resolver hprelude) mainRoot
      (flowProjection [⟨.quantity, ⟨[], .mass⟩⟩])
      (Finsupp.single (.prelude .mass) 1 - Finsupp.single (.prelude .time) 1) := by
    refine evaluates_flow hresolves rfl (evaluates_rate hresolves rfl rfl ?_ ?_)
    · simp only [includeReplacement, boundTarget, flowProjection, htarget, List.foldl_cons,
        List.foldl_nil, if_pos, map_some]
      have hmass : preludeDimension .mass = some .mass := rfl
      rw [own_prelude hmass]
    · simp [includeReplacement, boundTarget, flowProjection, htarget]
  have hexponent := DFunLike.congr_fun (hvalue.unique hsubstituted) (.prelude .mass)
  rw [Dimension.toFinsupp_apply, of_decide_eq_true hmass] at hexponent
  simp at hexponent

/-- With `rate` bound as well no default is used. -/
theorem bound_rate_substituted : ∃ resolver hprelude d,
    ModuleResolver.build spellings targets
        (sources [portBinding .quantity .mass, portBinding .rate .length]) = .ok resolver ∧
      (evaluator resolver hprelude).projectedDimension ((evaluator resolver hprelude).run 8) []
        mainRoot (flowProjection [⟨.quantity, ⟨[], .mass⟩⟩, ⟨.rate, ⟨[], .length⟩⟩]) .default =
          .ok d ∧
      Substituted (evaluator resolver hprelude) mainRoot
        (flowProjection [⟨.quantity, ⟨[], .mass⟩⟩, ⟨.rate, ⟨[], .length⟩⟩]) d.toFinsupp := by
  obtain ⟨resolver, hprelude, d, hbuild, -, hd, hresolves, -⟩ :=
    exists_flow [portBinding .quantity .mass, portBinding .rate .length]
      [⟨.quantity, ⟨[], .mass⟩⟩, ⟨.rate, ⟨[], .length⟩⟩] (fun _ => true) (by decide +kernel)
  refine ⟨resolver, hprelude, d, hbuild, hd,
    (projectedDimension_substituted_iff _ _ _ _ _ _ hd).mpr
      ⟨(evaluator resolver hprelude).own ⟨preludeRoot, .length⟩, 0, ?_⟩⟩
  refine evaluates_flow hresolves rfl (.bound rfl (rate_port hresolves) ?_)
  have hmass := hresolves.2.2 .mass (by decide)
  have hlength := hresolves.2.2 .length (by decide)
  simp [includeReplacement, boundTarget, flowProjection, Replacement.map, hmass, hlength]
  rfl

end BoundQuantity

end ProvenGraphcal.Static
