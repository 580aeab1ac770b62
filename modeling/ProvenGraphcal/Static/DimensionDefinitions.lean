import Mathlib.LinearAlgebra.Finsupp.LinearCombination
import ProvenGraphcal.Algebra.Dimension
import ProvenGraphcal.Resolve.Projection

/-!
# A computable order of resolved names
-/

namespace ProvenGraphcal.Static

open Resolve

variable {N : Type}

def segmentKey : DagSegment N (ScopeSegment N) → ℕ ×ₗ List N ×ₗ ℕ
  | .file name => toLex (0, toLex ([name], 0))
  | .inlineDag name => toLex (1, toLex ([name], 0))
  | .instance (.named name) => toLex (2, toLex ([name], 0))
  | .instance (.includeInstance offset) => toLex (3, toLex ([], offset))

theorem segmentKey_injective : Function.Injective (segmentKey (N := N)) := by
  intro a b h
  rcases a with a | a | (a | a) <;> rcases b with b | b | (b | b) <;> simp_all [segmentKey]

def nameKey (name : ResolvedName N (ScopeSegment N)) :
    N ×ₗ N ×ₗ List (ℕ ×ₗ List N ×ₗ ℕ) :=
  toLex (name.leaf, toLex (name.owner.package, name.owner.segments.items.map segmentKey))

theorem nameKey_injective : Function.Injective (nameKey (N := N)) := by
  intro a b h
  have hleaf : a.leaf = b.leaf := congrArg (fun key => (ofLex key).1) h
  have hpackage : a.owner.package = b.owner.package :=
    congrArg (fun key => (ofLex (ofLex key).2).1) h
  have hsegments := congrArg (fun key => (ofLex (ofLex key).2).2) h
  exact ResolvedName.ext_parts
    (DagId.ext_segments hpackage (segmentKey_injective.list_map hsegments)) hleaf

/-- Resolved names, by their leaves, packages and segments. -/
abbrev nameOrder [LinearOrder N] : LinearOrder (ResolvedName N (ScopeSegment N)) :=
  LinearOrder.lift' nameKey nameKey_injective

/-!
# Evaluating the dimensions that modules declare

Definitions are evaluated on demand. The bindable dimensions of a module are its ports: they have
their defaults, or stay opaque in the port-generic view that an include substitutes into. Values
that the evaluator has computed before are computed again here.
-/

open Resolve

inductive PreludeBaseDimension
  | length
  | time
  | mass
  | temperature
  | electricCurrent
  | amount
  | luminousIntensity
  | angle
  deriving DecidableEq

abbrev ResolvedDimName (N : Type) := ResolvedName N (ScopeSegment N)

inductive BaseDimId (N : Type) [LinearOrder N]
  | prelude (dimension : PreludeBaseDimension)
  | userDefined (name : ResolvedDimName N)
  deriving DecidableEq

inductive MulDivOp
  | mul
  | div
  deriving DecidableEq

inductive DimTermName (N : Type)
  | dimensionless
  | path (path : NamePath N)
  deriving DecidableEq

structure DimExprItem (N : Type) where
  op : MulDivOp
  name : DimTermName N
  power : Option Rational
  deriving DecidableEq

/-- The exponent of a term; it is one if it is not written. -/
def DimExprItem.effectivePower {N : Type} (item : DimExprItem N) : Rational :=
  item.power.getD .one

structure DimExpr (N : Type) where
  terms : List (DimExprItem N)
  deriving DecidableEq

/-- A declaration of a dimension, as it is written. -/
inductive DimensionDecl (N : Type)
  | base (name : N)
  | dimension (visibility : BindableVisibility) (name : N) (definition : Option (DimExpr N))

/-- What defines a dimension; a required port is an opaque base in its module. -/
inductive DimensionSource (N : Type)
  | base
  | required
  | derived (visibility : BindableVisibility) (definition : DimExpr N)
  deriving DecidableEq

inductive DimensionError (N : Type)
  | unknownDimension (name : NamePath N)
  | cyclicDimension (name : N)
  | missingDefinition (identity : ResolvedDimName N)
  | dimensionOverflow
  | outOfFuel

/-- How the defaulted ports of a module are seen. -/
inductive PortView (N : Type)
  | default
  | generic (module : SourceDagId N)

variable {N : Type} [LinearOrder N]

/-- The dimensions that a module declares; a name that is declared again keeps its first source. -/
def moduleDimensions (declarations : List (DimensionDecl N)) : SortedMap N (DimensionSource N) :=
  declarations.foldl (fun dimensions declaration =>
    let (name, source) : N × DimensionSource N := match declaration with
      | .base name => (name, .base)
      | .dimension _ name none => (name, .required)
      | .dimension visibility name (some definition) => (name, .derived visibility definition)
    match dimensions.get? name with
    | some _ => dimensions
    | none => dimensions.insert name source) .empty

variable [LinearOrder (BaseDimId N)]

/-- The dimensions that every module sees. -/
structure PreludeDimensions (N : Type) [LinearOrder N] [LinearOrder (BaseDimId N)] where
  resolve : NamePath N → Option (ResolvedDimName N)
  dimension : ResolvedDimName N → Option (Dimension (BaseDimId N))
  overPrelude : ∀ identity d, dimension identity = some d →
    ∀ name, d.exponents.get (.userDefined name) = none

/-- What definitions are evaluated from; no module of the project defines the prelude. -/
structure StaticDefinitionEvaluator (N : Type) [LinearOrder N] [LinearOrder (BaseDimId N)] where
  resolver : ModuleResolver N
  prelude : PreludeDimensions N
  modules : SourceDagId N → Option (SortedMap N (DimensionSource N))
  preludeApart : ∀ identity d, prelude.dimension identity = some d →
    modules identity.owner = none ∧ resolver.modules.get? identity.owner = none

/-- The recursive calls of the evaluator, with the dimensions that are being evaluated. -/
structure Evaluation (N : Type) [LinearOrder N] [LinearOrder (BaseDimId N)] where
  dimensionFrom : List (ResolvedDimName N) → ResolvedDimName N → Option N →
    Except (DimensionError N) (Dimension (BaseDimId N))
  dimensionIn : List (ResolvedDimName N) → ResolvedDimName N → PortView N → Option N →
    Except (DimensionError N) (Dimension (BaseDimId N))

namespace StaticDefinitionEvaluator

variable (E : StaticDefinitionEvaluator N)

def hasSource (owner : SourceDagId N) : Bool := (E.modules owner).isSome

/-- The dimension that a reference written in `owner` denotes. -/
def resolveDimension (owner : SourceDagId N) (reference : NamePath N) :
    Option (ResolvedDimName N) :=
  match E.resolver.resolveSymbolPath .dimension owner reference with
  | .error _ => E.prelude.resolve reference
  | .ok symbol => if E.hasSource symbol.resolved.owner then some symbol.resolved else none

def source (identity : ResolvedDimName N) : Option (DimensionSource N) :=
  (E.modules identity.owner).bind (·.get? identity.leaf)

/-- How an include projected a dimension into its module. -/
def projection (identity : ResolvedDimName N) : Option (DimensionProjection N) :=
  (E.resolver.modules.get? identity.owner).bind fun entry =>
    entry.symbols.dimensionProjections.get? identity.leaf

/-- A bindable dimension of its module that has a default. -/
def isDefaultedDimensionPort (identity : ResolvedDimName N) : Bool :=
  match E.source identity with
  | some (.derived visibility _) => visibility = .publicBind
  | _ => false

/-- The error of a reference that closes a cycle. -/
def cycleError (identity : ResolvedDimName N) (site : Option N) : DimensionError N :=
  match site with
  | some name => .cyclicDimension name
  | none =>
    match E.source identity with
    | some _ => .cyclicDimension identity.leaf
    | none => .missingDefinition identity

def overflow {α : Type} (x : Except RatioError α) : Except (DimensionError N) α :=
  x.mapError fun _ => .dimensionOverflow

variable (calls : Evaluation N) (visiting : List (ResolvedDimName N))

/-- One factor of an expression; `Dimensionless` contributes none. -/
def evaluateTerm (owner : SourceDagId N)
    (overrides : ResolvedDimName N → Option (Option (Dimension (BaseDimId N))))
    (view : PortView N) (site : Option N) (item : DimExprItem N) :
    Except (DimensionError N) (Option (Dimension (BaseDimId N) × Rational × MulDivOp)) :=
  match item.name with
  | .dimensionless => .ok none
  | .path reference =>
    match E.resolveDimension owner reference with
    | none => .error (.unknownDimension reference)
    | some identity =>
      match overrides identity with
      | some (some value) => .ok (some (value, item.effectivePower, item.op))
      | some none => .error (.unknownDimension reference)
      | none => do
        let value ← calls.dimensionIn visiting identity view site
        return some (value, item.effectivePower, item.op)

def multiplyFactor (acc : Dimension (BaseDimId N))
    (factor : Dimension (BaseDimId N) × Rational × MulDivOp) :
    Except RatioError (Dimension (BaseDimId N)) := do
  let powered ← factor.1.pow factor.2.1
  match factor.2.2 with
  | .mul => acc.checkedMul powered
  | .div => acc.checkedDiv powered

def evaluateDimExpr (owner : SourceDagId N) (expr : DimExpr N)
    (overrides : ResolvedDimName N → Option (Option (Dimension (BaseDimId N))))
    (view : PortView N) (site : Option N) :
    Except (DimensionError N) (Dimension (BaseDimId N)) := do
  let factors ← expr.terms.mapM (E.evaluateTerm calls visiting owner overrides view site)
  overflow ((factors.filterMap id).foldlM multiplyFactor .dimensionless)

/-- The dimensions that the bindings of an include name; an unknown one is left out. -/
def boundPorts (owner : SourceDagId N) (view : PortView N)
    (ports : List (DimensionPortBinding N)) :
    Except (DimensionError N) (SortedMap N (Dimension (BaseDimId N))) :=
  ports.foldlM (fun bound port =>
    match E.resolveDimension owner port.target with
    | none => .ok bound
    | some target => do
      let value ← calls.dimensionIn visiting target view none
      return bound.insert port.port value) .empty

/-- What stands for a base of the template's port-generic dimension. -/
def replacement (templateOwner : SourceDagId N) (bound : SortedMap N (Dimension (BaseDimId N)))
    (base : BaseDimId N) : Except (DimensionError N) (Dimension (BaseDimId N)) :=
  match base with
  | .userDefined port =>
    if port.owner = templateOwner then
      match bound.get? port.leaf with
      | some value => .ok value
      | none =>
        if E.isDefaultedDimensionPort port then calls.dimensionFrom visiting port none
        else .ok (.base base)
    else .ok (.base base)
  | .prelude _ => .ok (.base base)

def multiplyPower (acc : Dimension (BaseDimId N)) (factor : Dimension (BaseDimId N) × Rational) :
    Except RatioError (Dimension (BaseDimId N)) := do
  acc.checkedMul (← factor.1.pow factor.2)

/-- A template's dimension, with the ports that an include of `owner` binds replaced. -/
def projectedDimension (owner : SourceDagId N) (projection : DimensionProjection N)
    (view : PortView N) : Except (DimensionError N) (Dimension (BaseDimId N)) := do
  let identity := projection.projection.template
  let template ← calls.dimensionIn visiting identity (.generic identity.owner) none
  let bound ← E.boundPorts calls visiting owner view projection.ports
  let factors ← template.exponents.factors.entries.mapM fun factor => do
    return (← E.replacement calls visiting identity.owner bound factor.1, factor.2)
  overflow (factors.foldlM multiplyPower .dimensionless)

/-- No reference of an expression is overridden. -/
def noOverrides : ResolvedDimName N → Option (Option (Dimension (BaseDimId N))) := fun _ => none

def declaredDimension (identity : ResolvedDimName N) :
    Except (DimensionError N) (Dimension (BaseDimId N)) :=
  match E.source identity with
  | none => .error (.missingDefinition identity)
  | some .base | some .required => .ok (.base (.userDefined identity))
  | some (.derived _ definition) =>
    E.evaluateDimExpr calls visiting identity.owner definition noOverrides .default
      (some identity.leaf)

/-- One level of the evaluator's recursion. -/
def step : Evaluation N where
  dimensionFrom visiting identity site :=
    match E.prelude.dimension identity with
    | some d => .ok d
    | none =>
      if identity ∈ visiting then .error (E.cycleError identity site)
      else
        match E.projection identity with
        | some projection =>
          E.projectedDimension calls (identity :: visiting) identity.owner projection .default
        | none => E.declaredDimension calls (identity :: visiting) identity
  dimensionIn visiting identity view site := do
    -- the default evaluation rejects cycles of the whole closure
    let default ← calls.dimensionFrom visiting identity site
    match view with
    | .default => return default
    | .generic module =>
      if identity.owner ≠ module then return default
      else
        match E.projection identity, E.source identity with
        | some projection, _ => E.projectedDimension calls visiting identity.owner projection view
        | none, some (.derived visibility definition) =>
          if visibility = .publicBind then return .base (.userDefined identity)
          else E.evaluateDimExpr calls visiting identity.owner definition noOverrides view site
        | none, some .base | none, some .required | none, none => return default

/-- The evaluator with a bound on its recursion. -/
def run : ℕ → Evaluation N
  | 0 => ⟨fun _ _ _ => .error .outOfFuel, fun _ _ _ _ => .error .outOfFuel⟩
  | fuel + 1 => E.step (run fuel)

end StaticDefinitionEvaluator

/-!
# What the definitions of a template mean under an include

The ports that an include binds are replaced, and the definitions are evaluated with exact
exponents, in any rational module. What a port without a binding contributes is a parameter: its
default as it is, its default under the same replacement, or both side by side.
-/

/-- The exponents of an evaluated dimension, and none of a failed one. -/
noncomputable def exponentsOf {ε : Type} :
    Except ε (Dimension (BaseDimId N)) → (BaseDimId N →₀ ℚ)
  | .ok d => d.toFinsupp
  | .error _ => 0

/-- The kinds of definitions in a module that is seen with its ports. -/
inductive Definition (N : Type)
  | projected (projection : DimensionProjection N)
  | port (default : DimExpr N)
  | derived (definition : DimExpr N)
  | plain

/-- The exponent that a term contributes with. -/
def DimExprItem.exponent (item : DimExprItem N) : ℚ :=
  match item.op with
  | .mul => item.effectivePower.value
  | .div => -item.effectivePower.value

namespace StaticDefinitionEvaluator

variable (E : StaticDefinitionEvaluator N)

def definition (identity : ResolvedDimName N) : Definition N :=
  match E.projection identity, E.source identity with
  | some projection, _ => .projected projection
  | none, some (.derived visibility definition) =>
    if visibility = .publicBind then .port definition else .derived definition
  | none, some .base | none, some .required | none, none => .plain

def termOf (owner : SourceDagId N) (item : DimExprItem N) :
    Option (Option (ResolvedDimName N × ℚ)) :=
  match item.name with
  | .dimensionless => some none
  | .path reference =>
    (E.resolveDimension owner reference).map fun identity => some (identity, item.exponent)

/-- The dimensions that an expression refers to, with their exponents. -/
def terms (owner : SourceDagId N) (expr : DimExpr N) : Option (List (ResolvedDimName N × ℚ)) :=
  (expr.terms.mapM (E.termOf owner)).map (List.filterMap id)

/-- The dimension that the last resolved binding of a port names. -/
def boundTarget (owner : SourceDagId N) (ports : List (DimensionPortBinding N)) (port : N) :
    Option (ResolvedDimName N) :=
  ports.foldl (fun found binding =>
    match E.resolveDimension owner binding.target with
    | some target => if port = binding.port then some target else found
    | none => found) none

/-- A run evaluates the dimension in its default view. -/
def Yields (identity : ResolvedDimName N) (d : Dimension (BaseDimId N)) : Prop :=
  ∃ fuel visiting site, (E.run fuel).dimensionFrom visiting identity site = .ok d

end StaticDefinitionEvaluator

/-- What stands for the ports of a module, and for every other base. -/
structure Replacement (N W : Type) [LinearOrder N] where
  module : SourceDagId N
  bound : N → Option W
  outer : BaseDimId N → W

namespace Replacement

variable {W W' : Type} [AddCommGroup W] [Module ℚ W] [AddCommGroup W'] [Module ℚ W']

def base (R : Replacement N W) : BaseDimId N → W
  | .userDefined name =>
    if name.owner = R.module then (R.bound name.leaf).getD (R.outer (.userDefined name))
    else R.outer (.userDefined name)
  | .prelude dimension => R.outer (.prelude dimension)

/-- The replacement of the bases of a dimension. -/
noncomputable def apply (R : Replacement N W) : (BaseDimId N →₀ ℚ) →ₗ[ℚ] W :=
  Finsupp.linearCombination ℚ R.base

noncomputable def applyOuter (R : Replacement N W) : (BaseDimId N →₀ ℚ) →ₗ[ℚ] W :=
  Finsupp.linearCombination ℚ R.outer

/-- The replacement that an include of `R`'s module makes in its template. -/
def inner (R : Replacement N W) (template : SourceDagId N) (bound : N → Option W) :
    Replacement N W :=
  ⟨template, bound, R.base⟩

def map (f : W →ₗ[ℚ] W') (R : Replacement N W) : Replacement N W' :=
  ⟨R.module, fun name => (R.bound name).map f, fun base => f (R.outer base)⟩

omit [LinearOrder (BaseDimId N)] in
theorem base_map (f : W →ₗ[ℚ] W') (R : Replacement N W) (b : BaseDimId N) :
    (R.map f).base b = f (R.base b) := by
  cases b with
  | prelude dimension => rfl
  | userDefined name =>
    unfold base map
    dsimp only
    split_ifs
    · cases R.bound name.leaf <;> rfl
    · rfl

omit [LinearOrder (BaseDimId N)] in
theorem apply_map (f : W →ₗ[ℚ] W') (R : Replacement N W) (v : BaseDimId N →₀ ℚ) :
    (R.map f).apply v = f (R.apply v) := by
  rw [apply, apply, Finsupp.apply_linearCombination]
  congr 2
  funext b
  exact base_map f R b

omit [LinearOrder (BaseDimId N)] in
theorem applyOuter_map (f : W →ₗ[ℚ] W') (R : Replacement N W) (v : BaseDimId N →₀ ℚ) :
    (R.map f).applyOuter v = f (R.applyOuter v) := by
  rw [applyOuter, applyOuter, Finsupp.apply_linearCombination]
  rfl

end Replacement

/-! ## Meanings -/

section Evaluates

variable {W W' : Type} [AddCommGroup W] [Module ℚ W] [AddCommGroup W'] [Module ℚ W']

/-- A dimension's value where `R` replaces the ports of its module. -/
inductive Evaluates (E : StaticDefinitionEvaluator N)
    (onDefault : Replacement N W → ResolvedDimName N → W → W) :
    Replacement N W → ResolvedDimName N → W → Prop
  | other {R : Replacement N W} {identity : ResolvedDimName N} {d : Dimension (BaseDimId N)}
      (howner : identity.owner = R.module → E.definition identity = .plain)
      (hyields : E.Yields identity d) : Evaluates E onDefault R identity (R.apply d.toFinsupp)
  | projected {R : Replacement N W} {identity : ResolvedDimName N} {w : W}
      {projection : DimensionProjection N} (values : ResolvedDimName N → W)
      (howner : identity.owner = R.module)
      (hdefinition : E.definition identity = .projected projection)
      (htargets : ∀ port target,
        E.boundTarget identity.owner projection.ports port = some target →
        Evaluates E onDefault R target (values target))
      (htemplate : Evaluates E onDefault
        (R.inner projection.projection.template.owner fun port =>
          (E.boundTarget identity.owner projection.ports port).map values)
        projection.projection.template w) : Evaluates E onDefault R identity w
  | bound {R : Replacement N W} {identity : ResolvedDimName N} {w : W} {default : DimExpr N}
      (howner : identity.owner = R.module) (hdefinition : E.definition identity = .port default)
      (hbound : R.bound identity.leaf = some w) : Evaluates E onDefault R identity w
  | default {R : Replacement N W} {identity : ResolvedDimName N} {default : DimExpr N}
      {terms : List (ResolvedDimName N × ℚ)} (values : ResolvedDimName N → W)
      (howner : identity.owner = R.module) (hdefinition : E.definition identity = .port default)
      (hunbound : R.bound identity.leaf = none)
      (hterms : E.terms identity.owner default = some terms)
      (hvalues : ∀ term ∈ terms, Evaluates E onDefault R term.1 (values term.1)) :
      Evaluates E onDefault R identity
        (onDefault R identity (terms.map fun term => term.2 • values term.1).sum)
  | derived {R : Replacement N W} {identity : ResolvedDimName N} {definition : DimExpr N}
      {terms : List (ResolvedDimName N × ℚ)} (values : ResolvedDimName N → W)
      (howner : identity.owner = R.module)
      (hdefinition : E.definition identity = .derived definition)
      (hterms : E.terms identity.owner definition = some terms)
      (hvalues : ∀ term ∈ terms, Evaluates E onDefault R term.1 (values term.1)) :
      Evaluates E onDefault R identity (terms.map fun term => term.2 • values term.1).sum

variable {E : StaticDefinitionEvaluator N}

/-- A linear map that respects the defaults carries values over. -/
theorem Evaluates.map {onDefault : Replacement N W → ResolvedDimName N → W → W}
    {onDefault' : Replacement N W' → ResolvedDimName N → W' → W'} (f : W →ₗ[ℚ] W')
    (hdefault : ∀ R identity w, onDefault' (R.map f) identity (f w) = f (onDefault R identity w))
    {R : Replacement N W} {identity : ResolvedDimName N} {w : W}
    (h : Evaluates E onDefault R identity w) : Evaluates E onDefault' (R.map f) identity (f w) := by
  have hsum : ∀ (terms : List (ResolvedDimName N × ℚ)) (values : ResolvedDimName N → W),
      f (terms.map fun term => term.2 • values term.1).sum =
        (terms.map fun term => term.2 • f (values term.1)).sum := by
    intro terms values
    rw [map_list_sum, List.map_map]
    congr 1
    exact List.map_congr_left fun term _ => map_smul f term.2 (values term.1)
  induction h with
  | @other R identity d howner hyields =>
    rw [← R.apply_map]
    exact .other howner hyields
  | @projected R identity w projection values howner hdefinition _ _ ihtargets ihtemplate =>
    refine .projected (fun target => f (values target)) howner hdefinition ihtargets ?_
    have hinner : (R.inner projection.projection.template.owner fun port =>
        (E.boundTarget identity.owner projection.ports port).map values).map f =
        (R.map f).inner projection.projection.template.owner fun port =>
          (E.boundTarget identity.owner projection.ports port).map fun target => f (values target) := by
      simp only [Replacement.inner, Replacement.map, Replacement.mk.injEq, Option.map_map,
        true_and]
      refine ⟨rfl, ?_⟩
      funext b
      exact (R.base_map f b).symm
    rwa [hinner] at ihtemplate
  | bound howner hdefinition hbound =>
    exact .bound howner hdefinition (congrArg (Option.map f) hbound)
  | default values howner hdefinition hunbound hterms _ ih =>
    rw [← hdefault, hsum]
    exact .default (fun term => f (values term)) howner hdefinition
      (congrArg (Option.map f) hunbound) hterms ih
  | derived values howner hdefinition hterms _ ih =>
    rw [hsum]
    exact .derived (fun term => f (values term)) howner hdefinition hterms ih

end Evaluates

end ProvenGraphcal.Static
