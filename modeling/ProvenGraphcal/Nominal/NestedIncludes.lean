import ProvenGraphcal.Nominal.NestedSpecialization

/-!
# Nested includes and one flattened include

A template is specialized from the view in which the ports that its include binds are bases. The
include inside it is specialized by its targets, with each bound port among them replaced; what a
target is defined over is not.
-/

namespace ProvenGraphcal.Nominal

open Dimension (checkedMul_eq_ok pow_eq_ok toFinsupp_base)
open Option (bind_some getD_none getD_some map_none)

variable {P B N E : Type} [LinearOrder P] [LinearOrder B] [DecidableEq N]

/-- The dimensions of a project, and those whose value differs if the defaulted bindable ports of
their module are kept as bases. -/
structure ProjectDimensions (B N : Type) [LinearOrder B] where
  names : BaseNames B N
  dimensions : List (N × Dimension B)
  portGenericDimensions : List (N × Dimension B)
  rigidPorts : List N

namespace ProjectDimensions

def getDimension (types : ProjectDimensions B N) (name : N) : Option (Dimension B) :=
  types.dimensions.lookup name

def isDefaultedDimensionPort (types : ProjectDimensions B N) (identity : N) : Bool :=
  types.portGenericDimensions.lookup identity = some (.base (types.names.base identity))

def boundDefaultedDimensionPorts (types : ProjectDimensions B N)
    (substitution : StaticSubstitution N) : List N :=
  (substitution.dimensions.map Prod.fst).filter types.isDefaultedDimensionPort

/-- What stands for a base of a port-generic value if the ports `rigid` are kept. -/
def rigidBase (types : ProjectDimensions B N) (rigid : List N) (base : B) : Dimension B :=
  match types.names.userDefined base with
  | some port =>
    if types.isDefaultedDimensionPort port && port ∉ rigid then
      (types.getDimension port).getD (.base base)
    else .base base
  | none => .base base

def rigidFactor (types : ProjectDimensions B N) (rigid : List N) (acc : Dimension B)
    (factor : B × Rational) : Except RatioError (Dimension B) := do
  acc.checkedMul (← (types.rigidBase rigid factor.1).pow factor.2)

def rigidValue (types : ProjectDimensions B N) (rigid : List N) (generic : Dimension B) :
    Except RatioError (Dimension B) :=
  generic.exponents.factors.entries.foldlM (types.rigidFactor rigid) .dimensionless

/-- The view in which `ports` and the ports that are rigid already stay bases. -/
def withRigidDimensions (types : ProjectDimensions B N) (ports : List N) :
    Except RatioError (ProjectDimensions B N) := do
  let rigid := types.rigidPorts ++ ports
  let values ← types.portGenericDimensions.mapM fun e => do
    return (e.1, ← types.rigidValue rigid e.2)
  return { types with rigidPorts := rigid, dimensions := values ++ types.dimensions }

/-- A dimension that an include may bind: a required port, which is its own base, or a defaulted
one. -/
def IsPort (types : ProjectDimensions B N) (name : N) : Prop :=
  types.isDefaultedDimensionPort name = true ∨
    types.portGenericDimensions.lookup name = none ∧
      types.getDimension name = some (.base (types.names.base name))

/-- What evaluation leaves: no port is rigid, a port-generic value with every port at its default
is the value, and no value has a defaulted port as a base. -/
structure Evaluated (types : ProjectDimensions B N) : Prop where
  rigidPorts : types.rigidPorts = []
  default : ∀ name generic, types.portGenericDimensions.lookup name = some generic →
    ∃ value, types.getDimension name = some value ∧ types.rigidValue [] generic = .ok value
  closed : ∀ name value, types.getDimension name = some value →
    ∀ port, types.isDefaultedDimensionPort port = true →
      value.toFinsupp (types.names.base port) = 0

end ProjectDimensions

def composeIndexTarget (substitution : StaticSubstitution N) :
    IndexBindingTarget N → IndexBindingTarget N
  | .declared source => (substitution.indexes.lookup source).getD (.declared source)
  | .finite index => .finite index

/-- The substitution of an include inside a template, under the include of the template. -/
def composeTargets (substitution nested : StaticSubstitution N) : StaticSubstitution N where
  indexes := nested.indexes.map fun e => (e.1, composeIndexTarget substitution e.2)
  types := nested.types.map fun e => (e.1, (substitution.types.lookup e.2).getD e.2)
  dimensions := nested.dimensions.map fun e => (e.1, (substitution.dimensions.lookup e.2).getD e.2)

theorem lookup_map_target {V W : Type} (f : V → W) (table : List (N × V)) (key : N) :
    (table.map fun e => (e.1, f e.2)).lookup key = (table.lookup key).map f := by
  induction table with
  | nil => rfl
  | cons e rest ih =>
    rw [List.map_cons, List.lookup_cons, List.lookup_cons]
    cases key == e.1 with
    | true => rfl
    | false => exact ih

variable {complete : CompleteSubstitution B N} {substitution : StaticSubstitution N}

/-- A complete substitution has the definition of every target. -/
theorem lookup_tryNew {getDimension : N → Option (Dimension B)}
    (h : CompleteSubstitution.tryNew substitution getDimension =
      (.ok complete : Except (NominalError P B N E) _)) (port : N) :
    complete.dimensions.lookup port =
        (substitution.dimensions.lookup port).bind getDimension ∧
      ∀ target, substitution.dimensions.lookup port = some target →
        (getDimension target).isSome := by
  obtain ⟨dimensions, hdimensions, rfl⟩ := Checked.bind_pure_eq_ok.mp h
  rw [Checked.mapM_eq_ok] at hdimensions
  generalize substitution.dimensions = bindings at hdimensions
  clear h
  induction hdimensions with
  | nil => exact ⟨rfl, fun target htarget => nomatch htarget⟩
  | @cons binding entry rest entries hentry hrest ih =>
    cases hget : getDimension binding.2 with
    | none =>
      rw [hget] at hentry
      cases hentry
    | some dimension =>
      rw [hget] at hentry
      cases hentry
      rw [List.lookup_cons, List.lookup_cons]
      cases port == binding.1 with
      | true =>
        refine ⟨hget.symm, fun target htarget => ?_⟩
        cases htarget
        rw [hget]
        rfl
      | false => exact ih

/-! ## The rigid view -/

variable {b : B} {definition : Dimension B} {ports rigid : List N} {name port target : N}
variable {types : ProjectDimensions B N}

namespace ProjectDimensions

theorem toFinsupp_rigidValue {generic result : Dimension B}
    (h : types.rigidValue rigid generic = .ok result) :
    result.toFinsupp = Finsupp.linearCombination ℚ
      (fun b => (types.rigidBase rigid b).toFinsupp) generic.toFinsupp :=
  toFinsupp_replaceBases h

/-- The view has the port-generic values with the rigid ports kept, and the other dimensions. -/
theorem lookup_withRigidDimensions {view : ProjectDimensions B N}
    (h : types.withRigidDimensions ports = .ok view) (name : N) :
    (∀ generic, types.portGenericDimensions.lookup name = some generic →
      ∃ value, types.rigidValue (types.rigidPorts ++ ports) generic = .ok value ∧
        view.getDimension name = some value) ∧
    (types.portGenericDimensions.lookup name = none →
      view.getDimension name = types.getDimension name) := by
  obtain ⟨values, hvalues, rfl⟩ := Checked.bind_pure_eq_ok.mp h
  rw [Checked.mapM_eq_ok] at hvalues
  unfold getDimension
  generalize types.portGenericDimensions = table at hvalues
  clear h
  induction hvalues with
  | nil => exact ⟨fun generic hgeneric => (nomatch hgeneric), fun _ => rfl⟩
  | @cons e value rest values hvalue hrest ih =>
    obtain ⟨computed, hcomputed, rfl⟩ := Checked.bind_pure_eq_ok.mp hvalue
    rw [List.cons_append, List.lookup_cons, List.lookup_cons]
    cases name == e.1 with
    | true =>
      refine ⟨fun generic hgeneric => ?_, nofun⟩
      cases hgeneric
      exact ⟨computed, hcomputed, rfl⟩
    | false => exact ih

/-- What evaluation puts in place of a base: the value of a defaulted port, or the base itself. -/
noncomputable def defaultBase (types : ProjectDimensions B N) (b : B) : B →₀ ℚ :=
  (types.rigidBase [] b).toFinsupp

theorem rigidBase_eq_base (h : ∀ port, types.names.userDefined b = some port →
      types.isDefaultedDimensionPort port = true → port ∈ rigid) :
    types.rigidBase rigid b = .base b := by
  unfold rigidBase
  cases hport : types.names.userDefined b with
  | none => rfl
  | some port =>
    dsimp only
    rw [if_neg]
    intro hboth
    rw [Bool.and_eq_true, decide_eq_true_eq] at hboth
    exact hboth.2 (h port hport hboth.1)

/-- The dimensions of the project are those with every port at its default. -/
theorem Evaluated.linearCombination_defaultBase (h : types.Evaluated) {value : Dimension B}
    (hvalue : types.getDimension name = some value) :
    Finsupp.linearCombination ℚ types.defaultBase value.toFinsupp = value.toFinsupp := by
  rw [Finsupp.linearCombination_apply]
  conv_rhs => rw [← Finsupp.sum_single value.toFinsupp]
  apply Finsupp.sum_congr
  intro b hb
  have hbase : types.rigidBase [] b = .base b := by
    apply rigidBase_eq_base
    intro port hport hdefaulted
    rw [types.names.userDefined_eq] at hport
    have hzero := h.closed name value hvalue port hdefaulted
    rw [← hport] at hzero
    exact absurd hzero (Finsupp.mem_support_iff.mp hb)
  rw [defaultBase, hbase, toFinsupp_base, Finsupp.smul_single, smul_eq_mul, mul_one]

theorem Evaluated.linearCombination_rigidBase (h : types.Evaluated) (rigid : List N) (b : B) :
    Finsupp.linearCombination ℚ types.defaultBase (types.rigidBase rigid b).toFinsupp =
      types.defaultBase b := by
  by_cases hkept : types.rigidBase rigid b = .base b
  · rw [hkept, toFinsupp_base, Finsupp.linearCombination_single, one_smul]
  · -- the port is not kept, so its value stands for it in either view
    unfold rigidBase at hkept
    cases hport : types.names.userDefined b with
    | none =>
      rw [hport] at hkept
      exact absurd rfl hkept
    | some port =>
      rw [hport] at hkept
      dsimp only at hkept
      split at hkept
      · rename_i hboth
        rw [Bool.and_eq_true, decide_eq_true_eq] at hboth
        cases hvalue : types.getDimension port with
        | none =>
          rw [hvalue] at hkept
          exact absurd rfl hkept
        | some value =>
          have hrigid : types.rigidBase rigid b = value := by
            unfold rigidBase
            rw [hport]
            dsimp only
            rw [if_pos (by rw [Bool.and_eq_true, decide_eq_true_eq]; exact hboth), hvalue]
            rfl
          have hdefault : types.rigidBase [] b = value := by
            unfold rigidBase
            rw [hport]
            dsimp only
            rw [if_pos (by rw [Bool.and_eq_true, decide_eq_true_eq]; exact ⟨hboth.1, nofun⟩),
              hvalue]
            rfl
          rw [hrigid, h.linearCombination_defaultBase hvalue, defaultBase, hdefault]
      · exact absurd rfl hkept

/-- A dimension of the project is its definition in the view with the ports at their defaults. -/
theorem Evaluated.toFinsupp_eq {view : ProjectDimensions B N} (h : types.Evaluated)
    (hview : types.withRigidDimensions ports = .ok view)
    (hdefinition : view.getDimension name = some definition) :
    ∃ value, types.getDimension name = some value ∧
      value.toFinsupp = Finsupp.linearCombination ℚ types.defaultBase definition.toFinsupp := by
  have hlookup := lookup_withRigidDimensions hview name
  cases hgeneric : types.portGenericDimensions.lookup name with
  | none =>
    rw [hlookup.2 hgeneric] at hdefinition
    exact ⟨definition, hdefinition, (h.linearCombination_defaultBase hdefinition).symm⟩
  | some generic =>
    obtain ⟨kept, hkept, hget⟩ := hlookup.1 generic hgeneric
    rw [hget] at hdefinition
    cases hdefinition
    obtain ⟨value, hvalue, hdefault⟩ := h.default name generic hgeneric
    refine ⟨value, hvalue, ?_⟩
    rw [toFinsupp_rigidValue hdefault, toFinsupp_rigidValue hkept, Finsupp.apply_linearCombination]
    congr 2
    funext b
    exact (h.linearCombination_rigidBase _ b).symm

/-- A port that is bound is a base of the view. -/
theorem IsPort.getDimension_view {view : ProjectDimensions B N} (h : types.IsPort port)
    (hbound : substitution.dimensions.lookup port = some target)
    (hview : types.withRigidDimensions (types.boundDefaultedDimensionPorts substitution) = .ok view) :
    view.getDimension port = some (.base (types.names.base port)) := by
  have hlookup := lookup_withRigidDimensions hview port
  cases h with
  | inr hrequired => rw [hlookup.2 hrequired.1, hrequired.2]
  | inl hdefaulted =>
    have hgeneric : types.portGenericDimensions.lookup port =
        some (.base (types.names.base port)) := of_decide_eq_true hdefaulted
    obtain ⟨value, hvalue, hget⟩ := hlookup.1 _ hgeneric
    have hrigid : types.rigidBase (types.rigidPorts ++
        types.boundDefaultedDimensionPorts substitution) (types.names.base port) =
          .base (types.names.base port) := by
      apply rigidBase_eq_base
      intro other hother _
      rw [types.names.userDefined_eq] at hother
      have hsame : port = other := by
        have hport := (types.names.userDefined_eq _ port).mpr rfl
        rw [(types.names.userDefined_eq _ other).mpr hother] at hport
        exact (Option.some.inj hport).symm
      obtain ⟨before, after, hentries, _⟩ := List.lookup_eq_some_iff.mp hbound
      refine List.mem_append_right _ (List.mem_filter.mpr ⟨?_, hsame ▸ hdefaulted⟩)
      rw [hentries, List.map_append]
      exact List.mem_append_right _ (hsame ▸ List.mem_cons_self)
    rw [hget]
    congr 1
    apply Dimension.eq_of_toFinsupp
    rw [toFinsupp_rigidValue hvalue, toFinsupp_base, Finsupp.linearCombination_single,
      one_smul, hrigid, toFinsupp_base]

end ProjectDimensions

/-! ## One include inside another -/

/-- An include `inner` inside the template of an include `outer`: the view that the template is
specialized from, and the completed substitutions of the nested include in it, of the enclosing
include, and of the flattened one. -/
structure NestedInclude (P E : Type) [LinearOrder P] (store : ProjectDimensions B N)
    (outer inner : StaticSubstitution N) where
  view : ProjectDimensions B N
  first : CompleteSubstitution B N
  second : CompleteSubstitution B N
  composed : CompleteSubstitution B N
  evaluated : store.Evaluated
  binds : ∀ port target, outer.dimensions.lookup port = some target → store.IsPort port
  view_eq : store.withRigidDimensions (store.boundDefaultedDimensionPorts outer) = .ok view
  first_eq : CompleteSubstitution.tryNew inner view.getDimension =
    (.ok first : Except (NominalError P B N E) _)
  second_eq : CompleteSubstitution.tryNew outer store.getDimension =
    (.ok second : Except (NominalError P B N E) _)
  composed_eq : CompleteSubstitution.tryNew (composeTargets outer inner) store.getDimension =
    (.ok composed : Except (NominalError P B N E) _)
  /-- No definition of a target overflows under the enclosing include. -/
  fits : ∀ port target definition, inner.dimensions.lookup port = some target →
    view.getDimension target = some definition →
    ∃ result, specializeDimension store.names.userDefined second definition =
      (.ok result : Except (NominalError P B N E) _)

/-- Specialized by one substitution after another, or by the composed one, a type is the same. -/
def TypesAgree (P E : Type) [LinearOrder P] (userDefined : B → Option N)
    (first second composed : CompleteSubstitution B N)
    (within : ResolvedDeclType P B N → Prop) : Prop :=
  ∀ declType once twice direct : ResolvedDeclType P B N, within declType →
    specializeType userDefined first declType =
      (.ok once : Except (NominalError P B N E) _) →
    specializeType userDefined second once =
      (.ok twice : Except (NominalError P B N E) _) →
    specializeType userDefined composed declType =
      (.ok direct : Except (NominalError P B N E) _) → direct = twice

/-- The enclosing include binds the name only if the nested one does. -/
def OwnName {V W : Type} (inner : List (N × V)) (outer : List (N × W)) (name : N) : Prop :=
  inner.lookup name = none → outer.lookup name = none

variable {userDefined : B → Option N}

namespace NestedInclude

variable {store : ProjectDimensions B N} {outer inner : StaticSubstitution N}

def OwnBase (_ : NestedInclude P E store outer inner) (b : B) : Prop :=
  ∀ name, store.names.userDefined b = some name →
    OwnName inner.dimensions outer.dimensions name

/-- The type has no name of the enclosing template. -/
def OwnType (h : NestedInclude P E store outer inner) : ResolvedDeclType P B N → Prop :=
  declWithin h.OwnBase (OwnName inner.indexes outer.indexes) (OwnName inner.types outer.types)

/-- The enclosing include binds the target itself, or leaves its definition at the value that the
defaults of the ports give. -/
def Kept (h : NestedInclude P E store outer inner) (target : N) : Prop :=
  (outer.dimensions.lookup target).isSome ∨
    ∀ definition, h.view.getDimension target = some definition →
      Finsupp.linearCombination ℚ (replacement store.names.userDefined h.second)
          definition.toFinsupp =
        Finsupp.linearCombination ℚ store.defaultBase definition.toFinsupp

section

variable (h : NestedInclude P E store outer inner)

include h

/-- What the flattened include puts in place of a base that the nested one leaves. -/
theorem replacement_unbound (hown : h.OwnBase b)
    (hfree : Unbound store.names.userDefined h.first b) :
    replacement store.names.userDefined h.composed b =
      Finsupp.linearCombination ℚ (replacement store.names.userDefined h.second)
        (replacement store.names.userDefined h.first b) := by
  rw [replacement_of_unbound hfree, Finsupp.linearCombination_single, one_smul]
  unfold replacement
  unfold Unbound at hfree
  cases hname : store.names.userDefined b with
  | none => rfl
  | some name =>
    rw [hname, bind_some] at hfree
    have hinner : inner.dimensions.lookup name = none := by
      cases hlookup : inner.dimensions.lookup name with
      | none => rfl
      | some target =>
        obtain ⟨hfirst, hdefined⟩ := lookup_tryNew h.first_eq name
        rw [hfree, hlookup, bind_some] at hfirst
        have hsome := hdefined target hlookup
        rw [← hfirst] at hsome
        cases hsome
    have hcomposed : h.composed.dimensions.lookup name = none := by
      rw [(lookup_tryNew h.composed_eq name).1]
      show ((inner.dimensions.map _).lookup name).bind _ = none
      rw [lookup_map_target (fun target => (outer.dimensions.lookup target).getD target), hinner]
      rfl
    have hsecond : h.second.dimensions.lookup name = none := by
      rw [(lookup_tryNew h.second_eq name).1, hown name hname hinner]
      rfl
    dsimp only [bind_some]
    rw [hcomposed, hsecond]

/-- What stands for a bound port, in the view and in the flattened include. -/
theorem replacement_bound (htarget : inner.dimensions.lookup port = some target) :
    ∃ definition value, h.view.getDimension target = some definition ∧
      store.getDimension ((outer.dimensions.lookup target).getD target) = some value ∧
      h.first.dimensions.lookup port = some definition ∧
      h.composed.dimensions.lookup port = some value := by
  obtain ⟨hfirst, hdefined⟩ := lookup_tryNew h.first_eq port
  obtain ⟨definition, hdefinition⟩ := Option.isSome_iff_exists.mp (hdefined target htarget)
  have hlookup : (composeTargets outer inner).dimensions.lookup port =
      some ((outer.dimensions.lookup target).getD target) := by
    show (inner.dimensions.map _).lookup port = _
    rw [lookup_map_target (fun target => (outer.dimensions.lookup target).getD target), htarget]
    rfl
  obtain ⟨hcomposed, hcomposedDefined⟩ := lookup_tryNew h.composed_eq port
  obtain ⟨value, hvalue⟩ := Option.isSome_iff_exists.mp (hcomposedDefined _ hlookup)
  refine ⟨definition, value, hdefinition, hvalue, ?_, ?_⟩
  · rw [hfirst, htarget, bind_some, hdefinition]
  · rw [hcomposed, hlookup, bind_some, hvalue]

/-- A target is kept exactly if the flattened include puts in place of it what the two put. -/
theorem kept_iff {value : Dimension B} (hdefinition : h.view.getDimension target = some definition)
    (hvalue : store.getDimension ((outer.dimensions.lookup target).getD target) = some value) :
    h.Kept target ↔ value.toFinsupp =
      Finsupp.linearCombination ℚ (replacement store.names.userDefined h.second)
        definition.toFinsupp := by
  cases houter : outer.dimensions.lookup target with
  | some source =>
    -- a bound port of the template is a base of the view
    have hview := (h.binds target source houter).getDimension_view houter h.view_eq
    rw [hview] at hdefinition
    cases hdefinition
    rw [houter, getD_some] at hvalue
    refine iff_of_true (Or.inl (by rw [houter]; rfl)) ?_
    rw [toFinsupp_base, Finsupp.linearCombination_single, one_smul, replacement,
      (store.names.userDefined_eq _ target).mpr rfl, bind_some,
      (lookup_tryNew h.second_eq target).1, houter, bind_some, hvalue, getD_some]
  | none =>
    rw [houter, getD_none] at hvalue
    obtain ⟨stored, hstored, hdefault⟩ := h.evaluated.toFinsupp_eq h.view_eq hdefinition
    rw [hvalue] at hstored
    cases hstored
    rw [hdefault]
    constructor
    · intro hkept
      cases hkept with
      | inl hbound =>
        rw [houter] at hbound
        cases hbound
      | inr hsame => exact (hsame definition hdefinition).symm
    · intro hsame
      refine Or.inr fun other hother => ?_
      rw [hdefinition] at hother
      cases hother
      exact hsame.symm

/-- If every target is kept, the flattened include is the enclosing one after the nested one. -/
theorem composes
    (hkept : ∀ port target, inner.dimensions.lookup port = some target → h.Kept target) :
    Composes (P := P) store.names.userDefined h.first h.second h.composed h.OwnBase
      (OwnName inner.indexes outer.indexes) (OwnName inner.types outer.types) where
  base b hown := by
    by_cases hfree : Unbound store.names.userDefined h.first b
    · exact h.replacement_unbound hown hfree
    · cases hname : store.names.userDefined b with
      | none =>
        refine absurd ?_ hfree
        rw [Unbound, hname]
        rfl
      | some port =>
        cases htarget : inner.dimensions.lookup port with
        | none =>
          refine absurd ?_ hfree
          rw [Unbound, hname, bind_some, (lookup_tryNew h.first_eq port).1, htarget]
          rfl
        | some target =>
          obtain ⟨definition, value, hdefinition, hvalue, hfirst, hcomposed⟩ :=
            h.replacement_bound htarget
          have hsame := (h.kept_iff hdefinition hvalue).mp (hkept port target htarget)
          rw [replacement, replacement, hname, bind_some, bind_some, hfirst,
            hcomposed, getD_some, getD_some, hsame]
  index name span hown := by
    have hfirst := tryNew_substitution h.first_eq
    have hsecond := tryNew_substitution h.second_eq
    have hcomposed := tryNew_substitution h.composed_eq
    unfold specializeIndex
    rw [hcomposed, hfirst]
    have hlookup : (composeTargets outer inner).indexes.lookup name =
        (inner.indexes.lookup name).map (composeIndexTarget outer) :=
      lookup_map_target (composeIndexTarget outer) inner.indexes name
    dsimp only
    rw [hlookup]
    cases htarget : inner.indexes.lookup name with
    | none =>
      dsimp only [map_none]
      rw [hsecond, hown htarget]
    | some target =>
      cases target with
      | finite index => rfl
      | declared source =>
        dsimp only [Option.map_some, composeIndexTarget]
        rw [hsecond]
        cases outer.indexes.lookup source with
        | none => rfl
        | some target => cases target <;> rfl
  type name hown := by
    rw [tryNew_substitution h.first_eq, tryNew_substitution h.second_eq,
      tryNew_substitution h.composed_eq]
    show ((inner.types.map _).lookup name).getD name = _
    rw [lookup_map_target (fun target => (outer.types.lookup target).getD target)]
    cases htarget : inner.types.lookup name with
    | none =>
      rw [map_none, getD_none, hown htarget]
      rfl
    | some target => rfl

end

theorem specializeType_quantity {d result : Dimension B}
    (h : specializeDimension userDefined complete d =
      (.ok result : Except (NominalError P B N E) _)) :
    specializeType userDefined complete (.value (.quantity (.concrete d))) =
      (.ok (.value (.quantity (.concrete result))) : Except (NominalError P B N E) _) := by
  simp only [specializeType, specializeValueType, specializeDimArg, h]
  rfl

/-- A bound port's own type is the target's definition. -/
theorem specializeType_port (hname : userDefined b = some port)
    (hlookup : complete.dimensions.lookup port = some definition) :
    specializeType userDefined complete (.value (.quantity (.concrete (.base b)))) =
      (.ok (.value (.quantity (.concrete definition))) : Except (NominalError P B N E) _) := by
  have hpow : definition.pow .one = .ok definition := by
    rw [pow_eq_ok, Ratio.value_one, one_smul]
  have hmul : Dimension.dimensionless.checkedMul definition = .ok definition := by
    rw [checkedMul_eq_ok, Dimension.toFinsupp_dimensionless, zero_add]
  have hstep : specializeFactor userDefined complete .dimensionless (b, .one) = .ok definition := by
    unfold specializeFactor
    dsimp only
    rw [hname, bind_some, hlookup, getD_some, hpow]
    exact hmul
  have hdimension : specializeDimension userDefined complete (.base b) =
      (.ok definition : Except (NominalError P B N E) _) := by
    have hentries : (Dimension.base b).exponents.factors.entries = [(b, Ratio.one)] := rfl
    refine Checked.mapError_eq_ok.mpr ?_
    rw [hentries, List.foldlM_cons, hstep]
    rfl
  exact specializeType_quantity hdimension

/-- The nested includes give the types of the flattened one exactly if every target is kept. -/
theorem types_agree_iff (h : NestedInclude P E store outer inner) :
    TypesAgree P E store.names.userDefined h.first h.second h.composed h.OwnType ↔
      ∀ port target, inner.dimensions.lookup port = some target → h.Kept target := by
  constructor
  · -- the type that is the port itself
    intro hagree port target htarget
    obtain ⟨definition, value, hdefinition, hvalue, hfirst, hcomposed⟩ :=
      h.replacement_bound htarget
    have hname := (store.names.userDefined_eq _ port).mpr rfl
    obtain ⟨result, hresult⟩ := h.fits port target definition htarget hdefinition
    rw [h.kept_iff hdefinition hvalue, ← toFinsupp_specializeDimension hresult]
    have hown : h.OwnType (.value (.quantity (.concrete (.base (store.names.base port))))) := by
      show ∀ b, _ → h.OwnBase b
      intro b hb name hbase hfree
      rw [toFinsupp_base] at hb
      have hsame := Finsupp.single_apply_ne_zero.mp hb
      rw [hsame.1, hname] at hbase
      cases hbase
      rw [htarget] at hfree
      cases hfree
    have hsame := hagree _ _ _ _ hown (specializeType_port hname hfirst)
      (specializeType_quantity hresult)
      (specializeType_port hname hcomposed)
    cases hsame
    rfl
  · intro hkept declType once twice direct hown honce htwice hdirect
    exact (h.composes hkept).specializeType hown honce htwice hdirect

end NestedInclude

/-- Products, powers and dimensions without bound bases are kept. -/
structure KeepsDimensionLaws (P E : Type) [LinearOrder P] (userDefined : B → Option N)
    (complete : CompleteSubstitution B N) : Prop where
  mul : ∀ a b product a' b' product' result : Dimension B, a.checkedMul b = .ok product →
    specializeDimension userDefined complete a = (.ok a' : Except (NominalError P B N E) _) →
    specializeDimension userDefined complete b = (.ok b' : Except (NominalError P B N E) _) →
    specializeDimension userDefined complete product =
      (.ok result : Except (NominalError P B N E) _) →
    a'.checkedMul b' = .ok product' → result = product'
  pow : ∀ (a power a' power' result : Dimension B) (exponent : Rational),
    a.pow exponent = .ok power →
    specializeDimension userDefined complete a = (.ok a' : Except (NominalError P B N E) _) →
    specializeDimension userDefined complete power =
      (.ok result : Except (NominalError P B N E) _) →
    a'.pow exponent = .ok power' → result = power'
  unbound : ∀ d : Dimension B, (∀ b, d.toFinsupp b ≠ 0 → Unbound userDefined complete b) →
    specializeDimension userDefined complete d = (.ok d : Except (NominalError P B N E) _)

/-- Specialization keeps the laws of dimensions and composes, and a nested include gives the types
of the flattened one exactly if every target is kept. -/
theorem specialization_homomorphism {store : ProjectDimensions B N}
    {outer inner : StaticSubstitution N} (h : NestedInclude P E store outer inner) :
    (∀ (userDefined : B → Option N) (complete : CompleteSubstitution B N),
      KeepsDimensionLaws P E userDefined complete) ∧
    (∀ (userDefined : B → Option N) (first second composed : CompleteSubstitution B N)
      (okBase : B → Prop) (okIndex okType : N → Prop),
      Composes (P := P) userDefined first second composed okBase okIndex okType →
      TypesAgree P E userDefined first second composed (declWithin okBase okIndex okType)) ∧
    (TypesAgree P E store.names.userDefined h.first h.second h.composed h.OwnType ↔
      ∀ port target, inner.dimensions.lookup port = some target → h.Kept target) :=
  ⟨fun _ _ => {
      mul := fun _ _ _ _ _ _ _ hproduct ha hb hresult hproduct' =>
        specializeDimension_mul hproduct ha hb hresult hproduct'
      pow := fun _ _ _ _ _ _ hpower ha hresult hpower' =>
        specializeDimension_pow hpower ha hresult hpower'
      unbound := fun _ hfree => specializeDimension_unbound hfree },
    fun _ _ _ _ _ _ _ hcomposes _ _ _ _ hok honce htwice hdirect =>
      hcomposes.specializeType hok honce htwice hdirect,
    h.types_agree_iff⟩

namespace NestedRate

inductive Name
  | time
  | length
  | mass
  | port
  | quantity
  | rate
  deriving DecidableEq

instance : LinearOrder Name :=
  LinearOrder.lift' Name.ctorIdx fun a b h => by
    cases a <;> cases b <;> first | rfl | exact absurd h (by decide)

/-- A base dimension of the prelude, or one that users define. -/
abbrev Base := Bool ×ₗ Name

def prelude (name : Name) : Base := toLex (false, name)

def names : BaseNames Base Name where
  userDefined b := if (ofLex b).1 then some (ofLex b).2 else none
  base name := toLex (true, name)
  userDefined_eq b name := by
    cases hb : ofLex b with
    | mk defined other =>
      have hlex : b = toLex (defined, other) := congrArg toLex hb
      cases defined with
      | false => exact iff_of_false nofun fun h => nomatch hlex.symm.trans h
      | true =>
        rw [hlex]
        constructor
        · intro h
          cases h
          rfl
        · intro h
          cases h
          rfl

def perTime (b : Base) : Dimension Base :=
  ((Dimension.base b).checkedDiv (.base (prelude .time))).toOption.getD .dimensionless

/-- `pub(bind) dim quantity = Length; dim rate = quantity / Time;` in the enclosing template, and
`pub(bind) dim port;` in the nested one. -/
def store : ProjectDimensions Base Name where
  names := names
  dimensions := [(.time, .base (prelude .time)), (.length, .base (prelude .length)),
    (.mass, .base (prelude .mass)), (.port, .base (names.base .port)),
    (.quantity, .base (prelude .length)), (.rate, perTime (prelude .length))]
  portGenericDimensions := [(.quantity, .base (names.base .quantity)),
    (.rate, perTime (names.base .quantity))]
  rigidPorts := []

/-- `include wrap(dim quantity: Mass);` -/
def outer : StaticSubstitution Name := ⟨[], [], [(.quantity, .mass)]⟩

/-- `include inner(dim port: rate);` -/
def inner : StaticSubstitution Name := ⟨[], [], [(.port, .rate)]⟩

theorem defaulted_eq {name : Name} (h : store.isDefaultedDimensionPort name = true) :
    name = .quantity := by
  cases name <;> first | rfl | exact absurd h (by decide)

theorem evaluated : store.Evaluated where
  rigidPorts := rfl
  default name generic h := by
    cases name <;> first | cases h; exact ⟨_, rfl, rfl⟩ | cases h
  closed name value h defaulted hdefaulted := by
    rw [defaulted_eq hdefaulted, Dimension.toFinsupp_apply]
    have hzero : (value.getExponent (store.names.base .quantity)) = .zero := by
      cases name <;> cases h <;> decide
    rw [hzero, Ratio.value_zero]

/-- The nested include under the enclosing one. -/
def nested : NestedInclude ℕ Unit store outer inner where
  -- the enclosing include binds `quantity`, so `rate` stays over it
  view := { store with
    rigidPorts := [.quantity]
    dimensions := store.portGenericDimensions ++ store.dimensions }
  first := ⟨inner, [(.port, perTime (names.base .quantity))]⟩
  second := ⟨outer, [(.quantity, .base (prelude .mass))]⟩
  composed := ⟨composeTargets outer inner, [(.port, perTime (prelude .length))]⟩
  evaluated := evaluated
  binds bound target h := by
    cases bound <;> first | exact Or.inl rfl | cases h
  view_eq := rfl
  first_eq := rfl
  second_eq := rfl
  composed_eq := rfl
  fits bound target definition htarget hdefinition := by
    cases bound <;> cases htarget
    cases hdefinition
    exact ⟨perTime (prelude .mass), rfl⟩

/-- The nested include turns a `port` into a rate, which the enclosing include turns into mass per
time; the flattened include makes it length per time. -/
theorem flattened_rate_keeps_length :
    nested.OwnType (.value (.quantity (.concrete (.base (names.base .port))))) ∧
    specializeType store.names.userDefined nested.first
        (.value (.quantity (.concrete (.base (names.base .port))))) =
      (.ok (.value (.quantity (.concrete (perTime (names.base .quantity))))) :
        Except (NominalError ℕ Base Name Unit) _) ∧
    specializeType store.names.userDefined nested.second
        (.value (.quantity (.concrete (perTime (names.base .quantity))))) =
      (.ok (.value (.quantity (.concrete (perTime (prelude .mass))))) :
        Except (NominalError ℕ Base Name Unit) _) ∧
    specializeType store.names.userDefined nested.composed
        (.value (.quantity (.concrete (.base (names.base .port))))) =
      (.ok (.value (.quantity (.concrete (perTime (prelude .length))))) :
        Except (NominalError ℕ Base Name Unit) _) ∧
    perTime (prelude .length) ≠ perTime (prelude .mass) := by
  refine ⟨?_, NestedInclude.specializeType_quantity rfl, NestedInclude.specializeType_quantity rfl,
    NestedInclude.specializeType_quantity rfl, by decide⟩
  show ∀ b, _ → nested.OwnBase b
  intro b hb name hbase hfree
  rw [toFinsupp_base] at hb
  rw [(Finsupp.single_apply_ne_zero.mp hb).1] at hbase
  cases hbase
  cases hfree

end NestedRate

end ProvenGraphcal.Nominal
