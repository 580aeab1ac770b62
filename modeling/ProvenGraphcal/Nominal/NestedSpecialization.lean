import Mathlib.LinearAlgebra.Finsupp.LinearCombination
import ProvenGraphcal.Nominal.Specialization

/-!
# Specialization is linear

A dimension is a combination of bases, and specialization replaces each base: products and powers
are kept, and so is composition.
-/

open ProvenGraphcal.Checked (bind_eq_ok bind_pure_eq_ok mapError_eq_ok mapM_eq_ok)
open ProvenGraphcal.Dimension (checkedMul_eq_ok eq_of_toFinsupp pow_eq_ok toFinsupp_base
  toFinsupp_eq_sum)

namespace ProvenGraphcal.Nominal

open Finsupp

variable {P B N E : Type} [LinearOrder P] [LinearOrder B] [DecidableEq N]

/-- Which bases users define, and under which name. -/
structure BaseNames (B N : Type) where
  userDefined : B → Option N
  base : N → B
  userDefined_eq : ∀ b name, userDefined b = some name ↔ b = base name

/-- What the substitution puts in place of a base, which is the base itself if it is not bound. -/
noncomputable def replacement (userDefined : B → Option N) (complete : CompleteSubstitution B N)
    (b : B) : B →₀ ℚ :=
  (((userDefined b).bind fun name => complete.dimensions.lookup name).getD (.base b)).toFinsupp

variable {userDefined : B → Option N} {complete : CompleteSubstitution B N}

theorem replacement_of_unbound {b : B}
    (h : (userDefined b).bind (fun name => complete.dimensions.lookup name) = none) :
    replacement userDefined complete b = single b 1 := by
  rw [replacement, h, Option.getD_none, toFinsupp_base]

/-- What puts something in place of each base is linear. -/
theorem toFinsupp_replaceBases {replace : B → Dimension B} {d result : Dimension B}
    (h : d.exponents.factors.entries.foldlM (fun (acc : Dimension B) factor => do
      acc.checkedMul (← (replace factor.1).pow factor.2)) Dimension.dimensionless = .ok result) :
    result.toFinsupp = linearCombination ℚ (fun b => (replace b).toFinsupp) d.toFinsupp := by
  rw [Dimension.toFinsupp_foldlM_mul_pow h, Dimension.toFinsupp_dimensionless, zero_add,
    toFinsupp_eq_sum d, map_list_sum, List.map_map]
  congr 1
  apply List.map_congr_left
  intro factor _
  rw [Function.comp_apply, linearCombination_single]

/-- Specialization replaces each base of the combination. -/
theorem toFinsupp_specializeDimension {d result : Dimension B}
    (h : specializeDimension userDefined complete d =
      (.ok result : Except (NominalError P B N E) _)) :
    result.toFinsupp =
      linearCombination ℚ (replacement userDefined complete) d.toFinsupp :=
  toFinsupp_replaceBases (mapError_eq_ok.mp h)

/-- Products are kept. -/
theorem specializeDimension_mul {a b product a' b' product' result : Dimension B}
    (hproduct : a.checkedMul b = .ok product)
    (ha : specializeDimension userDefined complete a = (.ok a' : Except (NominalError P B N E) _))
    (hb : specializeDimension userDefined complete b = (.ok b' : Except (NominalError P B N E) _))
    (hresult : specializeDimension userDefined complete product =
      (.ok result : Except (NominalError P B N E) _))
    (hproduct' : a'.checkedMul b' = .ok product') : result = product' := by
  rw [checkedMul_eq_ok] at hproduct hproduct'
  apply eq_of_toFinsupp
  rw [toFinsupp_specializeDimension hresult, hproduct, map_add,
    ← toFinsupp_specializeDimension ha, ← toFinsupp_specializeDimension hb, hproduct']

/-- Powers are kept. -/
theorem specializeDimension_pow {a power a' power' result : Dimension B} {exponent : Rational}
    (hpower : a.pow exponent = .ok power)
    (ha : specializeDimension userDefined complete a = (.ok a' : Except (NominalError P B N E) _))
    (hresult : specializeDimension userDefined complete power =
      (.ok result : Except (NominalError P B N E) _))
    (hpower' : a'.pow exponent = .ok power') : result = power' := by
  rw [pow_eq_ok] at hpower hpower'
  apply eq_of_toFinsupp
  rw [toFinsupp_specializeDimension hresult, hpower, map_smul,
    ← toFinsupp_specializeDimension ha, hpower']

/-- The substitution does not bind the base. -/
def Unbound (userDefined : B → Option N) (complete : CompleteSubstitution B N) (b : B) : Prop :=
  (userDefined b).bind (fun name => complete.dimensions.lookup name) = none

/-- Without bound bases the factors are multiplied together again. -/
theorem foldlM_specializeFactor_unbound {factors : List (B × Rational)} {acc d : Dimension B}
    (hfree : ∀ factor ∈ factors, Unbound userDefined complete factor.1)
    (hentries : d.exponents.factors.entries = acc.exponents.factors.entries ++ factors) :
    factors.foldlM (specializeFactor userDefined complete) acc = .ok d := by
  induction factors generalizing acc with
  | nil =>
    rw [List.append_nil] at hentries
    have hfactors : d.toFinsupp = acc.toFinsupp := by
      rw [toFinsupp_eq_sum, toFinsupp_eq_sum, hentries]
    rw [eq_of_toFinsupp hfactors]
    rfl
  | cons factor rest ih =>
    -- the product so far, with this factor
    have hsorted : (acc.exponents.factors.entries ++ [factor]).Pairwise
        fun a b => a.1 < b.1 := by
      have := d.exponents.factors.sorted
      rw [hentries, List.append_cons] at this
      exact (List.pairwise_append.mp this).1
    have hzeroFree : ZeroFree (⟨_, hsorted⟩ : SortedMap B Rational) := by
      intro key exponent hget
      apply d.exponents.zeroFree key exponent
      rw [SortedMap.get?_eq_some] at hget ⊢
      rw [hentries, List.append_cons]
      exact List.mem_append_left rest hget
    let next : Dimension B := ⟨⟨⟨_, hsorted⟩, hzeroFree⟩⟩
    have hnext : next.toFinsupp = acc.toFinsupp + single factor.1 factor.2.value := by
      rw [toFinsupp_eq_sum next, toFinsupp_eq_sum acc]
      show (((acc.exponents.factors.entries ++ [factor]).map _).sum) = _
      rw [List.map_append, List.sum_append, List.map_singleton, List.sum_singleton]
    have hpowered : (⟨.single factor.1 factor.2⟩ : Dimension B).toFinsupp =
        factor.2.value • (Dimension.base factor.1).toFinsupp := by
      rw [toFinsupp_base, smul_single, smul_eq_mul, mul_one]
      exact SparseMonomial.toFinsupp_single factor.1 factor.2
    have hstep : specializeFactor userDefined complete acc factor = .ok next := by
      have hunbound : (userDefined factor.1).bind
          (fun name => complete.dimensions.lookup name) = none := hfree factor List.mem_cons_self
      unfold specializeFactor
      dsimp only
      rw [hunbound, Option.getD_none, pow_eq_ok.mpr hpowered]
      refine checkedMul_eq_ok.mpr ?_
      rw [hnext, hpowered, toFinsupp_base, smul_single, smul_eq_mul, mul_one]
    rw [List.foldlM_cons, hstep]
    refine ih (fun other hother => hfree other (List.mem_cons_of_mem _ hother)) ?_
    rw [hentries, List.append_cons]

/-- A dimension without bound bases is kept. -/
theorem specializeDimension_unbound {d : Dimension B}
    (h : ∀ b, d.toFinsupp b ≠ 0 → Unbound userDefined complete b) :
    specializeDimension userDefined complete d = (.ok d : Except (NominalError P B N E) _) := by
  refine mapError_eq_ok.mpr (foldlM_specializeFactor_unbound (fun factor hfactor => ?_)
    (List.nil_append _).symm)
  apply h
  have hget := SortedMap.get?_eq_some.mpr hfactor
  rw [Dimension.toFinsupp_apply, Dimension.getExponent, SparseMonomial.get, hget, Option.getD_some]
  intro hzero
  have hfree := d.exponents.zeroFree _ _ hget
  rw [(LawfulExponent.isZero_iff factor.2).mpr hzero] at hfree
  cases hfree

/-- Where all three runs succeed, the composed one ends where the second ends after the first. -/
def ComposesOn {α ε : Type} (first second composed : α → Except ε α) (a : α) : Prop :=
  ∀ ⦃once twice direct⦄, first a = .ok once → second once = .ok twice → composed a = .ok direct →
    direct = twice

theorem ComposesOn.same {α ε : Type} {first second composed : α → Except ε α} {a b c : α}
    (hfirst : first a = .ok b) (hsecond : second b = .ok c) (hcomposed : composed a = .ok c) :
    ComposesOn first second composed a := by
  intro once twice direct honce htwice hdirect
  cases hfirst.symm.trans honce
  cases hsecond.symm.trans htwice
  exact Except.ok.inj (hdirect.symm.trans hcomposed)

/-- Composition of a part is composition of the whole that is built around the part. -/
theorem ComposesOn.whole {α β ε : Type} {first second composed : α → Except ε α} {a : α}
    (h : ComposesOn first second composed a) {first' second' composed' : β → Except ε β} {b : β}
    {build rebuild : α → β} (hfirst : first' b = first a >>= fun once => .ok (build once))
    (hsecond : ∀ once, second' (build once) = second once >>= fun twice => .ok (rebuild twice))
    (hcomposed : composed' b = composed a >>= fun direct => .ok (rebuild direct)) :
    ComposesOn first' second' composed' b := by
  intro once twice direct honce htwice hdirect
  rw [hfirst] at honce
  obtain ⟨partOnce, hpartOnce, rfl⟩ := bind_pure_eq_ok.mp honce
  rw [hsecond] at htwice
  obtain ⟨partTwice, hpartTwice, rfl⟩ := bind_pure_eq_ok.mp htwice
  rw [hcomposed] at hdirect
  obtain ⟨partDirect, hpartDirect, rfl⟩ := bind_pure_eq_ok.mp hdirect
  rw [h hpartOnce hpartTwice hpartDirect]

/-- One substitution after another is the substitution of the replaced replacements. -/
theorem specializeDimension_compose {first second composed : CompleteSubstitution B N}
    {d : Dimension B}
    (hcompose : ∀ b, d.toFinsupp b ≠ 0 → replacement userDefined composed b =
      linearCombination ℚ (replacement userDefined second) (replacement userDefined first b)) :
    ComposesOn (specializeDimension (P := P) (N := N) (E := E) userDefined first)
      (specializeDimension userDefined second) (specializeDimension userDefined composed) d := by
  intro once twice direct honce htwice hdirect
  apply eq_of_toFinsupp
  rw [toFinsupp_specializeDimension hdirect, toFinsupp_specializeDimension htwice,
    toFinsupp_specializeDimension honce, apply_linearCombination, linearCombination_apply,
    linearCombination_apply]
  apply Finsupp.sum_congr
  intro b hb
  rw [Function.comp_apply, hcompose b (mem_support_iff.mp hb)]

/-!
# Types of nested includes

The include that a template has inside is specialized under the include of the template: each
target that it binds is looked up once among the ports that the enclosing include binds.
-/

open Finsupp

variable {P B N E : Type} [LinearOrder P] [LinearOrder B]

def termWithin (ok : B → Prop) : ResolvedDimTerm P B → Prop
  | .concrete dim _ _ => ∀ b, dim.toFinsupp b ≠ 0 → ok b
  | .genericParam _ _ _ _ => True

def dimWithin (ok : B → Prop) : ResolvedDim P B → Prop
  | .concrete dim => ∀ b, dim.toFinsupp b ≠ 0 → ok b
  | .symbolic terms _ => ∀ term ∈ terms, termWithin ok term

def indexWithin (ok : N → Prop) : ResolvedIndex P N → Prop
  | .concrete name _ => ok name
  | .genericParam _ _ => True
  | .finite _ _ => True

mutual

/-- The bases, indexes and nominal types of the type are all accepted. -/
def valueWithin (okBase : B → Prop) (okIndex okType : N → Prop) : ResolvedValueType P B N → Prop
  | .quantity dimension => dimWithin okBase dimension
  | .complex dimension _ => dimWithin okBase dimension
  | .key index _ => indexWithin okIndex index
  | .struct name genericArgs _ => okType name ∧ argsWithin okBase okIndex okType genericArgs
  | .bool => True
  | .int => True
  | .datetime _ => True
  | .genericTypeParam _ _ => True

def argWithin (okBase : B → Prop) (okIndex okType : N → Prop) : ResolvedGenericArg P B N → Prop
  | .dim dimension => dimWithin okBase dimension
  | .index index => indexWithin okIndex index
  | .nat _ _ => True
  | .type valueType => valueWithin okBase okIndex okType valueType

def argsWithin (okBase : B → Prop) (okIndex okType : N → Prop) :
    List (ResolvedGenericArg P B N) → Prop
  | [] => True
  | arg :: rest => argWithin okBase okIndex okType arg ∧ argsWithin okBase okIndex okType rest

end

def declWithin (okBase : B → Prop) (okIndex okType : N → Prop) : ResolvedDeclType P B N → Prop
  | .value valueType => valueWithin okBase okIndex okType valueType
  | .indexed element indexes => valueWithin okBase okIndex okType element ∧
    ∀ index ∈ indexes.items, indexWithin okIndex index

/-! ## Composition -/

variable [DecidableEq N]

/-- On the accepted names, `composed` is `second` after `first`. -/
structure Composes (userDefined : B → Option N) (first second composed : CompleteSubstitution B N)
    (okBase : B → Prop) (okIndex okType : N → Prop) : Prop where
  base : ∀ b, okBase b → replacement userDefined composed b =
    linearCombination ℚ (replacement userDefined second) (replacement userDefined first b)
  index : ∀ name span, okIndex name → specializeIndex composed (.concrete name span) =
    (specializeIndex second (specializeIndex first (.concrete name span)) : ResolvedIndex P N)
  type : ∀ name, okType name → (composed.substitution.types.lookup name).getD name =
    (second.substitution.types.lookup ((first.substitution.types.lookup name).getD name)).getD
      ((first.substitution.types.lookup name).getD name)

section Composition

variable {userDefined : B → Option N} {first second composed : CompleteSubstitution B N}
  {okBase : B → Prop} {okIndex okType : N → Prop}

theorem Composes.specializeTerm
    (h : Composes (P := P) userDefined first second composed okBase okIndex okType)
    {term : ResolvedDimTerm P B} (hok : termWithin okBase term) :
    ComposesOn (specializeResolvedTerm (N := N) (E := E) userDefined first)
      (specializeResolvedTerm userDefined second) (specializeResolvedTerm userDefined composed)
      term := by
  cases term with
  | genericParam => exact .same rfl rfl rfl
  | concrete dim power op =>
    exact (specializeDimension_compose fun b hb => h.base b (hok b hb)).whole rfl (fun _ => rfl) rfl

theorem Composes.specializeTerms
    (h : Composes (P := P) userDefined first second composed okBase okIndex okType)
    {terms : List (ResolvedDimTerm P B)} (hok : ∀ term ∈ terms, termWithin okBase term) :
    ComposesOn (List.mapM (specializeResolvedTerm (N := N) (E := E) userDefined first))
      (List.mapM (specializeResolvedTerm userDefined second))
      (List.mapM (specializeResolvedTerm userDefined composed)) terms := by
  intro once twice direct honce htwice hdirect
  rw [mapM_eq_ok] at honce htwice hdirect
  induction honce generalizing twice direct with
  | nil =>
    cases htwice
    cases hdirect
    rfl
  | cons hterm hrest ih =>
    cases htwice with
    | cons htermTwice hrestTwice =>
      cases hdirect with
      | cons htermDirect hrestDirect =>
        rw [h.specializeTerm (hok _ List.mem_cons_self) hterm htermTwice htermDirect,
          ih (fun other hother => hok other (List.mem_cons_of_mem _ hother)) hrestTwice
            hrestDirect]

theorem Composes.specializeDimArg
    (h : Composes (P := P) userDefined first second composed okBase okIndex okType)
    {dim : ResolvedDim P B} (hok : dimWithin okBase dim) :
    ComposesOn (specializeDimArg (N := N) (E := E) userDefined first)
      (specializeDimArg userDefined second) (specializeDimArg userDefined composed) dim := by
  cases dim with
  | concrete dim =>
    exact (specializeDimension_compose fun b hb => h.base b (hok b hb)).whole rfl (fun _ => rfl) rfl
  | symbolic terms span => exact (h.specializeTerms hok).whole rfl (fun _ => rfl) rfl

theorem Composes.specializeIndex
    (h : Composes (P := P) userDefined first second composed okBase okIndex okType)
    {index : ResolvedIndex P N} (hok : indexWithin okIndex index) :
    specializeIndex composed index = specializeIndex second (specializeIndex first index) := by
  cases index with
  | concrete name span => exact h.index name span hok
  | genericParam | finite => rfl

mutual

theorem Composes.specializeValueType
    (h : Composes (P := P) userDefined first second composed okBase okIndex okType)
    {valueType : ResolvedValueType P B N} (hok : valueWithin okBase okIndex okType valueType) :
    ComposesOn (specializeValueType (E := E) userDefined first)
      (specializeValueType userDefined second) (specializeValueType userDefined composed)
      valueType := by
  cases valueType with
  | bool | int | datetime | genericTypeParam => exact .same rfl rfl rfl
  | key index span =>
    refine .same rfl rfl ?_
    rw [← h.specializeIndex hok]
    rfl
  | quantity dimension | complex dimension span =>
    exact (h.specializeDimArg hok).whole rfl (fun _ => rfl) rfl
  | struct name genericArgs span =>
    refine (h.specializeArgs hok.2).whole rfl (fun _ => rfl) ?_
    rw [← h.type name hok.1]
    rfl

theorem Composes.specializeGenericArg
    (h : Composes (P := P) userDefined first second composed okBase okIndex okType)
    {arg : ResolvedGenericArg P B N} (hok : argWithin okBase okIndex okType arg) :
    ComposesOn (specializeGenericArg (E := E) userDefined first)
      (specializeGenericArg userDefined second) (specializeGenericArg userDefined composed)
      arg := by
  cases arg with
  | nat => exact .same rfl rfl rfl
  | index index =>
    refine .same rfl rfl ?_
    rw [← h.specializeIndex hok]
    rfl
  | dim dimension => exact (h.specializeDimArg hok).whole rfl (fun _ => rfl) rfl
  | type valueType => exact (h.specializeValueType hok).whole rfl (fun _ => rfl) rfl

theorem Composes.specializeArgs
    (h : Composes (P := P) userDefined first second composed okBase okIndex okType)
    {args : List (ResolvedGenericArg P B N)} (hok : argsWithin okBase okIndex okType args) :
    ComposesOn (specializeArgs (E := E) userDefined first) (specializeArgs userDefined second)
      (specializeArgs userDefined composed) args := by
  cases args with
  | nil => exact .same rfl rfl rfl
  | cons arg rest =>
    intro once twice direct honce htwice hdirect
    obtain ⟨argOnce, hargOnce, honce⟩ := bind_eq_ok.mp honce
    obtain ⟨restOnce, hrestOnce, rfl⟩ := bind_pure_eq_ok.mp honce
    obtain ⟨argTwice, hargTwice, htwice⟩ := bind_eq_ok.mp htwice
    obtain ⟨restTwice, hrestTwice, rfl⟩ := bind_pure_eq_ok.mp htwice
    obtain ⟨argDirect, hargDirect, hdirect⟩ := bind_eq_ok.mp hdirect
    obtain ⟨restDirect, hrestDirect, rfl⟩ := bind_pure_eq_ok.mp hdirect
    rw [h.specializeGenericArg hok.1 hargOnce hargTwice hargDirect,
      h.specializeArgs hok.2 hrestOnce hrestTwice hrestDirect]

end

/-- On types of accepted names, one specialization after another is the composed one. -/
theorem Composes.specializeType
    (h : Composes (P := P) userDefined first second composed okBase okIndex okType)
    {declType : ResolvedDeclType P B N} (hok : declWithin okBase okIndex okType declType) :
    ComposesOn (specializeType (E := E) userDefined first) (specializeType userDefined second)
      (specializeType userDefined composed) declType := by
  cases declType with
  | value valueType => exact (h.specializeValueType hok).whole rfl (fun _ => rfl) rfl
  | indexed element indexes =>
    have hindexes : indexes.map (Nominal.specializeIndex composed) =
        (indexes.map (Nominal.specializeIndex first)).map (Nominal.specializeIndex second) := by
      rw [NonEmpty.map, NonEmpty.map, NonEmpty.map]
      congr 1
      rw [List.map_map]
      exact List.map_congr_left fun index hindex => h.specializeIndex (hok.2 index hindex)
    refine (h.specializeValueType hok.1).whole rfl (fun _ => rfl) ?_
    rw [← hindexes]
    rfl

end Composition

end ProvenGraphcal.Nominal
