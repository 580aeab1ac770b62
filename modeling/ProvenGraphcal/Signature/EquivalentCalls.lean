import ProvenGraphcal.Signature.EquivalenceLaws

/-!
# Equivalent signatures at a call

A renaming of binders carries the substitution that a call computes. So two equivalent extern
signatures type the same arguments alike, except where the exponent arithmetic of one of them
overflows: factors are multiplied in the order of the declarations, which a renaming permutes.
-/

set_option linter.unusedSectionVars false

namespace ProvenGraphcal

variable {S T U Name B Index : Type} [LinearOrder Name] [LinearOrder B]

/-- Extern struct results cross the boundary by field shape. -/
instance : StructResult (ExternStructResult Name B) Name B := ⟨ExternStructResult.shape⟩

variable {t : CheckedType Name B Index}

section Rename

variable {f : DimBinder Name → DimBinder Name} {g : IndexBinder Name → IndexBinder Name}
  {δ δ' : DimBinder Name → Dimension B} {ι ι' : IndexBinder Name → Index}

theorem DimMonomial.meaning_rename {m : DimMonomial (DimBinder Name) B}
    (hf : ∀ v ∈ m.vars.factors.keys, ∀ w ∈ m.vars.factors.keys, f v = f w → v = w)
    (hδ : ∀ v ∈ m.vars.factors.keys, δ' (f v) = δ v) : (m.rename f).meaning δ' = m.meaning δ := by
  have hperm : (m.rename f).vars.factors.entries.Perm
      (m.vars.factors.entries.map fun e => (f e.1, e.2)) := SparseMonomial.mapKeys_perm hf
  unfold DimMonomial.meaning
  rw [(hperm.map _).sum_eq, List.map_map]
  congr 2
  refine List.map_congr_left fun e he => ?_
  change e.2.value • (δ' (f e.1)).toFinsupp = e.2.value • (δ e.1).toFinsupp
  rw [hδ e.1 (List.mem_map_of_mem he)]

theorem elementMatches_rename {e : ScalarValueKind (DimBinder Name) B}
    (hf : ∀ v ∈ e.binders, ∀ w ∈ e.binders, f v = f w → v = w)
    (hδ : ∀ v ∈ e.binders, δ' (f v) = δ v) :
    ElementMatches δ' (e.rename f) t ↔ ElementMatches δ e t := by
  cases e with
  | quantity m =>
    cases t with
    | quantity d =>
      change d.toFinsupp = (m.rename f).meaning δ' ↔ d.toFinsupp = m.meaning δ
      rw [DimMonomial.meaning_rename hf hδ]
    | _ => rfl
  | bool => cases t <;> rfl
  | int => cases t <;> rfl

variable {sig : FunctionSignature S Name B} {other : FunctionSignature T Name B}

/-- The assignments give renamed binders what they gave before. -/
structure Transports (sig : FunctionSignature S Name B) (f : DimBinder Name → DimBinder Name)
    (g : IndexBinder Name → IndexBinder Name) (δ δ' : DimBinder Name → Dimension B)
    (ι ι' : IndexBinder Name → Index) : Prop where
  dims : ∀ v ∈ sig.dimBinders, δ' (f v) = δ v
  indexes : ∀ i ∈ sig.indexBinders, ι' (g i) = ι i

theorem kindMatches_rename (hf : Set.InjOn f sig.dimBinders) (ht : Transports sig f g δ δ' ι ι')
    {k : BoundKind Name B} (hk : sig.Scoped k) :
    KindMatches δ' ι' (k.rename f g) t ↔ KindMatches δ ι k t := by
  have helement : ∀ leaf : CheckedType Name B Index,
      ElementMatches δ' (k.rename f g).element leaf ↔ ElementMatches δ k.element leaf := by
    intro leaf
    rw [FunctionSignature.element_rename]
    exact elementMatches_rename (fun v hv w hw h => hf (hk.1 v hv) (hk.1 w hw) h)
      fun v hv => ht.dims v (hk.1 v hv)
  have hindexes : (k.rename f g).indexes.map ι' = k.indexes.map ι := by
    rw [FunctionSignature.indexes_rename, List.map_map]
    exact List.map_congr_left fun i hi => ht.indexes i (hk.2 i hi)
  unfold KindMatches
  simp only [helement, hindexes]

/-- What is assigned on one side of an injection can be assigned to its image. -/
theorem exists_transported {α β γ : Type} [Inhabited γ] {f : α → β} {s : Set α}
    (hf : Set.InjOn f s) (δ : α → γ) : ∃ δ' : β → γ, ∀ a ∈ s, δ' (f a) = δ a := by
  refine ⟨Function.extend (s.domRestrict f) (s.domRestrict δ) default, fun a ha => ?_⟩
  exact (Set.injOn_iff_injective.mp hf).extend_apply (s.domRestrict δ) default ⟨a, ha⟩

theorem exists_transports [Inhabited Index] (hf : Set.InjOn f sig.dimBinders)
    (hg : Set.InjOn g sig.indexBinders) (δ : DimBinder Name → Dimension B)
    (ι : IndexBinder Name → Index) : ∃ δ' ι', Transports sig f g δ δ' ι ι' := by
  obtain ⟨δ', hδ⟩ := exists_transported hf δ
  obtain ⟨ι', hι⟩ := exists_transported hg ι
  exact ⟨δ', ι', hδ, hι⟩

end Rename

section Calls

variable [DecidableEq Index]
variable {sig other : FunctionSignature (ExternStructResult Name B) Name B}
  {args : List (CheckedType Name B Index)}

/-- Types of a call's result under two equivalent signatures: equal, or records of one shape. -/
def SameResultType (result other : ResultKind (ExternStructResult Name B) (DimBinder Name)
    (IndexBinder Name) B) (t t' : CheckedType Name B Index) : Prop :=
  match result, other with
  | .struct p, .struct q =>
    t = .struct p.recordType ∧ t' = .struct q.recordType ∧ p.shape = q.shape
  | _, _ => t = t'

variable {f : DimBinder Name → DimBinder Name} {g : IndexBinder Name → IndexBinder Name}

theorem accepts_rename {δ δ' : DimBinder Name → Dimension B} {ι ι' : IndexBinder Name → Index}
    (hf : Set.InjOn f sig.dimBinders)
    (hparams : sig.params.map (fun p => p.kind.rename f g) = other.params.map FunctionParam.kind)
    (ht : Transports sig f g δ δ' ι ι') (h : Accepts sig args δ ι) : Accepts other args δ' ι' := by
  unfold Accepts
  rw [← hparams, List.forall₂_map_left_iff]
  have hmatches : List.Forall₂ (fun p t => p ∈ sig.params ∧ KindMatches δ ι p.kind t)
      sig.params args :=
    (List.forall₂_and_left _ _).mpr ⟨fun p hp => hp, List.forall₂_map_left_iff.mp h⟩
  refine hmatches.imp fun p t hpt => ?_
  exact (kindMatches_rename hf ht (FunctionSignature.scoped_param hpt.1)).mpr hpt.2

theorem resultMatches_rename {δ δ' : DimBinder Name → Dimension B} {ι ι' : IndexBinder Name → Index}
    (hf : Set.InjOn f sig.dimBinders) (hresult : ResultRenamed f g sig.result other.result)
    (ht : Transports sig f g δ δ' ι ι') {t' : CheckedType Name B Index}
    (h : ResultMatches δ ι sig.result t) (h' : ResultMatches δ' ι' other.result t') :
    SameResultType sig.result other.result t t' := by
  cases hsig : sig.result with
  | value k =>
    cases hother : other.result with
    | value k' =>
      rw [hsig, hother] at hresult
      rw [hsig] at h
      rw [hother] at h'
      obtain rfl : k.rename f g = k' := hresult
      have hk := FunctionSignature.scoped_result hsig
      exact KindMatches.unique h ((kindMatches_rename hf ht hk).mp h')
    | struct q =>
      rw [hsig, hother] at hresult
      exact hresult.elim
  | struct p =>
    cases hother : other.result with
    | value k' =>
      rw [hsig, hother] at hresult
      exact hresult.elim
    | struct q =>
      rw [hsig, hother] at hresult
      rw [hsig] at h
      rw [hother] at h'
      exact ⟨h, h', hresult⟩

/-- A call that one signature accepts, an equivalent one accepts with the same result type, or
overflows on. -/
theorem call_of_equivalent [Inhabited Index] (h : sig.structurallyEquivalent other = true)
    (ht : inferExternFnCall sig args = .ok t) :
    (∃ t', inferExternFnCall other args = .ok t' ∧
      SameResultType sig.result other.result t t') ∨
      inferExternFnCall other args = .error .dimensionOverflow := by
  obtain ⟨f, g, hf, hg, hparams, hresult⟩ :=
    FunctionSignature.structurallyEquivalent_iff_rename.mp h
  obtain ⟨δ, ι, haccepts, hmatch⟩ := accepts_of_call ht
  obtain ⟨δ', ι', htransports⟩ := exists_transports hf.injOn hg.injOn δ ι
  rcases call_of_accepts (accepts_rename hf.injOn hparams htransports haccepts) with
    ⟨t', ht', hmatch'⟩ | herror
  · exact .inl ⟨t', ht', resultMatches_rename hf.injOn hresult htransports hmatch hmatch'⟩
  · exact .inr herror

/-- Structural equivalence is renaming of binders, up to parameter names and with struct results
compared by shape. It is an equivalence relation, and where neither call overflows, equivalent
extern signatures accept the same arguments with the same result type. -/
theorem structurallyEquivalent_contract [Inhabited Index] [StructResult S Name B]
    [StructResult T Name B] [StructResult U Name B] :
    (∀ (sig : FunctionSignature S Name B) (other : FunctionSignature T Name B),
      sig.structurallyEquivalent other = true ↔
        ∃ f g, Set.BijOn f sig.dimBinders other.dimBinders ∧
          Set.BijOn g sig.indexBinders other.indexBinders ∧
          sig.params.map (fun p => p.kind.rename f g) = other.params.map FunctionParam.kind ∧
          ResultRenamed f g sig.result other.result) ∧
    (∀ sig : FunctionSignature S Name B, sig.structurallyEquivalent sig = true) ∧
    (∀ (sig : FunctionSignature S Name B) (other : FunctionSignature T Name B),
      sig.structurallyEquivalent other = true → other.structurallyEquivalent sig = true) ∧
    (∀ (sig : FunctionSignature S Name B) (other : FunctionSignature T Name B)
      (third : FunctionSignature U Name B), sig.structurallyEquivalent other = true →
        other.structurallyEquivalent third = true → sig.structurallyEquivalent third = true) ∧
    ∀ (sig other : FunctionSignature (ExternStructResult Name B) Name B)
      (args : List (CheckedType Name B Index)), sig.structurallyEquivalent other = true →
      inferExternFnCall sig args ≠ .error .dimensionOverflow →
      inferExternFnCall other args ≠ .error .dimensionOverflow →
      (∃ t t', inferExternFnCall sig args = .ok t ∧ inferExternFnCall other args = .ok t' ∧
        SameResultType sig.result other.result t t') ∨
      ((∃ e, inferExternFnCall sig args = .error e) ∧
        ∃ e, inferExternFnCall other args = .error e) := by
  refine ⟨fun sig other => FunctionSignature.structurallyEquivalent_iff_rename,
    fun sig => FunctionSignature.structurallyEquivalent_refl sig,
    fun sig other => FunctionSignature.structurallyEquivalent_symm,
    fun sig other third => FunctionSignature.structurallyEquivalent_trans, ?_⟩
  intro sig other args h hsig hother
  cases hcall : inferExternFnCall sig args with
  | ok t =>
    rcases call_of_equivalent h hcall with ⟨t', ht', hsame⟩ | hoverflow
    · exact .inl ⟨t, t', rfl, ht', hsame⟩
    · exact absurd hoverflow hother
  | error e =>
    refine .inr ⟨⟨e, rfl⟩, ?_⟩
    cases hcall' : inferExternFnCall other args with
    | error e' => exact ⟨e', rfl⟩
    | ok t' =>
      -- Equivalence is symmetric, so the other call's success would be this one's.
      have hsymm := FunctionSignature.structurallyEquivalent_symm h
      rcases call_of_equivalent hsymm hcall' with ⟨t, ht, -⟩ | hoverflow
      · rw [hcall] at ht
        cases ht
      · exact absurd hoverflow hsig

end Calls

section Differences

abbrev ExternSignature := FunctionSignature (ExternStructResult ℕ ℕ) ℕ ℕ

/-- The bare variable `var`, as a parameter or result kind. -/
def bareKind (var : ℕ) : ParamKind ℕ ℕ ℕ := .scalar (.quantity ⟨.single var .one, .dimensionless⟩)

/-- `fn<dimVars..>(x: D1, y: D2, z: D3, w: D1 * D2 / D3) -> D1`. -/
def balanced (dimVars : List ℕ) : Except (SignatureError ℕ) ExternSignature := do
  let vars ← (SparseMonomial.tryFromFactors [(1, Ratio.one), (2, Ratio.one),
    (3, Ratio.one.neg)]).mapError fun _ => .zeroExponent 3
  FunctionSignature.tryFromParts dimVars []
    [⟨0, bareKind 1⟩, ⟨1, bareKind 2⟩, ⟨2, bareKind 3⟩,
      ⟨3, .scalar (.quantity ⟨vars, .dimensionless⟩)⟩] (.value (bareKind 1))

/-- `fn<D>(param: D) -> recordType`, a record with one field. -/
def measured (param recordType : ℕ) : Except (SignatureError ℕ) ExternSignature :=
  FunctionSignature.tryFromParts [1] [] [⟨param, bareKind 1⟩]
    (.struct ⟨recordType, ⟨[(0, .bool)], by decide, by decide⟩⟩)

/-- Arguments that are powers of one base dimension. -/
def powers (exponents : List Rational) : List (CheckedType ℕ ℕ ℕ) :=
  exponents.map fun p => .quantity ⟨.single 0 p⟩

def maxExponent : Rational := ⟨2 ^ 31 - 1, 1, by decide, by decide, by decide, by decide⟩

/-- Equivalent signatures may differ in parameter names and in the record a call returns, and the
order of declared variables decides whether a call overflows. -/
theorem structurallyEquivalent_not_exact :
    (∃ sig other : ExternSignature, measured 0 5 = .ok sig ∧ measured 1 6 = .ok other ∧
      sig.structurallyEquivalent other = true ∧
      (∀ f g, sig.params.map (fun p => (p.name, p.kind.rename f g)) ≠
        other.params.map fun p => (p.name, p.kind)) ∧
      ∃ t t', inferExternFnCall sig (powers [.one]) = .ok t ∧
        inferExternFnCall other (powers [.one]) = .ok t' ∧ t ≠ t') ∧
    ∃ sig other : ExternSignature, balanced [1, 2, 3] = .ok sig ∧
      balanced [1, 3, 2] = .ok other ∧ sig.structurallyEquivalent other = true ∧
      inferExternFnCall sig (powers [maxExponent, .one, .one, maxExponent]) =
        .error .dimensionOverflow ∧
      ∃ t, inferExternFnCall other (powers [maxExponent, .one, .one, maxExponent]) = .ok t := by
  refine ⟨⟨_, _, rfl, rfl, rfl, fun f g h => ?_, _, _, rfl, rfl, nofun⟩,
    _, _, rfl, rfl, rfl, rfl, _, rfl⟩
  have hnames : 0 = 1 := congrArg Prod.fst (List.cons.inj h).1
  exact absurd hnames Nat.zero_ne_one

end Differences

end ProvenGraphcal
