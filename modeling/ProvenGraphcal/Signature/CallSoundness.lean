import ProvenGraphcal.Signature.Call

/-!
# Calls compute the unique substitution

A kind matches a type under an assignment of dimensions and indexes to the binders. A step of the
walk succeeds by adding exactly the constraint its parameter puts on the assignment; the walk of
a validated signature never meets an unbound variable.
-/

set_option linter.unusedSectionVars false

namespace ProvenGraphcal

open Checked (bind_eq_error bind_eq_ok foldlM_sum mapError_eq_error mapError_eq_ok)
open Function (update_of_ne update_self)

variable {Name B Index : Type} [LinearOrder Name] [LinearOrder B]

/-- The exponents of a monomial once dimensions are put for its variables. -/
noncomputable def DimMonomial.meaning {V : Type} [LinearOrder V] (δ : V → Dimension B)
    (m : DimMonomial V B) : B →₀ ℚ :=
  m.fixed.toFinsupp + (m.vars.factors.entries.map fun f => f.2.value • (δ f.1).toFinsupp).sum

def ElementMatches {V : Type} [LinearOrder V] (δ : V → Dimension B) :
    ScalarValueKind V B → CheckedType Name B Index → Prop
  | .quantity m, .quantity d => d.toFinsupp = m.meaning δ
  | .bool, .bool => True
  | .int, .int => True
  | _, _ => False

/-- A type with axes put around it, the first index outermost. -/
def wrapAxes (indexes : List Index) (leaf : CheckedType Name B Index) : CheckedType Name B Index :=
  indexes.foldr (fun index element => .indexed element index) leaf

/-- The type is the kind with dimensions and indexes substituted for its binders. -/
def KindMatches {V I : Type} [LinearOrder V] (δ : V → Dimension B) (ι : I → Index)
    (kind : ParamKind V I B) (type : CheckedType Name B Index) : Prop :=
  ∃ leaf, ElementMatches δ kind.element leaf ∧ type = wrapAxes (kind.indexes.map ι) leaf

def ResultMatches {V I : Type} [LinearOrder V] (δ : V → Dimension B) (ι : I → Index) :
    ResultKind (ExternStructResult Name B) V I B → CheckedType Name B Index → Prop
  | .value kind, type => KindMatches δ ι kind type
  | .struct payload, type => type = .struct payload.recordType

theorem DimMonomial.meaning_of_bareVar {V : Type} [LinearOrder V] {m : DimMonomial V B} {v : V}
    (h : m.asBareVar = some v) (δ : V → Dimension B) : m.meaning δ = (δ v).toFinsupp := by
  obtain ⟨hentries, hfixed⟩ := asBareVar_eq_some h
  unfold meaning
  rw [hentries, hfixed]
  simp

theorem ElementMatches.unique {V : Type} [LinearOrder V] {δ : V → Dimension B}
    {kind : ScalarValueKind V B} {t t' : CheckedType Name B Index} (h : ElementMatches δ kind t)
    (h' : ElementMatches δ kind t') : t = t' := by
  cases kind <;> cases t <;> cases t' <;> simp only [ElementMatches] at h h' <;> try contradiction
  · rw [Dimension.eq_of_toFinsupp (h.trans h'.symm)]
  · rfl
  · rfl

theorem KindMatches.unique {V I : Type} [LinearOrder V] {δ : V → Dimension B} {ι : I → Index}
    {kind : ParamKind V I B} {t t' : CheckedType Name B Index} (h : KindMatches δ ι kind t)
    (h' : KindMatches δ ι kind t') : t = t' := by
  obtain ⟨leaf, hleaf, rfl⟩ := h
  obtain ⟨leaf', hleaf', rfl⟩ := h'
  rw [hleaf.unique hleaf']

theorem peelAxes_eq_some {rank : ℕ} {t leaf : CheckedType Name B Index} {indexes : List Index} :
    CallState.peelAxes rank t = some (indexes, leaf) ↔
      indexes.length = rank ∧ t = wrapAxes indexes leaf := by
  induction rank generalizing t indexes with
  | zero =>
    constructor
    · intro h
      cases h
      exact ⟨rfl, rfl⟩
    · rintro ⟨hlen, rfl⟩
      rw [List.length_eq_zero_iff.mp hlen]
      rfl
  | succ rank ih =>
    cases t with
    | indexed element index =>
      unfold CallState.peelAxes
      rw [Option.map_eq_some_iff]
      constructor
      · rintro ⟨⟨rest, leaf'⟩, hpeel, h⟩
        cases h
        obtain ⟨hlen, rfl⟩ := ih.mp hpeel
        exact ⟨congrArg Nat.succ hlen, rfl⟩
      · rintro ⟨hlen, h⟩
        cases indexes with
        | nil => cases hlen
        | cons head rest =>
          cases h
          exact ⟨(rest, leaf), ih.mpr ⟨Nat.succ.inj hlen, rfl⟩, rfl⟩
    | _ =>
      refine ⟨nofun, fun ⟨hlen, h⟩ => ?_⟩
      cases indexes with
      | nil => cases hlen
      | cons head rest => cases h

/-- The assignment extends the bindings made so far. -/
structure Agrees (δ : DimBinder Name → Dimension B) (ι : IndexBinder Name → Index)
    (state : CallState Name B Index) : Prop where
  dims : ∀ v b, state.bindings v = some b → δ v = b.dimension
  indexes : ∀ i bound, state.indexBindings i = some bound → ι i = bound

structure Grows (state next : CallState Name B Index) : Prop where
  dims : ∀ v, state.bindings v ≠ none → next.bindings v ≠ none
  indexes : ∀ i, state.indexBindings i ≠ none → next.indexBindings i ≠ none

/-- Not one of the internal errors. -/
def CallError.IsUserError (e : CallError Name B Index) : Prop :=
  (∀ v, e ≠ .unboundDimVar v) ∧ ∀ i, e ≠ .unboundIndexVar i

/-- A step from `state` that adds the constraint `C` and binds `dims` and `indexes`: it fails only
where no assignment satisfies the constraint, or by overflow. -/
structure StepSpec (state : CallState Name B Index)
    (C : (DimBinder Name → Dimension B) → (IndexBinder Name → Index) → Prop)
    (dims : List (DimBinder Name)) (indexes : List (IndexBinder Name))
    (step : Except (CallError Name B Index) (CallState Name B Index)) : Prop where
  grows : ∀ {next}, step = .ok next → Grows state next
  binds : ∀ {next}, step = .ok next →
    (∀ v ∈ dims, next.bindings v ≠ none) ∧ ∀ i ∈ indexes, next.indexBindings i ≠ none
  agrees : ∀ {next}, step = .ok next → ∀ δ ι, Agrees δ ι next ↔ Agrees δ ι state ∧ C δ ι
  userError : ∀ {e}, step = .error e → e.IsUserError
  overflow : ∀ {e}, step = .error e → ∀ δ ι, Agrees δ ι state → C δ ι → e = .dimensionOverflow

theorem Grows.refl (state : CallState Name B Index) : Grows state state := ⟨fun _ h => h, fun _ h => h⟩

namespace StepSpec

variable {state : CallState Name B Index}
  {C C' : (DimBinder Name → Dimension B) → (IndexBinder Name → Index) → Prop}
  {dims dims' : List (DimBinder Name)} {indexes indexes' : List (IndexBinder Name)}
  {step : Except (CallError Name B Index) (CallState Name B Index)}

/-- A step that leaves the state, because its constraint already follows. -/
theorem same (hdims : ∀ v ∈ dims, state.bindings v ≠ none)
    (hindexes : ∀ i ∈ indexes, state.indexBindings i ≠ none)
    (h : ∀ δ ι, Agrees δ ι state → C δ ι) : StepSpec state C dims indexes (.ok state) where
  grows h := by
    cases h
    exact .refl state
  binds h := by
    cases h
    exact ⟨hdims, hindexes⟩
  agrees h' δ ι := by
    cases h'
    exact ⟨fun ha => ⟨ha, h δ ι ha⟩, fun ha => ha.1⟩
  userError h := (nomatch h)
  overflow h := (nomatch h)

/-- A step that fails because its constraint contradicts the bindings. -/
theorem mismatch {expected found : MismatchOperand Name B Index} {help : MismatchRule Name B}
    (h : ∀ δ ι, Agrees δ ι state → ¬C δ ι) :
    StepSpec state C dims indexes (.error (.dimensionMismatch expected found help)) where
  grows h := (nomatch h)
  binds h := (nomatch h)
  agrees h := (nomatch h)
  userError h := by
    cases h
    exact ⟨fun v => nofun, fun i => nofun⟩
  overflow _ δ ι ha hc := absurd hc (h δ ι ha)

theorem congr (h : StepSpec state C dims indexes step) (hC : ∀ δ ι, C δ ι ↔ C' δ ι) :
    StepSpec state C' dims indexes step where
  grows := h.grows
  binds := h.binds
  agrees hs δ ι := by rw [h.agrees hs, hC]
  userError := h.userError
  overflow hs δ ι ha hc := h.overflow hs δ ι ha ((hC δ ι).mpr hc)

theorem bind (h : StepSpec state C dims indexes step)
    {f : CallState Name B Index → Except (CallError Name B Index) (CallState Name B Index)}
    (hf : ∀ next, step = .ok next → StepSpec next C' dims' indexes' (f next)) :
    StepSpec state (fun δ ι => C δ ι ∧ C' δ ι) (dims ++ dims') (indexes ++ indexes')
      (step >>= f) where
  grows hs := by
    obtain ⟨next, hnext, hs⟩ := bind_eq_ok.mp hs
    have h₁ := h.grows hnext
    have h₂ := (hf next hnext).grows hs
    exact ⟨fun v hv => h₂.dims v (h₁.dims v hv), fun i hi => h₂.indexes i (h₁.indexes i hi)⟩
  binds hs := by
    obtain ⟨next, hnext, hs⟩ := bind_eq_ok.mp hs
    have hbinds := h.binds hnext
    have hbinds' := (hf next hnext).binds hs
    have hgrows := (hf next hnext).grows hs
    refine ⟨fun v hv => ?_, fun i hi => ?_⟩
    · rcases List.mem_append.mp hv with hv | hv
      · exact hgrows.dims v (hbinds.1 v hv)
      · exact hbinds'.1 v hv
    · rcases List.mem_append.mp hi with hi | hi
      · exact hgrows.indexes i (hbinds.2 i hi)
      · exact hbinds'.2 i hi
  agrees hs δ ι := by
    obtain ⟨next, hnext, hs⟩ := bind_eq_ok.mp hs
    rw [(hf next hnext).agrees hs, h.agrees hnext, and_assoc]
  userError hs := by
    rcases bind_eq_error.mp hs with hs | ⟨next, hnext, hs⟩
    · exact h.userError hs
    · exact (hf next hnext).userError hs
  overflow hs δ ι ha hc := by
    rcases bind_eq_error.mp hs with hs | ⟨next, hnext, hs⟩
    · exact h.overflow hs δ ι ha hc.1
    · exact (hf next hnext).overflow hs δ ι ((h.agrees hnext δ ι).mpr ⟨ha, hc.1⟩) hc.2

end StepSpec

section Eval

variable {V : Type} {lookup : V → Option (Dimension B)}

theorem evalFactor_eq_ok {result next : Dimension B} {factor : V × Rational}
    (h : DimMonomial.evalFactor lookup result factor = .ok next) :
    ∃ bound, lookup factor.1 = some bound ∧
      next.toFinsupp = result.toFinsupp + factor.2.value • bound.toFinsupp := by
  unfold DimMonomial.evalFactor at h
  split at h
  case h_1 => cases h
  case h_2 bound hbound =>
    obtain ⟨powered, hpowered, hmul⟩ := bind_eq_ok.mp h
    refine ⟨bound, hbound, ?_⟩
    rw [Dimension.checkedMul_eq_ok.mp (mapError_eq_ok.mp hmul),
      Dimension.pow_eq_ok.mp (mapError_eq_ok.mp hpowered)]

variable {l : List (V × Rational)}

theorem evalFactors_eq_ok {δ : V → Dimension B} (hδ : ∀ v b, lookup v = some b → δ v = b)
    {init result : Dimension B} (h : l.foldlM (DimMonomial.evalFactor lookup) init = .ok result) :
    result.toFinsupp =
      init.toFinsupp + (l.map fun f => f.2.value • (δ f.1).toFinsupp).sum := by
  refine foldlM_sum Dimension.toFinsupp h fun factor d next hnext => ?_
  obtain ⟨bound, hbound, hval⟩ := evalFactor_eq_ok hnext
  rw [hval, hδ _ _ hbound]

theorem evalFactors_eq_error (hl : ∀ f ∈ l, lookup f.1 ≠ none) {init : Dimension B}
    {e : DimMonomialEvalError V} (h : l.foldlM (DimMonomial.evalFactor lookup) init = .error e) :
    ∃ r, e = .overflow r := by
  induction l generalizing init with
  | nil => cases h
  | cons factor rest ih =>
    rw [List.foldlM_cons, bind_eq_error] at h
    rcases h with h | ⟨next, -, hrest⟩
    · unfold DimMonomial.evalFactor at h
      split at h
      case h_1 hnone => exact absurd hnone (hl factor List.mem_cons_self)
      case h_2 bound hbound =>
        rcases bind_eq_error.mp h with h | ⟨powered, -, h⟩
        · obtain ⟨r, -, hr⟩ := mapError_eq_error h
          exact ⟨r, hr⟩
        · obtain ⟨r, -, hr⟩ := mapError_eq_error h
          exact ⟨r, hr⟩
    · exact ih (fun f hf => hl f (List.mem_cons_of_mem _ hf)) hrest

end Eval

variable {e : CallError Name B Index} {δ : DimBinder Name → Dimension B}
variable {ι : IndexBinder Name → Index} {kind : ScalarValueKind (DimBinder Name) B}

namespace CallState

variable {state : CallState Name B Index} {m : DimMonomial (DimBinder Name) B}

theorem evalMonomial_eq_ok {d : Dimension B} (h : state.evalMonomial m = .ok d)
    (ha : Agrees δ ι state) :
    d.toFinsupp = m.meaning δ := by
  refine evalFactors_eq_ok (fun v b hb => ?_) (mapError_eq_ok.mp h)
  obtain ⟨binding, hbinding, rfl⟩ := Option.map_eq_some_iff.mp hb
  exact ha.dims v binding hbinding

theorem evalMonomial_eq_error (hbound : ∀ v ∈ m.vars.factors.keys, state.bindings v ≠ none)
    (h : state.evalMonomial m = .error e) : e = .dimensionOverflow := by
  have hlookup : ∀ f ∈ m.vars.factors.entries, state.dimension f.1 ≠ none := by
    intro f hf hnone
    exact hbound f.1 (List.mem_map_of_mem hf) (Option.map_eq_none_iff.mp hnone)
  obtain ⟨inner, hinner, rfl⟩ := mapError_eq_error h
  obtain ⟨r, rfl⟩ := evalFactors_eq_error hlookup hinner
  rfl

/-! ## The steps -/

theorem checkQuantityParam_spec (param : Name) (argDim : Dimension B)
    (hscope : m.asBareVar = none → ∀ v ∈ m.vars.factors.keys, state.bindings v ≠ none) :
    StepSpec state (fun δ _ => argDim.toFinsupp = m.meaning δ) m.asBareVar.toList []
      (state.checkQuantityParam param m argDim) := by
  unfold checkQuantityParam
  cases hbare : m.asBareVar with
  | some var =>
    have hC : ∀ δ : DimBinder Name → Dimension B,
        argDim.toFinsupp = m.meaning δ ↔ δ var = argDim := by
      intro δ
      rw [DimMonomial.meaning_of_bareVar hbare]
      exact ⟨fun h => (Dimension.eq_of_toFinsupp h).symm, fun h => by rw [h]⟩
    simp only [hC]
    cases hbound : state.bindings var with
    | some bound =>
      dsimp only
      split_ifs with hne
      · refine .mismatch fun δ ι ha hδ => hne ?_
        rw [← hδ, ha.dims var bound hbound]
      · refine .same (fun v hv => ?_) (fun i hi => (nomatch hi)) fun δ ι ha => ?_
        · rw [List.mem_singleton.mp hv, hbound]
          exact Option.some_ne_none _
        · rw [ha.dims var bound hbound, not_not.mp hne]
    | none =>
      refine ⟨fun h => ?_, fun h => ?_, fun h δ ι => ?_, nofun, nofun⟩
      · cases h
        refine ⟨fun v hv => ?_, fun i hi => hi⟩
        by_cases hvar : v = var
        · simp [hvar]
        · simpa [update_of_ne hvar] using hv
      · cases h
        refine ⟨fun v hv => ?_, fun i hi => (nomatch hi)⟩
        simp [List.mem_singleton.mp hv]
      · cases h
        constructor
        · intro ha
          refine ⟨⟨fun v b hv => ?_, ha.indexes⟩, ha.dims var ⟨argDim, param⟩ (by simp)⟩
          have hvar : v ≠ var := by
            rintro rfl
            simp [hbound] at hv
          exact ha.dims v b (by simpa [update_of_ne hvar] using hv)
        · rintro ⟨ha, hδ⟩
          refine ⟨fun v b hv => ?_, ha.indexes⟩
          by_cases hvar : v = var
          · subst hvar
            simp only [update_self, Option.some.injEq] at hv
            rw [hδ, ← hv]
          · exact ha.dims v b (by simpa [update_of_ne hvar] using hv)
  | none =>
    cases heval : state.evalMonomial m with
    | error e =>
      have he := evalMonomial_eq_error (hscope hbare) heval
      subst he
      refine ⟨nofun, nofun, nofun, fun h => ?_,
        fun h _ _ _ _ => ?_⟩
      · cases h
        exact ⟨fun v => nofun, fun i => nofun⟩
      · cases h
        rfl
    | ok expected =>
      change StepSpec state _ _ _ (if argDim ≠ expected then _ else _)
      split_ifs with hne
      · refine .mismatch fun δ ι ha hδ => hne (Dimension.eq_of_toFinsupp ?_)
        rw [hδ, evalMonomial_eq_ok heval ha]
      · refine .same (fun v hv => (nomatch hv)) (fun i hi => (nomatch hi)) fun δ ι ha => ?_
        rw [not_not.mp hne, evalMonomial_eq_ok heval ha]

theorem checkIndex_spec [DecidableEq Index] (argType : CheckedType Name B Index)
    (state : CallState Name B Index) (pair : IndexBinder Name × Index) :
    StepSpec state (fun _ ι => ι pair.1 = pair.2) [] [pair.1] (checkIndex argType state pair) := by
  unfold checkIndex
  cases hbound : state.indexBindings pair.1 with
  | some bound =>
    dsimp only
    split_ifs with hne
    · refine .mismatch fun δ ι ha hι => hne ?_
      rw [← hι, ha.indexes _ _ hbound]
    · refine .same (fun v hv => (nomatch hv)) (fun i hi => ?_) fun δ ι ha => ?_
      · rw [List.mem_singleton.mp hi, hbound]
        exact Option.some_ne_none _
      · rw [ha.indexes _ _ hbound, not_not.mp hne]
  | none =>
    refine ⟨fun h => ?_, fun h => ?_, fun h δ ι => ?_, nofun, nofun⟩
    · cases h
      refine ⟨fun v hv => hv, fun i hi => ?_⟩
      by_cases hvar : i = pair.1
      · simp [hvar]
      · simpa [update_of_ne hvar] using hi
    · cases h
      refine ⟨fun v hv => (nomatch hv), fun i hi => ?_⟩
      simp [List.mem_singleton.mp hi]
    · cases h
      constructor
      · intro ha
        refine ⟨⟨ha.dims, fun i b hi => ?_⟩, ha.indexes pair.1 pair.2 (by simp)⟩
        have hvar : i ≠ pair.1 := by
          rintro rfl
          simp [hbound] at hi
        exact ha.indexes i b (by simpa [update_of_ne hvar] using hi)
      · rintro ⟨ha, hι⟩
        refine ⟨ha.dims, fun i b hi => ?_⟩
        by_cases hvar : i = pair.1
        · subst hvar
          simp only [update_self, Option.some.injEq] at hi
          rw [hι, hi]
        · exact ha.indexes i b (by simpa [update_of_ne hvar] using hi)

theorem checkIndexes_spec [DecidableEq Index] (argType : CheckedType Name B Index)
    (state : CallState Name B Index) (pairs : List (IndexBinder Name × Index)) :
    StepSpec state (fun _ ι => ∀ pair ∈ pairs, ι pair.1 = pair.2) [] (pairs.map Prod.fst)
      (pairs.foldlM (checkIndex argType) state) := by
  induction pairs generalizing state with
  | nil =>
    exact .same (fun v hv => (nomatch hv)) (fun i hi => (nomatch hi)) fun δ ι _ pair hp =>
      (nomatch hp)
  | cons pair rest ih =>
    rw [List.foldlM_cons]
    refine ((checkIndex_spec argType state pair).bind fun next _ => ih next).congr fun δ ι => ?_
    simp

theorem checkElement_spec (param : Name) (rank : ℕ) (argType leaf : CheckedType Name B Index)
    (hscope : kind.bareVar = none → ∀ v ∈ kind.binders, state.bindings v ≠ none) :
    StepSpec state (fun δ _ => ElementMatches δ kind leaf) kind.bareVar.toList []
      (state.checkElement param rank argType kind leaf) := by
  cases kind <;> cases leaf
  case quantity.quantity m argDim => exact checkQuantityParam_spec param argDim hscope
  case bool.bool | int.int =>
    exact .same (fun v hv => (nomatch hv)) (fun i hi => (nomatch hi)) fun _ _ _ => trivial
  all_goals exact .mismatch fun δ ι _ h => h

theorem checkScalar_spec (param : Name) (argType : CheckedType Name B Index)
    (hscope : kind.bareVar = none → ∀ v ∈ kind.binders, state.bindings v ≠ none) :
    StepSpec state (fun δ _ => ElementMatches δ kind argType) kind.bareVar.toList []
      (state.checkScalar param kind argType) := by
  cases kind <;> cases argType
  case quantity.quantity m argDim => exact checkQuantityParam_spec param argDim hscope
  case bool.bool | int.int =>
    exact .same (fun v hv => (nomatch hv)) (fun i hi => (nomatch hi)) fun _ _ _ => trivial
  all_goals exact .mismatch fun δ ι _ h => h

theorem forall_zip_iff {I : Type} {ι : I → Index} {indexes : List I} {bound : List Index}
    (hlen : bound.length = indexes.length) :
    (∀ pair ∈ indexes.zip bound, ι pair.1 = pair.2) ↔ indexes.map ι = bound := by
  induction indexes generalizing bound with
  | nil => simp [List.length_eq_zero_iff.mp hlen]
  | cons i rest ih =>
    cases bound with
    | nil => cases hlen
    | cons b bound =>
      rw [List.zip_cons_cons, List.forall_mem_cons, ih (Nat.succ.inj hlen), List.map_cons,
        List.cons.injEq]

theorem wrapAxes_inj {indexes indexes' : List Index} {leaf leaf' : CheckedType Name B Index}
    (hlen : indexes.length = indexes'.length) :
    wrapAxes indexes leaf = wrapAxes indexes' leaf' ↔ indexes = indexes' ∧ leaf = leaf' := by
  induction indexes generalizing indexes' with
  | nil => simp [List.length_eq_zero_iff.mp hlen.symm, wrapAxes]
  | cons i rest ih =>
    cases indexes' with
    | nil => cases hlen
    | cons i' rest' =>
      have h := ih (Nat.succ.inj hlen)
      unfold wrapAxes at h ⊢
      simp only [List.foldr_cons, CheckedType.indexed.injEq, h, List.cons.injEq]
      tauto

/-- One argument against its parameter: exactly the constraint that the parameter's kind, with
its binders substituted, is the argument's type. -/
theorem checkParam_spec [DecidableEq Index] (pair : BoundParam Name B × CheckedType Name B Index)
    (hscope : pair.1.kind.element.bareVar = none →
      ∀ v ∈ pair.1.kind.element.binders, state.bindings v ≠ none) :
    StepSpec state (fun δ ι => KindMatches δ ι pair.1.kind pair.2)
      pair.1.kind.element.bareVar.toList pair.1.kind.indexes (state.checkParam pair) := by
  obtain ⟨⟨param, kind⟩, argType⟩ := pair
  unfold checkParam
  cases kind with
  | scalar element =>
    refine (checkScalar_spec param argType hscope).congr fun δ ι => ?_
    simp [KindMatches, ParamKind.element, ParamKind.indexes, wrapAxes]
  | indexed element indexes =>
    dsimp only
    split
    case h_1 hpeel =>
      refine .mismatch fun δ ι _ hmatch => ?_
      obtain ⟨leaf, -, hwrap⟩ := hmatch
      have hsome := peelAxes_eq_some.mpr
        ⟨(List.length_map ι : (indexes.items.map ι).length = indexes.items.length), hwrap⟩
      rw [hpeel] at hsome
      cases hsome
    case h_2 argIndexes leaf hpeel =>
      obtain ⟨hlen, rfl⟩ := peelAxes_eq_some.mp hpeel
      have helement := checkElement_spec param indexes.items.length (wrapAxes argIndexes leaf) leaf
        hscope
      have hspec := helement.bind fun next _ =>
        checkIndexes_spec (wrapAxes argIndexes leaf) next (indexes.items.zip argIndexes)
      rw [List.append_nil, List.nil_append, List.map_fst_zip hlen.ge] at hspec
      refine hspec.congr fun δ ι => ?_
      rw [forall_zip_iff hlen]
      constructor
      · rintro ⟨hleaf, rfl⟩
        exact ⟨leaf, hleaf, rfl⟩
      · rintro ⟨leaf', hleaf', hwrap⟩
        have hlen' : argIndexes.length = (indexes.items.map ι).length := by
          rw [hlen, List.length_map]
        obtain ⟨hindexes, rfl⟩ := (wrapAxes_inj hlen').mp hwrap
        exact ⟨hleaf', hindexes.symm⟩

end CallState

section Walk

variable [DecidableEq Index]
variable {state : CallState Name B Index}

/-- The walk over the parameters, in a state that binds at least `bound`. -/
theorem checkParams_spec {bound : List (DimBinder Name)} {params : List (BoundParam Name B)}
    (huse : BoundBeforeUse bound params) (hbound : ∀ v ∈ bound, state.bindings v ≠ none)
    {args : List (CheckedType Name B Index)} (hlen : args.length = params.length) :
    StepSpec state (fun δ ι => List.Forall₂ (KindMatches δ ι) (params.map FunctionParam.kind) args)
      (boundBinders params) (axisBinders params)
      ((params.zip args).foldlM CallState.checkParam state) := by
  induction params generalizing bound state args with
  | nil =>
    rw [List.length_eq_zero_iff.mp hlen]
    exact .same (fun v hv => (nomatch hv)) (fun i hi => (nomatch hi)) fun _ _ _ => .nil
  | cons p rest ih =>
    cases args with
    | nil => cases hlen
    | cons arg args =>
      have hscope : p.kind.element.bareVar = none →
          ∀ v ∈ p.kind.element.binders, state.bindings v ≠ none := by
        intro hbare v hv
        have hmem := huse.1 v hv
        rw [hbare, Option.toList_none, List.append_nil] at hmem
        exact hbound v hmem
      have hstep := CallState.checkParam_spec (p, arg) hscope
      have hspec := hstep.bind fun next hnext => by
        refine ih huse.2 (fun v hv => ?_) (Nat.succ.inj hlen)
        rcases List.mem_append.mp hv with hv | hv
        · exact (hstep.grows hnext).dims v (hbound v hv)
        · exact (hstep.binds hnext).1 v hv
      have hbinders : boundBinders (p :: rest) =
          p.kind.element.bareVar.toList ++ boundBinders rest := by
        unfold boundBinders
        rw [List.filterMap_cons]
        cases p.kind.element.bareVar <;> rfl
      rw [List.zip_cons_cons, List.foldlM_cons, hbinders, axisBinders, List.flatMap_cons]
      refine hspec.congr fun δ ι => ?_
      rw [List.map_cons, List.forall₂_cons]

/-- The assignment that reads the bindings, with defaults elsewhere. -/
theorem exists_agrees [Inhabited Index] (state : CallState Name B Index) :
    ∃ δ ι, Agrees δ ι state :=
  ⟨fun v => ((state.bindings v).map (·.dimension)).getD default,
    fun i => (state.indexBindings i).getD default, fun v b hv => by simp [hv], fun i b hi => by simp [hi]⟩

theorem agrees_new (δ : DimBinder Name → Dimension B) (ι : IndexBinder Name → Index) :
    Agrees δ ι .new := ⟨fun _ _ h => (nomatch h), fun _ _ h => (nomatch h)⟩

theorem wrapAxis_foldlM (hι : ∀ i bound, state.indexBindings i = some bound → ι i = bound)
    {l : List (IndexBinder Name)} (hl : ∀ i ∈ l, state.indexBindings i ≠ none)
    (leaf : CheckedType Name B Index) :
    l.reverse.foldlM state.wrapAxis leaf = .ok (wrapAxes (l.map ι) leaf) := by
  induction l with
  | nil => rfl
  | cons i rest ih =>
    obtain ⟨bound, hbound⟩ := Option.ne_none_iff_exists'.mp (hl i List.mem_cons_self)
    have hstep : state.wrapAxis (wrapAxes (rest.map ι) leaf) i =
        .ok (wrapAxes ((i :: rest).map ι) leaf) := by
      unfold CallState.wrapAxis
      rw [hbound, List.map_cons, hι i bound hbound]
      rfl
    rw [List.reverse_cons, List.foldlM_append, ih fun j hj => hl j (List.mem_cons_of_mem _ hj)]
    change List.foldlM state.wrapAxis (wrapAxes (rest.map ι) leaf) [i] = _
    rw [List.foldlM_cons, hstep]
    rfl

/-- With every binder of the result bound, the result type is the substituted result kind, or its
dimension overflows. -/
theorem resultType_spec
    {result : ResultKind (ExternStructResult Name B) (DimBinder Name) (IndexBinder Name) B}
    (hdims : ∀ kind, result = .value kind → ∀ v ∈ kind.element.binders, state.bindings v ≠ none)
    (hindexes : ∀ kind, result = .value kind → ∀ i ∈ kind.indexes, state.indexBindings i ≠ none)
    (ha : Agrees δ ι state) :
    (∃ t, state.resultType result = .ok t ∧ ResultMatches δ ι result t) ∨
      state.resultType result = .error .dimensionOverflow := by
  cases result with
  | struct payload => exact .inl ⟨_, rfl, rfl⟩
  | value kind =>
    have hwrap := wrapAxis_foldlM ha.indexes (hindexes kind rfl)
    have heq : state.resultType (.value kind) = (do
        let leaf ← state.elementType kind.element
        kind.indexes.reverse.foldlM state.wrapAxis leaf) := rfl
    have helement : (∃ leaf, state.elementType kind.element = .ok leaf ∧
        ElementMatches δ kind.element leaf) ∨
        state.elementType kind.element = .error .dimensionOverflow := by
      have hscope := hdims kind rfl
      cases hkind : kind.element with
      | bool => exact .inl ⟨.bool, rfl, trivial⟩
      | int => exact .inl ⟨.int, rfl, trivial⟩
      | quantity m =>
        rw [hkind] at hscope
        have heq : state.elementType (.quantity m) =
            (do return .quantity (← state.evalMonomial m)) := rfl
        cases heval : state.evalMonomial m with
        | ok d =>
          refine .inl ⟨.quantity d, ?_, CallState.evalMonomial_eq_ok heval ha⟩
          rw [heq, heval]
          rfl
        | error e =>
          rw [heq, heval, CallState.evalMonomial_eq_error hscope heval]
          exact .inr rfl
    rcases helement with ⟨leaf, hleaf, hmatch⟩ | herror
    · refine .inl ⟨wrapAxes (kind.indexes.map ι) leaf, ?_, leaf, hmatch, rfl⟩
      rw [heq, hleaf]
      exact hwrap leaf
    · refine .inr ?_
      rw [heq, herror]
      rfl

/-! ## Calls of a validated signature -/

variable (sig : FunctionSignature (ExternStructResult Name B) Name B)
  (args : List (CheckedType Name B Index))

/-- The arguments are the parameter kinds with dimensions and indexes substituted. -/
def Accepts (δ : DimBinder Name → Dimension B) (ι : IndexBinder Name → Index) : Prop :=
  List.Forall₂ (KindMatches δ ι) (sig.params.map FunctionParam.kind) args

variable {sig args}

theorem walk_spec (hlen : args.length = sig.params.length) :
    StepSpec .new (Accepts sig args) (boundBinders sig.params) (axisBinders sig.params)
      ((sig.params.zip args).foldlM CallState.checkParam .new) :=
  checkParams_spec sig.wellScoped.boundBeforeUse (fun _ hv => (nomatch hv)) hlen

theorem length_of_accepts (h : Accepts sig args δ ι) : args.length = sig.params.length := by
  have hlen := h.length_eq
  rw [List.length_map] at hlen
  exact hlen.symm

/-- After the walk every binder of the result is bound. -/
theorem resultType_of_walk (hlen : args.length = sig.params.length)
    (hwalk : (sig.params.zip args).foldlM CallState.checkParam .new = .ok state)
    (ha : Agrees δ ι state) :
    (∃ t, state.resultType sig.result = .ok t ∧ ResultMatches δ ι sig.result t) ∨
      state.resultType sig.result = .error .dimensionOverflow := by
  obtain ⟨hdims, hindexes⟩ := (walk_spec hlen).binds hwalk
  exact resultType_spec
    (fun kind hk v hv => hdims v (sig.wellScoped.result_dims_bound kind hk v hv))
    (fun kind hk i hi => hindexes i (sig.wellScoped.result_indexes_bound kind hk i hi)) ha

theorem inferExternFnCall_eq (hlen : args.length = sig.params.length) :
    inferExternFnCall sig args = (do
      let state ← (sig.params.zip args).foldlM CallState.checkParam .new
      state.resultType sig.result) := by
  rw [inferExternFnCall, if_neg (not_not.mpr hlen)]

/-- Where some substitution makes the parameters the arguments, the call has the substituted
result type, or overflows. -/
theorem call_of_accepts (h : Accepts sig args δ ι) :
    (∃ t, inferExternFnCall sig args = .ok t ∧ ResultMatches δ ι sig.result t) ∨
      inferExternFnCall sig args = .error .dimensionOverflow := by
  have hlen := length_of_accepts h
  rw [inferExternFnCall_eq hlen]
  cases hwalk : (sig.params.zip args).foldlM CallState.checkParam .new with
  | error e =>
    rw [(walk_spec hlen).overflow hwalk δ ι (agrees_new δ ι) h]
    exact .inr rfl
  | ok state =>
    have ha := ((walk_spec hlen).agrees hwalk δ ι).mpr ⟨agrees_new δ ι, h⟩
    exact resultType_of_walk hlen hwalk ha

theorem call_userError [Inhabited Index] (h : inferExternFnCall sig args = .error e) :
    e.IsUserError := by
  by_cases hlen : args.length = sig.params.length
  · rw [inferExternFnCall_eq hlen] at h
    rcases bind_eq_error.mp h with hwalk | ⟨state, hwalk, hresult⟩
    · exact (walk_spec hlen).userError hwalk
    · -- The walk has bound every binder of the result, so only overflow is left.
      obtain ⟨δ, ι, ha⟩ := exists_agrees state
      rcases resultType_of_walk hlen hwalk ha with ⟨t, ht, -⟩ | herror
      · rw [hresult] at ht
        cases ht
      · rw [hresult] at herror
        cases herror
        exact ⟨fun v => nofun, fun i => nofun⟩
  · rw [inferExternFnCall, if_pos hlen] at h
    cases h
    exact ⟨fun v => nofun, fun i => nofun⟩

/-- A walk that succeeds determines the substitution on the declared binders. -/
theorem accepts_of_walk [Inhabited Index] (hlen : args.length = sig.params.length)
    (hwalk : (sig.params.zip args).foldlM CallState.checkParam .new = .ok state) :
    ∃ δ ι, Agrees δ ι state ∧ Accepts sig args δ ι ∧ ∀ δ' ι', Accepts sig args δ' ι' →
      (∀ v ∈ sig.dimBinders, δ' v = δ v) ∧
      ∀ i ∈ sig.indexBinders, ι' i = ι i := by
  obtain ⟨hdims, hindexes⟩ := (walk_spec hlen).binds hwalk
  obtain ⟨δ, ι, ha⟩ := exists_agrees state
  refine ⟨δ, ι, ha, (((walk_spec hlen).agrees hwalk δ ι).mp ha).2, fun δ' ι' h' => ?_⟩
  have ha' := ((walk_spec hlen).agrees hwalk δ' ι').mpr ⟨agrees_new δ' ι', h'⟩
  constructor
  · intro v hv
    obtain ⟨b, hb⟩ := Option.ne_none_iff_exists'.mp 
      (hdims v (FunctionSignature.mem_boundBinders_of_declared hv))
    rw [ha'.dims v b hb, ha.dims v b hb]
  · intro i hi
    obtain ⟨b, hb⟩ := Option.ne_none_iff_exists'.mp 
      (hindexes i (FunctionSignature.mem_axisBinders_of_declared hi))
    rw [ha'.indexes i b hb, ha.indexes i b hb]

theorem accepts_of_call [Inhabited Index] {t : CheckedType Name B Index}
    (h : inferExternFnCall sig args = .ok t) :
    ∃ δ ι, Accepts sig args δ ι ∧ ResultMatches δ ι sig.result t := by
  have hlen : args.length = sig.params.length := by
    by_contra hne
    rw [inferExternFnCall, if_pos hne] at h
    cases h
  rw [inferExternFnCall_eq hlen] at h
  obtain ⟨state, hwalk, hresult⟩ := bind_eq_ok.mp h
  obtain ⟨δ, ι, ha, haccepts, -⟩ := accepts_of_walk hlen hwalk
  refine ⟨δ, ι, haccepts, ?_⟩
  rcases resultType_of_walk hlen hwalk ha with ⟨t', ht', hmatch⟩ | herror
  · rw [hresult] at ht'
    cases ht'
    exact hmatch
  · rw [hresult] at herror
    cases herror

theorem ResultMatches.unique {δ : DimBinder Name → Dimension B} {ι : IndexBinder Name → Index}
    {result : ResultKind (ExternStructResult Name B) (DimBinder Name) (IndexBinder Name) B}
    {t t' : CheckedType Name B Index} (h : ResultMatches δ ι result t)
    (h' : ResultMatches δ ι result t') : t = t' := by
  cases result with
  | value kind => exact KindMatches.unique h h'
  | struct payload => exact h.trans h'.symm

end Walk

end ProvenGraphcal
