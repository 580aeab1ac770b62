import ProvenGraphcal.Signature.CallSoundness
import ProvenGraphcal.Signature.Equivalence

/-!
# What structural equivalence means

Two signatures are structurally equivalent exactly when a renaming of their binders carries the
kinds of one to the kinds of the other. Equivalent signatures type the same calls alike.
-/

set_option linter.unusedSectionVars false

namespace ProvenGraphcal

open FirstSeen

variable {S T U Name B : Type} [LinearOrder Name] [LinearOrder B]

namespace FunctionSignature

variable [StructResult S Name B] [StructResult T Name B] [StructResult U Name B]
variable {sig : FunctionSignature S Name B} {other : FunctionSignature T Name B}
  {third : FunctionSignature U Name B}

/-- The positions of a signature's binders. -/
abbrev dimPosition (sig : FunctionSignature S Name B) : DimBinder Name → Option ℕ :=
  (FirstOccurrence.of sig).dim

abbrev axisPosition (sig : FunctionSignature S Name B) : IndexBinder Name → Option (Option ℕ) :=
  axis (FirstOccurrence.of sig)

/-- Equivalence as equality of the kinds with binders replaced by positions. -/
structure SamePositions (sig : FunctionSignature S Name B) (other : FunctionSignature T Name B) :
    Prop where
  dimVars : sig.dimVars.length = other.dimVars.length
  indexVars : sig.indexVars.length = other.indexVars.length
  params : List.Forall₂
    (SameKind sig.dimPosition other.dimPosition sig.axisPosition other.axisPosition)
    (sig.params.map FunctionParam.kind) (other.params.map FunctionParam.kind)
  result : SameResult sig.dimPosition other.dimPosition sig.axisPosition other.axisPosition
    sig.result other.result

theorem all_zip_iff {α β : Type} {R : α → β → Prop} {f : α → β → Bool} {l : List α}
    (hf : ∀ a ∈ l, ∀ b, f a b = true ↔ R a b) (l' : List β) :
    (l.length = l'.length ∧ ((l.zip l').all fun (a, b) => f a b) = true) ↔
      List.Forall₂ R l l' := by
  induction l generalizing l' with
  | nil => cases l' <;> simp
  | cons a l ih =>
    cases l' with
    | nil => simp
    | cons b l' =>
      have h := ih (fun c hc => hf c (List.mem_cons_of_mem _ hc)) l'
      have ha := hf a List.mem_cons_self b
      rw [List.forall₂_cons, ← h, ← ha]
      simp only [List.length_cons, Nat.add_right_cancel_iff, List.zip_cons_cons, List.all_cons,
        Bool.and_eq_true]
      tauto

theorem structurallyEquivalent_iff_positions :
    sig.structurallyEquivalent other = true ↔ SamePositions sig other := by
  have hparams := all_zip_iff
    (R := fun p p' => SameKind sig.dimPosition other.dimPosition sig.axisPosition
      other.axisPosition p.kind p'.kind)
    (fun p hp (p' : BoundParam Name B) =>
      paramEquivalent_iff (FirstOccurrence.of other) p'.kind (scoped_param hp)) other.params
  have hresult : resultEquivalent (FirstOccurrence.of sig) (FirstOccurrence.of other) sig.result
      other.result = true ↔ SameResult sig.dimPosition other.dimPosition sig.axisPosition
        other.axisPosition sig.result other.result := by
    cases hsig : sig.result with
    | value k =>
      cases hother : other.result with
      | value k' => exact paramEquivalent_iff _ _ (scoped_result hsig)
      | struct q => exact ⟨nofun, nofun⟩
    | struct p =>
      cases hother : other.result with
      | value k' => exact ⟨nofun, nofun⟩
      | struct q => exact decide_eq_true_iff
  unfold structurallyEquivalent
  simp only [Bool.and_eq_true, beq_iff_eq, hresult]
  rw [← and_assoc (a := sig.params.length = other.params.length), hparams]
  constructor
  · rintro ⟨hdims, hindexes, hkinds, hres⟩
    exact ⟨hdims, hindexes, List.forall₂_map_left_iff.mpr (List.forall₂_map_right_iff.mpr hkinds),
      hres⟩
  · rintro ⟨hdims, hindexes, hkinds, hres⟩
    exact ⟨hdims, hindexes, List.forall₂_map_right_iff.mp (List.forall₂_map_left_iff.mp hkinds),
      hres⟩

theorem SamePositions.refl (sig : FunctionSignature S Name B) : SamePositions sig sig := by
  refine ⟨rfl, rfl, List.forall₂_same.mpr fun k _ => SameKind.refl _ _ k, ?_⟩
  cases sig.result with
  | value k => exact SameKind.refl _ _ k
  | struct p => rfl

theorem SamePositions.symm (h : SamePositions sig other) : SamePositions other sig := by
  refine ⟨h.dimVars.symm, h.indexVars.symm, ?_, ?_⟩
  · exact List.Forall₂.flip (h.params.imp fun _ _ hk => SameKind.symm hk)
  · have hres := h.result
    cases hsig : sig.result <;> cases hother : other.result <;> rw [hsig, hother] at hres <;>
      try exact hres
    · exact SameKind.symm hres
    · exact Eq.symm hres

theorem forall₂_trans {α β γ : Type} {P : α → β → Prop} {Q : β → γ → Prop} {R : α → γ → Prop}
    (hR : ∀ a b c, P a b → Q b c → R a c) {l : List α} {l' : List β} {l'' : List γ}
    (h : List.Forall₂ P l l') (h' : List.Forall₂ Q l' l'') : List.Forall₂ R l l'' := by
  induction h generalizing l'' with
  | nil =>
    cases h'
    exact .nil
  | cons hp _ ih =>
    cases h' with
    | cons hq hrest => exact .cons (hR _ _ _ hp hq) (ih hrest)

theorem SamePositions.trans (h : SamePositions sig other) (h' : SamePositions other third) :
    SamePositions sig third := by
  refine ⟨h.dimVars.trans h'.dimVars, h.indexVars.trans h'.indexVars, ?_, ?_⟩
  · exact forall₂_trans (fun _ _ _ => SameKind.trans) h.params h'.params
  · have hres := h.result
    have hres' := h'.result
    cases hsig : sig.result <;> cases hother : other.result <;> cases hthird : third.result <;>
      rw [hsig, hother] at hres <;> rw [hother, hthird] at hres' <;> try contradiction
    · exact SameKind.trans hres hres'
    · exact Eq.trans hres hres'

theorem structurallyEquivalent_refl (sig : FunctionSignature S Name B) :
    sig.structurallyEquivalent sig = true :=
  structurallyEquivalent_iff_positions.mpr (.refl sig)

theorem structurallyEquivalent_symm (h : sig.structurallyEquivalent other = true) :
    other.structurallyEquivalent sig = true :=
  structurallyEquivalent_iff_positions.mpr (structurallyEquivalent_iff_positions.mp h).symm

theorem structurallyEquivalent_trans (h : sig.structurallyEquivalent other = true)
    (h' : other.structurallyEquivalent third = true) :
    sig.structurallyEquivalent third = true :=
  structurallyEquivalent_iff_positions.mpr
    ((structurallyEquivalent_iff_positions.mp h).trans
      (structurallyEquivalent_iff_positions.mp h'))

/-! ## Renamings -/

theorem eq_of_map_eq {α β : Type} {h : α → β} {l l' : List α}
    (hinj : ∀ a ∈ l, ∀ b ∈ l', h a = h b → a = b) (he : l.map h = l'.map h) : l = l' := by
  refine List.ext_getElem (by simpa using congrArg List.length he) fun i hi hi' => ?_
  refine hinj _ (List.getElem_mem hi) _ (List.getElem_mem hi') ?_
  have hget := congrArg (fun s => s[i]?) he
  simpa [hi, hi'] using hget

/-- A map that separates the elements of two lists reflects permutation. -/
theorem perm_of_map_perm {α β : Type} {h : α → β} {l l' : List α}
    (hinj : ∀ a ∈ l, ∀ b ∈ l', h a = h b → a = b) (hperm : (l.map h).Perm (l'.map h)) :
    l.Perm l' := by
  induction l generalizing l' with
  | nil =>
    rw [List.map_nil, List.nil_perm, List.map_eq_nil_iff] at hperm
    rw [hperm]
  | cons a l ih =>
    have hmem : h a ∈ l'.map h := hperm.mem_iff.mp (by simp)
    obtain ⟨b, hb, he⟩ := List.mem_map.mp hmem
    obtain rfl := hinj a List.mem_cons_self b hb he.symm
    obtain ⟨s, t, rfl⟩ := List.append_of_mem hb
    have hmiddle : ((s ++ a :: t).map h).Perm ((a :: (s ++ t)).map h) :=
      List.perm_middle.map h
    have hrest : l.Perm (s ++ t) := by
      refine ih (fun c hc d hd => hinj c (List.mem_cons_of_mem _ hc) d ?_)
        (hperm.trans hmiddle).cons_inv
      rcases List.mem_append.mp hd with hd | hd <;> simp [hd]
    exact (hrest.cons a).trans List.perm_middle.symm

/-- Positions carried by a renaming make renamed kinds the same kinds. -/
structure Carries (f : DimBinder Name → DimBinder Name) (g : IndexBinder Name → IndexBinder Name)
    (sig : FunctionSignature S Name B) (other : FunctionSignature T Name B) : Prop where
  dims : Set.BijOn f sig.dimBinders other.dimBinders
  indexes : Set.BijOn g sig.indexBinders other.indexBinders
  dimPosition : ∀ v ∈ sig.dimBinders, other.dimPosition (f v) = sig.dimPosition v
  axisPosition : ∀ i ∈ sig.indexBinders, other.axisPosition (g i) = sig.axisPosition i

section Carries

variable {f : DimBinder Name → DimBinder Name} {g : IndexBinder Name → IndexBinder Name}

theorem factors_rename_perm {m : DimMonomial (DimBinder Name) B} (hf : Set.InjOn f sig.dimBinders)
    (hm : ∀ v ∈ m.vars.factors.keys, v ∈ sig.dimBinders) :
    (m.rename f).vars.factors.entries.Perm (m.vars.factors.entries.map fun e => (f e.1, e.2)) :=
  SparseMonomial.mapKeys_perm fun a ha b hb h => hf (hm a ha) (hm b hb) h

theorem rename_eq_iff {m m' : DimMonomial (DimBinder Name) B} (hf : Set.InjOn f sig.dimBinders)
    (hm : ∀ v ∈ m.vars.factors.keys, v ∈ sig.dimBinders) :
    m.rename f = m' ↔ m.fixed = m'.fixed ∧
      (m.vars.factors.entries.map fun e => (f e.1, e.2)).Perm m'.vars.factors.entries := by
  have hperm := factors_rename_perm hf hm
  constructor
  · rintro rfl
    exact ⟨rfl, hperm.symm⟩
  · rintro ⟨hfixed, hvars⟩
    have hv : (m.rename f).vars = m'.vars :=
      SparseMonomial.ext_factors (SortedMap.ext_perm (hperm.trans hvars))
    cases m'
    cases m
    simp_all [DimMonomial.rename]

section

variable (hc : Carries f g sig other)

include hc

theorem sameElement_iff_rename {e e' : ScalarValueKind (DimBinder Name) B}
    (he : ∀ v ∈ e.binders, v ∈ sig.dimBinders) (he' : ∀ v ∈ e'.binders, v ∈ other.dimBinders) :
    SameElement sig.dimPosition other.dimPosition e e' ↔ e.rename f = e' := by
  cases e with
  | quantity m =>
    cases e' with
    | quantity m' =>
      unfold ScalarValueKind.rename
      rw [ScalarValueKind.quantity.injEq, rename_eq_iff hc.dims.injOn he]
      refine and_congr_right fun _ => ?_
      have hpos : (m.vars.factors.entries.map fun e => (sig.dimPosition e.1, e.2)) =
          (m.vars.factors.entries.map fun e => (f e.1, e.2)).map
            fun e => (other.dimPosition e.1, e.2) := by
        rw [List.map_map]
        refine List.map_congr_left fun e hmem => ?_
        have hv := he e.1 (List.mem_map_of_mem hmem)
        simp [hc.dimPosition e.1 hv]
      rw [hpos]
      refine ⟨fun h => perm_of_map_perm ?_ h, fun h => h.map _⟩
      rintro ⟨v, p⟩ hv ⟨w, q⟩ hw hvw
      simp only [Prod.mk.injEq] at hvw
      have hdeclared : ∀ u : DimBinder Name × Rational,
          u ∈ (m.vars.factors.entries.map fun e => (f e.1, e.2)) → u.1 ∈ other.dimBinders := by
        intro u hu
        obtain ⟨e, hmem, rfl⟩ := List.mem_map.mp hu
        exact hc.dims.mapsTo (he e.1 (List.mem_map_of_mem hmem))
      have hvar : v = w := dim_inj (hdeclared (v, p) hv) (he' w (List.mem_map_of_mem hw)) hvw.1
      rw [hvar, hvw.2]
    | bool => exact ⟨nofun, nofun⟩
    | int => exact ⟨nofun, nofun⟩
  | bool => cases e' <;> simp [SameElement, ScalarValueKind.rename]
  | int => cases e' <;> simp [SameElement, ScalarValueKind.rename]

theorem sameKind_iff_rename {k k' : BoundKind Name B} (hk : sig.Scoped k) (hk' : other.Scoped k') :
    SameKind sig.dimPosition other.dimPosition sig.axisPosition other.axisPosition k k' ↔
      k.rename f g = k' := by
  cases k with
  | scalar e =>
    cases k' with
    | scalar e' =>
      unfold ParamKind.rename
      rw [ParamKind.scalar.injEq]
      exact sameElement_iff_rename hc hk.1 hk'.1
    | indexed e' is' => exact ⟨nofun, nofun⟩
  | indexed e is =>
    cases k' with
    | scalar e' => exact ⟨nofun, nofun⟩
    | indexed e' is' =>
      have helement : SameElement sig.dimPosition other.dimPosition e e' ↔ e.rename f = e' :=
        sameElement_iff_rename hc hk.1 hk'.1
      unfold ParamKind.rename
      rw [ParamKind.indexed.injEq, ← helement]
      refine and_congr_right fun _ => ?_
      have hitems : is.map g = is' ↔ is.items.map g = is'.items := by
        cases is'
        simp [NonEmpty.map]
      have hpos : is.items.map sig.axisPosition = (is.items.map g).map other.axisPosition := by
        rw [List.map_map]
        exact List.map_congr_left fun i hi => (hc.axisPosition i (hk.2 i hi)).symm
      rw [hitems, hpos]
      refine ⟨fun h => ?_, fun h => by rw [h]⟩
      refine eq_of_map_eq (fun a ha b hb hab => ?_) h
      obtain ⟨i, hi, rfl⟩ := List.mem_map.mp ha
      exact axis_inj (hc.indexes.mapsTo (hk.2 i hi)) (hk'.2 b hb) hab

theorem sameResult_iff_renamed :
    SameResult sig.dimPosition other.dimPosition sig.axisPosition other.axisPosition sig.result
      other.result ↔ ResultRenamed f g sig.result other.result := by
  cases hsig : sig.result with
  | value k =>
    cases hother : other.result with
    | value k' => exact sameKind_iff_rename hc (scoped_result hsig) (scoped_result hother)
    | struct q => exact Iff.rfl
  | struct p =>
    cases hother : other.result with
    | value k' => exact Iff.rfl
    | struct q => exact Iff.rfl

theorem forall₂_sameKind_iff :
    List.Forall₂ (SameKind sig.dimPosition other.dimPosition sig.axisPosition other.axisPosition)
      (sig.params.map FunctionParam.kind) (other.params.map FunctionParam.kind) ↔
      sig.params.map (fun p => p.kind.rename f g) = other.params.map FunctionParam.kind := by
  have hgen : ∀ (l : List (BoundParam Name B)) (l' : List (BoundParam Name B)),
      (∀ p ∈ l, sig.Scoped p.kind) → (∀ p ∈ l', other.Scoped p.kind) →
      (List.Forall₂ (SameKind sig.dimPosition other.dimPosition sig.axisPosition
        other.axisPosition) (l.map FunctionParam.kind) (l'.map FunctionParam.kind) ↔
        l.map (fun p => p.kind.rename f g) = l'.map FunctionParam.kind) := by
    intro l
    induction l with
    | nil => intro l' _ _; cases l' <;> simp
    | cons p l ih =>
      intro l' hl hl'
      cases l' with
      | nil => simp
      | cons p' l' =>
        have hrest := ih l' (fun q hq => hl q (List.mem_cons_of_mem _ hq))
          fun q hq => hl' q (List.mem_cons_of_mem _ hq)
        rw [List.map_cons, List.map_cons, List.forall₂_cons, hrest, List.map_cons,
          List.cons.injEq, sameKind_iff_rename hc (hl p List.mem_cons_self)
            (hl' p' List.mem_cons_self)]
  exact hgen _ _ (fun _ => scoped_param) fun _ => scoped_param

end

end Carries

section Renaming

theorem length_seenDims_eq (h : sig.dimVars.length = other.dimVars.length) :
    sig.seenDims.length = other.seenDims.length := by
  rw [length_seenDims, length_seenDims, h]

theorem length_seenAxes_eq (h : sig.indexVars.length = other.indexVars.length) :
    sig.seenAxes.length = other.seenAxes.length := by
  rw [length_seenAxes, length_seenAxes, h]

/-- With as many variables on both sides, taking a binder to the one at its position carries
positions. -/
theorem carries_carry (hdims : sig.dimVars.length = other.dimVars.length)
    (hindexes : sig.indexVars.length = other.indexVars.length) :
    Carries (carry sig.seenDims other.seenDims) (carry sig.seenAxes other.seenAxes) sig other := by
  have hd := length_seenDims_eq hdims
  have hi := length_seenAxes_eq hindexes
  have hdset : ∀ {S : Type} (sig : FunctionSignature S Name B),
      {v | v ∈ sig.seenDims} = sig.dimBinders := fun sig => Set.ext fun v => mem_seenDims
  have hiset : ∀ {S : Type} (sig : FunctionSignature S Name B),
      {i | i ∈ sig.seenAxes} = sig.indexBinders := fun sig => Set.ext fun i => mem_seenAxes
  refine ⟨?_, ?_, fun v hv => ?_, fun i hmem => ?_⟩
  · rw [← hdset, ← hdset]
    exact carry_bijOn hd (nodup_firstSeen _) (nodup_firstSeen _)
  · rw [← hiset, ← hiset]
    exact carry_bijOn hi (nodup_firstSeen _) (nodup_firstSeen _)
  · have hseen := mem_seenDims.mpr hv
    have hcarried := mem_seenDims.mp (carry_mem hd hseen)
    rw [dimPosition, dimPosition, dim_of hcarried, dim_of hv,
      idxOf_carry hd (nodup_firstSeen _) hseen]
  · have hseen := mem_seenAxes.mpr hmem
    have hcarried := mem_seenAxes.mp (carry_mem hi hseen)
    unfold axisPosition axis
    rw [index_of hcarried, index_of hmem, idxOf_carry hi (nodup_firstSeen _) hseen]

variable {f : DimBinder Name → DimBinder Name} {g : IndexBinder Name → IndexBinder Name}

theorem asBareVar_eq_some_iff {m : DimMonomial (DimBinder Name) B} {v : DimBinder Name} :
    m.asBareVar = some v ↔
      m.vars.factors.entries = [(v, Ratio.one)] ∧ m.fixed = .dimensionless := by
  refine ⟨DimMonomial.asBareVar_eq_some, fun ⟨hentries, hfixed⟩ => ?_⟩
  unfold DimMonomial.asBareVar SparseMonomial.asSingle
  rw [hentries, hfixed]
  rfl

theorem bareVar_rename (hf : Set.InjOn f sig.dimBinders)
    {e : ScalarValueKind (DimBinder Name) B} (he : ∀ v ∈ e.binders, v ∈ sig.dimBinders) :
    (e.rename f).bareVar = e.bareVar.map f := by
  cases e with
  | quantity m =>
    have hperm := factors_rename_perm hf he
    apply Option.ext
    intro w
    change (m.rename f).asBareVar = some w ↔ m.asBareVar.map f = some w
    rw [Option.map_eq_some_iff, asBareVar_eq_some_iff]
    constructor
    · rintro ⟨hentries, hfixed⟩
      rw [hentries, List.singleton_perm] at hperm
      obtain ⟨⟨v, p⟩, hm, hv⟩ := List.map_eq_singleton_iff.mp hperm.symm
      simp only [Prod.mk.injEq] at hv
      exact ⟨v, asBareVar_eq_some_iff.mpr ⟨by rw [hm, hv.2], hfixed⟩, hv.1⟩
    · rintro ⟨v, hv, rfl⟩
      obtain ⟨hentries, hfixed⟩ := asBareVar_eq_some_iff.mp hv
      rw [hentries, List.map_singleton, List.perm_singleton] at hperm
      exact ⟨hperm, hfixed⟩
  | bool => rfl
  | int => rfl

theorem indexes_rename (k : BoundKind Name B) : (k.rename f g).indexes = k.indexes.map g := by
  cases k <;> rfl

theorem element_rename (k : BoundKind Name B) : (k.rename f g).element = k.element.rename f := by
  cases k <;> rfl

/-- A renaming of binders that carries the parameter kinds carries the positions. -/
theorem carries_of_rename (hdims : Set.BijOn f sig.dimBinders other.dimBinders)
    (hindexes : Set.BijOn g sig.indexBinders other.indexBinders)
    (hparams : sig.params.map (fun p => p.kind.rename f g) =
      other.params.map FunctionParam.kind) :
    other.seenDims = sig.seenDims.map f ∧ other.seenAxes = sig.seenAxes.map g ∧
      Carries f g sig other := by
  have hbound : boundBinders other.params = (boundBinders sig.params).map f := by
    have hother : boundBinders other.params =
        (other.params.map FunctionParam.kind).filterMap fun k => k.element.bareVar := by
      rw [List.filterMap_map]
      rfl
    rw [hother, ← hparams, List.filterMap_map, boundBinders, List.map_filterMap]
    refine List.filterMap_congr fun p hp => ?_
    rw [Function.comp_apply, element_rename]
    exact bareVar_rename hdims.injOn (scoped_param hp).1
  have haxis : axisBinders other.params = (axisBinders sig.params).map g := by
    have hother : axisBinders other.params =
        (other.params.map FunctionParam.kind).flatMap ParamKind.indexes := by
      rw [List.flatMap_map]
      rfl
    rw [hother, ← hparams, List.flatMap_map, axisBinders, List.map_flatMap]
    exact List.flatMap_congr fun p hp => indexes_rename p.kind
  have hseenDims : other.seenDims = sig.seenDims.map f := by
    rw [seenDims, hbound]
    exact firstSeen_map fun v hv w hw h => hdims.injOn (declared_of_mem_boundBinders hv)
      (declared_of_mem_boundBinders hw) h
  have hseenAxes : other.seenAxes = sig.seenAxes.map g := by
    rw [seenAxes, haxis]
    exact firstSeen_map fun i hi j hj h => hindexes.injOn (declared_of_mem_axisBinders hi)
      (declared_of_mem_axisBinders hj) h
  refine ⟨hseenDims, hseenAxes, hdims, hindexes, fun v hv => ?_, fun i hi => ?_⟩
  · rw [dimPosition, dimPosition, dim_of (hdims.mapsTo hv), dim_of hv, hseenDims, idxOf_map]
    exact fun w hw h => hdims.injOn (mem_seenDims.mp hw) hv h
  · unfold axisPosition axis
    rw [index_of (hindexes.mapsTo hi), index_of hi, hseenAxes, idxOf_map]
    exact fun j hj h => hindexes.injOn (mem_seenAxes.mp hj) hi h

theorem structurallyEquivalent_iff_rename :
    sig.structurallyEquivalent other = true ↔
      ∃ f g, Set.BijOn f sig.dimBinders other.dimBinders ∧
        Set.BijOn g sig.indexBinders other.indexBinders ∧
        sig.params.map (fun p => p.kind.rename f g) = other.params.map FunctionParam.kind ∧
        ResultRenamed f g sig.result other.result := by
  rw [structurallyEquivalent_iff_positions]
  constructor
  · intro h
    have hc := carries_carry h.dimVars h.indexVars
    exact ⟨_, _, hc.dims, hc.indexes, (forall₂_sameKind_iff hc).mp h.params,
      (sameResult_iff_renamed hc).mp h.result⟩
  · rintro ⟨f, g, hf, hg, hparams, hresult⟩
    obtain ⟨hseenDims, hseenAxes, hc⟩ := carries_of_rename hf hg hparams
    refine ⟨?_, ?_, (forall₂_sameKind_iff hc).mpr hparams,
      (sameResult_iff_renamed hc).mpr hresult⟩
    · rw [← length_seenDims, ← length_seenDims, hseenDims, List.length_map]
    · rw [← length_seenAxes, ← length_seenAxes, hseenAxes, List.length_map]

end Renaming

end FunctionSignature

end ProvenGraphcal
