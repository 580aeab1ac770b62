import ProvenGraphcal.Library.DistinctKeys
import ProvenGraphcal.Signature.Validation

/-!
# Structural equivalence of signatures

Binders are renumbered by first occurrence over the parameter list, and the renumbered kinds are
compared. In a validated signature the numbering is the order in which parameters bind the
variables, so it does not depend on names or declaration positions.
-/

set_option linter.unusedSectionVars false

namespace ProvenGraphcal

open FirstSeen

variable {S T Name B : Type} [LinearOrder Name] [LinearOrder B]

instance : DecidableEq (StructFieldKind B) := fun a b =>
  match a, b with
  | .quantity d, .quantity d' =>
    decidable_of_iff (d = d') ⟨fun h => by rw [h], fun h => by cases h; rfl⟩
  | .bool, .bool => .isTrue rfl
  | .int, .int => .isTrue rfl
  | .quantity _, .bool => .isFalse nofun
  | .quantity _, .int => .isFalse nofun
  | .bool, .quantity _ => .isFalse nofun
  | .bool, .int => .isFalse nofun
  | .int, .quantity _ => .isFalse nofun
  | .int, .bool => .isFalse nofun

instance : DecidableEq (StructShape Name B) := fun a b =>
  decidable_of_iff (a.fields = b.fields)
    ⟨fun h => by cases a; cases b; congr, congrArg StructShape.fields⟩

/-- A struct-result payload exposes the field shape that crosses the plugin boundary. -/
class StructResult (S : Type) (Name B : outParam Type) [LinearOrder B] where
  shape : S → StructShape Name B

/-- Binder positions renumbered by first occurrence across the parameter list. -/
structure FirstOccurrence where
  dims : List (Option ℕ)
  indexes : List (Option ℕ)

/-- Give `binder` the next number unless it has one. -/
def number (order : List (Option ℕ) × ℕ) (binder : ℕ) : List (Option ℕ) × ℕ :=
  match order.1[binder]? with
  | some none => (order.1.set binder (some order.2), order.2 + 1)
  | _ => order

namespace FirstOccurrence

/-- The two numberings of one pass over the parameters. -/
def of (sig : FunctionSignature S Name B) : FirstOccurrence where
  dims := (sig.params.foldl (fun order p =>
    (p.kind.element.binders.map DimBinder.index).foldl number order)
    (List.replicate sig.dimVars.length none, 0)).1
  indexes := (sig.params.foldl (fun order p =>
    (p.kind.indexes.map IndexBinder.index).foldl number order)
    (List.replicate sig.indexVars.length none, 0)).1

def dim (order : FirstOccurrence) (v : DimBinder Name) : Option ℕ := (order.dims[v.index]?).join

/-- `Ord` on optional positions: `None` first. -/
def keyLe (a b : Option ℕ × Rational) : Prop :=
  match a.1, b.1 with
  | none, _ => True
  | some _, none => False
  | some i, some j => i ≤ j

instance : DecidableRel keyLe := fun a b => by
  unfold keyLe
  split <;> infer_instance

/-- The factors by position, sorted, and the fixed dimension. The positions of a validated
monomial are distinct, so an unstable sort has one result. -/
def monomial (order : FirstOccurrence) (m : DimMonomial (DimBinder Name) B) :
    List (Option ℕ × Rational) × Dimension B :=
  ((m.vars.factors.entries.map fun f => (order.dim f.1, f.2)).insertionSort keyLe, m.fixed)

def scalarEquivalent (order other : FirstOccurrence) :
    ScalarValueKind (DimBinder Name) B → ScalarValueKind (DimBinder Name) B → Bool
  | .quantity left, .quantity right => order.monomial left = other.monomial right
  | .bool, .bool => true
  | .int, .int => true
  | _, _ => false

def paramEquivalent (order other : FirstOccurrence) : BoundKind Name B → BoundKind Name B → Bool
  | .scalar left, .scalar right => order.scalarEquivalent other left right
  | .indexed left leftIndexes, .indexed right rightIndexes =>
    order.scalarEquivalent other left right &&
      (leftIndexes.items.length == rightIndexes.items.length &&
        (leftIndexes.items.zip rightIndexes.items).all fun (l, r) =>
          order.indexes[l.index]? == other.indexes[r.index]?)
  | _, _ => false

end FirstOccurrence

namespace FunctionSignature

def resultEquivalent [StructResult S Name B] [StructResult T Name B]
    (order other : FirstOccurrence) :
    ResultKind S (DimBinder Name) (IndexBinder Name) B →
      ResultKind T (DimBinder Name) (IndexBinder Name) B → Bool
  | .value left, .value right => order.paramEquivalent other left right
  | .struct left, .struct right => StructResult.shape left = StructResult.shape right
  | _, _ => false

/-- Whether two signatures denote the same calling contract. -/
def structurallyEquivalent [StructResult S Name B] [StructResult T Name B]
    (sig : FunctionSignature S Name B) (other : FunctionSignature T Name B) : Bool :=
  let order := FirstOccurrence.of sig
  let otherOrder := FirstOccurrence.of other
  sig.dimVars.length == other.dimVars.length &&
    (sig.indexVars.length == other.indexVars.length &&
      (sig.params.length == other.params.length &&
        (((sig.params.zip other.params).all fun (l, r) =>
          order.paramEquivalent otherOrder l.kind r.kind) &&
          resultEquivalent order otherOrder sig.result other.result)))

end FunctionSignature

def DimMonomial.rename (f : DimBinder Name → DimBinder Name)
    (m : DimMonomial (DimBinder Name) B) : DimMonomial (DimBinder Name) B :=
  ⟨m.vars.mapKeys f, m.fixed⟩

def ScalarValueKind.rename (f : DimBinder Name → DimBinder Name) :
    ScalarValueKind (DimBinder Name) B → ScalarValueKind (DimBinder Name) B
  | .quantity m => .quantity (m.rename f)
  | .bool => .bool
  | .int => .int

/-- The kind with its variables renamed. -/
def ParamKind.rename (f : DimBinder Name → DimBinder Name)
    (g : IndexBinder Name → IndexBinder Name) : BoundKind Name B → BoundKind Name B
  | .scalar element => .scalar (element.rename f)
  | .indexed element indexes => .indexed (element.rename f) (indexes.map g)

/-- The result of one signature is the other's after renaming; struct results by shape. -/
def ResultRenamed [StructResult S Name B] [StructResult T Name B]
    (f : DimBinder Name → DimBinder Name) (g : IndexBinder Name → IndexBinder Name) :
    ResultKind S (DimBinder Name) (IndexBinder Name) B →
      ResultKind T (DimBinder Name) (IndexBinder Name) B → Prop
  | .value kind, .value kind' => kind.rename f g = kind'
  | .struct p, .struct q => StructResult.shape p = StructResult.shape q
  | _, _ => False

/-- The numbering after a list of binders: the positions in the list of first occurrences. -/
structure Numbered (n : ℕ) (order : List (Option ℕ) × ℕ) (seen : List ℕ) : Prop where
  length : order.1.length = n
  next : order.2 = seen.length
  slots : ∀ i < n, order.1[i]? = some (if i ∈ seen then some (seen.idxOf i) else none)

variable {n : ℕ}

theorem Numbered.step {order : List (Option ℕ) × ℕ} {seen : List ℕ} (h : Numbered n order seen)
    {binder : ℕ} (hb : binder < n) :
    Numbered n (number order binder) (see seen binder) := by
  unfold number
  rw [h.slots binder hb]
  by_cases hmem : binder ∈ seen
  · rw [if_pos hmem, see, if_pos hmem]
    exact h
  · rw [if_neg hmem, see, if_neg hmem]
    refine ⟨by simpa using h.length, by simp [h.next], fun i hi => ?_⟩
    rw [List.getElem?_set]
    by_cases hi' : binder = i
    · subst hi'
      rw [if_pos rfl, if_pos (h.length.symm ▸ hb), if_pos (by simp), h.next,
        List.idxOf_append_of_notMem hmem]
      simp
    · rw [if_neg hi', h.slots i hi]
      by_cases hseen : i ∈ seen
      · rw [if_pos hseen, if_pos (by simp [hseen]), List.idxOf_append_of_mem hseen]
      · rw [if_neg hseen, if_neg (by simp [hseen, Ne.symm hi'])]

theorem Numbered.foldl {n : ℕ} {order : List (Option ℕ) × ℕ} {seen l : List ℕ}
    (h : Numbered n order seen) (hl : ∀ b ∈ l, b < n) :
    Numbered n (l.foldl number order) (l.foldl see seen) := by
  induction l generalizing order seen with
  | nil => exact h
  | cons b rest ih =>
    exact ih (h.step (hl b List.mem_cons_self)) fun c hc => hl c (List.mem_cons_of_mem _ hc)

theorem numbered_initial (n : ℕ) : Numbered n (List.replicate n none, 0) [] := by
  refine ⟨List.length_replicate, rfl, fun i hi => ?_⟩
  simp [hi]

variable {α : Type}

/-- The slot of a binder after numbering the indexes of `l`. -/
theorem slot_eq [DecidableEq α] {index : α → ℕ} {l : List α} (hlt : ∀ a ∈ l, index a < n)
    (hinj : ∀ a ∈ l, ∀ b ∈ l, index a = index b → a = b) {a : α} (ha : a ∈ l) :
    (((l.map index).foldl number (List.replicate n none, 0)).1)[index a]? =
      some (some ((firstSeen l).idxOf a)) := by
  have hnum := (numbered_initial n).foldl (l := l.map index) (by simpa using hlt)
  have hseen : (l.map index).foldl see [] = (firstSeen l).map index := firstSeen_map hinj
  rw [hseen] at hnum
  rw [hnum.slots _ (hlt a ha), if_pos (List.mem_map_of_mem (mem_firstSeen.mpr ha)), idxOf_map]
  intro b hb he
  exact hinj b (mem_firstSeen.mp hb) a ha he

variable {v : DimBinder Name} {i : IndexBinder Name}

namespace FunctionSignature

variable (sig : FunctionSignature S Name B)

/-- The dimension variables in the order in which parameters bind them. -/
def seenDims : List (DimBinder Name) := firstSeen (boundBinders sig.params)

/-- The axis variables in the order in which parameters use them. -/
def seenAxes : List (IndexBinder Name) := firstSeen (axisBinders sig.params)

variable {sig}

theorem mem_seenDims : v ∈ sig.seenDims ↔ v ∈ sig.dimBinders := by
  rw [seenDims, mem_firstSeen]
  exact ⟨declared_of_mem_boundBinders, mem_boundBinders_of_declared⟩

theorem mem_seenAxes : i ∈ sig.seenAxes ↔ i ∈ sig.indexBinders := by
  rw [seenAxes, mem_firstSeen]
  exact ⟨declared_of_mem_axisBinders, mem_axisBinders_of_declared⟩

/-- Every binder of a parameter is bound by some bare parameter, and seen there first. -/
theorem foldl_see_binders {bound : List (DimBinder Name)} {params : List (BoundParam Name B)}
    (huse : BoundBeforeUse bound params) {seen : List (DimBinder Name)}
    (hbound : ∀ v ∈ bound, v ∈ seen) :
    (params.flatMap fun p => p.kind.element.binders).foldl see seen =
      (boundBinders params).foldl see seen := by
  induction params generalizing bound seen with
  | nil => rfl
  | cons p rest ih =>
    have hbinders : boundBinders (p :: rest) =
        p.kind.element.bareVar.toList ++ boundBinders rest := by
      unfold boundBinders
      rw [List.filterMap_cons]
      cases p.kind.element.bareVar <;> rfl
    have hfirst : p.kind.element.binders.foldl see seen =
        p.kind.element.bareVar.toList.foldl see seen := by
      cases hbare : p.kind.element.bareVar with
      | some v => rw [ScalarValueKind.binders_of_bareVar hbare, Option.toList_some]
      | none =>
        -- A compound use meets only variables that have their number already.
        have hsub := huse.1
        rw [hbare, Option.toList_none, List.append_nil] at hsub
        exact foldl_see_of_subset fun v hv => hbound v (hsub v hv)
    rw [List.flatMap_cons, List.foldl_append, hbinders, List.foldl_append, hfirst]
    refine ih huse.2 fun v hv => mem_foldl_see.mpr ?_
    exact (List.mem_append.mp hv).imp (hbound v) id

theorem firstSeen_binders :
    firstSeen (sig.params.flatMap fun p => p.kind.element.binders) = sig.seenDims :=
  foldl_see_binders sig.wellScoped.boundBeforeUse fun _ hv => (nomatch hv)

theorem binders_declared (hv : v ∈ sig.params.flatMap fun p => p.kind.element.binders) :
    v ∈ sig.dimBinders := by
  obtain ⟨p, hp, hmem⟩ := List.mem_flatMap.mp hv
  exact (sig.wellScoped.params_resolved p hp).dims v hmem

theorem dim_of (hv : v ∈ sig.dimBinders) :
    (FirstOccurrence.of sig).dim v = some (sig.seenDims.idxOf v) := by
  have hmem : v ∈ sig.params.flatMap fun p => p.kind.element.binders := by
    rw [← mem_firstSeen, firstSeen_binders]
    exact mem_seenDims.mpr hv
  have hslot := slot_eq (fun w hw => lt_of_resolved (binders_declared hw))
    (fun w hw w' hw' h => DimBinder.eq_of_index (binders_declared hw) (binders_declared hw') h) hmem
  rw [firstSeen_binders, List.map_flatMap, List.foldl_flatMap] at hslot
  unfold FirstOccurrence.dim FirstOccurrence.of
  rw [hslot]
  rfl

theorem index_of (hi : i ∈ sig.indexBinders) :
    (FirstOccurrence.of sig).indexes[i.index]? = some (some (sig.seenAxes.idxOf i)) := by
  have hmem : i ∈ axisBinders sig.params := mem_axisBinders_of_declared hi
  have hslot := slot_eq (fun w hw => lt_of_resolved (declared_of_mem_axisBinders hw))
    (fun w hw w' hw' h => IndexBinder.eq_of_index (declared_of_mem_axisBinders hw)
      (declared_of_mem_axisBinders hw') h) hmem
  rw [axisBinders, List.map_flatMap, List.foldl_flatMap] at hslot
  exact hslot

/-- A nodup list of declared binders that covers every position has one binder a position. -/
theorem length_eq_of_positions (index : α → ℕ) {l : List α} (hl : l.Nodup)
    (hinj : ∀ a ∈ l, ∀ b ∈ l, index a = index b → a = b) (hlt : ∀ a ∈ l, index a < n)
    (hcover : ∀ i < n, ∃ a ∈ l, index a = i) : l.length = n := by
  have hperm : (l.map index).Perm (List.range n) := by
    refine (List.perm_ext_iff_of_nodup (hl.map_on hinj) List.nodup_range).mpr fun i => ?_
    rw [List.mem_map, List.mem_range]
    exact ⟨fun ⟨a, ha, he⟩ => he ▸ hlt a ha, hcover i⟩
  simpa using hperm.length_eq

theorem length_seenDims : sig.seenDims.length = sig.dimVars.length := by
  refine length_eq_of_positions DimBinder.index (nodup_firstSeen _) (fun v hv w hw h => ?_)
    (fun v hv => ?_) fun i hi => ?_
  · exact DimBinder.eq_of_index (mem_seenDims.mp hv) (mem_seenDims.mp hw) h
  · exact lt_of_resolved (mem_seenDims.mp hv)
  · obtain ⟨v, hv, he⟩ := sig.wellScoped.dims_bound i hi
    exact ⟨v, mem_firstSeen.mpr hv, he⟩

theorem length_seenAxes : sig.seenAxes.length = sig.indexVars.length := by
  refine length_eq_of_positions IndexBinder.index (nodup_firstSeen _) (fun v hv w hw h => ?_)
    (fun v hv => ?_) fun i hi => ?_
  · exact IndexBinder.eq_of_index (mem_seenAxes.mp hv) (mem_seenAxes.mp hw) h
  · exact lt_of_resolved (mem_seenAxes.mp hv)
  · obtain ⟨v, hv, he⟩ := sig.wellScoped.indexes_used i hi
    exact ⟨v, mem_firstSeen.mpr hv, he⟩

end FunctionSignature

/-! ## Kinds compared by positions -/

section Positions

variable {P Q : Type}

/-- The same factors when variables are replaced by their positions. -/
def SameElement (p q : DimBinder Name → P) :
    ScalarValueKind (DimBinder Name) B → ScalarValueKind (DimBinder Name) B → Prop
  | .quantity m, .quantity m' => m.fixed = m'.fixed ∧
      (m.vars.factors.entries.map fun f => (p f.1, f.2)).Perm
        (m'.vars.factors.entries.map fun f => (q f.1, f.2))
  | .bool, .bool => True
  | .int, .int => True
  | _, _ => False

def SameKind (p q : DimBinder Name → P) (r s : IndexBinder Name → Q) :
    BoundKind Name B → BoundKind Name B → Prop
  | .scalar e, .scalar e' => SameElement p q e e'
  | .indexed e is, .indexed e' is' =>
    SameElement p q e e' ∧ is.items.map r = is'.items.map s
  | _, _ => False

def SameResult [StructResult S Name B] [StructResult T Name B] (p q : DimBinder Name → P)
    (r s : IndexBinder Name → Q) :
    ResultKind S (DimBinder Name) (IndexBinder Name) B →
      ResultKind T (DimBinder Name) (IndexBinder Name) B → Prop
  | .value k, .value k' => SameKind p q r s k k'
  | .struct p, .struct q => StructResult.shape p = StructResult.shape q
  | _, _ => False

theorem SameElement.symm {p q : DimBinder Name → P} {e e' : ScalarValueKind (DimBinder Name) B}
    (h : SameElement p q e e') : SameElement q p e' e := by
  cases e <;> cases e' <;> try exact h
  exact ⟨h.1.symm, h.2.symm⟩

theorem SameElement.trans {p q w : DimBinder Name → P}
    {e e' e'' : ScalarValueKind (DimBinder Name) B} (h : SameElement p q e e')
    (h' : SameElement q w e' e'') : SameElement p w e e'' := by
  cases e <;> cases e' <;> cases e'' <;> try contradiction
  · exact ⟨h.1.trans h'.1, h.2.trans h'.2⟩
  · trivial
  · trivial

theorem SameKind.refl (p : DimBinder Name → P) (r : IndexBinder Name → Q) (k : BoundKind Name B) :
    SameKind p p r r k k := by
  have helement : ∀ e : ScalarValueKind (DimBinder Name) B, SameElement p p e e := by
    intro e
    cases e
    · exact ⟨rfl, List.Perm.refl _⟩
    · trivial
    · trivial
  cases k with
  | scalar e => exact helement e
  | indexed e is => exact ⟨helement e, rfl⟩

theorem SameKind.symm {p q : DimBinder Name → P} {r s : IndexBinder Name → Q}
    {k k' : BoundKind Name B} (h : SameKind p q r s k k') : SameKind q p s r k' k := by
  cases k <;> cases k' <;> try exact h
  · exact SameElement.symm h
  · exact ⟨h.1.symm, h.2.symm⟩

theorem SameKind.trans {p q w : DimBinder Name → P} {r s t : IndexBinder Name → Q}
    {k k' k'' : BoundKind Name B} (h : SameKind p q r s k k') (h' : SameKind q w s t k' k'') :
    SameKind p w r t k k'' := by
  cases k <;> cases k' <;> cases k'' <;> try contradiction
  · exact SameElement.trans h h'
  · exact ⟨h.1.trans h'.1, h.2.trans h'.2⟩

theorem keyLe_total (a b : Option ℕ × Rational) : FirstOccurrence.keyLe a b ∨
    FirstOccurrence.keyLe b a := by
  obtain ⟨_ | i, p⟩ := a <;> obtain ⟨_ | j, q⟩ := b <;> simp [FirstOccurrence.keyLe, Nat.le_total]

theorem keyLe_trans (a b c : Option ℕ × Rational) (hab : FirstOccurrence.keyLe a b)
    (hbc : FirstOccurrence.keyLe b c) : FirstOccurrence.keyLe a c := by
  obtain ⟨_ | i, p⟩ := a <;> obtain ⟨_ | j, q⟩ := b <;> obtain ⟨_ | k, r⟩ := c <;>
    simp_all [FirstOccurrence.keyLe]
  exact hab.trans hbc

theorem keyLe_antisymm {a b : Option ℕ × Rational} (hab : FirstOccurrence.keyLe a b)
    (hba : FirstOccurrence.keyLe b a) : a.1 = b.1 := by
  obtain ⟨_ | i, p⟩ := a <;> obtain ⟨_ | j, q⟩ := b <;> simp_all [FirstOccurrence.keyLe]
  exact Nat.le_antisymm hab hba

instance : Std.Total (α := Option ℕ × Rational) FirstOccurrence.keyLe := ⟨keyLe_total⟩

instance : IsTrans (Option ℕ × Rational) FirstOccurrence.keyLe := ⟨keyLe_trans⟩

/-- Sorted by distinct keys, a list is determined by its elements. -/
theorem insertionSort_eq_iff {l l' : List (Option ℕ × Rational)} (hl : (l.map Prod.fst).Nodup) :
    l.insertionSort FirstOccurrence.keyLe = l'.insertionSort FirstOccurrence.keyLe ↔
      l.Perm l' := by
  constructor
  · intro h
    exact (List.perm_insertionSort _ l).symm.trans (h ▸ List.perm_insertionSort _ l')
  · intro h
    have hperm := (List.perm_insertionSort FirstOccurrence.keyLe l).trans
      (h.trans (List.perm_insertionSort FirstOccurrence.keyLe l').symm)
    refine hperm.eq_of_pairwise (fun a b ha hb hab hba => ?_) (List.pairwise_insertionSort _ l)
      (List.pairwise_insertionSort _ l')
    have ha' : a ∈ l := (List.mem_insertionSort _).mp ha
    have hb' : b ∈ l := h.mem_iff.mpr ((List.mem_insertionSort _).mp hb)
    exact List.inj_on_of_nodup_map hl ha' hb' (keyLe_antisymm hab hba)

end Positions

namespace FunctionSignature

/-- The binders of a kind are declared. -/
def Scoped (sig : FunctionSignature S Name B) (kind : BoundKind Name B) : Prop :=
  (∀ v ∈ kind.element.binders, v ∈ sig.dimBinders) ∧ ∀ i ∈ kind.indexes, i ∈ sig.indexBinders

def axis (order : FirstOccurrence) (i : IndexBinder Name) : Option (Option ℕ) :=
  order.indexes[i.index]?

variable {sig : FunctionSignature S Name B} {other : FunctionSignature T Name B}

theorem scoped_param {p : BoundParam Name B} (hp : p ∈ sig.params) : sig.Scoped p.kind :=
  ⟨(sig.wellScoped.params_resolved p hp).dims, (sig.wellScoped.params_resolved p hp).indexes⟩

theorem scoped_result {kind : BoundKind Name B} (h : sig.result = .value kind) :
    sig.Scoped kind :=
  ⟨(sig.wellScoped.result_resolved kind h).dims, (sig.wellScoped.result_resolved kind h).indexes⟩

theorem dim_inj {w : DimBinder Name} (hv : v ∈ sig.dimBinders) (hw : w ∈ sig.dimBinders)
    (h : (FirstOccurrence.of sig).dim v = (FirstOccurrence.of sig).dim w) : v = w := by
  rw [dim_of hv, dim_of hw, Option.some.injEq] at h
  exact (List.idxOf_inj (mem_seenDims.mpr hv)).mp h

theorem axis_inj {j : IndexBinder Name} (hi : i ∈ sig.indexBinders) (hj : j ∈ sig.indexBinders)
    (h : axis (FirstOccurrence.of sig) i = axis (FirstOccurrence.of sig) j) : i = j := by
  unfold axis at h
  rw [index_of hi, index_of hj, Option.some.injEq, Option.some.injEq] at h
  exact (List.idxOf_inj (mem_seenAxes.mpr hi)).mp h

theorem scalarEquivalent_iff {e e' : ScalarValueKind (DimBinder Name) B} {order' : FirstOccurrence}
    (he : ∀ v ∈ e.binders, v ∈ sig.dimBinders) :
    (FirstOccurrence.of sig).scalarEquivalent order' e e' = true ↔
      SameElement (FirstOccurrence.of sig).dim order'.dim e e' := by
  cases e with
  | quantity m =>
    cases e' with
    | quantity m' =>
      have hkeys : ((m.vars.factors.entries.map fun f =>
          ((FirstOccurrence.of sig).dim f.1, f.2)).map Prod.fst).Nodup := by
        have hmap : (m.vars.factors.entries.map fun f =>
            ((FirstOccurrence.of sig).dim f.1, f.2)).map Prod.fst =
            m.vars.factors.keys.map (FirstOccurrence.of sig).dim := by
          rw [SortedMap.keys, List.map_map, List.map_map]
          rfl
        rw [hmap]
        exact m.vars.factors.keys_nodup.map_on fun v hv w hw h => dim_inj (he v hv) (he w hw) h
      unfold FirstOccurrence.scalarEquivalent FirstOccurrence.monomial
      simp only [decide_eq_true_eq, Prod.mk.injEq]
      rw [insertionSort_eq_iff hkeys, and_comm]
      rfl
    | bool => simp [FirstOccurrence.scalarEquivalent, SameElement]
    | int => simp [FirstOccurrence.scalarEquivalent, SameElement]
  | bool => cases e' <;> simp [FirstOccurrence.scalarEquivalent, SameElement]
  | int => cases e' <;> simp [FirstOccurrence.scalarEquivalent, SameElement]

/-- Equal lengths and equal pairs make equal lists of images. -/
theorem zip_all_iff {β γ : Type} [BEq γ] [LawfulBEq γ] {r : α → γ} {s : β → γ} {l : List α}
    (l' : List β) :
    (l.length == l'.length && (l.zip l').all fun (a, b) => r a == s b) = true ↔
      l.map r = l'.map s := by
  induction l generalizing l' with
  | nil => cases l' <;> simp
  | cons a l ih =>
    cases l' with
    | nil => simp
    | cons b l' =>
      have h := ih l'
      simp only [Bool.and_eq_true, beq_iff_eq] at h
      simp only [List.length_cons, List.zip_cons_cons, List.all_cons, Bool.and_eq_true,
        beq_iff_eq, Nat.add_right_cancel_iff, List.map_cons, List.cons.injEq, ← h]
      tauto

theorem paramEquivalent_iff {k : BoundKind Name B} (order' : FirstOccurrence)
    (k' : BoundKind Name B) (hk : sig.Scoped k) :
    (FirstOccurrence.of sig).paramEquivalent order' k k' = true ↔
      SameKind (FirstOccurrence.of sig).dim order'.dim (axis (FirstOccurrence.of sig))
        (axis order') k k' := by
  cases k with
  | scalar e =>
    cases k' with
    | scalar e' => exact scalarEquivalent_iff hk.1
    | indexed e' is' => exact ⟨nofun, nofun⟩
  | indexed e is =>
    cases k' with
    | scalar e' => exact ⟨nofun, nofun⟩
    | indexed e' is' =>
      unfold FirstOccurrence.paramEquivalent
      rw [Bool.and_eq_true]
      exact and_congr (scalarEquivalent_iff hk.1)
        (zip_all_iff (r := axis (FirstOccurrence.of sig)) (s := axis order') is'.items)

end FunctionSignature

end ProvenGraphcal
