import Mathlib.Data.List.Perm.Basic

/-!
# Lists that agree up to a reordering

The items of one list can be paired with those of the other, as multisets with a relation in the
place of equality. A search that takes away the first partner it finds decides this when all
partners of an item have the same partners.
-/

namespace ProvenGraphcal.Reordering

variable {α β γ : Type*}

/-- The right list has an order in which it is related to the left one item by item. -/
def Reordered (R : α → β → Prop) (l : List α) (r : List β) : Prop :=
  ∃ mid, List.Forall₂ R l mid ∧ mid.Perm r

section Reordered

variable {R : α → β → Prop} {l : List α} {r : List β}

theorem Reordered.of_forall₂ (h : List.Forall₂ R l r) : Reordered R l r := ⟨r, h, .refl r⟩

section

variable (h : Reordered R l r)

include h

theorem Reordered.length_eq : l.length = r.length := by
  obtain ⟨mid, hmid, hperm⟩ := h
  rw [hmid.length_eq, hperm.length_eq]

theorem Reordered.flip : Reordered (fun b a => R a b) r l := by
  obtain ⟨mid, hmid, hperm⟩ := h
  obtain ⟨mid', hmid', hperm'⟩ := List.perm_comp_forall₂ hperm.symm hmid.flip
  exact ⟨mid', hmid', hperm'⟩

theorem Reordered.comp {S : β → γ → Prop} {t : List γ} (h' : Reordered S r t) :
    Reordered (Relation.Comp R S) l t := by
  obtain ⟨mid, hmid, hperm⟩ := h
  obtain ⟨mid', hmid', hperm'⟩ := h'
  obtain ⟨mid'', hmid'', hperm''⟩ := List.perm_comp_forall₂ hperm hmid'
  refine ⟨mid'', ?_, hperm''.trans hperm'⟩
  rw [List.forall₂_iff_get] at hmid hmid'' ⊢
  refine ⟨hmid.1.trans hmid''.1, fun i hi hi' => ?_⟩
  exact ⟨_, hmid.2 i hi (hmid.1 ▸ hi), hmid''.2 i (hmid.1 ▸ hi) hi'⟩

theorem Reordered.imp_mem {S : α → β → Prop} (himp : ∀ a ∈ l, ∀ b, R a b → S a b) :
    Reordered S l r := by
  obtain ⟨mid, hmid, hperm⟩ := h
  refine ⟨mid, ?_, hperm⟩
  rw [List.forall₂_iff_get] at hmid ⊢
  exact ⟨hmid.1, fun i hi hi' => himp _ (List.get_mem l ⟨i, hi⟩) _ (hmid.2 i hi hi')⟩

/-- Related items that are counted alike are as many on both sides. -/
theorem Reordered.countP_eq {p : α → Bool} {q : β → Bool} (hcount : ∀ a b, R a b → p a = q b) :
    l.countP p = r.countP q := by
  obtain ⟨mid, hmid, hperm⟩ := h
  rw [← hperm.countP_eq]
  clear hperm
  induction hmid with
  | nil => rfl
  | cons hab _ ih => rw [List.countP_cons, List.countP_cons, hcount _ _ hab, ih]

end

/-- With distinct values in the same order, a reordering changes nothing. -/
theorem eq_of_perm_of_map_eq {K : Type*} {f : β → K} {mid : List β} (hperm : mid.Perm r)
    (hmap : mid.map f = r.map f) (hnodup : (r.map f).Nodup) : mid = r := by
  apply List.ext_getElem hperm.length_eq
  intro i hi hi'
  obtain ⟨j, hj, heq⟩ := List.mem_iff_getElem.mp (hperm.subset (List.getElem_mem hi))
  have hvalue : (r.map f)[j]? = (r.map f)[i]? := by
    calc (r.map f)[j]? = (mid.map f)[i]? := by
          rw [List.getElem?_map, List.getElem?_map, List.getElem?_eq_getElem hi,
            List.getElem?_eq_getElem hj, heq]
      _ = (r.map f)[i]? := by rw [hmap]
  have hindex : j = i :=
    (List.getElem?_inj (by rwa [List.length_map]) hnodup).mp hvalue
  subst hindex
  exact heq.symm

theorem forall₂_of_reordered {K : Type*} {f : α → K} {g : β → K} (h : Reordered R l r)
    (hkey : ∀ a b, R a b → f a = g b) (hmap : l.map f = r.map g) (hnodup : (l.map f).Nodup) :
    List.Forall₂ R l r := by
  obtain ⟨mid, hmid, hperm⟩ := h
  have hmid' : mid.map g = l.map f := by
    rw [← List.forall₂_eq_eq_eq, List.forall₂_map_left_iff, List.forall₂_map_right_iff]
    exact hmid.flip.imp fun b a hab => (hkey a b hab).symm
  rw [← eq_of_perm_of_map_eq hperm (hmid'.trans hmap) (hmap ▸ hnodup)]
  exact hmid

end Reordered

/-- Remove an item by putting the last one in its place. -/
def swapRemove (l : List α) (i : ℕ) : List α :=
  match l.getLast? with
  | none => []
  | some last => (l.set i last).dropLast

theorem swapRemove_perm {l : List α} {i : ℕ} (h : i < l.length) :
    (l[i] :: swapRemove l i).Perm l := by
  obtain rfl | ⟨init, last, rfl⟩ := List.eq_nil_or_concat' l
  · cases h
  · have hlast : (init ++ [last]).getLast? = some last := List.getLast?_concat
    rw [swapRemove, hlast]
    dsimp only
    by_cases hi : i < init.length
    · rw [List.getElem_append_left hi, List.set_append_left _ _ hi, List.dropLast_concat]
      calc (init[i] :: init.set i last).Perm (init[i] :: last :: init.eraseIdx i) :=
            (List.set_perm_cons_eraseIdx hi last).cons _
        _ |>.Perm (last :: init[i] :: init.eraseIdx i) := .swap _ _ _
        _ |>.Perm (last :: init) := (List.getElem_cons_eraseIdx_perm hi).cons _
        _ |>.Perm (init ++ [last]) := (List.perm_append_singleton _ _).symm
    · have hi : i = init.length := by
        rw [List.length_append, List.length_singleton] at h
        omega
      subst hi
      rw [List.set_append_right _ _ (Nat.le_refl _), Nat.sub_self, List.getElem_concat_length rfl]
      show (last :: (init ++ [last]).dropLast).Perm _
      rw [List.dropLast_concat]
      exact (List.perm_append_singleton _ _).symm

variable {K : Type*} [DecidableEq K]

/-- Each item of the list in turn takes away a partner among the candidates under its key. -/
def matchAll (key : α → K) (equiv : α → β → Bool) : List α → (K → List β) → Bool
  | [], _ => true
  | a :: l, buckets =>
    match (buckets (key a)).findIdx? (equiv a) with
    | none => false
    | some i =>
      matchAll key equiv l (Function.update buckets (key a) (swapRemove (buckets (key a)) i))

theorem matchAll_map {key : α → K} {equiv : α → β → Bool} (f : γ → α) (l : List γ)
    (buckets : K → List β) :
    matchAll key equiv (l.map f) buckets =
      matchAll (fun c => key (f c)) (fun c => equiv (f c)) l buckets := by
  induction l generalizing buckets with
  | nil => rfl
  | cons c l ih =>
    rw [List.map_cons, matchAll, matchAll]
    simp only [ih]

/-- The items can be paired with some of the right list. -/
def Embeds (R : α → β → Prop) (l : List α) (r : List β) : Prop :=
  ∃ mid rest, List.Forall₂ R l mid ∧ (mid ++ rest).Perm r

variable {R : α → β → Prop}

theorem Reordered.of_embeds {l : List α} {r : List β} (h : Embeds R l r)
    (hlength : l.length = r.length) : Reordered R l r := by
  obtain ⟨mid, rest, hmid, hperm⟩ := h
  have hrest : rest = [] := by
    have hlength' := hperm.length_eq
    rw [List.length_append, ← hmid.length_eq] at hlength'
    apply List.length_eq_zero_iff.mp
    omega
  rw [hrest, List.append_nil] at hperm
  exact ⟨mid, hmid, hperm⟩

/-- Any partner of an item may be taken away: what was paired with it takes the item's other
partner. -/
theorem embeds_cons {a : α} {b : β} {l : List α} {r r' : List β}
    (hzigzag : ∀ x a b c, R x b → R a b → R a c → R x c) (hab : R a b)
    (hr : (b :: r').Perm r) : Embeds R (a :: l) r ↔ Embeds R l r' := by
  constructor
  · rintro ⟨_, rest, hall, hperm⟩
    obtain ⟨c, mid, hac, hmid, rfl⟩ := List.forall₂_cons_left_iff.mp hall
    have hcons : (b :: r').Perm (c :: (mid ++ rest)) := hr.trans hperm.symm
    rcases List.mem_cons.mp (hcons.subset List.mem_cons_self) with rfl | hb
    · exact ⟨mid, rest, hmid, (hcons.cons_inv).symm⟩
    · rcases List.mem_append.mp hb with hb | hb
      · -- the pair of `b` is given `c`
        obtain ⟨i, hi, rfl⟩ := List.mem_iff_getElem.mp hb
        refine ⟨mid.set i c, rest, ?_, ?_⟩
        · rw [List.forall₂_iff_get] at hmid ⊢
          refine ⟨by rw [List.length_set, hmid.1], fun j hj hj' => ?_⟩
          rw [List.length_set] at hj'
          rw [List.get_eq_getElem, List.get_eq_getElem, List.getElem_set]
          split_ifs with hij
          · subst hij
            exact hzigzag _ _ _ _ (hmid.2 i hj hj') hab hac
          · exact hmid.2 j hj hj'
        · apply List.Perm.cons_inv (a := mid[i])
          have hset : (mid[i] :: mid.set i c).Perm (c :: mid) :=
            ((List.set_perm_cons_eraseIdx hi c).cons _).trans
              ((List.Perm.swap _ _ _).trans ((List.getElem_cons_eraseIdx_perm hi).cons _))
          exact (hset.append_right rest).trans hcons.symm
      · obtain ⟨before, after, rfl⟩ := List.append_of_mem hb
        refine ⟨mid, c :: (before ++ after), hmid, ?_⟩
        apply List.Perm.cons_inv (a := b)
        refine List.Perm.trans ?_ hcons.symm
        have hmove : (mid ++ (before ++ b :: after)).Perm (b :: (mid ++ (before ++ after))) := by
          rw [← List.append_assoc, ← List.append_assoc]
          exact List.perm_middle
        calc (b :: (mid ++ c :: (before ++ after))).Perm
              (b :: c :: (mid ++ (before ++ after))) := List.perm_middle.cons _
          _ |>.Perm (c :: b :: (mid ++ (before ++ after))) := .swap _ _ _
          _ |>.Perm (c :: (mid ++ (before ++ b :: after))) := hmove.symm.cons _
  · rintro ⟨mid, rest, hmid, hperm⟩
    exact ⟨b :: mid, rest, .cons hab hmid, (hperm.cons b).trans hr⟩

/-- The search finds all partners when there are some, whichever it takes first. -/
theorem matchAll_iff {key : α → K} {keyRight : β → K} {equiv : α → β → Bool}
    (hzigzag : ∀ x a b c, R x b → R a b → R a c → R x c)
    (hkey : ∀ a b, R a b → key a = keyRight b) {l : List α} {r : List β}
    {buckets : K → List β}
    (hequiv : ∀ a ∈ l, ∀ b, equiv a b = true ↔ R a b)
    (hbuckets : ∀ k, (buckets k).Perm (r.filter fun b => keyRight b = k)) :
    matchAll key equiv l buckets = true ↔ Embeds R l r := by
  induction l generalizing r buckets with
  | nil =>
    exact ⟨fun _ => ⟨[], r, .nil, .refl r⟩, fun _ => rfl⟩
  | cons a l ih =>
    obtain ⟨hfirst, hrest⟩ := List.forall_mem_cons.mp hequiv
    rw [matchAll]
    cases hfind : (buckets (key a)).findIdx? (equiv a) with
    | none =>
      constructor
      · intro h
        cases h
      · rintro ⟨_, rest, hall, hperm⟩
        obtain ⟨b, mid, hab, -, rfl⟩ := List.forall₂_cons_left_iff.mp hall
        have hmem : b ∈ buckets (key a) := by
          rw [(hbuckets (key a)).mem_iff, List.mem_filter, decide_eq_true_eq]
          exact ⟨hperm.subset List.mem_cons_self, (hkey a b hab).symm⟩
        have hno := List.findIdx?_eq_none_iff.mp hfind b hmem
        rw [(hfirst b).mpr hab] at hno
        cases hno
    | some i =>
      obtain ⟨hi, hpartner, -⟩ := List.findIdx?_eq_some_iff_getElem.mp hfind
      have hab := (hfirst _).mp hpartner
      have hremoved := swapRemove_perm hi
      generalize (buckets (key a))[i] = b at hab hremoved
      have hmem : b ∈ r := by
        have hbucket := hremoved.subset List.mem_cons_self
        rw [(hbuckets (key a)).mem_iff] at hbucket
        exact (List.mem_filter.mp hbucket).1
      obtain ⟨before, after, rfl⟩ := List.append_of_mem hmem
      have hr : (b :: (before ++ after)).Perm (before ++ b :: after) := List.perm_middle.symm
      rw [embeds_cons hzigzag hab hr]
      apply ih hrest
      intro k
      have hfilter := (hbuckets k).trans (hr.symm.filter _)
      rw [List.filter_cons] at hfilter
      by_cases hk : k = key a
      · subst hk
        rw [if_pos (decide_eq_true (hkey a b hab).symm)] at hfilter
        rw [Function.update_self]
        exact (hremoved.trans hfilter).cons_inv
      · have hne : ¬ decide (keyRight b = k) = true := by
          rw [decide_eq_true_eq, ← hkey a b hab]
          exact fun h => hk h.symm
        rw [if_neg hne] at hfilter
        rwa [Function.update_of_ne hk]

end ProvenGraphcal.Reordering
