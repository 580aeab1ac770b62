import Mathlib.Data.List.Nodup
import Mathlib.Data.Set.Function
import ProvenGraphcal.Library.Checked

/-!
# Checked loops over a list

Loops that fail at the first item that breaks a rule, or whose key an earlier item has.
-/

namespace ProvenGraphcal.Checked

variable {α κ ε : Type}

/-- `if p { return Err(e) }`. -/
def reject (p : Prop) [Decidable p] (e : ε) : Except ε Unit := if p then .error e else .ok ()

variable {p : Prop} {u : Unit} {e : ε}

theorem reject_eq_ok [Decidable p] : reject p e = .ok u ↔ ¬ p := by
  unfold reject
  split_ifs with h
  · exact iff_of_false nofun (not_not.mpr h)
  · exact iff_of_true rfl h

theorem reject_of_not [Decidable p] (h : ¬ p) : reject p e = .ok () := if_neg h

theorem reject_eq_error [Decidable p] {e' : ε} :
    reject p e = .error e' ↔ p ∧ e = e' := by
  unfold reject
  split_ifs with h
  · exact ⟨fun he => ⟨h, Except.error.inj he⟩, fun he => congrArg _ he.2⟩
  · exact iff_of_false nofun fun he => h he.1

variable {l : List α} {f : α → Except ε Unit}

theorem forM_eq_ok :
    forM l f = .ok u ↔ ∀ a ∈ l, f a = .ok () := by
  induction l with
  | nil => exact iff_of_true rfl fun a ha => nomatch ha
  | cons a rest ih =>
    rw [List.forM_cons, bind_eq_ok, List.forall_mem_cons, ← ih]
    exact ⟨fun ⟨_, ha, hrest⟩ => ⟨ha, hrest⟩, fun h => ⟨(), h⟩⟩

/-- A loop that fails fails at one of the items. -/
theorem forM_eq_error (h : forM l f = .error e) :
    ∃ a ∈ l, f a = .error e := by
  induction l with
  | nil => cases h
  | cons a rest ih =>
    rw [List.forM_cons, bind_eq_error] at h
    rcases h with ha | ⟨_, -, hrest⟩
    · exact ⟨a, List.mem_cons_self, ha⟩
    · obtain ⟨b, hb, herror⟩ := ih hrest
      exact ⟨b, List.mem_cons_of_mem a hb, herror⟩

/-- A fold that fails fails at one of the items. -/
theorem foldlM_eq_error {β : Type} {f : β → α → Except ε β} {init : β}
    (h : l.foldlM f init = .error e) : ∃ a ∈ l, ∃ s, f s a = .error e := by
  induction l generalizing init with
  | nil => cases h
  | cons a rest ih =>
    rw [List.foldlM_cons, bind_eq_error] at h
    rcases h with ha | ⟨next, -, hrest⟩
    · exact ⟨a, List.mem_cons_self, init, ha⟩
    · obtain ⟨b, hb, herror⟩ := ih hrest
      exact ⟨b, List.mem_cons_of_mem a hb, herror⟩

variable [DecidableEq κ]

/-- Insert an item into those seen, unless an earlier one has its key, and check it. -/
def insertDistinct (key : α → κ) (duplicate : α → α → ε) (check : α → Except ε Unit)
    (seen : List α) (a : α) : Except ε (List α) :=
  match seen.find? fun b => key b = key a with
  | some first => .error (duplicate first a)
  | none => do
    check a
    return a :: seen

variable {key : α → κ} {duplicate : α → α → ε} {check : α → Except ε Unit}
variable {seen : List α} {a : α}

theorem insertDistinct_eq_ok {next : List α} :
    insertDistinct key duplicate check seen a = .ok next ↔
      key a ∉ seen.map key ∧ check a = .ok () ∧ next = a :: seen := by
  unfold insertDistinct
  split
  case h_1 first hfirst =>
    have hmem := List.mem_of_find?_eq_some hfirst
    have hkey : key first = key a := by simpa using List.find?_some hfirst
    refine iff_of_false nofun fun h => h.1 ?_
    exact hkey ▸ List.mem_map_of_mem hmem
  case h_2 hnone =>
    have hfresh : key a ∉ seen.map key := by
      rintro hmem
      obtain ⟨b, hb, hkey⟩ := List.mem_map.mp hmem
      simpa [hkey] using List.find?_eq_none.mp hnone b hb
    rw [bind_eq_ok]
    constructor
    · rintro ⟨_, hcheck, hnext⟩
      exact ⟨hfresh, hcheck, (Except.ok.inj hnext).symm⟩
    · rintro ⟨-, hcheck, rfl⟩
      exact ⟨(), hcheck, rfl⟩

theorem insertDistinct_eq_error (h : insertDistinct key duplicate check seen a = .error e) :
    (∃ first ∈ seen, e = duplicate first a) ∨ check a = .error e := by
  unfold insertDistinct at h
  split at h
  case h_1 first hfirst =>
    exact .inl ⟨first, List.mem_of_find?_eq_some hfirst, (Except.error.inj h).symm⟩
  case h_2 =>
    rcases bind_eq_error.mp h with hcheck | ⟨_, -, hok⟩
    · exact .inr hcheck
    · cases hok

theorem foldlM_insertDistinct {result : List α} (hseen : (seen.map key).Nodup) :
    l.foldlM (insertDistinct key duplicate check) seen = .ok result ↔
      ((l.reverse ++ seen).map key).Nodup ∧ (∀ a ∈ l, check a = .ok ()) ∧
        result = l.reverse ++ seen := by
  induction l generalizing seen with
  | nil =>
    rw [List.foldlM_nil]
    refine ⟨fun h => ?_, fun h => ?_⟩
    · cases h
      exact ⟨hseen, nofun, rfl⟩
    · exact congrArg Except.ok h.2.2.symm
  | cons a rest ih =>
    have hsplit : (a :: rest).reverse ++ seen = rest.reverse ++ a :: seen := by simp
    rw [List.foldlM_cons, bind_eq_ok, hsplit]
    constructor
    · rintro ⟨next, hnext, hrest⟩
      obtain ⟨hfresh, hcheck, rfl⟩ := insertDistinct_eq_ok.mp hnext
      have hcons : ((a :: seen).map key).Nodup := List.nodup_cons.mpr ⟨hfresh, hseen⟩
      obtain ⟨hnodup, hchecks, hresult⟩ := (ih hcons).mp hrest
      exact ⟨hnodup, List.forall_mem_cons.mpr ⟨hcheck, hchecks⟩, hresult⟩
    · rintro ⟨hnodup, hchecks, hresult⟩
      have hcons : ((a :: seen).map key).Nodup := by
        rw [List.map_append] at hnodup
        exact hnodup.of_append_right
      refine ⟨a :: seen, insertDistinct_eq_ok.mpr ⟨(List.nodup_cons.mp hcons).1,
        hchecks a List.mem_cons_self, rfl⟩, (ih hcons).mpr ⟨hnodup, ?_, hresult⟩⟩
      exact fun b hb => hchecks b (List.mem_cons_of_mem a hb)

/-- The loop succeeds when the keys are distinct and every item passes its check. -/
theorem distinct_eq_ok {result : List α} :
    l.foldlM (insertDistinct key duplicate check) [] = .ok result ↔
      (l.map key).Nodup ∧ (∀ a ∈ l, check a = .ok ()) ∧ result = l.reverse := by
  have hnil : (([] : List α).map key).Nodup := List.nodup_nil
  rw [foldlM_insertDistinct hnil, List.append_nil, List.map_reverse, List.nodup_reverse]

end ProvenGraphcal.Checked

/-!
# First occurrences

The distinct elements of a list in the order of their first occurrence, built left to right.
-/

namespace ProvenGraphcal.FirstSeen

variable {α β : Type*} [DecidableEq α] [DecidableEq β]

/-- Remember `a` unless it has been seen. -/
def see (seen : List α) (a : α) : List α := if a ∈ seen then seen else seen ++ [a]

def firstSeen (l : List α) : List α := l.foldl see []

variable {seen : List α} {a b : α}

theorem mem_see : b ∈ see seen a ↔ b ∈ seen ∨ b = a := by
  unfold see
  split_ifs with h
  · exact ⟨.inl, fun hb => hb.elim id fun he => he ▸ h⟩
  · simp

theorem nodup_see (h : seen.Nodup) (a : α) : (see seen a).Nodup := by
  unfold see
  split_ifs with hmem
  · exact h
  · rw [List.nodup_append]
    refine ⟨h, List.pairwise_singleton _ a, fun b hb c hc => ?_⟩
    rw [List.mem_singleton.mp hc]
    exact fun he => hmem (he ▸ hb)

theorem mem_foldl_see {l : List α} : b ∈ l.foldl see seen ↔ b ∈ seen ∨ b ∈ l := by
  induction l generalizing seen with
  | nil => simp
  | cons a rest ih => rw [List.foldl_cons, ih, mem_see, List.mem_cons, or_assoc]

theorem nodup_foldl_see {l : List α} (h : seen.Nodup) : (l.foldl see seen).Nodup := by
  induction l generalizing seen with
  | nil => exact h
  | cons a rest ih => exact ih (nodup_see h a)

@[simp] theorem mem_firstSeen {l : List α} : b ∈ firstSeen l ↔ b ∈ l := by
  simp [firstSeen, mem_foldl_see]

theorem nodup_firstSeen (l : List α) : (firstSeen l).Nodup := nodup_foldl_see List.nodup_nil

/-- Elements seen before add nothing. -/
theorem foldl_see_of_subset {l : List α} (h : ∀ a ∈ l, a ∈ seen) :
    l.foldl see seen = seen := by
  induction l with
  | nil => rfl
  | cons a rest ih =>
    rw [List.foldl_cons, see, if_pos (h a List.mem_cons_self)]
    exact ih fun b hb => h b (List.mem_cons_of_mem _ hb)

variable {f : α → β}

/-- An injective renaming commutes with the construction. -/
theorem foldl_see_map {l : List α} (hf : ∀ a ∈ seen ++ l, ∀ b ∈ seen ++ l, f a = f b → a = b) :
    (l.map f).foldl see (seen.map f) = (l.foldl see seen).map f := by
  induction l generalizing seen with
  | nil => rfl
  | cons a rest ih =>
    have hmem : f a ∈ seen.map f ↔ a ∈ seen := by
      constructor
      · intro h
        obtain ⟨b, hb, he⟩ := List.mem_map.mp h
        rwa [hf a (by simp) b (List.mem_append_left _ hb) he.symm]
      · exact List.mem_map_of_mem
    have hsee : see (seen.map f) (f a) = (see seen a).map f := by
      unfold see
      by_cases h : a ∈ seen
      · rw [if_pos h, if_pos (hmem.mpr h)]
      · rw [if_neg h, if_neg (fun h' => h (hmem.mp h')), List.map_append, List.map_singleton]
    rw [List.map_cons, List.foldl_cons, List.foldl_cons, hsee]
    have hmono : ∀ b ∈ see seen a ++ rest, b ∈ seen ++ a :: rest := by
      intro b hb
      rw [List.mem_append, mem_see, or_assoc] at hb
      exact List.mem_append.mpr (hb.imp_right List.mem_cons.mpr)
    exact ih fun b hb c hc => hf b (hmono b hb) c (hmono c hc)

theorem firstSeen_map {l : List α} (hf : ∀ a ∈ l, ∀ b ∈ l, f a = f b → a = b) :
    firstSeen (l.map f) = (firstSeen l).map f := by
  have hnil : ∀ a ∈ [] ++ l, ∀ b ∈ [] ++ l, f a = f b → a = b := by simpa using hf
  exact foldl_see_map hnil

theorem idxOf_map {l : List α} (hf : ∀ b ∈ l, f b = f a → b = a) :
    (l.map f).idxOf (f a) = l.idxOf a := by
  induction l with
  | nil => rfl
  | cons b rest ih =>
    have hrest := ih fun c hc => hf c (List.mem_cons_of_mem _ hc)
    by_cases h : b = a
    · simp [h]
    · have hne : f b ≠ f a := fun he => h (hf b List.mem_cons_self he)
      rw [List.map_cons, List.idxOf_cons_ne _ hne, List.idxOf_cons_ne _ h, hrest]

/-- The element of `l'` at the position of `a` in `l`. -/
def carry (l l' : List α) (a : α) : α := (l'[l.idxOf a]?).getD a

variable {l l' : List α}

section

variable (hlen : l.length = l'.length)

include hlen

theorem getElem?_carry (ha : a ∈ l) : l'[l.idxOf a]? = some (carry l l' a) := by
  have hlt : l.idxOf a < l'.length := hlen ▸ List.idxOf_lt_length_iff.mpr ha
  rw [carry, List.getElem?_eq_getElem hlt, Option.getD_some]

theorem carry_mem (ha : a ∈ l) : carry l l' a ∈ l' :=
  List.mem_of_getElem? (getElem?_carry hlen ha)

theorem idxOf_carry (hl' : l'.Nodup) (ha : a ∈ l) : l'.idxOf (carry l l' a) = l.idxOf a := by
  obtain ⟨hlt, he⟩ := List.getElem?_eq_some_iff.mp (getElem?_carry hlen ha)
  rw [← he, hl'.idxOf_getElem]

theorem carry_carry (hl' : l'.Nodup) (ha : a ∈ l) : carry l' l (carry l l' a) = a := by
  have hback := getElem?_carry hlen.symm (carry_mem hlen ha)
  rw [idxOf_carry hlen hl' ha] at hback
  obtain ⟨hlt, he⟩ := List.getElem?_eq_some_iff.mp hback
  rw [← he, List.getElem_idxOf]

theorem carry_bijOn (hl : l.Nodup) (hl' : l'.Nodup) :
    Set.BijOn (carry l l') {a | a ∈ l} {b | b ∈ l'} := by
  refine ⟨fun a ha => carry_mem hlen ha, fun a ha b hb h => ?_, fun b hb => ?_⟩
  · rw [← carry_carry hlen hl' ha, h, carry_carry hlen hl' hb]
  · exact ⟨carry l' l b, carry_mem hlen.symm hb, carry_carry hlen.symm hl hb⟩

end

end ProvenGraphcal.FirstSeen
