import ProvenGraphcal.Library.CycleSearch

/-!
# Placing items after their targets

Items are placed one at a time, always the first whose targets are all placed. When no item is left
to place, the items form an order with every target before its readers; otherwise a walk among the
items left finds a closed chain of targets.
-/

namespace ProvenGraphcal

open Relation

variable {n : ℕ} (targets : Fin n → List (Fin n))

/-- The first item that is not placed and whose targets all are. -/
def readyItem (order : List (Fin n)) : Option (Fin n) :=
  (List.finRange n).find? fun item =>
    decide (item ∉ order) && (targets item).all fun target => decide (target ∈ order)

/-- The items left, in their order. -/
def unplaced (order : List (Fin n)) : List (Fin n) :=
  (List.finRange n).filter fun item => decide (item ∉ order)

def greedyOrderFrom : ℕ → List (Fin n) → Except (List (Fin n)) (List (Fin n))
  | 0, order => .ok order
  | left + 1, order =>
    match readyItem targets order with
    | none => .error (unplaced order)
    | some item => greedyOrderFrom left (order ++ [item])

/-- An order of all items, or the items that cannot be placed. -/
def greedyOrder : Except (List (Fin n)) (List (Fin n)) := greedyOrderFrom targets n []

/-- Walk to the first stuck target of each item until an item repeats. -/
def walkStuck (stuck : List (Fin n)) : ℕ → List (Fin n) → Fin n → List (Fin n)
  | 0, visited, _ => visited
  | left + 1, visited, current =>
    if current ∈ visited then visited.drop (visited.idxOf current)
    else
      match (targets current).find? fun target => decide (target ∈ stuck) with
      | none => visited ++ [current]
      | some next => walkStuck stuck left (visited ++ [current]) next

/-- The repeated part of a walk; no walk visits more than `n` items. -/
def extractCycle (start : Fin n) (stuck : List (Fin n)) : List (Fin n) :=
  walkStuck targets stuck (n + 1) [] start

/-- Lists built by adding items whose targets are all there. -/
inductive Placed : List (Fin n) → Prop
  | nil : Placed []
  | snoc {order : List (Fin n)} {item : Fin n} (h : Placed order) (hnew : item ∉ order)
      (htargets : ∀ target ∈ targets item, target ∈ order) : Placed (order ++ [item])

variable {targets}
variable {order : List (Fin n)}

theorem Placed.nodup (h : Placed targets order) : order.Nodup := by
  induction h with
  | nil => exact List.nodup_nil
  | snoc h hnew _ ih => exact List.nodup_append_comm.mp (List.nodup_cons.mpr ⟨hnew, ih⟩)

variable {item : Fin n}

/-- Every target stands before the items that lead to it. -/
theorem Placed.idxOf_lt (h : Placed targets order) {target : Fin n} (hitem : item ∈ order)
    (htarget : target ∈ targets item) :
    target ∈ order ∧ order.idxOf target < order.idxOf item := by
  induction h with
  | nil => cases hitem
  | @snoc order last h hnew htargets ih =>
    by_cases hold : item ∈ order
    · obtain ⟨hmem, hlt⟩ := ih hold
      rw [List.idxOf_append_of_mem hmem, List.idxOf_append_of_mem hold]
      exact ⟨List.mem_append_left _ hmem, hlt⟩
    · have hlast : item = last := by
        rcases List.mem_append.mp hitem with hmem | hmem
        · exact absurd hmem hold
        · exact List.mem_singleton.mp hmem
      subst hlast
      have hmem := htargets target htarget
      refine ⟨List.mem_append_left _ hmem, ?_⟩
      rw [List.idxOf_append_of_mem hmem, List.idxOf_append_of_notMem hnew]
      exact (List.idxOf_lt_length_of_mem hmem).trans_le (Nat.le_add_right _ _)

theorem Placed.acc (h : Placed targets order) (hitem : item ∈ order) :
    Acc (fun b a => b ∈ targets a) item := by
  induction h generalizing item with
  | nil => cases hitem
  | snoc _ _ htargets ih =>
    rcases List.mem_append.mp hitem with hmem | hmem
    · exact ih hmem
    · rw [List.mem_singleton.mp hmem]
      exact ⟨_, fun target htarget => ih (htargets target htarget)⟩

theorem readyItem_eq_some (h : readyItem targets order = some item) :
    item ∉ order ∧ ∀ target ∈ targets item, target ∈ order := by
  have hready := List.find?_some h
  simp only [Bool.and_eq_true, decide_eq_true_eq, List.all_eq_true] at hready
  exact hready

theorem readyItem_eq_none (h : readyItem targets order = none) (hitem : item ∉ order) :
    ∃ target ∈ targets item, target ∉ order := by
  have hnot := List.find?_eq_none.mp h item (List.mem_finRange item)
  simp only [Bool.and_eq_true, decide_eq_true_eq, List.all_eq_true, not_and, not_forall] at hnot
  obtain ⟨target, htarget, hplaced⟩ := hnot hitem
  exact ⟨target, htarget, hplaced⟩

theorem mem_unplaced :
    item ∈ unplaced order ↔ item ∉ order := by
  simp [unplaced]

/-- Items that are all stuck lead to one another. -/
structure Stuck (targets : Fin n → List (Fin n)) (stuck : List (Fin n)) : Prop where
  ne_nil : stuck ≠ []
  leads : ∀ item ∈ stuck, ∃ target ∈ targets item, target ∈ stuck

theorem Placed.mem_of_length (h : Placed targets order) (hlength : order.length = n)
    (item : Fin n) : item ∈ order := by
  have hcard : order.toFinset.card = Fintype.card (Fin n) := by
    rw [List.toFinset_card_of_nodup h.nodup, hlength, Fintype.card_fin]
  rw [← List.mem_toFinset, (Finset.card_eq_iff_eq_univ _).mp hcard]
  exact Finset.mem_univ item

theorem stuck_unplaced (hlength : order.length < n) (hnone : readyItem targets order = none) :
    Stuck targets (unplaced order) := by
  refine ⟨fun hnil => ?_, fun item hitem => ?_⟩
  · -- with nothing left, every item is in the order
    have hall : List.finRange n ⊆ order := fun item _ => by
      by_contra hitem
      exact List.ne_nil_of_mem (mem_unplaced.mpr hitem) hnil
    have hle := ((List.nodup_finRange n).subperm hall).length_le
    rw [List.length_finRange] at hle
    omega
  · obtain ⟨target, htarget, hplaced⟩ := readyItem_eq_none hnone (mem_unplaced.mp hitem)
    exact ⟨target, htarget, mem_unplaced.mpr hplaced⟩

variable {left : ℕ}

theorem greedyOrderFrom_spec (h : Placed targets order) (hlength : order.length + left = n) :
    (∀ result, greedyOrderFrom targets left order = .ok result →
      Placed targets result ∧ result.length = n) ∧
    ∀ stuck, greedyOrderFrom targets left order = .error stuck → Stuck targets stuck := by
  induction left generalizing order with
  | zero =>
    refine ⟨fun result hresult => ?_, nofun⟩
    cases hresult
    exact ⟨h, hlength⟩
  | succ left ih =>
    rw [greedyOrderFrom]
    split
    case h_1 hnone =>
      refine ⟨nofun, fun stuck hstuck => ?_⟩
      cases hstuck
      exact stuck_unplaced (by omega) hnone
    case h_2 item hsome =>
      obtain ⟨hnew, htargets⟩ := readyItem_eq_some hsome
      refine ih (h.snoc hnew htargets) ?_
      rw [List.length_append, List.length_singleton]
      omega

theorem greedyOrder_eq_ok (h : greedyOrder targets = .ok order) :
    Placed targets order ∧ ∀ item, item ∈ order := by
  obtain ⟨hplaced, hlength⟩ :=
    (greedyOrderFrom_spec (.nil : Placed targets []) (Nat.zero_add n)).1 order h
  exact ⟨hplaced, hplaced.mem_of_length hlength⟩

variable {stuck : List (Fin n)}

theorem stuck_of_greedyOrder (h : greedyOrder targets = .error stuck) :
    Stuck targets stuck :=
  (greedyOrderFrom_spec (.nil : Placed targets []) (Nat.zero_add n)).2 stuck h

/-- Distinct items, each leading to the next and the last to the first. -/
def ClosedChain {α : Type} (r : α → α → Prop) (chain : List α) : Prop :=
  ∃ first rest, chain = first :: rest ∧ chain.Nodup ∧ (chain ++ [first]).IsChain r

theorem ClosedChain.transGen {α : Type} {r : α → α → Prop} {chain : List α}
    (h : ClosedChain r chain) : ∃ a, TransGen r a a := by
  obtain ⟨first, rest, rfl, -, hchain⟩ := h
  have hreach : ∀ (rest : List α) (a : α), (a :: rest ++ [first]).IsChain r →
      TransGen r a first := by
    intro rest
    induction rest with
    | nil =>
      intro a ha
      exact .single (List.isChain_pair.mp ha)
    | cons b rest ih =>
      intro a ha
      obtain ⟨hab, hrest⟩ := List.isChain_cons_cons.mp ha
      exact .head hab (ih b hrest)
  exact ⟨first, hreach rest first hchain⟩

variable {current : Fin n} {visited : List (Fin n)}

theorem walkStuck_ne_nil (h : visited ≠ [] ∨ 0 < left) :
    walkStuck targets stuck left visited current ≠ [] := by
  induction left generalizing visited current with
  | zero => exact h.resolve_right (Nat.lt_irrefl 0)
  | succ left ih =>
    rw [walkStuck]
    split_ifs with hrepeat
    · exact List.ne_nil_of_length_pos (by
        rw [List.length_drop]
        exact Nat.sub_pos_of_lt (List.idxOf_lt_length_of_mem hrepeat))
    · split
      · exact List.append_ne_nil_of_right_ne_nil _ (List.cons_ne_nil _ _)
      · exact ih (.inl (List.append_ne_nil_of_right_ne_nil _ (List.cons_ne_nil _ _)))

theorem extractCycle_ne_nil (start : Fin n) (stuck : List (Fin n)) :
    extractCycle targets start stuck ≠ [] :=
  walkStuck_ne_nil (.inr (Nat.zero_lt_succ n))

/-- The walk among stuck items closes: it has not enough items to go on for ever. -/
theorem closedChain_walkStuck (h : Stuck targets stuck) (hlength : visited.length + left = n + 1)
    (hnodup : visited.Nodup) (hcurrent : current ∈ stuck)
    (hchain : (visited ++ [current]).IsChain fun a b => b ∈ targets a) :
    ClosedChain (fun a b => b ∈ targets a) (walkStuck targets stuck left visited current) := by
  induction left generalizing visited current with
  | zero =>
    have hle := hnodup.length_le_card
    rw [Fintype.card_fin] at hle
    omega
  | succ left ih =>
    rw [walkStuck]
    split_ifs with hrepeat
    · have hdrop : visited.drop (visited.idxOf current) =
          current :: visited.drop (visited.idxOf current + 1) := by
        rw [List.drop_eq_getElem_cons (List.idxOf_lt_length_of_mem hrepeat), List.getElem_idxOf]
      refine ⟨current, _, hdrop, hnodup.sublist (List.drop_sublist _ _), ?_⟩
      have hsuffix : visited.drop (visited.idxOf current) ++ [current] <:+ visited ++ [current] :=
        ⟨visited.take (visited.idxOf current), by
          rw [← List.append_assoc, List.take_append_drop]⟩
      exact hchain.suffix hsuffix
    · obtain ⟨target, htarget, hstuck⟩ := h.leads current hcurrent
      split
      case h_1 hnone => exact absurd (decide_eq_true hstuck) (List.find?_eq_none.mp hnone _ htarget)
      case h_2 next hsome =>
        have hnext : next ∈ targets current := List.mem_of_find?_eq_some hsome
        have hnextStuck : next ∈ stuck := by
          have hfound := List.find?_some hsome
          exact of_decide_eq_true hfound
        refine ih ?_ ?_ hnextStuck ?_
        · rw [List.length_append, List.length_singleton]
          omega
        · exact List.nodup_append_comm.mp (List.nodup_cons.mpr ⟨hrepeat, hnodup⟩)
        · refine List.isChain_append.mpr ⟨hchain, List.isChain_singleton _, ?_⟩
          simp only [List.getLast?_append, List.getLast?_singleton, List.head?_cons]
          intro a ha b hb
          cases ha
          cases hb
          exact hnext

theorem closedChain_extractCycle (h : Stuck targets stuck) {start : Fin n}
    (hstart : start ∈ stuck) :
    ClosedChain (fun a b => b ∈ targets a) (extractCycle targets start stuck) :=
  closedChain_walkStuck h (Nat.zero_add _) List.nodup_nil hstart (List.isChain_singleton _)

/-- An order is found exactly when no item leads back to itself. -/
theorem exists_greedyOrder_iff :
    (∃ order, greedyOrder targets = .ok order) ↔
      ∀ item, ¬ TransGen (fun a b => b ∈ targets a) item item := by
  constructor
  · rintro ⟨order, horder⟩ item
    obtain ⟨hplaced, hall⟩ := greedyOrder_eq_ok horder
    exact not_transGen_of_acc (hplaced.acc (hall item))
  · intro hacyclic
    cases hresult : greedyOrder targets with
    | ok order => exact ⟨order, rfl⟩
    | error stuck =>
      have hstuck := stuck_of_greedyOrder hresult
      obtain ⟨start, hstart⟩ := List.exists_mem_of_ne_nil _ hstuck.ne_nil
      obtain ⟨item, hloop⟩ := (closedChain_extractCycle hstuck hstart).transGen
      exact absurd hloop (hacyclic item)

end ProvenGraphcal
