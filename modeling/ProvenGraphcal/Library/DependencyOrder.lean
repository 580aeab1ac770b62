import Mathlib.Data.List.Chain
import Mathlib.Data.List.Nodup

/-!
# Orders and cycles of a dependency relation

`dep v w` reads "`v` depends on `w`". A list is in order when every element stands after what it
depends on; a cycle is a list of distinct elements, each depending on the next and the last on the
first. A relation with an ordered list of its elements has no cycle.
-/

namespace ProvenGraphcal.DependencyOrder

open Relation

variable {α β : Type*} {dep : α → α → Prop}

/-- Every element of the list stands after everything it depends on. -/
def InOrder (dep : α → α → Prop) (order : List α) : Prop :=
  ∀ l v r, order = l ++ v :: r → ∀ w, dep v w → w ∈ l

theorem nodup_concat {l : List α} {a : α} (ha : a ∉ l) (hl : l.Nodup) : (l ++ [a]).Nodup := by
  rw [← List.concat_eq_append]
  exact hl.concat ha

theorem inOrder_nil : InOrder dep [] := by
  intro l v r h
  simp at h

theorem InOrder.concat {order : List α} (h : InOrder dep order) {v : α}
    (hv : ∀ w, dep v w → w ∈ order) : InOrder dep (order ++ [v]) := by
  intro l x r heq w hw
  rcases List.eq_nil_or_concat r with rfl | ⟨r', z, rfl⟩
  · obtain ⟨rfl, hx⟩ := List.append_inj' heq rfl
    obtain rfl : v = x := by simpa using hx
    exact hv w hw
  · have heq' : order ++ [v] = (l ++ x :: r') ++ [z] := by simpa using heq
    obtain ⟨rfl, -⟩ := List.append_inj' heq' rfl
    exact h l x r' rfl w hw

theorem InOrder.of_append {l r : List α} (h : InOrder dep (l ++ r)) : InOrder dep l := by
  intro l' v r' heq w hw
  exact h l' v (r' ++ r) (by rw [heq, List.append_assoc, List.cons_append]) w hw

/-- An order read through a map that separates elements from what they depend on. -/
theorem InOrder.of_map {dep' : β → β → Prop} (f : β → α) {order : List β}
    (h : InOrder dep (order.map f)) (hdep : ∀ v ∈ order, ∀ w, dep' v w →
      dep (f v) (f w) ∧ ∀ u ∈ order, f u = f w → u = w) : InOrder dep' order := by
  rintro l v r rfl w hw
  obtain ⟨hfw, hinj⟩ := hdep v (by simp) w hw
  have hmem := h (l.map f) (f v) (r.map f) (by simp) (f w) hfw
  obtain ⟨u, hu, heq⟩ := List.mem_map.mp hmem
  exact hinj u (List.mem_append_left _ hu) heq ▸ hu

/-- What holds of an element once it holds of everything the element depends on, holds of every
element of an ordered list. -/
theorem InOrder.induction {order : List α} (h : InOrder dep order) {P : α → Prop}
    (hP : ∀ v ∈ order, (∀ w, dep v w → P w) → P v) : ∀ v ∈ order, P v := by
  induction order using List.reverseRecOn with
  | nil => exact fun v hv => (nomatch hv)
  | append_singleton order v ih =>
    have hbefore := ih h.of_append fun u hu => hP u (List.mem_append_left _ hu)
    intro u hu
    rcases List.mem_append.mp hu with hu | hu
    · exact hbefore u hu
    · obtain rfl := List.mem_singleton.mp hu
      exact hP u (by simp) fun w hw => hbefore w (h order u [] rfl w hw)

theorem InOrder.not_transGen {order : List α} (h : InOrder dep order) :
    ∀ v ∈ order, ¬ TransGen dep v v := by
  refine h.induction fun v _ ih hloop => ?_
  -- The first step of the loop leads to an element with a loop of its own.
  obtain ⟨w, hvw, hwv⟩ := TransGen.head'_iff.mp hloop
  exact ih w hvw (TransGen.tail'_iff.mpr ⟨v, hwv, hvw⟩)

/-- Distinct elements, each depending on the next and the last on the first. -/
structure IsCycle (dep : α → α → Prop) (path : List α) : Prop where
  nonempty : path ≠ []
  nodup : path.Nodup
  chain : path.IsChain dep
  closes : ∀ first ∈ path.head?, ∀ last ∈ path.getLast?, dep last first

theorem reflTransGen_of_isChain {path : List α} (h : path.IsChain dep) {first last : α}
    (hfirst : first ∈ path.head?) (hlast : last ∈ path.getLast?) : ReflTransGen dep first last := by
  induction path generalizing first with
  | nil => cases hfirst
  | cons v rest ih =>
    cases hfirst
    cases rest with
    | nil =>
      cases hlast
      exact .refl
    | cons w rest =>
      obtain ⟨hvw, hrest⟩ := List.isChain_cons_cons.mp h
      exact .head hvw (ih hrest rfl (by simpa using hlast))

theorem IsCycle.transGen {path : List α} (h : IsCycle dep path) :
    ∃ v ∈ path, TransGen dep v v := by
  cases path with
  | nil => exact absurd rfl h.nonempty
  | cons v rest =>
    obtain ⟨last, hlast⟩ : ∃ last, last ∈ (v :: rest).getLast? :=
      ⟨_, List.getLast?_eq_getLast_of_ne_nil h.nonempty⟩
    have hpath := reflTransGen_of_isChain h.chain rfl hlast
    exact ⟨v, List.mem_cons_self, TransGen.tail'_iff.mpr ⟨last, hpath, h.closes v rfl last hlast⟩⟩

theorem IsCycle.depends {path : List α} (h : IsCycle dep path) {v : α} (hv : v ∈ path) :
    ∃ w, dep v w := by
  obtain ⟨l, r, rfl⟩ := List.append_of_mem hv
  cases r with
  | nil =>
    obtain ⟨first, hfirst⟩ : ∃ first, first ∈ (l ++ [v]).head? :=
      ⟨_, List.head?_eq_some_head (by simp)⟩
    exact ⟨first, h.closes first hfirst v (by simp)⟩
  | cons w r =>
    have hchain := (List.isChain_append.mp h.chain).2.1
    exact ⟨w, (List.isChain_cons_cons.mp hchain).1⟩

theorem IsCycle.of_map {dep' : β → β → Prop} (f : β → α) {path : List β}
    (h : IsCycle dep (path.map f)) (hdep : ∀ v ∈ path, ∀ w ∈ path, dep (f v) (f w) → dep' v w) :
    IsCycle dep' path := by
  have hchain := h.chain
  rw [List.isChain_map] at hchain
  refine ⟨fun hnil => h.nonempty (by rw [hnil, List.map_nil]), h.nodup.of_map,
    hchain.imp_of_mem_imp fun v w hv hw => hdep v hv w hw, fun first hfirst last hlast => ?_⟩
  refine hdep last (List.mem_of_getLast? hlast) first (List.mem_of_head? hfirst) ?_
  refine h.closes (f first) ?_ (f last) ?_
  · rw [List.head?_map]
    exact Option.map_eq_some_iff.mpr ⟨first, hfirst, rfl⟩
  · rw [List.getLast?_map]
    exact Option.map_eq_some_iff.mpr ⟨last, hlast, rfl⟩

/-- A set that holds what its elements depend on holds everything they reach. -/
theorem mem_of_reaches {P : α → Prop} (hclosed : ∀ v, P v → ∀ w, dep v w → P w) {v w : α}
    (h : ReflTransGen dep v w) (hv : P v) : P w := by
  induction h with
  | refl => exact hv
  | tail _ hstep ih => exact hclosed _ ih _ hstep

/-- Each depends on the other, directly or not. -/
def Mutual (dep : α → α → Prop) (v w : α) : Prop := ReflTransGen dep v w ∧ ReflTransGen dep w v

theorem Mutual.symm {v w : α} (h : Mutual dep v w) : Mutual dep w v := ⟨h.2, h.1⟩

theorem Mutual.trans {u v w : α} (h : Mutual dep u v) (h' : Mutual dep v w) : Mutual dep u w :=
  ⟨h.1.trans h'.1, h'.2.trans h.2⟩

/-!
# Contracting components

A map that identifies exactly the mutually dependent elements turns a relation into one without
cycles.
-/

variable {f : α → β}

/-- What the images of elements depend on, outside themselves. -/
def Contracted (dep : α → α → Prop) (f : α → β) (x y : β) : Prop :=
  x ≠ y ∧ ∃ a b, f a = x ∧ f b = y ∧ dep a b

theorem reaches_of_contracted (hfiber : ∀ a b, f a = f b → ReflTransGen dep a b) {x y : β}
    (h : TransGen (Contracted dep f) x y) :
    ∀ a b, f a = x → f b = y → ReflTransGen dep a b := by
  have hstep : ∀ {x y}, Contracted dep f x y → ∀ a b, f a = x → f b = y →
      ReflTransGen dep a b := by
    rintro x y ⟨-, a', b', rfl, rfl, hdep⟩ a b ha hb
    exact ((hfiber a a' ha).tail hdep).trans (hfiber b' b hb.symm)
  induction h with
  | single hxy => exact hstep hxy
  | tail _ hyz ih =>
    intro a c ha hc
    obtain ⟨b, hb⟩ : ∃ b, f b = _ := ⟨_, hyz.2.choose_spec.choose_spec.1⟩
    exact (ih a b ha hb).trans (hstep hyz b c hb hc)

/-- The contraction has no cycle. -/
theorem not_transGen_contracted (hfiber : ∀ a b, f a = f b → ReflTransGen dep a b)
    (hmutual : ∀ a b, Mutual dep a b → f a = f b) (x : β) :
    ¬ TransGen (Contracted dep f) x x := by
  intro h
  obtain ⟨y, hxy, hyx⟩ := TransGen.head'_iff.mp h
  obtain ⟨hne, a, b, rfl, rfl, hdep⟩ := hxy
  rcases reflTransGen_iff_eq_or_transGen.mp hyx with heq | hyx
  · exact hne heq
  · exact hne (hmutual a b ⟨.single hdep, reaches_of_contracted hfiber hyx b a rfl rfl⟩)

end ProvenGraphcal.DependencyOrder
