import Mathlib.Data.List.Nodup
import ProvenGraphcal.Library.Checked
import ProvenGraphcal.Lowering.Meaning

/-!
# Lowering is lexical scoping

A local id is introduced once, is read inside its binder only, and is read where the source spells
the binder's name: the tree under a `LocalEnv` means what the source means under names.
-/

namespace ProvenGraphcal.Lowering

open List (append_assoc map_append map_cons mem_append mem_cons mem_cons_self mem_map mem_singleton
  nodup_append' nodup_cons nodup_nil)

variable {N S F R E V D T : Type}

namespace LocalEnv

variable {env : LocalEnv V}

/-- The innermost frame binds an id once. -/
def Distinct (env : LocalEnv V) : Prop := (env.bindings.map Prod.fst).Nodup

theorem mem_bindIn {id i : ℕ} {value : V} {frame : List (ℕ × V)} :
    i ∈ (bindIn id value frame).map Prod.fst ↔ i = id ∨ i ∈ frame.map Prod.fst := by
  induction frame with
  | nil => simp [bindIn]
  | cons entry rest ih =>
    unfold bindIn
    split_ifs with hid
    · simp [hid]
    · rw [map_cons, mem_cons, ih, map_cons, mem_cons]
      exact or_left_comm

theorem getIn_bindIn {id i : ℕ} {value : V} {frame : List (ℕ × V)}
    (hframe : (frame.map Prod.fst).Nodup) :
    getIn i (bindIn id value frame) = if i = id then some value else getIn i frame := by
  have hcons : ∀ (entry : ℕ × V) rest,
      getIn i (entry :: rest) = (getIn i rest).or (if entry.1 = i then some entry.2 else none) := by
    intro entry rest
    simp only [getIn, List.reverse_cons, List.find?_append, Option.map_or]
    split_ifs with hentry <;> simp [hentry]
  have habsent : ∀ {rest : List (ℕ × V)}, i ∉ rest.map Prod.fst → getIn i rest = none := by
    intro rest hi
    rw [getIn, Option.map_eq_none_iff, List.find?_eq_none]
    intro entry hentry heq
    exact hi (of_decide_eq_true heq ▸ List.mem_map_of_mem (List.mem_reverse.mp hentry))
  induction frame with
  | nil => simp [bindIn, getIn, eq_comm]
  | cons entry rest ih =>
    obtain ⟨hentry, hrest⟩ := nodup_cons.mp hframe
    unfold bindIn
    by_cases hid : entry.1 = id
    · rw [if_pos hid, hcons, hcons]
      by_cases hi : i = id
      · rw [hi, ← hid] at habsent
        simp [hi, ← hid, habsent hentry]
      · simp [hi, hid, Ne.symm hi]
    · rw [if_neg hid, hcons, hcons, ih hrest]
      by_cases hi : i = id
      · simp [hi]
      · simp [hi]

theorem nodup_bindIn {id : ℕ} {value : V} {frame : List (ℕ × V)}
    (hframe : (frame.map Prod.fst).Nodup) : ((bindIn id value frame).map Prod.fst).Nodup := by
  induction frame with
  | nil => exact List.nodup_singleton id
  | cons entry rest ih =>
    obtain ⟨hentry, hrest⟩ := nodup_cons.mp hframe
    unfold bindIn
    split_ifs with hid
    · exact nodup_cons.mpr ⟨hid ▸ hentry, hrest⟩
    · refine nodup_cons.mpr ⟨fun hmem => ?_, ih hrest⟩
      exact (mem_bindIn.mp hmem).elim hid hentry

theorem get_bind (henv : env.Distinct) (id i : ℕ) (value : V) :
    (env.bind id value).get i = if i = id then some value else env.get i := by
  rw [get, get, List.findSome?_cons, List.findSome?_cons, bind, getIn_bindIn henv]
  split_ifs <;> rfl

variable {locals : List (LocalDef N S)}

/-- An iteration gives the locals its values and leaves the other ids alone. -/
theorem get_bindAll (hids : (locals.map (·.id)).Nodup) (values : N → V) (henv : env.Distinct) :
    (env.bindAll locals values).Distinct ∧
      (∀ i ∉ locals.map (·.id), (env.bindAll locals values).get i = env.get i) ∧
      ∀ local_ ∈ locals, (env.bindAll locals values).get local_.id = some (values local_.name) := by
  induction locals generalizing env with
  | nil => exact ⟨henv, fun _ _ => rfl, fun _ h => nomatch h⟩
  | cons local_ rest ih =>
    obtain ⟨hlocal, hrest⟩ := nodup_cons.mp hids
    have hbound : (env.bind local_.id (values local_.name)).Distinct := nodup_bindIn henv
    obtain ⟨hdistinct, hother, hown⟩ := ih hrest hbound
    refine ⟨hdistinct, fun i hi => ?_, fun bound hbound => ?_⟩
    · obtain ⟨hne, hi⟩ := not_or.mp (mt mem_cons.mpr hi)
      exact (hother i hi).trans ((get_bind henv _ _ _).trans (if_neg hne))
    · rcases mem_cons.mp hbound with rfl | hbound
      · exact (hother _ hlocal).trans ((get_bind henv _ _ _).trans (if_pos rfl))
      · exact hown bound hbound

theorem get_iterations (hids : (locals.map (·.id)).Nodup) (earlier : List (N → V))
    (henv : env.Distinct) :
    (earlier.foldl (fun env values => env.bindAll locals values) env).Distinct ∧
      ∀ i ∉ locals.map (·.id),
        (earlier.foldl (fun env values => env.bindAll locals values) env).get i = env.get i := by
  induction earlier generalizing env with
  | nil => exact ⟨henv, fun _ _ => rfl⟩
  | cons values rest ih =>
    obtain ⟨hdistinct, hother, -⟩ := get_bindAll hids values henv
    obtain ⟨hrest, hget⟩ := ih hdistinct
    exact ⟨hrest, fun i hi => (hget i hi).trans (hother i hi)⟩

theorem get_enter (env : LocalEnv V) {layers : List (List (LocalDef N S))}
    (hids : (layers.flatten.map (·.id)).Nodup) (earlier : List (N → V)) (values : N → V) :
    (∀ i ∉ layers.flatten.map (·.id), (env.enter layers earlier values).get i = env.get i) ∧
      ∀ local_ ∈ layers.flatten,
        (env.enter layers earlier values).get local_.id = some (values local_.name) := by
  induction layers generalizing env with
  | nil => exact ⟨fun _ _ => rfl, fun _ h => nomatch h⟩
  | cons locals rest ih =>
    rw [List.flatten_cons, map_append] at hids ⊢
    obtain ⟨hlocals, hrest, hdisjoint⟩ := nodup_append'.mp hids
    have hchild : env.child.Distinct := nodup_nil
    obtain ⟨hiterated, hget⟩ := get_iterations hlocals earlier hchild
    obtain ⟨-, hother, hown⟩ := get_bindAll hlocals values hiterated
    obtain ⟨hrestother, hrestown⟩ := ih _ hrest
    refine ⟨fun i hi => ?_, fun bound hbound => ?_⟩
    · rw [mem_append, not_or] at hi
      exact (hrestother i hi.2).trans ((hother i hi.1).trans (hget i hi.1))
    · rcases mem_append.mp hbound with hbound | hbound
      · exact (hrestother _ (hdisjoint (List.mem_map_of_mem hbound))).trans (hown bound hbound)
      · exact hrestown bound hbound

end LocalEnv

theorem layers_flatten (form : Form) (locals : List (LocalDef N S)) :
    (form.layers locals).flatten = locals := by
  cases locals with
  | nil => rfl
  | cons local_ rest =>
    unfold Form.layers
    split_ifs
    · rw [← List.flatMap_def, List.flatMap_singleton']
    · exact List.flatten_singleton

section State

variable [DecidableEq N] {ctx : ExprLoweringContext N S F R E} {lowerer lowerer' : ExprLowerer N S}

/-- The locals in scope. -/
def ExprLowerer.scope (lowerer : ExprLowerer N S) : List (LocalDef N S) :=
  lowerer.localScopes.flatten

theorem mem_of_visibleLocal {name : N} {def_ : LocalDef N S}
    (h : lowerer.visibleLocal name = some def_) : def_ ∈ lowerer.scope ∧ def_.name = name := by
  obtain ⟨locals, hlocals, hfind⟩ := List.exists_of_findSome?_eq_some h
  exact ⟨List.mem_flatten.mpr ⟨locals, hlocals, List.mem_of_find?_eq_some hfind⟩,
    by simpa using List.find?_some hfind⟩

theorem name_ne_of_visibleLocal {name : N} (h : lowerer.visibleLocal name = none)
    {def_ : LocalDef N S} (hdef : def_ ∈ lowerer.scope) : def_.name ≠ name := by
  obtain ⟨locals, hlocals, hmem⟩ := List.mem_flatten.mp hdef
  have hfind := List.findSome?_eq_none_iff.mp h locals hlocals
  simpa using List.find?_eq_none.mp hfind def_ hmem

omit [DecidableEq N] in
theorem Binds.nil {scope : List (LocalDef N S)} : Binds ctx scope [] :=
  ⟨.nil, by simp, by simp, by simp⟩

/-- A scope is pushed only if its locals may be bound there. -/
theorem addBinding_eq_ok {scope scope' : List (LocalDef N S)} {binding : LocalDef N S}
    (hscope : Binds ctx lowerer.scope scope)
    (h : lowerer.addBinding ctx scope binding = .ok scope') :
    scope' = scope ++ [binding] ∧ Binds ctx lowerer.scope scope' := by
  unfold ExprLowerer.addBinding at h
  split at h
  · cases h
  · rename_i hnone
    split at h
    · cases h
    · rename_i visible hvisible
      split_ifs at h with hterm
      cases h
      obtain ⟨hown, houter⟩ := Option.or_eq_none_iff.mp hnone
      obtain ⟨hreserved, hnoterm⟩ := not_or.mp hterm
      have hname : ∀ a ∈ scope, a.name ≠ binding.name := by
        simpa using List.find?_eq_none.mp hown
      have hor : ∀ {P : LocalDef N S → Prop}, (∀ a ∈ scope, P a) → P binding →
          ∀ a ∈ scope ++ [binding], P a := by
        intro P hall hone a ha
        rcases mem_append.mp ha with ha | ha
        · exact hall a ha
        · exact mem_singleton.mp ha ▸ hone
      refine ⟨rfl, ⟨?_, ?_, ?_, ?_⟩⟩
      · refine List.pairwise_append.mpr ⟨hscope.distinct, List.pairwise_singleton _ _, ?_⟩
        intro a ha b hb
        exact mem_singleton.mp hb ▸ hname a ha
      · exact hor hscope.new fun outer houter' => name_ne_of_visibleLocal houter houter'
      · exact hor hscope.unreserved (Bool.not_eq_true _ ▸ hreserved)
      · refine hor hscope.noTerm ?_
        rw [hvisible, Option.not_isSome_iff_eq_none.mp hnoterm]

theorem pushScope_eq_ok {locals : List (LocalDef N S)}
    (h : lowerer.pushScope ctx locals = .ok lowerer') :
    lowerer' = ⟨locals :: lowerer.localScopes, lowerer.nextLocal⟩ ∧
      Binds ctx lowerer.scope locals := by
  have hfold : ∀ {bindings scope scope' : List (LocalDef N S)}, Binds ctx lowerer.scope scope →
      bindings.foldlM (lowerer.addBinding ctx) scope = .ok scope' →
      scope' = scope ++ bindings ∧ Binds ctx lowerer.scope scope' := by
    intro bindings
    induction bindings with
    | nil =>
      intro scope scope' hscope h
      cases h
      exact ⟨(List.append_nil _).symm, hscope⟩
    | cons binding rest ih =>
      intro scope scope' hscope h
      rw [List.foldlM_cons] at h
      obtain ⟨next, hnext, hrest⟩ := Checked.bind_eq_ok.mp h
      obtain ⟨rfl, hbinds⟩ := addBinding_eq_ok hscope hnext
      obtain ⟨rfl, hscope'⟩ := ih hbinds hrest
      exact ⟨by simp, hscope'⟩
  obtain ⟨scope, hscope, rfl⟩ := Checked.bind_pure_eq_ok.mp h
  obtain ⟨rfl, hbinds⟩ := hfold Binds.nil hscope
  exact ⟨rfl, hbinds⟩

/-! ## One part -/

/-- Distinct ids from a range. -/
def Fresh (low high : ℕ) (ids : List ℕ) : Prop := ids.Nodup ∧ ∀ i ∈ ids, low ≤ i ∧ i < high

theorem Fresh.append {low middle high : ℕ} {ids ids' : List ℕ} (h : Fresh low middle ids)
    (h' : Fresh middle high ids') (hlow : low ≤ middle) (hhigh : middle ≤ high) :
    Fresh low high (ids ++ ids') := by
  refine ⟨nodup_append'.mpr ⟨h.1, h'.1, fun i hi hi' => ?_⟩, fun i hi => ?_⟩
  · have := (h.2 i hi).2
    have := (h'.2 i hi').1
    omega
  · rcases mem_append.mp hi with hi | hi
    · have := h.2 i hi
      omega
    · have := h'.2 i hi
      omega

/-- The environment gives the locals in scope the values of their names. -/
structure Agree (scope : List (LocalDef N S)) (env : LocalEnv V) (names : N → Option V) : Prop where
  bound : ∀ local_ ∈ scope, ∃ value, env.get local_.id = some value ∧
    names local_.name = some value
  free : ∀ name, (∀ local_ ∈ scope, local_.name ≠ name) → names name = none

/-- The ids in scope are used up. -/
def Valid (lowerer : ExprLowerer N S) : Prop :=
  ∀ local_ ∈ lowerer.scope, local_.id < lowerer.nextLocal

/-- What lowering an expression that means `run` gives. -/
structure Lowered (ctx : ExprLoweringContext N S F R E)
    (meaning : Form → List (Part N F R E V D) → D) (run : (N → Option V) → D)
    (lowerer : ExprLowerer N S) (tree : Hir N S F R E) (lowerer' : ExprLowerer N S) : Prop where
  scopes : lowerer'.localScopes = lowerer.localScopes
  next : lowerer.nextLocal ≤ lowerer'.nextLocal
  fresh : Fresh lowerer.nextLocal lowerer'.nextLocal tree.introduced
  wellScoped : WellScoped ctx lowerer.scope tree
  value : Valid lowerer → Complete tree → ∀ env names, Agree lowerer.scope env names →
    evalHir meaning env tree = run names

def Lowers (ctx : ExprLoweringContext N S F R E)
    (meaning : Form → List (Part N F R E V D) → D) (lower : Lower N S F R E)
    (run : (N → Option V) → D) : Prop :=
  ∀ lowerer, Lowered ctx meaning run lowerer (lower lowerer).1 (lower lowerer).2

/-- Locals that wait for their scope. -/
structure Waiting (lowerer : ExprLowerer N S) (pending : List (LocalDef N S)) : Prop where
  valid : Valid lowerer
  used : ∀ local_ ∈ pending, local_.id < lowerer.nextLocal
  new : ∀ local_ ∈ pending, ∀ outer ∈ lowerer.scope, outer.id ≠ local_.id
  distinct : (pending.map (·.id)).Nodup

variable {meaning : Form → List (Part N F R E V D) → D}

theorem Agree.enter {scope locals : List (LocalDef N S)} {env : LocalEnv V} {names : N → Option V}
    (h : Agree scope env names) (hbinds : Binds ctx scope locals)
    (hids : (locals.map (·.id)).Nodup) (hnew : ∀ local_ ∈ locals, ∀ outer ∈ scope,
      outer.id ≠ local_.id) (form : Form) (earlier : List (N → V)) (values : N → V) :
    Agree (locals ++ scope) (env.enter (form.layers locals) earlier values)
      (bindNames (locals.map (·.name)) values names) := by
  have hlayers : ((form.layers locals).flatten.map (·.id)).Nodup := by rwa [layers_flatten]
  obtain ⟨hother, hown⟩ := LocalEnv.get_enter env hlayers earlier values
  rw [layers_flatten] at hother hown
  refine ⟨fun local_ hlocal => ?_, fun name hname => ?_⟩
  · rcases mem_append.mp hlocal with hlocal | hlocal
    · exact ⟨_, hown local_ hlocal, if_pos (List.mem_map_of_mem hlocal)⟩
    · obtain ⟨value, hget, hvalue⟩ := h.bound local_ hlocal
      refine ⟨value, (hother _ fun hmem => ?_).trans hget, (if_neg fun hmem => ?_).trans hvalue⟩
      · obtain ⟨bound, hbound, hid⟩ := mem_map.mp hmem
        exact hnew bound hbound local_ hlocal hid.symm
      · obtain ⟨bound, hbound, hname⟩ := mem_map.mp hmem
        exact hbinds.new bound hbound local_ hlocal hname.symm
  · refine (if_neg fun hmem => ?_).trans
      (h.free name fun local_ hlocal => hname local_ (List.mem_append_right _ hlocal))
    obtain ⟨bound, hbound, heq⟩ := mem_map.mp hmem
    exact hname bound (List.mem_append_left _ hbound) heq

/-- What a part of a node gives: the locals that wait are those bound before or by it. -/
structure Performed (ctx : ExprLoweringContext N S F R E)
    (meaning : Form → List (Part N F R E V D) → D) (action : Action N S F R E ((N → Option V) → D))
    (lowerer : ExprLowerer N S) (pending : List (LocalDef N S)) (items : List (HirItem N S F R E))
    (pending' : List (LocalDef N S)) (lowerer' : ExprLowerer N S) : Prop where
  fresh : ∃ ids, Fresh lowerer.nextLocal lowerer'.nextLocal ids ∧
    (introducedBy items ++ pending'.map (·.id)).Perm (pending.map (·.id) ++ ids)
  wellScoped : WellScoped ctx lowerer.scope (.node none .error items)
  waiting : Waiting lowerer pending → Waiting lowerer' pending'
  parts : Waiting lowerer pending → Complete (.node none .error items) → ∀ env names form,
    Agree lowerer.scope env names → evalAction names (pending.map (·.name)) action =
      (items.map (·.part env form fun body _ env => evalHir meaning env body),
        pending'.map (·.name))

variable {lower : T → Lower N S F R E} {run : T → (N → Option V) → D}
  {pending pending' : List (LocalDef N S)} {items : List (HirItem N S F R E)}

/-- A part that binds nothing and lowers nothing. -/
theorem Performed.plain {action : Action N S F R E ((N → Option V) → D)}
    (hchild : ∀ locals body, .child locals body ∉ items)
    (hread : ∀ name id, .read name id ∈ items → ∃ local_ ∈ lowerer.scope, local_.id = id ∧
      local_.name = name)
    (hparts : ∀ env names form, Agree lowerer.scope env names →
      evalAction names (pending.map (·.name)) action =
        (items.map (·.part env form fun body _ env => evalHir meaning env body),
          pending.map (·.name))) :
    Performed ctx meaning action lowerer pending items pending lowerer := by
  refine ⟨⟨[], ⟨nodup_nil, fun _ h => nomatch h⟩, ?_⟩, ?_, id, fun _ _ => hparts⟩
  · have hnone : introducedBy items = [] := by
      refine List.flatMap_eq_nil_iff.mpr fun item hitem => ?_
      cases item with
      | child locals body => exact absurd hitem (hchild locals body)
      | _ => rfl
    rw [hnone, List.append_nil, List.nil_append]
  · exact .node hread (fun _ _ h => absurd h (hchild _ _)) (fun _ _ h => absurd h (hchild _ _))

/-- A read of a visible local. -/
theorem Performed.read {action : Action N S F R E ((N → Option V) → D)} {name : N}
    {def_ : LocalDef N S} (hdef : lowerer.visibleLocal name = some def_)
    (haction : ∀ names value, names name = some value →
      evalAction names (pending.map (·.name)) action =
        ([.value (some value)], pending.map (·.name))) :
    Performed ctx meaning action lowerer pending [.read name def_.id] pending lowerer := by
  obtain ⟨hmem, rfl⟩ := mem_of_visibleLocal hdef
  refine .plain (by simp) (by simpa using ⟨def_, hmem, rfl, rfl⟩) fun env names form hagree => ?_
  obtain ⟨value, hget, hvalue⟩ := hagree.bound def_ hmem
  rw [haction names value hvalue, ← hget]
  rfl

variable (lowerer pending) in
theorem perform_restores (action : Action N S F R E T)
    (hlower : ∀ child ∈ action.children, Lowers ctx meaning (lower child) (run child)) :
    let lowerer' := (perform ctx pending lowerer (action.map fun child _ => lower child)).2
    lowerer'.localScopes = lowerer.localScopes ∧ lowerer.nextLocal ≤ lowerer'.nextLocal := by
  cases action with
  | keep data => exact ⟨rfl, Nat.le_refl _⟩
  | unitName | bareName | lookupLocal =>
    simp only [Action.map, perform]
    split <;> simp
  | resolve result => cases result <;> simp [Action.map, perform]
  | allocate spelled =>
    simp only [Action.map, perform, ExprLowerer.allocateLocal]
    split_ifs <;> simp
  | lower child =>
    have hchild := hlower child mem_cons_self lowerer
    exact ⟨hchild.scopes, hchild.next⟩
  | lowerScoped body =>
    simp only [Action.map, perform]
    cases hpush : lowerer.pushScope ctx pending with
    | error error => exact ⟨rfl, Nat.le_refl _⟩
    | ok pushed =>
      obtain ⟨rfl, -⟩ := pushScope_eq_ok hpush
      have hbody := hlower body mem_cons_self
        ⟨pending :: lowerer.localScopes, lowerer.nextLocal⟩
      exact ⟨congrArg List.tail hbody.scopes, hbody.next⟩

theorem perform_eq_ok {action : Action N S F R E T}
    (hlower : ∀ child ∈ action.children, Lowers ctx meaning (lower child) (run child))
    (h : perform ctx pending lowerer (action.map fun child _ => lower child) =
      (.ok (items, pending'), lowerer')) :
    Performed ctx meaning (action.map fun child _ => run child) lowerer pending items pending'
      lowerer' := by
  cases action with
  | keep data =>
    cases h
    exact .plain (by simp) (by simp) fun _ _ _ _ => rfl
  | resolve result =>
    cases result with
    | error error => cases h
    | ok reference =>
      cases h
      exact .plain (by simp) (by simp) fun _ _ _ _ => rfl
  | unitName spelled =>
    simp only [Action.map, perform] at h
    split at h
    · cases h
    · cases h
      exact .plain (by simp) (by simp) fun _ _ _ _ => rfl
  | bareName spelled otherwise =>
    simp only [Action.map, perform] at h
    split at h
    · rename_i _ def_ hdef
      cases h
      exact .read hdef fun names value hvalue => by simp [Action.map, evalAction, hvalue]
    · rename_i hnone
      cases h
      refine .plain (by simp) (by simp) fun env names form hagree => ?_
      have hfree := hagree.free _ fun local_ hlocal => name_ne_of_visibleLocal hnone hlocal
      simp [Action.map, evalAction, Item.part, hfree]
    · cases h
  | lookupLocal spelled =>
    simp only [Action.map, perform] at h
    split at h
    · rename_i def_ hdef
      cases h
      exact .read hdef fun names value hvalue => by simp [Action.map, evalAction, hvalue]
    · cases h
  | allocate spelled =>
    simp only [Action.map, perform, ExprLowerer.allocateLocal] at h
    split_ifs at h with hroom
    swap
    · cases h
    cases h
    refine ⟨⟨[lowerer.nextLocal], ⟨by simp, by simp⟩, by simp [introducedBy]⟩, ?_,
      fun hwait => ?_, ?_⟩
    · exact .node (by simp) (by simp) (by simp)
    · have hlt : ∀ local_ ∈ pending, local_.id ≠ lowerer.nextLocal := fun local_ hlocal =>
        Nat.ne_of_lt (hwait.used local_ hlocal)
      refine ⟨fun local_ hlocal => Nat.lt_succ_of_lt (hwait.valid local_ hlocal), ?_, ?_, ?_⟩
      · intro local_ hlocal
        rcases mem_append.mp hlocal with hlocal | hlocal
        · exact Nat.lt_succ_of_lt (hwait.used local_ hlocal)
        · exact mem_singleton.mp hlocal ▸ Nat.lt_succ_self _
      · intro local_ hlocal outer houter
        rcases mem_append.mp hlocal with hlocal | hlocal
        · exact hwait.new local_ hlocal outer houter
        · exact mem_singleton.mp hlocal ▸ Nat.ne_of_lt (hwait.valid outer houter)
      · rw [map_append]
        refine nodup_append'.mpr ⟨hwait.distinct, by simp, ?_⟩
        simpa using hlt
    · intro _ _ env names form _
      simp [Action.map, evalAction]
  | lower child =>
    -- An operand pushes no scope, so the locals that wait still do.
    cases h
    have hchild := hlower child mem_cons_self lowerer
    have hscope : (lower child lowerer).2.scope = lowerer.scope :=
      congrArg List.flatten hchild.scopes
    have hnext := hchild.next
    refine ⟨⟨_, hchild.fresh, ?_⟩, ?_, fun hwait => ?_,
      fun hwait hcomplete env names form hagree => ?_⟩
    · simpa [introducedBy, Item.introduced] using List.perm_append_comm
    · refine .node (by simp) (by simpa using Binds.nil) ?_
      simpa using hchild.wellScoped
    · refine ⟨fun local_ hlocal => ?_, fun local_ hlocal => ?_, ?_, hwait.distinct⟩
      · exact Nat.lt_of_lt_of_le (hwait.valid local_ (hscope ▸ hlocal)) hnext
      · exact Nat.lt_of_lt_of_le (hwait.used local_ hlocal) hnext
      · exact hscope ▸ hwait.new
    · cases hcomplete with
      | node hbodies =>
        have hvalue := hchild.value hwait.valid (hbodies _ _ mem_cons_self) env names hagree
        simp [Action.map, evalAction, Item.part, Form.layers, LocalEnv.enter, hvalue]
  | lowerScoped body =>
    simp only [Action.map, perform] at h
    cases hpush : lowerer.pushScope ctx pending with
    | error error => cases hpush ▸ h
    | ok pushed =>
      rw [hpush] at h
      cases h
      obtain ⟨rfl, hbinds⟩ := pushScope_eq_ok hpush
      have hbody := hlower body mem_cons_self
        ⟨pending :: lowerer.localScopes, lowerer.nextLocal⟩
      have hpop := congrArg List.tail hbody.scopes
      refine ⟨⟨_, hbody.fresh, by simp [introducedBy, Item.introduced]⟩, ?_, fun hwait => ?_,
        fun hwait hcomplete env names form hagree => ?_⟩
      · have hscoped : WellScoped ctx (pending ++ lowerer.scope) _ := hbody.wellScoped
        exact .node (by simp) (by simpa using hbinds) (by simpa using hscoped)
      · refine ⟨fun local_ hlocal => ?_, by simp, by simp, by simp⟩
        have hlocal : local_ ∈ lowerer.scope := by
          simpa [ExprLowerer.scope, ExprLowerer.popScope, hpop] using hlocal
        exact Nat.lt_of_lt_of_le (hwait.valid local_ hlocal) hbody.next
      · cases hcomplete with
        | node hbodies =>
          have hvalid : Valid ⟨pending :: lowerer.localScopes, lowerer.nextLocal⟩ := by
            intro local_ hlocal
            exact (mem_append.mp hlocal).elim (hwait.used local_) (hwait.valid local_)
          have hvalue := fun earlier values => hbody.value hvalid
            (hbodies _ _ mem_cons_self) _ _
            (hagree.enter hbinds hwait.distinct hwait.new form earlier values)
          simp [Action.map, evalAction, Item.part, hvalue]

/-! ## All parts -/

omit [DecidableEq N] in
theorem introducedBy_append (items more : List (HirItem N S F R E)) :
    introducedBy (items ++ more) = introducedBy items ++ introducedBy more :=
  List.flatMap_append

omit [DecidableEq N] in
theorem WellScoped.append {scope : List (LocalDef N S)} {more : List (HirItem N S F R E)}
    (h : WellScoped ctx scope (.node none .error items))
    (hmore : WellScoped ctx scope (.node none .error more)) :
    WellScoped ctx scope (.node none .error (items ++ more)) := by
  cases h with
  | node hreads hbinders hbodies =>
    cases hmore with
    | node hreads' hbinders' hbodies' =>
      refine .node (fun name id h => ?_) (fun locals body h => ?_) fun locals body h => ?_
      · exact (mem_append.mp h).elim (hreads name id) (hreads' name id)
      · exact (mem_append.mp h).elim (hbinders locals body) (hbinders' locals body)
      · exact (mem_append.mp h).elim (hbodies locals body) (hbodies' locals body)

omit [DecidableEq N] in
theorem WellScoped.at {scope : List (LocalDef N S)}
    (h : WellScoped ctx scope (.node none .error items))
    (failure : Option (ExprLowerError N S E)) (form : Form) :
    WellScoped ctx scope (.node failure form items) := by
  cases h with
  | node hreads hbinders hbodies => exact .node hreads hbinders hbodies

variable {actions : List (Action N S F R E T)}

section

variable (hlower : ∀ action ∈ actions, ∀ child ∈ action.children, Lowers ctx meaning (lower child)
  (run child))

include hlower

variable (lowerer pending) in
theorem performAll_restores :
    (performAll ctx pending lowerer
      (actions.map (·.map fun child _ => lower child))).2.localScopes = lowerer.localScopes := by
  induction actions generalizing pending lowerer with
  | nil => rfl
  | cons action rest ih =>
    obtain ⟨hscopes, -⟩ :=
      perform_restores lowerer pending action (hlower action mem_cons_self)
    rw [map_cons, performAll]
    split
    · rename_i hperform
      rwa [hperform] at hscopes
    · rename_i pending₁ lowerer₁ hperform
      have hrest := ih lowerer₁ pending₁ fun action haction =>
        hlower action (List.mem_cons_of_mem _ haction)
      rw [hperform] at hscopes
      split
      · rename_i hall
        rw [hall] at hrest
        exact hrest.trans hscopes
      · rename_i hall
        rw [hall] at hrest
        exact hrest.trans hscopes

theorem performAll_eq_ok
    (h : performAll ctx pending lowerer (actions.map (·.map fun child _ => lower child)) =
      (.ok items, lowerer')) :
    lowerer.nextLocal ≤ lowerer'.nextLocal ∧
    (∃ ids rest, Fresh lowerer.nextLocal lowerer'.nextLocal ids ∧
      (introducedBy items ++ rest).Perm (pending.map (·.id) ++ ids)) ∧
    WellScoped ctx lowerer.scope (.node none .error items) ∧
    (Waiting lowerer pending → Complete (.node none .error items) → ∀ env names form,
      Agree lowerer.scope env names →
      evalActions names (pending.map (·.name)) (actions.map (·.map fun child _ => run child)) =
        items.map (·.part env form fun body _ env => evalHir meaning env body)) := by
  induction actions generalizing pending lowerer items with
  | nil =>
    cases h
    refine ⟨Nat.le_refl _,
      ⟨[], pending.map (·.id), ⟨nodup_nil, by simp⟩, by simp [introducedBy]⟩,
      .node (by simp) (by simp) (by simp), fun _ _ _ _ _ _ => rfl⟩
  | cons action rest ih =>
    have hhead := hlower action mem_cons_self
    rw [map_cons, performAll] at h
    split at h
    · cases h
    · rename_i first pending₁ lowerer₁ hperform
      split at h
      · cases h
      · rename_i more _ hall
        cases h
        obtain ⟨hscopes, hnext⟩ := perform_restores lowerer pending action hhead
        rw [hperform] at hscopes hnext
        have hscope : lowerer₁.scope = lowerer.scope := congrArg List.flatten hscopes
        have hfirst := perform_eq_ok hhead hperform
        obtain ⟨hnext', ⟨ids', left, hids', hperm'⟩, hscoped', hparts'⟩ :=
          ih (fun action haction => hlower action (List.mem_cons_of_mem _ haction)) hall
        obtain ⟨ids, hids, hperm⟩ := hfirst.fresh
        refine ⟨Nat.le_trans hnext hnext', ⟨ids ++ ids', left, hids.append hids' hnext hnext', ?_⟩,
          hfirst.wellScoped.append (hscope ▸ hscoped'),
          fun hwait hcomplete env names form hagree => ?_⟩
        · rw [introducedBy_append, append_assoc, ← append_assoc _ ids]
          refine (hperm'.append_left _).trans ?_
          rw [← append_assoc]
          exact hperm.append_right _
        · cases hcomplete with
          | node hbodies =>
            rw [map_cons, evalActions, hfirst.parts hwait (.node fun locals body h =>
              hbodies locals body (List.mem_append_left _ h)) env names form hagree]
            dsimp only
            rw [hparts' (hfirst.waiting hwait) (.node fun locals body h =>
              hbodies locals body (List.mem_append_right _ h)) env names form (hscope ▸ hagree),
              map_append]

end

omit [DecidableEq N] in
theorem lowerChildren_spec {children : List T}
    (hlower : ∀ child ∈ children, Lowers ctx meaning (lower child) (run child))
    (h : lowerChildren lowerer (children.map lower) = (items, lowerer')) :
    lowerer'.localScopes = lowerer.localScopes ∧ lowerer.nextLocal ≤ lowerer'.nextLocal ∧
      Fresh lowerer.nextLocal lowerer'.nextLocal (introducedBy items) ∧
      WellScoped ctx lowerer.scope (.node none .error items) := by
  induction children generalizing lowerer items with
  | nil =>
    cases h
    exact ⟨rfl, Nat.le_refl _, ⟨nodup_nil, fun _ h => nomatch h⟩,
      .node (by simp) (by simp) (by simp)⟩
  | cons child rest ih =>
    cases h
    have hchild := hlower child mem_cons_self lowerer
    obtain ⟨hscopes, hnext, hfresh, hscoped⟩ :=
      @ih (lower child lowerer).2 _ (fun child hmem => hlower child (List.mem_cons_of_mem _ hmem))
        rfl
    have hscope : (lower child lowerer).2.scope = lowerer.scope :=
      congrArg List.flatten hchild.scopes
    refine ⟨hscopes.trans hchild.scopes, Nat.le_trans hchild.next hnext, ?_, ?_⟩
    · exact hchild.fresh.append hfresh hchild.next hnext
    · have hfirst : WellScoped ctx lowerer.scope (.node none .error [.child [] _]) :=
        .node (by simp) (by simpa using Binds.nil) (by simpa using hchild.wellScoped)
      exact hfirst.append (hscope ▸ hscoped)

theorem lowered_node {form : Form} {children : List T}
    (hactions : ∀ action ∈ actions, ∀ child ∈ action.children,
      Lowers ctx meaning (lower child) (run child))
    (hchildren : ∀ child ∈ children, Lowers ctx meaning (lower child) (run child)) :
    Lowers ctx meaning (lowerNode ctx form (actions.map (·.map fun child _ => lower child))
      (children.map lower)) (fun names => meaning form (evalActions names []
        (actions.map (·.map fun child _ => run child)))) := by
  intro lowerer
  have hrestores := performAll_restores lowerer [] hactions
  unfold lowerNode
  cases hperform : performAll ctx [] lowerer (actions.map (·.map fun child _ => lower child)) with
  | mk outcome lowerer₁ =>
    rw [hperform] at hrestores
    cases outcome with
    | ok items =>
      obtain ⟨hnext, ⟨ids, left, hids, hperm⟩, hscoped, hparts⟩ :=
        performAll_eq_ok hactions hperform
      refine ⟨hrestores, hnext, ?_, ?_, ?_⟩
      · rw [introduced_node]
        exact ⟨(nodup_append'.mp (hperm.nodup_iff.mpr hids.1)).1, fun i hi =>
          hids.2 i (hperm.mem_iff.mp (List.mem_append_left _ hi))⟩
      · exact hscoped.at none form
      · intro hvalid hcomplete env names hagree
        have hwait : Waiting lowerer [] := ⟨hvalid, by simp, by simp, by simp⟩
        cases hcomplete with
        | node hbodies =>
          rw [evalHir_node, ← hparts hwait (.node hbodies) env names form hagree]
          rfl
    | error error =>
      -- Every pushed scope was popped again: restoring the checkpoint cuts nothing off.
      have hcheckpoint : (⟨lowerer₁.localScopes.drop (lowerer₁.localScopes.length -
          lowerer.localScopes.length), lowerer.nextLocal⟩ : ExprLowerer N S) = lowerer := by
        rw [hrestores, Nat.sub_self, List.drop_zero]
      dsimp only
      rw [hcheckpoint]
      obtain ⟨hscopes, hnext, hfresh, hscoped⟩ := lowerChildren_spec hchildren rfl
      refine ⟨hscopes, hnext, introduced_node (some error) .error _ ▸ hfresh, ?_, ?_⟩
      · exact hscoped.at (some error) .error
      · intro _ hcomplete
        cases hcomplete

end State

theorem lowered_expr [DecidableEq N] (ctx : ExprLoweringContext N S F R E)
    (meaning : Form → List (Part N F R E V D) → D) :
    ∀ expr : Expr N S F, Lowers ctx meaning (lowerExpr ctx expr) (evalSource ctx meaning expr)
  | .node kind => by
    have hsource : evalSource ctx meaning (.node kind) = fun scope => _ :=
      funext fun scope => evalSource_node ctx meaning kind scope
    rw [lowerExpr_node, hsource]
    exact lowered_node (fun action haction child hchild => lowered_expr ctx meaning child)
      fun child hchild => lowered_expr ctx meaning child
termination_by expr => sizeOf expr
decreasing_by
  · exact sizeOf_errorChild (actions_children action haction child hchild)
  · exact sizeOf_errorChild hchild

/-- Lowering restores the scopes after every expression; in the tree of a whole expression every id
is introduced once and every read is of an enclosing local of its name, which is no Term and no
other enclosing local's; and a tree without an error means what its source means. -/
theorem lowering_is_lexical_scoping [DecidableEq N] (ctx : ExprLoweringContext N S F R E)
    (expr : Expr N S F) :
    (∀ lowerer, (lowerExpr ctx expr lowerer).2.localScopes = lowerer.localScopes ∧
      ∀ name, (lowerExpr ctx expr lowerer).2.visibleLocal name = lowerer.visibleLocal name) ∧
    (lowerExpr ctx expr .new).1.introduced.Nodup ∧
    WellScoped ctx [] (lowerExpr ctx expr .new).1 ∧
    (Complete (lowerExpr ctx expr .new).1 → ∀ {V D : Type}
      (meaning : Form → List (Part N F R E V D) → D),
      evalHir meaning .root (lowerExpr ctx expr .new).1 =
        evalSource ctx meaning expr fun _ => none) := by
  have hlowered := fun lowerer => lowered_expr ctx (fun _ _ => ()) expr lowerer (V := Unit)
  refine ⟨fun lowerer => ⟨(hlowered lowerer).scopes, fun name => ?_⟩, (hlowered .new).fresh.1,
    (hlowered .new).wellScoped, fun hcomplete V D meaning => ?_⟩
  · rw [ExprLowerer.visibleLocal, (hlowered lowerer).scopes, ExprLowerer.visibleLocal]
  · refine (lowered_expr ctx meaning expr .new).value (fun _ h => nomatch h) hcomplete _ _ ?_
    exact ⟨fun _ h => (nomatch h), fun _ _ => rfl⟩

end ProvenGraphcal.Lowering
