import ProvenGraphcal.Library.InsertionMap
import ProvenGraphcal.Registry.SlotOrder

/-!
# Installing checked module stores

A store publishes checked bodies and runtime units. All stores are examined one after the other,
and the handles of all bodies join the registry at the end, in identity order. A call leaves a draft
also when it fails.
-/

namespace ProvenGraphcal

open SlotBody

variable {L S I U V : Type} [LinearOrder I] [SlotBody L S I] [DecidableEq U] [DecidableEq V]

/-- The checked bodies of one module under their identities. -/
structure DagStore (L S I U V : Type) [LinearOrder I] [SlotBody L S I] where
  dags : InsertionMap I S
  runtimeUnits : InsertionMap U V
  externalCallees : SortedMap I I
  keyed : ∀ entry ∈ dags.entries, dagId L entry.2 = entry.1

inductive DagStoreInsertError (I U : Type)
  | registry (error : DuplicateDag I)
  | competingRuntimeUnit (identity : U)
  | missingCallee (caller target : I)

structure TirDraft (L S I U V : Type) [LinearOrder I] where
  runtimeUnits : InsertionMap U V
  dags : DagSlots L S I

variable {dags : DagSlots L S I} {units : InsertionMap U V} {stores' : List (DagStore L S I U V)}
variable {dag : S}

namespace TirDraft

/-- A unit of the store that the draft has with another definition. -/
def competingUnit (draft : TirDraft L S I U V) (store : DagStore L S I U V) : Option (U × V) :=
  store.runtimeUnits.entries.find? fun entry =>
    (draft.runtimeUnits.get? entry.1).any fun existing => existing ≠ entry.2

def mergeRuntimeUnits (draft : TirDraft L S I U V) (store : DagStore L S I U V) :
    Except (DagStoreInsertError I U) (TirDraft L S I U V) :=
  match draft.competingUnit store with
  | some entry => .error (.competingRuntimeUnit entry.1)
  | none => .ok { draft with
      runtimeUnits := store.runtimeUnits.entries.foldl
        (fun units entry => units.insert entry.1 entry.2) draft.runtimeUnits }

/-- A callee that neither the draft nor a store has, with its caller. -/
def missingCallee (draft : TirDraft L S I U V) (stores : List (DagStore L S I U V)) :
    Option (I × I) :=
  (stores.flatMap fun store => store.externalCallees.entries).find? fun callee =>
    !(draft.dags.contains callee.1 || stores.any fun store => (store.dags.get? callee.1).isSome)

/-- A body of the store that the draft or an earlier handle has. -/
def repeatedDag (draft : TirDraft L S I U V) (handles : List (I × S))
    (store : DagStore L S I U V) : Option I :=
  store.dags.keys.find? fun id =>
    draft.dags.contains id || handles.any fun installed => installed.1 = id

/-- The loop over the stores; it yields the handles to join. -/
def collectHandles (draft : TirDraft L S I U V) (handles : List (I × S)) :
    List (DagStore L S I U V) →
      Except (DagStoreInsertError I U) (List (I × S)) × TirDraft L S I U V
  | [] => (.ok handles, draft)
  | store :: rest =>
    match draft.mergeRuntimeUnits store with
    | .error error => (.error error, draft)
    | .ok merged =>
      match merged.repeatedDag handles store with
      | some id => (.error (.registry ⟨id⟩), merged)
      | none => merged.collectHandles (handles ++ store.dags.entries) rest

/-- The handles join the registry up to the first that is refused. -/
def pushHandles (draft : TirDraft L S I U V) :
    List (I × S) → Except (DagStoreInsertError I U) Unit × TirDraft L S I U V
  | [] => (.ok (), draft)
  | handle :: rest =>
    match draft.dags.pushShared handle.2 with
    | .error error => (.error (.registry error), draft)
    | .ok (dags, _) => pushHandles { draft with dags := dags } rest

def sortHandles (handles : List (I × S)) : List (I × S) :=
  handles.mergeSort fun a b => decide (a.1 ≤ b.1)

def installSharedDagStores (draft : TirDraft L S I U V) (stores : List (DagStore L S I U V)) :
    Except (DagStoreInsertError I U) Unit × TirDraft L S I U V :=
  match draft.missingCallee stores with
  | some (target, caller) => (.error (.missingCallee caller target), draft)
  | none =>
    match draft.collectHandles [] stores with
    | (.error error, merged) => (.error error, merged)
    | (.ok handles, merged) => merged.pushHandles (sortHandles handles)

variable {draft : TirDraft L S I U V} {store : DagStore L S I U V}
  {stores : List (DagStore L S I U V)} {handles : List (I × S)}

/-- The runtime units with those of a store added. -/
def addUnits (units : InsertionMap U V) (store : DagStore L S I U V) : InsertionMap U V :=
  store.runtimeUnits.entries.foldl (fun units entry => units.insert entry.1 entry.2) units

omit [DecidableEq V] in
theorem get?_addUnits (units : InsertionMap U V) (store : DagStore L S I U V) (u : U) :
    (addUnits units store).get? u = (store.runtimeUnits.get? u).or (units.get? u) :=
  InsertionMap.get?_foldl_insert store.runtimeUnits.distinct units u

/-- The draft and the store define no unit in two ways. -/
def Agrees (units : InsertionMap U V) (store : DagStore L S I U V) : Prop :=
  ∀ u v v', units.get? u = some v → store.runtimeUnits.get? u = some v' → v = v'

theorem competingUnit_eq_none : draft.competingUnit store = none ↔
    Agrees draft.runtimeUnits store := by
  rw [competingUnit, List.find?_eq_none]
  constructor
  · intro h u v v' hv hv'
    have hentry := h (u, v') (InsertionMap.mem_entries_iff.mpr hv')
    rw [hv] at hentry
    simpa using hentry
  · intro h entry hentry
    cases hget : draft.runtimeUnits.get? entry.1 with
    | none => simp
    | some v =>
      have hv := h entry.1 v entry.2 hget (InsertionMap.mem_entries_iff.mp hentry)
      simp [hv]

theorem mergeRuntimeUnits_cases (draft : TirDraft L S I U V) (store : DagStore L S I U V) :
    (¬ Agrees draft.runtimeUnits store ∧
      ∃ u, draft.mergeRuntimeUnits store = .error (.competingRuntimeUnit u)) ∨
    (Agrees draft.runtimeUnits store ∧
      draft.mergeRuntimeUnits store = .ok { draft with
        runtimeUnits := addUnits draft.runtimeUnits store }) := by
  rw [← competingUnit_eq_none]
  unfold mergeRuntimeUnits
  cases draft.competingUnit store with
  | none => exact .inr ⟨rfl, rfl⟩
  | some entry => exact .inl ⟨Option.some_ne_none entry, entry.1, rfl⟩

omit [DecidableEq U] [DecidableEq V] in
theorem repeatedDag_eq_none : draft.repeatedDag handles store = none ↔
    ∀ id ∈ store.dags.keys, draft.dags.contains id = false ∧ id ∉ handles.map Prod.fst := by
  rw [repeatedDag, List.find?_eq_none]
  refine forall₂_congr fun id _ => ?_
  rw [Bool.not_eq_true, Bool.or_eq_false_iff, List.any_eq_false]
  refine and_congr_right fun _ => ?_
  rw [List.mem_map, not_exists]
  refine forall_congr' fun installed => ?_
  rw [not_and, decide_eq_true_eq]

/-! ## The loop over the stores -/

/-- The runtime units with those of all stores added, in the order of the stores. -/
def allUnits (units : InsertionMap U V) (stores : List (DagStore L S I U V)) : InsertionMap U V :=
  stores.foldl addUnits units

/-- The handles of all stores, in the order of the stores. -/
def allHandles (stores : List (DagStore L S I U V)) : List (I × S) :=
  stores.flatMap fun store => store.dags.entries

/-- No store defines a unit in another way than what was added before it. -/
def AllAgree (units : InsertionMap U V) : List (DagStore L S I U V) → Prop
  | [] => True
  | store :: rest => Agrees units store ∧ AllAgree (addUnits units store) rest

/-- No identity occurs twice among the draft, the handles and the stores. -/
def Distinct (dags : DagSlots L S I) (handles : List (I × S))
    (stores : List (DagStore L S I U V)) : Prop :=
  ((handles ++ allHandles stores).map Prod.fst).Nodup ∧
    ∀ handle ∈ allHandles stores, dags.contains handle.1 = false

omit [DecidableEq U] [DecidableEq V] in
theorem distinct_cons :
    Distinct dags handles (store :: stores) ↔
      (∀ id ∈ store.dags.keys, dags.contains id = false ∧ id ∉ handles.map Prod.fst) ∧
        Distinct dags (handles ++ store.dags.entries) stores := by
  unfold Distinct allHandles
  rw [List.flatMap_cons, ← List.append_assoc, List.forall_mem_append]
  have hkeys : (∀ entry ∈ store.dags.entries, dags.contains entry.1 = false) ↔
      ∀ id ∈ store.dags.keys, dags.contains id = false := by
    rw [InsertionMap.keys, List.forall_mem_map]
  rw [hkeys]
  constructor
  · rintro ⟨hnodup, hstore, hrest⟩
    refine ⟨fun id hid => ⟨hstore id hid, fun hmem => ?_⟩, hnodup, hrest⟩
    rw [List.map_append, List.map_append] at hnodup
    exact (List.nodup_append.mp (List.nodup_append.mp hnodup).1).2.2 _ hmem _ hid rfl
  · rintro ⟨hstore, hnodup, hrest⟩
    exact ⟨hnodup, fun id hid => (hstore id hid).1, hrest⟩

omit [DecidableEq U] [DecidableEq V] in
theorem nodup_append_store (hhandles : (handles.map Prod.fst).Nodup)
    (h : ∀ id ∈ store.dags.keys, id ∉ handles.map Prod.fst) :
    ((handles ++ store.dags.entries).map Prod.fst).Nodup := by
  rw [List.map_append, List.nodup_append]
  refine ⟨hhandles, store.dags.distinct, ?_⟩
  rintro a ha b hb rfl
  exact h a hb ha

/-- How the loop ends: with all handles, at a store that competes on a unit, or at a store that
repeats a DAG, whose units were added already. -/
inductive Collects (draft : TirDraft L S I U V) (handles : List (I × S))
    (stores : List (DagStore L S I U V)) :
    Except (DagStoreInsertError I U) (List (I × S)) × TirDraft L S I U V → Prop
  | all (hunits : AllAgree draft.runtimeUnits stores) (hdags : Distinct draft.dags handles stores) :
    Collects draft handles stores (.ok (handles ++ allHandles stores),
      { draft with runtimeUnits := allUnits draft.runtimeUnits stores })
  | competing (u : U) (before after : List (DagStore L S I U V)) (store : DagStore L S I U V)
    (hstores : stores = before ++ store :: after)
    (hcompetes : ¬ Agrees (allUnits draft.runtimeUnits before) store)
    (hunits : ¬ AllAgree draft.runtimeUnits stores) :
    Collects draft handles stores (.error (.competingRuntimeUnit u),
      { draft with runtimeUnits := allUnits draft.runtimeUnits before })
  | repeated (id : I) (before after : List (DagStore L S I U V)) (store : DagStore L S I U V)
    (hstores : stores = before ++ store :: after) (hid : id ∈ store.dags.keys)
    (hdags : ¬ Distinct draft.dags handles stores) :
    Collects draft handles stores (.error (.registry ⟨id⟩),
      { draft with runtimeUnits := allUnits draft.runtimeUnits (before ++ [store]) })

omit [DecidableEq V] in
/-- A store that passes leaves the rest of the loop to a draft with its units. -/
theorem Collects.cons (hagrees : Agrees draft.runtimeUnits store)
    (hstore : ∀ id ∈ store.dags.keys, draft.dags.contains id = false ∧ id ∉ handles.map Prod.fst)
    {result : Except (DagStoreInsertError I U) (List (I × S)) × TirDraft L S I U V}
    (h : Collects ⟨addUnits draft.runtimeUnits store, draft.dags⟩
      (handles ++ store.dags.entries) stores result) :
    Collects draft handles (store :: stores) result := by
  cases h with
  | all hunits hdags =>
    have hall : allHandles (store :: stores) = store.dags.entries ++ allHandles stores :=
      List.flatMap_cons
    rw [List.append_assoc, ← hall]
    exact .all ⟨hagrees, hunits⟩ (distinct_cons.mpr ⟨hstore, hdags⟩)
  | competing u before after competitor hstores hcompetes hunits =>
    exact .competing u (store :: before) after competitor (by rw [hstores]; rfl) hcompetes
      fun h => hunits h.2
  | repeated id before after repeating hstores hid hdags =>
    exact .repeated id (store :: before) after repeating (by rw [hstores]; rfl) hid
      fun h => hdags (distinct_cons.mp h).2

theorem collectHandles_collects (hhandles : (handles.map Prod.fst).Nodup) :
    Collects draft handles stores (draft.collectHandles handles stores) := by
  induction stores generalizing draft handles with
  | nil =>
    have hall : Collects draft handles [] (.ok (handles ++ allHandles []), draft) :=
      .all trivial ⟨by rwa [allHandles, List.flatMap_nil, List.append_nil], fun _ h => nomatch h⟩
    rwa [allHandles, List.flatMap_nil, List.append_nil] at hall
  | cons store rest ih =>
    rw [collectHandles]
    rcases mergeRuntimeUnits_cases draft store with ⟨hcompetes, u, hmerge⟩ | ⟨hagrees, hmerge⟩
    · rw [hmerge]
      exact .competing u [] rest store rfl hcompetes fun h => hcompetes h.1
    · rw [hmerge]
      dsimp only
      split
      case h_1 id hrepeated =>
        change draft.repeatedDag handles store = some id at hrepeated
        refine .repeated id [] rest store rfl (List.mem_of_find?_eq_some hrepeated) fun h => ?_
        have hnone := repeatedDag_eq_none.mpr (distinct_cons.mp h).1
        rw [hrepeated] at hnone
        cases hnone
      case h_2 hnone =>
        change draft.repeatedDag handles store = none at hnone
        have hstore := repeatedDag_eq_none.mp hnone
        exact (ih (nodup_append_store hhandles fun id hid => (hstore id hid).2)).cons hagrees hstore

theorem contains_pushShared {next : DagSlots L S I} {n : ℕ}
    (h : dags.pushShared dag = .ok (next, n)) (id : I) :
    next.contains id = (decide (id = dagId L dag) || dags.contains id) := by
  obtain ⟨p, -, he⟩ := Checked.bind_eq_ok.mp h
  cases he
  unfold DagSlots.contains
  dsimp only
  rw [Function.update_apply]
  split_ifs with hid
  · simp [hid]
  · simp [hid]

theorem pushShared_isOk (h : dags.contains (dagId L dag) = false) :
    ∃ next n, dags.pushShared dag = .ok (next, n) := by
  have hposition : dags.nextPosition (dagId L dag) = .ok dags.slots.length := by
    unfold DagSlots.nextPosition
    unfold DagSlots.contains at h
    rw [if_neg (by rw [h]; decide)]
  exact ⟨_, _, by rw [DagSlots.pushShared, hposition]; rfl⟩

omit [DecidableEq U] [DecidableEq V] in
/-- Handles of distinct new identities all join, whatever the runtime units. -/
theorem pushHandles_ok (hkeyed : ∀ handle ∈ handles, dagId L handle.2 = handle.1)
    (hnodup : (handles.map Prod.fst).Nodup)
    (hnew : ∀ handle ∈ handles, dags.contains handle.1 = false) :
    ∃ joined, ∀ units : InsertionMap U V,
      pushHandles ⟨units, dags⟩ handles = (.ok (), ⟨units, joined⟩) := by
  induction handles generalizing dags with
  | nil => exact ⟨dags, fun _ => rfl⟩
  | cons handle rest ih =>
    rw [List.map_cons, List.nodup_cons] at hnodup
    have hid := hkeyed handle List.mem_cons_self
    obtain ⟨next, n, hpush⟩ := pushShared_isOk (hid ▸ hnew handle List.mem_cons_self)
    have hrest : ∀ h ∈ rest, next.contains h.1 = false := by
      intro h hmem
      rw [contains_pushShared hpush, Bool.or_eq_false_iff, hid]
      refine ⟨decide_eq_false ?_, hnew h (List.mem_cons_of_mem _ hmem)⟩
      exact fun heq => hnodup.1 (heq ▸ List.mem_map_of_mem hmem)
    obtain ⟨joined, hjoined⟩ :=
      ih (fun h hmem => hkeyed h (List.mem_cons_of_mem _ hmem)) hnodup.2 hrest
    refine ⟨joined, fun units => ?_⟩
    rw [pushHandles, hpush]
    exact hjoined units

theorem sortHandles_perm (handles : List (I × S)) : (sortHandles handles).Perm handles :=
  List.mergeSort_perm _ _

/-- The sorted handles do not depend on the order in which they were collected. -/
theorem sortHandles_eq {handles' : List (I × S)} (hperm : handles.Perm handles')
    (hnodup : (handles.map Prod.fst).Nodup) : sortHandles handles = sortHandles handles' := by
  have hsorted : ∀ l : List (I × S), (sortHandles l).Pairwise fun a b => a.1 ≤ b.1 := by
    intro l
    have htrans (a b c : I × S) (hab : decide (a.1 ≤ b.1) = true)
        (hbc : decide (b.1 ≤ c.1) = true) : decide (a.1 ≤ c.1) = true :=
      decide_eq_true ((of_decide_eq_true hab).trans (of_decide_eq_true hbc))
    have htotal (a b : I × S) : (decide (a.1 ≤ b.1) || decide (b.1 ≤ a.1)) = true := by
      rw [Bool.or_eq_true, decide_eq_true_eq, decide_eq_true_eq]
      exact le_total a.1 b.1
    exact (List.pairwise_mergeSort htrans htotal l).imp fun hle => of_decide_eq_true hle
  refine List.Perm.eq_of_pairwise (fun a b ha hb hab hba => ?_) (hsorted handles)
    (hsorted handles') (((sortHandles_perm handles).trans hperm).trans (sortHandles_perm _).symm)
  have hmem : b ∈ handles := hperm.mem_iff.mpr ((sortHandles_perm handles').mem_iff.mp hb)
  exact List.inj_on_of_nodup_map hnodup ((sortHandles_perm handles).mem_iff.mp ha) hmem
    (le_antisymm hab hba)

/-- The units or one of the stores define `u` as `v`. -/
def Defines (units : InsertionMap U V) (stores : List (DagStore L S I U V)) (u : U) (v : V) :
    Prop :=
  units.get? u = some v ∨ ∃ store ∈ stores, store.runtimeUnits.get? u = some v

/-- No unit has two unequal definitions. -/
def Consistent (units : InsertionMap U V) (stores : List (DagStore L S I U V)) : Prop :=
  ∀ u v v', Defines units stores u v → Defines units stores u v' → v = v'

omit [DecidableEq V] in
theorem get?_addUnits_of_agrees (h : Agrees units store) (u : U) (v : V) :
    (addUnits units store).get? u = some v ↔
      units.get? u = some v ∨ store.runtimeUnits.get? u = some v := by
  rw [get?_addUnits]
  cases hstore : store.runtimeUnits.get? u with
  | none => simp
  | some v' =>
    rw [Option.some_or]
    refine ⟨.inr, fun hv => hv.elim (fun hunits => ?_) id⟩
    rw [h u v v' hunits hstore]

omit [DecidableEq V] in
/-- A store that agrees moves its definitions to the draft. -/
theorem defines_addUnits (h : Agrees units store) (u : U) (v : V) :
    Defines (addUnits units store) stores u v ↔ Defines units (store :: stores) u v := by
  unfold Defines
  rw [get?_addUnits_of_agrees h, or_assoc]
  simp only [List.mem_cons, exists_eq_or_imp]

omit [DecidableEq V] in
theorem Consistent.agrees (h : Consistent units (store :: stores)) :
    Agrees units store :=
  fun u v v' hv hv' => h u v v' (.inl hv) (.inr ⟨store, List.mem_cons_self, hv'⟩)

omit [DecidableEq V] in
theorem allAgree_iff :
    AllAgree units stores ↔ Consistent units stores := by
  induction stores generalizing units with
  | nil =>
    refine iff_of_true trivial fun u v v' hv hv' => ?_
    have hsome (w : V) (hw : Defines units ([] : List (DagStore L S I U V)) u w) :
        units.get? u = some w :=
      hw.elim id fun ⟨_, hmem, _⟩ => nomatch hmem
    exact Option.some_injective _ ((hsome v hv).symm.trans (hsome v' hv'))
  | cons store rest ih =>
    have hmoves (hagrees : Agrees units store) :
        Consistent (addUnits units store) rest ↔ Consistent units (store :: rest) := by
      unfold Consistent
      simp only [defines_addUnits hagrees]
    rw [AllAgree, ih]
    refine ⟨fun h => (hmoves h.1).mp h.2, fun h => ?_⟩
    exact ⟨h.agrees, (hmoves h.agrees).mpr h⟩

omit [DecidableEq V] in
/-- Consistent stores leave exactly what they and the draft define. -/
theorem get?_allUnits (h : Consistent units stores) (u : U) (v : V) :
    (allUnits units stores).get? u = some v ↔ Defines units stores u v := by
  rw [← allAgree_iff] at h
  induction stores generalizing units with
  | nil => exact ⟨.inl, fun hv => hv.elim id fun ⟨_, hmem, _⟩ => nomatch hmem⟩
  | cons store rest ih =>
    have hrest : allUnits units (store :: rest) = allUnits (addUnits units store) rest := rfl
    rw [hrest, ih h.2, defines_addUnits h.1]

omit [DecidableEq V] in
theorem defines_perm (hperm : stores.Perm stores') (u : U) (v : V) :
    Defines units stores u v ↔ Defines units stores' u v := by
  unfold Defines
  simp only [hperm.mem_iff]

omit [DecidableEq V] in
theorem Consistent.perm (h : Consistent units stores) (hperm : stores.Perm stores') :
    Consistent units stores' := by
  intro u v v' hv hv'
  exact h u v v' ((defines_perm hperm u v).mpr hv) ((defines_perm hperm u v').mpr hv')

/-- Every external callee of a store is a DAG of the draft or of one of the stores. -/
def CalleesPresent (draft : TirDraft L S I U V) (stores : List (DagStore L S I U V)) : Prop :=
  ∀ store ∈ stores, ∀ callee ∈ store.externalCallees.entries,
    draft.dags.contains callee.1 = true ∨ ∃ store' ∈ stores, callee.1 ∈ store'.dags.keys

omit [DecidableEq U] [DecidableEq V] in
theorem missingCallee_eq_none :
    draft.missingCallee stores = none ↔ CalleesPresent draft stores := by
  have hkeys (store : DagStore L S I U V) (id : I) :
      (store.dags.get? id).isSome = true ↔ id ∈ store.dags.keys := by
    rw [Option.isSome_iff_exists, InsertionMap.mem_keys]
  rw [missingCallee, List.find?_eq_none]
  simp only [List.mem_flatMap, Bool.not_eq_true', Bool.not_eq_false, Bool.or_eq_true,
    List.any_eq_true, hkeys, forall_exists_index, and_imp]
  exact ⟨fun h store hstore callee hcallee => h callee store hstore hcallee,
    fun h callee store hstore hcallee => h store hstore callee hcallee⟩

omit [DecidableEq U] [DecidableEq V] in
theorem CalleesPresent.perm (h : CalleesPresent draft stores) (hperm : stores.Perm stores') :
    CalleesPresent draft stores' := by
  intro store hstore callee hcallee
  refine (h store (hperm.mem_iff.mpr hstore) callee hcallee).imp id fun ⟨store', hmem, hkey⟩ => ?_
  exact ⟨store', hperm.mem_iff.mp hmem, hkey⟩

omit [DecidableEq U] [DecidableEq V] in
theorem allHandles_perm (hperm : stores.Perm stores') :
    (allHandles stores).Perm (allHandles stores') :=
  hperm.flatMap_right _

omit [DecidableEq U] [DecidableEq V] in
theorem Distinct.perm (h : Distinct dags [] stores) (hperm : stores.Perm stores') :
    Distinct dags [] stores' := by
  have hhandles := allHandles_perm hperm
  refine ⟨?_, fun handle hmem => h.2 handle (hhandles.mem_iff.mpr hmem)⟩
  exact (hhandles.map Prod.fst).nodup_iff.mp h.1

/-- When the stores can be installed. -/
structure Installable (draft : TirDraft L S I U V) (stores : List (DagStore L S I U V)) : Prop where
  callees : CalleesPresent draft stores
  distinct : Distinct draft.dags [] stores
  consistent : Consistent draft.runtimeUnits stores

/-! ## The installation -/

/-- How the installation ends. -/
inductive Installs (draft : TirDraft L S I U V) (stores : List (DagStore L S I U V)) :
    Except (DagStoreInsertError I U) Unit × TirDraft L S I U V → Prop
  | installed (h : Installable draft stores) (joined : DagSlots L S I)
    (hjoined : ∀ units : InsertionMap U V,
      pushHandles ⟨units, draft.dags⟩ (sortHandles (allHandles stores)) =
        (.ok (), ⟨units, joined⟩)) :
    Installs draft stores (.ok (), ⟨allUnits draft.runtimeUnits stores, joined⟩)
  | missing (caller target : I) (h : ¬ CalleesPresent draft stores) :
    Installs draft stores (.error (.missingCallee caller target), draft)
  | competing (u : U) (before after : List (DagStore L S I U V)) (store : DagStore L S I U V)
    (hstores : stores = before ++ store :: after)
    (hcompetes : ¬ Agrees (allUnits draft.runtimeUnits before) store)
    (hunits : ¬ Consistent draft.runtimeUnits stores) :
    Installs draft stores (.error (.competingRuntimeUnit u),
      { draft with runtimeUnits := allUnits draft.runtimeUnits before })
  | repeated (id : I) (before after : List (DagStore L S I U V)) (store : DagStore L S I U V)
    (hstores : stores = before ++ store :: after) (hid : id ∈ store.dags.keys)
    (hdags : ¬ Distinct draft.dags [] stores) :
    Installs draft stores (.error (.registry ⟨id⟩),
      { draft with runtimeUnits := allUnits draft.runtimeUnits (before ++ [store]) })

omit [DecidableEq U] [DecidableEq V] in
theorem allHandles_keyed : ∀ handle ∈ allHandles stores, dagId L handle.2 = handle.1 := by
  intro handle hmem
  obtain ⟨store, -, hentry⟩ := List.mem_flatMap.mp hmem
  exact store.keyed handle hentry

omit [DecidableEq U] [DecidableEq V] in
/-- The sorted handles of distinct bodies all join. -/
theorem pushHandles_sorted (h : Distinct dags [] stores) :
    ∃ joined, ∀ units : InsertionMap U V,
      pushHandles ⟨units, dags⟩ (sortHandles (allHandles stores)) = (.ok (), ⟨units, joined⟩) := by
  have hperm := sortHandles_perm (allHandles stores)
  apply pushHandles_ok
  · exact fun handle hmem => allHandles_keyed handle (hperm.mem_iff.mp hmem)
  · exact (hperm.map Prod.fst).nodup_iff.mpr h.1
  · exact fun handle hmem => h.2 handle (hperm.mem_iff.mp hmem)

theorem installSharedDagStores_installs (draft : TirDraft L S I U V)
    (stores : List (DagStore L S I U V)) :
    Installs draft stores (draft.installSharedDagStores stores) := by
  unfold installSharedDagStores
  cases hmissing : draft.missingCallee stores with
  | some callee =>
    refine .missing callee.2 callee.1 fun h => ?_
    rw [missingCallee_eq_none.mpr h] at hmissing
    cases hmissing
  | none =>
    have hcallees := missingCallee_eq_none.mp hmissing
    have hcollects : Collects draft [] stores (draft.collectHandles [] stores) :=
      collectHandles_collects List.nodup_nil
    generalize draft.collectHandles [] stores = collected at hcollects
    cases hcollects with
    | all hunits hdags =>
      obtain ⟨joined, hjoined⟩ := pushHandles_sorted hdags
      rw [List.nil_append]
      dsimp only
      rw [hjoined]
      exact .installed ⟨hcallees, hdags, allAgree_iff.mp hunits⟩ joined hjoined
    | competing u before after store hstores hcompetes hunits =>
      exact .competing u before after store hstores hcompetes fun h => hunits (allAgree_iff.mpr h)
    | repeated id before after store hstores hid hdags =>
      exact .repeated id before after store hstores hid hdags

/-- The draft that a failed installation leaves. -/
def FailureLeaves (draft : TirDraft L S I U V) (stores : List (DagStore L S I U V))
    (error : DagStoreInsertError I U) (left : TirDraft L S I U V) : Prop :=
  left.dags = draft.dags ∧
    match error with
    | .missingCallee _ _ => left.runtimeUnits = draft.runtimeUnits
    | .competingRuntimeUnit _ => ∃ before store after, stores = before ++ store :: after ∧
        ¬ Agrees (allUnits draft.runtimeUnits before) store ∧
        left.runtimeUnits = allUnits draft.runtimeUnits before
    | .registry repeated => ∃ before store after, stores = before ++ store :: after ∧
        repeated.dagId ∈ store.dags.keys ∧
        left.runtimeUnits = allUnits draft.runtimeUnits (before ++ [store])

theorem installSharedDagStores_isOk (draft : TirDraft L S I U V)
    (stores : List (DagStore L S I U V)) :
    (draft.installSharedDagStores stores).1 = .ok () ↔ Installable draft stores := by
  have h := installSharedDagStores_installs draft stores
  generalize draft.installSharedDagStores stores = result at h
  cases h with
  | installed h joined hjoined => exact iff_of_true rfl h
  | missing caller target h => exact iff_of_false nofun fun hi => h hi.callees
  | competing u before after store hstores hcompetes hunits =>
    exact iff_of_false nofun fun hi => hunits hi.consistent
  | repeated id before after store hstores hid hdags =>
    exact iff_of_false nofun fun hi => hdags hi.distinct

/-- What an installation of installable stores leaves. -/
theorem installSharedDagStores_installed {draft : TirDraft L S I U V}
    {stores : List (DagStore L S I U V)} (h : Installable draft stores) :
    (draft.installSharedDagStores stores).2.runtimeUnits = allUnits draft.runtimeUnits stores ∧
      ∀ units : InsertionMap U V,
        pushHandles ⟨units, draft.dags⟩ (sortHandles (allHandles stores)) =
          (.ok (), ⟨units, (draft.installSharedDagStores stores).2.dags⟩) := by
  have hresult := installSharedDagStores_installs draft stores
  generalize draft.installSharedDagStores stores = result at hresult
  cases hresult with
  | installed _ joined hjoined => exact ⟨rfl, hjoined⟩
  | missing _ _ hnot => exact absurd h.callees hnot
  | competing _ _ _ _ _ _ hnot => exact absurd h.consistent hnot
  | repeated _ _ _ _ _ _ hnot => exact absurd h.distinct hnot

/-- Stores in another order leave the same DAG positions and the same units. -/
theorem installSharedDagStores_perm {draft : TirDraft L S I U V}
    {stores : List (DagStore L S I U V)} (h : Installable draft stores)
    (hperm : stores.Perm stores') :
    (draft.installSharedDagStores stores').1 = .ok () ∧
      (draft.installSharedDagStores stores').2.dags =
        (draft.installSharedDagStores stores).2.dags ∧
      ∀ u, (draft.installSharedDagStores stores').2.runtimeUnits.get? u =
        (draft.installSharedDagStores stores).2.runtimeUnits.get? u := by
  have h' : Installable draft stores' :=
    ⟨h.callees.perm hperm, h.distinct.perm hperm, h.consistent.perm hperm⟩
  obtain ⟨hunits, hjoined⟩ := installSharedDagStores_installed h
  obtain ⟨hunits', hjoined'⟩ := installSharedDagStores_installed h'
  refine ⟨(installSharedDagStores_isOk draft stores').mpr h', ?_, fun u => ?_⟩
  · have hsorted := sortHandles_eq (allHandles_perm hperm) h.distinct.1
    have hsame := (hjoined' draft.runtimeUnits).symm.trans
      (hsorted ▸ hjoined draft.runtimeUnits)
    exact congrArg (fun result => result.2.dags) hsame
  · rw [hunits, hunits']
    apply Option.ext
    intro v
    rw [get?_allUnits h.consistent, get?_allUnits h'.consistent, defines_perm hperm]

theorem installSharedDagStores_failure {draft left : TirDraft L S I U V}
    {stores : List (DagStore L S I U V)} {error : DagStoreInsertError I U}
    (hfailed : draft.installSharedDagStores stores = (.error error, left)) :
    FailureLeaves draft stores error left := by
  have h := installSharedDagStores_installs draft stores
  rw [hfailed] at h
  cases h with
  | missing caller target h => exact ⟨rfl, rfl⟩
  | competing u before after store hstores hcompetes hunits =>
    exact ⟨rfl, before, store, after, hstores, hcompetes, rfl⟩
  | repeated id before after store hstores hid hdags =>
    exact ⟨rfl, before, store, after, hstores, hid, rfl⟩

/-- Installation succeeds on exactly the installable stores, in any order with the same result; a
failure leaves the registry as it was, but the units of earlier stores stay. -/
theorem shared_stores_installation (draft : TirDraft L S I U V)
    (stores : List (DagStore L S I U V)) :
    ((draft.installSharedDagStores stores).1 = .ok () ↔ Installable draft stores) ∧
      ((draft.installSharedDagStores stores).1 = .ok () → ∀ stores', stores.Perm stores' →
        (draft.installSharedDagStores stores').1 = .ok () ∧
          (draft.installSharedDagStores stores').2.dags =
            (draft.installSharedDagStores stores).2.dags ∧
          ∀ u, (draft.installSharedDagStores stores').2.runtimeUnits.get? u =
            (draft.installSharedDagStores stores).2.runtimeUnits.get? u) ∧
      ∀ error left, draft.installSharedDagStores stores = (.error error, left) →
        FailureLeaves draft stores error left := by
  refine ⟨installSharedDagStores_isOk draft stores, fun hok stores' hperm => ?_, fun _ _ => ?_⟩
  · exact installSharedDagStores_perm ((installSharedDagStores_isOk draft stores).mp hok) hperm
  · exact installSharedDagStores_failure

/-- A store of one body without callees. -/
def bareStore (dag : DagSlots.BareDag) (units : InsertionMap ℕ ℕ) :
    DagStore DagSlots.BareDag DagSlots.BareDag ℕ ℕ ℕ where
  dags := InsertionMap.empty.insert dag.id dag
  runtimeUnits := units
  externalCallees := SortedMap.empty
  keyed := by
    intro entry hentry
    rw [InsertionMap.insert] at hentry
    exact List.mem_singleton.mp hentry ▸ rfl

/-- A competing second store, and a store with a body of the draft, leave an added unit. -/
theorem failed_installation_adds_units :
    ∃ (draft competing repeated : TirDraft DagSlots.BareDag DagSlots.BareDag ℕ ℕ ℕ)
      (stores stores' : List (DagStore DagSlots.BareDag DagSlots.BareDag ℕ ℕ ℕ)),
      draft.installSharedDagStores stores = (.error (.competingRuntimeUnit 0), competing) ∧
        draft.installSharedDagStores stores' = (.error (.registry ⟨0⟩), repeated) ∧
        draft.runtimeUnits.get? 0 = none ∧ competing.runtimeUnits.get? 0 = some 5 ∧
        repeated.runtimeUnits.get? 0 = some 5 := by
  refine ⟨⟨InsertionMap.empty, DagSlots.new ⟨0⟩⟩, _, _,
    [bareStore ⟨1⟩ (InsertionMap.empty.insert 0 5), bareStore ⟨2⟩ (InsertionMap.empty.insert 0 6)],
    [bareStore ⟨0⟩ (InsertionMap.empty.insert 0 5)], rfl, rfl, rfl, rfl, rfl⟩

end TirDraft

end ProvenGraphcal
