import ProvenGraphcal.Instance.InstanceGraph
import ProvenGraphcal.Registry.SlotGrowth

/-!
# What instantiation leaves behind

Following an edge keeps the graph aligned with the edges followed so far. A round follows every
edge of its holders, and an acyclic program runs out of holders.
-/

namespace ProvenGraphcal

open Relation DagSlots
open Checked (bind_eq_error bind_eq_ok)
open Function (comp_def update update_of_ne)

variable {N A K B Y E : Type} [LinearOrder (DagId N A)] [DecidableEq N]

/-- The DAG `holder` has an include of the template `template`. -/
def IncludesTemplate (tir : UncheckedTir N A K B Y) (holder template : DagId N A) : Prop :=
  ∃ p dag, tir.dags.bodyAt p = some dag ∧ dag.dagId = holder ∧
    ∃ edge ∈ dag.semanticInstances, edge.id.template = template

/-- The instance at `q` of the program `tir'` is the one that `edge`, an include of `includer`,
allocates: a copy of the template that the program `tir` has, and with the edge as its origin. -/
def CreatedBy (tir tir' : UncheckedTir N A K B Y) (graph : InstanceGraph N A K B)
    (includer : SemanticDagTIR N A K B) (edge : HirInstanceRecord N A K) (q : ℕ) : Prop :=
  ∃ templatePosition templateBody template dag,
    (InstanceGraph.new tir.dags).template tir.dags edge.id.template =
        some (templatePosition, templateBody) ∧
      tir.dags.bodyAt templatePosition = some template ∧ template.dagId = edge.id.template ∧
      graph.origins[q - tir.dags.slots.length]? =
        some ⟨templatePosition, templateBody, edge.instanceRecord.specialization⟩ ∧
      tir'.dags.bodyAt q = some dag ∧ dag.dagId = edge.id.owner ∧
      dag.frame = .ofRecord includer.frame edge.instanceRecord
        (template.semanticInstances.map HirInstanceRecord.id) ∧
      dag.semanticInstances = nestedInstances template edge

/-- `f p` are the edges of the DAG at `p` followed so far: the graph has the position of the
instance of each. -/
def Followed (dags : DagSlots (SemanticDagTIR N A K B) (SemanticDagTIR N A K B) (DagId N A))
    (graph : InstanceGraph N A K B) (f : ℕ → List (HirInstanceRecord N A K)) : Prop :=
  ∀ p < dags.slots.length, ∃ recorded, graph.edges[p]? = some recorded ∧
    List.Forall₂ (fun edge q => dags.positions edge.id.owner = some q) (f p) recorded

/-- What following edges keeps, from the program `tir` on. -/
structure Tracked (tir now : UncheckedTir N A K B Y) (graph : InstanceGraph N A K B)
    (f : ℕ → List (HirInstanceRecord N A K)) : Prop where
  start : tir.dags.Aligned
  aligned : now.dags.Aligned
  grows : tir.dags.Grows now.dags
  canonical : graph.canonicalLocals = tir.dags.locals.length
  edges_length : graph.edges.length = now.dags.slots.length
  origins_length : graph.origins.length = now.dags.slots.length - tir.dags.slots.length
  followed : Followed now.dags graph f
  created : ∀ q < now.dags.slots.length, tir.dags.slots.length ≤ q →
    ∃ holder includer edge, now.dags.bodyAt holder = some includer ∧
      edge ∈ includer.semanticInstances ∧ CreatedBy tir now graph includer edge q

theorem tracked_new {tir : UncheckedTir N A K B Y} (h : tir.dags.Aligned) :
    Tracked tir tir (.new tir.dags) fun _ => [] where
  start := h
  aligned := h
  grows := .refl _
  canonical := rfl
  edges_length := List.length_replicate
  origins_length := (Nat.sub_self _).symm
  followed _ hp := ⟨[], List.getElem?_replicate_of_lt hp, .nil⟩
  created _ hq hq' := absurd hq (Nat.not_lt.mpr hq')

/-- A template is found where the program had it before instantiation. -/
theorem Tracked.template {tir now : UncheckedTir N A K B Y} {graph : InstanceGraph N A K B}
    {f : ℕ → List (HirInstanceRecord N A K)} (h : Tracked tir now graph f) {id : DagId N A}
    {position : ℕ} {body : TemplateBody N A K B}
    (ht : graph.template now.dags id = some (position, body)) :
    (InstanceGraph.new tir.dags).template tir.dags id = some (position, body) ∧
      ∃ template, tir.dags.bodyAt position = some template ∧
        now.dags.bodyAt position = some template ∧ template.dagId = id := by
  obtain ⟨p, hp, ht⟩ := Option.bind_eq_some_iff.mp ht
  obtain ⟨slot, hslot, ht⟩ := Option.bind_eq_some_iff.mp ht
  obtain ⟨dag, hdag, hid⟩ := (h.aligned.positions_eq id p).mp hp
  have hp_eq : p = position := by
    cases slot with
    | localBody index =>
      simp only at ht
      split_ifs at ht
      exact congrArg Prod.fst (Option.some.inj ht)
    | shared index =>
      obtain ⟨shared, -, hshared⟩ := Option.map_eq_some_iff.mp ht
      exact congrArg Prod.fst hshared
  subst hp_eq
  -- A position behind the program's own holds an instance, which is no template.
  have hlt : p < tir.dags.slots.length := by
    by_contra hge
    have hlocal := h.grows.added p (Aligned.bodyAt_lt hdag) (Nat.not_lt.mp hge)
    rw [hslot] at hlocal
    cases hlocal
    simp only at ht
    rw [if_neg (by rw [h.canonical]; omega)] at ht
    cases ht
  have hbody : tir.dags.bodyAt p = some dag := by rw [← h.grows.bodyAt h.start hlt, hdag]
  refine ⟨?_, dag, hbody, hdag, hid⟩
  unfold InstanceGraph.template
  have hposition : tir.dags.position id = some p :=
    (h.start.positions_eq id p).mpr ⟨dag, hbody, hid⟩
  rw [hposition, Option.bind_eq_bind, Option.bind_some, ← h.grows.slots p hlt, hslot]
  rw [h.grows.shared, h.canonical] at ht
  exact ht

variable {edge : HirInstanceRecord N A K} {graph : InstanceGraph N A K B}
variable {includer : SemanticDagTIR N A K B} {now : UncheckedTir N A K B Y}

theorem CreatedBy.mono {tir next : UncheckedTir N A K B Y} {graph' : InstanceGraph N A K B} {q : ℕ}
    (h : CreatedBy tir now graph includer edge q) (haligned : now.dags.Aligned)
    (hgrows : now.dags.Grows next.dags)
    (horigins : ∃ added, graph'.origins = graph.origins ++ added) :
    CreatedBy tir next graph' includer edge q := by
  obtain ⟨position, body, template, dag, htemplate, hbody, hid, horigin, hdag, hrest⟩ := h
  obtain ⟨added, hadded⟩ := horigins
  refine ⟨position, body, template, dag, htemplate, hbody, hid, ?_,
    hgrows.bodyAt_some haligned hdag, hrest⟩
  rw [hadded, List.getElem?_append_left (List.getElem?_eq_some_iff.mp horigin).1, horigin]

variable {dags : DagSlots (SemanticDagTIR N A K B) (SemanticDagTIR N A K B) (DagId N A)}

omit [DecidableEq N] in
theorem Followed.mono
    {dags' : DagSlots (SemanticDagTIR N A K B) (SemanticDagTIR N A K B) (DagId N A)}
    {l : List (HirInstanceRecord N A K)} {recorded : List ℕ} (hgrows : dags.Grows dags')
    (haligned : dags.Aligned) (haligned' : dags'.Aligned)
    (h : List.Forall₂ (fun edge q => dags.positions edge.id.owner = some q) l recorded) :
    List.Forall₂ (fun edge q => dags'.positions edge.id.owner = some q) l recorded :=
  h.imp fun _ _ hq => hgrows.positions haligned haligned' hq

/-- Recording the instance of the next edge of `holder`. -/
theorem Tracked.recordEdge {tir now : UncheckedTir N A K B Y} {graph : InstanceGraph N A K B}
    {f : ℕ → List (HirInstanceRecord N A K)} (h : Tracked tir now graph f) {holder position : ℕ}
    {edge : HirInstanceRecord N A K} (hposition : now.dags.positions edge.id.owner = some position)
    (hholder : holder < now.dags.slots.length) :
    ∃ graph', (graph.recordEdge holder position : Except (InstantiationError N A E) _) =
        .ok graph' ∧ graph'.origins = graph.origins ∧
      Tracked tir now graph' (update f holder (f holder ++ [edge])) := by
  have hlt : holder < graph.edges.length := by rw [h.edges_length]; exact hholder
  refine ⟨{ graph with edges := graph.edges.modify holder (· ++ [position]) }, ?_, rfl, h.start,
    h.aligned, h.grows, h.canonical, ?_, h.origins_length, fun p hp => ?_, h.created⟩
  · rw [InstanceGraph.recordEdge, if_pos hlt]
  · rw [List.length_modify]
    exact h.edges_length
  · obtain ⟨recorded, hrecorded, hall⟩ := h.followed p hp
    rw [List.getElem?_modify, hrecorded]
    by_cases he : holder = p
    · subst he
      rw [Function.update_self]
      exact ⟨recorded ++ [position], by simp, List.rel_append hall (.cons hposition .nil)⟩
    · rw [update_of_ne (Ne.symm he)]
      exact ⟨recorded, by simp [he], hall⟩

variable {holder : ℕ} {f : ℕ → List (HirInstanceRecord N A K)}

/-- Materializing the instance of an edge whose owner is new. -/
theorem Tracked.instantiate {specialize : UncheckedTir N A K B Y → SemanticDagTIR N A K B →
      HirInstanceRecord N A K → InstanceFrame N A → Except E (B × Y)}
    {tir next : UncheckedTir N A K B Y} {graph' : InstanceGraph N A K B}
    (h : Tracked tir now graph f) {position : ℕ} (hholder : now.dags.bodyAt holder = some includer)
    (hedge : edge ∈ includer.semanticInstances) (hfresh : f now.dags.slots.length = [])
    (hok : instantiateSemanticEdge specialize now graph holder edge = .ok (next, graph', position)) :
    Tracked tir next graph' f ∧ now.dags.Grows next.dags ∧
      next.dags.slots.length = now.dags.slots.length + 1 ∧
      position = now.dags.slots.length ∧ next.dags.positions edge.id.owner = some position ∧
      (∃ added, graph'.origins = graph.origins ++ added) ∧
      CreatedBy tir next graph' includer edge position := by
  unfold instantiateSemanticEdge at hok
  split at hok
  case h_1 => cases hok
  case h_2 templatePosition templateBody htemplate =>
    obtain ⟨template, hat, hok⟩ := bind_eq_ok.mp hok
    obtain ⟨includer', hat', hok⟩ := bind_eq_ok.mp hok
    obtain ⟨⟨body, core⟩, -, hok⟩ := bind_eq_ok.mp hok
    obtain ⟨⟨dags, graph₁, q⟩, hpush, hok⟩ := bind_eq_ok.mp hok
    cases hok
    obtain ⟨hnew, template', hbody, hbody', hid⟩ := h.template htemplate
    rw [dagAt, hbody'] at hat
    cases hat
    rw [dagAt, hholder] at hat'
    cases hat'
    rw [Checked.mapError_eq_ok, InstanceGraph.pushInstance] at hpush
    obtain ⟨⟨dags₁, q₁⟩, hlocal, hpush⟩ := bind_eq_ok.mp hpush
    cases hpush
    obtain ⟨rfl, -, -, -, hslots⟩ := pushLocal_eq_ok hlocal
    have hgrows := Grows.pushLocal hlocal
    have haligned := h.aligned.pushLocal hlocal
    have hlength : dags.slots.length = now.dags.slots.length + 1 := by
      rw [hslots, List.length_append, List.length_singleton]
    have hbodyAt := bodyAt_pushLocal h.aligned hlocal
    have hstart := h.grows.len_le
    have hat : dags.bodyAt now.dags.slots.length =
        some (instantiated template edge includer.frame body) := by
      rw [hbodyAt, if_pos rfl]
    have hposition : dags.positions edge.id.owner = some now.dags.slots.length :=
      (haligned.positions_eq _ _).mpr ⟨_, hat, rfl⟩
    have horigins : (graph.origins ++ [⟨templatePosition, templateBody,
        edge.instanceRecord.specialization⟩])[now.dags.slots.length - tir.dags.slots.length]? =
          some ⟨templatePosition, templateBody, edge.instanceRecord.specialization⟩ := by
      rw [← h.origins_length, List.getElem?_concat_length]
    refine ⟨⟨h.start, haligned, h.grows.trans hgrows, h.canonical, ?_, ?_, fun p hp => ?_,
      fun p hp hp' => ?_⟩, hgrows, hlength, rfl, hposition, ⟨_, rfl⟩, templatePosition,
      templateBody, template, _, hnew, hbody, hid, horigins, hat, rfl, rfl, rfl⟩
    · rw [List.length_append, List.length_singleton, h.edges_length]
      exact hlength.symm
    · rw [List.length_append, List.length_singleton, h.origins_length]
      change _ = dags.slots.length - _
      omega
    · by_cases hold : p < now.dags.slots.length
      · obtain ⟨recorded, hrecorded, hall⟩ := h.followed p hold
        refine ⟨recorded, ?_, Followed.mono hgrows h.aligned haligned hall⟩
        rw [List.getElem?_append_left (List.getElem?_eq_some_iff.mp hrecorded).1, hrecorded]
      · obtain rfl : p = now.dags.slots.length := by
          have : p < dags.slots.length := hp
          omega
        rw [hfresh]
        refine ⟨[], ?_, .nil⟩
        rw [← h.edges_length, List.getElem?_concat_length]
    · by_cases hold : p < now.dags.slots.length
      · obtain ⟨holder', includer', edge', hbody, hmem, hcreated⟩ := h.created p hold hp'
        exact ⟨holder', includer', edge', hgrows.bodyAt_some h.aligned hbody, hmem,
          hcreated.mono h.aligned hgrows ⟨_, rfl⟩⟩
      · obtain rfl : p = now.dags.slots.length := by
          have : p < dags.slots.length := hp
          omega
        exact ⟨holder, includer, edge, hgrows.bodyAt_some h.aligned hholder, hedge,
          templatePosition, templateBody, template, _, hnew, hbody, hid, horigins, hat, rfl, rfl,
          rfl⟩

/-! ## One round -/

variable {holders : List ℕ} {s : Progress N A K B Y} {start : ℕ}

section Round

variable {specialize : UncheckedTir N A K B Y → SemanticDagTIR N A K B → HirInstanceRecord N A K →
  InstanceFrame N A → Except E (B × Y)} {tir : UncheckedTir N A K B Y}

/-- The program fails on its own account: a template is missing or a body cannot be specialized. -/
def Refused : InstantiationError N A E → Prop
  | .unavailableTemplate _ _ => True
  | .specialization _ => True
  | .duplicateDag _ => False
  | .outOfRange => False

theorem Tracked.instantiate_error (h : Tracked tir now graph f)
    (hholder : now.dags.bodyAt holder = some includer)
    (hnone : now.dags.positions edge.id.owner = none) {e : InstantiationError N A E}
    (herror : instantiateSemanticEdge specialize now graph holder edge = .error e) :
    Refused e := by
  unfold instantiateSemanticEdge at herror
  split at herror
  case h_1 =>
    cases herror
    trivial
  case h_2 templatePosition templateBody htemplate =>
    obtain ⟨-, template, -, hbody, -⟩ := h.template htemplate
    rw [dagAt, dagAt, hbody, hholder] at herror
    rcases bind_eq_error.mp herror with herror | ⟨template', htemplate', herror⟩
    · cases herror
    · cases htemplate'
      rcases bind_eq_error.mp herror with herror | ⟨includer', hincluder', herror⟩
      · cases herror
      · cases hincluder'
        rcases bind_eq_error.mp herror with herror | ⟨⟨body, core⟩, -, herror⟩
        · obtain ⟨e₀, -, rfl⟩ := Checked.mapError_eq_error herror
          trivial
        · rcases bind_eq_error.mp herror with herror | ⟨_, -, herror⟩
          · obtain ⟨e₀, hpush, -⟩ := Checked.mapError_eq_error herror
            rcases bind_eq_error.mp hpush with hpush | ⟨_, -, hpush⟩
            · have hsome := pushLocal_eq_error hpush
              change (now.dags.positions edge.id.owner).isSome = true at hsome
              rw [hnone] at hsome
              cases hsome
            · cases hpush
          · cases herror

/-- What one followed edge leaves: the edge is recorded, and a materialized instance is the next
position. -/
structure Follows (tir : UncheckedTir N A K B Y) (start : ℕ) (s : Progress N A K B Y)
    (f : ℕ → List (HirInstanceRecord N A K)) : Prop where
  tracked : Tracked tir s.tir s.graph f
  le : start ≤ s.tir.dags.slots.length
  materialized : s.materialized = List.range' start (s.tir.dags.slots.length - start)
  fresh : ∀ p, start ≤ p → f p = []
  new : ∀ q < s.tir.dags.slots.length, start ≤ q → ∃ holder < start, ∃ includer edge,
    s.tir.dags.bodyAt holder = some includer ∧ edge ∈ includer.semanticInstances ∧
      CreatedBy tir s.tir s.graph includer edge q

variable (specialize) in
theorem Follows.follow (h : Follows tir start s f) (hlt : holder < start)
    (hholder : s.tir.dags.bodyAt holder = some includer)
    (hedge : edge ∈ includer.semanticInstances) :
    (∀ next, followEdge specialize s (holder, edge) = .ok next →
        Follows tir start next (update f holder (f holder ++ [edge])) ∧
          s.tir.dags.Grows next.tir.dags) ∧
      ∀ e, followEdge specialize s (holder, edge) = .error e → Refused e := by
  have hfresh : ∀ p, start ≤ p → update f holder (f holder ++ [edge]) p = [] :=
    fun p hp => by rw [update_of_ne (by omega), h.fresh p hp]
  have hholderLt := Aligned.bodyAt_lt hholder
  cases hposition : s.tir.dags.position edge.id.owner with
  | some position =>
    obtain ⟨graph', hrecord, horigins, htracked⟩ :=
      h.tracked.recordEdge (E := E) hposition hholderLt
    have hresult : followEdge specialize s (holder, edge) =
        .ok { s with graph := graph' } := by
      simp only [followEdge, hposition, hrecord]
      rfl
    rw [hresult]
    refine ⟨fun next hnext => ?_, fun e he => by cases he⟩
    cases hnext
    refine ⟨⟨htracked, h.le, h.materialized, hfresh, fun q hq hq' => ?_⟩, .refl _⟩
    obtain ⟨holder', hlt', includer', edge', hbody, hmem, hcreated⟩ := h.new q hq hq'
    exact ⟨holder', hlt', includer', edge', hbody, hmem, hcreated.mono h.tracked.aligned
      (.refl _) ⟨[], by rw [List.append_nil]; exact horigins⟩⟩
  | none =>
    cases hinstantiate : instantiateSemanticEdge specialize s.tir s.graph holder edge with
    | error e₀ =>
      have hresult : followEdge specialize s (holder, edge) = .error e₀ := by
        simp only [followEdge, hposition, hinstantiate]
        rfl
      rw [hresult]
      refine ⟨fun next hnext => (by cases hnext), fun e he => ?_⟩
      cases he
      exact h.tracked.instantiate_error hholder hposition hinstantiate
    | ok result =>
      obtain ⟨next₁, graph₁, position⟩ := result
      obtain ⟨htracked₁, hgrows, hlength, rfl, hposition₁, ⟨added, hadded⟩, hnew⟩ :=
        h.tracked.instantiate hholder hedge (h.fresh _ h.le) hinstantiate
      obtain ⟨graph', hrecord, horigins, htracked⟩ := htracked₁.recordEdge (E := E) hposition₁
        (Aligned.bodyAt_lt (hgrows.bodyAt_some h.tracked.aligned hholder))
      have hresult : followEdge specialize s (holder, edge) =
          .ok ⟨next₁, graph', s.materialized ++ [s.tir.dags.slots.length]⟩ := by
        simp only [followEdge, hposition, hinstantiate]
        change (graph₁.recordEdge holder s.tir.dags.slots.length >>= _) = _
        rw [hrecord]
        rfl
      rw [hresult]
      refine ⟨fun next hnext => ?_, fun e he => by cases he⟩
      cases hnext
      have hle := h.le
      refine ⟨⟨htracked, by rw [hlength]; exact hle.trans (Nat.le_succ _), ?_, hfresh,
        fun q hq hq' => ?_⟩, hgrows⟩
      · rw [h.materialized, hlength, Nat.succ_sub hle, List.range'_concat, Nat.one_mul,
          Nat.add_sub_cancel' hle]
      · by_cases hold : q < s.tir.dags.slots.length
        · obtain ⟨holder', hlt', includer', edge', hbody, hmem, hcreated⟩ := h.new q hold hq'
          exact ⟨holder', hlt', includer', edge', hgrows.bodyAt_some h.tracked.aligned hbody, hmem,
            hcreated.mono h.tracked.aligned hgrows ⟨added, horigins.trans hadded⟩⟩
        · obtain rfl : q = s.tir.dags.slots.length := by
            have hq : q < next₁.dags.slots.length := hq
            omega
          exact ⟨holder, hlt, includer, edge, hgrows.bodyAt_some h.tracked.aligned hholder, hedge,
            hnew.mono htracked₁.aligned (.refl _) ⟨[], by rw [List.append_nil]; exact horigins⟩⟩

/-- The edges of `edges` that the DAG at `p` holds. -/
def heldBy (edges : List (ℕ × HirInstanceRecord N A K)) (p : ℕ) : List (HirInstanceRecord N A K) :=
  (edges.filter fun e => e.1 = p).map Prod.snd

omit [LinearOrder (DagId N A)] [DecidableEq N] in
theorem update_heldBy (f : ℕ → List (HirInstanceRecord N A K)) (holder : ℕ)
    (edge : HirInstanceRecord N A K) (rest : List (ℕ × HirInstanceRecord N A K)) :
    (fun p => update f holder (f holder ++ [edge]) p ++ heldBy rest p) =
      fun p => f p ++ heldBy ((holder, edge) :: rest) p := by
  funext p
  by_cases hp : p = holder
  · subst hp
    simp [heldBy]
  · rw [update_of_ne hp]
    simp [heldBy, Ne.symm hp]

variable (specialize) in
/-- Following the edges of a round, in order. -/
theorem Follows.followAll {edges : List (ℕ × HirInstanceRecord N A K)} (h : Follows tir start s f)
    (hedges : ∀ e ∈ edges, e.1 < start ∧ ∃ includer, s.tir.dags.bodyAt e.1 = some includer ∧
      e.2 ∈ includer.semanticInstances) :
    (∀ next, edges.foldlM (followEdge specialize) s = .ok next →
        Follows tir start next (fun p => f p ++ heldBy edges p) ∧
          s.tir.dags.Grows next.tir.dags) ∧
      ∀ e, edges.foldlM (followEdge specialize) s = .error e → Refused e := by
  induction edges generalizing s f with
  | nil =>
    refine ⟨fun next hnext => ?_, fun e he => (by cases he)⟩
    cases hnext
    have hf : (fun p => f p ++ heldBy ([] : List (ℕ × HirInstanceRecord N A K)) p) = f := by
      funext p
      simp [heldBy]
    rw [hf]
    exact ⟨h, .refl _⟩
  | cons e rest ih =>
    obtain ⟨holder, edge⟩ := e
    obtain ⟨hlt, includer, hholder, hedge⟩ := hedges _ List.mem_cons_self
    obtain ⟨hok, herror⟩ := h.follow specialize hlt hholder hedge
    rw [List.foldlM_cons]
    have hrest : ∀ next, followEdge specialize s (holder, edge) = .ok next →
        ∀ e ∈ rest, e.1 < start ∧ ∃ includer, next.tir.dags.bodyAt e.1 = some includer ∧
          e.2 ∈ includer.semanticInstances := fun next hnext e he => by
      obtain ⟨helt, includer', hbody, hmem⟩ := hedges e (List.mem_cons_of_mem _ he)
      exact ⟨helt, includer', (hok next hnext).2.bodyAt_some h.tracked.aligned hbody, hmem⟩
    constructor
    · intro next hnext
      obtain ⟨middle, hmiddle, hnext⟩ := bind_eq_ok.mp hnext
      obtain ⟨hfollows, hgrows⟩ := hok middle hmiddle
      obtain ⟨hfollows', hgrows'⟩ := (ih hfollows (hrest middle hmiddle)).1 next hnext
      rw [update_heldBy] at hfollows'
      exact ⟨hfollows', hgrows.trans hgrows'⟩
    · intro e he
      rcases bind_eq_error.mp he with he | ⟨middle, hmiddle, he⟩
      · exact herror e he
      · exact (ih (hok middle hmiddle).1 (hrest middle hmiddle)).2 e he

/-- The edges of the DAG at a position. -/
def edgesAt (dags : DagSlots (SemanticDagTIR N A K B) (SemanticDagTIR N A K B) (DagId N A)) (p : ℕ) :
    List (HirInstanceRecord N A K) :=
  (dags.bodyAt p).elim [] SemanticDagTIR.semanticInstances

omit [DecidableEq N] in
theorem heldEdges_eq (h : ∀ p ∈ holders, ∃ dag, dags.bodyAt p = some dag) :
    (heldEdges dags holders : Except (InstantiationError N A E) _) =
      .ok (holders.flatMap fun p => (edgesAt dags p).map (p, ·)) := by
  have hmap : holders.mapM (fun holder => do
      let dag ← (dagAt dags holder : Except (InstantiationError N A E) _)
      return dag.semanticInstances.map (holder, ·)) =
        .ok (holders.map fun p => (edgesAt dags p).map (p, ·)) := by
    rw [Checked.mapM_eq_ok]
    refine List.forall₂_map_right_iff.mpr (List.forall₂_same.mpr fun p hp => ?_)
    obtain ⟨dag, hdag⟩ := h p hp
    simp only [dagAt, edgesAt, hdag]
    rfl
  unfold heldEdges
  rw [hmap]
  exact congrArg Except.ok List.flatMap_def.symm

omit [DecidableEq N] in
/-- Of the edges a round follows, a holder's are all of its own, in order. -/
theorem heldBy_flatMap (hnodup : holders.Nodup) (p : ℕ) :
    heldBy (holders.flatMap fun p => (edgesAt dags p).map (p, ·)) p =
      if p ∈ holders then edgesAt dags p else [] := by
  induction holders with
  | nil => rfl
  | cons holder rest ih =>
    obtain ⟨hholder, hrest⟩ := List.nodup_cons.mp hnodup
    have hcons : heldBy ((holder :: rest).flatMap fun p => (edgesAt dags p).map (p, ·)) p =
        heldBy ((edgesAt dags holder).map (holder, ·)) p ++
          heldBy (rest.flatMap fun p => (edgesAt dags p).map (p, ·)) p := by
      simp [heldBy]
    rw [hcons, ih hrest]
    by_cases hp : holder = p
    · subst hp
      rw [if_neg hholder, if_pos List.mem_cons_self]
      simp [heldBy, List.filter_map, comp_def]
    · have hown : heldBy ((edgesAt dags holder).map (holder, ·)) p = [] := by
        simp [heldBy, List.filter_map, comp_def, hp]
      rw [hown, List.nil_append]
      simp [Ne.symm hp]

/-- Between rounds: every DAG but the holders has all its edges followed. -/
structure BetweenRounds (tir : UncheckedTir N A K B Y) (s : Rounds N A K B Y) : Prop where
  tracked : Tracked tir s.tir s.graph fun p =>
    if p ∈ s.holders ∨ s.tir.dags.slots.length ≤ p then [] else edgesAt s.tir.dags p
  holders_nodup : s.holders.Nodup
  holders_lt : ∀ p ∈ s.holders, p < s.tir.dags.slots.length

/-- Every edge of a DAG that is no holder is recorded. -/
theorem BetweenRounds.followed {s : Rounds N A K B Y} (h : BetweenRounds tir s) {p : ℕ}
    (hp : p < s.tir.dags.slots.length) (hnot : p ∉ s.holders) :
    ∃ recorded, s.graph.edges[p]? = some recorded ∧
      List.Forall₂ (fun edge q => s.tir.dags.positions edge.id.owner = some q)
        (edgesAt s.tir.dags p) recorded := by
  obtain ⟨recorded, hrecorded, hall⟩ := h.tracked.followed p hp
  have hopen : ¬ (p ∈ s.holders ∨ s.tir.dags.slots.length ≤ p) := by
    rintro (hholder | hle)
    · exact hnot hholder
    · exact absurd hp (Nat.not_lt.mpr hle)
  simp only [if_neg hopen] at hall
  exact ⟨recorded, hrecorded, hall⟩

theorem betweenRounds_start (h : tir.dags.Aligned)
    (hpositions : tir.dags.iterPositions = some holders) :
    BetweenRounds tir ⟨tir, .new tir.dags, holders⟩ := by
  obtain ⟨positions, hsome, hnodup, hmem⟩ := h.mem_iterPositions
  rw [hpositions] at hsome
  cases hsome
  refine ⟨?_, hnodup, fun p hp => (hmem p).mp hp⟩
  have hnone : (fun p => if p ∈ holders ∨ tir.dags.slots.length ≤ p then []
      else edgesAt tir.dags p) = fun _ => [] := by
    funext p
    rcases Nat.lt_or_ge p tir.dags.slots.length with hp | hp
    · rw [if_pos (.inl ((hmem p).mpr hp))]
    · rw [if_pos (.inr hp)]
  change Tracked tir tir (.new tir.dags) _
  rw [hnone]
  exact tracked_new h

variable (specialize) in
/-- One round follows every edge of its holders; the next holders are the instances it
materialized. -/
theorem BetweenRounds.round {s : Rounds N A K B Y} (h : BetweenRounds tir s) :
    (∀ next, followRound specialize s = .ok next → BetweenRounds tir next ∧
        s.tir.dags.Grows next.tir.dags ∧
        ∀ p ∈ next.holders, ∃ holder ∈ s.holders, ∃ includer edge,
          s.tir.dags.bodyAt holder = some includer ∧ edge ∈ includer.semanticInstances ∧
            CreatedBy tir next.tir next.graph includer edge p) ∧
      ∀ e, followRound specialize s = .error e → Refused e := by
  have haligned := h.tracked.aligned
  have hholders : ∀ p ∈ s.holders, ∃ dag, s.tir.dags.bodyAt p = some dag := fun p hp =>
    haligned.bodyAt_isSome (h.holders_lt p hp)
  have hedges : ∀ e ∈ s.holders.flatMap fun p => (edgesAt s.tir.dags p).map (p, ·),
      e.1 < s.tir.dags.slots.length ∧ ∃ includer, s.tir.dags.bodyAt e.1 = some includer ∧
        e.2 ∈ includer.semanticInstances := by
    intro e he
    obtain ⟨p, hp, he⟩ := List.mem_flatMap.mp he
    obtain ⟨edge, hedge, rfl⟩ := List.mem_map.mp he
    obtain ⟨dag, hdag⟩ := hholders p hp
    rw [edgesAt, hdag] at hedge
    exact ⟨h.holders_lt p hp, dag, hdag, hedge⟩
  have hfollows : Follows tir s.tir.dags.slots.length ⟨s.tir, s.graph, []⟩ fun p =>
      if p ∈ s.holders ∨ s.tir.dags.slots.length ≤ p then [] else edgesAt s.tir.dags p :=
    ⟨h.tracked, le_rfl, by rw [Nat.sub_self]; rfl, fun p hp => if_pos (.inr hp),
      fun q hq hq' => absurd hq (Nat.not_lt.mpr hq')⟩
  obtain ⟨hok, herror⟩ := hfollows.followAll specialize hedges
  unfold followRound
  rw [heldEdges_eq hholders]
  constructor
  · intro next hnext
    obtain ⟨edges, hall, hnext⟩ := bind_eq_ok.mp hnext
    cases hall
    obtain ⟨done, hdone, hnext⟩ := bind_eq_ok.mp hnext
    cases hnext
    obtain ⟨hfollows', hgrows⟩ := hok done hdone
    have hmem : ∀ p, p ∈ done.materialized.insertionSort (IdentityOrder done.tir.dags) ↔
        s.tir.dags.slots.length ≤ p ∧ p < done.tir.dags.slots.length := fun p => by
      rw [List.mem_insertionSort, hfollows'.materialized, List.mem_range'_1,
        Nat.add_sub_cancel' hfollows'.le]
    refine ⟨⟨?_, ?_, fun p hp => ((hmem p).mp hp).2⟩, hgrows, fun p hp => ?_⟩
    · have heq : (fun p => (if p ∈ s.holders ∨ s.tir.dags.slots.length ≤ p then []
          else edgesAt s.tir.dags p) ++
            heldBy (s.holders.flatMap fun p => (edgesAt s.tir.dags p).map (p, ·)) p) =
          fun p => if p ∈ done.materialized.insertionSort (IdentityOrder done.tir.dags) ∨
            done.tir.dags.slots.length ≤ p then [] else edgesAt done.tir.dags p := by
        funext p
        rw [heldBy_flatMap h.holders_nodup]
        simp only [hmem]
        rcases Nat.lt_or_ge p s.tir.dags.slots.length with hp | hp
        · have hlt := hp.trans_le hgrows.len_le
          have hbody : edgesAt done.tir.dags p = edgesAt s.tir.dags p := by
            rw [edgesAt, hgrows.bodyAt haligned hp, edgesAt]
          rw [hbody, if_neg (show ¬ (s.tir.dags.slots.length ≤ p ∧ _ ∨ _) by omega)]
          by_cases hholder : p ∈ s.holders
          · rw [if_pos (.inl hholder), if_pos hholder, List.nil_append]
          · rw [if_neg (by simp [hholder, hp]), if_neg hholder, List.append_nil]
        · rw [if_pos (.inr hp), if_neg fun hholder => absurd (h.holders_lt p hholder) (by omega),
            List.nil_append, if_pos (by omega)]
      rw [heq] at hfollows'
      exact hfollows'.tracked
    · rw [(List.perm_insertionSort _ _).nodup_iff, hfollows'.materialized]
      exact List.nodup_range'
    · obtain ⟨hle, hlt⟩ := (hmem p).mp hp
      obtain ⟨holder, hholder, includer, edge, hbody, hedge, hcreated⟩ := hfollows'.new p hlt hle
      have hbody' : s.tir.dags.bodyAt holder = some includer := by
        rw [← hgrows.bodyAt haligned hholder, hbody]
      refine ⟨holder, ?_, includer, edge, hbody', hedge, hcreated⟩
      -- The edges of a DAG that is no holder led to earlier positions.
      by_contra hnot
      obtain ⟨recorded, -, hall⟩ := h.followed hholder hnot
      rw [edgesAt, hbody'] at hall
      obtain ⟨q, -, hq⟩ := exists_of_forall₂_left hall hedge
      obtain ⟨-, -, -, dag, -, -, -, -, hdag, hid, -⟩ := hcreated
      have hp' := (hfollows'.tracked.aligned.positions_eq edge.id.owner p).mpr ⟨dag, hdag, hid⟩
      rw [hgrows.positions haligned hfollows'.tracked.aligned hq] at hp'
      cases hp'
      obtain ⟨dag', hdag', -⟩ := (haligned.positions_eq edge.id.owner p).mp hq
      exact absurd (Aligned.bodyAt_lt hdag') (Nat.not_lt.mpr hle)
  · intro e he
    rcases bind_eq_error.mp he with he | ⟨edges, hall, he⟩
    · cases he
    · cases hall
      rcases bind_eq_error.mp he with he | ⟨done, -, he⟩
      · exact herror e he
      · cases he

end Round

end ProvenGraphcal
