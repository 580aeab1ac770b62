import ProvenGraphcal.Algebra.NatPolyForm

/-!
# Scheduling the analyses of a document

The cancellation sources of one document's analyses are kept under their generation. The analyses
themselves, which the server runs, are recorded beside the state: a source is named by its place
among all sources handed out.
-/

namespace ProvenGraphcal.Lsp

/-- The flags of all sources handed out. -/
structure Sources where
  cancelled : List Bool

namespace Sources

def newActive (sources : Sources) : ℕ × Sources :=
  (sources.cancelled.length, ⟨sources.cancelled ++ [false]⟩)

def cancel (sources : Sources) (source : ℕ) : Sources := ⟨sources.cancelled.set source true⟩

def isCancelled (sources : Sources) (source : ℕ) : Bool := sources.cancelled[source]?.getD false

@[simp] theorem length_cancel (sources : Sources) (source : ℕ) :
    (sources.cancel source).cancelled.length = sources.cancelled.length := List.length_set

theorem isCancelled_newActive (sources : Sources) (source : ℕ) :
    sources.newActive.2.isCancelled source = sources.isCancelled source := by
  unfold newActive isCancelled
  rw [List.getElem?_append]
  split_ifs with hlt
  · rfl
  · rw [List.getElem?_eq_none (Nat.le_of_not_lt hlt), List.getElem?_singleton]
    split_ifs <;> rfl

theorem isCancelled_cancel (sources : Sources) (source other : ℕ) :
    (sources.cancel source).isCancelled other =
      (sources.isCancelled other || (source == other && other < sources.cancelled.length)) := by
  unfold cancel isCancelled
  rw [List.getElem?_set]
  by_cases h : source = other
  · subst h
    by_cases hlt : source < sources.cancelled.length
    · simp [hlt]
    · simp [hlt]
  · simp [h]

end Sources

structure AnalysisScheduleState where
  cancellations : SortedMap U64 ℕ
  isOpen : Bool

namespace AnalysisScheduleState

def new (isOpen : Bool) : AnalysisScheduleState := ⟨.empty, isOpen⟩

def reopen (state : AnalysisScheduleState) : AnalysisScheduleState := { state with isOpen := true }

/-- Register a generation; a source that it replaces is cancelled. -/
def register (state : AnalysisScheduleState) (sources : Sources) (generation : U64) :
    AnalysisScheduleState × Sources :=
  let (source, created) := sources.newActive
  let registered := { state with cancellations := state.cancellations.insert generation source }
  match state.cancellations.get? generation with
  | some replaced => (registered, created.cancel replaced)
  | none => (registered, created)

def cancelAll (state : AnalysisScheduleState) (sources : Sources) : Sources :=
  state.cancellations.entries.foldl (fun sources entry => sources.cancel entry.2) sources

/-- Close the document; also whether its state can be removed. -/
def close (state : AnalysisScheduleState) (sources : Sources) :
    Bool × AnalysisScheduleState × Sources :=
  let closed := { state with isOpen := false }
  (closed.cancellations.isEmpty, closed, closed.cancelAll sources)

/-- Finish a generation; also whether the state can be removed. -/
def finish (state : AnalysisScheduleState) (generation : U64) : Bool × AnalysisScheduleState :=
  let finished := { state with cancellations := state.cancellations.set generation none }
  (!finished.isOpen && finished.cancellations.isEmpty, finished)

end AnalysisScheduleState

/-- An analysis that was registered. It is revoked once the document is closed or all analyses are
cancelled after its registration. -/
structure Analysis where
  generation : U64
  finished : Bool
  revoked : Bool

/-- What is called on a document. An analysis that finishes calls `finish` with its generation; a
call on behalf of no analysis has none. -/
inductive Event
  | reopen
  | register (generation : U64)
  | cancelAll
  | close
  | finish (generation : U64) (analysis : Option ℕ)

structure Document where
  state : AnalysisScheduleState
  sources : Sources
  analyses : List Analysis

namespace Document

def new (isOpen : Bool) : Document := ⟨.new isOpen, ⟨[]⟩, []⟩

def revokeAll (analyses : List Analysis) : List Analysis :=
  analyses.map fun analysis => { analysis with revoked := true }

def markFinished (analyses : List Analysis) : Option ℕ → List Analysis
  | none => analyses
  | some i => analyses.modify i fun analysis => { analysis with finished := true }

/-- One call; also whether it reports the state as removable. -/
def apply (d : Document) : Event → Bool × Document
  | .reopen => (false, { d with state := d.state.reopen })
  | .register generation =>
    let (state, sources) := d.state.register d.sources generation
    (false, ⟨state, sources, d.analyses ++ [⟨generation, false, false⟩]⟩)
  | .cancelAll => (false, ⟨d.state, d.state.cancelAll d.sources, revokeAll d.analyses⟩)
  | .close =>
    let (removable, state, sources) := d.state.close d.sources
    (removable, ⟨state, sources, revokeAll d.analyses⟩)
  | .finish generation analysis =>
    let (removable, state) := d.state.finish generation
    (removable, ⟨state, d.sources, markFinished d.analyses analysis⟩)

def run (d : Document) (events : List Event) : Document :=
  events.foldl (fun d event => (d.apply event).2) d

/-- An analysis finishes the generation it was registered with. -/
def Legal (d : Document) : Event → Prop
  | .finish generation (some i) => ∃ a, d.analyses[i]? = some a ∧ a.generation = generation
  | _ => True

/-- No other analysis of the generation that is finished is still running. -/
def Sole (d : Document) : Event → Prop
  | .finish generation analysis => ∀ i a, d.analyses[i]? = some a → a.generation = generation →
      a.finished = false → analysis = some i
  | _ => True

/-- Every call of a run satisfies `P` in the state it is made in. -/
def Throughout (P : Document → Event → Prop) (d : Document) : List Event → Prop
  | [] => True
  | event :: rest => P d event ∧ Throughout P (d.apply event).2 rest

def AllFinished (d : Document) : Prop := ∀ a ∈ d.analyses, a.finished = true

end Document

namespace AnalysisScheduleState

variable {state : AnalysisScheduleState} {sources : Sources}

theorem length_cancelEntries (entries : List (U64 × ℕ)) :
    (entries.foldl (fun sources entry => Sources.cancel sources entry.2) sources).cancelled.length =
      sources.cancelled.length := by
  induction entries generalizing sources with
  | nil => rfl
  | cons entry rest ih => rw [List.foldl_cons, ih, Sources.length_cancel]

theorem isCancelled_cancelEntries (entries : List (U64 × ℕ)) (other : ℕ) :
    (entries.foldl (fun sources entry => Sources.cancel sources entry.2) sources).isCancelled
        other = true ↔
      sources.isCancelled other = true ∨
        (∃ entry ∈ entries, entry.2 = other) ∧ other < sources.cancelled.length := by
  induction entries generalizing sources with
  | nil => simp
  | cons entry rest ih =>
    rw [List.foldl_cons, ih, Sources.isCancelled_cancel, Sources.length_cancel, Bool.or_eq_true,
      Bool.and_eq_true, beq_iff_eq, decide_eq_true_iff]
    simp only [List.exists_mem_cons_iff]
    tauto

theorem length_cancelAll :
    (state.cancelAll sources).cancelled.length = sources.cancelled.length :=
  length_cancelEntries _

/-- Exactly the sources that are still held are cancelled. -/
theorem isCancelled_cancelAll (other : ℕ) :
    (state.cancelAll sources).isCancelled other = true ↔
      sources.isCancelled other = true ∨
        (∃ generation, state.cancellations.get? generation = some other) ∧
          other < sources.cancelled.length := by
  have hheld : (∃ entry ∈ state.cancellations.entries, entry.2 = other) ↔
      ∃ generation, state.cancellations.get? generation = some other := by
    simp only [SortedMap.get?_eq_some, Prod.exists, exists_eq_right]
  rw [cancelAll, isCancelled_cancelEntries, hheld]

theorem length_register (generation : U64) :
    (state.register sources generation).2.cancelled.length = sources.cancelled.length + 1 := by
  unfold register
  dsimp only
  split
  · rw [Sources.length_cancel]
    exact List.length_append
  · exact List.length_append

theorem get?_register (generation other : U64) :
    (state.register sources generation).1.cancellations.get? other =
      if other = generation then some sources.cancelled.length
      else state.cancellations.get? other := by
  unfold register
  dsimp only
  split
  · exact SortedMap.get?_insert _ _ _ _
  · exact SortedMap.get?_insert _ _ _ _

/-- Registering cancels the source that was held under the generation, and no other. -/
theorem isCancelled_register (generation : U64) (other : ℕ) :
    (state.register sources generation).2.isCancelled other = true ↔
      sources.isCancelled other = true ∨ state.cancellations.get? generation = some other ∧
        other ≤ sources.cancelled.length := by
  unfold register
  dsimp only
  split
  case h_1 replaced hreplaced =>
    rw [Sources.isCancelled_cancel, Sources.isCancelled_newActive, hreplaced, Bool.or_eq_true,
      Bool.and_eq_true, beq_iff_eq, decide_eq_true_iff, Option.some.injEq]
    have hlength : sources.newActive.2.cancelled.length = sources.cancelled.length + 1 :=
      List.length_append
    rw [hlength, Nat.lt_succ_iff]
  case h_2 hnone =>
    rw [Sources.isCancelled_newActive, hnone]
    exact (or_iff_left nofun).symm

end AnalysisScheduleState

variable {a : Analysis} {d : Document} {analyses : List Analysis} {i : ℕ}

namespace Document

/-- Every source that is held belongs to an analysis of its generation that has not finished. -/
structure Held (d : Document) : Prop where
  length_eq : d.sources.cancelled.length = d.analyses.length
  held : ∀ generation i, d.state.cancellations.get? generation = some i →
    ∃ a, d.analyses[i]? = some a ∧ a.generation = generation ∧ a.finished = false

/-- No running analysis is forgotten: its generation is held, and its source is cancelled or held
itself. -/
structure Kept (d : Document) : Prop extends Held d where
  covered : ∀ (i : ℕ) a, d.analyses[i]? = some a → a.finished = false →
    ∃ j, d.state.cancellations.get? a.generation = some j
  handle : ∀ (i : ℕ) a, d.analyses[i]? = some a → a.finished = false →
    d.sources.isCancelled i = true ∨ d.state.cancellations.get? a.generation = some i
  revoked : ∀ (i : ℕ) a, d.analyses[i]? = some a → a.finished = false → a.revoked = true →
    d.sources.isCancelled i = true

theorem kept_new (isOpen : Bool) : (new isOpen).Kept where
  length_eq := rfl
  held _ _ h := nomatch h
  covered _ _ h := nomatch h
  handle _ _ h := nomatch h
  revoked _ _ h := nomatch h

theorem getElem?_registered {generation : U64}
    (h : (d.apply (.register generation)).2.analyses[i]? = some a) :
    d.analyses[i]? = some a ∨ i = d.analyses.length ∧ a = ⟨generation, false, false⟩ := by
  have h' : (d.analyses ++ [⟨generation, false, false⟩])[i]? = some a := h
  rw [List.getElem?_append] at h'
  split_ifs at h' with hlt
  · exact .inl h'
  · rw [List.getElem?_singleton] at h'
    split_ifs at h' with hzero
    cases h'
    exact .inr ⟨by omega, rfl⟩

theorem Held.register {d : Document} (h : d.Held) (generation : U64) :
    (d.apply (.register generation)).2.Held where
  length_eq := by
    show (d.state.register d.sources generation).2.cancelled.length = (d.analyses ++ [_]).length
    rw [AnalysisScheduleState.length_register, h.length_eq, List.length_append]
    rfl
  held other i hget := by
    have hget' : (d.state.register d.sources generation).1.cancellations.get? other = some i := hget
    rw [AnalysisScheduleState.get?_register] at hget'
    show ∃ a, (d.analyses ++ [⟨generation, false, false⟩])[i]? = some a ∧ _
    split_ifs at hget' with heq
    · cases hget'
      rw [h.length_eq, List.getElem?_concat_length]
      exact ⟨_, rfl, heq.symm, rfl⟩
    · obtain ⟨a, ha, hgeneration, hfinished⟩ := h.held other i hget'
      have hlt := (List.getElem?_eq_some_iff.mp ha).1
      exact ⟨a, (List.getElem?_append_left hlt).trans ha, hgeneration, hfinished⟩

theorem Kept.register {d : Document} (h : d.Kept) (generation : U64) :
    (d.apply (.register generation)).2.Kept where
  toHeld := h.toHeld.register generation
  covered i a ha hfinished := by
    show ∃ j, (d.state.register d.sources generation).1.cancellations.get? a.generation = some j
    rw [AnalysisScheduleState.get?_register]
    split_ifs with heq
    · exact ⟨_, rfl⟩
    · rcases getElem?_registered ha with ha | ⟨-, rfl⟩
      · exact h.covered i a ha hfinished
      · exact absurd rfl heq
  handle i a ha hfinished := by
    show (d.state.register d.sources generation).2.isCancelled i = true ∨
      (d.state.register d.sources generation).1.cancellations.get? a.generation = some i
    rw [AnalysisScheduleState.isCancelled_register, AnalysisScheduleState.get?_register]
    rcases getElem?_registered ha with ha | ⟨rfl, rfl⟩
    · have hlt := (List.getElem?_eq_some_iff.mp ha).1
      rcases h.handle i a ha hfinished with hcancelled | hheld
      · exact .inl (.inl hcancelled)
      · -- a source that is replaced is cancelled on the way
        split_ifs with heq
        · exact .inl (.inr ⟨heq ▸ hheld, h.length_eq ▸ hlt.le⟩)
        · exact .inr hheld
    · rw [if_pos rfl, h.length_eq]
      exact .inr rfl
  revoked i a ha hfinished hrevoked := by
    show (d.state.register d.sources generation).2.isCancelled i = true
    rw [AnalysisScheduleState.isCancelled_register]
    rcases getElem?_registered ha with ha | ⟨-, rfl⟩
    · exact .inl (h.revoked i a ha hfinished hrevoked)
    · cases hrevoked

theorem getElem?_revokeAll (h : (revokeAll analyses)[i]? = some a) :
    ∃ b, analyses[i]? = some b ∧ a = { b with revoked := true } := by
  rw [revokeAll, List.getElem?_map, Option.map_eq_some_iff] at h
  obtain ⟨b, hb, rfl⟩ := h
  exact ⟨b, hb, rfl⟩

theorem Held.cancelAll {d : Document} (h : d.Held) (isOpen : Bool) :
    Held ⟨⟨d.state.cancellations, isOpen⟩, d.state.cancelAll d.sources, revokeAll d.analyses⟩ where
  length_eq := by
    show (d.state.cancelAll d.sources).cancelled.length = (revokeAll d.analyses).length
    rw [AnalysisScheduleState.length_cancelAll, h.length_eq, revokeAll, List.length_map]
  held generation i hget := by
    obtain ⟨a, ha, hgeneration, hfinished⟩ := h.held generation i hget
    refine ⟨{ a with revoked := true }, ?_, hgeneration, hfinished⟩
    show (revokeAll d.analyses)[i]? = _
    rw [revokeAll, List.getElem?_map, ha]
    rfl

/-- Where every running analysis is cancelled or held, all of them are cancelled now. -/
theorem Kept.isCancelled_cancelAll {d : Document} (h : d.Kept) {i : ℕ} {a : Analysis}
    (ha : d.analyses[i]? = some a) (hfinished : a.finished = false) :
    (d.state.cancelAll d.sources).isCancelled i = true := by
  rw [AnalysisScheduleState.isCancelled_cancelAll, h.length_eq]
  rcases h.handle i a ha hfinished with hcancelled | hheld
  · exact .inl hcancelled
  · exact .inr ⟨⟨a.generation, hheld⟩, (List.getElem?_eq_some_iff.mp ha).1⟩

theorem Kept.cancelAll {d : Document} (h : d.Kept) (isOpen : Bool) :
    Kept ⟨⟨d.state.cancellations, isOpen⟩, d.state.cancelAll d.sources, revokeAll d.analyses⟩ where
  toHeld := h.toHeld.cancelAll isOpen
  covered i a ha hfinished := by
    obtain ⟨b, hb, rfl⟩ := getElem?_revokeAll ha
    exact h.covered i b hb hfinished
  handle i a ha hfinished := by
    obtain ⟨b, hb, rfl⟩ := getElem?_revokeAll ha
    exact .inl (h.isCancelled_cancelAll hb hfinished)
  revoked i a ha hfinished _ := by
    obtain ⟨b, hb, rfl⟩ := getElem?_revokeAll ha
    exact h.isCancelled_cancelAll hb hfinished

/-- An analysis that still runs after a call was running before it, and is not the finished one. -/
theorem getElem?_markFinished {analysis : Option ℕ}
    (h : (markFinished analyses analysis)[i]? = some a) (hfinished : a.finished = false) :
    analyses[i]? = some a ∧ analysis ≠ some i := by
  cases analysis with
  | none => exact ⟨h, nofun⟩
  | some j =>
    have h' : (analyses.modify j _)[i]? = some a := h
    rw [List.getElem?_modify] at h'
    obtain ⟨b, hb, rfl⟩ := Option.map_eq_some_iff.mp h'
    by_cases heq : j = i
    · simp only [if_pos heq] at hfinished
      cases hfinished
    · simp only [if_neg heq]
      exact ⟨hb, fun hji => heq (Option.some.inj hji)⟩

theorem Held.finish {d : Document} (h : d.Held) {generation : U64} {analysis : Option ℕ}
    (hlegal : d.Legal (.finish generation analysis)) :
    (d.apply (.finish generation analysis)).2.Held where
  length_eq := by
    show d.sources.cancelled.length = (markFinished d.analyses analysis).length
    rw [h.length_eq]
    cases analysis with
    | none => rfl
    | some i => exact (List.length_modify _ _ _).symm
  held other i hget := by
    have hget' : (d.state.cancellations.set generation none).get? other = some i := hget
    rw [SortedMap.get?_set] at hget'
    split_ifs at hget' with heq
    obtain ⟨a, ha, hgeneration, hfinished⟩ := h.held other i hget'
    refine ⟨a, ?_, hgeneration, hfinished⟩
    show (markFinished d.analyses analysis)[i]? = some a
    cases analysis with
    | none => exact ha
    | some j =>
      -- the finished analysis has another generation than the one that is held
      obtain ⟨b, hb, hbgeneration⟩ := hlegal
      have hji : j ≠ i := by
        rintro rfl
        rw [ha] at hb
        cases hb
        exact heq (hgeneration.symm.trans hbgeneration)
      rw [markFinished, List.getElem?_modify, ha]
      exact congrArg some (if_neg hji)

theorem Kept.finish {d : Document} (h : d.Kept) {generation : U64} {analysis : Option ℕ}
    (hlegal : d.Legal (.finish generation analysis))
    (hsole : d.Sole (.finish generation analysis)) :
    (d.apply (.finish generation analysis)).2.Kept := by
  -- what still runs has another generation, whose entry stays
  have hkept : ∀ (i : ℕ) a, (markFinished d.analyses analysis)[i]? = some a →
      a.finished = false → d.analyses[i]? = some a ∧
        (d.state.cancellations.set generation none).get? a.generation =
          d.state.cancellations.get? a.generation := by
    intro i a ha hfinished
    obtain ⟨hbefore, hother⟩ := getElem?_markFinished ha hfinished
    refine ⟨hbefore, ?_⟩
    rw [SortedMap.get?_set, if_neg]
    exact fun heq => hother (hsole i a hbefore heq hfinished)
  refine ⟨h.toHeld.finish hlegal, fun i a ha hfinished => ?_, fun i a ha hfinished => ?_,
    fun i a ha hfinished hrevoked => ?_⟩
  · obtain ⟨hbefore, hget⟩ := hkept i a ha hfinished
    show ∃ j, (d.state.cancellations.set generation none).get? a.generation = some j
    rw [hget]
    exact h.covered i a hbefore hfinished
  · obtain ⟨hbefore, hget⟩ := hkept i a ha hfinished
    show _ ∨ (d.state.cancellations.set generation none).get? a.generation = some i
    rw [hget]
    exact h.handle i a hbefore hfinished
  · exact h.revoked i a (hkept i a ha hfinished).1 hfinished hrevoked

/-! ### Runs -/

theorem Held.apply {d : Document} (h : d.Held) {event : Event} (hlegal : d.Legal event) :
    (d.apply event).2.Held := by
  cases event with
  | reopen => exact ⟨h.length_eq, h.held⟩
  | register generation => exact h.register generation
  | cancelAll => exact h.cancelAll d.state.isOpen
  | close => exact h.cancelAll false
  | finish generation analysis => exact h.finish hlegal

theorem Kept.apply {d : Document} (h : d.Kept) {event : Event} (hlegal : d.Legal event)
    (hsole : d.Sole event) : (d.apply event).2.Kept := by
  cases event with
  | reopen => exact ⟨⟨h.length_eq, h.held⟩, h.covered, h.handle, h.revoked⟩
  | register generation => exact h.register generation
  | cancelAll => exact h.cancelAll d.state.isOpen
  | close => exact h.cancelAll false
  | finish generation analysis => exact h.finish hlegal hsole

/-- What every allowed call keeps holds at the end of a run of allowed calls. -/
theorem run_induction {P : Document → Prop} {Allowed : Document → Event → Prop}
    (hstep : ∀ d event, P d → Allowed d event → P (d.apply event).2) (h : P d) {events : List Event}
    (hevents : Throughout Allowed d events) : P (d.run events) := by
  induction events generalizing d with
  | nil => exact h
  | cons event rest ih => exact ih (hstep d event h hevents.1) hevents.2

/-- The calls that report whether the state can be removed. -/
def Reports : Event → Prop
  | .close => True
  | .finish _ _ => True
  | _ => False

theorem Held.isEmpty {d : Document} (h : d.Held) (hfinished : d.AllFinished) :
    d.state.cancellations.isEmpty = true := by
  rw [SortedMap.isEmpty, List.isEmpty_iff]
  apply List.eq_nil_iff_forall_not_mem.mpr
  intro ⟨generation, i⟩ hmem
  obtain ⟨a, ha, -, hrunning⟩ := h.held generation i (SortedMap.get?_eq_some.mpr hmem)
  have hdone := hfinished a (List.mem_of_getElem? ha)
  rw [hrunning] at hdone
  cases hdone

theorem Kept.allFinished (h : d.Kept) (hempty : d.state.cancellations.isEmpty = true) :
    d.AllFinished := by
  intro a ha
  by_contra hrunning
  rw [Bool.not_eq_true] at hrunning
  obtain ⟨i, hi⟩ := List.mem_iff_getElem?.mp ha
  obtain ⟨j, hj⟩ := h.covered i a hi hrunning
  rw [SortedMap.isEmpty, List.isEmpty_iff] at hempty
  have hmem := SortedMap.get?_eq_some.mp hj
  rw [hempty] at hmem
  cases hmem

/-- A call reports the state as removable when it leaves it closed and without entries. -/
theorem apply_reports {event : Event} :
    (d.apply event).1 = true ↔ Reports event ∧ (d.apply event).2.state.isOpen = false ∧
      (d.apply event).2.state.cancellations.isEmpty = true := by
  cases event with
  | reopen => exact iff_of_false nofun fun h => h.1
  | register generation => exact iff_of_false nofun fun h => h.1
  | cancelAll => exact iff_of_false nofun fun h => h.1
  | close =>
    show d.state.cancellations.isEmpty = true ↔ True ∧ false = false ∧ _
    exact ⟨fun h => ⟨trivial, rfl, h⟩, fun h => h.2.2⟩
  | finish generation analysis =>
    show (!d.state.isOpen && (d.state.cancellations.set generation none).isEmpty) = true ↔
      True ∧ d.state.isOpen = false ∧ (d.state.cancellations.set generation none).isEmpty = true
    rw [Bool.and_eq_true, Bool.not_eq_true', true_and]

theorem Throughout.and {P Q : Document → Event → Prop} {events : List Event}
    (hP : Throughout P d events) (hQ : Throughout Q d events) :
    Throughout (fun d event => P d event ∧ Q d event) d events := by
  induction events generalizing d with
  | nil => trivial
  | cons event rest ih => exact ⟨⟨hP.1, hQ.1⟩, ih hP.2 hQ.2⟩

/-- The last call that closes or finishes always reports the state as removable. When no call ever
finishes a generation of which another analysis is running, a running analysis keeps a handle until
it is cancelled, it is cancelled once it is revoked, and nothing else is reported. -/
theorem analysis_schedule (isOpen : Bool) (events : List Event)
    (hlegal : Throughout Legal (new isOpen) events) :
    (∀ event, Legal ((new isOpen).run events) event → Reports event →
      (((new isOpen).run events).apply event).2.state.isOpen = false →
      (((new isOpen).run events).apply event).2.AllFinished →
        (((new isOpen).run events).apply event).1 = true) ∧
    (Throughout Sole (new isOpen) events →
      (∀ (i : ℕ) a, ((new isOpen).run events).analyses[i]? = some a → a.finished = false →
        (a.revoked = true → ((new isOpen).run events).sources.isCancelled i = true) ∧
        (((new isOpen).run events).sources.isCancelled i = true ∨
          ((new isOpen).run events).state.cancellations.get? a.generation = some i)) ∧
      ∀ event, Legal ((new isOpen).run events) event → Sole ((new isOpen).run events) event →
        (((new isOpen).run events).apply event).1 = true →
          (((new isOpen).run events).apply event).2.state.isOpen = false ∧
          (((new isOpen).run events).apply event).2.AllFinished) := by
  have hheld : ((new isOpen).run events).Held :=
    run_induction (fun _ _ h hlegal => h.apply hlegal) (kept_new isOpen).toHeld hlegal
  refine ⟨fun event hevent hreports hclosed hfinished => ?_, fun hsole => ?_⟩
  · exact apply_reports.mpr ⟨hreports, hclosed, (hheld.apply hevent).isEmpty hfinished⟩
  · have hkept : ((new isOpen).run events).Kept :=
      run_induction (fun _ _ h hallowed => h.apply hallowed.1 hallowed.2) (kept_new isOpen)
        (hlegal.and hsole)
    refine ⟨fun i a ha hrunning => ⟨hkept.revoked i a ha hrunning, hkept.handle i a ha hrunning⟩,
      fun event hevent hsoleEvent hreport => ?_⟩
    obtain ⟨-, hclosed, hempty⟩ := apply_reports.mp hreport
    exact ⟨hclosed, (hkept.apply hevent hsoleEvent).allFinished hempty⟩

/-- Closing the document cancels its one running analysis. -/
theorem analysis_schedule_closed :
    ((new true).run [.register 1, .close]).sources.isCancelled 0 = true := by
  have h := (analysis_schedule true [.register 1, .close] ⟨trivial, trivial, trivial⟩).2
    ⟨trivial, trivial, trivial⟩
  exact (h.1 0 ⟨1, false, true⟩ rfl rfl).1 rfl

namespace Duplicate

/-- The first of two analyses of generation 1 finishes, and the document is closed. -/
def events : List Event :=
  [.register 1, .register 1, .finish 1 (some 0), .close]

theorem legal_events : Throughout Legal (new true) events :=
  ⟨trivial, trivial, ⟨⟨1, false, false⟩, rfl, rfl⟩, trivial, trivial⟩

/-- The second analysis runs on uncancelled, and the state is reported as removable. -/
theorem handle_lost :
    Throughout Legal (new true) events ∧
      ((new true).run events).analyses[1]? = some ⟨1, false, true⟩ ∧
      ((new true).run events).sources.isCancelled 1 = false ∧
      (((new true).run (events.take 3)).apply .close).1 = true :=
  ⟨legal_events, rfl, rfl, rfl⟩

end Duplicate

end Document

end ProvenGraphcal.Lsp
