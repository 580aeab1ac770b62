import ProvenGraphcal.Algebra.NatPolyForm
import ProvenGraphcal.Lsp.DependencyGraph

/-!
# Revisions of documents and the freshness of analyses

An analysis keeps the revisions that the documents it consumed had when it was launched. The server
gives every text it is sent a new revision, and every change on disk that is reported for a document
which is not open.
-/

namespace ProvenGraphcal.Lsp

open Checked (bind_eq_ok)

variable {U D : Type} [DecidableEq U] [DecidableEq D]

structure DocumentRevision where
  number : U64
  deriving DecidableEq

/-- `RevisionExhausted` -/
inductive RevisionError
  | exhausted
  deriving DecidableEq

/-- The revisions handed out so far. -/
structure RevisionClock where
  handedOut : U64

def RevisionClock.next (clock : RevisionClock) :
    Except RevisionError (DocumentRevision × RevisionClock) :=
  match checkedU64 (clock.handedOut.val + 1) with
  | .ok next => .ok (⟨next⟩, ⟨next⟩)
  | .error _ => .error .exhausted

abbrev Revisions (D : Type) := InsertionMap D DocumentRevision

structure AnalysisInputSnapshot (D : Type) where
  root : D
  observed : Revisions D

inductive DependencyCoverage
  | complete
  | incomplete
  deriving DecidableEq

inductive AnalysisFreshness
  | current
  | rootChanged
  | dependencyChanged
  deriving DecidableEq

structure AnalysisInputs (D : Type) where
  root : D
  dependencies : List D
  dependencyCoverage : DependencyCoverage
  expectedRevisions : InsertionMap D (Option DocumentRevision)

namespace AnalysisInputSnapshot

def new (root : D) (rootRevision : DocumentRevision) (observed : Revisions D) :
    AnalysisInputSnapshot D := ⟨root, observed.insert root rootRevision⟩

def finish (snapshot : AnalysisInputSnapshot D) (dependencies : List D)
    (dependencyCoverage : DependencyCoverage) : AnalysisInputs D where
  root := snapshot.root
  dependencies := dependencies
  dependencyCoverage := dependencyCoverage
  expectedRevisions := .ofList <| (snapshot.root :: dependencies).map fun identity =>
    (identity, snapshot.observed.get? identity)

end AnalysisInputSnapshot

/-- An open buffer replaces the disk revision of its identity. -/
def currentRevisions (disk : Revisions D) (openBuffers : List (D × DocumentRevision)) :
    Revisions D :=
  openBuffers.foldl (fun current entry => current.insert entry.1 entry.2) disk

namespace AnalysisInputs

def rootIsCurrent (inputs : AnalysisInputs D) (current : Revisions D) : Bool :=
  (inputs.expectedRevisions.get? inputs.root).any fun expected =>
    current.get? inputs.root = expected

def freshness (inputs : AnalysisInputs D) (current : Revisions D) : AnalysisFreshness :=
  if inputs.dependencies.any fun identity =>
      (inputs.expectedRevisions.get? identity).join ≠ current.get? identity then
    .dependencyChanged
  else if inputs.rootIsCurrent current then .current
  else .rootChanged

def isCurrent (inputs : AnalysisInputs D) (current : Revisions D) : Bool :=
  inputs.freshness current = .current

end AnalysisInputs

theorem get?_foldl_insert_map {V : Type} (f : D → V) (l : List D) (m : InsertionMap D V) (k : D) :
    ((l.map fun k => (k, f k)).foldl (fun m e => m.insert e.1 e.2) m).get? k =
      if k ∈ l then some (f k) else m.get? k := by
  induction l generalizing m with
  | nil => simp
  | cons a rest ih =>
    rw [List.map_cons, List.foldl_cons, ih, InsertionMap.get?_insert]
    by_cases hrest : k ∈ rest
    · simp [hrest]
    · by_cases ha : k = a
      · simp [ha]
      · simp [hrest, ha]

variable {identity : D}

/-- Every consumed identity is expected as the snapshot observed it. -/
theorem get?_expectedRevisions {snapshot : AnalysisInputSnapshot D} {dependencies : List D}
    {coverage : DependencyCoverage} (h : identity = snapshot.root ∨ identity ∈ dependencies) :
    (snapshot.finish dependencies coverage).expectedRevisions.get? identity =
      some (snapshot.observed.get? identity) := by
  have hmem : identity ∈ snapshot.root :: dependencies := List.mem_cons.mpr h
  rw [AnalysisInputSnapshot.finish, InsertionMap.ofList,
    get?_foldl_insert_map snapshot.observed.get?, if_pos hmem]

variable {snapshot : AnalysisInputSnapshot D} {dependencies : List D}
  {coverage : DependencyCoverage} {current : Revisions D}

theorem any_dependency_changed :
    ((snapshot.finish dependencies coverage).dependencies.any fun identity =>
      ((snapshot.finish dependencies coverage).expectedRevisions.get? identity).join ≠
        current.get? identity) = true ↔
      ¬ ∀ identity ∈ dependencies, current.get? identity = snapshot.observed.get? identity := by
  rw [List.any_eq_true]
  push Not
  refine exists_congr fun identity => and_congr_right fun hmem => ?_
  have hexpected : (snapshot.finish dependencies coverage).expectedRevisions.get? identity =
      some (snapshot.observed.get? identity) := get?_expectedRevisions (.inr hmem)
  rw [hexpected, Option.join_some, decide_eq_true_eq, ne_comm]

theorem rootIsCurrent_finish :
    (snapshot.finish dependencies coverage).rootIsCurrent current = true ↔
      current.get? snapshot.root = snapshot.observed.get? snapshot.root := by
  have hroot : (snapshot.finish dependencies coverage).root = snapshot.root := rfl
  rw [AnalysisInputs.rootIsCurrent, hroot, get?_expectedRevisions (.inl rfl), Option.any_some,
    decide_eq_true_eq]

/-- A result is current when every consumed identity has the revision, or the absence of one, that
the snapshot observed. -/
theorem isCurrent_finish :
    (snapshot.finish dependencies coverage).isCurrent current = true ↔
      ∀ identity, identity = snapshot.root ∨ identity ∈ dependencies →
        current.get? identity = snapshot.observed.get? identity := by
  rw [AnalysisInputs.isCurrent, decide_eq_true_eq, AnalysisInputs.freshness]
  split_ifs with hdependency hcurrent
  · rw [any_dependency_changed] at hdependency
    refine iff_of_false (by simp) fun h => hdependency fun identity hmem => ?_
    exact h identity (.inr hmem)
  · rw [any_dependency_changed, not_not] at hdependency
    refine iff_of_true rfl fun identity hconsumed => ?_
    rcases hconsumed with rfl | hmem
    · exact rootIsCurrent_finish.mp hcurrent
    · exact hdependency identity hmem
  · refine iff_of_false (by simp) fun h => hcurrent ?_
    exact rootIsCurrent_finish.mpr (h _ (.inl rfl))

/-- Latest text and version of one open document. -/
structure OpenDocumentSnapshot (D : Type) where
  identity : D
  revision : DocumentRevision
  text : String
  version : ℤ

/-- What the server keeps of the documents, and what is on disk. -/
structure Workspace (U D : Type) where
  revisionClock : RevisionClock
  latestText : InsertionMap U (OpenDocumentSnapshot D)
  filesystemRevisions : Revisions D
  disk : D → Option String

variable {revision : DocumentRevision} {content : Option String} {version : Option ℤ}
variable {text : String} {uri : U}

namespace Workspace

def openRevisions (workspace : Workspace U D) : List (D × DocumentRevision) :=
  workspace.latestText.entries.map fun entry => (entry.2.identity, entry.2.revision)

/-- The revisions that an analysis is launched with, and those that its inputs are compared with. -/
def revisions (workspace : Workspace U D) : Revisions D :=
  currentRevisions workspace.filesystemRevisions workspace.openRevisions

/-- An open document keeps the identity it was opened with. -/
def snapshotOf (workspace : Workspace U D) (documentIdentity : U → D) (uri : U)
    (revision : DocumentRevision) (text : String) (version : Option ℤ) : OpenDocumentSnapshot D :=
  match workspace.latestText.get? uri with
  | some snapshot => ⟨snapshot.identity, revision, text, version.getD snapshot.version⟩
  | none => ⟨documentIdentity uri, revision, text, version.getD 0⟩

def recordLatestText (workspace : Workspace U D) (documentIdentity : U → D) (uri : U)
    (text : String) (version : Option ℤ) : Except RevisionError (Workspace U D) := do
  let (revision, clock) ← workspace.revisionClock.next
  return { workspace with
    revisionClock := clock
    latestText := workspace.latestText.insert uri
      (workspace.snapshotOf documentIdentity uri revision text version) }

def isOpen (workspace : Workspace U D) (identity : D) : Bool :=
  workspace.latestText.entries.any fun entry => entry.2.identity = identity

/-- The editor snapshot of an open document is authoritative. -/
def handleFilesystemChange (workspace : Workspace U D) (identity : D) :
    Except RevisionError (Workspace U D) :=
  if workspace.isOpen identity then .ok workspace
  else do
    let (revision, clock) ← workspace.revisionClock.next
    return { workspace with
      revisionClock := clock
      filesystemRevisions := workspace.filesystemRevisions.insert identity revision }

def didClose (workspace : Workspace U D) (uri : U) : Workspace U D :=
  { workspace with latestText := workspace.latestText.erase uri }

/-- What happens to documents: the editor sends a text, on opening, editing or saving; a file
changes on disk and the client reports it; the editor closes a document. -/
inductive Event (U D : Type)
  | text (uri : U) (text : String) (version : Option ℤ)
  | fileChanged (identity : D) (content : Option String)
  | close (uri : U)

def apply (documentIdentity : U → D) (workspace : Workspace U D) :
    Event U D → Except RevisionError (Workspace U D)
  | .text uri text version => workspace.recordLatestText documentIdentity uri text version
  | .fileChanged identity content =>
    let changed := { workspace with disk := Function.update workspace.disk identity content }
    changed.handleFilesystemChange identity
  | .close uri => .ok (workspace.didClose uri)

/-- A run in which the revisions are not exhausted. -/
def run (documentIdentity : U → D) (workspace : Workspace U D) (events : List (Event U D)) :
    Except RevisionError (Workspace U D) :=
  events.foldlM (apply documentIdentity) workspace

def start (disk : D → Option String) : Workspace U D := ⟨⟨0⟩, .empty, .empty, disk⟩

/-- The text that the loader reads: open documents overlay the disk. -/
def source (workspace : Workspace U D) (identity : D) : Option String :=
  match workspace.latestText.entries.find? fun entry => entry.2.identity = identity with
  | some entry => some entry.2.text
  | none => workspace.disk identity

/-! ## Revisions in runs -/

/-- The revision was handed out before. -/
def HandedOut (workspace : Workspace U D) (revision : DocumentRevision) : Prop :=
  revision.number ≤ workspace.revisionClock.handedOut

/-- What a step or a run keeps: the clock goes on, and what has a revision that was handed out
before is unchanged. -/
structure Keeps (before after : Workspace U D) : Prop where
  clock : before.revisionClock.handedOut ≤ after.revisionClock.handedOut
  latestText : ∀ uri snapshot, after.latestText.get? uri = some snapshot →
    before.HandedOut snapshot.revision → before.latestText.get? uri = some snapshot
  filesystem : ∀ identity revision, after.filesystemRevisions.get? identity = some revision →
    before.HandedOut revision → before.filesystemRevisions.get? identity = some revision
  filesystem_none : ∀ identity, after.filesystemRevisions.get? identity = none →
    before.filesystemRevisions.get? identity = none

theorem Keeps.refl (workspace : Workspace U D) : Keeps workspace workspace where
  clock := le_rfl
  latestText _ _ h _ := h
  filesystem _ _ h _ := h
  filesystem_none _ h := h

theorem Keeps.trans {a b c : Workspace U D} (h : Keeps a b) (h' : Keeps b c) : Keeps a c where
  clock := h.clock.trans h'.clock
  latestText uri snapshot hget hold :=
    h.latestText uri snapshot (h'.latestText uri snapshot hget (hold.trans h.clock)) hold
  filesystem identity revision hget hold :=
    h.filesystem identity revision (h'.filesystem identity revision hget (hold.trans h.clock)) hold
  filesystem_none identity hnone := h.filesystem_none identity (h'.filesystem_none identity hnone)

theorem next_eq_ok {clock clock' : RevisionClock} (h : clock.next = .ok (revision, clock')) :
    clock.handedOut < revision.number ∧ clock'.handedOut = revision.number := by
  unfold RevisionClock.next at h
  split at h
  case h_1 next hnext =>
    cases h
    have hval := checkedU64_eq_ok.mp hnext
    refine ⟨?_, rfl⟩
    rw [Fin.lt_def]
    dsimp only
    omega
  case h_2 => cases h

variable {documentIdentity : U → D} {workspace next : Workspace U D}

omit [DecidableEq D] in
theorem snapshotOf_revision (uri : U) (revision : DocumentRevision) (text : String)
    (version : Option ℤ) :
    (workspace.snapshotOf documentIdentity uri revision text version).revision = revision := by
  unfold snapshotOf
  split <;> rfl

theorem recordLatestText_keeps
    (h : workspace.recordLatestText documentIdentity uri text version = .ok next) :
    Keeps workspace next := by
  obtain ⟨⟨revision, clock⟩, hnext, h⟩ := bind_eq_ok.mp h
  cases h
  obtain ⟨hnew, hclock⟩ := next_eq_ok hnext
  refine ⟨?_, fun u snapshot hget hold => ?_, fun _ _ hget _ => hget, fun _ hnone => hnone⟩
  · change _ ≤ clock.handedOut
    rw [hclock]
    exact hnew.le
  · dsimp only at hget
    rw [InsertionMap.get?_insert] at hget
    split_ifs at hget with hu
    · cases hget
      rw [HandedOut, snapshotOf_revision] at hold
      exact absurd hold (not_le.mpr hnew)
    · exact hget

theorem handleFilesystemChange_keeps (h : workspace.handleFilesystemChange identity = .ok next) :
    Keeps workspace next := by
  unfold handleFilesystemChange at h
  split_ifs at h with hopen
  · cases h
    exact .refl workspace
  · obtain ⟨⟨revision, clock⟩, hnext, h⟩ := bind_eq_ok.mp h
    cases h
    obtain ⟨hnew, hclock⟩ := next_eq_ok hnext
    refine ⟨?_, fun _ _ hget _ => hget, fun i r hget hold => ?_, fun i hnone => ?_⟩
    · change _ ≤ clock.handedOut
      rw [hclock]
      exact hnew.le
    · dsimp only at hget
      rw [InsertionMap.get?_insert] at hget
      split_ifs at hget with hi
      · cases hget
        exact absurd hold (not_le.mpr hnew)
      · exact hget
    · dsimp only at hnone
      rw [InsertionMap.get?_insert] at hnone
      split_ifs at hnone
      exact hnone

theorem didClose_keeps (uri : U) : Keeps workspace (workspace.didClose uri) where
  clock := le_rfl
  latestText u snapshot hget _ := by
    rw [didClose, InsertionMap.get?_erase] at hget
    split_ifs at hget
    exact hget
  filesystem _ _ hget _ := hget
  filesystem_none _ hnone := hnone

theorem apply_keeps {event : Event U D} (h : apply documentIdentity workspace event = .ok next) :
    Keeps workspace next := by
  cases event with
  | text uri text version => exact recordLatestText_keeps h
  | fileChanged identity content =>
    have hkeeps := handleFilesystemChange_keeps h
    exact ⟨hkeeps.clock, hkeeps.latestText, hkeeps.filesystem, hkeeps.filesystem_none⟩
  | close uri =>
    cases h
    exact didClose_keeps uri

variable {events : List (Event U D)}

theorem run_keeps (h : run documentIdentity workspace events = .ok next) : Keeps workspace next :=
  Checked.foldlM_invariant (Keeps workspace)
    (fun _ _ _ _ hkeeps hstep => hkeeps.trans (apply_keeps hstep)) (.refl workspace) h

/-- All revisions were handed out, and no text shares one with a change on disk. -/
structure Unique (workspace : Workspace U D) : Prop where
  latestText : ∀ uri snapshot, workspace.latestText.get? uri = some snapshot →
    workspace.HandedOut snapshot.revision
  filesystem : ∀ identity revision, workspace.filesystemRevisions.get? identity = some revision →
    workspace.HandedOut revision
  apart : ∀ uri snapshot identity, workspace.latestText.get? uri = some snapshot →
    workspace.filesystemRevisions.get? identity ≠ some snapshot.revision

theorem unique_start (disk : D → Option String) : Unique (start disk : Workspace U D) where
  latestText _ _ h := nomatch h
  filesystem _ _ h := nomatch h
  apart _ _ _ h := nomatch h

section

variable (hunique : Unique workspace)

include hunique

theorem recordLatestText_unique
    (h : workspace.recordLatestText documentIdentity uri text version = .ok next) :
    Unique next := by
  have hclock := (recordLatestText_keeps h).clock
  obtain ⟨⟨revision, clock⟩, hnext, h⟩ := bind_eq_ok.mp h
  cases h
  obtain ⟨hnew, hrevision⟩ := next_eq_ok hnext
  refine ⟨fun u snapshot hget => ?_, fun i r hget => (hunique.filesystem i r hget).trans hclock,
    fun u snapshot i hget hsame => ?_⟩
  · dsimp only at hget
    rw [InsertionMap.get?_insert] at hget
    split_ifs at hget with hu
    · cases hget
      rw [HandedOut, snapshotOf_revision]
      exact hrevision.ge
    · exact (hunique.latestText u snapshot hget).trans hclock
  · dsimp only at hget hsame
    rw [InsertionMap.get?_insert] at hget
    split_ifs at hget with hu
    · cases hget
      rw [snapshotOf_revision] at hsame
      exact absurd (hunique.filesystem i revision hsame) (not_le.mpr hnew)
    · exact hunique.apart u snapshot i hget hsame

theorem handleFilesystemChange_unique (h : workspace.handleFilesystemChange identity = .ok next) :
    Unique next := by
  have hclock := (handleFilesystemChange_keeps h).clock
  unfold handleFilesystemChange at h
  split_ifs at h with hopen
  · cases h
    exact hunique
  · obtain ⟨⟨revision, clock⟩, hnext, h⟩ := bind_eq_ok.mp h
    cases h
    obtain ⟨hnew, hrevision⟩ := next_eq_ok hnext
    refine ⟨fun u snapshot hget => (hunique.latestText u snapshot hget).trans hclock,
      fun i r hget => ?_, fun u snapshot i hget hsame => ?_⟩
    · dsimp only at hget
      rw [InsertionMap.get?_insert] at hget
      split_ifs at hget with hi
      · cases hget
        exact hrevision.ge
      · exact (hunique.filesystem i r hget).trans hclock
    · dsimp only at hget hsame
      rw [InsertionMap.get?_insert] at hsame
      split_ifs at hsame with hi
      · cases hsame
        exact absurd (hunique.latestText u snapshot hget) (not_le.mpr hnew)
      · exact hunique.apart u snapshot i hget hsame

theorem didClose_unique (uri : U) : Unique (workspace.didClose uri) := by
  have hold : ∀ u snapshot, (workspace.didClose uri).latestText.get? u = some snapshot →
      workspace.latestText.get? u = some snapshot := by
    intro u snapshot hget
    rw [didClose, InsertionMap.get?_erase] at hget
    split_ifs at hget
    exact hget
  exact ⟨fun u snapshot hget => hunique.latestText u snapshot (hold u snapshot hget),
    hunique.filesystem, fun u snapshot i hget => hunique.apart u snapshot i (hold u snapshot hget)⟩

theorem run_unique (h : run documentIdentity workspace events = .ok next) : Unique next := by
  refine Checked.foldlM_invariant Unique (fun event _ s s' hs hstep => ?_) hunique h
  cases event with
  | text uri text version => exact recordLatestText_unique hs hstep
  | fileChanged identity content =>
    have hdisk : Unique { s with disk := Function.update s.disk identity content } :=
      ⟨hs.latestText, hs.filesystem, hs.apart⟩
    exact handleFilesystemChange_unique hdisk hstep
  | close uri =>
    cases hstep
    exact didClose_unique hs uri

end

/-! ## What a current result says -/

theorem currentRevisions_cases (m : Revisions D) (l : List (D × DocumentRevision)) (identity : D) :
    (∃ revision, (identity, revision) ∈ l ∧
      (currentRevisions m l).get? identity = some revision) ∨
    ((∀ entry ∈ l, entry.1 ≠ identity) ∧
      (currentRevisions m l).get? identity = m.get? identity) := by
  unfold currentRevisions
  induction l generalizing m with
  | nil => exact .inr ⟨fun _ h => (nomatch h), rfl⟩
  | cons entry rest ih =>
    rw [List.foldl_cons]
    rcases ih (m.insert entry.1 entry.2) with ⟨revision, hmem, hget⟩ | ⟨hrest, hget⟩
    · exact .inl ⟨revision, List.mem_cons_of_mem _ hmem, hget⟩
    · rw [InsertionMap.get?_insert] at hget
      split_ifs at hget with h
      · exact .inl ⟨entry.2, h ▸ List.mem_cons_self, hget⟩
      · refine .inr ⟨?_, hget⟩
        rw [List.forall_mem_cons]
        exact ⟨Ne.symm h, hrest⟩

/-- The revision of an identity is that of an open document, or the one on disk. -/
theorem revisions_cases (workspace : Workspace U D) (identity : D) :
    (∃ uri snapshot, workspace.latestText.get? uri = some snapshot ∧
      snapshot.identity = identity ∧
      workspace.revisions.get? identity = some snapshot.revision) ∨
    (workspace.isOpen identity = false ∧
      workspace.revisions.get? identity = workspace.filesystemRevisions.get? identity) := by
  rcases currentRevisions_cases workspace.filesystemRevisions workspace.openRevisions identity with
    ⟨revision, hmem, hget⟩ | ⟨hclosed, hget⟩
  · obtain ⟨⟨uri, snapshot⟩, hentry, heq⟩ := List.mem_map.mp hmem
    cases heq
    exact .inl ⟨uri, snapshot, InsertionMap.mem_entries_iff.mp hentry, rfl, hget⟩
  · refine .inr ⟨?_, hget⟩
    rw [isOpen, List.any_eq_false]
    intro entry hentry hidentity
    exact hclosed _ (List.mem_map_of_mem hentry) (of_decide_eq_true hidentity)

/-- The snapshot that an analysis of `root` is launched with. -/
def launch (workspace : Workspace U D) (root : D) (rootRevision : DocumentRevision) :
    AnalysisInputSnapshot D := .new root rootRevision workspace.revisions

/-- The revision was given to a text of the editor. -/
structure GivenToText (workspace : Workspace U D) (revision : DocumentRevision) : Prop where
  handedOut : workspace.HandedOut revision
  not_disk : ∀ identity, workspace.filesystemRevisions.get? identity ≠ some revision

/-- The document of an identity is open all the time with one text, or it is closed at the first and
the last state and the same change on disk is the latest one recorded in all three. -/
def Unchanged (identity : D) (first between last : Workspace U D) : Prop :=
  (∃ uri snapshot, snapshot.identity = identity ∧ first.latestText.get? uri = some snapshot ∧
    between.latestText.get? uri = some snapshot ∧ last.latestText.get? uri = some snapshot) ∨
  (first.isOpen identity = false ∧ last.isOpen identity = false ∧
    between.filesystemRevisions.get? identity = first.filesystemRevisions.get? identity ∧
    last.filesystemRevisions.get? identity = first.filesystemRevisions.get? identity)

variable {first between last : Workspace U D}

theorem Keeps.filesystem_eq (h : Keeps first between) {latest : Option DocumentRevision}
    (hget : between.filesystemRevisions.get? identity = latest)
    (hold : ∀ revision, latest = some revision → first.HandedOut revision) :
    first.filesystemRevisions.get? identity = latest := by
  cases latest with
  | none => exact h.filesystem_none identity hget
  | some revision => exact h.filesystem identity revision hget (hold revision rfl)

/-- The revision that an identity had at the launch was handed out. -/
theorem handedOut_revisions (hunique : Unique first)
    (h : first.revisions.get? identity = some revision) : first.HandedOut revision := by
  rcases first.revisions_cases identity with ⟨uri, snapshot, hget, -, hrevision⟩ | ⟨-, hdisk⟩
  · rw [h] at hrevision
    cases hrevision
    exact hunique.latestText uri snapshot hget
  · exact hunique.filesystem identity revision (hdisk ▸ h)

theorem unchanged_of_current (hunique : Unique first) (hbefore : Keeps first between)
    (hafter : Keeps between last) {root : D} {rootRevision : DocumentRevision}
    (hroot : first.GivenToText rootRevision) (hcurrent : last.revisions.get? identity =
      (first.launch root rootRevision).observed.get? identity) :
    Unchanged identity first between last := by
  have hkeeps := hbefore.trans hafter
  have hobserved : (first.launch root rootRevision).observed.get? identity =
      if identity = root then some rootRevision else first.revisions.get? identity :=
    InsertionMap.get?_insert ..
  rw [hobserved] at hcurrent
  have hold : ∀ revision, last.revisions.get? identity = some revision →
      first.HandedOut revision := by
    intro revision hrevision
    rw [hcurrent] at hrevision
    split_ifs at hrevision
    · cases hrevision
      exact hroot.handedOut
    · exact handedOut_revisions hunique hrevision
  rcases last.revisions_cases identity with ⟨uri, snapshot, hget, hidentity, hrevision⟩ |
    ⟨hclosed, hdisk⟩
  · have hrevisionOld := hold snapshot.revision hrevision
    have hfirst := hkeeps.latestText uri snapshot hget hrevisionOld
    have hbetween := hafter.latestText uri snapshot hget (hrevisionOld.trans hbefore.clock)
    exact .inl ⟨uri, snapshot, hidentity, hfirst, hbetween, hget⟩
  · -- A closed document has the revision on disk, which is no text's.
    rw [hdisk] at hold hcurrent
    have hfirst := hkeeps.filesystem_eq rfl hold
    have hbetween := hafter.filesystem_eq rfl fun r hr => (hold r hr).trans hbefore.clock
    refine .inr ⟨?_, hclosed, hbetween.trans hfirst.symm, hfirst.symm⟩
    split_ifs at hcurrent with hid
    · exact absurd (hfirst.trans hcurrent) (hroot.not_disk identity)
    · rcases first.revisions_cases identity with ⟨uri, snapshot, hget, -, hrevision⟩ | ⟨hopen, -⟩
      · rw [hrevision] at hcurrent
        exact absurd (hfirst.trans hcurrent) (hunique.apart uri snapshot identity hget)
      · exact hopen

/-- A change on disk that is recorded leaves a revision that was not handed out before. -/
theorem filesystemRevisions_fileChanged (hclosed : workspace.isOpen identity = false)
    (h : apply documentIdentity workspace (.fileChanged identity content) = .ok next) :
    ∃ revision, next.filesystemRevisions.get? identity = some revision ∧
      ¬ workspace.HandedOut revision := by
  rw [apply, handleFilesystemChange] at h
  have hopen : ({ workspace with disk := Function.update workspace.disk identity content } :
      Workspace U D).isOpen identity = false := hclosed
  rw [if_neg (by rw [hopen]; decide)] at h
  obtain ⟨⟨revision, clock⟩, hnext, h⟩ := bind_eq_ok.mp h
  cases h
  refine ⟨revision, ?_, not_le.mpr (next_eq_ok hnext).1⟩
  rw [InsertionMap.get?_insert, if_pos rfl]

theorem run_append {before after : List (Event U D)} :
    run documentIdentity first (before ++ after) = .ok last ↔
      ∃ between, run documentIdentity first before = .ok between ∧
        run documentIdentity between after = .ok last := by
  rw [run, List.foldlM_append, bind_eq_ok]
  rfl

/-- A document that is open counts as open under its identity. -/
theorem isOpen_of_get? {snapshot : OpenDocumentSnapshot D}
    (h : workspace.latestText.get? uri = some snapshot) :
    workspace.isOpen snapshot.identity = true := by
  rw [isOpen, List.any_eq_true]
  exact ⟨(uri, snapshot), InsertionMap.mem_entries_iff.mpr h, decide_eq_true rfl⟩

/-- A change on disk that was not seen was reported while the document was open. -/
theorem isOpen_of_unchanged (hunique : Unique first) (hbefore : Keeps first between)
    (hstep : apply documentIdentity between (.fileChanged identity content) = .ok next)
    (hbetween : Unchanged identity first between last)
    (hnext : Unchanged identity first next last) : between.isOpen identity = true := by
  rcases hbetween with ⟨uri, snapshot, rfl, -, hget, -⟩ | ⟨hfirst, -, -, -⟩
  · exact isOpen_of_get? hget
  · by_contra hclosed
    rw [Bool.not_eq_true] at hclosed
    obtain ⟨revision, hrevision, hnew⟩ := filesystemRevisions_fileChanged hclosed hstep
    rcases hnext with ⟨uri, snapshot, rfl, hget, -⟩ | ⟨-, -, hdisk, -⟩
    · rw [isOpen_of_get? hget] at hfirst
      cases hfirst
    · rw [hrevision] at hdisk
      exact hnew ((hunique.filesystem identity revision hdisk.symm).trans hbefore.clock)

end Workspace

open Relation in
/-- The importers of a document are the roots that reach it through recorded dependencies. A result
is current when all that it consumed has the revision, or the absence of one, that it had at the
launch: then a text that was open is still the same, and a document that was closed is closed, and
what was changed of it on disk was changed while it was open in between. -/
theorem editor_invalidation (U D : Type) [DecidableEq U] [DecidableEq D] :
    (∀ (changes : List (DependencyGraph.Change D)) (changed : D),
      ((DependencyGraph.after changes).search changed).frontier = [] ∧
      ∀ root, root ∈ (DependencyGraph.after changes).transitiveImporters changed ↔
        TransGen (fun root dependency => ∃ dependencies,
          DependencyGraph.recorded changes root = some dependencies ∧
            dependency ∈ dependencies) root changed) ∧
    (∀ (snapshot : AnalysisInputSnapshot D) (dependencies : List D) (coverage : DependencyCoverage)
      (current : Revisions D), (snapshot.finish dependencies coverage).isCurrent current = true ↔
        ∀ identity, identity = snapshot.root ∨ identity ∈ dependencies →
          current.get? identity = snapshot.observed.get? identity) ∧
    (∀ (documentIdentity : U → D) (disk : D → Option String)
      (earlier events : List (Workspace.Event U D)) (launched last : Workspace U D) (root : D)
      (rootRevision : DocumentRevision) (dependencies : List D) (coverage : DependencyCoverage),
      Workspace.run documentIdentity (.start disk) earlier = .ok launched →
      launched.GivenToText rootRevision →
      Workspace.run documentIdentity launched events = .ok last →
      ((launched.launch root rootRevision).finish dependencies coverage).isCurrent
        last.revisions = true →
      ∀ identity, identity = root ∨ identity ∈ dependencies →
        (∀ before after between, events = before ++ after →
          Workspace.run documentIdentity launched before = .ok between →
          Workspace.Unchanged identity launched between last) ∧
        (∀ before content after between, events = before ++ .fileChanged identity content :: after →
          Workspace.run documentIdentity launched before = .ok between →
          between.isOpen identity = true)) := by
  refine ⟨fun changes changed => ⟨DependencyGraph.search_frontier _ _, fun root => ?_⟩,
    fun _ _ _ _ => isCurrent_finish, ?_⟩
  · rw [DependencyGraph.mem_transitiveImporters]
    unfold DependencyGraph.Consumes
    simp only [DependencyGraph.get?_after]
  · intro documentIdentity disk earlier events launched last root rootRevision dependencies coverage
      hearlier hroot hrun hcurrent identity hconsumed
    have hunique : launched.Unique := Workspace.run_unique (Workspace.unique_start disk) hearlier
    have hobserved := isCurrent_finish.mp hcurrent identity hconsumed
    have hunchanged : ∀ before after between, events = before ++ after →
        Workspace.run documentIdentity launched before = .ok between →
        Workspace.Unchanged identity launched between last := by
      rintro before after between rfl hbefore
      obtain ⟨middle, hmiddle, hafter⟩ := Workspace.run_append.mp hrun
      rw [hbefore] at hmiddle
      cases hmiddle
      exact Workspace.unchanged_of_current hunique (Workspace.run_keeps hbefore)
        (Workspace.run_keeps hafter) hroot hobserved
    refine ⟨hunchanged, ?_⟩
    rintro before content after between rfl hbefore
    obtain ⟨middle, hmiddle, hafter⟩ := Workspace.run_append.mp hrun
    rw [hbefore] at hmiddle
    cases hmiddle
    obtain ⟨next, hstep, -⟩ := bind_eq_ok.mp hafter
    have hnext : Workspace.run documentIdentity launched
        (before ++ [.fileChanged identity content]) = .ok next := by
      rw [Workspace.run_append]
      refine ⟨between, hbefore, ?_⟩
      rw [Workspace.run, List.foldlM_cons, hstep]
      rfl
    refine Workspace.isOpen_of_unchanged hunique (Workspace.run_keeps hbefore) hstep
      (hunchanged before _ between rfl hbefore)
      (hunchanged (before ++ [.fileChanged identity content]) after next ?_ hnext)
    rw [List.append_assoc, List.singleton_append]

theorem editor_invalidation_reopened :
    ∃ launched last : Workspace ℕ ℕ,
      Workspace.run id (.start fun _ => some "a") [.text 0 "root" none] = .ok launched ∧
      Workspace.run id launched [.text 1 "b" none, .fileChanged 1 (some "b"), .close 1] =
        .ok last ∧
      Workspace.Unchanged 1 launched launched last := by
  refine ⟨_, _, rfl, rfl, ?_⟩
  exact ((editor_invalidation ℕ ℕ).2.2 id (fun _ => some "a") [.text 0 "root" none]
    [.text 1 "b" none, .fileChanged 1 (some "b"), .close 1] _ _ 0 ⟨1⟩ [1] .complete rfl
    ⟨le_rfl, fun _ h => nomatch h⟩ rfl (by decide) 1 (by simp)).1 [] _ _ rfl rfl

/-- A dependency that was opened, changed on disk and closed again has no revision again, so the
result that read the old text is current. -/
theorem reopened_dependency_current :
    ∃ (launched last : Workspace ℕ ℕ) (rootRevision : DocumentRevision),
      Workspace.run id (.start fun _ => some "a") [.text 0 "root" none] = .ok launched ∧
      launched.GivenToText rootRevision ∧
      Workspace.run id launched [.text 1 "b" none, .fileChanged 1 (some "b"), .close 1] =
        .ok last ∧
      launched.source 1 = some "a" ∧ last.source 1 = some "b" ∧
      ((launched.launch 0 rootRevision).finish [1] .complete).isCurrent last.revisions = true := by
  refine ⟨_, _, ⟨1⟩, rfl, ⟨le_rfl, fun _ h => nomatch h⟩, rfl, rfl, rfl, ?_⟩
  decide

end ProvenGraphcal.Lsp
