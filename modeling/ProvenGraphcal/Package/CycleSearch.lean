import ProvenGraphcal.Library.CycleSearch
import ProvenGraphcal.Library.DependencyOrder
import ProvenGraphcal.Package.Validation

/-!
# What the cycle search establishes

The search ends on every list of entries. A cycle it reports is a closed chain of dependencies of
entries on the stack; where the ids are distinct, the packages it has visited stand after their
dependencies.
-/

namespace ProvenGraphcal

open DependencyOrder
open List (map_cons mem_append mem_cons mem_map mem_reverse mem_singleton sum_cons)

variable {Host : Type} {lib : UrlLibrary Host} {packages : List (LockedPackage lib)}

/-- Some entry with the first id has a dependency on the second. -/
def DependsOn (packages : List (LockedPackage lib)) (a b : PackageInstanceId) : Prop :=
  ∃ package ∈ packages, package.id = a ∧ b ∈ package.targets

variable {package : LockedPackage lib} {id : PackageInstanceId}

theorem packageMap_eq_some (h : (packageMap packages).get? id = some package) :
    package ∈ packages ∧ package.id = id := by
  have hmem := SortedMap.mem_of_get?_ofList h
  obtain ⟨package', hpackage', heq⟩ := mem_map.mp hmem
  cases heq
  exact ⟨hpackage', rfl⟩

variable {s : CycleSearch lib} {dependency : DependencyName}
variable {rest : List (DependencyName × PackageInstanceId)} {below stack : List LockDfsFrame}
variable {visited : List PackageInstanceId} {frame : LockDfsFrame}
variable {above : Option PackageInstanceId} {a target : PackageInstanceId}

namespace CycleSearch

/-- Every frame belongs to an entry, has emitted the dependencies it tried, except the one whose
package stands above, and a dependency of it stands above. -/
def FramesOk (packages : List (LockedPackage lib)) (visited : List PackageInstanceId) :
    Option PackageInstanceId → List LockDfsFrame → Prop
  | _, [] => True
  | above, frame :: below =>
    (∃ package ∈ packages, package.id = frame.package ∧
      ∃ tried, package.dependencies.entries = tried ++ frame.dependencies ∧
        ∀ e ∈ tried, e.2 ∈ visited ∨ above = some e.2) ∧
      (∀ b, above = some b → DependsOn packages frame.package b) ∧
      FramesOk packages visited (some frame.package) below

theorem FramesOk.mono {visited' : List PackageInstanceId} (hsub : visited ⊆ visited')
    (h : FramesOk packages visited above stack) : FramesOk packages visited' above stack := by
  induction stack generalizing above with
  | nil => trivial
  | cons frame below ih =>
    obtain ⟨⟨package, hpackage, hid, tried, heq, htried⟩, habove, hbelow⟩ := h
    exact ⟨⟨package, hpackage, hid, tried, heq, fun e he => (htried e he).imp_left fun hmem =>
      hsub hmem⟩, habove, ih hbelow⟩

/-- The package above is visited, so the frame below it is on top. -/
theorem FramesOk.emit (h : FramesOk packages visited (some a) stack) (ha : a ∈ visited) :
    FramesOk packages visited none stack := by
  cases stack with
  | nil => trivial
  | cons frame below =>
    obtain ⟨⟨package, hpackage, hid, tried, heq, htried⟩, -, hbelow⟩ := h
    refine ⟨⟨package, hpackage, hid, tried, heq, fun e he => .inl ?_⟩, nofun, hbelow⟩
    rcases htried e he with hmem | habove
    · exact hmem
    · exact Option.some.inj habove ▸ ha

/-- The frame on top depends on what its next edge leads to. -/
theorem FramesOk.dependsOn (h : FramesOk packages visited above (frame :: below))
    (hnext : frame.dependencies = (dependency, target) :: rest) :
    DependsOn packages frame.package target := by
  obtain ⟨⟨package, hpackage, hid, tried, heq, -⟩, -⟩ := h
  refine ⟨package, hpackage, hid, mem_map.mpr ⟨(dependency, target), ?_, rfl⟩⟩
  rw [heq, hnext]
  simp

/-- Trying the next edge leaves the frames in order when its target is visited or comes to stand
above. -/
theorem FramesOk.advance (h : FramesOk packages visited none (frame :: below))
    (hnext : frame.dependencies = (dependency, target) :: rest)
    (htarget : target ∈ visited ∨ above = some target) (habove : ∀ b, above = some b → b = target) :
    FramesOk packages visited above ({ frame with dependencies := rest } :: below) := by
  have hdep := h.dependsOn hnext
  obtain ⟨⟨package, hpackage, hid, tried, heq, htried⟩, -, hbelow⟩ := h
  refine ⟨⟨package, hpackage, hid, tried ++ [(dependency, target)], ?_, fun e he => ?_⟩,
    fun b hb => habove b hb ▸ hdep, hbelow⟩
  · rw [heq, hnext, List.append_assoc, List.singleton_append]
  · rcases mem_append.mp he with he | he
    · exact .inl ((htried e he).resolve_right nofun)
    · obtain rfl := mem_singleton.mp he
      exact htarget

/-- The packages on the stack form a chain of dependencies. -/
theorem FramesOk.isChain (h : FramesOk packages visited above stack) :
    (stack.map LockDfsFrame.package).reverse.IsChain (DependsOn packages) := by
  induction stack generalizing above with
  | nil => exact .nil
  | cons frame below ih =>
    rw [map_cons, List.reverse_cons, List.isChain_append]
    refine ⟨ih h.2.2, .singleton _, fun a ha b hb => ?_⟩
    obtain rfl : frame.package = b := by simpa using hb
    rw [List.getLast?_reverse] at ha
    cases below with
    | nil => cases ha
    | cons frame' below =>
      cases ha
      exact h.2.2.2.1 frame.package rfl

/-- The branches of one iteration on the frame on top. -/
inductive Step (packages : List (LockedPackage lib)) (s : CycleSearch lib) (frame : LockDfsFrame)
    (below : List LockDfsFrame) : CycleSearch lib → Prop
  | leave (hnext : frame.dependencies = []) :
    Step packages s frame below { s with
      visited := s.visited ++ [frame.package]
      visitingPositions := s.visitingPositions.set frame.package none
      stack := below }
  | skip (dependency : DependencyName) (target : PackageInstanceId)
      (rest : List (DependencyName × PackageInstanceId))
      (hnext : frame.dependencies = (dependency, target) :: rest) (htarget : target ∈ s.visited) :
    Step packages s frame below { s with stack := { frame with dependencies := rest } :: below }
  | close (dependency : DependencyName) (target : PackageInstanceId)
      (rest : List (DependencyName × PackageInstanceId)) (cycleStart : ℕ)
      (hnext : frame.dependencies = (dependency, target) :: rest)
      (hposition : s.visitingPositions.get? target = some cycleStart) :
    Step packages s frame below { s with
      stack := { frame with dependencies := rest } :: below
      error := some (.dependencyCycle ⟨target, s.path.drop (cycleStart + 1)⟩) }
  | enter (dependency : DependencyName) (target : PackageInstanceId)
      (rest : List (DependencyName × PackageInstanceId)) (package : LockedPackage lib)
      (hnext : frame.dependencies = (dependency, target) :: rest) (hvisited : target ∉ s.visited)
      (hposition : s.visitingPositions.get? target = none)
      (hpackage : (packageMap packages).get? target = some package) :
    Step packages s frame below { s with
      visitingPositions := s.visitingPositions.insert target s.stack.length
      stack := .new package :: { frame with dependencies := rest } :: below }
  | dangle (dependency : DependencyName) (target : PackageInstanceId)
      (rest : List (DependencyName × PackageInstanceId))
      (hnext : frame.dependencies = (dependency, target) :: rest)
      (hpackage : (packageMap packages).get? target = none) :
    Step packages s frame below { s with
      stack := { frame with dependencies := rest } :: below
      error := some (.missingDependencyTarget frame.package dependency target) }

theorem step_cases {next : CycleSearch lib} (h : step (packageMap packages) s = some next) :
    s.error = none ∧ ∃ frame below, s.stack = frame :: below ∧
      Step packages s frame below next := by
  unfold step at h
  split at h
  case h_1 => cases h
  case h_2 => cases h
  case h_3 frame below herror hstack =>
    refine ⟨herror, frame, below, hstack, ?_⟩
    split at h
    case h_1 hnext =>
      cases h
      exact .leave hnext
    case h_2 dependency target rest hnext =>
      split_ifs at h with hvisited
      · cases h
        exact .skip dependency target rest hnext hvisited
      · split at h
        case h_1 cycleStart hposition =>
          cases h
          exact .close dependency target rest cycleStart hnext hposition
        case h_2 hposition =>
          split at h
          case h_1 package hpackage =>
            cases h
            exact .enter dependency target rest package hnext hvisited hposition hpackage
          case h_2 hpackage =>
            cases h
            exact .dangle dependency target rest hnext hpackage

theorem step_eq_none (h : step (packageMap packages) s = none) :
    s.error ≠ none ∨ s.stack = [] := by
  unfold step at h
  split at h
  case h_1 herror => exact .inl (by simp [herror])
  case h_2 hstack => exact .inr hstack
  case h_3 frame below herror hstack =>
    split at h
    · cases h
    · dsimp only at h
      split_ifs at h
      split at h
      · cases h
      · split at h <;> cases h

/-! ## The invariant of the search -/

/-- What the search reports is there: a closed chain of dependencies, or a dependency without an
entry. -/
inductive Genuine (packages : List (LockedPackage lib)) : LockValidationError lib → Prop
  | cycle (cycle : LockedDependencyCycle)
      (h : IsCycle (DependsOn packages) (cycle.start :: cycle.successors)) :
    Genuine packages (.dependencyCycle cycle)
  | missing (package : LockedPackage lib) (dependency : DependencyName)
      (target : PackageInstanceId) (hpackage : package ∈ packages) (htarget : target ∈ package.targets)
      (hmissing : target ∉ packages.map LockedPackage.id) :
    Genuine packages (.missingDependencyTarget package.id dependency target)

/-- What holds before every iteration. -/
structure Inv (packages : List (LockedPackage lib)) (s : CycleSearch lib) : Prop where
  positions : PathPositions s.visitingPositions.get? s.path
  frames : s.error = none → FramesOk packages s.visited none s.stack
  inOrder : (packages.map LockedPackage.id).Nodup → InOrder (DependsOn packages) s.visited
  error : ∀ e ∈ s.error, Genuine packages e

theorem path_eq (hstack : s.stack = frame :: below) :
    s.path = (below.map LockDfsFrame.package).reverse ++ [frame.package] := by
  rw [path, hstack, map_cons, List.reverse_cons]

theorem packageMap_eq_none (h : (packageMap packages).get? id = none) :
    id ∉ packages.map LockedPackage.id := by
  intro hmem
  refine SortedMap.get?_ofList_ne_none ?_ h
  rw [List.map_map]
  exact hmem

/-- Trying the next edge of the frame on top leaves the path as it is. -/
theorem Inv.positions_advance (h : Inv packages s) (hstack : s.stack = frame :: below)
    (rest : List (DependencyName × PackageInstanceId)) :
    PathPositions s.visitingPositions.get?
      (({ frame with dependencies := rest } :: below).map LockDfsFrame.package).reverse := by
  have hpositions := h.positions
  rw [path, hstack] at hpositions
  exact hpositions

/-- The package of a finished frame stands after its dependencies. -/
theorem FramesOk.finished (hids : (packages.map LockedPackage.id).Nodup)
    (h : FramesOk packages visited none (frame :: below)) (hnext : frame.dependencies = []) :
    ∀ b, DependsOn packages frame.package b → b ∈ visited := by
  obtain ⟨⟨package, hpackage, hid, tried, heq, htried⟩, -⟩ := h
  rintro b ⟨package', hpackage', hid', hb⟩
  obtain rfl := List.inj_on_of_nodup_map hids hpackage hpackage' (hid.trans hid'.symm)
  obtain ⟨e, he, rfl⟩ := mem_map.mp hb
  rw [heq, hnext, List.append_nil] at he
  exact (htried e he).resolve_right nofun

/-- The packages from a recorded one to the top, closed by the edge that leads back to it. -/
theorem Inv.close (h : Inv packages s) (herror : s.error = none) (hstack : s.stack = frame :: below)
    (hdep : DependsOn packages frame.package target) {cycleStart : ℕ}
    (hposition : s.visitingPositions.get? target = some cycleStart) :
    IsCycle (DependsOn packages) (target :: s.path.drop (cycleStart + 1)) := by
  have hdrop := h.positions.drop_eq hposition
  have hchain := (h.frames herror).isChain
  refine ⟨List.cons_ne_nil _ _, ?_, ?_, ?_⟩ <;> rw [← hdrop]
  · exact h.positions.nodup.sublist (List.drop_sublist _ _)
  · exact hchain.drop cycleStart
  · intro first hfirst last hlast
    rw [hdrop] at hfirst
    obtain rfl := Option.some.inj hfirst
    have hlt := (List.getElem?_eq_some_iff.mp ((h.positions _ _).mp hposition)).1
    rw [List.getLast?_drop, if_neg (Nat.not_le_of_lt hlt), path_eq hstack,
      List.getLast?_concat] at hlast
    exact Option.some.inj hlast ▸ hdep

theorem Inv.step {s next : CycleSearch lib} (h : Inv packages s)
    (hstep : CycleSearch.step (packageMap packages) s = some next) : Inv packages next := by
  obtain ⟨herror, frame, below, hstack, hcases⟩ := step_cases hstep
  have hframes := h.frames herror
  rw [hstack] at hframes
  have hpath := path_eq hstack
  cases hcases with
  | leave hnext =>
    have hpositions := h.positions
    rw [hpath] at hpositions
    refine ⟨hpositions.pop fun b => SortedMap.get?_set _ _ _ _, fun _ => ?_, fun hids => ?_, h.error⟩
    · exact (hframes.2.2.mono (List.subset_append_left _ _)).emit (by simp)
    · exact (h.inOrder hids).concat (hframes.finished hids hnext)
  | skip dependency target rest hnext htarget =>
    exact ⟨h.positions_advance hstack rest, fun _ => hframes.advance hnext (.inl htarget) nofun,
      h.inOrder, h.error⟩
  | close dependency target rest cycleStart hnext hposition =>
    refine ⟨h.positions_advance hstack rest, nofun, h.inOrder, fun e he => ?_⟩
    obtain rfl := Option.some.inj he
    exact .cycle _ (h.close herror hstack (hframes.dependsOn hnext) hposition)
  | enter dependency target rest package hnext hvisited hposition hpackage =>
    obtain ⟨hmem, hid⟩ := packageMap_eq_some hpackage
    refine ⟨?_, fun _ => ⟨⟨package, hmem, rfl, [], rfl, nofun⟩, nofun, ?_⟩, h.inOrder, h.error⟩
    · have hnew : target ∉ s.path := h.positions.eq_none.mp hposition
      have hlength : s.stack.length = s.path.length := by simp [path]
      have hnext' : path { s with
          visitingPositions := s.visitingPositions.insert target s.stack.length
          stack := .new package :: { frame with dependencies := rest } :: below } =
            s.path ++ [target] := by
        rw [path_eq rfl, path_eq hstack, ← hid]
        simp [LockDfsFrame.new]
      rw [hnext']
      refine h.positions.push hnew fun b => ?_
      rw [← hlength]
      exact SortedMap.get?_insert _ _ _ _
    · refine hframes.advance hnext (.inr ?_) fun b hb => ?_
      · exact congrArg some hid
      · exact (Option.some.inj hb).symm.trans hid
  | dangle dependency target rest hnext hpackage =>
    refine ⟨h.positions_advance hstack rest, nofun, h.inOrder, fun e he => ?_⟩
    obtain rfl := Option.some.inj he
    obtain ⟨package, hmem, hid, htarget⟩ := hframes.dependsOn hnext
    exact hid ▸ .missing package dependency target hmem htarget (packageMap_eq_none hpackage)

/-- Trying the next edge of the frame on top leaves less work. -/
theorem work_advance {next : CycleSearch lib} (hstack : s.stack = frame :: below)
    {edge : DependencyName × PackageInstanceId} (hnext : frame.dependencies = edge :: rest)
    (hvisited : next.visited = s.visited)
    (hstack' : next.stack = { frame with dependencies := rest } :: below) :
    work (packageMap packages) next < work (packageMap packages) s := by
  have hpath : next.path = s.path := by rw [path_eq hstack, path_eq hstack']
  have hnew : next.isNew = s.isNew := by
    funext entry
    rw [isNew, isNew, hvisited, hpath]
  rw [work, work, hnew, hstack, hstack', map_cons, map_cons, sum_cons,
    sum_cons, frameWork, frameWork, hnext, List.length_cons]
  dsimp only
  omega

theorem work_lt {next : CycleSearch lib} (h : Inv packages s)
    (hstep : step (packageMap packages) s = some next) :
    work (packageMap packages) next < work (packageMap packages) s := by
  obtain ⟨-, frame, below, hstack, hcases⟩ := step_cases hstep
  cases hcases with
  | leave hnext =>
    have hopen : ∀ entry : PackageInstanceId × LockedPackage lib,
        isNew { s with
          visited := s.visited ++ [frame.package]
          visitingPositions := s.visitingPositions.set frame.package none
          stack := below } entry = true → s.isNew entry = true := by
      intro entry hentry
      simp only [isNew, path, hstack, map_cons, mem_reverse, mem_cons,
        mem_append, not_or, Bool.and_eq_true, decide_eq_true_eq] at hentry ⊢
      exact ⟨hentry.1.1, hentry.1.2.1, hentry.2⟩
    refine Nat.add_lt_add_of_le_of_lt (openWeight_mono hopen) ?_
    rw [hstack, map_cons, sum_cons]
    exact Nat.lt_add_of_pos_left (Nat.succ_pos _)
  | skip dependency target rest hnext htarget => exact work_advance hstack hnext rfl rfl
  | close dependency target rest cycleStart hnext hposition =>
    exact work_advance hstack hnext rfl rfl
  | dangle dependency target rest hnext hpackage => exact work_advance hstack hnext rfl rfl
  | enter dependency target rest package hnext hvisited hposition hpackage =>
    obtain ⟨-, hid⟩ := packageMap_eq_some hpackage
    have hnew := h.positions.eq_none.mp hposition
    have hentry := SortedMap.get?_eq_some.mp hpackage
    -- The package loses its work, one more than the frame it comes to stand in.
    have hopen : s.isNew (target, package) = true := by simp [isNew, hvisited, hnew]
    have hclosed : isNew { s with
        visitingPositions := s.visitingPositions.insert target s.stack.length
        stack := .new package :: { frame with dependencies := rest } :: below }
          (target, package) = false := by simp [isNew, path, LockDfsFrame.new, hid]
    have hsub : ∀ entry, isNew { s with
        visitingPositions := s.visitingPositions.insert target s.stack.length
        stack := .new package :: { frame with dependencies := rest } :: below } entry = true →
          s.isNew entry = true := by
      intro entry h
      simp only [isNew, path, hstack, map_cons, mem_reverse, mem_cons, not_or,
        Bool.and_eq_true, decide_eq_true_eq] at h ⊢
      exact ⟨h.1, h.2.2⟩
    have hwork := openWeight_close (w := entryWork) hentry hopen hclosed hsub
    have hold : (s.stack.map frameWork).sum = rest.length + 2 + (below.map frameWork).sum := by
      rw [hstack, map_cons, sum_cons, frameWork, hnext, List.length_cons]
    rw [work, work, hold]
    simp only [map_cons, sum_cons, frameWork, entryWork, LockDfsFrame.new] at hwork ⊢
    omega

/-- The work bounds the iterations: the loop is left because its condition fails. -/
theorem loop_ends (h : Inv packages s) :
    step (packageMap packages)
      (Loop.runWhile (step (packageMap packages)) (work (packageMap packages) s) s) = none :=
  Loop.runWhile_stops (Inv packages) (work (packageMap packages)) (fun _ _ h hs => h.step hs)
    (fun _ _ h hs => work_lt h hs) h le_rfl

theorem Inv.enter {s : CycleSearch lib} (h : Inv packages s) (hstack : s.stack = [])
    {package : LockedPackage lib} (hpackage : package ∈ packages) :
    Inv packages (s.enter package) := by
  refine ⟨?_, fun _ => ?_, h.inOrder, h.error⟩
  · have hpositions := h.positions
    rw [path, hstack] at hpositions
    rw [path, CycleSearch.enter, hstack]
    exact hpositions.push List.not_mem_nil fun b => SortedMap.get?_insert _ _ _ _
  · rw [CycleSearch.enter, hstack]
    exact ⟨⟨package, hpackage, rfl, [], rfl, nofun⟩, nofun, trivial⟩

/-- Every package visited or on the stack stays so. -/
def Keeps (s t : CycleSearch lib) : Prop :=
  ∀ a, a ∈ s.visited ∨ a ∈ s.path → a ∈ t.visited ∨ a ∈ t.path

theorem mem_path :
    a ∈ s.path ↔ a ∈ s.stack.map LockDfsFrame.package := mem_reverse

theorem step_keeps {next : CycleSearch lib} (h : step (packageMap packages) s = some next) :
    Keeps s next := by
  obtain ⟨-, frame, below, hstack, hcases⟩ := step_cases h
  intro a ha
  rw [mem_path, hstack, map_cons, mem_cons] at ha
  cases hcases with
  | leave =>
    rw [mem_path, mem_append, mem_singleton]
    tauto
  | skip | close | dangle =>
    rw [mem_path, map_cons, mem_cons]
    exact ha
  | enter =>
    rw [mem_path, map_cons, map_cons, mem_cons, mem_cons]
    tauto

/-- Once the stack is empty, the loop has visited what was on it. -/
theorem loop_keeps {fuel : ℕ}
    (hstack : (Loop.runWhile (step (packageMap packages)) fuel s).stack = [])
    (ha : a ∈ s.visited ∨ a ∈ s.path) :
    a ∈ (Loop.runWhile (step (packageMap packages)) fuel s).visited := by
  have hkeeps : Keeps s (Loop.runWhile (step (packageMap packages)) fuel s) :=
    Loop.runWhile_relates Keeps (fun _ _ ha => ha) (fun _ _ _ hst htu a ha => htu a (hst a ha))
      (fun _ _ hs => step_keeps hs) fuel s
  refine (hkeeps a ha).resolve_right fun hpath => ?_
  rw [path, hstack] at hpath
  exact nomatch hpath

/-- What holds between the searches from two packages. -/
structure Settled (packages : List (LockedPackage lib)) (s : CycleSearch lib) : Prop where
  inv : Inv packages s
  stack : s.error = none → s.stack = []

theorem visitPackage_settled (h : Settled packages s) (hpackage : package ∈ packages) :
    Settled packages (visitPackage (packageMap packages) s package) ∧
      ((visitPackage (packageMap packages) s package).error = none → s.error = none ∧
        s.visited ⊆ (visitPackage (packageMap packages) s package).visited ∧
        package.id ∈ (visitPackage (packageMap packages) s package).visited) := by
  unfold visitPackage
  split_ifs with hskip
  · refine ⟨h, fun herror => ⟨herror, List.Subset.refl _, hskip.resolve_left ?_⟩⟩
    simp [herror]
  · rw [not_or, Option.not_isSome_iff_eq_none] at hskip
    have hinv := h.inv.enter (h.stack hskip.1) hpackage
    have hstops := step_eq_none (loop_ends hinv)
    refine ⟨⟨Loop.runWhile_invariant _ (fun _ _ h hs => h.step hs) _ hinv, fun herror => ?_⟩,
      fun herror => ⟨hskip.1, fun a ha => ?_, ?_⟩⟩ <;>
      have hstack := hstops.resolve_left fun hne => hne herror
    · exact hstack
    · exact loop_keeps hstack (.inl ha)
    · exact loop_keeps hstack (.inr (by simp [path, CycleSearch.enter, LockDfsFrame.new]))

theorem search_settled (visited : List (LockedPackage lib)) (hsub : visited ⊆ packages) :
    Settled packages (search packages visited) ∧ ((search packages visited).error = none →
      ∀ package ∈ visited, package.id ∈ (search packages visited).visited) := by
  induction visited using List.reverseRecOn with
  | nil =>
    refine ⟨⟨⟨fun a i => ?_, fun _ => trivial, fun _ => inOrder_nil, nofun⟩, fun _ => rfl⟩,
      fun _ => nofun⟩
    exact iff_of_false nofun nofun
  | append_singleton visited package ih =>
    obtain ⟨hsettled, hvisited⟩ := ih fun p hp => hsub (List.mem_append_left _ hp)
    obtain ⟨hnext, hall⟩ := visitPackage_settled hsettled (hsub (by simp : package ∈ _))
    unfold search at hnext hall hvisited ⊢
    rw [List.foldl_append, List.foldl_cons, List.foldl_nil]
    refine ⟨hnext, fun herror p hp => ?_⟩
    obtain ⟨hbefore, hkept, hpackage⟩ := hall herror
    rcases mem_append.mp hp with hp | hp
    · exact hkept (hvisited hbefore p hp)
    · exact mem_singleton.mp hp ▸ hpackage

end CycleSearch

/-- What the search reports is a genuine cycle, or a dependency without an entry. -/
theorem rejectDependencyCycles_error {error : LockValidationError lib}
    (h : rejectDependencyCycles packages = .error error) : CycleSearch.Genuine packages error := by
  have hsettled := (CycleSearch.search_settled packages (List.Subset.refl packages)).1
  unfold rejectDependencyCycles at h
  split at h
  case h_1 error' herror =>
    cases h
    exact hsettled.inv.error error herror
  case h_2 => cases h

/-- Entries with distinct ids that pass the search stand in an order of their dependencies. -/
theorem rejectDependencyCycles_order (hids : (packages.map LockedPackage.id).Nodup)
    (h : rejectDependencyCycles packages = .ok ()) :
    ∃ order, InOrder (DependsOn packages) order ∧ ∀ package ∈ packages, package.id ∈ order := by
  obtain ⟨hsettled, hvisited⟩ := CycleSearch.search_settled packages (List.Subset.refl packages)
  unfold rejectDependencyCycles at h
  split at h
  case h_1 => cases h
  case h_2 herror => exact ⟨_, hsettled.inv.inOrder hids, hvisited herror⟩

theorem rejectDependencyCycles_ok (hids : (packages.map LockedPackage.id).Nodup)
    (h : rejectDependencyCycles packages = .ok ()) (a : PackageInstanceId) :
    ¬ Relation.TransGen (DependsOn packages) a a := by
  obtain ⟨order, horder, hall⟩ := rejectDependencyCycles_order hids h
  intro hcycle
  obtain ⟨b, ⟨package, hpackage, rfl, -⟩, -⟩ := Relation.TransGen.head'_iff.mp hcycle
  exact horder.not_transGen _ (hall package hpackage) hcycle

end ProvenGraphcal
