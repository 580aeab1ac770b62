import ProvenGraphcal.Package.CycleSearch

/-!
# When a lockfile is valid

Each check succeeds exactly when its condition holds, given the checks before it, and the whole
validation exactly when all conditions do.
-/

open ProvenGraphcal.Checked (bind_eq_ok forM_eq_error forM_eq_ok reject_eq_error reject_eq_ok)

namespace ProvenGraphcal

open Relation

variable {Host : Type} {lib : UrlLibrary Host} {packages : List (LockedPackage lib)}

variable {package : LockedPackage lib}

theorem packageMap_get (hids : (packages.map LockedPackage.id).Nodup) (h : package ∈ packages) :
    (packageMap packages).get? package.id = some package := by
  have hkeys : ((packages.map fun package => (package.id, package)).map Prod.fst).Nodup := by
    rw [List.map_map]
    exact hids
  rw [SortedMap.get?_eq_some]
  exact (SortedMap.ofList_perm hkeys).mem_iff.mpr (List.mem_map_of_mem h)

theorem mem_pushedTargets (hids : (packages.map LockedPackage.id).Nodup) {a b : PackageInstanceId} :
    b ∈ pushedTargets (packageMap packages) a ↔ DependsOn packages a b := by
  unfold pushedTargets
  constructor
  · intro h
    split at h
    case h_1 package hpackage =>
      obtain ⟨hmem, hid⟩ := packageMap_eq_some hpackage
      exact ⟨package, hmem, hid, List.mem_reverse.mp h⟩
    case h_2 => cases h
  · rintro ⟨package, hmem, rfl, hb⟩
    rw [packageMap_get hids hmem]
    exact List.mem_reverse.mpr hb

variable {root : PackageInstanceId}

theorem mem_reachablePackages (hids : (packages.map LockedPackage.id).Nodup)
    {a : PackageInstanceId} :
    a ∈ reachablePackages packages root ↔ ReflTransGen (DependsOn packages) root a := by
  have hclosed : ∀ b ∈ root :: packages.flatMap LockedPackage.targets,
      ∀ c ∈ pushedTargets (packageMap packages) b,
        c ∈ root :: packages.flatMap LockedPackage.targets := by
    intro b _ c hc
    obtain ⟨package, hmem, -, hc⟩ := (mem_pushedTargets hids).mp hc
    exact List.mem_cons_of_mem _ (List.mem_flatMap.mpr ⟨package, hmem, hc⟩)
  have hroot : ∀ b ∈ [root], b ∈ root :: packages.flatMap LockedPackage.targets := by simp
  have hrel : (fun b c => c ∈ pushedTargets (packageMap packages) b) = DependsOn packages := by
    funext b c
    exact propext (mem_pushedTargets hids)
  rw [reachablePackages, Worklist.mem_run_visited hroot hclosed, Worklist.Reached, hrel]
  simp

theorem rejectUnreachablePackages_eq_ok (hids : (packages.map LockedPackage.id).Nodup) :
    rejectUnreachablePackages packages root = .ok () ↔
      ∀ package ∈ packages, ReflTransGen (DependsOn packages) root package.id := by
  have hmin : rejectUnreachablePackages packages root = .ok () ↔
      ((packages.map LockedPackage.id).filter
        (· ∉ reachablePackages packages root)).min? = none := by
    unfold rejectUnreachablePackages
    dsimp only
    split
    case h_1 package hsome =>
      refine iff_of_false nofun fun hnone => ?_
      rw [hsome] at hnone
      cases hnone
    case h_2 hnone => exact iff_of_true rfl hnone
  rw [hmin, List.min?_eq_none_iff, List.filter_eq_nil_iff, List.forall_mem_map]
  refine forall₂_congr fun package _ => ?_
  rw [decide_eq_true_eq, not_not, mem_reachablePackages hids]

/-- The Git source of a package and the digest it pins. -/
def LockedPackage.gitPin (package : LockedPackage lib) :
    Option (CanonicalGitSource lib × Sha256Digest) :=
  match package.source with
  | .root => none
  | .git url _ commit treeHashes => some (⟨url, commit⟩, treeHashes.sha256)

variable [DecidableEq Host]

/-- The recorded digest of a source. -/
def pinned (sources : List (CanonicalGitSource lib × Sha256Digest × PackageInstanceId))
    (source : CanonicalGitSource lib) : Option Sha256Digest :=
  (sources.lookup source).map Prod.fst

/-- A package pins the digest recorded for its source. -/
def FollowsPins (recorded : CanonicalGitSource lib → Option Sha256Digest)
    (package : LockedPackage lib) : Prop :=
  ∀ source digest, package.gitPin = some (source, digest) → ∀ d ∈ recorded source, d = digest

/-- Two packages of one source pin one digest. -/
def AgreeOnPins (package package' : LockedPackage lib) : Prop :=
  ∀ source digest digest', package.gitPin = some (source, digest) →
    package'.gitPin = some (source, digest') → digest = digest'

variable {sources : List (CanonicalGitSource lib × Sha256Digest × PackageInstanceId)}

theorem pinGitSource_eq_ok (h : FollowsPins (pinned sources) package) :
    ∃ next, pinGitSource sources package = .ok next ∧ ∀ source digest,
      pinned next source = some digest ↔
        pinned sources source = some digest ∨ package.gitPin = some (source, digest) := by
  unfold FollowsPins at h
  unfold pinGitSource
  cases hsource : package.source with
  | root => exact ⟨sources, rfl, by simp [LockedPackage.gitPin, hsource]⟩
  | git url requestedRev commit treeHashes =>
    have hpin : package.gitPin = some (⟨url, commit⟩, treeHashes.sha256) := by
      rw [LockedPackage.gitPin, hsource]
    rw [hpin] at h ⊢
    dsimp only
    cases hlookup : sources.lookup ⟨url, commit⟩ with
    | some entry =>
      obtain ⟨expected, first⟩ := entry
      have hpinned : pinned sources ⟨url, commit⟩ = some expected := by rw [pinned, hlookup]; rfl
      have hdigest := h _ _ rfl expected hpinned
      refine ⟨sources, if_neg (not_not.mpr hdigest), fun source digest => ?_⟩
      refine ⟨.inl, fun hor => hor.elim id fun hnew => ?_⟩
      cases hnew
      rw [hpinned, hdigest]
    | none =>
      refine ⟨_, rfl, fun source digest => ?_⟩
      rw [pinned, List.lookup_cons, pinned]
      by_cases heq : source = ⟨url, commit⟩
      · simp [heq, hlookup]
      · simp [beq_false_of_ne heq, Ne.symm heq]

theorem pinGitSource_ok {next : List (CanonicalGitSource lib × Sha256Digest × PackageInstanceId)}
    (h : pinGitSource sources package = .ok next) :
    FollowsPins (pinned sources) package := by
  intro source digest hpin d hd
  unfold pinGitSource at h
  unfold LockedPackage.gitPin at hpin
  cases hsource : package.source with
  | root =>
    rw [hsource] at hpin
    cases hpin
  | git url requestedRev commit treeHashes =>
    rw [hsource] at h hpin
    cases hpin
    dsimp only at h
    obtain ⟨⟨expected, first⟩, hlookup, rfl⟩ := Option.map_eq_some_iff.mp hd
    rw [hlookup] at h
    dsimp only at h
    by_contra hne
    rw [if_pos hne] at h
    cases h

/-- The loop over the packages succeeds when they follow the pins recorded before it and agree
with each other. -/
theorem pinAll_ok :
    (∃ next, packages.foldlM pinGitSource sources = .ok next) ↔
      (∀ package ∈ packages, FollowsPins (pinned sources) package) ∧
        packages.Pairwise AgreeOnPins := by
  induction packages generalizing sources with
  | nil => exact iff_of_true ⟨sources, rfl⟩ ⟨nofun, .nil⟩
  | cons package rest ih =>
    rw [List.pairwise_cons, List.forall_mem_cons]
    constructor
    · rintro ⟨result, hresult⟩
      rw [List.foldlM_cons, bind_eq_ok] at hresult
      obtain ⟨next, hnext, hrest⟩ := hresult
      have hfollows := pinGitSource_ok hnext
      obtain ⟨next', hnext', hpinned⟩ := pinGitSource_eq_ok hfollows
      obtain rfl := Except.ok.inj (hnext.symm.trans hnext')
      obtain ⟨hrest, hagree⟩ := ih.mp ⟨result, hrest⟩
      refine ⟨⟨hfollows, fun p hp source digest hpin d hd => ?_⟩, fun p hp source d d' hd hd' => ?_,
        hagree⟩
      · exact hrest p hp source digest hpin d ((hpinned source d).mpr (.inl hd))
      · exact hrest p hp source d' hd' d ((hpinned source d).mpr (.inr hd))
    · rintro ⟨⟨hfollows, hrest⟩, hfirst, hagree⟩
      obtain ⟨next, hnext, hpinned⟩ := pinGitSource_eq_ok hfollows
      have hnextOk : ∃ result, rest.foldlM pinGitSource next = .ok result := by
        refine ih.mpr ⟨fun p hp source digest hpin d hd => ?_, hagree⟩
        rcases (hpinned source d).mp hd with hd | hd
        · exact hrest p hp source digest hpin d hd
        · exact hfirst p hp source d digest hd hpin
      obtain ⟨result, hresult⟩ := hnextOk
      exact ⟨result, by rw [List.foldlM_cons, hnext]; exact hresult⟩

theorem pinGitSources_eq_ok : (∃ sources, packages.foldlM pinGitSource [] = .ok sources) ↔
    ∀ package ∈ packages, ∀ package' ∈ packages, AgreeOnPins package package' := by
  rw [pinAll_ok]
  have hsymm : Std.Symm (@AgreeOnPins Host lib) :=
    ⟨fun p q h source d d' hd hd' => (h source d' d hd' hd).symm⟩
  have hrefl : ∀ p ∈ packages, AgreeOnPins p p := fun p _ source d d' hd hd' => by
    rw [hd] at hd'
    exact congrArg Prod.snd (Option.some.inj hd')
  constructor
  · intro h p hp q hq
    exact h.2.forall_of_forall hrefl hp hq
  · exact fun h => ⟨fun p _ _ _ _ d hd => (nomatch hd), List.pairwise_of_forall_mem_list h⟩

/-- The versions of a lockfile are the supported and the active ones. -/
structure Lockfile.Current (lockfile : Lockfile lib) (graphcal stdlib : Text) : Prop where
  lock : lockfile.lockVersion = ProvenGraphcal.lockVersion
  graphcal : lockfile.graphcalVersion = graphcal
  stdlib : lockfile.stdlibVersion = stdlib

/-- No package has a dependency under its own name. -/
def Lockfile.NoSelfAlias (lockfile : Lockfile lib) : Prop :=
  ∀ package ∈ lockfile.packages, package.dependencies.get? package.name.toDependency = none

/-- The entries form a graph of packages without duplicates, rooted in the root package. -/
structure Lockfile.WellFormed (lockfile : Lockfile lib) : Prop where
  ids : (lockfile.packages.map LockedPackage.id).Nodup
  root : ∃ package ∈ lockfile.packages, package.id = lockfile.root
  rootSource : ∀ package ∈ lockfile.packages, package.source = .root ↔ package.id = lockfile.root
  targets : ∀ package ∈ lockfile.packages, ∀ target ∈ package.targets,
    ∃ entry ∈ lockfile.packages, entry.id = target
  acyclic : ∀ id, ¬ TransGen (DependsOn lockfile.packages) id id
  reachable : ∀ package ∈ lockfile.packages,
    ReflTransGen (DependsOn lockfile.packages) lockfile.root package.id
  digests : ∀ package ∈ lockfile.packages, ∀ package' ∈ lockfile.packages,
    AgreeOnPins package package'
  canonical : (lockfile.packages.map LockedPackage.canonicalInstance).Nodup
  plugins : (lockfile.plugins.map LockedPlugin.path).Nodup

variable {u : Unit}

omit [DecidableEq Host] in
theorem rejectSelfAlias_eq_ok :
    rejectSelfAlias package = .ok u ↔
      package.dependencies.get? package.name.toDependency = none := by
  rw [rejectSelfAlias, reject_eq_ok, Bool.not_eq_true, Option.isSome_eq_false_iff,
    Option.isNone_iff_eq_none]

omit [DecidableEq Host] in
theorem checkSource_eq_ok :
    checkSource root package = .ok u ↔ (package.source = .root ↔ package.id = root) := by
  unfold checkSource
  by_cases hid : package.id = root <;> cases hsource : package.source <;> simp [hid]

omit [DecidableEq Host] in
theorem checkTargets_eq_ok {ids : List PackageInstanceId} :
    checkTargets ids package = .ok u ↔ ∀ target ∈ package.targets, target ∈ ids := by
  rw [checkTargets, forM_eq_ok, LockedPackage.targets, List.forall_mem_map]
  refine forall₂_congr fun e _ => ?_
  rw [reject_eq_ok, not_not]

omit [DecidableEq Host] in
/-- On entries with distinct ids whose targets exist, the search succeeds when there is no cycle. -/
theorem rejectDependencyCycles_eq_ok (htargets : ∀ package ∈ packages,
      ∀ target ∈ package.targets, target ∈ packages.map LockedPackage.id)
    (hacyclic : ∀ id, ¬ TransGen (DependsOn packages) id id) :
    rejectDependencyCycles packages = .ok u := by
  cases hresult : rejectDependencyCycles packages with
  | ok _ => rfl
  | error error =>
    cases rejectDependencyCycles_error hresult with
    | cycle cycle hcycle =>
      obtain ⟨id, -, hloop⟩ := hcycle.transGen
      exact absurd hloop (hacyclic id)
    | missing package dependency target hpackage htarget hmissing =>
      exact absurd (htargets package hpackage target htarget) hmissing

variable {graphcal stdlib : Text}

theorem check_eq_ok {lockfile : Lockfile lib} :
    lockfile.check graphcal stdlib = .ok () ↔
      lockfile.Current graphcal stdlib ∧ lockfile.NoSelfAlias ∧ lockfile.WellFormed := by
  have hmem : ∀ {id : PackageInstanceId} {l : List (LockedPackage lib)},
      id ∈ l.reverse.map LockedPackage.id ↔ ∃ package ∈ l, package.id = id := by
    intro id l
    rw [List.map_reverse, List.mem_reverse, List.mem_map]
  unfold Lockfile.check
  simp only [bind_eq_ok, reject_eq_ok, forM_eq_ok, Checked.distinct_eq_ok,
    rejectSelfAlias_eq_ok, checkSource_eq_ok, checkTargets_eq_ok, ne_eq, not_not, exists_const]
  constructor
  · rintro ⟨hlock, hgraphcal, hstdlib, entries, ⟨hids, halias, rfl⟩, hroot, hsources, htargets,
      _, hcycles, _, hreachable, _, hpins, _, ⟨hcanonical, -, -⟩, _, ⟨hplugins, -, -⟩, -⟩
    have htargets' : ∀ package ∈ lockfile.packages, ∀ target ∈ package.targets,
        ∃ entry ∈ lockfile.packages, entry.id = target :=
      fun package hpackage target htarget => hmem.mp (htargets package hpackage target htarget)
    refine ⟨⟨hlock, hgraphcal, hstdlib⟩, halias, hids, hmem.mp hroot, hsources, htargets', ?_, ?_,
      ?_, hcanonical, hplugins⟩
    · exact rejectDependencyCycles_ok hids hcycles
    · exact (rejectUnreachablePackages_eq_ok hids).mp hreachable
    · exact pinGitSources_eq_ok.mp ⟨_, hpins⟩
  · rintro ⟨⟨hlock, hgraphcal, hstdlib⟩, halias, h⟩
    have htargets : ∀ package ∈ lockfile.packages, ∀ target ∈ package.targets,
        target ∈ lockfile.packages.map LockedPackage.id :=
      fun package hpackage target htarget =>
        List.mem_map.mpr (h.targets package hpackage target htarget)
    obtain ⟨sources, hpins⟩ := pinGitSources_eq_ok.mpr h.digests
    refine ⟨hlock, hgraphcal, hstdlib, _, ⟨h.ids, halias, rfl⟩, hmem.mpr h.root, h.rootSource,
      fun package hpackage target htarget => hmem.mpr (h.targets package hpackage target htarget),
      (), ?_, (), ?_, sources, hpins, _, ⟨h.canonical, fun _ _ => trivial, rfl⟩, _,
      ⟨h.plugins, fun _ _ => trivial, rfl⟩, rfl⟩
    · exact rejectDependencyCycles_eq_ok htargets h.acyclic
    · exact (rejectUnreachablePackages_eq_ok h.ids).mpr h.reachable

/-! ## Reported cycles -/

omit [DecidableEq Host] in
/-- A check of items that never reports a cycle, over a list. -/
theorem foldlM_ne_cycle {α β : Type} {f : β → α → Except (LockValidationError lib) β}
    (h : ∀ s a cycle, f s a ≠ .error (.dependencyCycle cycle)) {l : List α} {init : β}
    (cycle : LockedDependencyCycle) : l.foldlM f init ≠ .error (.dependencyCycle cycle) := by
  intro herror
  obtain ⟨a, -, s, ha⟩ := Checked.foldlM_eq_error herror
  exact h s a cycle ha

omit [DecidableEq Host] in
theorem rejectSelfAlias_ne_cycle (package : LockedPackage lib) (cycle : LockedDependencyCycle) :
    rejectSelfAlias package ≠ .error (.dependencyCycle cycle) := fun h =>
  nomatch (reject_eq_error.mp h).2

omit [DecidableEq Host] in
theorem checkSource_ne_cycle (root : PackageInstanceId) (package : LockedPackage lib)
    (cycle : LockedDependencyCycle) :
    checkSource root package ≠ .error (.dependencyCycle cycle) := by
  unfold checkSource
  split <;> exact nofun

omit [DecidableEq Host] in
theorem checkTargets_ne_cycle (ids : List PackageInstanceId) (package : LockedPackage lib)
    (cycle : LockedDependencyCycle) :
    checkTargets ids package ≠ .error (.dependencyCycle cycle) := by
  intro h
  obtain ⟨e, -, he⟩ := forM_eq_error h
  exact nomatch (reject_eq_error.mp he).2

omit [DecidableEq Host] in
theorem rejectUnreachablePackages_ne_cycle (packages : List (LockedPackage lib))
    (root : PackageInstanceId) (cycle : LockedDependencyCycle) :
    rejectUnreachablePackages packages root ≠ .error (.dependencyCycle cycle) := by
  unfold rejectUnreachablePackages
  dsimp only
  split <;> exact nofun

theorem pinGitSource_ne_cycle
    (sources : List (CanonicalGitSource lib × Sha256Digest × PackageInstanceId))
    (package : LockedPackage lib) (cycle : LockedDependencyCycle) :
    pinGitSource sources package ≠ .error (.dependencyCycle cycle) := by
  unfold pinGitSource
  split
  · exact nofun
  · split
    · split_ifs <;> exact nofun
    · exact nofun

omit [DecidableEq Host] in
/-- Inserting items reports a cycle only where their own check does. -/
theorem insertDistinct_ne_cycle {α κ : Type} [DecidableEq κ] {key : α → κ}
    {duplicate : α → α → LockValidationError lib} {check : α → Except (LockValidationError lib) Unit}
    (hduplicate : ∀ a b cycle, duplicate a b ≠ .dependencyCycle cycle)
    (hcheck : ∀ a cycle, check a ≠ .error (.dependencyCycle cycle)) (seen : List α) (a : α)
    (cycle : LockedDependencyCycle) :
    Checked.insertDistinct key duplicate check seen a ≠ .error (.dependencyCycle cycle) := by
  intro h
  rcases Checked.insertDistinct_eq_error h with ⟨first, -, heq⟩ | hcycle
  · exact hduplicate first a cycle heq.symm
  · exact hcheck a cycle hcycle

/-- Only the search reports a cycle. -/
theorem check_eq_cycle {lockfile : Lockfile lib} {cycle : LockedDependencyCycle}
    (h : lockfile.check graphcal stdlib = .error (.dependencyCycle cycle)) :
    rejectDependencyCycles lockfile.packages = .error (.dependencyCycle cycle) := by
  unfold Lockfile.check at h
  simp only [Checked.bind_eq_error, reject_eq_error, reduceCtorEq, and_false, false_or]
    at h
  obtain ⟨_, -, _, -, _, -, h⟩ := h
  rcases h with h | ⟨_, -, _, -, h⟩
  · exact absurd h (foldlM_ne_cycle (insertDistinct_ne_cycle (by simp) rejectSelfAlias_ne_cycle) cycle)
  rcases h with h | ⟨_, -, h⟩
  · obtain ⟨package, -, h⟩ := forM_eq_error h
    exact absurd h (checkSource_ne_cycle _ package cycle)
  rcases h with h | ⟨_, -, h⟩
  · obtain ⟨package, -, h⟩ := forM_eq_error h
    exact absurd h (checkTargets_ne_cycle _ package cycle)
  rcases h with h | ⟨_, -, h⟩
  · exact h
  rcases h with h | ⟨_, -, h⟩
  · exact absurd h (rejectUnreachablePackages_ne_cycle _ _ cycle)
  rcases h with h | ⟨_, -, h⟩
  · exact absurd h (foldlM_ne_cycle pinGitSource_ne_cycle cycle)
  rcases h with h | ⟨_, -, h⟩
  · exact absurd h (foldlM_ne_cycle (insertDistinct_ne_cycle (by simp) (by simp)) cycle)
  rcases h with h | ⟨_, -, h⟩
  · exact absurd h (foldlM_ne_cycle (insertDistinct_ne_cycle (by simp) (by simp)) cycle)
  · cases h

/-- The loops of the search over a list of entries are left because their condition fails. -/
def CycleSearch.Ends (packages : List (LockedPackage lib)) : Prop :=
  ∀ before package after, packages = before ++ package :: after →
    (CycleSearch.search packages before).error = none →
    CycleSearch.step (packageMap packages) (Loop.runWhile (CycleSearch.step (packageMap packages))
      (CycleSearch.work (packageMap packages) ((CycleSearch.search packages before).enter package))
      ((CycleSearch.search packages before).enter package)) = none

omit [DecidableEq Host] in
theorem search_ends (packages : List (LockedPackage lib)) : CycleSearch.Ends packages := by
  rintro before package after rfl herror
  have hbefore : before ⊆ before ++ package :: after := List.subset_append_left before _
  have hsettled := (CycleSearch.search_settled before hbefore).1
  exact CycleSearch.loop_ends (hsettled.inv.enter (hsettled.stack herror) (by simp))

theorem validated_eq_ok {lockfile : Lockfile lib} :
    (∃ valid, lockfile.validated graphcal stdlib = .ok valid) ↔
      lockfile.check graphcal stdlib = .ok () := by
  unfold Lockfile.validated
  split
  case h_1 h => exact iff_of_true ⟨_, rfl⟩ h
  case h_2 error h =>
    rw [h]
    exact iff_of_false (fun ⟨_, hvalid⟩ => nomatch hvalid) nofun

theorem validated_eq_error {lockfile : Lockfile lib} {error : LockValidationError lib}
    (h : lockfile.validated graphcal stdlib = .error error) :
    lockfile.check graphcal stdlib = .error error := by
  unfold Lockfile.validated at h
  split at h
  case h_1 => cases h
  case h_2 error' hcheck =>
    cases h
    exact hcheck

/-- Validation succeeds exactly on current, well-formed lockfiles without a self-alias; its search
ends, and a cycle it reports is there. -/
theorem validated_spec (lockfile : Lockfile lib) (graphcal stdlib : Text) :
    ((∃ valid, lockfile.validated graphcal stdlib = .ok valid) ↔
      lockfile.Current graphcal stdlib ∧ lockfile.NoSelfAlias ∧ lockfile.WellFormed) ∧
    CycleSearch.Ends lockfile.packages ∧
    ∀ cycle, lockfile.validated graphcal stdlib = .error (.dependencyCycle cycle) →
      DependencyOrder.IsCycle (DependsOn lockfile.packages) (cycle.start :: cycle.successors) := by
  refine ⟨validated_eq_ok.trans check_eq_ok, search_ends _, fun cycle h => ?_⟩
  have herror := rejectDependencyCycles_error (check_eq_cycle (validated_eq_error h))
  cases herror with
  | cycle _ hcycle => exact hcycle

/-! ## A package aliased to itself -/

namespace SelfAlias

/-- A library that takes every text for a host, and no text for a URL. -/
def urls : UrlLibrary Text := ⟨fun _ => none, some, id⟩

def commit : GitCommitHash := ⟨List.replicate 40 'a', by decide, by decide⟩

def digest : SourceTreeHashes := ⟨List.replicate 32 0, by decide⟩

def url : GitUrl urls :=
  ⟨.scp "git".toList "host".toList ["units".toList], "git@host:units".toList, by decide +kernel⟩

def source : PackageSource urls := .git url commit commit digest

def sourceDir : PackageSourceDirectory := ⟨["src".toList], "src".toList, by decide +kernel⟩

def appId : PackageInstanceId := ⟨"app".toList, by decide⟩

def unitsId : PackageInstanceId := ⟨"units".toList, by decide⟩

def app : PackageName := ⟨"app".toList, by decide⟩

def units : PackageName := ⟨"units".toList, by decide⟩

def unitsAlias : DependencyName := ⟨"units".toList, by decide⟩

/-- The package `app` has the dependency `units` under the alias `app`. -/
def lockfile : Lockfile urls where
  lockVersion := ProvenGraphcal.lockVersion
  createdBy := []
  graphcalVersion := []
  stdlibVersion := []
  root := appId
  packages := [
    { id := appId
      name := app
      sourceDir := sourceDir
      source := .root
      dependencies := .ofList [(⟨"app".toList, by decide⟩, unitsId)] },
    { id := unitsId
      name := units
      sourceDir := sourceDir
      source := source
      dependencies := .empty }]
  plugins := []

/-- The lockfile is well formed, and its validation fails. -/
theorem wellFormed_not_validated : lockfile.WellFormed ∧ lockfile.Current [] [] ∧
    ¬ ∃ valid, lockfile.validated [] [] = .ok valid := by
  have hids : (lockfile.packages.map LockedPackage.id).Nodup := by decide +kernel
  refine ⟨⟨hids, ?_, ?_, ?_, ?_, ?_, ?_, by decide +kernel, List.nodup_nil⟩,
    ⟨rfl, rfl, rfl⟩, fun h => ?_⟩
  · decide +kernel
  · exact fun package hpackage => checkSource_eq_ok.mp
      (forM_eq_ok.mp (by decide +kernel :
        forM lockfile.packages (checkSource lockfile.root) = .ok ()) package hpackage)
  · decide +kernel
  · exact rejectDependencyCycles_ok hids (by decide +kernel)
  · exact (rejectUnreachablePackages_eq_ok hids).mp (by decide +kernel)
  · have hpins : (lockfile.packages.foldlM pinGitSource []).isOk = true := by decide +kernel
    cases hresult : lockfile.packages.foldlM pinGitSource [] with
    | ok sources => exact pinGitSources_eq_ok.mp ⟨sources, hresult⟩
    | error error =>
      rw [hresult] at hpins
      cases hpins
  · have hcheck := validated_eq_ok.mp h
    have hfails : lockfile.check [] [] ≠ .ok () := by decide +kernel
    exact hfails hcheck

end SelfAlias

/-!
# Package instances as trees

The instance that an entry denotes is the tree of its dependencies: name, directory and source of
the package, and under each alias the tree of the target. The duplicate check compares entries one
level deep; over an acyclic graph this separates whole trees.
-/

open DependencyOrder

variable {Host : Type} {lib : UrlLibrary Host}

/-- A complete dependency tree. -/
inductive PackageTree (lib : UrlLibrary Host)
  | node (name : PackageName) (sourceDir : PackageSourceDirectory)
    (source : CanonicalPackageSource lib) (children : List (DependencyName × PackageTree lib))

mutual

/-- The tree is the complete dependency tree of the entry. -/
def PackageTree.Of (packages : List (LockedPackage lib)) :
    PackageTree lib → LockedPackage lib → Prop
  | .node name sourceDir source children, package =>
    package.name = name ∧ package.sourceDir = sourceDir ∧ package.source.canonicalKey = source ∧
      PackageTree.ChildrenOf packages children package.dependencies.entries

/-- Each edge has its alias and the tree of the entry it leads to. -/
def PackageTree.ChildrenOf (packages : List (LockedPackage lib)) :
    List (DependencyName × PackageTree lib) → List (DependencyName × PackageInstanceId) → Prop
  | [], [] => True
  | (name, tree) :: children, (name', target) :: edges =>
    name = name' ∧ (∃ package ∈ packages, package.id = target ∧
      PackageTree.Of packages tree package) ∧ PackageTree.ChildrenOf packages children edges
  | _, _ => False

end

namespace PackageTree

variable {packages : List (LockedPackage lib)}

mutual

/-- Entries without canonical duplicates are told apart by their trees. -/
theorem of_inj (hcanonical : (packages.map LockedPackage.canonicalInstance).Nodup) :
    ∀ (tree : PackageTree lib) {p q : LockedPackage lib}, p ∈ packages → q ∈ packages →
      tree.Of packages p → tree.Of packages q → p = q
  | .node name sourceDir source children, p, q, hp, hq, h, h' => by
    obtain ⟨hname, hdir, hsource, hchildren⟩ := h
    obtain ⟨hname', hdir', hsource', hchildren'⟩ := h'
    have hentries := childrenOf_inj hcanonical children hchildren hchildren'
    have hdependencies : p.dependencies = q.dependencies :=
      SortedMap.ext_perm (hentries ▸ List.Perm.refl _)
    refine List.inj_on_of_nodup_map hcanonical hp hq ?_
    rw [LockedPackage.canonicalInstance, LockedPackage.canonicalInstance, hname, hname', hdir,
      hdir', hsource, hsource', hdependencies]

theorem childrenOf_inj (hcanonical : (packages.map LockedPackage.canonicalInstance).Nodup) :
    ∀ (children : List (DependencyName × PackageTree lib))
      {edges edges' : List (DependencyName × PackageInstanceId)},
      ChildrenOf packages children edges → ChildrenOf packages children edges' → edges = edges'
  | [], [], [], _, _ => rfl
  | [], _ :: _, _, h, _ => h.elim
  | [], [], _ :: _, _, h => h.elim
  | _ :: _, [], _, h, _ => h.elim
  | _ :: _, _ :: _, [], _, h => h.elim
  | (name, tree) :: children, (dependency, target) :: edges, (dependency', target') :: edges', h, h' => by
    obtain ⟨rfl, ⟨p, hp, rfl, htree⟩, hrest⟩ := h
    obtain ⟨rfl, ⟨q, hq, rfl, htree'⟩, hrest'⟩ := h'
    obtain rfl := of_inj hcanonical tree hp hq htree htree'
    rw [childrenOf_inj hcanonical children hrest hrest']

end

mutual

/-- Where the ids are distinct, an entry has one tree. -/
theorem of_unique (hids : (packages.map LockedPackage.id).Nodup) :
    ∀ (tree tree' : PackageTree lib) {p : LockedPackage lib},
      tree.Of packages p → tree'.Of packages p → tree = tree'
  | .node name sourceDir source children, .node name' sourceDir' source' children', p, h, h' => by
    obtain ⟨rfl, rfl, rfl, hchildren⟩ := h
    obtain ⟨rfl, rfl, rfl, hchildren'⟩ := h'
    rw [childrenOf_unique hids children children' hchildren hchildren']

theorem childrenOf_unique (hids : (packages.map LockedPackage.id).Nodup) :
    ∀ (children children' : List (DependencyName × PackageTree lib))
      {edges : List (DependencyName × PackageInstanceId)},
      ChildrenOf packages children edges → ChildrenOf packages children' edges →
        children = children'
  | [], [], _, _, _ => rfl
  | [], _ :: _, [], _, h => h.elim
  | [], _ :: _, _ :: _, h, _ => h.elim
  | _ :: _, [], [], h, _ => h.elim
  | _ :: _, [], _ :: _, _, h => h.elim
  | _ :: _, _ :: _, [], h, _ => h.elim
  | (name, tree) :: children, (name', tree') :: children', (dependency, target) :: edges, h, h' => by
    obtain ⟨rfl, ⟨p, hp, rfl, htree⟩, hrest⟩ := h
    obtain ⟨rfl, ⟨q, hq, hid, htree'⟩, hrest'⟩ := h'
    obtain rfl := List.inj_on_of_nodup_map hids hq hp hid
    rw [of_unique hids tree tree' htree htree', childrenOf_unique hids children children' hrest hrest']

end

/-- Edges whose targets have entries with trees have children. -/
theorem exists_childrenOf {edges : List (DependencyName × PackageInstanceId)}
    (h : ∀ e ∈ edges, ∃ package ∈ packages, package.id = e.2 ∧
      ∃ tree : PackageTree lib, tree.Of packages package) :
    ∃ children, ChildrenOf packages children edges := by
  induction edges with
  | nil => exact ⟨[], trivial⟩
  | cons e edges ih =>
    obtain ⟨package, hpackage, hid, tree, htree⟩ := h e List.mem_cons_self
    obtain ⟨children, hchildren⟩ := ih fun e' he' => h e' (List.mem_cons_of_mem e he')
    exact ⟨(e.1, tree) :: children, rfl, ⟨package, hpackage, hid, htree⟩, hchildren⟩

/-- In an order of the dependencies every entry has a tree: its targets stand before it. -/
theorem exists_of {order : List PackageInstanceId} (horder : InOrder (DependsOn packages) order)
    (hall : ∀ package ∈ packages, package.id ∈ order)
    (htargets : ∀ package ∈ packages, ∀ target ∈ package.targets,
      ∃ entry ∈ packages, entry.id = target) {package : LockedPackage lib}
    (hpackage : package ∈ packages) : ∃ tree : PackageTree lib, tree.Of packages package := by
  have htree : ∀ id ∈ order, ∀ p ∈ packages, p.id = id →
      ∃ tree : PackageTree lib, tree.Of packages p := by
    refine horder.induction fun id _ ih p hp hid => ?_
    obtain ⟨children, hchildren⟩ : ∃ children : List (DependencyName × PackageTree lib),
        ChildrenOf packages children p.dependencies.entries := by
      refine exists_childrenOf fun e he => ?_
      have htarget : e.2 ∈ p.targets := List.mem_map_of_mem he
      obtain ⟨entry, hentry, hentryId⟩ := htargets p hp e.2 htarget
      exact ⟨entry, hentry, hentryId, ih e.2 ⟨p, hp, hid, htarget⟩ entry hentry hentryId⟩
    exact ⟨.node p.name p.sourceDir p.source.canonicalKey children, rfl, rfl, rfl, hchildren⟩
  exact htree package.id (hall package hpackage) package hpackage rfl

end PackageTree

variable [DecidableEq Host] {graphcal stdlib : Text}

/-- In a validated lockfile every entry has one complete dependency tree, and entries with equal
trees are one entry. -/
theorem canonical_minimality (valid : ValidatedLockfile lib graphcal stdlib) :
    (∀ package ∈ valid.lockfile.packages,
      ∃! tree : PackageTree lib, tree.Of valid.lockfile.packages package) ∧
    ∀ (i j : ℕ) (p q : LockedPackage lib) (tree : PackageTree lib),
      valid.lockfile.packages[i]? = some p → valid.lockfile.packages[j]? = some q →
      tree.Of valid.lockfile.packages p → tree.Of valid.lockfile.packages q → i = j := by
  obtain ⟨-, -, hwf⟩ := check_eq_ok.mp valid.checked
  have htargets : ∀ package ∈ valid.lockfile.packages, ∀ target ∈ package.targets,
      target ∈ valid.lockfile.packages.map LockedPackage.id := fun package hpackage target htarget =>
    List.mem_map.mpr (hwf.targets package hpackage target htarget)
  have hcycles : rejectDependencyCycles valid.lockfile.packages = .ok () :=
    rejectDependencyCycles_eq_ok htargets hwf.acyclic
  obtain ⟨order, horder, hall⟩ := rejectDependencyCycles_order hwf.ids hcycles
  refine ⟨fun package hpackage => ?_, fun i j p q tree hi hj hp hq => ?_⟩
  · obtain ⟨tree, htree⟩ := PackageTree.exists_of horder hall hwf.targets hpackage
    exact ⟨tree, htree, fun tree' htree' => PackageTree.of_unique hwf.ids tree' tree htree' htree⟩
  · obtain rfl := PackageTree.of_inj hwf.canonical tree (List.mem_of_getElem? hi)
      (List.mem_of_getElem? hj) hp hq
    have hlt := (List.getElem?_eq_some_iff.mp hi).1
    exact (List.getElem?_inj hlt hwf.ids.of_map).mp (hi.trans hj.symm)

end ProvenGraphcal
